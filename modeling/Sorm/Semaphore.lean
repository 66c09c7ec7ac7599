import Mathlib.Logic.Function.Basic
import Mathlib.Logic.Relation
import Mathlib.Tactic

/-!
# A counting semaphore and its clients

Any number of clients take and release one semaphore. Taking waits for a positive value; releasing
never waits. A semaphore that starts at one stays binary as long as no client releases what it does
not hold, and then at most one client holds it.
-/

namespace Semaphore

structure State (ι : Type) where
  value : ℕ
  held : ι → ℤ

variable {ι : Type} [DecidableEq ι]

inductive Step (s : State ι) : State ι → Prop
  | acquire (i : ι) (h : 0 < s.value) :
      Step s ⟨s.value - 1, Function.update s.held i (s.held i + 1)⟩
  | release (i : ι) (h : 0 < s.held i) :
      Step s ⟨s.value + 1, Function.update s.held i (s.held i - 1)⟩

/-- Nobody holds the semaphore and it is free, or one client holds it once. -/
inductive Binary (s : State ι) : Prop
  | free (value : s.value = 1) (held : ∀ i, s.held i = 0)
  | taken (value : s.value = 0) (i : ι) (holder : s.held i = 1) (others : ∀ j ≠ i, s.held j = 0)

theorem Binary.step {s s' : State ι} (h : Binary s) (hs : Step s s') : Binary s' := by
  cases hs with
  | acquire i hpos =>
      cases h with
      | free value held =>
          refine .taken ?_ i ?_ fun j hj => ?_
          · change s.value - 1 = 0
            omega
          · change Function.update s.held i (s.held i + 1) i = 1
            rw [Function.update_self, held i]
            rfl
          · change Function.update s.held i (s.held i + 1) j = 0
            rw [Function.update_of_ne hj]
            exact held j
      | taken value k holder others => omega
  | release i hpos =>
      cases h with
      | free value held =>
          have hzero := held i
          omega
      | taken value k holder others =>
          have hik : i = k := by
            by_contra hne
            have hzero := others i hne
            omega
          subst hik
          refine .free ?_ fun j => ?_
          · change s.value + 1 = 1
            omega
          · change Function.update s.held i (s.held i - 1) j = 0
            by_cases hj : j = i
            · subst hj
              rw [Function.update_self, holder]
              rfl
            · rw [Function.update_of_ne hj]
              exact others j hj

theorem Binary.reachable {s s' : State ι} (h : Binary s) (hs : Relation.ReflTransGen Step s s') :
    Binary s' := by
  induction hs with
  | refl => exact h
  | tail _ hstep ih => exact ih.step hstep

omit [DecidableEq ι] in
theorem Binary.value_le_one {s : State ι} (h : Binary s) : s.value ≤ 1 := by
  cases h with
  | free value held => omega
  | taken value i holder others => omega

/-- Two clients that hold a binary semaphore are the same. -/
theorem Binary.exclusive {s : State ι} (h : Binary s) {i j : ι} (hi : 0 < s.held i)
    (hj : 0 < s.held j) : i = j := by
  cases h with
  | free value held =>
      have hzero := held i
      omega
  | taken value k holder others =>
      have hk : ∀ l, 0 < s.held l → l = k := by
        intro l hl
        by_contra hne
        have hzero := others l hne
        omega
      exact (hk i hi).trans (hk j hj).symm

structure AtMostOne (s : State ι) : Prop where
  value_le_one : s.value ≤ 1
  held_le_one : ∀ i, s.held i ≤ 1
  alone : ∀ i, 0 < s.held i → s.value = 0 ∧ ∀ j, 0 < s.held j → j = i

omit [DecidableEq ι] in
theorem AtMostOne.set {s : State ι} (hfree : ∀ i, s.held i = 0) : AtMostOne ⟨1, s.held⟩ where
  value_le_one := le_rfl
  held_le_one i := by
    have hzero := hfree i
    change s.held i ≤ 1
    omega
  alone i hi := by
    have hzero := hfree i
    change 0 < s.held i at hi
    omega

theorem AtMostOne.step {s s' : State ι} (h : AtMostOne s) (hs : Step s s') : AtMostOne s' := by
  have hvalue := h.value_le_one
  cases hs with
  | acquire i hpos =>
      have hfree : ∀ j, ¬ 0 < s.held j := by
        intro j hj
        have hzero := (h.alone j hj).1
        omega
      refine ⟨?_, fun j => ?_, fun j hj => ⟨?_, fun k hk => ?_⟩⟩
      · change s.value - 1 ≤ 1
        omega
      · change Function.update s.held i (s.held i + 1) j ≤ 1
        by_cases hji : j = i
        · subst hji
          have hself := hfree j
          rw [Function.update_self]
          omega
        · rw [Function.update_of_ne hji]
          exact h.held_le_one j
      · change s.value - 1 = 0
        omega
      · have honly : ∀ l, 0 < Function.update s.held i (s.held i + 1) l → l = i := by
          intro l hl
          by_contra hne
          rw [Function.update_of_ne hne] at hl
          exact hfree l hl
        exact (honly k hk).trans (honly j hj).symm
  | release i hpos =>
      obtain ⟨hzero, halone⟩ := h.alone i hpos
      have hself := h.held_le_one i
      have hnone : ∀ j, ¬ 0 < Function.update s.held i (s.held i - 1) j := by
        intro j hj
        by_cases hji : j = i
        · subst hji
          rw [Function.update_self] at hj
          omega
        · rw [Function.update_of_ne hji] at hj
          exact hji (halone j hj)
      refine ⟨?_, fun j => ?_, fun j hj => absurd hj (hnone j)⟩
      · change s.value + 1 ≤ 1
        omega
      · have hj := hnone j
        change Function.update s.held i (s.held i - 1) j ≤ 1
        omega

end Semaphore
