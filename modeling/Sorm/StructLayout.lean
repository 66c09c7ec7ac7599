import Mathlib.Data.List.Basic
import Mathlib.Tactic

/-!
# The layout of a C struct

Members are placed in order, each at the next multiple of its alignment. The members are labelled,
and the offset of a member is looked up by its label.
-/

namespace StructLayout

structure Layout where
  size : ℕ
  align : ℕ
deriving DecidableEq, Repr

def roundUp (n align : ℕ) : ℕ := (n + align - 1) / align * align

theorem le_roundUp (n : ℕ) {align : ℕ} (h : 0 < align) : n ≤ roundUp n align := by
  have hdiv := Nat.div_add_mod (n + align - 1) align
  have hmod := Nat.mod_lt (n + align - 1) h
  unfold roundUp
  rw [Nat.mul_comm]
  omega

theorem dvd_roundUp (n align : ℕ) : align ∣ roundUp n align := Nat.dvd_mul_left _ _

theorem roundUp_of_dvd {n align : ℕ} (h : 0 < align) (hdvd : align ∣ n) : roundUp n align = n := by
  obtain ⟨k, rfl⟩ := hdvd
  have hdiv : (align * k + align - 1) / align = k := by
    rw [Nat.add_sub_assoc h, Nat.mul_add_div h, Nat.div_eq_of_lt (by omega), Nat.add_zero]
  rw [roundUp, hdiv, Nat.mul_comm]

theorem roundUp_eq_iff {n align : ℕ} (h : 0 < align) : roundUp n align = n ↔ align ∣ n :=
  ⟨fun heq => heq ▸ dvd_roundUp n align, roundUp_of_dvd h⟩

theorem roundUp_add {a align : ℕ} (h : 0 < align) (hdvd : align ∣ a) (n : ℕ) :
    roundUp (a + n) align = a + roundUp n align := by
  obtain ⟨k, rfl⟩ := hdvd
  have hsplit : align * k + n + align - 1 = align * k + (n + align - 1) := by omega
  rw [roundUp, hsplit, Nat.mul_add_div h, Nat.add_mul, roundUp, Nat.mul_comm k]

variable {ι : Type}

def place : ℕ → List (ι × Layout) → List (ι × ℕ)
  | _, [] => []
  | e, m :: ms => (m.1, roundUp e m.2.align) :: place (roundUp e m.2.align + m.2.size) ms

def endOf : ℕ → List (ι × Layout) → ℕ
  | e, [] => e
  | e, m :: ms => endOf (roundUp e m.2.align + m.2.size) ms

theorem place_append (e : ℕ) (ms ms' : List (ι × Layout)) :
    place e (ms ++ ms') = place e ms ++ place (endOf e ms) ms' := by
  induction ms generalizing e with
  | nil => rfl
  | cons m ms ih => rw [List.cons_append, place, ih, place, endOf, List.cons_append]

theorem map_fst_place (e : ℕ) (ms : List (ι × Layout)) :
    (place e ms).map Prod.fst = ms.map Prod.fst := by
  induction ms generalizing e with
  | nil => rfl
  | cons m ms ih => rw [place, List.map_cons, List.map_cons, ih]

variable [DecidableEq ι]

theorem lookup_eq_none {α : Type} {l : List (ι × α)} {k : ι} (h : k ∉ l.map Prod.fst) :
    l.lookup k = none := by
  rw [List.lookup_eq_none_iff]
  intro p hp
  rw [bne_iff_ne]
  rintro rfl
  exact h (List.mem_map_of_mem hp)

theorem lookup_cons_of_ne {α : Type} {k a : ι} (h : k ≠ a) (v : α) (l : List (ι × α)) :
    ((a, v) :: l).lookup k = l.lookup k := by
  rw [List.lookup_cons, beq_eq_false_iff_ne.mpr h]

/-- A member that is none of the first ones is looked up in the rest. -/
theorem lookup_place_append (e : ℕ) {ms : List (ι × Layout)} (ms' : List (ι × Layout)) {k : ι}
    (h : k ∉ ms.map Prod.fst) :
    (place e (ms ++ ms')).lookup k = (place (endOf e ms) ms').lookup k := by
  rw [place_append, List.lookup_append, lookup_eq_none (by rwa [map_fst_place]), Option.none_or]

/-- A member of the first ones is looked up there. -/
theorem lookup_place_left (e : ℕ) (ms : List (ι × Layout)) {ms' : List (ι × Layout)} {k : ι}
    (h : k ∉ ms'.map Prod.fst) : (place e (ms ++ ms')).lookup k = (place e ms).lookup k := by
  have hright : (place (endOf e ms) ms').lookup k = none :=
    lookup_eq_none (by rwa [map_fst_place])
  rw [place_append, List.lookup_append, hright, Option.or_none]

end StructLayout
