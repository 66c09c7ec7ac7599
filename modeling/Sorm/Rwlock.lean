import Mathlib.Logic.Function.Basic
import Mathlib.Logic.Relation
import Mathlib.Tactic

/-!
# A reader/writer lock and its clients

Any number of clients share one lock, each holding it for reading, for writing or not at all. A
correct lock is granted for reading while nobody holds it for writing, and for writing while nobody
holds it; whoever holds it may release it at any time. Then a writer is always alone.
-/

namespace Rwlock

inductive Mode
  | read
  | write
deriving DecidableEq, Repr

abbrev Held (ι : Type) := ι → Option Mode

variable {ι : Type}

def Grants (held : Held ι) : Mode → Prop
  | .read => ∀ i, held i ≠ some .write
  | .write => ∀ i, held i = none

inductive Step [DecidableEq ι] (held : Held ι) : Held ι → Prop
  | acquire (i : ι) (mode : Mode) (h : Grants held mode) :
      Step held (Function.update held i (some mode))
  | release (i : ι) : Step held (Function.update held i none)

def Exclusive (held : Held ι) : Prop := ∀ i, held i = some .write → ∀ j, j ≠ i → held j = none

theorem exclusive_free {held : Held ι} (h : ∀ i, held i = none) : Exclusive held :=
  fun _ _ j _ => h j

theorem Exclusive.step [DecidableEq ι] {held held' : Held ι} (h : Exclusive held) (hs : Step held held') :
    Exclusive held' := by
  intro k hk j hj
  cases hs with
  | acquire i mode hgrant =>
      by_cases hki : k = i
      · subst hki
        rw [Function.update_self] at hk
        cases hk
        rw [Function.update_of_ne hj]
        exact hgrant j
      · rw [Function.update_of_ne hki] at hk
        cases mode with
        | read => exact absurd hk (hgrant k)
        | write =>
            have hnone := hgrant k
            rw [hk] at hnone
            cases hnone
  | release i =>
      by_cases hki : k = i
      · subst hki
        rw [Function.update_self] at hk
        cases hk
      · rw [Function.update_of_ne hki] at hk
        by_cases hji : j = i
        · rw [hji, Function.update_self]
        · rw [Function.update_of_ne hji]
          exact h k hk j hj

/-- While one client holds the lock no other holds it for writing. -/
theorem Exclusive.ne_write {held : Held ι} (h : Exclusive held) {i j : ι} (hi : held i ≠ none)
    (hij : i ≠ j) : held j ≠ some .write := fun hj => hi (h j hj i hij)

end Rwlock
