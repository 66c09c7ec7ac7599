import Sorm.Interaction

/-!
# Running a program against a handler

A handler answers every call from a state of its own. A program is a finite tree of calls, so its
run ends: it returns, or it stops.
-/

namespace Interaction

variable {C : Type} {R : C → Type} {σ α β : Type}

abbrev Handler {C : Type} (R : C → Type) (σ : Type) := (c : C) → σ → R c × σ

namespace Prog

def run (h : Handler R σ) : Prog C R α → σ → Except Halt α × σ
  | .pure a, s => (.ok a, s)
  | .call c k, s => run h (k (h c s).1) (h c s).2
  | .stop why, s => (.error why, s)

variable {h : Handler R σ} {p : Prog C R α} {s s' : σ}

@[simp] theorem run_pure (a : α) : run h (pure a : Prog C R α) s = (.ok a, s) := rfl

@[simp] theorem run_stop (why : Halt) : run h (.stop why : Prog C R α) s = (.error why, s) := rfl

@[simp] theorem run_perform (c : C) :
    run h (perform c) s = (.ok (h c s).1, (h c s).2) := rfl

theorem run_bind (f : α → Prog C R β) :
    run h (p >>= f) s = match run h p s with
      | (.ok a, s') => run h (f a) s'
      | (.error why, s') => (.error why, s') := by
  change run h (p.bind f) s = _
  induction p generalizing s with
  | pure a => rfl
  | call c k ih => exact ih (h c s).1
  | stop why => rfl

theorem run_bind_ok {a : α} (hp : run h p s = (.ok a, s')) (f : α → Prog C R β) :
    run h (p >>= f) s = run h (f a) s' := by
  rw [run_bind, hp]

theorem run_bind_error {why : Halt} (hp : run h p s = (.error why, s')) (f : α → Prog C R β) :
    run h (p >>= f) s = (.error why, s') := by
  rw [run_bind, hp]

@[simp] theorem run_perform_bind (c : C) (f : R c → Prog C R β) :
    run h (perform c >>= f) s = run h (f (h c s).1) (h c s).2 := rfl

/-- A retried program that ends as it did before when it is run again. -/
theorem run_retry {a : α} {again : α → Bool} (hp : run h p s = (.ok a, s'))
    (hagain : again a → run h p s' = (.ok a, s')) (n : ℕ) :
    run h (retry again p n) s = (.ok a, s') := by
  induction n generalizing s with
  | zero => exact hp
  | succ n ih =>
      rw [retry, run_bind_ok hp]
      split
      · next ha => exact ih (hagain ha)
      · rfl

end Prog
end Interaction
