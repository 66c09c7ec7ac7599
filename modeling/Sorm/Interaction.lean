import Mathlib.Tactic

/-!
# Programs over an interface of calls

A program is a tree of calls to an outside interface; every call is answered by the outside.
`Emits` is the small-step run of a program on the answers it happens to get, so a statement over
all emitted traces is a statement over all behaviours of the outside. A monitor keeps a state
along a trace, may rule out answers, and says which calls are allowed. `wp` is the weakest
precondition of a program under a monitor; its rules are proved once here and its soundness is
`wp_emits`.
-/

namespace Interaction

inductive Halt
  | abort
  | exit
  | undefined
  | unbounded
deriving DecidableEq, Repr

inductive Prog (C : Type) (R : C → Type) (α : Type)
  | pure (a : α) : Prog C R α
  | call (c : C) (k : R c → Prog C R α) : Prog C R α
  | stop (why : Halt) : Prog C R α

abbrev Event {C : Type} (R : C → Type) := Sigma R

variable {C : Type} {R : C → Type} {σ α β : Type}

namespace Prog

protected def bind : Prog C R α → (α → Prog C R β) → Prog C R β
  | .pure a, f => f a
  | .call c k, f => .call c (fun r => (k r).bind f)
  | .stop why, _ => .stop why

instance : Monad (Prog C R) where
  pure := .pure
  bind := Prog.bind

theorem bind_pure (p : Prog C R α) : p.bind .pure = p := by
  induction p with
  | pure a => rfl
  | call c k ih => simp only [Prog.bind, ih]
  | stop why => rfl

theorem bind_assoc {γ : Type} (p : Prog C R α) (f : α → Prog C R β) (g : β → Prog C R γ) :
    (p.bind f).bind g = p.bind (fun a => (f a).bind g) := by
  induction p with
  | pure a => rfl
  | call c k ih => simp only [Prog.bind, ih]
  | stop why => rfl

instance : LawfulMonad (Prog C R) :=
  LawfulMonad.mk' _ bind_pure (fun _ _ => rfl) bind_assoc

def perform (c : C) : Prog C R (R c) := .call c .pure

def ofExcept : Except Halt α → Prog C R α
  | .ok a => .pure a
  | .error why => .stop why

def retry (again : α → Bool) (p : Prog C R α) : ℕ → Prog C R α
  | 0 => p
  | n + 1 => do
      let a ← p
      if again a then retry again p n else return a

/-- `Emits p tr q`: after the calls and answers of `tr`, what is left of `p` is `q`. -/
inductive Emits : Prog C R α → List (Event R) → Prog C R α → Prop
  | nil (p : Prog C R α) : Emits p [] p
  | cons (c : C) (k : R c → Prog C R α) (r : R c) {tr : List (Event R)} {q : Prog C R α}
      (h : Emits (k r) tr q) : Emits (.call c k) (⟨c, r⟩ :: tr) q

theorem Emits.eq_of_nil {p q : Prog C R α} (h : Emits p [] q) : q = p := by
  cases h
  rfl

/-- The one call a program makes next, and what is left after its answer. -/
theorem emits_call_iff {c : C} {k : R c → Prog C R α} {e : Event R} {q : Prog C R α} :
    Emits (.call c k) [e] q ↔ ∃ r, e = ⟨c, r⟩ ∧ q = k r := by
  constructor
  · intro h
    cases h with
    | cons c k r h => exact ⟨r, rfl, h.eq_of_nil⟩
  · rintro ⟨r, rfl, rfl⟩
    exact .cons c k r (.nil _)

theorem not_emits_pure {a : α} {e : Event R} {tr : List (Event R)} {q : Prog C R α} :
    ¬ Emits (.pure a) (e :: tr) q := nofun

theorem Emits.append {p q q' : Prog C R α} {tr tr' : List (Event R)} (h : Emits p tr q)
    (h' : Emits q tr' q') : Emits p (tr ++ tr') q' := by
  induction h with
  | nil p => exact h'
  | cons c k r _ ih => exact .cons c k r (ih h')

theorem Emits.snoc {p : Prog C R α} {tr : List (Event R)} {c : C} {k : R c → Prog C R α}
    (h : Emits p tr (.call c k)) (r : R c) : Emits p (tr ++ [⟨c, r⟩]) (k r) :=
  h.append (.cons c k r (.nil _))

/-- Every prefix of an emitted trace is emitted, with the rest of it still to come. -/
theorem Emits.split {p q : Prog C R α} {tr₁ tr₂ : List (Event R)} (h : Emits p (tr₁ ++ tr₂) q) :
    ∃ p', Emits p tr₁ p' ∧ Emits p' tr₂ q := by
  induction tr₁ generalizing p with
  | nil => exact ⟨p, .nil p, h⟩
  | cons e tr₁ ih =>
      cases h with
      | cons c k r h =>
          obtain ⟨p', h₁, h₂⟩ := ih h
          exact ⟨p', .cons c k r h₁, h₂⟩

/-- A call in an emitted trace was the next call of what was left there. -/
theorem Emits.at_call {p q : Prog C R α} {tr₁ tr₂ : List (Event R)} {e : Event R}
    (h : Emits p (tr₁ ++ e :: tr₂) q) :
    ∃ k : R e.1 → Prog C R α, Emits p tr₁ (.call e.1 k) ∧ Emits (k e.2) tr₂ q := by
  obtain ⟨p', h₁, h₂⟩ := h.split
  cases h₂ with
  | cons c k r h => exact ⟨k, h₁, h⟩

/-- What a program does before it is bound is what the bound program does. -/
theorem Emits.bind {p q : Prog C R α} {tr : List (Event R)} (h : Emits p tr q)
    (f : α → Prog C R β) : Emits (p >>= f) tr (q >>= f) := by
  induction h with
  | nil p => exact .nil _
  | cons c k r _ ih => exact .cons c _ r ih

end Prog

/-- A state kept along a trace: `step` relates it across an answered call, `ok` says which calls
may be made. -/
structure Monitor {C : Type} (R : C → Type) (σ : Type) where
  ok : σ → C → Prop
  step : σ → (c : C) → R c → σ → Prop

namespace Monitor

variable (M : Monitor R σ)

inductive Run : σ → List (Event R) → σ → Prop
  | nil (s : σ) : Run s [] s
  | cons {s s' s'' : σ} {e : Event R} {tr : List (Event R)} (h : M.step s e.1 e.2 s')
      (ht : Run s' tr s'') : Run s (e :: tr) s''

variable {M}

theorem Run.append {s s' s'' : σ} {tr tr' : List (Event R)} (h : M.Run s tr s')
    (h' : M.Run s' tr' s'') : M.Run s (tr ++ tr') s'' := by
  induction h with
  | nil s => exact h'
  | cons hs _ ih => exact .cons hs (ih h')

theorem Run.split {s s'' : σ} {tr tr' : List (Event R)} (h : M.Run s (tr ++ tr') s'') :
    ∃ s', M.Run s tr s' ∧ M.Run s' tr' s'' := by
  induction tr generalizing s with
  | nil => exact ⟨s, .nil s, h⟩
  | cons e tr ih =>
      cases h with
      | cons hs ht =>
          obtain ⟨s', h₁, h₂⟩ := ih ht
          exact ⟨s', .cons hs h₁, h₂⟩

def assuming (M : Monitor R σ) (A : Event R → Prop) : Monitor R σ where
  ok := M.ok
  step s c r s' := M.step s c r s' ∧ A ⟨c, r⟩

theorem Run.assuming {A : Event R → Prop} {s s' : σ} {tr : List (Event R)} (h : M.Run s tr s')
    (hA : ∀ e ∈ tr, A e) : (M.assuming A).Run s tr s' := by
  induction h with
  | nil s => exact .nil s
  | cons hs ht ih =>
      have he := hA _ List.mem_cons_self
      exact .cons ⟨hs, he⟩ (ih fun e h => hA e (List.mem_cons_of_mem _ h))

def fold (ok : σ → C → Prop) (f : σ → Event R → σ) : Monitor R σ where
  ok := ok
  step s c r s' := s' = f s ⟨c, r⟩

theorem fold_run {ok : σ → C → Prop} {f : σ → Event R → σ} (s : σ) (tr : List (Event R)) :
    (fold ok f).Run s tr (tr.foldl f s) := by
  induction tr generalizing s with
  | nil => exact .nil s
  | cons e tr ih => exact .cons rfl (ih _)

def lax (M : Monitor R σ) : Monitor R σ where
  ok _ _ := True
  step := M.step

def logged (M : Monitor R σ) : Monitor R (σ × List (Event R)) where
  ok s := M.ok s.1
  step s c r s' := M.step s.1 c r s'.1 ∧ s'.2 = s.2 ++ [⟨c, r⟩]

theorem Run.logged {s s' : σ} {tr : List (Event R)} (h : M.Run s tr s') (log : List (Event R)) :
    M.logged.Run (s, log) tr (s', log ++ tr) := by
  induction h generalizing log with
  | nil s =>
      rw [List.append_nil]
      exact .nil _
  | @cons s s' s'' e tr hs ht ih =>
      have hrest := ih (log ++ [e])
      rw [List.append_assoc, List.singleton_append] at hrest
      exact .cons ⟨hs, rfl⟩ hrest

/-- Weakest precondition: every call `p` makes is allowed, and `Q` holds whenever it returns. -/
def wp (M : Monitor R σ) : Prog C R α → (α → σ → Prop) → σ → Prop
  | .pure a, Q, s => Q a s
  | .call c k, Q, s => M.ok s c ∧ ∀ r s', M.step s c r s' → wp M (k r) Q s'
  | .stop _, _, _ => True

variable {Q Q' : α → σ → Prop} {s : σ}

@[simp] theorem wp_pure (a : α) : wp M (pure a : Prog C R α) Q s ↔ Q a s := Iff.rfl

@[simp] theorem wp_stop (why : Halt) : wp M (.stop why : Prog C R α) Q s ↔ True := Iff.rfl

@[simp] theorem wp_perform (c : C) (Q : R c → σ → Prop) :
    wp M (Prog.perform c) Q s ↔ M.ok s c ∧ ∀ r s', M.step s c r s' → Q r s' := Iff.rfl

@[simp] theorem wp_bind (p : Prog C R α) (f : α → Prog C R β) (Q : β → σ → Prop) :
    wp M (p >>= f) Q s ↔ wp M p (fun a => wp M (f a) Q) s := by
  change wp M (p.bind f) Q s ↔ _
  induction p generalizing s with
  | pure a => rfl
  | call c k ih =>
      change (_ ∧ ∀ r s', _ → wp M ((k r).bind f) Q s') ↔ _
      simp only [ih, wp]
  | stop why => rfl

theorem wp_mono (hQ : ∀ a s, Q a s → Q' a s) {p : Prog C R α} (h : wp M p Q s) :
    wp M p Q' s := by
  induction p generalizing s with
  | pure a => exact hQ a s h
  | call c k ih => exact ⟨h.1, fun r s' hs => ih r (h.2 r s' hs)⟩
  | stop why => trivial

/-- What holds whatever calls are allowed may be added. -/
theorem wp_and_lax {p : Prog C R α} (h : wp M p Q s) (h' : wp M.lax p Q' s) :
    wp M p (fun a s => Q a s ∧ Q' a s) s := by
  induction p generalizing s with
  | pure a => exact ⟨h, h'⟩
  | call c k ih => exact ⟨h.1, fun r s' hs => ih r (h.2 r s' hs) (h'.2 r s' hs)⟩
  | stop why => trivial

/-- A retried program keeps what each of its attempts keeps. -/
theorem wp_retry {I : σ → Prop} {again : α → Bool} {p : Prog C R α}
    (hp : ∀ s, I s → wp M p (fun a s => if again a then I s ∧ Q a s else Q a s) s) (n : ℕ)
    (hs : I s) : wp M (Prog.retry again p n) Q s := by
  induction n generalizing s with
  | zero =>
      refine wp_mono (fun a s h => ?_) (hp s hs)
      split at h
      · exact h.2
      · exact h
  | succ n ih =>
      refine (wp_bind _ _ _).mpr (wp_mono (fun a s h => ?_) (hp s hs))
      split at h
      · next ha => simpa only [if_pos ha] using ih h.1
      · next ha => simpa only [if_neg ha, wp_pure] using h

@[simp] theorem wp_ofExcept (e : Except Halt α) :
    wp M (Prog.ofExcept e : Prog C R α) Q s ↔ ∀ a, e = .ok a → Q a s := by
  cases e with
  | error why => simp [Prog.ofExcept]
  | ok a => simp [Prog.ofExcept, wp]

/-- Soundness: what is left of a program after any trace still meets the postcondition. -/
theorem wp_emits {p q : Prog C R α} {tr : List (Event R)} {s' : σ} (h : wp M p Q s)
    (he : p.Emits tr q) (hr : M.Run s tr s') : wp M q Q s' := by
  induction he generalizing s with
  | nil p => cases hr; exact h
  | cons c k r _ ih =>
      cases hr with
      | cons hs ht => exact ih (h.2 r _ hs) ht

theorem wp_returns {p : Prog C R α} {a : α} {tr : List (Event R)} {s' : σ} (h : wp M p Q s)
    (he : p.Emits tr (.pure a)) (hr : M.Run s tr s') : Q a s' := wp_emits h he hr

/-- Every call in an emitted trace was allowed where it was made. -/
theorem wp_ok {p q : Prog C R α} {tr₁ tr₂ : List (Event R)} {e : Event R} {s' : σ}
    (h : wp M p Q s) (he : p.Emits (tr₁ ++ e :: tr₂) q) (hr : M.Run s tr₁ s') : M.ok s' e.1 := by
  obtain ⟨k, hk, _⟩ := he.at_call
  exact (wp_emits h hk hr).1

/-- `p` started in `P` only makes allowed calls and returns in `Q`. -/
def Triple (M : Monitor R σ) (P : σ → Prop) (p : Prog C R α) (Q : α → σ → Prop) : Prop :=
  ∀ s, P s → wp M p Q s

abbrev Keeps (M : Monitor R σ) (P : σ → Prop) (p : Prog C R α) : Prop :=
  Triple M P p fun _ => P

section Triple

variable {P P' : σ → Prop} {p : Prog C R α}

theorem Triple.pure {a : α} (h : ∀ s, P s → Q a s) : Triple M P (Pure.pure a) Q := h

theorem Triple.perform {c : C} {Q : R c → σ → Prop} (hok : ∀ s, P s → M.ok s c)
    (hstep : ∀ s r s', P s → M.step s c r s' → Q r s') : Triple M P (Prog.perform c) Q :=
  fun s hs => ⟨hok s hs, fun r s' h => hstep s r s' hs h⟩

theorem Triple.stop {why : Halt} : Triple M P (.stop why : Prog C R α) Q := fun _ _ => trivial

theorem Triple.bind {f : α → Prog C R β} {Q : α → σ → Prop} {Q' : β → σ → Prop}
    (hp : Triple M P p Q) (hf : ∀ a, Triple M (Q a) (f a) Q') : Triple M P (p >>= f) Q' :=
  fun s hs => (wp_bind p f Q').mpr (wp_mono (fun a s' h => hf a s' h) (hp s hs))

theorem Triple.mono (h : Triple M P p Q) (hP : ∀ s, P' s → P s) (hQ : ∀ a s, Q a s → Q' a s) :
    Triple M P' p Q' := fun s hs => wp_mono hQ (h s (hP s hs))

theorem Triple.post (h : Triple M P p Q) (hQ : ∀ a s, Q a s → Q' a s) : Triple M P p Q' :=
  h.mono (fun _ hs => hs) hQ

theorem Triple.ofExcept {e : Except Halt α} (h : ∀ a s, e = .ok a → P s → Q a s) :
    Triple M P (Prog.ofExcept e) Q :=
  fun s hs => (wp_ofExcept e).mpr fun a ha => h a s ha hs

theorem Triple.assuming {A : Event R → Prop} (h : Triple M P p Q) :
    Triple (M.assuming A) P p Q := by
  have hwp : ∀ (p : Prog C R α) s, wp M p Q s → wp (M.assuming A) p Q s := by
    intro p
    induction p with
    | pure a => exact fun _ hs => hs
    | call c k ih => exact fun s hs => ⟨hs.1, fun r s' hr => ih r s' (hs.2 r s' hr.1)⟩
    | stop why => exact fun _ _ => trivial
  exact fun s hs => hwp p s (h s hs)

theorem Triple.and_lax {P' : σ → Prop} (h : Triple M P p Q) (h' : Triple M.lax P' p Q') :
    Triple M (fun s => P s ∧ P' s) p fun a s => Q a s ∧ Q' a s :=
  fun s hs => wp_and_lax (h s hs.1) (h' s hs.2)

theorem Triple.logged (h : Triple M P p Q) :
    Triple M.logged (fun s => P s.1) p fun a s => Q a s.1 := by
  have hwp : ∀ (p : Prog C R α) s, wp M p Q s.1 → wp M.logged p (fun a s => Q a s.1) s := by
    intro p
    induction p with
    | pure a => exact fun _ hs => hs
    | call c k ih => exact fun s hs => ⟨hs.1, fun r s' hr => ih r s' (hs.2 r s'.1 hr.1)⟩
    | stop why => exact fun _ _ => trivial
  exact fun s hs => hwp p s (h s.1 hs)

theorem Triple.retry {I : σ → Prop} {again : α → Bool} (n : ℕ)
    (hp : Triple M I p fun a s => if again a then I s ∧ Q a s else Q a s) :
    Triple M I (Prog.retry again p n) Q := fun _ hs => wp_retry hp n hs

theorem Keeps.pure {a : α} : Keeps M P (Pure.pure a : Prog C R α) := fun _ hs => hs

theorem Keeps.bind {f : α → Prog C R β} (hp : Keeps M P p) (hf : ∀ a, Keeps M P (f a)) :
    Keeps M P (p >>= f) := Triple.bind hp hf

theorem Keeps.ofExcept {e : Except Halt α} : Keeps M P (Prog.ofExcept e : Prog C R α) :=
  Triple.ofExcept fun _ _ _ hs => hs

theorem Keeps.retry {again : α → Bool} (n : ℕ) (hp : Keeps M P p) :
    Keeps M P (Prog.retry again p n) := by
  apply Triple.retry
  refine hp.post fun a s hs => ?_
  split
  · exact ⟨hs, hs⟩
  · exact hs

theorem Triple.returns (h : Triple M P p Q) {a : α} {tr : List (Event R)} {s s' : σ} (hs : P s)
    (he : p.Emits tr (.pure a)) (hr : M.Run s tr s') : Q a s' := wp_returns (h s hs) he hr

/-- What is known of every result a program can have is known at its end. -/
theorem Triple.results {F : α → Prop} (h : Triple M P p Q)
    (hF : ∀ tr a, p.Emits tr (.pure a) → F a) : Triple M P p fun a s => Q a s ∧ F a := by
  have hwp : ∀ (p : Prog C R α) (s : σ), (∀ tr a, p.Emits tr (.pure a) → F a) → wp M p Q s →
      wp M p (fun a s => Q a s ∧ F a) s := by
    intro p
    induction p with
    | pure a => exact fun s hF h => ⟨h, hF [] a (.nil _)⟩
    | call c k ih =>
        intro s hF h
        exact ⟨h.1, fun r s' hstep => ih r s' (fun tr a he => hF _ a (.cons c k r he))
          (h.2 r s' hstep)⟩
    | stop why => exact fun _ _ _ => trivial
  exact fun s hs => hwp p s hF (h s hs)

end Triple

end Monitor
end Interaction
