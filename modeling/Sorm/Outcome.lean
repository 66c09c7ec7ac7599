import Sorm.Interaction

/-!
# How a program can end

`Reaches A p x` says that a run of `p` on answers from `A` ends in `x`, a result or the reason why
it stopped. `EndsIn A p Q` is the weakest precondition that also speaks about the programs that
stop: every end that can be reached is in `Q`.
-/

namespace Interaction

variable {C : Type} {R : C → Type} {α β : Type}

namespace Prog

variable {A A' : (c : C) → R c → Prop}

def Reaches (A : (c : C) → R c → Prop) (p : Prog C R α) (x : Except Halt α) : Prop :=
  ∃ tr : List (Event R), (∀ e ∈ tr, A e.1 e.2) ∧ p.Emits tr (.ofExcept x)

theorem Reaches.mono {p : Prog C R α} {x : Except Halt α} (hA : ∀ c r, A c r → A' c r)
    (h : Reaches A p x) : Reaches A' p x := by
  obtain ⟨tr, hanswers, hemits⟩ := h
  exact ⟨tr, fun e he => hA _ _ (hanswers e he), hemits⟩

theorem reaches_pure {a : α} {x : Except Halt α} :
    Reaches A (pure a : Prog C R α) x ↔ x = .ok a := by
  constructor
  · rintro ⟨tr, -, hemits⟩
    cases x with
    | ok b => cases hemits; rfl
    | error why => cases hemits
  · rintro rfl
    exact ⟨[], fun e he => absurd he List.not_mem_nil, .nil _⟩

theorem reaches_stop {why : Halt} {x : Except Halt α} :
    Reaches A (.stop why : Prog C R α) x ↔ x = .error why := by
  constructor
  · rintro ⟨tr, -, hemits⟩
    cases x with
    | ok b => cases hemits
    | error why => cases hemits; rfl
  · rintro rfl
    exact ⟨[], fun e he => absurd he List.not_mem_nil, .nil _⟩

theorem reaches_call {c : C} {k : R c → Prog C R α} {x : Except Halt α} :
    Reaches A (.call c k) x ↔ ∃ r, A c r ∧ Reaches A (k r) x := by
  constructor
  · rintro ⟨tr, hanswers, hemits⟩
    cases tr with
    | nil =>
        have heq := hemits.eq_of_nil
        cases x with
        | ok a => cases heq
        | error why => cases heq
    | cons e tr =>
        cases hemits with
        | cons c k r hrest =>
            exact ⟨r, hanswers ⟨c, r⟩ List.mem_cons_self, tr,
              fun e he => hanswers e (List.mem_cons_of_mem _ he), hrest⟩
  · rintro ⟨r, hr, tr, hanswers, hrest⟩
    refine ⟨⟨c, r⟩ :: tr, ?_, .cons c k r hrest⟩
    intro e he
    rcases List.mem_cons.mp he with rfl | he
    · exact hr
    · exact hanswers e he

/-- A bound program ends where its first part stops, or where the rest ends. -/
theorem reaches_bind {p : Prog C R α} {f : α → Prog C R β} {y : Except Halt β} :
    Reaches A (p >>= f) y ↔ (∃ a, Reaches A p (.ok a) ∧ Reaches A (f a) y) ∨
      ∃ why, Reaches A p (.error why) ∧ y = .error why := by
  change Reaches A (p.bind f) y ↔ _
  induction p with
  | pure a =>
      constructor
      · exact fun h => Or.inl ⟨a, reaches_pure.mpr rfl, h⟩
      · rintro (⟨b, hb, h⟩ | ⟨why, hwhy, -⟩)
        · cases reaches_pure.mp hb
          exact h
        · cases reaches_pure.mp hwhy
  | stop why =>
      constructor
      · exact fun h => Or.inr ⟨why, reaches_stop.mpr rfl, reaches_stop.mp h⟩
      · rintro (⟨b, hb, -⟩ | ⟨why', hwhy, rfl⟩)
        · cases reaches_stop.mp hb
        · cases reaches_stop.mp hwhy
          exact reaches_stop.mpr rfl
  | call c k ih =>
      rw [Prog.bind, reaches_call]
      constructor
      · rintro ⟨r, hr, h⟩
        rcases (ih r).mp h with ⟨a, ha, h⟩ | ⟨why, hwhy, hy⟩
        · exact Or.inl ⟨a, reaches_call.mpr ⟨r, hr, ha⟩, h⟩
        · exact Or.inr ⟨why, reaches_call.mpr ⟨r, hr, hwhy⟩, hy⟩
      · rintro (⟨a, ha, h⟩ | ⟨why, hwhy, hy⟩)
        · obtain ⟨r, hr, ha⟩ := reaches_call.mp ha
          exact ⟨r, hr, (ih r).mpr (Or.inl ⟨a, ha, h⟩)⟩
        · obtain ⟨r, hr, hwhy⟩ := reaches_call.mp hwhy
          exact ⟨r, hr, (ih r).mpr (Or.inr ⟨why, hwhy, hy⟩)⟩

/-- When every call has an answer, every program has an end. -/
theorem exists_reaches (hA : ∀ c, ∃ r, A c r) (p : Prog C R α) : ∃ x, Reaches A p x := by
  induction p with
  | pure a => exact ⟨.ok a, reaches_pure.mpr rfl⟩
  | stop why => exact ⟨.error why, reaches_stop.mpr rfl⟩
  | call c k ih =>
      obtain ⟨r, hr⟩ := hA c
      obtain ⟨x, hx⟩ := ih r
      exact ⟨x, reaches_call.mpr ⟨r, hr, hx⟩⟩

/-- Every end of a run of `p` on answers from `A` is in `Q`. -/
structure EndsIn (A : (c : C) → R c → Prop) (p : Prog C R α) (Q : Except Halt α → Prop) :
    Prop where
  ends : ∀ x, Reaches A p x → Q x

variable {P P' : Except Halt α → Prop} {Q : Except Halt β → Prop}

theorem EndsIn.mono {p : Prog C R α} (h : EndsIn A p P) (hP : ∀ x, P x → P' x) : EndsIn A p P' :=
  ⟨fun x hx => hP x (h.ends x hx)⟩

theorem EndsIn.pure {a : α} (h : P (.ok a)) : EndsIn A (pure a : Prog C R α) P := by
  constructor
  intro x hx
  rw [reaches_pure.mp hx]
  exact h

theorem EndsIn.stop {why : Halt} (h : P (.error why)) : EndsIn A (.stop why : Prog C R α) P := by
  constructor
  intro x hx
  rw [reaches_stop.mp hx]
  exact h

theorem EndsIn.perform {c : C} {P : Except Halt (R c) → Prop} (h : ∀ r, A c r → P (.ok r)) :
    EndsIn A (perform c) P := by
  constructor
  intro x hx
  obtain ⟨r, hr, hx⟩ := reaches_call.mp hx
  rw [reaches_pure.mp hx]
  exact h r hr

theorem EndsIn.bind {p : Prog C R α} {f : α → Prog C R β} (hp : EndsIn A p P)
    (hf : ∀ a, P (.ok a) → EndsIn A (f a) Q) (hstop : ∀ why, P (.error why) → Q (.error why)) :
    EndsIn A (p >>= f) Q := by
  constructor
  intro y hy
  rcases reaches_bind.mp hy with ⟨a, ha, hy⟩ | ⟨why, hwhy, rfl⟩
  · exact (hf a (hp.ends _ ha)).ends y hy
  · exact hstop why (hp.ends _ hwhy)

theorem EndsIn.ofExcept {e : Except Halt α} (h : P e) : EndsIn A (ofExcept e : Prog C R α) P := by
  cases e with
  | ok a => exact EndsIn.pure h
  | error why => exact EndsIn.stop h

theorem EndsIn.retry {again : α → Bool} {p : Prog C R α} (h : EndsIn A p P) (n : ℕ) :
    EndsIn A (retry again p n) P := by
  induction n with
  | zero => exact h
  | succ n ih =>
      unfold Prog.retry
      apply EndsIn.bind h
      · intro a ha
        split
        · exact ih
        · exact EndsIn.pure ha
      · exact fun why hwhy => hwhy

end Prog
end Interaction
