import Sorm.Interaction

/-!
# What a trace contains

Two monitors that rule out nothing: `seen` remembers whether an event of some kind has occurred,
and `collecting` lists what a partial function reads off the events. Calls of no such kind leave
their states alone.
-/

namespace Interaction
namespace Monitor

variable {C : Type} {R : C → Type} {p : Event R → Bool} {c : C}

def seen (p : Event R → Bool) : Monitor R Bool := fold (fun _ _ => True) fun b e => b || p e

theorem foldl_seen (tr : List (Event R)) (b : Bool) :
    tr.foldl (fun b e => b || p e) b = (b || tr.any p) := by
  induction tr generalizing b with
  | nil => rw [List.foldl_nil, List.any_nil, Bool.or_false]
  | cons e tr ih => rw [List.foldl_cons, ih, List.any_cons, Bool.or_assoc]

theorem seen_run (tr : List (Event R)) : (seen p).Run false tr (tr.any p) := by
  have hrun : (seen p).Run false tr (tr.foldl (fun b e => b || p e) false) := fold_run false tr
  rw [foldl_seen, Bool.false_or] at hrun
  exact hrun

theorem keeps_seen {P : Bool → Prop} (hc : ∀ r, p ⟨c, r⟩ = false) :
    Keeps (seen p) P (Prog.perform c) := by
  apply Triple.perform
  · exact fun b hb => trivial
  · intro b r b' hb hstep
    change b' = (b || p ⟨c, r⟩) at hstep
    rw [hc r, Bool.or_false] at hstep
    rw [hstep]
    exact hb

theorem seen_perform {before : Bool} :
    Triple (seen p) (· = before) (Prog.perform c) fun r b => b = (before || p ⟨c, r⟩) := by
  apply Triple.perform
  · exact fun b hb => trivial
  · rintro b r b' rfl hstep
    exact hstep

variable {β : Type} {f : Event R → Option β}

def collecting (f : Event R → Option β) : Monitor R (List β) :=
  fold (fun _ _ => True) fun l e => l ++ (f e).toList

theorem foldl_collecting (tr : List (Event R)) (l : List β) :
    tr.foldl (fun l e => l ++ (f e).toList) l = l ++ tr.filterMap f := by
  induction tr generalizing l with
  | nil => rw [List.foldl_nil, List.filterMap_nil, List.append_nil]
  | cons e tr ih =>
      rw [List.foldl_cons, ih, List.append_assoc]
      cases he : f e with
      | none => rw [List.filterMap_cons_none he, Option.toList_none, List.nil_append]
      | some b => rw [List.filterMap_cons_some he, Option.toList_some, List.singleton_append]

theorem collecting_run (tr : List (Event R)) : (collecting f).Run [] tr (tr.filterMap f) := by
  have hrun : (collecting f).Run [] tr (tr.foldl (fun l e => l ++ (f e).toList) []) :=
    fold_run [] tr
  rw [foldl_collecting, List.nil_append] at hrun
  exact hrun

theorem keeps_collecting {P : List β → Prop} (hc : ∀ r, f ⟨c, r⟩ = none) :
    Keeps (collecting f) P (Prog.perform c) := by
  apply Triple.perform
  · exact fun l hl => trivial
  · intro l r l' hl hstep
    change l' = l ++ (f ⟨c, r⟩).toList at hstep
    rw [hc r, Option.toList_none, List.append_nil] at hstep
    rw [hstep]
    exact hl

theorem collecting_perform {before : List β} {g : R c → β} (hc : ∀ r, f ⟨c, r⟩ = some (g r)) :
    Triple (collecting f) (· = before) (Prog.perform c) fun r l => l = before ++ [g r] := by
  apply Triple.perform
  · exact fun l hl => trivial
  · intro l r l' hl hstep
    change l' = l ++ (f ⟨c, r⟩).toList at hstep
    rw [hc r, Option.toList_some, hl] at hstep
    exact hstep

variable {σ τ α : Type} {M : Monitor R σ} {N : Monitor R τ}

def prod (M : Monitor R σ) (N : Monitor R τ) : Monitor R (σ × τ) where
  ok s c := M.ok s.1 c ∧ N.ok s.2 c
  step s c r s' := M.step s.1 c r s'.1 ∧ N.step s.2 c r s'.2

theorem Run.prod {s s' : σ} {t t' : τ} {tr : List (Event R)} (h : M.Run s tr s')
    (h' : N.Run t tr t') : (M.prod N).Run (s, t) tr (s', t') := by
  induction h generalizing t with
  | nil s =>
      cases h'
      exact .nil _
  | cons hs _ ih =>
      cases h' with
      | cons ht hrest => exact .cons ⟨hs, ht⟩ (ih hrest)

theorem wp_prod {p : Prog C R α} {Q : α → σ → Prop} {Q' : α → τ → Prop} {s : σ × τ}
    (h : wp M p Q s.1) (h' : wp N p Q' s.2) :
    wp (M.prod N) p (fun a s => Q a s.1 ∧ Q' a s.2) s := by
  induction p generalizing s with
  | pure a => exact ⟨h, h'⟩
  | call c k ih =>
      exact ⟨⟨h.1, h'.1⟩, fun r s' hs => ih r (h.2 r s'.1 hs.1) (h'.2 r s'.2 hs.2)⟩
  | stop why => trivial

theorem Triple.prod {p : Prog C R α} {P : σ → Prop} {P' : τ → Prop} {Q : α → σ → Prop}
    {Q' : α → τ → Prop} (h : Triple M P p Q) (h' : Triple N P' p Q') :
    Triple (M.prod N) (fun s => P s.1 ∧ P' s.2) p fun a s => Q a s.1 ∧ Q' a s.2 :=
  fun s hs => wp_prod (h s.1 hs.1) (h' s.2 hs.2)

theorem wp_and {p : Prog C R α} {Q Q' : α → σ → Prop} {s : σ} (h : wp M p Q s)
    (h' : wp M p Q' s) : wp M p (fun a s => Q a s ∧ Q' a s) s := by
  induction p generalizing s with
  | pure a => exact ⟨h, h'⟩
  | call c k ih => exact ⟨h.1, fun r s' hs => ih r (h.2 r s' hs) (h'.2 r s' hs)⟩
  | stop why => trivial

theorem Triple.and {p : Prog C R α} {P P' : σ → Prop} {Q Q' : α → σ → Prop}
    (h : Triple M P p Q) (h' : Triple M P' p Q') :
    Triple M (fun s => P s ∧ P' s) p fun a s => Q a s ∧ Q' a s :=
  fun s hs => wp_and (h s hs.1) (h' s hs.2)

end Monitor
end Interaction
