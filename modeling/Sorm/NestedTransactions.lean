import Mathlib.Tactic

/-!
# Nested transactions on top of flat ones

A store knows one transaction at a time. Its user nests transactions by counting: only the begin
that finds the count at 0 is passed on, and only the commit or rollback that finds it at 1. The
outcome is that of the flat transactions that are the maximal spans of positive count, where the
call that closes a span decides alone.
-/

namespace NestedTransactions

variable {D : Type}

inductive Command (D : Type)
  | begins
  | commit
  | rollback
  | write (f : D → D)

structure Store (D : Type) where
  committed : D
  working : Option D

namespace Store

/-- A begin inside of a transaction and an end outside of one change nothing. -/
def execute (s : Store D) : Command D → Store D
  | .begins =>
      match s.working with
      | none => ⟨s.committed, some s.committed⟩
      | some _ => s
  | .commit => ⟨s.working.getD s.committed, none⟩
  | .rollback => ⟨s.committed, none⟩
  | .write f =>
      match s.working with
      | none => ⟨f s.committed, none⟩
      | some d => ⟨s.committed, some (f d)⟩

def executeAll (s : Store D) (cs : List (Command D)) : Store D := cs.foldl execute s

theorem executeAll_append (s : Store D) (cs cs' : List (Command D)) :
    s.executeAll (cs ++ cs') = (s.executeAll cs).executeAll cs' := List.foldl_append

/-- Writes one after the other are one write. -/
theorem executeAll_writes (s : Store D) (fs : List (D → D)) :
    s.executeAll (fs.map .write) = s.execute (.write fun d => fs.foldl (fun d f => f d) d) := by
  induction fs generalizing s with
  | nil =>
      obtain ⟨committed, working⟩ := s
      cases working with
      | none => rfl
      | some d => rfl
  | cons f fs ih =>
      rw [List.map_cons, executeAll, List.foldl_cons]
      change (s.execute (.write f)).executeAll (fs.map .write) = _
      rw [ih]
      obtain ⟨committed, working⟩ := s
      cases working with
      | none => rfl
      | some d => rfl

end Store

def depthAfter (n : ℕ) : Command D → ℕ
  | .begins => n + 1
  | .commit | .rollback => n - 1
  | .write _ => n

def depth (n : ℕ) (cs : List (Command D)) : ℕ := cs.foldl depthAfter n

def issue (n : ℕ) : Command D → List (Command D)
  | .begins => if n = 0 then [.begins] else []
  | .commit => if n = 1 then [.commit] else []
  | .rollback => if n = 1 then [.rollback] else []
  | .write f => [.write f]

def issueAll : ℕ → List (Command D) → List (Command D)
  | _, [] => []
  | n, c :: cs => issue n c ++ issueAll (depthAfter n c) cs

theorem issueAll_append (n : ℕ) (cs cs' : List (Command D)) :
    issueAll n (cs ++ cs') = issueAll n cs ++ issueAll (depth n cs) cs' := by
  induction cs generalizing n with
  | nil => rfl
  | cons c cs ih =>
      rw [List.cons_append, issueAll, ih, issueAll, List.append_assoc]
      rfl

def StaysOpen (n : ℕ) (cs : List (Command D)) : Prop := ∀ before, before <+: cs → 0 < depth n before

theorem staysOpen_nil {n : ℕ} : StaysOpen n ([] : List (Command D)) ↔ 0 < n := by
  constructor
  · intro h
    exact h [] List.nil_prefix
  · intro h before hbefore
    rw [List.prefix_nil.mp hbefore]
    exact h

theorem staysOpen_cons {n : ℕ} {c : Command D} {cs : List (Command D)} :
    StaysOpen n (c :: cs) ↔ 0 < n ∧ StaysOpen (depthAfter n c) cs := by
  constructor
  · intro h
    refine ⟨h [] List.nil_prefix, fun before hbefore => ?_⟩
    exact h (c :: before) ((List.prefix_cons_inj c).mpr hbefore)
  · rintro ⟨hn, h⟩ before hbefore
    cases before with
    | nil => exact hn
    | cons c' before =>
        obtain ⟨rfl, hrest⟩ := List.cons_prefix_cons.mp hbefore
        exact h before hrest

/-- Either the count stays positive, or there is the first call that brings it back to 0. -/
theorem StaysOpen.or_closes {n : ℕ} (hn : 0 < n) (cs : List (Command D)) :
    StaysOpen n cs ∨ ∃ body c rest, cs = body ++ c :: rest ∧ StaysOpen n body ∧
      depth n body = 1 ∧ (c = .commit ∨ c = .rollback) := by
  induction cs generalizing n with
  | nil => exact Or.inl (staysOpen_nil.mpr hn)
  | cons c cs ih =>
      by_cases hnext : 0 < depthAfter n c
      · rcases ih hnext with hopen | ⟨body, c', rest, rfl, hopen, hdepth, hcloses⟩
        · exact Or.inl (staysOpen_cons.mpr ⟨hn, hopen⟩)
        · exact Or.inr ⟨c :: body, c', rest, rfl, staysOpen_cons.mpr ⟨hn, hopen⟩, hdepth, hcloses⟩
      · refine Or.inr ⟨[], c, cs, rfl, staysOpen_nil.mpr hn, ?_⟩
        change n = 1 ∧ _
        cases c with
        | begins => exact absurd (Nat.succ_pos n) hnext
        | write f => exact absurd hn hnext
        | commit =>
            change ¬ 0 < n - 1 at hnext
            exact ⟨by omega, Or.inl rfl⟩
        | rollback =>
            change ¬ 0 < n - 1 at hnext
            exact ⟨by omega, Or.inr rfl⟩

def Command.effect : Command D → D → D
  | .write f => f
  | _ => id

def writes (cs : List (Command D)) (d : D) : D := cs.foldl (fun d c => c.effect d) d

/-- What becomes of the committed content when the maximal spans are flat transactions: a span
takes effect as a whole if a commit closes it, and not at all if a rollback does or none closes
it, while a write outside of the spans takes effect at once. -/
inductive Flat : List (Command D) → (D → D) → Prop
  | nil : Flat [] id
  | write {cs : List (Command D)} {g : D → D} (f : D → D) (h : Flat cs g) :
      Flat (.write f :: cs) (g ∘ f)
  | commit {cs : List (Command D)} {g : D → D} (h : Flat cs g) : Flat (.commit :: cs) g
  | rollback {cs : List (Command D)} {g : D → D} (h : Flat cs g) : Flat (.rollback :: cs) g
  | committed {body cs : List (Command D)} {g : D → D} (hopen : StaysOpen 1 body)
      (hdepth : depth 1 body = 1) (h : Flat cs g) :
      Flat (.begins :: (body ++ .commit :: cs)) (g ∘ writes body)
  | rolledBack {body cs : List (Command D)} {g : D → D} (hopen : StaysOpen 1 body)
      (hdepth : depth 1 body = 1) (h : Flat cs g) :
      Flat (.begins :: (body ++ .rollback :: cs)) g
  | unfinished {body : List (Command D)} (hopen : StaysOpen 1 body) : Flat (.begins :: body) id

/-- Every sequence of commands is cut into spans. -/
theorem exists_flat (cs : List (Command D)) : ∃ g, Flat cs g := by
  induction hlength : cs.length using Nat.strong_induction_on generalizing cs with
  | _ n ih =>
      cases cs with
      | nil => exact ⟨id, .nil⟩
      | cons c cs =>
          rw [List.length_cons] at hlength
          cases c with
          | write f =>
              obtain ⟨g, hg⟩ := ih cs.length (by omega) cs rfl
              exact ⟨g ∘ f, .write f hg⟩
          | commit =>
              obtain ⟨g, hg⟩ := ih cs.length (by omega) cs rfl
              exact ⟨g, .commit hg⟩
          | rollback =>
              obtain ⟨g, hg⟩ := ih cs.length (by omega) cs rfl
              exact ⟨g, .rollback hg⟩
          | begins =>
              rcases StaysOpen.or_closes Nat.one_pos cs with
                hopen | ⟨body, c, rest, rfl, hopen, hdepth, hcloses⟩
              · exact ⟨id, .unfinished hopen⟩
              · rw [List.length_append, List.length_cons] at hlength
                obtain ⟨g, hg⟩ := ih rest.length (by omega) rest rfl
                rcases hcloses with rfl | rfl
                · exact ⟨g ∘ writes body, .committed hopen hdepth hg⟩
                · exact ⟨g, .rolledBack hopen hdepth hg⟩

/-- Inside of a span nothing but the writes is passed on. -/
theorem StaysOpen.executes {n : ℕ} {body : List (Command D)} (h : StaysOpen n body) (d w : D) :
    (Store.mk d (some w)).executeAll (issueAll n body) = ⟨d, some (writes body w)⟩ := by
  induction body generalizing n w with
  | nil => rfl
  | cons c body ih =>
      obtain ⟨hn, hrest⟩ := staysOpen_cons.mp h
      have hnext : 0 < depthAfter n c := hrest [] List.nil_prefix
      rw [issueAll, Store.executeAll_append]
      cases c with
      | write f => exact ih hrest (f w)
      | begins =>
          rw [issue, if_neg (by omega)]
          exact ih hrest w
      | commit =>
          change 0 < n - 1 at hnext
          rw [issue, if_neg (by omega)]
          exact ih hrest w
      | rollback =>
          change 0 < n - 1 at hnext
          rw [issue, if_neg (by omega)]
          exact ih hrest w

/-- A span up to the call that closes it. -/
theorem executes_span {body cs : List (Command D)} (hopen : StaysOpen 1 body)
    (hdepth : depth 1 body = 1) (c : Command D) (d : D) :
    (Store.mk d none).executeAll (issueAll 0 (.begins :: (body ++ c :: cs))) =
      ((Store.mk d (some (writes body d))).executeAll (issue 1 c)).executeAll
        (issueAll (depthAfter 1 c) cs) := by
  rw [issueAll, Store.executeAll_append]
  change (Store.mk d (some d)).executeAll (issueAll 1 (body ++ c :: cs)) = _
  rw [issueAll_append, Store.executeAll_append, hopen.executes, hdepth, issueAll,
    Store.executeAll_append]

/-- Nested transactions refine flat ones. -/
theorem Flat.executes {cs : List (Command D)} {g : D → D} (h : Flat cs g) (d : D) :
    ((Store.mk d none).executeAll (issueAll 0 cs)).committed = g d := by
  induction h generalizing d with
  | nil => rfl
  | write f _ ih => exact ih (f d)
  | commit _ ih => exact ih d
  | rollback _ ih => exact ih d
  | @committed body cs g hopen hdepth _ ih =>
      rw [executes_span hopen hdepth]
      exact ih (writes body d)
  | rolledBack hopen hdepth _ ih =>
      rw [executes_span hopen hdepth]
      exact ih d
  | @unfinished body hopen =>
      change ((Store.mk d (some d)).executeAll (issueAll 1 body)).committed = d
      rw [hopen.executes]

end NestedTransactions
