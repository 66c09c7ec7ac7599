import Sorm.StatementLeaks

/-!
# Closing a connection

`sorm_close` repeats `sqlite3_close` while it answers `SQLITE_BUSY`, so it ends exactly when no
statement is left. In a run this is so exactly when no row write has left its statement behind.
-/

namespace Sorm

open Interaction Monitor

/-- Every statement prepared along a trace is finalized later in it. -/
def FinalizesAll (tr : List SormEvent) : Prop :=
  ∀ tr₁ tr₂ sql n h, tr = tr₁ ++ (⟨.prepare sql n, (DbCode.ok, some h)⟩ : SormEvent) :: tr₂ →
    ∃ r, (⟨.finalize (some h), r⟩ : SormEvent) ∈ tr₂

/-- A number of rounds that the loop of `sorm_close` does not exceed. -/
def CloseEnds (m : Statements) : Prop :=
  ∃ rounds, ∀ tr q m', (sormClose rounds).Emits tr q → sqlite.Run m tr m' → q ≠ .stop .unbounded

section Run

variable {left : Multiset Handle} {m m' : Statements}

variable {step : Finished}

theorem Finished.settles (hlive : LiveExactly left step.before.handles m)
    (hsql : sqlite.Run m step.trace m') :
    (¬ step.op.opensIterator → step.after.handles ≤ step.before.handles) ∧
      Settles left step.before step.op step.after (m', step.trace) :=
  (op_settles left step.before step.op).returns ⟨hlive, rfl⟩ step.emits_pure (hsql.logged [])

theorem Finished.not_finalizesAll (hleaks : step.op.Leaks step.trace)
    (hlive : LiveExactly left step.before.handles m) (hsql : sqlite.Run m step.trace m') :
    ¬ FinalizesAll step.trace := by
  intro hall
  rcases (Finished.settles hlive hsql).2 with ⟨-, hnot⟩ | ⟨-, hsame, h, hlive'⟩
  · exact hnot hleaks
  · have hval : m'.live.val = h ::ₘ m.live.val := by
      rw [hlive', hlive, hsame, heldHandles_cons_some, Multiset.add_cons]
    have hnodup : (h ::ₘ m.live.val).Nodup := by
      rw [← hval]
      exact m'.live.nodup
    have hdead : h ∉ m.live := (Multiset.nodup_cons.mp hnodup).1
    have hin : h ∈ m'.live := by
      rw [← Finset.mem_val, hval]
      exact Multiset.mem_cons_self h _
    obtain ⟨tr₁, tr₂, sql, n, htrace⟩ := run_prepared hsql hin hdead
    obtain ⟨r, hfinal⟩ := hall tr₁ tr₂ sql n h htrace
    rw [htrace] at hsql
    obtain ⟨m₁, -, hrest⟩ := hsql.split
    cases hrest with
    | cons hprepare hrest =>
        obtain ⟨-, rfl⟩ := hprepare
        exact run_finalized hrest (Finset.mem_insert_self h _) hfinal hin

theorem Finished.finalizesAll (ho : ¬ step.op.opensIterator) (hnot : ¬ step.op.Leaks step.trace)
    (hlive : LiveExactly left step.before.handles m) (hsql : sqlite.Run m step.trace m') :
    FinalizesAll step.trace := by
  intro tr₁ tr₂ sql n h htrace
  obtain ⟨hle, hlive' | ⟨hleaks, -⟩⟩ := Finished.settles hlive hsql
  · have hsub : m'.live ⊆ m.live := by
      rw [← Finset.val_le_iff, hlive, hlive'.1]
      exact add_le_add_right (heldHandles_mono (hle ho)) left
    rw [htrace] at hsql
    obtain ⟨m₁, hfirst, hrest⟩ := hsql.split
    cases hrest with
    | cons hprepare hrest =>
        obtain ⟨hnew, rfl⟩ := hprepare
        apply run_live hrest (Finset.mem_insert_self h _)
        intro hin
        exact hnew (run_prepared_mono hfirst (m.live_sub (hsub hin)))
  · exact absurd hleaks hnot

variable {start final : Session} {steps : List Finished}

/-- Along a run what is left behind only grows, and does so exactly at the operations that leave
their statement. -/
theorem Run.liveExactly (hrun : Run start steps final) (hlive : LiveExactly left start.handles m)
    (hsql : sqlite.Run m (runTrace steps) m') : ∃ left', LiveExactly left' final.handles m' ∧
      left ≤ left' ∧ (left' = left ↔ ∀ step ∈ steps, ¬ step.op.Leaks step.trace) := by
  induction hrun generalizing left m with
  | nil s =>
      cases hsql
      exact ⟨left, hlive, le_rfl, by simp⟩
  | @cons step steps final hrun ih =>
      obtain ⟨m₁, hfirst, hrest⟩ := hsql.split
      rcases (Finished.settles hlive hfirst).2 with ⟨hlive', hnot⟩ | ⟨hleaks, -, h, hlive'⟩
      · obtain ⟨left', hfinal, hle, hiff⟩ := ih hlive' hrest
        refine ⟨left', hfinal, hle, ?_⟩
        rw [hiff, List.forall_mem_cons]
        exact ⟨fun hall => ⟨hnot, hall⟩, fun hall => hall.2⟩
      · have hlive₁ : LiveExactly (h ::ₘ left) step.after.handles m₁ := by
          unfold LiveExactly at hlive' ⊢
          rw [hlive', heldHandles_cons_some, Multiset.add_cons, Multiset.cons_add]
        obtain ⟨left', hfinal, hle, -⟩ := ih hlive₁ hrest
        have hlt : left < left' := (Multiset.lt_cons_self left h).trans_le hle
        refine ⟨left', hfinal, hlt.le, fun heq => absurd heq hlt.ne', fun hall => ?_⟩
        exact absurd hleaks (hall step List.mem_cons_self)

end Run

theorem closeEnds_of_empty {m : Statements} (hempty : m.live = ∅) : CloseEnds m := by
  refine ⟨1, fun tr q m' he hsql hq => ?_⟩
  subst hq
  have hcall : sormClose 1 = .call .close fun ret =>
      (if ret = .busy then .stop .unbounded else pure ret) >>= fun ret =>
        if ret ≠ .ok then pure .dbError else free .libc none >>= fun _ => pure .ok := rfl
  rw [hcall] at he
  cases he with
  | cons _ _ ret he =>
      cases hsql with
      | cons hanswer hsql =>
          have hret : ret ≠ .busy := by
            intro hbusy
            have hsome := hanswer.1.mp hbusy
            rw [hempty] at hsome
            exact Finset.not_nonempty_empty hsome
          dsimp only at he
          rw [if_neg hret, pure_bind] at he
          split at he
          · cases he
          · cases he with
            | cons _ _ _ he => cases he

/-- As long as a statement is left, `sqlite3_close` answers `SQLITE_BUSY` every time. -/
theorem closeLoop_spins {m : Statements} (hleft : m.live.Nonempty) (rounds : ℕ) :
    ∃ tr, (closeLoop rounds).Emits tr (.stop .unbounded) ∧ sqlite.Run m tr m := by
  induction rounds with
  | zero => exact ⟨[], .nil _, .nil m⟩
  | succ rounds ih =>
      obtain ⟨tr, he, hsql⟩ := ih
      refine ⟨⟨.close, .busy⟩ :: tr, .cons _ _ _ ?_, .cons ⟨by simp [hleft], rfl⟩ hsql⟩
      exact he

theorem closeEnds_iff {m : Statements} : CloseEnds m ↔ m.live = ∅ := by
  refine ⟨?_, closeEnds_of_empty⟩
  rintro ⟨rounds, hends⟩
  by_contra hne
  obtain ⟨tr, he, hsql⟩ := closeLoop_spins (Finset.nonempty_iff_ne_empty.mpr hne) rounds
  exact hends tr _ m (he.bind _) hsql rfl

section Run

variable {start final : Session} {steps : List Finished} {m m' : Statements}

/-- In every run an operation other than opening an iterator finalizes all it has prepared exactly
when it does not leave its statement, and `sorm_close` without open iterators ends exactly when no
operation has left one. -/
theorem statements_finalized (hrun : Run start steps final)
    (hlive : m.live.val = heldHandles start.handles) (hsql : sqlite.Run m (runTrace steps) m') :
    (∀ step ∈ steps, ¬ step.op.opensIterator →
      (FinalizesAll step.trace ↔ ¬ step.op.Leaks step.trace)) ∧
    (final.iterators = [] → (CloseEnds m' ↔ ∀ step ∈ steps, ¬ step.op.Leaks step.trace)) := by
  have hstart : LiveExactly 0 start.handles m := by
    unfold LiveExactly
    rw [hlive, zero_add]
  constructor
  · intro step hmem ho
    obtain ⟨steps₁, steps₂, rfl⟩ := List.append_of_mem hmem
    obtain ⟨s, hrun₁, hrun₂⟩ := hrun.split
    rw [runTrace_append, runTrace_cons] at hsql
    obtain ⟨m₁, hsql₁, hsql₂⟩ := hsql.split
    obtain ⟨m₂, hsql₂, -⟩ := hsql₂.split
    obtain ⟨left, hlive₁, -⟩ := hrun₁.liveExactly hstart hsql₁
    cases hrun₂ with
    | cons _ hrun₂ =>
        constructor
        · exact fun hall hleaks => Finished.not_finalizesAll hleaks hlive₁ hsql₂ hall
        · exact fun hnot => Finished.finalizesAll ho hnot hlive₁ hsql₂
  · intro hnone
    obtain ⟨left, hfinal, -, hiff⟩ := hrun.liveExactly hstart hsql
    have hhandles : final.handles = 0 := by
      unfold Session.handles
      rw [hnone]
      rfl
    have hval : m'.live.val = left := by
      rw [hfinal, hhandles]
      exact add_zero left
    rw [closeEnds_iff, ← hiff, ← Finset.val_eq_zero, hval]

end Run

def idTable : TableDescriptor where
  name := "t".toList
  size := 32
  columns := [⟨"id".toList, .int, .pk, .none, 0, false, [], []⟩]
  pkIndex := some 0
  createSql := none

def idRow : Object idTable := ⟨fun _ => { Slot.zero with stat := sormStatValued, int32 := 1 }⟩

def plainSession : Session := ⟨⟨0, 1024, 0⟩, []⟩

def failedDelete : Finished where
  op := .delete (some idRow)
  before := plainSession
  trace := [⟨.prepare "DELETE FROM t WHERE  id=?".toList sqlStmtMaxLen, (.ok, some 0)⟩,
    ⟨.bind (some 0) 1 (.int 1), .ok⟩, ⟨.step (some 0), .other 1⟩]
  rest := .pure (.dbError, plainSession)
  emits := .cons _ _ _ (.cons _ _ _ (.cons _ _ _ (.nil _)))
  code := .dbError
  after := plainSession
  returned := rfl

theorem failedDelete_leaks : failedDelete.op.Leaks failedDelete.trace :=
  ⟨.other 1, rfl, by decide⟩

def noStatements : Statements := ⟨∅, ∅, subset_rfl⟩

theorem failedDelete_run : Run plainSession [failedDelete] plainSession ∧
    sqlite.Run noStatements (runTrace [failedDelete]) (noStatements.prepare 0) := by
  refine ⟨.cons failedDelete (.nil _), ?_⟩
  exact .cons ⟨Finset.notMem_empty 0, rfl⟩ (.cons rfl (.cons rfl (.nil _)))

/-- The failed `sorm_delete` finalizes nothing, and `sorm_close` after it does not end. -/
theorem not_statements_finalized :
    ¬ ∀ (start final : Session) (steps : List Finished) (m m' : Statements),
      Run start steps final → m.live.val = heldHandles start.handles →
      sqlite.Run m (runTrace steps) m' →
      (∀ step ∈ steps, ¬ step.op.opensIterator → FinalizesAll step.trace) ∧
      (final.iterators = [] → CloseEnds m') := by
  intro h
  obtain ⟨hrun, hsql⟩ := failedDelete_run
  have hends := (h _ _ _ _ _ hrun rfl hsql).2 rfl
  exact absurd (closeEnds_iff.mp hends) (Finset.insert_ne_empty 0 ∅)

theorem statements_finalized_failedDelete :
    ¬ FinalizesAll failedDelete.trace ∧ ¬ CloseEnds (noStatements.prepare 0) := by
  obtain ⟨hrun, hsql⟩ := failedDelete_run
  obtain ⟨hsteps, hclose⟩ := statements_finalized hrun rfl hsql
  constructor
  · intro hall
    exact (hsteps failedDelete (by simp) (by decide)).mp hall failedDelete_leaks
  · intro hends
    exact (hclose rfl).mp hends failedDelete (by simp) failedDelete_leaks

end Sorm
