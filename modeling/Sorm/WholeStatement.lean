import Sorm.Discipline
import Sorm.SqlStatements

/-!
# The statements a caller gives

`sorm_run_stmt`, and `sorm_create_table` for a descriptor with a `create_sql`, prepare a text of
the caller once and execute what has been prepared. SQLite compiles the first statement it finds
in the bytes it is given.
-/

namespace Sorm

open Interaction Monitor

structure Execution where
  prepared : Handle → Option (List Sql.Token)
  executed : List (List Sql.Token)

namespace Execution

def start : Execution := ⟨fun _ => none, []⟩

/-- The first statement in the first `nByte` bytes. -/
def firstStatement (sql : Text) (nByte : ℕ) : Option (List Sql.Token) :=
  (Sql.statements (sql.take nByte)).head?

/-- SQLite, where `compiles` says which statements it compiles: a text is compiled to its first
statement, to no statement where it has none, or refused; a step that returns a row or is done has
executed the statement, and there is none to execute without a handle. -/
def Answers (compiles : List Sql.Token → Prop) (s : Execution) :
    (c : Call) → Resp c → Execution → Prop
  | .prepare sql nByte, (.ok, some h), s' => ∃ stmt, firstStatement sql nByte = some stmt ∧
      compiles stmt ∧ s' = { s with prepared := Function.update s.prepared h (some stmt) }
  | .prepare sql nByte, (.ok, none), s' => firstStatement sql nByte = none ∧ s' = s
  | .step h, ret, s' =>
      if ret = .row ∨ ret = .done then
        ∃ stmt, h.bind s.prepared = some stmt ∧ s' = { s with executed := s.executed ++ [stmt] }
      else s' = s
  | _, _, s' => s' = s

end Execution

def executionMonitor (compiles : List Sql.Token → Prop) : Monitor Resp Execution where
  ok _ _ := True
  step s c r s' := s.Answers compiles c r s'

section Run

variable {compiles : List Sql.Token → Prop} {sql : Text}

def Idle (s : Execution) : Prop := s.executed = []

/-- The first statement of what is given to `sqlite3_prepare` has been executed, and nothing else. -/
def FirstExecuted (compiles : List Sql.Token → Prop) (sql : Text) (s : Execution) : Prop :=
  ∃ stmt, Execution.firstStatement sql sqlStmtMaxLen = some stmt ∧ compiles stmt ∧
    s.executed = [stmt]

def Prepared (compiles : List Sql.Token → Prop) (sql : Text) (h : Option Handle) (s : Execution) :
    Prop :=
  Idle s ∧ ∀ stmt, h.bind s.prepared = some stmt →
    Execution.firstStatement sql sqlStmtMaxLen = some stmt ∧ compiles stmt

theorem prepare_executes : Triple (executionMonitor compiles) Idle (sqlite3Prepare sql)
    fun r s => if r.1 = .ok then Prepared compiles sql r.2 s else Idle s := by
  apply Triple.retry
  apply Triple.perform (fun _ _ => trivial)
  rintro s ⟨code, h⟩ s' hs hanswer
  change s.Answers compiles (.prepare sql sqlStmtMaxLen) (code, h) s' at hanswer
  cases code with
  | ok =>
      cases h with
      | none =>
          obtain ⟨-, rfl⟩ := hanswer
          exact ⟨hs, fun stmt h => nomatch h⟩
      | some h =>
          obtain ⟨stmt, hfirst, hcompiles, rfl⟩ := hanswer
          refine ⟨hs, fun stmt' h' => ?_⟩
          obtain rfl : stmt = stmt' := by simpa using h'
          exact ⟨hfirst, hcompiles⟩
  | busy =>
      obtain rfl : s' = s := hanswer
      exact ⟨hs, hs⟩
  | row | done | other =>
      obtain rfl : s' = s := hanswer
      exact hs

theorem keeps_of_answers {c : Call} {P : Execution → Prop}
    (hc : ∀ s r s', Execution.Answers compiles s c r s' → s' = s) :
    Keeps (executionMonitor compiles) P (perform c) := by
  apply Triple.perform (fun _ _ => trivial)
  intro s r s' hs hanswer
  rw [hc s r s' hanswer]
  exact hs

/-- A step either executes the statement, or answers an error and executes nothing. -/
theorem step_executes (conn : Connection) (h : Option Handle) (rwFlag : RwlockFlag) :
    Triple (executionMonitor compiles) (Prepared compiles sql h) (sqlite3Step conn h rwFlag)
      fun ret s => if ret = .done then FirstExecuted compiles sql s else
        Idle s ∨ FirstExecuted compiles sql s := by
  have hlock : ∀ {P : Execution → Prop} (c : Call), c.isLock →
      Keeps (executionMonitor compiles) P (perform c) := by
    intro P c hc
    apply keeps_of_answers
    cases c with
    | semP | rdlock | wrlock => exact fun _ _ _ h => h
    | _ => cases hc
  have hunlock : ∀ {P : Execution → Prop} (c : Call), c.isUnlock →
      Keeps (executionMonitor compiles) P (perform c) := by
    intro P c hc
    apply keeps_of_answers
    cases c with
    | semV | rwUnlock => exact fun _ _ _ h => h
    | _ => cases hc
  have hretry : Triple (executionMonitor compiles) (Prepared compiles sql h)
      (Prog.retry (fun ret : DbCode => ret == .busy) (perform (.step h)) (busyRetryTime - 1))
      fun ret s => if ret = .done then FirstExecuted compiles sql s else
        Idle s ∨ FirstExecuted compiles sql s := by
    apply Triple.retry
    apply Triple.perform (fun _ _ => trivial)
    intro s ret s' hs hanswer
    change (if ret = .row ∨ ret = .done then _ else s' = s) at hanswer
    by_cases hexecuted : ret = .row ∨ ret = .done
    · rw [if_pos hexecuted] at hanswer
      obtain ⟨stmt, hstmt, rfl⟩ := hanswer
      obtain ⟨hfirst, hcompiles⟩ := hs.2 stmt hstmt
      have hone : FirstExecuted compiles sql { s with executed := s.executed ++ [stmt] } :=
        ⟨stmt, hfirst, hcompiles, by rw [hs.1, List.nil_append]⟩
      rcases hexecuted with rfl | rfl
      · exact Or.inr hone
      · exact hone
    · rw [if_neg hexecuted] at hanswer
      obtain rfl := hanswer
      have hidle : Idle s' := hs.1
      rw [if_neg fun h => hexecuted (Or.inr h)]
      split
      · exact ⟨hs, Or.inl hidle⟩
      · exact Or.inl hidle
  by_cases h0 : conn.transactionNum = 0
  · rw [sqlite3Step_outside h0]
    apply Triple.bind (keeps_lock hlock conn rwFlag)
    intro _
    apply Triple.bind hretry
    intro ret
    exact Triple.bind (keeps_unlock hunlock conn) fun _ => Triple.pure fun _ hs => hs
  · rw [sqlite3Step_inside h0]
    exact hretry

theorem dbFinalize_keeps {P : Execution → Prop} (h : Option Handle) (code : SormError) :
    Triple (executionMonitor compiles) P (dbFinalize h code) fun ret s =>
      (ret = code ∨ ret = .dbError) ∧ P s := by
  have hfinalize : Keeps (executionMonitor compiles) P (sqlite3Finalize h) := by
    apply Keeps.retry
    exact keeps_of_answers fun _ _ _ h => h
  apply Triple.bind hfinalize
  intro ret
  by_cases hret : ret = .ok
  · rw [if_pos hret]
    exact Triple.pure fun s hs => ⟨Or.inl rfl, hs⟩
  · rw [if_neg hret]
    exact Triple.pure fun s hs => ⟨Or.inr rfl, hs⟩

/-- What is executed when a text is run: its first statement, or nothing and there is an error. -/
theorem runPrepared_executes (conn : Connection) (rwlockFlag : RwlockFlag) :
    Triple (executionMonitor compiles) Idle (runPrepared conn sql rwlockFlag) fun ret s =>
      (ret ≠ .ok ∧ Idle s) ∨ FirstExecuted compiles sql s := by
  have herror : ∀ {ret : SormError}, ret = .dbError ∨ ret = .dbError → ret ≠ .ok := by
    rintro ret (rfl | rfl) <;> exact nofun
  apply Triple.bind prepare_executes
  rintro ⟨code, h⟩
  by_cases hcode : code = .ok
  · subst hcode
    apply Triple.bind (step_executes conn h rwlockFlag)
    intro ret
    by_cases hdone : ret = .done
    · subst hdone
      exact (dbFinalize_keeps h .ok).post fun ret s hs => Or.inr hs.2
    · simp only [ne_eq, hdone, not_false_eq_true, if_true]
      refine (dbFinalize_keeps h .dbError).post fun ret s hs => ?_
      rcases hs.2 with hidle | hone
      · exact Or.inl ⟨herror hs.1, hidle⟩
      · exact Or.inr hone
  · simp only [ne_eq, hcode, not_false_eq_true, if_true]
    exact Triple.pure fun s hs => Or.inl ⟨nofun, hs⟩

/-- What is executed when a built statement is run. -/
theorem runBuilt_executes (conn : Connection) {built : Build} (hcodes : built.TooLongOnly) :
    Triple (executionMonitor compiles) Idle (runBuilt conn built) fun ret s =>
      (ret ≠ .ok ∧ Idle s) ∨ ∃ b, built = .ok b ∧ FirstExecuted compiles b.text s := by
  rcases built with ⟨e | why, b⟩ | b
  · obtain rfl := hcodes rfl
    exact Triple.pure fun s hs => Or.inl ⟨nofun, hs⟩
  · exact Triple.stop
  · refine (runPrepared_executes conn .write).post fun ret s hs => ?_
    rcases hs with hfail | hfirst
    · exact Or.inl hfail
    · exact Or.inr ⟨b, rfl, hfirst⟩

section Answered

variable (compiles)

/-- The locks are taken and given back when nothing fails. -/
theorem lock_answered (conn : Connection) (rwlockFlag : RwlockFlag) (s : Execution) :
    ∃ tr, (lock conn rwlockFlag).Emits tr (.pure ()) ∧ (executionMonitor compiles).Run s tr s := by
  let answered : Bool → Act Unit := fun ret => if ret then return () else abort
  unfold lock
  split
  · exact ⟨_, .cons _ _ () (.nil _), .cons rfl (.nil _)⟩
  · split
    · cases rwlockFlag with
      | read =>
          have hemits := Prog.Emits.cons (R := Resp) Call.rdlock answered true (.nil _)
          exact ⟨_, hemits, .cons rfl (.nil _)⟩
      | write =>
          have hemits := Prog.Emits.cons (R := Resp) Call.wrlock answered true (.nil _)
          exact ⟨_, hemits, .cons rfl (.nil _)⟩
    · exact ⟨[], .nil _, .nil _⟩

theorem unlock_answered (conn : Connection) (s : Execution) :
    ∃ tr, (unlock conn).Emits tr (.pure ()) ∧ (executionMonitor compiles).Run s tr s := by
  let answered : Bool → Act Unit := fun ret => if ret then return () else abort
  unfold unlock
  split
  · exact ⟨_, .cons _ _ () (.nil _), .cons rfl (.nil _)⟩
  · split
    · have hemits := Prog.Emits.cons (R := Resp) Call.rwUnlock answered true (.nil _)
      exact ⟨_, hemits, .cons rfl (.nil _)⟩
    · exact ⟨[], .nil _, .nil _⟩

/-- A step is done at the first try. -/
theorem step_answered (conn : Connection) (rwlockFlag : RwlockFlag) {s : Execution} {h : Handle}
    {stmt : List Sql.Token} (hstmt : s.prepared h = some stmt) :
    ∃ tr, (sqlite3Step conn (some h) rwlockFlag).Emits tr (.pure .done) ∧
      (executionMonitor compiles).Run s tr { s with executed := s.executed ++ [stmt] } := by
  have hstep : (executionMonitor compiles).step s (.step (some h)) .done
      { s with executed := s.executed ++ [stmt] } := ⟨stmt, hstmt, rfl⟩
  by_cases h0 : conn.transactionNum = 0
  · obtain ⟨tr₁, hlock, hrun₁⟩ := lock_answered compiles conn rwlockFlag s
    obtain ⟨tr₂, hunlock, hrun₂⟩ := unlock_answered compiles conn
      { s with executed := s.executed ++ [stmt] }
    rw [sqlite3Step_outside h0]
    refine ⟨tr₁ ++ (⟨.step (some h), .done⟩ :: tr₂), ?_, hrun₁.append (.cons hstep hrun₂)⟩
    refine (hlock.bind _).append (.cons _ _ _ ?_)
    exact hunlock.bind fun _ => (Prog.pure DbCode.done : Act DbCode)
  · rw [sqlite3Step_inside h0]
    exact ⟨[⟨.step (some h), .done⟩], .cons _ _ _ (.nil _), .cons hstep (.nil _)⟩

end Answered

/-- The statement that is found is executed when nothing fails. -/
theorem runPrepared_answered (conn : Connection) (rwlockFlag : RwlockFlag)
    {stmt : List Sql.Token} (hstmt : Execution.firstStatement sql sqlStmtMaxLen = some stmt)
    (hcompiles : compiles stmt) : ∃ tr s, (runPrepared conn sql rwlockFlag).Emits tr (.pure .ok) ∧
      (executionMonitor compiles).Run .start tr s ∧ s.executed = [stmt] := by
  have hprepare : (executionMonitor compiles).step .start (.prepare sql sqlStmtMaxLen) (.ok, some 0)
      ⟨Function.update (fun _ => none) 0 (some stmt), []⟩ := ⟨stmt, hstmt, hcompiles, rfl⟩
  let s : Execution := ⟨Function.update (fun _ => none) 0 (some stmt), []⟩
  have hprepared : s.prepared 0 = some stmt := by
    change Function.update (fun _ => none) (0 : Handle) (some stmt) 0 = some stmt
    rw [Function.update_self]
  obtain ⟨tr, hstep, hrun⟩ := step_answered compiles conn rwlockFlag hprepared
  have hfinalize : (executionMonitor compiles).Run { s with executed := s.executed ++ [stmt] }
      [⟨.finalize (some 0), .ok⟩] { s with executed := s.executed ++ [stmt] } := .cons rfl (.nil _)
  refine ⟨⟨.prepare sql sqlStmtMaxLen, (.ok, some 0)⟩ :: (tr ++ [⟨.finalize (some 0), .ok⟩]), _,
    .cons _ _ _ ?_, .cons hprepare (hrun.append hfinalize), rfl⟩
  exact (hstep.bind _).append (.cons _ _ _ (.nil _))

end Run

/-- A program that returns an error and executes nothing, or executes exactly the statements of a
text, whatever SQLite answers. -/
def WholeOrRefused (compiles : List Sql.Token → Prop) (sql : Text) (p : Act SormError) : Prop :=
  ∀ tr ret s, p.Emits tr (.pure ret) → (executionMonitor compiles).Run .start tr s →
    (ret ≠ .ok ∧ s.executed = []) ∨ s.executed = Sql.statements sql

/-- A caller's text is run whole or refused, by `sorm_run_stmt` and by `sorm_create_table`. -/
structure RunWhole (compiles : List Sql.Token → Prop) (sql : CString) : Prop where
  runStmt : ∀ conn rwlockFlag,
    WholeOrRefused compiles sql.chars (sormRunStmt (some conn) sql rwlockFlag)
  createTable : ∀ conn (table : TableDescriptor), table.createSql = some sql.chars →
    WholeOrRefused compiles sql.chars (sormCreateTable (some conn) (some table))

/-- The statement that is found in the first 1023 bytes is all there is, if it compiles. -/
def FirstIsWhole (compiles : List Sql.Token → Prop) (sql : CString) : Prop :=
  ∀ stmt, (Sql.statements (sql.chars.take sqlStmtMaxLen)).head? = some stmt → compiles stmt →
    Sql.statements sql.chars = [stmt]

variable {compiles : List Sql.Token → Prop}

theorem FirstIsWhole.runPrepared {sql : CString} (h : FirstIsWhole compiles sql) (conn : Connection)
    (rwlockFlag : RwlockFlag) :
    WholeOrRefused compiles sql.chars (runPrepared conn sql.chars rwlockFlag) := by
  intro tr ret s hemits hrun
  have hidle : Idle .start := rfl
  rcases (runPrepared_executes conn rwlockFlag).returns hidle hemits hrun with hidle | hfirst
  · exact Or.inl hidle
  · obtain ⟨stmt, hstmt, hcompiles, hexecuted⟩ := hfirst
    exact Or.inr (hexecuted.trans (h stmt hstmt hcompiles).symm)

def plainConnection : Connection := ⟨0, 0, 0⟩

/-- The statement that is found is executed when nothing fails. -/
theorem WholeOrRefused.firstIsWhole {sql : CString}
    (h : WholeOrRefused compiles sql.chars (runPrepared plainConnection sql.chars .write)) :
    FirstIsWhole compiles sql := by
  intro stmt hstmt hcompiles
  obtain ⟨tr, s, hemits, hrun, hexecuted⟩ :=
    runPrepared_answered plainConnection .write hstmt hcompiles
  rcases h _ _ _ hemits hrun with hfail | hwhole
  · exact absurd rfl hfail.1
  · exact hwhole.symm.trans hexecuted

/-- A text is run whole or refused exactly if the first statement of its first 1023 bytes is its
only one, or does not compile. -/
theorem runWhole_iff (sql : CString) : RunWhole compiles sql ↔ FirstIsWhole compiles sql := by
  constructor
  · intro h
    exact (h.runStmt plainConnection .write).firstIsWhole
  · intro h
    refine ⟨fun conn rwlockFlag => h.runPrepared conn rwlockFlag, fun conn table hsql => ?_⟩
    have hcreate : sormCreateTable (some conn) (some table) = runPrepared conn sql.chars .write := by
      simp only [sormCreateTable, hsql]
    rw [hcreate]
    exact h.runPrepared conn .write

theorem not_runWhole : ¬ ∀ (compiles : List Sql.Token → Prop) (sql : CString),
    RunWhole compiles sql := by
  intro h
  have hrun := h (fun _ => True) ⟨"DELETE FROM a; DELETE FROM b".toList, by decide⟩
  have hwhole := (hrun.runStmt plainConnection .write).firstIsWhole
  have htwo : (Sql.statements "DELETE FROM a; DELETE FROM b".toList).length = 2 := by decide
  have htake : "DELETE FROM a; DELETE FROM b".toList.take sqlStmtMaxLen =
      "DELETE FROM a; DELETE FROM b".toList := List.take_of_length_le (by decide)
  have hone : ∀ stmt, (Sql.statements "DELETE FROM a; DELETE FROM b".toList).head? = some stmt →
      Sql.statements "DELETE FROM a; DELETE FROM b".toList = [stmt] := by
    intro stmt hstmt
    exact hwhole stmt (htake.symm ▸ hstmt) trivial
  cases hstatements : Sql.statements "DELETE FROM a; DELETE FROM b".toList with
  | nil =>
      rw [hstatements] at htwo
      cases htwo
  | cons stmt rest =>
      rw [hone stmt (by rw [hstatements]; rfl)] at htwo
      cases htwo

end Sorm
