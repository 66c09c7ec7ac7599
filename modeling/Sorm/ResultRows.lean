import Sorm.Handler
import Sorm.Select

/-!
# A statement with given result rows

`Outside` is SQLite on one prepared statement whose result rows are given, with locks that can be
taken and an allocator that never runs out of memory. The state is where the statement is in its
rows; addresses come from a counter.
-/

namespace Sorm

open Interaction

/-- What the column functions return for one column of a result row. -/
structure Cell where
  columnClass : ColumnClass
  int : BitVec 32
  int64 : BitVec 64
  double : ℚ
  text : Option CString
  blob : Option Text
  bytes : ℕ

abbrev ResultRow := ℕ → Cell

def Cell.null : Cell := ⟨.null, 0, 0, 0, none, none, 0⟩

/-- How a statement ends after its rows, the handle it has, the answer of a finalize after a failed
step, the addresses of blocks, what local variables read as, and the last row id. -/
structure Outside where
  finish : DbCode
  finish_ne : finish ≠ .row
  stmtHandle : Handle
  finalized : DbCode
  block : ℕ → Address
  memory : Pointer
  rowId : BitVec 64

structure Db where
  upcoming : List ResultRow
  current : ResultRow
  failed : Bool
  blocks : ℕ
  bound : List (ℕ × Bound)

namespace Db

def ofRows (rows : List ResultRow) : Db := ⟨rows, fun _ => .null, false, 0, []⟩

end Db

namespace Outside

variable (o : Outside)

def step (s : Db) : DbCode × Db :=
  match s.upcoming with
  | [] => (o.finish, { s with failed := o.finish ≠ .done })
  | row :: rows => (.row, { s with upcoming := rows, current := row, failed := false })

def answer : Handler Resp Db
  | .semP _, s | .semV _, s => ((), s)
  | .rdlock, s | .wrlock, s | .rwUnlock, s => (true, s)
  | .prepare _ _, s => ((.ok, some o.stmtHandle), s)
  | .bind _ k v, s => (.ok, { s with bound := s.bound ++ [(k, v)] })
  | .step _, s => o.step s
  | .finalize _, s => (if s.failed then o.finalized else .ok, s)
  | .columnType _ k, s => ((s.current k).columnClass, s)
  | .columnInt _ k, s => ((s.current k).int, s)
  | .columnInt64 _ k, s => ((s.current k).int64, s)
  | .columnDouble _ k, s => ((s.current k).double, s)
  | .columnText _ k, s => ((s.current k).text, s)
  | .columnBlob _ k, s => ((s.current k).blob, s)
  | .columnBytes _ k, s => ((s.current k).bytes, s)
  | .lastInsertRowid, s => (o.rowId, s)
  | .close, s => (.ok, s)
  | .malloc _ _, s | .strdup _ _, s => (some (o.block s.blocks), { s with blocks := s.blocks + 1 })
  | .free _ _, s => ((), s)
  | .uninitialised, s => (o.memory, s)

abbrev run {α : Type} (p : Act α) (s : Db) : Except Halt α × Db := Prog.run o.answer p s

variable {o} {s : Db}

theorem lock_run (conn : Connection) (rwlockFlag : RwlockFlag) :
    o.run (lock conn rwlockFlag) s = (.ok (), s) := by
  unfold lock
  split
  · rfl
  · split
    · cases rwlockFlag <;> rfl
    · rfl

theorem unlock_run (conn : Connection) : o.run (unlock conn) s = (.ok (), s) := by
  unfold unlock
  split
  · rfl
  · split
    · rfl
    · rfl

/-- A step that answers `SQLITE_BUSY` does so at the end of the rows, every time it is retried. -/
theorem retry_step_run (h : Option Handle) (n : ℕ) :
    o.run (Prog.retry (fun ret : DbCode => ret == .busy) (perform (.step h)) n) s =
      (.ok (o.step s).1, (o.step s).2) := by
  apply Prog.run_retry
  · rfl
  · intro hbusy
    cases hrows : s.upcoming with
    | nil =>
        change (Except.ok (o.step (o.step s).2).1, (o.step (o.step s).2).2) = _
        simp only [step, hrows]
    | cons row rows =>
        simp only [step, hrows] at hbusy
        cases hbusy

theorem sqlite3Step_run (conn : Connection) (h : Option Handle) (rwFlag : RwlockFlag) :
    o.run (sqlite3Step conn h rwFlag) s = (.ok (o.step s).1, (o.step s).2) := by
  by_cases h0 : conn.transactionNum = 0
  · rw [run, sqlite3Step_outside h0, Prog.run_bind_ok (lock_run conn rwFlag),
      Prog.run_bind_ok (retry_step_run h _), Prog.run_bind_ok (unlock_run conn)]
    rfl
  · rw [run, sqlite3Step_inside h0]
    exact retry_step_run h _

theorem sqlite3Prepare_run (sqlStmt : Text) :
    o.run (sqlite3Prepare sqlStmt) s = (.ok (.ok, some o.stmtHandle), s) := by
  apply Prog.run_retry
  · rfl
  · intro h
    cases h

theorem dbFinalize_run (h : Option Handle) (retVal : SormError) :
    o.run (dbFinalize h retVal) s =
      (.ok (if s.failed = true ∧ o.finalized ≠ .ok then .dbError else retVal), s) := by
  have hfinalize : o.run (sqlite3Finalize h) s =
      (.ok (if s.failed then o.finalized else .ok), s) := by
    apply Prog.run_retry
    · rfl
    · exact fun _ => rfl
  unfold dbFinalize
  rw [run, Prog.run_bind_ok hfinalize]
  cases s.failed
  · rfl
  · by_cases hok : o.finalized = .ok
    · simp only [hok, if_true, ne_eq, not_true_eq_false, and_false, if_false]
      rfl
    · simp only [hok, if_true, if_false, ne_eq, not_false_eq_true, and_true]
      rfl

end Outside
end Sorm
