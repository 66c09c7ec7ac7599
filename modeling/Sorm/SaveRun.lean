import Sorm.RoundTrip

/-!
# One call of `_save`

`_save` prepares its statement, binds, steps once, and sets the primary key of the object from the
row id when the step is done.
-/

namespace Sorm

open Interaction

variable {table : TableDescriptor} {o : Outside}

namespace Outside

theorem step_bound (s : Db) : (o.step s).2.bound = s.bound := by
  unfold step
  split
  · rfl
  · rfl

theorem step_failed {s : Db} (h : (o.step s).1 = .done) : (o.step s).2.failed = false := by
  cases hrows : s.upcoming with
  | nil =>
      simp only [step, hrows] at h ⊢
      rw [h]
      rfl
  | cons row rows =>
      simp only [step, hrows] at h
      cases h

end Outside

def Object.keySet (o : Outside) (obj : Object table) : Except Halt (SormError × Object table) :=
  match table.pkIndex with
  | none => .ok (.ok, obj)
  | some pkIndex => obj.setColumnValue pkIndex (rowIdPointer (o.rowId.truncate 32) o.memory) 0

theorem ofExcept_run {α : Type} (r : Except Halt α) (s : Db) :
    o.run (Prog.ofExcept r) s = (r, s) := by
  cases r with
  | error why => rfl
  | ok a => rfl

theorem savePrimaryKey_run (obj : Object table) (s : Db) :
    o.run (savePrimaryKey obj) s = (obj.keySet o, s) := by
  unfold savePrimaryKey Object.keySet
  cases table.pkIndex with
  | none => rfl
  | some pkIndex => exact ofExcept_run _ s

theorem savePrepared_run {obj : Object table} (conn : Connection) (sqlStmt : Text) {s s₁ : Db} {n : ℕ}
    (hbind : o.run (bindEach obj (some o.stmtHandle) obj.valued table.indexes 1) s =
      (.ok (.ok, n), s₁)) :
    o.run (savePrepared conn obj sqlStmt) s =
      (if (o.step s₁).1 = .done then obj.keySet o else .ok (.dbError, obj), (o.step s₁).2) := by
  unfold savePrepared
  rw [Outside.run, Prog.run_bind_ok (Outside.sqlite3Prepare_run sqlStmt)]
  dsimp only
  rw [if_neg (not_not_intro rfl), Prog.run_bind_ok hbind]
  dsimp only
  rw [if_neg (not_not_intro rfl), Prog.run_bind_ok (Outside.sqlite3Step_run conn _ .write)]
  by_cases hdone : (o.step s₁).1 = .done
  · rw [if_neg (not_not_intro hdone), if_pos hdone]
    cases hkey : obj.keySet o with
    | error why =>
        have hset := savePrimaryKey_run (o := o) obj (o.step s₁).2
        rw [hkey] at hset
        exact Prog.run_bind_error hset _
    | ok r =>
        have hset := savePrimaryKey_run (o := o) obj (o.step s₁).2
        rw [hkey] at hset
        rw [Prog.run_bind_ok hset]
        by_cases hret : r.1 = .ok
        · rw [if_neg (not_not_intro hret), Prog.run_bind_ok (Outside.dbFinalize_run _ _),
            Outside.step_failed hdone]
          change (Except.ok (SormError.ok, r.2), _) = _
          rw [← hret]
        · rw [if_pos hret]
          rfl
  · rw [if_pos hdone, if_neg hdone, Prog.run_bind_ok (Outside.dbFinalize_run _ _)]
    change (Except.ok (if _ then SormError.dbError else SormError.dbError, obj), _) = _
    rw [ite_self]

/-- `sorm_insert` and `sorm_replace` on an object with a value whose statement fits. -/
theorem save_run {obj : Object table} (conn : Connection) {insertOrReplace : Text} {b : Buf}
    (hvalue : checkHasValue obj) (hfits : saveStmt obj insertOrReplace = .ok b) {s s₁ : Db} {n : ℕ}
    (hbind : o.run (bindEach obj (some o.stmtHandle) obj.valued table.indexes 1) s =
      (.ok (.ok, n), s₁)) :
    o.run (save (some conn) (some obj) insertOrReplace) s =
      ((if (o.step s₁).1 = .done then obj.keySet o else .ok (.dbError, obj)).map
        fun r => (r.1, some r.2), (o.step s₁).2) := by
  have hrun := savePrepared_run conn b.text hbind
  unfold save
  dsimp only
  rw [if_pos hvalue, hfits]
  dsimp only
  cases hr : (if (o.step s₁).1 = .done then obj.keySet o else .ok (.dbError, obj)) with
  | error why =>
      rw [hr] at hrun
      exact Prog.run_bind_error hrun _
  | ok r =>
      rw [hr] at hrun
      exact Prog.run_bind_ok hrun _

end Sorm
