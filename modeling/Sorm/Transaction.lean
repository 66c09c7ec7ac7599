import Sorm.Operations

/-!
# Transactions and the end of a connection

`sorm_begin_transaction`, `sorm_commit_transaction`, `sorm_rollback_transaction` and `sorm_close`.
The first three return the connection as they leave it.
-/

namespace Sorm

open Interaction

/-- `sqlite3_prepare`, called without the retries of `_sqlite3_prepare`. -/
def prepareOnce (sqlStmt : Text) : Act (DbCode × Option Handle) :=
  perform (.prepare sqlStmt sqlStmtMaxLen)

/-- `sorm_begin_transaction`. The flag is not used: no lock is taken. The counter is an `int`. -/
def sormBeginTransaction (conn : Connection) (sqlStmt : Text) (_rwlockFlag : RwlockFlag) :
    Act (SormError × Connection) :=
  if conn.transactionNum = 0 then do
    let (ret, stmtHandle) ← prepareOnce sqlStmt
    if ret ≠ .ok then return (.dbError, conn)
    let ret ← perform (.step stmtHandle)
    let retVal := if ret ≠ .done then SormError.dbError else .ok
    let ret ← sqlite3Finalize stmtHandle
    if ret ≠ .ok then return (.dbError, conn)
    if retVal = .ok then return (retVal, { conn with transactionNum := conn.transactionNum + 1 })
    else do
      unlock conn
      return (retVal, conn)
  else if intMax ≤ conn.transactionNum then .stop .undefined
  else return (.ok, { conn with transactionNum := conn.transactionNum + 1 })

def beginWriteText : Text := "BEGIN IMMEDIATE TRANSACTION".toList

def beginReadText : Text := "BEGIN DEFERRED TRANSACTION".toList

def commitText : Text := "COMMIT TRANSACTION".toList

def rollbackText : Text := "ROLLBACK TRANSACTION".toList

def sormBeginWriteTransaction (conn : Connection) : Act (SormError × Connection) :=
  sormBeginTransaction conn beginWriteText .write

def sormBeginReadTransaction (conn : Connection) : Act (SormError × Connection) :=
  sormBeginTransaction conn beginReadText .read

def sormCommitTransaction (conn : Connection) : Act (SormError × Connection) :=
  if conn.transactionNum = 0 then return (.ok, conn)
  else if conn.transactionNum = 1 then
    match Buf.empty.append commitText with
    | .error (e, _) => do
        let ret ← e.act
        return (ret, conn)
    | .ok b => do
        let (ret, stmtHandle) ← prepareOnce b.text
        if ret ≠ .ok then return (.dbError, conn)
        let ret ← perform (.step stmtHandle)
        let retVal := if ret ≠ .done then SormError.dbError else .ok
        let ret ← sqlite3Finalize stmtHandle
        if ret ≠ .ok then return (.dbError, conn)
        let conn' := if retVal = .ok then
            { conn with transactionNum := conn.transactionNum - 1 } else conn
        unlock conn'
        return (retVal, conn')
  else return (.ok, { conn with transactionNum := conn.transactionNum - 1 })

def sormRollbackTransaction (conn : Connection) : Act (SormError × Connection) :=
  if conn.transactionNum = 0 then return (.ok, conn)
  else if conn.transactionNum = 1 then
    match Buf.empty.append rollbackText with
    | .error (e, _) => do
        let ret ← e.act
        return (ret, conn)
    | .ok b => do
        let (ret, stmtHandle) ← prepareOnce b.text
        if ret ≠ .ok then return (.dbError, conn)
        let ret ← perform (.step stmtHandle)
        let retVal := if ret ≠ .done then SormError.dbError else .ok
        let ret ← sqlite3Finalize stmtHandle
        if ret ≠ .ok then return (.dbError, conn)
        let conn' := { conn with transactionNum := conn.transactionNum - 1 }
        unlock conn'
        return (retVal, conn')
  else return (.ok, { conn with transactionNum := conn.transactionNum - 1 })

def closeLoop : ℕ → Act DbCode
  | 0 => .stop .unbounded
  | rounds + 1 => do
      let ret ← perform .close
      if ret = .busy then closeLoop rounds else return ret

def sormClose (rounds : ℕ) : Act SormError := do
  let ret ← closeLoop rounds
  if ret ≠ .ok then return .dbError
  free .libc none
  return .ok

end Sorm
