import Sorm.Filter
import Sorm.Objects

/-!
# Operations that write

The public functions of `sorm.c` that run one statement. `runPrepared` is the part that
`sorm_run_stmt`, the table and index functions and `sorm_delete_by` have in common: prepare, one
step, and finalize on either result. `sorm_delete` and `sorm_update` return from a failed step
without the finalize, and `_save` returns so when the primary key cannot be set.
-/

namespace Sorm

open Interaction

variable {table : TableDescriptor}

def dbFinalize (stmtHandle : Option Handle) (retVal : SormError) : Act SormError := do
  let ret ← sqlite3Finalize stmtHandle
  if ret = .ok then return retVal else return .dbError

def runPrepared (conn : Connection) (sqlStmt : Text) (rwlockFlag : RwlockFlag) :
    Act SormError := do
  let (ret, stmtHandle) ← sqlite3Prepare sqlStmt
  if ret ≠ .ok then return .dbError
  let ret ← sqlite3Step conn stmtHandle rwlockFlag
  if ret ≠ .done then dbFinalize stmtHandle .dbError
  else dbFinalize stmtHandle .ok

def runBuilt (conn : Connection) : Build → Act SormError
  | .error (e, _) => e.act
  | .ok b => runPrepared conn b.text .write

def sormRunStmt (conn : Option Connection) (sqlStmt : CString) (rwlockFlag : RwlockFlag) :
    Act SormError := do
  let conn ← assertSome conn
  runPrepared conn sqlStmt.chars rwlockFlag

def sormCreateTable (conn : Option Connection) (tableDesc : Option TableDescriptor) :
    Act SormError :=
  match conn, tableDesc with
  | none, _ => return .argNull
  | some _, none => return .argNull
  | some conn, some table =>
    match table.createSql with
    | none => runBuilt conn (createTableStmt conn table)
    | some createSql => runPrepared conn createSql .write

def sormDeleteTable (conn : Option Connection) (tableDesc : Option TableDescriptor) :
    Act SormError :=
  match conn, tableDesc with
  | none, _ => return .argNull
  | some _, none => return .argNull
  | some conn, some table => runBuilt conn (deleteTableStmt table)

def sormCreateIndex (conn : Option Connection) (tableDesc : Option TableDescriptor)
    (columnsName : Option CString) : Act SormError :=
  match conn, tableDesc, columnsName with
  | none, _, _ => return .argNull
  | some _, none, _ => return .argNull
  | some _, some _, none => return .argNull
  | some conn, some table, some columnsName => do
      let indexSuffix ← malloc .libc (columnsName.chars.length + 1)
      free .libc indexSuffix
      runBuilt conn (createIndexStmt table columnsName.chars)

def sormDropIndex (conn : Option Connection) (columnsName : Option CString) : Act SormError :=
  match conn, columnsName with
  | none, _ => return .argNull
  | some _, none => return .argNull
  | some conn, some columnsName => do
      let indexSuffix ← malloc .libc (columnsName.chars.length + 1)
      free .libc indexSuffix
      runBuilt conn (dropIndexStmt columnsName.chars)

def sormDeleteBy (conn : Option Connection) (tableDesc : Option TableDescriptor)
    (filter : Option Text) : Act SormError :=
  match conn, tableDesc with
  | none, _ => return .argNull
  | some _, none => return .argNull
  | some conn, some table => runBuilt conn (deleteByStmt table filter)

def sormDeleteByColumn (conn : Option Connection) (tableDesc : Option TableDescriptor)
    (columnIndex : ℕ) (columnValue : Option Pointer) : Act SormError := do
  let table ← assertSome tableDesc
  let columnValue ← assertSome columnValue
  let column ← assertSome table.columns[columnIndex]?
  let (ret, filter) ← Prog.ofExcept (constructColumnFilter column columnValue)
  if ret ≠ .ok then return ret
  sormDeleteBy conn (some table) (some filter)

def checkHasValue (obj : Object table) : Bool := table.indexes.any obj.valued

/-- The memory behind `int row_id`: the row id, and what lies above it on the stack. -/
def rowIdPointer (rowId : BitVec 32) (above : Pointer) : Pointer where
  address := above.address
  int32 := rowId
  int64 := (above.int32.zeroExtend 64 <<< 32) ||| rowId.zeroExtend 64
  double := above.double
  text := .ofBytes (rowIdBytes rowId ++ above.text.chars)
  bytes k := (rowIdBytes rowId).getD k (above.bytes (k - 4))
where
  rowIdBytes (rowId : BitVec 32) : Text :=
    [0, 8, 16, 24].map fun shift => Char.ofNat ((rowId >>> shift).toNat % 256)

def savePrimaryKey (obj : Object table) : Act (SormError × Object table) :=
  match table.pkIndex with
  | none => return (.ok, obj)
  | some pkIndex => do
      let rowId ← perform .lastInsertRowid
      let above ← perform .uninitialised
      Prog.ofExcept (obj.setColumnValue pkIndex (rowIdPointer (rowId.truncate 32) above) 0)

def savePrepared (conn : Connection) (obj : Object table) (sqlStmt : Text) :
    Act (SormError × Object table) := do
  let (ret, stmtHandle) ← sqlite3Prepare sqlStmt
  if ret ≠ .ok then return (.dbError, obj)
  let (ret, _) ← bindEach obj stmtHandle obj.valued table.indexes 1
  if ret ≠ .ok then
    let ret ← dbFinalize stmtHandle ret
    return (ret, obj)
  let ret ← sqlite3Step conn stmtHandle .write
  if ret ≠ .done then
    let ret ← dbFinalize stmtHandle .dbError
    return (ret, obj)
  let (ret, obj) ← savePrimaryKey obj
  if ret ≠ .ok then return (ret, obj)
  let ret ← dbFinalize stmtHandle .ok
  return (ret, obj)

def save (conn : Option Connection) (tableDesc : Option (Object table)) (insertOrReplace : Text) :
    Act (SormError × Option (Object table)) :=
  match tableDesc, conn with
  | none, _ => return (.argNull, none)
  | some obj, none => return (.argNull, some obj)
  | some obj, some conn =>
    if checkHasValue obj then
      match saveStmt obj insertOrReplace with
      | .error (e, _) => do
          let ret ← e.act
          return (ret, some obj)
      | .ok b => do
          let (ret, obj) ← savePrepared conn obj b.text
          return (ret, some obj)
    else return (.ok, some obj)

def sormInsert (conn : Option Connection) (tableDesc : Option (Object table)) :
    Act (SormError × Option (Object table)) := save conn tableDesc "INSERT".toList

def sormReplace (conn : Option Connection) (tableDesc : Option (Object table)) :
    Act (SormError × Option (Object table)) := save conn tableDesc "REPLACE".toList

/-- `sorm_delete` and `sorm_update` from the call of `_sqlite3_prepare` on; `sorm_update` binds the
unique columns in a second loop. -/
def runBound (conn : Connection) (obj : Object table) (sqlStmt : Text)
    (second : Option (table.Index → Bool)) : Act SormError := do
  let (ret, stmtHandle) ← sqlite3Prepare sqlStmt
  if ret ≠ .ok then return .dbError
  let (ret, bindIndex) ← bindEach obj stmtHandle obj.valued table.indexes 1
  if ret ≠ .ok then dbFinalize stmtHandle ret
  else
    let (ret, _) ← match second with
      | none => pure (.ok, bindIndex)
      | some test => bindEach obj stmtHandle test table.indexes bindIndex
    if ret ≠ .ok then dbFinalize stmtHandle ret
    else
      let ret ← sqlite3Step conn stmtHandle .write
      if ret ≠ .done then return .dbError
      dbFinalize stmtHandle .ok

def sormDelete (conn : Option Connection) (tableDesc : Option (Object table)) : Act SormError :=
  match tableDesc with
  | none => return .argNull
  | some obj =>
    if checkHasValue obj then
      match deleteStmt obj with
      | .error (e, _) => e.act
      | .ok b => do
          let conn ← assertSome conn
          runBound conn obj b.text none
    else return .ok

def sormUpdate (conn : Option Connection) (tableDesc : Option (Object table)) : Act SormError :=
  match tableDesc with
  | none => return .argNull
  | some obj =>
    if checkHasValue obj then
      match updateStmt obj with
      | .error (e, _) => e.act
      | .ok b => do
          let conn ← assertSome conn
          runBound conn obj b.text (some obj.valuedUnique)
    else return .ok

end Sorm
