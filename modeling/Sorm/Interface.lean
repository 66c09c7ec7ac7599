import Sorm.Interaction
import Sorm.Types

/-!
# The outside of the library

The calls the library makes to SQLite, to the semaphore and rwlock, and to the allocators, and the
wrappers of `sorm.c` and `memory.h` around them. A statement handle is the number of the prepared
statement it was returned for; `none` is the NULL handle.
-/

namespace Sorm

open Interaction

inductive DbCode
  | ok
  | busy
  | row
  | done
  | other (code : ℕ)
deriving DecidableEq, Repr

abbrev Handle := ℕ

/-- A value given to one of the `sqlite3_bind` functions. For a BLOB the bytes behind the pointer,
when it is not NULL, and the length argument. -/
inductive Bound
  | int (v : BitVec 32)
  | int64 (v : BitVec 64)
  | text (s : Option CString)
  | double (v : ℚ)
  | blob (bytes : Option Text) (len : ℤ)
deriving DecidableEq

inductive ColumnClass
  | integer
  | float
  | text
  | blob
  | null
deriving DecidableEq, Repr

inductive Allocator
  | libc
  | user
deriving DecidableEq, Repr

inductive Call
  | semP (key : ℤ)
  | semV (key : ℤ)
  | rdlock
  | wrlock
  | rwUnlock
  | prepare (sql : Text) (nByte : ℕ)
  | bind (stmt : Option Handle) (index : ℕ) (value : Bound)
  | step (stmt : Option Handle)
  | finalize (stmt : Option Handle)
  | columnType (stmt : Option Handle) (index : ℕ)
  | columnInt (stmt : Option Handle) (index : ℕ)
  | columnInt64 (stmt : Option Handle) (index : ℕ)
  | columnDouble (stmt : Option Handle) (index : ℕ)
  | columnText (stmt : Option Handle) (index : ℕ)
  | columnBlob (stmt : Option Handle) (index : ℕ)
  | columnBytes (stmt : Option Handle) (index : ℕ)
  | lastInsertRowid
  | close
  | malloc (allocator : Allocator) (size : ℕ)
  | strdup (allocator : Allocator) (string : CString)
  | free (allocator : Allocator) (ptr : Option Address)
  | uninitialised
deriving DecidableEq

/-- What each call answers. The lock functions of the rwlock answer whether they returned 0, an
allocation the block or `none`, and `uninitialised` is the memory behind a local variable. -/
abbrev Resp : Call → Type
  | .semP _ | .semV _ => Unit
  | .rdlock | .wrlock | .rwUnlock => Bool
  | .prepare _ _ => DbCode × Option Handle
  | .bind _ _ _ | .step _ | .finalize _ | .close => DbCode
  | .columnType _ _ => ColumnClass
  | .columnInt _ _ => BitVec 32
  | .columnInt64 _ _ => BitVec 64
  | .columnDouble _ _ => ℚ
  | .columnText _ _ => Option CString
  | .columnBlob _ _ => Option Text
  | .columnBytes _ _ => ℕ
  | .lastInsertRowid => BitVec 64
  | .malloc _ _ => Option Address
  | .strdup _ _ => Option Address
  | .free _ _ => Unit
  | .uninitialised => Pointer

abbrev Act := Prog Call Resp

abbrev SormEvent := Event Resp

abbrev perform (c : Call) : Act (Resp c) := Prog.perform c

def abort {α : Type} : Act α := .stop .abort

def assertSome {α : Type} : Option α → Act α
  | some a => return a
  | none => abort

@[simp] theorem assertSome_some {α : Type} (a : α) : assertSome (some a) = pure a := rfl

/-- `_malloc`: NULL for a size of 0, and the process exits when there is no memory. -/
def malloc (allocator : Allocator) (size : ℕ) : Act (Option Address) :=
  if size = 0 then return none
  else do
    match ← perform (.malloc allocator size) with
    | some buf => return some buf
    | none => .stop .exit

def strdup (allocator : Allocator) : Option CString → Act (Option (Address × CString))
  | none => return none
  | some str => do
    match ← perform (.strdup allocator str) with
    | some buf => return some (buf, str)
    | none => .stop .exit

def free (allocator : Allocator) (ptr : Option Address) : Act Unit :=
  perform (.free allocator ptr)

def lock (conn : Connection) (rwlockFlag : RwlockFlag) : Act Unit :=
  if sormSemaphoreEnabled conn.flags then perform (.semP conn.semKey)
  else if sormRwlockEnabled conn.flags then do
    let ret ← match rwlockFlag with
      | .read => perform .rdlock
      | .write => perform .wrlock
    if ret then return () else abort
  else return ()

def unlock (conn : Connection) : Act Unit :=
  if sormSemaphoreEnabled conn.flags then perform (.semV conn.semKey)
  else if sormRwlockEnabled conn.flags then do
    let ret ← perform .rwUnlock
    if ret then return () else abort
  else return ()

/-- `_sqlite3_step`: the lock is taken only outside of a transaction. -/
def sqlite3Step (conn : Connection) (stmtHandle : Option Handle) (rwFlag : RwlockFlag) :
    Act DbCode := do
  if conn.transactionNum = 0 then lock conn rwFlag
  let ret ← Prog.retry (fun ret : DbCode => ret == .busy) (perform (.step stmtHandle))
    (busyRetryTime - 1)
  if conn.transactionNum = 0 then unlock conn
  return ret

theorem sqlite3Step_outside {conn : Connection} (h0 : conn.transactionNum = 0)
    (stmtHandle : Option Handle) (rwFlag : RwlockFlag) :
    sqlite3Step conn stmtHandle rwFlag = (do
      lock conn rwFlag
      let ret ← Prog.retry (fun ret : DbCode => ret == .busy) (perform (.step stmtHandle))
        (busyRetryTime - 1)
      unlock conn
      return ret) := by
  simp only [sqlite3Step, h0, if_true]

theorem sqlite3Step_inside {conn : Connection} (h0 : conn.transactionNum ≠ 0)
    (stmtHandle : Option Handle) (rwFlag : RwlockFlag) :
    sqlite3Step conn stmtHandle rwFlag =
      Prog.retry (fun ret : DbCode => ret == .busy) (perform (.step stmtHandle))
        (busyRetryTime - 1) := by
  simp only [sqlite3Step, h0, if_false, bind_pure]

def sqlite3Prepare (sqlStmt : Text) : Act (DbCode × Option Handle) :=
  Prog.retry (fun ret : DbCode × Option Handle => ret.1 == .busy) (perform (.prepare sqlStmt sqlStmtMaxLen))
    (busyRetryTime - 1)

def sqlite3Finalize (stmtHandle : Option Handle) : Act DbCode :=
  Prog.retry (fun ret : DbCode => ret == .busy) (perform (.finalize stmtHandle)) (busyRetryTime - 1)

end Sorm
