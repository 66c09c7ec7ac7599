import Sorm.Interface

/-!
# Setting, binding and reading one column

`sorm_set_column_value`, `_sqlite3_column_bind` and `_sqlite3_column` are three case analyses over
the type and memory kind of a column; allocating and freeing objects goes by the same slots.
-/

namespace Sorm

open Interaction

variable {table : TableDescriptor}

def firstBytes (len : ℤ) (bytes : ℕ → Char) : Text := (List.range len.toNat).map bytes

/-- `snprintf(dest, max_len + 1, "%s", s)` over what `dest` held: the size is converted to an
unsigned type, so a negative one does not bound the copy. -/
def stackText (maxLen : ℤ) (dest s : CString) : CString :=
  if maxLen + 1 = 0 then dest
  else if maxLen + 1 < 0 then s
  else s.take maxLen.toNat

namespace Object

def setColumnText (obj : Object table) (i : table.Index) (value : Pointer) :
    SormError × Object table :=
  match (table.column i).mem with
  | .heap => (.ok, obj.setSlot i { obj.slots i with pointer := some value.toCharPointer })
  | .stack =>
      let maxLen := (table.column i).maxLen
      let obj' := obj.setSlot i
        { obj.slots i with chars := stackText maxLen (obj.slots i).chars value.text }
      if (value.text.chars.length : ℤ) > maxLen then (.tooLong, obj') else (.ok, obj')
  | .none => (.invalidMem, obj)

/-- `memcpy` with a negative length is undefined. -/
def setColumnBlob (obj : Object table) (i : table.Index) (value : Pointer) (valueLen : ℤ) :
    Except Halt (SormError × Object table) :=
  match (table.column i).mem with
  | .heap => .ok (.ok, obj.setSlot i
      { obj.slots i with pointer := some value.toCharPointer, blobLen := valueLen })
  | .stack =>
      if valueLen > (table.column i).maxLen then .ok (.tooLong, obj)
      else if valueLen < 0 then .error .undefined
      else .ok (.ok, obj.setSlot i { obj.slots i with
        bytes := fun k => if (k : ℤ) < valueLen then value.bytes k else (obj.slots i).bytes k
        blobLen := valueLen })
  | .none => .ok (.invalidMem, obj)

def setColumn (obj : Object table) (i : table.Index) (value : Pointer) (valueLen : ℤ) :
    Except Halt (SormError × Object table) :=
  match (table.column i).type with
  | .int => .ok (.ok, obj.setSlot i { obj.slots i with int32 := value.int32 })
  | .int64 => .ok (.ok, obj.setSlot i { obj.slots i with int64 := value.int64 })
  | .text => .ok (obj.setColumnText i value)
  | .double => .ok (.ok, obj.setSlot i { obj.slots i with double := value.double })
  | .blob => obj.setColumnBlob i value valueLen
  | .unknown _ => .ok (.invalidType, obj)

def setColumnValue (obj : Object table) (i : table.Index) (value : Pointer) (valueLen : ℤ) :
    Except Halt (SormError × Object table) := do
  let (ret, obj) ← obj.setColumn i value valueLen
  if ret = .ok then
    return (.ok, (obj.addColumnStat i sormStatValued).delColumnStat i sormStatNeedfree)
  else return (ret, obj)

def boundValue (obj : Object table) (i : table.Index) : Except SormError Bound :=
  let slot := obj.slots i
  match (table.column i).type with
  | .int => .ok (.int slot.int32)
  | .int64 => .ok (.int64 slot.int64)
  | .text =>
      match (table.column i).mem with
      | .heap => .ok (.text (slot.pointer.map CharPointer.text))
      | .stack => .ok (.text (some slot.chars))
      | .none => .error .invalidMem
  | .double => .ok (.double slot.double)
  | .blob =>
      match (table.column i).mem with
      | .heap => .ok (.blob (slot.pointer.map fun p => firstBytes slot.blobLen p.bytes) slot.blobLen)
      | .stack => .ok (.blob (some (firstBytes slot.blobLen slot.bytes)) slot.blobLen)
      | .none => .error .invalidMem
  | .unknown _ => .error .invalidType

def fresh (table : TableDescriptor) : Object table := ⟨fun _ => Slot.zero⟩

end Object

def sormSetColumnValue (tableDesc : Option (Object table)) (i : table.Index)
    (value : Option Pointer) (valueLen : ℤ) :
    Except Halt (SormError × Option (Object table)) :=
  match tableDesc, value with
  | none, _ => .ok (.argNull, none)
  | some obj, none => .ok (.argNull, some obj)
  | some obj, some value => do
      let (ret, obj) ← obj.setColumnValue i value valueLen
      return (ret, some obj)

def sqlite3ColumnBind (obj : Object table) (stmtHandle : Option Handle) (i : table.Index)
    (bindIndex : ℕ) : Act SormError := do
  let _ ← assertSome stmtHandle
  if obj.valued i then
    match obj.boundValue i with
    | .error e => return e
    | .ok value =>
      let ret ← perform (.bind stmtHandle bindIndex value)
      if ret = .ok then return .ok else return .dbError
  else abort

/-- The bind loops: each column that passes the test takes the next index. -/
def bindEach (obj : Object table) (stmtHandle : Option Handle) (test : table.Index → Bool) :
    List table.Index → ℕ → Act (SormError × ℕ)
  | [], bindIndex => return (.ok, bindIndex)
  | i :: is, bindIndex =>
      if test i then do
        let ret ← sqlite3ColumnBind obj stmtHandle i bindIndex
        if ret = .ok then bindEach obj stmtHandle test is (bindIndex + 1)
        else return (ret, bindIndex)
      else bindEach obj stmtHandle test is bindIndex

def CharPointer.ofBlock (address : Address) (bytes : Text) : CharPointer where
  address := address
  text := .ofBytes bytes
  bytes k := bytes.getD k '\x00'

def sqlite3ColumnText (allocator : Allocator) (obj : Object table) (stmtHandle : Option Handle)
    (i : table.Index) (resultIndex : ℕ) : Act (SormError × Object table) := do
  let slot := obj.slots i
  match (table.column i).mem with
  | .heap =>
      let text ← strdup allocator (← perform (.columnText stmtHandle resultIndex))
      let pointer := text.map fun t => CharPointer.ofBlock t.1 t.2.chars
      return (.ok, (obj.setSlot i { slot with pointer }).addColumnStat i sormStatNeedfree)
  | .stack =>
      match ← perform (.columnBlob stmtHandle resultIndex) with
      | none => return (.ok, obj)
      | some _ =>
        match ← perform (.columnText stmtHandle resultIndex) with
        | none => .stop .undefined
        | some text =>
          let maxLen := (table.column i).maxLen
          let obj' := obj.setSlot i { slot with chars := stackText maxLen slot.chars text }
          if (text.chars.length : ℤ) > maxLen then return (.tooLong, obj') else return (.ok, obj')
  | .none => return (.invalidMem, obj)

def sqlite3ColumnBlob (allocator : Allocator) (obj : Object table) (stmtHandle : Option Handle)
    (i : table.Index) (resultIndex : ℕ) : Act (SormError × Object table) := do
  match (table.column i).mem with
  | .heap =>
      let blobDb ← perform (.columnBlob stmtHandle resultIndex)
      let blobLen ← perform (.columnBytes stmtHandle resultIndex)
      let blob ← malloc allocator blobLen
      let pointer := blob.map fun b => CharPointer.ofBlock b ((blobDb.getD []).take blobLen)
      let obj := obj.setSlot i { obj.slots i with pointer }
      let obj := if blobLen ≠ 0 then obj.addColumnStat i sormStatNeedfree else obj
      return (.ok, obj.setBlobLen i blobLen)
  | .stack =>
      let text ← perform (.columnBlob stmtHandle resultIndex)
      let blobLen ← perform (.columnBytes stmtHandle resultIndex)
      if (blobLen : ℤ) > (table.column i).maxLen then return (.tooLong, obj)
      else
        let slot := obj.slots i
        let bytes := fun k => if k < blobLen then (text.getD []).getD k '\x00' else slot.bytes k
        return (.ok, (obj.setSlot i { slot with bytes }).setBlobLen i blobLen)
  | .none => return (.invalidMem, obj)

def sqlite3Column (allocator : Allocator) (obj : Object table) (stmtHandle : Option Handle)
    (i : table.Index) (resultIndex : ℕ) : Act (SormError × Object table) := do
  let _ ← assertSome stmtHandle
  let columnClass ← perform (.columnType stmtHandle resultIndex)
  if columnClass = .null then return (.ok, obj.addColumnStat i sormStatNull)
  let (ret, obj) ← match (table.column i).type with
    | .int => do
        let v ← perform (.columnInt stmtHandle resultIndex)
        pure (SormError.ok, obj.setSlot i { obj.slots i with int32 := v })
    | .int64 => do
        let v ← perform (.columnInt64 stmtHandle resultIndex)
        pure (.ok, obj.setSlot i { obj.slots i with int64 := v })
    | .text => sqlite3ColumnText allocator obj stmtHandle i resultIndex
    | .double => do
        let v ← perform (.columnDouble stmtHandle resultIndex)
        pure (.ok, obj.setSlot i { obj.slots i with double := v })
    | .blob => sqlite3ColumnBlob allocator obj stmtHandle i resultIndex
    | .unknown _ => pure (.invalidType, obj)
  if ret = .ok then return (.ok, obj.addColumnStat i sormStatValued)
  else return (ret, obj)

def mulSizeT (size : ℕ) (n : ℤ) : ℕ := (size * (n % 2 ^ 64).toNat) % 2 ^ 64

def sormNewArray (allocator : Allocator) (initTableDesc : TableDescriptor) (n : ℤ) :
    Act (Option Address) :=
  if n = 0 then return none else malloc allocator (mulSizeT initTableDesc.size n)

def sormNew (allocator : Allocator) (initTableDesc : TableDescriptor) : Act (Option Address) :=
  sormNewArray allocator initTableDesc 1

def sormFreeColumns (allocator : Allocator) (obj : Object table) : List table.Index → Act Unit
  | [] => return ()
  | i :: is => do
      if sormIsStatNeedfree (obj.getColumnStat i) then
        if ((table.column i).type = .text ∨ (table.column i).type = .blob) ∧
            (table.column i).mem = .heap then
          free allocator ((obj.slots i).pointer.map CharPointer.address)
        else abort
      sormFreeColumns allocator obj is

def sormFree (allocator : Allocator) (tableDesc : Option (Object table)) : Act Unit :=
  match tableDesc with
  | none => return ()
  | some obj => sormFreeColumns allocator obj table.indexes

end Sorm
