import Sorm.Interface

/-!
# Statement buffers

Each operation writes its statement into a local array of `SQL_STMT_MAX_LEN + 1` bytes with a
chain of `snprintf` calls at a running offset. `Buf` is that array: the C string it holds, the
offset, and the byte ranges written so far. The builders below follow the text-building half of
the operations, each up to the `log_debug("prepare stmt : ...")` that ends it.
-/

namespace Sorm

open Interaction

inductive Fail
  | code (e : SormError)
  | halt (why : Halt)
deriving DecidableEq

def Fail.act : Fail → Act SormError
  | .code e => return e
  | .halt why => .stop why

/-- `char sql_stmt[SQL_STMT_MAX_LEN + 1]`: the C string in it, the offset, and the first index and
length of every range of bytes written. -/
structure Buf where
  text : Text
  offset : ℕ
  writes : List (ℤ × ℕ)
deriving DecidableEq

abbrev Build := Except (Fail × Buf) Buf

namespace Buf

def empty : Buf := ⟨[], 0, []⟩

/-- `offset += snprintf(sql_stmt + offset, size, "%s", s)`. The bytes after the first NUL do not
belong to the string, so text put past it stays invisible. -/
def snprintf (b : Buf) (size : ℕ) (s : Text) : Buf where
  text := if b.offset ≤ b.text.length then b.text.take b.offset ++ s.take (size - 1) else b.text
  offset := b.offset + s.length
  writes := if size = 0 then b.writes else b.writes ++ [((b.offset : ℤ), min s.length (size - 1) + 1)]

def put (b : Buf) (index : ℤ) (c : Char) : Buf where
  text := if 0 ≤ index ∧ index ≤ b.text.length then
      b.text.take index.toNat ++ if c = '\x00' then [] else c :: b.text.drop (index.toNat + 1)
    else b.text
  offset := b.offset
  writes := b.writes ++ [(index, 1)]

def check (b : Buf) : Build :=
  if b.offset > sqlStmtMaxLen then .error (.code .tooLong, b) else .ok b

/-- A checked `snprintf` into the rest of the array. Its result is negative for a text whose length
is no `int`, and the addition to the offset may overflow. -/
def append (b : Buf) (s : Text) : Build :=
  let b' := b.snprintf (sqlStmtMaxLen - b.offset + 1) s
  if intMax < s.length then .error (.code .tooLong, b')
  else if intMax < b.offset + s.length then .error (.halt .undefined, b')
  else b'.check

def appendEach {ι : Type} (test : ι → Bool) (item : ι → Text) : List ι → Buf → Build
  | [], b => .ok b
  | i :: is, b => do
      if test i then
        let b ← b.append (item i)
        appendEach test item is b
      else appendEach test item is b

end Buf

def Build.TooLongOnly (built : Build) : Prop :=
  ∀ ⦃e : SormError⦄ ⦃b : Buf⦄, built = .error (.code e, b) → e = .tooLong

theorem Build.TooLongOnly.ok {b : Buf} : Build.TooLongOnly (.ok b) := by
  intro e b' h
  cases h

theorem Build.TooLongOnly.halt {why : Halt} {b : Buf} :
    Build.TooLongOnly (.error (.halt why, b)) := by
  intro e b' h
  cases h

theorem Build.TooLongOnly.append (b : Buf) (s : Text) : Build.TooLongOnly (b.append s) := by
  intro e b' h
  unfold Buf.append Buf.check at h
  dsimp only at h
  split_ifs at h with hint hsum hlong
  · cases h
    rfl
  · cases h
  · cases h
    rfl

theorem Build.TooLongOnly.bind {built : Build} {f : Buf → Build} (h : built.TooLongOnly)
    (hf : ∀ b, (f b).TooLongOnly) : Build.TooLongOnly (built >>= f) := by
  rcases built with ⟨e, b⟩ | b
  · intro e' b' h'
    cases h'
    exact h rfl
  · exact hf b

variable {table : TableDescriptor}

def Object.valuedUnique (obj : Object table) (i : table.Index) : Bool :=
  sormIsUniqueColumn (table.column i).constraint && obj.valued i

def saveStmt (obj : Object table) (insertOrReplace : Text) : Build := do
  let b ← Buf.empty.append (insertOrReplace ++ " INTO ".toList ++ table.name ++ " (".toList)
  let b ← b.appendEach obj.valued (fun i => ' ' :: (table.column i).name ++ [',']) table.indexes
  let b := b.put ((b.offset : ℤ) - 1) ')'
  let b ← b.append " VALUES (".toList
  let b ← b.appendEach obj.valued (fun _ => " ?,".toList) table.indexes
  return b.put ((b.offset : ℤ) - 1) ')'

def deleteStmt (obj : Object table) : Build := do
  let b ← Buf.empty.append ("DELETE FROM ".toList ++ table.name ++ " WHERE ".toList)
  let b ← b.appendEach obj.valued (fun i => ' ' :: (table.column i).name ++ "=? AND".toList)
    table.indexes
  return b.put ((b.offset : ℤ) - 4) '\x00'

/-- `sorm_update`. The `snprintf` of `" WHERE"` is given the size of the whole array. -/
def updateStmt (obj : Object table) : Build := do
  let b ← Buf.empty.append ("UPDATE ".toList ++ table.name ++ " SET".toList)
  let b ← b.appendEach obj.valued (fun i => ' ' :: (table.column i).name ++ "=?,".toList)
    table.indexes
  let b := { b with offset := b.offset - 1 }
  let b := b.put b.offset '\x00'
  let b ← (b.snprintf (sqlStmtMaxLen + 1) " WHERE".toList).check
  let b ← b.appendEach obj.valuedUnique
    (fun i => ' ' :: (table.column i).name ++ "=? AND".toList) table.indexes
  return b.put ((b.offset : ℤ) - 4) '\x00'

def deleteByStmt (table : TableDescriptor) (filter : Option Text) : Build := do
  let b ← Buf.empty.append ("DELETE FROM ".toList ++ table.name ++ [' '])
  match filter with
  | some filter => b.append ("WHERE ".toList ++ filter)
  | none => return b

def constructSelectStmt (tableName columnsName : Text) : Build :=
  Buf.empty.append ("SELECT ".toList ++ columnsName ++ " FROM ".toList ++ tableName)

def constructFilterStmt (b : Buf) : Option Text → Build
  | some filter => b.append (" WHERE ".toList ++ filter)
  | none => .ok b

/-- The join clause of `_select` and `_select_iterate_open`; an unknown join type is asserted not
to occur. -/
def constructJoinStmt (b : Buf) (join : SormJoin) (tableName columnName1 columnName2 : Text) :
    Build := do
  let joinStr ← match join with
    | .innerJoin => .ok "INNER JOIN".toList
    | .leftJoin => .ok "LEFT JOIN".toList
    | .unknown _ => .error (.halt .abort, b)
  b.append (' ' :: joinStr ++ ' ' :: tableName ++ " ON ".toList ++ columnName1 ++ '=' :: columnName2)

def sormTypeDbStr : SormType → Option Text
  | .int | .int64 => some "INTEGER".toList
  | .text => some "TEXT".toList
  | .double => some "REAL".toList
  | .blob => some "BLOB".toList
  | .unknown _ => none

def createConstraintStr : SormConstraint → Text
  | .pk => " PRIMARY KEY,".toList
  | .pkDesc => " PRIMARY KEY DESC,".toList
  | .pkAsc => " PRIMARY KEY ASC,".toList
  | .unique => " UNIQUE,".toList
  | .none => ",".toList

def createColumns : List ColumnDescriptor → Buf → Build
  | [], b => .ok b
  | column :: columns, b => do
      match sormTypeDbStr column.type with
      | none => .error (.halt .undefined, b)
      | some type =>
        let b ← b.append (' ' :: column.name ++ ' ' :: type)
        let b ← b.append (createConstraintStr column.constraint)
        createColumns columns b

def createTableStmt (conn : Connection) (table : TableDescriptor) : Build := do
  let b ← Buf.empty.append ("CREATE TABLE IF NOT EXISTS ".toList ++ table.name ++ ['('])
  let b ← createColumns table.columns b
  let b ← if sormForeignKeyEnabled conn.flags then
      b.appendEach ColumnDescriptor.isForeignKey (fun column =>
        " FOREIGN KEY(".toList ++ column.name ++ ") REFERENCES ".toList ++ column.foreignTableName ++
          '(' :: column.foreignColumnName ++ "),".toList) table.columns
    else .ok b
  let b := b.put ((b.offset : ℤ) - 1) ')'
  b.appendEach ColumnDescriptor.isForeignKey (fun column =>
    "; CREATE INDEX ".toList ++ column.name ++ "_index ON ".toList ++ table.name ++
      '(' :: column.name ++ [')']) table.columns

def deleteTableStmt (table : TableDescriptor) : Build :=
  Buf.empty.append ("DROP TABLE ".toList ++ table.name)

def constructIndexSuffix : Text → Text
  | [] => []
  | c :: cs =>
      if c = ',' then '_' :: constructIndexSuffix cs
      else if c ≠ ' ' then c :: constructIndexSuffix cs
      else constructIndexSuffix cs

def createIndexStmt (table : TableDescriptor) (columnsName : Text) : Build :=
  Buf.empty.append ("CREATE INDEX IF NOT EXISTS index_".toList ++ constructIndexSuffix columnsName ++
    " ON ".toList ++ table.name ++ '(' :: columnsName ++ [')'])

def dropIndexStmt (columnsName : Text) : Build :=
  Buf.empty.append ("DROP INDEX index_".toList ++ constructIndexSuffix columnsName)

end Sorm
