import Sorm.Types
import Sorm.Interaction

/-!
# The column list of a select

`_columns_name_to_select_columns` works on a copy of `columns_name`. A `,` of it is overwritten by
NUL, the item before it is trimmed in place, looked up, and given its result positions. An item is
kept here together with the bytes of the buffer before it, nearest first, since `trim` walks
backwards over both.
-/

namespace Sorm

open Interaction

def isBlank (c : Char) : Bool := c == ' ' || c == '\t'

def trimHead (left : Text) : Text → Text × Text
  | [] => (left, [])
  | c :: cs => if isBlank c then trimHead (c :: left) cs else (left, c :: cs)

/-- The last loop of `trim`, over the bytes before `str_end`, nearest first. It runs out of the
buffer when all of them are blank. -/
def trimTail : Text → Except Halt Text
  | [] => .error .undefined
  | c :: cs =>
      if isBlank c then do
        let cs ← trimTail cs
        return '\x00' :: cs
      else .ok (c :: cs)

def trim (left item : Text) : Except Halt (Text × Text) := do
  let (left, str) := trimHead left item
  let bytes ← trimTail (str.reverse ++ left)
  return (bytes.drop str.length, (bytes.take str.length).reverse)

def strchr (c : Char) : Text → Option (Text × Text)
  | [] => none
  | d :: ds => if d = c then some ([], ds) else (strchr c ds).map fun s => (d :: s.1, s.2)

def findColumn (columnName : Text) : List TableDescriptor → Option (ℕ × ℕ)
  | [] => none
  | table :: tables =>
      match table.columns.findIdx? (fun column => column.name == columnName) with
      | some j => some (0, j)
      | none => (findColumn columnName tables).map fun p => (p.1 + 1, p.2)

/-- `_column_name_to_index_in_tables`: the error code, `*table_index` and `*column_index`, where
`none` is `ALL_INDEXES`. A column that no table has runs into the `assert(0)` at the end. -/
def columnNameToIndexInTables (tablesDesc : List TableDescriptor) (columnName : Text) :
    Except Halt (SormError × Option ℕ × Option ℕ) :=
  match strchr '.' columnName with
  | some (tableName, columnName) =>
      match tablesDesc.findIdx? (fun table => table.name == tableName) with
      | none => .ok (.invalidColumnName, none, none)
      | some i =>
        if columnName = ['*'] then .ok (.ok, some i, none)
        else
          match (tablesDesc[i]?).bind fun table =>
              table.columns.findIdx? (fun column => column.name == columnName) with
          | some j => .ok (.ok, some i, some j)
          | none => .error .abort
  | none =>
      if columnName = ['*'] then .ok (.ok, none, none)
      else
        match findColumn columnName tablesDesc with
        | some (i, j) => .ok (.ok, some i, some j)
        | none => .error .abort

/-- `select_columns_t`; `none` is `NO_INDEXES_IN_RESULT`. -/
structure SelectColumns where
  columnsNum : ℕ
  indexesInResult : List (Option ℕ)
deriving DecidableEq, Repr

namespace SelectColumns

def unselected (table : TableDescriptor) : SelectColumns := ⟨0, List.replicate table.columnsNum none⟩

def all (table : TableDescriptor) (start : ℕ) : SelectColumns :=
  ⟨table.columnsNum, (List.range table.columnsNum).map fun i => some (start + i)⟩

def allTables : List TableDescriptor → ℕ → List SelectColumns
  | [], _ => []
  | table :: tables, start => all table start :: allTables tables (start + table.columnsNum)

/-- One column at a result position; a column already selected keeps its position. -/
def one (select : SelectColumns) (columnIndex position : ℕ) : SelectColumns :=
  if select.indexesInResult[columnIndex]? = some none then
    ⟨select.columnsNum + 1, select.indexesInResult.set columnIndex (some position)⟩
  else select

end SelectColumns

/-- The map of the result so far: the selected columns of each table, and `result_columns_num`. That
is an `int`, but the callers have no more than `SQL_STMT_MAX_LEN` bytes of items: it would take
tables of millions of columns to count past `INT_MAX`. -/
structure ResultMap where
  selected : List SelectColumns
  resultColumnsNum : ℕ
deriving DecidableEq, Repr

def totalColumns (tablesDesc : List TableDescriptor) : ℕ :=
  (tablesDesc.map TableDescriptor.columnsNum).sum

def ResultMap.add (m : ResultMap) (tablesDesc : List TableDescriptor) :
    Option ℕ → Option ℕ → ResultMap
  | none, _ =>
      ⟨SelectColumns.allTables tablesDesc m.resultColumnsNum,
        m.resultColumnsNum + totalColumns tablesDesc⟩
  | some i, none =>
      match tablesDesc[i]? with
      | none => m
      | some table =>
        ⟨m.selected.set i (.all table m.resultColumnsNum), m.resultColumnsNum + table.columnsNum⟩
  | some i, some j =>
      ⟨m.selected.modify i fun select => select.one j m.resultColumnsNum, m.resultColumnsNum + 1⟩

def cutAtDot : Text → Text
  | [] => []
  | c :: cs => if c = '.' then '\x00' :: cs else c :: cutAtDot cs

def selectItems (tablesDesc : List TableDescriptor) :
    List Text → Text → ResultMap → Except Halt ResultMap
  | [], _, m => .ok m
  | item :: items, left, m => do
      let (left, region) ← trim left item
      let columnName := region.takeWhile (· != '\x00')
      let (ret, tableIndex, columnIndex) ← columnNameToIndexInTables tablesDesc columnName
      let m := if ret = .ok then m.add tablesDesc tableIndex columnIndex else m
      selectItems tablesDesc items ('\x00' :: (cutAtDot region).reverse ++ left) m

def columnsNameToSelectColumns (tablesDesc : List TableDescriptor) (columnsName : CString) :
    Except Halt (SormError × List SelectColumns) := do
  let m ← selectItems tablesDesc (columnsName.chars.splitOn ',') []
    ⟨tablesDesc.map SelectColumns.unselected, 0⟩
  return (.ok, m.selected)

end Sorm
