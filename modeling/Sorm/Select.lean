import Sorm.Columns
import Sorm.Operations

/-!
# Selects

`_select` runs one of three loops over the result rows: into arrays of a given size, into lists up
to a given size, and into lists without a bound. A container is kept with the addresses of its
blocks, so that what is given back to the allocator can be told from what is not.
-/

namespace Sorm

open Interaction

abbrev Row := (table : TableDescriptor) × Object table

def parseColumns {table : TableDescriptor} (allocator : Allocator) (stmtHandle : Option Handle)
    (columnIndexesInResult : List (Option ℕ)) :
    List table.Index → Object table → Act (SormError × Object table)
  | [], row => return (.ok, row)
  | i :: is, row =>
      match columnIndexesInResult[i.val]?.join with
      | none => parseColumns allocator stmtHandle columnIndexesInResult is row
      | some resultIndex => do
          let (ret, row) ← sqlite3Column allocator row stmtHandle i resultIndex
          if ret = .ok then parseColumns allocator stmtHandle columnIndexesInResult is row
          else return (ret, row)

def parseSelectResult {table : TableDescriptor} (allocator : Allocator)
    (stmtHandle : Option Handle) (columnIndexesInResult : List (Option ℕ)) (row : Object table) :
    Act (SormError × Object table) :=
  parseColumns allocator stmtHandle columnIndexesInResult table.indexes row

/-- What a select loop knows about one table: its descriptor, whether the caller wants its rows,
and its selected columns. -/
structure TableSelect where
  tableDesc : TableDescriptor
  isTableSelect : Bool
  selectColumns : SelectColumns

def TableSelect.wanted (t : TableSelect) : Bool :=
  t.selectColumns.columnsNum != 0 && t.isTableSelect

structure RowArray where
  block : Address
  rows : List Row

structure ListEntry where
  block : Address
  data : Option (Address × Row)

structure RowList where
  block : Address
  entries : List ListEntry

/-- A `*_core` loop under way: the tables with their containers, and how many rows each has. -/
abbrev Containers (ρ : Type) := List (TableSelect × Option ρ)

def listFreeEntries (allocator : Allocator) : List ListEntry → Act Unit
  | [] => return ()
  | entry :: entries => do
      match entry.data with
      | none => pure ()
      | some (_, row) => sormFree allocator (some row.2)
      free allocator (some entry.block)
      listFreeEntries allocator entries

def sormListFree (allocator : Allocator) : Option RowList → Act Unit
  | none => return ()
  | some list => do
      listFreeEntries allocator list.entries
      free allocator (some list.block)

def sormFreeRows (allocator : Allocator) : List Row → Act Unit
  | [] => return ()
  | row :: rows => do
      sormFree allocator (some row.2)
      sormFreeRows allocator rows

def sormFreeArray (allocator : Allocator) (n : ℕ) : Option RowArray → Act Unit
  | none => return ()
  | some array => do
      sormFreeRows allocator (array.rows.take n)
      free allocator (some array.block)

/-- The allocation loop of `_select_some_array_core`; `false` is the jump to `RETURN`. -/
def newArrays (allocator : Allocator) (maxRowsNum : ℤ) :
    List TableSelect → Act (Bool × Containers RowArray)
  | [] => return (true, [])
  | t :: ts =>
      if t.wanted then do
        match ← sormNewArray allocator t.tableDesc maxRowsNum with
        | none => return (false, (t, none) :: ts.map fun t => (t, none))
        | some block => do
            let (ok, rest) ← newArrays allocator maxRowsNum ts
            return (ok, (t, some ⟨block, []⟩) :: rest)
      else do
        let (ok, rest) ← newArrays allocator maxRowsNum ts
        return (ok, (t, none) :: rest)

def storeArrayRow (allocator : Allocator) (stmtHandle : Option Handle) :
    Containers RowArray → Act (SormError × Containers RowArray)
  | [] => return (.ok, [])
  | (t, some array) :: ts => do
      let (ret, row) ← parseSelectResult allocator stmtHandle t.selectColumns.indexesInResult
        (Object.fresh t.tableDesc)
      let array := { array with rows := array.rows ++ [⟨t.tableDesc, row⟩] }
      if ret = .ok then
        let (ret, ts) ← storeArrayRow allocator stmtHandle ts
        return (ret, (t, some array) :: ts)
      else return (ret, (t, some array) :: ts)
  | (t, none) :: ts => do
      let (ret, ts) ← storeArrayRow allocator stmtHandle ts
      return (ret, (t, none) :: ts)

structure Rows (ρ : Type) where
  code : SormError
  rowsNum : ℕ
  containers : Containers ρ

/-- What follows the row loop when a step did not return a row. -/
def afterStep {ρ : Type} (stepRet : DbCode) (rowsNum : ℕ) (containers : Containers ρ) : Rows ρ :=
  ⟨if stepRet = .done then .ok else .dbError, rowsNum, containers⟩

def rowLoop {ρ : Type} (conn : Connection) (stmtHandle : Option Handle)
    (store : Containers ρ → Act (SormError × Containers ρ)) :
    ℕ → ℕ → Containers ρ → Act (Rows ρ)
  | 0, rowsNum, containers => return ⟨.ok, rowsNum, containers⟩
  | limit + 1, rowsNum, containers => do
      let stepRet ← sqlite3Step conn stmtHandle .read
      if stepRet = .row then
        let (ret, containers) ← store containers
        if ret = .ok then rowLoop conn stmtHandle store limit (rowsNum + 1) containers
        else return ⟨ret, rowsNum, containers⟩
      else return afterStep stepRet rowsNum containers

def dropArrays (allocator : Allocator) : Containers RowArray → Act Unit
  | [] => return ()
  | (_, array) :: ts => do
      free allocator (array.map RowArray.block)
      dropArrays allocator ts

structure Selected (ρ : Type) where
  code : SormError
  rowsNum : Option ℕ
  rowsOfTables : List (Option ρ)

def finishArrays (allocator : Allocator) (r : Rows RowArray) : Act (Selected RowArray) := do
  if r.code ≠ .ok ∨ r.rowsNum = 0 then
    dropArrays allocator r.containers
    return ⟨r.code, some r.rowsNum, r.containers.map fun _ => none⟩
  else return ⟨r.code, some r.rowsNum, r.containers.map Prod.snd⟩

def selectSomeArrayCore (conn : Connection) (allocator : Allocator) (stmtHandle : Option Handle)
    (tables : List TableSelect) (maxRowsNum : ℤ) : Act (Selected RowArray) := do
  let _ ← assertSome stmtHandle
  if maxRowsNum = 0 then return ⟨.ok, some 0, tables.map fun _ => none⟩
  let (ok, containers) ← newArrays allocator maxRowsNum tables
  if ok then
    let r ← rowLoop conn stmtHandle (storeArrayRow allocator stmtHandle) maxRowsNum.toNat 0
      containers
    finishArrays allocator r
  else finishArrays allocator ⟨.nomem, 0, containers⟩

def sormListSize : ℕ := 24

def newLists (allocator : Allocator) : List TableSelect → Act (Bool × Containers RowList)
  | [] => return (true, [])
  | t :: ts =>
      if t.wanted then do
        match ← malloc allocator sormListSize with
        | none => return (false, (t, none) :: ts.map fun t => (t, none))
        | some block => do
            let (ok, rest) ← newLists allocator ts
            return (ok, (t, some ⟨block, []⟩) :: rest)
      else do
        let (ok, rest) ← newLists allocator ts
        return (ok, (t, none) :: rest)

def storeListEntry (allocator : Allocator) (stmtHandle : Option Handle) (t : TableSelect)
    (list : RowList) : Act (SormError × RowList) := do
  match ← malloc allocator sormListSize with
  | none => return (.nomem, list)
  | some block => do
      match ← sormNew allocator t.tableDesc with
      | none => return (.nomem, { list with entries := list.entries ++ [⟨block, none⟩] })
      | some data => do
          let (ret, row) ← parseSelectResult allocator stmtHandle
            t.selectColumns.indexesInResult (Object.fresh t.tableDesc)
          return (ret, { list with entries := list.entries ++ [⟨block, some (data, ⟨_, row⟩)⟩] })

def storeListRow (allocator : Allocator) (stmtHandle : Option Handle) :
    Containers RowList → Act (SormError × Containers RowList)
  | [] => return (.ok, [])
  | (t, some list) :: ts => do
      let (ret, list) ← storeListEntry allocator stmtHandle t list
      if ret = .ok then
        let (ret, ts) ← storeListRow allocator stmtHandle ts
        return (ret, (t, some list) :: ts)
      else return (ret, (t, some list) :: ts)
  | (t, none) :: ts => do
      let (ret, ts) ← storeListRow allocator stmtHandle ts
      return (ret, (t, none) :: ts)

def dropLists (allocator : Allocator) : Containers RowList → Act Unit
  | [] => return ()
  | (_, list) :: ts => do
      sormListFree allocator list
      dropLists allocator ts

def finishLists (allocator : Allocator) (r : Rows RowList) : Act (Selected RowList) := do
  if r.code ≠ .ok ∨ r.rowsNum = 0 then
    dropLists allocator r.containers
    return ⟨r.code, some r.rowsNum, r.containers.map fun _ => none⟩
  else return ⟨r.code, some r.rowsNum, r.containers.map Prod.snd⟩

def selectSomeListCore (conn : Connection) (allocator : Allocator) (stmtHandle : Option Handle)
    (tables : List TableSelect) (maxRowsNum : ℤ) : Act (Selected RowList) := do
  let _ ← assertSome stmtHandle
  if maxRowsNum = 0 then return ⟨.ok, some 0, tables.map fun _ => none⟩
  let (ok, containers) ← newLists allocator tables
  if ok then
    let r ← rowLoop conn stmtHandle (storeListRow allocator stmtHandle) maxRowsNum.toNat 0
      containers
    finishLists allocator r
  else finishLists allocator ⟨.nomem, 0, containers⟩

/-- The `while(1)` loop of `_select_all_list_core`, for at most `rounds` rounds; `*rows_num` is an
`int`. -/
def allRowsLoop (conn : Connection) (allocator : Allocator) (stmtHandle : Option Handle) :
    ℕ → ℕ → Containers RowList → Act (Rows RowList)
  | 0, _, _ => .stop .unbounded
  | rounds + 1, rowsNum, containers => do
      let ret ← sqlite3Step conn stmtHandle .read
      if ret = .row then
        let (ret, containers) ← storeListRow allocator stmtHandle containers
        if ret = .ok then
          if intMax ≤ rowsNum then .stop .undefined
          else allRowsLoop conn allocator stmtHandle rounds (rowsNum + 1) containers
        else return ⟨ret, rowsNum, containers⟩
      else return afterStep ret rowsNum containers

def selectAllListCore (rounds : ℕ) (conn : Connection) (allocator : Allocator)
    (stmtHandle : Option Handle) (tables : List TableSelect) (_maxRowsNum : ℤ) :
    Act (Selected RowList) := do
  let _ ← assertSome stmtHandle
  let (ok, containers) ← newLists allocator tables
  if ok then
    let r ← allRowsLoop conn allocator stmtHandle rounds 0 containers
    finishLists allocator r
  else finishLists allocator ⟨.nomem, 0, containers⟩

end Sorm
