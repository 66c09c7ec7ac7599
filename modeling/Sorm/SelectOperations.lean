import Sorm.Select

/-!
# Select functions and iterators

`_select` with its public callers, and the iterator functions. Output pointers are given as
whether the caller passed one; what is stored through them is returned.
-/

namespace Sorm

open Interaction

structure SelectTables where
  tablesDesc : List TableDescriptor
  join : SormJoin
  tablesColumnName : Text × Text

namespace SelectTables

def single (table : TableDescriptor) : SelectTables := ⟨[table], .innerJoin, [], []⟩

def pair (table1 : TableDescriptor) (table1ColumnName : Text) (table2 : TableDescriptor)
    (table2ColumnName : Text) (join : SormJoin) : SelectTables :=
  ⟨[table1, table2], join, table1ColumnName, table2ColumnName⟩

def stmt (t : SelectTables) (columnsName : Text) (filter : Option Text) : Build := do
  let b ← constructSelectStmt ((t.tablesDesc.head?.map TableDescriptor.name).getD []) columnsName
  let b ← match t.tablesDesc with
    | _ :: table2 :: _ =>
        constructJoinStmt b t.join table2.name t.tablesColumnName.1 t.tablesColumnName.2
    | _ => .ok b
  constructFilterStmt b filter

theorem stmt_tooLongOnly (t : SelectTables) (columnsName : Text) (filter : Option Text) :
    (t.stmt columnsName filter).TooLongOnly := by
  have hfilter : ∀ b, (constructFilterStmt b filter).TooLongOnly := by
    intro b
    cases filter with
    | none => exact .ok
    | some filter => exact .append _ _
  have hjoin : ∀ b name, (constructJoinStmt b t.join name t.tablesColumnName.1
      t.tablesColumnName.2).TooLongOnly := by
    intro b name
    unfold constructJoinStmt
    cases t.join with
    | innerJoin => exact .append _ _
    | leftJoin => exact .append _ _
    | unknown code => exact .halt
  unfold SelectTables.stmt
  apply Build.TooLongOnly.bind (.append _ _)
  intro b
  split
  · exact Build.TooLongOnly.bind (hjoin _ _) hfilter
  · exact hfilter b

end SelectTables

def checkSelectArgs (columnsName : Option CString) (filter : Option CString) :
    Except SormError CString :=
  match columnsName with
  | none => .error .argNull
  | some columnsName =>
    if columnsName.chars.length = 0 then .error .columnsNameEmpty
    else if filter.any fun filter => filter.chars.length = 0 then .error .filterEmpty
    else .ok columnsName

theorem checkSelectArgs_ok {columnsName filter : Option CString} {columns : CString}
    (h : checkSelectArgs columnsName filter = .ok columns) : columnsName = some columns := by
  unfold checkSelectArgs at h
  split at h
  · cases h
  · split at h
    · cases h
    · split at h
      · cases h
      · cases h
        rfl

def selectColumnsSize : ℕ := 16

def newIndexes : List TableDescriptor → Act (Bool × List Address)
  | [] => return (true, [])
  | table :: tables => do
      match ← malloc .libc (4 * table.columnsNum) with
      | none => return (false, [])
      | some indexes => do
          let (ok, rest) ← newIndexes tables
          return (ok, indexes :: rest)

def freeAll (allocator : Allocator) : List Address → Act Unit
  | [] => return ()
  | block :: blocks => do
      free allocator (some block)
      freeAll allocator blocks

def parseColumnsName (tablesDesc : List TableDescriptor) (columnsName : CString) :
    Act (SormError × List SelectColumns) := do
  let copy ← strdup .libc (some columnsName)
  let r ← Prog.ofExcept (columnsNameToSelectColumns tablesDesc columnsName)
  free .libc (copy.map Prod.fst)
  return r

abbrev SelectCore (ρ : Type) :=
  Connection → Allocator → Option Handle → List TableSelect → ℤ → Act (Selected ρ)

/-- `_select` between the allocation of the column maps and the label `RETURN`. -/
def selectPrepared {ρ : Type} (selectCore : SelectCore ρ) (conn : Connection)
    (allocator : Allocator) (columnsName : CString) (tables : SelectTables)
    (isTablesSelect : List Bool) (filter : Option CString) (maxRowsNum : ℤ) :
    Act (Selected ρ) := do
  let nothing (code : SormError) : Selected ρ :=
    ⟨code, some 0, tables.tablesDesc.map fun _ => none⟩
  match tables.stmt columnsName.chars (filter.map CString.chars) with
  | .error (e, _) => do
      let ret ← e.act
      return nothing ret
  | .ok b => do
      let (ret, stmtHandle) ← sqlite3Prepare b.text
      if ret ≠ .ok then return nothing .dbError
      let (ret, selectColumns) ← parseColumnsName tables.tablesDesc columnsName
      if ret ≠ .ok then
        let ret ← dbFinalize stmtHandle ret
        return nothing ret
      let tableSelects := (tables.tablesDesc.zip (isTablesSelect.zip selectColumns)).map
        fun t => TableSelect.mk t.1 t.2.1 t.2.2
      let selected ← selectCore conn allocator stmtHandle tableSelects maxRowsNum
      let code ← dbFinalize stmtHandle selected.code
      return { selected with code }

def select {ρ : Type} (selectCore : SelectCore ρ) (conn : Option Connection)
    (allocator : Allocator) (columnsName : Option CString) (tables : SelectTables)
    (isTablesSelect : List Bool) (filter : Option CString) (rowsNum : Option ℤ) :
    Act (Selected ρ) := do
  let nothing (code : SormError) : Selected ρ := ⟨code, none, tables.tablesDesc.map fun _ => none⟩
  match conn, checkSelectArgs columnsName none, rowsNum, checkSelectArgs columnsName filter with
  | none, _, _, _ => return nothing .argNull
  | some _, .error e, _, _ => return nothing e
  | some _, .ok _, none, _ => return nothing .argNull
  | some _, .ok _, some _, .error e => return nothing e
  | some conn, .ok _, some maxRowsNum, .ok columnsName => do
      match ← malloc .libc (selectColumnsSize * tables.tablesDesc.length) with
      | none => return nothing .nomem
      | some maps => do
          let (ok, indexes) ← newIndexes tables.tablesDesc
          let selected ← if ok then
              selectPrepared selectCore conn allocator columnsName tables isTablesSelect filter
                maxRowsNum
            else pure (nothing .nomem)
          freeAll .libc indexes
          free .libc (some maps)
          if selected.code = .ok ∧ selected.rowsNum = some 0 then
            return { selected with code := .noexist }
          else return selected

def sormSelectSomeArrayBy (conn : Option Connection) (allocator : Allocator)
    (tables : SelectTables) (columnsName filter : Option CString) (rowsNum : Option ℤ)
    (isTablesSelect : List Bool) : Act (Selected RowArray) :=
  select selectSomeArrayCore conn allocator columnsName tables isTablesSelect filter rowsNum

def sormSelectSomeListBy (conn : Option Connection) (allocator : Allocator)
    (tables : SelectTables) (columnsName filter : Option CString) (rowsNum : Option ℤ)
    (isTablesSelect : List Bool) : Act (Selected RowList) :=
  select selectSomeListCore conn allocator columnsName tables isTablesSelect filter rowsNum

def sormSelectAllListBy (rounds : ℕ) (conn : Option Connection) (allocator : Allocator)
    (tables : SelectTables) (columnsName filter : Option CString) (rowsNum : Option ℤ)
    (isTablesSelect : List Bool) : Act (Selected RowList) :=
  select (selectAllListCore rounds) conn allocator columnsName tables isTablesSelect filter rowsNum

def listCpyFreeEntries (allocator : Allocator) : List ListEntry → Act (List Row)
  | [] => return []
  | entry :: entries => do
      free allocator (entry.data.map Prod.fst)
      free allocator (some entry.block)
      let rows ← listCpyFreeEntries allocator entries
      return (entry.data.map Prod.snd).toList ++ rows

def listCpyFree (allocator : Allocator) (list : RowList) (n : ℕ) : Act (List Row) := do
  let rows ← listCpyFreeEntries allocator list.entries
  if list.entries.length = n then
    free allocator (some list.block)
    return rows
  else abort

def sormSelectAllArrayBy (rounds : ℕ) (conn : Option Connection) (allocator : Allocator)
    (tableDesc : TableDescriptor) (columnsName filter : Option CString) (rowsNum : Option ℤ)
    (getRow : Bool) : Act (Selected RowArray) := do
  let lists ← sormSelectAllListBy rounds conn allocator (.single tableDesc) columnsName filter
    rowsNum [getRow]
  let n := lists.rowsNum.getD 0
  if lists.code ≠ .ok then return ⟨lists.code, lists.rowsNum, [none]⟩
  if n = 0 then return ⟨.noexist, lists.rowsNum, [none]⟩
  if getRow then
    match ← sormNewArray allocator tableDesc n with
    | none => do
        sormListFree allocator lists.rowsOfTables.head?.join
        return ⟨.nomem, lists.rowsNum, [none]⟩
    | some block => do
        let list ← assertSome lists.rowsOfTables.head?.join
        let rows ← listCpyFree allocator list n
        return ⟨.ok, lists.rowsNum, [some ⟨block, rows⟩]⟩
  else return ⟨.ok, lists.rowsNum, [none]⟩

def listsToArrays (allocator : Allocator) (rowsNum : ℕ) :
    List (TableDescriptor × Option RowList) → Act (Bool × List (Option RowArray))
  | [] => return (true, [])
  | (table, some list) :: ts => do
      match ← sormNewArray allocator table rowsNum with
      | none => return (false, none :: ts.map fun _ => none)
      | some block => do
          let rows ← listCpyFree allocator list rowsNum
          let (ok, rest) ← listsToArrays allocator rowsNum ts
          return (ok, some ⟨block, rows⟩ :: rest)
  | (_, none) :: ts => do
      let (ok, rest) ← listsToArrays allocator rowsNum ts
      return (ok, none :: rest)

def sormSelectAllArrayByJoin (rounds : ℕ) (conn : Option Connection) (allocator : Allocator)
    (tables : SelectTables) (columnsName filter : Option CString) (rowsNum : Option ℤ)
    (isTablesSelect : List Bool) : Act (Selected RowArray) := do
  let lists ← sormSelectAllListBy rounds conn allocator tables columnsName filter rowsNum
    isTablesSelect
  if lists.code ≠ .ok then
    return ⟨lists.code, lists.rowsNum, tables.tablesDesc.map fun _ => none⟩
  let (ok, arrays) ← listsToArrays allocator (lists.rowsNum.getD 0)
    (tables.tablesDesc.zip lists.rowsOfTables)
  return ⟨if ok then .ok else .nomem, lists.rowsNum, arrays⟩

def sormSelectOneByColumn (conn : Option Connection) (allocator : Allocator)
    (tableDesc : TableDescriptor) (columnsName : Option CString) (columnIndex : ℕ)
    (columnValue : Option Pointer) (getRow : Bool) :
    Act (SormError × Option (Option RowArray)) := do
  match columnValue with
  | none => return (.argNull, none)
  | some columnValue => do
      let column ← assertSome tableDesc.columns[columnIndex]?
      let (ret, filter) ← Prog.ofExcept (constructColumnFilter column columnValue)
      if ret ≠ .ok then return (ret, none)
      let selected ← sormSelectSomeArrayBy conn allocator (.single tableDesc) columnsName
        (some (.ofBytes filter)) (some 1) [getRow]
      return (selected.code, if getRow then some selected.rowsOfTables.head?.join else none)

structure Iterator where
  hasMore : Bool
  tables : List (TableDescriptor × SelectColumns)
  stmtHandle : Option Handle
  allocator : Allocator
  block : Address
  maps : Address
  indexes : List Address
  tablesDescBlock : Option Address

def sormIteratorSize : ℕ := 48

/-- `_select_iterate_open` once its blocks are there: the statement is built, the column list
parsed, and the statement prepared. -/
def selectIteratePrepare (columnsName : CString) (tables : SelectTables)
    (filter : Option CString) :
    Act (SormError × List SelectColumns × Option Handle) := do
  match tables.stmt columnsName.chars (filter.map CString.chars) with
  | .error (e, _) => do
      let ret ← e.act
      return (ret, [], none)
  | .ok b => do
      let (ret, selectColumns) ← parseColumnsName tables.tablesDesc columnsName
      if ret ≠ .ok then return (ret, [], none)
      let (ret, stmtHandle) ← sqlite3Prepare b.text
      if ret ≠ .ok then return (.dbError, [], none)
      return (.ok, selectColumns, stmtHandle)

/-- What opening an iterator leaves: the error code, what is stored in `*iterator` if anything is,
and the iterator there when it is open. -/
structure Opened where
  code : SormError
  stored : Option Address
  iterator : Option Iterator

def selectIterateOpen (conn : Option Connection) (allocator : Allocator)
    (columnsName : Option CString) (tables : SelectTables) (filter : Option CString)
    (tablesDescBlock : Option Address) : Act Opened :=
  match conn, checkSelectArgs columnsName filter with
  | none, _ => return ⟨.argNull, none, none⟩
  | some _, .error e => return ⟨e, none, none⟩
  | some _, .ok columnsName => do
      let block ← assertSome (← malloc .libc sormIteratorSize)
      let maps ← assertSome (← malloc .libc (selectColumnsSize * tables.tablesDesc.length))
      let (ok, indexes) ← newIndexes tables.tablesDesc
      let (ret, selectColumns, stmtHandle) ← if ok then
          selectIteratePrepare columnsName tables filter
        else pure (.nomem, [], none)
      if ret = .ok then
        return ⟨.ok, some block, some ⟨false, tables.tablesDesc.zip selectColumns, stmtHandle,
          allocator, block, maps, indexes, tablesDescBlock⟩⟩
      else
        freeAll .libc indexes
        free .libc (some maps)
        free .libc (some block)
        return ⟨ret, some block, none⟩

/-- `sorm_select_iterate_by_open` and `sorm_select_iterate_by_join_open`; the second has a block
for the column names while it runs. -/
def sormSelectIterateByOpen (conn : Option Connection) (allocator : Allocator)
    (tables : SelectTables) (columnsName filter : Option CString) : Act Opened := do
  let tablesDescBlock ← malloc allocator (8 * tables.tablesDesc.length)
  let namesBlock ← if tables.tablesDesc.length > 1 then malloc allocator 16 else pure none
  let opened ← selectIterateOpen conn allocator columnsName tables filter tablesDescBlock
  if opened.code ≠ .ok then free allocator tablesDescBlock
  if tables.tablesDesc.length > 1 then free allocator namesBlock
  return opened

/-- The row of each wanted table in one result row; the caller gets what was allocated, whether or
not it was filled. -/
def iterateRow (allocator : Allocator) (stmtHandle : Option Handle) :
    List TableSelect → Act (SormError × List (Option (Address × Row)))
  | [] => return (.ok, [])
  | t :: ts =>
      if t.wanted then do
        let block ← assertSome (← sormNew allocator t.tableDesc)
        let (ret, row) ← parseSelectResult allocator stmtHandle t.selectColumns.indexesInResult
          (Object.fresh t.tableDesc)
        if ret = .ok then
          let (ret, rows) ← iterateRow allocator stmtHandle ts
          return (ret, some (block, ⟨_, row⟩) :: rows)
        else return (ret, some (block, ⟨_, row⟩) :: ts.map fun _ => none)
      else do
        let (ret, rows) ← iterateRow allocator stmtHandle ts
        return (ret, none :: rows)

def selectIterate (conn : Connection) (iterator : Iterator) (isTableSelect : List Bool) :
    Act (SormError × Iterator × List (Option (Address × Row))) := do
  let nothing := iterator.tables.map fun _ => (none : Option (Address × Row))
  let stepRet ← sqlite3Step conn iterator.stmtHandle .write
  if stepRet = .row then
    let tables := (iterator.tables.zip isTableSelect).map fun t => TableSelect.mk t.1.1 t.2 t.1.2
    let (ret, rows) ← iterateRow iterator.allocator iterator.stmtHandle tables
    return (ret, { iterator with hasMore := true }, rows)
  else
    let code := if stepRet = .done then SormError.ok else .dbError
    return (code, { iterator with hasMore := false }, nothing)

def sormSelectIterateClose (iterator : Iterator) : Act SormError := do
  let retVal ← dbFinalize iterator.stmtHandle .ok
  freeAll iterator.allocator iterator.indexes
  free iterator.allocator (some iterator.maps)
  if iterator.tablesDescBlock.isSome then free iterator.allocator iterator.tablesDescBlock
  free iterator.allocator (some iterator.block)
  return retVal

end Sorm
