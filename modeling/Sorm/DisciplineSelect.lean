import Sorm.ColumnReading

/-!
# The selects follow the statement discipline

The row loops only step the statement and read its columns; what `_select` does before and after
them is memory.
-/

namespace Sorm

open Interaction Monitor

variable {σ : Type} {M : Monitor Resp σ} {conn : Connection} {Prepares : Text → Prop}
  {Holds : Multiset (Option Handle) → σ → Prop} {hs : Multiset (Option Handle)}
  {h : Option Handle} {table : TableDescriptor} {ρ : Type}

theorem keeps_newIndexes {P : σ → Prop}
    (hlocal : ∀ c : Call, c.isLocal → Keeps M P (perform c)) (tablesDesc : List TableDescriptor) :
    Keeps M P (newIndexes tablesDesc) := by
  induction tablesDesc with
  | nil => exact Keeps.pure
  | cons table tablesDesc ih =>
      apply Keeps.bind (keeps_malloc hlocal .libc _)
      intro indexes
      cases indexes with
      | none => exact Keeps.pure
      | some indexes => exact Keeps.bind ih fun _ => Keeps.pure

section Use

variable {P : σ → Prop} (hlocal : ∀ c : Call, c.isLocal → Keeps M P (perform c))
  (huse : ∀ c : Call, c.usedStmt = some h → Keeps M P (perform c))

include hlocal huse

/-- Reading a column is memory and reading the statement. -/
theorem readsColumn_keeps (allocator : Allocator) (i : table.Index) (k : ℕ) (old : Mark) :
    ReadsColumn M allocator h table i k old P fun _ => P where
  plain c hc := by
    apply huse
    cases c with
    | columnType h' j => rw [hc.1]; rfl
    | columnBytes h' j => rw [hc.1]; rfl
    | columnInt h' j | columnInt64 h' j | columnDouble h' j | columnBlob h' j =>
        rw [Call.readsPlain] at hc
        rw [hc]
        rfl
    | _ => exact absurd hc id
  kept _ hs := hs
  stack _ := (huse _ rfl).post fun _ _ hs _ => hs
  text _ _ := ⟨fun _ => P, huse _ rfl, fun text => keeps_strdup hlocal allocator text⟩
  blob _ _ := ⟨fun _ => P, huse _ rfl, fun _ hs => hs, fun len _ => keeps_malloc hlocal allocator len⟩

theorem keeps_sqlite3Column (allocator : Allocator) (obj : Object table) (i : table.Index)
    (resultIndex : ℕ) :
    Keeps M P (sqlite3Column allocator obj h i resultIndex) :=
  (readsColumn_keeps hlocal huse allocator i resultIndex (obj.slots i).mark).sqlite3Column.post
    fun _ _ hs => hs.1

theorem keeps_parseColumns (allocator : Allocator) (columnIndexesInResult : List (Option ℕ))
    (is : List table.Index) (row : Object table) :
    Keeps M P (parseColumns allocator h columnIndexesInResult is row) := by
  induction is generalizing row with
  | nil => exact Keeps.pure
  | cons i is ih =>
      unfold parseColumns
      split
      · exact ih row
      · apply Keeps.bind (keeps_sqlite3Column hlocal huse _ _ _ _)
        rintro ⟨ret, row⟩
        dsimp only
        split
        · exact ih _
        · exact Keeps.pure

end Use

namespace Discipline

variable (d : Discipline M conn Prepares Holds)

include d

theorem parseColumns (allocator : Allocator) (columnIndexesInResult : List (Option ℕ))
    (is : List table.Index) (row : Object table) (hh : h ∈ hs) :
    Keeps M (Holds hs) (parseColumns allocator h columnIndexesInResult is row) :=
  keeps_parseColumns (fun _ => d.isLocal) (fun _ hc => d.use hc hh) allocator
    columnIndexesInResult is row

theorem newArrays (allocator : Allocator) (maxRowsNum : ℤ) (ts : List TableSelect) :
    Keeps M (Holds hs) (newArrays allocator maxRowsNum ts) := by
  induction ts with
  | nil => exact Keeps.pure
  | cons t ts ih =>
      unfold Sorm.newArrays
      split
      · apply Keeps.bind (d.sormNewArray _ _ _)
        intro block
        split
        · exact Keeps.pure
        · exact Keeps.bind ih fun _ => Keeps.pure
      · exact Keeps.bind ih fun _ => Keeps.pure

theorem storeArrayRow (allocator : Allocator) (containers : Containers RowArray) (hh : h ∈ hs) :
    Keeps M (Holds hs) (storeArrayRow allocator h containers) := by
  induction containers with
  | nil => exact Keeps.pure
  | cons c ts ih =>
      obtain ⟨t, _ | array⟩ := c
      · exact Keeps.bind ih fun _ => Keeps.pure
      · apply Keeps.bind (d.parseColumns _ _ _ _ hh)
        intro r
        dsimp only
        split
        · exact Keeps.bind ih fun _ => Keeps.pure
        · exact Keeps.pure

theorem rowLoop {store : Containers ρ → Act (SormError × Containers ρ)} (hh : h ∈ hs)
    (hstore : ∀ containers, Keeps M (Holds hs) (store containers)) (limit rowsNum : ℕ)
    (containers : Containers ρ) :
    Keeps M (Holds hs) (rowLoop conn h store limit rowsNum containers) := by
  induction limit generalizing rowsNum containers with
  | zero => exact Keeps.pure
  | succ limit ih =>
      apply Keeps.bind (d.step .read hh)
      intro stepRet
      split
      · apply Keeps.bind (hstore containers)
        rintro ⟨ret, containers⟩
        dsimp only
        split
        · exact ih _ _
        · exact Keeps.pure
      · exact Keeps.pure

theorem finishArrays (allocator : Allocator) (r : Rows RowArray) :
    Keeps M (Holds hs) (finishArrays allocator r) := by
  have hdrop : ∀ containers : Containers RowArray,
      Keeps M (Holds hs) (dropArrays allocator containers) := by
    intro containers
    induction containers with
    | nil => exact Keeps.pure
    | cons c ts ih => exact Keeps.bind (d.free _ _) fun _ => ih
  unfold Sorm.finishArrays
  split
  · exact Keeps.bind (hdrop _) fun _ => Keeps.pure
  · exact Keeps.pure

theorem selectSomeArrayCore (allocator : Allocator) (tables : List TableSelect) (maxRowsNum : ℤ)
    (hh : h ∈ hs) :
    Keeps M (Holds hs) (selectSomeArrayCore conn allocator h tables maxRowsNum) := by
  apply Keeps.bind (keeps_assertSome h)
  intro _
  split
  · exact Keeps.pure
  · apply Keeps.bind (d.newArrays _ _ _)
    rintro ⟨ok, containers⟩
    dsimp only
    split
    · apply Keeps.bind (d.rowLoop hh (fun c => d.storeArrayRow allocator c hh) _ _ _)
      exact fun r => d.finishArrays allocator r
    · exact d.finishArrays allocator _

theorem newLists (allocator : Allocator) (ts : List TableSelect) :
    Keeps M (Holds hs) (newLists allocator ts) := by
  induction ts with
  | nil => exact Keeps.pure
  | cons t ts ih =>
      unfold Sorm.newLists
      split
      · apply Keeps.bind (d.malloc _ _)
        intro block
        split
        · exact Keeps.pure
        · exact Keeps.bind ih fun _ => Keeps.pure
      · exact Keeps.bind ih fun _ => Keeps.pure

theorem storeListEntry (allocator : Allocator) (t : TableSelect) (list : RowList) (hh : h ∈ hs) :
    Keeps M (Holds hs) (storeListEntry allocator h t list) := by
  apply Keeps.bind (d.malloc _ _)
  intro block
  split
  · exact Keeps.pure
  · apply Keeps.bind (d.sormNewArray _ _ _)
    intro data
    split
    · exact Keeps.pure
    · exact Keeps.bind (d.parseColumns _ _ _ _ hh) fun _ => Keeps.pure

theorem storeListRow (allocator : Allocator) (containers : Containers RowList) (hh : h ∈ hs) :
    Keeps M (Holds hs) (storeListRow allocator h containers) := by
  induction containers with
  | nil => exact Keeps.pure
  | cons c ts ih =>
      obtain ⟨t, _ | list⟩ := c
      · exact Keeps.bind ih fun _ => Keeps.pure
      · apply Keeps.bind (d.storeListEntry _ _ _ hh)
        intro r
        dsimp only
        split
        · exact Keeps.bind ih fun _ => Keeps.pure
        · exact Keeps.pure

theorem finishLists (allocator : Allocator) (r : Rows RowList) :
    Keeps M (Holds hs) (finishLists allocator r) := by
  have hdrop : ∀ containers : Containers RowList,
      Keeps M (Holds hs) (dropLists allocator containers) := by
    intro containers
    induction containers with
    | nil => exact Keeps.pure
    | cons c ts ih => exact Keeps.bind (d.sormListFree _ _) fun _ => ih
  unfold Sorm.finishLists
  split
  · exact Keeps.bind (hdrop _) fun _ => Keeps.pure
  · exact Keeps.pure

theorem selectSomeListCore (allocator : Allocator) (tables : List TableSelect) (maxRowsNum : ℤ)
    (hh : h ∈ hs) :
    Keeps M (Holds hs) (selectSomeListCore conn allocator h tables maxRowsNum) := by
  apply Keeps.bind (keeps_assertSome h)
  intro _
  split
  · exact Keeps.pure
  · apply Keeps.bind (d.newLists _ _)
    rintro ⟨ok, containers⟩
    dsimp only
    split
    · apply Keeps.bind (d.rowLoop hh (fun c => d.storeListRow allocator c hh) _ _ _)
      exact fun r => d.finishLists allocator r
    · exact d.finishLists allocator _

theorem allRowsLoop (allocator : Allocator) (hh : h ∈ hs) (rounds rowsNum : ℕ)
    (containers : Containers RowList) :
    Keeps M (Holds hs) (allRowsLoop conn allocator h rounds rowsNum containers) := by
  induction rounds generalizing rowsNum containers with
  | zero => exact Triple.stop
  | succ rounds ih =>
      apply Keeps.bind (d.step .read hh)
      intro stepRet
      split
      · apply Keeps.bind (d.storeListRow allocator containers hh)
        rintro ⟨ret, containers⟩
        dsimp only
        split
        · split
          · exact Triple.stop
          · exact ih _ _
        · exact Keeps.pure
      · exact Keeps.pure

theorem selectAllListCore (rounds : ℕ) (allocator : Allocator) (tables : List TableSelect)
    (maxRowsNum : ℤ) (hh : h ∈ hs) :
    Keeps M (Holds hs) (selectAllListCore rounds conn allocator h tables maxRowsNum) := by
  apply Keeps.bind (keeps_assertSome h)
  intro _
  apply Keeps.bind (d.newLists _ _)
  rintro ⟨ok, containers⟩
  dsimp only
  split
  · apply Keeps.bind (d.allRowsLoop allocator hh _ _ _)
    exact fun r => d.finishLists allocator r
  · exact d.finishLists allocator _

theorem newIndexes (tables : List TableDescriptor) :
    Keeps M (Holds hs) (newIndexes tables) := keeps_newIndexes (fun _ => d.isLocal) tables

theorem parseColumnsName (tablesDesc : List TableDescriptor) (columnsName : CString) :
    Keeps M (Holds hs) (parseColumnsName tablesDesc columnsName) := by
  apply Keeps.bind (d.strdup _ _)
  intro copy
  apply Keeps.bind Keeps.ofExcept
  intro r
  exact Keeps.bind (d.free _ _) fun _ => Keeps.pure

variable {selectCore : SelectCore ρ}

theorem selectPrepared
    (hcore : ∀ {hs : Multiset (Option Handle)} {h : Option Handle} allocator tables maxRowsNum,
      h ∈ hs → Keeps M (Holds hs) (selectCore conn allocator h tables maxRowsNum))
    (allocator : Allocator) (columnsName : CString) (tables : SelectTables)
    (isTablesSelect : List Bool) (filter : Option CString) (maxRowsNum : ℤ)
    (hsql : ∀ b, tables.stmt columnsName.chars (filter.map CString.chars) = .ok b →
      Prepares b.text) :
    Keeps M (Holds hs) (selectPrepared selectCore conn allocator columnsName tables isTablesSelect
      filter maxRowsNum) := by
  unfold Sorm.selectPrepared
  dsimp only
  split
  · exact Keeps.bind (keeps_fail _) fun _ => Keeps.pure
  · next b hbuilt =>
    apply Triple.bind (d.sqlite3Prepare (hsql b hbuilt))
    rintro ⟨ret, h⟩
    by_cases hret : ret = .ok
    · subst hret
      apply Triple.bind (d.parseColumnsName _ _)
      rintro ⟨ret, selectColumns⟩
      dsimp only
      split
      · exact Triple.bind (d.dbFinalize _) fun _ => Keeps.pure
      · apply Triple.bind (hcore allocator _ _ (Multiset.mem_cons_self h hs))
        intro selected
        exact Triple.bind (d.dbFinalize _) fun _ => Keeps.pure
    · simp only [hret, if_false, ne_eq, not_false_eq_true, if_true]
      exact Keeps.pure

theorem select
    (hcore : ∀ {hs : Multiset (Option Handle)} {h : Option Handle} allocator tables maxRowsNum,
      h ∈ hs → Keeps M (Holds hs) (selectCore conn allocator h tables maxRowsNum))
    (allocator : Allocator) (columnsName : Option CString) (tables : SelectTables)
    (isTablesSelect : List Bool) (filter : Option CString) (rowsNum : Option ℤ)
    (hsql : ∀ columns b, columnsName = some columns →
      tables.stmt columns.chars (filter.map CString.chars) = .ok b → Prepares b.text) :
    Keeps M (Holds hs) (select selectCore (some conn) allocator columnsName tables isTablesSelect
      filter rowsNum) := by
  unfold Sorm.select
  dsimp only
  cases checkSelectArgs columnsName none with
  | error e => exact Keeps.pure
  | ok _ =>
    cases rowsNum with
    | none => exact Keeps.pure
    | some maxRowsNum =>
      cases hargs : checkSelectArgs columnsName filter with
      | error e => exact Keeps.pure
      | ok columns =>
          have hcolumns := checkSelectArgs_ok hargs
          apply Keeps.bind (d.malloc _ _)
          intro maps
          cases maps with
          | none => exact Keeps.pure
          | some maps =>
              apply Keeps.bind (d.newIndexes _)
              rintro ⟨ok, indexes⟩
              have hrest : ∀ selected : Selected ρ, Keeps M (Holds hs) (do
                  Sorm.freeAll .libc indexes
                  Sorm.free .libc (some maps)
                  if selected.code = .ok ∧ selected.rowsNum = some 0 then
                    return { selected with code := .noexist }
                  else return selected) := by
                intro selected
                apply Keeps.bind (d.freeAll _ _)
                intro _
                apply Keeps.bind (d.free _ _)
                intro _
                split
                · exact Keeps.pure
                · exact Keeps.pure
              dsimp only
              split
              · exact Keeps.bind (d.selectPrepared hcore _ _ _ _ _ _
                  fun b => hsql columns b hcolumns) hrest
              · exact Keeps.bind Keeps.pure hrest

theorem sormSelectSomeArrayBy (allocator : Allocator) (tables : SelectTables)
    (columnsName filter : Option CString) (rowsNum : Option ℤ) (isTablesSelect : List Bool)
    (hsql : ∀ columns b, columnsName = some columns →
      tables.stmt columns.chars (filter.map CString.chars) = .ok b → Prepares b.text) :
    Keeps M (Holds hs) (sormSelectSomeArrayBy (some conn) allocator tables columnsName filter
      rowsNum isTablesSelect) :=
  d.select (fun allocator tables maxRowsNum hh => d.selectSomeArrayCore allocator tables
    maxRowsNum hh) _ _ _ _ _ _ hsql

theorem sormSelectOneByColumn (allocator : Allocator) (tableDesc : TableDescriptor)
    (columnsName : Option CString) (columnIndex : ℕ) (columnValue : Option Pointer) (getRow : Bool)
    (hsql : ∀ columns column value filter b, columnsName = some columns →
      tableDesc.columns[columnIndex]? = some column → columnValue = some value →
      constructColumnFilter column value = .ok (.ok, filter) →
      (SelectTables.single tableDesc).stmt columns.chars (some (CString.ofBytes filter).chars) =
        .ok b → Prepares b.text) :
    Keeps M (Holds hs) (sormSelectOneByColumn (some conn) allocator tableDesc columnsName
      columnIndex columnValue getRow) := by
  cases columnValue with
  | none => exact Keeps.pure
  | some value =>
      unfold Sorm.sormSelectOneByColumn
      dsimp only
      cases hcolumn : tableDesc.columns[columnIndex]? with
      | none => exact keeps_abort
      | some column =>
          rw [assertSome_some, pure_bind]
          have hfilter : Triple M (Holds hs) (Prog.ofExcept (constructColumnFilter column value))
              fun r s => constructColumnFilter column value = .ok r ∧ Holds hs s :=
            Triple.ofExcept fun r s hr hs => ⟨hr, hs⟩
          apply Triple.bind hfilter
          rintro ⟨ret, filter⟩
          dsimp only
          by_cases hret : ret = .ok
          · subst hret
            simp only [ne_eq, not_true_eq_false, if_false]
            rintro s ⟨hr, hs⟩
            refine Triple.bind (d.sormSelectSomeArrayBy _ _ _ _ _ _ fun columns b hname hbuilt => ?_)
              (fun _ => Keeps.pure) s hs
            exact hsql columns column value filter b hname hcolumn rfl hr hbuilt
          · rw [if_pos hret]
            exact Triple.pure fun s hs => hs.2

theorem listCpyFree (allocator : Allocator) (list : RowList) (n : ℕ) :
    Keeps M (Holds hs) (listCpyFree allocator list n) := by
  have hentries : ∀ entries, Keeps M (Holds hs) (listCpyFreeEntries allocator entries) := by
    intro entries
    induction entries with
    | nil => exact Keeps.pure
    | cons entry entries ih =>
        apply Keeps.bind (d.free _ _)
        intro _
        apply Keeps.bind (d.free _ _)
        intro _
        exact Keeps.bind ih fun _ => Keeps.pure
  apply Keeps.bind (hentries _)
  intro rows
  split
  · exact Keeps.bind (d.free _ _) fun _ => Keeps.pure
  · exact keeps_abort

section AnyText

variable (hall : ∀ sqlStmt, Prepares sqlStmt)

include hall

theorem sormSelectAllListBy (rounds : ℕ) (allocator : Allocator) (tables : SelectTables)
    (columnsName filter : Option CString) (rowsNum : Option ℤ) (isTablesSelect : List Bool) :
    Keeps M (Holds hs) (sormSelectAllListBy rounds (some conn) allocator tables columnsName filter
      rowsNum isTablesSelect) :=
  d.select (fun allocator tables maxRowsNum hh => d.selectAllListCore rounds allocator tables
    maxRowsNum hh) _ _ _ _ _ _ fun _ b _ _ => hall b.text

theorem sormSelectSomeListBy (allocator : Allocator) (tables : SelectTables)
    (columnsName filter : Option CString) (rowsNum : Option ℤ) (isTablesSelect : List Bool) :
    Keeps M (Holds hs) (sormSelectSomeListBy (some conn) allocator tables columnsName filter
      rowsNum isTablesSelect) :=
  d.select (fun allocator tables maxRowsNum hh => d.selectSomeListCore allocator tables
    maxRowsNum hh) _ _ _ _ _ _ fun _ b _ _ => hall b.text

theorem sormSelectAllArrayBy (rounds : ℕ) (allocator : Allocator) (tableDesc : TableDescriptor)
    (columnsName filter : Option CString) (rowsNum : Option ℤ) (getRow : Bool) :
    Keeps M (Holds hs) (sormSelectAllArrayBy rounds (some conn) allocator tableDesc columnsName
      filter rowsNum getRow) := by
  apply Keeps.bind (d.sormSelectAllListBy hall _ _ _ _ _ _ _)
  intro lists
  dsimp only
  split
  · exact Keeps.pure
  · split
    · exact Keeps.pure
    · split
      · apply Keeps.bind (d.sormNewArray _ _ _)
        intro block
        split
        · exact Keeps.bind (d.sormListFree _ _) fun _ => Keeps.pure
        · apply Keeps.bind (keeps_assertSome _)
          intro list
          exact Keeps.bind (d.listCpyFree _ _ _) fun _ => Keeps.pure
      · exact Keeps.pure

theorem sormSelectAllArrayByJoin (rounds : ℕ) (allocator : Allocator) (tables : SelectTables)
    (columnsName filter : Option CString) (rowsNum : Option ℤ) (isTablesSelect : List Bool) :
    Keeps M (Holds hs) (sormSelectAllArrayByJoin rounds (some conn) allocator tables columnsName
      filter rowsNum isTablesSelect) := by
  have harrays : ∀ n ts, Keeps M (Holds hs) (listsToArrays allocator n ts) := by
    intro n ts
    induction ts with
    | nil => exact Keeps.pure
    | cons t ts ih =>
        obtain ⟨table, _ | list⟩ := t
        · exact Keeps.bind ih fun _ => Keeps.pure
        · apply Keeps.bind (d.sormNewArray _ _ _)
          intro block
          split
          · exact Keeps.pure
          · apply Keeps.bind (d.listCpyFree _ _ _)
            intro rows
            exact Keeps.bind ih fun _ => Keeps.pure
  apply Keeps.bind (d.sormSelectAllListBy hall _ _ _ _ _ _ _)
  intro lists
  split
  · exact Keeps.pure
  · exact Keeps.bind (harrays _ _) fun _ => Keeps.pure

end AnyText

end Discipline
end Sorm
