import Sorm.Blocks
import Sorm.ColumnErrors

/-!
# The memory of an iterator

`_select_iterate_open` takes the iterator and its column maps with the NULL allocator, and its
callers take the array of tables with the one they are given; `sorm_select_iterate_close` gives all
of them to the latter. A failing open frees the iterator it has already stored in `*iterator`.
-/

namespace Sorm

open Interaction Monitor

def Iterator.blocks (iterator : Iterator) : Multiset Block :=
  blockOf iterator.allocator iterator.tablesDescBlock + blockOf .libc (some iterator.block) +
    blockOf .libc (some iterator.maps) +
    (iterator.indexes.map fun block => blockOf .libc (some block)).sum

def rowBlocks (allocator : Allocator) : Option (Address × Row) → Multiset Block
  | none => 0
  | some (block, row) => blockOf allocator (some block) + row.2.blocks allocator

/-- The arguments `_select_iterate_open` returns on before it allocates anything. -/
def Refused (conn : Option Connection) (columnsName filter : Option CString) : Prop :=
  conn = none ∨ ∃ e, checkSelectArgs columnsName filter = .error e

theorem checkSelectArgs_ne_ok {columnsName filter : Option CString} {e : SormError}
    (h : checkSelectArgs columnsName filter = .error e) : e ≠ .ok := by
  rintro rfl
  unfold checkSelectArgs at h
  split at h
  · cases h
  · split at h
    · cases h
    · split at h
      · cases h
      · cases h

section Opening

variable {out : Multiset Block}

theorem out_newIndexes (tablesDesc : List TableDescriptor) :
    Triple blockMonitor (Out out) (newIndexes tablesDesc) fun r =>
      Out (out + (r.2.map fun block => blockOf .libc (some block)).sum) := by
  have hnone : ∀ ok : Bool, Triple blockMonitor (Out out) (Pure.pure (ok, []) :
      Act (Bool × List Address)) fun r =>
        Out (out + (r.2.map fun block => blockOf .libc (some block)).sum) := by
    intro ok
    refine Triple.pure fun s hs => ?_
    rw [List.map_nil, List.sum_nil, add_zero]
    exact hs
  induction tablesDesc generalizing out with
  | nil => exact hnone true
  | cons table tablesDesc ih =>
      unfold newIndexes
      apply Triple.bind (out_malloc _ _)
      intro block
      cases block with
      | none => exact Triple.pure fun s hs => by simpa [blockOf] using hs
      | some block =>
          apply Triple.bind (ih fun ok => Triple.pure fun s hs => by simpa using hs)
          intro r
          refine Triple.pure fun s hs => ?_
          rw [List.map_cons, List.sum_cons, ← add_assoc]
          exact hs

theorem out_parseColumnsName (tablesDesc : List TableDescriptor) (columnsName : CString) :
    Keeps blockMonitor (Out out) (parseColumnsName tablesDesc columnsName) := by
  apply Triple.bind (out_strdup _ _)
  intro copy
  apply Triple.bind Keeps.ofExcept
  intro r
  exact Triple.bind (out_free _ _) fun _ => Triple.pure fun s hs => hs

theorem out_selectIteratePrepare (columnsName : CString) (tables : SelectTables)
    (filter : Option CString) :
    Keeps blockMonitor (Out out) (selectIteratePrepare columnsName tables filter) := by
  unfold selectIteratePrepare
  split
  · exact Keeps.bind (keeps_fail _) fun ret => Triple.pure fun s hs => hs
  · apply Keeps.bind (out_parseColumnsName _ _)
    rintro ⟨ret, selectColumns⟩
    dsimp only
    split
    · exact Triple.pure fun s hs => hs
    · apply Keeps.bind (keeps_prepare _)
      rintro ⟨ret, h⟩
      dsimp only
      split
      · exact Triple.pure fun s hs => hs
      · exact Triple.pure fun s hs => hs

/-- What an opening call leaves: the blocks of the iterator, or nothing besides what it stored. -/
def Opens (conn : Option Connection) (allocator : Allocator) (columnsName filter : Option CString)
    (out : Multiset Block) (opened : Opened) (s : Option (Multiset Block)) : Prop :=
  match opened.iterator with
  | some iterator => opened.code = .ok ∧ iterator.allocator = allocator ∧
      ¬ Refused conn columnsName filter ∧ Out (out + iterator.blocks) s
  | none => opened.code ≠ .ok ∧ Out out s ∧
      (opened.stored = none ↔ Refused conn columnsName filter)

def OpensWith (conn : Option Connection) (allocator : Allocator)
    (columnsName filter : Option CString) (out : Multiset Block) (tablesDescBlock : Option Address)
    (opened : Opened) (s : Option (Multiset Block)) : Prop :=
  match opened.iterator with
  | some _ => Opens conn allocator columnsName filter out opened s
  | none => Opens conn allocator columnsName filter (out + blockOf allocator tablesDescBlock) opened s

theorem out_selectIterateOpen (conn : Option Connection) (allocator : Allocator)
    (columnsName : Option CString) (tables : SelectTables) (filter : Option CString)
    (tablesDescBlock : Option Address) :
    Triple blockMonitor (Out (out + blockOf allocator tablesDescBlock))
      (selectIterateOpen conn allocator columnsName tables filter tablesDescBlock)
      (OpensWith conn allocator columnsName filter out tablesDescBlock) := by
  unfold selectIterateOpen
  cases conn with
  | none =>
      refine Triple.pure fun s hs => ⟨?_, hs, ?_⟩
      · intro h
        cases h
      · exact iff_of_true rfl (Or.inl rfl)
  | some conn =>
      cases hargs : checkSelectArgs columnsName filter with
      | error e =>
          refine Triple.pure fun s hs => ⟨checkSelectArgs_ne_ok hargs, hs, ?_⟩
          exact iff_of_true rfl (Or.inr ⟨e, hargs⟩)
      | ok columns =>
          have hnotRefused : ¬ Refused (some conn) columnsName filter := by
            rintro (h | ⟨e, h⟩)
            · cases h
            · rw [hargs] at h
              cases h
          dsimp only
          apply Triple.bind (out_malloc _ _)
          intro block
          apply Triple.bind (out_assertSome _)
          intro block
          apply Triple.bind (out_malloc _ _)
          intro maps
          apply Triple.bind (out_assertSome _)
          intro maps
          apply Triple.bind (out_newIndexes _)
          rintro ⟨ok, indexes⟩
          have hrest : ∀ r : SormError × List SelectColumns × Option Handle,
              Triple blockMonitor (Out (out + blockOf allocator tablesDescBlock +
                  blockOf .libc (some block) + blockOf .libc (some maps) +
                  (indexes.map fun block => blockOf .libc (some block)).sum))
                (if r.1 = .ok then
                  return ⟨.ok, some block, some ⟨false, tables.tablesDesc.zip r.2.1, r.2.2, allocator,
                    block, maps, indexes, tablesDescBlock⟩⟩
                else do
                  freeAll .libc indexes
                  free .libc (some maps)
                  free .libc (some block)
                  return ⟨r.1, some block, none⟩ : Act Opened)
                (OpensWith (some conn) allocator columnsName filter out tablesDescBlock) := by
            intro r
            by_cases hret : r.1 = .ok
            · rw [if_pos hret]
              refine Triple.pure fun s hs => ⟨rfl, rfl, hnotRefused, ?_⟩
              unfold Iterator.blocks
              rw [← add_assoc, ← add_assoc, ← add_assoc]
              exact hs
            · rw [if_neg hret]
              apply Triple.bind (out_freeAll _ _)
              intro _
              apply Triple.bind (out_free _ _)
              intro _
              apply Triple.bind (out_free _ _)
              intro _
              refine Triple.pure fun s hs => ⟨hret, hs, ?_⟩
              exact iff_of_false (Option.some_ne_none _) hnotRefused
          dsimp only
          split
          · exact Triple.bind (out_selectIteratePrepare _ _ _) hrest
          · exact Triple.bind Keeps.pure hrest

/-- An opening call leaves the blocks of the iterator, or nothing. -/
theorem out_sormSelectIterateByOpen (conn : Option Connection) (allocator : Allocator)
    (tables : SelectTables) (columnsName filter : Option CString) :
    Triple blockMonitor (Out out)
      (sormSelectIterateByOpen conn allocator tables columnsName filter)
      (Opens conn allocator columnsName filter out) := by
  have hclose : ∀ (namesBlock : Option Address) (opened : Opened) (tablesDescBlock : Option Address),
      Triple blockMonitor (OpensWith conn allocator columnsName filter
          (out + blockOf allocator namesBlock) tablesDescBlock opened)
        (if opened.code ≠ .ok then free allocator tablesDescBlock else pure ())
        fun _ => Opens conn allocator columnsName filter (out + blockOf allocator namesBlock)
          opened := by
    rintro namesBlock ⟨code, stored, iterator⟩ tablesDescBlock
    cases iterator with
    | some iterator =>
        intro s hs
        rw [if_neg (not_not_intro hs.1)]
        exact hs
    | none =>
        rintro s ⟨hcode, hout, hstored⟩
        rw [if_pos hcode]
        exact wp_mono (fun _ _ hfreed => ⟨hcode, hfreed, hstored⟩) (out_free _ _ s hout)
  have hnames : ∀ (namesBlock : Option Address) (opened : Opened),
      Triple blockMonitor (Opens conn allocator columnsName filter
          (out + blockOf allocator namesBlock) opened) (free allocator namesBlock)
        fun _ => Opens conn allocator columnsName filter out opened := by
    rintro namesBlock ⟨code, stored, iterator⟩
    cases iterator with
    | some iterator =>
        rintro s ⟨hcode, hallocator, hnotRefused, hout⟩
        unfold Out at hout
        rw [add_right_comm] at hout
        exact wp_mono (fun _ _ hfreed => ⟨hcode, hallocator, hnotRefused, hfreed⟩)
          (out_free _ _ s hout)
    | none =>
        rintro s ⟨hcode, hout, hstored⟩
        exact wp_mono (fun _ _ hfreed => ⟨hcode, hfreed, hstored⟩) (out_free _ _ s hout)
  unfold sormSelectIterateByOpen
  apply Triple.bind (out_malloc _ _)
  intro tablesDescBlock
  split
  · apply Triple.bind (out_malloc _ _)
    intro namesBlock
    rw [add_right_comm]
    apply Triple.bind (out_selectIterateOpen _ _ _ _ _ _)
    intro opened
    have hclosed := hclose namesBlock opened tablesDescBlock
    split
    · next hcode =>
        rw [if_pos hcode] at hclosed
        apply Triple.bind hclosed
        intro _
        exact Triple.bind (hnames namesBlock opened) fun _ => Triple.pure fun s hs => hs
    · next hcode =>
        rw [if_neg hcode] at hclosed
        intro s hs
        have hopened := hclosed s hs
        exact Triple.bind (hnames namesBlock opened) (fun _ => Triple.pure fun s hs => hs) s hopened
  · apply Triple.bind Keeps.pure
    intro namesBlock
    apply Triple.bind (out_selectIterateOpen _ _ _ _ _ _)
    intro opened
    have hclosed := hclose none opened tablesDescBlock
    rw [blockOf, add_zero] at hclosed
    split
    · next hcode =>
        rw [if_pos hcode] at hclosed
        exact Triple.bind hclosed fun _ => Triple.pure fun s hs => hs
    · next hcode =>
        rw [if_neg hcode] at hclosed
        exact hclosed

end Opening

section Using

variable {out : Multiset Block}

theorem out_iterateRow (allocator : Allocator) (h : Option Handle) (ts : List TableSelect) :
    Triple blockMonitor (Out out) (iterateRow allocator h ts) fun r =>
      Out (out + (r.2.map (rowBlocks allocator)).sum) := by
  induction ts generalizing out with
  | nil =>
      refine Triple.pure fun s hs => ?_
      rw [List.map_nil, List.sum_nil, add_zero]
      exact hs
  | cons t ts ih =>
      unfold iterateRow
      split
      · apply Triple.bind (out_sormNewArray _ _ _)
        intro block
        apply Triple.bind (out_assertSome _)
        intro block
        apply Triple.bind (out_parseSelectResult _ _ _ _)
        rintro ⟨ret, row⟩
        dsimp only
        split
        · apply Triple.bind ih
          intro r
          refine Triple.pure fun s hs => ?_
          rw [List.map_cons, List.sum_cons, rowBlocks, ← add_assoc, ← add_assoc]
          exact hs
        · refine Triple.pure fun s hs => ?_
          have hnone : ((ts.map fun _ => (none : Option (Address × Row))).map
              (rowBlocks allocator)).sum = 0 := by
            rw [List.map_map]
            exact List.sum_eq_zero fun b hb => by
              obtain ⟨t, _, rfl⟩ := List.mem_map.mp hb
              rfl
          rw [List.map_cons, List.sum_cons, hnone, add_zero, rowBlocks, ← add_assoc]
          exact hs
      · apply Triple.bind ih
        intro r
        refine Triple.pure fun s hs => ?_
        rw [List.map_cons, List.sum_cons, rowBlocks, zero_add]
        exact hs

/-- An iterate call takes the blocks of the rows it hands out. -/
theorem out_selectIterate (conn : Connection) (iterator : Iterator) (isTableSelect : List Bool) :
    Triple blockMonitor (Out out) (selectIterate conn iterator isTableSelect) fun r =>
      Out (out + (r.2.2.map (rowBlocks iterator.allocator)).sum) := by
  apply Triple.bind (keeps_step _ _ _)
  intro stepRet
  split
  · apply Triple.bind (out_iterateRow _ _ _)
    intro r
    exact Triple.pure fun s hs => hs
  · refine Triple.pure fun s hs => ?_
    have hnone : ((iterator.tables.map fun _ => (none : Option (Address × Row))).map
        (rowBlocks iterator.allocator)).sum = 0 := by
      rw [List.map_map]
      exact List.sum_eq_zero fun b hb => by
        obtain ⟨t, _, rfl⟩ := List.mem_map.mp hb
        rfl
    rw [hnone, add_zero]
    exact hs

theorem selectIterate_same (conn : Connection) (iterator : Iterator) (isTableSelect : List Bool) :
    Triple blockMonitor (fun _ => True) (selectIterate conn iterator isTableSelect) fun r _ =>
      r.2.1 = { iterator with hasMore := r.2.1.hasMore } := by
  apply Triple.bind (keeps_true _)
  intro stepRet
  split
  · apply Triple.bind (keeps_true _)
    intro r
    exact Triple.pure fun s hs => rfl
  · exact Triple.pure fun s hs => rfl

/-- With the NULL allocator the close gives every block back to where it came from. -/
theorem out_sormSelectIterateClose (iterator : Iterator) (hlibc : iterator.allocator = .libc) :
    Triple blockMonitor (Out (out + iterator.blocks)) (sormSelectIterateClose iterator)
      fun _ => Out out := by
  unfold Iterator.blocks
  rw [← add_assoc, ← add_assoc, ← add_assoc]
  unfold sormSelectIterateClose
  apply Triple.bind (keeps_finalize _ _)
  intro retVal
  rw [hlibc]
  apply Triple.bind (out_freeAll _ _)
  intro _
  apply Triple.bind (out_free _ _)
  intro _
  cases htables : iterator.tablesDescBlock with
  | none =>
      rw [blockOf, add_zero]
      exact Triple.bind (out_free _ _) fun _ => Triple.pure fun s hs => hs
  | some block =>
      rw [add_right_comm]
      apply Triple.bind (out_free _ _)
      intro _
      exact Triple.bind (out_free _ _) fun _ => Triple.pure fun s hs => hs

theorem keeping_sormSelectIterateClose (iterator : Iterator) {block : Block}
    (hne : block.1 ≠ iterator.allocator) :
    Keeps blockMonitor (Keeping block) (sormSelectIterateClose iterator) := by
  apply Keeps.bind (keeps_finalize _ _)
  intro retVal
  apply Keeps.bind (keeping_freeAll hne _)
  intro _
  apply Keeps.bind (keeping_free hne _)
  intro _
  split
  · apply Keeps.bind (keeping_free hne _)
    intro _
    exact Keeps.bind (keeping_free hne _) fun _ => Keeps.pure
  · exact Keeps.bind (keeping_free hne _) fun _ => Keeps.pure

end Using

def isPrepared : SormEvent → Bool
  | ⟨.prepare _ _, (.ok, _)⟩ => true
  | _ => false

def preparedMonitor : Monitor Resp Bool := .fold (fun _ _ => True) fun b e => b || isPrepared e

theorem foldl_isPrepared (tr : List SormEvent) (b : Bool) :
    tr.foldl (fun b e => b || isPrepared e) b = (b || tr.any isPrepared) := by
  induction tr generalizing b with
  | nil => rw [List.foldl_nil, List.any_nil, Bool.or_false]
  | cons e tr ih => rw [List.foldl_cons, ih, List.any_cons, Bool.or_assoc]

section Prepared

theorem prepared_keeps (P : Bool → Prop) {c : Call} (hc : ∀ sql n, c ≠ .prepare sql n) :
    Keeps preparedMonitor P (perform c) := by
  apply Triple.perform
  · exact fun b hb => trivial
  · intro b r b' hb hstep
    have hno : isPrepared ⟨c, r⟩ = false := by
      cases c with
      | prepare sql n => exact absurd rfl (hc sql n)
      | _ => rfl
    change b' = (b || isPrepared ⟨c, r⟩) at hstep
    rw [hno, Bool.or_false] at hstep
    rw [hstep]
    exact hb

/-- What prepares nothing keeps every fact. -/
theorem prepared_discipline (conn : Connection) (P : Bool → Prop) :
    Discipline preparedMonitor conn (fun _ => False) fun _ => P where
  isLocal := by
    intro hs c hc
    apply prepared_keeps
    rintro sql n rfl
    cases hc
  use := by
    intro hs c h hc hh
    apply prepared_keeps
    rintro sql n rfl
    cases hc
  prepare := fun h => h.elim
  finalize := by
    intro hs h
    apply Keeps.retry
    apply prepared_keeps
    intro sql n heq
    cases heq
  rowId := by
    intro hs c hc
    apply prepared_keeps
    rintro sql n rfl
    cases hc
  step := by
    intro hs h rwFlag hh
    apply keeps_sqlite3Step
    · intro c hc
      apply prepared_keeps
      rintro sql n rfl
      cases hc
    · intro c hc
      apply prepared_keeps
      rintro sql n rfl
      cases hc
    · apply prepared_keeps
      intro sql n heq
      cases heq

section Memory

variable {P : Bool → Prop}

theorem prepared_malloc (allocator : Allocator) (size : ℕ) :
    Keeps preparedMonitor P (malloc allocator size) :=
  @Handling.malloc _ _ _ _ 0 (prepared_discipline ⟨0, 0, 0⟩ P).toHandling allocator size

theorem prepared_free (allocator : Allocator) (ptr : Option Address) :
    Keeps preparedMonitor P (free allocator ptr) :=
  @Handling.free _ _ _ _ 0 (prepared_discipline ⟨0, 0, 0⟩ P).toHandling allocator ptr

theorem prepared_freeAll (allocator : Allocator) (blocks : List Address) :
    Keeps preparedMonitor P (freeAll allocator blocks) :=
  @Handling.freeAll _ _ _ _ 0 (prepared_discipline ⟨0, 0, 0⟩ P).toHandling allocator blocks

theorem prepared_newIndexes (tablesDesc : List TableDescriptor) :
    Keeps preparedMonitor P (newIndexes tablesDesc) :=
  @Discipline.newIndexes _ _ _ _ _ 0 (prepared_discipline ⟨0, 0, 0⟩ P) tablesDesc

theorem prepared_parseColumnsName (tablesDesc : List TableDescriptor) (columnsName : CString) :
    Keeps preparedMonitor P (parseColumnsName tablesDesc columnsName) :=
  @Discipline.parseColumnsName _ _ _ _ _ 0 (prepared_discipline ⟨0, 0, 0⟩ P) tablesDesc columnsName

end Memory

theorem prepared_sqlite3Prepare (sqlStmt : Text) :
    Triple preparedMonitor (· = false) (sqlite3Prepare sqlStmt) fun r b => b = true ↔ r.1 = .ok := by
  apply Triple.retry
  apply Triple.perform
  · exact fun b hb => trivial
  · rintro b ⟨ret, h⟩ b' rfl hstep
    change b' = (false || isPrepared ⟨.prepare sqlStmt sqlStmtMaxLen, (ret, h)⟩) at hstep
    rw [Bool.false_or] at hstep
    subst hstep
    cases ret with
    | busy => exact ⟨rfl, by simp [isPrepared]⟩
    | ok => simp [isPrepared]
    | _ => simp [isPrepared]

theorem prepared_selectIteratePrepare (columnsName : CString) (tables : SelectTables)
    (filter : Option CString) :
    Triple preparedMonitor (· = false) (selectIteratePrepare columnsName tables filter) fun r b =>
      b = true ↔ r.1 = .ok := by
  unfold selectIteratePrepare
  split
  · next e _ hbuilt =>
      cases e with
      | halt why => exact Triple.stop
      | code e =>
          obtain rfl := tables.stmt_tooLongOnly _ _ hbuilt
          exact Triple.pure fun b hb => by simp [hb]
  · apply Triple.bind (prepared_parseColumnsName _ _)
    rintro ⟨ret, selectColumns⟩
    dsimp only
    split
    · next hret => exact Triple.pure fun b hb => by simp [hb, hret]
    · apply Triple.bind (prepared_sqlite3Prepare _)
      rintro ⟨ret, h⟩
      dsimp only
      split
      · next hret => exact Triple.pure fun b hb => by simp [hb, hret]
      · next hret => exact Triple.pure fun b hb => by simp [hb, not_not.mp hret]

theorem prepared_selectIterateOpen (conn : Option Connection) (allocator : Allocator)
    (columnsName : Option CString) (tables : SelectTables) (filter : Option CString)
    (tablesDescBlock : Option Address) :
    Triple preparedMonitor (· = false)
      (selectIterateOpen conn allocator columnsName tables filter tablesDescBlock)
      fun opened b => b = true ↔ opened.code = .ok := by
  unfold selectIterateOpen
  cases conn with
  | none => exact Triple.pure fun b hb => by simp [hb]
  | some conn =>
      cases hargs : checkSelectArgs columnsName filter with
      | error e => exact Triple.pure fun b hb => by simp [hb, checkSelectArgs_ne_ok hargs]
      | ok columns =>
          dsimp only
          apply Triple.bind (prepared_malloc _ _)
          intro block
          apply Triple.bind (keeps_assertSome _)
          intro block
          apply Triple.bind (prepared_malloc _ _)
          intro maps
          apply Triple.bind (keeps_assertSome _)
          intro maps
          apply Triple.bind (prepared_newIndexes _)
          rintro ⟨ok, indexes⟩
          have hrest : ∀ r : SormError × List SelectColumns × Option Handle,
              Triple preparedMonitor (fun b => b = true ↔ r.1 = .ok)
                (if r.1 = .ok then
                  return ⟨.ok, some block, some ⟨false, tables.tablesDesc.zip r.2.1, r.2.2, allocator,
                    block, maps, indexes, tablesDescBlock⟩⟩
                else do
                  freeAll .libc indexes
                  free .libc (some maps)
                  free .libc (some block)
                  return ⟨r.1, some block, none⟩ : Act Opened)
                fun opened b => b = true ↔ opened.code = .ok := by
            intro r
            split
            · next hret => exact Triple.pure fun b hb => by simpa [hret] using hb
            · next hret =>
                apply Triple.bind (prepared_freeAll _ _)
                intro _
                apply Triple.bind (prepared_free _ _)
                intro _
                exact Triple.bind (prepared_free _ _) fun _ => Triple.pure fun b hb => hb
          dsimp only
          split
          · exact Triple.bind (prepared_selectIteratePrepare _ _ _) hrest
          · exact Triple.bind (Triple.pure fun b hb => by simp [hb]) hrest

/-- The opening succeeds exactly when SQLite prepares the statement. -/
theorem prepared_sormSelectIterateByOpen (conn : Option Connection) (allocator : Allocator)
    (tables : SelectTables) (columnsName filter : Option CString) :
    Triple preparedMonitor (· = false)
      (sormSelectIterateByOpen conn allocator tables columnsName filter)
      fun opened b => b = true ↔ opened.code = .ok := by
  apply Triple.bind (prepared_malloc _ _)
  intro tablesDescBlock
  dsimp only
  split
  · apply Triple.bind (prepared_malloc _ _)
    intro namesBlock
    apply Triple.bind (prepared_selectIterateOpen _ _ _ _ _ _)
    intro opened
    split
    · apply Triple.bind (prepared_free _ _)
      intro _
      exact Triple.bind (prepared_free _ _) fun _ => Triple.pure fun b hb => hb
    · exact Triple.bind (prepared_free _ _) fun _ => Triple.pure fun b hb => hb
  · apply Triple.bind Keeps.pure
    intro namesBlock
    apply Triple.bind (prepared_selectIterateOpen _ _ _ _ _ _)
    intro opened
    split
    · exact Triple.bind (prepared_free _ _) fun _ => Triple.pure fun b hb => hb
    · exact Triple.pure fun b hb => hb

end Prepared

abbrev HandedRows := List (Option (Address × Row))

def HandedRows.blocks (allocator : Allocator) (rows : HandedRows) : Multiset Block :=
  (rows.map (rowBlocks allocator)).sum

theorem mem_handedRows {allocator : Allocator} {rows : HandedRows} {block : Block}
    (h : block ∈ rows.blocks allocator) : block.1 = allocator := by
  unfold HandedRows.blocks at h
  induction rows with
  | nil => exact absurd h (Multiset.notMem_zero _)
  | cons row rows ih =>
      rw [List.map_cons, List.sum_cons, Multiset.mem_add] at h
      rcases h with h | h
      · cases row with
        | none => exact absurd h (Multiset.notMem_zero _)
        | some row =>
            rcases Multiset.mem_add.mp h with h | h
            · exact mem_blockOf h
            · exact Object.mem_blocksAt h
      · exact ih h

inductive Iterator.Used : Iterator → List SormEvent → HandedRows → Prop
  | close {iterator : Iterator} {tr : List SormEvent} {code : SormError}
      (h : (sormSelectIterateClose iterator).Emits tr (.pure code)) : Used iterator tr []
  | iterate {iterator iterator' : Iterator} {conn : Connection} {isTableSelect : List Bool}
      {tr tr' : List SormEvent} {code : SormError} {rows rows' : HandedRows}
      (h : (selectIterate conn iterator isTableSelect).Emits tr (.pure (code, iterator', rows)))
      (hrest : Used iterator' tr' rows') : Used iterator (tr ++ tr') (rows ++ rows')

structure IteratorRun (conn : Option Connection) (allocator : Allocator) (tables : SelectTables)
    (columnsName filter : Option CString) where
  opening : List SormEvent
  opened : Opened
  opens : (sormSelectIterateByOpen conn allocator tables columnsName filter).Emits opening
    (.pure opened)
  calls : List SormEvent
  rows : HandedRows
  used : match opened.iterator with
    | none => calls = [] ∧ rows = []
    | some iterator => iterator.Used calls rows

def Points (tr : List SormEvent) (address : Address) : Prop :=
  ∃ out allocator, ledger tr = some out ∧ (allocator, address) ∈ out

namespace IteratorRun

variable {conn : Option Connection} {allocator : Allocator} {tables : SelectTables}
  {columnsName filter : Option CString}

/-- The iterator's own blocks are given back, each to the allocator it came from: at the end only
the rows that were handed out are out. A failed opening leaves nothing, and no pointer to a block
that is freed. -/
structure ReturnsBlocks (r : IteratorRun conn allocator tables columnsName filter) : Prop where
  returned : ledger (r.opening ++ r.calls) = some (r.rows.blocks allocator)
  failed : r.opened.code ≠ .ok → ledger r.opening = some 0 ∧
    ∀ address, r.opened.stored = some address → Points r.opening address

end IteratorRun

section Run

variable {out : Multiset Block} {s : Option (Multiset Block)} {iterator : Iterator}
  {calls : List SormEvent} {rows : HandedRows}

theorem selectIterate_emits {conn : Connection} {isTableSelect : List Bool} {tr : List SormEvent}
    {code : SormError} {iterator' : Iterator}
    (h : (selectIterate conn iterator isTableSelect).Emits tr (.pure (code, iterator', rows))) :
    iterator' = { iterator with hasMore := iterator'.hasMore } :=
  (selectIterate_same conn iterator isTableSelect).returns trivial h (blockMonitor_run none tr)

/-- With the NULL allocator, only the rows handed out are out after the close. -/
theorem Iterator.Used.ledger (h : iterator.Used calls rows) (hlibc : iterator.allocator = .libc)
    (hs : s = some (out + iterator.blocks)) :
    calls.foldl enter s = some (out + rows.blocks .libc) := by
  induction h generalizing s out with
  | close h =>
      have hclosed := (out_sormSelectIterateClose _ hlibc).returns hs h (blockMonitor_run _ _)
      unfold HandedRows.blocks
      rw [List.map_nil, List.sum_nil, add_zero]
      exact hclosed
  | @iterate iterator iterator' conn isTableSelect tr tr' code rows rows' h hrest ih =>
      have hout : Out (out + iterator.blocks + rows.blocks iterator.allocator) (tr.foldl enter s) :=
        (out_selectIterate conn iterator isTableSelect).returns hs h (blockMonitor_run _ _)
      have hsame := selectIterate_emits h
      have hblocks : iterator'.blocks = iterator.blocks := by
        rw [hsame]
        rfl
      have hallocator : iterator'.allocator = .libc := by
        rw [hsame]
        exact hlibc
      have hnext : tr.foldl enter s = some (out + rows.blocks .libc + iterator'.blocks) := by
        rw [hblocks, add_right_comm, ← hlibc]
        exact hout
      rw [List.foldl_append, ih hallocator hnext]
      unfold HandedRows.blocks
      rw [List.map_append, List.sum_append, add_assoc]

/-- A block of another allocator stays out when the iterator has another one. -/
theorem Iterator.Used.keeping (h : iterator.Used calls rows) {block : Block}
    (hne : block.1 ≠ iterator.allocator) (hs : Keeping block s) :
    Keeping block (calls.foldl enter s) := by
  induction h generalizing s with
  | close h =>
      exact Triple.returns (keeping_sormSelectIterateClose _ hne) hs h (blockMonitor_run _ _)
  | @iterate iterator iterator' conn isTableSelect tr tr' code rows rows' h hrest ih =>
      have hkeeping : Keeping block (tr.foldl enter s) := by
        cases s with
        | none =>
            rw [foldl_enter_none]
            exact hs
        | some out =>
            have hout : Out (out + rows.blocks iterator.allocator) (tr.foldl enter (some out)) :=
              (out_selectIterate conn iterator isTableSelect).returns rfl h (blockMonitor_run _ _)
            intro out' hout'
            cases hout.symm.trans hout'
            exact Multiset.mem_add.mpr (Or.inl (hs out rfl))
      have hallocator : block.1 ≠ iterator'.allocator := by
        rw [selectIterate_emits h]
        exact hne
      rw [List.foldl_append]
      exact ih hallocator hkeeping

/-- The iterator's memory goes back to where it came from exactly when the opening is refused at its
arguments, or the allocator is NULL and SQLite prepares the statement. -/
theorem returnsBlocks_iff {conn : Option Connection} {allocator : Allocator} {tables : SelectTables}
    {columnsName filter : Option CString}
    (r : IteratorRun conn allocator tables columnsName filter) :
    r.ReturnsBlocks ↔
      Refused conn columnsName filter ∨ allocator = .libc ∧ r.opening.any isPrepared := by
  have hopens : Opens conn allocator columnsName filter 0 r.opened (ledger r.opening) :=
    (out_sormSelectIterateByOpen conn allocator tables columnsName filter).returns rfl r.opens
      (blockMonitor_run _ _)
  have hprepared : r.opening.any isPrepared = true ↔ r.opened.code = .ok := by
    have hreturns := (prepared_sormSelectIterateByOpen conn allocator tables columnsName
      filter).returns rfl r.opens (fold_run _ _)
    rw [foldl_isPrepared, Bool.false_or] at hreturns
    exact hreturns
  have hused := r.used
  rw [hprepared]
  cases hiterator : r.opened.iterator with
  | none =>
      unfold Opens at hopens
      rw [hiterator] at hopens hused
      obtain ⟨hcode, hout, hstored⟩ := hopens
      obtain ⟨hcalls, hrows⟩ := hused
      constructor
      · intro h
        obtain ⟨-, hpoints⟩ := h.failed hcode
        refine Or.inl (hstored.mp ?_)
        cases haddress : r.opened.stored with
        | none => rfl
        | some address =>
            obtain ⟨out, allocator', hledger, hmem⟩ := hpoints address haddress
            cases hout.symm.trans hledger
            exact absurd hmem (Multiset.notMem_zero _)
      · rintro (hrefused | ⟨-, hok⟩)
        · refine ⟨?_, fun _ => ⟨hout, ?_⟩⟩
          · rw [hcalls, hrows, List.append_nil]
            exact hout
          · intro address haddress
            rw [hstored.mpr hrefused] at haddress
            cases haddress
        · exact absurd hok hcode
  | some iterator =>
      unfold Opens at hopens
      rw [hiterator] at hopens hused
      obtain ⟨hcode, hallocator, hnotRefused, hout⟩ := hopens
      constructor
      · intro h
        cases allocator with
        | libc => exact Or.inr ⟨rfl, hcode⟩
        | user =>
            have hne : Allocator.libc ≠ iterator.allocator := by
              rw [hallocator]
              exact Allocator.noConfusion
            have hkeeping : Keeping (.libc, iterator.block) (r.calls.foldl enter (ledger r.opening)) := by
              apply hused.keeping hne
              intro out hledger
              cases hout.symm.trans hledger
              unfold Iterator.blocks blockOf
              simp
            have hmem := hkeeping _ (by rw [← ledger_append]; exact h.returned)
            exact absurd (mem_handedRows hmem) Allocator.noConfusion
      · rintro (hrefused | ⟨rfl, -⟩)
        · exact absurd hrefused hnotRefused
        · refine ⟨?_, fun hno => absurd hcode hno⟩
          rw [ledger_append, hused.ledger hallocator hout, zero_add]

end Run

def userIterator : IteratorRun (some ⟨0, 1024, 0⟩) .user (.single deviceTable)
    (some ⟨['*'], by decide⟩) none where
  opening := [⟨.malloc .user 8, some 1⟩, ⟨.malloc .libc 48, some 2⟩, ⟨.malloc .libc 16, some 3⟩,
    ⟨.malloc .libc 8, some 4⟩, ⟨.strdup .libc ⟨['*'], by decide⟩, some 5⟩,
    ⟨.free .libc (some 5), ()⟩,
    ⟨.prepare "SELECT * FROM device".toList sqlStmtMaxLen, (.ok, some 0)⟩]
  opened := ⟨.ok, some 2, some ⟨false, [(deviceTable, ⟨2, [some 0, some 1]⟩)], some 0, .user, 2, 3,
    [4], some 1⟩⟩
  opens := by
    iterate 7 refine .cons _ _ _ ?_
    exact .nil _
  calls := [⟨.finalize (some 0), .ok⟩, ⟨.free .user (some 4), ()⟩, ⟨.free .user (some 3), ()⟩,
    ⟨.free .user (some 1), ()⟩, ⟨.free .user (some 2), ()⟩]
  rows := []
  used := by
    have hclose : (sormSelectIterateClose ⟨false, [(deviceTable, ⟨2, [some 0, some 1]⟩)], some 0,
        .user, 2, 3, [4], some 1⟩).Emits [⟨.finalize (some 0), .ok⟩, ⟨.free .user (some 4), ()⟩,
          ⟨.free .user (some 3), ()⟩, ⟨.free .user (some 1), ()⟩, ⟨.free .user (some 2), ()⟩]
        (.pure .ok) := by
      iterate 5 refine .cons _ _ _ ?_
      exact .nil _
    exact .close hclose

theorem not_returnsBlocks : ¬ ∀ (conn : Option Connection) (allocator : Allocator)
    (tables : SelectTables) (columnsName filter : Option CString)
    (r : IteratorRun conn allocator tables columnsName filter), r.ReturnsBlocks := by
  intro h
  have hreturned := (h _ _ _ _ _ userIterator).returned
  have hledger : ledger (userIterator.opening ++ userIterator.calls) = none := by decide
  rw [hledger] at hreturned
  cases hreturned

end Sorm
