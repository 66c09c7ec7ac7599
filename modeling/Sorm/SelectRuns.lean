import Sorm.ColumnMapping
import Sorm.SelectRows

/-!
# The select functions on given result rows

What `sorm_select_some_array_by`, `sorm_select_some_list_by`, `sorm_select_all_list_by` and
`sorm_select_all_array_by`, each also with `_join`, return is a function of what `gather` takes of
the result rows.
-/

namespace Sorm

open Interaction

def Seen.checked (seen : Seen) : Seen :=
  if seen.code = .ok ∧ seen.rowsNum = some 0 then { seen with code := .noexist } else seen

/-- A select with its column list resolved: what its callers give it passes the checks, the
statement fits, and some column is selected. -/
structure Resolved (tables : SelectTables) (columnsName : CString) (filter : Option CString)
    (selected : List SelectColumns) : Prop where
  args : checkSelectArgs (some columnsName) filter = .ok columnsName
  stmt : ∃ b, tables.stmt columnsName.chars (filter.map CString.chars) = .ok b
  columns : columnsNameToSelectColumns tables.tablesDesc columnsName = .ok (.ok, selected)
  selects : ∃ select ∈ selected, select.columnsNum ≠ 0
  nonempty : tables.tablesDesc ≠ []
  hasColumns : ∀ table ∈ tables.tablesDesc, table.columnsNum ≠ 0
  sized : ∀ table ∈ tables.tablesDesc, table.Sized

def tableSelects (tablesDesc : List TableDescriptor) (wants : List Bool)
    (selected : List SelectColumns) : List TableSelect :=
  (tablesDesc.zip (wants.zip selected)).map fun t => TableSelect.mk t.1 t.2.1 t.2.2

theorem tableSelects_sized {tablesDesc : List TableDescriptor} {wants : List Bool}
    {selected : List SelectColumns} (h : ∀ table ∈ tablesDesc, table.Sized) :
    ∀ t ∈ tableSelects tablesDesc wants selected, t.tableDesc.Sized := by
  intro t ht
  obtain ⟨p, hp, rfl⟩ := List.mem_map.mp ht
  exact h p.1 (List.of_mem_zip hp).1

section Select

variable {o : Outside} {s : Db} {ρ : Type} {content : ρ → List Row} {Good : ρ → Prop}
  {tables : SelectTables} {columnsName : CString} {filter : Option CString}
  {selected : List SelectColumns}

theorem newIndexes_run {tablesDesc : List TableDescriptor}
    (h : ∀ table ∈ tablesDesc, table.columnsNum ≠ 0) :
    ∃ indexes k, o.run (newIndexes tablesDesc) s = (.ok (true, indexes), { s with blocks := k }) := by
  induction tablesDesc generalizing s with
  | nil => exact ⟨[], s.blocks, rfl⟩
  | cons table tablesDesc ih =>
      have hsize : 4 * table.columnsNum ≠ 0 := by
        have htable := h table List.mem_cons_self
        omega
      have hblock : o.run (malloc .libc (4 * table.columnsNum)) s =
          (.ok (some (o.block s.blocks)), { s with blocks := s.blocks + 1 }) := by
        unfold malloc
        rw [if_neg hsize]
        rfl
      obtain ⟨indexes, k, hrun⟩ := ih (s := { s with blocks := s.blocks + 1 })
        fun table' h' => h table' (List.mem_cons_of_mem _ h')
      unfold newIndexes
      rw [Outside.run, Prog.run_bind_ok hblock]
      exact ⟨_, k, Prog.run_bind_ok hrun _⟩

theorem freeAll_run (allocator : Allocator) (blocks : List Address) :
    o.run (freeAll allocator blocks) s = (.ok (), s) := by
  induction blocks with
  | nil => rfl
  | cons block blocks ih => exact ih

theorem parseColumnsName_run (h : Resolved tables columnsName filter selected) :
    o.run (parseColumnsName tables.tablesDesc columnsName) s =
      (.ok (.ok, selected), { s with blocks := s.blocks + 1 }) := by
  unfold parseColumnsName
  rw [h.columns]
  rfl

/-- The core's result after `_sqlite3_finalize`, which has nothing to add to it. -/
theorem selectPrepared_run (h : Resolved tables columnsName filter selected)
    {selectCore : SelectCore ρ} {conn : Connection} {allocator : Allocator} {wants : List Bool}
    {maxRowsNum : ℤ} {gathered : Except Halt (SormError × ℕ)} {rows : List ResultRow}
    (hcore : ∀ k, ∃ r s', o.run (selectCore conn allocator (some o.stmtHandle)
      (tableSelects tables.tablesDesc wants selected) maxRowsNum) { s with blocks := k } = (r, s') ∧
      CoreSees content Good (tableSelects tables.tablesDesc wants selected) rows gathered r s') :
    ∃ r s', o.run (selectPrepared selectCore conn allocator columnsName tables wants filter
      maxRowsNum) s = (r, s') ∧
      CoreSees content Good (tableSelects tables.tablesDesc wants selected) rows gathered r s' := by
  obtain ⟨b, hb⟩ := h.stmt
  obtain ⟨r, s', hrun, hr⟩ := hcore (s.blocks + 1)
  unfold selectPrepared
  rw [hb]
  dsimp only
  rw [Outside.run, Prog.run_bind_ok (Outside.sqlite3Prepare_run b.text)]
  simp only [ne_eq, not_true_eq_false, if_false]
  rw [Prog.run_bind_ok (parseColumnsName_run h)]
  dsimp only
  rw [if_neg (not_not_intro rfl)]
  change ∃ r s', Prog.run o.answer (selectCore conn allocator (some o.stmtHandle)
    (tableSelects tables.tablesDesc wants selected) maxRowsNum >>= _) _ = _ ∧ _
  cases gathered with
  | error why =>
      obtain rfl : r = .error why := hr
      exact ⟨_, s', Prog.run_bind_error hrun _, rfl⟩
  | ok g =>
      obtain ⟨selected', rfl, hsees⟩ := hr
      rw [Prog.run_bind_ok hrun]
      have hcode : (if s'.failed = true ∧ o.finalized ≠ .ok then SormError.dbError
          else selected'.code) = selected'.code := by
        split
        · next hf => exact (hsees.failed hf.1).symm
        · rfl
      refine ⟨_, s', Prog.run_bind_ok (Outside.dbFinalize_run _ _) _, selected', ?_, hsees⟩
      rw [hcode]

def SelectSees (content : ρ → List Row) (Good : ρ → Prop) (ts : List TableSelect)
    (rows : List ResultRow) (gathered : Except Halt (SormError × ℕ))
    (r : Except Halt (Selected ρ)) : Prop :=
  match gathered with
  | .error why => r = .error why
  | .ok g => ∃ selected, r = .ok selected ∧ selected.seen content = (expected ts rows g).checked ∧
      ∀ c ∈ selected.rowsOfTables, ∀ c' ∈ c, Good c'

theorem select_run (h : Resolved tables columnsName filter selected)
    {selectCore : SelectCore ρ} {conn : Connection} {allocator : Allocator} {wants : List Bool}
    {maxRowsNum : ℤ} {gathered : Except Halt (SormError × ℕ)} {rows : List ResultRow}
    (hcore : ∀ k, ∃ r s', o.run (selectCore conn allocator (some o.stmtHandle)
      (tableSelects tables.tablesDesc wants selected) maxRowsNum) { s with blocks := k } = (r, s') ∧
      CoreSees content Good (tableSelects tables.tablesDesc wants selected) rows gathered r s') :
    ∃ r s', o.run (select selectCore (some conn) allocator (some columnsName) tables wants filter
      (some maxRowsNum)) s = (r, s') ∧
      SelectSees content Good (tableSelects tables.tablesDesc wants selected) rows gathered r := by
  have hargs : checkSelectArgs (some columnsName) none = .ok columnsName := by
    have hargs := h.args
    unfold checkSelectArgs at hargs ⊢
    dsimp only at hargs ⊢
    split at hargs
    · cases hargs
    · next hlength =>
      rw [if_neg hlength]
      rfl
  have hsize : selectColumnsSize * tables.tablesDesc.length ≠ 0 := by
    have hlength := List.length_pos_iff.mpr h.nonempty
    unfold selectColumnsSize
    omega
  have hmaps : o.run (malloc .libc (selectColumnsSize * tables.tablesDesc.length)) s =
      (.ok (some (o.block s.blocks)), { s with blocks := s.blocks + 1 }) := by
    unfold malloc
    rw [if_neg hsize]
    rfl
  obtain ⟨indexes, k, hindexes⟩ := newIndexes_run (o := o) (s := { s with blocks := s.blocks + 1 })
    h.hasColumns
  obtain ⟨r, s', hrun, hr⟩ := selectPrepared_run (s := { s with blocks := k }) h
    fun k => hcore k
  unfold select
  rw [hargs, h.args]
  dsimp only
  rw [Outside.run, Prog.run_bind_ok hmaps]
  dsimp only
  rw [Prog.run_bind_ok hindexes]
  simp only [if_true]
  cases gathered with
  | error why =>
      obtain rfl : r = .error why := hr
      exact ⟨_, s', Prog.run_bind_error hrun _, rfl⟩
  | ok g =>
      obtain ⟨selected', rfl, hsees⟩ := hr
      rw [Prog.run_bind_ok hrun, Prog.run_bind_ok (freeAll_run .libc indexes)]
      by_cases hnone : selected'.code = .ok ∧ selected'.rowsNum = some 0
      · refine ⟨.ok { selected' with code := .noexist }, s', ?_, _, rfl, ?_, hsees.good⟩
        · change Prog.run o.answer (if selected'.code = .ok ∧ selected'.rowsNum = some 0 then
            return { selected' with code := .noexist } else return selected') s' = _
          rw [if_pos hnone]
          rfl
        · rw [Seen.checked, ← hsees.seen]
          exact (if_pos hnone).symm
      · refine ⟨.ok selected', s', ?_, _, rfl, ?_, hsees.good⟩
        · change Prog.run o.answer (if selected'.code = .ok ∧ selected'.rowsNum = some 0 then
            return { selected' with code := .noexist } else return selected') s' = _
          rw [if_neg hnone]
          rfl
        · rw [Seen.checked, ← hsees.seen]
          exact (if_neg hnone).symm

theorem selectSomeArray_run (h : Resolved tables columnsName filter selected) (conn : Connection)
    (allocator : Allocator) (wants : List Bool) {n : ℤ} (hpos : 0 ≤ n) (hle : n ≤ intMax)
    (hs : s.failed = false) :
    ∃ r s', o.run (sormSelectSomeArrayBy (some conn) allocator tables (some columnsName) filter
      (some n) wants) s = (r, s') ∧
      SelectSees RowArray.content (fun _ => True) (tableSelects tables.tablesDesc wants selected)
        s.upcoming (gather (tableSelects tables.tablesDesc wants selected) o.finish n.toNat
          s.upcoming) r :=
  select_run h fun k => selectSomeArrayCore_run (s := { s with blocks := k }) conn allocator _ hpos
    (tableSelects_sized h.sized) hs hle

theorem selectSomeList_run (h : Resolved tables columnsName filter selected) (conn : Connection)
    (allocator : Allocator) (wants : List Bool) (n : ℤ) (hs : s.failed = false) :
    ∃ r s', o.run (sormSelectSomeListBy (some conn) allocator tables (some columnsName) filter
      (some n) wants) s = (r, s') ∧
      SelectSees RowList.content RowList.Complete (tableSelects tables.tablesDesc wants selected)
        s.upcoming (gather (tableSelects tables.tablesDesc wants selected) o.finish n.toNat
          s.upcoming) r :=
  select_run h fun k => selectSomeListCore_run (s := { s with blocks := k }) conn allocator _
    (tableSelects_sized h.sized) hs

theorem selectAllList_run (h : Resolved tables columnsName filter selected) (conn : Connection)
    (allocator : Allocator) (wants : List Bool) (n : ℤ) (hs : s.failed = false) {rounds : ℕ}
    (hrounds : s.upcoming.length < rounds) (hle : s.upcoming.length ≤ intMax) :
    ∃ r s', o.run (sormSelectAllListBy rounds (some conn) allocator tables (some columnsName) filter
      (some n) wants) s = (r, s') ∧
      SelectSees RowList.content RowList.Complete (tableSelects tables.tablesDesc wants selected)
        s.upcoming (gather (tableSelects tables.tablesDesc wants selected) o.finish
          (s.upcoming.length + 1) s.upcoming) r :=
  select_run h fun k => selectAllListCore_run (s := { s with blocks := k }) conn allocator _
    (tableSelects_sized h.sized) hs hrounds hle

end Select

theorem ResultMap.length_add {tablesDesc : List TableDescriptor} {m : ResultMap}
    (h : m.selected.length = tablesDesc.length) (tableIndex columnIndex : Option ℕ) :
    (m.add tablesDesc tableIndex columnIndex).selected.length = tablesDesc.length := by
  unfold ResultMap.add
  split
  · exact length_allTables tablesDesc _
  · split
    · exact h
    · rw [List.length_set]
      exact h
  · rw [List.length_modify]
    exact h

theorem selectItems_length {tablesDesc : List TableDescriptor} {items : List Text} {left : Text}
    {m m' : ResultMap} (hret : selectItems tablesDesc items left m = .ok m')
    (h : m.selected.length = tablesDesc.length) : m'.selected.length = tablesDesc.length := by
  induction items generalizing left m with
  | nil =>
      cases hret
      exact h
  | cons item items ih =>
      unfold selectItems at hret
      cases htrim : trim left item with
      | error why =>
          rw [htrim] at hret
          cases hret
      | ok r =>
          rw [htrim] at hret
          change (columnNameToIndexInTables tablesDesc (r.2.takeWhile (· != '\x00')) >>= _) = _ at hret
          cases hname : columnNameToIndexInTables tablesDesc (r.2.takeWhile (· != '\x00')) with
          | error why =>
              rw [hname] at hret
              cases hret
          | ok found =>
              rw [hname] at hret
              apply ih hret
              split
              · exact ResultMap.length_add h _ _
              · exact h

theorem Resolved.length {tables : SelectTables} {columnsName : CString} {filter : Option CString}
    {selected : List SelectColumns} (h : Resolved tables columnsName filter selected) :
    selected.length = tables.tablesDesc.length := by
  have hret := h.columns
  unfold columnsNameToSelectColumns at hret
  cases hitems : selectItems tables.tablesDesc (columnsName.chars.splitOn ',') []
      ⟨tables.tablesDesc.map SelectColumns.unselected, 0⟩ with
  | error why =>
      rw [hitems] at hret
      cases hret
  | ok m =>
      rw [hitems] at hret
      cases hret
      exact selectItems_length hitems (List.length_map _)

theorem Resolved.tableSelects_length {tables : SelectTables} {columnsName : CString}
    {filter : Option CString} {selected : List SelectColumns}
    (h : Resolved tables columnsName filter selected) {wants : List Bool}
    (hwants : wants.length = tables.tablesDesc.length) :
    (tableSelects tables.tablesDesc wants selected).length = tables.tablesDesc.length := by
  rw [tableSelects, List.length_map, List.length_zip, List.length_zip, hwants, h.length]
  omega

theorem gather_le {ts : List TableSelect} {finish : DbCode} {limit : ℕ} {rows : List ResultRow}
    {g : SormError × ℕ} (h : gather ts finish limit rows = .ok g) : g.2 ≤ rows.length := by
  induction limit generalizing rows g with
  | zero =>
      cases h
      exact Nat.zero_le _
  | succ limit ih =>
      cases rows with
      | nil =>
          cases h
          exact Nat.zero_le _
      | cons row rows =>
          unfold gather at h
          split at h
          · cases h
          · split at h
            · cases hg : gather ts finish limit rows with
              | error why =>
                  rw [hg] at h
                  cases h
              | ok g' =>
                  rw [hg] at h
                  cases h
                  exact Nat.succ_le_succ (ih hg)
            · cases h
              exact Nat.zero_le _

section Arrays

variable {o : Outside} {s : Db} (allocator : Allocator)

theorem listCpyFreeEntries_run {entries : List ListEntry} :
    o.run (listCpyFreeEntries allocator entries) s =
      (.ok (entries.filterMap fun entry => entry.data.map Prod.snd), s) := by
  induction entries with
  | nil => rfl
  | cons entry entries ih =>
      unfold listCpyFreeEntries
      change Prog.run o.answer (listCpyFreeEntries allocator entries >>= fun rows =>
        return (entry.data.map Prod.snd).toList ++ rows) s = _
      rw [Prog.run_bind_ok ih, List.filterMap_cons]
      cases entry.data with
      | none => rfl
      | some data => rfl

theorem RowList.Complete.length {list : RowList} (h : list.Complete) :
    list.content.length = list.entries.length := by
  have hdata := h.data
  unfold RowList.content
  generalize list.entries = entries at hdata ⊢
  induction entries with
  | nil => rfl
  | cons entry entries ih =>
      obtain ⟨data, hd⟩ := Option.isSome_iff_exists.mp (hdata entry List.mem_cons_self)
      rw [List.filterMap_cons, hd, Option.map_some, List.length_cons, List.length_cons,
        ih fun entry' h' => hdata entry' (List.mem_cons_of_mem _ h')]

/-- `assert(i == n)` holds, and the rows are those of the list. -/
theorem listCpyFree_run {list : RowList} (h : list.Complete) {n : ℕ}
    (hn : list.content.length = n) : ∃ rows, o.run (listCpyFree allocator list n) s = (.ok rows, s) ∧
      rows.map Row.erase = list.content := by
  have hlength : list.entries.length = n := h.length ▸ hn
  refine ⟨list.entries.filterMap fun entry => entry.data.map Prod.snd, ?_, ?_⟩
  · unfold listCpyFree
    rw [Outside.run, Prog.run_bind_ok (listCpyFreeEntries_run allocator), if_pos hlength]
    rfl
  · rw [List.map_filterMap, RowList.content]
    congr 1
    funext entry
    cases entry.data with
    | none => rfl
    | some data => rfl

theorem listsToArrays_run {n : ℕ} (hpos : 0 < n) (hle : n ≤ intMax)
    {ts : List (TableDescriptor × Option RowList)} (hsized : ∀ t ∈ ts, t.1.Sized)
    (hlists : ∀ t ∈ ts, ∀ list ∈ t.2, list.Complete ∧ list.content.length = n) :
    ∃ arrays k, o.run (listsToArrays allocator n ts) s = (.ok (true, arrays), { s with blocks := k }) ∧
      arrays.map (Option.map RowArray.content) = ts.map fun t => t.2.map RowList.content := by
  induction ts generalizing s with
  | nil => exact ⟨[], s.blocks, rfl, rfl⟩
  | cons t ts ih =>
      have hsized' := fun t' h' => hsized t' (List.mem_cons_of_mem _ h')
      have hlists' := fun t' h' => hlists t' (List.mem_cons_of_mem _ h')
      obtain ⟨table, _ | list⟩ := t
      · obtain ⟨arrays, k, hrun, harrays⟩ := ih (s := s) hsized' hlists'
        refine ⟨_, k, Prog.run_bind_ok hrun _, ?_⟩
        rw [List.map_cons, List.map_cons, harrays]
        rfl
      · have hn : (0 : ℤ) < n ∧ (n : ℤ) ≤ intMax := by omega
        have hlist := hlists _ List.mem_cons_self list rfl
        have hnew := sormNewArray_run (o := o) allocator (hsized _ List.mem_cons_self) hn.1 hn.2 s
        obtain ⟨rows, hcpy, hrows⟩ := listCpyFree_run (o := o) allocator
          (s := { s with blocks := s.blocks + 1 }) hlist.1 hlist.2
        obtain ⟨arrays, k, hrun, harrays⟩ := ih (s := { s with blocks := s.blocks + 1 }) hsized'
          hlists'
        unfold listsToArrays
        rw [Outside.run, Prog.run_bind_ok hnew]
        dsimp only
        rw [Prog.run_bind_ok hcpy]
        refine ⟨_, k, Prog.run_bind_ok hrun _, ?_⟩
        rw [List.map_cons, List.map_cons, harrays, Option.map_some, Option.map_some, ← hrows]
        rfl

end Arrays

theorem checked_expected (ts : List TableSelect) (rows : List ResultRow) (g : SormError × ℕ) :
    ((expected ts rows g).checked.code ≠ .ok ∧ (expected ts rows g).checked.rows = noRows ts) ∨
      (g.1 = .ok ∧ 0 < g.2 ∧ (expected ts rows g).checked =
        ⟨.ok, some g.2, perTable ts fun t => (rows.take g.2).map (decodedRow t)⟩) := by
  by_cases hnone : g.1 ≠ .ok ∨ g.2 = 0
  · have hexpected : expected ts rows g = ⟨g.1, some g.2, noRows ts⟩ := if_pos hnone
    rw [hexpected, Seen.checked]
    by_cases hno : g.1 = .ok ∧ some g.2 = some 0
    · rw [if_pos hno]
      exact Or.inl ⟨fun h => (by cases h), rfl⟩
    · rw [if_neg hno]
      refine Or.inl ⟨fun hok => ?_, rfl⟩
      have hzero : g.2 = 0 := hnone.resolve_left (not_not_intro hok)
      exact hno ⟨hok, congrArg some hzero⟩
  · have hexpected : expected ts rows g =
        ⟨g.1, some g.2, perTable ts fun t => (rows.take g.2).map (decodedRow t)⟩ := if_neg hnone
    rw [not_or, not_not] at hnone
    have hno : ¬ (g.1 = .ok ∧ some g.2 = some 0) := fun h =>
      hnone.2 (Option.some_injective _ h.2)
    rw [hexpected, Seen.checked, if_neg hno]
    exact Or.inr ⟨hnone.1, Nat.pos_of_ne_zero hnone.2, by rw [hnone.1]⟩

theorem perTable_length {ts : List TableSelect} {rows : List ResultRow} {k : ℕ}
    (hk : k ≤ rows.length) {c : List Row}
    (h : some c ∈ perTable ts fun t => (rows.take k).map (decodedRow t)) : c.length = k := by
  obtain ⟨t, _, ht⟩ := List.mem_map.mp h
  split at ht
  · have hcontent : c = (rows.take k).map (decodedRow t) := (Option.some_injective _ ht).symm
    rw [hcontent, List.length_map, List.length_take]
    omega
  · cases ht

section AllArrays

variable {o : Outside} {s : Db} {tables : SelectTables} {columnsName : CString}
  {filter : Option CString} {selected : List SelectColumns}

theorem selectAllArray_run {tableDesc : TableDescriptor}
    (h : Resolved (.single tableDesc) columnsName filter selected) (conn : Connection)
    (allocator : Allocator) (getRow : Bool) (n : ℤ) (hs : s.failed = false) {rounds : ℕ}
    (hrounds : s.upcoming.length < rounds) (hle : s.upcoming.length ≤ intMax) :
    ∃ r s', o.run (sormSelectAllArrayBy rounds (some conn) allocator tableDesc (some columnsName)
      filter (some n) getRow) s = (r, s') ∧
      SelectSees RowArray.content (fun _ => True) (tableSelects [tableDesc] [getRow] selected)
        s.upcoming (gather (tableSelects [tableDesc] [getRow] selected) o.finish
          (s.upcoming.length + 1) s.upcoming) r := by
  obtain ⟨r, s', hrun, hr⟩ := selectAllList_run h conn allocator [getRow] n hs hrounds hle
  obtain ⟨sc, hsc⟩ := List.length_eq_one_iff.mp h.length
  have hwanted : (TableSelect.mk tableDesc getRow sc).wanted = getRow := by
    obtain ⟨select, hmem, hne⟩ := h.selects
    rw [hsc] at hmem
    obtain rfl := List.mem_singleton.mp hmem
    rw [TableSelect.wanted, bne_iff_ne.mpr hne, Bool.true_and]
  have hts : tableSelects [tableDesc] [getRow] selected = [⟨tableDesc, getRow, sc⟩] := by
    rw [hsc]
    rfl
  change SelectSees _ _ (tableSelects [tableDesc] [getRow] selected) _
    (gather (tableSelects [tableDesc] [getRow] selected) _ _ _) _ at hr
  rw [hts] at hr ⊢
  unfold sormSelectAllArrayBy
  cases hg : gather [⟨tableDesc, getRow, sc⟩] o.finish (s.upcoming.length + 1) s.upcoming with
  | error why =>
      rw [hg] at hr
      obtain rfl : r = .error why := hr
      exact ⟨_, s', Prog.run_bind_error hrun _, rfl⟩
  | ok g =>
      rw [hg] at hr
      obtain ⟨lists, rfl, hseen, hgood⟩ := hr
      have hnum := gather_le hg
      rw [Outside.run, Prog.run_bind_ok hrun]
      rcases checked_expected [⟨tableDesc, getRow, sc⟩] s.upcoming g with ⟨hne, hrows⟩ | hok
      · have hcode : lists.code ≠ .ok := by
          have hcode : lists.code = _ := congrArg Seen.code hseen
          rw [hcode]
          exact hne
        rw [if_pos hcode]
        refine ⟨_, s', rfl, _, rfl, ?_, fun _ _ _ _ => trivial⟩
        rw [← hseen] at hrows ⊢
        rw [Selected.seen, Selected.seen, show lists.rowsOfTables.map (Option.map RowList.content) =
          [none] from hrows]
        rfl
      · obtain ⟨hgok, hpos, hchecked⟩ := hok
        rw [hchecked] at hseen
        have hcode : lists.code = .ok := congrArg Seen.code hseen
        have hrowsNum : lists.rowsNum = some g.2 := congrArg Seen.rowsNum hseen
        have hrows : lists.rowsOfTables.map (Option.map RowList.content) = _ :=
          congrArg Seen.rows hseen
        have hn : ¬ (lists.rowsNum.getD 0) = 0 := by
          rw [hrowsNum, Option.getD_some]
          omega
        dsimp only
        rw [if_neg (not_not_intro hcode), if_neg hn]
        rw [perTable, List.map_cons, List.map_nil, hwanted] at hrows
        cases getRow with
        | false =>
            refine ⟨_, s', rfl, _, rfl, ?_, fun _ _ _ _ => trivial⟩
            rw [hchecked, perTable, List.map_cons, List.map_nil, hwanted, ← hrowsNum]
            rfl
        | true =>
            obtain ⟨c, hc, hcontent⟩ := List.map_eq_singleton_iff.mp hrows
            obtain ⟨list, rfl, hlist⟩ := Option.map_eq_some_iff.mp hcontent
            have hmem : some list ∈ lists.rowsOfTables := by
              rw [hc]
              exact List.mem_singleton_self _
            have hcomplete := hgood (some list) hmem list rfl
            have hlength : list.content.length = g.2 := by
              rw [hlist, List.length_map, List.length_take]
              omega
            have hnew := sormNewArray_run (o := o) allocator (h.sized tableDesc
              List.mem_cons_self) (n := g.2) (by omega) (by omega) s'
            obtain ⟨rows, hcpy, hrows'⟩ := listCpyFree_run (o := o) allocator
              (s := { s' with blocks := s'.blocks + 1 }) hcomplete hlength
            rw [hrowsNum, hc]
            dsimp only [Option.getD_some, List.head?_cons, Option.join_some]
            rw [if_pos rfl, Prog.run_bind_ok hnew]
            dsimp only
            rw [assertSome_some, pure_bind, Prog.run_bind_ok hcpy]
            refine ⟨_, _, rfl, _, rfl, ?_, fun _ _ _ _ => trivial⟩
            rw [hchecked, perTable, List.map_cons, List.map_nil, hwanted, if_pos rfl, ← hlist,
              ← hrows']
            rfl

theorem selectAllArrayJoin_run (h : Resolved tables columnsName filter selected)
    (conn : Connection) (allocator : Allocator) {wants : List Bool}
    (hwants : wants.length = tables.tablesDesc.length) (n : ℤ) (hs : s.failed = false) {rounds : ℕ}
    (hrounds : s.upcoming.length < rounds) (hle : s.upcoming.length ≤ intMax) :
    ∃ r s', o.run (sormSelectAllArrayByJoin rounds (some conn) allocator tables (some columnsName)
      filter (some n) wants) s = (r, s') ∧
      SelectSees RowArray.content (fun _ => True) (tableSelects tables.tablesDesc wants selected)
        s.upcoming (gather (tableSelects tables.tablesDesc wants selected) o.finish
          (s.upcoming.length + 1) s.upcoming) r := by
  obtain ⟨r, s', hrun, hr⟩ := selectAllList_run h conn allocator wants n hs hrounds hle
  have hlength := h.tableSelects_length hwants
  generalize tableSelects tables.tablesDesc wants selected = ts at hr hlength ⊢
  unfold sormSelectAllArrayByJoin
  cases hg : gather ts o.finish (s.upcoming.length + 1) s.upcoming with
  | error why =>
      rw [hg] at hr
      obtain rfl : r = .error why := hr
      exact ⟨_, s', Prog.run_bind_error hrun _, rfl⟩
  | ok g =>
      rw [hg] at hr
      obtain ⟨lists, rfl, hseen, hgood⟩ := hr
      have hnum := gather_le hg
      rw [Outside.run, Prog.run_bind_ok hrun]
      rcases checked_expected ts s.upcoming g with ⟨hne, hrows⟩ | ⟨hgok, hpos, hchecked⟩
      · have hcode : lists.code ≠ .ok := by
          have hcode : lists.code = _ := congrArg Seen.code hseen
          rw [hcode]
          exact hne
        rw [if_pos hcode]
        refine ⟨_, s', rfl, _, rfl, ?_, fun _ _ _ _ => trivial⟩
        rw [← hseen] at hrows ⊢
        rw [Selected.seen, Selected.seen, show lists.rowsOfTables.map (Option.map RowList.content) =
          noRows ts from hrows]
        dsimp only
        rw [map_none_eq hlength.symm]
      · rw [hchecked] at hseen
        have hcode : lists.code = .ok := congrArg Seen.code hseen
        have hrowsNum : lists.rowsNum = some g.2 := congrArg Seen.rowsNum hseen
        have hrows : lists.rowsOfTables.map (Option.map RowList.content) = _ :=
          congrArg Seen.rows hseen
        dsimp only at hrows
        have hlists : lists.rowsOfTables.length = tables.tablesDesc.length := by
          have hcongr := congrArg List.length hrows
          rw [List.length_map, perTable, List.length_map] at hcongr
          exact hcongr.trans hlength
        have hmem : ∀ t ∈ tables.tablesDesc.zip lists.rowsOfTables, ∀ list ∈ t.2,
            list.Complete ∧ list.content.length = g.2 := by
          intro t ht list hlist
          have hc := (List.of_mem_zip ht).2
          refine ⟨hgood t.2 hc list hlist, @perTable_length ts _ _ hnum _ ?_⟩
          rw [← hrows, List.mem_map]
          exact ⟨t.2, hc, by rw [hlist, Option.map_some]⟩
        obtain ⟨arrays, k, harrays, hcontent⟩ := listsToArrays_run (o := o) (s := s')
          allocator hpos (by omega) (fun t ht => h.sized t.1 (List.of_mem_zip ht).1)
          hmem
        dsimp only
        rw [if_neg (not_not_intro hcode), hrowsNum, Option.getD_some, Prog.run_bind_ok harrays]
        refine ⟨_, _, rfl, _, rfl, ?_, fun _ _ _ _ => trivial⟩
        have hzip : (tables.tablesDesc.zip lists.rowsOfTables).map
            (fun t => t.2.map RowList.content) =
            lists.rowsOfTables.map (Option.map RowList.content) := by
          calc (tables.tablesDesc.zip lists.rowsOfTables).map (fun t => t.2.map RowList.content)
              = ((tables.tablesDesc.zip lists.rowsOfTables).map Prod.snd).map
                  (Option.map RowList.content) := by
                rw [List.map_map]
                rfl
            _ = lists.rowsOfTables.map (Option.map RowList.content) := by
                rw [List.map_snd_zip hlists.le]
        rw [hchecked, ← hrows, ← hzip, ← hcontent]
        rfl

end AllArrays

end Sorm
