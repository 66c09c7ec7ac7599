import Sorm.ColumnFilter
import Sorm.SelectRuns

/-!
# All select paths return the same rows

The iterator takes the rows that `gather` takes, and with it all select functions agree on one
prepared statement.
-/

namespace Sorm

open Interaction

abbrev IteratedRow := List (Option (Address × Row))

def IteratedRow.content (rows : IteratedRow) : List (Option Row) :=
  rows.map (Option.map fun row => row.2.erase)

/-- `sorm_select_iterate_by` until `sorm_select_iterate_more` is 0 or a call fails: the last error
code, and the rows of the calls before. -/
def iterateAll (conn : Connection) (isTableSelect : List Bool) :
    ℕ → Iterator → Act (SormError × List (List (Option Row)))
  | 0, _ => .stop .unbounded
  | rounds + 1, iterator => do
      let (ret, iterator, rows) ← selectIterate conn iterator isTableSelect
      if ret ≠ .ok then return (ret, [])
      else if iterator.hasMore then
        let (ret, rest) ← iterateAll conn isTableSelect rounds iterator
        return (ret, IteratedRow.content rows :: rest)
      else return (.ok, [])

def iterateSelect (rounds : ℕ) (conn : Connection) (allocator : Allocator) (tables : SelectTables)
    (columnsName filter : Option CString) (isTableSelect : List Bool) :
    Act (SormError × List (List (Option Row))) := do
  let opened ← sormSelectIterateByOpen (some conn) allocator tables columnsName filter
  match opened.iterator with
  | none => return (opened.code, [])
  | some iterator => iterateAll conn isTableSelect rounds iterator

def decodedRows (ts : List TableSelect) (row : ResultRow) : List (Option Row) :=
  ts.map fun t => if t.wanted then some (decodedRow t row) else none

section Iterator

variable {o : Outside} {s : Db} {ts : List TableSelect}

theorem iterateRow_run (allocator : Allocator) (h : Handle)
    (hts : ∀ t ∈ ts, t.tableDesc.Sized) :
    ∃ r k, o.run (iterateRow allocator (some h) ts) s = (r, { s with blocks := k }) ∧
      match decodeTables ts s.current with
      | .error why => r = .error why
      | .ok ret => ∃ rows, r = .ok (ret, rows) ∧
          (ret = .ok → IteratedRow.content rows = decodedRows ts s.current) := by
  induction ts generalizing s with
  | nil => exact ⟨_, s.blocks, rfl, _, rfl, fun _ => rfl⟩
  | cons t ts ih =>
      have hts' := fun t' h' => hts t' (List.mem_cons_of_mem _ h')
      unfold iterateRow decodeTables decodedRows
      by_cases ht : t.wanted
      · rw [if_pos ht, if_pos ht, List.map_cons, if_pos ht]
        have hnew : o.run (sormNew allocator t.tableDesc) s =
            (.ok (some (o.block s.blocks)), { s with blocks := s.blocks + 1 }) :=
          sormNewArray_run allocator (hts t List.mem_cons_self) Int.one_pos (by decide) _
        obtain ⟨r, n, hrun, hr⟩ := @Outside.parseSelectResult_run o
          { s with blocks := s.blocks + 1 } allocator h t
        dsimp only at hr
        rw [Outside.run, Prog.run_bind_ok hnew, assertSome_some, pure_bind]
        cases r with
        | error why =>
            rw [← hr]
            exact ⟨_, n, Prog.run_bind_error hrun _, rfl⟩
        | ok r =>
            rw [← hr, Prog.run_bind_ok hrun]
            have hrow : decodedRow t s.current = ⟨t.tableDesc, r.2.erase⟩ := by
              rw [decodedRow, ← hr]
              rfl
            dsimp only [eraseResult, Except.map]
            by_cases hret : r.1 = .ok
            · rw [if_pos hret, if_pos hret]
              obtain ⟨r', n', hrun', hr'⟩ := ih (s := { s with blocks := n }) hts'
              dsimp only at hr'
              cases hd : decodeTables ts s.current with
              | error why =>
                  rw [hd] at hr'
                  subst hr'
                  exact ⟨_, n', Prog.run_bind_error hrun' _, rfl⟩
              | ok ret =>
                  rw [hd] at hr'
                  obtain ⟨rows, rfl, hrows⟩ := hr'
                  refine ⟨_, n', Prog.run_bind_ok hrun' _, _, rfl, fun hok => ?_⟩
                  rw [IteratedRow.content, List.map_cons, ← IteratedRow.content, hrows hok, hrow]
                  rfl
            · rw [if_neg hret, if_neg hret]
              exact ⟨_, n, rfl, _, rfl, fun hok => absurd hok hret⟩
      · rw [if_neg ht, if_neg ht, List.map_cons, if_neg ht]
        obtain ⟨r, n, hrun, hr⟩ := ih (s := s) hts'
        cases hd : decodeTables ts s.current with
        | error why =>
            rw [hd] at hr
            subst hr
            exact ⟨_, n, Prog.run_bind_error hrun _, rfl⟩
        | ok ret =>
            rw [hd] at hr
            obtain ⟨rows, rfl, hrows⟩ := hr
            refine ⟨_, n, Prog.run_bind_ok hrun _, _, rfl, fun hok => ?_⟩
            rw [IteratedRow.content, List.map_cons, ← IteratedRow.content, hrows hok]
            rfl

/-- The iterator reads the rows from where the statement is, and hands out those of each. -/
theorem iterateAll_run (conn : Connection) (wants : List Bool) {iterator : Iterator} {h : Handle}
    (hhandle : iterator.stmtHandle = some h)
    (hts : (iterator.tables.zip wants).map (fun t => TableSelect.mk t.1.1 t.2 t.1.2) = ts)
    (hsized : ∀ t ∈ ts, t.tableDesc.Sized) {rounds : ℕ} (hrounds : s.upcoming.length < rounds) :
    ∃ r s', o.run (iterateAll conn wants rounds iterator) s = (r, s') ∧
      r = (gather ts o.finish (s.upcoming.length + 1) s.upcoming).map fun g =>
        (g.1, (s.upcoming.take g.2).map (decodedRows ts)) := by
  induction rounds generalizing iterator s with
  | zero => omega
  | succ rounds ih =>
      unfold iterateAll selectIterate
      simp only [hhandle, hts, bind_assoc]
      rw [Outside.run, Prog.run_bind_ok (Outside.sqlite3Step_run conn (some h) .write)]
      cases hrows : s.upcoming with
      | nil =>
          simp only [Outside.step, hrows, if_neg o.finish_ne, pure_bind]
          by_cases hdone : o.finish = .done
          · simp only [hdone, if_true]
            exact ⟨_, _, rfl, rfl⟩
          · simp only [gather, if_neg hdone]
            exact ⟨_, _, rfl, rfl⟩
      | cons row rows =>
          simp only [Outside.step, hrows, if_true, bind_assoc, pure_bind]
          obtain ⟨r, n, hrun, hr⟩ := iterateRow_run (o := o)
            (s := { s with upcoming := rows, current := row, failed := false }) iterator.allocator h
            hsized
          dsimp only at hrun hr
          rw [gather]
          cases hd : decodeTables ts row with
          | error why =>
              rw [hd] at hr
              subst hr
              exact ⟨_, _, Prog.run_bind_error hrun _, rfl⟩
          | ok ret =>
              rw [hd] at hr
              obtain ⟨handed, rfl, hhanded⟩ := hr
              rw [Prog.run_bind_ok hrun]
              dsimp only
              by_cases hret : ret = .ok
              · rw [if_neg (not_not_intro hret), if_pos hret]
                have hmore : rows.length < rounds := by
                  rw [hrows] at hrounds
                  exact Nat.lt_of_succ_lt_succ hrounds
                obtain ⟨r', s', hrun', hr'⟩ := @ih ⟨rows, row, false, n, s.bound⟩
                  { iterator with hasMore := true, stmtHandle := some h } rfl hts hmore
                dsimp only at hr'
                rw [List.length_cons]
                cases hg : gather ts o.finish (rows.length + 1) rows with
                | error why =>
                    rw [hg] at hr'
                    subst hr'
                    exact ⟨_, _, Prog.run_bind_error hrun' _, rfl⟩
                | ok g =>
                    rw [hg] at hr'
                    subst hr'
                    refine ⟨_, _, Prog.run_bind_ok hrun' _, ?_⟩
                    dsimp only [Except.map]
                    rw [List.take_succ_cons, List.map_cons, hhanded hret]
              · rw [if_pos hret, if_neg hret]
                exact ⟨_, _, rfl, rfl⟩

variable {tables : SelectTables} {columnsName : CString} {filter : Option CString}
  {selected : List SelectColumns}

theorem selectIteratePrepare_run (h : Resolved tables columnsName filter selected) :
    ∃ k, o.run (selectIteratePrepare columnsName tables filter) s =
      (.ok (.ok, selected, some o.stmtHandle), { s with blocks := k }) := by
  obtain ⟨b, hb⟩ := h.stmt
  unfold selectIteratePrepare
  rw [hb]
  dsimp only
  rw [Outside.run, Prog.run_bind_ok (parseColumnsName_run h)]
  simp only [ne_eq, not_true_eq_false, if_false]
  rw [Prog.run_bind_ok (Outside.sqlite3Prepare_run b.text)]
  exact ⟨_, rfl⟩

theorem malloc_run (allocator : Allocator) {size : ℕ} (hsize : size ≠ 0) :
    o.run (malloc allocator size) s =
      (.ok (some (o.block s.blocks)), { s with blocks := s.blocks + 1 }) := by
  unfold malloc
  rw [if_neg hsize]
  rfl

theorem selectIterateOpen_run (h : Resolved tables columnsName filter selected) (conn : Connection)
    (allocator : Allocator) (tablesDescBlock : Option Address) :
    ∃ iterator block k, o.run (selectIterateOpen (some conn) allocator (some columnsName) tables
        filter tablesDescBlock) s = (.ok ⟨.ok, block, some iterator⟩, { s with blocks := k }) ∧
      iterator.tables = tables.tablesDesc.zip selected ∧
      iterator.stmtHandle = some o.stmtHandle := by
  have hsize : selectColumnsSize * tables.tablesDesc.length ≠ 0 := by
    have hlength := List.length_pos_iff.mpr h.nonempty
    unfold selectColumnsSize
    omega
  have hiterator : sormIteratorSize ≠ 0 := by decide
  obtain ⟨indexes, k, hindexes⟩ := newIndexes_run (o := o)
    (s := { s with blocks := s.blocks + 1 + 1 }) h.hasColumns
  obtain ⟨k', hprepare⟩ := selectIteratePrepare_run (o := o) (s := { s with blocks := k }) h
  unfold selectIterateOpen
  rw [h.args]
  dsimp only
  rw [Outside.run, Prog.run_bind_ok (malloc_run .libc hiterator), assertSome_some, pure_bind,
    Prog.run_bind_ok (malloc_run .libc hsize), assertSome_some, pure_bind]
  rw [Prog.run_bind_ok hindexes]
  simp only [if_true]
  rw [Prog.run_bind_ok hprepare]
  exact ⟨_, _, k', rfl, rfl, rfl⟩

theorem sormSelectIterateByOpen_run (h : Resolved tables columnsName filter selected)
    (conn : Connection) (allocator : Allocator) :
    ∃ iterator block k, o.run (sormSelectIterateByOpen (some conn) allocator tables
        (some columnsName) filter) s = (.ok ⟨.ok, block, some iterator⟩, { s with blocks := k }) ∧
      iterator.tables = tables.tablesDesc.zip selected ∧
      iterator.stmtHandle = some o.stmtHandle := by
  have hlength := List.length_pos_iff.mpr h.nonempty
  have hsize : 8 * tables.tablesDesc.length ≠ 0 := by omega
  unfold sormSelectIterateByOpen
  rw [Outside.run, Prog.run_bind_ok (malloc_run allocator hsize)]
  by_cases hpair : tables.tablesDesc.length > 1
  · rw [if_pos hpair, Prog.run_bind_ok (malloc_run allocator (by decide))]
    obtain ⟨iterator, block, k, hrun, hiterator⟩ := selectIterateOpen_run (o := o)
      (s := { s with blocks := s.blocks + 1 + 1 }) h conn allocator (some (o.block s.blocks))
    rw [Prog.run_bind_ok hrun]
    dsimp only
    rw [if_pos hpair]
    exact ⟨iterator, block, k, rfl, hiterator⟩
  · rw [if_neg hpair, pure_bind]
    obtain ⟨iterator, block, k, hrun, hiterator⟩ := selectIterateOpen_run (o := o)
      (s := { s with blocks := s.blocks + 1 }) h conn allocator (some (o.block s.blocks))
    rw [Prog.run_bind_ok hrun]
    dsimp only
    rw [if_neg hpair]
    exact ⟨iterator, block, k, rfl, hiterator⟩

theorem tableSelects_eq (tablesDesc : List TableDescriptor) (selected : List SelectColumns)
    (wants : List Bool) :
    ((tablesDesc.zip selected).zip wants).map (fun t => TableSelect.mk t.1.1 t.2 t.1.2) =
      tableSelects tablesDesc wants selected := by
  induction tablesDesc generalizing selected wants with
  | nil => rfl
  | cons table tablesDesc ih =>
      cases selected with
      | nil =>
          cases wants with
          | nil => rfl
          | cons want wants => rfl
      | cons sc selected =>
          cases wants with
          | nil => rfl
          | cons want wants =>
              rw [tableSelects, List.zip_cons_cons, List.zip_cons_cons, List.zip_cons_cons,
                List.zip_cons_cons, List.map_cons, List.map_cons, ih]
              rfl

/-- The iterator hands out the rows that `gather` takes, then its error code. -/
theorem iterateSelect_run (h : Resolved tables columnsName filter selected) (conn : Connection)
    (allocator : Allocator) (wants : List Bool) {rounds : ℕ} (hrounds : s.upcoming.length < rounds) :
    (o.run (iterateSelect rounds conn allocator tables (some columnsName) filter wants) s).1 =
      (gather (tableSelects tables.tablesDesc wants selected) o.finish (s.upcoming.length + 1)
        s.upcoming).map fun g =>
          (g.1, (s.upcoming.take g.2).map
            (decodedRows (tableSelects tables.tablesDesc wants selected))) := by
  obtain ⟨iterator, block, k, hopen, htables, hhandle⟩ := sormSelectIterateByOpen_run (o := o) (s := s) h
    conn allocator
  obtain ⟨r, s', hrun, hr⟩ := iterateAll_run (o := o) (s := { s with blocks := k }) conn wants
    hhandle (by rw [htables]; exact tableSelects_eq _ _ _) (tableSelects_sized h.sized) hrounds
  unfold iterateSelect
  rw [Outside.run, Prog.run_bind_ok hopen]
  dsimp only
  exact (congrArg Prod.fst hrun).trans hr

end Iterator

inductive SelectedTables
  | one (tableDesc : TableDescriptor) (getRow : Bool)
  | two (table1 : TableDescriptor) (table1ColumnName : Text) (table2 : TableDescriptor)
      (table2ColumnName : Text) (join : SormJoin) (getRow1 getRow2 : Bool)

namespace SelectedTables

def tables : SelectedTables → SelectTables
  | one tableDesc _ => .single tableDesc
  | two table1 name1 table2 name2 join _ _ => .pair table1 name1 table2 name2 join

def wants : SelectedTables → List Bool
  | one _ getRow => [getRow]
  | two _ _ _ _ _ getRow1 getRow2 => [getRow1, getRow2]

theorem wants_length (t : SelectedTables) : t.wants.length = t.tables.tablesDesc.length := by
  cases t with
  | one tableDesc getRow => rfl
  | two table1 name1 table2 name2 join getRow1 getRow2 => rfl

end SelectedTables

structure SelectCall where
  conn : Connection
  allocator : Allocator
  tables : SelectedTables
  columnsName : CString
  filter : Option CString

namespace SelectCall

variable (c : SelectCall)

def someArray (n : ℤ) : Act (Selected RowArray) :=
  sormSelectSomeArrayBy (some c.conn) c.allocator c.tables.tables (some c.columnsName) c.filter
    (some n) c.tables.wants

def someList (n : ℤ) : Act (Selected RowList) :=
  sormSelectSomeListBy (some c.conn) c.allocator c.tables.tables (some c.columnsName) c.filter
    (some n) c.tables.wants

def allList (rounds : ℕ) (n : ℤ) : Act (Selected RowList) :=
  sormSelectAllListBy rounds (some c.conn) c.allocator c.tables.tables (some c.columnsName)
    c.filter (some n) c.tables.wants

def allArray (rounds : ℕ) (n : ℤ) : Act (Selected RowArray) :=
  match c.tables with
  | .one tableDesc getRow => sormSelectAllArrayBy rounds (some c.conn) c.allocator tableDesc
      (some c.columnsName) c.filter (some n) getRow
  | .two _ _ _ _ _ _ _ => sormSelectAllArrayByJoin rounds (some c.conn) c.allocator c.tables.tables
      (some c.columnsName) c.filter (some n) c.tables.wants

def iterate (rounds : ℕ) : Act (SormError × List (List (Option Row))) :=
  iterateSelect rounds c.conn c.allocator c.tables.tables (some c.columnsName) c.filter
    c.tables.wants

def selects (selected : List SelectColumns) : List TableSelect :=
  tableSelects c.tables.tables.tablesDesc c.tables.wants selected

end SelectCall

/-- What the caller of a select sees when its statement has these result rows. -/
def Outside.sees {ρ : Type} (o : Outside) (content : ρ → List Row) (p : Act (Selected ρ))
    (rows : List ResultRow) : Except Halt Seen :=
  (o.run p (.ofRows rows)).1.map (Selected.seen content)

/-- The rows end with `SQLITE_DONE`, and every one of them decodes for every wanted table. -/
structure NoError (o : Outside) (ts : List TableSelect) (rows : List ResultRow) : Prop where
  done : o.finish = .done
  decodes : ∀ row ∈ rows, ∀ t ∈ ts, t.wanted → (decode t row).map Prod.fst = .ok .ok

def Seen.first (n : ℕ) (seen : Seen) : Seen :=
  if n = 0 then ⟨.noexist, some 0, seen.rows.map fun _ => none⟩
  else ⟨seen.code, seen.rowsNum.map (min n), seen.rows.map (Option.map (List.take n))⟩

def Seen.rowsOf (i : ℕ) (seen : Seen) : List Row := (seen.rows[i]?.join).getD []

def iteratedRows (i : ℕ) (handed : List (List (Option Row))) : List Row :=
  handed.filterMap fun rows => rows[i]?.join

/-- All select paths return the same rows when the statement has the result rows `rows`. -/
structure SamePaths (o : Outside) (c : SelectCall) (selected : List SelectColumns)
    (rows : List ResultRow) (n : ℤ) (rounds : ℕ) : Prop where
  someRows : o.sees RowArray.content (c.someArray n) rows = o.sees RowList.content (c.someList n) rows
  firstRows : NoError o (c.selects selected) rows →
    ∃ all, o.sees RowList.content (c.allList rounds n) rows = .ok all ∧
      (all.code = .ok ∨ all.code = .noexist) ∧ all.rowsNum = some rows.length ∧
      o.sees RowList.content (c.someList n) rows = .ok (all.first n.toNat)
  allRows : o.sees RowArray.content (c.allArray rounds n) rows =
    o.sees RowList.content (c.allList rounds n) rows
  iterated : match o.sees RowList.content (c.allList rounds n) rows with
    | .error why => (o.run (c.iterate rounds) (.ofRows rows)).1 = .error why
    | .ok all => ∃ code handed, (o.run (c.iterate rounds) (.ofRows rows)).1 = .ok (code, handed) ∧
        all.code = (if code = .ok ∧ handed.length = 0 then .noexist else code) ∧
        all.rowsNum = some handed.length ∧
        (code = .ok → ∀ i, iteratedRows i handed = all.rowsOf i)
  sameRow : ∀ seen, (o.sees RowList.content (c.someList n) rows = .ok seen ∨
      o.sees RowList.content (c.allList rounds n) rows = .ok seen) → seen.code = .ok →
    ∃ k, seen.rowsNum = some k ∧ k ≤ rows.length ∧
      ∀ i t, (c.selects selected)[i]? = some t → t.wanted →
        seen.rowsOf i = (rows.take k).map (decodedRow t) ∧
        ∀ row ∈ rows.take k, ∃ r, decode t row = .ok (.ok, r) ∧ decodedRow t row = ⟨_, r⟩

section Paths

variable {ts : List TableSelect} {rows : List ResultRow} {finish : DbCode}

theorem decodeTables_ok {row : ResultRow} : decodeTables ts row = .ok .ok ↔
    ∀ t ∈ ts, t.wanted → ∃ r, decode t row = .ok (.ok, r) := by
  induction ts with
  | nil => exact ⟨fun _ t ht => (by cases ht), fun _ => rfl⟩
  | cons t ts ih =>
      rw [decodeTables, List.forall_mem_cons]
      by_cases ht : t.wanted
      · rw [if_pos ht]
        cases hd : decode t row with
        | error why =>
            refine ⟨fun h => (by cases h), fun h => ?_⟩
            obtain ⟨r, hr⟩ := h.1 ht
            cases hr
        | ok d =>
            dsimp only
            by_cases hret : d.1 = .ok
            · rw [if_pos hret, ih]
              have hself : t.wanted → ∃ r, Except.ok d = (Except.ok (SormError.ok, r) :
                  Except Halt (SormError × Object t.tableDesc)) := fun _ => ⟨d.2, by rw [← hret]⟩
              exact ⟨fun h => ⟨hself, h⟩, fun h => h.2⟩
            · rw [if_neg hret]
              refine ⟨fun h => absurd (Except.ok.inj h) hret, fun h => ?_⟩
              obtain ⟨r, hr⟩ := h.1 ht
              cases hr
              exact absurd rfl hret
      · rw [if_neg ht, ih]
        exact ⟨fun h => ⟨fun ht' => absurd ht' ht, h⟩, fun h => h.2⟩

theorem gather_decodes {limit k : ℕ} (h : gather ts finish limit rows = .ok (.ok, k)) :
    ∀ row ∈ rows.take k, decodeTables ts row = .ok .ok := by
  induction limit generalizing rows k with
  | zero =>
      cases h
      intro row hrow
      cases hrow
  | succ limit ih =>
      cases rows with
      | nil =>
          intro row hrow
          rw [List.take_nil] at hrow
          cases hrow
      | cons row rows =>
          unfold gather at h
          cases hd : decodeTables ts row with
          | error why =>
              rw [hd] at h
              cases h
          | ok ret =>
              rw [hd] at h
              dsimp only at h
              by_cases hret : ret = .ok
              · rw [if_pos hret] at h
                cases hg : gather ts finish limit rows with
                | error why =>
                    rw [hg] at h
                    cases h
                | ok g =>
                    rw [hg] at h
                    obtain ⟨code, m⟩ := g
                    cases h
                    rw [List.take_succ_cons, List.forall_mem_cons]
                    exact ⟨hret ▸ hd, ih hg⟩
              · rw [if_neg hret] at h
                cases h
                exact absurd rfl hret

theorem gather_of_noError {o : Outside} (h : NoError o ts rows) (limit : ℕ) :
    gather ts o.finish limit rows = .ok (.ok, min limit rows.length) := by
  induction limit generalizing rows with
  | zero => rw [Nat.zero_min, gather]
  | succ limit ih =>
      cases rows with
      | nil => rw [gather, if_pos h.done, List.length_nil, Nat.min_zero]
      | cons row rows =>
          have hrest : NoError o ts rows :=
            ⟨h.done, fun row' h' => h.decodes row' (List.mem_cons_of_mem _ h')⟩
          have hrow : decodeTables ts row = .ok .ok := by
            rw [decodeTables_ok]
            intro t ht hwanted
            have hfst := h.decodes row List.mem_cons_self t ht hwanted
            cases hd : decode t row with
            | error why =>
                rw [hd] at hfst
                cases hfst
            | ok d =>
                rw [hd] at hfst
                exact ⟨d.2, congrArg (fun e => Except.ok (e, d.2)) (Except.ok.inj hfst)⟩
          rw [gather, hrow, ih hrest]
          dsimp only [Except.map]
          rw [if_pos rfl, List.length_cons, Nat.succ_min_succ]

theorem checked_expected_ok (k : ℕ) : (expected ts rows (.ok, k)).checked =
    if k = 0 then ⟨.noexist, some 0, noRows ts⟩
    else ⟨.ok, some k, perTable ts fun t => (rows.take k).map (decodedRow t)⟩ := by
  by_cases hk : k = 0
  · rw [if_pos hk, hk]
    rfl
  · have hnone : ¬ ((SormError.ok : SormError) ≠ .ok ∨ k = 0) :=
      not_or.mpr ⟨not_not_intro rfl, hk⟩
    rw [if_neg hk, expected, if_neg hnone, Seen.checked, if_neg]
    exact fun h => hk (Option.some_injective _ h.2)

theorem checked_rowsNum (g : SormError × ℕ) : (expected ts rows g).checked.rowsNum = some g.2 := by
  unfold Seen.checked expected
  split
  · split <;> rfl
  · split <;> rfl

theorem checked_code (g : SormError × ℕ) : (expected ts rows g).checked.code =
    if g.1 = .ok ∧ g.2 = 0 then .noexist else g.1 := by
  have hcode : (expected ts rows g).code = g.1 := by
    unfold expected
    split <;> rfl
  have hrowsNum : (expected ts rows g).rowsNum = some g.2 := by
    unfold expected
    split <;> rfl
  simp only [Seen.checked, hcode, hrowsNum, Option.some_inj]
  split
  · rfl
  · exact hcode

theorem decodedRow_of_decode {t : TableSelect} {row : ResultRow} {code : SormError}
    {r : Object t.tableDesc} (h : decode t row = .ok (code, r)) :
    decodedRow t row = ⟨t.tableDesc, r⟩ := by
  rw [decodedRow, h]

theorem noRows_map (ts : List TableSelect) (f : Option (List Row) → Option (List Row))
    (hf : f none = none) : (noRows ts).map f = noRows ts := by
  rw [noRows, List.map_map]
  exact List.map_congr_left fun _ _ => hf

/-- With a limit, a select without error returns the first rows of what it returns without. -/
theorem first_expected (n : ℕ) :
    (expected ts rows (.ok, min n rows.length)).checked =
      (expected ts rows (.ok, rows.length)).checked.first n := by
  rw [checked_expected_ok, checked_expected_ok, Seen.first]
  by_cases hn : n = 0
  · rw [hn, Nat.zero_min, if_pos rfl, if_pos rfl]
    congr 1
    split
    · exact (noRows_map ts _ rfl).symm
    · rw [perTable, List.map_map]
      rfl
  · rw [if_neg hn]
    by_cases hrows : rows.length = 0
    · rw [hrows, Nat.min_zero, if_pos rfl]
      dsimp only
      rw [noRows_map ts _ rfl, Option.map_some, Nat.min_zero]
    · have hmin : min n rows.length ≠ 0 := by omega
      rw [if_neg hmin, if_neg hrows]
      dsimp only
      congr 1
      rw [perTable, perTable, List.map_map]
      apply List.map_congr_left
      intro t _
      rw [Function.comp_apply]
      split
      · rw [Option.map_some, List.take_length, ← List.map_take, ← List.take_take,
          List.take_length]
      · rfl

theorem iteratedRows_decoded (i k : ℕ) (code : SormError) (rowsNum : Option ℕ) :
    iteratedRows i ((rows.take k).map (decodedRows ts)) =
      Seen.rowsOf i ⟨code, rowsNum, perTable ts fun t => (rows.take k).map (decodedRow t)⟩ := by
  unfold iteratedRows Seen.rowsOf perTable decodedRows
  rw [List.filterMap_map, List.getElem?_map]
  cases ht : ts[i]? with
  | none =>
      rw [List.filterMap_eq_nil_iff.mpr]
      · rfl
      · intro row _
        rw [Function.comp_apply, List.getElem?_map, ht]
        rfl
  | some t =>
      have heach : ∀ row, (fun rows : List (Option Row) => rows[i]?.join) (ts.map fun t =>
          if t.wanted then some (decodedRow t row) else none) =
          if t.wanted then some (decodedRow t row) else none := by
        intro row
        dsimp only
        rw [List.getElem?_map, ht]
        rfl
      rw [show ((fun rows : List (Option Row) => rows[i]?.join) ∘ fun row => ts.map fun t =>
        if t.wanted then some (decodedRow t row) else none) = fun row =>
          if t.wanted then some (decodedRow t row) else none from funext heach]
      dsimp only [Option.map_some, Option.join_some]
      by_cases hwanted : t.wanted
      · simp only [if_pos hwanted, Option.getD_some]
        exact congrFun List.filterMap_eq_map _
      · simp only [if_neg hwanted, Option.getD_none]
        exact List.filterMap_eq_nil_iff.mpr fun _ _ => rfl

theorem SelectSees.sees {ρ : Type} {content : ρ → List Row} {Good : ρ → Prop}
    {gathered : Except Halt (SormError × ℕ)} {r : Except Halt (Selected ρ)}
    (h : SelectSees content Good ts rows gathered r) :
    r.map (Selected.seen content) = gathered.map fun g => (expected ts rows g).checked := by
  cases gathered with
  | error why =>
      obtain rfl : r = .error why := h
      rfl
  | ok g =>
      obtain ⟨selected, rfl, hseen, _⟩ := h
      exact congrArg Except.ok hseen

end Paths

section SamePaths

variable {o : Outside} {c : SelectCall} {selected : List SelectColumns} {rows : List ResultRow}
  {rounds : ℕ} (h : Resolved c.tables.tables c.columnsName c.filter selected)

def SelectCall.taken (c : SelectCall) (o : Outside) (selected : List SelectColumns) (limit : ℕ)
    (rows : List ResultRow) : Except Halt Seen :=
  (gather (c.selects selected) o.finish limit rows).map fun g =>
    (expected (c.selects selected) rows g).checked

include h

theorem sees_someArray {n : ℤ} (hpos : 0 ≤ n) (hle : n ≤ intMax) :
    o.sees RowArray.content (c.someArray n) rows = c.taken o selected n.toNat rows := by
  obtain ⟨r, s', hrun, hr⟩ := selectSomeArray_run (o := o) (s := .ofRows rows) h c.conn c.allocator
    c.tables.wants hpos hle rfl
  exact (congrArg (fun p => p.1.map (Selected.seen RowArray.content)) hrun).trans hr.sees

theorem sees_someList (n : ℤ) :
    o.sees RowList.content (c.someList n) rows = c.taken o selected n.toNat rows := by
  obtain ⟨r, s', hrun, hr⟩ := selectSomeList_run (o := o) (s := .ofRows rows) h c.conn c.allocator
    c.tables.wants n rfl
  exact (congrArg (fun p => p.1.map (Selected.seen RowList.content)) hrun).trans hr.sees

theorem sees_allList (n : ℤ) (hrounds : rows.length < rounds) (hle : rows.length ≤ intMax) :
    o.sees RowList.content (c.allList rounds n) rows =
      c.taken o selected (rows.length + 1) rows := by
  obtain ⟨r, s', hrun, hr⟩ := selectAllList_run (o := o) (s := .ofRows rows) h c.conn c.allocator
    c.tables.wants n rfl hrounds hle
  exact (congrArg (fun p => p.1.map (Selected.seen RowList.content)) hrun).trans hr.sees

theorem sees_allArray (n : ℤ) (hrounds : rows.length < rounds) (hle : rows.length ≤ intMax) :
    o.sees RowArray.content (c.allArray rounds n) rows =
      c.taken o selected (rows.length + 1) rows := by
  obtain ⟨conn, allocator, tables, columnsName, filter⟩ := c
  cases tables with
  | one tableDesc getRow =>
      obtain ⟨r, s', hrun, hr⟩ := selectAllArray_run (o := o) (s := .ofRows rows) h conn allocator
        getRow n rfl hrounds hle
      exact (congrArg (fun p => p.1.map (Selected.seen RowArray.content)) hrun).trans hr.sees
  | two table1 name1 table2 name2 join getRow1 getRow2 =>
      obtain ⟨r, s', hrun, hr⟩ := selectAllArrayJoin_run (o := o) (s := .ofRows rows) h conn
        allocator (SelectedTables.wants_length (.two table1 name1 table2 name2 join getRow1 getRow2))
        n rfl hrounds hle
      exact (congrArg (fun p => p.1.map (Selected.seen RowArray.content)) hrun).trans hr.sees

omit h in
/-- What is taken with `SORM_OK` is a number of result rows, each decoded for every table. -/
theorem taken_sameRow {limit : ℕ} {seen : Seen}
    (hseen : c.taken o selected limit rows = .ok seen) (hok : seen.code = .ok) :
    ∃ k, seen.rowsNum = some k ∧ k ≤ rows.length ∧
      ∀ i t, (c.selects selected)[i]? = some t → t.wanted →
        seen.rowsOf i = (rows.take k).map (decodedRow t) ∧
        ∀ row ∈ rows.take k, ∃ r, decode t row = .ok (.ok, r) ∧ decodedRow t row = ⟨_, r⟩ := by
  unfold SelectCall.taken at hseen
  cases hg : gather (c.selects selected) o.finish limit rows with
  | error why =>
      rw [hg] at hseen
      cases hseen
  | ok g =>
      rw [hg] at hseen
      obtain rfl : (expected (c.selects selected) rows g).checked = seen := Except.ok.inj hseen
      rcases checked_expected (c.selects selected) rows g with ⟨hne, _⟩ | ⟨hgok, _, hchecked⟩
      · exact absurd hok hne
      · obtain ⟨code, k⟩ := g
        obtain rfl : code = .ok := hgok
        refine ⟨k, by rw [hchecked], gather_le hg, fun i t ht hwanted => ⟨?_, fun row hrow => ?_⟩⟩
        · rw [hchecked, Seen.rowsOf, perTable, List.getElem?_map, ht, Option.map_some,
            if_pos hwanted]
          rfl
        · obtain ⟨r, hr⟩ := decodeTables_ok.mp (gather_decodes hg row hrow) t
            (List.mem_of_getElem? ht) hwanted
          exact ⟨r, hr, decodedRow_of_decode hr⟩

/-- All select paths return the same rows, for one table or two and whatever the result rows. -/
theorem selectPaths_agree {n : ℤ} (hpos : 0 ≤ n) (hle : n ≤ intMax)
    (hrows : rows.length ≤ intMax) (hrounds : rows.length < rounds) :
    SamePaths o c selected rows n rounds := by
  have hsome : o.sees RowList.content (c.someList n) rows = c.taken o selected n.toNat rows :=
    sees_someList h n
  have hall := sees_allList (o := o) h n hrounds hrows
  constructor
  · rw [sees_someArray h hpos hle, hsome]
  · intro hclean
    rw [hall, hsome, SelectCall.taken, SelectCall.taken, gather_of_noError hclean,
      gather_of_noError hclean, min_eq_right (Nat.le_succ _)]
    refine ⟨(expected (c.selects selected) rows (.ok, rows.length)).checked, rfl, ?_, ?_, ?_⟩
    · rw [checked_expected_ok]
      split
      · exact Or.inr rfl
      · exact Or.inl rfl
    · rw [checked_expected_ok]
      split
      · next hzero => exact congrArg some hzero.symm
      · rfl
    · exact congrArg Except.ok (first_expected n.toNat)
  · rw [sees_allArray h n hrounds hrows, hall]
  · rw [hall, SelectCall.taken]
    have hiterate := iterateSelect_run (o := o) (s := .ofRows rows) h c.conn c.allocator
      c.tables.wants hrounds
    change (o.run (c.iterate rounds) (.ofRows rows)).1 = (gather (c.selects selected) o.finish
      (rows.length + 1) rows).map fun g => (g.1, (rows.take g.2).map
        (decodedRows (c.selects selected))) at hiterate
    cases hg : gather (c.selects selected) o.finish (rows.length + 1) rows with
    | error why =>
        rw [hg] at hiterate
        exact hiterate
    | ok g =>
        rw [hg] at hiterate
        have hlength : ((rows.take g.2).map (decodedRows (c.selects selected))).length = g.2 := by
          have htaken := gather_le hg
          rw [List.length_map, List.length_take]
          omega
        refine ⟨g.1, (rows.take g.2).map (decodedRows (c.selects selected)), hiterate, ?_, ?_, ?_⟩
        · rw [checked_code, hlength]
        · rw [checked_rowsNum, hlength]
        · intro hok i
          obtain ⟨code, k⟩ := g
          obtain rfl : code = .ok := hok
          dsimp only
          rw [checked_expected_ok]
          split
          · next hk =>
            subst hk
            rw [Seen.rowsOf, noRows, List.getElem?_map]
            cases (c.selects selected)[i]? with
            | none => rfl
            | some t => rfl
          · exact iteratedRows_decoded i k .ok (some k)
  · rintro seen (hseen | hseen) hok
    · exact taken_sameRow (hsome.symm.trans hseen) hok
    · exact taken_sameRow (hall.symm.trans hseen) hok

omit h in
/-- Two result rows of a join, of which one is asked for. -/
theorem selectPaths_agree_join :
    SamePaths ⟨.done, by decide, 0, .ok, id, textPointer ⟨[], by decide⟩, 0⟩
      ⟨⟨0, 0, 0⟩, .libc, .two deviceTable "id".toList volumeTable "device_id".toList .leftJoin
        true true, ⟨"device.name,volume.id".toList, by decide⟩, none⟩
      [⟨1, [none, some 0]⟩, ⟨1, [some 1, none]⟩]
      [fun _ => { Cell.null with columnClass := .text, text := some ⟨"a".toList, by decide⟩ },
        fun _ => .null] 1 3 := by
  apply selectPaths_agree _ (by decide) (by decide) (by decide) (by decide)
  constructor
  · rfl
  · exact ⟨_, rfl⟩
  · decide
  · exact ⟨_, List.mem_cons_self, by decide⟩
  · decide
  · decide
  · intro table htable
    have hsize : table.size = 96 := by
      simp only [SelectedTables.tables, SelectTables.pair, List.mem_cons, List.not_mem_nil,
        or_false] at htable
      rcases htable with rfl | rfl
      · rfl
      · rfl
    rw [TableDescriptor.Sized, hsize]
    decide

end SamePaths

end Sorm
