import Sorm.SelectAnswers
import Sorm.SelectRequests

/-!
# The outputs of a select

Whether a select that fails leaves its row outputs NULL, and one that does not fills them with the
rows it counts, is told by its arguments and by what SQLite answers. The rows are handed out before
the statement is finalized, and nothing takes them back when that fails.
-/

namespace Sorm

open Interaction Monitor

structure Answered {ρ : Type} (Full : ℕ → ρ → Prop) (room : Prop) (B : ℕ → Prop)
    (ts : List TableSelect) (selected : Selected ρ) (a : SelectAnswers) : Prop where
  code : selected.code = .ok ↔ a.Delivers room ∧ a.finalized = some .ok
  rows : a.Delivers room → B a.rows ∧ selected.rowsNum = some a.rows ∧
    List.Forall₂ (fun c t => if t.wanted then ∃ c', c = some c' ∧ Full a.rows c' else c = none)
      selected.rowsOfTables ts
  nothing : ¬ a.Delivers room → ∀ c ∈ selected.rowsOfTables, c = none

def selectedTables (columnsName : Option CString) (tables : SelectTables) (wants : List Bool) :
    List TableSelect :=
  match columnsName.map (columnsNameToSelectColumns tables.tablesDesc) with
  | some (.ok r) => tableSelects tables.tablesDesc wants r.2
  | _ => []

section Select

variable {ρ : Type} {ts : List TableSelect} {P : SelectAnswers → Prop}

theorem answers_selectReturn (indexes : List Address) (maps : Address) (selected : Selected ρ) :
    Triple (answersMonitor (refuses ts)) P (selectReturn indexes maps selected) fun s a => P a ∧
      (s.code = .ok ↔ selected.code = .ok ∧ selected.rowsNum ≠ some 0) ∧
      s.rowsNum = selected.rowsNum ∧ s.rowsOfTables = selected.rowsOfTables := by
  apply Triple.bind (keeps_freeAll answers_isLocal .libc indexes)
  intro _
  apply Triple.bind (keeps_free answers_isLocal .libc (some maps))
  intro _
  have hnoexist : SormError.noexist ≠ .ok := by decide
  split
  · next hnone =>
    refine Triple.pure fun a ha => ⟨ha, ⟨fun hok => absurd hok hnoexist, fun hok => ?_⟩, rfl, rfl⟩
    exact absurd hnone.2 hok.2
  · next hsome =>
    refine Triple.pure fun a ha => ⟨ha, ⟨fun hok => ⟨hok, fun hnum => ?_⟩, And.left⟩, rfl, rfl⟩
    exact hsome ⟨hok, hnum⟩

def GivenUp (selected : Selected ρ) (a : SelectAnswers) : Prop :=
  a.rows = 0 ∧ selected.code ≠ .ok ∧ ∀ c ∈ selected.rowsOfTables, c = none

variable {columnsName filter : Option CString} {tables : SelectTables} {wants : List Bool}
  {rowsNum : Option ℤ}

/-- Up to its core `_select` takes no step. -/
theorem answers_selectOpening (conn : Option Connection) :
    Triple (answersMonitor (refuses ts)) (· = .start)
      (selectOpening (ρ := ρ) conn columnsName tables wants filter rowsNum) fun r a =>
        match r with
        | .inl selected => GivenUp selected a
        | .inr loop => a = .start ∧ rowsNum = some loop.maxRowsNum ∧
            loop.tables = selectedTables columnsName tables wants ∧ Separate loop.tables := by
  have hnone : ∀ c ∈ tables.tablesDesc.map fun _ => (none : Option ρ), c = none := by
    intro c hc
    obtain ⟨_, _, rfl⟩ := List.mem_map.mp hc
    rfl
  have hrefused : ∀ (code : SormError) (n : Option ℕ), code ≠ .ok →
      Triple (answersMonitor (refuses ts)) (fun a => a.rows = 0) (Pure.pure (.inl ⟨code, n,
        tables.tablesDesc.map fun _ => none⟩) : Act (Selected ρ ⊕ RowLoop)) fun r a =>
        match r with
        | .inl selected => GivenUp selected a
        | .inr loop => a = .start ∧ rowsNum = some loop.maxRowsNum ∧
            loop.tables = selectedTables columnsName tables wants ∧ Separate loop.tables :=
    fun code n hcode => Triple.pure fun a ha => ⟨ha, hcode, hnone⟩
  have hstart : ∀ a, a = SelectAnswers.start → a.rows = 0 := by
    rintro a rfl
    rfl
  unfold selectOpening
  cases conn with
  | none => exact (hrefused .argNull none SormError.noConfusion).mono hstart fun _ _ h => h
  | some conn =>
  cases hargs : checkSelectArgs columnsName none with
  | error e => exact (hrefused e none (checkSelectArgs_ne_ok hargs)).mono hstart fun _ _ h => h
  | ok columns' =>
  cases rowsNum with
  | none => exact (hrefused .argNull none SormError.noConfusion).mono hstart fun _ _ h => h
  | some n =>
  cases hargs : checkSelectArgs columnsName filter with
  | error e => exact (hrefused e none (checkSelectArgs_ne_ok hargs)).mono hstart fun _ _ h => h
  | ok columns =>
  have hcolumns := checkSelectArgs_ok hargs
  apply Triple.bind (keeps_malloc answers_isLocal .libc _)
  intro maps
  cases maps with
  | none => exact (hrefused .nomem none SormError.noConfusion).mono hstart fun _ _ h => h
  | some maps =>
  apply Triple.bind (keeps_newIndexes answers_isLocal tables.tablesDesc)
  rintro ⟨ok, indexes⟩
  have hfail : ∀ (code : SormError) (m : Option ℕ), code ≠ .ok ∨ m = some 0 →
      Triple (answersMonitor (refuses ts)) (fun a => a.rows = 0) (do
        let selected ← selectReturn indexes maps
          ⟨code, m, tables.tablesDesc.map fun _ => (none : Option ρ)⟩
        return .inl selected : Act (Selected ρ ⊕ RowLoop)) fun r a =>
        match r with
        | .inl selected => GivenUp selected a
        | .inr loop => a = .start ∧ some n = some loop.maxRowsNum ∧
            loop.tables = selectedTables columnsName tables wants ∧ Separate loop.tables := by
    intro code m hcode
    apply Triple.bind (answers_selectReturn indexes maps _)
    intro selected
    refine Triple.pure ?_
    rintro a ⟨ha, hok, -, hrows⟩
    refine ⟨ha, fun h => ?_, fun c hc => ?_⟩
    · obtain ⟨hok, hnum⟩ := hok.mp h
      exact hcode.elim (fun hne => hne hok) hnum
    · rw [hrows] at hc
      exact hnone c hc
  cases ok with
  | false => exact (hfail .nomem none (Or.inl SormError.noConfusion)).mono hstart fun _ _ h => h
  | true =>
  simp only [if_true]
  cases tables.stmt columns.chars (filter.map CString.chars) with
  | error e =>
      apply Triple.bind (keeps_fail e.1)
      exact fun ret => (hfail ret (some 0) (Or.inr rfl)).mono hstart fun _ _ h => h
  | ok b =>
      have hprepare : ∀ P : SelectAnswers → Prop,
          Keeps (answersMonitor (refuses ts)) P (sqlite3Prepare b.text) :=
        fun P => Keeps.retry _ (answers_silent rfl)
      apply Triple.bind (hprepare _)
      rintro ⟨ret, h⟩
      by_cases hret : ret = .ok
      · simp only [hret, ne_eq, not_true_eq_false, if_false]
        have hparse : Triple (answersMonitor (refuses ts)) (· = .start)
            (parseColumnsName tables.tablesDesc columns) fun r a =>
              columnsNameToSelectColumns tables.tablesDesc columns = .ok r ∧ a = .start := by
          apply Triple.bind (keeps_strdup answers_isLocal .libc (some columns))
          intro copy
          have hof : Triple (answersMonitor (refuses ts)) (· = .start)
              (Prog.ofExcept (columnsNameToSelectColumns tables.tablesDesc columns)) fun r a =>
              columnsNameToSelectColumns tables.tablesDesc columns = .ok r ∧ a = .start :=
            Triple.ofExcept fun r a hr ha => ⟨hr, ha⟩
          apply Triple.bind hof
          intro r
          exact Triple.bind (keeps_free answers_isLocal _ _) fun _ => Triple.pure fun a ha => ha
        apply Triple.bind hparse
        rintro ⟨ret, selectColumns⟩ a ⟨hselected, ha⟩
        obtain rfl := columnsNameToSelectColumns_code hselected
        simp only [not_true_eq_false, if_false]
        have hts : selectedTables columnsName tables wants =
            tableSelects tables.tablesDesc wants selectColumns := by
          rw [selectedTables, hcolumns, Option.map_some, hselected]
        obtain ⟨refs, hmaps⟩ := columnsNameToSelectColumns_represents hselected
        exact ⟨ha, rfl, hts.symm, hmaps.separate wants⟩
      · simp only [hret, ne_eq, not_false_eq_true, if_true]
        exact (hfail .dbError (some 0) (Or.inr rfl)).mono hstart fun _ _ h => h

theorem answers_select {selectCore : SelectCore ρ} {Full : ℕ → ρ → Prop} {room : Prop}
    {B : ℕ → Prop} {conn : Option Connection} {allocator : Allocator}
    (hts : ts = selectedTables columnsName tables wants)
    (hcore : Separate ts → ∀ conn h n, rowsNum = some n →
      Triple (answersMonitor (refuses ts)) (· = .start) (selectCore conn allocator h ts n)
        fun selected a => Delivered Full room ts selected a ∧ ∀ n ∈ selected.rowsNum, B n) :
    Triple (answersMonitor (refuses ts)) (· = .start)
      (select selectCore conn allocator columnsName tables wants filter rowsNum)
      (Answered Full room B ts) := by
  rw [select_eq]
  apply Triple.bind (answers_selectOpening conn)
  intro r
  cases r with
  | inl selected =>
      rintro a ⟨hrows, hcode, hnone⟩
      have hnot : ¬ a.Delivers room := fun hdel => hdel.1 hrows
      exact ⟨⟨fun hok => absurd hok hcode, fun h => absurd h.1 hnot⟩, fun h => absurd h hnot,
        fun _ => hnone⟩
  | inr loop =>
      rintro a ⟨ha, hnum, htables, hseparate⟩
      have heq : loop.tables = ts := htables.trans hts.symm
      rw [heq] at hseparate
      dsimp only [selectRest]
      rw [heq]
      refine (Triple.bind (hcore hseparate loop.conn loop.stmtHandle loop.maxRowsNum hnum) ?_) a ha
      rintro selected a ⟨hdelivered, hbound⟩
      refine (Triple.bind (answers_dbFinalize loop.stmtHandle selected.code) ?_) a rfl
      rintro code a' ⟨ret, rfl, rfl⟩
      have hdelivers : ({ a with finalized := some ret } : SelectAnswers).Delivers room ↔
          a.Delivers room := Iff.rfl
      refine ((answers_selectReturn (P := (· = { a with finalized := some ret })) loop.indexes
        loop.maps _).post ?_) _ rfl
      rintro selected' a' ⟨rfl, hcode, hnum', hrows⟩
      dsimp only at hcode hnum' hrows
      refine ⟨?_, fun hdel => ?_, fun hdel => ?_⟩
      · rw [hcode, hdelivers, ← hdelivered.code, Option.some_inj]
        by_cases hret : ret = .ok
        · simp [hret]
        · rw [if_neg hret]
          exact ⟨fun h => absurd h.1 SormError.noConfusion, fun h => absurd h.2 hret⟩
      · obtain ⟨hnum, hfull⟩ := hdelivered.rows (hdelivers.mp hdel)
        rw [hnum', hrows]
        exact ⟨hbound _ hnum, hnum, hfull⟩
      · rw [hrows]
        exact hdelivered.nothing fun h => hdel (hdelivers.mpr h)

end Select

inductive Output
  | array (rows : RowArray)
  | list (rows : RowList)

def Output.Full (n : ℕ) : Output → Prop
  | array rows => rows.Full n
  | list rows => rows.Full n

/-- What a select function leaves in a row output. -/
inductive Left
  | untouched
  | null
  | rows (output : Output)

def Left.ofRows {ρ : Type} (f : ρ → Output) : Option ρ → Left
  | none => null
  | some c => rows (f c)

structure Outputs where
  code : SormError
  rowsNum : Option ℕ
  output : ℕ → Left

def Outputs.ofSelected {ρ : Type} (f : ρ → Output) (selected : Selected ρ) : Outputs :=
  ⟨selected.code, selected.rowsNum, fun i => .ofRows f selected.rowsOfTables[i]?.join⟩

@[simp] theorem Outputs.ofSelected_output {ρ : Type} (f : ρ → Output) (selected : Selected ρ)
    (i : ℕ) : (ofSelected f selected).output i = .ofRows f selected.rowsOfTables[i]?.join := rfl

/-- A call of a select function that returns arrays or lists, for one table or two. -/
inductive RowsCall
  | someArray (q : SelectRequest) (rowsNum : Option ℤ)
  | someList (q : SelectRequest) (rowsNum : Option ℤ)
  | allArray (rounds : ℕ) (q : SelectRequest) (rowsNum : Option ℤ)
  | allList (rounds : ℕ) (q : SelectRequest) (rowsNum : Option ℤ)
  | oneByColumn (conn : Option Connection) (allocator : Allocator) (tableDesc : TableDescriptor)
      (columnsName : Option CString) (columnIndex : ℕ) (columnValue : Option Pointer)
      (getRow : Bool)

def SelectRequest.selects (q : SelectRequest) : List TableSelect :=
  selectedTables q.columnsName q.tables.tables q.tables.wants

def SelectRequest.allArray (q : SelectRequest) (rounds : ℕ) (rowsNum : Option ℤ) :
    Act (Selected RowArray) :=
  match q.tables with
  | .one tableDesc getRow => sormSelectAllArrayBy rounds q.conn q.allocator tableDesc q.columnsName
      q.filter rowsNum getRow
  | .two _ _ _ _ _ _ _ => sormSelectAllArrayByJoin rounds q.conn q.allocator q.tables.tables
      q.columnsName q.filter rowsNum q.tables.wants

namespace RowsCall

def run : RowsCall → Act Outputs
  | someArray q rowsNum => do
      let selected ← sormSelectSomeArrayBy q.conn q.allocator q.tables.tables q.columnsName q.filter
        rowsNum q.tables.wants
      return .ofSelected .array selected
  | someList q rowsNum => do
      let selected ← sormSelectSomeListBy q.conn q.allocator q.tables.tables q.columnsName q.filter
        rowsNum q.tables.wants
      return .ofSelected .list selected
  | allArray rounds q rowsNum => do
      let selected ← q.allArray rounds rowsNum
      return .ofSelected .array selected
  | allList rounds q rowsNum => do
      let selected ← sormSelectAllListBy rounds q.conn q.allocator q.tables.tables q.columnsName
        q.filter rowsNum q.tables.wants
      return .ofSelected .list selected
  | oneByColumn conn allocator tableDesc columnsName columnIndex columnValue getRow => do
      let (code, row) ← sormSelectOneByColumn conn allocator tableDesc columnsName columnIndex
        columnValue getRow
      return ⟨code, none, fun _ => (row.map (Left.ofRows .array)).getD .untouched⟩

def request : RowsCall → SelectRequest
  | someArray q _ | someList q _ | allArray _ q _ | allList _ q _ => q
  | oneByColumn conn allocator tableDesc columnsName _ _ getRow =>
      ⟨conn, allocator, .one tableDesc getRow, columnsName, none⟩

def Counts (c : RowsCall) (r : Outputs) (n : ℕ) : Prop :=
  match c with
  | oneByColumn .. => n = 1
  | _ => r.rowsNum = some n

end RowsCall

/-- On an error every row output is NULL, otherwise every wanted table has as many rows as are
counted, and that is one at least. -/
structure Honest (wants : List Bool) (ts : List TableSelect) (Counts : ℕ → Prop) (r : Outputs) :
    Prop where
  failed : r.code ≠ .ok → ∀ i, wants[i]? = some true → r.output i = .null
  rows : r.code = .ok → ∃ n, 1 ≤ n ∧ Counts n ∧
    ∀ i t, ts[i]? = some t → t.wanted → ∃ output, r.output i = .rows output ∧ output.Full n

def RowsCall.Honest (c : RowsCall) (r : Outputs) : Prop :=
  Sorm.Honest c.request.tables.wants c.request.selects (c.Counts r) r

def SelectRequest.told (q : SelectRequest) (tr : List SormEvent) : SelectAnswers :=
  answers (refuses q.selects) tr

/-- Rows were handed out, and then the statement could not be finalized. -/
def Undone (room : Prop) (ts : List TableSelect) (a : SelectAnswers) : Prop :=
  a.Delivers room ∧ (∃ t ∈ ts, t.wanted) ∧ a.finalized ≠ some .ok

def TableSelect.HoldsRows (t : TableSelect) (n : ℕ) : Prop := mulSizeT t.tableDesc.size n ≠ 0

def Fits (n : ℕ) (ts : List TableSelect) : Prop := ∀ t ∈ ts, t.wanted → t.HoldsRows n

def Halfway (ts : List TableSelect) (a : SelectAnswers) : Prop :=
  a.Delivers (Roomy ts) ∧ a.finalized = some .ok ∧ ¬ Fits a.rows ts ∧
    ∃ i t, ts[i]? = some t ∧ t.wanted ∧ Fits a.rows (ts.take (i + 1))

def NoFilter (tableDesc : TableDescriptor) (columnIndex : ℕ) (columnValue : Option Pointer) : Prop :=
  ∀ column ∈ tableDesc.columns[columnIndex]?, ∀ value ∈ columnValue, ∀ filter,
    constructColumnFilter column value ≠ .ok (.ok, filter)

/-- The answers after which the outputs of a call are wrong. -/
def RowsCall.Fails (c : RowsCall) (a : SelectAnswers) : Prop :=
  let ts := c.request.selects
  match c with
  | someArray .. => Undone True ts a
  | someList .. | allList .. => Undone (Roomy ts) ts a
  | allArray .. => Halfway ts a
  | oneByColumn _ _ tableDesc _ columnIndex columnValue getRow =>
      getRow ∧ NoFilter tableDesc columnIndex columnValue ∨ Undone True ts a

section Honesty

variable {ρ : Type} {ts : List TableSelect} {Full : ℕ → ρ → Prop} {room : Prop} {B : ℕ → Prop}
  {selected : Selected ρ} {a : SelectAnswers} {wants : List Bool}

theorem forall₂_getElem? {α β : Type} {R : α → β → Prop} {l : List α} {l' : List β} {i : ℕ} {b : β}
    (h : List.Forall₂ R l l') (hb : l'[i]? = some b) : ∃ a, l[i]? = some a ∧ R a b := by
  induction h generalizing i with
  | nil => cases hb
  | @cons a' b' l l' hab _ ih =>
      cases i with
      | zero =>
          cases hb
          exact ⟨a', rfl, hab⟩
      | succ i => exact ih hb

theorem ofRows_null {f : ρ → Output} {rowsOfTables : List (Option ρ)}
    (h : ∀ c ∈ rowsOfTables, c = none) (i : ℕ) : Left.ofRows f rowsOfTables[i]?.join = .null := by
  cases hi : rowsOfTables[i]? with
  | none => rfl
  | some c =>
      rw [h c (List.mem_of_getElem? hi)]
      rfl

theorem selectedTables_wants {columnsName : Option CString} {tables : SelectTables} {i : ℕ}
    {t : TableSelect} (h : (selectedTables columnsName tables wants)[i]? = some t) :
    wants[i]? = some t.isTableSelect := by
  unfold selectedTables at h
  split at h
  · exact (tableSelects_getElem? h).2.1
  · cases h

/-- What `_select` leaves is wrong exactly when its rows are handed out for nothing. -/
theorem Answered.honest_iff (h : Answered Full room B ts selected a)
    (hwants : ∀ (i : ℕ) (t : TableSelect), ts[i]? = some t → wants[i]? = some t.isTableSelect)
    (f : ρ → Output) (hf : ∀ n c, Full n c → (f c).Full n) (Counts : ℕ → Prop)
    (hcounts : ∀ n, B n → selected.rowsNum = some n → n ≠ 0 → Counts n) :
    Honest wants ts Counts (.ofSelected f selected) ↔ ¬ Undone room ts a := by
  constructor
  · rintro hhonest ⟨hdel, ⟨t, ht, hw⟩, hfinalized⟩
    obtain ⟨-, -, hfull⟩ := h.rows hdel
    obtain ⟨i, hi⟩ := List.mem_iff_getElem?.mp ht
    obtain ⟨c, hc, hrows⟩ := forall₂_getElem? hfull hi
    rw [if_pos hw] at hrows
    obtain ⟨c, rfl, -⟩ := hrows
    have hcode : selected.code ≠ .ok := fun hok => hfinalized (h.code.mp hok).2
    have hwant : wants[i]? = some true := by
      rw [hwants i t hi, (Bool.and_eq_true_iff.mp hw).2]
    have hnull := hhonest.failed hcode i hwant
    rw [Outputs.ofSelected_output, hc] at hnull
    cases hnull
  · intro hnot
    constructor
    · intro hcode i hi
      by_cases hdel : a.Delivers room
      · obtain ⟨-, -, hfull⟩ := h.rows hdel
        have hfinalized : a.finalized ≠ some .ok := fun hok => hcode (h.code.mpr ⟨hdel, hok⟩)
        have hunwanted : ∀ t ∈ ts, ¬ t.wanted := fun t ht hw => hnot ⟨hdel, ⟨t, ht, hw⟩, hfinalized⟩
        apply ofRows_null
        intro c hc
        obtain ⟨j, hj⟩ := List.mem_iff_getElem?.mp hc
        obtain ⟨t, ht, hrows⟩ := forall₂_getElem? hfull.flip hj
        have hrow : if t.wanted then ∃ c', c = some c' ∧ Full a.rows c' else c = none := hrows
        rw [if_neg (hunwanted t (List.mem_of_getElem? ht))] at hrow
        exact hrow
      · exact ofRows_null (h.nothing hdel) i
    · intro hcode
      obtain ⟨hdel, -⟩ := h.code.mp hcode
      obtain ⟨hbound, hnum, hfull⟩ := h.rows hdel
      refine ⟨a.rows, Nat.one_le_iff_ne_zero.mpr hdel.1, hcounts _ hbound hnum hdel.1, ?_⟩
      intro i t hi hw
      obtain ⟨c, hc, hrows⟩ := forall₂_getElem? hfull hi
      rw [if_pos hw] at hrows
      obtain ⟨c, rfl, hfull⟩ := hrows
      refine ⟨f c, ?_, hf _ _ hfull⟩
      rw [Outputs.ofSelected_output, hc]
      rfl

theorem selectedTables_desc {columnsName : Option CString} {tables : SelectTables} {i : ℕ}
    {t : TableSelect} (h : (selectedTables columnsName tables wants)[i]? = some t) :
    tables.tablesDesc[i]? = some t.tableDesc := by
  unfold selectedTables at h
  split at h
  · exact (tableSelects_getElem? h).1
  · cases h

variable {P : SelectAnswers → Prop} (allocator : Allocator)

theorem answers_listCpyFree (list : RowList) (n : ℕ) :
    Triple (answersMonitor (refuses ts)) P (listCpyFree allocator list n) fun rows a => P a ∧
      rows = list.entries.filterMap fun entry => entry.data.map Prod.snd := by
  have hentries : ∀ entries, Triple (answersMonitor (refuses ts)) P
      (listCpyFreeEntries allocator entries) fun rows a => P a ∧
        rows = entries.filterMap fun entry => entry.data.map Prod.snd := by
    intro entries
    induction entries with
    | nil => exact Triple.pure fun a ha => ⟨ha, rfl⟩
    | cons entry entries ih =>
        apply Triple.bind (keeps_free answers_isLocal allocator _)
        intro _
        apply Triple.bind (keeps_free answers_isLocal allocator _)
        intro _
        apply Triple.bind ih
        intro rows
        refine Triple.pure fun a ha => ⟨ha.1, ?_⟩
        rw [ha.2, List.filterMap_cons]
        cases entry.data with
        | none => rfl
        | some data => rfl
  apply Triple.bind (hentries list.entries)
  intro rows
  split
  · exact Triple.bind (keeps_free answers_isLocal allocator _) fun _ => Triple.pure fun a ha => ha
  · exact Triple.stop

theorem RowList.Full.length_rows {list : RowList} {n : ℕ} (h : list.Full n) :
    (list.entries.filterMap fun entry => entry.data.map Prod.snd).length = n := by
  rw [List.filterMap_length_eq_length.mpr]
  · exact h.1
  · intro entry hentry
    rw [Option.isSome_map]
    exact h.2 entry hentry

theorem answers_sormNewArray (tableDesc : TableDescriptor) {n : ℕ} (hn : n ≠ 0) :
    Triple (answersMonitor (refuses ts)) P (sormNewArray allocator tableDesc n) fun block a =>
      P a ∧ (block.isSome ↔ mulSizeT tableDesc.size n ≠ 0) := by
  unfold sormNewArray
  rw [if_neg (by exact_mod_cast hn)]
  exact triple_malloc answers_isLocal allocator _

structure Converted (n : ℕ) (ts : List TableSelect) (r : Bool × List (Option RowArray)) : Prop where
  ok : r.1 = true ↔ Fits n ts
  length : r.2.length = ts.length
  stored : ∀ (i : ℕ) (t : TableSelect), ts[i]? = some t → t.wanted → Fits n (ts.take (i + 1)) →
    ∃ array, r.2[i]? = some (some array) ∧ array.Full n
  null : ∀ (i : ℕ) (t : TableSelect), ts[i]? = some t →
    (t.wanted → ¬ Fits n (ts.take (i + 1))) → r.2[i]? = some none

theorem fits_cons {n : ℕ} {t : TableSelect} : Fits n (t :: ts) ↔
    (t.wanted → t.HoldsRows n) ∧ Fits n ts := List.forall_mem_cons

theorem Converted.unwanted {n : ℕ} {t : TableSelect} {r : Bool × List (Option RowArray)}
    (h : Converted n ts r) (hw : ¬ t.wanted) : Converted n (t :: ts) (r.1, none :: r.2) := by
  have hfits : ∀ ts', Fits n (t :: ts') ↔ Fits n ts' := by
    intro ts'
    rw [fits_cons]
    exact and_iff_right fun h => absurd h hw
  refine ⟨h.ok.trans (hfits ts).symm, by simp [h.length], ?_, ?_⟩
  · intro i t' hi hw' hall
    cases i with
    | zero =>
        cases hi
        exact absurd hw' hw
    | succ i =>
        rw [List.take_succ_cons, hfits] at hall
        exact h.stored i t' hi hw' hall
  · intro i t' hi hnot
    cases i with
    | zero => rfl
    | succ i =>
        rw [List.take_succ_cons, hfits] at hnot
        exact h.null i t' hi hnot

theorem Converted.wanted {n : ℕ} {t : TableSelect} {r : Bool × List (Option RowArray)}
    (h : Converted n ts r) (hw : t.wanted) (hrows : t.HoldsRows n) {array : RowArray}
    (hfull : array.Full n) : Converted n (t :: ts) (r.1, some array :: r.2) := by
  have hfits : ∀ ts', Fits n (t :: ts') ↔ Fits n ts' := by
    intro ts'
    rw [fits_cons]
    exact and_iff_right fun _ => hrows
  refine ⟨h.ok.trans (hfits ts).symm, by simp [h.length], ?_, ?_⟩
  · intro i t' hi hw' hall
    cases i with
    | zero => exact ⟨array, rfl, hfull⟩
    | succ i =>
        rw [List.take_succ_cons, hfits] at hall
        exact h.stored i t' hi hw' hall
  · intro i t' hi hnot
    cases i with
    | zero =>
        cases hi
        refine absurd ?_ (hnot hw)
        rw [List.take_succ_cons, hfits, List.take_zero]
        exact fun t ht => absurd ht List.not_mem_nil
    | succ i =>
        rw [List.take_succ_cons, hfits] at hnot
        exact h.null i t' hi hnot

theorem converted_stopped {n : ℕ} {t : TableSelect} (hw : t.wanted) (hrows : ¬ t.HoldsRows n)
    {rest : List (Option RowArray)} (hrest : rest = ts.map fun _ => none) :
    Converted n (t :: ts) (false, none :: rest) := by
  subst hrest
  have hfits : ∀ ts', ¬ Fits n (t :: ts') := fun ts' h => hrows ((fits_cons.mp h).1 hw)
  refine ⟨⟨fun h => absurd h Bool.false_ne_true, fun h => absurd h (hfits ts)⟩, by simp, ?_, ?_⟩
  · intro i t' hi hw' hall
    rw [List.take_succ_cons] at hall
    exact absurd hall (hfits _)
  · intro i t' hi hnot
    cases i with
    | zero => rfl
    | succ i =>
        rw [List.getElem?_cons_succ] at hi ⊢
        rw [List.getElem?_map, hi]
        rfl

theorem answers_listsToArrays {n : ℕ} (hn : n ≠ 0) {cs : List (TableDescriptor × Option RowList)}
    {ts' : List TableSelect} (hcs : List.Forall₂ (fun c t => c.1 = t.tableDesc ∧
      if t.wanted then ∃ list, c.2 = some list ∧ list.Full n else c.2 = none) cs ts') :
    Triple (answersMonitor (refuses ts)) P (listsToArrays allocator n cs) fun r a =>
      P a ∧ Converted n ts' r := by
  induction hcs with
  | nil =>
      refine Triple.pure fun a ha => ⟨ha, ?_⟩
      refine ⟨⟨fun _ t ht => absurd ht List.not_mem_nil, fun _ => rfl⟩, rfl, ?_, ?_⟩
      · intro i t hi
        cases hi
      · intro i t hi
        cases hi
  | @cons c t cs ts' hc hcs ih =>
      obtain ⟨tableDesc, list⟩ := c
      obtain ⟨rfl, hlist⟩ := hc
      by_cases hw : t.wanted
      · rw [if_pos hw] at hlist
        obtain ⟨list, rfl, hfull⟩ := hlist
        unfold listsToArrays
        apply Triple.bind (answers_sormNewArray allocator t.tableDesc hn)
        rintro block a ⟨ha, hblock⟩
        cases block with
        | none =>
            have hnone : ¬ t.HoldsRows n := fun hrows => absurd (hblock.mpr hrows) (by simp)
            refine ⟨ha, converted_stopped hw hnone ?_⟩
            rw [List.map_const', List.map_const', hcs.length_eq]
        | some block =>
            have hrows : t.HoldsRows n := hblock.mp rfl
            refine (Triple.bind (answers_listCpyFree (P := P) allocator list n) ?_) a ha
            rintro rows a ⟨ha, rfl⟩
            refine (Triple.bind ih ?_) a ha
            rintro ⟨ok, rest⟩
            exact Triple.pure fun a hrest => ⟨hrest.1, hrest.2.wanted hw hrows hfull.length_rows⟩
      · rw [if_neg hw] at hlist
        dsimp only at hlist
        subst hlist
        unfold listsToArrays
        apply Triple.bind ih
        rintro ⟨ok, rest⟩
        exact Triple.pure fun a hrest => ⟨hrest.1, hrest.2.unwanted hw⟩

variable {columnsName filter : Option CString} {tables : SelectTables} {rowsNum : Option ℤ}
  {conn : Option Connection}

theorem answers_someArray (hts : ts = selectedTables columnsName tables wants) :
    Triple (answersMonitor (refuses ts)) (· = .start)
      (sormSelectSomeArrayBy conn allocator tables columnsName filter rowsNum wants)
      (Answered RowArray.Full True (fun n => ∀ limit ∈ rowsNum, n ≤ limit.toNat) ts) := by
  apply answers_select hts
  intro hs conn h limit hlimit
  refine (answers_selectSomeArrayCore conn allocator h hs limit).post ?_
  rintro selected a ⟨hdelivered, hle⟩
  refine ⟨hdelivered, fun n hn limit' hlimit' => ?_⟩
  rw [hlimit] at hlimit'
  cases hlimit'
  exact hle n hn

theorem answers_someList (hts : ts = selectedTables columnsName tables wants) :
    Triple (answersMonitor (refuses ts)) (· = .start)
      (sormSelectSomeListBy conn allocator tables columnsName filter rowsNum wants)
      (Answered RowList.Full (Roomy ts) (fun _ => True) ts) := by
  apply answers_select hts
  intro hs conn h limit hlimit
  exact (answers_selectSomeListCore conn allocator h hs limit).post
    fun selected a hdelivered => ⟨hdelivered, fun _ _ => trivial⟩

theorem answers_allList (rounds : ℕ) (hts : ts = selectedTables columnsName tables wants) :
    Triple (answersMonitor (refuses ts)) (· = .start)
      (sormSelectAllListBy rounds conn allocator tables columnsName filter rowsNum wants)
      (Answered RowList.Full (Roomy ts) (fun _ => True) ts) := by
  apply answers_select hts
  intro hs conn h limit hlimit
  exact (answers_selectAllListCore conn allocator h hs rounds limit).post
    fun selected a hdelivered => ⟨hdelivered, fun _ _ => trivial⟩

theorem honest_null {Counts : ℕ → Prop} {r : Outputs} (hcode : r.code ≠ .ok)
    (hnull : ∀ i, r.output i = .null) : Honest wants ts Counts r :=
  ⟨fun _ i _ => hnull i, fun hok => absurd hok hcode⟩

theorem output_none {f : ρ → Output} {α : Type} (code : SormError) (n : Option ℕ) (l : List α)
    (i : ℕ) : (Outputs.ofSelected f ⟨code, n, l.map fun _ => none⟩).output i = .null := by
  apply ofRows_null
  intro c hc
  obtain ⟨_, _, rfl⟩ := List.mem_map.mp hc
  rfl

/-- With one table there is no half way. -/
theorem not_halfway (h : ∀ (i : ℕ) (t : TableSelect), ts[i]? = some t → i = 0) :
    ¬ Halfway ts a := by
  rintro ⟨-, -, hnot, i, t, hi, -, hfits⟩
  apply hnot
  intro t' ht' hw'
  obtain ⟨j, hj⟩ := List.mem_iff_getElem?.mp ht'
  obtain rfl := h j t' hj
  have hfirst : (ts.take (i + 1))[0]? = some t' := by
    rw [List.getElem?_take_of_lt (Nat.succ_pos i), hj]
  exact hfits t' (List.mem_of_getElem? hfirst) hw'

/-- `sorm_select_all_array_by` is honest. -/
theorem answers_allArrayBy (rounds : ℕ) (tableDesc : TableDescriptor) (getRow : Bool)
    (hts : ts = selectedTables columnsName (.single tableDesc) [getRow]) :
    Triple (answersMonitor (refuses ts)) (· = .start)
      (sormSelectAllArrayBy rounds conn allocator tableDesc columnsName filter rowsNum getRow)
      fun selected a => Honest [getRow] ts (fun n => selected.rowsNum = some n)
        (.ofSelected .array selected) ∧ ¬ Halfway ts a := by
  have hwants : ∀ (i : ℕ) (t : TableSelect), ts[i]? = some t → [getRow][i]? = some t.isTableSelect :=
    fun i t h => selectedTables_wants (hts ▸ h)
  have hzero : ∀ (i : ℕ) (t : TableSelect), ts[i]? = some t → i = 0 := by
    intro i t hi
    cases i with
    | zero => rfl
    | succ i => cases hwants _ t hi
  have hpost : ∀ {selected : Selected RowArray},
      Honest [getRow] ts (fun n => selected.rowsNum = some n) (.ofSelected .array selected) →
      ∀ a, Honest [getRow] ts (fun n => selected.rowsNum = some n) (.ofSelected .array selected) ∧
        ¬ Halfway ts a := fun h a => ⟨h, not_halfway hzero⟩
  apply Triple.bind (answers_allList allocator rounds hts)
  rintro ⟨code, num, rowsOfTables⟩ a hanswered
  dsimp only
  by_cases hcode : code = .ok
  · subst hcode
    obtain ⟨hdel, -⟩ := hanswered.code.mp rfl
    obtain ⟨-, hnum, hfull⟩ := hanswered.rows hdel
    dsimp only at hnum hfull
    subst hnum
    have hn := hdel.1
    simp only [ne_eq, not_true_eq_false, if_false, Option.getD_some, hn]
    cases getRow with
    | false =>
        refine hpost ⟨fun hcode => absurd rfl hcode, fun _ => ⟨a.rows, ?_, rfl, ?_⟩⟩ a
        · exact Nat.one_le_iff_ne_zero.mpr hn
        · intro i t hi hw
          have hwant := hwants i t hi
          rw [(Bool.and_eq_true_iff.mp hw).2, hzero i t hi] at hwant
          cases hwant
    | true =>
        rw [if_pos rfl]
        refine (Triple.bind (answers_sormNewArray (P := fun _ => True) allocator tableDesc hn) ?_) a
          trivial
        rintro block a' -
        cases block with
        | none =>
            refine (Triple.bind (keeps_sormListFree (P := fun _ => True) answers_isLocal allocator _)
              ?_) a' trivial
            intro _ a' _
            exact hpost (honest_null SormError.noConfusion fun i => output_none .nomem _ [()] i) a'
        | some block =>
            cases hlist : rowsOfTables.head?.join with
            | none => exact trivial
            | some list =>
                rw [assertSome_some]
                refine (Triple.bind (answers_listCpyFree (P := fun _ => True) allocator list a.rows)
                  ?_) a' trivial
                rintro rows a' ⟨-, rfl⟩
                refine hpost ⟨fun hcode => absurd rfl hcode, fun _ => ⟨a.rows, ?_, rfl, ?_⟩⟩ a'
                · exact Nat.one_le_iff_ne_zero.mpr hn
                · intro i t hi hw
                  obtain ⟨c, hc, hrows⟩ := forall₂_getElem? hfull hi
                  rw [if_pos hw] at hrows
                  obtain ⟨list', rfl, hfull'⟩ := hrows
                  obtain rfl := hzero i t hi
                  rw [List.head?_eq_getElem?, hc] at hlist
                  cases hlist
                  exact ⟨_, rfl, hfull'.length_rows⟩
  · rw [if_pos hcode]
    have hnull : Honest [getRow] ts (fun n => num = some n)
        (.ofSelected .array ⟨code, num, [none]⟩) :=
      honest_null hcode fun i => output_none code num [()] i
    exact hpost hnull a

/-- `sorm_select_all_array_by_join` -/
theorem answers_allArrayByJoin (rounds : ℕ) (hts : ts = selectedTables columnsName tables wants) :
    Triple (answersMonitor (refuses ts)) (· = .start)
      (sormSelectAllArrayByJoin rounds conn allocator tables columnsName filter rowsNum wants)
      fun selected a => Honest wants ts (fun n => selected.rowsNum = some n)
        (.ofSelected .array selected) ↔ ¬ Halfway ts a := by
  have hwants : ∀ (i : ℕ) (t : TableSelect), ts[i]? = some t → wants[i]? = some t.isTableSelect :=
    fun i t h => selectedTables_wants (hts ▸ h)
  apply Triple.bind (answers_allList allocator rounds hts)
  rintro ⟨code, num, rowsOfTables⟩ a hanswered
  dsimp only
  by_cases hcode : code = .ok
  · subst hcode
    obtain ⟨hdel, hfinalized⟩ := hanswered.code.mp rfl
    obtain ⟨-, hnum, hfull⟩ := hanswered.rows hdel
    dsimp only at hnum hfull
    subst hnum
    simp only [ne_eq, not_true_eq_false, if_false, Option.getD_some]
    have hzip : ∀ (tablesDesc : List TableDescriptor) (rowsOfTables : List (Option RowList))
        (ts : List TableSelect), (∀ (i : ℕ) (t : TableSelect), ts[i]? = some t →
          tablesDesc[i]? = some t.tableDesc) →
        List.Forall₂ (fun c t => if t.wanted then ∃ c', c = some c' ∧ RowList.Full a.rows c'
          else c = none) rowsOfTables ts →
        List.Forall₂ (fun c t => c.1 = t.tableDesc ∧
          if t.wanted then ∃ list, c.2 = some list ∧ list.Full a.rows else c.2 = none)
          (tablesDesc.zip rowsOfTables) ts := by
      intro tablesDesc rowsOfTables ts hdesc hfull
      induction hfull generalizing tablesDesc with
      | nil =>
          rw [List.zip_nil_right]
          exact .nil
      | @cons c t rowsOfTables ts hc _ ih =>
          cases tablesDesc with
          | nil => cases hdesc 0 t rfl
          | cons tableDesc tablesDesc =>
              have hfirst := hdesc 0 t rfl
              cases hfirst
              exact .cons ⟨rfl, hc⟩ (ih tablesDesc fun i t hi => hdesc (i + 1) t hi)
    have hcs := hzip tables.tablesDesc rowsOfTables ts
      (fun i t hi => selectedTables_desc (hts ▸ hi)) hfull
    refine (Triple.bind (answers_listsToArrays (P := (· = a)) allocator hdel.1 hcs) ?_) a rfl
    rintro ⟨ok, arrays⟩ a' ⟨rfl, hconverted⟩
    constructor
    · rintro hhonest ⟨-, -, hnot, i, t, hi, hw, hfits⟩
      have hfalse : ok ≠ true := fun hok => hnot (hconverted.ok.mp hok)
      obtain ⟨array, harray, -⟩ := hconverted.stored i t hi hw hfits
      have hwant : wants[i]? = some true := by
        rw [hwants i t hi, (Bool.and_eq_true_iff.mp hw).2]
      have hnull := hhonest.failed (by simp [Outputs.ofSelected, hfalse]) i hwant
      rw [Outputs.ofSelected_output, harray] at hnull
      cases hnull
    · intro hnot
      cases ok with
      | true =>
          have hfits := hconverted.ok.mp rfl
          refine ⟨fun hcode => absurd rfl hcode, fun _ => ⟨a'.rows, ?_, rfl, ?_⟩⟩
          · exact Nat.one_le_iff_ne_zero.mpr hdel.1
          · intro i t hi hw
            obtain ⟨array, harray, hfull⟩ := hconverted.stored i t hi hw
              fun t' ht' => hfits t' (List.mem_of_mem_take ht')
            refine ⟨.array array, ?_, hfull⟩
            rw [Outputs.ofSelected_output, harray]
            rfl
      | false =>
          have hnotFits : ¬ Fits a'.rows ts := fun h => Bool.false_ne_true (hconverted.ok.mpr h)
          refine honest_null SormError.noConfusion fun i => ?_
          rw [Outputs.ofSelected_output]
          cases hi : ts[i]? with
          | none =>
              have hlength : arrays[i]? = none := by
                rw [List.getElem?_eq_none_iff] at hi ⊢
                exact hconverted.length ▸ hi
              rw [hlength]
              rfl
          | some t =>
              rw [hconverted.null i t hi fun hw hfits =>
                hnot ⟨hdel, hfinalized, hnotFits, i, t, hi, hw, hfits⟩]
              rfl
  · rw [if_pos hcode]
    refine iff_of_true (honest_null hcode fun i => output_none code num tables.tablesDesc i) ?_
    exact fun hhalf => hcode (hanswered.code.mpr ⟨hhalf.1, hhalf.2.1⟩)

theorem Honest.congr {Counts : ℕ → Prop} {r r' : Outputs} (h : Honest wants ts Counts r)
    (hwants : ∀ (i : ℕ) (t : TableSelect), ts[i]? = some t → wants[i]? = some t.isTableSelect)
    (hcode : r'.code = r.code)
    (houtput : ∀ i, wants[i]? = some true → r'.output i = r.output i) :
    Honest wants ts Counts r' := by
  constructor
  · intro hne i hi
    rw [houtput i hi]
    exact h.failed (hcode ▸ hne) i hi
  · intro hok
    obtain ⟨n, hn, hcount, hrows⟩ := h.rows (hcode ▸ hok)
    refine ⟨n, hn, hcount, fun i t hi hw => ?_⟩
    rw [houtput i (by rw [hwants i t hi, (Bool.and_eq_true_iff.mp hw).2])]
    exact hrows i t hi hw

/-- Where `sorm_select_one_by_column` returns early its output is what it was. -/
theorem untouched_honest {Counts : ℕ → Prop} {code : SormError} (hcode : code ≠ .ok)
    (getRow : Bool) :
    Honest [getRow] ts Counts ⟨code, none, fun _ => .untouched⟩ ↔ getRow = false := by
  constructor
  · intro hhonest
    cases getRow with
    | false => rfl
    | true => cases hhonest.failed hcode 0 rfl
  · rintro rfl
    refine ⟨fun _ i hi => ?_, fun hok => absurd hok hcode⟩
    cases i with
    | zero => cases hi
    | succ i => cases hi

theorem answers_oneByColumn (tableDesc : TableDescriptor) (columnIndex : ℕ)
    (columnValue : Option Pointer) (getRow : Bool) :
    Triple (answersMonitor (refuses (selectedTables columnsName (.single tableDesc) [getRow])))
      (· = .start)
      (RowsCall.oneByColumn conn allocator tableDesc columnsName columnIndex columnValue getRow).run
      fun r a => (RowsCall.oneByColumn conn allocator tableDesc columnsName columnIndex columnValue
        getRow).Honest r ↔ ¬ (RowsCall.oneByColumn conn allocator tableDesc columnsName columnIndex
          columnValue getRow).Fails a := by
  have hearly : ∀ code : SormError, code ≠ .ok → NoFilter tableDesc columnIndex columnValue →
      ∀ a, a = SelectAnswers.start → ((RowsCall.oneByColumn conn allocator tableDesc columnsName
        columnIndex columnValue getRow).Honest ⟨code, none, fun _ => .untouched⟩ ↔
          ¬ (RowsCall.oneByColumn conn allocator tableDesc columnsName columnIndex columnValue
            getRow).Fails a) := by
    rintro code hcode hnone a rfl
    refine (untouched_honest hcode getRow).trans ⟨?_, ?_⟩
    · rintro rfl (⟨hget, -⟩ | hundone)
      · cases hget
      · exact hundone.1.1 rfl
    · intro hnot
      cases getRow with
      | false => rfl
      | true => exact absurd (Or.inl ⟨rfl, hnone⟩) hnot
  cases columnValue with
  | none =>
      have hnone : NoFilter tableDesc columnIndex none := by
        intro column _ value hvalue
        cases hvalue
      exact Triple.pure (hearly .argNull SormError.noConfusion hnone)
  | some value =>
  cases hcolumn : tableDesc.columns[columnIndex]? with
  | none =>
      unfold RowsCall.run sormSelectOneByColumn
      dsimp only
      rw [hcolumn]
      exact Triple.stop
  | some column =>
  unfold RowsCall.run sormSelectOneByColumn
  dsimp only
  rw [hcolumn, assertSome_some, pure_bind]
  cases hfilter : constructColumnFilter column value with
  | error why => exact Triple.stop
  | ok r =>
  obtain ⟨ret, filter⟩ := r
  have hof : (Prog.ofExcept (.ok (ret, filter)) : Act (SormError × Text)) = pure (ret, filter) := rfl
  rw [hof, pure_bind]
  dsimp only
  by_cases hret : ret = .ok
  · subst hret
    have hfound : ¬ NoFilter tableDesc columnIndex (some value) := by
      intro hnone
      exact hnone column (by rw [hcolumn]; rfl) value rfl filter hfilter
    simp only [ne_eq, not_true_eq_false, if_false, bind_assoc, pure_bind]
    apply Triple.bind (answers_someArray allocator rfl)
    intro selected
    refine Triple.pure fun a hanswered => ?_
    have hwants : ∀ (i : ℕ) (t : TableSelect),
        (selectedTables columnsName (.single tableDesc) [getRow])[i]? = some t →
          [getRow][i]? = some t.isTableSelect := fun i t h => selectedTables_wants h
    have hiff := hanswered.honest_iff hwants Output.array (fun _ _ h => h) (· = 1)
      fun n hle _ hn => Nat.le_antisymm (hle 1 rfl) (Nat.one_le_iff_ne_zero.mpr hn)
    have hfails : (RowsCall.oneByColumn conn allocator tableDesc columnsName columnIndex
        (some value) getRow).Fails a ↔
          Undone True (selectedTables columnsName (.single tableDesc) [getRow]) a :=
      or_iff_right fun h => hfound h.2
    rw [hfails, ← hiff]
    have houtput : ∀ i : ℕ, [getRow][i]? = some true →
        Left.ofRows Output.array selected.rowsOfTables[i]?.join = ((if getRow then
          some selected.rowsOfTables.head?.join else none : Option (Option RowArray)).map
            (Left.ofRows .array)).getD .untouched := by
      intro i hi
      cases i with
      | succ i => cases hi
      | zero =>
          cases hi
          rw [if_pos rfl, List.head?_eq_getElem?]
          rfl
    exact ⟨fun h => h.congr hwants rfl houtput,
      fun h => h.congr hwants rfl fun i hi => (houtput i hi).symm⟩
  · simp only [ne_eq, hret, not_false_eq_true, if_true, pure_bind]
    refine Triple.pure (hearly ret hret ?_)
    intro column' hcolumn' value' hvalue' filter' hfilter'
    rw [hcolumn] at hcolumn'
    cases hcolumn'
    cases hvalue'
    rw [hfilter] at hfilter'
    cases hfilter'
    exact hret rfl

theorem answers_rowsCall (c : RowsCall) :
    Triple (answersMonitor (refuses c.request.selects)) (· = .start) c.run fun r a =>
      c.Honest r ↔ ¬ c.Fails a := by
  cases c with
  | someArray q rowsNum =>
      apply Triple.bind (answers_someArray q.allocator rfl)
      exact fun selected => Triple.pure fun a hanswered => hanswered.honest_iff
        (fun i t h => selectedTables_wants h) Output.array (fun _ _ h => h) _ fun n _ hnum _ => hnum
  | someList q rowsNum =>
      apply Triple.bind (answers_someList q.allocator rfl)
      exact fun selected => Triple.pure fun a hanswered => hanswered.honest_iff
        (fun i t h => selectedTables_wants h) Output.list (fun _ _ h => h) _ fun n _ hnum _ => hnum
  | allList rounds q rowsNum =>
      apply Triple.bind (answers_allList q.allocator rounds rfl)
      exact fun selected => Triple.pure fun a hanswered => hanswered.honest_iff
        (fun i t h => selectedTables_wants h) Output.list (fun _ _ h => h) _ fun n _ hnum _ => hnum
  | allArray rounds q rowsNum =>
      obtain ⟨conn, allocator, tables, columnsName, filter⟩ := q
      cases tables with
      | one tableDesc getRow =>
          apply Triple.bind (answers_allArrayBy allocator rounds tableDesc getRow rfl)
          exact fun selected => Triple.pure fun a h => iff_of_true h.1 h.2
      | two table1 name1 table2 name2 join getRow1 getRow2 =>
          apply Triple.bind (answers_allArrayByJoin allocator rounds rfl)
          exact fun selected => Triple.pure fun a h => h
  | oneByColumn conn allocator tableDesc columnsName columnIndex columnValue getRow =>
      exact answers_oneByColumn allocator tableDesc columnIndex columnValue getRow

end Honesty

/-- Exactly when a select fails nothing is returned, and when it does not everything is. -/
theorem rowsCall_honest_iff (c : RowsCall) {tr : List SormEvent} {r : Outputs}
    (h : c.run.Emits tr (.pure r)) : c.Honest r ↔ ¬ c.Fails (c.request.told tr) :=
  (answers_rowsCall c).returns rfl h (fold_run _ tr)

def oneName : RowsCall :=
  .someArray ⟨some ⟨0, 0, 0⟩, .libc, .one deviceTable true, some ⟨"name".toList, by decide⟩, none⟩
    (some 1)

def unfinalized : List SormEvent :=
  [⟨.malloc .libc 16, some 1⟩, ⟨.malloc .libc 8, some 2⟩,
    ⟨.prepare "SELECT name FROM device".toList sqlStmtMaxLen, (.ok, some 0)⟩,
    ⟨.strdup .libc ⟨"name".toList, by decide⟩, some 3⟩, ⟨.free .libc (some 3), ()⟩,
    ⟨.malloc .libc 96, some 4⟩, ⟨.step (some 0), .row⟩, ⟨.columnType (some 0) 0, .null⟩,
    ⟨.finalize (some 0), .other 1⟩, ⟨.free .libc (some 2), ()⟩, ⟨.free .libc (some 1), ()⟩]

theorem oneName_emits : ∃ r, oneName.run.Emits unfinalized (.pure r) := by
  refine ⟨?_, ?_⟩
  rotate_left
  · unfold unfinalized
    iterate 11 refine .cons _ _ _ ?_
    exact .nil _

theorem rowsCall_honest_iff_unfinalized : ∃ r, oneName.run.Emits unfinalized (.pure r) ∧
    (oneName.Honest r ↔ ¬ oneName.Fails (oneName.request.told unfinalized)) := by
  obtain ⟨r, hr⟩ := oneName_emits
  exact ⟨r, hr, rowsCall_honest_iff oneName hr⟩

def nullValue : RowsCall := .oneByColumn (some ⟨0, 0, 0⟩) .libc deviceTable
  (some ⟨"*".toList, by decide⟩) 0 none true

theorem not_rowsCall_honest : ¬ ∀ (c : RowsCall) (tr : List SormEvent) (r : Outputs),
    c.run.Emits tr (.pure r) → c.Honest r := by
  intro h
  have hhonest := h nullValue [] ⟨.argNull, none, fun _ => .untouched⟩ (.nil _)
  have hnull := hhonest.failed SormError.noConfusion 0 rfl
  cases hnull

end Sorm
