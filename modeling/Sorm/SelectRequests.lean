import Sorm.IteratorMemory
import Sorm.Outcome
import Sorm.SelectPaths

/-!
# Requests that are refused

`_select` and `_select_iterate_open` check their arguments, build the statement, prepare it and
parse the column list, the last two in the opposite order. Both come to the same verdict unless the
column list cannot be parsed.
-/

namespace Sorm

open Interaction
open Interaction.Prog (Reaches EndsIn)

/-- What comes of a request: its rows can be read, it is refused with an error code, or the process
stops. -/
inductive Verdict
  | passed
  | refused (code : SormError)
  | halted (why : Halt)
deriving DecidableEq

def Decides (decision : Text → DbCode × Option Handle) : (c : Call) → Resp c → Prop
  | .prepare sql _, r => r = decision sql
  | _, _ => True

structure RowLoop where
  conn : Connection
  stmtHandle : Option Handle
  tables : List TableSelect
  maxRowsNum : ℤ
  indexes : List Address
  maps : Address

def selectReturn {ρ : Type} (indexes : List Address) (maps : Address) (selected : Selected ρ) :
    Act (Selected ρ) := do
  freeAll .libc indexes
  free .libc (some maps)
  if selected.code = .ok ∧ selected.rowsNum = some 0 then
    return { selected with code := .noexist }
  else return selected

def selectOpening {ρ : Type} (conn : Option Connection) (columnsName : Option CString)
    (tables : SelectTables) (isTablesSelect : List Bool) (filter : Option CString)
    (rowsNum : Option ℤ) : Act (Selected ρ ⊕ RowLoop) := do
  let nothing (code : SormError) (n : Option ℕ) : Selected ρ :=
    ⟨code, n, tables.tablesDesc.map fun _ => none⟩
  match conn, checkSelectArgs columnsName none, rowsNum, checkSelectArgs columnsName filter with
  | none, _, _, _ => return .inl (nothing .argNull none)
  | some _, .error e, _, _ => return .inl (nothing e none)
  | some _, .ok _, none, _ => return .inl (nothing .argNull none)
  | some _, .ok _, some _, .error e => return .inl (nothing e none)
  | some conn, .ok _, some maxRowsNum, .ok columnsName => do
      match ← malloc .libc (selectColumnsSize * tables.tablesDesc.length) with
      | none => return .inl (nothing .nomem none)
      | some maps => do
          let (ok, indexes) ← newIndexes tables.tablesDesc
          let fail (selected : Selected ρ) : Act (Selected ρ ⊕ RowLoop) := do
            let selected ← selectReturn indexes maps selected
            return .inl selected
          if ok then
            match tables.stmt columnsName.chars (filter.map CString.chars) with
            | .error (e, _) => do
                let ret ← e.act
                fail (nothing ret (some 0))
            | .ok b => do
                let (ret, stmtHandle) ← sqlite3Prepare b.text
                if ret ≠ .ok then fail (nothing .dbError (some 0))
                else
                  let (ret, selectColumns) ← parseColumnsName tables.tablesDesc columnsName
                  if ret ≠ .ok then
                    let ret ← dbFinalize stmtHandle ret
                    fail (nothing ret (some 0))
                  else
                    return .inr ⟨conn, stmtHandle,
                      (tables.tablesDesc.zip (isTablesSelect.zip selectColumns)).map
                        fun t => TableSelect.mk t.1 t.2.1 t.2.2, maxRowsNum, indexes, maps⟩
          else fail (nothing .nomem none)

variable {ρ : Type}

def selectRest (selectCore : SelectCore ρ) (allocator : Allocator) :
    Selected ρ ⊕ RowLoop → Act (Selected ρ)
  | .inl selected => return selected
  | .inr loop => do
      let selected ← selectCore loop.conn allocator loop.stmtHandle loop.tables loop.maxRowsNum
      let code ← dbFinalize loop.stmtHandle selected.code
      selectReturn loop.indexes loop.maps { selected with code }

theorem selectRest_inl (selectCore : SelectCore ρ) (allocator : Allocator)
    (selected : Selected ρ) : selectRest selectCore allocator (.inl selected) = pure selected := rfl

/-- `_select` runs its core where the opening leads to it. -/
theorem select_eq (selectCore : SelectCore ρ) (conn : Option Connection) (allocator : Allocator)
    (columnsName : Option CString) (tables : SelectTables) (isTablesSelect : List Bool)
    (filter : Option CString) (rowsNum : Option ℤ) :
    select selectCore conn allocator columnsName tables isTablesSelect filter rowsNum =
      selectOpening conn columnsName tables isTablesSelect filter rowsNum >>=
        selectRest selectCore allocator := by
  unfold select selectOpening
  cases conn with
  | none => rfl
  | some conn =>
  cases checkSelectArgs columnsName none with
  | error e => rfl
  | ok _ =>
  cases rowsNum with
  | none => rfl
  | some n =>
  cases checkSelectArgs columnsName filter with
  | error e => rfl
  | ok columns =>
  simp only [bind_assoc]
  congr 1
  funext maps
  cases maps with
  | none => rfl
  | some maps =>
  simp only [bind_assoc]
  congr 1
  funext r
  unfold selectPrepared
  by_cases hok : r.1 = true
  · simp only [hok, if_true]
    cases tables.stmt columns.chars (filter.map CString.chars) with
    | error e => simp only [bind_assoc, pure_bind, bind_pure, selectReturn, selectRest_inl]
    | ok b =>
        simp only [bind_assoc]
        congr 1
        funext r
        by_cases hret : r.1 = .ok
        · simp only [hret, ne_eq, not_true_eq_false, if_false, bind_assoc]
          congr 1
          funext r
          by_cases hret : r.1 = .ok
          · simp only [hret, not_true_eq_false, if_false, bind_assoc, pure_bind]
            rfl
          · simp only [hret, not_false_eq_true, if_true, bind_assoc, pure_bind, bind_pure,
              selectReturn, selectRest_inl]
        · simp only [hret, ne_eq, not_false_eq_true, if_true, bind_assoc, pure_bind, bind_pure,
            selectReturn, selectRest_inl]
  · simp only [hok, bind_assoc, pure_bind, bind_pure, selectReturn, selectRest_inl,
      Bool.false_eq_true, if_false]

def requestVerdict (built : CString → Buf → Verdict) (conn : Option Connection)
    (columnsName : Option CString) (tables : SelectTables) (filter : Option CString) : Verdict :=
  match conn, checkSelectArgs columnsName filter with
  | none, _ => .refused .argNull
  | some _, .error e => .refused e
  | some _, .ok columnsName =>
    if ∃ table ∈ tables.tablesDesc, table.columnsNum = 0 then .refused .nomem
    else match tables.stmt columnsName.chars (filter.map CString.chars) with
      | .error (.code e, _) => .refused e
      | .error (.halt why, _) => .halted why
      | .ok b => built columnsName b

variable {decision : Text → DbCode × Option Handle}

def selectBuilt (decision : Text → DbCode × Option Handle) (tablesDesc : List TableDescriptor)
    (columnsName : CString) (b : Buf) : Verdict :=
  if (decision b.text).1 = .ok then
    match columnsNameToSelectColumns tablesDesc columnsName with
    | .ok _ => .passed
    | .error why => .halted why
  else .refused .dbError

/-- `_select_iterate_open`: parsed, then prepared. -/
def iterateBuilt (decision : Text → DbCode × Option Handle) (tablesDesc : List TableDescriptor)
    (columnsName : CString) (b : Buf) : Verdict :=
  match columnsNameToSelectColumns tablesDesc columnsName with
  | .ok _ => if (decision b.text).1 = .ok then .passed else .refused .dbError
  | .error why => .halted why

def Answers (decision : Text → DbCode × Option Handle) (noMem : Prop) : (c : Call) → Resp c → Prop
  | .prepare sql _, r => r = decision sql
  | .malloc _ _, r => r = none → noMem
  | .strdup _ _, r => r = none → noMem
  | _, _ => True

def Returns {α : Type} (noMem : Prop) (P : α → Prop) : Except Halt α → Prop
  | .ok a => P a
  | .error why => why = .exit ∧ noMem

def Comes {α : Type} (noMem : Prop) (verdictOf : α → Verdict) (v : Verdict) :
    Except Halt α → Prop
  | .ok a => verdictOf a = v
  | .error why => v = .halted why ∨ why = .exit ∧ noMem

section Ends

variable {α β : Type} {noMem : Prop} {P : α → Prop} {Q : Except Halt β → Prop}

theorem ends_bind {p : Act α} {f : α → Act β}
    (hp : EndsIn (Answers decision noMem) p (Returns noMem P))
    (hf : ∀ a, P a → EndsIn (Answers decision noMem) (f a) Q) (hexit : noMem → Q (.error .exit)) :
    EndsIn (Answers decision noMem) (p >>= f) Q := by
  apply hp.bind
  · exact hf
  · rintro why ⟨rfl, hnoMem⟩
    exact hexit hnoMem

theorem ends_perform (c : Call) :
    EndsIn (Answers decision noMem) (perform c) (Returns noMem fun _ => True) :=
  EndsIn.perform fun _ _ => trivial

theorem ends_malloc (allocator : Allocator) (size : ℕ) :
    EndsIn (Answers decision noMem) (malloc allocator size)
      (Returns noMem fun block => block.isSome ↔ size ≠ 0) := by
  unfold malloc
  split
  · next hsize => exact EndsIn.pure (by simp [Returns, hsize])
  · next hsize =>
      have hcall : EndsIn (Answers decision noMem) (perform (.malloc allocator size))
          (Returns noMem fun block => block = none → noMem) := EndsIn.perform fun _ hr => hr
      apply ends_bind hcall
      · intro block hblock
        cases block with
        | none => exact EndsIn.stop ⟨rfl, hblock rfl⟩
        | some block => exact EndsIn.pure (by simp [Returns, hsize])
      · exact fun hnoMem => ⟨rfl, hnoMem⟩

theorem ends_strdup (allocator : Allocator) (string : CString) :
    EndsIn (Answers decision noMem) (strdup allocator (some string))
      (Returns noMem fun _ => True) := by
  have hcall : EndsIn (Answers decision noMem) (perform (.strdup allocator string))
      (Returns noMem fun block => block = none → noMem) := EndsIn.perform fun _ hr => hr
  apply ends_bind hcall
  · intro block hblock
    cases block with
    | none => exact EndsIn.stop ⟨rfl, hblock rfl⟩
    | some block => exact EndsIn.pure trivial
  · exact fun hnoMem => ⟨rfl, hnoMem⟩

theorem ends_freeAll (allocator : Allocator) (blocks : List Address) :
    EndsIn (Answers decision noMem) (freeAll allocator blocks) (Returns noMem fun _ => True) := by
  induction blocks with
  | nil => exact EndsIn.pure trivial
  | cons block blocks ih =>
      exact ends_bind (ends_perform _) (fun _ _ => ih) fun hnoMem => ⟨rfl, hnoMem⟩

theorem ends_newIndexes (tablesDesc : List TableDescriptor) :
    EndsIn (Answers decision noMem) (newIndexes tablesDesc)
      (Returns noMem fun r => r.1 = true ↔ ¬ ∃ table ∈ tablesDesc, table.columnsNum = 0) := by
  induction tablesDesc with
  | nil => exact EndsIn.pure (by simp [Returns])
  | cons table tablesDesc ih =>
      unfold newIndexes
      apply ends_bind (ends_malloc _ _)
      · intro block hblock
        cases block with
        | none =>
            have hsize : table.columnsNum = 0 := by
              by_contra hne
              have hsome := hblock.mpr (by omega)
              cases hsome
            refine EndsIn.pure ⟨fun hok => absurd hok Bool.false_ne_true, fun hall => ?_⟩
            exact absurd ⟨table, List.mem_cons_self, hsize⟩ hall
        | some block =>
            have hsize : table.columnsNum ≠ 0 := by
              have hne := hblock.mp rfl
              omega
            apply ends_bind ih
            · intro r hr
              refine EndsIn.pure (hr.trans (not_congr ?_))
              rw [List.exists_mem_cons_iff]
              exact (or_iff_right hsize).symm
            · exact fun hnoMem => ⟨rfl, hnoMem⟩
      · exact fun hnoMem => ⟨rfl, hnoMem⟩

theorem ends_prepare (sqlStmt : Text) :
    EndsIn (Answers decision noMem) (sqlite3Prepare sqlStmt)
      (Returns noMem fun r => r = decision sqlStmt) := by
  have hcall : EndsIn (Answers decision noMem) (perform (.prepare sqlStmt sqlStmtMaxLen))
      (Returns noMem fun r => r = decision sqlStmt) := EndsIn.perform fun _ hr => hr
  exact hcall.retry _

/-- Parsing the column list comes to what it comes to on its text. -/
theorem ends_parseColumnsName {β : Type} {Q : Except Halt β → Prop}
    (tablesDesc : List TableDescriptor) (columnsName : CString)
    {f : SormError × List SelectColumns → Act β}
    (hf : ∀ r, columnsNameToSelectColumns tablesDesc columnsName = .ok r →
      EndsIn (Answers decision noMem) (f r) Q)
    (hstop : ∀ why, columnsNameToSelectColumns tablesDesc columnsName = .error why →
      Q (.error why)) (hexit : noMem → Q (.error .exit)) :
    EndsIn (Answers decision noMem) (parseColumnsName tablesDesc columnsName >>= f) Q := by
  unfold parseColumnsName
  rw [bind_assoc]
  apply ends_bind (ends_strdup _ _)
  · intro copy _
    rw [bind_assoc]
    cases hparse : columnsNameToSelectColumns tablesDesc columnsName with
    | error why => exact EndsIn.stop (hstop why hparse)
    | ok r =>
        have hfree : EndsIn (Answers decision noMem) (free .libc (copy.map Prod.fst) >>= fun _ => f r)
            Q := ends_bind (ends_perform _) (fun _ _ => hf r hparse) hexit
        exact hfree
  · exact hexit

theorem ends_selectReturn {ρ : Type} (indexes : List Address) (maps : Address)
    {selected : Selected ρ} (hcode : selected.code ≠ .ok) :
    EndsIn (Answers decision noMem) (selectReturn indexes maps selected)
      (Returns noMem fun s => s = selected) := by
  apply ends_bind (ends_freeAll _ _)
  · intro _ _
    have hnotOk : ¬ (selected.code = .ok ∧ selected.rowsNum = some 0) := fun h => hcode h.1
    rw [if_neg hnotOk]
    apply ends_bind (ends_perform _)
    · exact fun _ _ => EndsIn.pure rfl
    · exact fun hnoMem => ⟨rfl, hnoMem⟩
  · exact fun hnoMem => ⟨rfl, hnoMem⟩

end Ends

section Openings

variable {noMem : Prop} {columnsName filter : Option CString}

theorem checkSelectArgs_none_error {e : SormError} (h : checkSelectArgs columnsName none = .error e) :
    checkSelectArgs columnsName filter = .error e := by
  unfold checkSelectArgs at h ⊢
  split
  · exact h
  · split
    · next hlength => simpa only [hlength, if_true] using h
    · next hlength =>
        simp only [hlength, if_false] at h
        cases h

theorem checkSelectArgs_none_ok {columns : CString}
    (h : checkSelectArgs columnsName filter = .ok columns) :
    ∃ columns', checkSelectArgs columnsName none = .ok columns' := by
  cases hnone : checkSelectArgs columnsName none with
  | ok columns' => exact ⟨columns', rfl⟩
  | error e =>
      rw [checkSelectArgs_none_error hnone] at h
      cases h

theorem mapsSize_ne_zero {tables : SelectTables} (h : tables.tablesDesc ≠ []) :
    selectColumnsSize * tables.tablesDesc.length ≠ 0 := by
  have hlength := List.length_pos_iff.mpr h
  unfold selectColumnsSize
  omega

def openedVerdict (opened : Opened) : Verdict :=
  if opened.code = .ok then .passed else .refused opened.code

def openingVerdict : Selected ρ ⊕ RowLoop → Verdict
  | .inl selected => .refused selected.code
  | .inr _ => .passed

/-- `_select` comes to the verdict on its arguments. -/
theorem ends_selectOpening (conn : Option Connection) (tables : SelectTables)
    (hnonempty : tables.tablesDesc ≠ []) (isTablesSelect : List Bool) (n : ℤ) :
    EndsIn (Answers decision noMem)
      (selectOpening (ρ := ρ) conn columnsName tables isTablesSelect filter (some n))
      (Comes noMem openingVerdict
        (requestVerdict (selectBuilt decision tables.tablesDesc) conn columnsName tables filter)) := by
  have hexit : ∀ v, noMem → Comes noMem (openingVerdict (ρ := ρ)) v (.error .exit) :=
    fun v hnoMem => Or.inr ⟨rfl, hnoMem⟩
  unfold selectOpening requestVerdict
  cases conn with
  | none => exact EndsIn.pure rfl
  | some conn =>
  cases hargs : checkSelectArgs columnsName filter with
  | error e =>
      cases hnone : checkSelectArgs columnsName none with
      | error e' =>
          rw [checkSelectArgs_none_error hnone] at hargs
          cases hargs
          exact EndsIn.pure rfl
      | ok columns => exact EndsIn.pure rfl
  | ok columns =>
  obtain ⟨columns', hnone⟩ := checkSelectArgs_none_ok hargs
  rw [hnone]
  apply ends_bind (ends_malloc _ _)
  · intro maps hmaps
    cases maps with
    | none => exact absurd (hmaps.mpr (mapsSize_ne_zero hnonempty)) Bool.false_ne_true
    | some maps =>
    apply ends_bind (ends_newIndexes _)
    · rintro ⟨ok, indexes⟩ hindexes
      have hfail : ∀ (selected : Selected ρ), selected.code ≠ .ok →
          EndsIn (Answers decision noMem) (do
            let selected ← selectReturn indexes maps selected
            return .inl selected : Act (Selected ρ ⊕ RowLoop))
          (Comes noMem openingVerdict (.refused selected.code)) := by
        intro selected hcode
        apply ends_bind (ends_selectReturn indexes maps hcode)
        · rintro _ rfl
          exact EndsIn.pure rfl
        · exact hexit _
      dsimp only
      cases ok with
      | false =>
          rw [if_pos (not_not.mp fun h => Bool.false_ne_true (hindexes.mpr h))]
          exact hfail _ SormError.noConfusion
      | true =>
      rw [if_neg (hindexes.mp rfl)]
      simp only [if_true]
      cases hstmt : tables.stmt columns.chars (filter.map CString.chars) with
      | error e =>
          obtain ⟨e, b⟩ := e
          cases e with
          | halt why => exact EndsIn.stop (Or.inl rfl)
          | code e =>
              obtain rfl := tables.stmt_tooLongOnly _ _ hstmt
              exact hfail _ SormError.noConfusion
      | ok b =>
          apply ends_bind (ends_prepare _)
          · rintro ⟨ret, h⟩ hdecision
            unfold selectBuilt
            dsimp only
            rw [← hdecision]
            by_cases hret : ret = .ok
            · simp only [hret, if_true, ne_eq, not_true_eq_false, if_false]
              apply ends_parseColumnsName
              · rintro ⟨ret, selectColumns⟩ hparse
                obtain rfl := columnsNameToSelectColumns_code hparse
                simp only [hparse, not_true_eq_false, if_false]
                exact EndsIn.pure rfl
              · intro why hparse
                rw [hparse]
                exact Or.inl rfl
              · exact hexit _
            · simp only [hret, if_false, ne_eq, not_false_eq_true, if_true]
              exact hfail _ SormError.noConfusion
          · exact hexit _
    · exact hexit _
  · exact hexit _

/-- `_select_iterate_open`, when it succeeds or frees its blocks. -/
theorem ends_selectIterateOpen (conn : Option Connection) (allocator : Allocator)
    (tables : SelectTables) (hnonempty : tables.tablesDesc ≠ [])
    (tablesDescBlock : Option Address) :
    EndsIn (Answers decision noMem)
      (selectIterateOpen conn allocator columnsName tables filter tablesDescBlock)
      (Comes noMem openedVerdict
        (requestVerdict (iterateBuilt decision tables.tablesDesc) conn columnsName tables
          filter)) := by
  have hexit : ∀ v, noMem → Comes noMem openedVerdict v (.error .exit) :=
    fun v hnoMem => Or.inr ⟨rfl, hnoMem⟩
  unfold selectIterateOpen requestVerdict
  cases conn with
  | none => exact EndsIn.pure rfl
  | some conn =>
  cases hargs : checkSelectArgs columnsName filter with
  | error e =>
      refine EndsIn.pure ?_
      exact if_neg (checkSelectArgs_ne_ok hargs)
  | ok columns =>
  dsimp only
  apply ends_bind (ends_malloc _ _)
  · intro block hblock
    cases block with
    | none => exact absurd (hblock.mpr (by decide)) Bool.false_ne_true
    | some block =>
    rw [assertSome_some, pure_bind]
    apply ends_bind (ends_malloc _ _)
    · intro maps hmaps
      cases maps with
      | none => exact absurd (hmaps.mpr (mapsSize_ne_zero hnonempty)) Bool.false_ne_true
      | some maps =>
      rw [assertSome_some, pure_bind]
      apply ends_bind (ends_newIndexes _)
      · rintro ⟨ok, indexes⟩ hindexes
        have hfail : ∀ ret : SormError, ret ≠ .ok → EndsIn (Answers decision noMem) (do
              freeAll .libc indexes
              free .libc (some maps)
              free .libc (some block)
              return ⟨ret, some block, none⟩ : Act Opened)
            (Comes noMem openedVerdict (.refused ret)) := by
          intro ret hret
          apply ends_bind (ends_freeAll _ _)
          · intro _ _
            apply ends_bind (ends_perform _)
            · intro _ _
              apply ends_bind (ends_perform _)
              · intro _ _
                refine EndsIn.pure ?_
                exact if_neg hret
              · exact hexit _
            · exact hexit _
          · exact hexit _
        dsimp only
        cases ok with
        | false =>
            rw [if_pos (not_not.mp fun h => Bool.false_ne_true (hindexes.mpr h))]
            exact hfail _ SormError.noConfusion
        | true =>
        rw [if_neg (hindexes.mp rfl)]
        simp only [if_true]
        unfold selectIteratePrepare
        cases hstmt : tables.stmt columns.chars (filter.map CString.chars) with
        | error e =>
            obtain ⟨e, b⟩ := e
            cases e with
            | halt why => exact EndsIn.stop (Or.inl rfl)
            | code e =>
                obtain rfl := tables.stmt_tooLongOnly _ _ hstmt
                exact hfail _ SormError.noConfusion
        | ok b =>
            dsimp only
            rw [bind_assoc]
            apply ends_parseColumnsName
            · rintro ⟨ret, selectColumns⟩ hparse
              obtain rfl := columnsNameToSelectColumns_code hparse
              unfold iterateBuilt
              simp only [hparse, ne_eq, not_true_eq_false, if_false, bind_assoc]
              apply ends_bind (ends_prepare _)
              · rintro ⟨ret, h⟩ hdecision
                rw [← hdecision]
                by_cases hret : ret = .ok
                · simp only [hret, if_true, if_false, not_true_eq_false, pure_bind]
                  exact EndsIn.pure rfl
                · simp only [hret, if_false, not_false_eq_true, if_true, pure_bind]
                  exact hfail _ SormError.noConfusion
              · exact hexit _
            · intro why hparse
              unfold iterateBuilt
              rw [hparse]
              exact Or.inl rfl
            · exact hexit _
      · exact hexit _
    · exact hexit _
  · exact hexit _

theorem ends_sormSelectIterateByOpen (conn : Option Connection) (allocator : Allocator)
    (tables : SelectTables) (hnonempty : tables.tablesDesc ≠ []) :
    EndsIn (Answers decision noMem)
      (sormSelectIterateByOpen conn allocator tables columnsName filter)
      (Comes noMem openedVerdict
        (requestVerdict (iterateBuilt decision tables.tablesDesc) conn columnsName tables
          filter)) := by
  have hexit : ∀ v, noMem → Comes noMem openedVerdict v (.error .exit) :=
    fun v hnoMem => Or.inr ⟨rfl, hnoMem⟩
  have hstop : ∀ v why, Comes noMem openedVerdict v (.error why) →
      Comes noMem openedVerdict v (.error why) := fun _ _ h => h
  unfold sormSelectIterateByOpen
  apply ends_bind (ends_malloc _ _)
  · intro tablesDescBlock _
    split
    · apply ends_bind (ends_malloc _ _)
      · intro namesBlock _
        apply EndsIn.bind (ends_selectIterateOpen _ _ _ hnonempty _)
        · intro opened hopened
          have hnames : EndsIn (Answers decision noMem) (do
              free allocator namesBlock
              return opened : Act Opened) _ :=
            ends_bind (ends_perform _) (fun _ _ => EndsIn.pure hopened) (hexit _)
          split
          · exact ends_bind (ends_perform _) (fun _ _ => hnames) (hexit _)
          · exact hnames
        · exact hstop _
      · exact hexit _
    · rw [pure_bind]
      apply EndsIn.bind (ends_selectIterateOpen _ _ _ hnonempty _)
      · intro opened hopened
        split
        · exact ends_bind (ends_perform _) (fun _ _ => EndsIn.pure hopened) (hexit _)
        · exact EndsIn.pure hopened
      · exact hstop _
  · exact hexit _

end Openings

structure SelectRequest where
  conn : Option Connection
  allocator : Allocator
  tables : SelectedTables
  columnsName : Option CString
  filter : Option CString

namespace SelectRequest

variable (q : SelectRequest)

def iterateOpen : Act Opened :=
  sormSelectIterateByOpen q.conn q.allocator q.tables.tables q.columnsName q.filter

def select (selectCore : SelectCore RowList) (n : ℤ) : Act (Selected RowList) :=
  Sorm.select selectCore q.conn q.allocator q.columnsName q.tables.tables q.tables.wants q.filter
    (some n)

example (rounds : ℕ) (n : ℤ) : q.select (selectAllListCore rounds) n =
    sormSelectAllListBy rounds q.conn q.allocator q.tables.tables q.columnsName q.filter (some n)
      q.tables.wants := rfl

def OpenComes (decision : Text → DbCode × Option Handle) : Verdict → Prop
  | .passed => ∃ opened, Reaches (Decides decision) q.iterateOpen (.ok opened) ∧ opened.code = .ok
  | .refused code => ∃ opened, Reaches (Decides decision) q.iterateOpen (.ok opened) ∧
      opened.code = code ∧ code ≠ .ok
  | .halted why => Reaches (Decides decision) q.iterateOpen (.error why)

def ListComes (decision : Text → DbCode × Option Handle) (n : ℤ) : Verdict → Prop
  | .passed => ∃ tr, (∀ e ∈ tr, Decides decision e.1 e.2) ∧ ∃ conn h tables m, ∀ selectCore,
      ∃ k, (q.select selectCore n).Emits tr (selectCore conn q.allocator h tables m >>= k)
  | .refused code => ∃ tr, (∀ e ∈ tr, Decides decision e.1 e.2) ∧ ∀ selectCore,
      ∃ selected, (q.select selectCore n).Emits tr (.pure selected) ∧ selected.code = code
  | .halted why => ∃ tr, (∀ e ∈ tr, Decides decision e.1 e.2) ∧ ∀ selectCore,
      (q.select selectCore n).Emits tr (.stop why)

/-- Both come to one verdict, and it is not that the process stops. `_malloc` exits when there is no
memory. -/
def Alike (decision : Text → DbCode × Option Handle) (n : ℤ) : Prop :=
  ∃ v, (∀ why, v ≠ .halted why) ∧ q.OpenComes decision v ∧ q.ListComes decision n v ∧
    ∀ v', q.OpenComes decision v' ∨ q.ListComes decision n v' → v' = v ∨ v' = .halted .exit

/-- If the request gets as far as building a statement, the join is one of the two there are, and
if the statement fits, the column list can be parsed: its first item is not all blanks and tabs,
and every item names columns or a table that is not there. -/
def Readable : Prop :=
  ∀ columnsName, q.conn.isSome → checkSelectArgs q.columnsName q.filter = .ok columnsName →
    (∀ table ∈ q.tables.tables.tablesDesc, table.columnsNum ≠ 0) →
    match q.tables.tables.stmt columnsName.chars (q.filter.map CString.chars) with
    | .error (.code _, _) => True
    | .error (.halt _, _) => False
    | .ok _ => StartsNamed (itemsOf columnsName) ∧ ∀ item ∈ itemsOf columnsName,
        Names q.tables.tables.tablesDesc (trimmed item) ∨
          UnknownTable q.tables.tables.tablesDesc (trimmed item)

end SelectRequest

theorem decides_of_answers (decision : Text → DbCode × Option Handle) {noMem : Prop} (c : Call)
    (r : Resp c) (h : Answers decision noMem c r) : Decides decision c r := by
  cases c with
  | prepare sql n => exact h
  | _ => trivial

theorem answers_of_decides (decision : Text → DbCode × Option Handle) (c : Call) (r : Resp c)
    (h : Decides decision c r) : Answers decision True c r := by
  cases c with
  | prepare sql n => exact h
  | malloc | strdup => exact fun _ => trivial
  | _ => trivial

theorem answers_total (decision : Text → DbCode × Option Handle) (c : Call) :
    ∃ r, Answers decision False c r := by
  cases c with
  | prepare sql n => exact ⟨decision sql, rfl⟩
  | malloc allocator size => exact ⟨some 0, fun h => by cases h⟩
  | strdup allocator string => exact ⟨some 0, fun h => by cases h⟩
  | bind | step | finalize | close => exact ⟨.ok, trivial⟩
  | columnType => exact ⟨.null, trivial⟩
  | uninitialised => exact ⟨⟨⟨0, .empty, fun _ => '0'⟩, 0, 0, 0⟩, trivial⟩
  | _ => exact ⟨default, trivial⟩

section Alike

variable {q : SelectRequest} {n : ℤ} {v : Verdict}

theorem SelectedTables.nonempty (t : SelectedTables) : t.tables.tablesDesc ≠ [] := by
  cases t with
  | one tableDesc getRow => exact List.cons_ne_nil _ _
  | two table1 name1 table2 name2 join getRow1 getRow2 => exact List.cons_ne_nil _ _

def SelectRequest.openVerdict (q : SelectRequest) (decision : Text → DbCode × Option Handle) :
    Verdict :=
  requestVerdict (iterateBuilt decision q.tables.tables.tablesDesc) q.conn q.columnsName
    q.tables.tables q.filter

def SelectRequest.listVerdict (q : SelectRequest) (decision : Text → DbCode × Option Handle) :
    Verdict :=
  requestVerdict (selectBuilt decision q.tables.tables.tablesDesc) q.conn q.columnsName
    q.tables.tables q.filter

theorem verdicts_of_readable (h : q.Readable) : q.openVerdict decision = q.listVerdict decision ∧
    ∀ why, q.listVerdict decision ≠ .halted why := by
  unfold SelectRequest.openVerdict SelectRequest.listVerdict requestVerdict
  cases hconn : q.conn with
  | none => exact ⟨rfl, fun why => Verdict.noConfusion⟩
  | some conn =>
  cases hargs : checkSelectArgs q.columnsName q.filter with
  | error e => exact ⟨rfl, fun why => Verdict.noConfusion⟩
  | ok columns =>
  dsimp only
  split
  · exact ⟨rfl, fun why => Verdict.noConfusion⟩
  · next hcolumns =>
      have hread := h columns (by rw [hconn]; rfl) hargs
        fun table htable hzero => hcolumns ⟨table, htable, hzero⟩
      cases hstmt : q.tables.tables.stmt columns.chars (q.filter.map CString.chars) with
      | error e =>
          obtain ⟨e, b⟩ := e
          rw [hstmt] at hread
          cases e with
          | code e => exact ⟨rfl, fun why => Verdict.noConfusion⟩
          | halt why => exact hread.elim
      | ok b =>
          rw [hstmt] at hread
          obtain ⟨code, selected, hparse⟩ := returns_iff.mpr hread
          dsimp only
          unfold iterateBuilt selectBuilt
          rw [hparse]
          dsimp only
          refine ⟨rfl, fun why => ?_⟩
          split
          · exact Verdict.noConfusion
          · exact Verdict.noConfusion

theorem openVerdict_halted (h : ¬ q.Readable) : ∃ why, q.openVerdict decision = .halted why := by
  unfold SelectRequest.Readable at h
  simp only [not_forall] at h
  obtain ⟨columns, hconn, hargs, hcolumns, hno⟩ := h
  obtain ⟨conn, hconn⟩ := Option.isSome_iff_exists.mp hconn
  have hsome : ¬ ∃ table ∈ q.tables.tables.tablesDesc, table.columnsNum = 0 := by
    rintro ⟨table, htable, hzero⟩
    exact hcolumns table htable hzero
  unfold SelectRequest.openVerdict requestVerdict
  rw [hconn, hargs]
  dsimp only
  rw [if_neg hsome]
  cases hstmt : q.tables.tables.stmt columns.chars (q.filter.map CString.chars) with
  | error e =>
      obtain ⟨e, b⟩ := e
      rw [hstmt] at hno
      cases e with
      | code e => exact absurd trivial hno
      | halt why => exact ⟨why, rfl⟩
  | ok b =>
      rw [hstmt] at hno
      dsimp only at hno ⊢
      unfold iterateBuilt
      cases hparse : columnsNameToSelectColumns q.tables.tables.tablesDesc columns with
      | error why => exact ⟨why, rfl⟩
      | ok r => exact absurd (returns_iff.mp ⟨r.1, r.2, hparse⟩) hno

/-- Opening an iterator can only come to its verdict. -/
theorem openComes_sound (h : q.OpenComes decision v) :
    v = q.openVerdict decision ∨ v = .halted .exit := by
  have hanswers := answers_of_decides decision
  have hends : EndsIn (Answers decision True) q.iterateOpen
      (Comes True openedVerdict (q.openVerdict decision)) :=
    ends_sormSelectIterateByOpen _ _ _ q.tables.nonempty
  cases v with
  | passed =>
      obtain ⟨opened, hreaches, hcode⟩ := h
      have hverdict : openedVerdict opened = q.openVerdict decision :=
        hends.ends _ (hreaches.mono hanswers)
      rw [← hverdict, openedVerdict, if_pos hcode]
      exact Or.inl rfl
  | refused code =>
      obtain ⟨opened, hreaches, rfl, hcode⟩ := h
      have hverdict : openedVerdict opened = q.openVerdict decision :=
        hends.ends _ (hreaches.mono hanswers)
      rw [← hverdict, openedVerdict, if_neg hcode]
      exact Or.inl rfl
  | halted why =>
      rcases hends.ends _ (h.mono hanswers) with hverdict | ⟨rfl, -⟩
      · exact Or.inl hverdict.symm
      · exact Or.inr rfl

/-- With memory, opening an iterator comes to its verdict. -/
theorem openComes_verdict (hv : ∀ why, q.openVerdict decision ≠ .halted why) :
    q.OpenComes decision (q.openVerdict decision) := by
  have hends : EndsIn (Answers decision False) q.iterateOpen
      (Comes False openedVerdict (q.openVerdict decision)) :=
    ends_sormSelectIterateByOpen _ _ _ q.tables.nonempty
  obtain ⟨x, hx⟩ := Prog.exists_reaches (answers_total decision) q.iterateOpen
  have hcomes := hends.ends x hx
  have hdecides := hx.mono (decides_of_answers decision)
  cases x with
  | error why =>
      rcases hcomes with hverdict | ⟨-, hno⟩
      · exact absurd hverdict (hv why)
      · exact hno.elim
  | ok opened =>
      have hverdict : openedVerdict opened = q.openVerdict decision := hcomes
      rw [← hverdict]
      unfold openedVerdict
      split
      · next hcode => exact ⟨opened, hdecides, hcode⟩
      · next hcode => exact ⟨opened, hdecides, rfl, hcode⟩

theorem select_opening (selectCore : SelectCore RowList) :
    q.select selectCore n = selectOpening q.conn q.columnsName q.tables.tables q.tables.wants
      q.filter (some n) >>= selectRest selectCore q.allocator :=
  select_eq selectCore q.conn q.allocator q.columnsName q.tables.tables q.tables.wants q.filter
    (some n)

/-- How a select can end that stops at once in its core. -/
theorem reaches_select_stop {why : Halt} {y : Except Halt (Selected RowList)}
    (h : Reaches (Decides decision) (q.select (fun _ _ _ _ _ => .stop why) n) y) :
    (∃ selected, y = .ok selected ∧ q.listVerdict decision = .refused selected.code) ∨
      (y = .error why ∧ q.listVerdict decision = .passed) ∨
      ∃ why', y = .error why' ∧ (q.listVerdict decision = .halted why' ∨ why' = .exit) := by
  have hends : EndsIn (Answers decision True)
      (selectOpening (ρ := RowList) q.conn q.columnsName q.tables.tables q.tables.wants q.filter
        (some n)) (Comes True openingVerdict (q.listVerdict decision)) :=
    ends_selectOpening _ _ q.tables.nonempty _ _
  rw [select_opening] at h
  rcases Prog.reaches_bind.mp h with ⟨r, hr, hy⟩ | ⟨why', hwhy, rfl⟩
  · have hverdict : openingVerdict r = q.listVerdict decision :=
      hends.ends _ (hr.mono (answers_of_decides decision))
    cases r with
    | inl selected =>
        exact Or.inl ⟨selected, Prog.reaches_pure.mp hy, hverdict.symm⟩
    | inr loop =>
        exact Or.inr (Or.inl ⟨Prog.reaches_stop.mp hy, hverdict.symm⟩)
  · refine Or.inr (Or.inr ⟨why', rfl, ?_⟩)
    exact (hends.ends _ (hwhy.mono (answers_of_decides decision))).imp_right And.left

/-- A list select can only come to its verdict. -/
theorem listComes_sound (hv : ∀ why, q.listVerdict decision ≠ .halted why)
    (h : q.ListComes decision n v) : v = q.listVerdict decision ∨ v = .halted .exit := by
  cases v with
  | passed =>
      obtain ⟨tr, htr, conn, handle, tables, m, hcore⟩ := h
      obtain ⟨k, hemits⟩ := hcore fun _ _ _ _ _ => .stop .abort
      have hreaches : Reaches (Decides decision) (q.select (fun _ _ _ _ _ => .stop .abort) n)
        (.error .abort) := ⟨tr, htr, hemits⟩
      rcases reaches_select_stop hreaches with
        ⟨selected, hy, -⟩ | ⟨-, hverdict⟩ | ⟨why, hy, hverdict⟩
      · cases hy
      · exact Or.inl hverdict.symm
      · cases hy
        rcases hverdict with hverdict | hexit
        · exact absurd hverdict (hv _)
        · cases hexit
  | refused code =>
      obtain ⟨tr, htr, hcore⟩ := h
      obtain ⟨selected, hemits, rfl⟩ := hcore fun _ _ _ _ _ => .stop .abort
      have hreaches : Reaches (Decides decision) (q.select (fun _ _ _ _ _ => .stop .abort) n)
        (.ok selected) := ⟨tr, htr, hemits⟩
      rcases reaches_select_stop hreaches with
        ⟨selected', hy, hverdict⟩ | ⟨hy, -⟩ | ⟨why, hy, -⟩
      · cases hy
        exact Or.inl hverdict.symm
      · cases hy
      · cases hy
  | halted why =>
      obtain ⟨tr, htr, hcore⟩ := h
      have hreaches : ∀ why', Reaches (Decides decision)
        (q.select (fun _ _ _ _ _ => .stop why') n) (.error why) := fun why' => ⟨tr, htr, hcore _⟩
      rcases reaches_select_stop (hreaches .abort) with
        ⟨selected, hy, -⟩ | ⟨hy, -⟩ | ⟨why', hy, hverdict⟩
      · cases hy
      · cases hy
        rcases reaches_select_stop (hreaches .exit) with ⟨selected, hy, -⟩ | ⟨hy, -⟩ | ⟨why', hy, hverdict⟩
        · cases hy
        · cases hy
        · cases hy
          rcases hverdict with hverdict | hexit
          · exact absurd hverdict (hv _)
          · cases hexit
      · cases hy
        rcases hverdict with hverdict | rfl
        · exact absurd hverdict (hv _)
        · exact Or.inr rfl

/-- With memory, a list select comes to its verdict. -/
theorem listComes_verdict (hv : ∀ why, q.listVerdict decision ≠ .halted why) :
    q.ListComes decision n (q.listVerdict decision) := by
  have hends : EndsIn (Answers decision False)
      (selectOpening (ρ := RowList) q.conn q.columnsName q.tables.tables q.tables.wants q.filter
        (some n)) (Comes False openingVerdict (q.listVerdict decision)) :=
    ends_selectOpening _ _ q.tables.nonempty _ _
  obtain ⟨x, hx⟩ := Prog.exists_reaches (answers_total decision)
    (selectOpening (ρ := RowList) q.conn q.columnsName q.tables.tables q.tables.wants q.filter
      (some n))
  have hcomes := hends.ends x hx
  obtain ⟨tr, htr, hemits⟩ := hx.mono (decides_of_answers decision)
  cases x with
  | error why =>
      rcases hcomes with hverdict | ⟨-, hno⟩
      · exact absurd hverdict (hv why)
      · exact hno.elim
  | ok r =>
      have hverdict : openingVerdict r = q.listVerdict decision := hcomes
      rw [← hverdict]
      have hselect : ∀ selectCore, (q.select selectCore n).Emits tr
          (selectRest selectCore q.allocator r) := by
        intro selectCore
        rw [select_opening]
        exact hemits.bind (selectRest selectCore q.allocator)
      cases r with
      | inl selected => exact ⟨tr, htr, fun selectCore => ⟨selected, hselect selectCore, rfl⟩⟩
      | inr loop =>
          exact ⟨tr, htr, loop.conn, loop.stmtHandle, loop.tables, loop.maxRowsNum,
            fun selectCore => ⟨_, hselect selectCore⟩⟩

/-- Opening an iterator and selecting a list come to the same verdict exactly when the request can
be read. -/
theorem alike_iff (decision : Text → DbCode × Option Handle) (q : SelectRequest) (n : ℤ) :
    q.Alike decision n ↔ q.Readable := by
  constructor
  · rintro ⟨v, hv, hopen, -, -⟩
    by_contra hread
    have hhalts : ∃ why, q.openVerdict decision = .halted why := openVerdict_halted hread
    obtain ⟨why, hhalted⟩ := hhalts
    rcases openComes_sound hopen with rfl | rfl
    · exact hv why hhalted
    · exact hv _ rfl
  · intro hread
    have hverdicts : q.openVerdict decision = q.listVerdict decision ∧
        ∀ why, q.listVerdict decision ≠ .halted why := verdicts_of_readable hread
    obtain ⟨hsame, hv⟩ := hverdicts
    refine ⟨q.listVerdict decision, hv, ?_, listComes_verdict hv, ?_⟩
    · have hopen : q.OpenComes decision (q.openVerdict decision) := by
        apply openComes_verdict
        rw [hsame]
        exact hv
      rw [← hsame]
      exact hopen
    · rintro v' (hv' | hv')
      · rw [← hsame]
        exact openComes_sound hv'
      · exact listComes_sound hv hv'

end Alike

def unknownColumn : SelectRequest where
  conn := some ⟨0, 1024, 0⟩
  allocator := .libc
  tables := .one deviceTable true
  columnsName := some ⟨"invalid".toList, by decide⟩
  filter := none

theorem not_alike : ¬ ∀ (decision : Text → DbCode × Option Handle) (q : SelectRequest) (n : ℤ),
    q.Alike decision n := by
  intro h
  obtain ⟨v, hv, hopen, -, -⟩ := h (fun _ => (.other 1, none)) unknownColumn 0
  have hhalted : unknownColumn.openVerdict (fun _ => (.other 1, none)) = .halted .abort := by decide
  rcases openComes_sound hopen with rfl | rfl
  · exact hv _ hhalted
  · exact hv _ rfl

end Sorm
