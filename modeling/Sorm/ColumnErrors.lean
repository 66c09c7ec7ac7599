import Sorm.ColumnItems

/-!
# Errors of the column list

`_columns_name_to_select_columns` keeps no error code of an item: an item with an unknown table
before its `.` is skipped, an unknown column runs into the `assert(0)`, and a first item of blanks
makes `trim` leave the buffer. So the errors are reported as they should be exactly when there are
none to report.
-/

namespace Sorm

def itemsOf (columnsName : CString) : List Text := columnsName.chars.splitOn ','

/-- How the errors of a column list are to be reported: the function returns, its code tells
whether every item is known, and nothing is selected from an unknown item on. -/
structure ReportsErrors (tablesDesc : List TableDescriptor) (columnsName : CString) : Prop where
  returns : ∃ code selected,
    columnsNameToSelectColumns tablesDesc columnsName = .ok (code, selected)
  ok : (∀ item ∈ itemsOf columnsName, Known tablesDesc (trimmed item)) →
    ∃ selected, columnsNameToSelectColumns tablesDesc columnsName = .ok (.ok, selected)
  invalid : (∃ item ∈ itemsOf columnsName, ¬ Known tablesDesc (trimmed item)) →
    ∃ selected, columnsNameToSelectColumns tablesDesc columnsName =
      .ok (.invalidColumnName, selected)
  stops : ∀ before item after, itemsOf columnsName = before ++ item :: after →
    ¬ Known tablesDesc (trimmed item) →
      ∀ code selected, columnsNameToSelectColumns tablesDesc columnsName = .ok (code, selected) →
        ∃ m, selectItems tablesDesc before [] ⟨tablesDesc.map SelectColumns.unselected, 0⟩ = .ok m ∧
          selected = m.selected

/-- The first item is not all blanks and tabs. -/
def StartsNamed (items : List Text) : Prop := ∀ first ∈ items.head?, trimmed first ≠ []

variable {tablesDesc : List TableDescriptor} {columnsName : CString}

/-- The loop gets to the end of the list when every item of it is found or skipped. -/
theorem selectItems_ok_iff {items : List Text} {left : Text} {m : ResultMap}
    (hnul : ∀ item ∈ items, '\x00' ∉ item) (hstart : StartsNamed items ∨ ∃ l, left = '\x00' :: l) :
    (∃ m', selectItems tablesDesc items left m = .ok m') ↔ ∀ item ∈ items,
      Names tablesDesc (trimmed item) ∨ UnknownTable tablesDesc (trimmed item) := by
  induction items generalizing left m with
  | nil => simp [selectItems]
  | cons item items ih =>
      have hfirst : trimmed item ≠ [] ∨ ∃ l, left = '\x00' :: l :=
        hstart.imp_left fun h => h item rfl
      obtain ⟨l, hround⟩ := selectItems_cons tablesDesc (hnul item List.mem_cons_self)
        hfirst items m
      have hrest : ∀ m, (∃ m', selectItems tablesDesc items ('\x00' :: l) m = .ok m') ↔
          ∀ item ∈ items, Names tablesDesc (trimmed item) ∨ UnknownTable tablesDesc (trimmed item) :=
        fun m => ih (fun item h => hnul item (List.mem_cons_of_mem _ h)) (Or.inr ⟨l, rfl⟩)
      rw [hround, List.forall_mem_cons]
      rcases columnNameToIndexInTables_cases tablesDesc (trimmed item) with
        ⟨hnames, i, j, hlookup⟩ | ⟨hunknown, hlookup⟩ | ⟨hnames, hunknown, hlookup⟩
      · rw [hlookup, ← hrest]
        exact (and_iff_right (Or.inl hnames)).symm
      · rw [hlookup, ← hrest]
        exact (and_iff_right (Or.inr hunknown)).symm
      · rw [hlookup]
        simp only [hnames, hunknown, or_self, false_and, iff_false]
        rintro ⟨m', h⟩
        cases h

theorem columnsNameToSelectColumns_code {code : SormError} {selected : List SelectColumns}
    (h : columnsNameToSelectColumns tablesDesc columnsName = .ok (code, selected)) : code = .ok := by
  unfold columnsNameToSelectColumns at h
  cases hloop : selectItems tablesDesc (columnsName.chars.splitOn ',') []
      ⟨tablesDesc.map SelectColumns.unselected, 0⟩ with
  | error why =>
      rw [hloop] at h
      cases h
  | ok m =>
      rw [hloop] at h
      cases h
      rfl

/-- The function returns when the first item is not blank and every item is found or skipped. -/
theorem returns_iff : (∃ code selected,
      columnsNameToSelectColumns tablesDesc columnsName = .ok (code, selected)) ↔
    StartsNamed (itemsOf columnsName) ∧ ∀ item ∈ itemsOf columnsName,
      Names tablesDesc (trimmed item) ∨ UnknownTable tablesDesc (trimmed item) := by
  have hloop : (∃ code selected,
        columnsNameToSelectColumns tablesDesc columnsName = .ok (code, selected)) ↔
      ∃ m, selectItems tablesDesc (itemsOf columnsName) []
        ⟨tablesDesc.map SelectColumns.unselected, 0⟩ = .ok m := by
    unfold columnsNameToSelectColumns itemsOf
    cases selectItems tablesDesc (columnsName.chars.splitOn ',') []
        ⟨tablesDesc.map SelectColumns.unselected, 0⟩ with
    | error why => simp [bind, Except.bind]
    | ok m => simp [bind, Except.bind, pure, Except.pure]
  have hnul : ∀ item ∈ itemsOf columnsName, '\x00' ∉ item := fun item h => nul_notMem_item h
  rw [hloop]
  by_cases hstart : StartsNamed (itemsOf columnsName)
  · rw [selectItems_ok_iff hnul (Or.inl hstart), and_iff_right hstart]
  · simp only [hstart, false_and, iff_false]
    rintro ⟨m, hm⟩
    cases hitems : itemsOf columnsName with
    | nil => exact hstart (by simp [StartsNamed, hitems])
    | cons item items =>
        have hblank : trimmed item = [] := by simpa [StartsNamed, hitems] using hstart
        rw [hitems, selectItems_first_blank hblank] at hm
        cases hm

/-- The errors of a column list are reported exactly when it has none, and its first item is not
all blanks and tabs. -/
theorem reportsErrors_iff (tablesDesc : List TableDescriptor) (columnsName : CString) :
    ReportsErrors tablesDesc columnsName ↔ StartsNamed (itemsOf columnsName) ∧
      ∀ item ∈ itemsOf columnsName, Names tablesDesc (trimmed item) := by
  constructor
  · intro h
    obtain ⟨hstart, hitems⟩ := returns_iff.mp h.returns
    refine ⟨hstart, fun item hitem => (hitems item hitem).resolve_right fun hunknown => ?_⟩
    obtain ⟨selected, hinvalid⟩ := h.invalid ⟨item, hitem, hunknown.not_known⟩
    have hcode := columnsNameToSelectColumns_code hinvalid
    cases hcode
  · rintro ⟨hstart, hitems⟩
    have hknown : ∀ item ∈ itemsOf columnsName, Known tablesDesc (trimmed item) :=
      fun item hitem => (hitems item hitem).known
    obtain ⟨code, selected, hret⟩ :=
      returns_iff.mpr ⟨hstart, fun item hitem => Or.inl (hitems item hitem)⟩
    have hcode := columnsNameToSelectColumns_code hret
    rw [hcode] at hret
    exact {
      returns := ⟨.ok, selected, hret⟩
      ok := fun _ => ⟨selected, hret⟩
      invalid := fun ⟨item, hitem, hno⟩ => absurd (hknown item hitem) hno
      stops := fun before item after hsplit hno =>
        absurd (hknown item (hsplit ▸ List.mem_append_right _ List.mem_cons_self)) hno }

def deviceTable : TableDescriptor where
  name := "device".toList
  size := 96
  columns := [⟨"id".toList, .int, .pk, .none, 0, false, [], []⟩,
    ⟨"name".toList, .text, .none, .stack, 31, false, [], []⟩]
  pkIndex := some 0
  createSql := none

def volumeTable : TableDescriptor where
  name := "volume".toList
  size := 96
  columns := [⟨"id".toList, .int, .pk, .none, 0, false, [], []⟩,
    ⟨"device_id".toList, .int, .none, .none, 0, true, "device".toList, "id".toList⟩]
  pkIndex := some 0
  createSql := none

def misspeltTable : CString := ⟨"devise.name, name".toList, by decide⟩

/-- The misspelt item is skipped, and the one after it gets the first result position. -/
theorem not_reportsErrors : ¬ ∀ (tablesDesc : List TableDescriptor) (columnsName : CString),
    tablesDesc ≠ [] → columnsName.chars ≠ [] → ReportsErrors tablesDesc columnsName := by
  intro h
  have hreports := h [deviceTable] misspeltTable (by decide) (by decide)
  have hunknown : ¬ Known [deviceTable] (trimmed "devise.name".toList) :=
    UnknownTable.not_known (show ∀ table ∈ [deviceTable], table.name ≠ "devise".toList by decide)
  obtain ⟨selected, hinvalid⟩ := hreports.invalid ⟨"devise.name".toList, by decide, hunknown⟩
  have hret : columnsNameToSelectColumns [deviceTable] misspeltTable =
    .ok (.ok, [⟨1, [none, some 0]⟩]) := by decide
  rw [hret] at hinvalid
  cases hinvalid

end Sorm
