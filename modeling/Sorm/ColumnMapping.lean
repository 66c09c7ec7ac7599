import Sorm.ColumnErrors

/-!
# The result positions of a column list

What a column list stands for is the list of the columns its items denote, in order; `Maps` says
that the selected columns of each table point to their positions in it. Every branch of the loop
of `_columns_name_to_select_columns` keeps the map in step with the columns listed so far.
-/

namespace Sorm

def IsNameChar (c : Char) : Prop := ('a' ≤ c ∧ c ≤ 'z') ∨ c = '_' ∨ ('0' ≤ c ∧ c ≤ '9')

instance : DecidablePred IsNameChar := fun _ => inferInstanceAs (Decidable (_ ∨ _ ∨ _))

def IsName (name : Text) : Prop := name ≠ [] ∧ ∀ c ∈ name, IsNameChar c

instance : DecidablePred IsName := fun name =>
  have : Decidable (∀ c ∈ name, IsNameChar c) := List.decidableBAll IsNameChar name
  inferInstanceAs (Decidable (name ≠ [] ∧ ∀ c ∈ name, IsNameChar c))

/-- Tables as a select is given them. -/
structure WellNamed (tablesDesc : List TableDescriptor) : Prop where
  nonempty : tablesDesc ≠ []
  tableNames : ∀ table ∈ tablesDesc, IsName table.name
  columnNames : ∀ table ∈ tablesDesc, ∀ column ∈ table.columns, IsName column.name
  distinctTables : (tablesDesc.map TableDescriptor.name).Nodup
  distinctColumns : ∀ table ∈ tablesDesc, (table.columns.map ColumnDescriptor.name).Nodup

def tableRefs (i : ℕ) (table : TableDescriptor) : List (ℕ × ℕ) :=
  (List.range table.columnsNum).map fun j => (i, j)

def allRefs : List TableDescriptor → ℕ → List (ℕ × ℕ)
  | [], _ => []
  | table :: tables, i => tableRefs i table ++ allRefs tables (i + 1)

/-- The columns a trimmed item of the list stands for. -/
inductive Denotes (tablesDesc : List TableDescriptor) : Text → List (ℕ × ℕ) → Prop
  | all : Denotes tablesDesc ['*'] (allRefs tablesDesc 0)
  | table {i : ℕ} {table : TableDescriptor} (ht : tablesDesc[i]? = some table) :
      Denotes tablesDesc (table.name ++ ['.', '*']) (tableRefs i table)
  | qualified {i j : ℕ} {table : TableDescriptor} {column : ColumnDescriptor}
      (ht : tablesDesc[i]? = some table) (hc : table.columns[j]? = some column) :
      Denotes tablesDesc (table.name ++ '.' :: column.name) [(i, j)]
  | column {i j : ℕ} {table : TableDescriptor} {column : ColumnDescriptor}
      (ht : tablesDesc[i]? = some table) (hc : table.columns[j]? = some column)
      (hfirst : ∀ earlier ∈ tablesDesc.take i, ∀ c ∈ earlier.columns, c.name ≠ column.name) :
      Denotes tablesDesc column.name [(i, j)]

/-- The selected columns of table `i` point to their positions in `refs`. -/
structure MapsTable (refs : List (ℕ × ℕ)) (i : ℕ) (table : TableDescriptor)
    (select : SelectColumns) : Prop where
  length : select.indexesInResult.length = table.columnsNum
  selected : ∀ j < table.columnsNum, (i, j) ∈ refs →
    ∃ p, select.indexesInResult[j]? = some (some p) ∧ refs[p]? = some (i, j)
  unselected : ∀ j < table.columnsNum, (i, j) ∉ refs → select.indexesInResult[j]? = some none
  count : select.columnsNum = ((Finset.range table.columnsNum).filter fun j => (i, j) ∈ refs).card

def Maps (tablesDesc : List TableDescriptor) (refs : List (ℕ × ℕ)) (selected : List SelectColumns) :
    Prop :=
  selected.length = tablesDesc.length ∧ ∀ i table select, tablesDesc[i]? = some table →
    selected[i]? = some select → MapsTable refs i table select

variable {tablesDesc : List TableDescriptor} {refs new : List (ℕ × ℕ)} {i j : ℕ}
  {table : TableDescriptor} {select : SelectColumns}

theorem position_append {p : ℕ} {ref : ℕ × ℕ} (h : refs[p]? = some ref) :
    (refs ++ new)[p]? = some ref := by
  rw [List.getElem?_append_left (List.getElem?_eq_some_iff.mp h).1, h]

/-- Columns of other tables leave a table as it is. -/
theorem MapsTable.append_other (h : MapsTable refs i table select) (hnew : ∀ j, (i, j) ∉ new) :
    MapsTable (refs ++ new) i table select := by
  have hmem : ∀ j, (i, j) ∈ refs ++ new ↔ (i, j) ∈ refs := by simp [hnew]
  refine ⟨h.length, fun j hj hin => ?_, fun j hj hout => ?_, ?_⟩
  · obtain ⟨p, hp, hrefs⟩ := h.selected j hj ((hmem j).mp hin)
    exact ⟨p, hp, position_append hrefs⟩
  · exact h.unselected j hj (fun hin => hout ((hmem j).mpr hin))
  · simp only [hmem, h.count]

/-- All columns of a table, listed from a position on. -/
theorem MapsTable.all {start : ℕ} (h : ∀ j < table.columnsNum, refs[start + j]? = some (i, j)) :
    MapsTable refs i table (.all table start) := by
  have hmem : ∀ j < table.columnsNum, (i, j) ∈ refs :=
    fun j hj => List.mem_of_getElem? (h j hj)
  refine ⟨by simp [SelectColumns.all], fun j hj _ => ⟨start + j, ?_, h j hj⟩,
    fun j hj hout => absurd (hmem j hj) hout, ?_⟩
  · simp [SelectColumns.all, hj]
  · rw [Finset.filter_true_of_mem fun j hj => hmem j (Finset.mem_range.mp hj)]
    simp [SelectColumns.all]

/-- One more column at the end: it gets that position unless it has one already. -/
theorem MapsTable.one (h : MapsTable refs i table select) (hj : j < table.columnsNum) :
    MapsTable (refs ++ [(i, j)]) i table (select.one j refs.length) := by
  have hmem : ∀ k, (i, k) ∈ refs ++ [(i, j)] ↔ (i, k) ∈ refs ∨ k = j := by simp
  by_cases hin : (i, j) ∈ refs
  · obtain ⟨p, hp, -⟩ := h.selected j hj hin
    have hkeep : select.one j refs.length = select := by simp [SelectColumns.one, hp]
    have hsame : ∀ k, (i, k) ∈ refs ++ [(i, j)] ↔ (i, k) ∈ refs := by
      intro k
      rw [hmem, or_iff_left_of_imp]
      rintro rfl
      exact hin
    rw [hkeep]
    refine ⟨h.length, fun k hk hkin => ?_, fun k hk hkout => ?_, ?_⟩
    · obtain ⟨q, hq, hrefs⟩ := h.selected k hk ((hsame k).mp hkin)
      exact ⟨q, hq, position_append hrefs⟩
    · exact h.unselected k hk (fun hkin => hkout ((hsame k).mpr hkin))
    · simp only [hsame, h.count]
  · have hone : select.one j refs.length =
        ⟨select.columnsNum + 1, select.indexesInResult.set j (some refs.length)⟩ := by
      rw [SelectColumns.one, if_pos (h.unselected j hj hin)]
    have hlt : j < select.indexesInResult.length := by rw [h.length]; exact hj
    rw [hone]
    refine ⟨by simpa using h.length, fun k hk hkin => ?_, fun k hk hkout => ?_, ?_⟩
    · by_cases hkj : k = j
      · subst hkj
        exact ⟨refs.length, by simp [hlt], by simp⟩
      · obtain ⟨q, hq, hrefs⟩ := h.selected k hk (((hmem k).mp hkin).resolve_right hkj)
        refine ⟨q, ?_, position_append hrefs⟩
        rw [List.getElem?_set_ne (Ne.symm hkj), hq]
    · have hkj : k ≠ j := fun hkj => hkout ((hmem k).mpr (Or.inr hkj))
      rw [List.getElem?_set_ne (Ne.symm hkj)]
      exact h.unselected k hk (fun hkin => hkout ((hmem k).mpr (Or.inl hkin)))
    · have hinsert : ((Finset.range table.columnsNum).filter fun k => (i, k) ∈ refs ++ [(i, j)]) =
          insert j ((Finset.range table.columnsNum).filter fun k => (i, k) ∈ refs) := by
        ext k
        simp only [Finset.mem_filter, Finset.mem_range, hmem, Finset.mem_insert]
        constructor
        · rintro ⟨hk, hkin | hkj⟩
          · exact Or.inr ⟨hk, hkin⟩
          · exact Or.inl hkj
        · rintro (rfl | ⟨hk, hkin⟩)
          · exact ⟨hj, Or.inr rfl⟩
          · exact ⟨hk, Or.inl hkin⟩
      rw [hinsert, Finset.card_insert_of_notMem (by simp [hin]), ← h.count]

theorem tableRefs_getElem? (i : ℕ) (table : TableDescriptor) (hj : j < table.columnsNum) :
    (tableRefs i table)[j]? = some (i, j) := by
  simp [tableRefs, hj]

theorem length_tableRefs (i : ℕ) (table : TableDescriptor) :
    (tableRefs i table).length = table.columnsNum := by
  simp [tableRefs]

theorem tableRefs_other {i k : ℕ} (hk : k ≠ i) (table : TableDescriptor) (j : ℕ) :
    (k, j) ∉ tableRefs i table := by
  simp [tableRefs, Ne.symm hk]

theorem length_allRefs (tablesDesc : List TableDescriptor) (i : ℕ) :
    (allRefs tablesDesc i).length = totalColumns tablesDesc := by
  induction tablesDesc generalizing i with
  | nil => rfl
  | cons table tables ih =>
      rw [allRefs, List.length_append, ih, length_tableRefs]
      rfl

theorem length_allTables (tablesDesc : List TableDescriptor) (start : ℕ) :
    (SelectColumns.allTables tablesDesc start).length = tablesDesc.length := by
  induction tablesDesc generalizing start with
  | nil => rfl
  | cons table tables ih => simp [SelectColumns.allTables, ih]

/-- The branch of `*` lists the tables one after the other; table `k` of the list has index
`i + k`. -/
theorem mapsTable_allTables {k : ℕ} (h : tablesDesc[k]? = some table)
    (hselect : (SelectColumns.allTables tablesDesc refs.length)[k]? = some select) :
    MapsTable (refs ++ allRefs tablesDesc i) (i + k) table select := by
  induction tablesDesc generalizing refs i k with
  | nil => cases h
  | cons first tables ih =>
      rw [allRefs, ← List.append_assoc]
      cases k with
      | zero =>
          cases h
          cases hselect
          apply MapsTable.all
          intro j hj
          apply position_append
          rw [List.getElem?_append_right (Nat.le_add_right _ _), Nat.add_sub_cancel_left]
          exact tableRefs_getElem? i table hj
      | succ k =>
          have hstart : (SelectColumns.allTables tables (refs ++ tableRefs i first).length)[k]? =
              some select := by
            rw [List.length_append, length_tableRefs]
            exact hselect
          have hrest : MapsTable ((refs ++ tableRefs i first) ++ allRefs tables (i + 1))
              (i + 1 + k) table select := ih h hstart
          rwa [Nat.add_right_comm] at hrest

/-- The map of the result after the columns `refs`. -/
structure Represents (tablesDesc : List TableDescriptor) (refs : List (ℕ × ℕ)) (m : ResultMap) :
    Prop where
  maps : Maps tablesDesc refs m.selected
  total : m.resultColumnsNum = refs.length

theorem Represents.start (tablesDesc : List TableDescriptor) :
    Represents tablesDesc [] ⟨tablesDesc.map SelectColumns.unselected, 0⟩ := by
  refine ⟨⟨by simp, fun i table select ht hs => ?_⟩, rfl⟩
  rw [List.getElem?_map, ht] at hs
  cases hs
  refine ⟨by simp [SelectColumns.unselected], fun j _ hin => absurd hin List.not_mem_nil,
    fun j hj _ => ?_, ?_⟩
  · simp [SelectColumns.unselected, hj]
  · simp [SelectColumns.unselected]

theorem Represents.add_all {m : ResultMap} (h : Represents tablesDesc refs m) :
    Represents tablesDesc (refs ++ allRefs tablesDesc 0) (m.add tablesDesc none none) := by
  refine ⟨⟨length_allTables .., fun i table select ht hs => ?_⟩, ?_⟩
  · rw [ResultMap.add, h.total] at hs
    have hall := mapsTable_allTables (i := 0) ht hs
    rwa [Nat.zero_add] at hall
  · rw [List.length_append, length_allRefs, ← h.total]
    rfl

/-- A branch that changes one table only. -/
theorem Maps.update {selected selected' : List SelectColumns} (h : Maps tablesDesc refs selected)
    (hlength : selected'.length = selected.length)
    (hother : ∀ k, k ≠ i → selected'[k]? = selected[k]? ∧ ∀ j, (k, j) ∉ new)
    (hi : ∀ table select, tablesDesc[i]? = some table → selected'[i]? = some select →
      MapsTable (refs ++ new) i table select) : Maps tablesDesc (refs ++ new) selected' := by
  refine ⟨hlength.trans h.1, fun k table select ht hs => ?_⟩
  by_cases hk : k = i
  · subst hk
    exact hi table select ht hs
  · obtain ⟨hkeep, hnew⟩ := hother k hk
    rw [hkeep] at hs
    exact (h.2 k table select ht hs).append_other hnew

theorem Represents.add_table {m : ResultMap} (h : Represents tablesDesc refs m)
    (ht : tablesDesc[i]? = some table) :
    Represents tablesDesc (refs ++ tableRefs i table) (m.add tablesDesc (some i) none) := by
  have hadd : m.add tablesDesc (some i) none =
      ⟨m.selected.set i (.all table refs.length), refs.length + table.columnsNum⟩ := by
    simp [ResultMap.add, ht, h.total]
  rw [hadd]
  refine ⟨h.maps.update (i := i) (by simp) (fun k hk => ?_) (fun table' select ht' hs => ?_), ?_⟩
  · exact ⟨List.getElem?_set_ne (Ne.symm hk), tableRefs_other hk table⟩
  · rw [ht] at ht'
    cases ht'
    have hlt : i < m.selected.length := by
      rw [h.maps.1]
      exact (List.getElem?_eq_some_iff.mp ht).1
    rw [List.getElem?_set_self hlt] at hs
    cases hs
    apply MapsTable.all
    intro j hj
    rw [List.getElem?_append_right (Nat.le_add_right _ _), Nat.add_sub_cancel_left]
    exact tableRefs_getElem? i table hj
  · rw [List.length_append, length_tableRefs]

theorem Represents.add_column {m : ResultMap} (h : Represents tablesDesc refs m)
    (ht : tablesDesc[i]? = some table) (hj : j < table.columnsNum) :
    Represents tablesDesc (refs ++ [(i, j)]) (m.add tablesDesc (some i) (some j)) := by
  have hadd : m.add tablesDesc (some i) (some j) =
      ⟨m.selected.modify i fun select => select.one j refs.length, refs.length + 1⟩ := by
    rw [ResultMap.add, h.total]
  rw [hadd]
  refine ⟨h.maps.update (i := i) (by simp) (fun k hk => ?_) (fun table' select ht' hs => ?_), ?_⟩
  · exact ⟨List.getElem?_modify_ne _ _ (Ne.symm hk), by simp [hk]⟩
  · rw [ht] at ht'
    cases ht'
    rw [List.getElem?_modify_eq] at hs
    obtain ⟨select₀, hs₀, rfl⟩ := Option.map_eq_some_iff.mp hs
    exact (h.maps.2 i table select₀ ht hs₀).one hj
  · simp

theorem IsName.dot_notMem {name : Text} (h : IsName name) : '.' ∉ name := by
  intro hmem
  have hdot := h.2 _ hmem
  revert hdot
  unfold IsNameChar
  decide

theorem IsName.ne_star {name : Text} (h : IsName name) : name ≠ ['*'] := by
  intro hstar
  have hchar := h.2 '*' (by simp [hstar])
  revert hchar
  unfold IsNameChar
  decide

theorem strchr_none {c : Char} {s : Text} (h : c ∉ s) : strchr c s = none := by
  induction s with
  | nil => rfl
  | cons d s ih =>
      rw [List.mem_cons, not_or] at h
      rw [strchr, if_neg (Ne.symm h.1), ih h.2]
      rfl

theorem strchr_append {c : Char} {s : Text} (h : c ∉ s) (rest : Text) :
    strchr c (s ++ c :: rest) = some (s, rest) := by
  induction s with
  | nil => simp [strchr]
  | cons d s ih =>
      rw [List.mem_cons, not_or] at h
      rw [List.cons_append, strchr, if_neg (Ne.symm h.1), ih h.2]
      rfl

/-- A name that occurs once is found where it is. -/
theorem findIdx?_of_nodup {α : Type} {f : α → Text} {l : List α} {a : α} {i : ℕ}
    (hl : (l.map f).Nodup) (h : l[i]? = some a) : l.findIdx? (fun b => f b == f a) = some i := by
  obtain ⟨hi, rfl⟩ := List.getElem?_eq_some_iff.mp h
  rw [List.findIdx?_eq_some_iff_getElem]
  refine ⟨hi, by simp, fun k hk hsame => ?_⟩
  have hname : (l.map f)[k]? = (l.map f)[i]? := by
    have hsame' : f (l[k]) = f (l[i]) := by simpa using hsame
    simp [hi, show k < l.length by omega, hsame']
  have hk' : k < (l.map f).length := by
    rw [List.length_map]
    omega
  have hki := (List.getElem?_inj hk' hl).mp hname
  omega

theorem findColumn_eq_some {column : ColumnDescriptor} (ht : tablesDesc[i]? = some table)
    (hdistinct : (table.columns.map ColumnDescriptor.name).Nodup)
    (hc : table.columns[j]? = some column)
    (hfirst : ∀ earlier ∈ tablesDesc.take i, ∀ c ∈ earlier.columns, c.name ≠ column.name) :
    findColumn column.name tablesDesc = some (i, j) := by
  induction tablesDesc generalizing i with
  | nil => cases ht
  | cons first tables ih =>
      cases i with
      | zero =>
          cases ht
          rw [findColumn, findIdx?_of_nodup hdistinct hc]
      | succ i =>
          have hnone : (first.columns.findIdx? fun c => c.name == column.name) = none := by
            rw [findIdx?_column]
            rintro ⟨c, hmem, hname⟩
            exact hfirst first (by simp) c hmem hname
          have hrest := ih ht fun earlier hmem => hfirst earlier (by simp [hmem])
          rw [findColumn, hnone]
          simp only [hrest, Option.map_some]

theorem Denotes.ne_nil {item : Text} (hnamed : WellNamed tablesDesc)
    (h : Denotes tablesDesc item new) : item ≠ [] := by
  cases h with
  | all => simp
  | table ht => simp
  | qualified ht hc => simp
  | column ht hc hfirst =>
      exact (hnamed.columnNames _ (List.mem_of_getElem? ht) _ (List.mem_of_getElem? hc)).1

/-- An item is looked up, and what its branch does adds the columns the item stands for. -/
theorem Denotes.step {item : Text} (hnamed : WellNamed tablesDesc)
    (h : Denotes tablesDesc item new) : ∃ tableIndex columnIndex,
      columnNameToIndexInTables tablesDesc item = .ok (.ok, tableIndex, columnIndex) ∧
      ∀ refs m, Represents tablesDesc refs m →
        Represents tablesDesc (refs ++ new) (m.add tablesDesc tableIndex columnIndex) := by
  cases h with
  | all => exact ⟨none, none, rfl, fun refs m hm => hm.add_all⟩
  | @table i table ht =>
      have hname := (hnamed.tableNames table (List.mem_of_getElem? ht)).dot_notMem
      refine ⟨some i, none, ?_, fun refs m hm => hm.add_table ht⟩
      rw [columnNameToIndexInTables, strchr_append hname]
      simp only [findIdx?_of_nodup hnamed.distinctTables ht, if_true]
  | @qualified i j table column ht hc =>
      have hname := (hnamed.tableNames table (List.mem_of_getElem? ht)).dot_notMem
      have hstar := (hnamed.columnNames table (List.mem_of_getElem? ht) column
        (List.mem_of_getElem? hc)).ne_star
      have hdistinct := hnamed.distinctColumns table (List.mem_of_getElem? ht)
      have hj : j < table.columnsNum := (List.getElem?_eq_some_iff.mp hc).1
      refine ⟨some i, some j, ?_, fun refs m hm => hm.add_column ht hj⟩
      rw [columnNameToIndexInTables, strchr_append hname]
      simp only [findIdx?_of_nodup hnamed.distinctTables ht, if_neg hstar, ht, Option.bind_some,
        findIdx?_of_nodup hdistinct hc]
  | @column i j table column ht hc hfirst =>
      have hcolumn := hnamed.columnNames table (List.mem_of_getElem? ht) column
        (List.mem_of_getElem? hc)
      have hdistinct := hnamed.distinctColumns table (List.mem_of_getElem? ht)
      have hj : j < table.columnsNum := (List.getElem?_eq_some_iff.mp hc).1
      refine ⟨some i, some j, ?_, fun refs m hm => hm.add_column ht hj⟩
      rw [columnNameToIndexInTables, strchr_none hcolumn.dot_notMem]
      simp only [if_neg hcolumn.ne_star, findColumn_eq_some ht hdistinct hc hfirst]

/-- The loop over the items keeps the map in step with the columns listed so far. -/
theorem selectItems_represents {items : List Text} {listed : List (List (ℕ × ℕ))} {m : ResultMap}
     (hnamed : WellNamed tablesDesc) (hnul : ∀ item ∈ items, '\x00' ∉ item)
    (hitems : List.Forall₂ (fun item refs => Denotes tablesDesc (trimmed item) refs) items listed)
    (hm : Represents tablesDesc refs m) (left : Text) : ∃ m',
      selectItems tablesDesc items left m = .ok m' ∧
        Represents tablesDesc (refs ++ listed.flatten) m' := by
  induction hitems generalizing left m refs with
  | nil => exact ⟨m, rfl, by simpa using hm⟩
  | @cons item new items listed hitem _ ih =>
      obtain ⟨tableIndex, columnIndex, hlookup, hadd⟩ := hitem.step hnamed
      have hstart : trimmed item ≠ [] ∨ ∃ l, left = '\x00' :: l := Or.inl (hitem.ne_nil hnamed)
      obtain ⟨l, hround⟩ := selectItems_cons tablesDesc (hnul item List.mem_cons_self) hstart items m
      obtain ⟨m', hrest, hm'⟩ := ih (fun item h => hnul item (List.mem_cons_of_mem _ h))
        (hadd refs m hm) ('\x00' :: l)
      refine ⟨m', ?_, ?_⟩
      · rw [hround, hlookup]
        exact hrest
      · rwa [List.flatten_cons, ← List.append_assoc]

/-- For a column list whose items name columns of the tables, the selected columns of every table
point to their positions in the list of all columns denoted. -/
theorem columnsNameToSelectColumns_maps (tablesDesc : List TableDescriptor) (columnsName : CString)
    (listed : List (List (ℕ × ℕ))) (hnamed : WellNamed tablesDesc)
    (hitems : List.Forall₂ (fun item refs => Denotes tablesDesc (trimmed item) refs)
      (itemsOf columnsName) listed) :
    ∃ selected, columnsNameToSelectColumns tablesDesc columnsName = .ok (.ok, selected) ∧
      Maps tablesDesc listed.flatten selected := by
  obtain ⟨m, hloop, hm⟩ := selectItems_represents hnamed (fun item h => nul_notMem_item h) hitems
    (Represents.start tablesDesc) []
  refine ⟨m.selected, ?_, by simpa using hm.maps⟩
  rw [columnsNameToSelectColumns, hloop]
  rfl

theorem findColumn_index {columnName : Text} {i j : ℕ}
    (h : findColumn columnName tablesDesc = some (i, j)) :
    ∃ table, tablesDesc[i]? = some table ∧ j < table.columnsNum := by
  induction tablesDesc generalizing i with
  | nil => cases h
  | cons table tables ih =>
      unfold findColumn at h
      split at h
      · next hj =>
        cases h
        exact ⟨table, rfl, (List.findIdx?_eq_some_iff_getElem.mp hj).1⟩
      · obtain ⟨⟨i', j'⟩, hfound, hpair⟩ := Option.map_eq_some_iff.mp h
        cases hpair
        exact ih hfound

/-- What is looked up with `SORM_OK` are columns of the tables. -/
theorem Represents.lookup {columnName : Text} {m : ResultMap} {found : SormError × Option ℕ × Option ℕ}
    (h : Represents tablesDesc refs m)
    (hfound : columnNameToIndexInTables tablesDesc columnName = .ok found) (hok : found.1 = .ok) :
    ∃ refs', Represents tablesDesc refs' (m.add tablesDesc found.2.1 found.2.2) := by
  unfold columnNameToIndexInTables at hfound
  split at hfound
  · split at hfound
    · cases hfound
      cases hok
    · next tableName columnName _ i hi =>
      have hlt := (List.findIdx?_eq_some_iff_getElem.mp hi).1
      have ht : tablesDesc[i]? = some tablesDesc[i] := List.getElem?_eq_getElem hlt
      split at hfound
      · cases hfound
        exact ⟨_, h.add_table ht⟩
      · rw [ht] at hfound
        split at hfound
        · next j hj =>
          cases hfound
          exact ⟨_, h.add_column ht (List.findIdx?_eq_some_iff_getElem.mp hj).1⟩
        · cases hfound
  · split at hfound
    · cases hfound
      exact ⟨_, h.add_all⟩
    · split at hfound
      · next i j hcolumn =>
        cases hfound
        obtain ⟨table, ht, hj⟩ := findColumn_index hcolumn
        exact ⟨_, h.add_column ht hj⟩
      · cases hfound

theorem selectItems_lookup {items : List Text} {left : Text} {m m' : ResultMap}
    (hret : selectItems tablesDesc items left m = .ok m') (hm : Represents tablesDesc refs m) :
    ∃ refs', Represents tablesDesc refs' m' := by
  induction items generalizing left m refs with
  | nil =>
      cases hret
      exact ⟨refs, hm⟩
  | cons item items ih =>
      unfold selectItems at hret
      cases htrim : trim left item with
      | error why =>
          rw [htrim] at hret
          cases hret
      | ok r =>
          rw [htrim] at hret
          change (columnNameToIndexInTables tablesDesc (r.2.takeWhile (· != '\x00')) >>= _) = _ at hret
          cases hname : columnNameToIndexInTables tablesDesc (r.2.takeWhile (· != '\x00')) with
          | error why =>
              rw [hname] at hret
              cases hret
          | ok found =>
              rw [hname] at hret
              by_cases hok : found.1 = .ok
              · obtain ⟨refs', hadd⟩ := hm.lookup hname hok
                have hrest : selectItems tablesDesc items ('\x00' :: (cutAtDot r.2).reverse ++ r.1)
                    (if found.1 = .ok then m.add tablesDesc found.2.1 found.2.2 else m) = .ok m' :=
                  hret
                rw [if_pos hok] at hrest
                exact ih hrest hadd
              · have hrest : selectItems tablesDesc items ('\x00' :: (cutAtDot r.2).reverse ++ r.1)
                    (if found.1 = .ok then m.add tablesDesc found.2.1 found.2.2 else m) = .ok m' :=
                  hret
                rw [if_neg hok] at hrest
                exact ih hrest hm

/-- Whatever the list, the result positions are those of some list of columns. -/
theorem columnsNameToSelectColumns_represents {columnsName : CString}
    {r : SormError × List SelectColumns}
    (h : columnsNameToSelectColumns tablesDesc columnsName = .ok r) :
    ∃ refs, Maps tablesDesc refs r.2 := by
  unfold columnsNameToSelectColumns at h
  cases hitems : selectItems tablesDesc (columnsName.chars.splitOn ',') []
      ⟨tablesDesc.map SelectColumns.unselected, 0⟩ with
  | error why =>
      rw [hitems] at h
      cases h
  | ok m =>
      rw [hitems] at h
      cases h
      obtain ⟨refs, hm⟩ := selectItems_lookup hitems (Represents.start tablesDesc)
      exact ⟨refs, hm.maps⟩

def joinColumns : CString := ⟨"device.*, device_id,\tvolume.id ,*, name".toList, by decide⟩

def joinedColumns : List (List (ℕ × ℕ)) :=
  [[(0, 0), (0, 1)], [(1, 1)], [(1, 0)], [(0, 0), (0, 1), (1, 0), (1, 1)], [(0, 1)]]

theorem columnsNameToSelectColumns_maps_join :
    ∃ selected, columnsNameToSelectColumns [deviceTable, volumeTable] joinColumns =
        .ok (.ok, selected) ∧
      Maps [deviceTable, volumeTable] joinedColumns.flatten selected := by
  have hnamed : WellNamed [deviceTable, volumeTable] :=
    ⟨by decide, by decide, by decide, by decide, by decide⟩
  have hitems : itemsOf joinColumns = ["device.*".toList, " device_id".toList,
    "\tvolume.id ".toList, ['*'], " name".toList] := by decide
  apply columnsNameToSelectColumns_maps [deviceTable, volumeTable] joinColumns joinedColumns hnamed
  have hdevice : Denotes [deviceTable, volumeTable] (deviceTable.name ++ ['.', '*']) _ :=
    .table (i := 0) rfl
  have hdeviceId : Denotes [deviceTable, volumeTable] volumeTable.columns[1].name _ :=
    .column (i := 1) (j := 1) rfl rfl (by decide)
  have hvolumeId : Denotes [deviceTable, volumeTable]
      (volumeTable.name ++ '.' :: volumeTable.columns[0].name) _ :=
    .qualified (i := 1) (j := 0) rfl rfl
  have hname : Denotes [deviceTable, volumeTable] deviceTable.columns[1].name _ :=
    .column (i := 0) (j := 1) rfl rfl (by decide)
  rw [hitems]
  exact .cons hdevice (.cons hdeviceId (.cons hvolumeId (.cons .all (.cons hname .nil))))

end Sorm
