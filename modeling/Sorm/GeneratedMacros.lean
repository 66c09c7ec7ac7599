import Sorm.FunctionsAgree

/-!
# The macros of the generated header

The names that the header defines. The lengths of the columns are defined before the names of the
columns, and where a length and a name are called the same, the latter counts.
-/

namespace Sorm

open CReader ParserLex

def maxLenName (t : GenTable) (column : ColumnDesc) : Text :=
  caseLower2upper t.name ++ "__".toList ++ caseLower2upper column.nameText ++ "__MAX_LEN".toList

def columnMacroName (t : GenTable) (column : ColumnDesc) : Text :=
  "COLUMN__".toList ++ caseLower2upper t.name ++ "__".toList ++ caseLower2upper column.nameText

section Column
variable (t : GenTable) (i : ℕ) (column : ColumnDesc)

theorem render_names : render (t.value i column) upperTableName = caseLower2upper t.name ∧
    render (t.value i column) upperColumnName = caseLower2upper column.nameText ∧
    render (t.value i column) tableName = t.name ∧
    render (t.value i column) columnName = column.nameText :=
  ⟨List.append_nil _, List.append_nil _, List.append_nil _, List.append_nil _⟩

theorem macros_maxLen : macros (roundItems t (fun _ => some maxLenMacro) i column) =
    [(maxLenName t column, [.word (printInt column.maxLen)])] := by
  obtain ⟨htable, hcolumn, -, -⟩ := render_names t i column
  have hmaxLen : render (t.value i column) [.hole .maxLen] = printInt column.maxLen :=
    List.append_nil _
  rw [roundItems, Option.getD_some, maxLenMacro_items.2]
  simp only [List.map_cons, List.map_nil, Item.map, mapTokens, Token.map, render_append,
    render_lit, htable, hcolumn, hmaxLen]
  rfl

theorem macros_columnName : macros (roundItems t (fun _ => some columnMacro) i column) =
    [(columnMacroName t column, [.str (t.name ++ ".".toList ++ column.nameText)])] := by
  obtain ⟨hupper, hupperColumn, htable, hcolumn⟩ := render_names t i column
  rw [roundItems, Option.getD_some, columnMacro_items.2]
  simp only [List.map_cons, List.map_nil, Item.map, mapTokens, Token.map, render_append,
    render_lit, hupper, hupperColumn, htable, hcolumn]
  rfl

end Column

theorem macros_each (t : GenTable) {round : ColumnDesc → Option Template}
    {entry : ColumnDesc → Text × List (Token Text)}
    (h : ∀ i column, macros (roundItems t round i column) = [entry column]) :
    macros (Part.items t (.each round)) = t.columns.map entry := by
  rw [Part.items]
  generalize 0 = i
  induction t.columns generalizing i with
  | nil => rfl
  | cons column columns ih =>
      rw [columnsItems, macros_append, h, ih, List.map_cons]
      rfl

theorem subjects_columnsItems (t : GenTable) {round : ColumnDesc → Option Template}
    {columns : List ColumnDesc}
    (h : ∀ column ∈ columns, subjects (itemsIn ((round column).getD [])) = []) (i : ℕ) :
    subjects (columnsItems t round i columns) = [] := by
  induction columns generalizing i with
  | nil => rfl
  | cons column columns ih =>
      rw [List.forall_mem_cons] at h
      rw [columnsItems, subjects_append, ih h.2, roundItems, subjects_map, h.1]
      rfl

theorem subjects_each {t : GenTable} {round : ColumnDesc → Option Template}
    (h : ∀ column ∈ t.columns, subjects (itemsIn ((round column).getD [])) = []) :
    subjects (Part.items t (.each round)) = [] := subjects_columnsItems t h 0

theorem subjects_once (t : GenTable) {names : List Template} {gs : Template}
    (h : subjects (itemsIn gs) = names) : subjects (Part.items t (.once gs)) =
      names.map (render (t.value 0 .zero)) := by
  rw [Part.items, subjects_map, h]

section Parsed
variable {t : GenTable} (ht : t.Parsed)
include ht

theorem setRounds_subjects : subjects (Part.items t (.each headerSetRound)) = [] :=
  subjects_each fun column hmem => (setRounds_agree (ht.columns column hmem)).subjects_eq

theorem deleteRounds_subjects : subjects (Part.items t (.each headerDeleteRound)) = [] := by
  refine subjects_each fun column hmem => ?_
  by_cases hblob : column.indexedBlob
  · rw [(indexedBlob_rounds hblob).1]
    rfl
  · exact (deleteRounds_agree (ht.columns column hmem) (Bool.not_eq_true _ ▸ hblob)).subjects_eq

theorem selectRounds_subjects : subjects (Part.items t (.each headerSelectRound)) = [] := by
  refine subjects_each fun column hmem => ?_
  by_cases hblob : column.indexedBlob
  · rw [(indexedBlob_rounds hblob).2.1]
    rfl
  · exact (selectRounds_agree (ht.columns column hmem) (Bool.not_eq_true _ ▸ hblob)).subjects_eq

theorem funcs_subjects : subjects (partsItems t headerGenerateFuncs) =
    [t.name ++ "_select_iterate_close".toList, t.name ++ "_select_iterate_more".toList] := by
  have hcreate : subjects (partsItems t headerGenerateFuncCreateTable) = [] := by
    rw [partsItems_once createTable_agree.1, subjects_map, createTable_agree.2.2.2]
    rfl
  have hone : ∀ gs, partsItems t [.once gs] = Part.items t (.once gs) :=
    fun _ => List.append_nil _
  have hnewLine : subjects (Part.items t (.once newLine)) = [] := by
    rw [← hone]
    exact newLineGroup.subjects_eq t
  have hdelete : subjects (Part.items t (.once headerDeleteFuncs)) = [] := by
    rw [← hone]
    exact deleteGroup.subjects_eq t
  have hselect : subjects (Part.items t (.once headerSelectFuncs)) =
      [tableName ++ lit "_select_iterate_close", tableName ++ lit "_select_iterate_more"].map
        (render (t.value 0 .zero)) := by
    rw [← hone]
    exact selectGroup.subjects_eq t
  simp only [List.map_cons, List.map_nil, render_tableName] at hselect
  have hindex : subjects (partsItems t headerGenerateFuncIndex) = [] := indexGroup.subjects_eq t
  have hfirst : firstGroups.flatMap FunctionGroup.names = [] := rfl
  have hnext : nextGroups.flatMap FunctionGroup.names = [] := rfl
  have hnil : partsItems t [] = [] := rfl
  rw [headerGenerateFuncs_eq, headerGenerateFuncSetMem, headerGenerateFuncDelete,
    headerGenerateFuncSelect]
  simp only [partsItems_append, partsItems_cons, subjects_append, subjects_headerParts,
    hfirst, hnext, hcreate, setRounds_subjects ht, hnewLine, hdelete,
    deleteRounds_subjects ht, selectRounds_subjects ht, hselect, hindex, hnil, List.map_nil,
    empty_append, List.append_nil]

/-- The header, by the names that its directives are about. -/
theorem header_split (more : List (Token Text)) : ∃ front middle back,
    headerItems t more = front ++ (Part.items t (.each fun _ => some maxLenMacro) ++
      (middle ++ (Part.items t (.each fun _ => some columnMacro) ++ back))) ∧
    subjects front = [caseLower2upper t.name ++ "_SORM_H".toList,
      caseLower2upper t.name ++ "_SORM_H".toList] ∧
    subjects middle = [caseLower2upper t.name ++ "__ALL_COLUMNS".toList,
      "TABLE__".toList ++ caseLower2upper t.name] ∧
    subjects back = ["DESC__".toList ++ caseLower2upper t.name,
      t.name ++ "_list_for_each".toList, t.name ++ "_list_for_each_safe".toList,
      caseLower2upper t.name ++ "_INIT".toList, t.name ++ "_select_iterate_close".toList,
      t.name ++ "_select_iterate_more".toList] := by
  obtain ⟨first, second, third, hdefine, hfirst, hsecond, hthird⟩ := define_parts
  obtain ⟨hupper, -, htable, -⟩ := render_names t 0 .zero
  have hfirst' := subjects_once t hfirst.subjects_eq
  have hsecond' := subjects_once t hsecond.subjects_eq
  have hthird' := subjects_once t hthird.subjects_eq
  simp only [List.map_cons, List.map_nil, render_append, render_lit, hupper, htable]
    at hfirst' hsecond' hthird'
  refine ⟨Part.items t (.once first), Part.items t (.once second), Part.items t (.once third) ++
    (structItems t ++ ((.directive (initHead t ++ more) :: initItems t) ++
      (partsItems t headerGenerateFuncs ++ [.directive [.word "endif".toList]]))), ?_, hfirst',
    hsecond', ?_⟩
  · rw [headerItems, hdefine]
    simp only [partsItems_cons, List.append_assoc]
    rfl
  · have hstruct : subjects (structItems t) = [] := rfl
    have hline : subjects (.directive (initHead t ++ more) :: initItems t) =
        (caseLower2upper t.name ++ "_INIT".toList) :: subjects (initItems t) := rfl
    have hitems : subjects (initItems t) = [] := by
      rw [initItems, subjects_map, initFunction_plain.subjects_eq]
      rfl
    have hend : subjects [.directive [.word "endif".toList]] = [] := rfl
    rw [subjects_append, subjects_append, subjects_append, subjects_append, hthird', hstruct, hline,
      hitems, funcs_subjects ht, hend]
    rfl

end Parsed

theorem getLast?_maxLenName (t : GenTable) (column : ColumnDesc) :
    (maxLenName t column).getLast? = some 'N' := by
  rw [maxLenName, List.getLast?_append]
  rfl

theorem length_maxLenName (t : GenTable) (column : ColumnDesc) :
    (maxLenName t column).length = t.name.length + column.nameText.length + 11 := by
  have hlengths : "__".toList.length = 2 ∧ "__MAX_LEN".toList.length = 9 := ⟨rfl, rfl⟩
  simp only [maxLenName, List.length_append, caseLower2upper, List.length_map, hlengths.1,
    hlengths.2]
  omega

/-- No other directive is about the length of a column. -/
theorem maxLenName_not_mem (t : GenTable) (column : ColumnDesc) :
    maxLenName t column ∉ [caseLower2upper t.name ++ "_SORM_H".toList,
      caseLower2upper t.name ++ "__ALL_COLUMNS".toList, "TABLE__".toList ++ caseLower2upper t.name,
      "DESC__".toList ++ caseLower2upper t.name, t.name ++ "_list_for_each".toList,
      t.name ++ "_list_for_each_safe".toList, caseLower2upper t.name ++ "_INIT".toList,
      t.name ++ "_select_iterate_close".toList, t.name ++ "_select_iterate_more".toList] := by
  have hlast := getLast?_maxLenName t column
  have hlength := length_maxLenName t column
  have hbehind : ∀ (a : Text) (s : Text), s.getLast? ≠ none → s.getLast? ≠ some 'N' →
      maxLenName t column ≠ a ++ s := by
    intro a s hsome hs h
    rw [h, List.getLast?_append] at hlast
    cases hlast' : s.getLast? with
    | none => exact hsome hlast'
    | some c =>
        rw [hlast'] at hlast hs
        exact hs hlast
  have hshort : ∀ s : Text, s.length < 11 → maxLenName t column ≠ s ++ caseLower2upper t.name := by
    intro s hs h
    rw [h, List.length_append, caseLower2upper, List.length_map] at hlength
    omega
  simp only [List.mem_cons, List.not_mem_nil, or_false, not_or]
  refine ⟨hbehind _ _ ?_ ?_, hbehind _ _ ?_ ?_, hshort _ ?_, hshort _ ?_, hbehind _ _ ?_ ?_,
    hbehind _ _ ?_ ?_, hbehind _ _ ?_ ?_, hbehind _ _ ?_ ?_, hbehind _ _ ?_ ?_⟩
  all_goals decide

/-- Items about other names alone do not define the length of a column. -/
theorem not_mem_macros {t : GenTable} {column : ColumnDesc} {items : List (Item Text)}
    {names : List Text} (h : subjects items = names) (hnot : maxLenName t column ∉ names)
    (value : List (Token Text)) : (maxLenName t column, value) ∉ macros items := by
  intro hmem
  rw [← h] at hnot
  exact hnot (mem_subjects_of_macros hmem)

/-- No part of the header apart from the columns' own defines the length of a column. -/
theorem maxLenName_not_mem_parts (t : GenTable) (column : ColumnDesc) :
    maxLenName t column ∉ [caseLower2upper t.name ++ "_SORM_H".toList,
      caseLower2upper t.name ++ "_SORM_H".toList] ∧
    maxLenName t column ∉ [caseLower2upper t.name ++ "__ALL_COLUMNS".toList,
      "TABLE__".toList ++ caseLower2upper t.name] ∧
    maxLenName t column ∉ ["DESC__".toList ++ caseLower2upper t.name,
      t.name ++ "_list_for_each".toList, t.name ++ "_list_for_each_safe".toList,
      caseLower2upper t.name ++ "_INIT".toList, t.name ++ "_select_iterate_close".toList,
      t.name ++ "_select_iterate_more".toList] := by
  have hnot := maxLenName_not_mem t column
  simp only [List.mem_cons, List.not_mem_nil, or_false, not_or] at hnot ⊢
  obtain ⟨hguard, hall, htable, hdesc, heach, hsafe, hinit, hclose, hmore⟩ := hnot
  exact ⟨⟨hguard, hguard⟩, ⟨hall, htable⟩, hdesc, heach, hsafe, hinit, hclose, hmore⟩

theorem upper_injOn {c c' : Char} (h : isNameChar c) (h' : isNameChar c')
    (heq : (if c ≤ 'z' ∧ c ≥ 'a' then Char.ofNat (c.toNat - 32) else c) =
      if c' ≤ 'z' ∧ c' ≥ 'a' then Char.ofNat (c'.toNat - 32) else c') : c = c' := by
  have hbounds : ∀ c : Char, isNameChar c → 97 ≤ c.toNat ∧ c.toNat ≤ 122 ∨ c.toNat = 95 ∨
      48 ≤ c.toNat ∧ c.toNat ≤ 57 := by
    intro c h
    have hletters : 'a'.val.toNat = 97 ∧ 'z'.val.toNat = 122 ∧ '0'.val.toNat = 48 ∧
        '9'.val.toNat = 57 := ⟨rfl, rfl, rfl, rfl⟩
    have hval : c.toNat = c.val.toNat := rfl
    have hisLower : c.isLower = (decide (c.val ≥ 'a'.val) && decide (c.val ≤ 'z'.val)) := rfl
    rw [isNameChar, Bool.or_eq_true, Bool.or_eq_true, decide_eq_true_eq] at h
    obtain (hlower | rfl) | hdigit := h
    · simp only [hisLower, Bool.and_eq_true, decide_eq_true_eq, ge_iff_le,
        UInt32.le_iff_toNat_le] at hlower
      omega
    · exact Or.inr (Or.inl rfl)
    · simp only [Char.isDigit, Bool.and_eq_true, decide_eq_true_eq, ge_iff_le,
        UInt32.le_iff_toNat_le] at hdigit
      omega
  have hnat : ∀ c : Char, isNameChar c →
      (if c ≤ 'z' ∧ c ≥ 'a' then Char.ofNat (c.toNat - 32) else c).toNat =
        if 97 ≤ c.toNat then c.toNat - 32 else c.toNat := by
    intro c h
    have hcases := hbounds c h
    by_cases hlower : 97 ≤ c.toNat
    · have hle : c ≤ 'z' ∧ c ≥ 'a' := ⟨(by omega : c.toNat ≤ 122), hlower⟩
      rw [if_pos hle, if_pos hlower, Char.ofNat, dif_pos (Or.inl (by omega))]
      rfl
    · rw [if_neg fun hle => hlower hle.2, if_neg hlower]
  have hvalues := congrArg Char.toNat heq
  rw [hnat c h, hnat c' h'] at hvalues
  have hcases := hbounds c h
  have hcases' := hbounds c' h'
  apply Char.toNat_inj.mp
  split_ifs at hvalues <;> omega

theorem caseLower2upper_injOn {w w' : Text} (h : ∀ c ∈ w, isNameChar c)
    (h' : ∀ c ∈ w', isNameChar c) (heq : caseLower2upper w = caseLower2upper w') : w = w' := by
  induction w generalizing w' with
  | nil => exact (List.map_eq_nil_iff.mp heq.symm).symm
  | cons c w ih =>
      cases w' with
      | nil => cases heq
      | cons c' w' =>
          rw [List.forall_mem_cons] at h h'
          obtain ⟨hhead, htail⟩ := List.cons.inj heq
          rw [upper_injOn h.1 h'.1 hhead, ih h.2 h'.2 htail]

section Values
variable {t : GenTable} (ht : t.Parsed) {column : ColumnDesc} (hmem : column ∈ t.columns)
  (more : List (Token Text))
include ht hmem

theorem maxLenName_injOn {column' : ColumnDesc} (hmem' : column' ∈ t.columns)
    (h : maxLenName t column = maxLenName t column') : column.nameText = column'.nameText := by
  have hrest := List.append_cancel_left (List.append_cancel_right h)
  exact caseLower2upper_injOn (ht.columns column hmem).isParsedName.2
    (ht.columns column' hmem').isParsedName.2 hrest

/-- The length of a column is found if no column's name is defined under the same one. -/
theorem macroValue_maxLen (hnames : (t.columns.map ColumnDesc.nameText).Nodup)
    (hno : ∀ column' ∈ t.columns, maxLenName t column ≠ columnMacroName t column') :
    macroValue (headerItems t more) (maxLenName t column) =
      some [.word (printInt column.maxLen)] := by
  obtain ⟨front, middle, back, hsplit, hfront, hmiddle, hback⟩ := header_split ht more
  obtain ⟨hnotFront, hnotMiddle, hnotBack⟩ := maxLenName_not_mem_parts t column
  have hlengths := macros_each t (macros_maxLen t)
  have hcolumns := macros_each t (macros_columnName t)
  apply macroValue_eq
  · rw [hsplit, macros_append, macros_append, hlengths]
    exact List.mem_append_right _ (List.mem_append_left _
      (List.mem_map.mpr ⟨column, hmem, rfl⟩))
  · intro value hvalue
    rw [hsplit] at hvalue
    simp only [macros_append, List.mem_append, hlengths, hcolumns] at hvalue
    rcases hvalue with hvalue | hvalue | hvalue | hvalue | hvalue
    · exact absurd hvalue (not_mem_macros hfront hnotFront value)
    · obtain ⟨column', hmem', heq⟩ := List.mem_map.mp hvalue
      obtain ⟨hname, rfl⟩ := Prod.mk.inj heq
      have htext := maxLenName_injOn ht hmem hmem' hname.symm
      rw [List.inj_on_of_nodup_map hnames hmem hmem' htext]
    · exact absurd hvalue (not_mem_macros hmiddle hnotMiddle value)
    · obtain ⟨column', hmem', heq⟩ := List.mem_map.mp hvalue
      exact absurd (Prod.mk.inj heq).1.symm (hno column' hmem')
    · exact absurd hvalue (not_mem_macros hback hnotBack value)

omit hmem in
/-- Else the name of a column is found in its place. -/
theorem macroValue_columnName {column' : ColumnDesc} (hmem' : column' ∈ t.columns)
    (h : maxLenName t column = columnMacroName t column') :
    ∃ name, macroValue (headerItems t more) (maxLenName t column) = some [.str name] := by
  obtain ⟨front, middle, back, hsplit, -, -, hback⟩ := header_split ht more
  obtain ⟨-, -, hnotBack⟩ := maxLenName_not_mem_parts t column
  have hcolumns := macros_each t (macros_columnName t)
  have hdefined : (maxLenName t column, [.str (t.name ++ ".".toList ++ column'.nameText)]) ∈
      macros (Part.items t (.each fun _ => some columnMacro) ++ back) := by
    rw [macros_append, hcolumns, h]
    exact List.mem_append_left _ (List.mem_map.mpr ⟨column', hmem', rfl⟩)
  obtain ⟨value, hvalue⟩ := macroValue_isSome hdefined
  have hvalue' := mem_of_macroValue hvalue
  rw [macros_append, hcolumns, List.mem_append] at hvalue'
  rcases hvalue' with hvalue' | hvalue'
  · obtain ⟨column'', -, heq⟩ := List.mem_map.mp hvalue'
    obtain ⟨-, rfl⟩ := Prod.mk.inj heq
    refine ⟨t.name ++ ".".toList ++ column''.nameText, ?_⟩
    rw [hsplit, ← List.append_assoc, ← List.append_assoc, macroValue_append hdefined, hvalue]
  · exact absurd hvalue' (not_mem_macros hback hnotBack value)

end Values

end Sorm
