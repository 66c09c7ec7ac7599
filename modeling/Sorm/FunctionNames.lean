import Sorm.GeneratedWrappers

/-!
# The functions of a table

The functions that the source defines have different names, as the columns have.
-/

namespace Sorm

open CReader ParserLex

def firstFunctions : List String :=
  ["_to_string", "_get_desc", "_new", "_new_array", "_free", "_free_array"]

def nextFunctions : List String := ["_delete_table", "_insert", "_replace", "_update"]

def deleteFunctions : List String := ["_delete", "_delete_by"]

def selectFunctions : List String :=
  ["_select_some_array_by", "_select_some_list_by", "_select_all_array_by",
    "_select_all_list_by", "_select_iterate_by_open", "_select_iterate_by"]

def indexFunctions : List String := ["_create_index", "_drop_index"]

def GenTable.indexed (t : GenTable) : List ColumnDesc :=
  t.columns.filter fun column => sormIsUniqueColumn column.constraint

def GenTable.suffixes (t : GenTable) : List Text :=
  (firstFunctions ++ "_create_table" :: nextFunctions).map String.toList ++
    (t.columns.map (wrapperSuffix "_set_") ++ (deleteFunctions.map String.toList ++
      (t.indexed.map (wrapperSuffix "_delete_by_") ++ (t.indexed.map (wrapperSuffix "_select_by_") ++
        (selectFunctions ++ indexFunctions).map String.toList))))

def GenTable.functionNames (t : GenTable) : List Text := t.suffixes.map (t.name ++ ·)

def namesOf (items : List (Item Text)) : List (Option Text) :=
  (definedHeads items).map functionName

theorem namesOf_append (items items' : List (Item Text)) :
    namesOf (items ++ items') = namesOf items ++ namesOf items' := by
  rw [namesOf, definedHeads_append, List.map_append]
  rfl

theorem namesOf_map {items : List (Item Template)} {suffixes : List String}
    (h : (definedHeads items).map functionName =
      suffixes.map fun suffix => some (tableName ++ lit suffix)) (t : GenTable) :
    namesOf (items.map (Item.map (render (t.value 0 .zero)))) =
      (suffixes.map String.toList).map fun suffix => some (t.name ++ suffix) := by
  rw [namesOf, definedHeads_map, List.map_map]
  have hmap : functionName ∘ mapTokens (render (t.value 0 .zero)) =
      Option.map (render (t.value 0 .zero)) ∘ functionName :=
    funext (functionName_map (render (t.value 0 .zero)))
  rw [hmap, ← List.map_map, h, List.map_map, List.map_map]
  refine List.map_congr_left fun suffix _ => ?_
  exact congrArg some (render_tableName t 0 .zero suffix)

/-- Functions that are called as the table with a suffix behind it. -/
structure NamedGroup where
  parts : List Part
  suffixes : List String
  named : closedOnce parts ∧ (definedHeads (onceItems parts)).map functionName =
    suffixes.map fun suffix => some (tableName ++ lit suffix)

theorem NamedGroup.namesOf_eq (g : NamedGroup) (t : GenTable) :
    namesOf (partsItems t g.parts) =
      (g.suffixes.map String.toList).map fun suffix => some (t.name ++ suffix) := by
  obtain ⟨hclosed, hnames⟩ := g.named
  rw [partsItems_once hclosed]
  exact namesOf_map hnames t

def firstNames : NamedGroup where
  parts := cGenerateFuncs
  suffixes := firstFunctions
  named := by
    unfold cGenerateFuncs cGenerateFuncToString cGenerateFuncGetDesc cGenerateFuncNew
      cGenerateFuncFree
    repeat rw [fprintf_eq rfl]
    decide +kernel

theorem names_createTable : (definedHeads (itemsIn createTableFunc)).map functionName =
    ["_create_table"].map fun suffix => some (tableName ++ lit suffix) := by
  unfold createTableFunc
  repeat rw [fprintf_eq rfl]
  decide +kernel

def nextNames : NamedGroup where
  parts := sourceParts nextGroups
  suffixes := nextFunctions
  named := by
    have hparts : sourceParts nextGroups =
        cGenerateFuncDeleteTable ++ (cGenerateFuncSave ++ (cGenerateFuncUpdate ++ [])) := rfl
    rw [hparts]
    unfold cGenerateFuncDeleteTable cGenerateFuncSave cGenerateFuncUpdate
    repeat rw [fprintf_eq rfl]
    decide +kernel

def deleteNames : NamedGroup where
  parts := cDeleteFuncs
  suffixes := deleteFunctions
  named := by
    unfold cDeleteFuncs
    repeat rw [fprintf_eq rfl]
    decide +kernel

def selectByNames : NamedGroup where
  parts := cSelectFuncs
  suffixes := selectFunctions
  named := by
    unfold cSelectFuncs
    repeat rw [fprintf_eq rfl]
    decide +kernel

def indexNames : NamedGroup where
  parts := cGenerateFuncIndex
  suffixes := indexFunctions
  named := by
    unfold cGenerateFuncIndex
    repeat rw [fprintf_eq rfl]
    decide +kernel

section Rounds
variable (t : GenTable) {round : ColumnDesc → Option Template} (i : ℕ) {column : ColumnDesc}

/-- What is printed for a wrapper is read as one. -/
theorem Wraps.read {g : Forwarder Template} (h : Wraps (round column) g) :
    ∃ d, defined (roundItems t round i column) = [d] ∧
      forwarder "return".toList d = some (g.map (render (t.value i column))) := by
  obtain ⟨d, hd, hforwarder⟩ := List.map_eq_singleton_iff.mp h
  refine ⟨(mapTokens (render (t.value i column)) d.1, mapTokens (render (t.value i column)) d.2),
    ?_, ?_⟩
  · rw [roundItems, defined_map, hd, List.map_singleton]
  · have hread := forwarder_map (render (t.value i column)) hforwarder
    rw [render_lit] at hread
    exact hread

theorem setRound_read (h : column.Parsed) :
    ∃ d, defined (roundItems t cSetRound i column) = [d] ∧
      forwarder "return".toList d = some (setWrapper (t.words i column) column.type) := by
  have hread := (cSetRound_wraps h).read t i
  rwa [setWrapper_map, templateWords_map] at hread

section Indexed
variable (h : column.Parsed) (hunique : sormIsUniqueColumn column.constraint)
  (hblob : column.indexedBlob = false)
include h hunique hblob

theorem deleteRound_read : ∃ d, defined (roundItems t cDeleteRound i column) = [d] ∧
    forwarder "return".toList d = some (deleteWrapper (t.words i column) column.type) := by
  have hread := (cDeleteRound_wraps h hunique hblob).read t i
  rwa [deleteWrapper_map, templateWords_map] at hread

theorem selectRound_read : ∃ d, defined (roundItems t cSelectRound i column) = [d] ∧
    forwarder "return".toList d = some (selectWrapper (t.words i column) column.type) := by
  have hread := (cSelectRound_wraps h hunique hblob).read t i
  rwa [selectWrapper_map, templateWords_map] at hread

end Indexed

theorem namesOf_round {g : Forwarder Text}
    (h : ∃ d, defined (roundItems t round i column) = [d] ∧
      forwarder "return".toList d = some g) :
    namesOf (roundItems t round i column) = [some g.name] := by
  obtain ⟨d, hd, hforwarder⟩ := h
  rw [namesOf, definedHeads, hd, List.map_singleton, List.map_singleton,
    functionName_of_forwarder hforwarder]

end Rounds

theorem namesOf_columns (t : GenTable) {round : ColumnDesc → Option Template}
    {names : ColumnDesc → List (Option Text)} {columns : List ColumnDesc}
    (h : ∀ i, ∀ column ∈ columns, namesOf (roundItems t round i column) = names column) (i : ℕ) :
    namesOf (columnsItems t round i columns) = columns.flatMap names := by
  induction columns generalizing i with
  | nil => rfl
  | cons column columns ih =>
      have hrest := ih (fun i' column' hmem => h i' column' (List.mem_cons_of_mem _ hmem)) (i + 1)
      rw [columnsItems, namesOf_append, h i column List.mem_cons_self, hrest, List.flatMap_cons]

theorem flatMap_indexed (t : GenTable) (columns : List ColumnDesc) (purpose : String) :
    (columns.flatMap fun column =>
      if sormIsUniqueColumn column.constraint then
        [some (t.name ++ wrapperSuffix purpose column)]
      else []) =
      ((columns.filter fun column => sormIsUniqueColumn column.constraint).map
        (wrapperSuffix purpose)).map fun suffix => some (t.name ++ suffix) := by
  induction columns with
  | nil => rfl
  | cons column columns ih =>
      rw [List.flatMap_cons, ih, List.filter_cons]
      by_cases hunique : sormIsUniqueColumn column.constraint
      · rw [if_pos hunique, if_pos hunique]
        rfl
      · rw [if_neg hunique, if_neg hunique]
        rfl

/-- The functions of a loop that prints one for each indexed column. -/
theorem namesOf_indexed (t : GenTable) {round : ColumnDesc → Option Template} {purpose : String}
    (hother : ∀ column : ColumnDesc, ¬ sormIsUniqueColumn column.constraint →
      round column = some [])
    (hround : ∀ i, ∀ column ∈ t.columns, sormIsUniqueColumn column.constraint →
      namesOf (roundItems t round i column) = [some (t.name ++ wrapperSuffix purpose column)]) :
    namesOf ((Part.each round).items t) =
      (t.indexed.map (wrapperSuffix purpose)).map fun suffix => some (t.name ++ suffix) := by
  have hcolumns : ∀ i, ∀ column ∈ t.columns, namesOf (roundItems t round i column) =
      if sormIsUniqueColumn column.constraint then
        [some (t.name ++ wrapperSuffix purpose column)]
      else [] := by
    intro i column hmem
    by_cases hunique : sormIsUniqueColumn column.constraint
    · rw [if_pos hunique, hround i column hmem hunique]
    · rw [if_neg hunique, roundItems, hother column hunique]
      rfl
  rw [Part.items, namesOf_columns t hcolumns 0]
  exact flatMap_indexed t t.columns purpose

section Names
variable {t : GenTable} (ht : t.Parsed)
  (hblob : ∀ column ∈ t.columns, column.indexedBlob = false)
include ht

theorem namesOf_set : namesOf ((Part.each cSetRound).items t) =
    (t.columns.map (wrapperSuffix "_set_")).map fun suffix => some (t.name ++ suffix) := by
  have hround : ∀ i, ∀ column ∈ t.columns, namesOf (roundItems t cSetRound i column) =
      [some (t.name ++ wrapperSuffix "_set_" column)] := fun i column hmem =>
    namesOf_round t i (setRound_read t i (ht.columns column hmem))
  have hcolumns := namesOf_columns t hround 0
  rw [Part.items, hcolumns, List.map_map]
  exact List.flatMap_pure_eq_map _ _

include hblob

theorem namesOf_delete : namesOf ((Part.each cDeleteRound).items t) =
    (t.indexed.map (wrapperSuffix "_delete_by_")).map fun suffix => some (t.name ++ suffix) := by
  refine namesOf_indexed t (fun column hunique => if_neg hunique) fun i column hmem hunique => ?_
  exact namesOf_round t i
    (deleteRound_read t i (ht.columns column hmem) hunique (hblob column hmem))

theorem namesOf_selectBy : namesOf ((Part.each cSelectRound).items t) =
    (t.indexed.map (wrapperSuffix "_select_by_")).map fun suffix => some (t.name ++ suffix) := by
  refine namesOf_indexed t (fun column hunique => if_neg hunique) fun i column hmem hunique => ?_
  exact namesOf_round t i
    (selectRound_read t i (ht.columns column hmem) hunique (hblob column hmem))

/-- The names of the functions that the source defines. -/
theorem namesOf_cItems : namesOf (cItems t) = t.functionNames.map some := by
  have hfirst : namesOf (partsItems t cGenerateFuncs) = _ := firstNames.namesOf_eq t
  have hcreate := namesOf_map names_createTable t
  have hnext : namesOf (partsItems t (sourceParts nextGroups)) = _ := nextNames.namesOf_eq t
  have hdelete : namesOf (partsItems t cDeleteFuncs) = _ := deleteNames.namesOf_eq t
  have hselect : namesOf (partsItems t cSelectFuncs) = _ := selectByNames.namesOf_eq t
  have hindex : namesOf (partsItems t cGenerateFuncIndex) = _ := indexNames.namesOf_eq t
  have hlast : namesOf (partsItems t cGenerateLast) =
      namesOf ((Part.each cSelectRound).items t) ++ (namesOf (partsItems t cSelectFuncs) ++
        namesOf (partsItems t cGenerateFuncIndex)) := by
    rw [cGenerateLast, cGenerateFuncSelect, partsItems_append, partsItems_cons, namesOf_append,
      namesOf_append, List.append_assoc]
  have hnames : ∀ items : List (Item Text), (definedHeads items).map functionName =
      namesOf items := fun _ => rfl
  rw [namesOf, definedHeads_map] at hcreate
  rw [namesOf, definedHeads_eq, headsBefore, headsBehind]
  simp only [List.map_append, hcreate, hnames, hlast, hfirst, hnext, hdelete, hselect, hindex,
    namesOf_set ht, namesOf_delete ht hblob, namesOf_selectBy ht hblob]
  simp only [GenTable.functionNames, GenTable.suffixes, firstNames, nextNames, deleteNames,
    selectByNames, indexNames, List.map_append, List.map_cons,
    List.map_nil, List.map_map, List.append_assoc, List.cons_append, List.nil_append,
    Function.comp_def]

end Names

/-- What a wrapper with some suffix is for. -/
def purposeOf (suffix : Text) : Option Text :=
  ["_set_".toList, "_delete_by_".toList, "_select_by_".toList].find? (·.isPrefixOf suffix)

def plainSuffixes : List Text :=
  (firstFunctions ++ "_create_table" :: nextFunctions ++ deleteFunctions ++
    (selectFunctions ++ indexFunctions)).map String.toList

theorem plainSuffixes_spec :
    plainSuffixes.Nodup ∧ plainSuffixes.all fun suffix => purposeOf suffix = none := by
  decide +kernel

theorem purposeOf_plain {suffix : Text} (h : suffix ∈ plainSuffixes) : purposeOf suffix = none :=
  of_decide_eq_true (List.all_eq_true.mp plainSuffixes_spec.2 suffix h)

def GenTable.wrapped (t : GenTable) : List (String × List ColumnDesc) :=
  [("_set_", t.columns), ("_delete_by_", t.indexed), ("_select_by_", t.indexed)]

def GenTable.wrapperSuffixes (t : GenTable) : List Text :=
  t.wrapped.flatMap fun w => w.2.map (wrapperSuffix w.1)

theorem suffixes_perm (t : GenTable) : t.suffixes.Perm (plainSuffixes ++ t.wrapperSuffixes) := by
  rw [List.perm_iff_count]
  intro suffix
  simp only [GenTable.suffixes, plainSuffixes, GenTable.wrapperSuffixes, GenTable.wrapped,
    List.flatMap_cons, List.flatMap_nil, List.map_append, List.count_append, List.count_nil]
  omega

theorem purposeOf_wrapper {t : GenTable} {w : String × List ColumnDesc} (h : w ∈ t.wrapped)
    (column : ColumnDesc) : purposeOf (wrapperSuffix w.1 column) = some w.1.toList := by
  simp only [GenTable.wrapped, List.mem_cons, List.not_mem_nil, or_false] at h
  rcases h with rfl | rfl | rfl <;>
  · unfold wrapperSuffix
    generalize column.nameText = name
    dsimp only
    rfl

/-- The purpose and the column of a wrapper are seen from its name. -/
theorem wrapperSuffix_inj {t : GenTable} {w w' : String × List ColumnDesc} (h : w ∈ t.wrapped)
    (h' : w' ∈ t.wrapped) {column column' : ColumnDesc}
    (heq : wrapperSuffix w.1 column = wrapperSuffix w'.1 column') :
    w.1 = w'.1 ∧ column.nameText = column'.nameText := by
  have hpurpose := (purposeOf_wrapper h column).symm.trans
    ((congrArg purposeOf heq).trans (purposeOf_wrapper h' column'))
  have hfirst : w.1 = w'.1 := String.toList_inj.mp (Option.some.inj hpurpose)
  rw [wrapperSuffix, wrapperSuffix, hfirst] at heq
  exact ⟨hfirst, List.append_cancel_left heq⟩

section Nodup
variable {t : GenTable} (hnames : (t.columns.map ColumnDesc.nameText).Nodup)
include hnames

theorem wrapperSuffixes_nodup : t.wrapperSuffixes.Nodup := by
  have hindexed : (t.indexed.map ColumnDesc.nameText).Nodup :=
    (List.Sublist.map _ List.filter_sublist).nodup hnames
  have hcolumns : ∀ w ∈ t.wrapped, (w.2.map ColumnDesc.nameText).Nodup := by
    intro w hw
    simp only [GenTable.wrapped, List.mem_cons, List.not_mem_nil, or_false] at hw
    rcases hw with rfl | rfl | rfl
    · exact hnames
    · exact hindexed
    · exact hindexed
  have hpurposes : t.wrapped.Pairwise fun w w' => w.1 ≠ w'.1 := by
    simp [GenTable.wrapped]
  rw [GenTable.wrapperSuffixes, List.nodup_flatMap]
  constructor
  · intro w hw
    have hnodup := (hcolumns w hw).map (List.append_right_injective w.1.toList)
    rwa [List.map_map] at hnodup
  · refine hpurposes.imp_of_mem fun {w w'} hw hw' hne suffix hmem hmem' => ?_
    obtain ⟨column, -, rfl⟩ := List.mem_map.mp hmem
    obtain ⟨column', -, heq⟩ := List.mem_map.mp hmem'
    exact hne (wrapperSuffix_inj hw hw' heq.symm).1

theorem functionNames_nodup : t.functionNames.Nodup := by
  refine List.Nodup.map (List.append_right_injective t.name) ?_
  rw [(suffixes_perm t).nodup_iff, List.nodup_append]
  refine ⟨plainSuffixes_spec.1, wrapperSuffixes_nodup hnames, ?_⟩
  intro suffix hmem suffix' hmem' heq
  obtain ⟨w, hw, hsuffix⟩ := List.mem_flatMap.mp hmem'
  obtain ⟨column, -, rfl⟩ := List.mem_map.mp hsuffix
  have hplain := purposeOf_plain hmem
  rw [heq, purposeOf_wrapper hw] at hplain
  cases hplain

end Nodup

/-- The wrappers among the functions. -/
theorem mem_functionNames {t : GenTable} {w : String × List ColumnDesc} (hw : w ∈ t.wrapped)
    {column : ColumnDesc} (h : t.name ++ wrapperSuffix w.1 column ∈ t.functionNames) :
    ∃ w' ∈ t.wrapped, w'.1 = w.1 ∧ ∃ column' ∈ w'.2, column'.nameText = column.nameText := by
  rw [GenTable.functionNames, List.mem_map_of_injective (List.append_right_injective t.name),
    (suffixes_perm t).mem_iff, List.mem_append] at h
  rcases h with h | h
  · have hplain := purposeOf_plain h
    rw [purposeOf_wrapper hw] at hplain
    cases hplain
  · obtain ⟨w', hw', hsuffix⟩ := List.mem_flatMap.mp h
    obtain ⟨column', hmem, heq⟩ := List.mem_map.mp hsuffix
    obtain ⟨hpurpose, hname⟩ := wrapperSuffix_inj hw' hw heq
    exact ⟨w', hw', hpurpose, column', hmem, hname⟩

end Sorm
