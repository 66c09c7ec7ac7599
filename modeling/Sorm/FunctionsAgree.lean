import Sorm.GeneratedFunctions

/-!
# The header and the source of a table

The header declares each function as often as the source defines it, unless there is a `DOUBLE`
column or an indexed `BLOB` column. Because of the one a setter is declared twice, because of the
other the source is not a sequence of functions at all.
-/

namespace Sorm

open CReader ParserLex

/-- Both files can be read, and what the one declares the other one defines. -/
def FunctionsAgree (header source : Text) : Prop :=
  ∃ hs cs, readUnit header = some hs ∧ readUnit source = some cs ∧
    (declared hs).Perm (definedHeads cs)

/-- Not by computation: the list is what a whole generator prints. -/
theorem empty_append {α : Type} (l : List α) : [] ++ l = l := by
  rw [List.nil_append]

theorem declared_columnsItems (t : GenTable) {round : ColumnDesc → Option Template}
    (columns : List ColumnDesc)
    (h : ∀ column, declared (itemsIn ((round column).getD [])) = []) (i : ℕ) :
    declared (columnsItems t round i columns) = [] := by
  induction columns generalizing i with
  | nil => rfl
  | cons column columns ih =>
      rw [columnsItems, declared_append, roundItems, declared_map, h column, ih (i + 1)]
      rfl

theorem definedHeads_columnsItems (t : GenTable) {round : ColumnDesc → Option Template}
    (columns : List ColumnDesc)
    (h : ∀ column, definedHeads (itemsIn ((round column).getD [])) = []) (i : ℕ) :
    definedHeads (columnsItems t round i columns) = [] := by
  induction columns generalizing i with
  | nil => rfl
  | cons column columns ih =>
      rw [columnsItems, definedHeads_append, roundItems, definedHeads_map, h column, ih (i + 1)]
      rfl

theorem declared_once (t : GenTable) {gs : Template} (h : declared (itemsIn gs) = []) :
    declared (Part.items t (.once gs)) = [] := by
  rw [Part.items, declared_map, h]
  rfl

theorem declared_each (t : GenTable) (round : ColumnDesc → Option Template)
    (h : ∀ column, declared (itemsIn ((round column).getD [])) = []) :
    declared (Part.items t (.each round)) = [] := declared_columnsItems t t.columns h 0

theorem partsItems_cons (t : GenTable) (part : Part) (parts : List Part) :
    partsItems t (part :: parts) = part.items t ++ partsItems t parts := by
  rw [partsItems, List.flatMap_cons, partsItems]

theorem declared_define (t : GenTable) : declared (partsItems t headerGenerateDefine) = [] := by
  obtain ⟨first, second, third, hdefine, hfirst, hsecond, hthird⟩ := define_parts
  have hmaxLen : declared (itemsIn maxLenMacro) = [] := by
    rw [maxLenMacro_items.2]
    rfl
  have hcolumn : declared (itemsIn columnMacro) = [] := by
    rw [columnMacro_items.2]
    rfl
  rw [hdefine]
  simp only [partsItems_cons, declared_append]
  rw [declared_once t hfirst.declared_eq, declared_once t hsecond.declared_eq,
    declared_once t hthird.declared_eq, declared_each t (fun _ => some maxLenMacro) fun _ => hmaxLen,
    declared_each t (fun _ => some columnMacro) fun _ => hcolumn]
  rfl

theorem declared_initItems (t : GenTable) : declared (initItems t) = [] := by
  rw [initItems, declared_map, initFunction_plain.declared_eq]
  rfl

/-- The functions that the header declares are those of its last part. -/
theorem declared_headerItems (t : GenTable) (more : List (Token Text)) :
    declared (headerItems t more) = declared (partsItems t headerGenerateFuncs) := by
  have hstruct : declared (structItems t) = [] := rfl
  have hline : declared (.directive (initHead t ++ more) :: initItems t) = declared (initItems t) :=
    List.filterMap_cons_none rfl
  have hend : declared [.directive [.word "endif".toList]] = [] := rfl
  rw [headerItems, declared_append, declared_append, declared_append, declared_append,
    declared_define, hstruct, hline, declared_initItems, hend]
  simp only [List.nil_append, List.append_nil]

theorem definedHeads_includes (t : GenTable) :
    definedHeads (partsItems t cGenerateIncludes) = [] := by
  have honce : definedHeads (itemsIn (includeHeader tableName)) = [] := by
    rw [includeHeader_table.2]
    rfl
  have hround : ∀ column : ColumnDesc,
      definedHeads (itemsIn ((includeRound column).getD [])) = [] := by
    intro column
    rw [includeRound, Option.getD_some]
    by_cases hforeign : column.isForeignKey
    · rw [if_pos hforeign, includeHeader_foreign.2]
      rfl
    · rw [if_neg hforeign]
      rfl
  unfold cGenerateIncludes
  simp only [partsItems_cons, definedHeads_append, Part.items, definedHeads_map, honce,
    definedHeads_columnsItems t t.columns hround]
  rfl

theorem definedHeads_deviceDesc (pkIndex : Option ℕ) :
    definedHeads (itemsIn (deviceDesc pkIndex)) = [] := by
  rw [(deviceDesc_items pkIndex).2]
  rfl

/-- The functions that the source defines, in the groups they are printed in. -/
theorem definedHeads_cItems (t : GenTable) : definedHeads (cItems t) =
    definedHeads (partsItems t cGenerateFuncs) ++
      ((definedHeads (itemsIn createTableFunc)).map (mapTokens (render (t.value 0 .zero))) ++
        (definedHeads (partsItems t cGenerateMiddle) ++
          (definedHeads ((Part.each cDeleteRound).items t) ++
            definedHeads (partsItems t cGenerateLast)))) := by
  have hdesc : definedHeads (columnDescItems t) = [] := rfl
  rw [cItems, cFirstItems]
  simp only [definedHeads_append, definedHeads_includes, definedHeads_deviceDesc, hdesc,
    definedHeads_map, List.map_nil, empty_append, List.append_assoc]

def headsBefore (t : GenTable) : List (List (Token Text)) :=
  definedHeads (partsItems t cGenerateFuncs) ++
    ((definedHeads (itemsIn createTableFunc)).map (mapTokens (render (t.value 0 .zero))) ++
      definedHeads (partsItems t (sourceParts nextGroups)))

def headsBehind (t : GenTable) : List (List (Token Text)) :=
  definedHeads (partsItems t cDeleteFuncs) ++
    (definedHeads ((Part.each cDeleteRound).items t) ++ definedHeads (partsItems t cGenerateLast))

theorem definedHeads_eq (t : GenTable) : definedHeads (cItems t) =
    headsBefore t ++ (definedHeads ((Part.each cSetRound).items t) ++ headsBehind t) := by
  have hnil : partsItems t [] = [] := rfl
  rw [definedHeads_cItems, headsBefore, headsBehind, cGenerateMiddle, cGenerateFuncSetMem]
  simp only [partsItems_append, partsItems_cons, definedHeads_append, hnil, List.append_assoc,
    empty_append]

section Agree
variable {t : GenTable} (ht : t.Parsed)
include ht

theorem setRounds_items : ((∀ column ∈ t.columns, declaredMore column = []) →
      declared ((Part.each headerSetRound).items t) =
        definedHeads ((Part.each cSetRound).items t)) ∧
    (declared ((Part.each headerSetRound).items t)).length =
      (definedHeads ((Part.each cSetRound).items t)).length +
        (t.columns.map fun column => (declaredMore column).length).sum :=
  columnsItems_agree t (fun column hmem => setRounds_agree (ht.columns column hmem)) 0

section NoIndexedBlob
variable (hblob : ∀ column ∈ t.columns, column.indexedBlob = false)
include hblob

theorem deleteRounds_items : declared ((Part.each headerDeleteRound).items t) =
    definedHeads ((Part.each cDeleteRound).items t) :=
  (columnsItems_agree t (fun column hmem =>
    deleteRounds_agree (ht.columns column hmem) (hblob column hmem)) 0).1 fun _ _ => rfl

theorem selectRounds_items : declared ((Part.each headerSelectRound).items t) =
    definedHeads ((Part.each cSelectRound).items t) :=
  (columnsItems_agree t (fun column hmem =>
    selectRounds_agree (ht.columns column hmem) (hblob column hmem)) 0).1 fun _ _ => rfl

theorem declared_eq (more : List (Token Text)) : declared (headerItems t more) =
    headsBefore t ++ (declared ((Part.each headerSetRound).items t) ++ headsBehind t) := by
  have hcreate : declared (partsItems t headerGenerateFuncCreateTable) =
      (definedHeads (itemsIn createTableFunc)).map (mapTokens (render (t.value 0 .zero))) := by
    rw [partsItems_once createTable_agree.1, declared_map, createTable_agree.2.2.1]
  have hone : ∀ gs, partsItems t [.once gs] = Part.items t (.once gs) :=
    fun _ => List.append_nil _
  have hnewLine : declared (Part.items t (.once newLine)) = [] := by
    rw [← hone]
    exact newLineGroup.declared_eq t
  have hdeleteFuncs : declared (Part.items t (.once headerDeleteFuncs)) =
      definedHeads (partsItems t cDeleteFuncs) := by
    rw [← hone]
    exact deleteGroup.declared_eq t
  have hselectFuncs : declared (Part.items t (.once headerSelectFuncs)) =
      definedHeads (partsItems t cSelectFuncs) := by
    rw [← hone]
    exact selectGroup.declared_eq t
  have hindex : declared (partsItems t headerGenerateFuncIndex) =
      definedHeads (partsItems t cGenerateFuncIndex) := indexGroup.declared_eq t
  have hnil : partsItems t [] = [] := rfl
  rw [declared_headerItems, headsBefore, headsBehind, headerGenerateFuncs_eq,
    headerGenerateFuncSetMem, headerGenerateFuncDelete, headerGenerateFuncSelect,
    cGenerateFuncs_eq, cGenerateLast, cGenerateFuncSelect]
  simp only [partsItems_append, partsItems_cons, declared_append, definedHeads_append,
    declared_headerParts, hcreate, hnewLine, hdeleteFuncs, deleteRounds_items ht hblob,
    selectRounds_items ht hblob, hselectFuncs, hindex, hnil, List.append_assoc, empty_append,
    List.append_nil]

/-- Of two files that are read the header declares each function as often as the source defines
it exactly if no column is a `DOUBLE`. -/
theorem functionsAgree_iff {header source : Text} {more : List (Token Text)}
    (hheader : readUnit header = some (headerItems t more))
    (hsource : readUnit source = some (cItems t)) :
    FunctionsAgree header source ↔ ∀ column ∈ t.columns, column.type ≠ .double := by
  obtain ⟨hset, hlength⟩ := setRounds_items ht
  have hdeclared := declared_eq ht hblob more
  have hdefined := definedHeads_eq t
  constructor
  · rintro ⟨hs, cs, hhs, hcs, hperm⟩ column hmem hdouble
    rw [hheader] at hhs
    rw [hsource] at hcs
    obtain rfl := Option.some.inj hhs
    obtain rfl := Option.some.inj hcs
    have hequal := hperm.length_eq
    rw [hdeclared, hdefined] at hequal
    simp only [List.length_append, hlength] at hequal
    have hzero : (t.columns.map fun column => (declaredMore column).length).sum = 0 := by omega
    have hone := (List.sum_eq_zero_iff.mp hzero) _ (List.mem_map_of_mem hmem)
    rw [length_declaredMore, if_pos hdouble] at hone
    omega
  · intro hcolumns
    have hmore : ∀ column ∈ t.columns, declaredMore column = [] := fun column hmem =>
      if_neg (hcolumns column hmem)
    refine ⟨_, _, hheader, hsource, ?_⟩
    rw [hdeclared, hdefined, hset hmore]

end NoIndexedBlob
end Agree

theorem printColumns_append {t : GenTable} {round : ColumnDesc → Option Template}
    {columns columns' : List ColumnDesc} {i : ℕ} {text text' : Text}
    (h : t.printColumns round i columns = some text)
    (h' : t.printColumns round (i + columns.length) columns' = some text') :
    t.printColumns round i (columns ++ columns') = some (text ++ text') := by
  induction columns generalizing i text with
  | nil =>
      obtain rfl := Option.some.inj h
      exact h'
  | cons column columns ih =>
      obtain ⟨gs, hgs, hrest⟩ := Option.bind_eq_some_iff.mp h
      obtain ⟨rest, hrest', heq⟩ := Option.bind_eq_some_iff.mp hrest
      obtain rfl := Option.some.inj heq
      rw [List.length_cons, Nat.add_comm columns.length, ← Nat.add_assoc] at h'
      rw [List.cons_append, GenTable.printColumns, hgs, Option.bind_eq_bind, Option.bind_some,
        ih hrest' h', List.append_assoc]
      rfl

def Part.Prints : Part → Prop
  | .once _ => True
  | .each round => ∀ column : ColumnDesc, column.Parsed → ∃ gs, round column = some gs

theorem Part.Complete.prints {part : Part} (h : part.Complete fun _ => True) : part.Prints := by
  cases part with
  | once gs => trivial
  | each round =>
      intro column hparsed
      obtain ⟨gs, hgs, -⟩ := h column hparsed trivial
      exact ⟨gs, hgs⟩

theorem printColumns_isSome (t : GenTable) {round : ColumnDesc → Option Template}
    (h : (Part.each round).Prints) {columns : List ColumnDesc}
    (hcolumns : ∀ column ∈ columns, column.Parsed) (i : ℕ) :
    ∃ text, t.printColumns round i columns = some text := by
  induction columns generalizing i with
  | nil => exact ⟨[], rfl⟩
  | cons column columns ih =>
      obtain ⟨gs, hgs⟩ := h column (hcolumns column List.mem_cons_self)
      obtain ⟨rest, hrest⟩ :=
        ih (fun column' hmem => hcolumns column' (List.mem_cons_of_mem _ hmem)) (i + 1)
      refine ⟨render (t.value i column) gs ++ rest, ?_⟩
      rw [GenTable.printColumns, hgs, hrest]
      rfl

theorem printParts_isSome {t : GenTable} (ht : t.Parsed) {parts : List Part}
    (h : ∀ part ∈ parts, part.Prints) : ∃ text, printParts t parts = some text := by
  induction parts with
  | nil => exact ⟨[], rfl⟩
  | cons part parts ih =>
      obtain ⟨rest, hrest⟩ := ih fun part' hmem => h part' (List.mem_cons_of_mem _ hmem)
      have hpart : ∃ text, part.print t = some text := by
        cases part with
        | once gs => exact ⟨_, rfl⟩
        | each round => exact printColumns_isSome t (h _ List.mem_cons_self) ht.columns 0
      obtain ⟨text, htext⟩ := hpart
      refine ⟨text ++ rest, ?_⟩
      rw [printParts, htext, hrest]
      rfl

theorem cDeleteRound_prints : (Part.each cDeleteRound).Prints := by
  intro column hparsed
  by_cases hblob : column.indexedBlob
  · exact ⟨_, (indexedBlob_rounds hblob).2.2⟩
  · obtain ⟨gs, hgs, -⟩ := (deleteRounds_agree hparsed (Bool.not_eq_true _ ▸ hblob)).readsSource
    exact ⟨gs, hgs⟩

theorem cLast_prints : ∀ part ∈ cGenerateLast, part.Prints := by
  have hround : (Part.each cSelectRound).Prints := by
    intro column hparsed
    by_cases hblob : column.indexedBlob
    · obtain ⟨hunique, htype⟩ := Bool.and_eq_true_iff.mp hblob
      refine ⟨fprintf "\x7d\n\n" [], ?_⟩
      rw [cSelectRound, if_pos hunique, beq_iff_eq.mp htype]
      rfl
    · obtain ⟨gs, hgs, -⟩ := (selectRounds_agree hparsed (Bool.not_eq_true _ ▸ hblob)).readsSource
      exact ⟨gs, hgs⟩
  unfold cGenerateLast cGenerateFuncSelect
  simp only [List.forall_mem_append, List.forall_mem_cons]
  exact ⟨⟨hround, fun part hmem => (selectGroup.source_complete _ part hmem).prints⟩,
    fun part hmem => (indexGroup.source_complete _ part hmem).prints⟩

/-- A closing brace outside of all blocks. -/
theorem stray_brace (rest : Text) :
    (reader kind).output (render (fun _ => []) (fprintf "\x7d\n\n" [] : Template) ++ rest) =
      none := by
  refine Transducer.output_of_run_eq_none ?_ rest
  rw [fprintf_eq rfl]
  rfl

theorem render_closed (env env' : Arg → Text) {gs : Template} (h : holesAll (fun _ => false) gs) :
    render env gs = render env' gs := by
  induction gs with
  | nil => rfl
  | cons g gs ih =>
      rw [holesAll, List.all_cons] at h
      obtain ⟨hhead, htail⟩ := Bool.and_eq_true_iff.mp h
      have hrest := ih htail
      cases g with
      | hole arg => cases hhead
      | char c =>
          change c :: render env gs = c :: render env' gs
          rw [hrest]

section Rejected
variable {t : GenTable} (ht : t.Parsed) (hsql : Enclosed t.createSql) {file : Text}
  (hfile : readStatement file = some t.createSql)
include ht hsql hfile

/-- The source of a table with an indexed `BLOB` column is not one. -/
theorem cGenerate_indexedBlob (hblob : ∃ column ∈ t.columns, column.indexedBlob) :
    ∃ text, cGenerate t (some file) = some text ∧ readUnit text = none := by
  obtain ⟨column, hmem, hindexed⟩ := hblob
  obtain ⟨found, hfound⟩ :=
    Option.isSome_iff_exists.mp (List.find?_isSome.mpr ⟨column, hmem, hindexed⟩)
  obtain ⟨hfound, before, behind, hcolumns, hbefore⟩ := List.find?_eq_some_iff_append.mp hfound
  have hparsed : ∀ column' ∈ before ++ found :: behind, column'.Parsed := fun column' hmem' =>
    ht.columns column' (hcolumns ▸ hmem')
  have hok : ∀ column' ∈ before, column'.Parsed ∧ NoIndexedBlob column' := fun column' hmem' =>
    ⟨hparsed column' (List.mem_append_left _ hmem'),
      (Bool.not_eq_true' _).mp (hbefore column' hmem')⟩
  obtain ⟨first, hfirst, hprint⟩ := cGenerate_first ht hsql hfile
  obtain ⟨rounds, hrounds, hroundsReads⟩ := printColumns_reads ht cDelete_complete hok 0
  obtain ⟨rest, hrest⟩ := printColumns_isSome t cDeleteRound_prints (fun column' hmem' =>
    hparsed column' (List.mem_append_right _ (List.mem_cons_of_mem _ hmem')))
    (0 + before.length + 1)
  obtain ⟨last, hlast⟩ := printParts_isSome ht cLast_prints
  have hloop : t.printColumns cDeleteRound 0 t.columns = some (rounds ++
      (render (t.value (0 + before.length) found) (fprintf "\x7d\n\n" []) ++ rest)) := by
    rw [hcolumns]
    refine printColumns_append hrounds ?_
    rw [GenTable.printColumns, (indexedBlob_rounds hfound).2.2, hrest]
    rfl
  refine ⟨_, hprint _ last hloop hlast, ?_⟩
  have hbrace : render (t.value (0 + before.length) found) (fprintf "\x7d\n\n" []) =
      render (fun _ => []) (fprintf "\x7d\n\n" [] : Template) := by
    refine render_closed _ _ ?_
    rw [fprintf_eq rfl]
    rfl
  have hassoc : first ++ (rounds ++ (render (t.value (0 + before.length) found)
      (fprintf "\x7d\n\n" []) ++ rest) ++ last) = (first ++ rounds) ++
        (render (fun _ => []) (fprintf "\x7d\n\n" [] : Template) ++ (rest ++ last)) := by
    rw [hbrace]
    simp only [List.append_assoc]
  rw [hassoc, readUnit, (hfirst.append hroundsReads).output_append, stray_brace]
  rfl

end Rejected

end Sorm
