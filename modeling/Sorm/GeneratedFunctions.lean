import Sorm.GeneratedSource

/-!
# Declared and defined functions

Group by group the header declares what the source defines. There are two exceptions: a `DOUBLE`
column's setter is declared once more as that of a `BLOB` column, and an indexed `BLOB` column
leaves a closing brace in the source.
-/

namespace Sorm

open CReader ParserLex

def onceItems : List Part → List (Item Template)
  | [] => []
  | .once gs :: parts => itemsIn gs ++ onceItems parts
  | .each _ :: parts => onceItems parts

def closedOnce : List Part → Bool
  | [] => true
  | .once gs :: parts => Closed Arg.ofTable gs && closedOnce parts
  | .each _ :: _ => false

theorem closedOnce_complete {parts : List Part} (h : closedOnce parts) (ok : ColumnDesc → Prop) :
    ∀ part ∈ parts, part.Complete ok := by
  induction parts with
  | nil => exact fun _ hmem => absurd hmem List.not_mem_nil
  | cons part parts ih =>
      cases part with
      | each round => cases h
      | once gs =>
          obtain ⟨hclosed, hrest⟩ := Bool.and_eq_true_iff.mp h
          exact List.forall_mem_cons.mpr ⟨complete_once hclosed ok, ih hrest⟩

theorem partsItems_once {parts : List Part} (h : closedOnce parts) (t : GenTable) :
    partsItems t parts = (onceItems parts).map (Item.map (render (t.value 0 .zero))) := by
  induction parts with
  | nil => rfl
  | cons part parts ih =>
      cases part with
      | each round => cases h
      | once gs =>
          have hrest := ih (Bool.and_eq_true_iff.mp h).2
          rw [partsItems, List.flatMap_cons, onceItems, List.map_append, ← hrest]
          rfl

def definedHeads {W : Type} (items : List (Item W)) : List (List (Token W)) :=
  (defined items).map Prod.fst

theorem definedHeads_append {W : Type} (items items' : List (Item W)) :
    definedHeads (items ++ items') = definedHeads items ++ definedHeads items' := by
  rw [definedHeads, defined_append, List.map_append]
  rfl

theorem definedHeads_map {W W' : Type} (f : W → W') (items : List (Item W)) :
    definedHeads (items.map (Item.map f)) = (definedHeads items).map (mapTokens f) := by
  rw [definedHeads, defined_map, List.map_map, definedHeads, List.map_map]
  rfl

/-- The first group declares what the second one defines; `names` are those that the directives
among the declarations are about. -/
def GroupsAgree (hs cs : List Part) (names : List Template) : Prop :=
  closedOnce hs ∧ closedOnce cs ∧ declared (onceItems hs) = definedHeads (onceItems cs) ∧
    subjects (onceItems hs) = names

instance (hs cs : List Part) (names : List Template) : Decidable (GroupsAgree hs cs names) :=
  inferInstanceAs (Decidable (_ ∧ _ ∧ _ ∧ _))

structure FunctionGroup where
  header : List Part
  source : List Part
  names : List Template
  agree : GroupsAgree header source names

section Groups
variable (g : FunctionGroup) (groups : List FunctionGroup) (t : GenTable)

theorem FunctionGroup.header_complete (ok : ColumnDesc → Prop) :
    ∀ part ∈ g.header, part.Complete ok := closedOnce_complete g.agree.1 ok

theorem FunctionGroup.source_complete (ok : ColumnDesc → Prop) :
    ∀ part ∈ g.source, part.Complete ok := closedOnce_complete g.agree.2.1 ok

theorem FunctionGroup.declared_eq :
    declared (partsItems t g.header) = definedHeads (partsItems t g.source) := by
  obtain ⟨hheader, hsource, heq, -⟩ := g.agree
  rw [partsItems_once hheader, partsItems_once hsource, declared_map, definedHeads_map, heq]

theorem FunctionGroup.subjects_eq :
    subjects (partsItems t g.header) = g.names.map (render (t.value 0 .zero)) := by
  obtain ⟨hheader, -, -, hnames⟩ := g.agree
  rw [partsItems_once hheader, subjects_map, hnames]

def headerParts : List Part := groups.flatMap FunctionGroup.header

def sourceParts : List Part := groups.flatMap FunctionGroup.source

theorem headerParts_complete (ok : ColumnDesc → Prop) :
    ∀ part ∈ headerParts groups, part.Complete ok := by
  intro part hmem
  obtain ⟨g, -, hpart⟩ := List.mem_flatMap.mp hmem
  exact g.header_complete ok part hpart

theorem sourceParts_complete (ok : ColumnDesc → Prop) :
    ∀ part ∈ sourceParts groups, part.Complete ok := by
  intro part hmem
  obtain ⟨g, -, hpart⟩ := List.mem_flatMap.mp hmem
  exact g.source_complete ok part hpart

theorem declared_headerParts :
    declared (partsItems t (headerParts groups)) =
      definedHeads (partsItems t (sourceParts groups)) := by
  induction groups with
  | nil => rfl
  | cons g groups ih =>
      rw [headerParts, sourceParts, List.flatMap_cons, List.flatMap_cons, partsItems_append,
        partsItems_append, declared_append, definedHeads_append, g.declared_eq, ← headerParts,
        ← sourceParts, ih]

theorem subjects_headerParts :
    subjects (partsItems t (headerParts groups)) =
      (groups.flatMap FunctionGroup.names).map (render (t.value 0 .zero)) := by
  induction groups with
  | nil => rfl
  | cons g groups ih =>
      rw [headerParts, List.flatMap_cons, partsItems_append, subjects_append, g.subjects_eq,
        ← headerParts, ih, List.flatMap_cons, List.map_append]

end Groups

def toStringGroup : FunctionGroup where
  header := headerGenerateFuncToString
  source := cGenerateFuncToString
  names := []
  agree := by
    unfold headerGenerateFuncToString cGenerateFuncToString
    repeat rw [fprintf_eq rfl]
    decide +kernel

def getDescGroup : FunctionGroup where
  header := headerGenerateFuncGetDesc
  source := cGenerateFuncGetDesc
  names := []
  agree := by
    unfold headerGenerateFuncGetDesc cGenerateFuncGetDesc
    repeat rw [fprintf_eq rfl]
    decide +kernel

def newGroup : FunctionGroup where
  header := headerGenerateFuncNew
  source := cGenerateFuncNew
  names := []
  agree := by
    unfold headerGenerateFuncNew cGenerateFuncNew
    repeat rw [fprintf_eq rfl]
    decide +kernel

def freeGroup : FunctionGroup where
  header := headerGenerateFuncFree
  source := cGenerateFuncFree
  names := []
  agree := by
    unfold headerGenerateFuncFree cGenerateFuncFree
    repeat rw [fprintf_eq rfl]
    decide +kernel

def deleteTableGroup : FunctionGroup where
  header := headerGenerateFuncDeleteTable
  source := cGenerateFuncDeleteTable
  names := []
  agree := by
    unfold headerGenerateFuncDeleteTable cGenerateFuncDeleteTable
    repeat rw [fprintf_eq rfl]
    decide +kernel

def saveGroup : FunctionGroup where
  header := headerGenerateFuncSave
  source := cGenerateFuncSave
  names := []
  agree := by
    unfold headerGenerateFuncSave cGenerateFuncSave
    repeat rw [fprintf_eq rfl]
    decide +kernel

def updateGroup : FunctionGroup where
  header := headerGenerateFuncUpdate
  source := cGenerateFuncUpdate
  names := []
  agree := by
    unfold headerGenerateFuncUpdate cGenerateFuncUpdate
    repeat rw [fprintf_eq rfl]
    decide +kernel

def indexGroup : FunctionGroup where
  header := headerGenerateFuncIndex
  source := cGenerateFuncIndex
  names := []
  agree := by
    unfold headerGenerateFuncIndex cGenerateFuncIndex
    repeat rw [fprintf_eq rfl]
    decide +kernel

def deleteGroup : FunctionGroup where
  header := [.once headerDeleteFuncs]
  source := cDeleteFuncs
  names := []
  agree := by
    unfold headerDeleteFuncs cDeleteFuncs
    repeat rw [fprintf_eq rfl]
    decide +kernel

def selectGroup : FunctionGroup where
  header := [.once headerSelectFuncs]
  source := cSelectFuncs
  names := [tableName ++ lit "_select_iterate_close", tableName ++ lit "_select_iterate_more"]
  agree := by
    unfold headerSelectFuncs newLine cSelectFuncs
    repeat rw [fprintf_eq rfl]
    decide +kernel

def newLineGroup : FunctionGroup where
  header := [.once newLine]
  source := []
  names := []
  agree := by
    unfold newLine
    rw [fprintf_eq rfl]
    decide +kernel

def firstGroups : List FunctionGroup := [toStringGroup, getDescGroup, newGroup, freeGroup]

def nextGroups : List FunctionGroup := [deleteTableGroup, saveGroup, updateGroup]

theorem createTable_agree : closedOnce headerGenerateFuncCreateTable ∧
    ClosedQuoting createTableFunc ∧
    definedHeads (itemsIn createTableFunc) = declared (onceItems headerGenerateFuncCreateTable) ∧
    subjects (onceItems headerGenerateFuncCreateTable) = [] := by
  unfold createTableFunc headerGenerateFuncCreateTable
  repeat rw [fprintf_eq rfl]
  decide +kernel

/-- The round of the source is read on its own and defines what that of the header declares, but for
some declarations more. -/
structure RoundsAgree (header source : Option Template) (more : List (List (Token Template))) :
    Prop where
  readsHeader : ∃ gs, header = some gs ∧ Closed Arg.isWordArg gs
  readsSource : ∃ gs, source = some gs ∧ Closed Arg.isWordArg gs
  declared_eq : declared (itemsIn (header.getD [])) =
    definedHeads (itemsIn (source.getD [])) ++ more
  subjects_eq : subjects (itemsIn (header.getD [])) = []

theorem roundsAgree_of_closed {hgs cgs : Template} {more : List (List (Token Template))}
    (h : Closed Arg.isWordArg hgs ∧ Closed Arg.isWordArg cgs ∧
      declared (itemsIn hgs) = definedHeads (itemsIn cgs) ++ more ∧ subjects (itemsIn hgs) = []) :
    RoundsAgree (some hgs) (some cgs) more := by
  obtain ⟨hheader, hsource, heq, hsubjects⟩ := h
  exact ⟨⟨hgs, rfl, hheader⟩, ⟨cgs, rfl, hsource⟩, heq, hsubjects⟩

theorem roundsAgree_nil : RoundsAgree (some []) (some []) [] :=
  ⟨⟨[], rfl, closed_nil _⟩, ⟨[], rfl, closed_nil _⟩, rfl, rfl⟩

def declaredMore (column : ColumnDesc) : List (List (Token Template)) :=
  if column.type = .double then declared (itemsIn headerSetBlob) else []

theorem setRounds_agree {column : ColumnDesc} (h : column.Parsed) :
    RoundsAgree (headerSetRound column) (cSetRound column) (declaredMore column) := by
  unfold headerSetRound cSetRound declaredMore headerSetBlob
  have htype := h.type
  cases hkind : column.type with
  | unknown code => exact absurd hkind (htype code)
  | _ =>
      refine roundsAgree_of_closed ?_
      repeat rw [fprintf_eq rfl]
      decide +kernel

theorem length_declaredMore (column : ColumnDesc) :
    (declaredMore column).length = if column.type = .double then 1 else 0 := by
  unfold declaredMore headerSetBlob
  by_cases hdouble : column.type = .double
  · rw [if_pos hdouble, if_pos hdouble]
    rw [fprintf_eq rfl]
    decide +kernel
  · rw [if_neg hdouble, if_neg hdouble]
    rfl

theorem deleteRounds_agree {column : ColumnDesc} (h : column.Parsed)
    (hblob : column.indexedBlob = false) :
    RoundsAgree (headerDeleteRound column) (cDeleteRound column) [] := by
  unfold headerDeleteRound cDeleteRound
  have htype := h.type
  by_cases hunique : sormIsUniqueColumn column.constraint
  · rw [if_pos hunique, if_pos hunique]
    have hne := ne_blob_of_indexed hunique hblob
    cases hkind : column.type with
    | unknown code => exact absurd hkind (htype code)
    | blob => exact absurd hkind hne
    | _ =>
        refine roundsAgree_of_closed ?_
        repeat rw [fprintf_eq rfl]
        decide +kernel
  · rw [if_neg hunique, if_neg hunique]
    exact roundsAgree_nil

theorem selectRounds_agree {column : ColumnDesc} (h : column.Parsed)
    (hblob : column.indexedBlob = false) :
    RoundsAgree (headerSelectRound column) (cSelectRound column) [] := by
  unfold headerSelectRound cSelectRound
  have htype := h.type
  by_cases hunique : sormIsUniqueColumn column.constraint
  · rw [if_pos hunique, if_pos hunique]
    have hne := ne_blob_of_indexed hunique hblob
    cases hkind : column.type with
    | unknown code => exact absurd hkind (htype code)
    | blob => exact absurd hkind hne
    | _ =>
        refine roundsAgree_of_closed ?_
        repeat rw [fprintf_eq rfl]
        decide +kernel
  · rw [if_neg hunique, if_neg hunique]
    exact roundsAgree_nil

theorem indexedBlob_rounds {column : ColumnDesc} (h : column.indexedBlob) :
    headerDeleteRound column = some [] ∧ headerSelectRound column = some [] ∧
      cDeleteRound column = some (fprintf "\x7d\n\n" []) := by
  obtain ⟨hunique, htype⟩ := Bool.and_eq_true_iff.mp h
  unfold headerDeleteRound headerSelectRound cDeleteRound
  rw [if_pos hunique, if_pos hunique, if_pos hunique, beq_iff_eq.mp htype]
  exact ⟨rfl, rfl, rfl⟩

/-- A loop of the header and one of the source. -/
theorem columnsItems_agree (t : GenTable) {header source : ColumnDesc → Option Template}
    {more : ColumnDesc → List (List (Token Template))} {columns : List ColumnDesc}
    (h : ∀ column ∈ columns, RoundsAgree (header column) (source column) (more column)) (i : ℕ) :
    ((∀ column ∈ columns, more column = []) →
      declared (columnsItems t header i columns) =
        definedHeads (columnsItems t source i columns)) ∧
      (declared (columnsItems t header i columns)).length =
        (definedHeads (columnsItems t source i columns)).length +
          (columns.map fun column => (more column).length).sum := by
  induction columns generalizing i with
  | nil => exact ⟨fun _ => rfl, rfl⟩
  | cons column columns ih =>
      obtain ⟨heq, hlength⟩ :=
        ih (fun column' hmem => h column' (List.mem_cons_of_mem _ hmem)) (i + 1)
      have hround := (h column List.mem_cons_self).declared_eq
      have hitems : declared (roundItems t header i column) =
          definedHeads (roundItems t source i column) ++
            (more column).map (mapTokens (render (t.value i column))) := by
        rw [roundItems, declared_map, hround, List.map_append, roundItems, definedHeads_map]
      rw [columnsItems, columnsItems, declared_append, definedHeads_append, hitems]
      constructor
      · intro hmore
        rw [hmore column List.mem_cons_self, List.map_nil, List.append_nil,
          heq fun column' hmem => hmore column' (List.mem_cons_of_mem _ hmem)]
      · simp only [List.length_append, List.length_map, hlength, List.map_cons, List.sum_cons]
        omega

theorem headerGenerateFuncs_eq : headerGenerateFuncs =
    headerParts firstGroups ++ (headerGenerateFuncCreateTable ++ (headerParts nextGroups ++
      (headerGenerateFuncSetMem ++ (headerGenerateFuncDelete ++ (headerGenerateFuncSelect ++
        headerGenerateFuncIndex))))) := rfl

theorem headerFuncs_complete (ok : ColumnDesc → Prop) :
    ∀ part ∈ headerGenerateFuncs, part.Complete ok := by
  have hset : (Part.each headerSetRound).Complete ok :=
    fun column hparsed _ => (setRounds_agree hparsed).readsHeader
  have hdelete : (Part.each headerDeleteRound).Complete ok := by
    intro column hparsed _
    by_cases hblob : column.indexedBlob
    · exact ⟨[], (indexedBlob_rounds hblob).1, closed_nil _⟩
    · exact (deleteRounds_agree hparsed (Bool.not_eq_true _ ▸ hblob)).readsHeader
  have hselect : (Part.each headerSelectRound).Complete ok := by
    intro column hparsed _
    by_cases hblob : column.indexedBlob
    · exact ⟨[], (indexedBlob_rounds hblob).2.1, closed_nil _⟩
    · exact (selectRounds_agree hparsed (Bool.not_eq_true _ ▸ hblob)).readsHeader
  have hnewLine := newLineGroup.header_complete ok
  have hdeleteFuncs := deleteGroup.header_complete ok
  have hselectFuncs := selectGroup.header_complete ok
  rw [headerGenerateFuncs_eq]
  unfold headerGenerateFuncSetMem headerGenerateFuncDelete headerGenerateFuncSelect
  simp only [newLineGroup, deleteGroup, selectGroup, List.forall_mem_append, List.forall_mem_cons,
    List.not_mem_nil, false_imp_iff, implies_true, and_true] at hnewLine hdeleteFuncs hselectFuncs ⊢
  exact ⟨headerParts_complete _ ok, closedOnce_complete createTable_agree.1 ok,
    headerParts_complete _ ok, ⟨hset, hnewLine⟩, ⟨hdeleteFuncs, hdelete, hnewLine⟩,
    ⟨hselect, hselectFuncs⟩, indexGroup.header_complete ok⟩

def headerItems (t : GenTable) (more : List (Token Text)) : List (Item Text) :=
  partsItems t headerGenerateDefine ++ (structItems t ++
    ((.directive (initHead t ++ more) :: initItems t) ++
      (partsItems t headerGenerateFuncs ++ [.directive [.word "endif".toList]])))

theorem endif_output : (reader kind).output "#endif".toList =
    some [.directive [.word "endif".toList]] := by
  decide +kernel

theorem headerGenerate_reads {t : GenTable} (ht : t.Parsed) : ∃ text more,
    headerGenerate t = some text ∧ readUnit text = some (headerItems t more) := by
  obtain ⟨define, hdefine, hdefineReads⟩ := printParts_reads ht (fun _ _ => trivial)
    (define_complete fun _ => True)
  obtain ⟨struct, hstruct, hstructReads⟩ := structText_reads ht
  obtain ⟨init, more, hinit, hinitReads⟩ := initText_reads ht
  obtain ⟨funcs, hfuncs, hfuncsReads⟩ := printParts_reads ht (fun _ _ => trivial)
    (headerFuncs_complete fun _ => True)
  have hprint := printParts_append hdefine (printParts_append hstruct
    (printParts_append hinit hfuncs))
  have hall := hdefineReads.append (hstructReads.append (hinitReads.append hfuncsReads))
  refine ⟨define ++ (struct ++ (init ++ funcs)) ++ "#endif".toList, more, ?_, ?_⟩
  · rw [headerGenerate, headerGenerateParts, hprint, Option.map_some]
  · rw [readUnit, hall.output_append, endif_output, Option.map_some, headerItems]
    simp only [List.append_assoc]

theorem deviceDesc_reads {t : GenTable} (ht : t.Parsed) (hsql : Enclosed t.createSql) :
    (reader kind).Reads (render (t.value 0 .zero) (deviceDesc t.pkIndex))
      ((itemsIn (deviceDesc t.pkIndex)).map (Item.map (render (t.value 0 .zero)))) :=
  ClosedQuoting.reads (deviceDesc_items t.pkIndex).1 (fun _ harg => ht.isWord_ofTable 0 .zero harg)
    hsql

theorem createTable_reads {t : GenTable} (ht : t.Parsed) (hsql : Enclosed t.createSql) :
    (reader kind).Reads (render (t.value 0 .zero) createTableFunc)
      ((itemsIn createTableFunc).map (Item.map (render (t.value 0 .zero)))) :=
  ClosedQuoting.reads createTable_agree.2.1 (fun _ harg => ht.isWord_ofTable 0 .zero harg) hsql

theorem cGenerateFuncs_eq : cGenerateFuncs = sourceParts firstGroups := rfl

theorem cFuncs_complete (ok : ColumnDesc → Prop) : ∀ part ∈ cGenerateFuncs, part.Complete ok := by
  rw [cGenerateFuncs_eq]
  exact sourceParts_complete firstGroups ok

def cGenerateMiddle : List Part :=
  sourceParts nextGroups ++ (cGenerateFuncSetMem ++ cDeleteFuncs)

def cGenerateLast : List Part := cGenerateFuncSelect ++ cGenerateFuncIndex

theorem cGenerateRest_eq :
    cGenerateRest = cGenerateMiddle ++ (.each cDeleteRound :: cGenerateLast) := rfl

theorem cMiddle_complete (ok : ColumnDesc → Prop) :
    ∀ part ∈ cGenerateMiddle, part.Complete ok := by
  have hset : (Part.each cSetRound).Complete ok :=
    fun column hparsed _ => (setRounds_agree hparsed).readsSource
  unfold cGenerateMiddle cGenerateFuncSetMem
  simp only [List.forall_mem_append, List.forall_mem_cons, List.not_mem_nil, false_imp_iff,
    implies_true, and_true]
  exact ⟨sourceParts_complete nextGroups ok, hset, deleteGroup.source_complete ok⟩

def NoIndexedBlob (column : ColumnDesc) : Prop := column.indexedBlob = false

theorem cDelete_complete : (Part.each cDeleteRound).Complete NoIndexedBlob :=
  fun _ hparsed hblob => (deleteRounds_agree hparsed hblob).readsSource

theorem cLast_complete : ∀ part ∈ cGenerateLast, part.Complete NoIndexedBlob := by
  have hselect : (Part.each cSelectRound).Complete NoIndexedBlob :=
    fun column hparsed hblob => (selectRounds_agree hparsed hblob).readsSource
  unfold cGenerateLast cGenerateFuncSelect
  simp only [List.forall_mem_append, List.forall_mem_cons]
  exact ⟨⟨hselect, selectGroup.source_complete _⟩, indexGroup.source_complete _⟩

def cFirstItems (t : GenTable) : List (Item Text) :=
  partsItems t cGenerateIncludes ++ (columnDescItems t ++
    ((itemsIn (deviceDesc t.pkIndex)).map (Item.map (render (t.value 0 .zero))) ++
      (partsItems t cGenerateFuncs ++
        ((itemsIn createTableFunc).map (Item.map (render (t.value 0 .zero))) ++
          partsItems t cGenerateMiddle))))

def cItems (t : GenTable) : List (Item Text) :=
  cFirstItems t ++ ((Part.each cDeleteRound).items t ++ partsItems t cGenerateLast)

section Source
variable {t : GenTable} (ht : t.Parsed) (hsql : Enclosed t.createSql) {file : Text}
  (hfile : readStatement file = some t.createSql)
include ht hsql hfile

/-- The source up to the loop that an indexed `BLOB` column breaks. -/
theorem cGenerate_first : ∃ first, (reader kind).Reads first (cFirstItems t) ∧
    ∀ loop last, t.printColumns cDeleteRound 0 t.columns = some loop →
      printParts t cGenerateLast = some last →
      cGenerate t (some file) = some (first ++ (loop ++ last)) := by
  have htrue : ∀ column ∈ t.columns, True := fun _ _ => trivial
  obtain ⟨includes, hincludes, hincludesReads⟩ :=
    printParts_reads ht htrue (includes_complete fun _ => True)
  obtain ⟨columnDesc, hcolumnDesc, hcolumnDescReads⟩ := columnDescText_reads ht
  have hdevice : printParts t (cGenerateDeviceDesc t.pkIndex) =
      some (render (t.value 0 .zero) (deviceDesc t.pkIndex) ++ []) := rfl
  rw [List.append_nil] at hdevice
  obtain ⟨funcs, hfuncs, hfuncsReads⟩ := printParts_reads ht htrue (cFuncs_complete fun _ => True)
  obtain ⟨middle, hmiddle, hmiddleReads⟩ :=
    printParts_reads ht htrue (cMiddle_complete fun _ => True)
  have hcreate : printCreateTable t (some file) =
      some (render (t.value 0 .zero) createTableFunc ++ []) := by
    rw [printCreateTable, Option.bind_some, hfile]
    rfl
  rw [List.append_nil] at hcreate
  have hfirst := printParts_append hincludes (printParts_append hcolumnDesc
    (printParts_append hdevice hfuncs))
  refine ⟨_, hincludesReads.append (hcolumnDescReads.append ((deviceDesc_reads ht hsql).append
    (hfuncsReads.append ((createTable_reads ht hsql).append hmiddleReads)))), ?_⟩
  intro loop last hloop hlast
  have hrest := printParts_append hmiddle
    (show printParts t (.each cDeleteRound :: cGenerateLast) = some (loop ++ last) by
      rw [printParts, Part.print, hloop, hlast]
      rfl)
  rw [cGenerate, cGenerateFirst, hfirst, hcreate, cGenerateRest_eq, hrest]
  simp only [Option.bind_eq_bind, Option.bind_some, Option.pure_def, List.append_assoc]

theorem cGenerate_reads (hblob : ∀ column ∈ t.columns, NoIndexedBlob column) :
    ∃ text, cGenerate t (some file) = some text ∧ readUnit text = some (cItems t) := by
  obtain ⟨first, hfirst, hprint⟩ := cGenerate_first ht hsql hfile
  obtain ⟨loop, hloop, hloopReads⟩ := cDelete_complete.reads ht hblob
  obtain ⟨last, hlast, hlastReads⟩ := printParts_reads ht hblob cLast_complete
  refine ⟨_, hprint loop last hloop hlast, ?_⟩
  have houtput := (hfirst.append (hloopReads.append hlastReads)).output_eq rfl
  rw [readUnit, houtput, cItems]

end Source

end Sorm
