import Sorm.GeneratedStruct
import Sorm.WrapperNames

/-!
# The files of a table

The header and the source of a table agree if no column is a `DOUBLE`, no indexed one a `BLOB`, and
no name that is printed hides or repeats another one.
-/

namespace Sorm

open CReader ParserLex

def Item.blockOf {W : Type} [DecidableEq W] (head : List (Token W)) :
    Item W → Option (List (Token W))
  | .chunk head' (some block) => if head' = head then some block else none
  | .chunk _ none | .directive _ => none

def printedStruct (t : GenTable) (items : List (Item Text)) : Option (List (Token Text)) :=
  items.findSome? (Item.blockOf (structHead t))

def wrapperKinds : List (String × Callee) :=
  [("_set_", setCallee), ("_delete_by_", deleteCallee), ("_select_by_", selectCallee)]

/-- The struct's members have different names; every function is declared once and defined once,
with one head; the braces of the source match; and every wrapper passes a pointer to a value of its
column's type. -/
structure FilesAgree (t : GenTable) (header source : Text) : Prop where
  members : ∃ hs block names, readUnit header = some hs ∧ printedStruct t hs = some block ∧
    memberNames block = some names ∧ names.Nodup
  functions : FunctionsAgree header source ∧
    ∀ hs, readUnit header = some hs → ((declared hs).map functionName).Nodup
  braces : Balanced source
  wrappers : ∀ cs, readUnit source = some cs → ∀ i column, t.columns[i]? = some column →
    ∀ kind ∈ wrapperKinds, ∀ d ∈ defined cs,
      functionName d.1 = some (t.name ++ wrapperSuffix kind.1 column) →
        PassesValue t cs i column kind.2 d

/-- Where no name that a wrapper of a column needs is taken by another one. -/
def NamesFit (t : GenTable) (column : ColumnDesc) : Prop :=
  SetScoped t column ∧ (column.type = .int64 → t.name ≠ "int64".toList) ∧
    "sorm_set_column_value".toList ∉ t.functionNames ∧
    (sormIsUniqueColumn column.constraint → DeleteScoped t column ∧ SelectScoped t column ∧
      "sorm_delete_by_column".toList ∉ t.functionNames ∧
      "sorm_select_one_by_column".toList ∉ t.functionNames)

instance (t : GenTable) (column : ColumnDesc) : Decidable (NamesFit t column) :=
  inferInstanceAs (Decidable (_ ∧ _ ∧ _ ∧ _))

def Item.isDirective {W : Type} : Item W → Bool
  | .directive _ => true
  | .chunk _ _ => false

theorem blockOf_directives {W W' : Type} [DecidableEq W'] (f : W → W') (head : List (Token W'))
    {items : List (Item W)} (h : items.all Item.isDirective) :
    (items.map (Item.map f)).findSome? (Item.blockOf head) = none := by
  rw [List.findSome?_eq_none_iff]
  intro item hmem
  obtain ⟨item', hmem', rfl⟩ := List.mem_map.mp hmem
  have hdirective := List.all_eq_true.mp h item' hmem'
  cases item' with
  | directive line => rfl
  | chunk head block => cases hdirective

theorem define_directives : ∃ first second third : Template,
    headerGenerateDefine = [.once first, .each fun _ => some maxLenMacro, .once second,
      .each fun _ => some columnMacro, .once third] ∧
    (itemsIn first).all Item.isDirective ∧ (itemsIn second).all Item.isDirective ∧
    (itemsIn third).all Item.isDirective := by
  refine ⟨_, _, _, rfl, ?_, ?_, ?_⟩
  all_goals
    repeat rw [fprintf_eq rfl]
    decide +kernel

theorem blockOf_columns (t : GenTable) {gs : Template} (h : (itemsIn gs).all Item.isDirective)
    (head : List (Token Text)) (i : ℕ) (columns : List ColumnDesc) :
    (columnsItems t (fun _ => some gs) i columns).findSome? (Item.blockOf head) = none := by
  induction columns generalizing i with
  | nil => rfl
  | cons column columns ih =>
      rw [columnsItems, List.findSome?_append, ih (i + 1), roundItems, Option.getD_some,
        blockOf_directives _ _ h]
      rfl

theorem printedStruct_headerItems (t : GenTable) (more : List (Token Text)) :
    printedStruct t (headerItems t more) = some (structBlock t) := by
  obtain ⟨first, second, third, hdefine, hfirst, hsecond, hthird⟩ := define_directives
  have hmaxLen : (itemsIn maxLenMacro).all Item.isDirective := by
    rw [maxLenMacro_items.2]
    rfl
  have hcolumn : (itemsIn columnMacro).all Item.isDirective := by
    rw [columnMacro_items.2]
    rfl
  have hnil : partsItems t [] = [] := rfl
  have hnone : (partsItems t headerGenerateDefine).findSome? (Item.blockOf (structHead t)) =
      none := by
    rw [hdefine]
    simp only [partsItems_cons, Part.items, List.findSome?_append, blockOf_directives _ _ hfirst,
      blockOf_directives _ _ hsecond, blockOf_directives _ _ hthird, blockOf_columns t hmaxLen,
      blockOf_columns t hcolumn, hnil, List.findSome?_nil, Option.or_none]
  have hstruct : (structItems t).findSome? (Item.blockOf (structHead t)) =
      some (structBlock t) := by
    rw [structItems, List.findSome?_cons, Item.blockOf, if_pos rfl]
  rw [printedStruct, headerItems, List.findSome?_append, hnone, List.findSome?_append, hstruct]
  rfl

theorem mem_columnsItems (t : GenTable) {round : ColumnDesc → Option Template}
    {columns : List ColumnDesc} {i : ℕ} {column : ColumnDesc} (h : columns[i]? = some column)
    (k : ℕ) : roundItems t round (k + i) column ⊆ columnsItems t round k columns := by
  induction columns generalizing i k with
  | nil => cases h
  | cons column' columns ih =>
      cases i with
      | zero =>
          obtain rfl := Option.some.inj h
          exact List.subset_append_left _ _
      | succ i =>
          have hrest := ih h (k + 1)
          rw [Nat.add_right_comm, Nat.add_assoc] at hrest
          exact List.subset_append_of_subset_right _ hrest

theorem each_subset_cItems (t : GenTable) : (Part.each cSetRound).items t ⊆ cItems t ∧
    (Part.each cDeleteRound).items t ⊆ cItems t ∧ (Part.each cSelectRound).items t ⊆ cItems t := by
  have hmiddle : partsItems t cGenerateMiddle = partsItems t (sourceParts nextGroups) ++
      ((Part.each cSetRound).items t ++ partsItems t cDeleteFuncs) := by
    have hnil : partsItems t [] = [] := rfl
    rw [cGenerateMiddle, cGenerateFuncSetMem, partsItems_append, partsItems_append,
      partsItems_cons, hnil, List.append_nil]
  have hlast : partsItems t cGenerateLast = (Part.each cSelectRound).items t ++
      (partsItems t cSelectFuncs ++ partsItems t cGenerateFuncIndex) := by
    rw [cGenerateLast, cGenerateFuncSelect, partsItems_append, partsItems_cons,
      List.append_assoc]
  rw [cItems, cFirstItems, hmiddle, hlast]
  refine ⟨fun item hmem => ?_, fun item hmem => ?_, fun item hmem => ?_⟩
  · simp only [List.mem_append, hmem, true_or, or_true]
  · simp only [List.mem_append, hmem, true_or, or_true]
  · simp only [List.mem_append, hmem, true_or, or_true]

theorem defined_mono {items items' : List (Item Text)} (h : items ⊆ items')
    {d : List (Token Text) × List (Token Text)} (hd : d ∈ defined items) : d ∈ defined items' := by
  obtain ⟨item, hmem, hitem⟩ := List.mem_filterMap.mp hd
  exact List.mem_filterMap.mpr ⟨item, h hmem, hitem⟩

section Wrapper
variable {t : GenTable} (ht : t.Parsed) (hnames : (t.columns.map ColumnDesc.nameText).Nodup)
  (hblob : ∀ column ∈ t.columns, column.indexedBlob = false)
include ht hnames hblob

/-- A function of the source is known by its name. -/
theorem defined_inj {d d' : List (Token Text) × List (Token Text)} (hd : d ∈ defined (cItems t))
    (hd' : d' ∈ defined (cItems t)) (h : functionName d.1 = functionName d'.1) : d = d' := by
  have hnodup : (namesOf (cItems t)).Nodup := by
    rw [namesOf_cItems ht hblob]
    exact (functionNames_nodup hnames).map (Option.some_injective _)
  rw [namesOf, definedHeads, List.map_map] at hnodup
  exact List.inj_on_of_nodup_map hnodup hd hd' h

/-- The one function of some name. -/
theorem forall_defined_iff {round : ColumnDesc → Option Template} {i : ℕ} {column : ColumnDesc}
    {g : Forwarder Text} (hcolumn : t.columns[i]? = some column)
    (hsub : (Part.each round).items t ⊆ cItems t)
    (hround : ∃ d, defined (roundItems t round i column) = [d] ∧
      forwarder "return".toList d = some g) {passes : List (Token Text) × List (Token Text) → Prop}
    {fits : Prop} (hfits : ∀ d, forwarder "return".toList d = some g → (passes d ↔ fits)) :
    (∀ d ∈ defined (cItems t), functionName d.1 = some g.name → passes d) ↔ fits := by
  obtain ⟨d, hd, hforwarder⟩ := hround
  have hname := functionName_of_forwarder hforwarder
  have hitems : roundItems t round i column ⊆ cItems t := by
    have hround := @mem_columnsItems t round t.columns i column hcolumn 0
    rw [Nat.zero_add] at hround
    exact fun item hmem => hsub (hround hmem)
  have hmem : d ∈ defined (cItems t) := defined_mono hitems (hd ▸ List.mem_singleton_self d)
  constructor
  · exact fun h => (hfits d hforwarder).mp (h d hmem hname)
  · intro h d' hmem' hname'
    rw [defined_inj ht hnames hblob hmem' hmem (hname'.trans hname.symm)]
    exact (hfits d hforwarder).mpr h

omit ht hblob in
/-- There is no function to delete or select by a column that is not indexed. -/
theorem notMem_functionNames {column : ColumnDesc} (hmem : column ∈ t.columns)
    (hunique : ¬ sormIsUniqueColumn column.constraint) {purpose : String}
    (hpurpose : (purpose, t.indexed) ∈ t.wrapped) (hset : purpose ≠ "_set_") :
    t.name ++ wrapperSuffix purpose column ∉ t.functionNames := by
  intro h
  obtain ⟨w, hw, hfirst, column', hmem', hname⟩ := mem_functionNames hpurpose h
  have hindexed : column' ∈ t.indexed := by
    simp only [GenTable.wrapped, List.mem_cons, List.not_mem_nil, or_false] at hw
    rcases hw with rfl | rfl | rfl
    · exact absurd hfirst.symm hset
    · exact hmem'
    · exact hmem'
  obtain ⟨hcolumn, hunique'⟩ := List.mem_filter.mp hindexed
  rw [List.inj_on_of_nodup_map hnames hcolumn hmem hname] at hunique'
  exact hunique hunique'

omit hnames in
theorem notMem_namesOf {name : Text} :
    some name ∉ namesOf (cItems t) ↔ name ∉ t.functionNames := by
  rw [namesOf_cItems ht hblob, List.mem_map_of_injective (Option.some_injective _)]

omit hnames in
theorem forall_defined_of_notMem {name : Text} (h : name ∉ t.functionNames)
    {passes : List (Token Text) × List (Token Text) → Prop} :
    ∀ d ∈ defined (cItems t), functionName d.1 = some name → passes d := by
  intro d hd hname
  refine absurd ?_ ((notMem_namesOf ht hblob).mpr h)
  rw [namesOf, definedHeads, List.map_map, List.mem_map]
  exact ⟨d, hd, hname⟩

/-- The wrappers of a column that is no `DOUBLE` pass its values if the names fit. -/
theorem wrappers_iff {i : ℕ} {column : ColumnDesc} (hcolumn : t.columns[i]? = some column)
    (hdouble : column.type ≠ .double) :
    (∀ kind ∈ wrapperKinds, ∀ d ∈ defined (cItems t),
      functionName d.1 = some (t.name ++ wrapperSuffix kind.1 column) →
        PassesValue t (cItems t) i column kind.2 d) ↔ NamesFit t column := by
  have hmem : column ∈ t.columns := List.mem_of_getElem? hcolumn
  have hparsed := ht.columns column hmem
  obtain ⟨hsetSub, hdeleteSub, hselectSub⟩ := each_subset_cItems t
  have hset := forall_defined_iff ht hnames hblob hcolumn hsetSub (setRound_read t i hparsed)
    fun d hd => @passesValue_set_iff t i column hparsed (cItems t) d hd
  rw [notMem_namesOf ht hblob] at hset
  simp only [wrapperKinds, List.forall_mem_cons, List.not_mem_nil, false_imp_iff, implies_true,
    and_true]
  by_cases hunique : sormIsUniqueColumn column.constraint
  · have hdelete := forall_defined_iff ht hnames hblob hcolumn hdeleteSub
      (deleteRound_read t i hparsed hunique (hblob column hmem))
      fun d hd => @passesValue_delete_iff t i column hparsed (cItems t) d hd
    have hselect := forall_defined_iff ht hnames hblob hcolumn hselectSub
      (selectRound_read t i hparsed hunique (hblob column hmem))
      fun d hd => @passesValue_select_iff t i column hparsed (cItems t) d hdouble hd
    rw [notMem_namesOf ht hblob] at hdelete hselect
    rw [NamesFit]
    constructor
    · rintro ⟨hset', hdelete', hselect'⟩
      obtain ⟨hscoped, hint64, hcallee⟩ := hset.mp hset'
      obtain ⟨hscopedDelete, -, hcalleeDelete⟩ := hdelete.mp hdelete'
      obtain ⟨hscopedSelect, -, hcalleeSelect⟩ := hselect.mp hselect'
      exact ⟨hscoped, hint64, hcallee,
        fun _ => ⟨hscopedDelete, hscopedSelect, hcalleeDelete, hcalleeSelect⟩⟩
    · rintro ⟨hscoped, hint64, hcallee, hindexed⟩
      obtain ⟨hscopedDelete, hscopedSelect, hcalleeDelete, hcalleeSelect⟩ := hindexed hunique
      exact ⟨hset.mpr ⟨hscoped, hint64, hcallee⟩,
        hdelete.mpr ⟨hscopedDelete, hint64, hcalleeDelete⟩,
        hselect.mpr ⟨hscopedSelect, hint64, hcalleeSelect⟩⟩
  · have hdelete : t.name ++ wrapperSuffix "_delete_by_" column ∉ t.functionNames :=
      notMem_functionNames hnames hmem hunique (by simp [GenTable.wrapped]) (by decide)
    have hselect : t.name ++ wrapperSuffix "_select_by_" column ∉ t.functionNames :=
      notMem_functionNames hnames hmem hunique (by simp [GenTable.wrapped]) (by decide)
    rw [NamesFit]
    constructor
    · rintro ⟨hset', -, -⟩
      obtain ⟨hscoped, hint64, hcallee⟩ := hset.mp hset'
      exact ⟨hscoped, hint64, hcallee, fun h => absurd h hunique⟩
    · rintro ⟨hscoped, hint64, hcallee, -⟩
      exact ⟨hset.mpr ⟨hscoped, hint64, hcallee⟩, forall_defined_of_notMem ht hblob hdelete,
        forall_defined_of_notMem ht hblob hselect⟩

end Wrapper

/-- What the columns of a table must be for its files to agree. -/
def Agreeable (t : GenTable) : Prop :=
  ∀ column ∈ t.columns, (column.type ≠ .double ∧ column.indexedBlob = false) ∧
    (column.nameText ≠ "table_desc".toList ∧ ∀ column' ∈ t.columns, ¬ column.Clashes column') ∧
    NamesFit t column

instance (t : GenTable) : Decidable (Agreeable t) :=
  inferInstanceAs (Decidable (∀ column ∈ t.columns, _))

section Files
variable {t : GenTable} (ht : t.Parsed) (hnames : (t.columns.map ColumnDesc.nameText).Nodup)
  {header source : Text} {more : List (Token Text)}
  (hheader : readUnit header = some (headerItems t more))
include ht hheader

theorem members_iff : (∃ hs block names, readUnit header = some hs ∧
      printedStruct t hs = some block ∧ memberNames block = some names ∧ names.Nodup) ↔
    ("table_desc".toList :: t.columns.flatMap memberTexts).Nodup := by
  have hstruct := printedStruct_headerItems t more
  have hblock := memberNames_structBlock ht
  constructor
  · rintro ⟨hs, block, names, hhs, hprinted, hmembers, hnodup⟩
    rw [hheader] at hhs
    obtain rfl := Option.some.inj hhs
    rw [hstruct] at hprinted
    obtain rfl := Option.some.inj hprinted
    rw [hblock] at hmembers
    obtain rfl := Option.some.inj hmembers
    exact hnodup
  · exact fun hnodup => ⟨_, _, _, hheader, hstruct, hblock, hnodup⟩

include hnames

/-- The files of a table without indexed `BLOB` columns. -/
theorem filesAgree_of_reads (hblob : ∀ column ∈ t.columns, column.indexedBlob = false)
    (hsource : readUnit source = some (cItems t)) :
    FilesAgree t header source ↔ Agreeable t := by
  have hfunctions := functionsAgree_iff ht hblob hheader hsource
  have hmembers := (members_iff ht hheader).trans (nodup_memberTexts t.columns)
  constructor
  · intro h column hmem
    have hdouble := hfunctions.mp h.functions.1
    obtain ⟨-, hclash⟩ := hmembers.mp h.members
    obtain ⟨i, hcolumn⟩ := List.getElem?_of_mem hmem
    exact ⟨⟨hdouble column hmem, hblob column hmem⟩, hclash column hmem,
      (wrappers_iff ht hnames hblob hcolumn (hdouble column hmem)).mp
        (h.wrappers _ hsource i column hcolumn)⟩
  · intro h
    have hagree := hfunctions.mpr fun column hmem => (h column hmem).1.1
    refine ⟨hmembers.mpr ⟨hnames, fun column hmem => (h column hmem).2.1⟩, ⟨hagree, ?_⟩,
      balanced_of_readUnit hsource, ?_⟩
    · intro hs hhs
      obtain ⟨hs', cs, hhs', hcs, hperm⟩ := hagree
      rw [hsource] at hcs
      obtain rfl := Option.some.inj hcs
      obtain rfl := Option.some.inj (hhs'.symm.trans hhs)
      have hnodup : (namesOf (cItems t)).Nodup := by
        rw [namesOf_cItems ht hblob]
        exact (functionNames_nodup hnames).map (Option.some_injective _)
      exact (hperm.map functionName).nodup_iff.mpr hnodup
    · intro cs hcs i column hcolumn
      rw [hsource] at hcs
      obtain rfl := Option.some.inj hcs
      have hmem := List.mem_of_getElem? hcolumn
      exact (wrappers_iff ht hnames hblob hcolumn (h column hmem).1.1).mpr (h column hmem).2.2

end Files

def driverTable : GenTable where
  name := "driver".toList
  columns := [{ ColumnDesc.zero with name := some "id".toList, constraint := .pk },
    { ColumnDesc.zero with name := some "name".toList, type := .text, mem := .heap }]
  pkIndex := some 0
  createSql := "CREATE TABLE driver (id INTEGER PRIMARY KEY, name TEXT)".toList

def sizeColumn : ColumnDesc := { ColumnDesc.zero with name := some "size".toList, type := .double }

def sizedTable : GenTable where
  name := "file".toList
  columns := [{ ColumnDesc.zero with name := some "id".toList, constraint := .pk }, sizeColumn]
  pkIndex := some 0
  createSql := "CREATE TABLE file (id INTEGER PRIMARY KEY, size REAL)".toList

end Sorm
