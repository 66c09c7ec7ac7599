import Sorm.FunctionNames

/-!
# When a wrapper passes the value

A wrapper passes the library a pointer to the value of its column unless one of its names is no
identifier or hides another one.
-/

namespace Sorm

open CReader ParserLex

/-- A function of the library, with the positions of the column's index and of the value among its
arguments. -/
structure Callee where
  name : String
  index : ℕ
  value : ℕ

def setCallee : Callee := ⟨"sorm_set_column_value", 1, 2⟩

def deleteCallee : Callee := ⟨"sorm_delete_by_column", 2, 3⟩

def selectCallee : Callee := ⟨"sorm_select_one_by_column", 4, 5⟩

/-- What the library reads behind the pointer to a value. -/
def cTypes : SormType → List (List (Token Text))
  | .int => [[.word "int".toList], [.word "int32_t".toList]]
  | .int64 => [[.word "int64_t".toList]]
  | .text => [[.word "char".toList]]
  | .double => [[.word "double".toList]]
  | .blob => [[.word "void".toList]]
  | .unknown _ => []

/-- A function of the source calls one of the library, and passes it the index of a column and a
pointer to a value of its type. -/
def PassesValue (t : GenTable) (source : List (Item Text)) (i : ℕ) (column : ColumnDesc)
    (callee : Callee) (d : List (Token Text) × List (Token Text)) : Prop :=
  ∃ g e type, forwarder "return".toList d = some g ∧ g.Scoped ∧
    g.callee = callee.name.toList ∧ some g.callee ∉ namesOf source ∧
    g.args[callee.index]? = some [.word (printInt i)] ∧ g.args[callee.value]? = some e ∧
    g.pointee e = some type ∧ type ∈ cTypes column.type ∧
    type ≠ [.word (t.name ++ "_t".toList)]

theorem printInt_digit (i : ℕ) : (printInt i).head?.any Char.isDigit := by
  rw [printInt, if_neg (Int.not_lt.mpr (Int.natCast_nonneg i))]
  have hne : Nat.toDigits 10 (i : ℤ).natAbs ≠ [] := Nat.toDigits_ne_nil
  obtain ⟨c, w, hw⟩ := List.exists_cons_of_ne_nil hne
  have hc : c ∈ Nat.toDigits 10 (i : ℤ).natAbs := hw ▸ List.mem_cons_self
  rw [hw]
  exact Nat.isDigit_of_mem_toDigits (by decide) (by decide) hc

def setNames (type : SormType) : List Text :=
  ["sorm_set_column_value".toList, "sorm_table_descriptor_t".toList] ++
    if type = .blob then ["len".toList] else []

def fixedNames : List Text := ["conn".toList, "allocator".toList, "column_names".toList]

def selectNames : List Text :=
  fixedNames ++ ["sorm_select_one_by_column".toList, "sorm_table_descriptor_t".toList]

section Scoped
variable (t : GenTable) (column : ColumnDesc)

def SetScoped : Prop :=
  (∀ name ∈ [t.name, column.nameText], IsIdentifier name ∧ name ∉ setNames column.type) ∧
    t.name ≠ column.nameText ∧ (column.type = .int64 → t.name ≠ "int64_t".toList)

def DeleteScoped : Prop :=
  IsIdentifier column.nameText ∧ column.nameText ∉ ["conn".toList,
    "sorm_delete_by_column".toList, t.name ++ "_table_descriptor".toList]

def SelectScoped : Prop :=
  (∀ name ∈ [t.name, column.nameText], IsIdentifier name ∧ name ∉ selectNames) ∧
    t.name ≠ column.nameText ∧ column.nameText ∉ [t.name ++ "_t".toList,
      t.name ++ "_table_descriptor".toList]

instance : Decidable (SetScoped t column) := inferInstanceAs (Decidable (_ ∧ _ ∧ _))

instance : Decidable (DeleteScoped t column) := inferInstanceAs (Decidable (_ ∧ _))

instance : Decidable (SelectScoped t column) := inferInstanceAs (Decidable (_ ∧ _ ∧ _))

end Scoped

/-- The words that no identifier is. -/
theorem isIdentifier_ne {name : Text} (h : IsIdentifier name) (i : ℕ) :
    name ≠ "int".toList ∧ name ≠ "char".toList ∧ name ≠ "const".toList ∧ name ≠ "void".toList ∧
      name ≠ "0".toList ∧ name ≠ printInt i :=
  ⟨h.ne_reserved (by decide), h.ne_reserved (by decide), h.ne_reserved (by decide),
    h.ne_reserved (by decide), h.ne_number rfl, h.ne_number (printInt_digit i)⟩

theorem typeWords (type : SormType) (h : type ≠ .int64) :
    (wordsOf (setType String.toList type) ++ wordsOf (deleteType String.toList type) ++
      wordsOf (selectType String.toList type)).all fun name => decide (name ∈ reserved) := by
  cases type with
  | int64 => exact absurd rfl h
  | unknown code => rfl
  | _ => decide

theorem notMem_typeWords {name : Text} (h : IsIdentifier name) (type : SormType) :
    (name ∉ wordsOf (setType String.toList type) ↔
      (type = .int64 → name ≠ "int64_t".toList)) ∧
    (name ≠ "int64_t".toList → name ∉ wordsOf (deleteType String.toList type) ∧
      name ∉ wordsOf (selectType String.toList type)) := by
  by_cases hint64 : type = .int64
  · rw [hint64]
    simp [setType, deleteType, selectType, wordsOf, Token.wordOf]
  · have hall := typeWords type hint64
    simp only [List.all_append, Bool.and_eq_true, List.all_eq_true, decide_eq_true_eq] at hall
    obtain ⟨⟨hset, hdelete⟩, hselect⟩ := hall
    refine ⟨iff_of_true (fun hmem => h.2.2 (hset name hmem)) fun heq => absurd heq hint64, ?_⟩
    exact fun _ => ⟨fun hmem => h.2.2 (hdelete name hmem), fun hmem => h.2.2 (hselect name hmem)⟩

section Iff
variable {t : GenTable} {i : ℕ} {column : ColumnDesc}

theorem setWrapper_words (type : SormType) : (setWrapper (t.words i column) type).words =
    ["sorm_set_column_value".toList, "sorm_table_descriptor_t".toList, t.name, printInt i,
      column.nameText, (if type = .blob then "len" else "0").toList] := by
  cases type <;> rfl

theorem setWrapper_params (type : SormType) : (setWrapper (t.words i column) type).params =
    [⟨[.word (t.name ++ "_t".toList), .mark '*'], t.name⟩,
      ⟨setType String.toList type, column.nameText⟩] ++
      if type = .blob then [⟨[.word "int".toList], "len".toList⟩] else [] := rfl

theorem setWrapper_scoped_iff : (setWrapper (t.words i column) column.type).Scoped ↔
    SetScoped t column := by
  have hparams := @setWrapper_params t i column column.type
  by_cases hblob : column.type = .blob
  · have hlen : IsIdentifier "len".toList ∧ "len".toList ≠ "sorm_set_column_value".toList ∧
      "len".toList ≠ "sorm_table_descriptor_t".toList := by decide
    have hnumber := (isIdentifier_ne hlen.1 i).2.2.2.2.2
    rw [if_pos hblob] at hparams
    have hwords : (setWrapper (t.words i column) column.type).words.Perm
        ([t.name, column.nameText, "len".toList] ++
          ["sorm_set_column_value".toList, "sorm_table_descriptor_t".toList, printInt i]) := by
      rw [setWrapper_words, if_pos hblob, List.perm_iff_count]
      intro name
      simp only [List.count_cons, List.count_append, List.count_nil]
      omega
    rw [scoped_iff hparams hwords]
    simp only [SetScoped, hblob, setNames, setType, List.map_cons, List.map_nil,
      List.pairwise_cons, List.nodup_cons, List.mem_cons, List.not_mem_nil, or_false, not_or,
      List.cons_append, List.nil_append, List.Pairwise.nil, not_false_eq_true, and_true,
      false_imp_iff, implies_true, wordsOf, List.filterMap_cons, List.filterMap_nil, Token.wordOf,
      if_true, reduceCtorEq, List.nodup_nil, forall_eq_or_imp, forall_eq, ne_eq]
      at hlen hnumber ⊢
    constructor
    · rintro ⟨⟨⟨htable, hset, hdescriptor, -⟩, ⟨hcolumn, hset', hdescriptor', -⟩, -⟩,
        ⟨⟨hne, hlenTable⟩, hlenColumn⟩, -⟩
      exact ⟨⟨⟨htable, hset, hdescriptor, hlenTable⟩, hcolumn, hset', hdescriptor', hlenColumn⟩,
        hne⟩
    · rintro ⟨⟨⟨htable, hset, hdescriptor, hlenTable⟩, hcolumn, hset', hdescriptor', hlenColumn⟩,
        hne⟩
      obtain ⟨hint, -, hconst, hvoid, -, hindex⟩ := isIdentifier_ne htable i
      obtain ⟨hint', -, -, -, -, hindex'⟩ := isIdentifier_ne hcolumn i
      exact ⟨⟨⟨htable, hset, hdescriptor, hindex⟩, ⟨hcolumn, hset', hdescriptor', hindex'⟩,
        hlen.1, hlen.2.1, hlen.2.2, hnumber⟩, ⟨⟨hne, hlenTable⟩, hlenColumn⟩,
        ⟨⟨hconst, hvoid⟩, hint⟩, hint'⟩
  · rw [if_neg hblob, List.append_nil] at hparams
    have hwords : (setWrapper (t.words i column) column.type).words.Perm
        ([t.name, column.nameText] ++ ["sorm_set_column_value".toList,
          "sorm_table_descriptor_t".toList, printInt i, "0".toList]) := by
      rw [setWrapper_words, if_neg hblob, List.perm_iff_count]
      intro name
      simp only [List.count_cons, List.count_append, List.count_nil]
      omega
    rw [scoped_iff hparams hwords]
    simp only [SetScoped, setNames, hblob, List.map_cons, List.map_nil, List.pairwise_cons,
      List.nodup_cons, List.mem_cons, List.not_mem_nil, or_false, not_or, List.append_nil,
      List.Pairwise.nil, not_false_eq_true, and_true, false_imp_iff, implies_true, if_false,
      List.nodup_nil, forall_eq_or_imp, forall_eq, ne_eq]
    constructor
    · rintro ⟨⟨⟨htable, hset, hdescriptor, -⟩, hcolumn, hset', hdescriptor', -⟩, hne, htype⟩
      exact ⟨⟨⟨htable, hset, hdescriptor⟩, hcolumn, hset', hdescriptor'⟩, hne,
        (notMem_typeWords htable column.type).1.mp htype⟩
    · rintro ⟨⟨⟨htable, hset, hdescriptor⟩, hcolumn, hset', hdescriptor'⟩, hne, htype⟩
      obtain ⟨-, -, -, -, hzero, hindex⟩ := isIdentifier_ne htable i
      obtain ⟨-, -, -, -, hzero', hindex'⟩ := isIdentifier_ne hcolumn i
      exact ⟨⟨⟨htable, hset, hdescriptor, hindex, hzero⟩, hcolumn, hset', hdescriptor', hindex',
        hzero'⟩, hne, (notMem_typeWords htable column.type).1.mpr htype⟩

/-- The names of the parameters that are the same in all wrappers. -/
theorem fixedNames_spec : ∀ name ∈ fixedNames, IsIdentifier name ∧
    name ∉ ["sorm_delete_by_column".toList, "sorm_select_one_by_column".toList,
      "sorm_table_descriptor_t".toList, "int64_t".toList] ∧
    ¬ "_t".toList <:+ name ∧ ¬ "_table_descriptor".toList <:+ name := by
  decide

theorem ne_append_of_not_suffix {name suffix : Text} (h : ¬ suffix <:+ name) (front : Text) :
    name ≠ front ++ suffix := by
  rintro rfl
  exact h (List.suffix_append front suffix)

theorem deleteWrapper_words (type : SormType) : (deleteWrapper (t.words i column) type).words =
    ["sorm_delete_by_column".toList, "conn".toList, t.name ++ "_table_descriptor".toList,
      printInt i, "void".toList, column.nameText] := by
  cases type <;> rfl

theorem deleteWrapper_params (type : SormType) :
    (deleteWrapper (t.words i column) type).params =
      [⟨[.word "const".toList, .word "sorm_connection_t".toList, .mark '*'], "conn".toList⟩,
        ⟨deleteType String.toList type, column.nameText⟩] := rfl

theorem deleteWrapper_scoped_iff : (deleteWrapper (t.words i column) column.type).Scoped ↔
    DeleteScoped t column := by
  have hparams := @deleteWrapper_params t i column column.type
  have hwords : (deleteWrapper (t.words i column) column.type).words.Perm
      (["conn".toList, column.nameText] ++ ["sorm_delete_by_column".toList,
        t.name ++ "_table_descriptor".toList, printInt i, "void".toList]) := by
    rw [deleteWrapper_words, List.perm_iff_count]
    intro name
    simp only [List.count_cons, List.count_append, List.count_nil]
    omega
  obtain ⟨hconn, hother, -, hsuffix⟩ := fixedNames_spec "conn".toList List.mem_cons_self
  obtain ⟨-, -, -, hvoid, -, hindex⟩ := isIdentifier_ne hconn i
  have hdescriptor := ne_append_of_not_suffix hsuffix t.name
  rw [scoped_iff hparams hwords]
  simp only [DeleteScoped, List.map_cons, List.map_nil, List.pairwise_cons, List.nodup_cons,
    List.mem_cons, List.not_mem_nil, or_false, not_or, List.Pairwise.nil, not_false_eq_true,
    and_true, false_imp_iff, implies_true, List.nodup_nil, forall_eq_or_imp, forall_eq]
    at hother ⊢
  obtain ⟨hdelete, -, -, hint64⟩ := hother
  constructor
  · rintro ⟨⟨-, hcolumn, hdelete', hdescriptor', -⟩, hne, -⟩
    exact ⟨hcolumn, Ne.symm hne, hdelete', hdescriptor'⟩
  · rintro ⟨hcolumn, hne, hdelete', hdescriptor'⟩
    obtain ⟨-, -, -, hvoid', -, hindex'⟩ := isIdentifier_ne hcolumn i
    exact ⟨⟨⟨hconn, hdelete, hdescriptor, hindex, hvoid⟩, hcolumn, hdelete', hdescriptor', hindex',
      hvoid'⟩, Ne.symm hne, ((notMem_typeWords hconn column.type).2 hint64).1⟩

theorem selectWrapper_words (type : SormType) : (selectWrapper (t.words i column) type).words =
    ["sorm_select_one_by_column".toList, "conn".toList, "allocator".toList,
      t.name ++ "_table_descriptor".toList, "column_names".toList, printInt i, "void".toList,
      column.nameText, "sorm_table_descriptor_t".toList, t.name] := by
  cases type <;> rfl

def fixedParams : List (Parameter Text) :=
  [⟨[.word "const".toList, .word "sorm_connection_t".toList, .mark '*'], "conn".toList⟩,
    ⟨[.word "const".toList, .word "sorm_allocator_t".toList, .mark '*'], "allocator".toList⟩,
    ⟨[.word "const".toList, .word "char".toList, .mark '*'], "column_names".toList⟩]

theorem fixedParams_spec : fixedParams.map Parameter.name = fixedNames ∧ fixedNames.Nodup ∧
    fixedParams.Pairwise fun p p' => p.name ∉ wordsOf p'.type := by
  decide

theorem selectWrapper_params (type : SormType) :
    (selectWrapper (t.words i column) type).params = fixedParams ++
      [⟨selectType String.toList type, column.nameText⟩,
        ⟨[.word (t.name ++ "_t".toList), .mark '*', .mark '*'], t.name⟩] := rfl

theorem selectWrapper_scoped_iff : (selectWrapper (t.words i column) column.type).Scoped ↔
    SelectScoped t column := by
  have hparams := @selectWrapper_params t i column column.type
  have hwords : (selectWrapper (t.words i column) column.type).words.Perm
      (fixedNames ++ [column.nameText, t.name] ++ ["sorm_select_one_by_column".toList,
        t.name ++ "_table_descriptor".toList, printInt i, "void".toList,
        "sorm_table_descriptor_t".toList]) := by
    rw [selectWrapper_words, fixedNames, List.perm_iff_count]
    intro name
    simp only [List.count_cons, List.count_append, List.count_nil]
    omega
  have hfixed : ∀ name ∈ fixedNames, (IsIdentifier name ∧
      name ∉ ["sorm_select_one_by_column".toList, t.name ++ "_table_descriptor".toList,
        printInt i, "void".toList, "sorm_table_descriptor_t".toList]) ∧
      name ∉ wordsOf (selectType String.toList column.type) ∧ name ≠ t.name ++ "_t".toList := by
    intro name hmem
    obtain ⟨hname, hother, htype, hdescriptor⟩ := fixedNames_spec name hmem
    obtain ⟨-, -, -, hvoid, -, hindex⟩ := isIdentifier_ne hname i
    simp only [List.mem_cons, List.not_mem_nil, or_false, not_or] at hother ⊢
    obtain ⟨-, hselect, htable, hint64⟩ := hother
    exact ⟨⟨hname, hselect, ne_append_of_not_suffix hdescriptor t.name, hindex, hvoid, htable⟩,
      ((notMem_typeWords hname column.type).2 hint64).2, ne_append_of_not_suffix htype t.name⟩
  obtain ⟨hnames, hnodup, htypes⟩ := fixedParams_spec
  have hself : t.name ≠ t.name ++ "_table_descriptor".toList := fun heq =>
    absurd (List.self_eq_append_right.mp heq) (by decide)
  rw [scoped_iff hparams (by rw [List.map_append, hnames]; exact hwords), List.map_append, hnames,
    List.forall_mem_append, List.nodup_append, List.pairwise_append]
  simp only [SelectScoped, selectNames, List.map_cons, List.map_nil, List.pairwise_cons,
    List.nodup_cons, List.mem_append, List.mem_cons, List.not_mem_nil, or_false, not_or,
    List.Pairwise.nil, not_false_eq_true, and_true, false_imp_iff, implies_true, List.nodup_nil,
    forall_eq_or_imp, forall_eq, wordsOf, List.filterMap_cons, List.filterMap_nil, Token.wordOf]
  constructor
  · rintro ⟨⟨-, ⟨hcolumn, hselect, hdescriptor, -, -, hcast⟩, htable, hselect', -, -, -, hcast'⟩,
      ⟨-, hne, hdisjoint⟩, -, htype, -⟩
    exact ⟨⟨⟨htable, fun hmem => (hdisjoint _ hmem).2 rfl, hselect', hcast'⟩, hcolumn,
      fun hmem => (hdisjoint _ hmem).1 rfl, hselect, hcast⟩, Ne.symm hne, htype, hdescriptor⟩
  · rintro ⟨⟨⟨htable, hfixedTable, hselect', hcast'⟩, hcolumn, hfixedColumn, hselect, hcast⟩, hne,
      htype, hdescriptor⟩
    obtain ⟨-, -, -, hvoid, -, hindex⟩ := isIdentifier_ne htable i
    obtain ⟨-, -, -, hvoid', -, hindex'⟩ := isIdentifier_ne hcolumn i
    refine ⟨⟨?_, ⟨hcolumn, hselect, hdescriptor, hindex', hvoid', hcast⟩, htable, hselect', hself,
      hindex, hvoid, hcast'⟩, ⟨hnodup, Ne.symm hne, ?_⟩, htypes, htype, ?_⟩
    · intro name hmem
      simpa using (hfixed name hmem).1
    · intro name hmem
      exact ⟨fun heq => hfixedColumn (heq ▸ hmem), fun heq => hfixedTable (heq ▸ hmem)⟩
    · intro p hp
      have hmem : p.name ∈ fixedNames := hnames ▸ List.mem_map_of_mem hp
      exact (hfixed p.name hmem).2

def cType : SormType → Text
  | .int => "int".toList
  | .int64 => "int64_t".toList
  | .text => "char".toList
  | .double => "double".toList
  | .blob => "void".toList
  | .unknown _ => []

theorem cType_mem {type : SormType} (h : ∀ code, type ≠ .unknown code) :
    [.word (cType type)] ∈ cTypes type := by
  cases type with
  | unknown code => exact absurd rfl (h code)
  | _ => exact List.mem_cons_self

theorem cType_own (type : SormType) (table : Text) :
    ([.word (cType type)] : List (Token Text)) ≠ [.word (table ++ "_t".toList)] ↔
      (type = .int64 → table ≠ "int64".toList) := by
  have hother : ∀ type, type ≠ SormType.int64 → ¬ "_t".toList <:+ cType type := by
    intro type htype
    cases type with
    | int64 => exact absurd rfl htype
    | unknown code => exact fun h => absurd (List.suffix_nil.mp h) (by decide)
    | _ => decide
  rw [ne_eq, List.singleton_inj, Token.word.injEq]
  by_cases hint64 : type = .int64
  · have hsplit : cType .int64 = "int64".toList ++ "_t".toList := rfl
    rw [hint64, hsplit, List.append_cancel_right_eq]
    exact ⟨fun h _ heq => h heq.symm, fun h heq => h rfl heq.symm⟩
  · exact iff_of_true (ne_append_of_not_suffix (hother type hint64) table)
      fun heq => absurd heq hint64

/-- What an argument for a value points to if its parameter is declared with some type. -/
def pointeeOf (declared : List (Token Text)) : SormType → Option (List (Token Text))
  | .int | .int64 | .double => some (unqualified declared)
  | .text | .blob | .unknown _ => pointed declared

theorem pointee_valueArg {g : Forwarder Text} {declared : List (Token Text)}
    (h : g.typeOf column.nameText = some declared) (type : SormType) :
    g.pointee (valueArg (t.words i column) type) = pointeeOf declared type ∧
      g.pointee (voidArg (t.words i column) type) = pointeeOf declared type := by
  have haddress : g.pointee [.mark '&', .word column.nameText] = some (unqualified declared) := by
    rw [pointee_address, h]
    rfl
  have hword : g.pointee [.word column.nameText] = pointed declared := by
    rw [pointee_word, h]
    rfl
  have hvoid := @pointee_void g
  cases type with
  | int | int64 | double => exact ⟨haddress, (hvoid _ uncast_address).trans haddress⟩
  | text | blob | unknown => exact ⟨hword, (hvoid _ uncast_word).trans hword⟩

theorem pointeeOf_types {type : SormType} (h : ∀ code, type ≠ .unknown code) :
    pointeeOf (setType String.toList type) type = some [.word (cType type)] ∧
    pointeeOf (deleteType String.toList type) type = some [.word (cType type)] ∧
    (type ≠ .double →
      pointeeOf (selectType String.toList type) type = some [.word (cType type)]) := by
  cases type with
  | unknown code => exact absurd rfl (h code)
  | _ => decide

theorem passesValue_iff {source : List (Item Text)} {callee : Callee}
    {d : List (Token Text) × List (Token Text)} {g : Forwarder Text} {e : List (Token Text)}
    {fits : Prop} (htype : ∀ code, column.type ≠ .unknown code)
    (hd : forwarder "return".toList d = some g) (hcallee : g.callee = callee.name.toList)
    (hindex : g.args[callee.index]? = some [.word (printInt i)])
    (hvalue : g.args[callee.value]? = some e) (hscoped : g.Scoped ↔ fits)
    (hpointee : fits → g.pointee e = some [.word (cType column.type)]) :
    PassesValue t source i column callee d ↔
      fits ∧ (column.type = .int64 → t.name ≠ "int64".toList) ∧
        some callee.name.toList ∉ namesOf source := by
  rw [← cType_own]
  constructor
  · rintro ⟨g', e', type, hd', hscoped', -, hnames, -, hvalue', hpointee', -, hown⟩
    obtain rfl := Option.some.inj (hd.symm.trans hd')
    obtain rfl := Option.some.inj (hvalue.symm.trans hvalue')
    have hfits := hscoped.mp hscoped'
    obtain rfl := Option.some.inj ((hpointee hfits).symm.trans hpointee')
    exact ⟨hfits, hown, hcallee ▸ hnames⟩
  · rintro ⟨hfits, hown, hnames⟩
    exact ⟨g, e, _, hd, hscoped.mpr hfits, hcallee, hcallee ▸ hnames, hindex, hvalue,
      hpointee hfits, cType_mem htype, hown⟩

section Column
variable (h : column.Parsed) {source : List (Item Text)}
  {d : List (Token Text) × List (Token Text)}
include h

theorem passesValue_set_iff
    (hd : forwarder "return".toList d = some (setWrapper (t.words i column) column.type)) :
    PassesValue t source i column setCallee d ↔ SetScoped t column ∧
      (column.type = .int64 → t.name ≠ "int64".toList) ∧
        some "sorm_set_column_value".toList ∉ namesOf source := by
  refine passesValue_iff h.type hd rfl rfl rfl setWrapper_scoped_iff fun hfits => ?_
  refine (pointee_valueArg ?_ column.type).1.trans (pointeeOf_types h.type).1
  have hne : decide (t.name = column.nameText) = false := decide_eq_false hfits.2.1
  have hself : decide (column.nameText = column.nameText) = true := decide_eq_true rfl
  rw [Forwarder.typeOf, setWrapper_params, List.cons_append, List.find?_cons, hne,
    List.cons_append, List.find?_cons, hself]
  rfl

theorem passesValue_delete_iff
    (hd : forwarder "return".toList d = some (deleteWrapper (t.words i column) column.type)) :
    PassesValue t source i column deleteCallee d ↔ DeleteScoped t column ∧
      (column.type = .int64 → t.name ≠ "int64".toList) ∧
        some "sorm_delete_by_column".toList ∉ namesOf source := by
  refine passesValue_iff h.type hd rfl rfl rfl deleteWrapper_scoped_iff fun hfits => ?_
  refine (pointee_valueArg ?_ column.type).2.trans (pointeeOf_types h.type).2.1
  have hne : decide ("conn".toList = column.nameText) = false :=
    decide_eq_false fun heq => hfits.2 (heq ▸ List.mem_cons_self)
  have hself : decide (column.nameText = column.nameText) = true := decide_eq_true rfl
  rw [Forwarder.typeOf, deleteWrapper_params, List.find?_cons, hne, List.find?_cons, hself]
  rfl

theorem passesValue_select_iff (hdouble : column.type ≠ .double)
    (hd : forwarder "return".toList d = some (selectWrapper (t.words i column) column.type)) :
    PassesValue t source i column selectCallee d ↔ SelectScoped t column ∧
      (column.type = .int64 → t.name ≠ "int64".toList) ∧
        some "sorm_select_one_by_column".toList ∉ namesOf source := by
  refine passesValue_iff h.type hd rfl rfl rfl selectWrapper_scoped_iff fun hfits => ?_
  refine (pointee_valueArg ?_ column.type).2.trans ((pointeeOf_types h.type).2.2 hdouble)
  have hnone : fixedParams.find? (fun p => p.name = column.nameText) = none := by
    rw [List.find?_eq_none]
    intro p hp hname
    have hmem : p.name ∈ fixedNames := fixedParams_spec.1 ▸ List.mem_map_of_mem hp
    rw [of_decide_eq_true hname] at hmem
    exact (hfits.1 _ (List.mem_cons_of_mem _ List.mem_cons_self)).2
      (List.mem_append_left _ hmem)
  have hself : decide (column.nameText = column.nameText) = true := decide_eq_true rfl
  rw [Forwarder.typeOf, selectWrapper_params, List.find?_append, hnone, Option.none_or,
    List.find?_cons, hself]
  rfl

end Column

end Iff
end Sorm
