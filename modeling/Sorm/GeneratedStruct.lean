import Sorm.GeneratedFunctions
import Sorm.HeaderStruct

/-!
# The generated struct

The struct in the header, read back: it has the members that offsets are computed for, and no two of
one name unless a column is called as a hidden field of another one.
-/

namespace Sorm

open CReader ParserLex

def ColumnDesc.descriptor (column : ColumnDesc) : ColumnDescriptor where
  name := column.nameText
  type := column.type
  constraint := column.constraint
  mem := column.mem
  maxLen := column.maxLen
  isForeignKey := column.isForeignKey
  foreignTableName := strOrNull column.foreignTableName
  foreignColumnName := strOrNull column.foreignColumnName

def GenTable.descriptors (t : GenTable) : List ColumnDescriptor :=
  t.columns.map ColumnDesc.descriptor

theorem valueType_isSome {column : ColumnDesc} (h : column.Parsed) :
    ∃ type, valueType column.descriptor = some type := by
  have htype := h.type
  have hmem := h.mem
  have hdescriptor : column.descriptor.type = column.type ∧ column.descriptor.mem = column.mem :=
    ⟨rfl, rfl⟩
  rw [valueType, hdescriptor.1, hdescriptor.2]
  cases hkind : column.type with
  | unknown code => exact absurd hkind (htype code)
  | text =>
      cases hwhere : column.mem with
      | none => exact absurd hwhere (hmem (Or.inl hkind))
      | _ => exact ⟨_, rfl⟩
  | blob =>
      cases hwhere : column.mem with
      | none => exact absurd hwhere (hmem (Or.inr hkind))
      | _ => exact ⟨_, rfl⟩
  | _ => exact ⟨_, rfl⟩

/-- The members of the columns from the `i`-th one on have the names that are printed. -/
theorem columnsMembers_names (front : List ColumnDesc) {columns : List ColumnDesc}
    (h : ∀ column ∈ columns, column.Parsed) :
    ∃ members, columnsMembers front.length (columns.map ColumnDesc.descriptor) = some members ∧
      members.map (fun m => m.1.name ((front ++ columns).map ColumnDesc.descriptor)) =
        columns.flatMap memberTexts := by
  induction columns generalizing front with
  | nil => exact ⟨[], rfl, rfl⟩
  | cons column columns ih =>
      obtain ⟨type, htype⟩ := valueType_isSome (h column List.mem_cons_self)
      have hrest := ih (front ++ [column]) fun column' hmem =>
        h column' (List.mem_cons_of_mem _ hmem)
      rw [List.length_append, List.length_singleton, List.append_assoc,
        List.singleton_append] at hrest
      obtain ⟨rest, hmembers, hnames⟩ := hrest
      have hname : Label.name.columnName ((front ++ column :: columns).map ColumnDesc.descriptor)
          front.length = column.nameText := by
        rw [Label.name.columnName, List.getElem?_map,
          List.getElem?_append_right (Nat.le_refl _), Nat.sub_self]
        rfl
      refine ⟨((if column.descriptor.type = .blob then [(.len front.length, .int)] else []) ++
        [(.stat front.length, .sormStat), (.value front.length, type)]) ++ rest, ?_, ?_⟩
      · rw [List.map_cons, columnsMembers, columnMembers, htype, hmembers]
        rfl
      · have hvalue : Label.name ((front ++ column :: columns).map ColumnDesc.descriptor)
            (.value front.length) = column.nameText := hname
        have hstat : Label.name ((front ++ column :: columns).map ColumnDesc.descriptor)
            (.stat front.length) = column.nameText ++ "_stat".toList :=
          congrArg (· ++ "_stat".toList) hname
        have hlen : Label.name ((front ++ column :: columns).map ColumnDesc.descriptor)
            (.len front.length) = column.nameText ++ "_len".toList :=
          congrArg (· ++ "_len".toList) hname
        have hblob : column.descriptor.type = column.type := rfl
        generalize (front ++ column :: columns).map ColumnDesc.descriptor = all at *
        rw [List.map_append, hnames, List.flatMap_cons, memberTexts, hblob]
        by_cases hkind : column.type = .blob
        · simp only [if_pos hkind, List.map_append, List.map_cons, List.map_nil, hvalue, hstat,
            hlen]
        · simp only [if_neg hkind, List.map_append, List.map_cons, List.map_nil, hvalue, hstat]

/-- The value of the first column is called as a hidden field of the second one. -/
def ColumnDesc.Clashes (column column' : ColumnDesc) : Prop :=
  column.nameText = column'.nameText ++ "_stat".toList ∨
    column'.type = .blob ∧ column.nameText = column'.nameText ++ "_len".toList

instance (column column' : ColumnDesc) : Decidable (column.Clashes column') :=
  inferInstanceAs (Decidable (_ ∨ _ ∧ _))

theorem mem_memberTexts {column : ColumnDesc} {name : Text} : name ∈ memberTexts column ↔
    name = column.nameText ∨ name = column.nameText ++ "_stat".toList ∨
      column.type = .blob ∧ name = column.nameText ++ "_len".toList := by
  rw [memberTexts]
  by_cases hblob : column.type = .blob
  · simp only [hblob, if_true, List.mem_append, List.mem_cons, List.not_mem_nil, or_false,
      true_and]
    tauto
  · simp only [hblob, if_false, List.nil_append, List.mem_cons, List.not_mem_nil, or_false,
      false_and]
    tauto

theorem getLast?_append_stat (a : Text) : (a ++ "_stat".toList).getLast? = some 't' := by
  rw [List.getLast?_append]
  rfl

theorem getLast?_append_len (a : Text) : (a ++ "_len".toList).getLast? = some 'n' := by
  rw [List.getLast?_append]
  rfl

theorem append_stat_ne_append_len (a b : Text) : a ++ "_stat".toList ≠ b ++ "_len".toList := by
  intro h
  have hlast := congrArg List.getLast? h
  rw [getLast?_append_stat, getLast?_append_len] at hlast
  exact absurd hlast (by decide)

theorem ne_append_hidden (a : Text) :
    a ≠ a ++ "_stat".toList ∧ a ≠ a ++ "_len".toList := by
  constructor <;>
  · intro h
    have hlength := congrArg List.length h
    rw [List.length_append] at hlength
    simp at hlength

theorem not_clashes_self (column : ColumnDesc) : ¬ column.Clashes column := by
  rintro (h | ⟨-, h⟩)
  · exact (ne_append_hidden _).1 h
  · exact (ne_append_hidden _).2 h

theorem memberTexts_nodup (column : ColumnDesc) : (memberTexts column).Nodup := by
  obtain ⟨hstat, hlen⟩ := ne_append_hidden column.nameText
  have hpair : [column.nameText ++ "_stat".toList, column.nameText].Nodup :=
    List.nodup_cons.mpr ⟨fun h => hstat (List.mem_singleton.mp h).symm, List.nodup_singleton _⟩
  rw [memberTexts]
  by_cases hblob : column.type = .blob
  · rw [if_pos hblob, List.singleton_append, List.nodup_cons]
    refine ⟨?_, hpair⟩
    rw [List.mem_cons, List.mem_singleton, not_or]
    exact ⟨(append_stat_ne_append_len _ _).symm, hlen.symm⟩
  · rw [if_neg hblob, List.nil_append]
    exact hpair

theorem disjoint_memberTexts {column column' : ColumnDesc} :
    (memberTexts column).Disjoint (memberTexts column') ↔
      column.nameText ≠ column'.nameText ∧ ¬ column.Clashes column' ∧
        ¬ column'.Clashes column := by
  constructor
  · intro h
    refine ⟨fun heq => ?_, ?_, ?_⟩
    · exact h (mem_memberTexts.mpr (Or.inl rfl)) (mem_memberTexts.mpr (Or.inl heq))
    · rintro (hstat | hlen)
      · exact h (mem_memberTexts.mpr (Or.inl rfl)) (mem_memberTexts.mpr (Or.inr (Or.inl hstat)))
      · exact h (mem_memberTexts.mpr (Or.inl rfl)) (mem_memberTexts.mpr (Or.inr (Or.inr hlen)))
    · rintro (hstat | hlen)
      · exact h (mem_memberTexts.mpr (Or.inr (Or.inl hstat))) (mem_memberTexts.mpr (Or.inl rfl))
      · exact h (mem_memberTexts.mpr (Or.inr (Or.inr hlen))) (mem_memberTexts.mpr (Or.inl rfl))
  · rintro ⟨hne, hclash, hclash'⟩ name hname hname'
    rw [mem_memberTexts] at hname hname'
    rcases hname with rfl | rfl | ⟨hblob, rfl⟩
    · rcases hname' with heq | hstat | hlen
      · exact hne heq
      · exact hclash (Or.inl hstat)
      · exact hclash (Or.inr hlen)
    · rcases hname' with hstat | heq | ⟨-, hlen⟩
      · exact hclash' (Or.inl hstat.symm)
      · exact hne (List.append_cancel_right heq)
      · exact append_stat_ne_append_len _ _ hlen
    · rcases hname' with hlen | hstat | ⟨-, heq⟩
      · exact hclash' (Or.inr ⟨hblob, hlen.symm⟩)
      · exact append_stat_ne_append_len _ _ hstat.symm
      · exact hne (List.append_cancel_right heq)

/-- When the members of all columns have different names. -/
theorem nodup_memberTexts (columns : List ColumnDesc) :
    ("table_desc".toList :: columns.flatMap memberTexts).Nodup ↔
      (columns.map ColumnDesc.nameText).Nodup ∧ ∀ column ∈ columns,
        column.nameText ≠ "table_desc".toList ∧
          ∀ column' ∈ columns, ¬ column.Clashes column' := by
  have htable : "table_desc".toList ∉ columns.flatMap memberTexts ↔
      ∀ column ∈ columns, column.nameText ≠ "table_desc".toList := by
    simp only [List.mem_flatMap, not_exists, not_and]
    refine forall_congr' fun column => imp_congr_right fun _ => ?_
    rw [mem_memberTexts]
    constructor
    · exact fun h heq => h (Or.inl heq.symm)
    · rintro h (heq | hstat | ⟨-, hlen⟩)
      · exact h heq.symm
      · have hlast := congrArg List.getLast? hstat
        rw [getLast?_append_stat] at hlast
        exact absurd hlast (by decide)
      · have hlast := congrArg List.getLast? hlen
        rw [getLast?_append_len] at hlast
        exact absurd hlast (by decide)
  have hpairs : (columns.flatMap memberTexts).Nodup ↔
      (columns.map ColumnDesc.nameText).Nodup ∧
        ∀ column ∈ columns, ∀ column' ∈ columns, ¬ column.Clashes column' := by
    rw [List.nodup_flatMap, List.Nodup, List.pairwise_map]
    constructor
    · rintro ⟨-, hpairwise⟩
      have hdisjoint := hpairwise.imp fun h => disjoint_memberTexts.mp h
      exact ⟨hdisjoint.imp fun h => h.1, List.Pairwise.forall_of_forall_of_flip
        (fun column _ => not_clashes_self column) (hdisjoint.imp fun h => h.2.1)
        (hdisjoint.imp fun h => h.2.2)⟩
    · rintro ⟨hnames, hclash⟩
      refine ⟨fun column _ => memberTexts_nodup column, ?_⟩
      have hboth : columns.Pairwise fun column column' =>
          ¬ column.Clashes column' ∧ ¬ column'.Clashes column :=
        List.pairwise_of_forall_mem_list fun column hmem column' hmem' =>
          ⟨hclash column hmem column' hmem', hclash column' hmem' column hmem⟩
      exact (hnames.and hboth).imp fun h => disjoint_memberTexts.mpr h
  rw [List.nodup_cons, htable, hpairs]
  constructor
  · exact fun ⟨htable, hnames, hclash⟩ =>
      ⟨hnames, fun column hmem => ⟨htable column hmem, hclash column hmem⟩⟩
  · exact fun ⟨hnames, hboth⟩ =>
      ⟨fun column hmem => (hboth column hmem).1, hnames, fun column hmem => (hboth column hmem).2⟩

/-- The members of the struct in the header are those that offsets are computed for. Their names
are different ones exactly if those of the columns are, no column is called `table_desc`, and none
as a hidden field of another one. -/
theorem generated_struct {t : GenTable} (ht : t.Parsed) : ∃ header items block members,
    headerGenerate t = some header ∧ readUnit header = some items ∧
    .chunk (structHead t) (some block) ∈ items ∧
    headerGenerateStruct t.descriptors = some members ∧
    memberNames block = some (members.map fun m => m.1.name t.descriptors) ∧
    ((members.map fun m => m.1.name t.descriptors).Nodup ↔
      (t.columns.map ColumnDesc.nameText).Nodup ∧ ∀ column ∈ t.columns,
        column.nameText ≠ "table_desc".toList ∧
          ∀ column' ∈ t.columns, ¬ column.Clashes column') := by
  obtain ⟨header, more, hheader, hreads⟩ := headerGenerate_reads ht
  obtain ⟨members, hmembers, hnames⟩ := columnsMembers_names [] ht.columns
  rw [List.nil_append] at hnames
  have hall : ((Label.tableDesc, MemberType.tableDescriptor) :: members).map
      (fun m => m.1.name t.descriptors) =
        "table_desc".toList :: t.columns.flatMap memberTexts := by
    rw [List.map_cons, GenTable.descriptors, hnames]
    rfl
  refine ⟨header, _, structBlock t, (.tableDesc, .tableDescriptor) :: members, hheader, hreads,
    ?_, ?_, ?_, ?_⟩
  · rw [headerItems, structItems]
    exact List.mem_append_right _ (List.mem_append_left _ List.mem_cons_self)
  · rw [List.length_nil] at hmembers
    rw [headerGenerateStruct, GenTable.descriptors, hmembers]
    rfl
  · rw [hall]
    exact memberNames_structBlock ht
  · rw [hall]
    exact nodup_memberTexts t.columns

def lengthTable : GenTable where
  name := "file".toList
  columns :=
    [{ ColumnDesc.zero with name := some "data".toList, type := .blob, mem := .heap },
      { ColumnDesc.zero with name := some "data_len".toList }]
  pkIndex := none
  createSql := "CREATE TABLE file (data BLOB, data_len INTEGER)".toList

theorem generated_struct_length : ∃ members, headerGenerateStruct lengthTable.descriptors =
    some members ∧ ¬ (members.map fun m => m.1.name lengthTable.descriptors).Nodup := by
  obtain ⟨header, items, block, members, -, -, -, hmembers, -, hnodup⟩ :=
    generated_struct (t := lengthTable) (by decide +kernel)
  refine ⟨members, hmembers, fun hnames => ?_⟩
  have hclash := (((hnodup.mp hnames).2 _ (List.mem_cons_of_mem _ List.mem_cons_self)).2 _
    List.mem_cons_self)
  exact hclash (Or.inr (by decide +kernel))

end Sorm
