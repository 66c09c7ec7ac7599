import Sorm.StructLayout
import Sorm.Types

/-!
# The generated struct

The members `header_generate_struct` prints for a table, with the sizes and alignments they have in
the two usual layouts. The word in front of a column's value is where the library keeps its status.
-/

namespace Sorm

open StructLayout

/-- The 8-byte types are aligned to 4 in `ilp32`, and pointers have 4 bytes. -/
inductive DataModel
  | ilp32
  | lp64
deriving DecidableEq, Repr

namespace DataModel

def int : Layout := ⟨4, 4⟩

def pointer : DataModel → Layout
  | ilp32 => ⟨4, 4⟩
  | lp64 => ⟨8, 8⟩

def wide : DataModel → Layout
  | ilp32 => ⟨8, 4⟩
  | lp64 => ⟨8, 8⟩

def tableDescriptorMembers (dm : DataModel) : List (Text × Layout) :=
  [("name".toList, dm.pointer), ("size".toList, dm.pointer), ("columns_num".toList, int),
    ("PK_index".toList, int), ("create_sql".toList, dm.pointer), ("columns".toList, dm.pointer)]

def tableDescriptor (dm : DataModel) : Layout :=
  ⟨roundUp (endOf 0 dm.tableDescriptorMembers) dm.pointer.align, dm.pointer.align⟩

end DataModel

inductive MemberType
  | tableDescriptor
  | int
  | sormStat
  | int32
  | int64
  | double
  | charPointer
  | voidPointer
  | charArray (length : ℤ)
deriving DecidableEq, Repr

def MemberType.layout (dm : DataModel) : MemberType → Layout
  | .tableDescriptor => dm.tableDescriptor
  | .int | .sormStat | .int32 => DataModel.int
  | .int64 | .double => dm.wide
  | .charPointer | .voidPointer => dm.pointer
  | .charArray length => ⟨length.toNat, 1⟩

/-- A C compiler accepts the member: the length of an array is an `int` and not negative. -/
def MemberType.Compiles : MemberType → Prop
  | .charArray length => 0 ≤ length ∧ length ≤ intMax
  | _ => True

instance (type : MemberType) : Decidable type.Compiles :=
  match type with
  | .charArray length => inferInstanceAs (Decidable (0 ≤ length ∧ length ≤ intMax))
  | .tableDescriptor | .int | .sormStat | .int32 | .int64 | .double | .charPointer
  | .voidPointer => isTrue trivial

inductive Label
  | tableDesc
  | len (i : ℕ)
  | stat (i : ℕ)
  | value (i : ℕ)
deriving DecidableEq, Repr

def Label.name (columns : List ColumnDescriptor) : Label → Text
  | .tableDesc => "table_desc".toList
  | .len i => columnName i ++ "_len".toList
  | .stat i => columnName i ++ "_stat".toList
  | .value i => columnName i
where
  columnName (i : ℕ) : Text := (columns[i]?.map ColumnDescriptor.name).getD []

/-- The member of a column's value; `none` is the `exit(0)` of an invalid type or memory kind. -/
def valueType (column : ColumnDescriptor) : Option MemberType :=
  match column.type with
  | .int => some .int32
  | .int64 => some .int64
  | .text =>
      match column.mem with
      | .heap => some .charPointer
      | .stack => some (.charArray (column.maxLen + 1))
      | .none => none
  | .double => some .double
  | .blob =>
      match column.mem with
      | .heap => some .voidPointer
      | .stack => some (.charArray (column.maxLen + 1))
      | .none => none
  | .unknown _ => none

def columnMembers (i : ℕ) (column : ColumnDescriptor) : Option (List (Label × MemberType)) := do
  let type ← valueType column
  return (if column.type = .blob then [(.len i, .int)] else []) ++
    [(.stat i, .sormStat), (.value i, type)]

def columnsMembers : ℕ → List ColumnDescriptor → Option (List (Label × MemberType))
  | _, [] => some []
  | i, column :: columns => do
      let members ← columnMembers i column
      let rest ← columnsMembers (i + 1) columns
      return members ++ rest

def headerGenerateStruct (columns : List ColumnDescriptor) : Option (List (Label × MemberType)) := do
  let members ← columnsMembers 0 columns
  return (.tableDesc, .tableDescriptor) :: members

def offsetOf (dm : DataModel) (members : List (Label × MemberType)) (label : Label) : Option ℕ :=
  (place 0 (members.map fun m => (m.1, m.2.layout dm))).lookup label

def columnOffset (dm : DataModel) (members : List (Label × MemberType)) (i : ℕ) : Option ℕ :=
  offsetOf dm members (.value i)

def hidden (column : ColumnDescriptor) : ℕ := if column.type = .blob then 8 else 4

def valueLayout (dm : DataModel) (column : ColumnDescriptor) : Layout :=
  ((valueType column).map (MemberType.layout dm)).getD ⟨0, 1⟩

def hiddenStart (e : ℕ) : ℕ := roundUp e 4

def valueStart (dm : DataModel) (e : ℕ) (column : ColumnDescriptor) : ℕ :=
  roundUp (hiddenStart e + hidden column) (valueLayout dm column).align

def columnEnd (dm : DataModel) (e : ℕ) (column : ColumnDescriptor) : ℕ :=
  valueStart dm e column + (valueLayout dm column).size

def columnsEnd (dm : DataModel) : ℕ → List ColumnDescriptor → ℕ
  | e, [] => e
  | e, column :: columns => columnsEnd dm (columnEnd dm e column) columns

theorem layout_align_pos (dm : DataModel) (type : MemberType) : 0 < (type.layout dm).align := by
  cases dm <;> cases type <;> exact Nat.succ_pos _

theorem valueLayout_align_pos (dm : DataModel) (column : ColumnDescriptor) :
    0 < (valueLayout dm column).align := by
  rw [valueLayout]
  cases valueType column with
  | none => exact Nat.one_pos
  | some type => exact layout_align_pos dm type

theorem le_hiddenStart (e : ℕ) : e ≤ hiddenStart e := le_roundUp e (by omega)

theorem hiddenStart_add_hidden_le (dm : DataModel) (e : ℕ) (column : ColumnDescriptor) :
    hiddenStart e + hidden column ≤ valueStart dm e column :=
  le_roundUp _ (valueLayout_align_pos dm column)

theorem le_columnEnd (dm : DataModel) (e : ℕ) (column : ColumnDescriptor) :
    e ≤ columnEnd dm e column := by
  have hstart := le_hiddenStart e
  have hvalue := hiddenStart_add_hidden_le dm e column
  rw [columnEnd]
  omega

theorem le_columnsEnd (dm : DataModel) (columns : List ColumnDescriptor) (e : ℕ) :
    e ≤ columnsEnd dm e columns := by
  induction columns generalizing e with
  | nil => exact le_rfl
  | cons column columns ih =>
      have hhead := le_columnEnd dm e column
      have hrest := ih (columnEnd dm e column)
      rw [columnsEnd]
      omega

theorem columnsEnd_append (dm : DataModel) (e : ℕ) (columns columns' : List ColumnDescriptor) :
    columnsEnd dm e (columns ++ columns') = columnsEnd dm (columnsEnd dm e columns) columns' := by
  induction columns generalizing e with
  | nil => rfl
  | cons column columns ih => rw [List.cons_append, columnsEnd, ih, columnsEnd]

def laidOut (dm : DataModel) (members : List (Label × MemberType)) : List (Label × Layout) :=
  members.map fun m => (m.1, m.2.layout dm)

def Label.index : Label → Option ℕ
  | .tableDesc => none
  | .len i | .stat i | .value i => some i

section Column
variable {dm : DataModel} {i : ℕ} {column : ColumnDescriptor} {members : List (Label × MemberType)}

theorem columnMembers_eq (h : columnMembers i column = some members) :
    ∃ type, valueType column = some type ∧
      members = (if column.type = .blob then [(.len i, .int)] else []) ++
        [(.stat i, .sormStat), (.value i, type)] := by
  obtain ⟨type, htype, hrest⟩ := Option.bind_eq_some_iff.mp h
  exact ⟨type, htype, (Option.some.inj hrest).symm⟩

theorem index_of_mem_columnMembers (h : columnMembers i column = some members) {m : Label × MemberType}
    (hm : m ∈ members) : m.1.index = some i := by
  obtain ⟨type, -, rfl⟩ := columnMembers_eq h
  by_cases hblob : column.type = .blob
  · rw [if_pos hblob] at hm
    simp only [List.cons_append, List.nil_append, List.mem_cons, List.not_mem_nil, or_false] at hm
    obtain rfl | rfl | rfl := hm <;> rfl
  · rw [if_neg hblob] at hm
    simp only [List.nil_append, List.mem_cons, List.not_mem_nil, or_false] at hm
    obtain rfl | rfl := hm <;> rfl

theorem valueType_text_heap (htype : column.type = .text) (hmem : column.mem = .heap) :
    valueType column = some .charPointer := by
  rw [valueType, htype]
  simp only [hmem]

theorem valueType_blob_heap (htype : column.type = .blob) (hmem : column.mem = .heap) :
    valueType column = some .voidPointer := by
  rw [valueType, htype]
  simp only [hmem]

theorem valueType_stack (htype : column.type = .text ∨ column.type = .blob)
    (hmem : column.mem = .stack) :
    valueType column = some (.charArray (column.maxLen + 1)) := by
  rw [valueType]
  rcases htype with h | h
  · rw [h]
    simp only [hmem]
  · rw [h]
    simp only [hmem]

theorem valueLayout_eq {type : MemberType} (h : valueType column = some type) :
    valueLayout dm column = type.layout dm := by
  rw [valueLayout, h, Option.map_some, Option.getD_some]

/-- The length word and the status word are next to each other. -/
theorem place_columnMembers (h : columnMembers i column = some members) (e : ℕ) :
    place e (laidOut dm members) = (if column.type = .blob then [(.len i, hiddenStart e)] else []) ++
      [(.stat i, hiddenStart e + hidden column - 4), (.value i, valueStart dm e column)] := by
  obtain ⟨type, htype, rfl⟩ := columnMembers_eq h
  have hdvd : 4 ∣ hiddenStart e := dvd_roundUp e 4
  have hnext : roundUp (hiddenStart e + 4) 4 = hiddenStart e + 4 :=
    roundUp_of_dvd (by omega) (by omega)
  by_cases hblob : column.type = .blob
  · have hhidden : hidden column = 8 := if_pos hblob
    rw [if_pos hblob, if_pos hblob, valueStart, hhidden, valueLayout_eq htype]
    change [_, (_, roundUp (hiddenStart e + 4) 4),
      (_, roundUp (roundUp (hiddenStart e + 4) 4 + 4) _)] = _
    rw [hnext]
    rfl
  · have hhidden : hidden column = 4 := if_neg hblob
    rw [if_neg hblob, if_neg hblob, valueStart, hhidden, valueLayout_eq htype]
    rfl

theorem endOf_columnMembers (h : columnMembers i column = some members) (e : ℕ) :
    endOf e (laidOut dm members) = columnEnd dm e column := by
  obtain ⟨type, htype, rfl⟩ := columnMembers_eq h
  have hdvd : 4 ∣ hiddenStart e := dvd_roundUp e 4
  have hnext : roundUp (hiddenStart e + 4) 4 = hiddenStart e + 4 :=
    roundUp_of_dvd (by omega) (by omega)
  by_cases hblob : column.type = .blob
  · have hhidden : hidden column = 8 := if_pos hblob
    rw [if_pos hblob, columnEnd, valueStart, hhidden, valueLayout_eq htype]
    change roundUp (roundUp (hiddenStart e + 4) 4 + 4) _ + _ = _
    rw [hnext]
  · have hhidden : hidden column = 4 := if_neg hblob
    rw [if_neg hblob, columnEnd, valueStart, hhidden, valueLayout_eq htype]
    rfl

end Column

section Columns
variable {dm : DataModel}

theorem columnsMembers_cons {k : ℕ} {column : ColumnDescriptor} {columns : List ColumnDescriptor}
    {members : List (Label × MemberType)} (h : columnsMembers k (column :: columns) = some members) :
    ∃ first rest, columnMembers k column = some first ∧ columnsMembers (k + 1) columns = some rest ∧
      members = first ++ rest := by
  obtain ⟨first, hfirst, htail⟩ := Option.bind_eq_some_iff.mp h
  obtain ⟨rest, hrest, hmembers⟩ := Option.bind_eq_some_iff.mp htail
  exact ⟨first, rest, hfirst, hrest, (Option.some.inj hmembers).symm⟩

theorem index_of_mem_columnsMembers {columns : List ColumnDescriptor} {k : ℕ}
    {members : List (Label × MemberType)} (h : columnsMembers k columns = some members)
    {m : Label × MemberType} (hm : m ∈ members) : ∃ i, k ≤ i ∧ m.1.index = some i := by
  induction columns generalizing k members with
  | nil =>
      obtain rfl := Option.some.inj h
      exact absurd hm List.not_mem_nil
  | cons column columns ih =>
      obtain ⟨first, rest, hfirst, hrest, rfl⟩ := columnsMembers_cons h
      rcases List.mem_append.mp hm with hmem | hmem
      · exact ⟨k, le_rfl, index_of_mem_columnMembers hfirst hmem⟩
      · obtain ⟨i, hi, hindex⟩ := ih hrest hmem
        exact ⟨i, by omega, hindex⟩

theorem index_of_mem_laidOut {members : List (Label × MemberType)} {label : Label}
    (h : label ∈ (laidOut dm members).map Prod.fst) : ∃ m ∈ members, m.1 = label := by
  rw [laidOut, List.map_map] at h
  obtain ⟨m, hm, rfl⟩ := List.mem_map.mp h
  exact ⟨m, hm, rfl⟩

/-- A member of a column is looked up among the members of that column alone. -/
theorem lookup_columnsMembers {columns : List ColumnDescriptor} {k i : ℕ} (e : ℕ)
    {members : List (Label × MemberType)} (h : columnsMembers k columns = some members)
    (hi : i < columns.length) {label : Label} (hlabel : label.index = some (k + i)) :
    ∃ own, columnMembers (k + i) columns[i] = some own ∧ own ⊆ members ∧
      (place e (laidOut dm members)).lookup label =
        (place (columnsEnd dm e (columns.take i)) (laidOut dm own)).lookup label := by
  induction columns generalizing k i e members with
  | nil => exact absurd hi (Nat.not_lt_zero i)
  | cons column columns ih =>
      obtain ⟨first, rest, hfirst, hrest, rfl⟩ := columnsMembers_cons h
      rw [laidOut, List.map_append]
      cases i with
      | zero =>
          refine ⟨first, hfirst, List.subset_append_left _ _, lookup_place_left e _ ?_⟩
          intro hmem
          obtain ⟨m, hm, rfl⟩ := index_of_mem_laidOut hmem
          obtain ⟨j, hj, hindex⟩ := index_of_mem_columnsMembers hrest hm
          have heq := Option.some.inj (hindex.symm.trans hlabel)
          omega
      | succ i =>
          have hshift : k + (i + 1) = k + 1 + i := by omega
          rw [hshift] at hlabel ⊢
          obtain ⟨own, hown, hsub, hlookup⟩ :=
            ih (columnEnd dm e column) hrest (Nat.lt_of_succ_lt_succ hi) hlabel
          refine ⟨own, hown, List.subset_append_of_subset_right _ hsub, ?_⟩
          rw [List.take_succ_cons, columnsEnd, ← hlookup, ← endOf_columnMembers hfirst e]
          refine lookup_place_append e _ ?_
          intro hmem
          obtain ⟨m, hm, rfl⟩ := index_of_mem_laidOut hmem
          have heq := Option.some.inj ((index_of_mem_columnMembers hfirst hm).symm.trans hlabel)
          omega

variable {columns : List ColumnDescriptor} {members : List (Label × MemberType)}

def startOf (dm : DataModel) (columns : List ColumnDescriptor) (i : ℕ) : ℕ :=
  columnsEnd dm dm.tableDescriptor.size (columns.take i)

theorem offsetOf_columnMember (dm : DataModel) (h : headerGenerateStruct columns = some members) {i : ℕ}
    (hi : i < columns.length) (label : Label) (hlabel : label.index = some i) :
    ∃ own, columnMembers i columns[i] = some own ∧ own ⊆ members ∧
      offsetOf dm members label =
        (place (startOf dm columns i) (laidOut dm own)).lookup label := by
  obtain ⟨rest, hrest, hmembers⟩ := Option.bind_eq_some_iff.mp h
  obtain rfl := Option.some.inj hmembers
  have hindex : label.index = some (0 + i) := by rw [hlabel, Nat.zero_add]
  obtain ⟨own, hown, hsub, hlookup⟩ :=
    @lookup_columnsMembers dm _ _ _ dm.tableDescriptor.size _ hrest hi _ hindex
  rw [Nat.zero_add] at hown
  refine ⟨own, hown, List.subset_cons_of_subset _ hsub, ?_⟩
  rw [startOf, ← hlookup]
  have hne : (label == Label.tableDesc) = false := by
    rw [beq_eq_false_iff_ne]
    intro heq
    rw [heq] at hlabel
    cases hlabel
  have hzero : roundUp 0 dm.tableDescriptor.align = 0 := by cases dm <;> rfl
  change List.lookup label ((.tableDesc, roundUp 0 dm.tableDescriptor.align) ::
    place (roundUp 0 dm.tableDescriptor.align + dm.tableDescriptor.size) _) = _
  rw [List.lookup_cons, hne, hzero, Nat.zero_add]
  rfl

theorem offsetOf_value (dm : DataModel) (h : headerGenerateStruct columns = some members) {i : ℕ}
    (hi : i < columns.length) :
    columnOffset dm members i = some (valueStart dm (startOf dm columns i) columns[i]) := by
  obtain ⟨own, hown, -, hoffset⟩ := offsetOf_columnMember dm h hi (.value i) rfl
  have hstat : Label.value i ≠ .stat i := fun heq => nomatch heq
  have hlen : Label.value i ≠ .len i := fun heq => nomatch heq
  rw [columnOffset, hoffset, place_columnMembers hown]
  by_cases hblob : columns[i].type = .blob
  · rw [if_pos hblob, List.singleton_append, lookup_cons_of_ne hlen, lookup_cons_of_ne hstat,
      List.lookup_cons_self]
  · rw [if_neg hblob, List.nil_append, lookup_cons_of_ne hstat, List.lookup_cons_self]

theorem offsetOf_stat (dm : DataModel) (h : headerGenerateStruct columns = some members) {i : ℕ}
    (hi : i < columns.length) :
    offsetOf dm members (.stat i) =
      some (hiddenStart (startOf dm columns i) + hidden columns[i] - 4) := by
  obtain ⟨own, hown, -, hoffset⟩ := offsetOf_columnMember dm h hi (.stat i) rfl
  have hlen : Label.stat i ≠ .len i := fun heq => nomatch heq
  rw [hoffset, place_columnMembers hown]
  by_cases hblob : columns[i].type = .blob
  · rw [if_pos hblob, List.singleton_append, lookup_cons_of_ne hlen, List.lookup_cons_self]
  · rw [if_neg hblob, List.nil_append, List.lookup_cons_self]

theorem offsetOf_len (dm : DataModel) (h : headerGenerateStruct columns = some members) {i : ℕ}
    (hi : i < columns.length) (hblob : columns[i].type = .blob) :
    offsetOf dm members (.len i) = some (hiddenStart (startOf dm columns i)) := by
  obtain ⟨own, hown, -, hoffset⟩ := offsetOf_columnMember dm h hi (.len i) rfl
  rw [hoffset, place_columnMembers hown, if_pos hblob, List.singleton_append,
    List.lookup_cons_self]

end Columns
end Sorm
