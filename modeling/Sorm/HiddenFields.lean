import Sorm.HeaderStruct

/-!
# The hidden members and the words the library uses

The library finds the status and the length of a column by subtracting from the offset of its
value. Padding in front of an 8-byte value parts these words from the members.
-/

namespace Sorm

open StructLayout

def statWord (offset : ℕ) : ℕ := offset - 4

def blobLenWord (offset : ℕ) : ℕ := offset - 4 - 4

/-- Each of these words is the member of that name. -/
def HiddenFieldsAgree (dm : DataModel) (columns : List ColumnDescriptor)
    (members : List (Label × MemberType)) : Prop :=
  ∀ i (_ : i < columns.length), ∃ offset, columnOffset dm members i = some offset ∧
    offsetOf dm members (.stat i) = some (statWord offset) ∧
    (columns[i].type = .blob → offsetOf dm members (.len i) = some (blobLenWord offset))

def packedSize (dm : DataModel) (column : ColumnDescriptor) : ℕ :=
  hidden column + roundUp (valueLayout dm column).size 4

def packedStart (dm : DataModel) (columns : List ColumnDescriptor) (i : ℕ) : ℕ :=
  dm.tableDescriptor.size + ((columns.take i).map (packedSize dm)).sum

/-- The hidden members of each column end where its value may begin. -/
def ValuesAligned (dm : DataModel) (columns : List ColumnDescriptor) : Prop :=
  ∀ i (_ : i < columns.length),
    (valueLayout dm columns[i]).align ∣ packedStart dm columns i + hidden columns[i]

theorem four_dvd_hidden (column : ColumnDescriptor) : 4 ∣ hidden column := by
  rw [hidden]
  by_cases hblob : column.type = .blob
  · rw [if_pos hblob]
    omega
  · rw [if_neg hblob]

theorem four_le_hidden (column : ColumnDescriptor) : 4 ≤ hidden column := by
  rw [hidden]
  by_cases hblob : column.type = .blob
  · rw [if_pos hblob]
    omega
  · rw [if_neg hblob]

theorem hidden_of_blob {column : ColumnDescriptor} (h : column.type = .blob) : hidden column = 8 :=
  if_pos h

theorem startOf_succ (dm : DataModel) {columns : List ColumnDescriptor} {i : ℕ}
    (hi : i < columns.length) :
    startOf dm columns (i + 1) = columnEnd dm (startOf dm columns i) columns[i] := by
  rw [startOf, List.take_succ_eq_append_getElem hi, columnsEnd_append]
  rfl

theorem packedStart_succ (dm : DataModel) {columns : List ColumnDescriptor} {i : ℕ}
    (hi : i < columns.length) :
    packedStart dm columns (i + 1) = packedStart dm columns i + packedSize dm columns[i] := by
  rw [packedStart, List.take_succ_eq_append_getElem hi, List.map_append, List.sum_append,
    packedStart]
  simp [Nat.add_assoc]

/-- A value is right behind the hidden members exactly if these end at its alignment. -/
theorem valueStart_eq_iff (dm : DataModel) (e : ℕ) (column : ColumnDescriptor) :
    valueStart dm e column = hiddenStart e + hidden column ↔
      (valueLayout dm column).align ∣ hiddenStart e + hidden column :=
  roundUp_eq_iff (valueLayout_align_pos dm column)

theorem hiddenStart_columnEnd {dm : DataModel} {e : ℕ} {column : ColumnDescriptor}
    (h : (valueLayout dm column).align ∣ hiddenStart e + hidden column) :
    hiddenStart (columnEnd dm e column) = hiddenStart e + packedSize dm column := by
  have hstart : 4 ∣ hiddenStart e := dvd_roundUp e 4
  have hword : 4 ∣ hiddenStart e + hidden column := Nat.dvd_add hstart (four_dvd_hidden column)
  rw [columnEnd, (valueStart_eq_iff dm e column).mpr h, hiddenStart, roundUp_add (by omega) hword,
    packedSize, Nat.add_assoc]

theorem hiddenStart_startOf {dm : DataModel} {columns : List ColumnDescriptor} {i : ℕ}
    (hi : i ≤ columns.length)
    (h : ∀ j (_ : j < i), (valueLayout dm columns[j]).align ∣
      hiddenStart (startOf dm columns j) + hidden columns[j]) :
    hiddenStart (startOf dm columns i) = packedStart dm columns i := by
  induction i with
  | zero =>
      have hdvd : 4 ∣ dm.tableDescriptor.size := by cases dm <;> decide
      rw [startOf, packedStart, List.take_zero, List.map_nil, List.sum_nil, Nat.add_zero]
      exact roundUp_of_dvd (by omega) hdvd
  | succ i ih =>
      have hprev := ih (by omega) (fun j hj => h j (by omega))
      rw [startOf_succ dm hi, hiddenStart_columnEnd (h i (by omega)), hprev, packedStart_succ dm hi]

theorem valuesAligned_iff (dm : DataModel) (columns : List ColumnDescriptor) :
    ValuesAligned dm columns ↔ ∀ i (_ : i < columns.length), (valueLayout dm columns[i]).align ∣
      hiddenStart (startOf dm columns i) + hidden columns[i] := by
  constructor
  · intro haligned i hi
    induction i using Nat.strong_induction_on with
    | _ i ih =>
        have hstart := hiddenStart_startOf hi.le (fun j hj => ih j hj (by omega))
        rw [hstart]
        exact haligned i hi
  · intro h i hi
    have hstart := hiddenStart_startOf hi.le (fun j hj => h j (by omega))
    rw [← hstart]
    exact h i hi

variable {columns : List ColumnDescriptor} {members : List (Label × MemberType)}

theorem hiddenFieldsAgree_of_aligned {dm : DataModel}
    (hgen : headerGenerateStruct columns = some members)
    (h : ∀ i (_ : i < columns.length), (valueLayout dm columns[i]).align ∣
      hiddenStart (startOf dm columns i) + hidden columns[i]) :
    HiddenFieldsAgree dm columns members := by
  intro i hi
  have hvalue := (valueStart_eq_iff dm (startOf dm columns i) columns[i]).mpr (h i hi)
  refine ⟨_, offsetOf_value dm hgen hi, ?_, ?_⟩
  · rw [offsetOf_stat dm hgen hi, statWord, hvalue]
  · intro hblob
    rw [offsetOf_len dm hgen hi hblob, blobLenWord, hvalue, hidden_of_blob hblob]
    congr 1

theorem aligned_of_hiddenFieldsAgree {dm : DataModel}
    (hgen : headerGenerateStruct columns = some members)
    (h : HiddenFieldsAgree dm columns members) {i : ℕ} (hi : i < columns.length) :
    (valueLayout dm columns[i]).align ∣ hiddenStart (startOf dm columns i) + hidden columns[i] := by
  obtain ⟨offset, hoffset, hstat, -⟩ := h i hi
  obtain rfl := Option.some.inj ((offsetOf_value dm hgen hi).symm.trans hoffset)
  have heq := Option.some.inj ((offsetOf_stat dm hgen hi).symm.trans hstat)
  have hfour := four_le_hidden columns[i]
  have hle := hiddenStart_add_hidden_le dm (startOf dm columns i) columns[i]
  rw [statWord] at heq
  refine (valueStart_eq_iff dm (startOf dm columns i) columns[i]).mp ?_
  omega

/-- The library and the generated struct agree exactly if no value is padded. -/
theorem hiddenFields_agree_iff (dm : DataModel)
    (hgen : headerGenerateStruct columns = some members) :
    HiddenFieldsAgree dm columns members ↔ ValuesAligned dm columns := by
  rw [valuesAligned_iff]
  constructor
  · intro hagree i hi
    exact aligned_of_hiddenFieldsAgree hgen hagree hi
  · intro haligned
    exact hiddenFieldsAgree_of_aligned hgen haligned

/-- With 4-byte alignment there is no padding in front of a value. -/
theorem valuesAligned_ilp32 (columns : List ColumnDescriptor) : ValuesAligned .ilp32 columns := by
  have hfour : ∀ column, (valueLayout .ilp32 column).align ∣ 4 := by
    intro column
    rw [valueLayout]
    cases valueType column with
    | none => exact one_dvd 4
    | some type => cases type <;> simp [MemberType.layout, DataModel.int, DataModel.wide,
        DataModel.pointer, DataModel.tableDescriptor]
  rw [valuesAligned_iff]
  intro i hi
  have hstart : 4 ∣ hiddenStart (startOf .ilp32 columns i) := dvd_roundUp _ 4
  exact (hfour _).trans (Nat.dvd_add hstart (four_dvd_hidden _))

def bigintColumn : ColumnDescriptor where
  name := "number".toList
  type := .int64
  constraint := .none
  mem := .none
  maxLen := 0
  isForeignKey := false
  foreignTableName := []
  foreignColumnName := []

def bigintMembers : List (Label × MemberType) :=
  [(.tableDesc, .tableDescriptor), (.stat 0, .sormStat), (.value 0, .int64)]

theorem hiddenFields_agree_iff_bigint :
    HiddenFieldsAgree .lp64 [bigintColumn] bigintMembers ↔ ValuesAligned .lp64 [bigintColumn] :=
  hiddenFields_agree_iff .lp64 rfl

theorem not_hiddenFields_agree :
    headerGenerateStruct [bigintColumn] = some bigintMembers ∧
      offsetOf .lp64 bigintMembers (.stat 0) = some 40 ∧
      columnOffset .lp64 bigintMembers 0 = some 48 ∧
      ¬ HiddenFieldsAgree .lp64 [bigintColumn] bigintMembers := by
  refine ⟨rfl, rfl, rfl, fun h => ?_⟩
  obtain ⟨offset, hoffset, hstat, -⟩ := h 0 Nat.one_pos
  obtain rfl : 48 = offset := Option.some.inj hoffset
  exact absurd hstat (by decide)

end Sorm
