import Sorm.ByteMemory
import Sorm.HiddenFields
import Sorm.Objects

/-!
# Setting a column of a generated struct

`sorm_set_column_value` over the bytes of an object. Whatever it is given, it stays between the
hidden members of its column and the end of the value.
-/

namespace Sorm

open ByteMemory Interaction StructLayout

def charByte (c : Char) : Byte := BitVec.ofNat 8 c.toNat

def pointerBytes (dm : DataModel) (address : Address) : List Byte :=
  wordBytes (BitVec.ofNat 64 address) dm.pointer.size

namespace ObjectBytes

abbrev Memory := ByteMemory.Memory

def setColumnStat (mem : Memory) (offset : ℕ) (stat : Stat) : Memory :=
  write mem (statWord offset) (wordBytes stat 4)

def getColumnStat (mem : Memory) (offset : ℕ) : Stat := load mem (statWord offset) 4

def addColumnStat (mem : Memory) (offset : ℕ) (addStat : Stat) : Memory :=
  setColumnStat mem offset (getColumnStat mem offset ||| addStat)

def delColumnStat (mem : Memory) (offset : ℕ) (delStat : Stat) : Memory :=
  setColumnStat mem offset (getColumnStat mem offset &&& ~~~delStat)

def setBlobLen (mem : Memory) (offset : ℕ) (len : ℤ) : Memory :=
  write mem (blobLenWord offset) (wordBytes (BitVec.ofInt 32 len) 4)

def snprintfBytes (maxLen : ℤ) (s : CString) : List Byte :=
  if maxLen + 1 = 0 then []
  else if maxLen + 1 < 0 then s.chars.map charByte ++ [0]
  else (s.chars.take maxLen.toNat).map charByte ++ [0]

section Set
variable (doubleBits : ℚ → BitVec 64) (dm : DataModel)

def setColumnText (column : ColumnDescriptor) (offset : ℕ) (mem : Memory) (value : Pointer) :
    SormError × Memory :=
  match column.mem with
  | .heap => (.ok, write mem offset (pointerBytes dm value.address))
  | .stack =>
      let mem' := write mem offset (snprintfBytes column.maxLen value.text)
      if (value.text.chars.length : ℤ) > column.maxLen then (.tooLong, mem') else (.ok, mem')
  | .none => (.invalidMem, mem)

/-- `memcpy` with a negative length is undefined. -/
def setColumnBlob (column : ColumnDescriptor) (offset : ℕ) (mem : Memory) (value : Pointer)
    (valueLen : ℤ) : Except Halt (SormError × Memory) :=
  match column.mem with
  | .heap =>
      .ok (.ok, setBlobLen (write mem offset (pointerBytes dm value.address)) offset valueLen)
  | .stack =>
      if valueLen > column.maxLen then .ok (.tooLong, mem)
      else if valueLen < 0 then .error .undefined
      else .ok (.ok,
        setBlobLen (write mem offset ((firstBytes valueLen value.bytes).map charByte)) offset valueLen)
  | .none => .ok (.invalidMem, mem)

def setColumn (column : ColumnDescriptor) (offset : ℕ) (mem : Memory) (value : Pointer)
    (valueLen : ℤ) : Except Halt (SormError × Memory) :=
  match column.type with
  | .int => .ok (.ok, write mem offset (wordBytes value.int32 4))
  | .int64 => .ok (.ok, write mem offset (wordBytes value.int64 8))
  | .text => .ok (setColumnText dm column offset mem value)
  | .double => .ok (.ok, write mem offset (wordBytes (doubleBits value.double) 8))
  | .blob => setColumnBlob dm column offset mem value valueLen
  | .unknown _ => .ok (.invalidType, mem)

/-- `doubleBits` is the representation of a `double`. -/
def sormSetColumnValue (column : ColumnDescriptor) (offset : ℕ) (mem : Memory)
    (value : Option Pointer) (valueLen : ℤ) : Except Halt (SormError × Memory) :=
  match value with
  | none => .ok (.argNull, mem)
  | some value => do
      let (ret, mem) ← setColumn doubleBits dm column offset mem value valueLen
      if ret = .ok then
        return (.ok, delColumnStat (addColumnStat mem offset sormStatValued) offset sormStatNeedfree)
      else return (ret, mem)

end Set

section Frame
variable {dm : DataModel} {column : ColumnDescriptor} {offset : ℕ}
variable {type : MemberType}

/-- From the hidden members of a column to the end of its value. -/
def OwnOnly (dm : DataModel) (column : ColumnDescriptor) (offset : ℕ) (mem mem' : Memory) : Prop :=
  ChangesOnly mem mem' (offset - hidden column) (offset + (valueLayout dm column).size)

theorem setColumnStat_own (dm : DataModel) (column : ColumnDescriptor)
    (hhidden : hidden column ≤ offset) (mem : Memory) (stat : Stat) :
    OwnOnly dm column offset mem (setColumnStat mem offset stat) := by
  have hfour := four_le_hidden column
  refine write_changesOnly ?_ ?_ mem
  · rw [statWord]
    omega
  · rw [statWord, length_wordBytes]
    omega

theorem setBlobLen_own (dm : DataModel) (hblob : column.type = .blob)
    (hhidden : hidden column ≤ offset) (mem : Memory) (len : ℤ) :
    OwnOnly dm column offset mem (setBlobLen mem offset len) := by
  rw [OwnOnly, hidden_of_blob hblob]
  rw [hidden_of_blob hblob] at hhidden
  refine write_changesOnly ?_ ?_ mem
  · rw [blobLenWord]
    omega
  · rw [blobLenWord, length_wordBytes]
    omega

/-- A write that begins at the value and is not longer than it. -/
theorem write_own {bytes : List Byte} (htype : valueType column = some type)
    (hlength : bytes.length ≤ (type.layout dm).size) (mem : Memory) :
    OwnOnly dm column offset mem (write mem offset bytes) := by
  refine write_changesOnly (Nat.sub_le offset _) ?_ mem
  rw [valueLayout_eq htype]
  omega

theorem length_pointerBytes (dm : DataModel) (address : Address) :
    (pointerBytes dm address).length = dm.pointer.size := by
  rw [pointerBytes, length_wordBytes]

/-- `snprintf` writes no more than the array holds. -/
theorem length_snprintfBytes_le {maxLen : ℤ} (h : (MemberType.charArray (maxLen + 1)).Compiles)
    (s : CString) : (snprintfBytes maxLen s).length ≤ (maxLen + 1).toNat := by
  obtain ⟨hpos, -⟩ := h
  rw [snprintfBytes]
  by_cases hzero : maxLen + 1 = 0
  · rw [if_pos hzero]
    exact Nat.zero_le _
  · rw [if_neg hzero, if_neg (by omega), List.length_append, List.length_map, List.length_take,
      List.length_singleton]
    omega

/-- The array of a column with its characters in the object. -/
theorem stack_compiles (htype : column.type = .text ∨ column.type = .blob)
    (hmem : column.mem = .stack) (hvalue : valueType column = some type) (hcompiles : type.Compiles) :
    (MemberType.charArray (column.maxLen + 1)).Compiles := by
  obtain rfl := Option.some.inj ((valueType_stack htype hmem).symm.trans hvalue)
  exact hcompiles

theorem setColumnText_own (htext : column.type = .text) (hvalue : valueType column = some type)
    (hcompiles : type.Compiles) (mem : Memory) (value : Pointer) :
    OwnOnly dm column offset mem (setColumnText dm column offset mem value).2 := by
  rw [setColumnText]
  cases hmem : column.mem with
  | heap =>
      refine write_own (valueType_text_heap htext hmem) ?_ mem
      rw [length_pointerBytes]
      exact le_rfl
  | stack =>
      have harray := stack_compiles (.inl htext) hmem hvalue hcompiles
      have hwrite : OwnOnly dm column offset mem
          (write mem offset (snprintfBytes column.maxLen value.text)) :=
        write_own (valueType_stack (.inl htext) hmem) (length_snprintfBytes_le harray value.text) mem
      by_cases hlong : (value.text.chars.length : ℤ) > column.maxLen
      · simp only [if_pos hlong]
        exact hwrite
      · simp only [if_neg hlong]
        exact hwrite
  | none => exact ChangesOnly.refl mem _ _

theorem setColumnBlob_own (hblob : column.type = .blob) (hvalue : valueType column = some type)
    (hcompiles : type.Compiles) (hhidden : hidden column ≤ offset) (mem : Memory) (value : Pointer)
    {valueLen : ℤ} (hlen : 0 ≤ valueLen) :
    ∃ ret mem', setColumnBlob dm column offset mem value valueLen = .ok (ret, mem') ∧
      OwnOnly dm column offset mem mem' := by
  rw [setColumnBlob]
  cases hmem : column.mem with
  | heap =>
      refine ⟨_, _, rfl, ChangesOnly.trans ?_ (setBlobLen_own dm hblob hhidden _ _)⟩
      refine write_own (valueType_blob_heap hblob hmem) ?_ mem
      rw [length_pointerBytes]
      exact le_rfl
  | stack =>
      have harray := stack_compiles (.inr hblob) hmem hvalue hcompiles
      by_cases hlong : valueLen > column.maxLen
      · exact ⟨.tooLong, mem, if_pos hlong, ChangesOnly.refl mem _ _⟩
      · simp only [if_neg hlong, if_neg (not_lt.mpr hlen)]
        refine ⟨_, _, rfl, ChangesOnly.trans ?_ (setBlobLen_own dm hblob hhidden _ _)⟩
        refine write_own (valueType_stack (.inr hblob) hmem) ?_ mem
        rw [List.length_map, firstBytes, List.length_map, List.length_range]
        change valueLen.toNat ≤ (column.maxLen + 1).toNat
        omega
  | none => exact ⟨_, _, rfl, ChangesOnly.refl mem _ _⟩

theorem setColumn_own (doubleBits : ℚ → BitVec 64) (hvalue : valueType column = some type)
    (hcompiles : type.Compiles) (hhidden : hidden column ≤ offset) (mem : Memory) (value : Pointer) {valueLen : ℤ}
    (hlen : column.type = .blob → 0 ≤ valueLen) :
    ∃ ret mem', setColumn doubleBits dm column offset mem value valueLen = .ok (ret, mem') ∧
      OwnOnly dm column offset mem mem' := by
  have hwide : dm.wide.size = 8 := by cases dm <;> rfl
  rw [setColumn]
  cases htype : column.type with
  | int =>
      have hmember : valueType column = some .int32 := by rw [valueType, htype]
      refine ⟨_, _, rfl, write_own hmember ?_ mem⟩
      exact le_of_eq (length_wordBytes _ 4)
  | int64 =>
      have hmember : valueType column = some .int64 := by rw [valueType, htype]
      refine ⟨_, _, rfl, write_own hmember ?_ mem⟩
      exact le_of_eq ((length_wordBytes _ 8).trans hwide.symm)
  | text => exact ⟨_, _, rfl, setColumnText_own htype hvalue hcompiles mem value⟩
  | double =>
      have hmember : valueType column = some .double := by rw [valueType, htype]
      refine ⟨_, _, rfl, write_own hmember ?_ mem⟩
      exact le_of_eq ((length_wordBytes _ 8).trans hwide.symm)
  | blob => exact setColumnBlob_own htype hvalue hcompiles hhidden mem value (hlen htype)
  | unknown code =>
      rw [valueType, htype] at hvalue
      cases hvalue

theorem sormSetColumnValue_own (doubleBits : ℚ → BitVec 64) (hvalue : valueType column = some type)
    (hcompiles : type.Compiles) (hhidden : hidden column ≤ offset) (mem : Memory) (value : Option Pointer) {valueLen : ℤ}
    (hlen : column.type = .blob → 0 ≤ valueLen) :
    ∃ ret mem', sormSetColumnValue doubleBits dm column offset mem value valueLen =
      .ok (ret, mem') ∧ OwnOnly dm column offset mem mem' := by
  cases value with
  | none => exact ⟨_, _, rfl, ChangesOnly.refl mem _ _⟩
  | some value =>
      rw [sormSetColumnValue]
      obtain ⟨ret, mem', hset, hown⟩ :=
        setColumn_own doubleBits hvalue hcompiles hhidden mem value hlen
      rw [hset]
      by_cases hret : ret = .ok
      · have hadd := setColumnStat_own dm column hhidden mem'
          (getColumnStat mem' offset ||| sormStatValued)
        have hdel := setColumnStat_own dm column hhidden (addColumnStat mem' offset sormStatValued)
          (getColumnStat (addColumnStat mem' offset sormStatValued) offset &&& ~~~sormStatNeedfree)
        exact ⟨.ok, _, if_pos hret, (hown.trans hadd).trans hdel⟩
      · exact ⟨ret, mem', if_neg hret, hown⟩

end Frame

section Struct
variable {dm : DataModel} {columns : List ColumnDescriptor} {members : List (Label × MemberType)}

theorem startOf_mono (dm : DataModel) (columns : List ColumnDescriptor) {i j : ℕ} (h : i ≤ j) :
    startOf dm columns i ≤ startOf dm columns j := by
  have hsplit := List.take_append_drop i (columns.take j)
  rw [List.take_take, Nat.min_eq_left h] at hsplit
  rw [startOf, startOf, ← hsplit, columnsEnd_append]
  exact le_columnsEnd dm _ _

theorem columnEnd_le_startOf (dm : DataModel) {columns : List ColumnDescriptor} {i j : ℕ}
    (hi : i < columns.length) (h : i < j) :
    columnEnd dm (startOf dm columns i) columns[i] ≤ startOf dm columns j := by
  rw [← startOf_succ dm hi]
  exact startOf_mono dm columns h

def ColumnUnchanged (dm : DataModel) (column : ColumnDescriptor) (offset : ℕ)
    (mem mem' : Memory) : Prop :=
  SameOn mem mem' offset (valueLayout dm column).size ∧ SameOn mem mem' (statWord offset) 4 ∧
    (column.type = .blob → SameOn mem mem' (blobLenWord offset) 4)

/-- A column whose members lie outside of the bytes that change. -/
theorem columnUnchanged_of_outside {mem mem' : Memory} {lo hi e : ℕ} (column : ColumnDescriptor)
    (h : ChangesOnly mem mem' lo hi) (houtside : columnEnd dm e column ≤ lo ∨ hi ≤ e) :
    ColumnUnchanged dm column (valueStart dm e column) mem mem' := by
  have hfour := four_le_hidden column
  have hstart := le_hiddenStart e
  have hvalue := hiddenStart_add_hidden_le dm e column
  rw [columnEnd] at houtside
  refine ⟨h.sameOn ?_, h.sameOn ?_, fun hblob => h.sameOn ?_⟩
  · omega
  · rw [statWord]
    omega
  · rw [hidden_of_blob hblob] at hvalue
    rw [blobLenWord]
    omega

def StructCompiles (members : List (Label × MemberType)) : Prop :=
  ∀ m ∈ members, m.2.Compiles

instance (members : List (Label × MemberType)) : Decidable (StructCompiles members) :=
  inferInstanceAs (Decidable (∀ m ∈ members, m.2.Compiles))

theorem valueType_of_struct (hgen : headerGenerateStruct columns = some members)
    (hcompiles : StructCompiles members) {i : ℕ} (hi : i < columns.length) :
    ∃ type, valueType columns[i] = some type ∧ type.Compiles := by
  obtain ⟨own, hown, hsub, -⟩ := offsetOf_columnMember .lp64 hgen hi (.value i) rfl
  obtain ⟨type, hvalue, rfl⟩ := columnMembers_eq hown
  have hmem : (Label.value i, type) ∈ (if columns[i].type = .blob then [(Label.len i, MemberType.int)]
      else []) ++ [(.stat i, .sormStat), (.value i, type)] :=
    List.mem_append_right _ (List.mem_cons_of_mem _ List.mem_cons_self)
  exact ⟨type, hvalue, hcompiles _ (hsub hmem)⟩

/-- Setting a column leaves the table descriptor and every other column as they are. -/
theorem setColumnValue_frame (doubleBits : ℚ → BitVec 64) (dm : DataModel)
    (hgen : headerGenerateStruct columns = some members) (hcompiles : StructCompiles members)
    {i : ℕ} (hi : i < columns.length) (mem : Memory) (value : Option Pointer) {valueLen : ℤ}
    (hlen : columns[i].type = .blob → 0 ≤ valueLen) :
    ∃ offset ret mem', columnOffset dm members i = some offset ∧
      sormSetColumnValue doubleBits dm columns[i] offset mem value valueLen = .ok (ret, mem') ∧
      SameOn mem mem' 0 dm.tableDescriptor.size ∧
      ∀ j (_ : j < columns.length), j ≠ i → ∃ offset', columnOffset dm members j = some offset' ∧
        ColumnUnchanged dm columns[j] offset' mem mem' := by
  obtain ⟨type, hvalue, htype⟩ := valueType_of_struct hgen hcompiles hi
  have hhidden := hiddenStart_add_hidden_le dm (startOf dm columns i) columns[i]
  have hstart := le_hiddenStart (startOf dm columns i)
  have hhead : dm.tableDescriptor.size ≤ startOf dm columns i := le_columnsEnd dm _ _
  obtain ⟨ret, mem', hset, hown⟩ := @sormSetColumnValue_own dm _ _ _ doubleBits
    hvalue htype ((Nat.le_add_left _ _).trans hhidden) mem value _ hlen
  refine ⟨_, ret, mem', offsetOf_value dm hgen hi, hset, hown.sameOn ?_, ?_⟩
  · omega
  · intro j hj hne
    refine ⟨_, offsetOf_value dm hgen hj, columnUnchanged_of_outside columns[j] hown ?_⟩
    rcases Nat.lt_or_gt_of_ne hne with hlt | hgt
    · have hbefore := columnEnd_le_startOf dm hj hlt
      omega
    · have hbehind := columnEnd_le_startOf dm hi hgt
      rw [columnEnd] at hbehind
      omega

def photoColumns : List ColumnDescriptor :=
  [{ bigintColumn with name := "id".toList, type := .int },
    { bigintColumn with name := "name".toList, type := .text, mem := .stack, maxLen := 31 },
    { bigintColumn with name := "photo".toList, type := .blob, mem := .stack, maxLen := 10 }]

def photoMembers : List (Label × MemberType) :=
  [(.tableDesc, .tableDescriptor), (.stat 0, .sormStat), (.value 0, .int32), (.stat 1, .sormStat),
    (.value 1, .charArray 32), (.len 2, .int), (.stat 2, .sormStat), (.value 2, .charArray 11)]

def photoBlob : Pointer where
  address := 1
  text := .empty
  bytes := fun _ => 'x'
  int32 := 0
  int64 := 0
  double := 0

theorem setColumnValue_frame_photo :
    ∃ offset ret mem', columnOffset .lp64 photoMembers 2 = some offset ∧
      sormSetColumnValue (fun _ => 0) .lp64 (photoColumns.get ⟨2, by decide⟩) offset (fun _ => 0)
        (some photoBlob) 5 = .ok (ret, mem') ∧
      SameOn (fun _ => 0) mem' 0 DataModel.lp64.tableDescriptor.size ∧
      ∀ j (_ : j < photoColumns.length), j ≠ 2 → ∃ offset',
        columnOffset .lp64 photoMembers j = some offset' ∧
          ColumnUnchanged .lp64 photoColumns[j] offset' (fun _ => 0) mem' :=
  setColumnValue_frame (fun _ => 0) .lp64 rfl (by decide) (by decide) (fun _ => 0) (some photoBlob)
    (fun _ => by decide)

end Struct
end ObjectBytes
end Sorm
