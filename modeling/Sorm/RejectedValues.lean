import Sorm.ObjectBytes

/-!
# Values that are rejected

`sorm_set_column_value` compares a BLOB with the column before it copies it, and a TEXT after
`snprintf` has written it. A negative length passes the comparison.
-/

namespace Sorm

open ByteMemory Interaction StructLayout

namespace ObjectBytes

/-- The bytes of a value that a column with its characters in the object is meant to take. -/
def room (column : ColumnDescriptor) : Option ℤ :=
  match column.mem, column.type with
  | .stack, .text => some (column.maxLen + 1)
  | .stack, .blob => some column.maxLen
  | _, _ => none

def InWord (word k : ℕ) : Prop := word ≤ k ∧ k < word + 4

def StaysInside (column : ColumnDescriptor) (offset : ℕ) (mem mem' : Memory) : Prop :=
  ∀ r, room column = some r → ∀ k, mem' k ≠ mem k → InWord (statWord offset) k ∨
    (column.type = .blob ∧ InWord (blobLenWord offset) k) ∨ (offset ≤ k ∧ (k : ℤ) < offset + r)

/-- A call returns, changes nothing if it returns an error, and writes within the room of the
column. The bytes it writes are those that change in some object. -/
structure SetsCleanly (doubleBits : ℚ → BitVec 64) (dm : DataModel) (column : ColumnDescriptor)
    (offset : ℕ) (value : Option Pointer) (valueLen : ℤ) (mem : Memory) : Prop where
  unchanged : ∃ ret mem', sormSetColumnValue doubleBits dm column offset mem value valueLen =
    .ok (ret, mem') ∧ (ret ≠ .ok → mem' = mem)
  inside : ∀ mem, ∃ ret mem', sormSetColumnValue doubleBits dm column offset mem value valueLen =
    .ok (ret, mem') ∧ StaysInside column offset mem mem'

def Holds (mem : Memory) (a : ℕ) (bytes : List Byte) : Prop :=
  ∀ k (h : k < bytes.length), mem (a + k) = bytes[k]

/-- A TEXT fits, or the array is empty, or it holds the beginning of that text already. -/
def TextSafe (column : ColumnDescriptor) (offset : ℕ) (text : CString) (mem : Memory) : Prop :=
  column.maxLen = -1 ∨ 0 ≤ column.maxLen ∧ ((text.chars.length : ℤ) ≤ column.maxLen ∨
    Holds mem offset ((text.chars.take column.maxLen.toNat).map charByte ++ [0]))

def BlobSafe (column : ColumnDescriptor) (valueLen : ℤ) : Prop :=
  column.maxLen < valueLen ∨ 0 ≤ valueLen

theorem write_eq_self_iff {mem : Memory} {a : ℕ} {bytes : List Byte} :
    write mem a bytes = mem ↔ Holds mem a bytes := by
  constructor
  · intro h k hk
    rw [← congrFun h (a + k), write_of_inside (by omega) (by omega), Nat.add_sub_cancel_left]
    exact (List.getElem_eq_getD 0).symm
  · intro h
    funext k
    by_cases hin : a ≤ k ∧ k < a + bytes.length
    · obtain ⟨d, rfl⟩ := Nat.exists_eq_add_of_le hin.1
      rw [write_of_inside hin.1 hin.2, h d (by omega), Nat.add_sub_cancel_left]
      exact (List.getElem_eq_getD 0).symm
    · rw [write_of_outside (by omega)]

section Cleanly
variable {doubleBits : ℚ → BitVec 64} {dm : DataModel} {column : ColumnDescriptor} {offset : ℕ}
variable {value : Pointer} {valueLen : ℤ} {mem : Memory}

def settledStat (mem : Memory) (offset : ℕ) : Memory :=
  delColumnStat (addColumnStat mem offset sormStatValued) offset sormStatNeedfree

theorem settledStat_changesOnly (mem : Memory) (offset : ℕ) :
    ChangesOnly mem (settledStat mem offset) (statWord offset) (statWord offset + 4) := by
  have hset : ∀ (mem : Memory) (stat : Stat),
      ChangesOnly mem (setColumnStat mem offset stat) (statWord offset) (statWord offset + 4) :=
    fun mem stat => write_changesOnly le_rfl (by rw [length_wordBytes]) mem
  exact (hset mem _).trans (hset _ _)

theorem sormSetColumnValue_ok {mem' : Memory}
    (h : setColumn doubleBits dm column offset mem value valueLen = .ok (.ok, mem')) :
    sormSetColumnValue doubleBits dm column offset mem (some value) valueLen =
      .ok (.ok, settledStat mem' offset) := by
  rw [sormSetColumnValue, h]
  rfl

theorem sormSetColumnValue_error {ret : SormError} {mem' : Memory}
    (h : setColumn doubleBits dm column offset mem value valueLen = .ok (ret, mem'))
    (hret : ret ≠ .ok) :
    sormSetColumnValue doubleBits dm column offset mem (some value) valueLen = .ok (ret, mem') := by
  rw [sormSetColumnValue, h]
  exact if_neg hret

/-- A value that is stored in the column, whose room it does not exceed. -/
theorem setsCleanly_of_ok (h : ∀ mem, ∃ mem', setColumn doubleBits dm column offset mem value
      valueLen = .ok (.ok, mem') ∧ StaysInside column offset mem mem') :
    SetsCleanly doubleBits dm column offset (some value) valueLen mem where
  unchanged := by
    obtain ⟨mem', hset, -⟩ := h mem
    exact ⟨.ok, _, sormSetColumnValue_ok hset, fun hret => absurd rfl hret⟩
  inside := by
    intro mem
    obtain ⟨mem', hset, hinside⟩ := h mem
    refine ⟨.ok, _, sormSetColumnValue_ok hset, fun r hroom k hk => ?_⟩
    by_cases hword : InWord (statWord offset) k
    · exact .inl hword
    · refine hinside r hroom k ?_
      rw [settledStat_changesOnly mem' offset k (by unfold InWord at hword; omega)] at hk
      exact hk

/-- A value that is rejected before anything is written. -/
theorem setsCleanly_of_error {ret : SormError} (hret : ret ≠ .ok)
    (h : ∀ mem, setColumn doubleBits dm column offset mem value valueLen = .ok (ret, mem)) :
    SetsCleanly doubleBits dm column offset (some value) valueLen mem where
  unchanged := ⟨ret, mem, sormSetColumnValue_error (h mem) hret, fun _ => rfl⟩
  inside := fun mem => ⟨ret, mem, sormSetColumnValue_error (h mem) hret,
    fun _ _ _ hk => absurd rfl hk⟩

theorem staysInside_of_room (h : room column = none) (mem mem' : Memory) :
    StaysInside column offset mem mem' := by
  intro r hroom
  rw [h] at hroom
  cases hroom

/-- A column with its characters elsewhere, or without any. -/
theorem setsCleanly_other (h : room column = none) :
    SetsCleanly doubleBits dm column offset (some value) valueLen mem := by
  have hroom := @staysInside_of_room _ offset h
  unfold room at h
  cases htype : column.type with
  | int =>
      exact setsCleanly_of_ok fun mem => ⟨_, by rw [setColumn, htype], hroom mem _⟩
  | int64 =>
      exact setsCleanly_of_ok fun mem => ⟨_, by rw [setColumn, htype], hroom mem _⟩
  | double =>
      exact setsCleanly_of_ok fun mem => ⟨_, by rw [setColumn, htype], hroom mem _⟩
  | unknown code =>
      refine setsCleanly_of_error (show SormError.invalidType ≠ .ok by decide) fun mem => ?_
      rw [setColumn, htype]
  | text =>
      cases hmem : column.mem with
      | heap =>
          refine setsCleanly_of_ok fun mem =>
            ⟨write mem offset (pointerBytes dm value.address), ?_, hroom mem _⟩
          rw [setColumn, htype]
          dsimp only
          rw [setColumnText, hmem]
      | stack =>
          rw [hmem, htype] at h
          cases h
      | none =>
          refine setsCleanly_of_error (show SormError.invalidMem ≠ .ok by decide) fun mem => ?_
          rw [setColumn, htype]
          dsimp only
          rw [setColumnText, hmem]
  | blob =>
      cases hmem : column.mem with
      | heap =>
          refine setsCleanly_of_ok fun mem => ⟨setBlobLen
            (write mem offset (pointerBytes dm value.address)) offset valueLen, ?_, hroom mem _⟩
          rw [setColumn, htype]
          dsimp only
          rw [setColumnBlob, hmem]
      | stack =>
          rw [hmem, htype] at h
          cases h
      | none =>
          refine setsCleanly_of_error (show SormError.invalidMem ≠ .ok by decide) fun mem => ?_
          rw [setColumn, htype]
          dsimp only
          rw [setColumnBlob, hmem]

theorem setColumn_text (htype : column.type = .text) (hmem : column.mem = .stack) (mem : Memory) :
    setColumn doubleBits dm column offset mem value valueLen =
      .ok (if (value.text.chars.length : ℤ) > column.maxLen then .tooLong else .ok,
        write mem offset (snprintfBytes column.maxLen value.text)) := by
  rw [setColumn, htype]
  dsimp only
  rw [setColumnText, hmem]
  dsimp only
  by_cases hlong : (value.text.chars.length : ℤ) > column.maxLen
  · rw [if_pos hlong, if_pos hlong]
  · rw [if_neg hlong, if_neg hlong]

theorem staysInside_text (htype : column.type = .text) (hmem : column.mem = .stack)
    (hlen : -1 ≤ column.maxLen) (text : CString) (mem : Memory) :
    StaysInside column offset mem (write mem offset (snprintfBytes column.maxLen text)) := by
  intro r hroom k hk
  have hr : column.maxLen + 1 = r := by
    unfold room at hroom
    rw [hmem, htype] at hroom
    exact Option.some.inj hroom
  have hlength : (snprintfBytes column.maxLen text).length ≤ (column.maxLen + 1).toNat := by
    unfold snprintfBytes
    by_cases hzero : column.maxLen + 1 = 0
    · rw [if_pos hzero]
      exact Nat.zero_le _
    · rw [if_neg hzero, if_neg (by omega), List.length_append, List.length_map, List.length_take,
        List.length_singleton]
      omega
  by_contra hout
  refine hk (write_of_outside ?_ mem)
  omega

/-- A negative size is a huge one for `snprintf`, and the text is written somewhere. -/
theorem maxLen_of_inside (htype : column.type = .text) (hmem : column.mem = .stack)
    (hoffset : 4 ≤ offset) (h : ∀ mem, ∃ ret mem', sormSetColumnValue doubleBits dm column offset
      mem (some value) valueLen = .ok (ret, mem') ∧ StaysInside column offset mem mem') :
    -1 ≤ column.maxLen := by
  by_contra hneg
  have hbytes : snprintfBytes column.maxLen value.text = value.text.chars.map charByte ++ [0] := by
    unfold snprintfBytes
    rw [if_neg (by omega), if_pos (by omega)]
  have hlong : (value.text.chars.length : ℤ) > column.maxLen := by omega
  have hpos : 0 < (snprintfBytes column.maxLen value.text).length := by
    rw [hbytes]
    simp
  -- an object whose first byte of the value is another one
  obtain ⟨ret, mem', heq, hinside⟩ :=
    h fun _ => (snprintfBytes column.maxLen value.text).getD 0 0 + 1
  have hset := @setColumn_text doubleBits dm column offset value valueLen htype hmem
    fun _ => (snprintfBytes column.maxLen value.text).getD 0 0 + 1
  rw [if_pos hlong] at hset
  rw [sormSetColumnValue_error hset (by decide)] at heq
  have hmem' := congrArg Prod.snd (Except.ok.inj heq)
  dsimp only at hmem'
  subst hmem'
  have hroom : room column = some (column.maxLen + 1) := by
    unfold room
    rw [hmem, htype]
  have hchanged := hinside _ hroom offset (by
    rw [write_of_inside le_rfl (by omega), Nat.sub_self]
    intro hsame
    dsimp only at hsame
    generalize (snprintfBytes column.maxLen value.text).getD 0 0 = b at hsame
    bv_omega)
  rw [htype] at hchanged
  unfold InWord statWord at hchanged
  rcases hchanged with hword | ⟨hblob, -⟩ | hrange
  · omega
  · cases hblob
  · omega

theorem setsCleanly_text_iff (htype : column.type = .text) (hmem : column.mem = .stack)
    (hoffset : 4 ≤ offset) :
    SetsCleanly doubleBits dm column offset (some value) valueLen mem ↔
      TextSafe column offset value.text mem := by
  have hset : ∀ mem, setColumn doubleBits dm column offset mem value valueLen =
      .ok (if (value.text.chars.length : ℤ) > column.maxLen then .tooLong else .ok,
        write mem offset (snprintfBytes column.maxLen value.text)) := setColumn_text htype hmem
  have hbytes : 0 ≤ column.maxLen → snprintfBytes column.maxLen value.text =
      (value.text.chars.take column.maxLen.toNat).map charByte ++ [0] := by
    intro hlen
    unfold snprintfBytes
    rw [if_neg (by omega), if_neg (by omega)]
  unfold TextSafe
  constructor
  · intro h
    have hlen := maxLen_of_inside htype hmem hoffset h.inside
    by_cases hzero : column.maxLen = -1
    · exact .inl hzero
    · have hnonneg : 0 ≤ column.maxLen := by omega
      refine .inr ⟨hnonneg, ?_⟩
      by_cases hlong : (value.text.chars.length : ℤ) ≤ column.maxLen
      · exact .inl hlong
      · right
        obtain ⟨ret, mem', heq, hsame⟩ := h.unchanged
        have herror := hset mem
        rw [if_pos (not_le.mp hlong)] at herror
        rw [sormSetColumnValue_error herror (by decide)] at heq
        obtain ⟨rfl, rfl⟩ := Prod.mk.inj (Except.ok.inj heq)
        rw [← hbytes hnonneg, ← write_eq_self_iff]
        exact hsame (by decide)
  · rintro (hzero | ⟨hnonneg, hfits | hholds⟩)
    · refine setsCleanly_of_error (show SormError.tooLong ≠ .ok by decide) fun mem => ?_
      have hnil : snprintfBytes column.maxLen value.text = [] := by
        unfold snprintfBytes
        exact if_pos (by omega)
      have hsame : write mem offset [] = mem := write_eq_self_iff.mpr fun k hk => by cases hk
      rw [hset, if_pos (by omega), hnil, hsame]
    · refine setsCleanly_of_ok fun mem =>
        ⟨write mem offset (snprintfBytes column.maxLen value.text), ?_,
          staysInside_text htype hmem (by omega) value.text mem⟩
      rw [hset, if_neg (not_lt.mpr hfits)]
    · by_cases hlong : (value.text.chars.length : ℤ) > column.maxLen
      · have herror : ∀ mem,
            sormSetColumnValue doubleBits dm column offset mem (some value) valueLen =
              .ok (.tooLong, write mem offset (snprintfBytes column.maxLen value.text)) := by
          intro mem
          refine sormSetColumnValue_error ?_ (by decide)
          rw [hset, if_pos hlong]
        rw [← hbytes hnonneg, ← write_eq_self_iff] at hholds
        exact ⟨⟨_, _, herror mem, fun _ => hholds⟩, fun mem =>
          ⟨_, _, herror mem, staysInside_text htype hmem (by omega) value.text mem⟩⟩
      · refine setsCleanly_of_ok fun mem =>
          ⟨write mem offset (snprintfBytes column.maxLen value.text), ?_,
            staysInside_text htype hmem (by omega) value.text mem⟩
        rw [hset, if_neg hlong]

theorem setsCleanly_blob_iff (htype : column.type = .blob) (hmem : column.mem = .stack) :
    SetsCleanly doubleBits dm column offset (some value) valueLen mem ↔
      BlobSafe column valueLen := by
  have hset : ∀ mem, setColumn doubleBits dm column offset mem value valueLen =
      setColumnBlob dm column offset mem value valueLen := by
    intro mem
    rw [setColumn, htype]
  unfold BlobSafe
  by_cases hlong : column.maxLen < valueLen
  · have herror : SormError.tooLong ≠ .ok := by decide
    refine iff_of_true (setsCleanly_of_error herror fun mem => ?_) (.inl hlong)
    rw [hset, setColumnBlob, hmem]
    exact if_pos hlong
  · by_cases hneg : valueLen < 0
    · refine iff_of_false (fun h => ?_) (by omega)
      obtain ⟨ret, mem', heq, -⟩ := h.unchanged
      have herror : setColumn doubleBits dm column offset mem value valueLen =
          .error .undefined := by
        rw [hset, setColumnBlob, hmem]
        exact (if_neg hlong).trans (if_pos hneg)
      rw [sormSetColumnValue, herror] at heq
      cases heq
    · refine iff_of_true (setsCleanly_of_ok fun mem => ⟨setBlobLen (write mem offset
        ((firstBytes valueLen value.bytes).map charByte)) offset valueLen, ?_, ?_⟩)
        (.inr (not_lt.mp hneg))
      · rw [hset, setColumnBlob, hmem]
        exact (if_neg hlong).trans (if_neg hneg)
      · intro r hroom k hk
        have hr : column.maxLen = r := by
          unfold room at hroom
          rw [hmem, htype] at hroom
          exact Option.some.inj hroom
        by_contra hout
        refine hk ?_
        have hlength : ((firstBytes valueLen value.bytes).map charByte).length =
            valueLen.toNat := by
          rw [List.length_map, firstBytes, List.length_map, List.length_range]
        have hword : ¬ InWord (blobLenWord offset) k := fun h => hout (.inr (.inl ⟨htype, h⟩))
        unfold InWord at hout hword
        rw [setBlobLen, write_of_outside, write_of_outside]
        · omega
        · rw [length_wordBytes]
          omega

/-- The call that sets a column, whose status lies in front of its value, is clean exactly if the
value is stored elsewhere, or its TEXT or the length of its BLOB is safe. -/
theorem setsCleanly_iff (doubleBits : ℚ → BitVec 64) (dm : DataModel) (column : ColumnDescriptor)
    {offset : ℕ} (hoffset : 4 ≤ offset) (value : Option Pointer) (valueLen : ℤ) (mem : Memory) :
    SetsCleanly doubleBits dm column offset value valueLen mem ↔
      ∀ p, value = some p → column.mem = .stack →
        (column.type = .text → TextSafe column offset p.text mem) ∧
        (column.type = .blob → BlobSafe column valueLen) := by
  cases value with
  | none =>
      exact iff_of_true ⟨⟨.argNull, mem, rfl, fun _ => rfl⟩,
        fun mem => ⟨.argNull, mem, rfl, fun _ _ _ hk => absurd rfl hk⟩⟩ fun p hp => by cases hp
  | some value =>
      by_cases hstack : column.mem = .stack
      · by_cases htext : column.type = .text
        · rw [setsCleanly_text_iff htext hstack hoffset]
          constructor
          · intro h p hp _
            obtain rfl := Option.some.inj hp
            exact ⟨fun _ => h, fun hblob => by rw [htext] at hblob; cases hblob⟩
          · intro h
            exact (h value rfl hstack).1 htext
        · by_cases hblob : column.type = .blob
          · rw [setsCleanly_blob_iff hblob hstack]
            constructor
            · intro h p _ _
              exact ⟨fun h => absurd h htext, fun _ => h⟩
            · intro h
              exact (h value rfl hstack).2 hblob
          · have hroom : room column = none := by
              unfold room
              split
              · exact absurd ‹_› htext
              · exact absurd ‹_› hblob
              · rfl
            exact iff_of_true (setsCleanly_other hroom) fun _ _ _ =>
              ⟨fun h => absurd h htext, fun h => absurd h hblob⟩
      · have hroom : room column = none := by
          unfold room
          split
          · exact absurd ‹_› hstack
          · exact absurd ‹_› hstack
          · rfl
        exact iff_of_true (setsCleanly_other hroom) fun _ _ hmem => absurd hmem hstack

def initialColumn : ColumnDescriptor :=
  { bigintColumn with name := "name".toList, type := .text, mem := .stack, maxLen := 1 }

def longName : Pointer := { photoBlob with text := ⟨"ab".toList, by decide⟩ }

def initialMemory : Memory := fun k => if k = 44 then 97 else 0

theorem setsCleanly_iff_photo :
    SetsCleanly (fun _ => 0) .lp64 initialColumn 44 (some longName) 0 initialMemory ↔
      ∀ p, some longName = some p → initialColumn.mem = .stack →
        (initialColumn.type = .text → TextSafe initialColumn 44 p.text initialMemory) ∧
        (initialColumn.type = .blob → BlobSafe initialColumn 0) :=
  setsCleanly_iff (fun _ => 0) .lp64 initialColumn (by decide) (some longName) 0 initialMemory

/-- A name of two characters is cut and stored before it is rejected. -/
theorem not_setsCleanly :
    ¬ ∀ (column : ColumnDescriptor) (offset : ℕ), 4 ≤ offset → ∀ (value : Option Pointer)
      (valueLen : ℤ) (mem : Memory),
      SetsCleanly (fun _ => 0) .lp64 column offset value valueLen mem := by
  intro h
  have hclean := h initialColumn 44 (by decide) (some longName) 0 fun _ => 0
  rw [setsCleanly_text_iff rfl rfl (by decide)] at hclean
  rcases hclean with hzero | ⟨-, hfits | hholds⟩
  · exact absurd hzero (by decide)
  · exact absurd hfits (by decide)
  · exact absurd (hholds 0 (by decide)) (by decide)

end Cleanly

end ObjectBytes
end Sorm
