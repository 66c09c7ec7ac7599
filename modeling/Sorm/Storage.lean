import Sorm.Decoding
import Sorm.StatementBuffers

/-!
# Stored values

What SQLite stores of a bound value, what the column functions return of a stored one, and what the
members of a column hold for the program that reads them. An object that was made by `sorm_new` and
successful calls of `sorm_set_column_value` can be bound and read back column by column.
-/

namespace Sorm

open Interaction

inductive DbValue
  | integer (v : BitVec 64)
  | real (v : ℚ)
  | text (s : CString)
  | blob (bytes : Text)
deriving DecidableEq

/-- What is stored of a bound value; a NULL pointer is stored as NULL. -/
def Bound.stored : Bound → Option DbValue
  | .int v => some (.integer (v.signExtend 64))
  | .int64 v => some (.integer v)
  | .text s => s.map .text
  | .double v => some (.real v)
  | .blob bytes _ => bytes.map .blob

/-- The column functions return the stored value; `sqlite3_column_blob` returns NULL for a text or
blob without bytes. -/
def Cell.Holds (cell : Cell) : Option DbValue → Prop
  | none => cell.columnClass = .null
  | some (.integer v) => cell.columnClass = .integer ∧ cell.int = v.setWidth 32 ∧ cell.int64 = v
  | some (.real v) => cell.columnClass = .float ∧ cell.double = v
  | some (.text s) => cell.columnClass = .text ∧ cell.text = some s ∧
      cell.blob = if s.chars = [] then none else some s.chars
  | some (.blob bytes) => cell.columnClass = .blob ∧
      cell.blob = (if bytes = [] then none else some bytes) ∧ cell.bytes = bytes.length

inductive ColumnValue
  | int (v : BitVec 32)
  | int64 (v : BitVec 64)
  | text (s : Option CString)
  | double (v : ℚ)
  | blob (bytes : Text) (len : ℤ)
  | nothing
deriving DecidableEq

namespace Slot

def value (column : ColumnDescriptor) (slot : Slot) : ColumnValue :=
  match column.type, column.mem with
  | .int, _ => .int slot.int32
  | .int64, _ => .int64 slot.int64
  | .text, .heap => .text (slot.pointer.map CharPointer.text)
  | .text, _ => .text (some slot.chars)
  | .double, _ => .double slot.double
  | .blob, .heap =>
      .blob ((slot.pointer.map fun p => firstBytes slot.blobLen p.bytes).getD []) slot.blobLen
  | .blob, _ => .blob (firstBytes slot.blobLen slot.bytes) slot.blobLen
  | .unknown _, _ => .nothing

def Settled (column : ColumnDescriptor) (slot : Slot) : Prop :=
  match column.type, column.mem with
  | .text, .heap => slot.pointer.isSome
  | .text, .stack => (slot.chars.chars.length : ℤ) ≤ column.maxLen
  | .blob, .heap => slot.pointer.isSome ∧ 0 ≤ slot.blobLen
  | .blob, .stack => 0 ≤ slot.blobLen ∧ slot.blobLen ≤ column.maxLen
  | .text, .none | .blob, .none | .unknown _, _ => False
  | _, _ => True

def EmptyHeapBlob (column : ColumnDescriptor) (slot : Slot) : Prop :=
  column.type = .blob ∧ column.mem = .heap ∧ slot.blobLen = 0

instance (column : ColumnDescriptor) (slot : Slot) : Decidable (slot.EmptyHeapBlob column) :=
  inferInstanceAs (Decidable (_ ∧ _))

/-- The members hold the value that was stored from `old`; only the pointer to no bytes is lost. -/
structure Restores (column : ColumnDescriptor) (old new : Slot) : Prop where
  valued : sormIsStatValued new.stat
  value : new.value column = old.value column
  settled : ¬ old.EmptyHeapBlob column → new.Settled column
  pointer : old.EmptyHeapBlob column → new.pointer = none

end Slot

def ColumnValue.stored : ColumnValue → Option DbValue
  | .int v => some (.integer (v.signExtend 64))
  | .int64 v => some (.integer v)
  | .text s => s.map .text
  | .double v => some (.real v)
  | .blob bytes _ => some (.blob bytes)
  | .nothing => none

variable {table : TableDescriptor}

/-- An object made by `sorm_new` and successful calls of `sorm_set_column_value`. -/
inductive Object.Built : Object table → Prop
  | fresh : Built (Object.fresh table)
  | set {obj obj' : Object table} {i : table.Index} {value : Pointer} {valueLen : ℤ} (h : Built obj)
      (hlen : (table.column i).type = .blob → 0 ≤ valueLen)
      (hret : sormSetColumnValue (some obj) i (some value) valueLen = .ok (.ok, some obj')) :
      Built obj'

theorem firstBytes_length (len : ℤ) (bytes : ℕ → Char) :
    (firstBytes len bytes).length = len.toNat := by
  rw [firstBytes, List.length_map, List.length_range]

theorem firstBytes_congr {len : ℤ} {bytes bytes' : ℕ → Char}
    (h : ∀ k : ℕ, (k : ℤ) < len → bytes k = bytes' k) :
    firstBytes len bytes = firstBytes len bytes' := by
  apply List.map_congr_left
  intro k hk
  have hlt : k < len.toNat := List.mem_range.mp hk
  exact h k (by omega)

theorem stackText_of_le {maxLen : ℤ} {dest s : CString} (h : (s.chars.length : ℤ) ≤ maxLen) :
    stackText maxLen dest s = s := by
  unfold stackText
  rw [if_neg (by omega), if_neg (by omega)]
  unfold CString.take
  congr 1
  exact List.take_of_length_le (by omega)

namespace Object

theorem setColumn_settled {obj obj' : Object table} {i : table.Index} {value : Pointer}
    {valueLen : ℤ} (hlen : (table.column i).type = .blob → 0 ≤ valueLen)
    (hret : obj.setColumn i value valueLen = .ok (.ok, obj')) :
    ∃ slot, obj' = obj.setSlot i slot ∧ slot.Settled (table.column i) := by
  unfold setColumn at hret
  unfold Slot.Settled
  cases htype : (table.column i).type with
  | int | int64 | double =>
      rw [htype] at hret
      cases hret
      exact ⟨_, rfl, trivial⟩
  | text =>
      rw [htype] at hret
      unfold setColumnText at hret
      cases hmem : (table.column i).mem with
      | none =>
          rw [hmem] at hret
          cases hret
      | heap =>
          rw [hmem] at hret
          cases hret
          exact ⟨_, rfl, rfl⟩
      | stack =>
          rw [hmem] at hret
          dsimp only at hret
          split at hret
          · cases hret
          · next hle =>
            cases hret
            refine ⟨_, rfl, ?_⟩
            dsimp only
            rw [stackText_of_le (by omega)]
            omega
  | blob =>
      have hnonneg := hlen htype
      rw [htype] at hret
      dsimp only at hret
      unfold setColumnBlob at hret
      cases hmem : (table.column i).mem with
      | none =>
          rw [hmem] at hret
          cases hret
      | heap =>
          rw [hmem] at hret
          cases hret
          exact ⟨_, rfl, rfl, hnonneg⟩
      | stack =>
          rw [hmem] at hret
          dsimp only at hret
          split at hret
          · cases hret
          · next hle =>
            rw [if_neg (by omega)] at hret
            cases hret
            refine ⟨_, rfl, hnonneg, ?_⟩
            dsimp only
            omega
  | unknown code =>
      rw [htype] at hret
      cases hret

theorem delColumnStat_setSlot (obj : Object table) (i : table.Index) (slot : Slot) (stat : Stat) :
    (obj.setSlot i slot).delColumnStat i stat =
      obj.setSlot i { slot with stat := slot.stat &&& ~~~stat } := by
  unfold delColumnStat getColumnStat
  rw [setSlot_self, setSlot_setSlot]

theorem valued_settled (stat : Stat) :
    sormIsStatValued ((stat ||| sormStatValued) &&& ~~~sormStatNeedfree) := by
  have hvalued : sormStatValued.getLsbD 0 := by decide
  have hkept : (~~~sormStatNeedfree).getLsbD 0 := by decide
  rw [sormIsStatValued_iff, BitVec.getLsbD_and, BitVec.getLsbD_or, hvalued, hkept, Bool.or_true]
  rfl

/-- What a successful call of `sorm_set_column_value` does to the object. -/
theorem sormSetColumnValue_ok {obj obj' : Object table} {i : table.Index} {value : Pointer}
    {valueLen : ℤ} (hlen : (table.column i).type = .blob → 0 ≤ valueLen)
    (hret : sormSetColumnValue (some obj) i (some value) valueLen = .ok (.ok, some obj')) :
    ∃ slot, obj' = obj.setSlot i slot ∧ sormIsStatValued slot.stat ∧
      slot.Settled (table.column i) := by
  change (obj.setColumnValue i value valueLen >>= fun r => pure (r.1, some r.2)) = _ at hret
  unfold setColumnValue at hret
  cases hset : obj.setColumn i value valueLen with
  | error why =>
      rw [hset] at hret
      cases hret
  | ok r =>
      obtain ⟨ret, obj₁⟩ := r
      rw [hset] at hret
      by_cases hok : ret = .ok
      · subst hok
        obtain ⟨slot, rfl, hsettled⟩ := setColumn_settled hlen hset
        change Except.ok (SormError.ok, some (((obj.setSlot i slot).addColumnStat i
          sormStatValued).delColumnStat i sormStatNeedfree)) = _ at hret
        rw [addColumnStat_setSlot, delColumnStat_setSlot] at hret
        cases hret
        exact ⟨_, rfl, valued_settled slot.stat, hsettled⟩
      · change (if ret = .ok then _ else Except.ok (ret, obj₁)) >>= _ = _ at hret
        rw [if_neg hok] at hret
        cases hret
        exact absurd rfl hok

theorem Built.settled {obj : Object table} (h : obj.Built) {i : table.Index}
    (hvalued : obj.valued i) : (obj.slots i).Settled (table.column i) := by
  induction h with
  | fresh =>
      have hzero : sormIsStatValued Slot.zero.stat = false := by decide
      exact absurd (hvalued.symm.trans hzero) Bool.noConfusion
  | @set obj obj' j value valueLen h hlen hret ih =>
      obtain ⟨slot, rfl, _, hsettled⟩ := sormSetColumnValue_ok hlen hret
      by_cases hij : i = j
      · subst hij
        rw [setSlot_self]
        exact hsettled
      · rw [setSlot_of_ne obj hij]
        apply ih
        unfold valued getColumnStat at hvalued
        rwa [setSlot_of_ne obj hij] at hvalued

end Object

def Slot.bound (column : ColumnDescriptor) (slot : Slot) : Except SormError Bound :=
  match column.type with
  | .int => .ok (.int slot.int32)
  | .int64 => .ok (.int64 slot.int64)
  | .text =>
      match column.mem with
      | .heap => .ok (.text (slot.pointer.map CharPointer.text))
      | .stack => .ok (.text (some slot.chars))
      | .none => .error .invalidMem
  | .double => .ok (.double slot.double)
  | .blob =>
      match column.mem with
      | .heap => .ok (.blob (slot.pointer.map fun p => firstBytes slot.blobLen p.bytes) slot.blobLen)
      | .stack => .ok (.blob (some (firstBytes slot.blobLen slot.bytes)) slot.blobLen)
      | .none => .error .invalidMem
  | .unknown _ => .error .invalidType

theorem bound_settled {column : ColumnDescriptor} {slot : Slot} (h : slot.Settled column) :
    ∃ v, slot.bound column = .ok v ∧ v.stored = (slot.value column).stored := by
  unfold Slot.bound Slot.value
  unfold Slot.Settled at h
  cases htype : column.type with
  | int | int64 | double => exact ⟨_, rfl, rfl⟩
  | text =>
      rw [htype] at h
      cases hmem : column.mem with
      | none =>
          rw [hmem] at h
          exact h.elim
      | heap => exact ⟨_, rfl, rfl⟩
      | stack => exact ⟨_, rfl, rfl⟩
  | blob =>
      rw [htype] at h
      cases hmem : column.mem with
      | none =>
          rw [hmem] at h
          exact h.elim
      | heap =>
          rw [hmem] at h
          obtain ⟨p, hp⟩ := Option.isSome_iff_exists.mp h.1
          refine ⟨_, rfl, ?_⟩
          rw [hp]
          rfl
      | stack => exact ⟨_, rfl, rfl⟩
  | unknown code =>
      rw [htype] at h
      exact h.elim

theorem CString.ofBytes_self (s : CString) : CString.ofBytes s.chars = s := by
  unfold ofBytes
  congr 1
  rw [List.takeWhile_eq_self_iff]
  intro c hc
  rw [bne_iff_ne]
  rintro rfl
  exact s.noNul hc

theorem firstBytes_getD (bytes : Text) {len : ℤ} (hlen : len = bytes.length) :
    firstBytes len (fun k => bytes.getD k '\x00') = bytes := by
  have hnat : len.toNat = bytes.length := by omega
  change (List.range len.toNat).map (fun k => bytes.getD k '\x00') = bytes
  rw [hnat]
  apply List.ext_getElem
  · rw [List.length_map, List.length_range]
  · intro k hk hk'
    rw [List.getElem_map, List.getElem_range, List.getD_eq_getElem?_getD,
      List.getElem?_eq_getElem hk', Option.getD_some]

/-- The low half of a key or value that was stored from an `int`. -/
theorem setWidth_signExtend (v : BitVec 32) : (v.signExtend 64).setWidth 32 = v := by
  apply BitVec.eq_of_getLsbD_eq
  intro k hk
  rw [BitVec.getLsbD_setWidth, BitVec.getLsbD_signExtend, if_pos hk]
  have hk' : k < 64 := by omega
  simp only [hk, hk', decide_true, Bool.true_and]

section ReadBack

variable {column : ColumnDescriptor} {slot : Slot} {cell : Cell}

theorem readText_restores (htype : column.type = .text) (h : slot.Settled column)
    (hcell : cell.Holds (slot.value column).stored) :
    ∃ new, cell.readText column Slot.zero 0 = .ok (.ok, new) ∧
      new.value column = slot.value column ∧ new.Settled column := by
  unfold Slot.Settled at h
  unfold Slot.value Slot.Settled Cell.readText
  unfold Slot.value at hcell
  rw [htype] at h hcell ⊢
  cases hmem : column.mem with
  | none =>
      rw [hmem] at h
      exact h.elim
  | heap =>
      rw [hmem] at h hcell
      obtain ⟨p, hp⟩ := Option.isSome_iff_exists.mp h
      rw [hp] at hcell ⊢
      obtain ⟨-, htext, -⟩ := hcell
      refine ⟨_, rfl, ?_, ?_⟩
      · rw [htext]
        exact congrArg (ColumnValue.text ∘ some) (CString.ofBytes_self p.text)
      · rw [htext]
        rfl
  | stack =>
      rw [hmem] at h hcell
      dsimp only at h
      obtain ⟨-, htext, hblob⟩ := hcell
      by_cases hempty : slot.chars.chars = []
      · rw [if_pos hempty] at hblob
        rw [hblob]
        have hchars : Slot.zero.chars = slot.chars := by
          cases hc : slot.chars with
          | mk chars noNul =>
              rw [hc] at hempty
              dsimp only at hempty
              subst hempty
              rfl
        refine ⟨_, rfl, congrArg (ColumnValue.text ∘ some) hchars, ?_⟩
        dsimp only
        rw [hchars]
        exact h
      · rw [if_neg hempty] at hblob
        rw [hblob, htext]
        dsimp only
        rw [if_neg (by omega), stackText_of_le h]
        exact ⟨_, rfl, rfl, h⟩

/-- The bytes that `sqlite3_column_blob` points to. -/
theorem blob_getD {bytes : Text} {blob : Option Text}
    (h : blob = if bytes = [] then none else some bytes) : blob.getD [] = bytes := by
  rw [h]
  split
  · next hempty => exact hempty.symm
  · rfl

theorem readBlob_restores (htype : column.type = .blob) (h : slot.Settled column)
    (hcell : cell.Holds (slot.value column).stored) :
    ∃ new, cell.readBlob column Slot.zero 0 = (.ok, new) ∧
      new.value column = slot.value column ∧
      (¬ slot.EmptyHeapBlob column → new.Settled column) ∧
      (slot.EmptyHeapBlob column → new.pointer = none) := by
  unfold Slot.Settled at h
  unfold Slot.value Slot.Settled Cell.readBlob Slot.EmptyHeapBlob
  unfold Slot.value at hcell
  rw [htype] at h hcell ⊢
  cases hmem : column.mem with
  | none =>
      rw [hmem] at h
      exact h.elim
  | heap =>
      rw [hmem] at h hcell
      obtain ⟨hpointer, hlen⟩ := h
      obtain ⟨p, hp⟩ := Option.isSome_iff_exists.mp hpointer
      rw [hp] at hcell ⊢
      obtain ⟨-, hblob, hbytes⟩ := hcell
      dsimp only [Option.map_some, Option.getD_some] at hblob hbytes ⊢
      have hgetD := blob_getD hblob
      rw [firstBytes_length] at hbytes
      refine ⟨_, rfl, ?_, fun hne => ?_, fun hempty => ?_⟩
      · have hlen' : (cell.bytes : ℤ) = slot.blobLen := by omega
        dsimp only
        rw [hlen']
        congr 1
        split
        · next hzero =>
          have hnone : firstBytes slot.blobLen p.bytes = [] := by
            rw [← List.length_eq_zero_iff, firstBytes_length]
            omega
          exact hnone.symm
        · dsimp only [Option.map_some, Option.getD_some, CharPointer.ofBlock]
          rw [hgetD, firstBytes_getD _ (by rw [List.length_take, firstBytes_length]; omega)]
          exact List.take_of_length_le (by rw [firstBytes_length]; omega)
      · have hbytes' : cell.bytes ≠ 0 := by
          intro hzero
          have hlen' : slot.blobLen = 0 := by omega
          exact hne ⟨rfl, rfl, hlen'⟩
        dsimp only
        rw [if_neg hbytes']
        exact ⟨rfl, by omega⟩
      · have hzero : cell.bytes = 0 := by
          have hlen' := hempty.2.2
          omega
        exact if_pos hzero
  | stack =>
      rw [hmem] at h hcell
      obtain ⟨-, hblob, hbytes⟩ := hcell
      have hgetD := blob_getD hblob
      rw [firstBytes_length] at hbytes
      dsimp only at h ⊢
      have hlen : (cell.bytes : ℤ) = slot.blobLen := by omega
      rw [if_neg (by omega), hlen]
      refine ⟨_, rfl, ?_, fun _ => h, fun hempty => ?_⟩
      · dsimp only
        congr 1
        have hcongr : firstBytes slot.blobLen (fun k => if k < cell.bytes then
            (cell.blob.getD []).getD k '\x00' else Slot.zero.bytes k) =
            firstBytes slot.blobLen fun k => (cell.blob.getD []).getD k '\x00' := by
          apply firstBytes_congr
          intro k hk
          rw [if_pos (by omega)]
        rw [hcongr, hgetD]
        exact firstBytes_getD _ (by rw [firstBytes_length]; omega)
      · cases hempty.2.1

theorem Cell.Holds.class_ne {v : DbValue} (h : cell.Holds (some v)) : cell.columnClass ≠ .null := by
  cases v with
  | integer v =>
      rw [h.1]
      exact ColumnClass.noConfusion
  | real v =>
      rw [h.1]
      exact ColumnClass.noConfusion
  | text s =>
      rw [h.1]
      exact ColumnClass.noConfusion
  | blob bytes =>
      rw [h.1]
      exact ColumnClass.noConfusion

theorem stored_isSome (h : slot.Settled column) : (slot.value column).stored.isSome := by
  unfold Slot.Settled at h
  unfold Slot.value
  cases htype : column.type with
  | int | int64 | double => rfl
  | text =>
      rw [htype] at h
      cases hmem : column.mem with
      | none | stack => rfl
      | heap =>
          rw [hmem] at h
          obtain ⟨p, hp⟩ := Option.isSome_iff_exists.mp h
          rw [hp]
          rfl
  | blob =>
      cases hmem : column.mem with
      | none | stack => rfl
      | heap => rfl
  | unknown code =>
      rw [htype] at h
      exact h.elim

/-- Reading back what is stored of a value leaves the members with that value. -/
theorem read_restores (h : slot.Settled column) (hcell : cell.Holds (slot.value column).stored) :
    ∃ new, cell.read column Slot.zero 0 = .ok (.ok, new) ∧ slot.Restores column new := by
  have hvalued : ∀ stat, sormIsStatValued (stat ||| sormStatValued) := by
    intro stat
    have hself : sormIsStatValued sormStatValued = true := by decide
    rw [sormIsStatValued_or, hself, Bool.or_true]
  obtain ⟨v, hv⟩ := Option.isSome_iff_exists.mp (stored_isSome h)
  have hclass : cell.columnClass ≠ .null := by
    rw [hv] at hcell
    exact hcell.class_ne
  unfold Cell.read
  rw [if_neg hclass]
  suffices hread : ∃ new, cell.readValue column Slot.zero 0 = .ok (.ok, new) ∧
      new.value column = slot.value column ∧
      (¬ slot.EmptyHeapBlob column → new.Settled column) ∧
      (slot.EmptyHeapBlob column → new.pointer = none) by
    obtain ⟨new, hnew, hvalue, hsettled, hpointer⟩ := hread
    rw [hnew]
    exact ⟨_, rfl, hvalued _, hvalue, hsettled, hpointer⟩
  have hblob : slot.EmptyHeapBlob column → column.type = .blob := And.left
  unfold Cell.readValue
  cases htype : column.type with
  | int | int64 | double =>
      rw [htype] at hblob
      unfold Slot.value at hcell ⊢
      unfold Slot.Settled
      rw [htype] at hcell ⊢
      refine ⟨_, rfl, ?_, fun _ => trivial, fun hempty => by cases hblob hempty⟩
      first
        | exact congrArg ColumnValue.int64 hcell.2.2
        | exact congrArg ColumnValue.double hcell.2
        | exact congrArg ColumnValue.int (hcell.2.1.trans (setWidth_signExtend slot.int32))
  | text =>
      obtain ⟨new, hnew, hvalue, hsettled⟩ := readText_restores htype h hcell
      refine ⟨new, hnew, hvalue, fun _ => hsettled, fun hempty => ?_⟩
      have hblob := hempty.1
      rw [htype] at hblob
      cases hblob
  | blob =>
      obtain ⟨new, hnew, hrest⟩ := readBlob_restores htype h hcell
      exact ⟨new, congrArg Except.ok hnew, hrest⟩
  | unknown code =>
      unfold Slot.Settled at h
      rw [htype] at h
      exact h.elim

/-- A NULL leaves the members as they are in a fresh object. -/
theorem read_null (hcell : cell.Holds none) :
    cell.read column Slot.zero 0 = .ok (.ok, Slot.zero) := by
  have hclass : cell.columnClass = .null := hcell
  unfold Cell.read
  rw [if_pos hclass]
  rfl

end ReadBack

end Sorm
