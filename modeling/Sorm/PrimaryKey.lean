import Sorm.WriteBack

/-!
# The primary key after a save

`_save` copies the row id into an `int` and sets the primary key of the object from it, whatever the
type of the key column: the setter reads the memory of that `int` at the column's own type.
-/

namespace Sorm

open Interaction

variable {table : TableDescriptor}

def Object.held (obj : Object table) (i : table.Index) : Option DbValue :=
  if obj.valued i then ((obj.slots i).bound (table.column i)).toOption.bind Bound.stored else none

/-- The value of a column lies behind a pointer to the memory at `dead`, which is gone. Of a BLOB of
length 0 no byte is read. -/
def Slot.Dangles (dead : Address) (column : ColumnDescriptor) (slot : Slot) : Prop :=
  column.mem = .heap ∧ slot.pointer.map CharPointer.address = some dead ∧
    (column.type = .text ∨ column.type = .blob ∧ 0 < slot.blobLen)

/-- The key an object holds when the call has returned and its local `row_id` is gone. -/
def Object.HoldsKey (o : Outside) (obj : Object table) (i : table.Index) (key : Option DbValue) :
    Prop :=
  obj.held i = key ∧ ¬ (obj.slots i).Dangles o.memory.address (table.column i)

/-- What is in the key column of the row that was inserted: the value that was bound, or NULL. A
column declared `INTEGER PRIMARY KEY`, but not `DESC`, is the row id: it is assigned when it has no
value, and it is what `sqlite3_last_insert_rowid` returns. -/
structure KeyStored (o : Outside) (obj : Object table) (i : table.Index) (isRowId : Bool)
    (key : Option DbValue) : Prop where
  valued : obj.valued i → key = obj.held i
  unvalued : ¬ obj.valued i → isRowId = false → key = none
  rowId : isRowId → key = some (.integer o.rowId)
  type : isRowId → (table.column i).type = .int ∨ (table.column i).type = .int64
  ascending : isRowId → (table.column i).constraint ≠ .pkDesc
  fits : isRowId → (table.column i).type = .int → (o.rowId.setWidth 32).signExtend 64 = o.rowId

/-- What the memory of `row_id` reads as agrees with the key that is stored. A heap TEXT key is only
made to point to that memory. -/
def KeyKept (o : Outside) (obj : Object table) (i : table.Index) (isRowId : Bool) : Prop :=
  let rowId := rowIdPointer (o.rowId.truncate 32) o.memory
  match (table.column i).type with
  | .int => isRowId ∨ (obj.valued i ∧ (obj.slots i).int32 = o.rowId.truncate 32)
  | .int64 =>
      if isRowId then o.memory.int32 = (o.rowId >>> 32).truncate 32
      else obj.valued i ∧ (obj.slots i).int64 = rowId.int64
  | .text => (table.column i).mem ≠ .heap ∧ obj.held i = some (.text rowId.text)
  | .double => obj.valued i ∧ (obj.slots i).double = o.memory.double
  | .blob => obj.held i = some (.blob [])
  | .unknown _ => False

/-- An `int64` read at the address of an `int` has what lies above it in its high half. -/
theorem rowId_int64 (rowId : BitVec 64) (above : Pointer) :
    (rowIdPointer (rowId.truncate 32) above).int64 = rowId ↔
      above.int32 = (rowId >>> 32).truncate 32 := by
  change (above.int32.zeroExtend 64 <<< 32) ||| (rowId.truncate 32).zeroExtend 64 = rowId ↔ _
  constructor
  · intro h
    rw [← h]
    apply BitVec.eq_of_getLsbD_eq
    intro k hk
    have hhigh : ¬ 32 + k < 32 := by omega
    have hwide : 32 + k < 64 := by omega
    have hwide' : k < 64 := by omega
    simp only [BitVec.truncate_eq_setWidth, BitVec.getLsbD_setWidth, BitVec.getLsbD_ushiftRight,
      BitVec.getLsbD_or, BitVec.getLsbD_shiftLeft, hk, hhigh, hwide, hwide', decide_true,
      decide_false, Bool.true_and, Bool.false_and, Bool.or_false, Bool.not_false,
      Nat.add_sub_cancel_left]
  · intro h
    rw [h]
    apply BitVec.eq_of_getLsbD_eq
    intro k hk
    simp only [BitVec.truncate_eq_setWidth, BitVec.getLsbD_setWidth, BitVec.getLsbD_ushiftRight,
      BitVec.getLsbD_or, BitVec.getLsbD_shiftLeft, hk, decide_true, Bool.true_and]
    by_cases hlow : k < 32
    · simp only [hlow, decide_true, Bool.not_true, Bool.false_and, Bool.false_or, Bool.true_and]
    · have hwide : k - 32 < 64 := by omega
      have hhigh : k - 32 < 32 := by omega
      have hadd : 32 + (k - 32) = k := by omega
      simp only [hlow, hwide, hhigh, hadd, decide_true, decide_false, Bool.not_false,
        Bool.true_and, Bool.false_and, Bool.or_false]

def Pointer.readAt (column : ColumnDescriptor) (value : Pointer) : Option DbValue :=
  match column.type with
  | .int => some (.integer (value.int32.signExtend 64))
  | .int64 => some (.integer value.int64)
  | .text => some (.text value.text)
  | .double => some (.real value.double)
  | .blob => some (.blob [])
  | .unknown _ => none

def ColumnDescriptor.PointsToText (column : ColumnDescriptor) : Prop :=
  column.type = .text ∧ column.mem = .heap

theorem setColumn_readAt {obj obj' : Object table} {i : table.Index} {value : Pointer}
    (hret : obj.setColumn i value 0 = .ok (.ok, obj')) :
    ∃ slot, obj' = obj.setSlot i slot ∧
      (slot.bound (table.column i)).toOption.bind Bound.stored = value.readAt (table.column i) ∧
      (slot.Dangles value.address (table.column i) ↔ (table.column i).PointsToText) := by
  unfold Object.setColumn at hret
  unfold Slot.bound Pointer.readAt Slot.Dangles ColumnDescriptor.PointsToText
  cases htype : (table.column i).type with
  | int | int64 | double =>
      rw [htype] at hret
      cases hret
      exact ⟨_, rfl, rfl, by simp⟩
  | text =>
      rw [htype] at hret
      unfold Object.setColumnText at hret
      cases hmem : (table.column i).mem with
      | none =>
          rw [hmem] at hret
          cases hret
      | heap =>
          rw [hmem] at hret
          cases hret
          exact ⟨_, rfl, rfl, by simp⟩
      | stack =>
          rw [hmem] at hret
          dsimp only at hret
          split at hret
          · cases hret
          · next hle =>
            cases hret
            refine ⟨_, rfl, ?_, by simp⟩
            rw [stackText_of_le (by omega)]
            rfl
  | blob =>
      rw [htype] at hret
      dsimp only at hret
      unfold Object.setColumnBlob at hret
      cases hmem : (table.column i).mem with
      | none =>
          rw [hmem] at hret
          cases hret
      | heap =>
          rw [hmem] at hret
          cases hret
          exact ⟨_, rfl, rfl, by simp⟩
      | stack =>
          rw [hmem] at hret
          dsimp only at hret
          split at hret
          · cases hret
          · rw [if_neg (lt_irrefl 0)] at hret
            cases hret
            exact ⟨_, rfl, rfl, by simp⟩
  | unknown code =>
      rw [htype] at hret
      cases hret

theorem readAt_isSome {obj obj' : Object table} {i : table.Index} {value : Pointer}
    (hret : obj.setColumn i value 0 = .ok (.ok, obj')) :
    (value.readAt (table.column i)).isSome := by
  unfold Pointer.readAt
  cases htype : (table.column i).type with
  | unknown code =>
      unfold Object.setColumn at hret
      rw [htype] at hret
      cases hret
  | _ => rfl

theorem setColumnValue_readAt {obj obj' : Object table} {i : table.Index} {value : Pointer}
    (hret : obj.setColumnValue i value 0 = .ok (.ok, obj')) :
    obj'.held i = value.readAt (table.column i) ∧ (value.readAt (table.column i)).isSome ∧
      ((obj'.slots i).Dangles value.address (table.column i) ↔ (table.column i).PointsToText) ∧
      ∀ j, j ≠ i → obj'.slots j = obj.slots j := by
  unfold Object.setColumnValue at hret
  cases hset : obj.setColumn i value 0 with
  | error why =>
      rw [hset] at hret
      cases hret
  | ok r =>
      obtain ⟨ret, obj₁⟩ := r
      rw [hset] at hret
      change (if ret = .ok then _ else Except.ok (ret, obj₁)) = _ at hret
      by_cases hok : ret = .ok
      · subst hok
        obtain ⟨slot, rfl, hslot, hdangles⟩ := setColumn_readAt hset
        rw [if_pos rfl] at hret
        change Except.ok (SormError.ok, ((obj.setSlot i slot).addColumnStat i
          sormStatValued).delColumnStat i sormStatNeedfree) = _ at hret
        rw [Object.addColumnStat_setSlot, Object.delColumnStat_setSlot] at hret
        cases hret
        refine ⟨?_, readAt_isSome hset, ?_, fun j hj => Object.setSlot_of_ne obj hj _⟩
        · rw [Object.held, Object.valued, Object.getColumnStat, Object.setSlot_self,
            if_pos (Object.valued_settled slot.stat)]
          exact hslot
        · rw [Object.setSlot_self]
          exact hdangles
      · rw [if_neg hok] at hret
        cases hret
        exact absurd rfl hok

section Save

variable {o : Outside}

/-- The bind loop returns. -/
theorem bindEach_returns (h : Handle) (obj : Object table) (is : List table.Index) (k : ℕ) (s : Db) :
    ∃ r s', o.run (bindEach obj (some h) obj.valued is k) s = (.ok r, s') := by
  induction is generalizing k s with
  | nil => exact ⟨_, s, rfl⟩
  | cons i is ih =>
      unfold bindEach
      by_cases hi : obj.valued i
      · rw [if_pos hi]
        cases hv : obj.boundValue i with
        | error e =>
            have hbind : o.run (sqlite3ColumnBind obj (some h) i k) s = (.ok e, s) := by
              unfold sqlite3ColumnBind
              rw [assertSome_some, pure_bind, if_pos hi, hv]
              rfl
            rw [Outside.run, Prog.run_bind_ok hbind]
            by_cases he : e = .ok
            · rw [if_pos he]
              exact ih (k + 1) s
            · rw [if_neg he]
              exact ⟨_, s, rfl⟩
        | ok v =>
            have hbind : o.run (sqlite3ColumnBind obj (some h) i k) s =
                (.ok .ok, { s with bound := s.bound ++ [(k, v)] }) := by
              unfold sqlite3ColumnBind
              rw [assertSome_some, pure_bind, if_pos hi, hv]
              rfl
            rw [Outside.run, Prog.run_bind_ok hbind, if_pos rfl]
            exact ih (k + 1) _
      · rw [if_neg hi]
        exact ih k s

/-- `_save` returns `SORM_OK` with what the primary key was set to. -/
theorem save_ok {conn : Connection} {insertOrReplace : Text} {obj obj' : Object table} {s s' : Db}
    (hvalue : checkHasValue obj)
    (hok : o.run (save (some conn) (some obj) insertOrReplace) s = (.ok (.ok, some obj'), s')) :
    obj.keySet o = .ok (.ok, obj') := by
  have houtcome := saveStmt_outcome obj insertOrReplace
  unfold save at hok
  dsimp only at hok
  rw [if_pos hvalue] at hok
  generalize saveStmt obj insertOrReplace = built at houtcome hok
  cases houtcome with
  | tooLong hbounds hno => cases hok
  | overflow hbounds h => cases hok
  | @ok b htext hlength hbounds hno =>
      obtain ⟨⟨ret, n⟩, s₁, hbind⟩ := bindEach_returns (o := o) o.stmtHandle obj table.indexes 1 s
      by_cases hret : ret = .ok
      · subst hret
        have hrun := savePrepared_run conn b.text hbind
        by_cases hdone : (o.step s₁).1 = .done
        · rw [if_pos hdone] at hrun
          cases hkey : obj.keySet o with
          | error why =>
              rw [hkey] at hrun
              dsimp only at hok
              rw [Outside.run, Prog.run_bind_error hrun] at hok
              cases hok
          | ok r =>
              obtain ⟨ret, obj₁⟩ := r
              rw [hkey] at hrun
              dsimp only at hok
              rw [Outside.run, Prog.run_bind_ok hrun] at hok
              cases hok
              rfl
        · rw [if_neg hdone] at hrun
          dsimp only at hok
          rw [Outside.run, Prog.run_bind_ok hrun] at hok
          cases hok
      · have hrun : ∃ ret' s₂, ret' ≠ .ok ∧
            o.run (savePrepared conn obj b.text) s = (.ok (ret', obj), s₂) := by
          unfold savePrepared
          rw [Outside.run, Prog.run_bind_ok (Outside.sqlite3Prepare_run b.text)]
          dsimp only
          rw [if_neg (not_not_intro rfl), Prog.run_bind_ok hbind]
          dsimp only
          rw [if_pos hret, Prog.run_bind_ok (Outside.dbFinalize_run _ _)]
          refine ⟨_, s₁, ?_, rfl⟩
          split
          · exact SormError.noConfusion
          · exact hret
        obtain ⟨ret', s₂, hne, hrun⟩ := hrun
        dsimp only at hok
        rw [Outside.run, Prog.run_bind_ok hrun] at hok
        cases hok
        exact absurd rfl hne

end Save

section Key

variable {o : Outside} {obj : Object table} {i : table.Index} {isRowId : Bool}
  {key : Option DbValue}

theorem KeyStored.eq_held (h : KeyStored o obj i isRowId key) (hno : isRowId = false) :
    key = obj.held i := by
  by_cases hi : obj.valued i
  · exact h.valued hi
  · rw [h.unvalued hi hno, Object.held, if_neg hi]

theorem some_eq_ite_iff {α : Type} {p : Prop} [Decidable p] {a b : α} :
    some a = (if p then some b else none) ↔ p ∧ b = a := by
  by_cases hp : p
  · rw [if_pos hp, Option.some_inj, eq_comm]
    exact (and_iff_right hp).symm
  · rw [if_neg hp]
    exact iff_of_false (fun h => by cases h) fun h => hp h.1

theorem signExtend_inj {v w : BitVec 32} : v.signExtend 64 = w.signExtend 64 ↔ v = w := by
  constructor
  · intro h
    rw [← setWidth_signExtend v, h, setWidth_signExtend]
  · intro h
    rw [h]

theorem readAt_eq_iff (hkey : KeyStored o obj i isRowId key)
    (hsome : ((rowIdPointer (o.rowId.truncate 32) o.memory).readAt (table.column i)).isSome) :
    (rowIdPointer (o.rowId.truncate 32) o.memory).readAt (table.column i) = key ∧
      ¬ (table.column i).PointsToText ↔ KeyKept o obj i isRowId := by
  have hrowId : isRowId = false → key = obj.held i := hkey.eq_held
  have hno : ∀ type, (table.column i).type = type → type ≠ .int → type ≠ .int64 →
      isRowId = false := by
    intro type htype hint hint64
    rw [Bool.eq_false_iff]
    intro hid
    rcases hkey.type hid with h | h
    · exact hint (htype.symm.trans h)
    · exact hint64 (htype.symm.trans h)
  have hheld : obj.held i = if obj.valued i then
    ((obj.slots i).bound (table.column i)).toOption.bind Bound.stored else none := rfl
  have hother : ∀ type, (table.column i).type = type → type ≠ .text →
      ¬ (table.column i).PointsToText := by
    intro type htype hne hpoints
    exact hne (htype.symm.trans hpoints.1)
  unfold KeyKept Pointer.readAt
  unfold Pointer.readAt at hsome
  unfold Slot.bound at hheld
  cases htype : (table.column i).type with
  | int =>
      rw [and_iff_left (hother _ htype SormType.noConfusion)]
      rw [htype] at hheld
      cases hid : isRowId with
      | true =>
          rw [hkey.rowId hid]
          refine iff_of_true ?_ (Or.inl rfl)
          exact congrArg (some ∘ DbValue.integer) (hkey.fits hid htype)
      | false =>
          rw [hrowId hid, hheld]
          refine some_eq_ite_iff.trans ?_
          rw [DbValue.integer.injEq, signExtend_inj]
          exact (or_iff_right Bool.false_ne_true).symm
  | int64 =>
      rw [and_iff_left (hother _ htype SormType.noConfusion)]
      rw [htype] at hheld
      cases hid : isRowId with
      | true =>
          rw [hkey.rowId hid]
          dsimp only
          rw [if_pos rfl, Option.some_inj, DbValue.integer.injEq, rowId_int64]
      | false =>
          rw [hrowId hid, hheld]
          refine some_eq_ite_iff.trans ?_
          rw [DbValue.integer.injEq]
          exact Iff.rfl
  | text =>
      rw [hrowId (hno _ htype SormType.noConfusion SormType.noConfusion)]
      have hpoints : ¬ (table.column i).PointsToText ↔ (table.column i).mem ≠ .heap :=
        not_congr (and_iff_right htype)
      rw [hpoints, and_comm, eq_comm]
  | double =>
      rw [and_iff_left (hother _ htype SormType.noConfusion)]
      rw [htype] at hheld
      rw [hrowId (hno _ htype SormType.noConfusion SormType.noConfusion), hheld]
      refine some_eq_ite_iff.trans ?_
      rw [DbValue.real.injEq]
      exact Iff.rfl
  | blob =>
      rw [and_iff_left (hother _ htype SormType.noConfusion),
        hrowId (hno _ htype SormType.noConfusion SormType.noConfusion)]
      exact eq_comm
  | unknown code =>
      rw [htype] at hsome
      cases hsome

/-- What a save that succeeds does to the object's columns. -/
theorem save_readAt {conn : Connection} {insertOrReplace : Text} {obj' : Object table} {s s' : Db}
    (hpk : table.pkIndex = some i) (hvalue : checkHasValue obj)
    (hok : o.run (save (some conn) (some obj) insertOrReplace) s = (.ok (.ok, some obj'), s')) :
    obj'.held i = (rowIdPointer (o.rowId.truncate 32) o.memory).readAt (table.column i) ∧
      ((rowIdPointer (o.rowId.truncate 32) o.memory).readAt (table.column i)).isSome ∧
      ((obj'.slots i).Dangles o.memory.address (table.column i) ↔ (table.column i).PointsToText) ∧
      ∀ j, j ≠ i → obj'.slots j = obj.slots j := by
  have hset := save_ok hvalue hok
  unfold Object.keySet at hset
  rw [hpk] at hset
  exact setColumnValue_readAt hset

/-- After a save that succeeds the object holds the key of the stored row, and the other columns are
as they were, exactly when the memory of `row_id` reads as that key and was copied. -/
theorem save_keeps_key_iff {conn : Connection} {insertOrReplace : Text} {obj' : Object table}
    {s s' : Db} (hpk : table.pkIndex = some i) (hvalue : checkHasValue obj)
    (hkey : KeyStored o obj i isRowId key)
    (hok : o.run (save (some conn) (some obj) insertOrReplace) s = (.ok (.ok, some obj'), s')) :
    (obj'.HoldsKey o i key ∧ ∀ j, j ≠ i → obj'.slots j = obj.slots j) ↔
      KeyKept o obj i isRowId := by
  obtain ⟨hheld, hsome, hdangles, hothers⟩ := save_readAt hpk hvalue hok
  rw [and_iff_left hothers, Object.HoldsKey, hheld, hdangles]
  exact readAt_eq_iff hkey hsome

end Key

def idIndex : deviceTable.Index := ⟨0, by decide⟩

theorem namedDevice_stored :
    KeyStored writingOutside namedDevice idIndex true (some (.integer 1)) where
  valued h := by cases h
  unvalued _ h := by cases h
  rowId _ := rfl
  type _ := Or.inl rfl
  ascending _ := SormConstraint.noConfusion
  fits _ _ := rfl

theorem save_keeps_key_iff_device :
    ∃ obj' s', writingOutside.run (save (some ⟨0, 0, 0⟩) (some namedDevice) "INSERT".toList)
        (.ofRows []) = (.ok (.ok, some obj'), s') ∧
      ((obj'.HoldsKey writingOutside idIndex (some (.integer 1)) ∧
          ∀ j, j ≠ idIndex → obj'.slots j = namedDevice.slots j) ↔
        KeyKept writingOutside namedDevice idIndex true) := by
  have hok : ∃ obj' s', writingOutside.run (save (some ⟨0, 0, 0⟩) (some namedDevice)
      "INSERT".toList) (.ofRows []) = (.ok (.ok, some obj'), s') := ⟨_, _, rfl⟩
  obtain ⟨obj', s', hok⟩ := hok
  exact ⟨obj', s', hok, save_keeps_key_iff rfl rfl namedDevice_stored hok⟩

def tagTable : TableDescriptor where
  name := "tag".toList
  size := 96
  columns := [⟨"name".toList, .text, .pk, .stack, 31, false, [], []⟩]
  pkIndex := some ⟨0, by decide⟩
  createSql := none

def tagIndex : tagTable.Index := ⟨0, by decide⟩

def namedTag : Object tagTable :=
  (Object.fresh tagTable).setSlot tagIndex { Slot.zero with stat := sormStatValued, chars := diskName }

theorem namedTag_stored :
    KeyStored writingOutside namedTag tagIndex false (some (.text diskName)) where
  valued _ := rfl
  unvalued h _ := absurd rfl h
  rowId h := by cases h
  type h := by cases h
  ascending h := by cases h
  fits h := by cases h

/-- The name of the first tag becomes the bytes of the row id. -/
theorem not_save_keeps_key : ¬ ∀ (o : Outside) (conn : Connection) (insertOrReplace : Text)
    (table : TableDescriptor) (obj obj' : Object table) (s s' : Db) (i : table.Index)
    (isRowId : Bool) (key : Option DbValue), table.pkIndex = some i → checkHasValue obj →
    KeyStored o obj i isRowId key →
    o.run (save (some conn) (some obj) insertOrReplace) s = (.ok (.ok, some obj'), s') →
    obj'.HoldsKey o i key ∧ ∀ j, j ≠ i → obj'.slots j = obj.slots j := by
  intro h
  have hok : ∃ obj' s', writingOutside.run (save (some ⟨0, 0, 0⟩) (some namedTag) "INSERT".toList)
      (.ofRows []) = (.ok (.ok, some obj'), s') := ⟨_, _, rfl⟩
  obtain ⟨obj', s', hok⟩ := hok
  have hkept := h _ _ _ _ _ _ _ _ tagIndex false _ rfl rfl namedTag_stored hok
  have hheld := (save_readAt rfl rfl hok).1
  have hdiffers : (rowIdPointer (writingOutside.rowId.truncate 32) writingOutside.memory).readAt
      (tagTable.column tagIndex) ≠ some (.text diskName) := by decide
  exact hdiffers (hheld.symm.trans hkept.1.1)

end Sorm
