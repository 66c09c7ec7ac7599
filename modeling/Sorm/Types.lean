import Mathlib.Data.List.TakeWhile
import Mathlib.Tactic

/-!
# Descriptors, objects and connections

The data types of `sorm.h`. A C `char` is a byte and is written as the character of that code, so
a C string is a list of characters without NUL. A `double` is the exact rational it stands for.
A pointer handed to the library is the record of what the memory behind it reads as, because the
code reads such memory at whatever type the column has.
-/

namespace Sorm

abbrev Text := List Char

structure CString where
  chars : Text
  noNul : '\x00' ∉ chars
deriving DecidableEq, Repr

namespace CString

def empty : CString := ⟨[], by simp⟩

def take (s : CString) (n : ℕ) : CString :=
  ⟨s.chars.take n, fun h => s.noNul (List.mem_of_mem_take h)⟩

def ofBytes (bytes : Text) : CString :=
  ⟨bytes.takeWhile (· != '\x00'), fun h => by simpa using List.mem_takeWhile_imp h⟩

end CString

inductive SormError
  | ok
  | nomem
  | dbError
  | tooLong
  | nopk
  | noexist
  | invalidNum
  | invalidColumnName
  | invalidMem
  | invalidType
  | argNull
  | columnsNameEmpty
  | filterEmpty
  | initFail
  | stringBufNotEnough
deriving DecidableEq, Repr

/-- `sorm_type_t`; `unknown` is a value outside of the enumeration. -/
inductive SormType
  | int
  | int64
  | text
  | double
  | blob
  | unknown (code : ℤ)
deriving DecidableEq, Repr

inductive SormMem
  | none
  | heap
  | stack
deriving DecidableEq, Repr

inductive SormConstraint
  | none
  | pk
  | pkAsc
  | pkDesc
  | unique
deriving DecidableEq, Repr

def sormIsUniqueColumn : SormConstraint → Bool
  | .pk | .pkAsc | .pkDesc | .unique => true
  | .none => false

inductive SormJoin
  | innerJoin
  | leftJoin
  | unknown (code : ℤ)
deriving DecidableEq, Repr

inductive RwlockFlag
  | read
  | write
deriving DecidableEq, Repr

def sqlStmtMaxLen : ℕ := 1023

def busyRetryTime : ℕ := 10

def intMax : ℕ := 2147483647

def sormEnableForeignKey : ℕ := 0x1

def sormEnableSemaphore : ℕ := 0x2

def sormEnableRwlock : ℕ := 0x4

def sormForeignKeyEnabled (flags : ℕ) : Bool :=
  (sormEnableForeignKey &&& flags) == sormEnableForeignKey

def sormSemaphoreEnabled (flags : ℕ) : Bool :=
  (sormEnableSemaphore &&& flags) == sormEnableSemaphore

def sormRwlockEnabled (flags : ℕ) : Bool :=
  (sormEnableRwlock &&& flags) == sormEnableRwlock

/-- `sorm_connection_t`, less the SQLite handle and the rwlock's address. The counter is an `int` that
never falls below 0. -/
structure Connection where
  transactionNum : ℕ
  semKey : ℤ
  flags : ℕ
deriving DecidableEq, Repr

structure ColumnDescriptor where
  name : Text
  type : SormType
  constraint : SormConstraint
  mem : SormMem
  maxLen : ℤ
  isForeignKey : Bool
  foreignTableName : Text
  foreignColumnName : Text
deriving DecidableEq, Repr

/-- `sorm_table_descriptor_t`; `none` for the key index is `SORM_NO_PK`. -/
structure TableDescriptor where
  name : Text
  size : ℕ
  columns : List ColumnDescriptor
  pkIndex : Option (Fin columns.length)
  createSql : Option Text

abbrev Address := ℕ

/-- What can be read through a `char *`: the string up to the first NUL, and the bytes. -/
structure CharPointer where
  address : Address
  text : CString
  bytes : ℕ → Char

/-- What can be read through a `void *`. A double is a rational number here, in objects as well:
infinities, NaN and -0.0 are left out. -/
structure Pointer extends CharPointer where
  int32 : BitVec 32
  int64 : BitVec 64
  double : ℚ

abbrev Stat := BitVec 32

def sormStatNull : Stat := 0x0

def sormStatValued : Stat := 0x1

def sormStatNeedfree : Stat := 0x2

def sormIsStat (stat checkStat : Stat) : Bool := stat &&& checkStat == checkStat

def sormIsStatValued (stat : Stat) : Bool := sormIsStat stat sormStatValued

def sormIsStatNeedfree (stat : Stat) : Bool := sormIsStat stat sormStatNeedfree

theorem sormIsStat_twoPow (stat : Stat) (i : ℕ) (hi : i < 32) :
    sormIsStat stat (BitVec.twoPow 32 i) ↔ stat.getLsbD i := by
  unfold sormIsStat
  rw [beq_iff_eq, BitVec.and_twoPow]
  split
  · next h => simp only [h]
  · next h =>
    refine iff_of_false ?_ h
    intro h0
    have hbit := congrArg (fun x => BitVec.getLsbD x i) h0
    simp [hi] at hbit

theorem sormIsStatValued_iff (stat : Stat) : sormIsStatValued stat ↔ stat.getLsbD 0 :=
  sormIsStat_twoPow stat 0 (by decide)

theorem sormIsStatNeedfree_iff (stat : Stat) : sormIsStatNeedfree stat ↔ stat.getLsbD 1 :=
  sormIsStat_twoPow stat 1 (by decide)

@[simp] theorem sormIsStatValued_or (stat addStat : Stat) :
    sormIsStatValued (stat ||| addStat) = (sormIsStatValued stat || sormIsStatValued addStat) := by
  rw [Bool.eq_iff_iff, Bool.or_eq_true]
  simp only [sormIsStatValued_iff, BitVec.getLsbD_or, Bool.or_eq_true]

@[simp] theorem sormIsStatNeedfree_or (stat addStat : Stat) :
    sormIsStatNeedfree (stat ||| addStat) =
      (sormIsStatNeedfree stat || sormIsStatNeedfree addStat) := by
  rw [Bool.eq_iff_iff, Bool.or_eq_true]
  simp only [sormIsStatNeedfree_iff, BitVec.getLsbD_or, Bool.or_eq_true]

/-- The members of one column in a generated struct. The value is kept once for each way the
library reads it; a column uses the one of its type and memory kind. -/
structure Slot where
  stat : Stat
  int32 : BitVec 32
  int64 : BitVec 64
  double : ℚ
  pointer : Option CharPointer
  chars : CString
  bytes : ℕ → Char
  blobLen : ℤ

def Slot.zero : Slot where
  stat := sormStatNull
  int32 := 0
  int64 := 0
  double := 0
  pointer := none
  chars := .empty
  bytes := fun _ => '\x00'
  blobLen := 0

namespace TableDescriptor

abbrev columnsNum (table : TableDescriptor) : ℕ := table.columns.length

abbrev Index (table : TableDescriptor) : Type := Fin table.columnsNum

def column (table : TableDescriptor) (i : table.Index) : ColumnDescriptor := table.columns.get i

def indexes (table : TableDescriptor) : List table.Index := List.finRange table.columnsNum

end TableDescriptor

structure Object (table : TableDescriptor) where
  slots : table.Index → Slot

namespace Object

variable {table : TableDescriptor} (obj : Object table)

def getColumnStat (i : table.Index) : Stat := (obj.slots i).stat

def valued (i : table.Index) : Bool := sormIsStatValued (obj.getColumnStat i)

def setSlot (i : table.Index) (slot : Slot) : Object table :=
  ⟨Function.update obj.slots i slot⟩

def addColumnStat (i : table.Index) (addStat : Stat) : Object table :=
  obj.setSlot i { obj.slots i with stat := obj.getColumnStat i ||| addStat }

def delColumnStat (i : table.Index) (delStat : Stat) : Object table :=
  obj.setSlot i { obj.slots i with stat := obj.getColumnStat i &&& ~~~delStat }

def setBlobLen (i : table.Index) (len : ℤ) : Object table :=
  obj.setSlot i { obj.slots i with blobLen := len }

@[simp] theorem setSlot_self (i : table.Index) (slot : Slot) :
    (obj.setSlot i slot).slots i = slot := Function.update_self ..

theorem setSlot_of_ne {i j : table.Index} (h : j ≠ i) (slot : Slot) :
    (obj.setSlot i slot).slots j = obj.slots j := Function.update_of_ne h ..

end Object
end Sorm
