import Mathlib.Data.List.Basic
import Mathlib.Tactic

/-!
# A memory of bytes

Writes of byte sequences and little-endian words. A write changes the bytes of its range only.
-/

namespace ByteMemory

abbrev Byte := BitVec 8

abbrev Memory := ℕ → Byte

def write (mem : Memory) (a : ℕ) (bytes : List Byte) : Memory := fun k =>
  if a ≤ k ∧ k < a + bytes.length then bytes.getD (k - a) 0 else mem k

def wordBytes {n : ℕ} (word : BitVec n) (count : ℕ) : List Byte :=
  (List.range count).map fun k => word.extractLsb' (8 * k) 8

def load (mem : Memory) (a : ℕ) : (count : ℕ) → BitVec (8 * count)
  | 0 => 0
  | count + 1 => (mem (a + count) ++ load mem a count).cast (by omega)

@[simp] theorem length_wordBytes {n : ℕ} (word : BitVec n) (count : ℕ) :
    (wordBytes word count).length = count := by
  rw [wordBytes, List.length_map, List.length_range]

/-- The bytes from `lo` up to `hi` are the only ones that differ. -/
def ChangesOnly (mem mem' : Memory) (lo hi : ℕ) : Prop :=
  ∀ k, k < lo ∨ hi ≤ k → mem' k = mem k

def SameOn (mem mem' : Memory) (a count : ℕ) : Prop :=
  ∀ k, a ≤ k → k < a + count → mem' k = mem k

theorem ChangesOnly.refl (mem : Memory) (lo hi : ℕ) : ChangesOnly mem mem lo hi :=
  fun _ _ => rfl

theorem ChangesOnly.trans {mem mem' mem'' : Memory} {lo hi : ℕ} (h : ChangesOnly mem mem' lo hi)
    (h' : ChangesOnly mem' mem'' lo hi) : ChangesOnly mem mem'' lo hi :=
  fun k hk => (h' k hk).trans (h k hk)

theorem write_of_outside {a k : ℕ} {bytes : List Byte} (h : k < a ∨ a + bytes.length ≤ k)
    (mem : Memory) : write mem a bytes k = mem k :=
  if_neg (by omega)

theorem write_of_inside {a k : ℕ} {bytes : List Byte} (ha : a ≤ k) (h : k < a + bytes.length)
    (mem : Memory) : write mem a bytes k = bytes.getD (k - a) 0 :=
  if_pos ⟨ha, h⟩

theorem write_changesOnly {a lo hi : ℕ} {bytes : List Byte} (hlo : lo ≤ a)
    (hhi : a + bytes.length ≤ hi) (mem : Memory) : ChangesOnly mem (write mem a bytes) lo hi :=
  fun _ _ => write_of_outside (by omega) mem

theorem ChangesOnly.sameOn {mem mem' : Memory} {lo hi a count : ℕ} (h : ChangesOnly mem mem' lo hi)
    (hrange : a + count ≤ lo ∨ hi ≤ a) : SameOn mem mem' a count :=
  fun k _ _ => h k (by omega)

end ByteMemory
