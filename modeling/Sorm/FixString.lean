import Sorm.Types
import Sorm.Interaction

/-!
# Doubling single quotes

`_fix_string` on a byte memory. A location is an object and an offset in it, so the two buffers
can be apart or the same, and an access before or behind an object is still an access to some
location; all of them are recorded.
-/

namespace Sorm

open Interaction

abbrev Loc := ℕ × ℤ

def Loc.add (l : Loc) (k : ℤ) : Loc := (l.1, l.2 + k)

structure Memory where
  byte : Loc → Char
  reads : List Loc
  writes : List Loc

namespace Memory

def touch (m : Memory) (l : Loc) : Memory := { m with reads := m.reads ++ [l] }

def write (m : Memory) (l : Loc) (c : Char) : Memory :=
  { m with byte := Function.update m.byte l c, writes := m.writes ++ [l] }

def stringAt (m : Memory) (l : Loc) : ℕ → Text
  | 0 => []
  | n + 1 => if m.byte l = '\x00' then [] else m.byte l :: m.stringAt (l.add 1) n

end Memory

/-- The `while` loop: `string_len` and the quotes counted into `fixed_string_len`. The quote test
comes after `iter ++`. `size` is the size of the object that holds the string. -/
def countQuotes (m : Memory) (iter : Loc) (stringLen fixedStringLen : ℤ) :
    ℕ → Except Halt (Memory × Loc × ℤ × ℤ)
  | 0 => .error .undefined
  | size + 1 =>
      let m := m.touch iter
      if m.byte iter = '\x00' then .ok (m, iter, stringLen, fixedStringLen)
      else
        let iter := iter.add 1
        let m := m.touch iter
        countQuotes m iter (stringLen + 1)
          (if m.byte iter = '\'' then fixedStringLen + 1 else fixedStringLen) size

/-- The `for` loop: `copyBack m fixed iter (i + 1)` is the loop at index `i`, and it ends at 0. -/
def copyBack (m : Memory) (fixedString iter : Loc) : ℕ → Memory
  | 0 => m
  | i + 1 =>
      let m := ((m.touch iter).write (fixedString.add i) (m.byte iter)).touch iter
      if m.byte iter = '\'' then
        let m := (m.touch iter).write (fixedString.add (i - 1)) (m.byte iter)
        match i with
        | 0 => m
        | i + 1 => copyBack m fixedString (iter.add (-1)) i
      else copyBack m fixedString (iter.add (-1)) i

/-- `_fix_string`. The counters are of type `int`. -/
def fixString (m : Memory) (string fixedString : Loc) (len : ℤ) (size : ℕ) :
    Except Halt (SormError × Memory) := do
  let (m, iter, stringLen, quotes) ← countQuotes m string 0 0 size
  let fixedStringLen := quotes + stringLen
  if fixedStringLen > intMax then .error .undefined
  else if fixedStringLen ≥ len then return (.tooLong, m)
  else return (.ok, copyBack m fixedString iter (fixedStringLen + 1).toNat)

end Sorm
