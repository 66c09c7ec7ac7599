import Sorm.FixString
import Sorm.Statement

/-!
# Filters on one column

`_construct_column_filter` prints a column value into the text that follows `WHERE`.
-/

namespace Sorm

open Interaction

def printInt (v : ℤ) : Text :=
  if v < 0 then '-' :: Nat.toDigits 10 v.natAbs else Nat.toDigits 10 v.natAbs

def roundHalfEven (q : ℚ) : ℤ :=
  let f := q.floor
  let r := q - f
  if r < 1 / 2 then f else if 1 / 2 < r then f + 1 else if f % 2 = 0 then f else f + 1

/-- `%f`: six digits after the point. A negative value keeps its sign when it rounds to zero. -/
def printDouble (v : ℚ) : Text :=
  let n := (roundHalfEven (|v| * 10 ^ 6)).natAbs
  let fraction := Nat.toDigits 10 (n % 10 ^ 6)
  (if v < 0 then ['-'] else []) ++ Nat.toDigits 10 (n / 10 ^ 6) ++ ['.'] ++
    List.replicate (6 - fraction.length) '0' ++ fraction

def stringLoc : Loc := (0, 0)

def fixedBufLoc : Loc := (1, 0)

def Memory.ofString (s : CString) : Memory where
  byte l := if l.1 = stringLoc.1 ∧ 0 ≤ l.2 then s.chars.getD l.2.toNat '\x00' else '\x00'
  reads := []
  writes := []

/-- The `SORM_TYPE_TEXT` case of `_construct_column_filter`: the string in `fixed_buf`. Only the
characters that may fit into the filter are read from it. -/
def fixedText (s : CString) : Except Halt (SormError × Text) := do
  let (ret, m) ← fixString (.ofString s) stringLoc fixedBufLoc (sqlStmtMaxLen + 1)
    (s.chars.length + 1)
  return (ret, m.stringAt fixedBufLoc (sqlStmtMaxLen + 1))

def filterText (column : ColumnDescriptor) (columnValue : Pointer) :
    Except Halt (SormError × Text) :=
  match column.type with
  | .int => .ok (.ok, column.name ++ " = ".toList ++ printInt columnValue.int32.toInt)
  | .int64 => .ok (.ok, column.name ++ " = ".toList ++ printInt columnValue.int64.toInt)
  | .text => do
      let (ret, fixedBuf) ← fixedText columnValue.text
      return (ret, column.name ++ " = '".toList ++ fixedBuf ++ ['\''])
  | .double => .ok (.ok, column.name ++ " = ".toList ++ printDouble columnValue.double)
  | .blob | .unknown _ => .ok (.invalidType, [])

/-- `_construct_column_filter`: the error code and, when it is `SORM_OK`, the filter. -/
def constructColumnFilter (column : ColumnDescriptor) (columnValue : Pointer) :
    Except Halt (SormError × Text) := do
  let (ret, text) ← filterText column columnValue
  if ret ≠ .ok then return (ret, [])
  else if text.length > sqlStmtMaxLen then return (.tooLong, [])
  else return (.ok, text)

end Sorm
