import Mathlib.Data.List.ReduceOption
import Sorm.Transducers

/-!
# String literals of C

A text is read from behind the quote that opens a string literal: the characters that the literal
and the ones adjacent to it denote, up to the token behind the last of them. White space and
comments may stand between two literals. An escape sequence for which C gives no value, and a line
that ends within a literal, are not read.
-/

namespace CLiterals

inductive LiteralState
  | chars
  | backslash
  | octal (digits value : ℕ)
  | hex (value : Option ℕ)
  | universal (left value : ℕ)
  | closed
  | slash
  | line
  | comment
  | star
  /-- The first character of the token behind the literals. -/
  | ended (c : Char)
deriving DecidableEq, Repr

/-- The characters that are denoted; `none` where one literal ends and the next begins. -/
abbrev Denoted := List (Option Char)

def simpleEscapes : List (Char × Char) :=
  [('"', '"'), ('\\', '\\'), (Char.ofNat 39, Char.ofNat 39), ('?', '?'), ('a', '\x07'),
    ('b', '\x08'), ('f', '\x0c'), ('n', '\n'), ('r', '\r'), ('t', '\t'), ('v', '\x0b')]

def octalDigit (c : Char) : Option ℕ := "01234567".toList.zipIdx.lookup c

def hexDigits : List (Char × ℕ) :=
  "0123456789".toList.zipIdx ++ "abcdef".toList.zipIdx 10 ++ "ABCDEF".toList.zipIdx 10

def hexDigit (c : Char) : Option ℕ := hexDigits.lookup c

/-- A numeric escape sequence is one for a value of an `unsigned char`. -/
def byteChar (value : ℕ) : Option Char := if value < 256 then some (Char.ofNat value) else none

/-- The characters that have a universal name. -/
def universalChar (value : ℕ) : Option Char :=
  if (value = 0x24 ∨ value = 0x40 ∨ value = 0x60 ∨ 0xA0 ≤ value) ∧ value.isValidChar then
    some (Char.ofNat value)
  else none

def stepChars (c : Char) : Option (Denoted × LiteralState) :=
  if c = '"' then some ([], .closed)
  else if c = '\\' then some ([], .backslash)
  else if c = '\n' then none
  else some ([some c], .chars)

def stepEscape (c : Char) : Option (Denoted × LiteralState) :=
  match simpleEscapes.lookup c with
  | some value => some ([some value], .chars)
  | none =>
      match octalDigit c with
      | some digit => some ([], .octal 1 digit)
      | none =>
          if c = 'x' then some ([], .hex none)
          else if c = 'u' then some ([], .universal 4 0)
          else if c = 'U' then some ([], .universal 8 0)
          else none

/-- A character behind an escape sequence that it ends. -/
def stepBehind (value : ℕ) (c : Char) : Option (Denoted × LiteralState) :=
  (byteChar value).bind fun denoted => (stepChars c).map fun r => (some denoted :: r.1, r.2)

def stepOctal (digits value : ℕ) (c : Char) : Option (Denoted × LiteralState) :=
  match if digits < 3 then octalDigit c else none with
  | some digit => some ([], .octal (digits + 1) (8 * value + digit))
  | none => stepBehind value c

def stepHex (value : ℕ) (c : Char) : Option (Denoted × LiteralState) :=
  match hexDigit c with
  | some digit => some ([], .hex (some (16 * value + digit)))
  | none => stepBehind value c

def stepUniversal (left value digit : ℕ) : Option (Denoted × LiteralState) :=
  if left ≤ 1 then (universalChar (16 * value + digit)).map fun c => ([some c], .chars)
  else some ([], .universal (left - 1) (16 * value + digit))

def isWhite (c : Char) : Bool := c = ' ' || c = '\t' || c = '\n' || c = '\x0b' || c = '\x0c'

def stepClosed (c : Char) : Denoted × LiteralState :=
  if isWhite c then ([], .closed)
  else if c = '"' then ([none], .chars)
  else if c = '/' then ([], .slash)
  else ([], .ended c)

def literalStep : LiteralState → Char → Option (Denoted × LiteralState)
  | .chars, c => stepChars c
  | .backslash, c => stepEscape c
  | .octal digits value, c => stepOctal digits value c
  | .hex none, c => (hexDigit c).map fun digit => ([], .hex (some digit))
  | .hex (some value), c => stepHex value c
  | .universal left value, c => (hexDigit c).bind (stepUniversal left value)
  | .closed, c => some (stepClosed c)
  | .slash, c =>
      some ([], if c = '*' then .comment else if c = '/' then .line else .ended '/')
  | .line, c => some ([], if c = '\n' then .closed else .line)
  | .comment, c => some ([], if c = '*' then .star else .comment)
  | .star, c => some ([], if c = '/' then .closed else if c = '*' then .star else .comment)
  | .ended c', _ => some ([], .ended c')

def literalFinish : LiteralState → Option Denoted
  | .closed | .ended _ => some []
  | _ => none

def literals : Transducer LiteralState Char (Option Char) := ⟨.chars, literalStep, literalFinish⟩

@[simp] theorem literals_step : literals.step = literalStep := rfl

/-- The string is what is denoted up to the first NUL. -/
def cString (denoted : Denoted) : List Char := denoted.reduceOption.takeWhile (· ≠ '\x00')

@[simp] theorem run_ended (c : Char) (z : List Char) :
    literals.run (.ended c) z = some ([], .ended c) := by
  induction z with
  | nil => rfl
  | cons c' z ih =>
      have hstep : literals.step (.ended c) c' = some ([], .ended c) := rfl
      rw [Transducer.run, hstep, Option.bind_some, ih]
      rfl

theorem passes_behind {c : Char} (h : stepClosed c = ([], .ended c)) (z : List Char) :
    literals.Passes .closed (c :: z) [] (.ended c) := by
  have hstep : literals.step .closed c = some ([], .ended c) := congrArg some h
  exact Transducer.Passes.cons hstep (run_ended c z)

end CLiterals
