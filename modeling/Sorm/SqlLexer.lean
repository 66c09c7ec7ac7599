import Mathlib.Data.List.TakeWhile
import Mathlib.Tactic

/-!
# SQL tokens

The lexical rules of SQLite, on lists of byte characters: `getToken` is the length and type of the
token a text begins with, and `tokens` is the list of all of them without the white space and the
comments. A word is an identifier or a keyword; which of the two it is depends on the word alone.
The lemmas say what a text lexes to that begins with a word, a number, a quoted string or a
punctuation mark.
-/

namespace Sql

inductive TokenType
  | space
  | word
  | integer
  | float
  | string
  | blob
  | quotedId
  | variable
  | register
  | minus
  | lp
  | rp
  | semi
  | plus
  | star
  | slash
  | rem
  | eq
  | le
  | ne
  | lshift
  | lt
  | ge
  | rshift
  | gt
  | bitor
  | concat
  | comma
  | bitand
  | bitnot
  | dot
  | illegal
deriving DecidableEq, Repr

structure Token where
  type : TokenType
  text : List Char
deriving DecidableEq, Repr

def isSpace (c : Char) : Bool := c = ' ' || ('\t' ≤ c && c ≤ '\r')

def isIdChar (c : Char) : Bool := c.isAlphanum || c = '_' || c = '$' || 0x80 ≤ c.toNat

def isWordStart (c : Char) : Bool := c.isAlpha || c = '_' || 0x80 ≤ c.toNat

def isHexDigit (c : Char) : Bool := c.isDigit || ('a' ≤ c && c ≤ 'f') || ('A' ≤ c && c ≤ 'F')

def span (p : Char → Bool) (z : List Char) : ℕ := (z.takeWhile p).length

def charAt (z : List Char) (i : ℕ) : Char := z.getD i '\x00'

/-- The length of the rest of a quoted token up to its end; a doubled delimiter does not end it. -/
def quoted (delim : Char) : List Char → Option ℕ
  | [] => none
  | [c] => if c = delim then some 1 else none
  | c :: d :: z =>
      if c = delim then
        if d = delim then (quoted delim z).map (· + 2) else some 1
      else (quoted delim (d :: z)).map (· + 1)

def quotedToken (delim : Char) (z : List Char) : TokenType × ℕ :=
  match quoted delim z with
  | some n => (if delim = '\'' then .string else .quotedId, n + 1)
  | none => (.illegal, z.length + 1)

def fraction (z : List Char) (i : ℕ) : TokenType × ℕ :=
  if charAt z i = '.' then (.float, i + 1 + span Char.isDigit (z.drop (i + 1))) else (.integer, i)

def exponent (z : List Char) (number : TokenType × ℕ) : TokenType × ℕ :=
  let i := number.2
  if (charAt z i = 'e' ∨ charAt z i = 'E') ∧ ((charAt z (i + 1)).isDigit ∨
      (charAt z (i + 1) = '+' ∨ charAt z (i + 1) = '-') ∧ (charAt z (i + 2)).isDigit) then
    (.float, i + 2 + span Char.isDigit (z.drop (i + 2)))
  else number

def numberToken (z : List Char) : TokenType × ℕ :=
  let (type, i) := exponent z (fraction z (span Char.isDigit z))
  let k := span isIdChar (z.drop i)
  (if k = 0 then type else .illegal, i + k)

def blobToken (z : List Char) : TokenType × ℕ :=
  let i := span isHexDigit z
  if charAt z i = '\'' ∧ i % 2 = 0 then (.blob, i + 3)
  else
    let i := i + span (· != '\'') (z.drop i)
    (.illegal, if i < z.length then i + 3 else i + 2)

def variableName : List Char → ℕ → TokenType × ℕ
  | [], n => (if n = 0 then .illegal else .variable, 0)
  | c :: z, n =>
      if isIdChar c then
        let (type, k) := variableName z (n + 1)
        (type, k + 1)
      else if c = '(' ∧ 0 < n then
        let k := span (fun c => !isSpace c && c != ')') z
        if charAt z k = ')' then (.variable, k + 2) else (.illegal, k + 1)
      else
        match c, z with
        | ':', ':' :: z =>
            let (type, k) := variableName z n
            (type, k + 2)
        | _, _ => (if n = 0 then .illegal else .variable, 0)

def variableToken (z : List Char) : TokenType × ℕ :=
  let (type, k) := variableName z 0
  (type, k + 1)

def comment : List Char → ℕ
  | '*' :: '/' :: _ => 2
  | [] => 0
  | _ :: z => comment z + 1

def markToken (c : Char) (z : List Char) : TokenType × ℕ :=
  match c with
  | ' ' | '\t' | '\n' | '\x0c' | '\r' => (.space, span isSpace z + 1)
  | '-' => if charAt z 0 = '-' then (.space, span (· != '\n') (z.drop 1) + 2) else (.minus, 1)
  | '(' => (.lp, 1)
  | ')' => (.rp, 1)
  | ';' => (.semi, 1)
  | '+' => (.plus, 1)
  | '*' => (.star, 1)
  | '/' =>
      if charAt z 0 = '*' ∧ 1 < z.length then (.space, comment (z.drop 1) + 2) else (.slash, 1)
  | '%' => (.rem, 1)
  | '=' => (.eq, if charAt z 0 = '=' then 2 else 1)
  | '<' =>
      if charAt z 0 = '=' then (.le, 2)
      else if charAt z 0 = '>' then (.ne, 2)
      else if charAt z 0 = '<' then (.lshift, 2)
      else (.lt, 1)
  | '>' =>
      if charAt z 0 = '=' then (.ge, 2)
      else if charAt z 0 = '>' then (.rshift, 2)
      else (.gt, 1)
  | '!' => (if charAt z 0 = '=' then .ne else .illegal, 2)
  | '|' => if charAt z 0 = '|' then (.concat, 2) else (.bitor, 1)
  | ',' => (.comma, 1)
  | '&' => (.bitand, 1)
  | '~' => (.bitnot, 1)
  | '\'' => quotedToken '\'' z
  | '"' => quotedToken '"' z
  | '\x60' => quotedToken '\x60' z
  | '.' => if (charAt z 0).isDigit then numberToken (c :: z) else (.dot, 1)
  | '[' =>
      let k := span (· != ']') z
      if k < z.length then (.quotedId, k + 2) else (.illegal, k + 1)
  | '?' => (.variable, span Char.isDigit z + 1)
  | '#' =>
      if (charAt z 0).isDigit then (.register, span Char.isDigit z + 1) else variableToken z
  | '$' | '@' | ':' => variableToken z
  | _ => (.illegal, 1)

def getToken (c : Char) (z : List Char) : TokenType × ℕ :=
  if isWordStart c then
    if (c = 'x' ∨ c = 'X') ∧ charAt z 0 = '\'' then blobToken (z.drop 1)
    else (.word, span isIdChar z + 1)
  else if c.isDigit then numberToken (c :: z)
  else markToken c z

/-- The tokens of a text, at most `fuel` of them counting those left out. A token has at least one
character. -/
def tokensFrom : ℕ → List Char → List Token
  | 0, _ => []
  | _ + 1, [] => []
  | fuel + 1, c :: z =>
      let (type, n) := getToken c z
      let rest := tokensFrom fuel (z.drop (n - 1))
      if type = .space then rest else ⟨type, c :: z.take (n - 1)⟩ :: rest

def tokens (z : List Char) : List Token := tokensFrom z.length z

theorem tokensFrom_eq {fuel : ℕ} {z : List Char} (h : z.length ≤ fuel) :
    tokensFrom fuel z = tokens z := by
  suffices hsame : ∀ fuel fuel' z, z.length ≤ fuel → z.length ≤ fuel' →
      tokensFrom fuel z = tokensFrom fuel' z from hsame fuel z.length z h le_rfl
  intro fuel
  induction fuel with
  | zero =>
      intro fuel' z hz hz'
      obtain rfl := List.eq_nil_of_length_eq_zero (Nat.le_zero.mp hz)
      cases fuel' <;> rfl
  | succ fuel ih =>
      intro fuel' z hz hz'
      cases z with
      | nil => cases fuel' <;> rfl
      | cons c z =>
          cases fuel' with
          | zero => simp at hz'
          | succ fuel' =>
              have hdrop : (z.drop ((getToken c z).2 - 1)).length ≤ z.length := by simp
              simp only [List.length_cons] at hz hz'
              unfold tokensFrom
              simp only [ih fuel' _ (hdrop.trans (by omega)) (hdrop.trans (by omega))]

@[simp] theorem tokens_nil : tokens [] = [] := rfl

/-- What a text lexes to once its first token is known. -/
theorem tokens_of_getToken {c : Char} {a z : List Char} {type : TokenType}
    (h : getToken c (a ++ z) = (type, a.length + 1)) :
    tokens (c :: (a ++ z)) = if type = .space then tokens z else ⟨type, c :: a⟩ :: tokens z := by
  have hrest : tokensFrom (a ++ z).length z = tokens z := tokensFrom_eq (by simp)
  change tokensFrom ((a ++ z).length + 1) (c :: (a ++ z)) = _
  unfold tokensFrom
  rw [h]
  simp only [Nat.add_sub_cancel, List.drop_left, List.take_left, hrest]

theorem span_append {p : Char → Bool} {a b : List Char} (ha : ∀ c ∈ a, p c)
    (hb : ∀ c, b.head? = some c → ¬ p c) : span p (a ++ b) = a.length := by
  unfold span
  rw [List.takeWhile_append_of_pos ha]
  cases b with
  | nil => simp
  | cons c b =>
      have hc : ¬ p c := hb c rfl
      simp [hc]

theorem not_isWordStart_of_isDigit {c : Char} (h : c.isDigit) : isWordStart c = false := by
  simp only [Char.isDigit, Bool.and_eq_true, decide_eq_true_eq, ge_iff_le,
    UInt32.le_iff_toNat_le] at h
  have hnat : c.val.toNat = c.toNat := rfl
  have hdigits : '0'.val.toNat = 48 ∧ '9'.val.toNat = 57 := ⟨rfl, rfl⟩
  have hletters : 'A'.val.toNat = 65 ∧ 'a'.val.toNat = 97 := ⟨rfl, rfl⟩
  have hunderscore : c ≠ '_' := by
    rintro rfl
    exact absurd h.2 (by decide)
  have halpha : c.isAlpha = false := by
    have hisLower : c.isLower = (decide (c.val ≥ 'a'.val) && decide (c.val ≤ 'z'.val)) := rfl
    have hisUpper : c.isUpper = (decide (c.val ≥ 'A'.val) && decide (c.val ≤ 'Z'.val)) :=
      Bool.decide_and _ _
    have hisAlpha : c.isAlpha = (c.isUpper || c.isLower) := rfl
    simp only [hisAlpha, hisUpper, hisLower, Bool.or_eq_false_iff,
      Bool.and_eq_false_iff, decide_eq_false_iff_not, ge_iff_le, UInt32.le_iff_toNat_le]
    omega
  simp only [isWordStart, halpha, hunderscore, decide_false, Bool.or_self, Bool.false_or,
    decide_eq_false_iff_not]
  omega

def EndsWord (z : List Char) : Prop := ∀ c, z.head? = some c → isIdChar c = false

theorem tokens_word {c : Char} {a z : List Char} (hc : isWordStart c) (ha : ∀ d ∈ a, isIdChar d)
    (hz : EndsWord z) (hblob : z.head? ≠ some '\'') :
    tokens (c :: (a ++ z)) = ⟨.word, c :: a⟩ :: tokens z := by
  have hspan : span isIdChar (a ++ z) = a.length :=
    span_append ha fun d hd => by simp [hz d hd]
  have hget : getToken c (a ++ z) = (.word, a.length + 1) := by
    have hquote : charAt (a ++ z) 0 ≠ '\'' := by
      cases a with
      | nil =>
          cases z with
          | nil => decide
          | cons d z => simpa [charAt] using hblob
      | cons d a =>
          have hd := ha d List.mem_cons_self
          rintro heq
          have : d = '\'' := heq
          subst this
          exact absurd hd (by decide)
    unfold getToken
    rw [if_pos hc, if_neg fun h => hquote h.2, hspan]
  rw [tokens_of_getToken hget]
  rfl

theorem tokens_digits {c : Char} {a z : List Char} (hc : c.isDigit) (ha : ∀ d ∈ a, d.isDigit)
    (hz : EndsWord z) (hdot : z.head? ≠ some '.') :
    tokens (c :: (a ++ z)) = ⟨.integer, c :: a⟩ :: tokens z := by
  have hend : ∀ d, z.head? = some d → ¬ d.isDigit := by
    intro d hd hdigit
    have hid := hz d hd
    simp [isIdChar, Char.isAlphanum, hdigit] at hid
  have hspan : span Char.isDigit (c :: (a ++ z)) = a.length + 1 :=
    span_append (a := c :: a) (by simpa [hc] using ha) hend
  have hcharAt : charAt (c :: (a ++ z)) (a.length + 1) = charAt z 0 := by
    simp [charAt, List.getD, List.getElem?_append_right]
  have hdrop : (c :: (a ++ z)).drop (a.length + 1) = z := by simp
  have hnext : ∀ d, charAt z 0 = d → d ≠ '\x00' → z.head? = some d := by
    intro d hd hne
    cases z with
    | nil => exact absurd hd.symm hne
    | cons e z => exact congrArg some hd
  have hfraction : fraction (c :: (a ++ z)) (a.length + 1) = (.integer, a.length + 1) := by
    unfold fraction
    rw [hcharAt, if_neg]
    exact fun h => hdot (hnext _ h (by decide))
  have hexponent : exponent (c :: (a ++ z)) (.integer, a.length + 1) =
      (.integer, a.length + 1) := by
    unfold exponent
    dsimp only
    rw [hcharAt, if_neg]
    rintro ⟨h | h, -⟩
    · exact absurd (hz _ (hnext _ h (by decide))) (by decide)
    · exact absurd (hz _ (hnext _ h (by decide))) (by decide)
  have hword : span isIdChar z = 0 :=
    span_append (a := []) (by simp) fun d hd => by simp [hz d hd]
  have hget : getToken c (a ++ z) = (.integer, a.length + 1) := by
    unfold getToken numberToken
    rw [not_isWordStart_of_isDigit hc, hc, hspan, hfraction, hexponent]
    simp [hdrop, hword]
  rw [tokens_of_getToken hget]
  rfl

theorem tokens_space {z : List Char} (hz : ∀ c, z.head? = some c → ¬ isSpace c) :
    tokens (' ' :: z) = tokens z := by
  have hspan : span isSpace z = 0 := span_append (a := []) (by simp) hz
  have hget : getToken ' ' ([] ++ z) = (.space, ([] : List Char).length + 1) := by
    change (TokenType.space, span isSpace z + 1) = _
    rw [hspan]
    rfl
  exact tokens_of_getToken hget

theorem charAt_zero_ne {c : Char} {z : List Char} (hc : c ≠ '\x00') (hz : z.head? ≠ some c) :
    charAt z 0 ≠ c := by
  cases z with
  | nil => exact fun h => hc h.symm
  | cons d z => exact fun h => hz (congrArg some h)

theorem tokens_eq {z : List Char} (hz : z.head? ≠ some '=') :
    tokens ('=' :: z) = ⟨.eq, ['=']⟩ :: tokens z := by
  have hget : getToken '=' ([] ++ z) = (.eq, ([] : List Char).length + 1) := by
    change (TokenType.eq, if charAt z 0 = '=' then 2 else 1) = _
    rw [if_neg (charAt_zero_ne (by decide) hz)]
    rfl
  exact tokens_of_getToken hget

theorem tokens_minus {z : List Char} (hz : z.head? ≠ some '-') :
    tokens ('-' :: z) = ⟨.minus, ['-']⟩ :: tokens z := by
  have hget : getToken '-' ([] ++ z) = (.minus, ([] : List Char).length + 1) := by
    change (if charAt z 0 = '-' then _ else _) = _
    rw [if_neg (charAt_zero_ne (by decide) hz)]
    rfl
  exact tokens_of_getToken hget

def doubled (delim : Char) (s : List Char) : List Char :=
  s.flatMap fun c => if c = delim then [delim, delim] else [c]

section Quoted

variable {delim : Char}

theorem doubled_cons_self (s : List Char) :
    doubled delim (delim :: s) = delim :: delim :: doubled delim s := by
  simp [doubled]

theorem doubled_cons_of_ne {c : Char} (hc : c ≠ delim) (s : List Char) :
    doubled delim (c :: s) = c :: doubled delim s := by
  simp [doubled, hc]

theorem quoted_end {z : List Char} (hz : z.head? ≠ some delim) :
    quoted delim (delim :: z) = some 1 := by
  cases z with
  | nil => simp [quoted]
  | cons d z =>
      have hd : d ≠ delim := fun h => hz (by rw [h]; rfl)
      simp [quoted, hd]

theorem quoted_twice (z : List Char) :
    quoted delim (delim :: delim :: z) = (quoted delim z).map (· + 2) := by
  simp [quoted]

theorem quoted_cons_of_ne {c : Char} (hc : c ≠ delim) (z : List Char) :
    quoted delim (c :: z) = (quoted delim z).map (· + 1) := by
  cases z with
  | nil => simp [quoted, hc]
  | cons d z => simp [quoted, hc]

theorem quoted_doubled (s : List Char) {z : List Char} (hz : z.head? ≠ some delim) :
    quoted delim (doubled delim s ++ delim :: z) = some ((doubled delim s).length + 1) := by
  induction s with
  | nil => exact quoted_end hz
  | cons c s ih =>
      by_cases hc : c = delim
      · subst hc
        rw [doubled_cons_self, List.cons_append, List.cons_append, quoted_twice, ih]
        rfl
      · rw [doubled_cons_of_ne hc, List.cons_append, quoted_cons_of_ne hc, ih]
        rfl

/-- Wherever a quoted token ends, what stands before is a text with its delimiters doubled. -/
theorem quoted_eq_some {z : List Char} {n : ℕ} (h : quoted delim z = some n) :
    ∃ s rest, z = doubled delim s ++ delim :: rest ∧ rest.head? ≠ some delim ∧
      n = (doubled delim s).length + 1 := by
  induction hlen : z.length using Nat.strong_induction_on generalizing z n with
  | h len ih =>
    cases z with
    | nil => cases h
    | cons c z =>
      simp only [List.length_cons] at hlen
      by_cases hc : c = delim
      · subst hc
        by_cases hz : z.head? = some c
        · obtain ⟨z', rfl⟩ : ∃ z', z = c :: z' := by
            cases z with
            | nil => cases hz
            | cons d z' =>
                cases hz
                exact ⟨z', rfl⟩
          rw [quoted_twice] at h
          obtain ⟨k, hk, rfl⟩ := Option.map_eq_some_iff.mp h
          simp only [List.length_cons] at hlen
          obtain ⟨s, rest, rfl, hrest, rfl⟩ := ih z'.length (by omega) hk rfl
          refine ⟨c :: s, rest, ?_, hrest, ?_⟩
          · rw [doubled_cons_self, List.cons_append, List.cons_append]
          · simp [doubled_cons_self]
        · rw [quoted_end hz] at h
          cases h
          exact ⟨[], z, rfl, hz, rfl⟩
      · rw [quoted_cons_of_ne hc] at h
        obtain ⟨k, hk, rfl⟩ := Option.map_eq_some_iff.mp h
        obtain ⟨s, rest, rfl, hrest, rfl⟩ := ih z.length (by omega) hk rfl
        refine ⟨c :: s, rest, ?_, hrest, ?_⟩
        · rw [doubled_cons_of_ne hc, List.cons_append]
        · simp [doubled_cons_of_ne hc]

end Quoted

theorem tokens_string (s : List Char) {z : List Char} (hz : z.head? ≠ some '\'') :
    tokens ('\'' :: (doubled '\'' s ++ '\'' :: z)) =
      ⟨.string, '\'' :: (doubled '\'' s ++ ['\''])⟩ :: tokens z := by
  have hget : getToken '\'' ((doubled '\'' s ++ ['\'']) ++ z) =
      (.string, (doubled '\'' s ++ ['\'']).length + 1) := by
    have hquoted := quoted_doubled s hz
    rw [List.append_assoc]
    change quotedToken '\'' _ = _
    unfold quotedToken
    rw [List.singleton_append, hquoted]
    simp
  have htokens := tokens_of_getToken hget
  rw [List.append_assoc, List.singleton_append] at htokens
  rw [htokens]
  rfl

def dequoteFrom (delim : Char) : List Char → List Char
  | [] => []
  | [c] => if c = delim then [] else [c]
  | c :: d :: z =>
      if c = delim then
        if d = delim then delim :: dequoteFrom delim z else []
      else c :: dequoteFrom delim (d :: z)

def dequote : List Char → List Char
  | [] => []
  | c :: z =>
      if c = '\'' ∨ c = '"' ∨ c = '\x60' then dequoteFrom c z
      else if c = '[' then dequoteFrom ']' z
      else c :: z

theorem dequoteFrom_doubled {delim : Char} (s : List Char) {z : List Char}
    (hz : z.head? ≠ some delim) : dequoteFrom delim (doubled delim s ++ delim :: z) = s := by
  induction s with
  | nil =>
      cases z with
      | nil => simp [doubled, dequoteFrom]
      | cons d z =>
          have hd : d ≠ delim := fun h => hz (by rw [h]; rfl)
          simp [doubled, dequoteFrom, hd]
  | cons c s ih =>
      by_cases hc : c = delim
      · subst hc
        rw [doubled_cons_self]
        simp [dequoteFrom, ih]
      · rw [doubled_cons_of_ne hc]
        cases hs : doubled delim s ++ delim :: z with
        | nil => simp at hs
        | cons d t =>
            rw [hs] at ih
            rw [List.cons_append, hs]
            simp [dequoteFrom, hc, ih]

inductive Literal
  | integer (v : ℤ)
  | text (s : List Char)
deriving DecidableEq, Repr

def literal : List Token → Option Literal
  | [⟨.integer, digits⟩] => some (.integer (Nat.ofDigitChars 10 digits 0))
  | [⟨.minus, _⟩, ⟨.integer, digits⟩] => some (.integer (-(Nat.ofDigitChars 10 digits 0 : ℤ)))
  | [⟨.string, text⟩] => some (.text (dequote text))
  | _ => none

/-- A string literal for `s` is as long as `s` with its quotes doubled, and its two delimiters. -/
theorem length_of_literal_text {z s : List Char}
    (hs : literal (tokens ('\'' :: z)) = some (.text s)) : (doubled '\'' s).length < z.length := by
  cases hquoted : quoted '\'' z with
  | none =>
      have hget : getToken '\'' (z ++ []) = (.illegal, z.length + 1) := by
        rw [List.append_nil]
        change quotedToken '\'' z = _
        unfold quotedToken
        rw [hquoted]
      have htokens := tokens_of_getToken hget
      rw [List.append_nil] at htokens
      rw [htokens] at hs
      cases hs
  | some n =>
      obtain ⟨s', rest, rfl, hrest, -⟩ := quoted_eq_some hquoted
      rw [tokens_string s' hrest] at hs
      have hs' : s' = s := by
        have hdequote : dequote ('\'' :: (doubled '\'' s' ++ ['\''])) = s' :=
          dequoteFrom_doubled s' (by simp)
        cases htail : tokens rest with
        | nil =>
            rw [htail] at hs
            simp only [literal, Option.some.injEq, Literal.text.injEq] at hs
            exact hdequote.symm.trans hs
        | cons t ts =>
            rw [htail] at hs
            cases hs
      subst hs'
      simp

/-- An ASCII letter or an underscore, followed by letters, digits and underscores. -/
def plainIdentifier : List Char → Bool
  | [] => false
  | c :: z => (c.isAlpha || c = '_') && z.all fun c => c.isAlphanum || c = '_'

theorem tokens_identifier {s z : List Char} (hs : plainIdentifier s) (hz : EndsWord z)
    (hquote : z.head? ≠ some '\'') : tokens (s ++ z) = ⟨.word, s⟩ :: tokens z := by
  cases s with
  | nil => cases hs
  | cons c s =>
      simp only [plainIdentifier, Bool.and_eq_true, List.all_eq_true] at hs
      apply tokens_word
      · simp [isWordStart, hs.1]
      · intro d hd
        simp [isIdChar, hs.2 d hd]
      · exact hz
      · exact hquote

example : tokens "a=?, b >= 'it''s' -- x".toList =
    [⟨.word, ['a']⟩, ⟨.eq, ['=']⟩, ⟨.variable, ['?']⟩, ⟨.comma, [',']⟩, ⟨.word, ['b']⟩,
      ⟨.ge, ['>', '=']⟩, ⟨.string, "'it''s'".toList⟩] := by decide

end Sql
