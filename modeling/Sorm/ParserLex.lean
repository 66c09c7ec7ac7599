import Sorm.Interaction
import Sorm.Types

/-!
# The scanner of the generator

The rules of `parser_lex.l`: the longest match is taken, among matches of one length that of the
first rule, and a character that no rule matches is passed over.
-/

namespace Sorm

open Interaction

inductive Terminal
  | create
  | table
  | leftBracket
  | leftDash
  | rightBracket
  | rightDash
  | comma
  | integer
  | bigint
  | text
  | real
  | primaryKey
  | asc
  | desc
  | unique
  | name
  | number
  | foreignKey
  | references
  | blob
  | ignore
deriving DecidableEq, Repr

namespace ParserLex

def keywords : List (Text × Terminal) :=
  [("CREATE".toList, .create), ("TABLE".toList, .table), ("TEXT".toList, .text),
    ("INTEGER".toList, .integer), ("BIGINT".toList, .bigint), ("REAL".toList, .real),
    ("ASC".toList, .asc), ("DESC".toList, .desc), ("UNIQUE".toList, .unique),
    ("REFERENCES".toList, .references), ("BLOB".toList, .blob)]

def keyWords : List (Text × Terminal) :=
  [("PRIMARY".toList, .primaryKey), ("FOREIGN".toList, .foreignKey)]

def marks : List (Char × Terminal) :=
  [('\x7b', .leftBracket), ('(', .leftDash), ('\x7d', .rightBracket), (')', .rightDash),
    (',', .comma)]

def isNameChar (c : Char) : Bool := c.isLower || c = '_' || c.isDigit

def upperToken (z : Text) : Terminal × ℕ :=
  let word := z.takeWhile Char.isUpper
  match keyWords.lookup word with
  | some token =>
      if " KEY".toList.isPrefixOf (z.drop word.length) then (token, word.length + 4)
      else (.ignore, word.length)
  | none => ((keywords.lookup word).getD .ignore, word.length)

def nameToken (z : Text) : Terminal × ℕ :=
  let word := z.takeWhile isNameChar
  (if word.all Char.isDigit then .number else .name, word.length)

/-- The token at the head of a text, if a rule matches there, and the length of what is passed. -/
def scan (c : Char) (z : Text) : Option Terminal × ℕ :=
  if c.isUpper then
    let (token, length) := upperToken (c :: z)
    (some token, length)
  else if isNameChar c then
    let (token, length) := nameToken (c :: z)
    (some token, length)
  else (marks.lookup c, 1)

def isCopied (token : Terminal) : Bool := token = .name || token = .number

def copied (token : Terminal) (yytext : Text) : Text := if isCopied token then yytext else []

def lexeme (token : Option Terminal) (yytext : Text) : List (Terminal × Text) :=
  token.toList.map fun token => (token, yytext)

def lexemesFrom : ℕ → Text → List (Terminal × Text)
  | 0, _ => []
  | _ + 1, [] => []
  | fuel + 1, c :: z =>
      lexeme (scan c z).1 (c :: z.take ((scan c z).2 - 1)) ++
        lexemesFrom fuel (z.drop ((scan c z).2 - 1))

/-- The tokens of a text as they are spelled. -/
def lexemes (z : Text) : List (Terminal × Text) := lexemesFrom z.length z

def returned (token : Terminal × Text) : Terminal × Text := (token.1, copied token.1 token.2)

def yylex (z : Text) : List (Terminal × Text) := (lexemes z).map returned

theorem lexemesFrom_eq {fuel : ℕ} {z : Text} (h : z.length ≤ fuel) :
    lexemesFrom fuel z = lexemes z := by
  suffices hsame : ∀ fuel fuel' z, z.length ≤ fuel → z.length ≤ fuel' →
      lexemesFrom fuel z = lexemesFrom fuel' z from hsame fuel z.length z h le_rfl
  intro fuel
  induction fuel with
  | zero =>
      intro fuel' z hz hz'
      obtain rfl := List.eq_nil_of_length_eq_zero (Nat.le_zero.mp hz)
      cases fuel' <;> rfl
  | succ fuel ih =>
      intro fuel' z hz hz'
      cases z with
      | nil => cases fuel' <;> rfl
      | cons c z =>
          cases fuel' with
          | zero => simp at hz'
          | succ fuel' =>
              have hdrop : (z.drop ((scan c z).2 - 1)).length ≤ z.length := by simp
              simp only [List.length_cons] at hz hz'
              rw [lexemesFrom, lexemesFrom, ih fuel' _ (hdrop.trans (by omega))
                (hdrop.trans (by omega))]

/-- The tokens of a text from the match at its head. -/
theorem lexemes_cons (c : Char) (z : Text) :
    lexemes (c :: z) = lexeme (scan c z).1 (c :: z.take ((scan c z).2 - 1)) ++
      lexemes (z.drop ((scan c z).2 - 1)) := by
  have hrest : lexemesFrom z.length (z.drop ((scan c z).2 - 1)) =
      lexemes (z.drop ((scan c z).2 - 1)) := lexemesFrom_eq (by simp)
  change lexemesFrom (z.length + 1) (c :: z) = _
  rw [lexemesFrom, hrest]

@[simp] theorem yylex_nil : yylex [] = [] := rfl

theorem yylex_cons (c : Char) (z : Text) :
    yylex (c :: z) = (lexeme (scan c z).1 (c :: z.take ((scan c z).2 - 1))).map returned ++
      yylex (z.drop ((scan c z).2 - 1)) := by
  rw [yylex, lexemes_cons, List.map_append, yylex]

theorem isUpper_of_isNameChar {c : Char} (h : isNameChar c) : c.isUpper = false := by
  have hletters : 'A'.val.toNat = 65 ∧ 'Z'.val.toNat = 90 ∧ 'a'.val.toNat = 97 := ⟨rfl, rfl, rfl⟩
  have hdigit : '9'.val.toNat = 57 := rfl
  have hisLower : c.isLower = (decide (c.val ≥ 'a'.val) && decide (c.val ≤ 'z'.val)) := rfl
  have hisUpper : c.isUpper = (decide (c.val ≥ 'A'.val) && decide (c.val ≤ 'Z'.val)) :=
    Bool.decide_and _ _
  rw [isNameChar, Bool.or_eq_true, Bool.or_eq_true, decide_eq_true_eq] at h
  obtain (hlower | rfl) | hdigits := h
  · simp only [hisLower, Bool.and_eq_true, decide_eq_true_eq, ge_iff_le,
      UInt32.le_iff_toNat_le] at hlower
    simp only [hisUpper, Bool.and_eq_false_iff, decide_eq_false_iff_not, ge_iff_le,
      UInt32.le_iff_toNat_le]
    omega
  · rfl
  · simp only [Char.isDigit, Bool.and_eq_true, decide_eq_true_eq, ge_iff_le,
      UInt32.le_iff_toNat_le] at hdigits
    simp only [hisUpper, Bool.and_eq_false_iff, decide_eq_false_iff_not, ge_iff_le,
      UInt32.le_iff_toNat_le]
    omega

theorem isNameChar_of_isDigit {c : Char} (h : c.isDigit) : isNameChar c := by
  rw [isNameChar, h, Bool.or_true]

/-- A token that ends before `z`. -/
theorem yylex_token {c : Char} {a z : Text} {token : Terminal}
    (h : scan c (a ++ z) = (some token, a.length + 1)) :
    yylex (c :: (a ++ z)) = (token, copied token (c :: a)) :: yylex z := by
  rw [yylex_cons, h, Nat.add_sub_cancel, List.take_left, List.drop_left]
  rfl

/-- A character that no rule matches. -/
theorem scan_skip {c : Char} (z : Text) (hupper : c.isUpper = false) (hname : isNameChar c = false)
    (hmark : marks.lookup c = none) : scan c z = (none, 1) := by
  rw [scan, if_neg (by rw [hupper]; exact Bool.false_ne_true),
    if_neg (by rw [hname]; exact Bool.false_ne_true), hmark]

theorem yylex_skip {c : Char} (z : Text) (hupper : c.isUpper = false) (hname : isNameChar c = false)
    (hmark : marks.lookup c = none) : yylex (c :: z) = yylex z := by
  rw [yylex_cons, scan_skip z hupper hname hmark]
  rfl

/-- What a `char *` holds after an address was stored in the same place as an `int`. -/
def throughInt (address : Address) : Address := address % 2 ^ 32

/-- What the grammar reads behind `yylval`, which is an `int` to the scanner and a `char *` to the
grammar. The conversion of an address that does not fit is undefined. -/
def yylval (address : Address) (yytext : Text) : Except Halt Text :=
  if throughInt address = address then .ok yytext else .error .undefined

/-- The tokens the grammar receives, where the copies from the k-th on lie at `strdup k`. -/
def received (strdup : ℕ → Address) :
    ℕ → List (Terminal × Text) → Except Halt (List (Terminal × Text))
  | _, [] => .ok []
  | k, (token, text) :: rest =>
      if isCopied token then do
        let value ← yylval (strdup k) text
        let rest ← received strdup (k + 1) rest
        return (token, value) :: rest
      else do
        let rest ← received strdup k rest
        return (token, text) :: rest

def copies (tokens : List (Terminal × Text)) : ℕ := tokens.countP fun token => isCopied token.1

/-- The grammar receives every token as it was scanned, or the run is undefined. -/
theorem received_eq (strdup : ℕ → Address) (tokens : List (Terminal × Text)) (k : ℕ) :
    (received strdup k tokens = .ok tokens ∧
        ∀ j < copies tokens, throughInt (strdup (k + j)) = strdup (k + j)) ∨
      (received strdup k tokens = .error .undefined ∧
        ¬ ∀ j < copies tokens, throughInt (strdup (k + j)) = strdup (k + j)) := by
  induction tokens generalizing k with
  | nil => exact .inl ⟨rfl, fun j hj => absurd hj (Nat.not_lt_zero j)⟩
  | cons head rest ih =>
      obtain ⟨token, text⟩ := head
      rw [received]
      by_cases htoken : isCopied token
      · have hcopies : copies ((token, text) :: rest) = copies rest + 1 :=
          List.countP_cons_of_pos htoken
        rw [if_pos htoken, hcopies, yylval]
        by_cases hfits : throughInt (strdup k) = strdup k
        · rw [if_pos hfits]
          obtain ⟨hrest, hall⟩ | ⟨hrest, hall⟩ := ih (k + 1)
          · left
            refine ⟨by rw [hrest]; rfl, fun j hj => ?_⟩
            cases j with
            | zero => exact hfits
            | succ j =>
                have hnext := hall j (by omega)
                rwa [Nat.add_right_comm, Nat.add_assoc] at hnext
          · right
            refine ⟨by rw [hrest]; rfl, fun hevery => hall fun j hj => ?_⟩
            have hnext := hevery (j + 1) (by omega)
            rwa [Nat.add_comm j 1, ← Nat.add_assoc] at hnext
        · rw [if_neg hfits]
          exact .inr ⟨rfl, fun hevery => hfits (hevery 0 (Nat.succ_pos _))⟩
      · have hcopies : copies ((token, text) :: rest) = copies rest :=
          List.countP_cons_of_neg htoken
        rw [if_neg htoken, hcopies]
        obtain ⟨hrest, hall⟩ | ⟨hrest, hall⟩ := ih k
        · exact .inl ⟨by rw [hrest]; rfl, hall⟩
        · exact .inr ⟨by rw [hrest]; rfl, hall⟩

end ParserLex
end Sorm
