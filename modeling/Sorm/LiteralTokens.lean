import Sorm.ParserLex
import Sorm.StringLiterals

/-!
# Tokens in string literals

What the scanner of the generator reads in a text and in the string that the text denotes between
two quotes. A string has no more characters of tokens than its source. If it has as many, the tokens
of the source are those of the literals one by one.
-/

namespace Sorm

open ParserLex CLiterals

/-- A character that some rule of the scanner matches wherever it stands. -/
def isTokenChar (c : Char) : Bool := c.isUpper || isNameChar c || (marks.lookup c).isSome

def tokenChars (z : Text) : ℕ := z.countP isTokenChar

theorem scan_of_not_tokenChar {c : Char} (h : isTokenChar c = false) (z : Text) :
    scan c z = (none, 1) := by
  rw [isTokenChar, Bool.or_eq_false_iff, Bool.or_eq_false_iff] at h
  obtain ⟨⟨hupper, hname⟩, hmark⟩ := h
  exact scan_skip z hupper hname (Option.not_isSome_iff_eq_none.mp (Bool.not_eq_true _ ▸ hmark))

theorem scan_of_tokenChar {c : Char} (h : isTokenChar c) (z : Text) :
    ∃ token, (scan c z).1 = some token := by
  by_cases hupper : c.isUpper
  · exact ⟨(upperToken (c :: z)).1, by rw [scan, if_pos hupper]⟩
  · by_cases hname : isNameChar c
    · exact ⟨(nameToken (c :: z)).1, by rw [scan, if_neg hupper, if_pos hname]⟩
    · rw [isTokenChar, Bool.or_eq_true, Bool.or_eq_true] at h
      obtain (h | h) | h := h
      · exact absurd h hupper
      · exact absurd h hname
      · obtain ⟨token, htoken⟩ := Option.isSome_iff_exists.mp h
        exact ⟨token, by rw [scan, if_neg hupper, if_neg hname, htoken]⟩

theorem lexemes_skip {c : Char} (h : isTokenChar c = false) (z : Text) :
    lexemes (c :: z) = lexemes z := by
  rw [lexemes_cons, scan_of_not_tokenChar h]
  rfl

/-- Every such character of a text stands in one of its tokens. -/
theorem tokenChars_lexemes (z : Text) :
    ((lexemes z).map fun token => tokenChars token.2).sum = tokenChars z := by
  induction hlength : z.length using Nat.strong_induction_on generalizing z with
  | _ n ih =>
      cases z with
      | nil => rfl
      | cons c z =>
          have hrest := ih (z.drop ((scan c z).2 - 1)).length
            (by rw [List.length_drop, ← hlength, List.length_cons]; omega) _ rfl
          by_cases hc : isTokenChar c
          · obtain ⟨token, htoken⟩ := scan_of_tokenChar hc z
            have hcut : tokenChars (c :: z) = tokenChars (c :: z.take ((scan c z).2 - 1)) +
                tokenChars (z.drop ((scan c z).2 - 1)) := by
              rw [tokenChars, tokenChars, tokenChars, ← List.countP_append, List.cons_append,
                List.take_append_drop]
            rw [lexemes_cons, List.map_append, List.sum_append, hrest, htoken, hcut]
            simp [lexeme]
          · rw [Bool.not_eq_true] at hc
            rw [lexemes_skip hc, tokenChars, List.countP_cons_of_neg (by rw [hc]; decide)]
            rw [scan_of_not_tokenChar hc] at hrest
            exact hrest

theorem lexemes_of_none {z : Text} (h : tokenChars z = 0) : lexemes z = [] := by
  induction z with
  | nil => rfl
  | cons c z ih =>
      obtain ⟨hc, hz⟩ := List.forall_mem_cons.mp (List.countP_eq_zero.mp h)
      rw [lexemes_skip (Bool.not_eq_true _ ▸ hc), ih (List.countP_eq_zero.mpr hz)]

theorem scan_length (c : Char) (z : Text) : (scan c z).2 ≤ z.length + 1 := by
  have hword : ∀ p : Char → Bool, ((c :: z).takeWhile p).length ≤ z.length + 1 := fun p =>
    (List.takeWhile_prefix p).length_le
  rw [scan]
  split_ifs
  · rw [upperToken]
    dsimp only
    split
    · split_ifs with hkey
      · have hlength := (List.isPrefixOf_iff_prefix.mp hkey).length_le
        have hle := hword Char.isUpper
        rw [List.length_drop, List.length_cons] at hlength
        simp only [String.length_toList] at hlength
        have hfour : " KEY".length = 4 := rfl
        dsimp only
        omega
      · exact hword _
    · exact hword _
  · exact hword _
  · exact Nat.le_add_left 1 _

section Separated
variable {a b : Text}

theorem takeWhile_append_of_nil {p : Char → Bool} (h : b.takeWhile p = []) :
    (a ++ b).takeWhile p = a.takeWhile p := by
  rw [List.takeWhile_append]
  split_ifs with hall
  · rw [h, List.append_nil]
    exact ((List.takeWhile_prefix p).eq_of_length hall).symm
  · rfl

theorem isPrefixOf_append_cons {p x : Text} {c : Char} (h : c ∉ p) (z : Text) :
    p.isPrefixOf (x ++ c :: z) = p.isPrefixOf x := by
  induction p generalizing x with
  | nil => rfl
  | cons d p ih =>
      obtain ⟨hne, hp⟩ := not_or.mp (List.mem_cons.not.mp h)
      cases x with
      | nil => simp [List.isPrefixOf, Ne.symm hne]
      | cons e x => rw [List.cons_append, List.isPrefixOf, List.isPrefixOf, ih hp]

variable (hupper : b.takeWhile Char.isUpper = []) (hname : b.takeWhile isNameChar = [])
  (hkey : ∀ x : Text, " KEY".toList.isPrefixOf (x ++ b) = " KEY".toList.isPrefixOf x)
include hupper hname hkey

theorem scan_append (c : Char) : scan c (a ++ b) = scan c a := by
  have hword : (c :: (a ++ b)).takeWhile Char.isUpper = (c :: a).takeWhile Char.isUpper :=
    takeWhile_append_of_nil (a := c :: a) hupper
  have hletters : (c :: (a ++ b)).takeWhile isNameChar = (c :: a).takeWhile isNameChar :=
    takeWhile_append_of_nil (a := c :: a) hname
  have hdrop : (c :: (a ++ b)).drop ((c :: a).takeWhile Char.isUpper).length =
      (c :: a).drop ((c :: a).takeWhile Char.isUpper).length ++ b :=
    @List.drop_append_of_le_length _ (c :: a) b _ (List.takeWhile_prefix _).length_le
  rw [scan, scan, upperToken, upperToken, nameToken, nameToken, hword, hletters, hdrop, hkey]

/-- Nothing is read across the border of two texts. -/
theorem lexemes_append : lexemes (a ++ b) = lexemes a ++ lexemes b := by
  induction hlength : a.length using Nat.strong_induction_on generalizing a with
  | _ n ih =>
      cases a with
      | nil => rfl
      | cons c a =>
          have hle := scan_length c a
          have hrest := @ih (a.drop ((scan c a).2 - 1)).length
            (by rw [List.length_drop, ← hlength, List.length_cons]; omega) _ rfl
          rw [List.cons_append, lexemes_cons, scan_append hupper hname hkey,
            List.take_append_of_le_length (by omega), List.drop_append_of_le_length (by omega), hrest,
            lexemes_cons c a, List.append_assoc]

end Separated

/-- No token goes on behind it. -/
def Separates (c : Char) : Prop := isTokenChar c = false ∧ c ≠ ' '

theorem notMem_key {c : Char} (h : isTokenChar c = false) : c ∉ "KEY".toList := by
  have hletters : ∀ d ∈ ['K', 'E', 'Y'], isTokenChar d = true := by
    rw [List.forall_mem_cons, List.forall_mem_cons, List.forall_mem_singleton]
    exact ⟨rfl, rfl, rfl⟩
  intro hmem
  rw [hletters c hmem] at h
  cases h

theorem takeWhile_of_not_tokenChar {c : Char} (h : isTokenChar c = false) (z : Text) :
    (c :: z).takeWhile Char.isUpper = [] ∧ (c :: z).takeWhile isNameChar = [] := by
  rw [isTokenChar, Bool.or_eq_false_iff, Bool.or_eq_false_iff] at h
  rw [List.takeWhile_cons, List.takeWhile_cons, h.1.1, h.1.2]
  exact ⟨rfl, rfl⟩

theorem lexemes_separated {c : Char} (h : Separates c) (a z : Text) :
    lexemes (a ++ c :: z) = lexemes a ++ lexemes z := by
  obtain ⟨hupper, hname⟩ := takeWhile_of_not_tokenChar h.1 z
  have hkey : c ∉ " KEY".toList := by
    intro hmem
    obtain rfl | hmem := List.mem_cons.mp hmem
    · exact h.2 rfl
    · exact notMem_key h.1 hmem
  rw [lexemes_append hupper hname fun x => isPrefixOf_append_cons hkey z, lexemes_skip h.1]

/-- What no rule matches adds no token to a text. -/
theorem lexemes_append_of_none {b : Text} (h : tokenChars b = 0) (a : Text) :
    lexemes (a ++ b) = lexemes a := by
  cases b with
  | nil => rw [List.append_nil]
  | cons c z =>
      obtain ⟨hc, hz⟩ := List.forall_mem_cons.mp (List.countP_eq_zero.mp h)
      rw [Bool.not_eq_true] at hc
      by_cases hblank : c = ' '
      · subst hblank
        obtain ⟨hupper, hname⟩ := takeWhile_of_not_tokenChar hc z
        have hkey : ∀ x : Text, " KEY".toList.isPrefixOf (x ++ ' ' :: z) =
            " KEY".toList.isPrefixOf x := by
          intro x
          have hblank : ' ' ∉ "KEY".toList := notMem_key hc
          cases x with
          | nil =>
              cases z with
              | nil => rfl
              | cons d z =>
                  have hd : d ∉ "KEY".toList :=
                    notMem_key (Bool.not_eq_true _ ▸ hz d List.mem_cons_self)
                  exact isPrefixOf_append_cons (x := []) hd z
          | cons d x =>
              change (' ' == d && "KEY".toList.isPrefixOf (x ++ ' ' :: z)) = _
              rw [isPrefixOf_append_cons hblank z]
              rfl
        rw [lexemes_append hupper hname hkey, lexemes_skip hc,
          lexemes_of_none (List.countP_eq_zero.mpr hz), List.append_nil]
      · rw [lexemes_separated ⟨hc, hblank⟩, lexemes_of_none (List.countP_eq_zero.mpr hz),
          List.append_nil]

def denotedChars (denoted : Denoted) : ℕ := tokenChars denoted.reduceOption

/-- How many characters of tokens an escape sequence that has been read so far may denote. -/
def debt : LiteralState → ℕ
  | .octal _ value => if value < 8 then 0 else 1
  | .hex (some _) => 1
  | _ => 0

theorem denotedChars_append (denoted denoted' : Denoted) :
    denotedChars (denoted ++ denoted') = denotedChars denoted + denotedChars denoted' := by
  rw [denotedChars, List.reduceOption_append, tokenChars, List.countP_append]
  rfl

theorem tokenChars_cons (c : Char) (z : Text) :
    tokenChars (c :: z) = tokenChars [c] + tokenChars z :=
  @List.countP_append _ isTokenChar [c] z

theorem tokenChars_singleton_le (c : Char) : tokenChars [c] ≤ 1 :=
  List.countP_le_length (l := [c])

theorem tokenChars_singleton {c : Char} (h : isTokenChar c) : tokenChars [c] = 1 := by
  rw [tokenChars, List.countP_singleton, if_pos h]

theorem mem_of_lookup {α : Type} {table : List (Char × α)} {c : Char} {value : α}
    (h : table.lookup c = some value) : (c, value) ∈ table := by
  obtain ⟨front, back, hsplit, -⟩ := List.lookup_eq_some_iff.mp h
  exact hsplit ▸ List.mem_append_right front List.mem_cons_self

theorem simpleEscapes_lookup {c value : Char} (h : simpleEscapes.lookup c = some value) :
    isTokenChar value = false ∧ (isTokenChar c = false → value = c ∧ Separates c) := by
  have hall : ∀ entry ∈ simpleEscapes, isTokenChar entry.2 = false ∧
      (isTokenChar entry.1 = false → entry.2 = entry.1 ∧ isTokenChar entry.1 = false ∧
        entry.1 ≠ ' ') := by
    decide +kernel
  exact hall (c, value) (mem_of_lookup h)

theorem hexDigit_some {c : Char} {digit : ℕ} (h : hexDigit c = some digit) : isTokenChar c := by
  have hall : ∀ entry ∈ hexDigits, isTokenChar entry.1 = true := by decide +kernel
  exact hall (c, digit) (mem_of_lookup h)

theorem octalDigit_some {c : Char} {digit : ℕ} (h : octalDigit c = some digit) :
    isTokenChar c ∧ digit < 8 := by
  have hall : ∀ entry ∈ "01234567".toList.zipIdx, isTokenChar entry.1 = true ∧ entry.2 < 8 := by
    decide +kernel
  exact hall (c, digit) (mem_of_lookup h)

theorem byteChar_some {value : ℕ} {c : Char} (h : byteChar value = some c) :
    tokenChars [c] ≤ if value < 8 then 0 else 1 := by
  rw [byteChar] at h
  split_ifs at h
  obtain rfl := Option.some.inj h
  split_ifs with hsmall
  · have hall : ∀ value < 8, isTokenChar (Char.ofNat value) = false := by decide
    rw [tokenChars, List.countP_singleton, hall value hsmall]
    exact Nat.le_refl 0
  · exact tokenChars_singleton_le _

theorem stepChars_count {c : Char} {denoted : Denoted} {s : LiteralState}
    (h : stepChars c = some (denoted, s)) : denotedChars denoted + debt s ≤ tokenChars [c] := by
  rw [stepChars] at h
  split_ifs at h
  · obtain ⟨rfl, rfl⟩ := Prod.mk.inj (Option.some.inj h)
    exact Nat.zero_le _
  · obtain ⟨rfl, rfl⟩ := Prod.mk.inj (Option.some.inj h)
    exact Nat.zero_le _
  · obtain ⟨rfl, rfl⟩ := Prod.mk.inj (Option.some.inj h)
    exact Nat.le_refl _

theorem stepBehind_count {value : ℕ} {c : Char} {denoted : Denoted} {s : LiteralState}
    (h : stepBehind value c = some (denoted, s)) :
    denotedChars denoted + debt s ≤ tokenChars [c] + if value < 8 then 0 else 1 := by
  obtain ⟨char, hchar, hrest⟩ := Option.bind_eq_some_iff.mp h
  obtain ⟨⟨rest, s'⟩, hstep, heq⟩ := Option.map_eq_some_iff.mp hrest
  obtain ⟨rfl, rfl⟩ := Prod.mk.inj heq
  have hvalue := byteChar_some hchar
  have hbehind := stepChars_count hstep
  have hsplit : denotedChars (some char :: rest) = tokenChars [char] + denotedChars rest :=
    denotedChars_append [some char] rest
  dsimp only
  omega

theorem stepOctal_count {digits value : ℕ} {c : Char} {denoted : Denoted} {s : LiteralState}
    (h : stepOctal digits value c = some (denoted, s)) :
    denotedChars denoted + debt s ≤ tokenChars [c] + debt (.octal digits value) := by
  rw [stepOctal] at h
  cases hoctal : (if digits < 3 then octalDigit c else none) with
  | some digit =>
      rw [hoctal] at h
      obtain ⟨rfl, rfl⟩ := Prod.mk.inj (Option.some.inj h)
      have htoken : tokenChars [c] = 1 := by
        split_ifs at hoctal
        exact tokenChars_singleton (octalDigit_some hoctal).1
      have hle : debt (.octal (digits + 1) (8 * value + digit)) ≤ 1 := by
        rw [debt]
        split_ifs <;> omega
      have hnil : denotedChars [] = 0 := rfl
      omega
  | none =>
      rw [hoctal] at h
      exact stepBehind_count h

theorem stepHex_count {value : ℕ} {c : Char} {denoted : Denoted} {s : LiteralState}
    (h : stepHex value c = some (denoted, s)) :
    denotedChars denoted + debt s ≤ tokenChars [c] + 1 := by
  rw [stepHex] at h
  cases hdigit : hexDigit c with
  | some digit =>
      rw [hdigit] at h
      obtain ⟨rfl, rfl⟩ := Prod.mk.inj (Option.some.inj h)
      exact Nat.le_add_left 1 _
  | none =>
      rw [hdigit] at h
      have hcount := stepBehind_count h
      split_ifs at hcount <;> omega

theorem stepUniversal_count {left value digit : ℕ} {denoted : Denoted} {s : LiteralState}
    (h : stepUniversal left value digit = some (denoted, s)) :
    denotedChars denoted + debt s ≤ 1 := by
  rw [stepUniversal] at h
  split_ifs at h
  · obtain ⟨char, -, heq⟩ := Option.map_eq_some_iff.mp h
    obtain ⟨rfl, rfl⟩ := Prod.mk.inj heq
    exact tokenChars_singleton_le char
  · obtain ⟨rfl, rfl⟩ := Prod.mk.inj (Option.some.inj h)
    exact Nat.zero_le _

theorem stepEscape_count {c : Char} {denoted : Denoted} {s : LiteralState}
    (h : stepEscape c = some (denoted, s)) : denotedChars denoted + debt s = 0 := by
  rw [stepEscape] at h
  cases hsimple : simpleEscapes.lookup c with
  | some value =>
      rw [hsimple] at h
      obtain ⟨rfl, rfl⟩ := Prod.mk.inj (Option.some.inj h)
      have hvalue : tokenChars [value] = 0 := by
        rw [tokenChars, List.countP_singleton, (simpleEscapes_lookup hsimple).1]
        rfl
      exact hvalue
  | none =>
      rw [hsimple] at h
      cases hoctal : octalDigit c with
      | some digit =>
          rw [hoctal] at h
          obtain ⟨rfl, rfl⟩ := Prod.mk.inj (Option.some.inj h)
          have hdebt : debt (.octal 1 digit) = 0 := if_pos (octalDigit_some hoctal).2
          rw [hdebt]
          rfl
      | none =>
          rw [hoctal] at h
          dsimp only at h
          split_ifs at h
          all_goals
            obtain ⟨rfl, rfl⟩ := Prod.mk.inj (Option.some.inj h)
            rfl

/-- Outside of the numeric escape sequences, which a character of a token begins. -/
def Plain : LiteralState → Prop
  | .octal _ _ | .hex _ | .universal _ _ => False
  | _ => True

theorem plain_chars : Plain .chars := trivial

/-- What is read behind a backslash or between two literals denotes no character of a token. -/
theorem plain_count {s s' : LiteralState} {c : Char} {denoted : Denoted} (hplain : Plain s)
    (hs : s ≠ .chars) (h : literalStep s c = some (denoted, s')) :
    denotedChars denoted + debt s' = 0 := by
  cases s with
  | chars => exact absurd rfl hs
  | backslash => exact stepEscape_count h
  | octal | hex | universal => exact hplain.elim
  | closed =>
      have hstep : stepClosed c = (denoted, s') := Option.some.inj h
      rw [stepClosed] at hstep
      split_ifs at hstep
      all_goals
        obtain ⟨rfl, rfl⟩ := Prod.mk.inj hstep
        rfl
  | slash | line | comment | star =>
      obtain ⟨rfl, rfl⟩ := Prod.mk.inj (Option.some.inj h)
      split_ifs <;> rfl
  | ended c' =>
      obtain ⟨rfl, rfl⟩ := Prod.mk.inj (Option.some.inj h)
      rfl

/-- No step makes characters of tokens: it has read as many as it denotes, or owes them. -/
theorem literalStep_count {s s' : LiteralState} {c : Char} {denoted : Denoted}
    (h : literalStep s c = some (denoted, s')) :
    denotedChars denoted + debt s' ≤ tokenChars [c] + debt s := by
  by_cases hplain : Plain s ∧ s ≠ .chars
  · rw [plain_count hplain.1 hplain.2 h]
    exact Nat.zero_le _
  cases s with
  | chars => exact stepChars_count h
  | octal digits value => exact stepOctal_count h
  | hex value =>
      cases value with
      | none =>
          obtain ⟨digit, hdigit, heq⟩ := Option.map_eq_some_iff.mp h
          obtain ⟨rfl, rfl⟩ := Prod.mk.inj heq
          rw [tokenChars_singleton (hexDigit_some hdigit)]
          exact Nat.le_refl 1
      | some value => exact stepHex_count h
  | universal left value =>
      obtain ⟨digit, hdigit, hstep⟩ := Option.bind_eq_some_iff.mp h
      rw [tokenChars_singleton (hexDigit_some hdigit)]
      exact stepUniversal_count hstep
  | _ => exact absurd ⟨trivial, nofun⟩ hplain

theorem passes_count {z : Text} {s s' : LiteralState} {denoted : Denoted}
    (h : literals.Passes s z denoted s') :
    denotedChars denoted + debt s' ≤ tokenChars z + debt s := by
  induction z generalizing s denoted with
  | nil =>
      obtain ⟨rfl, rfl⟩ := h.eq_nil
      exact Nat.le_refl _
  | cons c z ih =>
      obtain ⟨first, next, rest, hstep, hrun, rfl⟩ := h.uncons
      have hfirst := literalStep_count hstep
      have hlast := ih hrun
      rw [denotedChars_append, tokenChars_cons]
      omega

/-- A character of a token is read as one of the string, not of an escape sequence or a comment. -/
def Unescaped (s : LiteralState) (c : Char) : Prop := s = .chars ∨ isTokenChar c = false

instance (c : Char) : Decidable (Separates c) := inferInstanceAs (Decidable (_ ∧ _))

/-- What no character of a token escapes is denoted as it is spelled. -/
theorem stepEscape_unescaped {c : Char} {denoted : Denoted} {s : LiteralState}
    (hc : isTokenChar c = false) (h : stepEscape c = some (denoted, s)) :
    denoted = [some c] ∧ s = .chars ∧ Separates c := by
  rw [stepEscape] at h
  cases hsimple : simpleEscapes.lookup c with
  | some value =>
      rw [hsimple] at h
      obtain ⟨rfl, rfl⟩ := Prod.mk.inj (Option.some.inj h)
      obtain ⟨rfl, hseparates⟩ := (simpleEscapes_lookup hsimple).2 hc
      exact ⟨rfl, rfl, hseparates⟩
  | none =>
      rw [hsimple] at h
      cases hoctal : octalDigit c with
      | some digit =>
          rw [(octalDigit_some hoctal).1] at hc
          cases hc
      | none =>
          rw [hoctal] at h
          dsimp only at h
          split_ifs at h with hx hu hU
          · exact absurd (hx ▸ hc) (by decide)
          · exact absurd (hu ▸ hc) (by decide)
          · exact absurd (hU ▸ hc) (by decide)

/-- What such a step does: it goes on without denoting anything, it denotes what it has read, or it
opens the next literal. -/
theorem step_unescaped {s s' : LiteralState} {c : Char} {denoted : Denoted} (hplain : Plain s)
    (hc : Unescaped s c) (h : literalStep s c = some (denoted, s')) : Plain s' ∧
      ((denoted = [] ∧ s' ≠ .chars ∧ (s = .chars → Separates c)) ∨
        (denoted = [some c] ∧ s' = .chars ∧ (s ≠ .chars → Separates c)) ∨
          (denoted = [none] ∧ s' = .chars ∧ s ≠ .chars)) := by
  cases s with
  | chars =>
      change stepChars c = _ at h
      rw [stepChars] at h
      split_ifs at h with hquote hbackslash
      · obtain ⟨rfl, rfl⟩ := Prod.mk.inj (Option.some.inj h)
        exact ⟨trivial, Or.inl ⟨rfl, nofun, fun _ => hquote ▸ by decide⟩⟩
      · obtain ⟨rfl, rfl⟩ := Prod.mk.inj (Option.some.inj h)
        exact ⟨trivial, Or.inl ⟨rfl, nofun, fun _ => hbackslash ▸ by decide⟩⟩
      · obtain ⟨rfl, rfl⟩ := Prod.mk.inj (Option.some.inj h)
        exact ⟨trivial, Or.inr (Or.inl ⟨rfl, rfl, fun hs => absurd rfl hs⟩)⟩
  | backslash =>
      obtain ⟨rfl, rfl, hseparates⟩ := stepEscape_unescaped (hc.resolve_left nofun) h
      exact ⟨trivial, Or.inr (Or.inl ⟨rfl, rfl, fun _ => hseparates⟩)⟩
  | octal | hex | universal => exact hplain.elim
  | closed =>
      have hstep : stepClosed c = (denoted, s') := Option.some.inj h
      rw [stepClosed] at hstep
      split_ifs at hstep with hwhite hquote
      · obtain ⟨rfl, rfl⟩ := Prod.mk.inj hstep
        exact ⟨trivial, Or.inl ⟨rfl, nofun, nofun⟩⟩
      · obtain ⟨rfl, rfl⟩ := Prod.mk.inj hstep
        exact ⟨trivial, Or.inr (Or.inr ⟨rfl, rfl, nofun⟩)⟩
      · obtain ⟨rfl, rfl⟩ := Prod.mk.inj hstep
        exact ⟨trivial, Or.inl ⟨rfl, nofun, nofun⟩⟩
      · obtain ⟨rfl, rfl⟩ := Prod.mk.inj hstep
        exact ⟨trivial, Or.inl ⟨rfl, nofun, nofun⟩⟩
  | slash | line | comment | star =>
      obtain ⟨rfl, rfl⟩ := Prod.mk.inj (Option.some.inj h)
      refine ⟨?_, Or.inl ⟨rfl, ?_, nofun⟩⟩
      · split_ifs <;> trivial
      · split_ifs <;> exact nofun
  | ended c' =>
      obtain ⟨rfl, rfl⟩ := Prod.mk.inj (Option.some.inj h)
      exact ⟨trivial, Or.inl ⟨rfl, nofun, nofun⟩⟩

/-- Either no character of a token is lost, or the literals denote fewer of them than were read. -/
theorem along_or_lt {z : Text} {s s' : LiteralState} {denoted : Denoted} (hplain : Plain s)
    (h : literals.Passes s z denoted s') :
    literals.Along Unescaped s z ∨ denotedChars denoted + debt s' < tokenChars z := by
  induction z generalizing s denoted with
  | nil => exact Or.inl trivial
  | cons c z ih =>
      obtain ⟨first, next, rest, hstep, hrun, rfl⟩ := h.uncons
      rw [denotedChars_append, tokenChars_cons]
      by_cases hc : Unescaped s c
      · obtain ⟨hnext, -⟩ := step_unescaped hplain hc hstep
        have hfirst : denotedChars first ≤ tokenChars [c] := by
          by_cases hs : s = .chars
          · subst hs
            have hcount := stepChars_count hstep
            omega
          · have hcount := plain_count hplain hs hstep
            omega
        obtain halong | hlt := ih hnext hrun
        · refine Or.inl ⟨hc, fun r hr => ?_⟩
          obtain rfl := Option.some.inj (hstep.symm.trans hr)
          exact halong
        · right
          omega
      · right
        obtain ⟨hs, htoken⟩ := not_or.mp hc
        have hfirst := plain_count hplain hs hstep
        have hlast := passes_count hrun
        have hone := tokenChars_singleton (Bool.eq_true_of_not_eq_false htoken)
        omega

/-- The string with a quote where one literal ends and the next begins. -/
def spelled (denoted : Denoted) : Text := denoted.map (·.getD '"')

theorem lexemes_spelled {z : Text} {s s' : LiteralState} {denoted : Denoted} (hplain : Plain s)
    (hz : literals.Along Unescaped s z) (h : literals.Passes s z denoted s') :
    (s = .chars → ∀ front : Text, lexemes (front ++ z) = lexemes (front ++ spelled denoted)) ∧
      (s ≠ .chars → lexemes z = lexemes (spelled denoted) ∧
        ∀ c ∈ (spelled denoted).head?, Separates c) := by
  induction z generalizing s denoted with
  | nil =>
      obtain ⟨rfl, rfl⟩ := h.eq_nil
      exact ⟨fun _ _ => rfl, fun _ => ⟨rfl, nofun⟩⟩
  | cons c z ih =>
      obtain ⟨first, next, rest, hstep, hrun, rfl⟩ := h.uncons
      obtain ⟨hc, hbehind⟩ := hz
      have halong : literals.Along Unescaped next z := hbehind _ hstep
      obtain ⟨hnext, ⟨rfl, hne, hquote⟩ | ⟨rfl, rfl, hkept⟩ | ⟨rfl, rfl, hs⟩⟩ :=
        step_unescaped hplain hc hstep
      · obtain ⟨hsame, hhead⟩ := (ih hnext halong hrun).2 hne
        constructor
        · intro hs front
          have hright : lexemes (front ++ spelled rest) = lexemes front ++ lexemes (spelled rest) := by
            cases hrest : spelled rest with
            | nil => rw [List.append_nil]; exact (List.append_nil _).symm
            | cons d more =>
                have hd : Separates d := hhead d (by rw [hrest]; rfl)
                rw [lexemes_separated hd, lexemes_skip hd.1]
          rw [lexemes_separated (hquote hs), hsame]
          exact hright.symm
        · intro hs
          rw [lexemes_skip (hc.resolve_left hs)]
          exact ⟨hsame, hhead⟩
      · have hsame := (ih hnext halong hrun).1 rfl
        constructor
        · intro _ front
          have hmore := hsame (front ++ [c])
          rw [List.append_assoc, List.append_assoc] at hmore
          exact hmore
        · intro hs
          have hseparates := hkept hs
          refine ⟨?_, fun d hd => ?_⟩
          · rw [lexemes_skip hseparates.1]
            exact (hsame []).trans (lexemes_skip hseparates.1 _).symm
          · obtain rfl := Option.some.inj hd
            exact hseparates
      · have hsame := (ih hnext halong hrun).1 rfl
        refine ⟨fun hchars => absurd hchars hs, fun _ => ⟨?_, fun d hd => ?_⟩⟩
        · rw [lexemes_skip (hc.resolve_left hs)]
          exact (hsame []).trans (lexemes_skip (by decide) _).symm
        · obtain rfl := Option.some.inj hd
          decide

/-- A string without escape sequences for one has a NUL only if the source has it. -/
theorem nul_notMem {z : Text} {s s' : LiteralState} {denoted : Denoted} (hplain : Plain s)
    (hz : literals.Along Unescaped s z) (hnul : '\x00' ∉ z) (h : literals.Passes s z denoted s') :
    some '\x00' ∉ denoted := by
  induction z generalizing s denoted with
  | nil =>
      obtain ⟨rfl, rfl⟩ := h.eq_nil
      exact List.not_mem_nil
  | cons c z ih =>
      obtain ⟨first, next, rest, hstep, hrun, rfl⟩ := h.uncons
      obtain ⟨hc, hbehind⟩ := hz
      obtain ⟨hne, hmore⟩ := not_or.mp (List.mem_cons.not.mp hnul)
      obtain ⟨hnext, hcases⟩ := step_unescaped hplain hc hstep
      have hrest := ih hnext (hbehind _ hstep) hmore hrun
      rw [List.mem_append, not_or]
      refine ⟨?_, hrest⟩
      obtain ⟨rfl, -⟩ | ⟨rfl, -⟩ | ⟨rfl, -⟩ := hcases
      · exact List.not_mem_nil
      · intro hmem
        exact hne (Option.some.inj (List.mem_singleton.mp hmem))
      · intro hmem
        cases List.mem_singleton.mp hmem

end Sorm
