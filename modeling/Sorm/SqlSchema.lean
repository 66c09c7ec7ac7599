import Mathlib.Data.List.GetD
import Sorm.SqlStatements

/-!
# SQL data definitions

CREATE TABLE, CREATE INDEX and DROP INDEX as lists of tokens, and what they do to a schema. Keywords
are in capitals. The lemmas on tokens say how the texts lex that such statements are printed as.
-/

namespace Sql

theorem tokens_mark {c : Char} {type : TokenType} {z : List Char} (h : getToken c z = (type, 1))
    (htype : type ≠ .space) : tokens (c :: z) = ⟨type, [c]⟩ :: tokens z := by
  have htokens := tokens_of_getToken (a := []) h
  rwa [if_neg htype] at htokens

theorem tokens_lp (z : List Char) : tokens ('(' :: z) = ⟨.lp, ['(']⟩ :: tokens z :=
  tokens_mark rfl (by decide)

theorem tokens_rp (z : List Char) : tokens (')' :: z) = ⟨.rp, [')']⟩ :: tokens z :=
  tokens_mark rfl (by decide)

theorem tokens_comma (z : List Char) : tokens (',' :: z) = ⟨.comma, [',']⟩ :: tokens z :=
  tokens_mark rfl (by decide)

theorem tokens_semi (z : List Char) : tokens (';' :: z) = ⟨.semi, [';']⟩ :: tokens z :=
  tokens_mark rfl (by decide)

def Unspaced (z : List Char) : Prop := ∀ c, z.head? = some c → ¬ isSpace c

theorem tokens_blanks {z : List Char} (hz : Unspaced z) (k : ℕ) :
    tokens (List.replicate k ' ' ++ z) = tokens z := by
  cases k with
  | zero => rfl
  | succ k =>
      have hspan : span isSpace (List.replicate k ' ' ++ z) = (List.replicate k ' ').length := by
        refine span_append (fun c hc => ?_) hz
        rw [List.eq_of_mem_replicate hc]
        decide
      have hget : getToken ' ' (List.replicate k ' ' ++ z) =
          (.space, (List.replicate k ' ').length + 1) := by
        change (TokenType.space, span isSpace _ + 1) = _
        rw [hspan]
      exact tokens_of_getToken hget

theorem not_isSpace_of_isIdChar {c : Char} (h : isIdChar c) : ¬ isSpace c := by
  intro hspace
  have hle : c.toNat ≤ 32 := by
    simp only [isSpace, Bool.or_eq_true, Bool.and_eq_true, decide_eq_true_eq] at hspace
    rcases hspace with rfl | ⟨-, hle⟩
    · decide
    · exact (show c.toNat ≤ 13 from hle).trans (by decide)
  have hnat : c.val.toNat = c.toNat := rfl
  have hmarks : '_'.toNat = 95 ∧ '$'.toNat = 36 := ⟨rfl, rfl⟩
  have hletters : '0'.val.toNat = 48 ∧ 'A'.val.toNat = 65 ∧ 'a'.val.toNat = 97 := ⟨rfl, rfl, rfl⟩
  have hisLower : c.isLower = (decide (c.val ≥ 'a'.val) && decide (c.val ≤ 'z'.val)) := rfl
  have hisUpper : c.isUpper = (decide (c.val ≥ 'A'.val) && decide (c.val ≤ 'Z'.val)) :=
    Bool.decide_and _ _
  have hisAlpha : c.isAlpha = (c.isUpper || c.isLower) := rfl
  simp only [isIdChar, Char.isAlphanum, hisAlpha, hisUpper, hisLower, Char.isDigit,
    Bool.or_eq_true, Bool.and_eq_true, decide_eq_true_eq, ge_iff_le, UInt32.le_iff_toNat_le] at h
  rcases h with ((((h | h) | h) | rfl) | rfl) | h <;> omega

theorem unspaced_of_isIdChar {a z : List Char} (hne : a ≠ []) (ha : ∀ c ∈ a, isIdChar c) :
    Unspaced (a ++ z) := by
  cases a with
  | nil => exact absurd rfl hne
  | cons c a =>
      intro d hd
      obtain rfl : c = d := Option.some.inj hd
      exact not_isSpace_of_isIdChar (ha _ List.mem_cons_self)

theorem isIdChar_of_plainIdentifier {a : List Char} (h : plainIdentifier a) :
    a ≠ [] ∧ ∀ c ∈ a, isIdChar c := by
  cases a with
  | nil => cases h
  | cons c a =>
      simp only [plainIdentifier, Bool.and_eq_true, List.all_eq_true, Bool.or_eq_true,
        decide_eq_true_eq] at h
      refine ⟨List.cons_ne_nil _ _, fun d hd => ?_⟩
      rcases List.mem_cons.mp hd with rfl | hd
      · rcases h.1 with h | h <;> simp [isIdChar, Char.isAlphanum, h]
      · rcases h.2 d hd with h | h <;> simp [isIdChar, h]

theorem unspaced_of_plainIdentifier {a : List Char} (h : plainIdentifier a) (z : List Char) :
    Unspaced (a ++ z) :=
  unspaced_of_isIdChar (isIdChar_of_plainIdentifier h).1 (isIdChar_of_plainIdentifier h).2

/-- A word and the blank behind it. -/
theorem tokens_wordBlank {a z : List Char} (ha : plainIdentifier a) (hz : Unspaced z) :
    tokens (a ++ ' ' :: z) = ⟨.word, a⟩ :: tokens z := by
  have hend : EndsWord (' ' :: z) := by
    intro c hc
    cases hc
    decide
  rw [tokens_identifier ha hend (by simp), tokens_space hz]

def EndsName (z : List Char) : Prop :=
  ∀ c, z.head? = some c → c = ' ' ∨ c = ',' ∨ c = '(' ∨ c = ')' ∨ c = ';'

theorem EndsName.endsWord {z : List Char} (h : EndsName z) : EndsWord z := by
  intro c hc
  rcases h c hc with rfl | rfl | rfl | rfl | rfl <;> decide

theorem EndsName.head_ne {z : List Char} (h : EndsName z) {c : Char}
    (hc : c ∉ [' ', ',', '(', ')', ';']) : z.head? ≠ some c := by
  intro heq
  rcases h c heq with rfl | rfl | rfl | rfl | rfl <;> exact hc (by simp)

/-- A name and the mark behind it. -/
theorem tokens_nameMark {a : List Char} (ha : plainIdentifier a) {c : Char} (z : List Char)
    (hc : c = ',' ∨ c = ')' ∨ c = '(') : tokens (a ++ c :: z) = ⟨.word, a⟩ :: tokens (c :: z) := by
  have hend : EndsName (c :: z) := by
    intro d hd
    obtain rfl : c = d := Option.some.inj hd
    tauto
  exact tokens_identifier ha hend.endsWord (hend.head_ne (by decide))

section Number

variable {a z : List Char}

theorem charAt_append_left {i : ℕ} (h : i < a.length) : charAt (a ++ z) i = a[i] := by
  unfold charAt
  rw [List.getD_append _ _ _ _ h, List.getD_eq_getElem]

theorem charAt_append_length : charAt (a ++ z) a.length = charAt z 0 := by
  unfold charAt
  rw [List.getD_append_right _ _ _ _ le_rfl, Nat.sub_self]

/-- A number does not go on behind the characters of a word. -/
theorem span_le {p : Char → Bool} (hp : ∀ c, p c → isIdChar c) (hz : EndsWord z) (i : ℕ)
    (hi : i ≤ a.length) : i + span p ((a ++ z).drop i) ≤ a.length := by
  have hdrop : (a ++ z).drop i = a.drop i ++ z := List.drop_append_of_le_length hi
  have hnone : z.takeWhile p = [] := by
    cases z with
    | nil => rfl
    | cons c z =>
        have hc : ¬ p c := fun h => by
          have hid := hp c h
          rw [hz c rfl] at hid
          cases hid
        exact List.takeWhile_cons_of_neg hc
  unfold span
  rw [hdrop, List.takeWhile_append]
  split
  · rw [hnone, List.append_nil, List.length_drop]
    omega
  · have hle := (List.takeWhile_prefix p (l := a.drop i)).length_le
    rw [List.length_drop] at hle
    omega

theorem isIdChar_of_isDigit {c : Char} (h : c.isDigit) : isIdChar c := by
  simp [isIdChar, Char.isAlphanum, h]

/-- No other character than those of a word and those behind it is met up to the end of a word. -/
theorem charAt_ne {c : Char} (ha : ∀ d ∈ a, isIdChar d) (hz : EndsName z) (hc : isIdChar c = false)
    (hend : c ∉ [' ', ',', '(', ')', ';']) (hnul : c ≠ '\x00') {i : ℕ} (hi : i ≤ a.length) :
    charAt (a ++ z) i ≠ c := by
  rcases Nat.lt_or_eq_of_le hi with hlt | rfl
  · rw [charAt_append_left hlt]
    intro h
    have hid := ha _ (List.getElem_mem hlt)
    rw [h, hc] at hid
    cases hid
  · rw [charAt_append_length]
    exact charAt_zero_ne hnul (hz.head_ne hend)

/-- A character of a word is met inside of the word. -/
theorem lt_of_charAt {i : ℕ} (hz : EndsName z) (hi : i ≤ a.length)
    (h : isIdChar (charAt (a ++ z) i)) : i < a.length := by
  rcases Nat.lt_or_eq_of_le hi with hlt | rfl
  · exact hlt
  · rw [charAt_append_length] at h
    cases z with
    | nil => exact absurd h (by decide)
    | cons c z =>
        have hc : isIdChar c = false := hz.endsWord c rfl
        have hid : isIdChar c = true := h
        rw [hc] at hid
        cases hid

theorem exponent_le (ha : ∀ c ∈ a, isIdChar c) (hz : EndsName z) {n : ℕ} (hn : n ≤ a.length) :
    ∃ type i, exponent (a ++ z) (.integer, n) = (type, i) ∧ i ≤ a.length ∧
      (type = .integer ∨ type = .float) := by
  unfold exponent
  dsimp only
  split
  · rename_i h
    obtain ⟨he, hnext⟩ := h
    have hlt : n < a.length := by
      refine lt_of_charAt hz hn ?_
      rcases he with he | he <;> rw [he] <;> decide
    have hsign : ∀ c, c = '+' ∨ c = '-' → charAt (a ++ z) (n + 1) ≠ c := by
      rintro c (rfl | rfl)
      · exact charAt_ne ha hz (by decide) (by decide) (by decide) hlt
      · exact charAt_ne ha hz (by decide) (by decide) (by decide) hlt
    have hdigit : (charAt (a ++ z) (n + 1)).isDigit := by
      rcases hnext with hdigit | ⟨hplus | hminus, -⟩
      · exact hdigit
      · exact absurd hplus (hsign _ (.inl rfl))
      · exact absurd hminus (hsign _ (.inr rfl))
    have hlt' := lt_of_charAt hz hlt (isIdChar_of_isDigit hdigit)
    exact ⟨_, _, rfl, span_le (fun _ => isIdChar_of_isDigit) hz.endsWord _ hlt', .inr rfl⟩
  · exact ⟨_, _, rfl, hn, .inl rfl⟩

/-- Something that begins with a digit and continues with the characters of a word is one token. -/
theorem numberToken_length (ha : ∀ c ∈ a, isIdChar c) (hz : EndsName z) :
    ∃ type, numberToken (a ++ z) = (type, a.length) ∧
      (type = .integer ∨ type = .float ∨ type = .illegal) := by
  have hn : span Char.isDigit (a ++ z) ≤ a.length := by
    have hle := span_le (fun _ => isIdChar_of_isDigit) hz.endsWord 0 (Nat.zero_le a.length)
    rwa [List.drop_zero, Nat.zero_add] at hle
  have hfraction : fraction (a ++ z) (span Char.isDigit (a ++ z)) =
      (.integer, span Char.isDigit (a ++ z)) := by
    unfold fraction
    exact if_neg (charAt_ne ha hz (by decide) (by decide) (by decide) hn)
  obtain ⟨type, i, hexponent, hi, htype⟩ := exponent_le ha hz hn
  have hspan : span isIdChar ((a ++ z).drop i) = a.length - i := by
    rw [List.drop_append_of_le_length hi, span_append (fun c hc => ha c (List.mem_of_mem_drop hc)),
      List.length_drop]
    exact fun c hc => by simp [hz.endsWord c hc]
  refine ⟨if a.length - i = 0 then type else .illegal, ?_, ?_⟩
  · unfold numberToken
    rw [hfraction, hexponent]
    dsimp only
    rw [hspan]
    congr 1
    omega
  · split
    · rcases htype with rfl | rfl
      · exact .inl rfl
      · exact .inr (.inl rfl)
    · exact .inr (.inr rfl)

end Number

/-- A name, or something like a name that begins with a digit, is one token. -/
theorem tokens_name {a z : List Char} (hne : a ≠ []) (ha : ∀ c ∈ a, c.isAlphanum ∨ c = '_')
    (hz : EndsName z) : ∃ type, tokens (a ++ z) = ⟨type, a⟩ :: tokens z ∧ type ≠ .semi := by
  have hid : ∀ c ∈ a, isIdChar c := by
    intro c hc
    rcases ha c hc with h | h <;> simp [isIdChar, h]
  cases a with
  | nil => exact absurd rfl hne
  | cons c a =>
      by_cases hstart : isWordStart c
      · have hword := tokens_word hstart (fun d hd => hid d (List.mem_cons_of_mem _ hd)) hz.endsWord
          (hz.head_ne (by decide))
        exact ⟨.word, hword, by decide⟩
      · have hdigit : c.isDigit := by
          have hc := ha c List.mem_cons_self
          simp only [isWordStart, Bool.or_eq_true, decide_eq_true_eq, not_or] at hstart
          simp only [Char.isAlphanum, Bool.or_eq_true] at hc
          tauto
        obtain ⟨type, hnumber, htype⟩ := numberToken_length (a := c :: a) hid hz
        have hget : getToken c (a ++ z) = (type, a.length + 1) := by
          unfold getToken
          rw [if_neg hstart, if_pos hdigit]
          exact hnumber
        have hspace : type ≠ .space := by
          rcases htype with rfl | rfl | rfl <;> decide
        have htokens := tokens_of_getToken hget
        rw [if_neg hspace] at htokens
        refine ⟨type, htokens, ?_⟩
        rcases htype with rfl | rfl | rfl <;> decide

theorem mark_ne_semi {t : Token} (h : t.type ≠ .semi) : t.mark ≠ .semi := by
  unfold Token.mark
  rw [if_neg h]
  dsimp only
  split_ifs <;> exact nofun

theorem statementsFrom_normal {read ts : List Token} (hread : read ≠ [])
    (hts : ∀ t ∈ ts, t.type ≠ .semi) : statementsFrom .normal read ts = [read ++ ts] := by
  induction ts generalizing read with
  | nil => rw [statementsFrom, if_neg hread, List.append_nil]
  | cons t ts ih =>
      have hnext : Place.next .normal t.mark = .normal := by
        have hmark := mark_ne_semi (hts t List.mem_cons_self)
        cases h : t.mark <;> first | rfl | exact absurd h hmark
      rw [statementsFrom, hnext]
      dsimp only
      rw [ih (by simp) fun t ht => hts t (List.mem_cons_of_mem _ ht)]
      simp

/-- A semicolon ends the statement. -/
theorem head?_statementsFrom_normal {read ts : List Token} (hread : read ≠ [])
    (hts : ∀ t ∈ ts, t.type ≠ .semi) (text : List Char) (rest : List Token) :
    (statementsFrom .normal read (ts ++ ⟨.semi, text⟩ :: rest)).head? = some (read ++ ts) := by
  induction ts generalizing read with
  | nil =>
      have hmark : Token.mark ⟨.semi, text⟩ = .semi := rfl
      rw [List.nil_append, statementsFrom, hmark]
      change (if read = [] then _ else read :: _ : List (List Token)).head? = _
      rw [if_neg hread, List.append_nil]
      rfl
  | cons t ts ih =>
      have hnext : Place.next .normal t.mark = .normal := by
        have hmark := mark_ne_semi (hts t List.mem_cons_self)
        cases h : t.mark <;> first | rfl | exact absurd h hmark
      rw [List.cons_append, statementsFrom, hnext]
      dsimp only
      rw [ih (by simp) fun t ht => hts t (List.mem_cons_of_mem _ ht)]
      simp

end Sql

namespace SqlSchema

open Sql

inductive Direction
  | ascending
  | descending
deriving DecidableEq, Repr

inductive Key
  | none
  | primary (direction : Option Direction)
  | unique
deriving DecidableEq, Repr

structure Column where
  name : List Char
  type : List Char
  key : Key
deriving DecidableEq, Repr

structure ForeignKey where
  column : List Char
  table : List Char
  foreignColumn : List Char
deriving DecidableEq, Repr

structure Table where
  name : List Char
  columns : List Column
  foreignKeys : List ForeignKey
deriving DecidableEq, Repr

structure Index where
  name : List Char
  table : List Char
  columns : List (List Char)
deriving DecidableEq, Repr

structure Schema where
  tables : List Table
  indexes : List Index
deriving DecidableEq, Repr

inductive Definition
  | createTable (ifNotExists : Bool) (table : Table)
  | createIndex (ifNotExists : Bool) (index : Index)
  | dropIndex (name : List Char)
deriving DecidableEq, Repr

namespace Schema

def empty : Schema := ⟨[], []⟩

/-- A table or an index with a name that is taken is not created. Names are compared as they are
spelled, so they should be in one case: SQLite takes letters of both cases for the same. -/
def execute (schema : Schema) : Definition → Schema
  | .createTable _ table =>
      if schema.tables.any fun t => t.name = table.name then schema
      else { schema with tables := schema.tables ++ [table] }
  | .createIndex _ index =>
      if schema.indexes.any fun i => i.name = index.name then schema
      else { schema with indexes := schema.indexes ++ [index] }
  | .dropIndex name => { schema with indexes := schema.indexes.filter fun i => i.name ≠ name }

end Schema

def word (s : String) : Token := ⟨.word, s.toList⟩

def expect (t : Token) : List Token → Option (List Token)
  | t' :: ts => if t' = t then some ts else none
  | [] => none

def lp : Token := ⟨.lp, ['(']⟩

def rp : Token := ⟨.rp, [')']⟩

def comma : Token := ⟨.comma, [',']⟩

def name : List Token → Option (List Char × List Token)
  | ⟨.word, text⟩ :: ts => some (text, ts)
  | _ => none

def names : List Token → Option (List (List Char) × List Token)
  | ⟨.word, text⟩ :: t :: ts =>
      if t = rp then some ([text], ts)
      else if t = comma then (names ts).map fun (texts, ts) => (text :: texts, ts)
      else none
  | _ => none

def condition (ts : List Token) : Bool × List Token :=
  match expect (word "IF") ts >>= expect (word "NOT") >>= expect (word "EXISTS") with
  | some ts => (true, ts)
  | none => (false, ts)

def primaryKey (ts : List Token) : Key × List Token :=
  match expect (word "DESC") ts, expect (word "ASC") ts with
  | some ts, _ => (.primary (some .descending), ts)
  | none, some ts => (.primary (some .ascending), ts)
  | none, none => (.primary none, ts)

def key (ts : List Token) : Key × List Token :=
  match expect (word "PRIMARY") ts >>= expect (word "KEY"), expect (word "UNIQUE") ts with
  | some ts, _ => primaryKey ts
  | none, some ts => (.unique, ts)
  | none, none => (.none, ts)

/-- What stands between two commas: a column, a foreign key, or a `CONSTRAINT` and a name, which is
a table constraint by itself. -/
inductive Item
  | column (c : Column)
  | foreignKey (f : ForeignKey)
  | constraintName
deriving DecidableEq, Repr

namespace Item

def column? : Item → Option Column
  | .column c => some c
  | _ => none

def foreignKey? : Item → Option ForeignKey
  | .foreignKey f => some f
  | _ => none

end Item

/-- The keyword that no column can be named, in any case. -/
def isConstraint (text : List Char) : Bool := text.map Char.toLower = "constraint".toList

def constraintName : List Token → Option (List Token)
  | ⟨.word, text⟩ :: ts => if isConstraint text then (name ts).map Prod.snd else none
  | _ => none

def foreignKey (ts : List Token) : Option (ForeignKey × List Token) := do
  let ts ← expect (word "FOREIGN") ts >>= expect (word "KEY") >>= expect lp
  let (column, ts) ← name ts
  let ts ← expect rp ts >>= expect (word "REFERENCES")
  let (table, ts) ← name ts
  let ts ← expect lp ts
  let (foreignColumn, ts) ← name ts
  let ts ← expect rp ts
  return (⟨column, table, foreignColumn⟩, ts)

def column (ts : List Token) : Option (Column × List Token) := do
  let (text, ts) ← name ts
  if isConstraint text then none
  let (type, ts) ← name ts
  let (k, ts) := key ts
  return (⟨text, type, k⟩, ts)

def item (ts : List Token) : Option (Item × List Token) :=
  match foreignKey ts, constraintName ts with
  | some (f, ts), _ => some (.foreignKey f, ts)
  | none, some ts => some (.constraintName, ts)
  | none, none => (column ts).map fun (c, ts) => (.column c, ts)

def items : ℕ → List Token → Option (List Item)
  | 0, _ => none
  | fuel + 1, ts => do
      let (i, ts) ← item ts
      match ts with
      | [t] => if t = rp then some [i] else none
      | t :: ts => if t = comma then (items fuel ts).map (i :: ·) else none
      | [] => none

def columnsFirst (is : List Item) : Bool :=
  (is.head?.bind Item.column?).isSome &&
    (is.dropWhile fun i => i.column?.isSome).all fun i => i.column?.isNone

def createTable (ts : List Token) : Option Definition := do
  let (ifNotExists, ts) := condition ts
  let (text, ts) ← name ts
  let ts ← expect lp ts
  let is ← items ts.length ts
  if columnsFirst is then
    return .createTable ifNotExists
      ⟨text, is.filterMap Item.column?, is.filterMap Item.foreignKey?⟩
  else none

def createIndex (ts : List Token) : Option Definition := do
  let (ifNotExists, ts) := condition ts
  let (text, ts) ← name ts
  let ts ← expect (word "ON") ts
  let (table, ts) ← name ts
  let (columns, ts) ← expect lp ts >>= names
  if ts = [] then return .createIndex ifNotExists ⟨text, table, columns⟩ else none

def definition (stmt : List Token) : Option Definition :=
  match stmt with
  | t :: t' :: ts =>
      if t = word "CREATE" ∧ t' = word "TABLE" then createTable ts
      else if t = word "CREATE" ∧ t' = word "INDEX" then createIndex ts
      else if t = word "DROP" ∧ t' = word "INDEX" then do
        let (text, ts) ← name ts
        if ts = [] then return .dropIndex text else none
      else none
  | _ => none

def Schema.run (schema : Schema) (stmts : List (List Token)) : Schema :=
  stmts.foldl (fun schema stmt => ((definition stmt).map schema.execute).getD schema) schema

example : definition (tokens "CREATE TABLE t( a INTEGER PRIMARY KEY DESC, b TEXT)".toList) =
    some (.createTable false ⟨"t".toList,
      [⟨"a".toList, "INTEGER".toList, .primary (some .descending)⟩,
        ⟨"b".toList, "TEXT".toList, .none⟩], []⟩) := by decide

example : definition (tokens "CREATE TABLE t( a INTEGER, constraint INTEGER)".toList) =
    some (.createTable false ⟨"t".toList, [⟨"a".toList, "INTEGER".toList, .none⟩], []⟩) := by decide

example : definition (tokens "CREATE INDEX i ON t(a, b)".toList) =
    some (.createIndex false ⟨"i".toList, "t".toList, ["a".toList, "b".toList]⟩) := by decide

end SqlSchema
