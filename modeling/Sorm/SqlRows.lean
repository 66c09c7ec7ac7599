import Mathlib.Data.List.Chain
import Sorm.SqlSchema

/-!
# SQL statements on rows

INSERT, DELETE and UPDATE with a parameter for every value, as lists of tokens, how the texts lex that
they are printed as, and which token lists can be an UPDATE at all.
-/

namespace SqlRows

open Sql SqlSchema

inductive Statement
  | insert (verb table : List Char) (columns : List (List Char))
  | delete (table : List Char) (columns : List (List Char))
  | update (table : List Char) (sets keys : List (List Char))

def parameter : Token := ⟨.variable, ['?']⟩

def equals : Token := ⟨.eq, ['=']⟩

def comparison (name : List Char) : List Token := [⟨.word, name⟩, equals, parameter]

namespace Statement

def tokens : Statement → List Token
  | .insert verb table columns =>
      ⟨.word, verb⟩ :: word "INTO" :: ⟨.word, table⟩ :: lp ::
        ([comma].intercalate (columns.map fun name => [⟨.word, name⟩]) ++
          rp :: word "VALUES" :: lp :: ([comma].intercalate (columns.map fun _ => [parameter]) ++
            [rp]))
  | .delete table columns =>
      word "DELETE" :: word "FROM" :: ⟨.word, table⟩ :: word "WHERE" ::
        [word "AND"].intercalate (columns.map comparison)
  | .update table sets keys =>
      word "UPDATE" :: ⟨.word, table⟩ :: word "SET" ::
        ([comma].intercalate (sets.map comparison) ++
          word "WHERE" :: [word "AND"].intercalate (keys.map comparison))

def parameters : Statement → List (List Char)
  | .insert _ _ columns => columns
  | .delete _ columns => columns
  | .update _ sets keys => sets ++ keys

end Statement

def isParameter (t : Token) : Bool := t.type = .variable

theorem countP_intercalate {ι : Type} {p : Token → Bool} {t : Token} (ht : p t = false)
    {item : ι → List Token} {n : ℕ} (hitem : ∀ i, (item i).countP p = n) (is : List ι) :
    ([t].intercalate (is.map item)).countP p = n * is.length := by
  induction is with
  | nil => rfl
  | cons i is ih =>
      cases is with
      | nil =>
          rw [List.map_singleton, List.intercalate_singleton, hitem, List.length_singleton,
            Nat.mul_one]
      | cons j is =>
          rw [List.map_cons] at ih
          rw [List.map_cons, List.map_cons, List.intercalate_cons_cons, List.countP_append,
            List.countP_append, ih, hitem, List.countP_singleton, ht, @List.length_cons _ i (j :: is)]
          simp only [Bool.false_eq_true, if_false]
          ring

/-- There are as many parameters in a statement as columns that they stand for. -/
theorem Statement.countP_parameters (s : Statement) :
    s.tokens.countP isParameter = s.parameters.length := by
  have hcomparisons : ∀ {t : Token}, isParameter t = false → ∀ names : List (List Char),
      ([t].intercalate (names.map comparison)).countP isParameter = 1 * names.length :=
    fun ht => countP_intercalate ht fun _ => rfl
  have hcomma : isParameter comma = false := rfl
  have hword : ∀ {z : List Char} {ts : List Token},
      (⟨.word, z⟩ :: ts : List Token).countP isParameter = ts.countP isParameter :=
    List.countP_cons_of_neg (Bool.not_eq_true _ ▸ rfl)
  have hkeyword : ∀ {z : String} {ts : List Token},
      (word z :: ts).countP isParameter = ts.countP isParameter := hword
  cases s with
  | insert verb table columns =>
      have hnames : ([comma].intercalate (columns.map fun name => [⟨.word, name⟩])).countP
          isParameter = 0 * columns.length := by
        apply countP_intercalate hcomma
        exact fun _ => rfl
      have hvalues : ([comma].intercalate (columns.map fun _ => [parameter])).countP isParameter =
          1 * columns.length := by
        apply countP_intercalate hcomma
        exact fun _ => rfl
      have hlp : ∀ ts : List Token, (SqlSchema.lp :: ts).countP isParameter = ts.countP isParameter :=
        fun ts => List.countP_cons_of_neg (by decide)
      have hrp : ∀ ts : List Token, (rp :: ts).countP isParameter = ts.countP isParameter :=
        fun ts => List.countP_cons_of_neg (by decide)
      rw [tokens, hword, hkeyword, hword, hlp, List.countP_append, hnames, hrp, hkeyword, hlp,
        List.countP_append, hvalues, hrp, List.countP_nil, parameters]
      omega
  | delete table columns =>
      rw [tokens, hkeyword, hkeyword, hword, hkeyword, hcomparisons rfl, Nat.one_mul, parameters]
  | update table sets keys =>
      rw [tokens, hkeyword, hword, hkeyword, List.countP_append, hkeyword, hcomparisons hcomma,
        hcomparisons rfl, Nat.one_mul, Nat.one_mul, parameters, List.length_append]

theorem intercalate_cons {α : Type} (sep x : List α) (xs : List (List α)) :
    ∃ y, sep.intercalate (x :: xs) = x ++ y := by
  cases xs with
  | nil => exact ⟨[], by rw [List.intercalate_singleton, List.append_nil]⟩
  | cons x' xs =>
      rw [List.intercalate_cons_cons, List.append_assoc]
      exact ⟨_, rfl⟩

/-- Items with a separator between them. -/
theorem tokens_intercalate {ι : Type} {item : ι → List Char} {read : ι → List Token}
    {sep : List Char} {t : Token} {ends : List Char → Prop} {is : List ι} (hne : is ≠ [])
    (hitem : ∀ i ∈ is, ∀ z, ends z → Sql.tokens (item i ++ z) = read i ++ Sql.tokens z)
    (hsep : ∀ i ∈ is, ∀ z, ends (sep ++ (item i ++ z)) ∧
      Sql.tokens (sep ++ (item i ++ z)) = t :: Sql.tokens (item i ++ z))
    {z : List Char} (hz : ends z) :
    Sql.tokens (sep.intercalate (is.map item) ++ z) =
      [t].intercalate (is.map read) ++ Sql.tokens z := by
  induction is with
  | nil => exact absurd rfl hne
  | cons i is ih =>
      have hhead := hitem i List.mem_cons_self
      cases is with
      | nil =>
          rw [List.map_singleton, List.map_singleton, List.intercalate_singleton,
            List.intercalate_singleton]
          exact hhead z hz
      | cons j is =>
          have htail := ih (List.cons_ne_nil _ _) (fun i hi => hitem i (List.mem_cons_of_mem _ hi))
            fun i hi => hsep i (List.mem_cons_of_mem _ hi)
          obtain ⟨y, hy⟩ := intercalate_cons sep (item j) (is.map item)
          obtain ⟨hends, ht⟩ := hsep j (List.mem_cons_of_mem _ List.mem_cons_self) (y ++ z)
          rw [List.map_cons] at htail
          rw [hy, List.append_assoc] at htail
          rw [List.map_cons, List.map_cons, List.intercalate_cons_cons, hy, List.append_assoc,
            List.append_assoc, List.append_assoc, hhead _ hends, ht, htail,
            List.map_cons (l := j :: is), List.map_cons, List.intercalate_cons_cons]
          simp only [List.append_assoc, List.cons_append, List.nil_append]

theorem tokens_parameter {z : List Char} (hz : ∀ c, z.head? = some c → ¬ c.isDigit) :
    Sql.tokens ('?' :: z) = parameter :: Sql.tokens z := by
  have hspan : Sql.span Char.isDigit z = 0 := span_append (a := []) (by simp) hz
  have hget : getToken '?' z = (.variable, 1) := by
    change (TokenType.variable, Sql.span Char.isDigit z + 1) = _
    rw [hspan]
  exact tokens_mark hget (by decide)

def operatorWords : List (List Char) :=
  ["and", "or", "not", "is", "isnull", "notnull", "like", "glob", "regexp", "match", "escape", "in",
    "between", "collate", "distinct", "from", "case", "when", "then", "else", "end", "exists",
    "filter", "over"].map String.toList

def isKeyword (words : List (List Char)) (t : Token) : Bool :=
  t.type = .word && toLower t.text ∈ words

def isOperator (t : Token) : Bool :=
  t.type ∈ [.minus, .plus, .star, .slash, .rem, .eq, .ne, .le, .ge, .lt, .gt, .lshift, .rshift,
    .bitand, .bitor, .bitnot, .concat] || isKeyword operatorWords t

def isOperand (t : Token) : Bool :=
  t.type ∈ [.word, .quotedId, .string, .blob, .integer, .float, .variable]

/-- Expressions, of which there are more here than in SQLite: any operator may stand where one of
them may, and anything in parentheses. -/
inductive Expression : List Token → Prop
  | operand {t : Token} (h : isOperand t) : Expression [t]
  | member {e : List Token} (h : Expression e) {dot t : Token} (hdot : dot.type = .dot)
      (ht : isOperand t) : Expression (e ++ [dot, t])
  | before {op : Token} {e : List Token} (hop : isOperator op) (h : Expression e) :
      Expression (op :: e)
  | behind {e : List Token} {op : Token} (h : Expression e) (hop : isOperator op) :
      Expression (e ++ [op])
  | between {e e' : List Token} {op : Token} (h : Expression e) (hop : isOperator op)
      (h' : Expression e') : Expression (e ++ op :: e')
  | parentheses (ts : List Token) : Expression (lp :: (ts ++ [rp]))
  | call {t : Token} (h : isOperand t) (ts : List Token) : Expression (t :: lp :: (ts ++ [rp]))

inductive Target : List Token → Prop
  | name {t : Token} (h : isOperand t) : Target [t]
  | names (ts : List Token) : Target (lp :: (ts ++ [rp]))

inductive Assignments : List Token → Prop
  | one {target e : List Token} {op : Token} (h : Target target) (hop : op.type = .eq)
      (he : Expression e) : Assignments (target ++ op :: e)
  | more {target e rest : List Token} {op : Token} (h : Target target) (hop : op.type = .eq)
      (he : Expression e) (hrest : Assignments rest) :
      Assignments (target ++ op :: (e ++ comma :: rest))

def clauseWords : List (List Char) :=
  ["from", "where", "returning", "order", "limit"].map String.toList

/-- An UPDATE statement, of which there are more here than in SQLite: nothing is asked of what
stands before SET, nor of the clauses behind the assignments but how they begin. -/
inductive IsUpdate : List Token → Prop
  | update {target assignments clauses : List Token} {first set : Token}
      (hfirst : isKeyword ["update".toList] first) (hset : isKeyword ["set".toList] set)
      (hassignments : Assignments assignments)
      (hclauses : ∀ t ∈ clauses.head?, isKeyword clauseWords t) :
      IsUpdate (first :: (target ++ set :: (assignments ++ clauses)))

theorem expression_parameter : Expression [parameter] := .operand (by decide)

theorem assignments_comparisons {names : List (List Char)} (hne : names ≠ []) :
    Assignments ([comma].intercalate (names.map comparison)) := by
  induction names with
  | nil => exact absurd rfl hne
  | cons name names ih =>
      cases names with
      | nil =>
          rw [List.map_singleton, List.intercalate_singleton]
          exact .one (.name rfl) rfl expression_parameter
      | cons name' names =>
          rw [List.map_cons, List.map_cons, List.intercalate_cons_cons, List.append_assoc,
            ← List.map_cons]
          exact .more (.name rfl) rfl expression_parameter (ih (List.cons_ne_nil _ _))

/-- The statements with SET and WHERE are among them. -/
theorem isUpdate_update (table : List Char) {sets keys : List (List Char)} (hsets : sets ≠ []) :
    IsUpdate (Statement.update table sets keys).tokens := by
  change IsUpdate (word "UPDATE" :: ([⟨.word, table⟩] ++ word "SET" :: (_ ++ word "WHERE" :: _)))
  apply IsUpdate.update (by decide) (by decide) (assignments_comparisons hsets)
  intro t ht
  obtain rfl : word "WHERE" = t := Option.some.inj ht
  decide

def Follows (t t' : Token) : Prop :=
  t.type = .variable → isOperator t' ∨ t'.type = .dot ∨ t'.type = .comma

def NoParentheses (ts : List Token) : Prop := ∀ t ∈ ts, t.type ≠ .lp

theorem not_noParentheses (ts ts' : List Token) : ¬ NoParentheses (ts ++ SqlSchema.lp :: ts') := by
  intro h
  exact h SqlSchema.lp (List.mem_append_right _ List.mem_cons_self) rfl

theorem NoParentheses.append {ts ts' : List Token} (h : NoParentheses (ts ++ ts')) :
    NoParentheses ts ∧ NoParentheses ts' :=
  ⟨fun t ht => h t (List.mem_append_left _ ht), fun t ht => h t (List.mem_append_right _ ht)⟩

theorem NoParentheses.tail {t : Token} {ts : List Token} (h : NoParentheses (t :: ts)) :
    NoParentheses ts := fun t' ht' => h t' (List.mem_cons_of_mem _ ht')

theorem not_variable_of_isOperator {t : Token} (h : isOperator t) :
    t.type ≠ .variable ∧ t.type ≠ .comma := by
  constructor
  · intro htype
    simp [isOperator, isKeyword, htype] at h
  · intro htype
    simp [isOperator, isKeyword, htype] at h

theorem not_comma_of_isOperand {t : Token} (h : isOperand t) : t.type ≠ .comma := by
  intro htype
  simp [isOperand, htype] at h

/-- Two lists with a token between them that is no parameter. -/
theorem isChain_follows {ts ts' : List Token} {t : Token} (h : ts.IsChain Follows)
    (ht : isOperator t ∨ t.type = .dot ∨ t.type = .comma) (hvariable : t.type ≠ .variable)
    (h' : ts'.IsChain Follows) : (ts ++ t :: ts').IsChain Follows := by
  apply h.append
  · apply h'.cons
    exact fun y _ htype => absurd htype hvariable
  · intro x _ y hy
    obtain rfl : t = y := Option.some.inj hy
    exact fun _ => ht

theorem Expression.isChain {e : List Token} (h : Expression e) (hno : NoParentheses e) :
    e.IsChain Follows := by
  induction h with
  | operand => exact .singleton _
  | @member e _ dot t hdot ht ih =>
      exact isChain_follows (ih hno.append.1) (Or.inr (Or.inl hdot)) (by rw [hdot]; decide)
        (.singleton t)
  | before hop _ ih =>
      apply (ih hno.tail).cons
      exact fun y _ htype => absurd htype (not_variable_of_isOperator hop).1
  | behind _ hop ih =>
      exact isChain_follows (ih hno.append.1) (Or.inl hop) (not_variable_of_isOperator hop).1 .nil
  | between _ hop _ ih ih' =>
      exact isChain_follows (ih hno.append.1) (Or.inl hop) (not_variable_of_isOperator hop).1
        (ih' hno.append.2.tail)
  | parentheses ts => exact absurd hno (not_noParentheses [] _)
  | @call t _ ts => exact absurd hno (not_noParentheses [t] _)

/-- An expression does not end with a comma. -/
theorem Expression.getLast {e : List Token} (h : Expression e) :
    ∃ ts t, e = ts ++ [t] ∧ t.type ≠ .comma := by
  induction h with
  | @operand t h => exact ⟨[], t, rfl, not_comma_of_isOperand h⟩
  | @member e _ dot t hdot ht ih =>
      exact ⟨e ++ [dot], t, by rw [List.append_assoc]; rfl, not_comma_of_isOperand ht⟩
  | @before op e hop _ ih =>
      obtain ⟨ts, t, rfl, ht⟩ := ih
      exact ⟨op :: ts, t, rfl, ht⟩
  | @behind e op _ hop ih => exact ⟨e, op, rfl, (not_variable_of_isOperator hop).2⟩
  | @between e e' op _ hop _ ih ih' =>
      obtain ⟨ts, t, rfl, ht⟩ := ih'
      exact ⟨e ++ op :: ts, t, by rw [List.append_assoc]; rfl, ht⟩
  | parentheses ts => exact ⟨lp :: ts, rp, rfl, by decide⟩
  | @call t _ ts => exact ⟨t :: lp :: ts, rp, rfl, by decide⟩

theorem isOperator_of_eq {t : Token} (h : t.type = .eq) : isOperator t := by
  simp [isOperator, h]

theorem Target.eq_name {target : List Token} (h : Target target) (hno : NoParentheses target) :
    ∃ t, target = [t] := by
  cases h with
  | @name t h => exact ⟨t, rfl⟩
  | names ts => exact absurd hno (not_noParentheses [] _)

theorem isChain_assignment {target e : List Token} {op : Token} (h : Target target)
    (hop : op.type = .eq) (he : e.IsChain Follows) (hno : NoParentheses target) :
    (target ++ op :: e).IsChain Follows := by
  obtain ⟨t, rfl⟩ := h.eq_name hno
  exact isChain_follows (.singleton t) (Or.inl (isOperator_of_eq hop)) (by rw [hop]; decide) he

theorem Assignments.isChain {ts : List Token} (h : Assignments ts) (hno : NoParentheses ts) :
    ts.IsChain Follows := by
  induction h with
  | one h hop he =>
      exact isChain_assignment h hop (he.isChain hno.append.2.tail) hno.append.1
  | more h hop he _ ih =>
      have hright := hno.append.2.tail
      have hrest := ih hright.append.2.tail
      apply isChain_assignment h hop _ hno.append.1
      exact isChain_follows (he.isChain hright.append.1) (Or.inr (Or.inr rfl)) (by decide) hrest

theorem Assignments.getLast {ts : List Token} (h : Assignments ts) :
    3 ≤ ts.length ∧ ∃ init t, ts = init ++ [t] ∧ t.type ≠ .comma := by
  have htarget : ∀ {target : List Token}, Target target → 1 ≤ target.length := by
    intro target h
    cases h with
    | name => exact le_rfl
    | names ts => exact Nat.succ_le_succ (Nat.zero_le _)
  induction h with
  | @one target e op h hop he =>
      have hlength := htarget h
      obtain ⟨init, t, rfl, ht⟩ := he.getLast
      refine ⟨?_, target ++ op :: init, t, by simp, ht⟩
      simp only [List.length_append, List.length_cons]
      omega
  | @more target e rest op h hop he hrest ih =>
      obtain ⟨hlength, init, t, rfl, ht⟩ := ih
      refine ⟨?_, target ++ op :: (e ++ comma :: init), t, by simp, ht⟩
      simp only [List.length_append, List.length_cons] at hlength ⊢
      omega

section Trailing

variable {sets : List (List Char)} {w : Token}

/-- Every comparison begins behind a comma or at the start. -/
theorem isChain_comparisons (hsets : sets ≠ []) :
    ([comma].intercalate (sets.map comparison) ++ [w]).IsChain
      fun x y => y.type = .word → x.type = .comma ∨ y = w := by
  induction sets with
  | nil => exact absurd rfl hsets
  | cons name sets ih =>
      cases sets with
      | nil =>
          rw [List.map_singleton, List.intercalate_singleton]
          refine .cons_cons nofun (.cons_cons nofun (.cons_cons ?_ (.singleton _)))
          exact fun _ => Or.inr rfl
      | cons name' sets =>
          rw [List.map_cons, List.map_cons, List.intercalate_cons_cons, List.append_assoc,
            List.append_assoc, ← List.map_cons]
          have hrest := ih (List.cons_ne_nil _ _)
          refine .cons_cons nofun (.cons_cons nofun (.cons_cons nofun ?_))
          exact hrest.cons fun y _ _ => Or.inl rfl

theorem trailing_suffix (hsets : sets ≠ []) :
    [parameter, w] <:+ [comma].intercalate (sets.map comparison) ++ [w] := by
  induction sets with
  | nil => exact absurd rfl hsets
  | cons name sets ih =>
      cases sets with
      | nil =>
          rw [List.map_singleton, List.intercalate_singleton]
          exact ⟨[⟨.word, name⟩, equals], rfl⟩
      | cons name' sets =>
          rw [List.map_cons, List.map_cons, List.intercalate_cons_cons, List.append_assoc,
            List.append_assoc, ← List.map_cons]
          have hrest := ih (List.cons_ne_nil _ _)
          exact (hrest.trans (List.suffix_append _ _)).trans (List.suffix_append _ _)

theorem noParentheses_comparisons (sets : List (List Char)) :
    NoParentheses ([comma].intercalate (sets.map comparison)) := by
  have hzero : ([comma].intercalate (sets.map comparison)).countP (fun t => t.type = .lp) =
      0 * sets.length := by
    apply countP_intercalate rfl
    exact fun _ => rfl
  rw [Nat.zero_mul, List.countP_eq_zero] at hzero
  exact fun t ht htype => hzero t ht (by simp [htype])

/-- A word that is neither an operator nor the beginning of a clause cannot follow the
assignments. -/
theorem not_isUpdate (table : List Char) (hsets : sets ≠ []) (hw : w.type = .word)
    (hop : ¬ isOperator w) (hclause : ¬ isKeyword clauseWords w) :
    ¬ IsUpdate (word "UPDATE" :: ⟨.word, table⟩ :: word "SET" ::
      ([comma].intercalate (sets.map comparison) ++ [w])) := by
  intro h
  generalize hwhole : word "UPDATE" :: ⟨.word, table⟩ :: word "SET" ::
      ([comma].intercalate (sets.map comparison) ++ [w]) = whole at h
  set tail := [comma].intercalate (sets.map comparison) ++ [w] with htail
  have hsuffix : tail <:+ whole := ⟨[word "UPDATE", ⟨.word, table⟩, word "SET"], hwhole⟩
  have hlength : whole.length = tail.length + 3 := by
    rw [← hwhole]
    rfl
  have hno : NoParentheses whole := by
    intro t ht
    rw [← hwhole, htail] at ht
    simp only [List.mem_cons, List.mem_append, List.not_mem_nil, or_false] at ht
    rcases ht with rfl | rfl | rfl | ht | rfl
    · decide
    · exact nofun
    · decide
    · exact noParentheses_comparisons sets t ht
    · rw [hw]
      decide
  cases h with
  | @update target assignments clauses first set hfirst hset hassignments hclauses =>
      obtain ⟨hthree, init, x, hinit, hx⟩ := hassignments.getLast
      have hnoAssignments : NoParentheses assignments := hno.tail.append.2.tail.append.1
      cases clauses with
      | nil =>
          have hend : [parameter, w] <:+ assignments := by
            apply List.suffix_of_suffix_length_le ((trailing_suffix hsets).trans hsuffix)
            · refine ⟨first :: (target ++ [set]), ?_⟩
              simp
            · exact (Nat.le_succ 2).trans hthree
          have hchain := (hassignments.isChain hnoAssignments).suffix hend
          rcases (List.isChain_cons_cons.mp hchain).1 rfl with h | h | h
          · exact hop h
          · rw [hw] at h
            cases h
          · rw [hw] at h
            cases h
      | cons keyword rest =>
          have hkeyword : isKeyword clauseWords keyword := hclauses keyword rfl
          have hend : x :: keyword :: rest <:+ tail := by
            apply List.suffix_of_suffix_length_le _ hsuffix
            · rw [hinit] at hthree hlength
              simp only [List.length_append, List.length_cons, List.length_nil] at hthree hlength ⊢
              omega
            · refine ⟨first :: (target ++ set :: init), ?_⟩
              rw [hinit]
              simp
          have hchain := (isChain_comparisons hsets).suffix hend
          have htype : keyword.type = .word := by
            simp only [isKeyword, Bool.and_eq_true, decide_eq_true_eq] at hkeyword
            exact hkeyword.1
          rcases (List.isChain_cons_cons.mp hchain).1 htype with h | h
          · exact hx h
          · exact hclause (h ▸ hkeyword)

end Trailing

end SqlRows
