import Sorm.CreateTable

/-!
# Parsing a printed statement

The run of the parser over each part of a statement: whatever lies below on the stack, the part is
replaced by the state behind it, and the descriptor under construction has been changed as the
part says.
-/

namespace Sorm

open ShiftReduce ParserYacc

namespace CreateTable

abbrev Tokens := List (Terminal × Text)

abbrev Stack := List (State × Text)

def tokens (pieces : List Piece) : Tokens := pieces.map Piece.token

theorem tokens_append (pieces pieces' : List Piece) :
    tokens (pieces ++ pieces') = tokens pieces ++ tokens pieces' := List.map_append

def goto (stack : Stack) (x : ShiftReduce.Symbol Terminal NonTerminal) : Option State :=
  parser.next (parser.top stack) x

/-- The parser reads some tokens and is in a state on top of the stack it had. -/
def Reads (q : State) (stack : Stack) (ts rest : Tokens) (s s' : ParserState) : Prop :=
  ∃ v, parser.Steps ⟨stack, ts ++ rest, s⟩ ⟨(q, v) :: stack, rest, s'⟩

theorem shift_step (stack : Stack) {t : Terminal} {q : State} (v : Text) (rest : Tokens)
    (s : ParserState) (h : goto stack (.terminal t) = some q) :
    parser.Steps ⟨stack, (t, v) :: rest, s⟩ ⟨(q, v) :: stack, rest, s⟩ := Parser.Steps.shift h

def Leads : State → List (Terminal × Text × State) → Prop
  | _, [] => True
  | q, (t, _, q') :: path => parser.next q (.terminal t) = some q' ∧ Leads q' path

def pushed : List (Terminal × Text × State) → Stack → Stack
  | [], stack => stack
  | (_, v, q) :: path, stack => pushed path ((q, v) :: stack)

theorem shift_path (path : List (Terminal × Text × State)) (stack : Stack) (rest : Tokens)
    (s : ParserState) (h : Leads (parser.top stack) path) :
    parser.Steps ⟨stack, path.map (fun move => (move.1, move.2.1)) ++ rest, s⟩
      ⟨pushed path stack, rest, s⟩ := by
  induction path generalizing stack with
  | nil => exact .refl _
  | cons move path ih =>
      obtain ⟨t, v, q⟩ := move
      exact (shift_step stack v _ s h.1).trans (ih ((q, v) :: stack) h.2)

/-- A rule is reduced to what lies below its right side. -/
theorem reduce_step (r : Rule) (stack below : Stack) {rest : Tokens} {q : State}
    (s : ParserState) (hno : parser.NoShift (parser.top stack) rest)
    (hdefault : (row (parser.top stack)).default = some r)
    (hbelow : stack.drop (rhs r).length = below)
    (hgoto : goto below (.nonterminal (lhs r)) = some q) :
    ∃ v, parser.Steps ⟨stack, rest, s⟩ ⟨(q, v) :: below, rest,
      action r (fun i => ((stack.take (rhs r).length).reverse.map Prod.snd).getD (i - 1) []) s⟩ := by
  subst hbelow
  exact ⟨_, Parser.Steps.reduce hno hdefault hgoto⟩

theorem noShift {q : State} (h : (row q).shifts = []) (hq : (row q).accepts = false)
    (rest : Tokens) : parser.NoShift q rest :=
  Parser.noShift_of_nil h hq rest

def Closes (rest : Tokens) : Prop :=
  ∃ t v rest', rest = (t, v) :: rest' ∧ (t = .comma ∨ t = .rightDash)

theorem Closes.noShift {rest : Tokens} (h : Closes rest) {q : State}
    (hcomma : parser.next q (.terminal .comma) = none)
    (hright : parser.next q (.terminal .rightDash) = none) : parser.NoShift q rest := by
  obtain ⟨t, v, rest', rfl, rfl | rfl⟩ := h
  · exact hcomma
  · exact hright

section Ignored
variable {q : State} (stack : Stack) (rest : Tokens) (s : ParserState)

theorem ignores_more (hgoto : goto stack (.nonterminal .ignores) = some q)
    (hmore : parser.next q (.terminal .ignore) = some .ignoresIgnore) (words : List Ignored)
    (v : Text) : ∃ v', parser.Steps
      ⟨(q, v) :: stack, tokens (words.map Ignored.piece) ++ rest, s⟩
      ⟨(q, v') :: stack, rest, s⟩ := by
  induction words generalizing v with
  | nil => exact ⟨v, .refl _⟩
  | cons word words ih =>
      have hshift := shift_step ((q, v) :: stack) [] (tokens (words.map Ignored.piece) ++ rest) s
        hmore
      obtain ⟨w, hreduce⟩ := reduce_step .ignoresMore ((.ignoresIgnore, []) :: (q, v) :: stack) stack
        s (noShift rfl rfl (tokens (words.map Ignored.piece) ++ rest)) rfl rfl hgoto
      obtain ⟨v', hrest⟩ := ih w
      exact ⟨v', (hshift.trans hreduce).trans hrest⟩

/-- Some ignored words, in a state that shifts the first of them. -/
theorem ignores_some (hgoto : goto stack (.nonterminal .ignores) = some q)
    (hmore : parser.next q (.terminal .ignore) = some .ignoresIgnore)
    (hshift : goto stack (.terminal .ignore) = some .ignore) (word : Ignored)
    (words : List Ignored) :
    Reads q stack (tokens ((word :: words).map Ignored.piece)) rest s s := by
  have hfirst := shift_step stack [] (tokens (words.map Ignored.piece) ++ rest) s hshift
  obtain ⟨v, hreduce⟩ := reduce_step .ignoresOne ((.ignore, []) :: stack) stack s
    (noShift rfl rfl (tokens (words.map Ignored.piece) ++ rest)) rfl rfl hgoto
  obtain ⟨v', hrest⟩ := ignores_more stack rest s hgoto hmore words v
  exact ⟨v', (hfirst.trans hreduce).trans hrest⟩

/-- Any number of ignored words, in a state that reduces the empty rule before another token. -/
theorem ignores_any (hgoto : goto stack (.nonterminal .ignores) = some q)
    (hmore : parser.next q (.terminal .ignore) = some .ignoresIgnore)
    (hshift : goto stack (.terminal .ignore) = some .ignore)
    (hdefault : (row (parser.top stack)).default = some .ignoresNone)
    (hrest : parser.NoShift (parser.top stack) rest) (words : List Ignored) :
    Reads q stack (tokens (words.map Ignored.piece)) rest s s := by
  cases words with
  | nil => exact reduce_step .ignoresNone stack stack s hrest hdefault rfl hgoto
  | cons word words => exact ignores_some stack rest s hgoto hmore hshift word words

end Ignored

section Column
variable (stack : Stack) {rest : Tokens} (s : ParserState)

def withType (type : ColumnType) (s : ParserState) : ParserState :=
  { s with columnDesc := { s.columnDesc with
      type := type.sormType
      mem := if type.mem = .none then s.columnDesc.mem else type.mem
      maxLen := if type.mem = .stack then type.maxLen else s.columnDesc.maxLen } }

theorem atoi_value (n : Number) : atoi n.digits = n.value := by
  rw [atoi, Nat.min_eq_left n.fits]
  rfl

theorem withType_text (n : Number) (s : ParserState) : withType (.text (some n)) s =
    { s with columnDesc := { s.columnDesc with
        type := .text, mem := .stack, maxLen := atoi n.digits } } := by
  rw [atoi_value]
  rfl

theorem withType_blob (n : Number) (s : ParserState) : withType (.blob (some n)) s =
    { s with columnDesc := { s.columnDesc with
        type := .blob, mem := .stack, maxLen := atoi n.digits } } := by
  rw [atoi_value]
  rfl

def lengthPath (n : Number) (opened number closed : State) : List (Terminal × Text × State) :=
  [(.leftDash, [], opened), (.number, n.digits, number), (.rightDash, [], closed)]

theorem columnType_reads (htop : parser.top stack = .columnName) (type : ColumnType)
    (htext : parser.NoShift .text rest) (hblob : parser.NoShift .blob rest) :
    Reads .columnType stack (tokens type.pieces) rest s (withType type s) := by
  have hgoto : ∀ x, goto stack x = parser.next .columnName x := by
    intro x
    rw [goto, htop]
  cases type with
  | integer =>
      have hshift := shift_step stack [] rest s (hgoto (.terminal .integer))
      obtain ⟨v, htype⟩ := reduce_step .typeInteger ((.integer, []) :: stack) stack s
        (noShift rfl rfl rest) rfl rfl (hgoto _)
      exact ⟨v, hshift.trans htype⟩
  | bigint =>
      have hshift := shift_step stack [] rest s (hgoto (.terminal .bigint))
      obtain ⟨v, htype⟩ := reduce_step .typeBigint ((.bigint, []) :: stack) stack s
        (noShift rfl rfl rest) rfl rfl (hgoto _)
      exact ⟨v, hshift.trans htype⟩
  | real =>
      have hshift := shift_step stack [] rest s (hgoto (.terminal .real))
      obtain ⟨v, htype⟩ := reduce_step .typeReal ((.real, []) :: stack) stack s
        (noShift rfl rfl rest) rfl rfl (hgoto _)
      exact ⟨v, hshift.trans htype⟩
  | text length =>
      cases length with
      | none =>
          have hshift := shift_step stack [] rest s (hgoto (.terminal .text))
          obtain ⟨v, hheap⟩ := reduce_step .textHeap ((.text, []) :: stack) stack s htext rfl rfl
            (hgoto _)
          obtain ⟨v', htype⟩ := reduce_step .typeText ((.textType, v) :: stack) stack _
            (noShift rfl rfl rest) rfl rfl (hgoto _)
          exact ⟨v', (hshift.trans hheap).trans htype⟩
      | some n =>
          have hpath := shift_path ((.text, [], .text) :: lengthPath n .textOpen .textNumber .textClosed)
            stack rest s ⟨hgoto _, rfl, rfl, rfl, trivial⟩
          obtain ⟨v, harray⟩ := reduce_step .textStack (pushed ((.text, [], .text) ::
            lengthPath n .textOpen .textNumber .textClosed) stack) stack s (noShift rfl rfl rest) rfl rfl
            (hgoto _)
          obtain ⟨v', htype⟩ := reduce_step .typeText ((.textType, v) :: stack) stack _
            (noShift rfl rfl rest) rfl rfl (hgoto _)
          rw [Reads, withType_text]
          exact ⟨v', (hpath.trans harray).trans htype⟩
  | blob length =>
      cases length with
      | none =>
          have hshift := shift_step stack [] rest s (hgoto (.terminal .blob))
          obtain ⟨v, hheap⟩ := reduce_step .blobHeap ((.blob, []) :: stack) stack s hblob rfl rfl
            (hgoto _)
          obtain ⟨v', htype⟩ := reduce_step .typeBlob ((.blobType, v) :: stack) stack _
            (noShift rfl rfl rest) rfl rfl (hgoto _)
          exact ⟨v', (hshift.trans hheap).trans htype⟩
      | some n =>
          have hpath := shift_path ((.blob, [], .blob) :: lengthPath n .blobOpen .blobNumber .blobClosed)
            stack rest s ⟨hgoto _, rfl, rfl, rfl, trivial⟩
          obtain ⟨v, harray⟩ := reduce_step .blobStack (pushed ((.blob, [], .blob) ::
            lengthPath n .blobOpen .blobNumber .blobClosed) stack) stack s (noShift rfl rfl rest) rfl rfl
            (hgoto _)
          obtain ⟨v', htype⟩ := reduce_step .typeBlob ((.blobType, v) :: stack) stack _
            (noShift rfl rfl rest) rfl rfl (hgoto _)
          rw [Reads, withType_blob]
          exact ⟨v', (hpath.trans harray).trans htype⟩

def withConstraint (c : Constraint) (s : ParserState) : ParserState :=
  { s with columnDesc := { s.columnDesc with constraint := c.sormConstraint } }

theorem constraint_reads {q : State}
    (hkey : goto stack (.terminal .primaryKey) = some .primaryKey)
    (hunique : goto stack (.terminal .unique) = some .unique)
    (hgoto : goto stack (.nonterminal .useColumnConstraint) = some q) (c : Constraint)
    (hrest : parser.NoShift .primaryKey rest) :
    Reads q stack (tokens c.pieces) rest s (withConstraint c s) := by
  cases c with
  | primaryKey =>
      have hshift := shift_step stack [] rest s hkey
      obtain ⟨v, hreduce⟩ := reduce_step .primaryKey ((.primaryKey, []) :: stack) stack s hrest rfl
        rfl hgoto
      exact ⟨v, hshift.trans hreduce⟩
  | primaryKeyAsc =>
      have hshift := shift_step stack [] ((.asc, []) :: rest) s hkey
      have hasc : goto ((.primaryKey, []) :: stack) (.terminal .asc) = some .asc := rfl
      have hshift' := shift_step ((.primaryKey, []) :: stack) [] rest s hasc
      obtain ⟨v, hreduce⟩ := reduce_step .primaryKeyAsc ((.asc, []) :: (.primaryKey, []) :: stack)
        stack s (noShift rfl rfl rest) rfl rfl hgoto
      exact ⟨v, (hshift.trans hshift').trans hreduce⟩
  | primaryKeyDesc =>
      have hshift := shift_step stack [] ((.desc, []) :: rest) s hkey
      have hdesc : goto ((.primaryKey, []) :: stack) (.terminal .desc) = some .desc := rfl
      have hshift' := shift_step ((.primaryKey, []) :: stack) [] rest s hdesc
      obtain ⟨v, hreduce⟩ := reduce_step .primaryKeyDesc ((.desc, []) :: (.primaryKey, []) :: stack)
        stack s (noShift rfl rfl rest) rfl rfl hgoto
      exact ⟨v, (hshift.trans hshift').trans hreduce⟩
  | unique =>
      have hshift := shift_step stack [] rest s hunique
      obtain ⟨v, hreduce⟩ := reduce_step .unique ((.unique, []) :: stack) stack s
        (noShift rfl rfl rest) rfl rfl hgoto
      exact ⟨v, hshift.trans hreduce⟩

/-- Ignored words and what closes a column are not part of the key. -/
theorem noShift_ignored {q : State} (hrest : Closes rest)
    (hignore : parser.next q (.terminal .ignore) = none)
    (hcomma : parser.next q (.terminal .comma) = none)
    (hright : parser.next q (.terminal .rightDash) = none) (words : List Ignored) :
    parser.NoShift q (tokens (words.map Ignored.piece) ++ rest) := by
  cases words with
  | nil => exact hrest.noShift hcomma hright
  | cons word words => exact hignore

/-- The constraint and the words behind it, in the state before its rules are reduced. -/
theorem constraintBehind_reads {q q' : State} (hrest : Closes rest)
    (hkey : goto stack (.terminal .primaryKey) = some .primaryKey)
    (hunique : goto stack (.terminal .unique) = some .unique)
    (hgoto : goto stack (.nonterminal .useColumnConstraint) = some q)
    (hq : parser.next q (.nonterminal .ignores) = some q')
    (hmore : parser.next q' (.terminal .ignore) = some .ignoresIgnore)
    (hshift : parser.next q (.terminal .ignore) = some .ignore)
    (hdefault : (row q).default = some .ignoresNone) (hno : parser.NoShift q rest)
    (c : Constraint) (words : List Ignored) :
    ∃ v v', parser.Steps ⟨stack, tokens (c.pieces ++ words.map Ignored.piece) ++ rest, s⟩
      ⟨(q', v') :: (q, v) :: stack, rest, withConstraint c s⟩ := by
  obtain ⟨v, hconstraint⟩ := constraint_reads stack s hkey hunique hgoto c
    (noShift_ignored hrest rfl rfl rfl words)
  have hq' : goto ((q, v) :: stack) (.nonterminal .ignores) = some q' := hq
  obtain ⟨v', hwords⟩ := ignores_any ((q, v) :: stack) rest (withConstraint c s) hq' hmore hshift
    hdefault hno words
  rw [tokens_append, List.append_assoc]
  exact ⟨v, v', hconstraint.trans hwords⟩

theorem columnConstraint_reads (htop : parser.top stack = .columnType) (hrest : Closes rest)
    (c : ColumnConstraint) :
    Reads .columnConstraint stack (tokens c.pieces) rest s (withConstraint c.constraint s) := by
  have hgoto : ∀ x, goto stack x = parser.next .columnType x := by
    intro x
    rw [goto, htop]
  obtain ⟨before, constraint, behind⟩ := c
  cases before with
  | nil =>
      obtain ⟨v, v', hsteps⟩ := constraintBehind_reads stack s hrest
        (hgoto (.terminal .primaryKey)) (hgoto (.terminal .unique))
        (hgoto (.nonterminal .useColumnConstraint)) rfl rfl rfl rfl (hrest.noShift rfl rfl)
        constraint behind
      obtain ⟨w, hreduce⟩ := reduce_step .constraintBefore
        ((.constraintIgnores, v') :: (.constraint, v) :: stack) stack (withConstraint constraint s)
        (hrest.noShift rfl rfl) rfl rfl (hgoto _)
      exact ⟨w, hsteps.trans hreduce⟩
  | cons word words =>
      obtain ⟨u, hbefore⟩ := ignores_some stack (tokens (constraint.pieces ++
        behind.map Ignored.piece) ++ rest) s (hgoto (.nonterminal .ignores)) rfl
        (hgoto (.terminal .ignore)) word words
      obtain ⟨v, v', hsteps⟩ := constraintBehind_reads ((.typeIgnores, u) :: stack) s
        hrest rfl rfl rfl rfl rfl rfl rfl (hrest.noShift rfl rfl) constraint behind
      obtain ⟨w, hreduce⟩ := reduce_step .constraintBetween
        ((.constraintBetween, v') :: (.ignoresConstraint, v) :: (.typeIgnores, u) :: stack) stack
        (withConstraint constraint s) (hrest.noShift rfl rfl) rfl rfl (hgoto _)
      rw [Reads, ColumnConstraint.pieces, tokens_append, List.append_assoc]
      exact ⟨w, (hbefore.trans hsteps).trans hreduce⟩

def ColumnDef.plain (column : ColumnDef) : ColumnDesc := column.describe []

def withColumn (column : ColumnDef) (s : ParserState) : ParserState :=
  { s with columnsNum := s.columnsNum + 1, columnsList := s.columnsList ++ [column.plain] }

theorem parseColumn_eq (column : ColumnDef) (hzero : s.columnDesc = .zero) :
    parseColumn column.name.text (match column.constraint with
      | none => withType column.type s
      | some c => withConstraint c.constraint (withType column.type s)) = withColumn column s := by
  obtain ⟨name, columnsNum, columnsList, columnDesc⟩ := s
  obtain rfl : columnDesc = .zero := hzero
  obtain ⟨name', type, constraint⟩ := column
  cases constraint <;> rcases type with _ | _ | (_ | n) | _ | (_ | n) <;> rfl

/-- What follows a type is not part of it. -/
theorem noShift_constraint {q : State} (hrest : Closes rest)
    (hcomma : parser.next q (.terminal .comma) = none)
    (hright : parser.next q (.terminal .rightDash) = none)
    (hignore : parser.next q (.terminal .ignore) = none)
    (hkey : parser.next q (.terminal .primaryKey) = none)
    (hunique : parser.next q (.terminal .unique) = none) (constraint : Option ColumnConstraint) :
    parser.NoShift q (tokens (constraintPieces constraint) ++ rest) := by
  rcases constraint with _ | ⟨_ | ⟨word, words⟩, c, behind⟩
  · exact hrest.noShift hcomma hright
  · cases c with
    | primaryKey => exact hkey
    | primaryKeyAsc => exact hkey
    | primaryKeyDesc => exact hkey
    | unique => exact hunique
  · exact hignore

theorem columnDef_reads {q : State} (hname : goto stack (.terminal .name) = some .columnName)
    (hgoto : goto stack (.nonterminal .columnDef) = some q) (hrest : Closes rest)
    (hzero : s.columnDesc = .zero) (column : ColumnDef) :
    Reads q stack (tokens column.pieces) rest s (withColumn column s) := by
  have hshift := shift_step stack column.name.text
    (tokens column.type.pieces ++ (tokens (constraintPieces column.constraint) ++ rest)) s hname
  obtain ⟨u, htype⟩ := columnType_reads ((.columnName, column.name.text) :: stack) s
    rfl column.type (noShift_constraint hrest rfl rfl rfl rfl rfl column.constraint)
    (noShift_constraint hrest rfl rfl rfl rfl rfl column.constraint)
  have hpieces : tokens column.pieces ++ rest = (.name, column.name.text) ::
      (tokens column.type.pieces ++ (tokens (constraintPieces column.constraint) ++ rest)) := by
    rw [ColumnDef.pieces, tokens, List.map_cons, ← tokens, tokens_append, List.cons_append,
      List.append_assoc]
    rfl
  rw [← parseColumn_eq s column hzero, Reads, hpieces]
  cases hconstraint : column.constraint with
  | none =>
      rw [hconstraint] at hshift htype
      obtain ⟨v, hreduce⟩ := reduce_step .columnPlain
        ((.columnType, u) :: (.columnName, column.name.text) :: stack) stack
        (withType column.type s) (hrest.noShift rfl rfl) rfl rfl hgoto
      exact ⟨v, (hshift.trans htype).trans hreduce⟩
  | some c =>
      rw [hconstraint] at hshift htype
      obtain ⟨w, hc⟩ := columnConstraint_reads ((.columnType, u) ::
        (.columnName, column.name.text) :: stack) (withType column.type s) rfl hrest c
      obtain ⟨v, hreduce⟩ := reduce_step .columnConstrained ((.columnConstraint, w) ::
        (.columnType, u) :: (.columnName, column.name.text) :: stack) stack
        (withConstraint c.constraint (withType column.type s)) (noShift rfl rfl rest) rfl rfl hgoto
      exact ⟨v, ((hshift.trans htype).trans hc).trans hreduce⟩

def withColumns : List ColumnDef → ParserState → ParserState
  | [], s => s
  | column :: columns, s => withColumns columns (withColumn column s)

theorem columns_more (htop : parser.top stack = .tableOpen) (hrest : Closes rest)
    (hzero : s.columnDesc = .zero) (columns : List ColumnDef) (v : Text) :
    ∃ v', parser.Steps ⟨(.columns, v) :: stack, tokens (columnsPieces columns) ++ rest, s⟩
      ⟨(.columns, v') :: stack, rest, withColumns columns s⟩ := by
  induction columns generalizing s v with
  | nil => exact ⟨v, .refl _⟩
  | cons column columns ih =>
      have hgoto : goto stack (.nonterminal .columnsDef) = some .columns := by rw [goto, htop]; rfl
      have hnext : Closes (tokens (columnsPieces columns) ++ rest) := by
        cases columns with
        | nil => exact hrest
        | cons next columns => exact ⟨.comma, [], _, rfl, .inl rfl⟩
      have hcolumns : goto ((.columns, v) :: stack) (.terminal .comma) = some .columnsComma := rfl
      have hcomma := shift_step ((.columns, v) :: stack) []
        (tokens column.pieces ++ (tokens (columnsPieces columns) ++ rest)) s hcolumns
      obtain ⟨w, hcolumn⟩ := columnDef_reads ((.columnsComma, []) :: (.columns, v) :: stack) s
        rfl rfl hnext hzero column
      obtain ⟨v', hreduce⟩ := reduce_step .columnsMore ((.nextColumn, w) :: (.columnsComma, []) ::
        (.columns, v) :: stack) stack (withColumn column s) (noShift rfl rfl _) rfl rfl hgoto
      obtain ⟨last, hmore⟩ := ih (withColumn column s) hzero v'
      have hpieces : tokens (columnsPieces (column :: columns)) ++ rest = (.comma, []) ::
          (tokens column.pieces ++ (tokens (columnsPieces columns) ++ rest)) := by
        rw [columnsPieces, tokens, List.map_cons, ← tokens, tokens_append, List.cons_append,
          List.append_assoc]
        rfl
      rw [hpieces]
      exact ⟨last, ((hcomma.trans hcolumn).trans hreduce).trans hmore⟩

theorem columns_reads (htop : parser.top stack = .tableOpen) (hrest : Closes rest)
    (hzero : s.columnDesc = .zero) (first : ColumnDef) (more : List ColumnDef) :
    Reads .columns stack (tokens (first.pieces ++ columnsPieces more)) rest s
      (withColumns (first :: more) s) := by
  have hgoto : ∀ x, goto stack x = parser.next .tableOpen x := by
    intro x
    rw [goto, htop]
  have hnext : Closes (tokens (columnsPieces more) ++ rest) := by
    cases more with
    | nil => exact hrest
    | cons next columns => exact ⟨.comma, [], _, rfl, .inl rfl⟩
  obtain ⟨u, hfirst⟩ := columnDef_reads stack s (hgoto (.terminal .name))
    (hgoto (.nonterminal .columnDef)) hnext hzero first
  obtain ⟨v, hreduce⟩ := reduce_step .columnsOne ((.firstColumn, u) :: stack) stack
    (withColumn first s) (noShift rfl rfl _) rfl rfl (hgoto _)
  obtain ⟨v', hmore⟩ := columns_more stack (withColumn first s) htop hrest hzero more v
  rw [tokens_append, Reads, List.append_assoc]
  exact ⟨v', (hfirst.trans hreduce).trans hmore⟩

end Column

section Defs
variable (stack : Stack) (rest : Tokens) (s : ParserState)

def withDef (tableDef : TableDef) (s : ParserState) : ParserState :=
  match tableDef with
  | .foreignKey column table foreignColumn _ =>
      { s with columnsList := setForeign column.text table.text foreignColumn.text s.columnsList }
  | .unique _ _ => s

theorem names_more (htop : parser.top stack = .uniqueOpen) (names : List Name)
    (v : Text) :
    ∃ v', parser.Steps ⟨(.uniqueColumns, v) :: stack, tokens (namesPieces names) ++ rest, s⟩
      ⟨(.uniqueColumns, v') :: stack, rest, s⟩ := by
  induction names generalizing v with
  | nil => exact ⟨v, .refl _⟩
  | cons name names ih =>
      have hgoto : goto stack (.nonterminal .uniqueColumns) = some .uniqueColumns := by
        rw [goto, htop]
        rfl
      have hcolumns : goto ((.uniqueColumns, v) :: stack) (.terminal .comma) = some .uniqueComma :=
        rfl
      have hname : goto ((.uniqueComma, []) :: (.uniqueColumns, v) :: stack) (.terminal .name) =
          some .uniqueNext := rfl
      have hcomma := shift_step ((.uniqueColumns, v) :: stack) []
        ((.name, name.text) :: (tokens (namesPieces names) ++ rest)) s hcolumns
      have hshift := shift_step ((.uniqueComma, []) :: (.uniqueColumns, v) :: stack) name.text
        (tokens (namesPieces names) ++ rest) s hname
      obtain ⟨w, hreduce⟩ := reduce_step .uniqueMore ((.uniqueNext, name.text) ::
        (.uniqueComma, []) :: (.uniqueColumns, v) :: stack) stack s
        (noShift rfl rfl (tokens (namesPieces names) ++ rest)) rfl rfl hgoto
      obtain ⟨v', hmore⟩ := ih w
      exact ⟨v', ((hcomma.trans hshift).trans hreduce).trans hmore⟩

theorem uniqueDef_reads {q : State} (hunique : goto stack (.terminal .unique) = some .tableUnique)
    (hgoto : goto stack (.nonterminal .tableDef) = some q) (first : Name) (more : List Name) :
    Reads q stack (tokens (TableDef.unique first more).pieces) rest s s := by
  have hopen := shift_path [(.unique, [], .tableUnique), (.leftDash, [], .uniqueOpen),
    (.name, first.text, .uniqueName)] stack (tokens (namesPieces more) ++ (.rightDash, []) :: rest) s
    ⟨hunique, rfl, rfl, trivial⟩
  obtain ⟨v, hfirst⟩ := reduce_step .uniqueOne ((.uniqueName, first.text) :: (.uniqueOpen, []) ::
    (.tableUnique, []) :: stack) ((.uniqueOpen, []) :: (.tableUnique, []) :: stack) s
    (noShift rfl rfl (tokens (namesPieces more) ++ (.rightDash, []) :: rest)) rfl rfl rfl
  obtain ⟨v', hmore⟩ := names_more ((.uniqueOpen, []) :: (.tableUnique, []) :: stack)
    ((.rightDash, []) :: rest) s rfl more v
  have hright : goto ((.uniqueColumns, v') :: (.uniqueOpen, []) :: (.tableUnique, []) :: stack)
      (.terminal .rightDash) = some .uniqueClosed := rfl
  have hclose := shift_step _ [] rest s hright
  obtain ⟨w, hreduce⟩ := reduce_step .uniqueColumns ((.uniqueClosed, []) :: (.uniqueColumns, v') ::
    (.uniqueOpen, []) :: (.tableUnique, []) :: stack) stack s (noShift rfl rfl rest) rfl rfl hgoto
  have hpieces : tokens (TableDef.unique first more).pieces ++ rest = (.unique, []) ::
      (.leftDash, []) :: (.name, first.text) ::
        (tokens (namesPieces more) ++ (.rightDash, []) :: rest) := by
    simp [TableDef.pieces, tokens, Piece.token, fixed, Name.piece, ParserLex.copied, ParserLex.isCopied]
  rw [Reads, hpieces]
  exact ⟨w, (((hopen.trans hfirst).trans hmore).trans hclose).trans hreduce⟩

theorem foreignDef_reads {q : State}
    (hforeign : goto stack (.terminal .foreignKey) = some .foreignKey)
    (hgoto : goto stack (.nonterminal .tableDef) = some q) (hrest : Closes rest)
    (column table foreignColumn : Name) (ignored : List Ignored) :
    Reads q stack (tokens (TableDef.foreignKey column table foreignColumn ignored).pieces) rest s
      (withDef (.foreignKey column table foreignColumn ignored) s) := by
  have hpath := shift_path [(.foreignKey, [], .foreignKey), (.leftDash, [], .foreignOpen),
    (.name, column.text, .foreignName), (.rightDash, [], .foreignClosed),
    (.references, [], .references), (.name, table.text, .referencesTable),
    (.leftDash, [], .referencesOpen), (.name, foreignColumn.text, .referencesColumn),
    (.rightDash, [], .referencesClosed)] stack (tokens (ignored.map Ignored.piece) ++ rest) s
    ⟨hforeign, rfl, rfl, rfl, rfl, rfl, rfl, rfl, rfl, trivial⟩
  obtain ⟨v, hignored⟩ := ignores_any ((.referencesClosed, []) ::
    (.referencesColumn, foreignColumn.text) :: (.referencesOpen, []) ::
    (.referencesTable, table.text) :: (.references, []) :: (.foreignClosed, []) ::
    (.foreignName, column.text) :: (.foreignOpen, []) :: (.foreignKey, []) :: stack) rest s rfl rfl
    rfl rfl (hrest.noShift rfl rfl) ignored
  obtain ⟨w, hreduce⟩ := reduce_step .foreignKey ((.referencesIgnores, v) ::
    (.referencesClosed, []) :: (.referencesColumn, foreignColumn.text) :: (.referencesOpen, []) ::
    (.referencesTable, table.text) :: (.references, []) :: (.foreignClosed, []) ::
    (.foreignName, column.text) :: (.foreignOpen, []) :: (.foreignKey, []) :: stack) stack s
    (hrest.noShift rfl rfl) rfl rfl hgoto
  rw [Reads, TableDef.pieces, tokens_append, List.append_assoc]
  exact ⟨w, (hpath.trans hignored).trans hreduce⟩

theorem tableDef_reads {q : State} (hunique : goto stack (.terminal .unique) = some .tableUnique)
    (hforeign : goto stack (.terminal .foreignKey) = some .foreignKey)
    (hgoto : goto stack (.nonterminal .tableDef) = some q) (hrest : Closes rest)
    (tableDef : TableDef) :
    Reads q stack (tokens tableDef.pieces) rest s (withDef tableDef s) := by
  cases tableDef with
  | foreignKey column table foreignColumn ignored =>
      exact foreignDef_reads stack rest s hforeign hgoto hrest column table foreignColumn ignored
  | unique first more => exact uniqueDef_reads stack rest s hunique hgoto first more

def withDefs : List TableDef → ParserState → ParserState
  | [], s => s
  | tableDef :: defs, s => withDefs defs (withDef tableDef s)

theorem defs_more (hgoto : goto stack (.nonterminal .tableDefs) = some .tableDefs)
    (hrest : Closes rest) (defs : List TableDef) (v : Text) :
    ∃ v', parser.Steps ⟨(.tableDefs, v) :: stack, tokens (defsPieces defs) ++ rest, s⟩
      ⟨(.tableDefs, v') :: stack, rest, withDefs defs s⟩ := by
  induction defs generalizing s v with
  | nil => exact ⟨v, .refl _⟩
  | cons tableDef defs ih =>
      have hnext : Closes (tokens (defsPieces defs) ++ rest) := by
        cases defs with
        | nil => exact hrest
        | cons next defs => exact ⟨.comma, [], _, rfl, .inl rfl⟩
      have hcomma : goto ((.tableDefs, v) :: stack) (.terminal .comma) = some .defsComma := rfl
      have hshift := shift_step ((.tableDefs, v) :: stack) []
        (tokens tableDef.pieces ++ (tokens (defsPieces defs) ++ rest)) s hcomma
      obtain ⟨w, hdef⟩ := tableDef_reads ((.defsComma, []) :: (.tableDefs, v) :: stack) _ s rfl rfl
        rfl hnext tableDef
      obtain ⟨v', hreduce⟩ := reduce_step .defsMore ((.nextDef, w) :: (.defsComma, []) ::
        (.tableDefs, v) :: stack) stack (withDef tableDef s) (noShift rfl rfl _) rfl rfl hgoto
      obtain ⟨last, hmore⟩ := ih (withDef tableDef s) v'
      have hpieces : tokens (defsPieces (tableDef :: defs)) ++ rest = (.comma, []) ::
          (tokens tableDef.pieces ++ (tokens (defsPieces defs) ++ rest)) := by
        rw [defsPieces, tokens, List.map_cons, ← tokens, tokens_append, List.cons_append,
          List.append_assoc]
        rfl
      rw [hpieces]
      exact ⟨last, ((hshift.trans hdef).trans hreduce).trans hmore⟩

theorem defs_reads (htop : parser.top stack = .columnsComma) (hrest : Closes rest)
    (first : TableDef) (more : List TableDef) :
    Reads .tableDefs stack (tokens (first.pieces ++ defsPieces more)) rest s
      (withDefs (first :: more) s) := by
  have hgoto : ∀ x, goto stack x = parser.next .columnsComma x := by
    intro x
    rw [goto, htop]
  have hnext : Closes (tokens (defsPieces more) ++ rest) := by
    cases more with
    | nil => exact hrest
    | cons next defs => exact ⟨.comma, [], _, rfl, .inl rfl⟩
  obtain ⟨u, hfirst⟩ := tableDef_reads stack _ s (hgoto (.terminal .unique))
    (hgoto (.terminal .foreignKey)) (hgoto (.nonterminal .tableDef)) hnext first
  obtain ⟨v, hreduce⟩ := reduce_step .defsOne ((.firstDef, u) :: stack) stack (withDef first s)
    (noShift rfl rfl _) rfl rfl (hgoto _)
  obtain ⟨v', hmore⟩ := defs_more stack rest (withDef first s) (hgoto (.nonterminal .tableDefs)) hrest
    more v
  rw [tokens_append, Reads, List.append_assoc]
  exact ⟨v', (hfirst.trans hreduce).trans hmore⟩

end Defs

def headStack (u v : Text) : Stack :=
  [(.tableOpen, []), (.tableName, v), (.tableIgnores, u), (.createTable, []), (.create, [])]

theorem head_steps (st : Statement) (rest : Tokens) (s : ParserState) :
    ∃ u, parser.Steps ⟨[], tokens (fixed .create :: fixed .table :: (st.ignored.map Ignored.piece ++
        [st.name.piece, fixed .leftDash])) ++ rest, s⟩ ⟨headStack u st.name.text, rest, s⟩ := by
  have hcreate := shift_path [(.create, [], .create), (.table, [], .createTable)] []
    (tokens (st.ignored.map Ignored.piece) ++ ((.name, st.name.text) :: (.leftDash, []) :: rest)) s
    ⟨rfl, rfl, trivial⟩
  obtain ⟨u, hignored⟩ := ignores_any [(.createTable, []), (.create, [])]
    ((.name, st.name.text) :: (.leftDash, []) :: rest) s rfl rfl rfl rfl rfl st.ignored
  have hname := shift_path [(.name, st.name.text, .tableName), (.leftDash, [], .tableOpen)]
    [(.tableIgnores, u), (.createTable, []), (.create, [])] rest s ⟨rfl, rfl, trivial⟩
  have hpieces : tokens (fixed .create :: fixed .table :: (st.ignored.map Ignored.piece ++
      [st.name.piece, fixed .leftDash])) ++ rest = (.create, []) :: (.table, []) ::
        (tokens (st.ignored.map Ignored.piece) ++
          ((.name, st.name.text) :: (.leftDash, []) :: rest)) := by
    rw [tokens, List.map_cons, List.map_cons, ← tokens, tokens_append, List.cons_append,
      List.cons_append, List.append_assoc]
    rfl
  rw [hpieces]
  exact ⟨u, (hcreate.trans hignored).trans hname⟩

/-- The last two reductions. -/
theorem root_steps (v : Text) (s : ParserState) :
    ∃ v', parser.Steps ⟨[(.statement, v)], [], s⟩ ⟨[(.root, v')], [], s⟩ :=
  reduce_step .root [(.statement, v)] [] s rfl rfl rfl rfl

def Statement.result (st : Statement) : ParserState :=
  { withDefs st.defs (withColumns st.columns .initial) with name := some st.name.text }

theorem statement_pieces (st : Statement) : tokens st.pieces =
    tokens (fixed .create :: fixed .table :: (st.ignored.map Ignored.piece ++
        [st.name.piece, fixed .leftDash])) ++
      (tokens (st.first.pieces ++ columnsPieces st.more) ++
        (tokens (defsPieces st.defs) ++ [(.rightDash, [])])) := by
  simp [Statement.pieces, tokens, Piece.token, fixed, ParserLex.copied, ParserLex.isCopied]

/-- The columns are followed by the closing parenthesis. -/
theorem closed_steps (u v w : Text) (s : ParserState) :
    ∃ v', parser.Steps ⟨(.columns, w) :: headStack u v, [(.rightDash, [])], s⟩
      ⟨[(.root, v')], [], { s with name := some v }⟩ := by
  have hright : goto ((.columns, w) :: headStack u v) (.terminal .rightDash) = some .tableClosed :=
    rfl
  have hshift := shift_step ((.columns, w) :: headStack u v) [] [] s hright
  obtain ⟨x, hreduce⟩ := reduce_step .statement ((.tableClosed, []) :: (.columns, w) ::
    headStack u v) [] s (noShift rfl rfl []) rfl rfl rfl
  obtain ⟨y, hroot⟩ := root_steps x _
  exact ⟨y, (hshift.trans hreduce).trans hroot⟩

/-- The columns are followed by definitions. -/
theorem defs_steps (u v w : Text) (s : ParserState) (first : TableDef) (more : List TableDef) :
    ∃ v', parser.Steps ⟨(.columns, w) :: headStack u v,
        tokens (defsPieces (first :: more)) ++ [(.rightDash, [])], s⟩
      ⟨[(.root, v')], [], { withDefs (first :: more) s with name := some v }⟩ := by
  have hcomma : goto ((.columns, w) :: headStack u v) (.terminal .comma) = some .columnsComma := rfl
  have hshift := shift_step ((.columns, w) :: headStack u v) []
    (tokens (first.pieces ++ defsPieces more) ++ [(.rightDash, [])]) s hcomma
  obtain ⟨x, hdefs⟩ := defs_reads ((.columnsComma, []) :: (.columns, w) :: headStack u v)
    [(.rightDash, [])] s rfl ⟨_, _, _, rfl, .inr rfl⟩ first more
  have hright : goto ((.tableDefs, x) :: (.columnsComma, []) :: (.columns, w) :: headStack u v)
      (.terminal .rightDash) = some .defsClosed := rfl
  have hclose := shift_step _ [] [] (withDefs (first :: more) s) hright
  obtain ⟨y, hreduce⟩ := reduce_step .statementDefs ((.defsClosed, []) :: (.tableDefs, x) ::
    (.columnsComma, []) :: (.columns, w) :: headStack u v) [] (withDefs (first :: more) s)
    (noShift rfl rfl []) rfl rfl rfl
  obtain ⟨z, hroot⟩ := root_steps y _
  exact ⟨z, (((hshift.trans hdefs).trans hclose).trans hreduce).trans hroot⟩

theorem statement_steps (st : Statement) :
    ∃ v, parser.Steps ⟨[], tokens st.pieces, .initial⟩ ⟨[(.root, v)], [], st.result⟩ := by
  have hnext : Closes (tokens (defsPieces st.defs) ++ [(.rightDash, [])]) := by
    cases st.defs with
    | nil => exact ⟨_, _, _, rfl, .inr rfl⟩
    | cons first more => exact ⟨.comma, [], _, rfl, .inl rfl⟩
  obtain ⟨u, hhead⟩ := head_steps st (tokens (st.first.pieces ++ columnsPieces st.more) ++
    (tokens (defsPieces st.defs) ++ [(.rightDash, [])])) .initial
  obtain ⟨w, hcolumns⟩ := columns_reads (headStack u st.name.text) .initial rfl hnext rfl st.first
    st.more
  have hlast : ∃ v, parser.Steps ⟨(.columns, w) :: headStack u st.name.text,
      tokens (defsPieces st.defs) ++ [(.rightDash, [])], withColumns st.columns .initial⟩
      ⟨[(.root, v)], [], st.result⟩ := by
    rw [Statement.result]
    cases st.defs with
    | nil => exact closed_steps u st.name.text w _
    | cons first more => exact defs_steps u st.name.text w _ first more
  obtain ⟨v, hlast⟩ := hlast
  rw [statement_pieces]
  exact ⟨v, (hhead.trans hcolumns).trans hlast⟩

theorem withColumns_eq (columns : List ColumnDef) (s : ParserState) :
    withColumns columns s = { s with
      columnsNum := s.columnsNum + columns.length
      columnsList := s.columnsList ++ columns.map ColumnDef.plain } := by
  induction columns generalizing s with
  | nil => simp [withColumns]
  | cons column columns ih =>
      rw [withColumns, ih, withColumn, List.length_cons, List.map_cons]
      simp only [ParserState.mk.injEq, List.append_assoc, List.cons_append, List.nil_append, and_true,
        true_and]
      omega

/-- A definition is behind those before it. -/
theorem foreignOf_append (defs : List TableDef) (tableDef : TableDef) (column : Name) :
    foreignOf (defs ++ [tableDef]) column =
      (tableDef.refersTo column).or (foreignOf defs column) := by
  rw [foreignOf, foreignOf, List.filterMap_append]
  cases h : tableDef.refersTo column with
  | none => simp [h]
  | some reference => simp [h]

theorem describe_append (defs : List TableDef) (tableDef : TableDef) (column : ColumnDef)
    (h : tableDef.refersTo column.name = none) :
    column.describe (defs ++ [tableDef]) = column.describe defs := by
  rw [ColumnDef.describe, foreignOf_append, h, Option.none_or]
  rfl

/-- The loop finds the column of the name, and it is the only one. -/
theorem setForeign_describe (defs : List TableDef) (name table foreignColumn : Name)
    (ignored : List Ignored) {columns : List ColumnDef}
    (hdistinct : (columns.map fun column => column.name.text).Nodup) :
    setForeign name.text table.text foreignColumn.text (columns.map (ColumnDef.describe defs)) =
      columns.map (ColumnDef.describe (defs ++ [.foreignKey name table foreignColumn ignored])) := by
  induction columns with
  | nil => rfl
  | cons column columns ih =>
      rw [List.map_cons, List.nodup_cons] at hdistinct
      obtain ⟨hnew, hdistinct⟩ := hdistinct
      rw [List.map_cons, List.map_cons, setForeign]
      by_cases hname : column.name.text = name.text
      · have hfound : (column.describe defs).name = some name.text := congrArg some hname
        have hrefers : (TableDef.foreignKey name table foreignColumn ignored).refersTo column.name =
            some (table.text, foreignColumn.text) := if_pos hname.symm
        have hhead : column.describe (defs ++ [.foreignKey name table foreignColumn ignored]) =
            { column.describe defs with
              isForeignKey := true
              foreignTableName := some table.text
              foreignColumnName := some foreignColumn.text } := by
          rw [ColumnDef.describe, foreignOf_append, hrefers]
          rfl
        have hrest : columns.map (ColumnDef.describe defs) = columns.map
            (ColumnDef.describe (defs ++ [.foreignKey name table foreignColumn ignored])) := by
          refine List.map_congr_left fun other hmem => ?_
          have hne : (TableDef.foreignKey name table foreignColumn ignored).refersTo other.name =
              none := by
            refine if_neg fun heq => hnew ?_
            exact List.mem_map.mpr ⟨other, hmem, heq.symm.trans hname.symm⟩
          exact (describe_append _ _ _ hne).symm
        rw [if_pos hfound, hhead, hrest]
      · have hother : (column.describe defs).name ≠ some name.text :=
          fun heq => hname (Option.some.inj heq)
        have hrefers : (TableDef.foreignKey name table foreignColumn ignored).refersTo column.name =
            none := if_neg fun heq => hname heq.symm
        rw [if_neg hother, describe_append _ _ _ hrefers, ih hdistinct]

theorem withDefs_eq (defs defs' : List TableDef) {columns : List ColumnDef}
    (hdistinct : (columns.map fun column => column.name.text).Nodup) (s : ParserState)
    (h : s.columnsList = columns.map (ColumnDef.describe defs)) :
    withDefs defs' s =
      { s with columnsList := columns.map (ColumnDef.describe (defs ++ defs')) } := by
  induction defs' generalizing defs s with
  | nil =>
      rw [withDefs, List.append_nil, ← h]
  | cons tableDef defs' ih =>
      have hlist : (withDef tableDef s).columnsList =
          columns.map (ColumnDef.describe (defs ++ [tableDef])) := by
        cases tableDef with
        | foreignKey name table foreignColumn ignored =>
            rw [withDef, h]
            exact setForeign_describe defs name table foreignColumn ignored hdistinct
        | unique first more =>
            rw [withDef, h]
            exact List.map_congr_left fun column _ => (describe_append _ _ _ rfl).symm
      have hfields : ∀ list, { withDef tableDef s with columnsList := list } =
          { s with columnsList := list } := by
        intro list
        cases tableDef <;> rfl
      rw [withDefs, ih (defs ++ [tableDef]) (withDef tableDef s) hlist, hfields, List.append_assoc]
      rfl

theorem result_eq (st : Statement) : st.result =
    ⟨some st.name.text, st.columns.length, st.columns.map (ColumnDef.describe st.defs), .zero⟩ := by
  have hlist : (withColumns st.columns .initial).columnsList =
      st.columns.map (ColumnDef.describe []) := by
    rw [withColumns_eq]
    rfl
  rw [Statement.result, withDefs_eq [] st.defs st.distinct _ hlist, withColumns_eq,
    List.nil_append]
  simp [ParserState.initial, Statement.columns]

/-- A printed statement is accepted and leaves its descriptor. -/
theorem yyparse_print (st : Statement) : yyparse (ParserLex.yylex st.print) =
    (true, ⟨some st.name.text, st.columns.length, st.columns.map (ColumnDef.describe st.defs),
      .zero⟩) := by
  obtain ⟨v, hsteps⟩ := statement_steps st
  rw [yylex_print, ← result_eq]
  exact yyparse_eq hsteps rfl

def ColumnDef.plainWords (column : ColumnDef) : ColumnDef :=
  { column with constraint := column.constraint.map fun c => ⟨[], c.constraint, []⟩ }

def TableDef.plainWords : TableDef → TableDef
  | .foreignKey column table foreignColumn _ => .foreignKey column table foreignColumn []
  | .unique first more => .unique first more

def Statement.plainWords (st : Statement) : Statement where
  ignored := []
  name := st.name
  first := st.first.plainWords
  more := st.more.map ColumnDef.plainWords
  defs := st.defs.map TableDef.plainWords
  distinct := by
    have hnames := st.distinct
    rw [List.map_cons] at hnames ⊢
    rwa [List.map_map]

theorem refersTo_plainWords (column : Name) (tableDef : TableDef) :
    tableDef.plainWords.refersTo column = tableDef.refersTo column := by
  cases tableDef <;> rfl

theorem foreignOf_plainWords (defs : List TableDef) (column : Name) :
    foreignOf (defs.map TableDef.plainWords) column = foreignOf defs column := by
  rw [foreignOf, foreignOf, List.filterMap_map]
  congr 2
  funext tableDef
  exact refersTo_plainWords column tableDef

theorem describe_plainWords (defs : List TableDef) (column : ColumnDef) :
    column.plainWords.describe (defs.map TableDef.plainWords) = column.describe defs := by
  have hconstraint : constraintOf column.plainWords.constraint = constraintOf column.constraint := by
    rw [ColumnDef.plainWords]
    cases column.constraint <;> rfl
  rw [ColumnDef.describe, ColumnDef.describe, hconstraint, ColumnDef.plainWords,
    foreignOf_plainWords]

/-- A column is a foreign key if some definition names it. -/
theorem foreignOf_isSome_iff (defs : List TableDef) (column : Name) :
    (foreignOf defs column).isSome ↔ ∃ name table foreignColumn ignored,
      TableDef.foreignKey name table foreignColumn ignored ∈ defs ∧ name.text = column.text := by
  rw [foreignOf, List.getLast?_isSome]
  constructor
  · intro hne
    obtain ⟨reference, hmem⟩ := List.exists_mem_of_ne_nil _ hne
    obtain ⟨tableDef, hdef, hrefers⟩ := List.mem_filterMap.mp hmem
    cases tableDef with
    | foreignKey name table foreignColumn ignored =>
        by_cases hname : name.text = column.text
        · exact ⟨name, table, foreignColumn, ignored, hdef, hname⟩
        · cases (if_neg hname).symm.trans hrefers
    | unique first more => cases hrefers
  · rintro ⟨name, table, foreignColumn, ignored, hdef, hname⟩
    exact List.ne_nil_of_mem (List.mem_filterMap.mpr ⟨_, hdef, if_pos hname⟩)

structure Statement.Describes (st : Statement) (result : ParserState) : Prop where
  name : result.name = some st.name.text
  columnsNum : result.columnsNum = st.columns.length
  columnsList : result.columnsList = st.columns.map (ColumnDef.describe st.defs)
  isForeignKey : ∀ column : ColumnDef, (column.describe st.defs).isForeignKey ↔
    ∃ name table foreignColumn ignored,
      TableDef.foreignKey name table foreignColumn ignored ∈ st.defs ∧
        name.text = column.name.text

/-- Every statement of the grammar is accepted when its tokens are received, and its columns are
described as they are written: in their order, each with its own type and constraint, the foreign
keys from the definitions behind them, and nothing from the ignored words. -/
theorem parser_faithful (st : Statement) :
    ∃ result, yyparse (ParserLex.yylex st.print) = (true, result) ∧ st.Describes result ∧
      yyparse (ParserLex.yylex st.plainWords.print) = (true, result) := by
  have hcolumns : st.plainWords.columns.map (ColumnDef.describe st.plainWords.defs) =
      st.columns.map (ColumnDef.describe st.defs) := by
    have hmap : st.plainWords.columns = st.columns.map ColumnDef.plainWords := rfl
    rw [hmap, List.map_map]
    exact List.map_congr_left fun column _ => describe_plainWords st.defs column
  have hlength : st.plainWords.columns.length = st.columns.length := by
    change (st.columns.map ColumnDef.plainWords).length = _
    rw [List.length_map]
  refine ⟨_, yyparse_print st, ⟨rfl, rfl, rfl, ?_⟩, ?_⟩
  · intro column
    exact foreignOf_isSome_iff st.defs column.name
  · rw [yyparse_print, hcolumns, hlength]
    rfl

def copiesOf (pieces : List Piece) : ℕ := ParserLex.copies (tokens pieces)

theorem copiesOf_append (pieces pieces' : List Piece) :
    copiesOf (pieces ++ pieces') = copiesOf pieces + copiesOf pieces' := by
  rw [copiesOf, tokens_append]
  exact List.countP_append

theorem copiesOf_cons (piece : Piece) (pieces : List Piece) :
    copiesOf (piece :: pieces) = copiesOf [piece] + copiesOf pieces :=
  copiesOf_append [piece] pieces

theorem copiesOf_ignored (words : List Ignored) : copiesOf (words.map Ignored.piece) = 0 := by
  induction words with
  | nil => rfl
  | cons word words ih =>
      rw [List.map_cons, copiesOf_cons, ih]
      rfl

theorem copiesOf_constraint (constraint : Option ColumnConstraint) :
    copiesOf (constraintPieces constraint) = 0 := by
  cases constraint with
  | none => rfl
  | some c =>
      rw [constraintPieces, ColumnConstraint.pieces, copiesOf_append, copiesOf_append,
        copiesOf_ignored, copiesOf_ignored]
      cases c.constraint <;> rfl

theorem copiesOf_columnDef (column : ColumnDef) :
    copiesOf column.plainWords.pieces = copiesOf column.pieces := by
  rw [ColumnDef.pieces, ColumnDef.pieces, copiesOf_cons, copiesOf_append, copiesOf_constraint,
    copiesOf_cons column.name.piece, copiesOf_append, copiesOf_constraint]
  rfl

theorem copiesOf_columns (columns : List ColumnDef) :
    copiesOf (columnsPieces (columns.map ColumnDef.plainWords)) =
      copiesOf (columnsPieces columns) := by
  induction columns with
  | nil => rfl
  | cons column columns ih =>
      rw [List.map_cons, columnsPieces, columnsPieces, copiesOf_cons, copiesOf_append, ih,
        copiesOf_columnDef, ← copiesOf_append, ← copiesOf_cons]

theorem copiesOf_tableDef (tableDef : TableDef) :
    copiesOf tableDef.plainWords.pieces = copiesOf tableDef.pieces := by
  cases tableDef with
  | foreignKey column table foreignColumn ignored =>
      rw [TableDef.plainWords, TableDef.pieces, TableDef.pieces, copiesOf_append, copiesOf_append,
        copiesOf_ignored, copiesOf_ignored]
  | unique first more => rfl

theorem copiesOf_defs (defs : List TableDef) :
    copiesOf (defsPieces (defs.map TableDef.plainWords)) = copiesOf (defsPieces defs) := by
  induction defs with
  | nil => rfl
  | cons tableDef defs ih =>
      rw [List.map_cons, defsPieces, defsPieces, copiesOf_cons, copiesOf_append, ih,
        copiesOf_tableDef, ← copiesOf_append, ← copiesOf_cons]

theorem copiesOf_plainWords (st : Statement) :
    copiesOf st.plainWords.pieces = copiesOf st.pieces := by
  have hpieces : ∀ st : Statement, copiesOf st.pieces = copiesOf [fixed .create] +
      (copiesOf [fixed .table] + (copiesOf [st.name.piece] + (copiesOf [fixed .leftDash] +
        (copiesOf st.first.pieces + (copiesOf (columnsPieces st.more) +
          (copiesOf (defsPieces st.defs) + copiesOf [fixed .rightDash])))))) := by
    intro st
    rw [Statement.pieces, copiesOf_cons, copiesOf_cons (fixed .table), copiesOf_append,
      copiesOf_ignored, Nat.zero_add, copiesOf_cons st.name.piece, copiesOf_cons (fixed .leftDash),
      copiesOf_append, copiesOf_append, copiesOf_append]
  rw [hpieces, hpieces]
  change _ + (_ + (_ + (_ + (copiesOf st.first.plainWords.pieces +
    (copiesOf (columnsPieces (st.more.map ColumnDef.plainWords)) +
      (copiesOf (defsPieces (st.defs.map TableDef.plainWords)) + _)))))) = _
  rw [copiesOf_columnDef, copiesOf_columns, copiesOf_defs]
  rfl

/-- The copies of a statement's names and numbers can be found again behind an `int`. -/
def Statement.CopiesFit (strdup : ℕ → Address) (st : Statement) : Prop :=
  ∀ k < copiesOf st.pieces, ParserLex.throughInt (strdup k) = strdup k

theorem Statement.copiesFit_iff (strdup : ℕ → Address) (st : Statement) :
    st.CopiesFit strdup ↔ ParserYacc.CopiesFit strdup st.print := by
  rw [Statement.CopiesFit, ParserYacc.CopiesFit, yylex_print]
  rfl

theorem parse_print (strdup : ℕ → Address) (st : Statement) :
    (st.CopiesFit strdup ∧ parse strdup st.print = .ok (yyparse (ParserLex.yylex st.print))) ∨
      (¬ st.CopiesFit strdup ∧ parse strdup st.print = .error .undefined) := by
  rw [st.copiesFit_iff]
  exact parse_eq strdup st.print

/-- The table parser is faithful to a statement exactly when the addresses of the copies that the
scanner makes of its names and numbers survive their way through an `int`. -/
theorem parser_faithful_iff (strdup : ℕ → Address) (st : Statement) :
    (∃ result, parse strdup st.print = .ok (true, result) ∧ st.Describes result ∧
      parse strdup st.plainWords.print = .ok (true, result)) ↔ st.CopiesFit strdup := by
  have hplain : st.plainWords.CopiesFit strdup ↔ st.CopiesFit strdup := by
    rw [Statement.CopiesFit, copiesOf_plainWords]
    rfl
  obtain ⟨result, hparse, hdescribes, hignored⟩ := parser_faithful st
  constructor
  · rintro ⟨result', hok, -, -⟩
    obtain ⟨hfit, -⟩ | ⟨-, hlost⟩ := parse_print strdup st
    · exact hfit
    · cases hok.symm.trans hlost
  · intro hfit
    obtain ⟨-, hok⟩ | ⟨hno, -⟩ := parse_print strdup st
    · obtain ⟨-, hokPlain⟩ | ⟨hno, -⟩ := parse_print strdup st.plainWords
      · exact ⟨result, by rw [hok, hparse], hdescribes, by rw [hokPlain, hignored]⟩
      · exact absurd (hplain.mpr hfit) hno
    · exact absurd hfit hno

def idStatement : Statement where
  ignored := []
  name := ⟨['a'], by simp [ParserLex.isNameChar], 'a', by simp, rfl⟩
  first := ⟨⟨['i', 'd'], by simp [ParserLex.isNameChar], 'i', by simp, rfl⟩, .integer, none⟩
  more := []
  defs := []
  distinct := by decide

/-- Addresses above the first 4 GiB are lost. -/
theorem not_parser_faithful : ¬ ∀ (strdup : ℕ → Address) (st : Statement),
    ∃ result, parse strdup st.print = .ok (true, result) ∧ st.Describes result ∧
      parse strdup st.plainWords.print = .ok (true, result) := by
  intro h
  obtain ⟨result, hok, -, -⟩ := h (fun k => 0x5555555592a0 + 32 * k) idStatement
  obtain ⟨hfit, -⟩ | ⟨-, hlost⟩ := parse_print (fun k => 0x5555555592a0 + 32 * k) idStatement
  · exact absurd (hfit 0 (by decide)) (by decide)
  · cases hok.symm.trans hlost

end CreateTable
end Sorm
