import Sorm.ParserYacc

/-!
# CREATE TABLE statements

The statements of the grammar as data, how they are printed with one blank between two tokens, and
the descriptor each of them describes.
-/

namespace Sorm

open ParserLex ParserYacc

namespace CreateTable

structure Name where
  text : Text
  chars : ∀ c ∈ text, isNameChar c
  notNumber : ∃ c ∈ text, c.isDigit = false

structure Number where
  digits : Text
  nonempty : digits ≠ []
  isDigit : ∀ c ∈ digits, c.isDigit
  fits : decimal digits ≤ intMax

def Number.value (n : Number) : ℕ := decimal n.digits

/-- An upper-case word that no keyword is or begins with. -/
structure Ignored where
  text : Text
  nonempty : text ≠ []
  isUpper : ∀ c ∈ text, c.isUpper
  notKeyword : keywords.lookup text = none
  notKeyWord : keyWords.lookup text = none

inductive ColumnType
  | integer
  | bigint
  | text (length : Option Number)
  | real
  | blob (length : Option Number)

inductive Constraint
  | primaryKey
  | primaryKeyAsc
  | primaryKeyDesc
  | unique

structure ColumnConstraint where
  before : List Ignored
  constraint : Constraint
  behind : List Ignored

structure ColumnDef where
  name : Name
  type : ColumnType
  constraint : Option ColumnConstraint

inductive TableDef
  | foreignKey (column table foreignColumn : Name) (ignored : List Ignored)
  | unique (first : Name) (more : List Name)

structure Statement where
  ignored : List Ignored
  name : Name
  first : ColumnDef
  more : List ColumnDef
  defs : List TableDef
  distinct : ((first :: more).map fun column => column.name.text).Nodup

def Statement.columns (s : Statement) : List ColumnDef := s.first :: s.more

structure Piece where
  text : Text
  terminal : Terminal

def Piece.token (piece : Piece) : Terminal × Text := (piece.terminal, copied piece.terminal piece.text)

def spelling : Terminal → Text
  | .create => "CREATE".toList
  | .table => "TABLE".toList
  | .leftBracket => ['\x7b']
  | .leftDash => ['(']
  | .rightBracket => ['\x7d']
  | .rightDash => [')']
  | .comma => [',']
  | .integer => "INTEGER".toList
  | .bigint => "BIGINT".toList
  | .text => "TEXT".toList
  | .real => "REAL".toList
  | .primaryKey => "PRIMARY KEY".toList
  | .asc => "ASC".toList
  | .desc => "DESC".toList
  | .unique => "UNIQUE".toList
  | .foreignKey => "FOREIGN KEY".toList
  | .references => "REFERENCES".toList
  | .blob => "BLOB".toList
  | .name | .number | .ignore => []

def fixed (t : Terminal) : Piece := ⟨spelling t, t⟩

def Name.piece (name : Name) : Piece := ⟨name.text, .name⟩

def Number.piece (n : Number) : Piece := ⟨n.digits, .number⟩

def Ignored.piece (word : Ignored) : Piece := ⟨word.text, .ignore⟩

def lengthPieces : Option Number → List Piece
  | none => []
  | some n => [fixed .leftDash, n.piece, fixed .rightDash]

def ColumnType.pieces : ColumnType → List Piece
  | .integer => [fixed .integer]
  | .bigint => [fixed .bigint]
  | .text length => fixed .text :: lengthPieces length
  | .real => [fixed .real]
  | .blob length => fixed .blob :: lengthPieces length

def Constraint.pieces : Constraint → List Piece
  | .primaryKey => [fixed .primaryKey]
  | .primaryKeyAsc => [fixed .primaryKey, fixed .asc]
  | .primaryKeyDesc => [fixed .primaryKey, fixed .desc]
  | .unique => [fixed .unique]

def ColumnConstraint.pieces (c : ColumnConstraint) : List Piece :=
  c.before.map Ignored.piece ++ (c.constraint.pieces ++ c.behind.map Ignored.piece)

def constraintPieces : Option ColumnConstraint → List Piece
  | none => []
  | some c => c.pieces

def ColumnDef.pieces (column : ColumnDef) : List Piece :=
  column.name.piece :: (column.type.pieces ++ constraintPieces column.constraint)

def columnsPieces : List ColumnDef → List Piece
  | [] => []
  | column :: columns => fixed .comma :: (column.pieces ++ columnsPieces columns)

def namesPieces : List Name → List Piece
  | [] => []
  | name :: names => fixed .comma :: name.piece :: namesPieces names

def TableDef.pieces : TableDef → List Piece
  | .foreignKey column table foreignColumn ignored =>
      [fixed .foreignKey, fixed .leftDash, column.piece, fixed .rightDash, fixed .references,
        table.piece, fixed .leftDash, foreignColumn.piece, fixed .rightDash] ++
        ignored.map Ignored.piece
  | .unique first more =>
      fixed .unique :: fixed .leftDash :: first.piece :: (namesPieces more ++ [fixed .rightDash])

def defsPieces : List TableDef → List Piece
  | [] => []
  | tableDef :: defs => fixed .comma :: (tableDef.pieces ++ defsPieces defs)

def Statement.pieces (s : Statement) : List Piece :=
  fixed .create :: fixed .table :: (s.ignored.map Ignored.piece ++
    (s.name.piece :: fixed .leftDash :: (s.first.pieces ++ (columnsPieces s.more ++
      (defsPieces s.defs ++ [fixed .rightDash])))))

def printed : List Piece → Text
  | [] => []
  | [piece] => piece.text
  | piece :: next :: pieces => piece.text ++ ' ' :: printed (next :: pieces)

def Statement.print (s : Statement) : Text := printed s.pieces

def ColumnType.sormType : ColumnType → SormType
  | .integer => .int
  | .bigint => .int64
  | .text _ => .text
  | .real => .double
  | .blob _ => .blob

def ColumnType.mem : ColumnType → SormMem
  | .text none | .blob none => .heap
  | .text (some _) | .blob (some _) => .stack
  | .integer | .bigint | .real => .none

def ColumnType.maxLen : ColumnType → ℤ
  | .text (some n) | .blob (some n) => n.value
  | .text none | .blob none | .integer | .bigint | .real => 0

def Constraint.sormConstraint : Constraint → SormConstraint
  | .primaryKey => .pk
  | .primaryKeyAsc => .pkAsc
  | .primaryKeyDesc => .pkDesc
  | .unique => .unique

def constraintOf : Option ColumnConstraint → SormConstraint
  | none => .none
  | some c => c.constraint.sormConstraint

def TableDef.refersTo (column : Name) : TableDef → Option (Text × Text)
  | .foreignKey column' table foreignColumn _ =>
      if column'.text = column.text then some (table.text, foreignColumn.text) else none
  | .unique _ _ => none

/-- What the last `FOREIGN KEY` of a column says. -/
def foreignOf (defs : List TableDef) (column : Name) : Option (Text × Text) :=
  (defs.filterMap (TableDef.refersTo column)).getLast?

/-- The descriptor of a column among the definitions behind the columns. -/
def ColumnDef.describe (defs : List TableDef) (column : ColumnDef) : ColumnDesc where
  name := some column.name.text
  type := column.type.sormType
  constraint := constraintOf column.constraint
  mem := column.type.mem
  maxLen := column.type.maxLen
  isForeignKey := (foreignOf defs column.name).isSome
  foreignTableName := (foreignOf defs column.name).map Prod.fst
  foreignColumnName := (foreignOf defs column.name).map Prod.snd

def EndsPiece (z : Text) : Prop := z = [] ∨ ∃ rest, z = ' ' :: rest

def Piece.Lexes (piece : Piece) : Prop :=
  ∃ c a, piece.text = c :: a ∧ ∀ z, EndsPiece z → scan c (a ++ z) = (some piece.terminal, a.length + 1)

theorem takeWhile_piece {test : Char → Bool} {a z : Text} (ha : ∀ c ∈ a, test c)
    (hz : EndsPiece z) (hblank : test ' ' = false) : (a ++ z).takeWhile test = a := by
  rw [List.takeWhile_append_of_pos ha]
  rcases hz with rfl | ⟨rest, rfl⟩
  · simp
  · rw [List.takeWhile_cons_of_neg (by rw [hblank]; exact Bool.false_ne_true), List.append_nil]

theorem fixed_lexes {t : Terminal} (h : spelling t ≠ []) : (fixed t).Lexes := by
  cases t <;> first
    | exact absurd rfl h
    | refine ⟨_, _, rfl, fun z hz => ?_⟩
      rcases hz with rfl | ⟨rest, rfl⟩ <;> rfl

/-- A word of name characters is a number if all of them are digits. -/
theorem scan_word {text : Text} (hne : text ≠ []) (h : ∀ c ∈ text, isNameChar c) :
    ∃ c a, text = c :: a ∧ ∀ z, EndsPiece z → scan c (a ++ z) =
      (some (if text.all Char.isDigit then .number else .name), a.length + 1) := by
  obtain ⟨c, a, rfl⟩ := List.exists_cons_of_ne_nil hne
  refine ⟨c, a, rfl, fun z hz => ?_⟩
  have hc := h c List.mem_cons_self
  have hword : (c :: (a ++ z)).takeWhile isNameChar = c :: a :=
    takeWhile_piece h hz rfl
  rw [scan, isUpper_of_isNameChar hc, if_neg Bool.false_ne_true, if_pos hc, nameToken, hword]
  rfl

theorem Name.lexes (name : Name) : name.piece.Lexes := by
  obtain ⟨c, hc, hdigit⟩ := name.notNumber
  have hall : name.text.all Char.isDigit = false := by
    rw [List.all_eq_false]
    exact ⟨c, hc, by rw [hdigit]; exact Bool.false_ne_true⟩
  have hscan := scan_word (List.ne_nil_of_mem hc) name.chars
  rw [hall] at hscan
  exact hscan

theorem Number.lexes (n : Number) : n.piece.Lexes := by
  have hall : n.digits.all Char.isDigit = true := List.all_eq_true.mpr n.isDigit
  have hscan := scan_word n.nonempty fun c hc => isNameChar_of_isDigit (n.isDigit c hc)
  rw [hall] at hscan
  exact hscan

theorem Ignored.lexes (word : Ignored) : word.piece.Lexes := by
  obtain ⟨c, a, htext⟩ := List.exists_cons_of_ne_nil word.nonempty
  refine ⟨c, a, htext, fun z hz => ?_⟩
  have hupper := word.isUpper
  have hkeyword := word.notKeyword
  have hkeyWord := word.notKeyWord
  rw [htext] at hupper hkeyword hkeyWord
  have hword : (c :: (a ++ z)).takeWhile Char.isUpper = c :: a := takeWhile_piece hupper hz rfl
  rw [scan, if_pos (hupper c List.mem_cons_self), upperToken, hword, hkeyWord]
  dsimp only
  rw [hkeyword]
  rfl

/-- A piece lexes to its token whatever follows it behind a blank. -/
theorem yylex_piece {piece : Piece} (h : piece.Lexes) {z : Text} (hz : EndsPiece z) :
    yylex (piece.text ++ z) = piece.token :: yylex z := by
  obtain ⟨c, a, htext, hscan⟩ := h
  rw [htext, List.cons_append, yylex_token (hscan z hz), Piece.token, htext]

theorem yylex_printed {pieces : List Piece} (h : ∀ piece ∈ pieces, piece.Lexes) :
    yylex (printed pieces) = pieces.map Piece.token := by
  induction pieces with
  | nil => rfl
  | cons piece pieces ih =>
      have hpiece := h piece List.mem_cons_self
      have hrest := ih fun piece' hmem => h piece' (List.mem_cons_of_mem _ hmem)
      cases pieces with
      | nil =>
          have hlex := yylex_piece hpiece (.inl rfl)
          rwa [List.append_nil] at hlex
      | cons next pieces =>
          rw [printed, yylex_piece hpiece (.inr ⟨_, rfl⟩), yylex_skip _ rfl rfl rfl, hrest]
          rfl

def AllLex (pieces : List Piece) : Prop := ∀ piece ∈ pieces, piece.Lexes

theorem allLex_nil : AllLex [] := fun _ h => absurd h List.not_mem_nil

theorem AllLex.cons {piece : Piece} {pieces : List Piece} (h : piece.Lexes)
    (hrest : AllLex pieces) : AllLex (piece :: pieces) :=
  List.forall_mem_cons.mpr ⟨h, hrest⟩

theorem AllLex.append {pieces pieces' : List Piece} (h : AllLex pieces) (h' : AllLex pieces') :
    AllLex (pieces ++ pieces') :=
  List.forall_mem_append.mpr ⟨h, h'⟩

theorem allLex_fixed (t : Terminal) {pieces : List Piece} (h : spelling t ≠ [])
    (hrest : AllLex pieces) : AllLex (fixed t :: pieces) :=
  AllLex.cons (fixed_lexes h) hrest

theorem ignored_allLex (words : List Ignored) : AllLex (words.map Ignored.piece) := by
  intro piece hmem
  obtain ⟨word, -, rfl⟩ := List.mem_map.mp hmem
  exact word.lexes

theorem length_allLex (length : Option Number) : AllLex (lengthPieces length) := by
  cases length with
  | none => exact allLex_nil
  | some n =>
      exact allLex_fixed .leftDash (by decide)
        (AllLex.cons n.lexes (allLex_fixed .rightDash (by decide) allLex_nil))

theorem ColumnType.allLex (type : ColumnType) : AllLex type.pieces := by
  cases type with
  | integer => exact allLex_fixed .integer (by decide) allLex_nil
  | bigint => exact allLex_fixed .bigint (by decide) allLex_nil
  | text length => exact allLex_fixed .text (by decide) (length_allLex length)
  | real => exact allLex_fixed .real (by decide) allLex_nil
  | blob length => exact allLex_fixed .blob (by decide) (length_allLex length)

theorem Constraint.allLex (constraint : Constraint) : AllLex constraint.pieces := by
  cases constraint with
  | primaryKey => exact allLex_fixed .primaryKey (by decide) allLex_nil
  | primaryKeyAsc =>
      exact allLex_fixed .primaryKey (by decide) (allLex_fixed .asc (by decide) allLex_nil)
  | primaryKeyDesc =>
      exact allLex_fixed .primaryKey (by decide) (allLex_fixed .desc (by decide) allLex_nil)
  | unique => exact allLex_fixed .unique (by decide) allLex_nil

theorem constraint_allLex (constraint : Option ColumnConstraint) :
    AllLex (constraintPieces constraint) := by
  cases constraint with
  | none => exact allLex_nil
  | some c => exact (ignored_allLex c.before).append (c.constraint.allLex.append
      (ignored_allLex c.behind))

theorem ColumnDef.allLex (column : ColumnDef) : AllLex column.pieces :=
  AllLex.cons column.name.lexes (column.type.allLex.append (constraint_allLex column.constraint))

theorem columns_allLex (columns : List ColumnDef) : AllLex (columnsPieces columns) := by
  induction columns with
  | nil => exact allLex_nil
  | cons column columns ih => exact allLex_fixed .comma (by decide) (column.allLex.append ih)

theorem names_allLex (names : List Name) : AllLex (namesPieces names) := by
  induction names with
  | nil => exact allLex_nil
  | cons name names ih => exact allLex_fixed .comma (by decide) (AllLex.cons name.lexes ih)

theorem TableDef.allLex (tableDef : TableDef) : AllLex tableDef.pieces := by
  cases tableDef with
  | foreignKey column table foreignColumn ignored =>
      have hclose : AllLex (fixed .rightDash :: ignored.map Ignored.piece) :=
        allLex_fixed .rightDash (by decide) (ignored_allLex ignored)
      have href : AllLex (fixed .references :: table.piece :: fixed .leftDash ::
          foreignColumn.piece :: fixed .rightDash :: ignored.map Ignored.piece) :=
        allLex_fixed .references (by decide) (AllLex.cons table.lexes
          (allLex_fixed .leftDash (by decide) (AllLex.cons foreignColumn.lexes hclose)))
      exact allLex_fixed .foreignKey (by decide) (allLex_fixed .leftDash (by decide)
        (AllLex.cons column.lexes (allLex_fixed .rightDash (by decide) href)))
  | unique first more =>
      have hclose : AllLex (namesPieces more ++ [fixed .rightDash]) :=
        (names_allLex more).append (allLex_fixed .rightDash (by decide) allLex_nil)
      exact allLex_fixed .unique (by decide)
        (allLex_fixed .leftDash (by decide) (AllLex.cons first.lexes hclose))

theorem defs_allLex (defs : List TableDef) : AllLex (defsPieces defs) := by
  induction defs with
  | nil => exact allLex_nil
  | cons tableDef defs ih => exact allLex_fixed .comma (by decide) (tableDef.allLex.append ih)

theorem Statement.allLex (s : Statement) : AllLex s.pieces := by
  have hclose : AllLex (defsPieces s.defs ++ [fixed .rightDash]) :=
    (defs_allLex s.defs).append (allLex_fixed .rightDash (by decide) allLex_nil)
  have hcolumns : AllLex (s.first.pieces ++ (columnsPieces s.more ++
      (defsPieces s.defs ++ [fixed .rightDash]))) :=
    s.first.allLex.append ((columns_allLex s.more).append hclose)
  have hname : AllLex (s.name.piece :: fixed .leftDash :: (s.first.pieces ++
      (columnsPieces s.more ++ (defsPieces s.defs ++ [fixed .rightDash])))) :=
    AllLex.cons s.name.lexes (allLex_fixed .leftDash (by decide) hcolumns)
  exact allLex_fixed .create (by decide) (allLex_fixed .table (by decide)
    ((ignored_allLex s.ignored).append hname))

/-- Scanning a printed statement gives its tokens. -/
theorem yylex_print (s : Statement) : yylex s.print = s.pieces.map Piece.token :=
  yylex_printed s.allLex

end CreateTable
end Sorm
