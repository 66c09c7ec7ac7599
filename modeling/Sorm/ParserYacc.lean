import Sorm.ParserLex
import Sorm.ShiftReduce

/-!
# The parser of the generator

The grammar of `parser_yacc.y` with its actions, and the LALR(1) table of it. Where the grammar
leaves a choice a token is shifted rather than a rule reduced, and of two rules the earlier one is
reduced; what is left in each state is at most one rule to reduce, which is its default.
-/

namespace Sorm

open ShiftReduce

structure ColumnDesc where
  name : Option Text
  type : SormType
  constraint : SormConstraint
  mem : SormMem
  maxLen : ℤ
  isForeignKey : Bool
  foreignTableName : Option Text
  foreignColumnName : Option Text
deriving DecidableEq, Repr

def ColumnDesc.zero : ColumnDesc where
  name := none
  type := .int
  constraint := .none
  mem := .none
  maxLen := 0
  isForeignKey := false
  foreignTableName := none
  foreignColumnName := none

namespace ParserYacc

/-- What the actions work on: the name and the number of columns in `table_desc`, the list at
`columns_list_head`, and `column_desc`. -/
structure ParserState where
  name : Option Text
  columnsNum : ℕ
  columnsList : List ColumnDesc
  columnDesc : ColumnDesc
deriving DecidableEq, Repr

def ParserState.initial : ParserState := ⟨none, 0, [], .zero⟩

inductive NonTerminal
  | root
  | statement
  | ignores
  | columnsDef
  | columnDef
  | columnType
  | textType
  | blobType
  | columnConstraint
  | useColumnConstraint
  | tableDefs
  | tableDef
  | uniqueColumns
deriving DecidableEq, Repr

inductive Rule
  | root
  | statementDefs
  | statement
  | ignoresMore
  | ignoresOne
  | ignoresNone
  | columnsMore
  | columnsOne
  | columnPlain
  | columnConstrained
  | typeInteger
  | typeBigint
  | typeText
  | typeReal
  | typeBlob
  | textHeap
  | textStack
  | blobHeap
  | blobStack
  | constraintOnly
  | constraintBehind
  | constraintBefore
  | constraintBetween
  | primaryKey
  | primaryKeyAsc
  | primaryKeyDesc
  | unique
  | defsMore
  | defsOne
  | foreignKey
  | uniqueColumns
  | uniqueMore
  | uniqueOne
deriving DecidableEq, Repr

def lhs : Rule → NonTerminal
  | .root => .root
  | .statementDefs => .statement
  | .statement => .statement
  | .ignoresMore => .ignores
  | .ignoresOne => .ignores
  | .ignoresNone => .ignores
  | .columnsMore => .columnsDef
  | .columnsOne => .columnsDef
  | .columnPlain => .columnDef
  | .columnConstrained => .columnDef
  | .typeInteger => .columnType
  | .typeBigint => .columnType
  | .typeText => .columnType
  | .typeReal => .columnType
  | .typeBlob => .columnType
  | .textHeap => .textType
  | .textStack => .textType
  | .blobHeap => .blobType
  | .blobStack => .blobType
  | .constraintOnly => .columnConstraint
  | .constraintBehind => .columnConstraint
  | .constraintBefore => .columnConstraint
  | .constraintBetween => .columnConstraint
  | .primaryKey => .useColumnConstraint
  | .primaryKeyAsc => .useColumnConstraint
  | .primaryKeyDesc => .useColumnConstraint
  | .unique => .useColumnConstraint
  | .defsMore => .tableDefs
  | .defsOne => .tableDefs
  | .foreignKey => .tableDef
  | .uniqueColumns => .tableDef
  | .uniqueMore => .uniqueColumns
  | .uniqueOne => .uniqueColumns

def rhs : Rule → List (ShiftReduce.Symbol Terminal NonTerminal)
  | .root => [.nonterminal .statement]
  | .statementDefs => [.terminal .create, .terminal .table, .nonterminal .ignores,
      .terminal .name, .terminal .leftDash, .nonterminal .columnsDef, .terminal .comma,
      .nonterminal .tableDefs, .terminal .rightDash]
  | .statement => [.terminal .create, .terminal .table, .nonterminal .ignores, .terminal .name,
      .terminal .leftDash, .nonterminal .columnsDef, .terminal .rightDash]
  | .ignoresMore => [.nonterminal .ignores, .terminal .ignore]
  | .ignoresOne => [.terminal .ignore]
  | .ignoresNone => []
  | .columnsMore => [.nonterminal .columnsDef, .terminal .comma, .nonterminal .columnDef]
  | .columnsOne => [.nonterminal .columnDef]
  | .columnPlain => [.terminal .name, .nonterminal .columnType]
  | .columnConstrained => [.terminal .name, .nonterminal .columnType,
      .nonterminal .columnConstraint]
  | .typeInteger => [.terminal .integer]
  | .typeBigint => [.terminal .bigint]
  | .typeText => [.nonterminal .textType]
  | .typeReal => [.terminal .real]
  | .typeBlob => [.nonterminal .blobType]
  | .textHeap => [.terminal .text]
  | .textStack => [.terminal .text, .terminal .leftDash, .terminal .number, .terminal .rightDash]
  | .blobHeap => [.terminal .blob]
  | .blobStack => [.terminal .blob, .terminal .leftDash, .terminal .number, .terminal .rightDash]
  | .constraintOnly => [.nonterminal .useColumnConstraint]
  | .constraintBehind => [.nonterminal .ignores, .nonterminal .useColumnConstraint]
  | .constraintBefore => [.nonterminal .useColumnConstraint, .nonterminal .ignores]
  | .constraintBetween => [.nonterminal .ignores, .nonterminal .useColumnConstraint,
      .nonterminal .ignores]
  | .primaryKey => [.terminal .primaryKey]
  | .primaryKeyAsc => [.terminal .primaryKey, .terminal .asc]
  | .primaryKeyDesc => [.terminal .primaryKey, .terminal .desc]
  | .unique => [.terminal .unique]
  | .defsMore => [.nonterminal .tableDefs, .terminal .comma, .nonterminal .tableDef]
  | .defsOne => [.nonterminal .tableDef]
  | .foreignKey => [.terminal .foreignKey, .terminal .leftDash, .terminal .name,
      .terminal .rightDash, .terminal .references, .terminal .name, .terminal .leftDash,
      .terminal .name, .terminal .rightDash, .nonterminal .ignores]
  | .uniqueColumns => [.terminal .unique, .terminal .leftDash, .nonterminal .uniqueColumns,
      .terminal .rightDash]
  | .uniqueMore => [.nonterminal .uniqueColumns, .terminal .comma, .terminal .name]
  | .uniqueOne => [.terminal .name]

def parseColumn (columnName : Text) (s : ParserState) : ParserState where
  name := s.name
  columnsNum := s.columnsNum + 1
  columnsList := s.columnsList ++ [{ s.columnDesc with name := some columnName }]
  columnDesc := .zero

def decimal (digits : Text) : ℕ := digits.foldl (fun n c => 10 * n + (c.toNat - '0'.toNat)) 0

/-- `atoi` on digits; as `strtol` it stops at the greatest value. -/
def atoi (digits : Text) : ℤ := (min (decimal digits) intMax : ℕ)

def setForeign (column table foreignColumn : Text) : List ColumnDesc → List ColumnDesc
  | [] => []
  | columnDesc :: columns =>
      if columnDesc.name = some column then
        { columnDesc with
          isForeignKey := true
          foreignTableName := some table
          foreignColumnName := some foreignColumn } :: columns
      else columnDesc :: setForeign column table foreignColumn columns

def action (r : Rule) (dollar : ℕ → Text) (s : ParserState) : ParserState :=
  match r with
  | .statementDefs | .statement => { s with name := some (dollar 4) }
  | .columnPlain | .columnConstrained => parseColumn (dollar 1) s
  | .typeInteger => { s with columnDesc := { s.columnDesc with type := .int } }
  | .typeBigint => { s with columnDesc := { s.columnDesc with type := .int64 } }
  | .typeText => { s with columnDesc := { s.columnDesc with type := .text } }
  | .typeReal => { s with columnDesc := { s.columnDesc with type := .double } }
  | .typeBlob => { s with columnDesc := { s.columnDesc with type := .blob } }
  | .textHeap | .blobHeap => { s with columnDesc := { s.columnDesc with mem := .heap } }
  | .textStack | .blobStack =>
      { s with columnDesc := { s.columnDesc with mem := .stack, maxLen := atoi (dollar 3) } }
  | .primaryKey => { s with columnDesc := { s.columnDesc with constraint := .pk } }
  | .primaryKeyAsc => { s with columnDesc := { s.columnDesc with constraint := .pkAsc } }
  | .primaryKeyDesc => { s with columnDesc := { s.columnDesc with constraint := .pkDesc } }
  | .unique => { s with columnDesc := { s.columnDesc with constraint := .unique } }
  | .foreignKey =>
      { s with columnsList := setForeign (dollar 3) (dollar 6) (dollar 8) s.columnsList }
  | .root | .ignoresMore | .ignoresOne | .ignoresNone | .columnsMore | .columnsOne
  | .constraintOnly | .constraintBehind | .constraintBefore | .constraintBetween | .defsMore
  | .defsOne | .uniqueColumns | .uniqueMore | .uniqueOne => s

inductive State
  | start
  | create
  | root
  | statement
  | createTable
  | ignore
  | tableIgnores
  | tableName
  | ignoresIgnore
  | tableOpen
  | columnName
  | columns
  | firstColumn
  | integer
  | bigint
  | text
  | real
  | blob
  | columnType
  | textType
  | blobType
  | tableClosed
  | columnsComma
  | textOpen
  | blobOpen
  | primaryKey
  | unique
  | typeIgnores
  | columnConstraint
  | constraint
  | tableUnique
  | foreignKey
  | nextColumn
  | tableDefs
  | firstDef
  | textNumber
  | blobNumber
  | asc
  | desc
  | ignoresConstraint
  | constraintIgnores
  | uniqueOpen
  | foreignOpen
  | defsClosed
  | defsComma
  | textClosed
  | blobClosed
  | constraintBetween
  | uniqueName
  | uniqueColumns
  | foreignName
  | nextDef
  | uniqueClosed
  | uniqueComma
  | foreignClosed
  | uniqueNext
  | references
  | referencesTable
  | referencesOpen
  | referencesColumn
  | referencesClosed
  | referencesIgnores
deriving DecidableEq, Repr

def row : State → Row State Terminal NonTerminal Rule
  | .start => ⟨[(.create, .create)], none, [(.root, .root), (.statement, .statement)], false⟩
  | .create => ⟨[(.table, .createTable)], none, [], false⟩
  | .root => ⟨[], none, [], true⟩
  | .statement => ⟨[], some .root, [], false⟩
  | .createTable => ⟨[(.ignore, .ignore)], some .ignoresNone, [(.ignores, .tableIgnores)], false⟩
  | .ignore => ⟨[], some .ignoresOne, [], false⟩
  | .tableIgnores => ⟨[(.name, .tableName), (.ignore, .ignoresIgnore)], none, [], false⟩
  | .tableName => ⟨[(.leftDash, .tableOpen)], none, [], false⟩
  | .ignoresIgnore => ⟨[], some .ignoresMore, [], false⟩
  | .tableOpen => ⟨[(.name, .columnName)], none, [(.columnsDef, .columns), (.columnDef,
      .firstColumn)], false⟩
  | .columnName => ⟨[(.integer, .integer), (.bigint, .bigint), (.text, .text), (.real, .real),
      (.blob, .blob)], none, [(.columnType, .columnType), (.textType, .textType), (.blobType,
      .blobType)], false⟩
  | .columns => ⟨[(.rightDash, .tableClosed), (.comma, .columnsComma)], none, [], false⟩
  | .firstColumn => ⟨[], some .columnsOne, [], false⟩
  | .integer => ⟨[], some .typeInteger, [], false⟩
  | .bigint => ⟨[], some .typeBigint, [], false⟩
  | .text => ⟨[(.leftDash, .textOpen)], some .textHeap, [], false⟩
  | .real => ⟨[], some .typeReal, [], false⟩
  | .blob => ⟨[(.leftDash, .blobOpen)], some .blobHeap, [], false⟩
  | .columnType => ⟨[(.primaryKey, .primaryKey), (.unique, .unique), (.ignore, .ignore)],
      some .columnPlain, [(.ignores, .typeIgnores), (.columnConstraint, .columnConstraint),
      (.useColumnConstraint, .constraint)], false⟩
  | .textType => ⟨[], some .typeText, [], false⟩
  | .blobType => ⟨[], some .typeBlob, [], false⟩
  | .tableClosed => ⟨[], some .statement, [], false⟩
  | .columnsComma => ⟨[(.unique, .tableUnique), (.name, .columnName), (.foreignKey, .foreignKey)],
      none, [(.columnDef, .nextColumn), (.tableDefs, .tableDefs), (.tableDef, .firstDef)], false⟩
  | .textOpen => ⟨[(.number, .textNumber)], none, [], false⟩
  | .blobOpen => ⟨[(.number, .blobNumber)], none, [], false⟩
  | .primaryKey => ⟨[(.asc, .asc), (.desc, .desc)], some .primaryKey, [], false⟩
  | .unique => ⟨[], some .unique, [], false⟩
  | .typeIgnores => ⟨[(.primaryKey, .primaryKey), (.unique, .unique), (.ignore, .ignoresIgnore)],
      none, [(.useColumnConstraint, .ignoresConstraint)], false⟩
  | .columnConstraint => ⟨[], some .columnConstrained, [], false⟩
  | .constraint => ⟨[(.ignore, .ignore)], some .ignoresNone, [(.ignores, .constraintIgnores)],
      false⟩
  | .tableUnique => ⟨[(.leftDash, .uniqueOpen)], none, [], false⟩
  | .foreignKey => ⟨[(.leftDash, .foreignOpen)], none, [], false⟩
  | .nextColumn => ⟨[], some .columnsMore, [], false⟩
  | .tableDefs => ⟨[(.rightDash, .defsClosed), (.comma, .defsComma)], none, [], false⟩
  | .firstDef => ⟨[], some .defsOne, [], false⟩
  | .textNumber => ⟨[(.rightDash, .textClosed)], none, [], false⟩
  | .blobNumber => ⟨[(.rightDash, .blobClosed)], none, [], false⟩
  | .asc => ⟨[], some .primaryKeyAsc, [], false⟩
  | .desc => ⟨[], some .primaryKeyDesc, [], false⟩
  | .ignoresConstraint => ⟨[(.ignore, .ignore)], some .ignoresNone, [(.ignores,
      .constraintBetween)], false⟩
  | .constraintIgnores => ⟨[(.ignore, .ignoresIgnore)], some .constraintBefore, [], false⟩
  | .uniqueOpen => ⟨[(.name, .uniqueName)], none, [(.uniqueColumns, .uniqueColumns)], false⟩
  | .foreignOpen => ⟨[(.name, .foreignName)], none, [], false⟩
  | .defsClosed => ⟨[], some .statementDefs, [], false⟩
  | .defsComma => ⟨[(.unique, .tableUnique), (.foreignKey, .foreignKey)], none, [(.tableDef,
      .nextDef)], false⟩
  | .textClosed => ⟨[], some .textStack, [], false⟩
  | .blobClosed => ⟨[], some .blobStack, [], false⟩
  | .constraintBetween => ⟨[(.ignore, .ignoresIgnore)], some .constraintBetween, [], false⟩
  | .uniqueName => ⟨[], some .uniqueOne, [], false⟩
  | .uniqueColumns => ⟨[(.rightDash, .uniqueClosed), (.comma, .uniqueComma)], none, [], false⟩
  | .foreignName => ⟨[(.rightDash, .foreignClosed)], none, [], false⟩
  | .nextDef => ⟨[], some .defsMore, [], false⟩
  | .uniqueClosed => ⟨[], some .uniqueColumns, [], false⟩
  | .uniqueComma => ⟨[(.name, .uniqueNext)], none, [], false⟩
  | .foreignClosed => ⟨[(.references, .references)], none, [], false⟩
  | .uniqueNext => ⟨[], some .uniqueMore, [], false⟩
  | .references => ⟨[(.name, .referencesTable)], none, [], false⟩
  | .referencesTable => ⟨[(.leftDash, .referencesOpen)], none, [], false⟩
  | .referencesOpen => ⟨[(.name, .referencesColumn)], none, [], false⟩
  | .referencesColumn => ⟨[(.rightDash, .referencesClosed)], none, [], false⟩
  | .referencesClosed => ⟨[(.ignore, .ignore)], some .ignoresNone, [(.ignores,
      .referencesIgnores)], false⟩
  | .referencesIgnores => ⟨[(.ignore, .ignoresIgnore)], some .foreignKey, [], false⟩

/-- A reduction has the value of the first symbol, as an action that sets none. -/
def parser : Parser State Terminal NonTerminal Rule Text ParserState where
  lhs := lhs
  rhs := rhs
  start := .start
  row := row
  action r values s := (values.headD [], action r (fun i => values.getD (i - 1) []) s)

def initial (tokens : List (Terminal × Text)) : Config State Terminal Text ParserState :=
  ⟨[], tokens, .initial⟩

/-- Whether the tokens are accepted, and what the actions have left; so many steps are enough for
every input. -/
def yyparse (tokens : List (Terminal × Text)) : Bool × ParserState :=
  (parser.run (10 * tokens.length + 2) (initial tokens)).getD (false, .initial)

def symbol : State → ShiftReduce.Symbol Terminal NonTerminal
  | .start => .nonterminal .root
  | .create => .terminal .create
  | .root => .nonterminal .root
  | .statement => .nonterminal .statement
  | .createTable => .terminal .table
  | .ignore => .terminal .ignore
  | .tableIgnores => .nonterminal .ignores
  | .tableName => .terminal .name
  | .ignoresIgnore => .terminal .ignore
  | .tableOpen => .terminal .leftDash
  | .columnName => .terminal .name
  | .columns => .nonterminal .columnsDef
  | .firstColumn => .nonterminal .columnDef
  | .integer => .terminal .integer
  | .bigint => .terminal .bigint
  | .text => .terminal .text
  | .real => .terminal .real
  | .blob => .terminal .blob
  | .columnType => .nonterminal .columnType
  | .textType => .nonterminal .textType
  | .blobType => .nonterminal .blobType
  | .tableClosed => .terminal .rightDash
  | .columnsComma => .terminal .comma
  | .textOpen => .terminal .leftDash
  | .blobOpen => .terminal .leftDash
  | .primaryKey => .terminal .primaryKey
  | .unique => .terminal .unique
  | .typeIgnores => .nonterminal .ignores
  | .columnConstraint => .nonterminal .columnConstraint
  | .constraint => .nonterminal .useColumnConstraint
  | .tableUnique => .terminal .unique
  | .foreignKey => .terminal .foreignKey
  | .nextColumn => .nonterminal .columnDef
  | .tableDefs => .nonterminal .tableDefs
  | .firstDef => .nonterminal .tableDef
  | .textNumber => .terminal .number
  | .blobNumber => .terminal .number
  | .asc => .terminal .asc
  | .desc => .terminal .desc
  | .ignoresConstraint => .nonterminal .useColumnConstraint
  | .constraintIgnores => .nonterminal .ignores
  | .uniqueOpen => .terminal .leftDash
  | .foreignOpen => .terminal .leftDash
  | .defsClosed => .terminal .rightDash
  | .defsComma => .terminal .comma
  | .textClosed => .terminal .rightDash
  | .blobClosed => .terminal .rightDash
  | .constraintBetween => .nonterminal .ignores
  | .uniqueName => .terminal .name
  | .uniqueColumns => .nonterminal .uniqueColumns
  | .foreignName => .terminal .name
  | .nextDef => .nonterminal .tableDef
  | .uniqueClosed => .terminal .rightDash
  | .uniqueComma => .terminal .comma
  | .foreignClosed => .terminal .rightDash
  | .uniqueNext => .terminal .name
  | .references => .terminal .references
  | .referencesTable => .terminal .name
  | .referencesOpen => .terminal .leftDash
  | .referencesColumn => .terminal .name
  | .referencesClosed => .terminal .rightDash
  | .referencesIgnores => .nonterminal .ignores

def kernel : State → List (Rule × ℕ)
  | .start => []
  | .create => [(.statementDefs, 1), (.statement, 1)]
  | .root => []
  | .statement => [(.root, 1)]
  | .createTable => [(.statementDefs, 2), (.statement, 2)]
  | .ignore => [(.ignoresOne, 1)]
  | .tableIgnores => [(.statementDefs, 3), (.statement, 3), (.ignoresMore, 1)]
  | .tableName => [(.statementDefs, 4), (.statement, 4)]
  | .ignoresIgnore => [(.ignoresMore, 2)]
  | .tableOpen => [(.statementDefs, 5), (.statement, 5)]
  | .columnName => [(.columnPlain, 1), (.columnConstrained, 1)]
  | .columns => [(.statementDefs, 6), (.statement, 6), (.columnsMore, 1)]
  | .firstColumn => [(.columnsOne, 1)]
  | .integer => [(.typeInteger, 1)]
  | .bigint => [(.typeBigint, 1)]
  | .text => [(.textHeap, 1), (.textStack, 1)]
  | .real => [(.typeReal, 1)]
  | .blob => [(.blobHeap, 1), (.blobStack, 1)]
  | .columnType => [(.columnPlain, 2), (.columnConstrained, 2)]
  | .textType => [(.typeText, 1)]
  | .blobType => [(.typeBlob, 1)]
  | .tableClosed => [(.statement, 7)]
  | .columnsComma => [(.statementDefs, 7), (.columnsMore, 2)]
  | .textOpen => [(.textStack, 2)]
  | .blobOpen => [(.blobStack, 2)]
  | .primaryKey => [(.primaryKey, 1), (.primaryKeyAsc, 1), (.primaryKeyDesc, 1)]
  | .unique => [(.unique, 1)]
  | .typeIgnores => [(.ignoresMore, 1), (.constraintBehind, 1), (.constraintBetween, 1)]
  | .columnConstraint => [(.columnConstrained, 3)]
  | .constraint => [(.constraintOnly, 1), (.constraintBefore, 1)]
  | .tableUnique => [(.uniqueColumns, 1)]
  | .foreignKey => [(.foreignKey, 1)]
  | .nextColumn => [(.columnsMore, 3)]
  | .tableDefs => [(.statementDefs, 8), (.defsMore, 1)]
  | .firstDef => [(.defsOne, 1)]
  | .textNumber => [(.textStack, 3)]
  | .blobNumber => [(.blobStack, 3)]
  | .asc => [(.primaryKeyAsc, 2)]
  | .desc => [(.primaryKeyDesc, 2)]
  | .ignoresConstraint => [(.constraintBehind, 2), (.constraintBetween, 2)]
  | .constraintIgnores => [(.ignoresMore, 1), (.constraintBefore, 2)]
  | .uniqueOpen => [(.uniqueColumns, 2)]
  | .foreignOpen => [(.foreignKey, 2)]
  | .defsClosed => [(.statementDefs, 9)]
  | .defsComma => [(.defsMore, 2)]
  | .textClosed => [(.textStack, 4)]
  | .blobClosed => [(.blobStack, 4)]
  | .constraintBetween => [(.ignoresMore, 1), (.constraintBetween, 3)]
  | .uniqueName => [(.uniqueOne, 1)]
  | .uniqueColumns => [(.uniqueColumns, 3), (.uniqueMore, 1)]
  | .foreignName => [(.foreignKey, 3)]
  | .nextDef => [(.defsMore, 3)]
  | .uniqueClosed => [(.uniqueColumns, 4)]
  | .uniqueComma => [(.uniqueMore, 2)]
  | .foreignClosed => [(.foreignKey, 4)]
  | .uniqueNext => [(.uniqueMore, 3)]
  | .references => [(.foreignKey, 5)]
  | .referencesTable => [(.foreignKey, 6)]
  | .referencesOpen => [(.foreignKey, 7)]
  | .referencesColumn => [(.foreignKey, 8)]
  | .referencesClosed => [(.foreignKey, 9)]
  | .referencesIgnores => [(.ignoresMore, 1), (.foreignKey, 10)]

def EdgeOk (s : State) (x : ShiftReduce.Symbol Terminal NonTerminal) (s' : State) : Prop :=
  symbol s' = x ∧ ∀ item ∈ kernel s', 0 < item.2 ∧ (rhs item.1)[item.2 - 1]? = some x ∧
    ((item.1, item.2 - 1) ∈ kernel s ∨
      item.2 = 1 ∧ (parser.next s (.nonterminal (lhs item.1))).isSome)

instance (s : State) (x : ShiftReduce.Symbol Terminal NonTerminal) (s' : State) :
    Decidable (EdgeOk s x s') :=
  inferInstanceAs (Decidable (_ ∧ _))

theorem shifts_ok (s : State) : ∀ e ∈ (row s).shifts, EdgeOk s (.terminal e.1) e.2 := by
  cases s <;> decide

theorem gotos_ok (s : State) : ∀ e ∈ (row s).gotos, EdgeOk s (.nonterminal e.1) e.2 := by
  cases s <;> decide

theorem default_ok (s : State) : ∀ r ∈ (row s).default, (r, (rhs r).length) ∈ kernel s ∨
    rhs r = [] ∧ (parser.next s (.nonterminal (lhs r))).isSome := by
  cases s <;> decide

def items : parser.Items where
  symbol := symbol
  kernel := kernel
  edge s x s' h := by
    rcases Parser.next_cases h with ⟨t, rfl, hmem⟩ | ⟨n, rfl, hmem⟩
    · exact shifts_ok s _ hmem
    · exact gotos_ok s _ hmem
  complete s r h := default_ok s r h

def weight : ShiftReduce.Symbol Terminal NonTerminal → ℕ
  | .terminal _ => 4
  | .nonterminal .root => 1
  | .nonterminal .statement => 2
  | .nonterminal .ignores => 0
  | .nonterminal .columnsDef => 3
  | .nonterminal .columnDef => 4
  | .nonterminal .columnType => 2
  | .nonterminal .textType => 3
  | .nonterminal .blobType => 3
  | .nonterminal .columnConstraint => 2
  | .nonterminal .useColumnConstraint => 3
  | .nonterminal .tableDefs => 3
  | .nonterminal .tableDef => 4
  | .nonterminal .uniqueColumns => 3

def empties (s : State) : Bool := (row s).default = some .ignoresNone

theorem empty_rule {r : Rule} (h : rhs r = []) : r = .ignoresNone := by
  cases r with
  | ignoresNone => rfl
  | _ => cases h

def weights : parser.Weights where
  weight := weight
  token := 5
  empties := empties
  terminal t := Nat.lt_succ_self 4
  rule r := by cases r <;> decide
  empty r h := by rw [empty_rule h]; rfl
  ready s r h hr := by
    obtain rfl := empty_rule hr
    exact decide_eq_true h
  leads s r s' h hr hnext := by
    obtain rfl := empty_rule hr
    revert h hnext
    cases s <;> cases s' <;> decide

theorem yyparse_total (tokens : List (Terminal × Text)) :
    parser.run (10 * tokens.length + 2) (initial tokens) = some (yyparse tokens) := by
  have hmeasure : weights.measure items (initial tokens) < 10 * tokens.length + 2 := by
    change 2 * (0 + 5 * tokens.length) + 0 < 10 * tokens.length + 2
    omega
  have hpath : parser.Path (initial tokens).stack := trivial
  obtain ⟨result, hrun⟩ := weights.run_total rfl hpath hmeasure
  rw [yyparse, hrun]
  rfl

/-- The result is that of the last configuration of the run. -/
theorem yyparse_eq {tokens : List (Terminal × Text)}
    {c : Config State Terminal Text ParserState} {accepted : Bool}
    (h : parser.Steps (initial tokens) c) (hdone : parser.step c = .inl accepted) :
    yyparse tokens = (accepted, c.state) := by
  obtain ⟨n, hn⟩ := h.run hdone
  exact Parser.run_unique (yyparse_total tokens) hn

/-- `yyparse` on the tokens that the grammar receives of a text scanned to its end. -/
def parse (strdup : ℕ → Address) (file : Text) : Except Interaction.Halt (Bool × ParserState) := do
  let tokens ← ParserLex.received strdup 0 (ParserLex.yylex file)
  return yyparse tokens

/-- The copies of the names and numbers in a text can be found again behind an `int`. -/
def CopiesFit (strdup : ℕ → Address) (file : Text) : Prop :=
  ∀ k < ParserLex.copies (ParserLex.yylex file), ParserLex.throughInt (strdup k) = strdup k

instance (strdup : ℕ → Address) (file : Text) : Decidable (CopiesFit strdup file) :=
  inferInstanceAs (Decidable (∀ k < _, _))

theorem parse_eq (strdup : ℕ → Address) (file : Text) :
    (CopiesFit strdup file ∧ parse strdup file = .ok (yyparse (ParserLex.yylex file))) ∨
      (¬ CopiesFit strdup file ∧ parse strdup file = .error .undefined) := by
  have hreceived := ParserLex.received_eq strdup (ParserLex.yylex file) 0
  simp only [Nat.zero_add] at hreceived
  rw [parse]
  obtain ⟨heq, hfit⟩ | ⟨heq, hfit⟩ := hreceived
  · exact .inl ⟨hfit, by rw [heq]; rfl⟩
  · exact .inr ⟨hfit, by rw [heq]; rfl⟩

end ParserYacc
end Sorm
