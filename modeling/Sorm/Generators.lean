import Sorm.CReader
import Sorm.Filter
import Sorm.ParserYacc

/-!
# What the generators print

Both generators print formats whose arguments are fields of the table or of one of its columns. A
format with its arguments named is a template; a generator is a sequence of templates, each printed
once or once for each column.
-/

namespace Sorm

open CReader

/-- The table as `main` hands it to the generators; `none` for the key index is `SORM_NO_PK`. -/
structure GenTable where
  name : Text
  columns : List ColumnDesc
  pkIndex : Option ℕ
  createSql : Text
deriving DecidableEq, Repr

def caseLower2upper (lowerCase : Text) : Text :=
  lowerCase.map fun c => if c ≤ 'z' ∧ c ≥ 'a' then Char.ofNat (c.toNat - 32) else c

def strOrNull (string : Option Text) : Text := string.getD "NULL".toList

def sormStrtype : SormType → Text
  | .int => "SORM_TYPE_INT".toList
  | .int64 => "SORM_TYPE_INT64".toList
  | .text => "SORM_TYPE_TEXT".toList
  | .double => "SORM_TYPE_DOUBLE".toList
  | .blob => "SORM_TYPE_BLOB".toList
  | .unknown _ => []

def sormStrmem : SormMem → Text
  | .none => "SORM_MEM_NONE".toList
  | .heap => "SORM_MEM_HEAP".toList
  | .stack => "SORM_MEM_STACK".toList

def sormStrconstraint : SormConstraint → Text
  | .none => "SORM_CONSTRAINT_NONE".toList
  | .pk => "SORM_CONSTRAINT_PK".toList
  | .pkAsc => "SORM_CONSTRAINT_PK_ASC".toList
  | .pkDesc => "SORM_CONSTRAINT_PK_DESC".toList
  | .unique => "SORM_CONSTRAINT_UNIQUE".toList

inductive Arg
  | tableName
  | upperTableName
  | columnsNum
  | pkIndex
  | createSql
  | columnName
  | upperColumnName
  | index
  | type
  | constraint
  | mem
  | maxLen
  | isForeignKey
  | foreignTableName
  | foreignColumnName
deriving DecidableEq, Repr

abbrev Template := List (Glyph Arg)

def ColumnDesc.nameText (column : ColumnDesc) : Text := column.name.getD []

def GenTable.value (t : GenTable) (i : ℕ) (column : ColumnDesc) : Arg → Text
  | .tableName => t.name
  | .upperTableName => caseLower2upper t.name
  | .columnsNum => printInt t.columns.length
  | .pkIndex => printInt (t.pkIndex.getD 0)
  | .createSql => t.createSql
  | .columnName => column.nameText
  | .upperColumnName => caseLower2upper column.nameText
  | .index => printInt i
  | .type => sormStrtype column.type
  | .constraint => sormStrconstraint column.constraint
  | .mem => sormStrmem column.mem
  | .maxLen => printInt column.maxLen
  | .isForeignKey => printInt (if column.isForeignKey then 1 else 0)
  | .foreignTableName => strOrNull column.foreignTableName
  | .foreignColumnName => strOrNull column.foreignColumnName

def tableName : Template := [.hole .tableName]

def upperTableName : Template := [.hole .upperTableName]

def columnName : Template := [.hole .columnName]

def upperColumnName : Template := [.hole .upperColumnName]

def columnIndex : Template := [.hole .index]

/-- A part of a generator; a round that reaches `exit(0)` has no template. -/
inductive Part
  | once (gs : Template)
  | each (round : ColumnDesc → Option Template)

def GenTable.printColumns (t : GenTable) (round : ColumnDesc → Option Template) :
    ℕ → List ColumnDesc → Option Text
  | _, [] => some []
  | i, column :: columns => do
      let gs ← round column
      let rest ← t.printColumns round (i + 1) columns
      return render (t.value i column) gs ++ rest

def Part.print (t : GenTable) : Part → Option Text
  | .once gs => some (render (t.value 0 .zero) gs)
  | .each round => t.printColumns round 0 t.columns

def printParts (t : GenTable) : List Part → Option Text
  | [] => some []
  | part :: parts => do
      let text ← part.print t
      let rest ← printParts t parts
      return text ++ rest

end Sorm
