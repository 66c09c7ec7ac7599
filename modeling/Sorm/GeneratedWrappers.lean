import Sorm.CFunctions
import Sorm.FunctionsAgree

/-!
# The wrappers of a column

For each column the source defines a setter and, if it is indexed, functions that delete and select
by it. Each of them forwards its parameters to a function of the library.
-/

namespace Sorm

open CReader ParserLex

/-- The words that a wrapper is put together from. -/
structure WrapperWords (W : Type) where
  word : String → W
  table : W
  tableType : W
  descriptor : W
  column : W
  index : W
  name : String → W

def templateWords : WrapperWords Template where
  word := lit
  table := tableName
  tableType := tableName ++ lit "_t"
  descriptor := tableName ++ lit "_table_descriptor"
  column := columnName
  index := columnIndex
  name purpose := tableName ++ lit purpose ++ columnName

def wrapperSuffix (purpose : String) (column : ColumnDesc) : Text :=
  purpose.toList ++ column.nameText

def GenTable.words (t : GenTable) (i : ℕ) (column : ColumnDesc) : WrapperWords Text where
  word := String.toList
  table := t.name
  tableType := t.name ++ "_t".toList
  descriptor := t.name ++ "_table_descriptor".toList
  column := column.nameText
  index := printInt i
  name purpose := t.name ++ wrapperSuffix purpose column

def WrapperWords.map {W W' : Type} (f : W → W') (ws : WrapperWords W) : WrapperWords W' where
  word s := f (ws.word s)
  table := f ws.table
  tableType := f ws.tableType
  descriptor := f ws.descriptor
  column := f ws.column
  index := f ws.index
  name purpose := f (ws.name purpose)

section Types
variable {W : Type} (word : String → W)

def setType : SormType → List (Token W)
  | .int => [.word (word "int")]
  | .int64 => [.word (word "int64_t")]
  | .text => [.word (word "const"), .word (word "char"), .mark '*']
  | .double => [.word (word "double")]
  | .blob => [.word (word "const"), .word (word "void"), .mark '*']
  | .unknown _ => []

def deleteType : SormType → List (Token W)
  | .text => [.word (word "char"), .mark '*']
  | type => setType word type

def selectType : SormType → List (Token W)
  | .double => [.word (word "double"), .mark '*']
  | type => setType word type

end Types

section Wrappers
variable {W : Type} (ws : WrapperWords W)

/-- Strings and blocks are pointers themselves. -/
def valueArg : SormType → List (Token W)
  | .int | .int64 | .double => [.mark '&', .word ws.column]
  | .text | .blob | .unknown _ => [.word ws.column]

def voidArg (type : SormType) : List (Token W) :=
  [.mark '(', .word (ws.word "void"), .mark '*', .mark ')'] ++ valueArg ws type

def descriptorArg : List (Token W) := [.mark '&', .word ws.descriptor]

def connParam : Parameter W :=
  ⟨[.word (ws.word "const"), .word (ws.word "sorm_connection_t"), .mark '*'], ws.word "conn"⟩

def setWrapper (type : SormType) : Forwarder W where
  name := ws.name "_set_"
  params := [⟨[.word ws.tableType, .mark '*'], ws.table⟩, ⟨setType ws.word type, ws.column⟩] ++
    if type = .blob then [⟨[.word (ws.word "int")], ws.word "len"⟩] else []
  callee := ws.word "sorm_set_column_value"
  args := [[.mark '(', .word (ws.word "sorm_table_descriptor_t"), .mark '*', .mark ')',
      .word ws.table], [.word ws.index], valueArg ws type,
    [.word (ws.word (if type = .blob then "len" else "0"))]]

def deleteWrapper (type : SormType) : Forwarder W where
  name := ws.name "_delete_by_"
  params := [connParam ws, ⟨deleteType ws.word type, ws.column⟩]
  callee := ws.word "sorm_delete_by_column"
  args := [[.word (ws.word "conn")], descriptorArg ws, [.word ws.index], voidArg ws type]

def selectWrapper (type : SormType) : Forwarder W where
  name := ws.name "_select_by_"
  params := [connParam ws,
    ⟨[.word (ws.word "const"), .word (ws.word "sorm_allocator_t"), .mark '*'],
      ws.word "allocator"⟩,
    ⟨[.word (ws.word "const"), .word (ws.word "char"), .mark '*'], ws.word "column_names"⟩,
    ⟨selectType ws.word type, ws.column⟩,
    ⟨[.word ws.tableType, .mark '*', .mark '*'], ws.table⟩]
  callee := ws.word "sorm_select_one_by_column"
  args := [[.word (ws.word "conn")], [.word (ws.word "allocator")], descriptorArg ws,
    [.word (ws.word "column_names")], [.word ws.index], voidArg ws type,
    [.mark '(', .word (ws.word "sorm_table_descriptor_t"), .mark '*', .mark '*', .mark ')',
      .word ws.table]]

variable {W' : Type} (f : W → W') (type : SormType)

theorem setWrapper_map : (setWrapper ws type).map f = setWrapper (ws.map f) type := by
  cases type <;> rfl

theorem deleteWrapper_map : (deleteWrapper ws type).map f = deleteWrapper (ws.map f) type := by
  cases type <;> rfl

theorem selectWrapper_map : (selectWrapper ws type).map f = selectWrapper (ws.map f) type := by
  cases type <;> rfl

end Wrappers

theorem templateWords_map (t : GenTable) (i : ℕ) (column : ColumnDesc) :
    templateWords.map (render (t.value i column)) = t.words i column := by
  have htable : render (t.value i column) tableName = t.name := List.append_nil _
  have hcolumn : render (t.value i column) columnName = column.nameText := List.append_nil _
  have hindex : render (t.value i column) columnIndex = printInt i := List.append_nil _
  simp only [WrapperWords.map, templateWords, GenTable.words, wrapperSuffix, render_lit,
    render_append, htable, hcolumn, hindex, List.append_assoc]

/-- What a round of the source defines is one wrapper. -/
def Wraps (round : Option Template) (g : Forwarder Template) : Prop :=
  (defined (itemsIn (round.getD []))).map (forwarder (lit "return")) = [some g]

theorem wraps_of_defined {gs : Template} {g : Forwarder Template}
    (h : (defined (itemsIn gs)).map (forwarder (lit "return")) = [some g]) :
    Wraps (some gs) g := h

theorem cSetRound_wraps {column : ColumnDesc} (h : column.Parsed) :
    Wraps (cSetRound column) (setWrapper templateWords column.type) := by
  unfold cSetRound
  have htype := h.type
  cases hkind : column.type with
  | unknown code => exact absurd hkind (htype code)
  | _ =>
      refine wraps_of_defined ?_
      repeat rw [fprintf_eq rfl]
      decide +kernel

section Indexed
variable {column : ColumnDesc} (h : column.Parsed) (hunique : sormIsUniqueColumn column.constraint)
  (hblob : column.indexedBlob = false)
include h hunique hblob

theorem cDeleteRound_wraps :
    Wraps (cDeleteRound column) (deleteWrapper templateWords column.type) := by
  unfold cDeleteRound
  have htype := h.type
  rw [if_pos hunique]
  have hne := ne_blob_of_indexed hunique hblob
  cases hkind : column.type with
  | unknown code => exact absurd hkind (htype code)
  | blob => exact absurd hkind hne
  | _ =>
      refine wraps_of_defined ?_
      repeat rw [fprintf_eq rfl]
      decide +kernel

theorem cSelectRound_wraps :
    Wraps (cSelectRound column) (selectWrapper templateWords column.type) := by
  unfold cSelectRound
  have htype := h.type
  rw [if_pos hunique]
  have hne := ne_blob_of_indexed hunique hblob
  cases hkind : column.type with
  | unknown code => exact absurd hkind (htype code)
  | blob => exact absurd hkind hne
  | _ =>
      refine wraps_of_defined ?_
      repeat rw [fprintf_eq rfl]
      decide +kernel

end Indexed

end Sorm
