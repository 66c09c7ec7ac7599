import Sorm.GeneratedHeader

/-!
# Reading the generated source

The source of a table is read up to the first indexed `BLOB` column, for which there is a closing
brace and no function.
-/

namespace Sorm

open CReader ParserLex

/-- A column that the generators print functions for by its type, among them none for `BLOB`. -/
def ColumnDesc.indexedBlob (column : ColumnDesc) : Bool :=
  sormIsUniqueColumn column.constraint && column.type == .blob

theorem ne_blob_of_indexed {column : ColumnDesc} (hunique : sormIsUniqueColumn column.constraint)
    (hblob : column.indexedBlob = false) : column.type ≠ .blob := by
  intro htype
  rw [ColumnDesc.indexedBlob, hunique, htype] at hblob
  cases hblob

theorem includeHeader_table : Closed Arg.ofTable (includeHeader tableName) ∧
    itemsIn (includeHeader tableName) =
      [.directive [.word (lit "include"), .str (tableName ++ lit "_sorm.h")]] := by
  unfold includeHeader
  repeat rw [fprintf_eq rfl]
  decide +kernel

theorem includeHeader_foreign : Closed Arg.isWordArg (includeHeader [.hole .foreignTableName]) ∧
    itemsIn (includeHeader [.hole .foreignTableName]) =
      [.directive [.word (lit "include"), .str (.hole .foreignTableName :: lit "_sorm.h")]] := by
  unfold includeHeader
  repeat rw [fprintf_eq rfl]
  decide +kernel

theorem includes_complete (ok : ColumnDesc → Prop) :
    ∀ part ∈ cGenerateIncludes, part.Complete ok := by
  unfold cGenerateIncludes
  simp only [List.forall_mem_cons, List.not_mem_nil, false_imp_iff, implies_true, and_true]
  refine ⟨complete_once includeHeader_table.1 ok, fun column _ _ => ⟨_, rfl, ?_⟩⟩
  by_cases hforeign : column.isForeignKey
  · rw [if_pos hforeign]
    exact includeHeader_foreign.1
  · rw [if_neg hforeign]
    exact closed_nil _

def columnDescFrame : ColumnsBlock where
  opening := columnDescOpening
  closing := columnDescClosing
  head := [.word (lit "static"), .word (lit "sorm_column_descriptor_t"),
    .word (tableName ++ lit "_columns_descriptor"), .mark '[', .word [.hole .columnsNum],
    .mark ']', .mark '=']
  first := []
  name := none
  opens := by
    unfold columnDescOpening Transducer.Passes
    rw [fprintf_eq rfl]
    decide +kernel
  closes := by
    unfold columnDescClosing
    rw [fprintf_eq rfl]
    decide +kernel

theorem columnDescRound_inBlock : InBlock columnDescRound := by
  unfold columnDescRound
  rw [fprintf_eq rfl]
  decide +kernel

def columnDescHead (t : GenTable) : List (Token Text) :=
  [.word "static".toList, .word "sorm_column_descriptor_t".toList,
    .word (t.name ++ "_columns_descriptor".toList), .mark '[',
    .word (printInt t.columns.length), .mark ']', .mark '=']

def columnDescBlock (t : GenTable) : List (Token Text) :=
  columnsTokens t (fun _ => some columnDescRound) 0 t.columns

def columnDescItems (t : GenTable) : List (Item Text) :=
  [.chunk (columnDescHead t) (some (columnDescBlock t)), .chunk [] none]

theorem columnDescText_reads {t : GenTable} (ht : t.Parsed) :
    ∃ text, printParts t cGenerateColumnDesc = some text ∧
      (reader kind).Reads text (columnDescItems t) := by
  have hnum : render (t.value 0 .zero) [.hole .columnsNum] = printInt t.columns.length :=
    List.append_nil _
  have hitems : columnDescFrame.items t (fun _ => some columnDescRound) = columnDescItems t := by
    simp only [ColumnsBlock.items, columnDescFrame, columnDescItems, columnDescHead,
      columnDescBlock, mapTokens, List.map_cons, List.map_nil, Token.map, render_lit,
      render_tableName, hnum, List.nil_append, Option.map_none, Option.toList_none]
  rw [← hitems]
  exact columnDescFrame.reads ht fun _ _ => ⟨_, rfl, columnDescRound_inBlock⟩

def pkIndexTokens : Option ℕ → List (Token Template)
  | none => [.mark '-', .word [.char '1']]
  | some _ => [.word [.hole .pkIndex]]

theorem deviceDesc_items (pkIndex : Option ℕ) :
    ClosedQuoting (deviceDesc pkIndex) ∧ itemsIn (deviceDesc pkIndex) =
      [.chunk [.word (lit "sorm_table_descriptor_t"), .word (tableName ++ lit "_table_descriptor"),
          .mark '=']
        (some ([.str tableName, .mark ',', .word (lit "SORM_SIZE"), .mark '(',
          .word (tableName ++ lit "_t"), .mark ')', .mark ',', .word [.hole .columnsNum],
          .mark ','] ++ pkIndexTokens pkIndex ++ [.mark ',', .str [.hole .createSql], .mark ',',
          .word (tableName ++ lit "_columns_descriptor"), .mark ','])),
        .chunk [] none] := by
  cases pkIndex with
  | none =>
      unfold deviceDesc pkIndexArg pkIndexTokens
      dsimp only
      repeat rw [fprintf_eq rfl]
      decide +kernel
  | some i =>
      unfold deviceDesc pkIndexArg pkIndexTokens
      dsimp only
      repeat rw [fprintf_eq rfl]
      decide +kernel

end Sorm
