import Sorm.GeneratedMacros
import Sorm.GeneratedStruct

/-!
# The table that the generated source describes

The initialisers in the generated source, read back with the macros of the header, are the table
that the parser has built. The exceptions are a source that cannot be read, and a length whose
macro is defined once more as the name of a column.
-/

namespace Sorm

open CReader ParserLex ParserYacc

def number : List (Token Text) → Option ℕ
  | [.word w] => if w ≠ [] ∧ w.all Char.isDigit then some (decimal w) else none
  | _ => none

def constant {α : Type} (print : α → Text) (all : List α) (word : Text) : Option α :=
  all.find? fun a => print a = word

structure ColumnRow where
  index : ℕ
  descriptor : ColumnDescriptor
  struct : Text
  member : Text
deriving DecidableEq, Repr

/-- A record of column descriptors, where `value` says what a macro stands for. A literal has no
escapes in it. -/
def readRow (value : Text → Option (List (Token Text))) :
    List (List (Token Text)) → Option ColumnRow
  | [[.str name], index, [.word type], [.word constraint], [.word mem], [.word maxLen],
      [.word offset, .mark '(', .word struct, .mark ',', .word member, .mark ')'], isForeignKey,
      [.str foreignTableName], [.str foreignColumnName]] => do
      let index ← number index
      let type ← constant sormStrtype [.int, .int64, .text, .double, .blob] type
      let constraint ← constant sormStrconstraint [.none, .pk, .pkAsc, .pkDesc, .unique] constraint
      let mem ← constant sormStrmem [.none, .heap, .stack] mem
      let maxLen ← (value maxLen).bind number
      let isForeignKey ← number isForeignKey
      if offset = "SORM_OFFSET".toList then
        return {
          index := index
          descriptor := ⟨name, type, constraint, mem, maxLen, isForeignKey ≠ 0, foreignTableName,
            foreignColumnName⟩
          struct := struct
          member := member }
      else none
  | _ => none

structure TableRow where
  name : Text
  struct : Text
  columnsNum : ℕ
  pkIndex : Option ℕ
  createSql : Text
  columns : List ColumnRow
deriving DecidableEq, Repr

def readPkIndex : List (Token Text) → Option (Option ℕ)
  | [.mark '-', .word w] => if w = "1".toList then some none else none
  | field => (number field).map some

def readTableDesc (header source name : Text) : Option TableRow := do
  let hs ← readUnit header
  let cs ← readUnit source
  let block ← initialiser (name ++ "_table_descriptor".toList) cs
  match ← fieldsOf block with
  | [[.str name], [.word size, .mark '(', .word struct, .mark ')'], columnsNum, pkIndex,
      [.str createSql], [.word columns]] => do
      let columnsNum ← number columnsNum
      let pkIndex ← readPkIndex pkIndex
      let rows ← (initialiser columns cs).bind records.output
      let columns ← rows.mapM (readRow (macroValue hs))
      if size = "SORM_SIZE".toList then
        return ⟨name, struct, columnsNum, pkIndex, createSql, columns⟩
      else none
  | _ => none

def ColumnDesc.row (t : GenTable) (i : ℕ) (column : ColumnDesc) : ColumnRow where
  index := i
  descriptor := column.descriptor
  struct := t.name ++ "_t".toList
  member := column.nameText

def rowsFrom (t : GenTable) : ℕ → List ColumnDesc → List ColumnRow
  | _, [] => []
  | i, column :: columns => column.row t i :: rowsFrom t (i + 1) columns

def GenTable.row (t : GenTable) : TableRow where
  name := t.name
  struct := t.name ++ "_t".toList
  columnsNum := t.columns.length
  pkIndex := t.pkIndex
  createSql := t.createSql
  columns := rowsFrom t 0 t.columns

theorem number_printInt {v : ℤ} (h : 0 ≤ v) : number [.word (printInt v)] = some v.toNat := by
  have hdigits : ∀ c ∈ Nat.toDigits 10 v.natAbs, c.isDigit :=
    fun c hc => Nat.isDigit_of_mem_toDigits (by decide) (by decide) hc
  have hvalue : decimal (Nat.toDigits 10 v.natAbs) = v.natAbs := Nat.ofDigitChars_ten_toDigits
  have hcond : Nat.toDigits 10 v.natAbs ≠ [] ∧ (Nat.toDigits 10 v.natAbs).all Char.isDigit :=
    ⟨Nat.toDigits_ne_nil, List.all_eq_true.mpr hdigits⟩
  rw [printInt, if_neg (Int.not_lt.mpr h), number, if_pos hcond, hvalue]
  congr 1
  omega

theorem number_natCast (n : ℕ) : number [.word (printInt n)] = some n := by
  rw [number_printInt (Int.natCast_nonneg n), Int.toNat_natCast]

theorem constant_type {type : SormType} (h : ∀ code, type ≠ .unknown code) :
    constant sormStrtype [.int, .int64, .text, .double, .blob] (sormStrtype type) = some type := by
  cases type with
  | unknown code => exact absurd rfl (h code)
  | _ => decide

theorem constant_constraint (constraint : SormConstraint) :
    constant sormStrconstraint [.none, .pk, .pkAsc, .pkDesc, .unique]
      (sormStrconstraint constraint) = some constraint := by
  cases constraint <;> decide

theorem constant_mem (mem : SormMem) :
    constant sormStrmem [.none, .heap, .stack] (sormStrmem mem) = some mem := by
  cases mem <;> decide

def rowTokens (t : GenTable) (i : ℕ) (column : ColumnDesc) : List (List (Token Text)) :=
  [[.str column.nameText], [.word (printInt i)], [.word (sormStrtype column.type)],
    [.word (sormStrconstraint column.constraint)], [.word (sormStrmem column.mem)],
    [.word (maxLenName t column)],
    [.word "SORM_OFFSET".toList, .mark '(', .word (t.name ++ "_t".toList), .mark ',',
      .word column.nameText, .mark ')'],
    [.word (printInt (if column.isForeignKey then 1 else 0))],
    [.str (strOrNull column.foreignTableName)], [.str (strOrNull column.foreignColumnName)]]

theorem readRow_eq (value : Text → Option (List (Token Text))) (t : GenTable) (i : ℕ)
    {column : ColumnDesc} (h : column.Parsed) : readRow value (rowTokens t i column) =
      ((value (maxLenName t column)).bind number).map fun maxLen =>
        { column.row t i with descriptor := { column.descriptor with maxLen := maxLen } } := by
  have hforeign : number [.word (printInt (if column.isForeignKey then 1 else 0))] =
      some (if column.isForeignKey then 1 else 0) := by
    cases column.isForeignKey <;> decide
  rw [rowTokens, readRow, number_natCast, constant_type h.type, constant_constraint, constant_mem,
    hforeign]
  cases (value (maxLenName t column)).bind number with
  | none => rfl
  | some maxLen =>
      simp only [Option.bind_eq_bind, Option.bind_some, if_true, Option.pure_def, Option.map_some]
      cases hkey : column.isForeignKey <;>
        simp [ColumnDesc.row, ColumnDesc.descriptor, hkey]

theorem columnDescRound_records : (codeTokens columnDescRound).bind (records.run .outside) =
    some ([[[.str columnName], [.word columnIndex], [.word [.hole .type]],
      [.word [.hole .constraint]], [.word [.hole .mem]],
      [.word (upperTableName ++ lit "__" ++ upperColumnName ++ lit "__MAX_LEN")],
      [.word (lit "SORM_OFFSET"), .mark '(', .word (tableName ++ lit "_t"), .mark ',',
        .word columnName, .mark ')'],
      [.word [.hole .isForeignKey]], [.str [.hole .foreignTableName]],
      [.str [.hole .foreignColumnName]]]], .outside) := by
  unfold columnDescRound
  rw [fprintf_eq rfl]
  decide +kernel

theorem roundTokens_records (t : GenTable) (i : ℕ) (column : ColumnDesc) :
    records.Reads (roundTokens t (fun _ => some columnDescRound) i column)
      [rowTokens t i column] := by
  obtain ⟨ts, hts, hrun⟩ := Option.bind_eq_some_iff.mp columnDescRound_records
  obtain ⟨hupper, hupperColumn, htable, hcolumn⟩ := render_names t i column
  have hhole : ∀ arg, render (t.value i column) [.hole arg] = t.value i column arg :=
    fun arg => List.append_nil _
  have hmap := (records_simulates (render (t.value i column))).run_map .outside ts
  rw [hrun] at hmap
  rw [roundTokens, Option.getD_some, hts, Option.getD_some]
  refine hmap.trans ?_
  simp only [Option.map_some, List.map_cons, List.map_nil, mapTokens, Token.map, render_append,
    render_lit, hupper, hupperColumn, htable, hcolumn, hhole, columnIndex]
  rfl

def rowsTokens (t : GenTable) : ℕ → List ColumnDesc → List (List (List (Token Text)))
  | _, [] => []
  | i, column :: columns => rowTokens t i column :: rowsTokens t (i + 1) columns

theorem columnsTokens_records (t : GenTable) (i : ℕ) (columns : List ColumnDesc) :
    records.Reads (columnsTokens t (fun _ => some columnDescRound) i columns)
      (rowsTokens t i columns) := by
  induction columns generalizing i with
  | nil => exact Transducer.Passes.nil
  | cons column columns ih =>
      rw [columnsTokens, rowsTokens, ← List.singleton_append]
      exact (roundTokens_records t i column).append (ih (i + 1))

theorem columnDescBlock_records (t : GenTable) :
    records.output (columnDescBlock t) = some (rowsTokens t 0 t.columns) := by
  have houtput := (columnsTokens_records t 0 t.columns).output_eq rfl
  rw [columnDescBlock, houtput]

section Rows
variable {t : GenTable} {value : Text → Option (List (Token Text))} {columns : List ColumnDesc}
  (h : ∀ column ∈ columns, column.Parsed)
include h

theorem readRows_eq (hvalue : ∀ column ∈ columns,
      value (maxLenName t column) = some [.word (printInt column.maxLen)]) (i : ℕ) :
    (rowsTokens t i columns).mapM (readRow value) = some (rowsFrom t i columns) := by
  induction columns generalizing i with
  | nil => rfl
  | cons column columns ih =>
      rw [List.forall_mem_cons] at h hvalue
      obtain ⟨hparsed, hrest⟩ := h
      have hmaxLen : ((column.maxLen.toNat : ℕ) : ℤ) = column.maxLen :=
        Int.toNat_of_nonneg hparsed.maxLen
      rw [rowsTokens, List.mapM_cons, readRow_eq value t i hparsed, hvalue.1, Option.bind_some,
        number_printInt hparsed.maxLen, Option.map_some, ih hrest hvalue.2 (i + 1), hmaxLen]
      rfl

theorem maxLen_of_readRows {i : ℕ} {rows : List ColumnRow}
    (hrows : (rowsTokens t i columns).mapM (readRow value) = some rows) :
    ∀ column ∈ columns, ∃ maxLen, (value (maxLenName t column)).bind number = some maxLen := by
  induction columns generalizing i rows with
  | nil => exact fun column hmem => absurd hmem List.not_mem_nil
  | cons column columns ih =>
      rw [List.forall_mem_cons] at h
      rw [rowsTokens, List.mapM_cons] at hrows
      obtain ⟨row, hrow, hrest⟩ := Option.bind_eq_some_iff.mp hrows
      obtain ⟨rows', hrows', -⟩ := Option.bind_eq_some_iff.mp hrest
      rw [readRow_eq value t i h.1] at hrow
      obtain ⟨maxLen, hmaxLen, -⟩ := Option.map_eq_some_iff.mp hrow
      have htail := ih h.2 hrows'
      rw [List.forall_mem_cons]
      exact ⟨⟨maxLen, hmaxLen⟩, htail⟩

end Rows

theorem deviceDesc_fields (pkIndex : Option ℕ) : fieldsOf ([.str tableName, .mark ',',
      .word (lit "SORM_SIZE"), .mark '(', .word (tableName ++ lit "_t"), .mark ')', .mark ',',
      .word [.hole .columnsNum], .mark ','] ++ pkIndexTokens pkIndex ++
      [.mark ',', .str [.hole .createSql], .mark ',',
        .word (tableName ++ lit "_columns_descriptor"), .mark ',']) =
    some [[.str tableName], [.word (lit "SORM_SIZE"), .mark '(', .word (tableName ++ lit "_t"),
      .mark ')'], [.word [.hole .columnsNum]], pkIndexTokens pkIndex, [.str [.hole .createSql]],
      [.word (tableName ++ lit "_columns_descriptor")]] := by
  cases pkIndex with
  | none => rfl
  | some i => rfl

theorem readPkIndex_eq (t : GenTable) :
    readPkIndex (mapTokens (render (t.value 0 .zero)) (pkIndexTokens t.pkIndex)) =
      some t.pkIndex := by
  cases hpk : t.pkIndex with
  | none => rfl
  | some i =>
      have hindex : mapTokens (render (t.value 0 .zero)) (pkIndexTokens (some i)) =
          [.word (printInt i)] := by
        simp [pkIndexTokens, mapTokens, Token.map, render, Glyph.text, GenTable.value, hpk]
      rw [hindex, readPkIndex, number_natCast]
      · rfl
      · rintro w ⟨⟩

theorem initialiser_append (name : Text) (items items' : List (Item Text)) :
    initialiser name (items ++ items') =
      (initialiser name items).or (initialiser name items') := List.findSome?_append

def directivesOnly (items : List (Item Template)) : Bool :=
  items.all fun item =>
    match item with
    | .directive _ => true
    | .chunk _ _ => false

theorem initialiser_directives (name : Text) (env : Arg → Text) {items : List (Item Template)}
    (h : directivesOnly items) : initialiser name (items.map (Item.map (render env))) = none := by
  induction items with
  | nil => rfl
  | cons item items ih =>
      obtain ⟨hhead, htail⟩ := Bool.and_eq_true_iff.mp h
      cases item with
      | chunk head block => cases hhead
      | directive line => exact ih htail

theorem initialiser_includes (t : GenTable) (name : Text) :
    initialiser name (partsItems t cGenerateIncludes) = none := by
  have htable : directivesOnly (itemsIn (includeHeader tableName)) := by
    rw [includeHeader_table.2]
    rfl
  have hround : ∀ column : ColumnDesc,
      directivesOnly (itemsIn ((includeRound column).getD [])) := by
    intro column
    rw [includeRound, Option.getD_some]
    by_cases hforeign : column.isForeignKey
    · rw [if_pos hforeign, includeHeader_foreign.2]
      rfl
    · rw [if_neg hforeign]
      rfl
  have hcolumns : ∀ (columns : List ColumnDesc) (i : ℕ),
      initialiser name (columnsItems t includeRound i columns) = none := by
    intro columns
    induction columns with
    | nil => exact fun _ => rfl
    | cons column columns ih =>
        intro i
        rw [columnsItems, initialiser_append, ih, roundItems,
          initialiser_directives name _ (hround column)]
        rfl
  have hnil : initialiser name (partsItems t []) = none := rfl
  unfold cGenerateIncludes
  rw [partsItems_cons, partsItems_cons, initialiser_append, initialiser_append, hnil]
  rw [Part.items, Part.items, hcolumns, initialiser_directives name _ htable]
  rfl

theorem initialiser_columnDesc (t : GenTable) :
    initialiser (t.name ++ "_columns_descriptor".toList) (columnDescItems t) =
      some (columnDescBlock t) ∧
    initialiser (t.name ++ "_table_descriptor".toList) (columnDescItems t) = none := by
  have hname : initialisedName (columnDescHead t) = some (t.name ++ "_columns_descriptor".toList) :=
    rfl
  have hother : t.name ++ "_columns_descriptor".toList ≠ t.name ++ "_table_descriptor".toList := by
    intro h
    exact absurd (List.append_cancel_left h) (by decide)
  have hne : some (t.name ++ "_columns_descriptor".toList) ≠
      some (t.name ++ "_table_descriptor".toList) := fun h => hother (Option.some.inj h)
  constructor
  · rw [columnDescItems, initialiser, List.findSome?_cons]
    dsimp only
    rw [hname, if_pos rfl]
  · rw [columnDescItems, initialiser, List.findSome?_cons]
    dsimp only
    rw [hname, if_neg hne]
    rfl

def deviceItems (t : GenTable) : List (Item Text) :=
  (itemsIn (deviceDesc t.pkIndex)).map (Item.map (render (t.value 0 .zero)))

theorem initialiser_deviceDesc (t : GenTable) : ∃ block,
    initialiser (t.name ++ "_table_descriptor".toList) (deviceItems t) = some block ∧
    fieldsOf block = some [[.str t.name],
      [.word "SORM_SIZE".toList, .mark '(', .word (t.name ++ "_t".toList), .mark ')'],
      [.word (printInt t.columns.length)],
      mapTokens (render (t.value 0 .zero)) (pkIndexTokens t.pkIndex), [.str t.createSql],
      [.word (t.name ++ "_columns_descriptor".toList)]] := by
  obtain ⟨-, -, htable, -⟩ := render_names t 0 .zero
  have hnum : render (t.value 0 .zero) [.hole .columnsNum] = printInt t.columns.length :=
    List.append_nil _
  have hsql : render (t.value 0 .zero) [.hole .createSql] = t.createSql := List.append_nil _
  have hfields := fieldsOf_map (render (t.value 0 .zero)) (deviceDesc_fields t.pkIndex)
  have hhead : initialisedName (mapTokens (render (t.value 0 .zero))
      [.word (lit "sorm_table_descriptor_t"), .word (tableName ++ lit "_table_descriptor"),
        .mark '=']) = some (t.name ++ "_table_descriptor".toList) := by
    simp only [mapTokens, List.map_cons, List.map_nil, Token.map, render_tableName, render_lit]
    rfl
  refine ⟨_, ?_, hfields.trans ?_⟩
  · rw [deviceItems, (deviceDesc_items t.pkIndex).2, initialiser, List.map_cons,
      List.findSome?_cons]
    dsimp only [Item.map, Option.map_some]
    rw [hhead, if_pos rfl]
  · have hpk : (pkIndexTokens t.pkIndex).map (Token.map (render (t.value 0 .zero))) =
        mapTokens (render (t.value 0 .zero)) (pkIndexTokens t.pkIndex) := rfl
    simp only [List.map_cons, List.map_nil, mapTokens, Token.map, render_tableName, render_lit,
      htable, hnum, hsql]

theorem initialiser_cItems (t : GenTable) :
    initialiser (t.name ++ "_columns_descriptor".toList) (cItems t) = some (columnDescBlock t) ∧
    ∃ block, initialiser (t.name ++ "_table_descriptor".toList) (cItems t) = some block ∧
      fieldsOf block = some [[.str t.name],
        [.word "SORM_SIZE".toList, .mark '(', .word (t.name ++ "_t".toList), .mark ')'],
        [.word (printInt t.columns.length)],
        mapTokens (render (t.value 0 .zero)) (pkIndexTokens t.pkIndex), [.str t.createSql],
        [.word (t.name ++ "_columns_descriptor".toList)]] := by
  obtain ⟨hcolumns, hnone⟩ := initialiser_columnDesc t
  obtain ⟨block, hblock, hfields⟩ := initialiser_deviceDesc t
  rw [deviceItems] at hblock
  constructor
  · rw [cItems, cFirstItems]
    simp only [initialiser_append, initialiser_includes, hcolumns, Option.none_or, Option.some_or]
  · refine ⟨block, ?_, hfields⟩
    rw [cItems, cFirstItems]
    simp only [initialiser_append, initialiser_includes, hnone, hblock, Option.none_or,
      Option.some_or]

/-- Behind all definitions the length of a column is the name of another one. -/
def LengthHidden (t : GenTable) : Prop :=
  ∃ column ∈ t.columns, ∃ column' ∈ t.columns, maxLenName t column = columnMacroName t column'

theorem readTableDesc_eq {t : GenTable} {header source : Text} {more : List (Token Text)}
    (hheader : readUnit header = some (headerItems t more))
    (hsource : readUnit source = some (cItems t)) : readTableDesc header source t.name =
      ((rowsTokens t 0 t.columns).mapM (readRow (macroValue (headerItems t more)))).map fun rows =>
        { t.row with columns := rows } := by
  obtain ⟨hcolumns, block, hblock, hfields⟩ := initialiser_cItems t
  rw [readTableDesc, hheader, hsource]
  simp only [Option.bind_eq_bind, Option.bind_some, hblock, hfields, number_natCast,
    readPkIndex_eq, hcolumns, columnDescBlock_records, if_true, Option.pure_def]
  cases (rowsTokens t 0 t.columns).mapM (readRow (macroValue (headerItems t more))) with
  | none => rfl
  | some rows => rfl

def hiddenTable : GenTable where
  name := "column".toList
  columns := [{ ColumnDesc.zero with name := some "column".toList },
    { ColumnDesc.zero with name := some "max_len".toList }]
  pkIndex := none
  createSql := "CREATE TABLE column (column INTEGER, max_len INTEGER)".toList

end Sorm
