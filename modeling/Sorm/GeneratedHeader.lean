import Sorm.GeneratedText

/-!
# Reading the generated header

The header of every table that was parsed is read: directives, the struct with its members, the
initialiser macro, and declarations of functions.
-/

namespace Sorm

open CReader ParserLex

theorem render_tableName (t : GenTable) (i : ℕ) (column : ColumnDesc) (s : String) :
    render (t.value i column) (tableName ++ lit s) = t.name ++ s.toList := by
  rw [render_append, render_lit]
  exact congrArg (· ++ s.toList) (List.append_nil _)

theorem render_upperTableName (t : GenTable) (i : ℕ) (column : ColumnDesc) (s : String) :
    render (t.value i column) (upperTableName ++ lit s) = caseLower2upper t.name ++ s.toList := by
  rw [render_append, render_lit]
  exact congrArg (· ++ s.toList) (List.append_nil _)

theorem maxLenMacro_items : Closed Arg.isWordArg maxLenMacro ∧ itemsIn maxLenMacro =
    [.directive [.word (lit "define"),
      .word (upperTableName ++ lit "__" ++ upperColumnName ++ lit "__MAX_LEN"),
      .word [.hole .maxLen]]] := by
  unfold maxLenMacro
  rw [fprintf_eq rfl]
  decide +kernel

theorem columnMacro_items : Closed Arg.isWordArg columnMacro ∧ itemsIn columnMacro =
    [.directive [.word (lit "define"),
      .word (lit "COLUMN__" ++ upperTableName ++ lit "__" ++ upperColumnName),
      .str (tableName ++ lit "." ++ columnName)]] := by
  unfold columnMacro
  rw [fprintf_eq rfl]
  decide +kernel

/-- Directives about some names only. -/
structure DirectivesAbout (gs : Template) (names : List Template) : Prop where
  closed : Closed Arg.ofTable gs
  declared_eq : declared (itemsIn gs) = []
  subjects_eq : subjects (itemsIn gs) = names

theorem directivesAbout_of {gs : Template} {names : List Template}
    (h : Closed Arg.ofTable gs ∧ declared (itemsIn gs) = [] ∧ subjects (itemsIn gs) = names) :
    DirectivesAbout gs names := ⟨h.1, h.2.1, h.2.2⟩

theorem define_parts : ∃ first second third : Template,
    headerGenerateDefine = [.once first, .each fun _ => some maxLenMacro, .once second,
      .each fun _ => some columnMacro, .once third] ∧
    DirectivesAbout first [upperTableName ++ lit "_SORM_H", upperTableName ++ lit "_SORM_H"] ∧
    DirectivesAbout second
      [upperTableName ++ lit "__ALL_COLUMNS", lit "TABLE__" ++ upperTableName] ∧
    DirectivesAbout third [lit "DESC__" ++ upperTableName, tableName ++ lit "_list_for_each",
      tableName ++ lit "_list_for_each_safe"] := by
  refine ⟨_, _, _, rfl, directivesAbout_of ?_, directivesAbout_of ?_, directivesAbout_of ?_⟩
  all_goals
    repeat rw [fprintf_eq rfl]
    decide +kernel

theorem define_complete (ok : ColumnDesc → Prop) :
    ∀ part ∈ headerGenerateDefine, part.Complete ok := by
  obtain ⟨first, second, third, hdefine, hfirst, hsecond, hthird⟩ := define_parts
  rw [hdefine]
  simp only [List.forall_mem_cons, List.not_mem_nil, false_imp_iff, implies_true, and_true]
  exact ⟨complete_once hfirst.closed ok, fun _ _ _ => ⟨_, rfl, maxLenMacro_items.1⟩,
    complete_once hsecond.closed ok, fun _ _ _ => ⟨_, rfl, columnMacro_items.1⟩,
    complete_once hthird.closed ok⟩

def memberTemplates (column : ColumnDesc) : List Template :=
  (if column.type = .blob then [columnName ++ lit "_len"] else []) ++
    [columnName ++ lit "_stat", columnName]

def memberTexts (column : ColumnDesc) : List Text :=
  (if column.type = .blob then [column.nameText ++ "_len".toList] else []) ++
    [column.nameText ++ "_stat".toList, column.nameText]

theorem render_memberTemplates (t : GenTable) (i : ℕ) (column : ColumnDesc) :
    (memberTemplates column).map (render (t.value i column)) = memberTexts column := by
  have hname : render (t.value i column) columnName = column.nameText := List.append_nil _
  by_cases hblob : column.type = .blob
  · simp only [memberTemplates, memberTexts, if_pos hblob, List.map_append, List.map_cons,
      List.map_nil, render_append, render_lit, hname]
  · simp only [memberTemplates, memberTexts, if_neg hblob, List.map_append, List.map_cons,
      List.map_nil, render_append, render_lit, hname]

def membersOf (gs : Template) : Option (List Template) :=
  (codeTokens gs).bind fun ts =>
    match statements.run [] ts with
    | some (members, []) => members.mapM declaredName
    | _ => none

theorem declares_of_membersOf {gs : Template} {names : List Template}
    (h : membersOf gs = some names) : ∃ ts, codeTokens gs = some ts ∧ Declares ts names := by
  obtain ⟨ts, hts, hrest⟩ := Option.bind_eq_some_iff.mp h
  split at hrest
  · next members hrun => exact ⟨ts, hts, members, hrun, hrest⟩
  · cases hrest

theorem structRound_spec {column : ColumnDesc} (h : column.Parsed) :
    ∃ gs, structRound column = some gs ∧ InBlock gs ∧
      membersOf gs = some (memberTemplates column) := by
  unfold structRound memberTemplates headerStackMember
  have htype := h.type
  have hmem := h.mem
  cases hkind : column.type with
  | unknown code => exact absurd hkind (htype code)
  | text =>
      cases hwhere : column.mem with
      | none => exact absurd hwhere (hmem (Or.inl hkind))
      | _ =>
          refine ⟨_, rfl, ?_⟩
          repeat rw [fprintf_eq rfl]
          decide +kernel
  | blob =>
      cases hwhere : column.mem with
      | none => exact absurd hwhere (hmem (Or.inr hkind))
      | _ =>
          refine ⟨_, rfl, ?_⟩
          repeat rw [fprintf_eq rfl]
          decide +kernel
  | _ =>
      refine ⟨_, rfl, ?_⟩
      repeat rw [fprintf_eq rfl]
      decide +kernel

/-- A block with something for each column, between formats of the table that open and close it. -/
structure ColumnsBlock where
  opening : Template
  closing : Template
  head : List (Token Template)
  first : List (Token Template)
  name : Option Template
  opens : holesAll Arg.ofTable opening ∧
    (reader Glyph.kind).Passes (reader Glyph.kind).start opening []
      ((.normal, .start), .block head 0 first)
  closes : holesAll Arg.ofTable closing ∧
    codeTokens closing = some (.mark '\x7d' :: (name.toList.map .word ++ [.mark ';']))

def ColumnsBlock.items (b : ColumnsBlock) (t : GenTable) (round : ColumnDesc → Option Template) :
    List (Item Text) :=
  [.chunk (mapTokens (render (t.value 0 .zero)) b.head)
      (some (mapTokens (render (t.value 0 .zero)) b.first ++ columnsTokens t round 0 t.columns)),
    .chunk ((b.name.map (render (t.value 0 .zero))).toList.map .word) none]

def structFrame : ColumnsBlock where
  opening := structOpening
  closing := structClosing
  head := [.word (lit "typedef"), .word (lit "struct"), .word (tableName ++ lit "_s")]
  first := [.word (lit "sorm_table_descriptor_t"), .word (lit "table_desc"), .mark ';']
  name := some (tableName ++ lit "_t")
  opens := by
    unfold structOpening Transducer.Passes
    rw [fprintf_eq rfl]
    decide +kernel
  closes := by
    unfold structClosing
    rw [fprintf_eq rfl]
    decide +kernel

def structHead (t : GenTable) : List (Token Text) :=
  [.word "typedef".toList, .word "struct".toList, .word (t.name ++ "_s".toList)]

def structBlock (t : GenTable) : List (Token Text) :=
  [.word "sorm_table_descriptor_t".toList, .word "table_desc".toList, .mark ';'] ++
    columnsTokens t structRound 0 t.columns

def structItems (t : GenTable) : List (Item Text) :=
  [.chunk (structHead t) (some (structBlock t)), .chunk [.word (t.name ++ "_t".toList)] none]

section Header
variable {t : GenTable} (ht : t.Parsed)
include ht

theorem tableWords {gs : Template} (h : holesAll Arg.ofTable gs) (arg : Arg)
    (harg : .hole arg ∈ gs) : IsWord (t.value 0 .zero arg) :=
  ht.isWord_ofTable 0 .zero (allowed_of_holesAll h harg)

/-- A template of the table that is read from some state to another. -/
theorem passes_render {gs : Template} {items : List (Item Template)}
    {s s' : ReaderState (Glyph Arg)}
    (h : holesAll Arg.ofTable gs ∧ (reader Glyph.kind).Passes s gs items s') :
    (reader kind).Passes (readerState (t.value 0 .zero) s) (render (t.value 0 .zero) gs)
      (items.map (Item.map (render (t.value 0 .zero)))) (readerState (t.value 0 .zero) s') :=
  (reader_simulates _).passes (Transducer.along_of_forall fun _ hg _ =>
    suits_of_isWord (fun arg harg => tableWords ht h.1 arg (harg ▸ hg)) _) h.2

theorem ColumnsBlock.reads (b : ColumnsBlock) {round : ColumnDesc → Option Template}
    (hround : ∀ column : ColumnDesc, column.Parsed → ∃ gs, round column = some gs ∧ InBlock gs) :
    ∃ text, printParts t [.once b.opening, .each round, .once b.closing] = some text ∧
      (reader kind).Reads text (b.items t round) := by
  have hopening := passes_render ht b.opens
  obtain ⟨text, htext, hcolumns⟩ := printColumns_block ht hround ht.columns 0
    (mapTokens (render (t.value 0 .zero)) b.head) (mapTokens (render (t.value 0 .zero)) b.first)
  have hclosing := pieces_render (tableWords ht b.closes.1) (reads_of_codeTokens b.closes.2)
  have hchunks : chunks.Passes (.block (mapTokens (render (t.value 0 .zero)) b.head) 0
      (mapTokens (render (t.value 0 .zero)) b.first ++ columnsTokens t round 0 t.columns))
      (((Token.mark '\x7d' :: (b.name.toList.map .word ++ [.mark ';'])).map Piece.code).map
        (Piece.map (render (t.value 0 .zero)))) (b.items t round) (.head []) := by
    unfold ColumnsBlock.items
    cases b.name with
    | none => rfl
    | some name => rfl
  refine ⟨render (t.value 0 .zero) b.opening ++ (text ++
    (render (t.value 0 .zero) b.closing ++ [])), ?_, ?_⟩
  · simp only [printParts, Part.print, htext, Option.bind_eq_bind, Option.bind_some,
      Option.pure_def]
  · rw [List.append_nil]
    exact hopening.append (hcolumns.append (Transducer.Passes.comp hclosing hchunks))

theorem structText_reads : ∃ text, printParts t headerGenerateStructText = some text ∧
    (reader kind).Reads text (structItems t) := by
  have hitems : structFrame.items t structRound = structItems t := by
    simp only [ColumnsBlock.items, structFrame, structItems, structHead, structBlock, mapTokens,
      List.map_cons, List.map_nil, Token.map, render_lit, render_tableName, Option.map_some,
      Option.toList_some]
  rw [← hitems]
  refine structFrame.reads ht fun column hparsed => ?_
  obtain ⟨gs, hgs, hblock, -⟩ := structRound_spec hparsed
  exact ⟨gs, hgs, hblock⟩

end Header

theorem columnsTokens_declare {t : GenTable} {columns : List ColumnDesc}
    (h : ∀ column ∈ columns, column.Parsed) (i : ℕ) :
    Declares (columnsTokens t structRound i columns) (columns.flatMap memberTexts) := by
  induction columns generalizing i with
  | nil => exact ⟨[], Transducer.Passes.nil, rfl⟩
  | cons column columns ih =>
      obtain ⟨gs, hgs, -, hmembers⟩ := structRound_spec (h column List.mem_cons_self)
      obtain ⟨ts, hts, hdeclares⟩ := declares_of_membersOf hmembers
      have hround := hdeclares.map (render (t.value i column))
      rw [render_memberTemplates] at hround
      have hrest := ih (fun column' hmem => h column' (List.mem_cons_of_mem _ hmem)) (i + 1)
      rw [columnsTokens, roundTokens, hgs, Option.getD_some, hts, Option.getD_some,
        List.flatMap_cons]
      exact hround.append hrest

/-- The names of the members in the printed struct. -/
theorem memberNames_structBlock {t : GenTable} (ht : t.Parsed) :
    memberNames (structBlock t) = some ("table_desc".toList :: t.columns.flatMap memberTexts) := by
  have hfirst : Declares [.word "sorm_table_descriptor_t".toList, .word "table_desc".toList,
      .mark ';'] ["table_desc".toList] := ⟨_, rfl, rfl⟩
  exact (hfirst.append (columnsTokens_declare ht.columns 0)).memberNames

theorem initOpening_passes : holesAll Arg.ofTable initOpening ∧
    (reader Glyph.kind).Passes (reader Glyph.kind).start initOpening []
      ((.normal, .directive [.word (lit "define"), .word (upperTableName ++ lit "_INIT"),
        .mark '\x7b', .word (tableName ++ lit "_table_descriptor"), .mark ',']), .head []) := by
  unfold initOpening Transducer.Passes
  rw [fprintf_eq rfl]
  decide +kernel

def initHead (t : GenTable) : List (Token Text) :=
  [.word "define".toList, .word (caseLower2upper t.name ++ "_INIT".toList), .mark '\x7b',
    .word (t.name ++ "_table_descriptor".toList), .mark ',']

theorem initRound_spec {column : ColumnDesc} (h : column.Parsed) :
    ∃ gs, initRound column = some gs ∧ InDirective gs := by
  unfold initRound
  have htype := h.type
  cases hkind : column.type with
  | unknown code => exact absurd hkind (htype code)
  | _ =>
      refine ⟨_, rfl, ?_⟩
      repeat rw [fprintf_eq rfl]
      decide +kernel

theorem initClosing_tokens : holesAll Arg.ofTable initClosing ∧
    lexTokens initClosing = some [.mark '\x7d', .newline, .newline] := by
  unfold initClosing
  rw [fprintf_eq rfl]
  decide +kernel

theorem initFunction_plain : DirectivesAbout initFunction [] := by
  unfold initFunction
  refine directivesAbout_of ?_
  repeat rw [fprintf_eq rfl]
  decide +kernel

def initItems (t : GenTable) : List (Item Text) :=
  (itemsIn initFunction).map (Item.map (render (t.value 0 .zero)))

theorem lines_closing {W : Type} (line : List (Token W)) :
    lines.Passes (.directive line) [.mark '\x7d', .newline, .newline]
      [.directive (line ++ [.mark '\x7d'])] .start := by
  have hnewline : (Token.newline : Token W).isNewline = true := rfl
  have hlast : (line ++ [Token.mark '\x7d']).getLast?.any (Token.isMark '\\') = false := by
    rw [List.getLast?_concat]
    rfl
  have hend : lines.step (.directive (line ++ [.mark '\x7d'])) .newline =
      some ([.directive (line ++ [.mark '\x7d'])], .start) := by
    rw [lines_step, lineStep, if_pos hnewline, if_neg (by rw [hlast]; exact Bool.false_ne_true)]
  have hfirst : lines.step (.directive line) (.mark '\x7d') =
      some ([], .directive (line ++ [.mark '\x7d'])) := rfl
  have hblank : (lines (W := W)).Passes .start [.newline] [] .start := rfl
  exact Transducer.Passes.cons hfirst (Transducer.Passes.cons hend hblank)

theorem initText_reads {t : GenTable} (ht : t.Parsed) :
    ∃ text more, printParts t headerGenerateInit = some text ∧
      (reader kind).Reads text (.directive (initHead t ++ more) :: initItems t) := by
  have hopening := passes_render ht initOpening_passes
  simp only [readerState, LexState.map, LineState.map, ChunkState.map, mapTokens, List.map_cons,
    List.map_nil, Token.map, render_lit, render_tableName, render_upperTableName] at hopening
  obtain ⟨text, more, htext, hcolumns⟩ := printColumns_directive ht
    (fun column hparsed => initRound_spec hparsed) ht.columns 0 (initHead t) (.head [])
  have hclosing := lexer_render (tableWords ht initClosing_tokens.1)
    (reads_of_lexTokens initClosing_tokens.2)
  have hline : chunks.Passes (.head []) [.directive (initHead t ++ more ++ [.mark '\x7d'])]
      [.directive (initHead t ++ more ++ [.mark '\x7d'])] (.head []) := rfl
  have hlines := lines_closing (initHead t ++ more)
  have hend : (reader kind).Passes ((.normal, .directive (initHead t ++ more)), .head [])
      (render (t.value 0 .zero) initClosing) [.directive (initHead t ++ more ++ [.mark '\x7d'])]
      ((.normal, .start), .head []) :=
    Transducer.Passes.comp (Transducer.Passes.comp hclosing hlines) hline
  have hfunction : (reader kind).Passes ((.normal, .start), .head [])
      (render (t.value 0 .zero) initFunction) (initItems t) ((.normal, .start), .head []) :=
    Closed.reads initFunction_plain.closed fun arg harg => ht.isWord_ofTable 0 .zero harg
  refine ⟨render (t.value 0 .zero) initOpening ++ (text ++ (render (t.value 0 .zero) initClosing ++
    (render (t.value 0 .zero) initFunction ++ []))), more ++ [.mark '\x7d'], ?_, ?_⟩
  · simp only [printParts, headerGenerateInit, Part.print, htext, Option.bind_eq_bind,
      Option.bind_some, Option.pure_def]
  · rw [List.append_nil]
    have hall := hopening.append (hcolumns.append (hend.append hfunction))
    rwa [List.nil_append, List.nil_append, List.singleton_append, List.append_assoc] at hall

end Sorm
