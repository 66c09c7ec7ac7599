import Sorm.GeneratedText

/-!
# What the parser leaves

Whatever the input is, the names that the scanner returns are words of name characters, and every
column that the parser has listed by the time it stops is complete. Where it accepts, the table has
a name too.
-/

namespace Sorm

open ShiftReduce ParserLex ParserYacc

theorem upperToken_ne_name (z : Text) : (upperToken z).1 ≠ .name := by
  have hlookup : ∀ (table : List (Text × Terminal)) (word : Text) (token : Terminal),
      (∀ entry ∈ table, entry.2 ≠ .name) → table.lookup word = some token → token ≠ .name := by
    intro table word token htable h
    obtain ⟨front, back, hsplit, -⟩ := List.lookup_eq_some_iff.mp h
    exact htable (word, token) (hsplit ▸ List.mem_append_right front List.mem_cons_self)
  have hwords : ∀ entry ∈ keywords, entry.2 ≠ .name := by decide
  have hkeys : ∀ entry ∈ keyWords, entry.2 ≠ .name := by decide
  rw [upperToken]
  cases hkey : keyWords.lookup (z.takeWhile Char.isUpper) with
  | some token =>
      dsimp only
      split_ifs
      · exact hlookup _ _ _ hkeys hkey
      · exact nofun
  | none =>
      dsimp only
      cases hword : keywords.lookup (z.takeWhile Char.isUpper) with
      | some token => exact hlookup _ _ _ hwords hword
      | none => exact nofun

theorem isParsedName_of_scan {c : Char} {z : Text} (h : (scan c z).1 = some .name) :
    IsParsedName (c :: z.take ((scan c z).2 - 1)) := by
  by_cases hupper : c.isUpper
  · rw [scan, if_pos hupper] at h
    exact absurd (Option.some.inj h) (upperToken_ne_name _)
  · by_cases hname : isNameChar c
    · have hword : (c :: z).takeWhile isNameChar = c :: z.takeWhile isNameChar := by
        rw [List.takeWhile_cons, if_pos hname]
      have hlength : (scan c z).2 = (z.takeWhile isNameChar).length + 1 := by
        rw [scan, if_neg hupper, if_pos hname, nameToken, hword]
        rfl
      have htake : z.take (z.takeWhile isNameChar).length = z.takeWhile isNameChar :=
        (List.prefix_iff_eq_take.mp (List.takeWhile_prefix isNameChar)).symm
      rw [hlength, Nat.add_sub_cancel, htake]
      refine ⟨List.cons_ne_nil _ _, ?_⟩
      rw [List.forall_mem_cons]
      exact ⟨hname, fun c' hmem => List.mem_takeWhile_imp hmem⟩
    · rw [scan, if_neg hupper, if_neg hname] at h
      obtain ⟨front, back, hsplit, -⟩ := List.lookup_eq_some_iff.mp h
      have hmarks : ∀ mark ∈ marks, mark.2 ≠ .name := by decide
      exact absurd rfl
        (hmarks (c, .name) (hsplit ▸ List.mem_append_right front List.mem_cons_self))

def Spelled : ShiftReduce.Symbol Terminal NonTerminal → Text → Prop
  | .terminal .name, v => IsParsedName v
  | _, _ => True

theorem yylex_spelled (z : Text) : ∀ token ∈ yylex z, Spelled (.terminal token.1) token.2 := by
  have hlexemes : ∀ fuel z, ∀ token ∈ lexemesFrom fuel z,
      Spelled (.terminal token.1) (copied token.1 token.2) := by
    intro fuel
    induction fuel with
    | zero => exact fun z token hmem => absurd hmem List.not_mem_nil
    | succ fuel ih =>
        intro z token hmem
        cases z with
        | nil => exact absurd hmem List.not_mem_nil
        | cons c z =>
            rw [lexemesFrom, List.mem_append] at hmem
            rcases hmem with hmem | hmem
            · cases hscan : (scan c z).1 with
              | none =>
                  rw [hscan] at hmem
                  exact absurd hmem List.not_mem_nil
              | some t =>
                  rw [hscan] at hmem
                  obtain rfl := List.mem_singleton.mp hmem
                  cases t with
                  | name => exact isParsedName_of_scan hscan
                  | _ => trivial
            · exact ih _ token hmem
  intro token hmem
  obtain ⟨lexeme, hlexeme, rfl⟩ := List.mem_map.mp hmem
  exact hlexemes z.length z lexeme hlexeme

structure ColumnDesc.Draft (column : ColumnDesc) : Prop where
  type : ∀ code, column.type ≠ .unknown code
  mem : column.type = .text ∨ column.type = .blob → column.mem ≠ .none
  maxLen : 0 ≤ column.maxLen
  foreignTableName : column.foreignTableName = none
  foreignColumnName : column.foreignColumnName = none

theorem draft_zero : ColumnDesc.zero.Draft where
  type := nofun
  mem := by decide
  maxLen := Int.le_refl 0
  foreignTableName := rfl
  foreignColumnName := rfl

theorem ColumnDesc.Draft.parsed {column : ColumnDesc} (h : column.Draft) {name : Text}
    (hname : IsParsedName name) : { column with name := some name : ColumnDesc }.Parsed where
  name := ⟨name, rfl, hname⟩
  type := h.type
  mem := h.mem
  maxLen := h.maxLen
  foreignTableName := by simp [h.foreignTableName]
  foreignColumnName := by simp [h.foreignColumnName]

structure Kept (g : ParserState) : Prop where
  named : ∀ name ∈ g.name, IsParsedName name
  columnsNum : g.columnsNum = g.columnsList.length
  columns : ∀ column ∈ g.columnsList, column.Parsed
  draft : g.columnDesc.Draft

/-- What the actions have left where the parser is in some state. -/
structure LeftBy (s : State) (g : ParserState) : Prop where
  kept : Kept g
  mem : s = .textType ∨ s = .blobType → g.columnDesc.mem ≠ .none
  name : s = .statement ∨ s = .root → ∃ name, g.name = some name

theorem Kept.withDesc {g : ParserState} (h : Kept g) {columnDesc : ColumnDesc}
    (hdraft : columnDesc.Draft) : Kept { g with columnDesc := columnDesc } :=
  ⟨h.named, h.columnsNum, h.columns, hdraft⟩

theorem Kept.parseColumn {g : ParserState} (h : Kept g) {name : Text} (hname : IsParsedName name) :
    Kept (ParserYacc.parseColumn name g) where
  named := h.named
  columnsNum := by
    rw [ParserYacc.parseColumn, List.length_append, ← h.columnsNum]
    rfl
  columns := by
    rw [ParserYacc.parseColumn, List.forall_mem_append, List.forall_mem_singleton]
    exact ⟨h.columns, h.draft.parsed hname⟩
  draft := draft_zero

theorem setForeign_parsed (column : Text) {table foreignColumn : Text}
    (htable : IsParsedName table) (hforeign : IsParsedName foreignColumn) {columns : List ColumnDesc}
    (h : ∀ column ∈ columns, column.Parsed) :
    (setForeign column table foreignColumn columns).length = columns.length ∧
      ∀ column' ∈ setForeign column table foreignColumn columns, column'.Parsed := by
  induction columns with
  | nil => exact ⟨rfl, fun column' hmem => absurd hmem List.not_mem_nil⟩
  | cons columnDesc columns ih =>
      rw [List.forall_mem_cons] at h
      obtain ⟨hfirst, hrest⟩ := h
      obtain ⟨hlength, hparsed⟩ := ih hrest
      rw [setForeign]
      split_ifs
      · refine ⟨rfl, ?_⟩
        rw [List.forall_mem_cons]
        refine ⟨⟨hfirst.name, hfirst.type, hfirst.mem, hfirst.maxLen, ?_, ?_⟩, hrest⟩
        · simpa using htable
        · simpa using hforeign
      · rw [List.length_cons, List.length_cons, hlength, List.forall_mem_cons]
        exact ⟨rfl, hfirst, hparsed⟩

/-- The value of a name in a right side. -/
theorem isParsedName_getD {symbols : List (ShiftReduce.Symbol Terminal NonTerminal)}
    {values : List Text} (h : List.Forall₂ Spelled symbols values) {i : ℕ}
    (hname : symbols[i]? = some (.terminal .name)) : IsParsedName (values.getD i []) := by
  induction h generalizing i with
  | nil => cases hname
  | cons hvalue _ ih =>
      cases i with
      | zero =>
          obtain rfl := Option.some.inj hname
          exact hvalue
      | succ i => exact ih hname

/-- The states whose default rules take over a type of storage or a statement. -/
theorem default_state (s : State) :
    ((row s).default = some .typeText → s = .textType) ∧
      ((row s).default = some .typeBlob → s = .blobType) ∧
        ((row s).default = some .root → s = .statement) := by
  cases s <;> decide

section Action
variable {s : State} {g : ParserState} {r : Rule} {values : List Text}
  (hdefault : (row s).default = some r) (hvalues : List.Forall₂ Spelled (rhs r) values)
  (h : LeftBy s g)
include hdefault hvalues h

theorem action_kept : Kept (action r (fun i => values.getD (i - 1) []) g) := by
  have hkept := h.kept
  obtain ⟨htype, hmem, hmaxLen, htable, hforeign⟩ := h.kept.draft
  have hatoi : ∀ digits, 0 ≤ atoi digits := fun digits => Int.natCast_nonneg _
  have hstored : r = .typeText ∨ r = .typeBlob → g.columnDesc.mem ≠ .none := by
    rintro (rfl | rfl)
    · exact h.mem (Or.inl ((default_state s).1 hdefault))
    · exact h.mem (Or.inr ((default_state s).2.1 hdefault))
  cases r with
  | statementDefs | statement =>
      refine ⟨fun name hname => ?_, hkept.columnsNum, hkept.columns, hkept.draft⟩
      obtain rfl := Option.some.inj hname
      exact isParsedName_getD hvalues rfl
  | columnPlain | columnConstrained => exact hkept.parseColumn (isParsedName_getD hvalues rfl)
  | typeInteger | typeBigint | typeReal =>
      exact hkept.withDesc ⟨nofun, by simp, hmaxLen, htable, hforeign⟩
  | typeText =>
      exact hkept.withDesc ⟨nofun, fun _ => hstored (Or.inl rfl), hmaxLen, htable, hforeign⟩
  | typeBlob =>
      exact hkept.withDesc ⟨nofun, fun _ => hstored (Or.inr rfl), hmaxLen, htable, hforeign⟩
  | textHeap | blobHeap => exact hkept.withDesc ⟨htype, fun _ => nofun, hmaxLen, htable, hforeign⟩
  | textStack | blobStack =>
      exact hkept.withDesc ⟨htype, fun _ => nofun, hatoi _, htable, hforeign⟩
  | primaryKey | primaryKeyAsc | primaryKeyDesc | unique =>
      exact hkept.withDesc ⟨htype, hmem, hmaxLen, htable, hforeign⟩
  | foreignKey =>
      obtain ⟨hlength, hparsed⟩ := setForeign_parsed (values.getD 2 [])
        (isParsedName_getD (i := 5) hvalues rfl) (isParsedName_getD (i := 7) hvalues rfl)
        hkept.columns
      exact ⟨hkept.named, hkept.columnsNum.trans hlength.symm, hparsed, hkept.draft⟩
  | _ => exact hkept

theorem action_leftBy {s' : State} (hsymbol : symbol s' = .nonterminal (lhs r)) :
    LeftBy s' (action r (fun i => values.getD (i - 1) []) g) where
  kept := action_kept hdefault hvalues h
  mem := by
    have hlhs : s' = .textType ∨ s' = .blobType → lhs r = .textType ∨ lhs r = .blobType := by
      rintro (rfl | rfl)
      · exact Or.inl (ShiftReduce.Symbol.nonterminal.inj hsymbol).symm
      · exact Or.inr (ShiftReduce.Symbol.nonterminal.inj hsymbol).symm
    intro hs'
    have hr := hlhs hs'
    cases r with
    | textHeap | textStack | blobHeap | blobStack => exact nofun
    | _ => simp [lhs] at hr
  name := by
    have hlhs : s' = .statement ∨ s' = .root → lhs r = .statement ∨ lhs r = .root := by
      rintro (rfl | rfl)
      · exact Or.inl (ShiftReduce.Symbol.nonterminal.inj hsymbol).symm
      · exact Or.inr (ShiftReduce.Symbol.nonterminal.inj hsymbol).symm
    intro hs'
    have hr := hlhs hs'
    cases r with
    | statementDefs | statement => exact ⟨_, rfl⟩
    | root => exact h.name (Or.inl ((default_state s).2.2 hdefault))
    | _ => simp [lhs] at hr

end Action

def attributes : parser.Attributes items where
  value := Spelled
  state := LeftBy
  shift s t s' g hnext h := by
    have hsymbol := (items.edge _ _ _ hnext).1
    refine ⟨h.kept, ?_, ?_⟩
    · rintro (rfl | rfl) <;> cases hsymbol
    · rintro (rfl | rfl) <;> cases hsymbol
  reduce s r s' g values hdefault hvalues h hsymbol :=
    ⟨trivial, action_leftBy hdefault hvalues h hsymbol⟩

theorem leftBy_initial : LeftBy .start .initial where
  kept :=
    { named := nofun
      columnsNum := rfl
      columns := fun column hmem => absurd hmem List.not_mem_nil
      draft := draft_zero }
  mem := by
    rintro (hs | hs) <;> cases hs
  name := by
    rintro (hs | hs) <;> cases hs

theorem attributes_initial (z : Text) : attributes.Holds (initial (yylex z)) where
  path := trivial
  stack _ hmem := absurd hmem List.not_mem_nil
  rest := yylex_spelled z
  state := leftBy_initial

/-- Every column that the parser lists on any input is complete, and a name that it has for the
table is a word. Of a statement that it accepts the table has a name. -/
theorem yyparse_parsed (z : Text) :
    (yyparse (yylex z)).2.columnsNum = (yyparse (yylex z)).2.columnsList.length ∧
    (∀ column ∈ (yyparse (yylex z)).2.columnsList, column.Parsed) ∧
    (∀ name ∈ (yyparse (yylex z)).2.name, IsParsedName name) ∧
    ((yyparse (yylex z)).1 = true → ∃ name, (yyparse (yylex z)).2.name = some name) := by
  obtain ⟨s, hleft, haccepts⟩ :=
    attributes.state_of_run rfl (attributes_initial z) (yyparse_total (yylex z))
  refine ⟨hleft.kept.columnsNum, hleft.kept.columns, hleft.kept.named, fun haccepted => ?_⟩
  have hroot : (row s).accepts = true → s = .root := by
    cases s <;> decide
  exact hleft.name (Or.inr (hroot (haccepts haccepted)))

end Sorm
