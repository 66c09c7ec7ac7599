import Sorm.SqlSchema
import Sorm.StatementText
import Sorm.WholeStatement

/-!
# Names of indexes

`sorm_create_index` names an index after its columns alone, with an underscore for every comma. The
name says nothing about the table, and an underscore may stand in the name of a column too.
-/

namespace Sorm

open Interaction Monitor Sql SqlSchema

def IsPlainName (s : Text) : Prop := s ≠ [] ∧ ∀ c ∈ s, c.isLower ∨ c = '_' ∨ c.isDigit

instance (s : Text) : Decidable (IsPlainName s) :=
  have : Decidable (∀ c ∈ s, c.isLower ∨ c = '_' ∨ c.isDigit) := List.decidableBAll _ s
  inferInstanceAs (Decidable (s ≠ [] ∧ ∀ c ∈ s, c.isLower ∨ c = '_' ∨ c.isDigit))

/-- A text that lists names, with commas between them and blanks around them. -/
inductive ColumnList : Text → List Text → Prop
  | last (k l : ℕ) {name : Text} (h : IsPlainName name) :
      ColumnList (List.replicate k ' ' ++ name ++ List.replicate l ' ') [name]
  | cons (k l : ℕ) {name rest : Text} {names : List Text} (h : IsPlainName name)
      (hrest : ColumnList rest names) :
      ColumnList (List.replicate k ' ' ++ name ++ List.replicate l ' ' ++ ',' :: rest)
        (name :: names)

def joined (names : List Text) : Text := ['_'].intercalate names

def indexName (columnsName : Text) : Text := "index_".toList ++ constructIndexSuffix columnsName

theorem IsPlainName.isIdentChar {s : Text} (h : IsPlainName s) : ∀ c ∈ s, c.isAlphanum ∨ c = '_' := by
  intro c hc
  rcases h.2 c hc with hlower | hunder | hdigit
  · have hisAlpha : c.isAlpha = (c.isUpper || c.isLower) := rfl
    exact .inl (by simp [Char.isAlphanum, hisAlpha, hlower])
  · exact .inr hunder
  · exact .inl (by simp [Char.isAlphanum, hdigit])

theorem constructIndexSuffix_append (s t : Text) :
    constructIndexSuffix (s ++ t) = constructIndexSuffix s ++ constructIndexSuffix t := by
  induction s with
  | nil => rfl
  | cons c s ih =>
      rw [List.cons_append, constructIndexSuffix, constructIndexSuffix, ih]
      split_ifs <;> rfl

theorem constructIndexSuffix_blanks (k : ℕ) :
    constructIndexSuffix (List.replicate k ' ') = [] := by
  induction k with
  | zero => rfl
  | succ k ih =>
      rw [List.replicate_succ, constructIndexSuffix, if_neg (by decide), if_neg (by decide), ih]

theorem constructIndexSuffix_name {name : Text} (h : ∀ c ∈ name, c.isAlphanum ∨ c = '_') :
    constructIndexSuffix name = name := by
  induction name with
  | nil => rfl
  | cons c name ih =>
      have hne : ∀ d, ¬ (d.isAlphanum ∨ d = '_') → c ≠ d := by
        rintro d hd rfl
        exact hd (h _ List.mem_cons_self)
      rw [constructIndexSuffix, if_neg (hne ',' (by decide)), if_pos (hne ' ' (by decide)),
        ih fun d hd => h d (List.mem_cons_of_mem _ hd)]

theorem ColumnList.ne_nil {columnsName : Text} {names : List Text}
    (h : ColumnList columnsName names) : names ≠ [] := by
  cases h <;> exact List.cons_ne_nil _ _

theorem joined_cons {name : Text} {names : List Text} (h : names ≠ []) :
    joined (name :: names) = name ++ '_' :: joined names := by
  unfold joined
  rw [List.intercalate_cons_of_ne_nil h, List.append_assoc]
  rfl

/-- The suffix is the list of the names, whatever blanks are around them. -/
theorem constructIndexSuffix_eq {columnsName : Text} {names : List Text}
    (h : ColumnList columnsName names) : constructIndexSuffix columnsName = joined names := by
  induction h with
  | last k l hname =>
      rw [constructIndexSuffix_append, constructIndexSuffix_append, constructIndexSuffix_blanks,
        constructIndexSuffix_blanks, constructIndexSuffix_name hname.isIdentChar, List.nil_append,
        List.append_nil]
      exact List.intercalate_singleton.symm
  | cons k l hname hrest ih =>
      rw [constructIndexSuffix_append, constructIndexSuffix_append, constructIndexSuffix_append,
        constructIndexSuffix_blanks, constructIndexSuffix_blanks,
        constructIndexSuffix_name hname.isIdentChar, constructIndexSuffix, if_pos rfl, ih,
        joined_cons hrest.ne_nil, List.nil_append, List.append_nil]

theorem isIdentChar_joined {columnsName : Text} {names : List Text}
    (h : ColumnList columnsName names) : ∀ c ∈ joined names, c.isAlphanum ∨ c = '_' := by
  induction h with
  | last k l hname =>
      unfold joined
      rw [List.intercalate_singleton]
      exact hname.isIdentChar
  | cons k l hname hrest ih =>
      rw [joined_cons hrest.ne_nil]
      intro c hc
      rcases List.mem_append.mp hc with hc | hc
      · exact hname.isIdentChar c hc
      · rcases List.mem_cons.mp hc with rfl | hc
        · exact .inr rfl
        · exact ih c hc

theorem plainIdentifier_indexName {columnsName : Text} {names : List Text}
    (h : ColumnList columnsName names) : plainIdentifier (indexName columnsName) := by
  have hjoined := isIdentChar_joined h
  unfold indexName
  rw [constructIndexSuffix_eq h]
  have hall : (joined names).all (fun c => c.isAlphanum || c = '_') := by
    rw [List.all_eq_true]
    intro c hc
    simpa using hjoined c hc
  have hsplit : "index_".toList ++ joined names = 'i' :: ("ndex_".toList ++ joined names) := rfl
  rw [hsplit, plainIdentifier, List.all_append, hall]
  decide

theorem IsPlainName.isIdChar {s : Text} (h : IsPlainName s) : ∀ c ∈ s, isIdChar c := by
  intro c hc
  rcases h.isIdentChar c hc with h | h <;> simp [Sql.isIdChar, h]

theorem type_of_names {type : TokenType} {text : Text} {t : Token} {ts : List Token}
    {r : List Text × List Token} (h : names (⟨type, text⟩ :: t :: ts) = some r) : type = .word := by
  cases type <;> first | rfl | cases h

/-- A name in a list, with the mark behind it. -/
theorem tokens_columnName {name : Text} (h : IsPlainName name) (k l : ℕ) {c : Char} {z : Text}
    (hc : c = ',' ∨ c = ')') : ∃ type, tokens (List.replicate k ' ' ++ name ++
      List.replicate l ' ' ++ c :: z) = ⟨type, name⟩ :: tokens (c :: z) ∧ type ≠ .semi := by
  have hmark : Unspaced (c :: z) := by
    intro d hd
    obtain rfl : c = d := Option.some.inj hd
    rcases hc with rfl | rfl <;> decide
  have hend : EndsName (List.replicate l ' ' ++ c :: z) := by
    intro d hd
    cases l with
    | zero =>
        obtain rfl : c = d := Option.some.inj hd
        tauto
    | succ l => exact .inl (Option.some.inj hd).symm
  obtain ⟨type, htokens, htype⟩ := tokens_name h.1 h.isIdentChar hend
  refine ⟨type, ?_, htype⟩
  rw [List.append_assoc, List.append_assoc,
    tokens_blanks (unspaced_of_isIdChar h.1 h.isIdChar), htokens, tokens_blanks hmark]

/-- The tokens of a list, and what is read from them. -/
theorem tokens_columnList {columnsName : Text} {columns : List Text}
    (h : ColumnList columnsName columns) (z : Text) : ∃ ts,
      tokens (columnsName ++ ')' :: z) = ts ++ tokens z ∧ (∀ t ∈ ts, t.type ≠ .semi) ∧
      ∀ r, names (ts ++ tokens z) = some r → r = (columns, tokens z) := by
  induction h with
  | last k l hname =>
      rename_i name
      obtain ⟨type, htokens, htype⟩ := tokens_columnName hname k l (z := z) (.inr rfl)
      refine ⟨[⟨type, name⟩, rp], ?_, ?_, fun r hr => ?_⟩
      · rw [htokens, tokens_rp]
        rfl
      · intro t ht
        rcases List.mem_cons.mp ht with rfl | ht
        · exact htype
        · obtain rfl := List.mem_singleton.mp ht
          decide
      · obtain rfl := type_of_names hr
        exact (Option.some.inj hr).symm
  | cons k l hname hrest ih =>
      rename_i name rest names
      obtain ⟨ts, hts, hsemi, hnames⟩ := ih
      obtain ⟨type, htokens, htype⟩ :=
        tokens_columnName hname k l (z := rest ++ ')' :: z) (.inl rfl)
      refine ⟨⟨type, name⟩ :: comma :: ts, ?_, ?_, fun r hr => ?_⟩
      · rw [List.append_assoc, List.cons_append, htokens, tokens_comma, hts]
        rfl
      · intro t ht
        rcases List.mem_cons.mp ht with rfl | ht
        · exact htype
        · rcases List.mem_cons.mp ht with rfl | ht
          · decide
          · exact hsemi t ht
      · obtain rfl := type_of_names hr
        change ((SqlSchema.names (ts ++ tokens z)).map fun r => (name :: r.1, r.2)) = some r at hr
        obtain ⟨r', hr', rfl⟩ := Option.map_eq_some_iff.mp hr
        rw [hnames r' hr']

def createIndexText (table : TableDescriptor) (columnsName : Text) : Text :=
  "CREATE INDEX IF NOT EXISTS ".toList ++ (indexName columnsName ++
    " ON ".toList ++ (table.name ++ '(' :: (columnsName ++ [')'])))

section Statement

variable {table : TableDescriptor} {columnsName : Text} {columns : List Text} {b : Buf}

theorem createIndexStmt_text (h : createIndexStmt table columnsName = .ok b) :
    b.text = createIndexText table columnsName ∧ b.text.length ≤ sqlStmtMaxLen := by
  obtain ⟨hholds, hlength⟩ := Buf.holds_empty.append h
  have htext : b.text = createIndexText table columnsName := by
    rw [hholds.text]
    unfold createIndexText indexName
    simp only [List.nil_append, List.append_assoc, List.cons_append]
    rfl
  rw [hholds.text]
  rw [hholds.text] at htext
  exact ⟨htext, hlength⟩

theorem dropIndexStmt_text (h : dropIndexStmt columnsName = .ok b) :
    b.text = "DROP INDEX ".toList ++ indexName columnsName ∧ b.text.length ≤ sqlStmtMaxLen := by
  obtain ⟨hholds, hlength⟩ := Buf.holds_empty.append h
  rw [hholds.text]
  exact ⟨rfl, hlength⟩

theorem tokens_createIndexText (hcolumns : ColumnList columnsName columns)
    (htable : IsPlainName table.name) : ∃ type ts,
      tokens (createIndexText table columnsName) =
        word "CREATE" :: word "INDEX" :: word "IF" :: word "NOT" :: word "EXISTS" ::
          ⟨.word, indexName columnsName⟩ :: word "ON" :: ⟨type, table.name⟩ :: lp :: ts ∧
      type ≠ .semi ∧ (∀ t ∈ ts, t.type ≠ .semi) ∧
      ∀ r, names ts = some r → r = (columns, []) := by
  have hindex := plainIdentifier_indexName hcolumns
  have hsplit : createIndexText table columnsName = "CREATE".toList ++ ' ' :: ("INDEX".toList ++
      ' ' :: ("IF".toList ++ ' ' :: ("NOT".toList ++ ' ' :: ("EXISTS".toList ++ ' ' ::
        (indexName columnsName ++ ' ' :: ("ON".toList ++ ' ' ::
          (table.name ++ '(' :: (columnsName ++ [')'])))))))) := by
    unfold createIndexText
    rw [List.append_assoc]
    rfl
  have hend : EndsName ('(' :: (columnsName ++ [')'])) := by
    intro c hc
    obtain rfl : '(' = c := Option.some.inj hc
    tauto
  obtain ⟨type, htokens, htype⟩ := tokens_name htable.1 htable.isIdentChar hend
  obtain ⟨ts, hts, hsemi, hnames⟩ := tokens_columnList hcolumns []
  have hword : ∀ {w : Text} (z : Text), plainIdentifier w → Unspaced (w ++ z) :=
    fun z hw => unspaced_of_plainIdentifier hw z
  rw [tokens_nil, List.append_nil] at hts hnames
  refine ⟨type, ts, ?_, htype, hsemi, hnames⟩
  rw [hsplit, tokens_wordBlank (by decide) (hword _ (by decide)),
    tokens_wordBlank (by decide) (hword _ (by decide)),
    tokens_wordBlank (by decide) (hword _ (by decide)),
    tokens_wordBlank (by decide) (hword _ (by decide)),
    tokens_wordBlank (by decide) (hword _ hindex),
    tokens_wordBlank hindex (hword _ (by decide)),
    tokens_wordBlank (by decide) (unspaced_of_isIdChar htable.1 htable.isIdChar), htokens,
    tokens_lp, hts]
  rfl

theorem statements_createIndexText (hcolumns : ColumnList columnsName columns)
    (htable : IsPlainName table.name) :
    statements (createIndexText table columnsName) =
      [tokens (createIndexText table columnsName)] := by
  obtain ⟨type, ts, htokens, htype, hts, -⟩ := tokens_createIndexText hcolumns htable
  unfold statements
  rw [htokens]
  change statementsFrom .normal [word "CREATE", word "INDEX"] _ = _
  rw [statementsFrom_normal (List.cons_ne_nil _ _)]
  · rfl
  · intro t ht
    simp only [List.mem_cons] at ht
    rcases ht with rfl | rfl | rfl | rfl | rfl | rfl | rfl | ht
    · decide
    · decide
    · decide
    · exact nofun
    · decide
    · exact htype
    · decide
    · exact hts t ht

/-- What SQLite makes of the statement, if it compiles it. -/
theorem definition_createIndexText (hcolumns : ColumnList columnsName columns)
    (htable : IsPlainName table.name) {d : Definition}
    (h : definition (tokens (createIndexText table columnsName)) = some d) :
    d = .createIndex true ⟨indexName columnsName, table.name, columns⟩ := by
  obtain ⟨type, ts, htokens, -, -, hnames⟩ := tokens_createIndexText hcolumns htable
  rw [htokens] at h
  change createIndex (word "IF" :: word "NOT" :: word "EXISTS" :: ⟨.word, indexName columnsName⟩ ::
    word "ON" :: ⟨type, table.name⟩ :: lp :: ts) = some d at h
  obtain rfl : type = .word := by
    cases type <;> first | rfl | cases h
  change ((names ts).bind fun r => if r.2 = [] then some (Definition.createIndex true
    ⟨indexName columnsName, table.name, r.1⟩) else none) = some d at h
  obtain ⟨r, hr, hd⟩ := Option.bind_eq_some_iff.mp h
  obtain rfl := hnames r hr
  exact (Option.some.inj hd).symm

theorem tokens_dropIndexText (hcolumns : ColumnList columnsName columns) :
    tokens ("DROP INDEX ".toList ++ indexName columnsName) =
      [word "DROP", word "INDEX", ⟨.word, indexName columnsName⟩] := by
  have hindex := plainIdentifier_indexName hcolumns
  have hsplit : "DROP INDEX ".toList ++ indexName columnsName = "DROP".toList ++ ' ' ::
      ("INDEX".toList ++ ' ' :: indexName columnsName) := rfl
  have hunspaced : Unspaced (indexName columnsName) := by
    have h := unspaced_of_plainIdentifier hindex []
    rwa [List.append_nil] at h
  have hlast := tokens_identifier (z := []) hindex (fun c hc => by cases hc) (by simp)
  rw [List.append_nil] at hlast
  rw [hsplit, tokens_wordBlank (by decide) (unspaced_of_plainIdentifier (by decide) _),
    tokens_wordBlank (by decide) hunspaced, hlast]
  rfl

end Statement

/-- SQLite compiles definitions only, and of these the ones it accepts. -/
def DefinitionsOnly (accepts : List Token → Prop) (stmt : List Token) : Prop :=
  (definition stmt).isSome ∧ accepts stmt

section Executed

variable {compiles : List Token → Prop} {conn : Connection} {table : TableDescriptor}
variable {columnsName : CString}

theorem local_executes {P : Execution → Prop} (c : Call) (hc : c.isLocal) :
    Keeps (executionMonitor compiles) P (perform c) := by
  apply keeps_of_answers
  cases c with
  | malloc | strdup | free => exact fun _ _ _ h => h
  | _ => cases hc

theorem createIndex_executes : Triple (executionMonitor compiles) Idle
    (sormCreateIndex (some conn) (some table) (some columnsName)) fun ret s =>
      (ret ≠ .ok ∧ Idle s) ∨ ∃ b, createIndexStmt table columnsName.chars = .ok b ∧
        FirstExecuted compiles b.text s := by
  apply Triple.bind (keeps_malloc local_executes .libc _)
  intro block
  apply Triple.bind (keeps_free local_executes .libc block)
  intro _
  exact runBuilt_executes conn (.append _ _)

theorem dropIndex_executes : Triple (executionMonitor compiles) Idle
    (sormDropIndex (some conn) (some columnsName)) fun ret s =>
      (ret ≠ .ok ∧ Idle s) ∨ ∃ b, dropIndexStmt columnsName.chars = .ok b ∧
        FirstExecuted compiles b.text s := by
  apply Triple.bind (keeps_malloc local_executes .libc _)
  intro block
  apply Triple.bind (keeps_free local_executes .libc block)
  intro _
  exact runBuilt_executes conn (.append _ _)

end Executed

def HasIndex (schema : Schema) (table : Text) (columns : List Text) : Prop :=
  ∃ i ∈ schema.indexes, i.table = table ∧ i.columns = columns

/-- The call returns `ret`, and the schema is `schema'` after it. -/
def Reaches (accepts : List Token → Prop) (p : Act SormError) (schema : Schema) (ret : SormError)
    (schema' : Schema) : Prop :=
  ∃ tr s, p.Emits tr (.pure ret) ∧ (executionMonitor (DefinitionsOnly accepts)).Run .start tr s ∧
    schema' = schema.run s.executed

section Reaches

variable {accepts : List Token → Prop} {conn : Connection} {table : TableDescriptor}
variable {columnsName : CString} {columns : List Text} {schema schema' : Schema} {ret : SormError}

/-- A call that returns OK has created the index, unless its name was taken. -/
theorem createIndex_reaches (hcolumns : ColumnList columnsName.chars columns)
    (htable : IsPlainName table.name) (h : Reaches accepts
      (sormCreateIndex (some conn) (some table) (some columnsName)) schema .ok schema') :
    schema' = schema.execute
      (.createIndex true ⟨indexName columnsName.chars, table.name, columns⟩) := by
  obtain ⟨tr, s, hemits, hrun, rfl⟩ := h
  have hidle : Idle .start := rfl
  rcases createIndex_executes.returns hidle hemits hrun with ⟨hne, -⟩ | ⟨b, hb, hfirst⟩
  · exact absurd rfl hne
  · obtain ⟨stmt, hstmt, ⟨hsome, -⟩, hexecuted⟩ := hfirst
    obtain ⟨htext, hlength⟩ := createIndexStmt_text hb
    unfold Execution.firstStatement at hstmt
    rw [List.take_of_length_le hlength, htext, statements_createIndexText hcolumns htable] at hstmt
    obtain rfl := Option.some.inj hstmt
    obtain ⟨d, hd⟩ := Option.isSome_iff_exists.mp hsome
    rw [hexecuted]
    unfold Schema.run
    rw [List.foldl_cons, List.foldl_nil, hd]
    rw [definition_createIndexText hcolumns htable hd]
    rfl

/-- A call of `sorm_drop_index` drops the index of that name, or none. -/
theorem dropIndex_reaches (hcolumns : ColumnList columnsName.chars columns)
    (h : Reaches accepts (sormDropIndex (some conn) (some columnsName)) schema ret schema') :
    schema' = schema ∨ schema' = schema.execute (.dropIndex (indexName columnsName.chars)) := by
  obtain ⟨tr, s, hemits, hrun, rfl⟩ := h
  have hidle : Idle .start := rfl
  rcases dropIndex_executes.returns hidle hemits hrun with ⟨-, hnone⟩ | ⟨b, hb, hfirst⟩
  · left
    rw [hnone]
    rfl
  · right
    obtain ⟨stmt, hstmt, -, hexecuted⟩ := hfirst
    obtain ⟨htext, hlength⟩ := dropIndexStmt_text hb
    unfold Execution.firstStatement statements at hstmt
    rw [List.take_of_length_le hlength, htext, tokens_dropIndexText hcolumns] at hstmt
    obtain rfl := Option.some.inj hstmt
    rw [hexecuted]
    rfl

end Reaches

/-- No index has the name that a request would give. Names are compared as they are spelled, which is
what SQLite does with names in one case. -/
def Unused (schema : Schema) (columnsName : CString) : Prop :=
  ∀ i ∈ schema.indexes, i.name ≠ indexName columnsName.chars

/-- Two requests do not get into each other's way: their names differ, both indexes are there when
both calls have returned OK, and dropping the first leaves the second. -/
structure SeparateIndexes (table₁ table₂ : TableDescriptor) (columnsName₁ columnsName₂ : CString)
    (columns₁ columns₂ : List Text) : Prop where
  names : indexName columnsName₁.chars ≠ indexName columnsName₂.chars
  created : ∀ accepts conn₁ conn₂ schema schema₁ schema₂, Unused schema columnsName₁ →
    Unused schema columnsName₂ →
    Reaches accepts (sormCreateIndex (some conn₁) (some table₁) (some columnsName₁)) schema .ok
      schema₁ →
    Reaches accepts (sormCreateIndex (some conn₂) (some table₂) (some columnsName₂)) schema₁ .ok
      schema₂ →
    HasIndex schema₂ table₁.name columns₁ ∧ HasIndex schema₂ table₂.name columns₂
  dropped : ∀ accepts conn₁ conn₂ conn₃ schema schema₁ schema₂ schema₃ ret,
    Unused schema columnsName₁ → Unused schema columnsName₂ →
    Reaches accepts (sormCreateIndex (some conn₁) (some table₁) (some columnsName₁)) schema .ok
      schema₁ →
    Reaches accepts (sormCreateIndex (some conn₂) (some table₂) (some columnsName₂)) schema₁ .ok
      schema₂ →
    Reaches accepts (sormDropIndex (some conn₃) (some columnsName₁)) schema₂ ret schema₃ →
    HasIndex schema₃ table₂.name columns₂

/-- An index whose name is not taken is added. -/
theorem execute_createIndex {schema : Schema} {index : Index}
    (h : ∀ i ∈ schema.indexes, i.name ≠ index.name) :
    (schema.execute (.createIndex true index)).indexes = schema.indexes ++ [index] := by
  have hany : (schema.indexes.any fun i => i.name = index.name) = false := by
    rw [List.any_eq_false]
    intro i hi
    simpa using h i hi
  unfold Schema.execute
  dsimp only
  rw [hany]
  rfl

/-- Two requests are kept apart exactly if the column lists differ when underscores are put between
the names; the tables do not matter. -/
theorem separateIndexes_iff {table₁ table₂ : TableDescriptor} {columnsName₁ columnsName₂ : CString}
    {columns₁ columns₂ : List Text} (htable₁ : IsPlainName table₁.name) (htable₂ : IsPlainName table₂.name)
    (hcolumns₁ : ColumnList columnsName₁.chars columns₁)
    (hcolumns₂ : ColumnList columnsName₂.chars columns₂) :
    SeparateIndexes table₁ table₂ columnsName₁ columnsName₂ columns₁ columns₂ ↔
      joined columns₁ ≠ joined columns₂ := by
  have hnames : indexName columnsName₁.chars ≠ indexName columnsName₂.chars ↔
      joined columns₁ ≠ joined columns₂ := by
    unfold indexName
    rw [constructIndexSuffix_eq hcolumns₁, constructIndexSuffix_eq hcolumns₂, ne_eq, ne_eq,
      List.append_cancel_left_eq]
  rw [← hnames]
  refine ⟨SeparateIndexes.names, fun hne => ?_⟩
  let index₁ : Index := ⟨indexName columnsName₁.chars, table₁.name, columns₁⟩
  let index₂ : Index := ⟨indexName columnsName₂.chars, table₂.name, columns₂⟩
  have hcreated : ∀ {accepts conn₁ conn₂ schema schema₁ schema₂}, Unused schema columnsName₁ →
      Unused schema columnsName₂ →
      Reaches accepts (sormCreateIndex (some conn₁) (some table₁) (some columnsName₁)) schema .ok
        schema₁ →
      Reaches accepts (sormCreateIndex (some conn₂) (some table₂) (some columnsName₂)) schema₁ .ok
        schema₂ →
      schema₂.indexes = schema.indexes ++ [index₁] ++ [index₂] := by
    intro accepts conn₁ conn₂ schema schema₁ schema₂ hunused₁ hunused₂ h₁ h₂
    have hindexes₁ : schema₁.indexes = schema.indexes ++ [index₁] := by
      rw [createIndex_reaches hcolumns₁ htable₁ h₁]
      exact execute_createIndex hunused₁
    rw [createIndex_reaches hcolumns₂ htable₂ h₂, execute_createIndex, hindexes₁]
    intro i hi
    rw [hindexes₁] at hi
    rcases List.mem_append.mp hi with hi | hi
    · exact hunused₂ i hi
    · rw [List.mem_singleton.mp hi]
      exact hne
  refine ⟨hne, ?_, ?_⟩
  · intro accepts conn₁ conn₂ schema schema₁ schema₂ hunused₁ hunused₂ h₁ h₂
    have hindexes := hcreated hunused₁ hunused₂ h₁ h₂
    exact ⟨⟨index₁, by rw [hindexes]; simp, rfl, rfl⟩, ⟨index₂, by rw [hindexes]; simp, rfl, rfl⟩⟩
  · intro accepts conn₁ conn₂ conn₃ schema schema₁ schema₂ schema₃ ret hunused₁ hunused₂ h₁ h₂ h₃
    have hindexes := hcreated hunused₁ hunused₂ h₁ h₂
    have hmem : index₂ ∈ schema₂.indexes := by
      rw [hindexes]
      simp
    rcases dropIndex_reaches hcolumns₁ h₃ with rfl | rfl
    · exact ⟨index₂, hmem, rfl, rfl⟩
    · have hkept : index₂.name ≠ indexName columnsName₁.chars := hne.symm
      exact ⟨index₂, List.mem_filter.mpr ⟨hmem, by simpa using hkept⟩, rfl, rfl⟩

def namedTable (t : Text) : TableDescriptor := ⟨t, 0, [], none, none⟩

theorem columnList_uuid : ColumnList "uuid".toList ["uuid".toList] :=
  @ColumnList.last 0 0 "uuid".toList (by decide)

theorem columnList_uuid_id : ColumnList "uuid, id".toList ["uuid".toList, "id".toList] :=
  @ColumnList.cons 0 0 "uuid".toList _ _ (by decide)
    (@ColumnList.last 1 0 "id".toList (by decide))

theorem separateIndexes_iff_device :
    SeparateIndexes (namedTable "device".toList) (namedTable "volume".toList)
        ⟨"uuid, id".toList, by decide⟩ ⟨"uuid".toList, by decide⟩
        ["uuid".toList, "id".toList] ["uuid".toList] ↔
      joined ["uuid".toList, "id".toList] ≠ joined ["uuid".toList] :=
  separateIndexes_iff (by decide) (by decide) columnList_uuid_id columnList_uuid

/-- The same column of two tables. -/
theorem not_separateIndexes : ¬ ∀ (table₁ table₂ : TableDescriptor)
    (columnsName₁ columnsName₂ : CString) (columns₁ columns₂ : List Text),
    IsPlainName table₁.name → IsPlainName table₂.name → ColumnList columnsName₁.chars columns₁ →
    ColumnList columnsName₂.chars columns₂ → table₁.name ≠ table₂.name ∨ columns₁ ≠ columns₂ →
    SeparateIndexes table₁ table₂ columnsName₁ columnsName₂ columns₁ columns₂ := by
  intro h
  have hseparate := h (namedTable "device".toList) (namedTable "volume".toList)
    ⟨"uuid".toList, by decide⟩ ⟨"uuid".toList, by decide⟩ _ _ (by decide) (by decide)
    columnList_uuid columnList_uuid (.inl (by decide))
  exact hseparate.names rfl

end Sorm
