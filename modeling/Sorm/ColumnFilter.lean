import Sorm.QuoteDoubling
import Sorm.StatementText

/-!
# Filters on one column, as SQL

`_construct_column_filter` prints a comparison of the column with the value it is given, except
that a quote at the beginning of a text is not doubled: what follows it is then read as SQL.
-/

namespace Sorm

open Interaction Monitor Sql

def columnLiteral (column : ColumnDescriptor) (value : Pointer) : Option Literal :=
  match column.type with
  | .int => some (.integer value.int32.toInt)
  | .int64 => some (.integer value.int64.toInt)
  | .text => some (.text value.text.chars)
  | _ => none

/-- Read as SQL, `filter` is the column name, `=`, and a literal for the value, and nothing else. -/
def ComparesTo (column : ColumnDescriptor) (value : Pointer) (filter : Text) : Prop :=
  ∃ lit, tokens filter = ⟨.word, column.name⟩ :: ⟨.eq, ['=']⟩ :: lit ∧
    literal lit = columnLiteral column value

/-- A text that begins with a quote, and a filter for it that fits into the buffer. -/
def Misquotes (column : ColumnDescriptor) (value : Pointer) : Prop :=
  column.type = .text ∧ value.text.chars.head? = some '\'' ∧
    column.name.length + value.text.chars.length + value.text.chars.count '\'' + 4 ≤ sqlStmtMaxLen

theorem tokens_toDigits (n : ℕ) :
    tokens (Nat.toDigits 10 n) = [⟨.integer, Nat.toDigits 10 n⟩] := by
  have hdigit : ∀ c ∈ Nat.toDigits 10 n, c.isDigit :=
    fun c hc => Nat.isDigit_of_mem_toDigits (by decide) (by decide) hc
  cases hn : Nat.toDigits 10 n with
  | nil => exact absurd hn Nat.toDigits_ne_nil
  | cons c a =>
      rw [hn] at hdigit
      have htokens := tokens_digits (z := []) (hdigit c List.mem_cons_self)
        (fun d hd => hdigit d (List.mem_cons_of_mem _ hd)) (fun d hd => by cases hd) (by simp)
      rwa [List.append_nil] at htokens

theorem literal_printInt (v : ℤ) : literal (tokens (printInt v)) = some (.integer v) := by
  have hvalue : Nat.ofDigitChars 10 (Nat.toDigits 10 v.natAbs) 0 = v.natAbs :=
    Nat.ofDigitChars_ten_toDigits
  unfold printInt
  by_cases hneg : v < 0
  · have hminus : (Nat.toDigits 10 v.natAbs).head? ≠ some '-' := by
      intro h
      have hmem := List.mem_of_mem_head? h
      exact absurd (Nat.isDigit_of_mem_toDigits (by decide) (by decide) hmem) (by decide)
    rw [if_pos hneg, tokens_minus hminus, tokens_toDigits]
    simp only [literal, hvalue]
    congr 2
    omega
  · rw [if_neg hneg, tokens_toDigits]
    simp only [literal, hvalue]
    congr 2
    omega

theorem tokens_comparison {name z : Text} (hname : plainIdentifier name)
    (hspace : ∀ c, z.head? = some c → ¬ isSpace c) :
    tokens (name ++ " = ".toList ++ z) = ⟨.word, name⟩ :: ⟨.eq, ['=']⟩ :: tokens z := by
  have hsplit : name ++ " = ".toList ++ z = name ++ (' ' :: '=' :: ' ' :: z) := by
    rw [List.append_assoc]
    rfl
  have hend : EndsWord (' ' :: '=' :: ' ' :: z) := by
    intro c hc
    cases hc
    decide
  rw [hsplit, tokens_identifier hname hend (by simp), tokens_space (by simp; decide), tokens_eq,
    tokens_space hspace]
  simp

theorem mem_printInt {c : Char} {v : ℤ} (hc : c ∈ printInt v) : c = '-' ∨ c.isDigit := by
  have hdigit : c ∈ Nat.toDigits 10 v.natAbs → c.isDigit :=
    fun h => Nat.isDigit_of_mem_toDigits (by decide) (by decide) h
  unfold printInt at hc
  split at hc
  · rcases List.mem_cons.mp hc with h | h
    · exact Or.inl h
    · exact Or.inr (hdigit h)
  · exact Or.inr (hdigit hc)

section Filter

variable {column : ColumnDescriptor} {value : Pointer} {filter : Text}

theorem constructColumnFilter_ok {text : Text} (h : filterText column value = .ok (.ok, text)) :
    constructColumnFilter column value = .ok (.ok, filter) ↔
      filter = text ∧ text.length ≤ sqlStmtMaxLen := by
  unfold constructColumnFilter
  rw [h]
  change (if text.length > sqlStmtMaxLen then Except.ok (SormError.tooLong, [])
    else Except.ok (SormError.ok, text) : Except Halt (SormError × Text)) = _ ↔ _
  by_cases hlen : text.length > sqlStmtMaxLen
  · rw [if_pos hlen]
    constructor
    · intro h
      cases h
    · exact fun h => absurd h.2 (not_le.mpr hlen)
  · rw [if_neg hlen]
    constructor
    · intro h
      cases h
      exact ⟨rfl, not_lt.mp hlen⟩
    · rintro ⟨rfl, -⟩
      rfl

theorem nul_notMem_doubledButFirst {s : Text} (hs : '\x00' ∉ s) : '\x00' ∉ doubledButFirst s := by
  intro h
  obtain ⟨c, hc, hmem⟩ := List.mem_flatMap.mp (List.mem_of_mem_drop h)
  split at hmem
  · simp at hmem
  · exact hs ((List.mem_singleton.mp hmem) ▸ hc)

theorem fixedText_eq (s : CString) (hint : (doubledButFirst s.chars).length ≤ intMax) :
    ∃ t, fixedText s =
      .ok (if (doubledButFirst s.chars).length ≤ sqlStmtMaxLen then .ok else .tooLong, t) ∧
    ((doubledButFirst s.chars).length ≤ sqlStmtMaxLen → t = doubledButFirst s.chars) := by
  obtain ⟨m, hfix, hstring⟩ := fixString_eq (b := 1) (hasString_ofString s) s.noNul
    (Nat.lt_succ_self s.chars.length) hint (sqlStmtMaxLen + 1)
  have hfix' : fixString (.ofString s) stringLoc fixedBufLoc (sqlStmtMaxLen + 1)
      (s.chars.length + 1) = _ := hfix
  have hnul := nul_notMem_doubledButFirst s.noNul
  unfold fixedText
  rw [hfix']
  by_cases hlen : (doubledButFirst s.chars).length ≤ sqlStmtMaxLen
  · have hlt : ((doubledButFirst s.chars).length : ℤ) < (sqlStmtMaxLen : ℤ) + 1 := by omega
    rw [if_neg (not_le.mpr hlt), if_pos hlen]
    refine ⟨_, rfl, fun _ => ?_⟩
    exact stringAt_eq (hstring hlt) hnul (Nat.lt_succ_of_le hlen)
  · rw [if_pos (by omega), if_neg hlen]
    exact ⟨_, rfl, fun h => absurd h hlen⟩

/-- The counters of `_fix_string` overflow. -/
theorem fixedText_overflow {s : CString} (hint : intMax < (doubledButFirst s.chars).length) :
    fixedText s = .error .undefined := by
  obtain ⟨m₁, -, -, heq⟩ := fixString_loops (b := 1) (hasString_ofString s) s.noNul
    (Nat.lt_succ_self s.chars.length) (sqlStmtMaxLen + 1)
  have hfix : fixString (.ofString s) stringLoc fixedBufLoc (sqlStmtMaxLen + 1)
      (s.chars.length + 1) = _ := heq
  rw [if_pos (by omega)] at hfix
  rw [fixedText, hfix]
  rfl

theorem constructColumnFilter_text (htype : column.type = .text) :
    constructColumnFilter column value = .ok (.ok, filter) ↔
      filter = column.name ++ " = '".toList ++ doubledButFirst value.text.chars ++ ['\''] ∧
        filter.length ≤ sqlStmtMaxLen := by
  by_cases hint : intMax < (doubledButFirst value.text.chars).length
  · have hfail : constructColumnFilter column value = .error .undefined := by
      rw [constructColumnFilter, filterText, htype]
      dsimp only
      rw [fixedText_overflow hint]
      rfl
    rw [hfail]
    constructor
    · intro h
      cases h
    · rintro ⟨rfl, h⟩
      have hmax : sqlStmtMaxLen ≤ intMax := by decide
      simp only [List.length_append] at h
      omega
  obtain ⟨t, ht, hfixed⟩ := fixedText_eq value.text (not_lt.mp hint)
  have hfilter : filterText column value = .ok
      (if (doubledButFirst value.text.chars).length ≤ sqlStmtMaxLen then .ok else .tooLong,
        column.name ++ " = '".toList ++ t ++ ['\'']) := by
    unfold filterText
    rw [htype]
    dsimp only
    rw [ht]
    rfl
  by_cases hlen : (doubledButFirst value.text.chars).length ≤ sqlStmtMaxLen
  · rw [if_pos hlen, hfixed hlen] at hfilter
    rw [constructColumnFilter_ok hfilter]
    constructor
    · rintro ⟨rfl, h⟩
      exact ⟨rfl, h⟩
    · rintro ⟨rfl, h⟩
      exact ⟨rfl, h⟩
  · rw [if_neg hlen] at hfilter
    have hfail : constructColumnFilter column value = .ok (.tooLong, []) := by
      unfold constructColumnFilter
      rw [hfilter]
      rfl
    rw [hfail]
    constructor
    · intro h
      cases h
    · rintro ⟨rfl, h⟩
      simp only [List.length_append] at h
      omega

theorem comparesTo_printInt {v : ℤ} (hname : plainIdentifier column.name)
    (hv : columnLiteral column value = some (.integer v)) :
    ComparesTo column value (column.name ++ " = ".toList ++ printInt v) := by
  refine ⟨tokens (printInt v), tokens_comparison hname ?_, ?_⟩
  · intro c hc
    rcases mem_printInt (List.mem_of_mem_head? hc) with rfl | hdigit
    · decide
    · intro hspace
      have hlt : c.toNat ≤ 32 := by
        simp only [isSpace, Bool.or_eq_true, Bool.and_eq_true, decide_eq_true_eq] at hspace
        rcases hspace with rfl | ⟨-, hle⟩
        · decide
        · exact (show c.toNat ≤ 13 from hle).trans (by decide)
      simp only [Char.isDigit, Bool.and_eq_true, decide_eq_true_eq, ge_iff_le,
        UInt32.le_iff_toNat_le] at hdigit
      have hnat : c.val.toNat = c.toNat := rfl
      have hzero : '0'.val.toNat = 48 := rfl
      omega
  · rw [literal_printInt, hv]

/-- A text that begins with a quote is not the value of the literal it is printed as. -/
theorem comparesTo_text (hname : plainIdentifier column.name) (htype : column.type = .text) :
    ComparesTo column value
        (column.name ++ " = '".toList ++ doubledButFirst value.text.chars ++ ['\'']) ↔
      value.text.chars.head? ≠ some '\'' := by
  have hsplit : column.name ++ " = '".toList ++ doubledButFirst value.text.chars ++ ['\''] =
      column.name ++ " = ".toList ++ ('\'' :: (doubledButFirst value.text.chars ++ ['\''])) := by
    rw [List.append_assoc, List.append_assoc, List.append_assoc]
    rfl
  have htokens := tokens_comparison (z := '\'' :: (doubledButFirst value.text.chars ++ ['\'']))
    hname fun c hc => by
      cases hc
      decide
  have hliteral : columnLiteral column value = some (.text value.text.chars) := by
    unfold columnLiteral
    rw [htype]
  unfold ComparesTo
  rw [hsplit, htokens, hliteral]
  constructor
  · rintro ⟨lit, heq, hlit⟩ hquote
    obtain rfl : tokens ('\'' :: (doubledButFirst value.text.chars ++ ['\''])) = lit := by
      simpa using heq
    have hlen := length_of_literal_text hlit
    have hpos : 0 < (doubled '\'' value.text.chars).length := by
      cases hs : value.text.chars with
      | nil =>
          rw [hs] at hquote
          cases hquote
      | cons c s =>
          rw [length_doubled]
          simp
    unfold doubledButFirst at hlen
    rw [if_pos hquote, List.length_append, List.length_drop, List.length_singleton] at hlen
    omega
  · intro hquote
    refine ⟨_, rfl, ?_⟩
    rw [doubledButFirst_of_ne hquote, tokens_string value.text.chars (by simp)]
    have hdequote : dequote ('\'' :: (doubled '\'' value.text.chars ++ ['\''])) =
        value.text.chars := dequoteFrom_doubled _ (by simp)
    simp only [tokens_nil, literal, hdequote]

theorem filterText_int (value : Pointer) (htype : column.type = .int ∨ column.type = .int64) : ∃ v,
    columnLiteral column value = some (.integer v) ∧
      filterText column value = .ok (.ok, column.name ++ " = ".toList ++ printInt v) := by
  unfold columnLiteral filterText
  rcases htype with htype | htype
  · rw [htype]
    exact ⟨_, rfl, rfl⟩
  · rw [htype]
    exact ⟨_, rfl, rfl⟩

theorem constructColumnFilter_comparesTo (hname : plainIdentifier column.name)
    (htype : column.type = .int ∨ column.type = .int64 ∨ column.type = .text)
    (hsafe : ¬ Misquotes column value)
    (h : constructColumnFilter column value = .ok (.ok, filter)) :
    ComparesTo column value filter := by
  have hint : column.type = .int ∨ column.type = .int64 → ComparesTo column value filter := by
    intro htype
    obtain ⟨v, hv, htext⟩ := filterText_int value htype
    obtain ⟨rfl, -⟩ := (constructColumnFilter_ok htext).mp h
    exact comparesTo_printInt hname hv
  rcases htype with htype | htype | htype
  · exact hint (Or.inl htype)
  · exact hint (Or.inr htype)
  · obtain ⟨rfl, hlen⟩ := (constructColumnFilter_text htype).mp h
    rw [comparesTo_text hname htype]
    intro hquote
    refine hsafe ⟨htype, hquote, ?_⟩
    have hdouble := length_doubled value.text.chars
    have hprefix : (" = '".toList : Text).length = 4 := rfl
    simp only [List.length_append, doubledButFirst, if_pos hquote, List.length_drop,
      List.length_singleton, hprefix] at hlen
    omega

theorem nul_notMem_filter (hname : plainIdentifier column.name)
    (htype : column.type = .int ∨ column.type = .int64 ∨ column.type = .text)
    (h : constructColumnFilter column value = .ok (.ok, filter)) : '\x00' ∉ filter := by
  have hnul : '\x00' ∉ column.name := by
    intro hmem
    cases hn : column.name with
    | nil =>
        rw [hn] at hmem
        cases hmem
    | cons c s =>
        rw [hn] at hname hmem
        simp only [plainIdentifier, Bool.and_eq_true, List.all_eq_true] at hname
        rcases List.mem_cons.mp hmem with rfl | hmem
        · exact absurd hname.1 (by decide)
        · exact absurd (hname.2 _ hmem) (by decide)
  have hint : column.type = .int ∨ column.type = .int64 → '\x00' ∉ filter := by
    intro htype hmem
    obtain ⟨v, -, htext⟩ := filterText_int value htype
    obtain ⟨rfl, -⟩ := (constructColumnFilter_ok htext).mp h
    simp only [List.mem_append] at hmem
    rcases hmem with (hmem | hmem) | hmem
    · exact hnul hmem
    · exact absurd hmem (by decide)
    · rcases mem_printInt hmem with hminus | hdigit
      · exact absurd hminus (by decide)
      · exact absurd hdigit (by decide)
  rcases htype with htype | htype | htype
  · exact hint (Or.inl htype)
  · exact hint (Or.inr htype)
  · obtain ⟨rfl, -⟩ := (constructColumnFilter_text htype).mp h
    intro hmem
    simp only [List.mem_append] at hmem
    rcases hmem with ((hmem | hmem) | hmem) | hmem
    · exact hnul hmem
    · exact absurd hmem (by decide)
    · exact nul_notMem_doubledButFirst value.text.noNul hmem
    · exact absurd hmem (by decide)

theorem ofBytes_chars {bytes : Text} (h : '\x00' ∉ bytes) : (CString.ofBytes bytes).chars = bytes := by
  apply List.takeWhile_eq_self_iff.mpr
  intro c hc
  have hne : c ≠ '\x00' := fun heq => h (heq ▸ hc)
  simpa using hne

/-- The `WHERE` clause of a deletion is the filter. -/
theorem delete_filter {P : Text → Prop} {conn : Connection} {table : TableDescriptor} {i : ℕ}
    {tr : List SormEvent} {q : Act SormError} {sqlStmt : Text} {n : ℕ}
    {r : Resp (.prepare sqlStmt n)}
    (hfilter : ∀ filter, constructColumnFilter column value = .ok (.ok, filter) → P filter)
    (hcolumn : table.columns[i]? = some column)
    (hemits : (sormDeleteByColumn (some conn) (some table) i (some value)).Emits tr q)
    (hprepare : (⟨.prepare sqlStmt n, r⟩ : SormEvent) ∈ tr) :
    ∃ w, sqlStmt = "DELETE FROM ".toList ++ table.name ++ " WHERE ".toList ++ w ∧ P w := by
  have hdiscipline := prepare_discipline (fun sqlStmt => ∃ w,
    sqlStmt = "DELETE FROM ".toList ++ table.name ++ " WHERE ".toList ++ w ∧ P w) conn
  refine (prepared_of_emits (@WriteDiscipline.sormDeleteByColumn _ _ _ _ _ 0 hdiscipline.writing
    _ _ _ ?_) hemits hprepare).1
  intro table' column' value' filter b htable hcolumn' hvalue hok hbuilt
  cases htable
  cases hvalue
  cases hcolumn.symm.trans hcolumn'
  exact ⟨filter, deleteByStmt_text hbuilt, hfilter filter hok⟩

/-- The `WHERE` clause of a selection is the filter. -/
theorem select_filter {P : Text → Prop} {conn : Connection} {allocator : Allocator}
    {table : TableDescriptor} {columnsName : CString} {i : ℕ} {getRow : Bool} {tr : List SormEvent}
    {q : Act (SormError × Option (Option RowArray))} {sqlStmt : Text} {n : ℕ}
    {r : Resp (.prepare sqlStmt n)}
    (hfilter : ∀ filter, constructColumnFilter column value = .ok (.ok, filter) →
      '\x00' ∉ filter ∧ P filter)
    (hcolumn : table.columns[i]? = some column)
    (hemits : (sormSelectOneByColumn (some conn) allocator table (some columnsName) i (some value)
      getRow).Emits tr q)
    (hprepare : (⟨.prepare sqlStmt n, r⟩ : SormEvent) ∈ tr) :
    ∃ w, sqlStmt = "SELECT ".toList ++ columnsName.chars ++ " FROM ".toList ++ table.name ++
      " WHERE ".toList ++ w ∧ P w := by
  have hdiscipline := prepare_discipline (fun sqlStmt => ∃ w,
    sqlStmt = "SELECT ".toList ++ columnsName.chars ++ " FROM ".toList ++ table.name ++
      " WHERE ".toList ++ w ∧ P w) conn
  refine (prepared_of_emits (@Discipline.sormSelectOneByColumn _ _ _ _ _ 0 hdiscipline _ _ _ _ _
    _ ?_) hemits hprepare).1
  intro columns column' value' filter b hcolumns hcolumn' hvalue hok hbuilt
  cases hcolumns
  cases hvalue
  cases hcolumn.symm.trans hcolumn'
  rw [ofBytes_chars (hfilter filter hok).1] at hbuilt
  exact ⟨filter, single_stmt_text hbuilt, (hfilter filter hok).2⟩

end Filter

/-- What a filter on a column and a value is, and the `WHERE` clauses it is put into. -/
structure FilterExact (column : ColumnDescriptor) (value : Pointer) : Prop where
  filter : ∀ filter, constructColumnFilter column value = .ok (.ok, filter) →
    ComparesTo column value filter
  delete : ∀ conn table i tr q sqlStmt n r, table.columns[i]? = some column →
    (sormDeleteByColumn (some conn) (some table) i (some value)).Emits tr q →
    (⟨.prepare sqlStmt n, r⟩ : SormEvent) ∈ tr →
    ∃ w, sqlStmt = "DELETE FROM ".toList ++ table.name ++ " WHERE ".toList ++ w ∧
      ComparesTo column value w
  select : ∀ conn allocator table (columnsName : CString) i getRow tr q sqlStmt n r,
    table.columns[i]? = some column →
    (sormSelectOneByColumn (some conn) allocator table (some columnsName) i (some value)
      getRow).Emits tr q →
    (⟨.prepare sqlStmt n, r⟩ : SormEvent) ∈ tr →
    ∃ w, sqlStmt = "SELECT ".toList ++ columnsName.chars ++ " FROM ".toList ++ table.name ++
      " WHERE ".toList ++ w ∧ ComparesTo column value w

/-- A filter is exactly the comparison it stands for, in both functions that use it, unless the
value is a text that begins with a quote and the filter fits. -/
theorem filterExact_iff {column : ColumnDescriptor} {value : Pointer}
    (hname : plainIdentifier column.name)
    (htype : column.type = .int ∨ column.type = .int64 ∨ column.type = .text) :
    FilterExact column value ↔ ¬ Misquotes column value := by
  constructor
  · rintro hexact ⟨htext, hquote, hlen⟩
    have hprefix : (" = '".toList : Text).length = 4 := rfl
    have hdouble := length_doubled value.text.chars
    have hpos := List.length_pos_of_mem (List.mem_of_mem_head? hquote)
    have hok : constructColumnFilter column value = .ok (.ok, column.name ++ " = '".toList ++
        doubledButFirst value.text.chars ++ ['\'']) := by
      rw [constructColumnFilter_text htext]
      refine ⟨rfl, ?_⟩
      simp only [List.length_append, doubledButFirst, if_pos hquote, List.length_drop,
        List.length_singleton, hprefix]
      omega
    exact (comparesTo_text hname htext).mp (hexact.filter _ hok) hquote
  · intro hsafe
    have hcompares := fun filter (h : constructColumnFilter column value = .ok (.ok, filter)) =>
      constructColumnFilter_comparesTo hname htype hsafe h
    exact ⟨hcompares,
      fun _ _ _ _ _ _ _ _ hcolumn hemits hprepare =>
        delete_filter hcompares hcolumn hemits hprepare,
      fun _ _ _ _ _ _ _ _ _ _ _ hcolumn hemits hprepare =>
        select_filter (fun filter h => ⟨nul_notMem_filter hname htype h, hcompares filter h⟩)
          hcolumn hemits hprepare⟩

def nameColumn : ColumnDescriptor := ⟨"name".toList, .text, .none, .heap, 0, false, [], []⟩

def textPointer (text : CString) : Pointer where
  address := 0
  text := text
  bytes := fun k => text.chars.getD k '\x00'
  int32 := 0
  int64 := 0
  double := 0

def quotedValue : Pointer := textPointer ⟨"' OR 1=1 --".toList, by decide⟩

example : (constructColumnFilter nameColumn quotedValue).toOption =
    some (.ok, "name = '' OR 1=1 --'".toList) := by decide

theorem not_filterExact : ¬ ∀ (column : ColumnDescriptor) (value : Pointer),
    plainIdentifier column.name →
    (column.type = .int ∨ column.type = .int64 ∨ column.type = .text) →
    FilterExact column value := by
  intro h
  have hexact := h nameColumn quotedValue (by decide) (Or.inr (Or.inr rfl))
  have hok : constructColumnFilter nameColumn quotedValue =
      .ok (.ok, "name = '' OR 1=1 --'".toList) := by
    rw [constructColumnFilter_text rfl]
    exact ⟨by decide, by decide⟩
  have hplain : plainIdentifier nameColumn.name := by decide
  exact (comparesTo_text hplain rfl).mp (hexact.filter _ hok) rfl

theorem filterExact_iff_textPointer :
    FilterExact nameColumn (textPointer ⟨"it's".toList, by decide⟩) :=
  (filterExact_iff (by decide) (Or.inr (Or.inr rfl))).mpr fun h => absurd h.2.1 (by decide)

end Sorm
