import Sorm.SqlRows
import Sorm.Storage
import Sorm.TransactionNesting

/-!
# The statement of a row and its bindings

`sorm_insert`, `sorm_replace`, `sorm_delete` and `sorm_update` build their statement in one loop over
the columns and bind in another. The text they prepare lexes to the statement that names the valued
columns, and the parameter of each column is bound to its value. Without a valued unique column
`sorm_update` cuts its `WHERE` down to a word that no UPDATE ends with.
-/

namespace Sorm

open Interaction Monitor Sql SqlSchema SqlRows

variable {table : TableDescriptor}

inductive RowCall
  | insert
  | replace
  | delete
  | update
deriving DecidableEq, Repr

namespace RowCall

def op (obj : Object table) : RowCall → Op
  | .insert => .insert (some obj)
  | .replace => .replace (some obj)
  | .delete => .delete (some obj)
  | .update => .update (some obj)

def text (obj : Object table) : RowCall → Text
  | .insert => saveText obj "INSERT".toList
  | .replace => saveText obj "REPLACE".toList
  | .delete => deleteText obj
  | .update => updateText obj

def bound (obj : Object table) : RowCall → List table.Index
  | .update => obj.valuedColumns ++ obj.uniqueColumns
  | _ => obj.valuedColumns

/-- The statement on the valued columns, with the valued unique columns as the key of an UPDATE. -/
def statement (obj : Object table) : RowCall → Statement
  | .insert => .insert "INSERT".toList table.name (columnNames obj.valuedColumns)
  | .replace => .insert "REPLACE".toList table.name (columnNames obj.valuedColumns)
  | .delete => .delete table.name (columnNames obj.valuedColumns)
  | .update => .update table.name (columnNames obj.valuedColumns) (columnNames obj.uniqueColumns)
where
  columnNames (is : List table.Index) : List Text := is.map fun i => (table.column i).name

def isKeyless (obj : Object table) (call : RowCall) : Bool :=
  call = .update && obj.uniqueColumns.isEmpty

theorem parameters_statement (obj : Object table) (call : RowCall) :
    (call.statement obj).parameters = (call.bound obj).map fun i => (table.column i).name := by
  cases call with
  | insert | replace | delete => rfl
  | update => exact List.map_append.symm

end RowCall

theorem cutLast_separated (sep head : Text) {xs : List Text} (hne : xs ≠ []) :
    cutLast sep.length (head ++ (xs.map (· ++ sep)).flatten) = head ++ sep.intercalate xs := by
  induction xs generalizing head with
  | nil => exact absurd rfl hne
  | cons x xs ih =>
      cases xs with
      | nil =>
          rw [List.map_singleton, List.flatten_singleton, List.intercalate_singleton,
            ← List.append_assoc, cutLast, List.length_append, Nat.add_sub_cancel, List.take_left]
      | cons y xs =>
          rw [List.map_cons, List.flatten_cons, ← List.append_assoc, ih _ (List.cons_ne_nil _ _),
            List.intercalate_cons_cons]
          simp only [List.append_assoc]

theorem cutLast_commas (head : Text) {xs : List Text} (hne : xs ≠ []) :
    cutLast 1 (head ++ (xs.map (· ++ [','])).flatten) = head ++ [','].intercalate xs :=
  cutLast_separated [','] head hne

theorem cutLast_ands (head : Text) {xs : List Text} (hne : xs ≠ []) :
    cutLast 4 (head ++ (xs.map (· ++ " AND".toList)).flatten) =
      head ++ " AND".toList.intercalate xs :=
  cutLast_separated " AND".toList head hne

structure PlainColumns (table : TableDescriptor) : Prop where
  name : plainIdentifier table.name
  columns : ∀ i : table.Index, plainIdentifier (table.column i).name

section Text

variable (hplain : PlainColumns table) {obj : Object table}

def columnItem (i : table.Index) : Text := ' ' :: (table.column i).name

def columnTerm (i : table.Index) : Text := ' ' :: (table.column i).name ++ "=?".toList

def EndsItem (z : Text) : Prop := ∃ c y, z = c :: y ∧ (c = ',' ∨ c = ')')

def EndsTerm (z : Text) : Prop := ∀ c, z.head? = some c → ¬ c.isDigit

theorem endsTerm_nil : EndsTerm [] := by
  intro c hc
  cases hc

theorem EndsItem.endsTerm {z : Text} (h : EndsItem z) : EndsTerm z := by
  obtain ⟨c, y, rfl, hc⟩ := h
  intro d hd
  obtain rfl : c = d := Option.some.inj hd
  rcases hc with rfl | rfl
  · decide
  · decide

theorem intercalate_terms (sep : Text) {is : List table.Index} (hne : is ≠ []) :
    ∃ (i : table.Index) (y : Text), sep.intercalate (is.map columnTerm) = columnTerm i ++ y := by
  obtain ⟨i, is, rfl⟩ := List.exists_cons_of_ne_nil hne
  obtain ⟨y, hy⟩ := intercalate_cons sep (columnTerm i) (is.map columnTerm)
  exact ⟨i, y, hy⟩

theorem updateSetText_eq (hvalue : obj.valuedColumns ≠ []) : updateSetText obj =
    "UPDATE".toList ++ ' ' :: (table.name ++ ' ' :: ("SET".toList ++
      [','].intercalate (obj.valuedColumns.map columnTerm))) := by
  have hsets : updateSets obj = (obj.valuedColumns.map columnTerm).map (· ++ [',']) := by
    unfold updateSets
    rw [List.map_map]
    exact List.map_congr_left fun i _ => (List.append_assoc _ "=?".toList [',']).symm
  have hne : obj.valuedColumns.map (@columnTerm table) ≠ [] := by simpa using hvalue
  have hhead : updateHead table = "UPDATE".toList ++ ' ' :: (table.name ++ ' ' :: "SET".toList) :=
    List.append_assoc "UPDATE ".toList table.name " SET".toList
  rw [updateSetText, hsets, cutLast_commas _ hne, hhead]
  simp only [List.append_assoc, List.cons_append]

/-- Four characters are cut off that are not there: what is left of `WHERE` is its first letter. -/
theorem updateText_keyless (hunique : obj.uniqueColumns = []) :
    updateText obj = updateSetText obj ++ " W".toList := by
  have hterms : updateTerms obj = [] := by
    rw [updateTerms, hunique]
    rfl
  have hwhere : " WHERE".toList = " W".toList ++ "HERE".toList := rfl
  have hlength : (updateSetText obj ++ " W".toList ++ "HERE".toList).length - 4 =
      (updateSetText obj ++ " W".toList).length := by
    rw [List.length_append]
    exact Nat.add_sub_cancel _ _
  rw [updateText, hterms, List.flatten_nil, List.append_nil, hwhere, ← List.append_assoc, cutLast,
    hlength, List.take_left]

include hplain

theorem tokens_columnItem (i : table.Index) {z : Text} (hz : EndsItem z) :
    tokens (columnItem i ++ z) = [⟨.word, (table.column i).name⟩] ++ tokens z := by
  obtain ⟨c, y, rfl, hc⟩ := hz
  have hname := hplain.columns i
  unfold columnItem
  rw [List.cons_append, tokens_space (unspaced_of_plainIdentifier hname _),
    tokens_nameMark hname y (by tauto)]
  rfl

theorem tokens_columnTerm (i : table.Index) {z : Text} (hz : EndsTerm z) :
    tokens (columnTerm i ++ z) = comparison (table.column i).name ++ tokens z := by
  have hname := hplain.columns i
  have hend : EndsWord ('=' :: '?' :: z) := by
    intro c hc
    cases hc
    decide
  have hsplit : columnTerm i ++ z = ' ' :: ((table.column i).name ++ '=' :: '?' :: z) := by
    unfold columnTerm
    rw [List.cons_append, List.cons_append, List.append_assoc]
    rfl
  rw [hsplit, tokens_space (unspaced_of_plainIdentifier hname _),
    tokens_identifier hname hend (by simp), tokens_eq (by simp), tokens_parameter hz]
  rfl

/-- Two blanks before a column. -/
theorem tokens_blankItem (i : table.Index) (z : Text) :
    tokens (' ' :: (columnItem i ++ z)) = tokens (columnItem i ++ z) := by
  have hspaced : Unspaced ((table.column i).name ++ z) :=
    unspaced_of_plainIdentifier (hplain.columns i) z
  rw [columnItem, List.cons_append, tokens_space hspaced]
  exact tokens_blanks hspaced 2

theorem tokens_blankTerm (i : table.Index) (z : Text) :
    tokens (' ' :: (columnTerm i ++ z)) = tokens (columnTerm i ++ z) := by
  have hterm : columnTerm i ++ z = columnItem i ++ ("=?".toList ++ z) := by
    unfold columnTerm columnItem
    rw [List.append_assoc]
  rw [hterm]
  exact tokens_blankItem hplain i _

/-- A keyword before a column. -/
theorem tokens_wordTerm {w : Text} (hw : plainIdentifier w) (i : table.Index) (z : Text) :
    tokens (w ++ (columnTerm i ++ z)) = ⟨.word, w⟩ :: tokens (columnTerm i ++ z) := by
  have hspaced : Unspaced ((table.column i).name ++ ("=?".toList ++ z)) :=
    unspaced_of_plainIdentifier (hplain.columns i) _
  have hterm : columnTerm i ++ z = ' ' :: ((table.column i).name ++ ("=?".toList ++ z)) := by
    unfold columnTerm
    rw [List.cons_append, List.cons_append, List.append_assoc]
  rw [hterm, tokens_wordBlank hw hspaced, tokens_space hspaced]

theorem tokens_columnItems {is : List table.Index} (hne : is ≠ []) {z : Text} (hz : EndsItem z) :
    tokens ([','].intercalate (is.map columnItem) ++ z) =
      [comma].intercalate ((is.map fun i => (table.column i).name).map
        fun name => [⟨.word, name⟩]) ++ tokens z := by
  rw [List.map_map]
  apply tokens_intercalate hne (fun i _ _ => tokens_columnItem hplain i) _ hz
  exact fun i _ z => ⟨⟨',', _, rfl, Or.inl rfl⟩, tokens_comma _⟩

/-- The terms of a SET. -/
theorem tokens_sets {is : List table.Index} (hne : is ≠ []) {z : Text} (hz : EndsTerm z) :
    tokens ([','].intercalate (is.map columnTerm) ++ z) =
      [comma].intercalate ((is.map fun i => (table.column i).name).map comparison) ++ tokens z := by
  rw [List.map_map]
  apply tokens_intercalate hne (fun i _ _ => tokens_columnTerm hplain i) _ hz
  intro i _ z
  exact ⟨EndsItem.endsTerm ⟨',', _, rfl, Or.inl rfl⟩, tokens_comma _⟩

/-- The terms of a WHERE. -/
theorem tokens_conditions {is : List table.Index} (hne : is ≠ []) {z : Text} (hz : EndsTerm z) :
    tokens (" AND".toList.intercalate (is.map columnTerm) ++ z) =
      [word "AND"].intercalate ((is.map fun i => (table.column i).name).map comparison) ++
        tokens z := by
  rw [List.map_map]
  apply tokens_intercalate hne (fun i _ _ => tokens_columnTerm hplain i) _ hz
  intro i _ z
  have hblank : " AND".toList ++ (columnTerm i ++ z) = ' ' :: ("AND".toList ++ (columnTerm i ++ z)) :=
    rfl
  have hspaced : Unspaced ("AND".toList ++ (columnTerm i ++ z)) :=
    unspaced_of_plainIdentifier (by decide) _
  constructor
  · intro c hc
    obtain rfl : ' ' = c := Option.some.inj hc
    decide
  · rw [hblank, tokens_space hspaced, tokens_wordTerm hplain (by decide)]
    rfl

theorem tokens_saveText {verb : Text} (hverb : plainIdentifier verb)
    (hvalue : obj.valuedColumns ≠ []) :
    tokens (saveText obj verb) = (Statement.insert verb table.name
      (obj.valuedColumns.map fun i => (table.column i).name)).tokens := by
  have hcolumns : saveColumns obj = (obj.valuedColumns.map columnItem).map (· ++ [',']) := by
    unfold saveColumns
    rw [List.map_map]
    rfl
  have hmarks : saveMarks obj = (obj.valuedColumns.map fun _ => " ?".toList).map (· ++ [',']) := by
    unfold saveMarks
    rw [List.map_map]
    rfl
  have hitems : obj.valuedColumns.map (@columnItem table) ≠ [] := by simpa using hvalue
  have hparameters : (obj.valuedColumns.map fun _ => " ?".toList) ≠ [] := by simpa using hvalue
  have htext : saveText obj verb = verb ++ ' ' :: ("INTO".toList ++ ' ' :: (table.name ++ ' ' ::
      ('(' :: ([','].intercalate (obj.valuedColumns.map columnItem) ++ ')' :: ' ' ::
        ("VALUES".toList ++ ' ' :: ('(' :: ([','].intercalate (obj.valuedColumns.map
          fun _ => " ?".toList) ++ [')']))))))) := by
    unfold saveText replaceLast
    rw [hcolumns, cutLast_commas _ hitems, hmarks, cutLast_commas _ hparameters]
    simp only [saveHead, List.append_assoc, List.singleton_append]
    rfl
  have hlist := tokens_columnItems hplain hvalue (z := ')' :: ' ' :: ("VALUES".toList ++ ' ' ::
    ('(' :: ([','].intercalate (obj.valuedColumns.map fun _ => " ?".toList) ++ [')']))))
    ⟨')', _, rfl, Or.inr rfl⟩
  have hvalues : tokens ([','].intercalate (obj.valuedColumns.map fun _ => " ?".toList) ++ [')']) =
      [comma].intercalate (obj.valuedColumns.map fun _ => [parameter]) ++ [rp] := by
    have hend : EndsTerm [')'] := EndsItem.endsTerm ⟨')', [], rfl, Or.inr rfl⟩
    rw [@tokens_intercalate _ _ (fun _ => [parameter]) _ _ EndsTerm _ hvalue _ _ _ hend]
    · rfl
    · intro i _ z hz
      change tokens (' ' :: '?' :: z) = _
      rw [tokens_space (by simp [isSpace]), tokens_parameter hz]
      rfl
    · exact fun i _ z => ⟨EndsItem.endsTerm ⟨',', _, rfl, Or.inl rfl⟩, tokens_comma _⟩
  have hspaced : ∀ {w : Text} (z : Text), plainIdentifier w → Unspaced (w ++ z) :=
    fun z hw => unspaced_of_plainIdentifier hw z
  have hopen : ∀ z : Text, Unspaced ('(' :: z) := by
    intro z c hc
    obtain rfl : '(' = c := Option.some.inj hc
    decide
  rw [htext, tokens_wordBlank hverb (hspaced _ (by decide)), tokens_wordBlank (by decide)
    (hspaced _ hplain.name), tokens_wordBlank hplain.name (hopen _), tokens_lp, hlist, tokens_rp,
    tokens_space (hspaced _ (by decide)), tokens_wordBlank (by decide) (hopen _), tokens_lp, hvalues,
    Statement.tokens, List.map_map (g := fun _ : List Char => [parameter])]
  rfl

theorem tokens_deleteText (hvalue : obj.valuedColumns ≠ []) :
    tokens (deleteText obj) = (Statement.delete table.name
      (obj.valuedColumns.map fun i => (table.column i).name)).tokens := by
  have hterms : deleteTerms obj = (obj.valuedColumns.map columnTerm).map
      (· ++ " AND".toList) := by
    unfold deleteTerms
    rw [List.map_map]
    exact List.map_congr_left fun i _ => (List.append_assoc _ "=?".toList " AND".toList).symm
  have hne : obj.valuedColumns.map (@columnTerm table) ≠ [] := by simpa using hvalue
  obtain ⟨i, y, hy⟩ := intercalate_terms " AND".toList hvalue
  have htext : deleteText obj = "DELETE".toList ++ ' ' :: ("FROM".toList ++ ' ' :: (table.name ++
      ' ' :: ("WHERE".toList ++ ' ' :: (columnTerm i ++ y)))) := by
    have hhead : deleteHead table = "DELETE".toList ++ ' ' :: ("FROM".toList ++ ' ' ::
        (table.name ++ ' ' :: ("WHERE".toList ++ [' ']))) :=
      List.append_assoc "DELETE FROM ".toList table.name " WHERE ".toList
    rw [deleteText, hterms, cutLast_ands _ hne, hy, hhead]
    simp only [List.append_assoc, List.cons_append, List.nil_append]
  have hconditions := tokens_conditions hplain hvalue endsTerm_nil
  rw [List.append_nil, tokens_nil, List.append_nil, hy] at hconditions
  have hspaced : ∀ {w : Text} (z : Text), plainIdentifier w → Unspaced (w ++ z) :=
    fun z hw => unspaced_of_plainIdentifier hw z
  have hwhere : tokens ("WHERE".toList ++ ' ' :: (columnTerm i ++ y)) =
      word "WHERE" :: tokens (columnTerm i ++ y) := by
    have hend : EndsWord (' ' :: (columnTerm i ++ y)) := by
      intro c hc
      obtain rfl : ' ' = c := Option.some.inj hc
      decide
    rw [tokens_identifier (by decide) hend (by simp), tokens_blankTerm hplain]
    rfl
  rw [htext, tokens_wordBlank (by decide) (hspaced _ (by decide)), tokens_wordBlank (by decide)
    (hspaced _ hplain.name), tokens_wordBlank hplain.name (hspaced _ (by decide)), hwhere,
    hconditions]
  rfl

/-- An update up to its `WHERE`. -/
theorem tokens_updateSetText (hvalue : obj.valuedColumns ≠ []) {z : Text} (hz : EndsTerm z) :
    tokens (updateSetText obj ++ z) = word "UPDATE" :: ⟨.word, table.name⟩ :: word "SET" ::
      ([comma].intercalate ((obj.valuedColumns.map fun i => (table.column i).name).map comparison) ++
        tokens z) := by
  obtain ⟨i, y, hy⟩ := intercalate_terms [','] hvalue
  have hsets := tokens_sets hplain hvalue hz
  have hspaced : ∀ {w : Text} (z : Text), plainIdentifier w → Unspaced (w ++ z) :=
    fun z hw => unspaced_of_plainIdentifier hw z
  rw [updateSetText_eq hvalue]
  simp only [List.append_assoc, List.cons_append]
  rw [tokens_wordBlank (by decide) (hspaced _ hplain.name), tokens_wordBlank hplain.name
    (hspaced _ (by decide)), hy, List.append_assoc, tokens_wordTerm hplain (by decide),
    ← List.append_assoc, ← hy, hsets]
  rfl

theorem tokens_updateText (hunique : obj.uniqueColumns ≠ []) (hvalue : obj.valuedColumns ≠ []) :
    tokens (updateText obj) = (Statement.update table.name
      (obj.valuedColumns.map fun i => (table.column i).name)
      (obj.uniqueColumns.map fun i => (table.column i).name)).tokens := by
  have hterms : updateTerms obj = (obj.uniqueColumns.map columnTerm).map
      (· ++ " AND".toList) := by
    unfold updateTerms
    rw [List.map_map]
    exact List.map_congr_left fun i _ => (List.append_assoc _ "=?".toList " AND".toList).symm
  have hne : obj.uniqueColumns.map (@columnTerm table) ≠ [] := by simpa using hunique
  obtain ⟨i, y, hy⟩ := intercalate_terms " AND".toList hunique
  have htext : updateText obj = updateSetText obj ++ ' ' :: ("WHERE".toList ++
      " AND".toList.intercalate (obj.uniqueColumns.map columnTerm)) := by
    rw [updateText, hterms, cutLast_ands _ hne, List.append_assoc]
    rfl
  have hconditions := tokens_conditions hplain hunique endsTerm_nil
  rw [List.append_nil, tokens_nil, List.append_nil] at hconditions
  have hend : EndsTerm (' ' :: ("WHERE".toList ++
      " AND".toList.intercalate (obj.uniqueColumns.map columnTerm))) := by
    intro c hc
    obtain rfl : ' ' = c := Option.some.inj hc
    decide
  have hwhere : tokens (' ' :: ("WHERE".toList ++
      " AND".toList.intercalate (obj.uniqueColumns.map columnTerm))) =
      word "WHERE" :: [word "AND"].intercalate
        ((obj.uniqueColumns.map fun i => (table.column i).name).map comparison) := by
    rw [tokens_space (unspaced_of_plainIdentifier (by decide) _), hy,
      tokens_wordTerm hplain (by decide), ← hy, hconditions]
    rfl
  rw [htext, tokens_updateSetText hplain hvalue hend, hwhere]
  rfl

theorem not_isUpdate_keyless (hunique : obj.uniqueColumns = []) (hvalue : obj.valuedColumns ≠ []) :
    ¬ IsUpdate (tokens (updateText obj)) := by
  have hend : EndsTerm " W".toList := by
    intro c hc
    obtain rfl : ' ' = c := Option.some.inj hc
    decide
  have hword : tokens " W".toList = [word "W"] := by decide
  have hnames : (obj.valuedColumns.map fun i => (table.column i).name) ≠ [] := by simpa using hvalue
  rw [updateText_keyless hunique, tokens_updateSetText hplain hvalue hend, hword]
  exact not_isUpdate table.name hnames rfl (by decide) (by decide)

end Text

/-- A bound value is what the members of a column hold, as the column's type reads them. The value
of a BLOB is NULL exactly where the member is a pointer and is NULL. -/
def Bound.IsValueOf (column : ColumnDescriptor) (slot : Slot) : Bound → Prop
  | .int v => slot.value column = .int v
  | .int64 v => slot.value column = .int64 v
  | .text s => slot.value column = .text s
  | .double v => slot.value column = .double v
  | .blob bytes len => slot.value column = .blob (bytes.getD []) len ∧
      (bytes = none ↔ column.mem = .heap ∧ slot.pointer = none)

/-- What a parameter is bound to: the number of the parameter, and the value of its column. -/
def BoundTo (obj : Object table) (p : table.Index × ℕ) (b : ℕ × Bound) : Prop :=
  b.1 = p.2 ∧ b.2.IsValueOf (table.column p.1) (obj.slots p.1)

/-- Every parameter is bound, the k-th one to the value of the k-th column. -/
def AllBound (obj : Object table) (is : List table.Index) (values : List (ℕ × Bound)) : Prop :=
  List.Forall₂ (BoundTo obj) (is.zipIdx 1) values

/-- Asks that only a certain text is prepared, and that a statement is complete when it is
stepped. -/
def bindMonitor (sql : Text) (Complete : List (ℕ × Bound) → Prop) : Monitor Resp BoundStmts :=
  fold (fun p c => (∀ sql' n, c = .prepare sql' n → sql' = sql ∧ sql'.length ≤ n) ∧
    ∀ stmt, c = .step stmt → ∃ h, stmt = some h ∧ (p h).sql = sql ∧ Complete (p h).values)
    BoundStmts.next

section Bind

variable {sql : Text} {Complete : List (ℕ × Bound) → Prop} {conn : Connection}

theorem bindMonitor_perform {c : Call} {P : BoundStmts → Prop} {Q : Resp c → BoundStmts → Prop}
    (hprepare : ∀ sql' n, c ≠ .prepare sql' n) (hstep : ∀ stmt, c ≠ .step stmt)
    (h : ∀ p r, P p → Q r (p.next ⟨c, r⟩)) : Triple (bindMonitor sql Complete) P (perform c) Q := by
  apply Triple.perform
  · intro p _
    exact ⟨fun sql' n hc => absurd hc (hprepare sql' n), fun stmt hc => absurd hc (hstep stmt)⟩
  · rintro p r p' hp hnext
    obtain rfl : p' = p.next ⟨c, r⟩ := hnext
    exact h p r hp

/-- Calls that neither prepare, bind nor step. -/
theorem bindMonitor_keeps {c : Call} {P : BoundStmts → Prop}
    (hprepare : ∀ sql' n, c ≠ .prepare sql' n) (hstep : ∀ stmt, c ≠ .step stmt)
    (hnext : ∀ p r, BoundStmts.next p ⟨c, r⟩ = p) :
    Keeps (bindMonitor sql Complete) P (perform c) := by
  apply bindMonitor_perform hprepare hstep
  intro p r hp
  rw [hnext]
  exact hp

theorem bindMonitor_prepare (hlength : sql.length ≤ sqlStmtMaxLen) :
    Triple (bindMonitor sql Complete) (fun _ => True) (sqlite3Prepare sql)
      fun r p => r.1 = .ok → ∀ h, r.2 = some h → p h = ⟨sql, []⟩ := by
  apply Triple.retry
  apply Triple.perform
  · rintro p -
    refine ⟨fun sql' n hc => ?_, nofun⟩
    cases hc
    exact ⟨rfl, hlength⟩
  · rintro p ⟨code, stmt⟩ p' - hnext
    have hprepared : code = .ok → ∀ h, stmt = some h → p' h = ⟨sql, []⟩ := by
      rintro rfl h rfl
      obtain rfl : p' = Function.update p h ⟨sql, []⟩ := hnext
      exact Function.update_self _ _ _
    dsimp only
    split
    · exact ⟨trivial, hprepared⟩
    · exact hprepared

theorem boundValue_error {obj : Object table} {i : table.Index} {e : SormError}
    (h : obj.boundValue i = .error e) : e ≠ .ok := by
  intro he
  subst he
  unfold Object.boundValue at h
  cases htype : (table.column i).type with
  | text | blob =>
      rw [htype] at h
      cases hmem : (table.column i).mem <;> rw [hmem] at h <;> cases h
  | _ =>
      rw [htype] at h
      cases h

/-- `_sqlite3_column_bind` gives SQLite the value of the column. -/
theorem isValueOf_boundValue {obj : Object table} {i : table.Index} {v : Bound}
    (h : obj.boundValue i = .ok v) : v.IsValueOf (table.column i) (obj.slots i) := by
  unfold Object.boundValue at h
  cases htype : (table.column i).type with
  | text =>
      rw [htype] at h
      cases hmem : (table.column i).mem with
      | none =>
          rw [hmem] at h
          cases h
      | heap | stack =>
          rw [hmem] at h
          cases h
          simp only [Bound.IsValueOf, Slot.value, htype, hmem]
  | blob =>
      rw [htype] at h
      cases hmem : (table.column i).mem with
      | none =>
          rw [hmem] at h
          cases h
      | heap | stack =>
          rw [hmem] at h
          cases h
          simp [Bound.IsValueOf, Slot.value, htype, hmem]
  | unknown code =>
      rw [htype] at h
      cases h
  | _ =>
      rw [htype] at h
      cases h
      simp only [Bound.IsValueOf, Slot.value, htype]

theorem bindMonitor_columnBind {obj : Object table} {h : Handle} {values : List (ℕ × Bound)}
    (i : table.Index) (k : ℕ) : Triple (bindMonitor sql Complete) (fun p => p h = ⟨sql, values⟩)
      (sqlite3ColumnBind obj (some h) i k) fun ret p => ret = .ok →
        ∃ v, obj.boundValue i = .ok v ∧ p h = ⟨sql, values ++ [(k, v)]⟩ := by
  unfold sqlite3ColumnBind
  rw [assertSome_some, pure_bind]
  split
  · cases hvalue : obj.boundValue i with
    | error e =>
        exact Triple.pure fun p _ hret => absurd hret (boundValue_error hvalue)
    | ok v =>
        have hbind : Triple (bindMonitor sql Complete) (fun p => p h = ⟨sql, values⟩)
            (perform (.bind (some h) k v)) fun ret p => ret = .ok →
              p h = ⟨sql, values ++ [(k, v)]⟩ := by
          refine bindMonitor_perform (c := .bind (some h) k v) nofun nofun ?_
          rintro p ret hp rfl
          change Function.update p h { p h with values := (p h).values ++ [(k, v)] } h = _
          rw [Function.update_self, hp]
        apply Triple.bind hbind
        intro ret
        split
        · next hret => exact Triple.pure fun p hp _ => ⟨v, rfl, hp hret⟩
        · exact Triple.pure fun p _ (hret : SormError.dbError = .ok) => nomatch hret
  · exact Triple.stop

/-- A loop that comes to its end has bound every column that passes its test. -/
theorem bindMonitor_bindEach {obj : Object table} {h : Handle} (test : table.Index → Bool)
    (is : List table.Index) (values : List (ℕ × Bound)) (k : ℕ) :
    Triple (bindMonitor sql Complete) (fun p => p h = ⟨sql, values⟩)
      (bindEach obj (some h) test is k) fun r p => r.1 = .ok →
        r.2 = k + (is.filter test).length ∧ ∃ bs, p h = ⟨sql, values ++ bs⟩ ∧
          List.Forall₂ (BoundTo obj) ((is.filter test).zipIdx k) bs := by
  induction is generalizing values k with
  | nil => exact Triple.pure fun p hp _ => ⟨rfl, [], by rw [hp, List.append_nil], .nil⟩
  | cons i is ih =>
      unfold bindEach
      by_cases hi : test i
      · rw [if_pos hi, List.filter_cons_of_pos hi]
        apply Triple.bind (bindMonitor_columnBind i k)
        intro ret
        by_cases hret : ret = .ok
        · rw [if_pos hret]
          rintro p hp
          obtain ⟨v, hvalue, hp⟩ := hp hret
          refine wp_mono (fun r p hr hok => ?_) (ih (values ++ [(k, v)]) (k + 1) p hp)
          obtain ⟨hindex, bs, hbs, hall⟩ := hr hok
          refine ⟨?_, (k, v) :: bs, ?_, .cons ⟨rfl, isValueOf_boundValue hvalue⟩ hall⟩
          · rw [hindex, List.length_cons]
            omega
          · rw [hbs, List.append_assoc]
            rfl
        · rw [if_neg hret]
          exact Triple.pure fun p _ hok => absurd hok hret
      · rw [if_neg hi, List.filter_cons_of_neg hi]
        exact ih values k

/-- A complete statement may be stepped, as often as it is busy. -/
theorem bindMonitor_step {h : Handle} {values : List (ℕ × Bound)} (hcomplete : Complete values) :
    Triple (bindMonitor sql Complete) (fun p => p h = ⟨sql, values⟩)
      (sqlite3Step conn (some h) .write) fun _ _ => True := by
  have hkeeps : Keeps (bindMonitor sql Complete) (fun p => p h = ⟨sql, values⟩)
      (sqlite3Step conn (some h) .write) := by
    apply keeps_sqlite3Step
    · intro c hc
      cases c with
      | semP | rdlock | wrlock => exact bindMonitor_keeps nofun nofun fun _ _ => rfl
      | _ => cases hc
    · intro c hc
      cases c with
      | semV | rwUnlock => exact bindMonitor_keeps nofun nofun fun _ _ => rfl
      | _ => cases hc
    · apply Triple.perform
      · intro p hp
        refine ⟨nofun, fun stmt hstmt => ?_⟩
        cases hstmt
        exact ⟨h, rfl, by rw [hp], by rw [hp]; exact hcomplete⟩
      · rintro p ret p' hp hnext
        obtain rfl : p' = p := hnext
        exact hp
  exact hkeeps.post fun _ _ _ => trivial

theorem bindMonitor_finalize (stmt : Option Handle) (code : SormError) {P : BoundStmts → Prop} :
    Keeps (bindMonitor sql Complete) P (dbFinalize stmt code) := by
  apply Keeps.bind
  · exact Keeps.retry _ (bindMonitor_keeps nofun nofun fun _ _ => rfl)
  · intro ret
    split
    · exact Keeps.pure
    · exact Keeps.pure

theorem bindMonitor_stepAndFinalize (h : Handle) :
    Triple (bindMonitor sql Complete) (fun p => ∃ values, p h = ⟨sql, values⟩ ∧ Complete values)
      (do
        let ret ← sqlite3Step conn (some h) .write
        if ret ≠ .done then return .dbError
        dbFinalize (some h) .ok) fun _ _ => True := by
  rintro p ⟨values, hp, hcomplete⟩
  refine Triple.bind (bindMonitor_step hcomplete) (fun ret => ?_) p hp
  split
  · exact Triple.pure fun _ _ => trivial
  · exact bindMonitor_finalize _ _

variable {obj : Object table} (hvalue : checkHasValue obj) (hlength : sql.length ≤ sqlStmtMaxLen)

include hvalue hlength

/-- `sorm_delete` and `sorm_update` step their statement when it is complete. -/
theorem bindMonitor_runBound (second : Option (table.Index → Bool)) :
    Triple (bindMonitor sql (AllBound obj (obj.valuedColumns ++
        second.elim [] fun test => table.indexes.filter test))) (fun _ => True)
      (runBound conn obj sql second) fun _ _ => True := by
  apply Triple.bind (bindMonitor_prepare hlength)
  rintro ⟨ret, stmt⟩
  by_cases hret : ret = .ok
  · subst hret
    cases stmt with
    | none =>
        simp only [ne_eq, not_true_eq_false, if_false,
          Handling.bindEach_none obj obj.valued table.indexes 1 hvalue]
        exact Triple.stop
    | some h =>
        simp only [ne_eq, not_true_eq_false, if_false]
        intro p hp
        refine Triple.bind (bindMonitor_bindEach obj.valued table.indexes [] 1) (fun r => ?_) p
          (hp trivial h rfl)
        obtain ⟨ret, k⟩ := r
        dsimp only
        by_cases hret : ret = .ok
        · subst hret
          rw [if_neg (not_not_intro rfl)]
          rintro p hp
          obtain ⟨hk, bs, hbs, hall⟩ := hp rfl
          cases second with
          | none =>
              refine bindMonitor_stepAndFinalize h p ⟨bs, hbs, ?_⟩
              rw [Option.elim_none, List.append_nil]
              exact hall
          | some test =>
              dsimp only
              refine Triple.bind (bindMonitor_bindEach test table.indexes bs k) (fun r => ?_) p hbs
              obtain ⟨ret, k'⟩ := r
              dsimp only
              by_cases hret : ret = .ok
              · subst hret
                rw [if_neg (not_not_intro rfl)]
                rintro p hp
                obtain ⟨-, bs', hbs', hall'⟩ := hp rfl
                refine bindMonitor_stepAndFinalize h p ⟨bs ++ bs', hbs', ?_⟩
                unfold AllBound
                rw [Option.elim_some, List.zipIdx_append]
                rw [hk, Nat.add_comm] at hall'
                exact List.rel_append hall (Nat.add_comm 1 _ ▸ hall')
              · rw [if_pos hret]
                exact (bindMonitor_finalize _ _).mono (fun _ _ => trivial) fun _ _ _ => trivial
        · rw [if_pos hret]
          exact (bindMonitor_finalize _ _).mono (fun _ _ => trivial) fun _ _ _ => trivial
  · simp only [ne_eq, hret, not_false_eq_true, if_true]
    exact Triple.pure fun _ _ => trivial

/-- So does `_save`. -/
theorem bindMonitor_savePrepared :
    Triple (bindMonitor sql (AllBound obj obj.valuedColumns)) (fun _ => True)
      (savePrepared conn obj sql) fun _ _ => True := by
  have hfinalize : ∀ (stmt : Option Handle) (code : SormError) (obj' : Object table)
      (P : BoundStmts → Prop), Triple (bindMonitor sql (AllBound obj obj.valuedColumns)) P (do
        let ret ← dbFinalize stmt code
        return (ret, obj') : Act (SormError × Object table)) fun _ _ => True := by
    intro stmt code obj' P
    exact Triple.bind (bindMonitor_finalize stmt code) fun _ => Triple.pure fun _ _ => trivial
  apply Triple.bind (bindMonitor_prepare hlength)
  rintro ⟨ret, stmt⟩
  by_cases hret : ret = .ok
  · subst hret
    cases stmt with
    | none =>
        simp only [ne_eq, not_true_eq_false, if_false,
          Handling.bindEach_none obj obj.valued table.indexes 1 hvalue]
        exact Triple.stop
    | some h =>
        simp only [ne_eq, not_true_eq_false, if_false]
        intro p hp
        refine Triple.bind (bindMonitor_bindEach obj.valued table.indexes [] 1) (fun r => ?_) p
          (hp trivial h rfl)
        obtain ⟨ret, k⟩ := r
        dsimp only
        by_cases hret : ret = .ok
        · subst hret
          rw [if_neg (not_not_intro rfl)]
          rintro p hp
          obtain ⟨-, bs, hbs, hall⟩ := hp rfl
          refine Triple.bind (bindMonitor_step hall) (fun ret => ?_) p hbs
          split
          · exact hfinalize _ _ _ _
          · have hkey : Triple (bindMonitor sql (AllBound obj obj.valuedColumns)) (fun _ => True)
                (savePrimaryKey obj) fun _ _ => True := by
              unfold savePrimaryKey
              split
              · exact Triple.pure fun _ _ => trivial
              · apply Keeps.bind (bindMonitor_keeps (c := .lastInsertRowid) nofun nofun fun _ _ => rfl)
                intro rowId
                apply Keeps.bind (bindMonitor_keeps (c := .uninitialised) nofun nofun fun _ _ => rfl)
                intro above
                exact Keeps.ofExcept
            apply Triple.bind hkey
            rintro ⟨ret, obj'⟩
            dsimp only
            split
            · exact Triple.pure fun _ _ => trivial
            · exact hfinalize _ _ _ _
        · rw [if_pos hret]
          exact hfinalize _ _ _ _
  · simp only [ne_eq, hret, not_false_eq_true, if_true]
    exact Triple.pure fun _ _ => trivial

end Bind

namespace RowCall

def Writes (call : RowCall) (obj : Object table) (sql : Text) : Prop :=
  if call.isKeyless obj then ¬ IsUpdate (tokens sql)
  else tokens sql = (call.statement obj).tokens

theorem writes_text (hplain : PlainColumns table) {obj : Object table}
    (hvalue : obj.valuedColumns ≠ []) (call : RowCall) : call.Writes obj (call.text obj) := by
  cases call with
  | insert => exact tokens_saveText hplain (by decide) hvalue
  | replace => exact tokens_saveText hplain (by decide) hvalue
  | delete => exact tokens_deleteText hplain hvalue
  | update =>
      have hkeyless : RowCall.update.isKeyless obj = obj.uniqueColumns.isEmpty := rfl
      unfold Writes
      rw [hkeyless]
      by_cases hunique : obj.uniqueColumns = []
      · rw [hunique, if_pos List.isEmpty_nil]
        exact not_isUpdate_keyless hplain hunique hvalue
      · rw [if_neg (by simpa using hunique)]
        exact tokens_updateText hplain hunique hvalue

/-- A call prepares its own text and steps a statement that is complete. -/
theorem asks (call : RowCall) {obj : Object table} (hvalue : checkHasValue obj)
    (before : Session) : Triple (bindMonitor (call.text obj) (AllBound obj (call.bound obj)))
      (fun _ => True) ((call.op obj).prog before) fun _ _ => True := by
  have hsave : ∀ verb, Triple (bindMonitor (saveText obj verb) (AllBound obj obj.valuedColumns))
      (fun _ => True) (save (some before.conn) (some obj) verb) fun _ _ => True := by
    intro verb
    unfold save
    dsimp only
    rw [if_pos hvalue]
    cases hbuilt : saveStmt obj verb with
    | error e => exact Keeps.bind (keeps_fail e.1) fun _ => Keeps.pure
    | ok b =>
        obtain ⟨htext, hlength⟩ := saveStmt_ok hbuilt
        dsimp only
        rw [htext]
        exact Triple.bind (bindMonitor_savePrepared hvalue hlength) fun _ => Triple.pure fun _ _ => trivial
  have hkeep : ∀ {α : Type} {p : Act α} {code : α → SormError} {M : Monitor Resp BoundStmts},
      Triple M (fun _ => True) p (fun _ _ => True) →
        Triple M (fun _ => True) (before.keep p code) fun _ _ => True :=
    fun hp => Triple.bind hp fun _ => Triple.pure fun _ _ => trivial
  cases call with
  | insert => exact hkeep (hsave _)
  | replace => exact hkeep (hsave _)
  | delete =>
      apply hkeep
      unfold sormDelete
      dsimp only
      rw [if_pos hvalue]
      cases hbuilt : deleteStmt obj with
      | error e => exact keeps_fail e.1
      | ok b =>
          obtain ⟨htext, hlength⟩ := deleteStmt_ok hbuilt
          have hbound := @bindMonitor_runBound _ _ before.conn _ hvalue hlength none
          rw [Option.elim_none, List.append_nil] at hbound
          dsimp only
          rw [assertSome_some, pure_bind, htext]
          exact hbound
  | update =>
      apply hkeep
      unfold sormUpdate
      dsimp only
      rw [if_pos hvalue]
      cases hbuilt : updateStmt obj with
      | error e => exact keeps_fail e.1
      | ok b =>
          obtain ⟨htext, hlength⟩ := updateStmt_ok hbuilt
          dsimp only
          rw [assertSome_some, pure_bind, htext]
          exact bindMonitor_runBound hvalue hlength (some obj.valuedUnique)

/-- The statement and the bindings of a call agree: whatever text it prepares, and whenever it steps
the statement that was prepared from it. -/
structure Agrees (call : RowCall) (obj : Object table) : Prop where
  parameters : (call.statement obj).parameters =
    (call.bound obj).map fun i => (table.column i).name
  prepared : ∀ (before : Session) (tr : List SormEvent) (q : Act (SormError × Session))
    (sql : Text) (n : ℕ) (r : DbCode × Option Handle), ((call.op obj).prog before).Emits tr q →
    (⟨.prepare sql n, r⟩ : SormEvent) ∈ tr → sql.length ≤ n ∧ call.Writes obj sql
  stepped : ∀ (before : Session) (p : BoundStmts) (tr tr' : List SormEvent)
    (q : Act (SormError × Session)) (stmt : Option Handle) (r : DbCode),
    ((call.op obj).prog before).Emits (tr ++ ⟨.step stmt, r⟩ :: tr') q →
    ∃ h, stmt = some h ∧ call.Writes obj (p.after tr h).sql ∧
      AllBound obj (call.bound obj) (p.after tr h).values

/-- The generated statement and its bindings agree for every object with a value. -/
theorem agrees (hplain : PlainColumns table) {obj : Object table} (hvalue : checkHasValue obj)
    (call : RowCall) : call.Agrees obj := by
  have hvalued : obj.valuedColumns ≠ [] := by
    obtain ⟨i, hi, hvalued⟩ := List.any_eq_true.mp hvalue
    exact List.ne_nil_of_mem (List.mem_filter.mpr ⟨hi, hvalued⟩)
  have hwrites := writes_text hplain hvalued call
  refine ⟨parameters_statement obj call, ?_, ?_⟩
  · intro before tr q sql n r hemits hmem
    obtain ⟨tr₁, tr₂, rfl⟩ := List.append_of_mem hmem
    have hok := wp_ok (asks call hvalue before (fun _ => ⟨[], []⟩) trivial) hemits (fold_run _ tr₁)
    obtain ⟨rfl, hlength⟩ := hok.1 sql n rfl
    exact ⟨hlength, hwrites⟩
  · intro before p tr tr' q stmt r hemits
    have hok := wp_ok (asks call hvalue before p trivial) hemits (fold_run _ tr)
    obtain ⟨h, hstmt, hsql, hcomplete⟩ := hok.2 stmt rfl
    refine ⟨h, hstmt, ?_, hcomplete⟩
    change call.Writes obj (tr.foldl BoundStmts.next p h).sql
    rw [hsql]
    exact hwrites

def noteTable : TableDescriptor where
  name := "note".toList
  size := 64
  columns := [⟨"id".toList, .int, .pk, .none, 0, false, [], []⟩,
    ⟨"rank".toList, .int64, .none, .none, 0, false, [], []⟩]
  pkIndex := some ⟨0, by decide⟩
  createSql := none

def ratedNote : Object noteTable := ⟨fun _ => { Slot.zero with stat := sormStatValued }⟩

theorem agrees_update : RowCall.update.Agrees ratedNote :=
  agrees ⟨by decide, by decide⟩ (by decide) .update

end RowCall
end Sorm
