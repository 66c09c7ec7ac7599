import Sorm.StatementBuild

/-!
# The statements of the builders

For each builder the pieces it prints and the text they make up with the patches applied, which is
the statement when the buffer has no end. `sorm_update` prints `" WHERE"` with the size of the whole
array, so that piece alone may leave it.
-/

namespace Sorm

open Interaction Monitor

variable {table : TableDescriptor}

namespace Object

def valuedColumns (obj : Object table) : List table.Index := table.indexes.filter obj.valued

def uniqueColumns (obj : Object table) : List table.Index :=
  table.indexes.filter obj.valuedUnique

end Object

def saveHead (table : TableDescriptor) (insertOrReplace : Text) : Text :=
  insertOrReplace ++ " INTO ".toList ++ table.name ++ " (".toList

def saveColumns (obj : Object table) : List Text :=
  obj.valuedColumns.map fun i => ' ' :: (table.column i).name ++ [',']

def saveMarks (obj : Object table) : List Text := obj.valuedColumns.map fun _ => " ?,".toList

def savePieces (obj : Object table) (insertOrReplace : Text) : List Text :=
  [saveHead table insertOrReplace] ++ saveColumns obj ++ [" VALUES (".toList] ++ saveMarks obj

def saveText (obj : Object table) (insertOrReplace : Text) : Text :=
  replaceLast ')' (replaceLast ')' (saveHead table insertOrReplace ++ (saveColumns obj).flatten) ++
    " VALUES (".toList ++ (saveMarks obj).flatten)

def deleteHead (table : TableDescriptor) : Text :=
  "DELETE FROM ".toList ++ table.name ++ " WHERE ".toList

def deleteTerms (obj : Object table) : List Text :=
  obj.valuedColumns.map fun i => ' ' :: (table.column i).name ++ "=? AND".toList

def deleteText (obj : Object table) : Text :=
  cutLast 4 (deleteHead table ++ (deleteTerms obj).flatten)

def updateHead (table : TableDescriptor) : Text := "UPDATE ".toList ++ table.name ++ " SET".toList

def updateSets (obj : Object table) : List Text :=
  obj.valuedColumns.map fun i => ' ' :: (table.column i).name ++ "=?,".toList

def updateTerms (obj : Object table) : List Text :=
  obj.uniqueColumns.map fun i => ' ' :: (table.column i).name ++ "=? AND".toList

def updateSetText (obj : Object table) : Text :=
  cutLast 1 (updateHead table ++ (updateSets obj).flatten)

def updateText (obj : Object table) : Text :=
  cutLast 4 (updateSetText obj ++ " WHERE".toList ++ (updateTerms obj).flatten)

def deleteByPieces (table : TableDescriptor) (filter : Option Text) : List Text :=
  ("DELETE FROM ".toList ++ table.name ++ [' ']) ::
    (filter.map fun filter => "WHERE ".toList ++ filter).toList

def createTableHead (table : TableDescriptor) : Text :=
  "CREATE TABLE IF NOT EXISTS ".toList ++ table.name ++ ['(']

def createColumnPieces (columns : List ColumnDescriptor) : List Text :=
  columns.flatMap fun column =>
    [' ' :: column.name ++ ' ' :: (sormTypeDbStr column.type).getD [],
      createConstraintStr column.constraint]

def foreignColumns (table : TableDescriptor) : List ColumnDescriptor :=
  table.columns.filter ColumnDescriptor.isForeignKey

def foreignKeyPieces (conn : Connection) (table : TableDescriptor) : List Text :=
  if sormForeignKeyEnabled conn.flags then (foreignColumns table).map fun column =>
    " FOREIGN KEY(".toList ++ column.name ++ ") REFERENCES ".toList ++ column.foreignTableName ++
      '(' :: column.foreignColumnName ++ "),".toList
  else []

def indexPieces (table : TableDescriptor) : List Text :=
  (foreignColumns table).map fun column =>
    "; CREATE INDEX ".toList ++ column.name ++ "_index ON ".toList ++ table.name ++
      '(' :: column.name ++ [')']

def createTablePieces (conn : Connection) (table : TableDescriptor) : List Text :=
  [createTableHead table] ++ createColumnPieces table.columns ++ foreignKeyPieces conn table ++
    indexPieces table

def createTableText (conn : Connection) (table : TableDescriptor) : Text :=
  replaceLast ')' (createTableHead table ++ (createColumnPieces table.columns).flatten ++
    (foreignKeyPieces conn table).flatten) ++ (indexPieces table).flatten

def joinText (join : SormJoin) : Text :=
  match join with
  | .innerJoin => "INNER JOIN".toList
  | .leftJoin => "LEFT JOIN".toList
  | .unknown _ => []

def SelectTables.pieces (t : SelectTables) (columnsName : Text) (filter : Option Text) :
    List Text :=
  let tableName := (t.tablesDesc.head?.map TableDescriptor.name).getD []
  let join := match t.tablesDesc with
    | _ :: table2 :: _ => [' ' :: joinText t.join ++ ' ' :: table2.name ++ " ON ".toList ++
        t.tablesColumnName.1 ++ '=' :: t.tablesColumnName.2]
    | _ => []
  ["SELECT ".toList ++ columnsName ++ " FROM ".toList ++ tableName] ++ join ++
    (filter.map fun filter => " WHERE ".toList ++ filter).toList

namespace Build

theorem Outcome.appendEach {b : Buf} {t text : Text} {later : Prop} {k : Buf → Build} {ι : Type}
    {test : ι → Bool} {item : ι → Text} {is : List ι} (h : b.Holds t) (hb : b.InBounds)
    (ht : t.length ≤ sqlStmtMaxLen) (pieces : List Text)
    (hpieces : (is.filter test).map item = pieces)
    (hlater : later → (t ++ pieces.flatten).length ≤ sqlStmtMaxLen)
    (hk : ∀ b', b'.Holds (t ++ pieces.flatten) → b'.InBounds →
      (t ++ pieces.flatten).length ≤ sqlStmtMaxLen → Outcome later text (k b')) :
    Outcome (Overflows t.length pieces ∨ later) text (b.appendEach test item is >>= k) := by
  rw [Buf.appendEach_eq, hpieces]
  exact Outcome.appendAll h hb ht pieces hlater hk

end Build

open Build

theorem length_nil_le : ([] : Text).length ≤ sqlStmtMaxLen := Nat.zero_le _

theorem four_le_deleteHead (table : TableDescriptor) : 4 ≤ (deleteHead table).length := by
  unfold deleteHead
  simp only [String.reduceToList, List.cons_append, List.length_cons]
  omega

theorem deleteStmt_outcome (obj : Object table) :
    (deleteStmt obj).Outcome (Overflows 0 (deleteHead table :: deleteTerms obj))
      (deleteText obj) := by
  have hfour : 4 ≤ (deleteHead table ++ (deleteTerms obj).flatten).length := by
    rw [List.length_append]
    exact Nat.le_add_right_of_le (four_le_deleteHead table)
  have hsplit : Overflows 0 (deleteHead table :: deleteTerms obj) ↔
      Overflows 0 [deleteHead table] ∨
        (Overflows (deleteHead table).length (deleteTerms obj) ∨ False) := by
    rw [← List.singleton_append, overflows_append, List.flatten_singleton, Nat.zero_add, or_false]
  rw [hsplit]
  apply Outcome.append Buf.holds_empty Buf.inBounds_empty length_nil_le (deleteHead table)
  · rintro (hterms | hfalse)
    · exact hterms.offset_le
    · exact hfalse.elim
  intro b h hb hlen
  rw [List.nil_append] at h hlen
  apply Outcome.appendEach h hb hlen (deleteTerms obj) rfl
  · exact False.elim
  intro b h hb hlen
  refine .ok (h.put_nul hfour) ?_ (hb.put ?_ ?_ _) not_false
  · rw [deleteText, cutLast, List.length_take]
    omega
  · rw [h.offset]
    omega
  · rw [h.offset]
    omega

theorem saveHead_ne_nil (table : TableDescriptor) (insertOrReplace : Text) :
    saveHead table insertOrReplace ≠ [] := by
  simp [saveHead]

theorem saveStmt_outcome (obj : Object table) (insertOrReplace : Text) :
    (saveStmt obj insertOrReplace).Outcome (Overflows 0 (savePieces obj insertOrReplace))
      (saveText obj insertOrReplace) := by
  set columns := saveHead table insertOrReplace ++ (saveColumns obj).flatten with hcolumns
  have hcolumns0 : columns ≠ [] := List.append_ne_nil_of_left_ne_nil (saveHead_ne_nil _ _) _
  set values := replaceLast ')' columns ++ " VALUES (".toList with hvalues
  have hvalues0 : values ++ (saveMarks obj).flatten ≠ [] := by simp [hvalues]
  have hlast : ∀ {t : Text}, t ≠ [] → (replaceLast ')' t).length = t.length :=
    fun ht => length_replaceLast ht
  have hsplit : Overflows 0 (savePieces obj insertOrReplace) ↔
      Overflows 0 [saveHead table insertOrReplace] ∨
        (Overflows (saveHead table insertOrReplace).length (saveColumns obj) ∨
          (Overflows (replaceLast ')' columns).length [" VALUES (".toList] ∨
            (Overflows values.length (saveMarks obj) ∨ False))) := by
    have hlength : (replaceLast ')' columns).length =
        (saveHead table insertOrReplace).length + (saveColumns obj).flatten.length := by
      rw [hlast hcolumns0, hcolumns, List.length_append]
    rw [savePieces, overflows_append, overflows_append, overflows_append, hvalues]
    simp only [or_assoc, or_false, List.flatten_append, List.flatten_singleton,
      List.length_append, Nat.zero_add, hlength]
  rw [hsplit]
  apply Outcome.append Buf.holds_empty Buf.inBounds_empty length_nil_le
    (saveHead table insertOrReplace)
  · rw [List.nil_append]
    rintro (hcols | hval | hmarks | hfalse)
    · exact hcols.offset_le
    · have hle := hval.offset_le
      rw [hlast hcolumns0, hcolumns, List.length_append] at hle
      omega
    · have hle := hmarks.offset_le
      rw [hvalues, List.length_append, hlast hcolumns0, hcolumns, List.length_append] at hle
      omega
    · exact hfalse.elim
  intro b h hb hlen
  rw [List.nil_append] at h hlen
  apply Outcome.appendEach h hb hlen (saveColumns obj) rfl
  · rw [← hcolumns]
    rintro (hval | hmarks | hfalse)
    · have hle := hval.offset_le
      rwa [hlast hcolumns0] at hle
    · have hle := hmarks.offset_le
      rw [hvalues, List.length_append, hlast hcolumns0] at hle
      omega
    · exact hfalse.elim
  rw [← hcolumns]
  intro b h hb hlen
  have hpos := List.length_pos_iff.mpr hcolumns0
  have hput : (b.put ((b.offset : ℤ) - 1) ')').InBounds := by
    apply hb.put
    · rw [h.offset]
      omega
    · rw [h.offset]
      omega
  rw [← hlast hcolumns0] at hlen
  apply Outcome.append (h.put_last hcolumns0 (by decide)) hput hlen " VALUES (".toList
  · rintro (hmarks | hfalse)
    · exact hmarks.offset_le
    · exact hfalse.elim
  rw [← hvalues]
  intro b h hb hlen
  apply Outcome.appendEach h hb hlen (saveMarks obj) rfl
  · exact False.elim
  intro b h hb hlen
  have hpos := List.length_pos_iff.mpr hvalues0
  refine .ok (h.put_last hvalues0 (by decide)).text ?_ (hb.put ?_ ?_ _) not_false
  · exact (hlast hvalues0).trans_le hlen
  · rw [h.offset]
    omega
  · rw [h.offset]
    omega

/-- The `" WHERE"` of `sorm_update` leaves the buffer: its statement up to there fits, but leaves
room for less than the word. -/
def WhereOverruns (obj : Object table) : Prop :=
  (updateSetText obj).length < sqlStmtMaxLen ∧ sqlStmtMaxLen < (updateSetText obj).length + 6

instance (obj : Object table) : Decidable (WhereOverruns obj) :=
  inferInstanceAs (Decidable (_ ∧ _))

def UpdateOverflows (obj : Object table) : Prop :=
  Overflows 0 (updateHead table :: updateSets obj) ∨
    Overflows ((updateSetText obj).length + 6) (updateTerms obj)

theorem updateHead_ne_nil (table : TableDescriptor) : updateHead table ≠ [] := by
  unfold updateHead
  simp only [String.reduceToList, List.cons_append, ne_eq, reduceCtorEq, not_false_eq_true]

theorem length_updateSets_pos (obj : Object table) :
    0 < (updateHead table ++ (updateSets obj).flatten).length :=
  List.length_pos_iff.mpr (List.append_ne_nil_of_left_ne_nil (updateHead_ne_nil table) _)

/-- The step back over the last `,`. -/
theorem updateSetText_holds {obj : Object table} {b : Buf}
    (h : b.Holds (updateHead table ++ (updateSets obj).flatten)) :
    (Buf.put { b with offset := b.offset - 1 } (b.offset - 1 : ℕ) '\x00').Holds
      (updateSetText obj) := by
  have hpos := length_updateSets_pos obj
  have htext : ({ b with offset := b.offset - 1 } : Buf).text =
      updateHead table ++ (updateSets obj).flatten := h.text
  constructor
  · rw [Buf.put_text htext, if_pos rfl, List.append_nil, h.offset]
    · rfl
    · rw [h.offset]
      omega
  · change b.offset - 1 = _
    rw [h.offset, updateSetText, cutLast, List.length_take]
    omega

theorem updateStmt_outcome {obj : Object table} (hwhere : ¬ WhereOverruns obj) :
    (updateStmt obj).Outcome (UpdateOverflows obj) (updateText obj) := by
  have hlength : (updateSetText obj).length =
      (updateHead table ++ (updateSets obj).flatten).length - 1 := by
    rw [updateSetText, cutLast, List.length_take]
    omega
  have hpos := length_updateSets_pos obj
  have hsplit : UpdateOverflows obj ↔ Overflows 0 [updateHead table] ∨
      (Overflows (updateHead table).length (updateSets obj) ∨
        (Overflows (updateSetText obj ++ " WHERE".toList).length (updateTerms obj) ∨ False)) := by
    rw [UpdateOverflows, ← List.singleton_append, overflows_append, List.flatten_singleton,
      Nat.zero_add, or_false, or_assoc, List.length_append]
    rfl
  rw [hsplit]
  apply Outcome.append Buf.holds_empty Buf.inBounds_empty length_nil_le (updateHead table)
  · rintro (hsets | hterms | hfalse)
    · exact hsets.offset_le
    · have hle := hterms.offset_le
      rw [List.length_append, hlength, List.length_append] at hle
      rw [List.nil_append]
      rw [List.length_append] at hpos
      have hsix : " WHERE".toList.length = 6 := rfl
      omega
    · exact hfalse.elim
  intro b h hb hlen
  rw [List.nil_append] at h hlen
  apply Outcome.appendEach h hb hlen (updateSets obj) rfl
  · rintro (hterms | hfalse)
    · have hle := hterms.offset_le
      rw [List.length_append, hlength] at hle
      have hsix : " WHERE".toList.length = 6 := rfl
      omega
    · exact hfalse.elim
  intro b h hb hlen
  have hset := updateSetText_holds h
  have hbset := hb.stepBack (by rw [h.offset]; omega) (by rw [h.offset]; omega)
  have hroom : (updateSetText obj).length + 6 ≤ sqlStmtMaxLen := by
    unfold WhereOverruns at hwhere
    omega
  change Outcome _ _ ((Buf.snprintf (Buf.put { b with offset := b.offset - 1 } (b.offset - 1 : ℕ)
    '\x00') (sqlStmtMaxLen + 1) " WHERE".toList).check >>= _)
  generalize Buf.put { b with offset := b.offset - 1 } (b.offset - 1 : ℕ) '\x00' = b₁ at hset hbset ⊢
  have hsix : " WHERE".toList.length = 6 := rfl
  have hword : (b₁.snprintf (sqlStmtMaxLen + 1) " WHERE".toList).Holds
      (updateSetText obj ++ " WHERE".toList) := hset.snprintf (by decide)
  have hbword : (b₁.snprintf (sqlStmtMaxLen + 1) " WHERE".toList).InBounds := by
    apply hbset.snprintf
    rw [hset.offset, hsix]
    exact hroom
  have hlword : (updateSetText obj ++ " WHERE".toList).length ≤ sqlStmtMaxLen := by
    rw [List.length_append, hsix]
    exact hroom
  rw [Buf.check_ok (by rw [hword.offset]; exact hlword)]
  apply Outcome.appendEach hword hbword hlword (updateTerms obj) rfl
  · exact False.elim
  intro b h hb hlen
  have hfour : 4 ≤ (updateSetText obj ++ " WHERE".toList ++ (updateTerms obj).flatten).length := by
    rw [List.length_append, List.length_append, hsix]
    omega
  refine .ok (h.put_nul hfour) ?_ (hb.put ?_ ?_ _) not_false
  · rw [updateText, cutLast, List.length_take]
    omega
  · rw [h.offset]
    omega
  · rw [h.offset]
    omega

/-- `sorm_update` returns when its `" WHERE"` has left the buffer. -/
theorem updateStmt_of_overruns {obj : Object table} (hwhere : WhereOverruns obj) :
    ∃ b : Buf, b.Holds (updateSetText obj) ∧ updateStmt obj =
      .error (.code .tooLong, b.snprintf (sqlStmtMaxLen + 1) " WHERE".toList) := by
  have hlength : (updateSetText obj).length =
      (updateHead table ++ (updateSets obj).flatten).length - 1 := by
    rw [updateSetText, cutLast, List.length_take]
    omega
  have hfits : (updateHead table ++ (updateSets obj).flatten).length ≤ sqlStmtMaxLen := by
    have hlt := hwhere.1
    omega
  obtain ⟨b₁, h₁, hhead⟩ := Buf.holds_empty.append_fits (s := updateHead table) (by
    rw [List.length_append] at hfits
    rw [List.nil_append]
    omega)
  obtain ⟨b₂, h₂, hsets⟩ := hhead.appendAll_fits (updateSets obj) hfits
  have hset := updateSetText_holds hsets
  have hbuilt : updateStmt obj = ((Buf.snprintf (Buf.put { b₂ with offset := b₂.offset - 1 }
      (b₂.offset - 1 : ℕ) '\x00') (sqlStmtMaxLen + 1) " WHERE".toList).check >>= fun b =>
        b.appendEach obj.valuedUnique (fun i => ' ' :: (table.column i).name ++ "=? AND".toList)
          table.indexes >>= fun b => return b.put ((b.offset : ℤ) - 4) '\x00') := by
    unfold updateStmt
    change (Buf.empty.append (updateHead table) >>= fun b => b.appendEach obj.valued
      (fun i => ' ' :: (table.column i).name ++ "=?,".toList) table.indexes >>= _) = _
    rw [h₁]
    change (b₁.appendEach obj.valued _ table.indexes >>= _) = _
    rw [Buf.appendEach_eq]
    change (b₁.appendAll (updateSets obj) >>= _) = _
    rw [h₂]
    rfl
  generalize Buf.put { b₂ with offset := b₂.offset - 1 } (b₂.offset - 1 : ℕ) '\x00' = b at *
  have hlong : (b.snprintf (sqlStmtMaxLen + 1) " WHERE".toList).offset > sqlStmtMaxLen := by
    change b.offset + " WHERE".toList.length > sqlStmtMaxLen
    rw [hset.offset]
    exact hwhere.2
  refine ⟨b, hset, ?_⟩
  rw [hbuilt, Buf.check, if_pos hlong]
  rfl

theorem updateStmt_overruns {obj : Object table} (hwhere : WhereOverruns obj) :
    ¬ (updateStmt obj).buffer.InBounds := by
  obtain ⟨b, hset, hbuilt⟩ := updateStmt_of_overruns hwhere
  have hmem : ((b.offset : ℤ), 7) ∈
      (b.snprintf (sqlStmtMaxLen + 1) " WHERE".toList).writes :=
    List.mem_append_right _ (List.mem_singleton_self _)
  rw [hbuilt]
  intro hbounds
  have hend := (hbounds _ hmem).2
  rw [hset.offset] at hend
  have hroom := hwhere.2
  dsimp only at hend
  omega

/-- What has been built is the whole text. -/
theorem Build.Outcome.of_ok {built : Build} {overflows : Prop} {text : Text}
    (h : built.Outcome overflows text) {b : Buf} (hb : built = .ok b) :
    b.text = text ∧ text.length ≤ sqlStmtMaxLen := by
  subst hb
  cases h with
  | ok htext hlength => exact ⟨htext, hlength⟩

theorem saveStmt_ok {obj : Object table} {insertOrReplace : Text} {b : Buf}
    (h : saveStmt obj insertOrReplace = .ok b) :
    b.text = saveText obj insertOrReplace ∧
      (saveText obj insertOrReplace).length ≤ sqlStmtMaxLen :=
  (saveStmt_outcome obj insertOrReplace).of_ok h

theorem deleteStmt_ok {obj : Object table} {b : Buf} (h : deleteStmt obj = .ok b) :
    b.text = deleteText obj ∧ (deleteText obj).length ≤ sqlStmtMaxLen :=
  (deleteStmt_outcome obj).of_ok h

theorem updateStmt_ok {obj : Object table} {b : Buf} (h : updateStmt obj = .ok b) :
    b.text = updateText obj ∧ (updateText obj).length ≤ sqlStmtMaxLen := by
  by_cases hwhere : WhereOverruns obj
  · obtain ⟨b', -, hbuilt⟩ := updateStmt_of_overruns hwhere
    rw [hbuilt] at h
    cases h
  · exact (updateStmt_outcome hwhere).of_ok h

theorem Build.Outcome.pieces {built : Build} {pieces : List Text}
    (hbuilt : built = Buf.empty.appendAll pieces) :
    built.Outcome (Overflows 0 pieces) pieces.flatten := by
  have hbind : built = Buf.empty.appendAll pieces >>= fun b => .ok b := by
    rw [hbuilt]
    exact (bind_pure _).symm
  rw [hbind, ← or_false (Overflows 0 pieces)]
  apply Outcome.appendAll Buf.holds_empty Buf.inBounds_empty length_nil_le pieces
  · exact False.elim
  intro b h hb hlen
  exact .ok h.text hlen hb not_false

theorem deleteByStmt_outcome (table : TableDescriptor) (filter : Option Text) :
    (deleteByStmt table filter).Outcome (Overflows 0 (deleteByPieces table filter))
      (deleteByPieces table filter).flatten := by
  apply Build.Outcome.pieces
  cases filter with
  | none => rfl
  | some filter =>
      unfold deleteByStmt deleteByPieces
      simp only [Option.map_some, Option.toList_some, Buf.appendAll]
      congr 1
      funext b
      exact (bind_pure _).symm

theorem SelectTables.stmt_outcome (t : SelectTables) (columnsName : Text) (filter : Option Text)
    (hjoin : ∀ code, t.join ≠ .unknown code) :
    (t.stmt columnsName filter).Outcome (Overflows 0 (t.pieces columnsName filter))
      (t.pieces columnsName filter).flatten := by
  apply Build.Outcome.pieces
  have hfilter : ∀ b, constructFilterStmt b filter =
      b.appendAll (filter.map fun filter => " WHERE ".toList ++ filter).toList := by
    intro b
    cases filter with
    | none => rfl
    | some filter => exact (bind_pure _).symm
  have hjoin' : ∀ b name, constructJoinStmt b t.join name t.tablesColumnName.1
      t.tablesColumnName.2 = b.append (' ' :: joinText t.join ++ ' ' :: name ++ " ON ".toList ++
        t.tablesColumnName.1 ++ '=' :: t.tablesColumnName.2) := by
    intro b name
    unfold constructJoinStmt joinText
    cases hj : t.join with
    | innerJoin => rfl
    | leftJoin => rfl
    | unknown code => exact absurd hj (hjoin code)
  unfold SelectTables.stmt SelectTables.pieces
  dsimp only
  rw [List.append_assoc, List.singleton_append, Buf.appendAll]
  congr 1
  funext b
  rcases t.tablesDesc with _ | ⟨table1, _ | ⟨table2, tables⟩⟩
  · exact hfilter b
  · exact hfilter b
  · dsimp only
    rw [List.singleton_append, Buf.appendAll, hjoin']
    congr 1
    funext b
    exact hfilter b

theorem createColumns_eq {columns : List ColumnDescriptor}
    (htypes : ∀ column ∈ columns, ∀ code, column.type ≠ .unknown code) (b : Buf) :
    createColumns columns b = b.appendAll (createColumnPieces columns) := by
  induction columns generalizing b with
  | nil => rfl
  | cons column columns ih =>
      have hrest := ih fun column' h => htypes column' (List.mem_cons_of_mem _ h)
      obtain ⟨type, htype⟩ : ∃ type, sormTypeDbStr column.type = some type := by
        cases hc : column.type with
        | unknown code => exact absurd hc (htypes column List.mem_cons_self code)
        | _ => exact ⟨_, rfl⟩
      have hpieces : createColumnPieces (column :: columns) =
          (' ' :: column.name ++ ' ' :: type) :: createConstraintStr column.constraint ::
            createColumnPieces columns := by
        rw [createColumnPieces, List.flatMap_cons, htype]
        rfl
      rw [hpieces, createColumns, Buf.appendAll, htype]
      dsimp only
      congr 1
      funext b
      rw [Buf.appendAll]
      congr 1
      funext b
      exact hrest b

theorem createTableStmt_eq {conn : Connection} {table : TableDescriptor}
    (htypes : ∀ column ∈ table.columns, ∀ code, column.type ≠ .unknown code) :
    createTableStmt conn table = (do
      let b ← Buf.empty.append (createTableHead table)
      let b ← b.appendAll (createColumnPieces table.columns)
      let b ← b.appendAll (foreignKeyPieces conn table)
      (b.put ((b.offset : ℤ) - 1) ')').appendAll (indexPieces table)) := by
  unfold createTableStmt
  congr 1
  funext b
  rw [createColumns_eq htypes]
  congr 1
  funext b
  dsimp only
  simp only [Buf.appendEach_eq]
  unfold foreignKeyPieces
  split
  · rfl
  · rfl

theorem createTableHead_ne_nil (table : TableDescriptor) : createTableHead table ≠ [] :=
  List.append_ne_nil_of_right_ne_nil _ (by decide)

theorem createTableStmt_outcome {conn : Connection} {table : TableDescriptor}
    (htypes : ∀ column ∈ table.columns, ∀ code, column.type ≠ .unknown code) :
    (createTableStmt conn table).Outcome (Overflows 0 (createTablePieces conn table))
      (createTableText conn table) := by
  set definitions := createTableHead table ++ (createColumnPieces table.columns).flatten ++
    (foreignKeyPieces conn table).flatten with hdefinitions
  have hdefinitions0 : definitions ≠ [] :=
    List.append_ne_nil_of_left_ne_nil
      (List.append_ne_nil_of_left_ne_nil (createTableHead_ne_nil table) _) _
  have hlast := length_replaceLast (c := ')') hdefinitions0
  have hlength : (replaceLast ')' definitions).length = (createTableHead table).length +
      (createColumnPieces table.columns).flatten.length +
      (foreignKeyPieces conn table).flatten.length := by
    rw [hlast, hdefinitions, List.length_append, List.length_append]
  have hsplit : Overflows 0 (createTablePieces conn table) ↔
      Overflows 0 [createTableHead table] ∨
        (Overflows (createTableHead table).length (createColumnPieces table.columns) ∨
          (Overflows (createTableHead table ++ (createColumnPieces table.columns).flatten).length
              (foreignKeyPieces conn table) ∨
            (Overflows (replaceLast ')' definitions).length (indexPieces table) ∨ False))) := by
    rw [createTablePieces, overflows_append, overflows_append, overflows_append]
    simp only [or_assoc, or_false, List.flatten_append, List.flatten_singleton,
      List.length_append, Nat.zero_add, hlength]
  rw [hsplit, createTableStmt_eq htypes]
  apply Outcome.append Buf.holds_empty Buf.inBounds_empty length_nil_le (createTableHead table)
  · rw [List.nil_append]
    rintro (hcolumns | hkeys | hindexes | hfalse)
    · exact hcolumns.offset_le
    · have hle := hkeys.offset_le
      rw [List.length_append] at hle
      omega
    · have hle := hindexes.offset_le
      omega
    · exact hfalse.elim
  intro b h hb hlen
  rw [List.nil_append] at h hlen
  apply Outcome.appendAll h hb hlen
  · rintro (hkeys | hindexes | hfalse)
    · exact hkeys.offset_le
    · have hle := hindexes.offset_le
      rw [List.length_append]
      omega
    · exact hfalse.elim
  intro b h hb hlen
  apply Outcome.appendAll h hb hlen
  · rintro (hindexes | hfalse)
    · have hle := hindexes.offset_le
      rw [List.length_append, List.length_append]
      omega
    · exact hfalse.elim
  rw [← hdefinitions]
  intro b h hb hlen
  have hpos := List.length_pos_iff.mpr hdefinitions0
  have hput : (b.put ((b.offset : ℤ) - 1) ')').InBounds := by
    apply hb.put
    · rw [h.offset]
      omega
    · rw [h.offset]
      omega
  rw [← hlast] at hlen
  rw [← bind_pure (Buf.appendAll _ _)]
  apply Outcome.appendAll (h.put_last hdefinitions0 (by decide)) hput hlen
  · exact False.elim
  intro b h hb hlen
  exact .ok h.text hlen hb not_false

end Sorm
