import Sorm.StatementBuffers

/-!
# Statement buffers are not left and statements not cut off

A call that builds its statement in a local buffer writes only inside of it, and either returns
`SORM_TOO_LONG` or prepares the complete statement, exactly when it meets `Building.Fits`: no name
or filter is so long that the offset overflows, the `" WHERE"` of an update does not meet the end
of the buffer, and a `create_sql` is not longer than the byte count given to `sqlite3_prepare`.
-/

namespace Sorm

open Interaction Monitor

inductive SelectKind
  | someArray
  | someList
  | allList (rounds : ℕ)
deriving DecidableEq, Repr

inductive Building : Type 1
  | save {table : TableDescriptor} (obj : Object table) (insertOrReplace : Text)
      (hvalue : checkHasValue obj)
  | delete {table : TableDescriptor} (obj : Object table) (hvalue : checkHasValue obj)
  | update {table : TableDescriptor} (obj : Object table) (hvalue : checkHasValue obj)
  | deleteBy (table : TableDescriptor) (filter : Option Text)
  | createTable (table : TableDescriptor)
      (htypes : ∀ column ∈ table.columns, ∀ code, column.type ≠ .unknown code)
  | select (kind : SelectKind) (allocator : Allocator) (columnsName : CString)
      (tables : SelectTables) (hjoin : ∀ code, tables.join ≠ .unknown code)
      (isTablesSelect : List Bool) (filter : Option CString) (maxRowsNum : ℤ)

namespace Building

/-- What is built in the buffer; `sorm_create_table` builds nothing when there is a `create_sql`. -/
def built (conn : Connection) : Building → Build
  | .save obj insertOrReplace _ => saveStmt obj insertOrReplace
  | .delete obj _ => deleteStmt obj
  | .update obj _ => updateStmt obj
  | .deleteBy table filter => deleteByStmt table filter
  | .createTable table _ =>
      match table.createSql with
      | none => createTableStmt conn table
      | some _ => .ok Buf.empty
  | .select _ _ columnsName tables _ _ filter _ =>
      tables.stmt columnsName.chars (filter.map CString.chars)

def selectProg (conn : Connection) (allocator : Allocator) (columnsName : CString)
    (tables : SelectTables) (isTablesSelect : List Bool) (filter : Option CString)
    (maxRowsNum : ℤ) : SelectKind → Act SormError
  | .someArray => do
      let selected ← selectPrepared selectSomeArrayCore conn allocator columnsName tables
        isTablesSelect filter maxRowsNum
      return selected.code
  | .someList => do
      let selected ← selectPrepared selectSomeListCore conn allocator columnsName tables
        isTablesSelect filter maxRowsNum
      return selected.code
  | .allList rounds => do
      let selected ← selectPrepared (selectAllListCore rounds) conn allocator columnsName tables
        isTablesSelect filter maxRowsNum
      return selected.code

def prog (conn : Connection) : Building → Act SormError
  | .save obj insertOrReplace _ => do
      let (ret, _) ← Sorm.save (some conn) (some obj) insertOrReplace
      return ret
  | .delete obj _ => sormDelete (some conn) (some obj)
  | .update obj _ => sormUpdate (some conn) (some obj)
  | .deleteBy table filter => sormDeleteBy (some conn) (some table) filter
  | .createTable table _ => sormCreateTable (some conn) (some table)
  | .select kind allocator columnsName tables _ isTablesSelect filter maxRowsNum =>
      selectProg conn allocator columnsName tables isTablesSelect filter maxRowsNum kind

def text (conn : Connection) : Building → Text
  | .save obj insertOrReplace _ => saveText obj insertOrReplace
  | .delete obj _ => deleteText obj
  | .update obj _ => updateText obj
  | .deleteBy table filter => (deleteByPieces table filter).flatten
  | .createTable table _ =>
      match table.createSql with
      | none => createTableText conn table
      | some createSql => createSql
  | .select _ _ columnsName tables _ _ filter _ =>
      (tables.pieces columnsName.chars (filter.map CString.chars)).flatten

/-- The lengths with which a call keeps to its buffer. -/
def Fits (conn : Connection) : Building → Prop
  | .save obj insertOrReplace _ => ¬ Overflows 0 (savePieces obj insertOrReplace)
  | @Building.delete table obj _ => ¬ Overflows 0 (deleteHead table :: deleteTerms obj)
  | .update obj _ => ¬ WhereOverruns obj ∧ ¬ UpdateOverflows obj
  | .deleteBy table filter => ¬ Overflows 0 (deleteByPieces table filter)
  | .createTable table _ =>
      match table.createSql with
      | none => ¬ Overflows 0 (createTablePieces conn table)
      | some createSql => createSql.length ≤ sqlStmtMaxLen
  | .select _ _ columnsName tables _ _ filter _ =>
      ¬ Overflows 0 (tables.pieces columnsName.chars (filter.map CString.chars))

end Building

/-- The call returns `SORM_TOO_LONG` at once, or begins with `sqlite3_prepare` and never hands it
anything but `text`. -/
def TooLongOrComplete (p : Act SormError) (text : Text) : Prop :=
  p = .pure .tooLong ∨
    ((∃ sqlStmt n k, p = .call (.prepare sqlStmt n) k) ∧
      ∀ tr q, p.Emits tr q → ∀ sqlStmt n r, (⟨.prepare sqlStmt n, r⟩ : SormEvent) ∈ tr →
        sqlStmt.take n = text)

structure BufferSafe (conn : Connection) (c : Building) : Prop where
  inBounds : (c.built conn).buffer.InBounds
  complete : TooLongOrComplete (c.prog conn) (c.text conn)

structure Runs (built : Build) (p : Act SormError) : Prop where
  fails : ∀ e b, built = .error (e, b) → p = e.act
  prepares : ∀ b, built = .ok b → ∃ k, p = .call (.prepare b.text sqlStmtMaxLen) k
  only : ∀ b, built = .ok b → Keeps (prepareMonitor (· = b.text)) (fun _ => True) p

theorem Runs.complete_iff {built : Build} {p : Act SormError} {overflows : Prop} {text : Text}
    (h : Runs built p) (hbuilt : built.Outcome overflows text) :
    built.buffer.InBounds ∧ (TooLongOrComplete p text ↔ ¬ overflows) := by
  cases hbuilt with
  | @ok b htext hlength hbounds hno =>
      obtain ⟨k, hk⟩ := h.prepares b rfl
      refine ⟨hbounds, iff_of_true (Or.inr ⟨⟨_, _, k, hk⟩, ?_⟩) hno⟩
      intro tr q he sqlStmt n r hr
      obtain ⟨rfl, rfl⟩ := prepared_of_emits (h.only b rfl) he hr
      rw [htext]
      exact List.take_of_length_le hlength
  | @tooLong b hbounds hno =>
      exact ⟨hbounds, iff_of_true (Or.inl (h.fails _ b rfl)) hno⟩
  | @overflow b hbounds hover =>
      refine ⟨hbounds, iff_of_false ?_ (not_not_intro hover)⟩
      rw [h.fails _ b rfl]
      intro hc
      rcases hc with hret | ⟨⟨sqlStmt, n, k, hcall⟩, _⟩
      · cases hret
      · cases hcall

variable {table : TableDescriptor}

section Calls

variable (conn : Connection)

theorem save_runs (obj : Object table) (insertOrReplace : Text) (hvalue : checkHasValue obj) :
    Runs (saveStmt obj insertOrReplace) (do
      let (ret, _) ← save (some conn) (some obj) insertOrReplace
      return ret) := by
  constructor
  · intro e b hb
    unfold save
    dsimp only
    rw [if_pos hvalue, hb]
    rcases e with code | why <;> rfl
  · intro b hb
    unfold save
    dsimp only
    rw [if_pos hvalue, hb]
    exact ⟨_, rfl⟩
  · intro b hb
    apply Keeps.bind
    · refine @WriteDiscipline.save_of_drop _ _ _ _ 0 _ _ (prepare_discipline _ conn).writing (fun h => h)
        (some obj) insertOrReplace ?_
      intro obj' b' hobj hb'
      cases hobj
      cases hb.symm.trans hb'
      rfl
    · exact fun _ => Keeps.pure

theorem sormDelete_runs (obj : Object table) (hvalue : checkHasValue obj) :
    Runs (deleteStmt obj) (sormDelete (some conn) (some obj)) := by
  constructor
  · intro e b hb
    unfold sormDelete
    dsimp only
    rw [if_pos hvalue, hb]
  · intro b hb
    unfold sormDelete
    dsimp only
    rw [if_pos hvalue, hb]
    exact ⟨_, rfl⟩
  · intro b hb
    refine @WriteDiscipline.sormDelete_of_drop _ _ _ _ 0 _ _ (prepare_discipline _ conn).writing (fun h => h)
      (some obj) ?_
    intro obj' b' hobj hb'
    cases hobj
    cases hb.symm.trans hb'
    rfl

theorem sormUpdate_runs (obj : Object table) (hvalue : checkHasValue obj) :
    Runs (updateStmt obj) (sormUpdate (some conn) (some obj)) := by
  constructor
  · intro e b hb
    unfold sormUpdate
    dsimp only
    rw [if_pos hvalue, hb]
  · intro b hb
    unfold sormUpdate
    dsimp only
    rw [if_pos hvalue, hb]
    exact ⟨_, rfl⟩
  · intro b hb
    refine @WriteDiscipline.sormUpdate_of_drop _ _ _ _ 0 _ _ (prepare_discipline _ conn).writing (fun h => h)
      (some obj) ?_
    intro obj' b' hobj hb'
    cases hobj
    cases hb.symm.trans hb'
    rfl

theorem runBuilt_runs (built : Build) : Runs built (runBuilt conn built) := by
  constructor
  · rintro e b rfl
    rfl
  · rintro b rfl
    exact ⟨_, rfl⟩
  · rintro b rfl
    exact @Discipline.runPrepared _ _ _ _ _ 0 (prepare_discipline (· = b.text) conn) _ rfl .write

theorem select_runs {ρ : Type} {selectCore : SelectCore ρ}
    (hcore : ∀ {Prepares : Text → Prop} {h : Option Handle} allocator tables maxRowsNum,
      Keeps (prepareMonitor Prepares) (fun _ => True)
        (selectCore conn allocator h tables maxRowsNum))
    (allocator : Allocator) (columnsName : CString) (tables : SelectTables)
    (isTablesSelect : List Bool) (filter : Option CString) (maxRowsNum : ℤ) :
    Runs (tables.stmt columnsName.chars (filter.map CString.chars)) (do
      let selected ← selectPrepared selectCore conn allocator columnsName tables isTablesSelect
        filter maxRowsNum
      return selected.code) := by
  constructor
  · intro e b hb
    unfold selectPrepared
    dsimp only
    rw [hb]
    rcases e with code | why <;> rfl
  · intro b hb
    unfold selectPrepared
    dsimp only
    rw [hb]
    exact ⟨_, rfl⟩
  · intro b hb
    apply Keeps.bind
    · refine @Discipline.selectPrepared _ _ _ _ _ 0 _ (prepare_discipline _ conn) _ ?_ allocator
        columnsName tables isTablesSelect filter maxRowsNum ?_
      · exact fun allocator tables maxRowsNum _ => hcore allocator tables maxRowsNum
      · intro b' hb'
        cases hb.symm.trans hb'
        rfl
    · exact fun _ => Keeps.pure

theorem Building.selectProg_runs (kind : SelectKind) (allocator : Allocator)
    (columnsName : CString) (tables : SelectTables) (isTablesSelect : List Bool)
    (filter : Option CString) (maxRowsNum : ℤ) :
    Runs (tables.stmt columnsName.chars (filter.map CString.chars))
      (selectProg conn allocator columnsName tables isTablesSelect filter maxRowsNum kind) := by
  cases kind with
  | someArray =>
      apply select_runs
      intro Prepares h allocator tables maxRowsNum
      exact (prepare_discipline Prepares conn).selectSomeArrayCore allocator tables maxRowsNum
        (Multiset.mem_singleton_self h)
  | someList =>
      apply select_runs
      intro Prepares h allocator tables maxRowsNum
      exact (prepare_discipline Prepares conn).selectSomeListCore allocator tables maxRowsNum
        (Multiset.mem_singleton_self h)
  | allList rounds =>
      apply select_runs
      intro Prepares h allocator tables maxRowsNum
      exact (prepare_discipline Prepares conn).selectAllListCore rounds allocator tables maxRowsNum
        (Multiset.mem_singleton_self h)

theorem createSql_complete_iff (createSql : Text) :
    TooLongOrComplete (runPrepared conn createSql .write) createSql ↔
      createSql.length ≤ sqlStmtMaxLen := by
  constructor
  · intro hc
    rcases hc with hret | ⟨_, honly⟩
    · cases hret
    · have htake := honly [⟨.prepare createSql sqlStmtMaxLen, (.ok, none)⟩] _ (.cons _ _ _ (.nil _))
        createSql sqlStmtMaxLen _ (List.mem_singleton_self _)
      have hlen := List.length_take_le sqlStmtMaxLen createSql
      rwa [htake] at hlen
  · intro hlen
    refine Or.inr ⟨⟨_, _, _, rfl⟩, ?_⟩
    intro tr q he sqlStmt n r hr
    have hkeeps := @Discipline.runPrepared _ _ _ _ _ 0 (prepare_discipline (· = createSql) conn) _
      rfl .write
    obtain ⟨rfl, rfl⟩ := prepared_of_emits hkeeps he hr
    exact List.take_of_length_le hlen

end Calls

theorem bufferSafe_of_outcome {conn : Connection} {c : Building} {overflows : Prop}
    (hruns : Runs (c.built conn) (c.prog conn))
    (hbuilt : (c.built conn).Outcome overflows (c.text conn)) :
    BufferSafe conn c ↔ ¬ overflows := by
  obtain ⟨hbounds, hiff⟩ := hruns.complete_iff hbuilt
  rw [← hiff]
  exact ⟨BufferSafe.complete, fun hc => ⟨hbounds, hc⟩⟩

/-- The buffer is kept and the statement complete exactly when the lengths fit. -/
theorem bufferSafe_iff (conn : Connection) (c : Building) :
    BufferSafe conn c ↔ c.Fits conn := by
  cases c with
  | save obj insertOrReplace hvalue =>
      exact bufferSafe_of_outcome (save_runs conn obj insertOrReplace hvalue)
        (saveStmt_outcome obj insertOrReplace)
  | delete obj hvalue =>
      exact bufferSafe_of_outcome (sormDelete_runs conn obj hvalue) (deleteStmt_outcome obj)
  | update obj hvalue =>
      by_cases hwhere : WhereOverruns obj
      · refine iff_of_false ?_ fun hfits => hfits.1 hwhere
        exact fun hsafe => updateStmt_overruns hwhere hsafe.inBounds
      · have hsafe := bufferSafe_of_outcome (c := .update obj hvalue)
          (sormUpdate_runs conn obj hvalue) (updateStmt_outcome hwhere)
        exact hsafe.trans ⟨fun h => ⟨hwhere, h⟩, And.right⟩
  | deleteBy table filter =>
      exact bufferSafe_of_outcome (runBuilt_runs conn _) (deleteByStmt_outcome table filter)
  | createTable table htypes =>
      cases hsql : table.createSql with
      | none =>
          have hbuilt : (Building.createTable table htypes).built conn =
              createTableStmt conn table := by
            simp only [Building.built, hsql]
          have hprog : (Building.createTable table htypes).prog conn =
              runBuilt conn (createTableStmt conn table) := by
            simp only [Building.prog, sormCreateTable, hsql]
          have htext : (Building.createTable table htypes).text conn =
              createTableText conn table := by
            simp only [Building.text, hsql]
          have hfits : (Building.createTable table htypes).Fits conn ↔
              ¬ Overflows 0 (createTablePieces conn table) := by
            simp only [Building.Fits, hsql]
          rw [hfits]
          apply bufferSafe_of_outcome
          · rw [hbuilt, hprog]
            exact runBuilt_runs conn _
          · rw [hbuilt, htext]
            exact createTableStmt_outcome htypes
      | some createSql =>
          have hbuilt : (Building.createTable table htypes).built conn = .ok Buf.empty := by
            simp only [Building.built, hsql]
          have hprog : (Building.createTable table htypes).prog conn =
              runPrepared conn createSql .write := by
            simp only [Building.prog, sormCreateTable, hsql]
          have htext : (Building.createTable table htypes).text conn = createSql := by
            simp only [Building.text, hsql]
          have hfits : (Building.createTable table htypes).Fits conn ↔
              createSql.length ≤ sqlStmtMaxLen := by
            simp only [Building.Fits, hsql]
          rw [hfits, ← createSql_complete_iff conn createSql, ← hprog]
          constructor
          · intro hsafe
            have hc := hsafe.complete
            rwa [htext] at hc
          · intro hc
            constructor
            · rw [hbuilt]
              exact Buf.inBounds_empty
            · rwa [htext]
  | select kind allocator columnsName tables hjoin isTablesSelect filter maxRowsNum =>
      exact bufferSafe_of_outcome (Building.selectProg_runs conn kind allocator columnsName tables
        isTablesSelect filter maxRowsNum) (tables.stmt_outcome _ _ hjoin)

def longNameTable (n : ℕ) : TableDescriptor where
  name := ['t']
  size := 16
  columns := [⟨List.replicate n 'a', .int, .unique, .none, 0, false, [], []⟩]
  pkIndex := none
  createSql := none

def longNameRow (n : ℕ) : Object (longNameTable n) :=
  ⟨fun _ => { Slot.zero with stat := sormStatValued }⟩

theorem longNameRow_valued (n : ℕ) (i : (longNameTable n).Index) : (longNameRow n).valued i = true :=
  (by decide : sormIsStatValued sormStatValued = true)

theorem length_updateSetText_longNameRow (n : ℕ) :
    (updateSetText (longNameRow n)).length = n + 15 := by
  have hsets : updateSets (longNameRow n) = [' ' :: List.replicate n 'a' ++ "=?,".toList] := by
    rw [updateSets, Object.valuedColumns, List.filter_eq_self.mpr fun i _ => longNameRow_valued n i]
    rfl
  have hhead : updateHead (longNameTable n) = "UPDATE t SET".toList := rfl
  rw [updateSetText, cutLast, hsets, hhead, List.flatten_singleton, List.length_take]
  simp only [List.length_append, List.length_cons, List.length_replicate, String.reduceToList,
    List.length_nil]
  omega

theorem not_bufferSafe : ¬ ∀ (conn : Connection) (c : Building), BufferSafe conn c := by
  intro h
  have hwhere : WhereOverruns (longNameRow 1003) := by
    unfold WhereOverruns
    rw [length_updateSetText_longNameRow]
    decide
  have hvalue : checkHasValue (longNameRow 1003) :=
    List.any_eq_true.mpr ⟨⟨0, Nat.one_pos⟩, List.mem_finRange _, longNameRow_valued 1003 _⟩
  exact updateStmt_overruns hwhere (h ⟨0, 0, 0⟩ (.update (longNameRow 1003) hvalue)).inBounds

end Sorm
