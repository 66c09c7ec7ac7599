import Sorm.Statements

/-!
# Statements left behind

Every operation but opening an iterator finalizes what it prepares, with two exceptions:
`sorm_delete` and `sorm_update` return from a step that is not DONE without a finalize, and
`sorm_insert` and `sorm_replace` do so when the primary key cannot be set. What is left behind
keeps `sorm_close` in its loop.
-/

namespace Sorm

open Interaction Monitor

abbrev sqlite : Monitor Resp Statements := statementMonitor fun _ _ => True

/-- The live statements are those held, and `left`. -/
def LiveExactly (left : Multiset Handle) (hs : Multiset (Option Handle)) (s : Statements) : Prop :=
  s.live.val = left + heldHandles hs

variable {left : Multiset Handle} {hs : Multiset (Option Handle)}

theorem LiveExactly.prepare {s : Statements} {h : Handle} (hlive : LiveExactly left hs s)
    (hnew : h ∉ s.prepared) : LiveExactly left (some h ::ₘ hs) (s.prepare h) := by
  have hdead : h ∉ s.live := fun hl => hnew (s.live_sub hl)
  change (insert h s.live).val = _
  rw [heldHandles_cons_some, Multiset.add_cons, ← hlive]
  exact Finset.insert_val_of_notMem hdead

theorem LiveExactly.none {s : Statements} :
    LiveExactly left (none ::ₘ hs) s ↔ LiveExactly left hs s := by
  unfold LiveExactly
  rw [heldHandles_cons_none]

theorem LiveExactly.finalize {s : Statements} {h : Handle}
    (hlive : LiveExactly left (some h ::ₘ hs) s) : LiveExactly left hs (s.finalize (some h)) := by
  unfold LiveExactly at hlive
  rw [heldHandles_cons_some, Multiset.add_cons] at hlive
  change (s.live.erase h).val = _
  rw [Finset.erase_val, hlive]
  exact Multiset.erase_cons_head h _

theorem liveExactly_finalize (h : Option Handle) :
    Triple sqlite (LiveExactly left (h ::ₘ hs)) (sqlite3Finalize h) fun _ => LiveExactly left hs := by
  cases h with
  | none =>
      have hnone : Keeps sqlite (LiveExactly left hs) (sqlite3Finalize none) := by
        apply Keeps.retry
        apply Triple.perform
        · exact fun s hs => trivial
        · intro s r s' hs hanswer
          obtain rfl : s' = s := hanswer
          exact hs
      exact hnone.mono (fun s hs => LiveExactly.none.mp hs) fun _ _ hs => hs
  | some h =>
      -- a finalize that is repeated finds its statement gone
      have hretry : Triple sqlite
          (fun s => LiveExactly left (some h ::ₘ hs) s ∨ (LiveExactly left hs s ∧ h ∉ s.live))
          (sqlite3Finalize (some h)) fun _ => LiveExactly left hs := by
        apply Triple.retry
        apply Triple.perform
        · exact fun s hs => trivial
        · intro s r s' hstate hanswer
          obtain rfl : s' = s.finalize (some h) := hanswer
          have hgone : h ∉ (s.finalize (some h)).live := Finset.notMem_erase h s.live
          have hlive : LiveExactly left hs (s.finalize (some h)) := by
            rcases hstate with hlive | ⟨hlive, hdead⟩
            · exact hlive.finalize
            · change (s.live.erase h).val = _
              rw [Finset.erase_eq_of_notMem hdead]
              exact hlive
          split
          · exact ⟨Or.inr ⟨hlive, hgone⟩, hlive⟩
          · exact hlive
      exact hretry.mono (fun s hs => Or.inl hs) fun _ _ hs => hs

theorem liveExactly_handling (left : Multiset Handle) :
    StatementHandling sqlite (LiveExactly left) where
  isLocal := fun hc => keeps_of_leaves (Call.leaves_of_isLocal hc) fun _ _ => trivial
  use := fun hc _ => keeps_of_leaves (Call.leaves_of_usedStmt hc) fun _ _ => trivial
  rowId := fun hc => keeps_of_leaves (Call.leaves_of_isRowId hc) fun _ _ => trivial
  step := fun _ => keeps_of_leaves rfl fun _ _ => trivial
  lock := fun hc => keeps_of_leaves (Call.leaves_of_isLock hc) fun _ _ => trivial
  unlock := fun hc => keeps_of_leaves (Call.leaves_of_isUnlock hc) fun _ _ => trivial
  finalize := liveExactly_finalize _
  prepare := by
    intro hs sqlStmt _
    apply Triple.perform
    · exact fun s hs => trivial
    · intro s r s' hs hanswer
      rcases Statements.answers_prepare hanswer with ⟨h, rfl, hnew, rfl⟩ | ⟨hr, rfl⟩
      · exact hs.prepare hnew
      · obtain ⟨code, stmt⟩ := r
        by_cases hcode : code = .ok
        · subst hcode
          cases stmt with
          | none => exact LiveExactly.none.mpr hs
          | some h => exact absurd rfl (hr h)
        · simpa only [hcode, if_false] using hs

def stepAnswer : SormEvent → Option DbCode
  | ⟨.step _, ret⟩ => some ret
  | _ => none

def lastStep (tr : List SormEvent) : Option DbCode :=
  tr.foldl (fun last e => (stepAnswer e).or last) none

@[simp] theorem lastStep_nil : lastStep [] = none := rfl

@[simp] theorem lastStep_append_singleton (tr : List SormEvent) (e : SormEvent) :
    lastStep (tr ++ [e]) = (stepAnswer e).or (lastStep tr) := by
  simp [lastStep, List.foldl_append]

def KeyFails {table : TableDescriptor} (obj : Object table) (tr : List SormEvent) : Prop :=
  ∃ pkIndex rowId above ret obj', table.pkIndex = some pkIndex ∧
    (⟨.lastInsertRowid, rowId⟩ : SormEvent) ∈ tr ∧ (⟨.uninitialised, above⟩ : SormEvent) ∈ tr ∧
    obj.setColumnValue pkIndex (rowIdPointer (rowId.truncate 32) above) 0 = .ok (ret, obj') ∧
    ret ≠ .ok

/-- An operation that returns without finalizing its statement, by what it has called. -/
def Op.Leaks : Op → List SormEvent → Prop
  | .update _, tr | .delete _, tr => ∃ ret, lastStep tr = some ret ∧ ret ≠ .done
  | .insert row, tr | .replace row, tr => ∃ obj, row = some obj ∧ KeyFails obj tr
  | _, _ => False

def NoRowId (tr : List SormEvent) : Prop := ∀ e ∈ tr, e.1.isRowId = false

theorem NoRowId.not_keyFails {table : TableDescriptor} {obj : Object table} {tr : List SormEvent}
    (h : NoRowId tr) : ¬ KeyFails obj tr := by
  rintro ⟨pkIndex, rowId, above, ret, obj', -, hrowId, -⟩
  have hfalse : true = false := h _ hrowId
  cases hfalse

section Logged

theorem keeps_log (X : List SormEvent → Prop) {c : Call} (hX : ∀ log r, X log → X (log ++ [⟨c, r⟩])) :
    Keeps sqlite.logged (fun s => X s.2) (perform c) := by
  apply Triple.perform
  · exact fun s hs => trivial
  · rintro s r s' hs ⟨-, hlog⟩
    rw [hlog]
    exact hX s.2 r hs

/-- A fact about the log that only steps and row ids can change goes with the handling. -/
theorem logged_handling (left : Multiset Handle) (X : List SormEvent → Prop)
    (hX : ∀ log (e : SormEvent), stepAnswer e = none → e.1.isRowId = false → X log →
      X (log ++ [e])) :
    Handling sqlite.logged AnyText fun hs s => LiveExactly left hs s.1 ∧ X s.2 where
  isLocal := by
    intro hs c hc
    apply ((liveExactly_handling left).isLocal hc).logged.and_lax (keeps_log X _)
    intro log r hlog
    cases c with
    | malloc | strdup | free => exact hX log _ rfl rfl hlog
    | _ => cases hc
  use := by
    intro hs c h hc hh
    apply ((liveExactly_handling left).use hc hh).logged.and_lax (keeps_log X _)
    intro log r hlog
    cases c with
    | bind | columnType | columnInt | columnInt64 | columnDouble | columnText | columnBlob
    | columnBytes => exact hX log _ rfl rfl hlog
    | _ => cases hc
  prepare := by
    intro hs sqlStmt _
    have hprepare : Triple sqlite (LiveExactly left hs) (perform (.prepare sqlStmt sqlStmtMaxLen))
        fun r s => if r.1 = .ok then LiveExactly left (r.2 ::ₘ hs) s else LiveExactly left hs s :=
      (liveExactly_handling left).prepare trivial
    have hlog : Keeps sqlite.logged (fun s => X s.2) (perform (.prepare sqlStmt sqlStmtMaxLen)) :=
      keeps_log X fun log r hlog => hX log ⟨_, r⟩ rfl rfl hlog
    apply (hprepare.logged.and_lax hlog).post
    intro r s hs
    split
    · next hr => exact ⟨by simpa only [hr, if_true] using hs.1, hs.2⟩
    · next hr => exact ⟨by simpa only [hr, if_false] using hs.1, hs.2⟩
  finalize := by
    intro hs h
    apply (liveExactly_finalize h).logged.and_lax (Keeps.retry _ (keeps_log X _))
    exact fun log r hlog => hX log _ rfl rfl hlog

end Logged

theorem step_logged (conn : Connection) (h : Option Handle) (rwFlag : RwlockFlag) :
    Triple sqlite.logged (fun _ => True) (sqlite3Step conn h rwFlag) fun ret s =>
      lastStep s.2 = some ret := by
  have hretry : Triple sqlite.logged (fun _ => True) (Prog.retry (fun ret : DbCode => ret == .busy)
      (perform (.step h)) (busyRetryTime - 1)) fun ret s => lastStep s.2 = some ret := by
    apply Triple.retry
    apply Triple.perform
    · exact fun s hs => trivial
    · rintro s ret s' - ⟨-, hlog⟩
      have hlast : lastStep s'.2 = some ret := by
        rw [hlog, lastStep_append_singleton]
        rfl
      split
      · exact ⟨trivial, hlast⟩
      · exact hlast
  by_cases h0 : conn.transactionNum = 0
  · rw [sqlite3Step_outside h0]
    have hlock : Keeps sqlite.logged (fun _ => True) (lock conn rwFlag) :=
      keeps_lock (fun c _ => keeps_log (fun _ => True) fun _ _ _ => trivial) conn rwFlag
    apply Triple.bind hlock
    intro _
    apply Triple.bind hretry
    intro ret
    have hunlock : Keeps sqlite.logged (fun s => lastStep s.2 = some ret) (unlock conn) := by
      apply keeps_unlock
      intro c hc
      apply keeps_log fun log => lastStep log = some ret
      intro log r hlog
      rw [lastStep_append_singleton, hlog]
      cases c with
      | semV | rwUnlock => rfl
      | _ => cases hc
    exact Triple.bind hunlock fun _ => Triple.pure fun s hs => hs
  · rw [sqlite3Step_inside h0]
    exact hretry

variable {table : TableDescriptor} {conn : Connection}

/-- `sorm_delete` and `sorm_update` leave their statement exactly when the step was not DONE. -/
theorem runBound_leaves {obj : Object table} (hvalue : checkHasValue obj) (sqlStmt : Text)
    (second : Option (table.Index → Bool)) :
    Triple sqlite.logged (fun s => LiveExactly left hs s.1 ∧ lastStep s.2 = none)
      (runBound conn obj sqlStmt second) fun _ s =>
        (LiveExactly left hs s.1 ∧ ∀ ret, lastStep s.2 = some ret → ret = .done) ∨
        (∃ ret, lastStep s.2 = some ret ∧ ret ≠ .done) ∧
          ∃ h, LiveExactly left (some h ::ₘ hs) s.1 := by
  have hhandling := logged_handling left (fun log => lastStep log = none)
    fun log e he _ hlog => by rw [lastStep_append_singleton, he, hlog]; rfl
  apply hhandling.runBound
    (fun h s => LiveExactly left (some h ::ₘ hs) s.1 ∧ lastStep s.2 = some .done) hvalue trivial
    second
  · intro s hs
    refine Or.inl ⟨hs.1, fun ret hret => ?_⟩
    rw [hs.2] at hret
    cases hret
  · intro h
    have hlive := ((liveExactly_handling left).discipline conn).step .write
      (Multiset.mem_cons_self (some h) hs)
    apply (hlive.logged.and_lax (step_logged conn (some h) .write)).mono
    · exact fun s hs => ⟨hs.1, trivial⟩
    · rintro ret s ⟨hs, hlast⟩
      split
      · next hret =>
          subst hret
          exact ⟨hs, hlast⟩
      · next hret => exact Or.inr ⟨⟨ret, hlast, hret⟩, h, hs⟩
  · intro h
    have hlast : Keeps sqlite.logged (fun s => lastStep s.2 = some .done)
        (sqlite3Finalize (some h)) := by
      apply Keeps.retry
      apply keeps_log fun log => lastStep log = some .done
      intro log r hlog
      rw [lastStep_append_singleton, hlog]
      rfl
    apply ((liveExactly_finalize (some h)).logged.and_lax hlast).post
    rintro _ s ⟨hs, hlast⟩
    refine Or.inl ⟨hs, fun ret hret => ?_⟩
    rw [hlast] at hret
    exact (Option.some.inj hret).symm

/-- What the two reads of the primary key leave in the log determines whether they fail. -/
theorem keyFails_iff {obj obj' : Object table} {pkIndex : table.Index} {ret : SormError}
    {rowId : BitVec 64} {above : Pointer} {log : List SormEvent}
    (hpk : table.pkIndex = some pkIndex) (hlog : NoRowId log)
    (hset : obj.setColumnValue pkIndex (rowIdPointer (rowId.truncate 32) above) 0 =
      .ok (ret, obj')) :
    KeyFails obj (log ++ [⟨.lastInsertRowid, rowId⟩, ⟨.uninitialised, above⟩]) ↔ ret ≠ .ok := by
  constructor
  · rintro ⟨pkIndex', rowId', above', ret', obj'', hpk', hrowId, habove, hset', hne⟩
    have hnot : ∀ e : SormEvent, e.1.isRowId = true → e ∉ log := by
      intro e he hmem
      rw [hlog e hmem] at he
      cases he
    obtain rfl : pkIndex' = pkIndex := Option.some.inj (hpk'.symm.trans hpk)
    obtain rfl : rowId' = rowId := by
      rcases List.mem_append.mp hrowId with hmem | hmem
      · exact absurd hmem (hnot _ rfl)
      · simpa using hmem
    obtain rfl : above' = above := by
      rcases List.mem_append.mp habove with hmem | hmem
      · exact absurd hmem (hnot _ rfl)
      · simpa using hmem
    rw [hset] at hset'
    cases hset'
    exact hne
  · intro hne
    exact ⟨pkIndex, rowId, above, ret, obj', hpk, by simp, by simp, hset, hne⟩

/-- The block that sets the primary key fails exactly when the row id it reads cannot be set. -/
theorem savePrimaryKey_leaves (obj : Object table) (hs : Multiset (Option Handle)) :
    Triple sqlite.logged (fun s => LiveExactly left hs s.1 ∧ NoRowId s.2) (savePrimaryKey obj)
      fun r s => LiveExactly left hs s.1 ∧ (KeyFails obj s.2 ↔ r.1 ≠ .ok) := by
  unfold savePrimaryKey
  cases hpk : table.pkIndex with
  | none =>
      refine Triple.pure fun s hs => ⟨hs.1, fun hfails => ?_, fun hne => absurd rfl hne⟩
      exact absurd hfails hs.2.not_keyFails
  | some pkIndex =>
      have hread : ∀ {c : Call} {log : List SormEvent}, c.leavesStatements →
          Triple sqlite.logged (fun s => LiveExactly left hs s.1 ∧ s.2 = log) (perform c)
            fun r s => LiveExactly left hs s.1 ∧ s.2 = log ++ [⟨c, r⟩] := by
        intro c log hc
        apply Triple.perform
        · exact fun s hs => trivial
        · rintro s r s' ⟨hlive, rfl⟩ ⟨hanswer, hlog⟩
          rw [Statements.answers_of_leaves hc hanswer]
          exact ⟨hlive, hlog⟩
      rintro ⟨s, log⟩ ⟨hlive, hlog⟩
      refine (Triple.bind (hread rfl) fun rowId => ?_) (s, log) ⟨hlive, rfl⟩
      apply Triple.bind (hread rfl)
      intro above
      apply Triple.ofExcept
      rintro ⟨ret, obj'⟩ s hset ⟨hlive, hs⟩
      refine ⟨hlive, ?_⟩
      rw [hs, List.append_assoc]
      exact keyFails_iff hpk hlog hset

theorem NoRowId.append {log : List SormEvent} {e : SormEvent} (h : NoRowId log)
    (he : e.1.isRowId = false) : NoRowId (log ++ [e]) := by
  intro e' he'
  rcases List.mem_append.mp he' with he' | he'
  · exact h e' he'
  · rw [List.mem_singleton.mp he']
    exact he

theorem KeyFails.of_append {obj : Object table} {log : List SormEvent} {e : SormEvent}
    (he : e.1.isRowId = false) (h : KeyFails obj (log ++ [e])) : KeyFails obj log := by
  obtain ⟨pkIndex, rowId, above, ret, obj', hpk, hrowId, habove, hset⟩ := h
  have hmem : ∀ e' : SormEvent, e'.1.isRowId = true → e' ∈ log ++ [e] → e' ∈ log := by
    intro e' he' hmem
    rcases List.mem_append.mp hmem with hmem | hmem
    · exact hmem
    · rw [List.mem_singleton.mp hmem, he] at he'
      cases he'
  exact ⟨pkIndex, rowId, above, ret, obj', hpk, hmem _ rfl hrowId, hmem _ rfl habove, hset⟩

/-- `_save` leaves its statement exactly when the primary key could not be set. -/
theorem savePrepared_leaves {obj : Object table} (hvalue : checkHasValue obj) (sqlStmt : Text) :
    Triple sqlite.logged (fun s => LiveExactly left hs s.1 ∧ NoRowId s.2)
      (savePrepared conn obj sqlStmt) fun _ s =>
        (LiveExactly left hs s.1 ∧ ¬ KeyFails obj s.2) ∨
        (KeyFails obj s.2 ∧ ∃ h, LiveExactly left (some h ::ₘ hs) s.1) := by
  have hhandling := logged_handling left NoRowId fun log e _ he hlog => hlog.append he
  apply hhandling.savePrepared
    (fun h s => LiveExactly left (some h ::ₘ hs) s.1 ∧ NoRowId s.2)
    (fun h s => LiveExactly left (some h ::ₘ hs) s.1 ∧ ¬ KeyFails obj s.2) hvalue trivial
  · exact fun s hs => Or.inl ⟨hs.1, hs.2.not_keyFails⟩
  · intro h
    have hlive := ((liveExactly_handling left).discipline conn).step .write
      (Multiset.mem_cons_self (some h) hs)
    have hlog : Keeps sqlite.logged (fun s => NoRowId s.2) (sqlite3Step conn (some h) .write) := by
      apply keeps_sqlite3Step
      · intro c hc
        apply keeps_log NoRowId
        intro log r hlog
        cases c with
        | semP | rdlock | wrlock => exact hlog.append rfl
        | _ => cases hc
      · intro c hc
        apply keeps_log NoRowId
        intro log r hlog
        cases c with
        | semV | rwUnlock => exact hlog.append rfl
        | _ => cases hc
      · exact keeps_log NoRowId fun log r hlog => hlog.append rfl
    apply (hlive.logged.and_lax hlog).post
    intro ret s hs
    split
    · exact hs
    · exact hs
  · intro h
    apply (savePrimaryKey_leaves obj (some h ::ₘ hs)).post
    rintro r s ⟨hlive, hfails⟩
    split
    · next hr => exact ⟨hlive, fun hkey => hfails.mp hkey hr⟩
    · next hr => exact Or.inr ⟨hfails.mpr hr, h, hlive⟩
  · intro h
    have hlog : Keeps sqlite.logged (fun s => ¬ KeyFails obj s.2) (sqlite3Finalize (some h)) := by
      apply Keeps.retry
      apply keeps_log fun log => ¬ KeyFails obj log
      exact fun log r hlog hfails => hlog (hfails.of_append rfl)
    exact ((liveExactly_finalize (some h)).logged.and_lax hlog).post fun _ s hs => Or.inl hs

/-- What an operation leaves besides the statements of the open iterators: nothing, or the one
statement of a row write. -/
def Settles (left : Multiset Handle) (before : Session) (o : Op) (after : Session)
    (s : Statements × List SormEvent) : Prop :=
  (LiveExactly left after.handles s.1 ∧ ¬ o.Leaks s.2) ∨
    (o.Leaks s.2 ∧ after.handles = before.handles ∧
      ∃ h, LiveExactly left (some h ::ₘ after.handles) s.1)

theorem save_leaves {before : Session} (row : Option (Object table)) (insertOrReplace : Text)
    (o : Op) (hleaks : o.Leaks = fun tr => ∃ obj, row = some obj ∧ KeyFails obj tr) :
    Triple sqlite.logged (fun s => LiveExactly left before.handles s.1 ∧ s.2 = [])
      (before.keep (save before.conn row insertOrReplace) Prod.fst) fun r s =>
        r.2.handles = before.handles ∧ Settles left before o r.2 s := by
  have hnot : ∀ s : Statements × List SormEvent, LiveExactly left before.handles s.1 ∧ s.2 = [] →
      Settles left before o before s := by
    rintro ⟨s, log⟩ ⟨hlive, rfl⟩
    refine Or.inl ⟨hlive, ?_⟩
    rw [hleaks]
    rintro ⟨obj, -, hfails⟩
    have hnone : NoRowId [] := fun e he => by cases he
    exact hnone.not_keyFails hfails
  have hsave : Triple sqlite.logged (fun s => LiveExactly left before.handles s.1 ∧ s.2 = [])
      (save (some before.conn) row insertOrReplace) fun _ s => Settles left before o before s := by
    cases row with
    | none => exact Triple.pure hnot
    | some obj =>
        unfold save
        dsimp only
        split
        · next hvalue =>
            split
            · next e _ _ =>
                apply Triple.bind (keeps_fail e)
                exact fun _ => Triple.pure hnot
            · apply Triple.bind ((savePrepared_leaves hvalue _).mono (fun s hs => ⟨hs.1, ?_⟩)
                fun _ s hs => hs)
              · intro r
                refine Triple.pure fun s hs => ?_
                unfold Settles
                rw [hleaks]
                rcases hs with ⟨hlive, hfails⟩ | ⟨hfails, hlive⟩
                · refine Or.inl ⟨hlive, ?_⟩
                  rintro ⟨obj', heq, hfails'⟩
                  cases heq
                  exact hfails hfails'
                · exact Or.inr ⟨⟨obj, rfl, hfails⟩, rfl, hlive⟩
              · intro e he
                rw [hs.2] at he
                cases he
        · exact Triple.pure hnot
  exact Triple.bind hsave fun _ => Triple.pure fun s hs => ⟨rfl, hs⟩

theorem runBound_settles {before : Session} {obj : Object table} (hvalue : checkHasValue obj)
    (sqlStmt : Text) (second : Option (table.Index → Bool)) (o : Op)
    (hleaks : o.Leaks = fun tr => ∃ ret, lastStep tr = some ret ∧ ret ≠ .done) :
    Triple sqlite.logged (fun s => LiveExactly left before.handles s.1 ∧ s.2 = [])
      (runBound before.conn obj sqlStmt second) fun _ s => Settles left before o before s := by
  apply (runBound_leaves hvalue sqlStmt second).mono
  · rintro ⟨s, log⟩ ⟨hlive, rfl⟩
    exact ⟨hlive, rfl⟩
  · rintro _ s (⟨hlive, hdone⟩ | ⟨hnot, hlive⟩)
    · refine Or.inl ⟨hlive, ?_⟩
      rw [hleaks]
      rintro ⟨ret, hret, hne⟩
      exact hne (hdone ret hret)
    · refine Or.inr ⟨?_, rfl, hlive⟩
      rw [hleaks]
      exact hnot

theorem sormDelete_settles {before : Session} (row : Option (Object table)) :
    Triple sqlite.logged (fun s => LiveExactly left before.handles s.1 ∧ s.2 = [])
      (sormDelete before.conn row) fun _ s => Settles left before (.delete row) before s := by
  have hnot : ∀ s : Statements × List SormEvent, LiveExactly left before.handles s.1 ∧ s.2 = [] →
      Settles left before (.delete row) before s := by
    rintro ⟨s, log⟩ ⟨hlive, rfl⟩
    exact Or.inl ⟨hlive, fun ⟨ret, hret, _⟩ => by cases hret⟩
  cases row with
  | none => exact Triple.pure hnot
  | some obj =>
      unfold sormDelete
      dsimp only
      split
      · next hvalue =>
          split
          · next e _ _ => exact (keeps_fail e).post fun _ => hnot
          · rw [assertSome_some, pure_bind]
            exact runBound_settles hvalue _ _ (.delete (some obj)) rfl
      · exact Triple.pure hnot

theorem sormUpdate_settles {before : Session} (row : Option (Object table)) :
    Triple sqlite.logged (fun s => LiveExactly left before.handles s.1 ∧ s.2 = [])
      (sormUpdate before.conn row) fun _ s => Settles left before (.update row) before s := by
  have hnot : ∀ s : Statements × List SormEvent, LiveExactly left before.handles s.1 ∧ s.2 = [] →
      Settles left before (.update row) before s := by
    rintro ⟨s, log⟩ ⟨hlive, rfl⟩
    exact Or.inl ⟨hlive, fun ⟨ret, hret, _⟩ => by cases hret⟩
  cases row with
  | none => exact Triple.pure hnot
  | some obj =>
      unfold sormUpdate
      dsimp only
      split
      · next hvalue =>
          split
          · next e _ _ => exact (keeps_fail e).post fun _ => hnot
          · rw [assertSome_some, pure_bind]
            exact runBound_settles hvalue _ _ (.update (some obj)) rfl
      · exact Triple.pure hnot

theorem op_settles (left : Multiset Handle) (before : Session) (o : Op) :
    Triple sqlite.logged (fun s => LiveExactly left before.handles s.1 ∧ s.2 = []) (o.prog before)
      fun r s => (¬ o.opensIterator → r.2.handles ≤ before.handles) ∧
        Settles left before o r.2 s := by
  have hkeep : ∀ {p : Act SormError},
      Triple sqlite.logged (fun s => LiveExactly left before.handles s.1 ∧ s.2 = []) p
        (fun _ s => Settles left before o before s) →
      Triple sqlite.logged (fun s => LiveExactly left before.handles s.1 ∧ s.2 = [])
        (before.keep p id) fun r s => (¬ o.opensIterator → r.2.handles ≤ before.handles) ∧
          Settles left before o r.2 s :=
    fun hp => Triple.bind hp fun _ => Triple.pure fun s hs => ⟨fun _ => le_rfl, hs⟩
  by_cases hw : o.isRowWrite
  · cases o with
    | insert row =>
        exact (save_leaves row _ (.insert row) rfl).post fun r s hs => ⟨fun _ => hs.1.le, hs.2⟩
    | replace row =>
        exact (save_leaves row _ (.replace row) rfl).post fun r s hs => ⟨fun _ => hs.1.le, hs.2⟩
    | update row => exact hkeep (sormUpdate_settles row)
    | delete row => exact hkeep (sormDelete_settles row)
    | _ => exact absurd hw (by simp [Op.isRowWrite])
  · have hleaks : ∀ tr, ¬ o.Leaks tr := by
      cases o with
      | insert | replace | update | delete => exact absurd rfl hw
      | _ => exact fun _ h => h
    have hop := (liveExactly_handling left).op before o hw
    apply hop.logged.mono
    · exact fun s hs => hs.1
    · exact fun r s hs => ⟨hs.1, Or.inl ⟨hs.2, hleaks s.2⟩⟩

end Sorm
