import Sorm.NestedTransactions
import Sorm.StatementBuffers
import Sorm.TransactionCounter

/-!
# Nested transactions on one connection

SQLite is seen here as a store with flat transactions that executes the prepared statements with
the values bound to them. When none of its calls fails, begins, commits, rollbacks and row writes
pass on to it exactly what the counting of `NestedTransactions` passes on.
-/

namespace Sorm

open Interaction Monitor NestedTransactions

structure BoundStmt where
  sql : Text
  values : List (ℕ × Bound)

abbrev BoundStmts := Handle → BoundStmt

namespace BoundStmts

def next (p : BoundStmts) : SormEvent → BoundStmts
  | ⟨.prepare sql _, (.ok, some h)⟩ => Function.update p h ⟨sql, []⟩
  | ⟨.bind (some h) index value, .ok⟩ =>
      Function.update p h { p h with values := (p h).values ++ [(index, value)] }
  | _ => p

def executes (p : BoundStmts) : SormEvent → Option BoundStmt
  | ⟨.step (some h), .done⟩ => some (p h)
  | _ => none

def after (p : BoundStmts) (tr : List SormEvent) : BoundStmts := tr.foldl next p

end BoundStmts

def executed : BoundStmts → List SormEvent → List BoundStmt
  | _, [] => []
  | p, e :: tr => (p.executes e).toList ++ executed (p.next e) tr

theorem executed_append (p : BoundStmts) (tr tr' : List SormEvent) :
    executed p (tr ++ tr') = executed p tr ++ executed (p.after tr) tr' := by
  induction tr generalizing p with
  | nil => rfl
  | cons e tr ih =>
      rw [List.cons_append, executed, ih, executed, List.append_assoc]
      rfl

def Succeeds : SormEvent → Prop
  | ⟨.prepare _ _, ret⟩ => ret.1 = .ok ∧ ret.2.isSome
  | ⟨.bind _ _ _, ret⟩ => ret = DbCode.ok
  | ⟨.step _, ret⟩ => ret = DbCode.done
  | ⟨.finalize _, ret⟩ => ret = DbCode.ok
  | _ => True

def play (s : BoundStmts × List BoundStmt) (e : SormEvent) : BoundStmts × List BoundStmt :=
  (s.1.next e, s.2 ++ (s.1.executes e).toList)

theorem foldl_play (tr : List SormEvent) (p : BoundStmts) (stmts : List BoundStmt) :
    tr.foldl play (p, stmts) = (p.after tr, stmts ++ executed p tr) := by
  induction tr generalizing p stmts with
  | nil =>
      rw [executed, List.append_nil]
      rfl
  | cons e tr ih =>
      rw [List.foldl_cons, play, ih, executed, List.append_assoc]
      rfl

/-- Follows the statements and lists what is executed, when nothing fails. -/
def playing : Monitor Resp (BoundStmts × List BoundStmt) :=
  (fold (fun _ _ => True) play).assuming Succeeds

theorem playing_run {tr : List SormEvent} (htr : ∀ e ∈ tr, Succeeds e) (p : BoundStmts) :
    playing.Run (p, []) tr (p.after tr, executed p tr) := by
  have hrun : (fold (fun _ _ => True) play).Run (p, []) tr (tr.foldl play (p, [])) :=
    fold_run (p, []) tr
  rw [foldl_play, List.nil_append] at hrun
  exact hrun.assuming htr

theorem playing_perform {P : BoundStmts × List BoundStmt → Prop} {c : Call}
    {Q : Resp c → BoundStmts × List BoundStmt → Prop}
    (h : ∀ s r, P s → Succeeds ⟨c, r⟩ →
      Q r (s.1.next ⟨c, r⟩, s.2 ++ (s.1.executes ⟨c, r⟩).toList)) :
    Triple playing P (perform c) Q := by
  apply Triple.perform (fun _ _ => trivial)
  rintro s r s' hs ⟨hstep, hr⟩
  rw [hstep]
  exact h s r hs hr

/-- Calls that neither change a statement nor execute one. -/
theorem keeps_playing {P : BoundStmts × List BoundStmt → Prop} {c : Call}
    (hnext : ∀ p r, BoundStmts.next p ⟨c, r⟩ = p)
    (hexecutes : ∀ p r, BoundStmts.executes p ⟨c, r⟩ = none) : Keeps playing P (perform c) := by
  apply playing_perform
  intro s r hs _
  rw [hnext, hexecutes, Option.toList_none, List.append_nil]
  exact hs

section Control

variable {conn : Connection} {P : BoundStmts × List BoundStmt → Prop}

theorem keeps_playing_unlock (conn : Connection) : Keeps playing P (unlock conn) := by
  apply keeps_unlock
  intro c hc
  cases c with
  | semV | rwUnlock => exact keeps_playing (fun _ _ => rfl) fun _ _ => rfl
  | _ => cases hc

theorem keeps_playing_finalize (h : Option Handle) :
    Triple playing P (sqlite3Finalize h) fun ret s => ret = .ok ∧ P s := by
  apply Triple.retry
  apply playing_perform
  intro s ret hs hret
  obtain rfl : ret = .ok := hret
  refine ⟨rfl, ?_⟩
  rw [show BoundStmts.executes s.1 ⟨.finalize h, DbCode.ok⟩ = none from rfl, Option.toList_none,
    List.append_nil]
  exact hs

/-- The statement is executed once, and the function goes on from there. -/
theorem executeOnce_plays {sql : Text} {rest : SormError → Act (SormError × Connection)}
    {Q : SormError × Connection → BoundStmts × List BoundStmt → Prop}
    (hrest : Triple playing (fun s => s.2 = [⟨sql, []⟩]) (rest .ok) Q) :
    Triple playing (fun s => s.2 = []) (executeOnce conn sql rest) Q := by
  have hprepare : Triple playing (fun s => s.2 = []) (prepareOnce sql) fun r s =>
      ∃ h, r = (.ok, some h) ∧ s.1 h = ⟨sql, []⟩ ∧ s.2 = [] := by
    apply playing_perform
    rintro s ⟨ret, stmt⟩ hs ⟨hret, hstmt⟩
    obtain ⟨h, hh⟩ := Option.isSome_iff_exists.mp hstmt
    dsimp only at hret hh
    subst hret hh
    refine ⟨h, rfl, Function.update_self _ _ _, ?_⟩
    rw [hs]
    rfl
  have hstep : ∀ h, Triple playing (fun s => s.1 h = ⟨sql, []⟩ ∧ s.2 = [])
      (perform (.step (some h))) fun ret s => ret = .done ∧ s.2 = [⟨sql, []⟩] := by
    intro h
    apply playing_perform
    rintro s ret ⟨hh, hs⟩ hret
    obtain rfl : ret = .done := hret
    refine ⟨rfl, ?_⟩
    change s.2 ++ [s.1 h] = _
    rw [hs, hh]
    rfl
  apply Triple.bind hprepare
  rintro ⟨ret, stmt⟩ s ⟨h, hr, hh, hs⟩
  cases hr
  refine Triple.bind (hstep h) (fun ret => ?_) s ⟨hh, hs⟩
  rintro s ⟨rfl, hs⟩
  refine Triple.bind (keeps_playing_finalize (P := fun s => s.2 = [⟨sql, []⟩]) (some h))
    (fun ret => ?_) s hs
  rintro s ⟨rfl, hs⟩
  exact hrest s hs

variable (conn)

theorem begin_plays (sql : Text) (rwlockFlag : RwlockFlag) :
    Triple playing (fun s => s.2 = []) (sormBeginTransaction conn sql rwlockFlag) fun r s =>
      r.2.transactionNum = conn.transactionNum + 1 ∧
        s.2 = if conn.transactionNum = 0 then [⟨sql, []⟩] else [] := by
  by_cases h0 : conn.transactionNum = 0
  · rw [Connection.sormBeginTransaction_zero h0]
    apply executeOnce_plays
    rw [if_pos rfl, h0, if_pos rfl]
    exact Triple.pure fun s hs => ⟨rfl, hs⟩
  · unfold sormBeginTransaction
    rw [if_neg h0, if_neg h0]
    split
    · exact Triple.stop
    · exact Triple.pure fun s hs => ⟨rfl, hs⟩

theorem endedWith_plays {conn' : Connection} {sql : Text} (retVal : SormError) {n : ℕ}
    (hn : conn'.transactionNum = n) :
    Triple playing (fun s => s.2 = [⟨sql, []⟩]) (Connection.endedWith retVal conn') fun r s =>
      r.2.transactionNum = n ∧ s.2 = [⟨sql, []⟩] := by
  apply Triple.bind (keeps_playing_unlock conn')
  intro _
  exact Triple.pure fun s hs => ⟨hn, hs⟩

theorem commit_plays :
    Triple playing (fun s => s.2 = []) (sormCommitTransaction conn) fun r s =>
      r.2.transactionNum = conn.transactionNum - 1 ∧
        s.2 = if conn.transactionNum = 1 then [⟨commitText, []⟩] else [] := by
  by_cases h1 : conn.transactionNum = 1
  · rw [Connection.sormCommitTransaction_one h1, h1, if_pos rfl]
    apply executeOnce_plays
    exact endedWith_plays .ok rfl
  · unfold sormCommitTransaction
    rw [if_neg h1, if_neg h1]
    by_cases h0 : conn.transactionNum = 0
    · rw [if_pos h0]
      exact Triple.pure fun s hs => ⟨by rw [h0], hs⟩
    · rw [if_neg h0]
      exact Triple.pure fun s hs => ⟨rfl, hs⟩

theorem rollback_plays :
    Triple playing (fun s => s.2 = []) (sormRollbackTransaction conn) fun r s =>
      r.2.transactionNum = conn.transactionNum - 1 ∧
        s.2 = if conn.transactionNum = 1 then [⟨rollbackText, []⟩] else [] := by
  by_cases h1 : conn.transactionNum = 1
  · rw [Connection.sormRollbackTransaction_one h1, h1, if_pos rfl]
    apply executeOnce_plays
    exact endedWith_plays .ok rfl
  · unfold sormRollbackTransaction
    rw [if_neg h1, if_neg h1]
    by_cases h0 : conn.transactionNum = 0
    · rw [if_pos h0]
      exact Triple.pure fun s hs => ⟨by rw [h0], hs⟩
    · rw [if_neg h0]
      exact Triple.pure fun s hs => ⟨rfl, hs⟩

end Control

def IsControl (sql : Text) : Prop := IsBegin sql ∨ IsEnd sql

def writeWords : List Text :=
  ["INSERT".toList, "REPLACE".toList, "DELETE".toList, "UPDATE".toList]

theorem not_isControl {word sql : Text} (hword : word ∈ writeWords) (h : word <+: sql) :
    ¬ IsControl sql := by
  have hnone : ∀ word ∈ writeWords,
      ∀ sql ∈ [beginWriteText, beginReadText, commitText, rollbackText], ¬ word <+: sql := by
    decide
  intro hsql
  refine hnone word hword sql ?_ h
  rcases hsql with (rfl | rfl) | (rfl | rfl)
  · exact List.mem_cons_self
  · simp
  · simp
  · simp

theorem prefix_cutLast {word t : Text} {n : ℕ} (h : word <+: t) (hn : word.length + n ≤ t.length) :
    word <+: cutLast n t := List.prefix_take_iff.mpr ⟨h, by omega⟩

variable {table : TableDescriptor}

theorem prefix_saveText (obj : Object table) (word : Text) : word <+: saveText obj word := by
  have hhead : word <+: saveHead table word := by
    rw [saveHead, List.append_assoc, List.append_assoc]
    exact List.prefix_append _ _
  have hlen : word.length + 1 ≤ (saveHead table word).length := by
    simp only [saveHead, List.length_append, String.reduceToList, List.length_cons]
    omega
  have hcolumns : word <+: replaceLast ')' (saveHead table word ++ (saveColumns obj).flatten) := by
    apply List.IsPrefix.trans (prefix_cutLast (hhead.trans (List.prefix_append _ _)) ?_)
      (List.prefix_append _ _)
    rw [List.length_append]
    omega
  unfold saveText
  apply List.IsPrefix.trans (prefix_cutLast ?_ ?_) (List.prefix_append _ _)
  · rw [List.append_assoc]
    exact hcolumns.trans (List.prefix_append _ _)
  · have hle := hcolumns.length_le
    simp only [List.length_append, String.reduceToList, List.length_cons]
    omega

theorem prefix_deleteText (obj : Object table) : "DELETE".toList <+: deleteText obj := by
  have hword : "DELETE".toList <+: "DELETE FROM ".toList := ⟨" FROM ".toList, rfl⟩
  have hhead : "DELETE".toList <+: deleteHead table :=
    (hword.trans (List.prefix_append _ _)).trans (List.prefix_append _ _)
  have hlen : 12 ≤ (deleteHead table).length :=
    ((List.prefix_append "DELETE FROM ".toList _).trans (List.prefix_append _ _)).length_le
  apply prefix_cutLast (hhead.trans (List.prefix_append _ (deleteTerms obj).flatten))
  rw [List.length_append]
  exact Nat.le_add_right_of_le (Nat.le_trans (by decide) hlen)

theorem prefix_updateText (obj : Object table) : "UPDATE".toList <+: updateText obj := by
  have hword : "UPDATE".toList <+: "UPDATE ".toList := ⟨[' '], rfl⟩
  have hhead : "UPDATE".toList <+: updateHead table :=
    (hword.trans (List.prefix_append _ _)).trans (List.prefix_append _ _)
  have hlen : 7 ≤ (updateHead table).length :=
    ((List.prefix_append "UPDATE ".toList _).trans (List.prefix_append _ _)).length_le
  have hset : "UPDATE".toList <+: updateSetText obj := by
    apply prefix_cutLast (hhead.trans (List.prefix_append _ (updateSets obj).flatten))
    rw [List.length_append]
    exact Nat.le_add_right_of_le (Nat.le_trans (by decide) hlen)
  have hle := hset.length_le
  have hwhere : 6 + 6 ≤ (updateSetText obj ++ " WHERE".toList).length := by
    rw [List.length_append]
    exact Nat.add_le_add hle (by decide)
  apply prefix_cutLast ((hset.trans (List.prefix_append _ _)).trans (List.prefix_append _ _))
  rw [List.length_append]
  exact Nat.le_add_right_of_le (Nat.le_trans (by decide) hwhere)

theorem prefix_deleteByStmt {filter : Option Text} {b : Buf}
    (h : deleteByStmt table filter = .ok b) : "DELETE".toList <+: b.text := by
  have hword : "DELETE".toList <+: "DELETE FROM ".toList := ⟨" FROM ".toList, rfl⟩
  rw [((deleteByStmt_outcome table filter).of_ok h).1, deleteByPieces, List.flatten_cons,
    List.append_assoc, List.append_assoc]
  exact hword.trans (List.prefix_append _ _)

structure PlaysWrites (hs : Multiset (Option Handle)) (s : BoundStmts × List BoundStmt) : Prop where
  prepared : ∀ h, some h ∈ hs → ¬ IsControl (s.1 h).sql
  executed : ∀ stmt ∈ s.2, ¬ IsControl stmt.sql

theorem playing_discipline (conn : Connection) :
    WriteDiscipline playing conn (fun sql => ¬ IsControl sql) PlaysWrites where
  isLocal := by
    intro hs c hc
    cases c with
    | malloc | strdup | free => exact keeps_playing (fun _ _ => rfl) fun _ _ => rfl
    | _ => cases hc
  use := by
    intro hs c h hc hh
    cases c with
    | bind stmt index value =>
        apply playing_perform
        rintro s ret hs hret
        obtain rfl : ret = .ok := hret
        cases stmt with
        | none => exact ⟨hs.prepared, by simpa [BoundStmts.executes] using hs.executed⟩
        | some h' =>
            refine ⟨fun h'' hh'' => ?_, by simpa [BoundStmts.executes] using hs.executed⟩
            have hsql := hs.prepared h'' hh''
            by_cases heq : h'' = h'
            · subst heq
              simpa [BoundStmts.next] using hsql
            · simpa [BoundStmts.next, heq] using hsql
    | columnType | columnInt | columnInt64 | columnDouble | columnText | columnBlob | columnBytes =>
        exact keeps_playing (fun _ _ => rfl) fun _ _ => rfl
    | _ => cases hc
  prepare := by
    intro hs sql hsql
    apply playing_perform
    rintro s ⟨ret, stmt⟩ hholds ⟨hret, hstmt⟩
    obtain ⟨h, hh⟩ := Option.isSome_iff_exists.mp hstmt
    dsimp only at hret hh
    subst hret hh
    rw [if_pos rfl]
    refine ⟨fun h' hh' => ?_, by simpa [BoundStmts.executes] using hholds.executed⟩
    by_cases heq : h' = h
    · subst heq
      simpa [BoundStmts.next] using hsql
    · have hmem : some h' ∈ hs := by simpa [heq] using hh'
      simpa [BoundStmts.next, heq] using hholds.prepared h' hmem
  finalize := by
    intro hs h
    refine (keeps_playing_finalize h).post fun ret s hholds => ?_
    exact ⟨fun h' hh' => hholds.2.prepared h' (Multiset.mem_cons_of_mem hh'), hholds.2.executed⟩
  rowId := by
    intro hs c hc
    cases c with
    | lastInsertRowid | uninitialised => exact keeps_playing (fun _ _ => rfl) fun _ _ => rfl
    | _ => cases hc
  write := by
    intro hs h hh
    apply keeps_sqlite3Step
    · intro c hc
      cases c with
      | semP | rdlock | wrlock => exact keeps_playing (fun _ _ => rfl) fun _ _ => rfl
      | _ => cases hc
    · intro c hc
      cases c with
      | semV | rwUnlock => exact keeps_playing (fun _ _ => rfl) fun _ _ => rfl
      | _ => cases hc
    · apply playing_perform
      intro s ret hholds hret
      obtain rfl : ret = .done := hret
      refine ⟨?_, fun stmt hstmt => ?_⟩
      · cases h with
        | none => exact hholds.prepared
        | some h => exact hholds.prepared
      · rcases List.mem_append.mp hstmt with hstmt | hstmt
        · exact hholds.executed stmt hstmt
        · cases h with
          | none => cases hstmt
          | some h =>
              obtain rfl : stmt = s.1 h := by simpa [BoundStmts.executes] using hstmt
              exact hholds.prepared h hh

def Op.writesRows : Op → Bool
  | .insert _ | .replace _ | .update _ | .delete _ | .deleteBy _ _ | .deleteByColumn _ _ _ => true
  | _ => false

theorem Op.plays_writes (o : Op) (before : Session) (ho : o.writesRows) :
    Triple playing (PlaysWrites 0) (o.prog before) fun _ s => PlaysWrites 0 s := by
  have d := playing_discipline before.conn
  have hdrop : ∀ {hs : Multiset (Option Handle)} {h : Option Handle}
      {s : BoundStmts × List BoundStmt}, PlaysWrites (h ::ₘ hs) s → PlaysWrites hs s :=
    fun hs => ⟨fun h hh => hs.prepared h (Multiset.mem_cons_of_mem hh), hs.executed⟩
  have hkeep : ∀ {α : Type} {p : Act α} {code : α → SormError},
      Keeps playing (PlaysWrites 0) p →
      Triple playing (PlaysWrites 0) (before.keep p code) fun _ s => PlaysWrites 0 s := by
    intro α p code hp
    exact Triple.bind hp fun _ => Triple.pure fun s hs => hs
  have hdelete : ∀ table filter (b : Buf), deleteByStmt table filter = .ok b →
      ¬ IsControl b.text := by
    intro table filter b hbuilt
    exact not_isControl (by decide) (prefix_deleteByStmt hbuilt)
  cases o with
  | insert row =>
      apply hkeep
      apply d.save_of_drop hdrop
      intro obj b _ hbuilt
      rw [(saveStmt_ok hbuilt).1]
      exact not_isControl (by decide) (prefix_saveText obj _)
  | replace row =>
      apply hkeep
      apply d.save_of_drop hdrop
      intro obj b _ hbuilt
      rw [(saveStmt_ok hbuilt).1]
      exact not_isControl (by decide) (prefix_saveText obj _)
  | update row =>
      apply hkeep
      apply d.sormUpdate_of_drop hdrop
      intro obj b _ hbuilt
      rw [(updateStmt_ok hbuilt).1]
      exact not_isControl (by decide) (prefix_updateText obj)
  | delete row =>
      apply hkeep
      apply d.sormDelete_of_drop hdrop
      intro obj b _ hbuilt
      rw [(deleteStmt_ok hbuilt).1]
      exact not_isControl (by decide) (prefix_deleteText obj)
  | deleteBy tableDesc filter =>
      apply hkeep
      apply d.sormDeleteBy
      exact fun table b _ hbuilt => hdelete table filter b hbuilt
  | deleteByColumn tableDesc columnIndex columnValue =>
      apply hkeep
      apply d.sormDeleteByColumn
      exact fun table column value filter b _ _ _ _ hbuilt => hdelete table (some filter) b hbuilt
  | _ => cases ho

/-- What an operation executes and does to the counter when nothing fails. -/
inductive Nests : Op → ℕ → ℕ → List BoundStmt → Prop
  | opens {o : Op} {sql : Text} (ho : o.isBegin) (hsql : IsBegin sql) : Nests o 0 1 [⟨sql, []⟩]
  | deepens {o : Op} {n : ℕ} (ho : o.isBegin) (hn : n ≠ 0) : Nests o n (n + 1) []
  | idles {o : Op} (ho : o.isEnd) : Nests o 0 0 []
  | rises {o : Op} {n : ℕ} (ho : o.isEnd) (hn : 2 ≤ n) : Nests o n (n - 1) []
  | commits : Nests .commitTransaction 1 0 [⟨commitText, []⟩]
  | rollsBack : Nests .rollbackTransaction 1 0 [⟨rollbackText, []⟩]
  | writes {o : Op} {n : ℕ} {stmts : List BoundStmt} (ho : ¬ o.isTransaction)
      (hstmts : ∀ stmt ∈ stmts, ¬ IsControl stmt.sql) : Nests o n n stmts

theorem Nests.of_begin {o : Op} {sql : Text} (ho : o.isBegin) (hsql : IsBegin sql) {n m : ℕ}
    {stmts : List BoundStmt} (hm : m = n + 1)
    (hstmts : stmts = if n = 0 then [⟨sql, []⟩] else []) : Nests o n m stmts := by
  subst hm
  by_cases h0 : n = 0
  · rw [if_pos h0] at hstmts
    subst h0 hstmts
    exact .opens ho hsql
  · rw [if_neg h0] at hstmts
    subst hstmts
    exact .deepens ho h0

theorem Nests.of_end {o : Op} {sql : Text} (ho : o.isEnd) (hlast : Nests o 1 0 [⟨sql, []⟩])
    {n m : ℕ} {stmts : List BoundStmt} (hm : m = n - 1)
    (hstmts : stmts = if n = 1 then [⟨sql, []⟩] else []) : Nests o n m stmts := by
  subst hm
  by_cases h1 : n = 1
  · rw [if_pos h1] at hstmts
    subst h1 hstmts
    exact hlast
  · rw [if_neg h1] at hstmts
    subst hstmts
    by_cases h0 : n = 0
    · subst h0
      exact .idles ho
    · exact .rises ho (by omega)

theorem Finished.nests {step : Finished} (hop : step.op.isTransaction ∨ step.op.writesRows)
    (htr : ∀ e ∈ step.trace, Succeeds e) (p : BoundStmts) :
    Nests step.op step.before.conn.transactionNum step.after.conn.transactionNum
      (executed p step.trace) := by
  have hrun := playing_run htr p
  have hplays : ∀ {prog : Act (SormError × Connection)} {m : ℕ} {stmts : List BoundStmt},
      step.op.prog step.before = step.before.onConn prog →
      Triple playing (fun s => s.2 = []) prog (fun r s => r.2.transactionNum = m ∧ s.2 = stmts) →
      step.after.conn.transactionNum = m ∧ executed p step.trace = stmts := by
    intro prog m stmts hprog hplays
    have honConn : Triple playing (fun s => s.2 = []) (step.before.onConn prog)
        fun r s => r.2.conn.transactionNum = m ∧ s.2 = stmts :=
      Triple.bind hplays fun _ => Triple.pure fun _ hs => hs
    exact honConn.returns rfl (hprog ▸ step.emits_pure) hrun
  cases ho : step.op with
  | beginWriteTransaction =>
      have h := hplays (congrArg (Op.prog step.before) ho)
        (begin_plays step.before.conn beginWriteText .write)
      exact .of_begin rfl (Or.inl rfl) h.1 h.2
  | beginReadTransaction =>
      have h := hplays (congrArg (Op.prog step.before) ho)
        (begin_plays step.before.conn beginReadText .read)
      exact .of_begin rfl (Or.inr rfl) h.1 h.2
  | commitTransaction =>
      have h := hplays (congrArg (Op.prog step.before) ho) (commit_plays step.before.conn)
      exact .of_end rfl .commits h.1 h.2
  | rollbackTransaction =>
      have h := hplays (congrArg (Op.prog step.before) ho) (rollback_plays step.before.conn)
      exact .of_end rfl .rollsBack h.1 h.2
  | _ =>
      rw [ho] at hop
      have ht : ¬ step.op.isTransaction := by
        rw [ho]
        exact nofun
      have hwrites := Op.plays_writes step.op step.before (ho ▸ hop.resolve_left nofun)
      have hnone : PlaysWrites 0 (p, []) := ⟨fun _ h => absurd h (Multiset.notMem_zero _), nofun⟩
      rw [Finished.conn_eq ht, ← ho]
      exact .writes ht (hwrites.returns hnone step.emits_pure hrun).executed

/-- A commit or rollback made at 0 calls nothing and leaves the session as it is. -/
theorem Finished.idle {step : Finished} (ho : step.op.isEnd)
    (h0 : step.before.conn.transactionNum = 0) : step.trace = [] ∧ step.after = step.before := by
  have hpure : step.op.prog step.before = .pure (.ok, step.before) := by
    cases hop : step.op with
    | commitTransaction =>
        change step.before.onConn (sormCommitTransaction step.before.conn) = _
        unfold sormCommitTransaction
        rw [if_pos h0]
        rfl
    | rollbackTransaction =>
        change step.before.onConn (sormRollbackTransaction step.before.conn) = _
        unfold sormRollbackTransaction
        rw [if_pos h0]
        rfl
    | _ =>
        rw [hop] at ho
        cases ho
  have hemits := step.emits_pure
  rw [hpure] at hemits
  cases htr : step.trace with
  | nil =>
      rw [htr] at hemits
      have heq := hemits.eq_of_nil
      injection heq with heq
      exact ⟨rfl, (Prod.mk.inj heq).2⟩
  | cons e tr =>
      rw [htr] at hemits
      exact absurd hemits Prog.not_emits_pure

instance (sql : Text) : Decidable (IsBegin sql) := inferInstanceAs (Decidable (_ ∨ _))

instance (sql : Text) : Decidable (IsEnd sql) := inferInstanceAs (Decidable (_ ∨ _))

section Content

variable {D : Type} (effect : BoundStmt → D → D)

def BoundStmt.command (stmt : BoundStmt) : Command D :=
  if IsBegin stmt.sql then .begins
  else if stmt.sql = commitText then .commit
  else if stmt.sql = rollbackText then .rollback
  else .write (effect stmt)

def effectOf (stmts : List BoundStmt) (d : D) : D := stmts.foldl (fun d stmt => effect stmt d) d

def Op.command (write : D → D) : Op → Command D
  | .beginWriteTransaction | .beginReadTransaction => .begins
  | .commitTransaction => .commit
  | .rollbackTransaction => .rollback
  | _ => .write write

def commands : BoundStmts → List Finished → List (Command D)
  | _, [] => []
  | p, step :: steps =>
      step.op.command (effectOf effect (executed p step.trace)) ::
        commands (p.after step.trace) steps

def storeAfter (p : BoundStmts) (tr : List SormEvent) (s : Store D) : Store D :=
  s.executeAll ((executed p tr).map (BoundStmt.command effect))

theorem BoundStmt.command_write {stmt : BoundStmt} (h : ¬ IsControl stmt.sql) :
    stmt.command effect = .write (effect stmt) := by
  have hbegin : ¬ IsBegin stmt.sql := fun hsql => h (Or.inl hsql)
  have hcommit : stmt.sql ≠ commitText := fun hsql => h (Or.inr (Or.inl hsql))
  have hrollback : stmt.sql ≠ rollbackText := fun hsql => h (Or.inr (Or.inr hsql))
  rw [BoundStmt.command, if_neg hbegin, if_neg hcommit, if_neg hrollback]

theorem Op.command_begin {o : Op} (ho : o.isBegin) (write : D → D) : o.command write = .begins := by
  cases o with
  | beginWriteTransaction | beginReadTransaction => rfl
  | _ => cases ho

theorem Op.command_end {o : Op} (ho : o.isEnd) (write : D → D) :
    o.command write = .commit ∨ o.command write = .rollback := by
  cases o with
  | commitTransaction => exact Or.inl rfl
  | rollbackTransaction => exact Or.inr rfl
  | _ => cases ho

theorem Op.command_write {o : Op} (ho : ¬ o.isTransaction) (write : D → D) :
    o.command write = .write write := by
  cases o with
  | beginWriteTransaction | beginReadTransaction | commitTransaction | rollbackTransaction =>
      exact absurd rfl ho
  | _ => rfl

/-- What is executed is what the counting passes on. -/
theorem Nests.refines {o : Op} {n m : ℕ} {stmts : List BoundStmt} (h : Nests o n m stmts)
    (s : Store D) :
    s.executeAll (stmts.map (BoundStmt.command effect)) =
        s.executeAll (issue n (o.command (effectOf effect stmts))) ∧
      m = depthAfter n (o.command (effectOf effect stmts)) := by
  cases h with
  | opens ho hsql =>
      rw [Op.command_begin ho, issue, if_pos rfl, List.map_singleton, BoundStmt.command,
        if_pos hsql]
      exact ⟨rfl, rfl⟩
  | deepens ho hn =>
      rw [Op.command_begin ho, issue, if_neg hn]
      exact ⟨rfl, rfl⟩
  | idles ho =>
      rcases Op.command_end ho (effectOf effect []) with hcommand | hcommand
      · rw [hcommand]
        exact ⟨rfl, rfl⟩
      · rw [hcommand]
        exact ⟨rfl, rfl⟩
  | rises ho hn =>
      rcases Op.command_end ho (effectOf effect []) with hcommand | hcommand
      · rw [hcommand, issue, if_neg (by omega)]
        exact ⟨rfl, rfl⟩
      · rw [hcommand, issue, if_neg (by omega)]
        exact ⟨rfl, rfl⟩
  | commits =>
      have hcommand : BoundStmt.command effect ⟨commitText, []⟩ = .commit := by
        rw [BoundStmt.command, if_neg (by decide), if_pos rfl]
      rw [List.map_singleton, hcommand]
      exact ⟨rfl, rfl⟩
  | rollsBack =>
      have hcommand : BoundStmt.command effect ⟨rollbackText, []⟩ = .rollback := by
        rw [BoundStmt.command, if_neg (by decide), if_neg (by decide), if_pos rfl]
      rw [List.map_singleton, hcommand]
      exact ⟨rfl, rfl⟩
  | writes ho hstmts =>
      have hmap : stmts.map (BoundStmt.command effect) = (stmts.map effect).map .write := by
        rw [List.map_map]
        exact List.map_congr_left fun stmt hstmt => BoundStmt.command_write effect (hstmts stmt hstmt)
      rw [Op.command_write ho, hmap, Store.executeAll_writes]
      simp only [List.foldl_map]
      exact ⟨rfl, rfl⟩

def Op.transacts (o : Op) : Prop := o.isTransaction ∨ o.writesRows

theorem Run.executes {start final : Session} {steps : List Finished} (hrun : Run start steps final)
    (hops : ∀ step ∈ steps, step.op.transacts) (htr : ∀ e ∈ runTrace steps, Succeeds e)
    (p : BoundStmts) (s : Store D) :
    storeAfter effect p (runTrace steps) s =
      s.executeAll (issueAll start.conn.transactionNum (commands effect p steps)) := by
  induction hrun generalizing p s with
  | nil start => rfl
  | cons step hrun ih =>
      rw [runTrace_cons] at htr ⊢
      have hnests := Finished.nests (hops step List.mem_cons_self)
        (fun e he => htr e (List.mem_append_left _ he)) p
      obtain ⟨hstep, hdepth⟩ := hnests.refines effect s
      unfold storeAfter at ih ⊢
      rw [executed_append, List.map_append, Store.executeAll_append, hstep,
        ih (fun step hmem => hops step (List.mem_cons_of_mem _ hmem))
          (fun e he => htr e (List.mem_append_right _ he)),
        hdepth, commands, issueAll, Store.executeAll_append]

end Content

/-- The transaction statements are executed exactly when the counter leaves 0 or returns to it, and
an end at 0 does nothing. -/
structure AtEdges (step : Finished) (stmts : List BoundStmt) : Prop where
  begins : stmts.countP (fun stmt => IsBegin stmt.sql) =
    if step.before.conn.transactionNum = 0 ∧ step.after.conn.transactionNum = 1 then 1 else 0
  ends : stmts.countP (fun stmt => IsEnd stmt.sql) =
    if step.before.conn.transactionNum = 1 ∧ step.after.conn.transactionNum = 0 then 1 else 0
  idle : step.op.isEnd → step.before.conn.transactionNum = 0 →
    step.trace = [] ∧ step.after = step.before

theorem not_isEnd_of_isBegin {sql : Text} (h : IsBegin sql) : ¬ IsEnd sql := by
  rcases h with rfl | rfl
  · decide
  · decide

theorem Nests.counts {o : Op} {n m : ℕ} {stmts : List BoundStmt} (h : Nests o n m stmts) :
    stmts.countP (fun stmt => IsBegin stmt.sql) = (if n = 0 ∧ m = 1 then 1 else 0) ∧
      stmts.countP (fun stmt => IsEnd stmt.sql) = if n = 1 ∧ m = 0 then 1 else 0 := by
  cases h with
  | opens ho hsql => simp [hsql, not_isEnd_of_isBegin hsql]
  | deepens ho hn => simp [hn]
  | idles ho => simp
  | rises ho hn =>
      rw [if_neg (by omega), if_neg (by omega)]
      exact ⟨rfl, rfl⟩
  | commits => decide
  | rollsBack => decide
  | writes ho hstmts =>
      rw [if_neg (by omega), if_neg (by omega), List.countP_eq_zero, List.countP_eq_zero]
      constructor
      · intro stmt hstmt hsql
        exact hstmts stmt hstmt (Or.inl (of_decide_eq_true hsql))
      · intro stmt hstmt hsql
        exact hstmts stmt hstmt (Or.inr (of_decide_eq_true hsql))

/-- Nested transactions refine flat ones: the edges of the counter are those of the transactions
of SQLite, and the committed content is that of the flat run, whatever the statements do. -/
structure RefinesFlat (p : BoundStmts) (steps : List Finished) : Prop where
  edges : ∀ step ∈ steps, ∀ p, AtEdges step (executed p step.trace)
  exists_flat : ∀ {D : Type} (effect : BoundStmt → D → D), ∃ g, Flat (commands effect p steps) g
  content : ∀ {D : Type} (effect : BoundStmt → D → D) {g : D → D},
    Flat (commands effect p steps) g →
      ∀ d, (storeAfter effect p (runTrace steps) ⟨d, none⟩).committed = g d

/-- In a run of begins, commits, rollbacks and row writes from a closed connection in which every
call succeeds, nested transactions refine flat ones. -/
theorem Run.refinesFlat {start final : Session} {steps : List Finished}
    (hrun : Run start steps final) (h0 : start.conn.transactionNum = 0)
    (hops : ∀ step ∈ steps, step.op.transacts) (htr : ∀ e ∈ runTrace steps, Succeeds e)
    (p : BoundStmts) : RefinesFlat p steps where
  edges := by
    intro step hstep p
    have hnests := Finished.nests (hops step hstep)
      (fun e he => htr e (List.mem_flatMap.mpr ⟨step, hstep, he⟩)) p
    exact ⟨hnests.counts.1, hnests.counts.2, Finished.idle⟩
  exists_flat := fun effect => NestedTransactions.exists_flat _
  content := by
    intro D effect g hg d
    rw [hrun.executes effect hops htr, h0]
    exact hg.executes d

def Finished.ofPure (op : Op) (before after : Session)
    (h : op.prog before = .pure (.ok, after)) : Finished where
  op := op
  before := before
  trace := []
  rest := .pure (.ok, after)
  emits := h ▸ .nil _
  code := .ok
  after := after
  returned := rfl

def deepened : Finished :=
  .ofPure .beginReadTransaction (unlockedSession 1) (unlockedSession 2) rfl

def risen : Finished :=
  .ofPure .rollbackTransaction (unlockedSession 2) (unlockedSession 1) rfl

def emptied : Finished where
  op := .deleteBy (some ⟨['t'], 0, [], none, none⟩) none
  before := unlockedSession 2
  trace := [⟨.prepare "DELETE FROM t ".toList sqlStmtMaxLen, (.ok, some 1)⟩, ⟨.step (some 1), .done⟩,
    ⟨.finalize (some 1), .ok⟩]
  rest := .pure (.ok, unlockedSession 2)
  emits := .cons _ _ _ (.cons _ _ _ (.cons _ _ _ (.nil _)))
  code := .ok
  after := unlockedSession 2
  returned := rfl

def ended : Finished where
  op := .commitTransaction
  before := unlockedSession 1
  trace := [⟨.prepare commitText sqlStmtMaxLen, (.ok, some 2)⟩, ⟨.step (some 2), .done⟩,
    ⟨.finalize (some 2), .ok⟩]
  rest := .pure (.ok, unlockedSession 0)
  emits := .cons _ _ _ (.cons _ _ _ (.cons _ _ _ (.nil _)))
  code := .ok
  after := unlockedSession 0
  returned := rfl

/-- The inner rollback does not undo what the outer commit keeps. -/
theorem refinesFlat_emptied :
    RefinesFlat (fun _ => ⟨[], []⟩) [begun, deepened, emptied, risen, ended] := by
  have hrun : Run (unlockedSession 0) [begun, deepened, emptied, risen, ended] (unlockedSession 0) :=
    .cons begun (.cons deepened (.cons emptied (.cons risen (.cons ended (.nil _)))))
  apply Run.refinesFlat hrun rfl
  · simp [Op.transacts, begun, deepened, emptied, risen, ended, Finished.ofPure, Op.isTransaction,
      Op.writesRows]
  · simp [begun, deepened, emptied, risen, ended, Finished.ofPure, Succeeds]

end Sorm
