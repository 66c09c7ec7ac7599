import Sorm.StatementText

/-!
# The transaction counter against SQLite

SQLite is seen here as the one bit whether a transaction is open. A failing statement may end the
transaction, and `sqlite3_finalize` answers the error of a failed step. `sorm_commit_transaction` and
`sorm_rollback_transaction` return from that error before they count down, so the counter is one too
high exactly when SQLite had already ended the transaction or ends it in the failing step.
-/

namespace Sorm

open Interaction Monitor

def DbCode.failed : DbCode → Bool
  | .busy | .other _ => true
  | _ => false

/-- SQLite as far as transactions go: whether one is open, the text of each prepared statement, and
whether its last step failed. -/
structure Engine where
  isOpen : Bool
  sql : Handle → Text
  failed : Handle → Bool

def IsBegin (sql : Text) : Prop := sql = beginWriteText ∨ sql = beginReadText

def IsEnd (sql : Text) : Prop := sql = commitText ∨ sql = rollbackText

/-- What a step of a statement may do to the transaction. A BEGIN needs that none is open, a COMMIT
or ROLLBACK that one is; any of them may fail, and then may end a transaction but never begins one.
Nothing is asked of other statements. -/
def Executes (sql : Text) (isOpen : Bool) (ret : DbCode) (isOpen' : Bool) : Prop :=
  (IsBegin sql → ret = .done ∧ isOpen = false ∧ isOpen' = true ∨
    ret.failed ∧ (isOpen' = true → isOpen = true)) ∧
  (IsEnd sql → ret = .done ∧ isOpen = true ∧ isOpen' = false ∨
    ret.failed ∧ (isOpen' = true → isOpen = true))

namespace Engine

def prepared (e : Engine) (h : Handle) (sql : Text) : Engine :=
  { e with sql := Function.update e.sql h sql, failed := Function.update e.failed h false }

def stepped (e : Engine) (h : Handle) (ret : DbCode) (isOpen : Bool) : Engine :=
  { e with isOpen, failed := Function.update e.failed h ret.failed }

/-- Only a text that is none of the four above may be prepared as the NULL statement. -/
def Step (e : Engine) : (c : Call) → Resp c → Engine → Prop
  | .prepare sql _, ret, e' =>
      if ret.1 = .ok then
        match ret.2 with
        | some h => e' = e.prepared h sql
        | none => ¬ IsBegin sql ∧ ¬ IsEnd sql ∧ e' = e
      else e' = e
  | .step (some h), ret, e' =>
      ∃ isOpen, Executes (e.sql h) e.isOpen ret isOpen ∧ e' = e.stepped h ret isOpen
  | .finalize (some h), ret, e' => (ret = .ok ↔ e.failed h = false) ∧ e' = e
  | _, _, e' => e' = e

end Engine

def engine : Monitor Resp Engine where
  ok _ _ := True
  step := Engine.Step

def stepFailed : SormEvent → Bool
  | ⟨.step _, ret⟩ => DbCode.failed ret
  | _ => false

def StepFails (tr : List SormEvent) : Prop := tr.any stepFailed

def executeOnce (conn : Connection) (sql : Text)
    (rest : SormError → Act (SormError × Connection)) : Act (SormError × Connection) := do
  let (ret, stmtHandle) ← prepareOnce sql
  if ret ≠ .ok then return (.dbError, conn)
  let ret ← perform (.step stmtHandle)
  let retVal := if ret ≠ .done then SormError.dbError else .ok
  let ret ← sqlite3Finalize stmtHandle
  if ret ≠ .ok then return (.dbError, conn)
  rest retVal

namespace Connection

variable (conn : Connection)

def counted (transactionNum : ℕ) : Connection := { conn with transactionNum }

def endedWith (retVal : SormError) (conn' : Connection) : Act (SormError × Connection) := do
  unlock conn'
  return (retVal, conn')

variable {conn}

theorem sormBeginTransaction_zero (h0 : conn.transactionNum = 0) (sql : Text)
    (rwlockFlag : RwlockFlag) : sormBeginTransaction conn sql rwlockFlag =
      executeOnce conn sql fun retVal =>
        if retVal = .ok then return (retVal, conn.counted 1) else endedWith retVal conn := by
  have h1 : conn.counted 1 = { conn with transactionNum := conn.transactionNum + 1 } := by
    rw [h0]
    rfl
  unfold sormBeginTransaction
  rw [if_pos h0, h1]
  rfl

theorem sormCommitTransaction_one (h1 : conn.transactionNum = 1) :
    sormCommitTransaction conn = executeOnce conn commitText fun retVal =>
      endedWith retVal (if retVal = .ok then conn.counted 0 else conn) := by
  have hbuf : Buf.empty.append commitText = .ok ⟨commitText, 18, [(0, 19)]⟩ := by decide
  have h0 : conn.counted 0 = { conn with transactionNum := conn.transactionNum - 1 } := by
    rw [h1]
    rfl
  unfold sormCommitTransaction
  rw [if_neg (by omega), if_pos h1, hbuf, h0]
  rfl

theorem sormRollbackTransaction_one (h1 : conn.transactionNum = 1) :
    sormRollbackTransaction conn = executeOnce conn rollbackText fun retVal =>
      endedWith retVal (conn.counted 0) := by
  have hbuf : Buf.empty.append rollbackText = .ok ⟨rollbackText, 20, [(0, 21)]⟩ := by decide
  have h0 : conn.counted 0 = { conn with transactionNum := conn.transactionNum - 1 } := by
    rw [h1]
    rfl
  unfold sormRollbackTransaction
  rw [if_neg (by omega), if_pos h1, hbuf, h0]
  rfl

end Connection

variable {conn : Connection} {e₀ : Engine}

/-- A call that is no step and leaves SQLite alone. -/
theorem engine_keeps {P : Engine → Prop → Prop} {c : Call} (hc : ∀ r, stepFailed ⟨c, r⟩ = false)
    (hstep : ∀ e r e', Engine.Step e c r e' → e' = e) :
    Keeps engine.logged (fun s => P s.1 (StepFails s.2)) (perform c) := by
  apply Triple.perform
  · exact fun s hs => trivial
  · rintro ⟨e, tr⟩ r ⟨e', tr'⟩ hs ⟨he, htr⟩
    dsimp only at he htr hs ⊢
    have hfails : StepFails tr' = StepFails tr := by simp [StepFails, htr, hc]
    rw [hstep e r e' he, hfails]
    exact hs

theorem engine_unlock {P : Engine → Prop → Prop} :
    Keeps engine.logged (fun s => P s.1 (StepFails s.2)) (unlock conn) := by
  apply keeps_unlock
  intro c hc
  cases c with
  | semV | rwUnlock => exact engine_keeps (fun _ => rfl) fun _ _ _ h => h
  | _ => cases hc

/-- A text of the four is prepared as a statement of its own, or not at all. -/
theorem engine_prepare {sql : Text} (hsql : IsBegin sql ∨ IsEnd sql) :
    Triple engine.logged (· = (e₀, [])) (prepareOnce sql) fun r s => ¬ StepFails s.2 ∧
      if r.1 = .ok then ∃ h, r.2 = some h ∧ s.1 = e₀.prepared h sql else s.1 = e₀ := by
  apply Triple.perform
  · exact fun s hs => trivial
  · rintro s ⟨ret, stmt⟩ ⟨e, tr⟩ rfl ⟨he, htr⟩
    dsimp only at he htr ⊢
    refine ⟨by simp [StepFails, htr, stepFailed], ?_⟩
    unfold engine Engine.Step at he
    dsimp only at he
    by_cases hret : ret = .ok
    · rw [if_pos hret] at he ⊢
      cases stmt with
      | some h => exact ⟨h, rfl, he⟩
      | none => exact absurd hsql (by simp [he.1, he.2.1])
    · rw [if_neg hret] at he ⊢
      exact he

theorem engine_step {sql : Text} {h : Handle} :
    Triple engine.logged (fun s => s.1 = e₀.prepared h sql ∧ ¬ StepFails s.2)
      (perform (.step (some h))) fun ret s => s.1.failed h = ret.failed ∧
        (StepFails s.2 ↔ ret.failed) ∧ Executes sql e₀.isOpen ret s.1.isOpen := by
  apply Triple.perform
  · exact fun s hs => trivial
  · rintro ⟨e, tr⟩ ret ⟨e', tr'⟩ ⟨he, htr⟩ ⟨⟨isOpen, hexec, he'⟩, htr'⟩
    dsimp only at he htr he' htr' hexec ⊢
    subst he he' htr'
    refine ⟨by simp [Engine.stepped], ?_, by simpa [Engine.prepared, Engine.stepped] using hexec⟩
    unfold StepFails at htr ⊢
    rw [List.any_append, Bool.or_eq_true, or_iff_right htr]
    simp [stepFailed]

/-- The answer of `sqlite3_finalize` tells whether the last step failed. -/
theorem engine_finalize {P : Engine → Prop → Prop} {h : Handle} {failed : Bool} :
    Triple engine.logged (fun s => s.1.failed h = failed ∧ P s.1 (StepFails s.2))
      (sqlite3Finalize (some h)) fun ret s =>
        (ret = .ok ↔ failed = false) ∧ P s.1 (StepFails s.2) := by
  apply Triple.retry
  apply Triple.perform
  · exact fun s hs => trivial
  · rintro ⟨e, tr⟩ ret ⟨e', tr'⟩ hs ⟨⟨hret, he⟩, htr⟩
    dsimp only at he hret htr hs ⊢
    have hfails : StepFails tr' = StepFails tr := by simp [StepFails, htr, stepFailed]
    rw [hs.1] at hret
    rw [he, hfails]
    split
    · exact ⟨hs, hret, hs.2⟩
    · exact ⟨hret, hs.2⟩

/-- A statement of the four, prepared and executed once. It is not prepared, or its step fails, or
it is done and the function goes on from there. -/
theorem engine_once {sql : Text} (hsql : IsBegin sql ∨ IsEnd sql)
    {rest : SormError → Act (SormError × Connection)}
    {Q : SormError × Connection → Engine × List SormEvent → Prop}
    (hprepare : ∀ s, s.1 = e₀ → ¬ StepFails s.2 → Q (.dbError, conn) s)
    (hfailed : ∀ s, (s.1.isOpen = true → e₀.isOpen = true) → StepFails s.2 → Q (.dbError, conn) s)
    (hdone : Triple engine.logged
      (fun s => Executes sql e₀.isOpen .done s.1.isOpen ∧ ¬ StepFails s.2) (rest .ok) Q) :
    Triple engine.logged (· = (e₀, [])) (executeOnce conn sql rest) Q := by
  apply Triple.bind (engine_prepare hsql)
  rintro ⟨ret, stmt⟩
  by_cases hret : ret = .ok
  · subst hret
    simp only [ne_eq, not_true_eq_false, if_false, if_true]
    rintro s ⟨hfails, h, rfl, hs⟩
    refine Triple.bind engine_step (fun ret => ?_) s ⟨hs, hfails⟩
    have hends : ∀ isOpen, Executes sql e₀.isOpen ret isOpen →
        ret = .done ∨ ret.failed ∧ (isOpen = true → e₀.isOpen = true) := by
      rintro isOpen ⟨hbegin, hend⟩
      rcases hsql with hsql | hsql
      · exact (hbegin hsql).imp_left And.left
      · exact (hend hsql).imp_left And.left
    apply Triple.bind (Q := fun ret' s => (ret' = .ok ↔ ret.failed = false) ∧
      (StepFails s.2 ↔ ret.failed) ∧ Executes sql e₀.isOpen ret s.1.isOpen)
    · exact engine_finalize (P := fun e fails => (fails ↔ ret.failed) ∧
        Executes sql e₀.isOpen ret e.isOpen)
    · rintro ret' s ⟨hret', hfails, hexec⟩
      rcases hends s.1.isOpen hexec with rfl | ⟨hret, hopen⟩
      · rw [if_neg (not_not.mpr (hret'.mpr rfl))]
        exact hdone s ⟨hexec, by simp [hfails, DbCode.failed]⟩
      · have herror : ret' ≠ .ok := by
          rw [ne_eq, hret', hret]
          decide
        rw [if_pos herror]
        exact hfailed s hopen (hfails.mpr hret)
  · simp only [hret, if_false, ne_eq, not_false_eq_true, if_true]
    exact Triple.pure fun s hs => hprepare s hs.2 hs.1

theorem isEnd_commitText : IsEnd commitText := Or.inl rfl

theorem isEnd_rollbackText : IsEnd rollbackText := Or.inr rfl

/-- What a commit or rollback made at 1 comes to: it is done and counts down, or it leaves the
counter and SQLite as they were, or its step failed. -/
inductive EndsAs (e₀ : Engine) (fails : Prop) : ℕ → Engine → Prop
  | done {e : Engine} (hopen : e₀.isOpen = true) (hclosed : e.isOpen = false) (hfails : ¬ fails) :
      EndsAs e₀ fails 0 e
  | unprepared (hfails : ¬ fails) : EndsAs e₀ fails 1 e₀
  | failed {e : Engine} (hopen : e.isOpen = true → e₀.isOpen = true) (hfails : fails) :
      EndsAs e₀ fails 1 e

theorem EndsAs.of_done {e : Engine} {fails : Prop} {sql : Text} (hsql : IsEnd sql)
    (hexec : Executes sql e₀.isOpen .done e.isOpen) (hfails : ¬ fails) : EndsAs e₀ fails 0 e := by
  obtain ⟨-, hopen, hclosed⟩ := (hexec.2 hsql).resolve_right fun h => absurd h.1 (by decide)
  exact .done hopen hclosed hfails

/-- The unlock that ends both functions changes nothing that is said of SQLite. -/
theorem endedWith_endsAs {sql : Text} (hsql : IsEnd sql) {conn' : Connection}
    (h0 : conn'.transactionNum = 0) (retVal : SormError) :
    Triple engine.logged (fun s => Executes sql e₀.isOpen .done s.1.isOpen ∧ ¬ StepFails s.2)
      (Connection.endedWith retVal conn')
      fun r s => EndsAs e₀ (StepFails s.2) r.2.transactionNum s.1 := by
  apply Triple.bind
  · exact engine_unlock (P := fun e fails => Executes sql e₀.isOpen .done e.isOpen ∧ ¬ fails)
  · intro _
    refine Triple.pure fun s hs => ?_
    rw [h0]
    exact .of_done hsql hs.1 hs.2

theorem executeOnce_endsAs {sql : Text} (hsql : IsEnd sql) (h1 : conn.transactionNum = 1)
    {conn' : SormError → Connection} (h0 : (conn' .ok).transactionNum = 0) :
    Triple engine.logged (· = (e₀, []))
      (executeOnce conn sql fun retVal => Connection.endedWith retVal (conn' retVal))
      fun r s => EndsAs e₀ (StepFails s.2) r.2.transactionNum s.1 := by
  apply engine_once (Or.inr hsql)
  · rintro s rfl hfails
    rw [h1]
    exact .unprepared hfails
  · intro s hopen hfails
    rw [h1]
    exact .failed hopen hfails
  · exact endedWith_endsAs hsql h0 .ok

theorem commit_endsAs (h1 : conn.transactionNum = 1) :
    Triple engine.logged (· = (e₀, [])) (sormCommitTransaction conn)
      fun r s => EndsAs e₀ (StepFails s.2) r.2.transactionNum s.1 := by
  rw [Connection.sormCommitTransaction_one h1]
  exact executeOnce_endsAs isEnd_commitText h1 rfl

theorem rollback_endsAs (h1 : conn.transactionNum = 1) :
    Triple engine.logged (· = (e₀, [])) (sormRollbackTransaction conn)
      fun r s => EndsAs e₀ (StepFails s.2) r.2.transactionNum s.1 := by
  rw [Connection.sormRollbackTransaction_one h1]
  exact executeOnce_endsAs isEnd_rollbackText h1 rfl

/-- A begin made at 0 leaves the counter at 1 exactly when it opens a transaction. -/
theorem begin_opens {sql : Text} (hsql : IsBegin sql) (h0 : conn.transactionNum = 0)
    (hclosed : e₀.isOpen = false) (rwlockFlag : RwlockFlag) :
    Triple engine.logged (· = (e₀, [])) (sormBeginTransaction conn sql rwlockFlag)
      fun r s => 0 < r.2.transactionNum ↔ s.1.isOpen = true := by
  rw [Connection.sormBeginTransaction_zero h0]
  apply engine_once (Or.inl hsql)
  · rintro s rfl -
    simp [h0, hclosed]
  · intro s hopen _
    have hshut : s.1.isOpen = false := by
      rw [hclosed] at hopen
      simpa using hopen
    simp [h0, hshut]
  · refine Triple.pure fun s hs => ?_
    obtain ⟨-, -, hopen⟩ := (hs.1.1 hsql).resolve_right fun h => absurd h.1 (by decide)
    simp [hopen, Connection.counted]

def Op.isEnd : Op → Bool
  | .commitTransaction | .rollbackTransaction => true
  | _ => false

def Finished.EndsLast (step : Finished) : Prop :=
  step.op.isEnd ∧ step.before.conn.transactionNum = 1

def ForEachCall (e : Engine) (steps : List Finished) (P : Finished → Engine → Engine → Prop) :
    Prop :=
  ∀ steps₁ step steps₂ e₁ e₂, steps = steps₁ ++ step :: steps₂ →
    engine.Run e (runTrace steps₁) e₁ → engine.Run e₁ step.trace e₂ → P step e₁ e₂

/-- Whenever a commit or rollback made at 1 returns, the counter is 0 exactly when SQLite has no
open transaction. -/
def CounterFollows (e : Engine) (steps : List Finished) : Prop :=
  ForEachCall e steps fun step _ e₂ =>
    step.EndsLast → (step.after.conn.transactionNum = 0 ↔ e₂.isOpen = false)

/-- SQLite has the transaction open when it is to be ended, and if ending it fails it stays so. -/
def EndsOpen (e : Engine) (steps : List Finished) : Prop :=
  ForEachCall e steps fun step e₁ e₂ =>
    step.EndsLast → e₁.isOpen = true ∧ (StepFails step.trace → e₂.isOpen = true)

/-- No failing step of a begin, commit or rollback ends a transaction, and the other operations
leave it open or closed as it was. -/
def NeverByItself (e : Engine) (steps : List Finished) : Prop :=
  ForEachCall e steps fun step e₁ e₂ =>
    (step.op.isTransaction → StepFails step.trace) → e₂.isOpen = e₁.isOpen

theorem EndsAs.counter_iff {e : Engine} {fails : Prop} {n : ℕ} (h : EndsAs e₀ fails n e) :
    (n = 0 ↔ e.isOpen = false) ↔ e₀.isOpen = true ∧ (fails → e.isOpen = true) := by
  cases h with
  | done hopen hclosed hfails => simp [hopen, hclosed, hfails]
  | unprepared hfails => simp [hfails]
  | failed hopen hfails =>
      have hboth : e.isOpen = true ↔ e₀.isOpen = true ∧ e.isOpen = true :=
        ⟨fun h => ⟨hopen h, h⟩, And.right⟩
      simpa [hfails] using hboth

theorem EndsAs.tracks {e : Engine} {fails : Prop} {n : ℕ} (h : EndsAs e₀ fails n e)
    (hopen : e₀.isOpen = true) (hself : fails → e.isOpen = e₀.isOpen) :
    0 < n ↔ e.isOpen = true := by
  cases h with
  | done _ hclosed _ => simp [hclosed]
  | unprepared _ => simp [hopen]
  | failed _ hfails => simp [hself hfails, hopen]

theorem Finished.endsAs {step : Finished} (h : step.EndsLast) {e₁ e₂ : Engine}
    (hr : engine.Run e₁ step.trace e₂) :
    EndsAs e₁ (StepFails step.trace) step.after.conn.transactionNum e₂ := by
  obtain ⟨hend, h1⟩ := h
  have hop : Triple engine.logged (· = (e₁, [])) (step.op.prog step.before)
      fun r s => EndsAs e₁ (StepFails s.2) r.2.conn.transactionNum s.1 := by
    cases hop : step.op with
    | commitTransaction => exact Triple.bind (commit_endsAs h1) fun _ => Triple.pure fun _ hs => hs
    | rollbackTransaction =>
        exact Triple.bind (rollback_endsAs h1) fun _ => Triple.pure fun _ hs => hs
    | _ =>
        rw [hop] at hend
        cases hend
  exact hop.returns rfl step.emits_pure (hr.logged [])

theorem counterFollows_iff_endsOpen (e : Engine) (steps : List Finished) :
    CounterFollows e steps ↔ EndsOpen e steps := by
  constructor
  · intro h steps₁ step steps₂ e₁ e₂ hsplit h₁ h₂ hlast
    exact (Finished.endsAs hlast h₂).counter_iff.mp (h _ _ _ _ _ hsplit h₁ h₂ hlast)
  · intro h steps₁ step steps₂ e₁ e₂ hsplit h₁ h₂ hlast
    exact (Finished.endsAs hlast h₂).counter_iff.mpr (h _ _ _ _ _ hsplit h₁ h₂ hlast)

def Tracks (s : Session) (e : Engine) : Prop := 0 < s.conn.transactionNum ↔ e.isOpen = true

theorem Finished.conn_eq {step : Finished} (ht : ¬ step.op.isTransaction) :
    step.after.conn = step.before.conn := by
  have hop := (prepare_discipline AnyText step.before.conn).op_of_drop (fun h => h) step.op ht
  exact (hop.returns trivial step.emits_pure (fold_run () step.trace)).1.conn

/-- A begin at a counter that is not 0, and a commit or rollback at one that is not 1, only count. -/
theorem Tracks.transaction {before : Session} {o : Op} (h : Tracks before e₀)
    (ht : o.isTransaction) (hend : ¬ (o.isEnd ∧ before.conn.transactionNum = 1)) :
    Triple engine.logged (· = (e₀, [])) (o.prog before) fun r s => Tracks r.2 s.1 := by
  have hbegin : ∀ sql rwlockFlag, IsBegin sql → Triple engine.logged (· = (e₀, []))
      (before.onConn (sormBeginTransaction before.conn sql rwlockFlag))
      fun r s => Tracks r.2 s.1 := by
    intro sql rwlockFlag hsql
    by_cases h0 : before.conn.transactionNum = 0
    · have hclosed : e₀.isOpen = false := by simpa [Tracks, h0] using h
      exact Triple.bind (begin_opens hsql h0 hclosed rwlockFlag) fun _ => Triple.pure fun _ hs => hs
    · unfold sormBeginTransaction Session.onConn
      rw [if_neg h0]
      split
      · exact Triple.stop
      · refine Triple.pure ?_
        rintro s rfl
        have hopen := h.mp (by omega)
        simp [Tracks, hopen]
  have hcount : ∀ n, (0 < n ↔ 0 < before.conn.transactionNum) →
      Tracks { before with conn := { before.conn with transactionNum := n } } e₀ :=
    fun n hn => hn.trans h
  cases o with
  | beginWriteTransaction => exact hbegin _ _ (Or.inl rfl)
  | beginReadTransaction => exact hbegin _ _ (Or.inr rfl)
  | commitTransaction =>
      have h1 : before.conn.transactionNum ≠ 1 := fun h1 => hend ⟨rfl, h1⟩
      change Triple _ _ (before.onConn (sormCommitTransaction before.conn)) _
      unfold sormCommitTransaction Session.onConn
      by_cases h0 : before.conn.transactionNum = 0
      · rw [if_pos h0, pure_bind]
        refine Triple.pure ?_
        rintro s rfl
        exact h
      · rw [if_neg h0, if_neg h1, pure_bind]
        refine Triple.pure ?_
        rintro s rfl
        exact hcount _ (by omega)
  | rollbackTransaction =>
      have h1 : before.conn.transactionNum ≠ 1 := fun h1 => hend ⟨rfl, h1⟩
      change Triple _ _ (before.onConn (sormRollbackTransaction before.conn)) _
      unfold sormRollbackTransaction Session.onConn
      by_cases h0 : before.conn.transactionNum = 0
      · rw [if_pos h0, pure_bind]
        refine Triple.pure ?_
        rintro s rfl
        exact h
      · rw [if_neg h0, if_neg h1, pure_bind]
        refine Triple.pure ?_
        rintro s rfl
        exact hcount _ (by omega)
  | _ => cases ht

/-- What one operation keeps, unless it ends or opens a transaction by itself. -/
theorem Finished.tracks {step : Finished} {e₁ e₂ : Engine} (h : Tracks step.before e₁)
    (hr : engine.Run e₁ step.trace e₂)
    (hself : (step.op.isTransaction → StepFails step.trace) → e₂.isOpen = e₁.isOpen) :
    Tracks step.after e₂ := by
  by_cases hlast : step.EndsLast
  · have hopen : e₁.isOpen = true := h.mp (by rw [hlast.2]; exact Nat.one_pos)
    exact (Finished.endsAs hlast hr).tracks hopen fun hfails => hself fun _ => hfails
  · by_cases ht : step.op.isTransaction
    · have hop := h.transaction ht hlast
      exact hop.returns rfl step.emits_pure (hr.logged [])
    · unfold Tracks
      rw [Finished.conn_eq ht, hself fun h => absurd h ht]
      exact h

/-- From a closed connection at 0, SQLite has a transaction open at every commit or rollback made
at 1, as long as none ends or opens by itself. -/
theorem Run.endsOpen {start final : Session} {e : Engine} {steps : List Finished}
    (hrun : Run start steps final) (h : Tracks start e) (hself : NeverByItself e steps) :
    EndsOpen e steps := by
  intro steps₁ step steps₂ e₁ e₂ hsplit h₁ h₂ hlast
  have htracks : Tracks step.before e₁ := by
    subst hsplit
    clear h₂ hlast
    induction steps₁ generalizing start e with
    | nil =>
        cases h₁
        cases hrun
        exact h
    | cons first steps₁ ih =>
        rw [runTrace_cons] at h₁
        obtain ⟨e', hfirst, hrest⟩ := h₁.split
        cases hrun with
        | cons _ hrun =>
            have hnext := Finished.tracks h hfirst
              (hself [] first _ e e' rfl (.nil _) hfirst)
            apply ih hnext hrest hrun
            intro steps₁' step' steps₂' e₁' e₂' hsplit' h₁' h₂'
            exact hself (first :: steps₁') step' steps₂' e₁' e₂' (congrArg (first :: ·) hsplit')
              (hfirst.append h₁') h₂'
  have hopen : e₁.isOpen = true := htracks.mp (by rw [hlast.2]; exact Nat.one_pos)
  refine ⟨hopen, fun hfails => ?_⟩
  rw [hself _ _ _ _ _ hsplit h₁ h₂ fun _ => hfails]
  exact hopen

/-- The counter follows SQLite exactly in the runs in which every last commit or rollback finds a
transaction open and does not fail by ending it; so it does when SQLite never ends one by itself. -/
theorem counterFollows_iff {start final : Session} {steps : List Finished}
    (hrun : Run start steps final) (e : Engine) :
    (CounterFollows e steps ↔ EndsOpen e steps) ∧
    (start.conn.transactionNum = 0 → e.isOpen = false → NeverByItself e steps →
      CounterFollows e steps) := by
  refine ⟨counterFollows_iff_endsOpen e steps, fun h0 hclosed hself => ?_⟩
  rw [counterFollows_iff_endsOpen]
  exact hrun.endsOpen (by simp [Tracks, h0, hclosed]) hself

def unlockedSession (transactionNum : ℕ) : Session := ⟨⟨transactionNum, 1024, 0⟩, []⟩

def begun : Finished where
  op := .beginWriteTransaction
  before := unlockedSession 0
  trace := [⟨.prepare beginWriteText sqlStmtMaxLen, (.ok, some 0)⟩, ⟨.step (some 0), .done⟩,
    ⟨.finalize (some 0), .ok⟩]
  rest := .pure (.ok, unlockedSession 1)
  emits := .cons _ _ _ (.cons _ _ _ (.cons _ _ _ (.nil _)))
  code := .ok
  after := unlockedSession 1
  returned := rfl

def dropT : CString := ⟨"DROP TABLE t".toList, by decide⟩

def ruinous : Finished where
  op := .runStmt dropT .write
  before := unlockedSession 1
  trace := [⟨.prepare dropT.chars sqlStmtMaxLen, (.ok, some 1)⟩, ⟨.step (some 1), .other 13⟩,
    ⟨.finalize (some 1), .other 13⟩]
  rest := .pure (.dbError, unlockedSession 1)
  emits := .cons _ _ _ (.cons _ _ _ (.cons _ _ _ (.nil _)))
  code := .dbError
  after := unlockedSession 1
  returned := rfl

def failedRollback : Finished where
  op := .rollbackTransaction
  before := unlockedSession 1
  trace := [⟨.prepare rollbackText sqlStmtMaxLen, (.ok, some 2)⟩, ⟨.step (some 2), .other 1⟩,
    ⟨.finalize (some 2), .other 1⟩]
  rest := .pure (.dbError, unlockedSession 1)
  emits := .cons _ _ _ (.cons _ _ _ (.cons _ _ _ (.nil _)))
  code := .dbError
  after := unlockedSession 1
  returned := rfl

def closedEngine : Engine := ⟨false, fun _ => [], fun _ => false⟩

def ruinedEngine : Engine :=
  (((closedEngine.prepared 0 beginWriteText).stepped 0 .done true).prepared 1 dropT.chars).stepped 1
    (.other 13) false

theorem ruined_run : Run (unlockedSession 0) [begun, ruinous, failedRollback] (unlockedSession 1) ∧
    engine.Run closedEngine (runTrace [begun, ruinous]) ruinedEngine ∧
    engine.Run ruinedEngine failedRollback.trace
      ((ruinedEngine.prepared 2 rollbackText).stepped 2 (.other 1) false) := by
  have hbegin : Executes beginWriteText false .done true :=
    ⟨fun _ => Or.inl ⟨rfl, rfl, rfl⟩, fun h => absurd h (by unfold IsEnd; decide)⟩
  have hdrop : Executes dropT.chars true (.other 13) false :=
    ⟨fun _ => Or.inr ⟨rfl, nofun⟩, fun _ => Or.inr ⟨rfl, nofun⟩⟩
  have hrollback : Executes rollbackText false (.other 1) false :=
    ⟨fun _ => Or.inr ⟨rfl, nofun⟩, fun _ => Or.inr ⟨rfl, nofun⟩⟩
  refine ⟨.cons begun (.cons ruinous (.cons failedRollback (.nil _))), ?_, ?_⟩
  · refine .cons rfl (.cons ⟨true, hbegin, rfl⟩ (.cons ⟨by decide, rfl⟩ ?_))
    exact .cons rfl (.cons ⟨false, hdrop, rfl⟩ (.cons ⟨by decide, rfl⟩ (.nil _)))
  · exact .cons rfl (.cons ⟨false, hrollback, rfl⟩ (.cons ⟨by decide, rfl⟩ (.nil _)))

/-- The rollback returns with the counter at 1, and SQLite has no transaction. -/
theorem not_counterFollows : ¬ ∀ (start final : Session) (e : Engine) (steps : List Finished),
    Run start steps final → start.conn.transactionNum = 0 → e.isOpen = false →
      CounterFollows e steps := by
  intro h
  obtain ⟨hrun, h₁, h₂⟩ := ruined_run
  have hzero := (h _ _ closedEngine _ hrun rfl rfl [begun, ruinous] failedRollback [] _ _ rfl h₁ h₂
    ⟨rfl, rfl⟩).mpr rfl
  cases hzero

theorem counterFollows_iff_ruined :
    ¬ CounterFollows closedEngine [begun, ruinous, failedRollback] := by
  obtain ⟨hrun, h₁, h₂⟩ := ruined_run
  intro h
  have hopen := (counterFollows_iff hrun closedEngine).1.mp h [begun, ruinous] failedRollback [] _ _
    rfl h₁ h₂ ⟨rfl, rfl⟩
  cases hopen.1

end Sorm
