import Sorm.DisciplineRun

/-!
# Lock balance

Outside of a transaction every operation releases the lock as often as it takes it, and never
without holding it. `sorm_begin_transaction` takes no lock, so the balance is lost exactly when a
begin gets past its finalize.
-/

namespace Sorm

open Interaction Monitor

/-- What a call adds to the number of locks held. -/
def Call.lockChange (c : Call) : ℤ := (if c.isLock then 1 else 0) - (if c.isUnlock then 1 else 0)

def lockBalance (tr : List SormEvent) : ℤ := (tr.map fun e => e.1.lockChange).sum

@[simp] theorem lockBalance_nil : lockBalance [] = 0 := rfl

@[simp] theorem lockBalance_cons (e : SormEvent) (tr : List SormEvent) :
    lockBalance (e :: tr) = e.1.lockChange + lockBalance tr := rfl

@[simp] theorem lockBalance_append (tr tr' : List SormEvent) :
    lockBalance (tr ++ tr') = lockBalance tr + lockBalance tr' := by
  simp [lockBalance]

def UnlocksHeld (tr : List SormEvent) : Prop :=
  ∀ tr₁ e tr₂, tr = tr₁ ++ e :: tr₂ → e.1.isUnlock → 0 < lockBalance tr₁

def Connection.locking (conn : Connection) : Bool :=
  sormSemaphoreEnabled conn.flags || sormRwlockEnabled conn.flags

def lockMonitor (asked : ℤ → Call → Prop) : Monitor Resp ℤ :=
  .fold asked fun L e => L + e.1.lockChange

theorem lockMonitor_run (asked : ℤ → Call → Prop) (L : ℤ) (tr : List SormEvent) :
    (lockMonitor asked).Run L tr (L + lockBalance tr) := by
  have hfold : tr.foldl (fun L e => L + e.1.lockChange) L = L + lockBalance tr := by
    induction tr generalizing L with
    | nil => simp
    | cons e tr ih =>
        rw [List.foldl_cons, ih, lockBalance_cons]
        omega
  rw [← hfold]
  exact fold_run L tr

def Connection.owns (conn : Connection) : Call → Prop
  | .semP key | .semV key => sormSemaphoreEnabled conn.flags ∧ key = conn.semKey
  | .rdlock | .wrlock | .rwUnlock => sormSemaphoreEnabled conn.flags = false
  | _ => True

/-- The lock is taken when it is not held and released when it is. -/
def Connection.locksOnce (conn : Connection) (L : ℤ) (c : Call) : Prop :=
  (c.isLock → L = 0) ∧ (c.isUnlock → L = 1) ∧ conn.owns c

variable {conn : Connection} {n : ℤ} {asked : ℤ → Call → Prop}

theorem triple_lockChange {c : Call} (hasked : asked n c) :
    Triple (lockMonitor asked) (· = n) (perform c) fun _ L => L = n + c.lockChange := by
  apply Triple.perform
  · intro L hL
    rw [hL]
    exact hasked
  · intro L r L' hL hL'
    rw [hL', hL]

theorem keeps_of_lockChange {c : Call} (hc : c.lockChange = 0) (hasked : asked n c) :
    Keeps (lockMonitor asked) (· = n) (perform c) := by
  apply (triple_lockChange hasked).post
  intro r L hL
  omega

theorem triple_lock (hlock : conn.locking) (rwlockFlag : RwlockFlag)
    (hasked : ∀ c : Call, c.isLock → conn.owns c → asked n c) :
    Triple (lockMonitor asked) (· = n) (lock conn rwlockFlag) fun _ L => L = n + 1 := by
  have hanswer : ∀ ret : Bool, Keeps (lockMonitor asked) (· = n + 1)
      (if ret then return () else abort : Act Unit) := by
    intro ret
    cases ret with
    | true => exact Keeps.pure
    | false => exact keeps_abort
  unfold lock
  by_cases hsem : sormSemaphoreEnabled conn.flags
  · rw [if_pos hsem]
    exact triple_lockChange (hasked _ rfl ⟨hsem, rfl⟩)
  · have hrw : sormRwlockEnabled conn.flags := by simpa [Connection.locking, hsem] using hlock
    have howns : sormSemaphoreEnabled conn.flags = false := by simpa using hsem
    rw [if_neg hsem, if_pos hrw]
    cases rwlockFlag with
    | read => exact Triple.bind (triple_lockChange (hasked .rdlock rfl howns)) hanswer
    | write => exact Triple.bind (triple_lockChange (hasked .wrlock rfl howns)) hanswer

theorem triple_unlock (hlock : conn.locking)
    (hasked : ∀ c : Call, c.isUnlock → conn.owns c → asked n c) :
    Triple (lockMonitor asked) (· = n) (unlock conn) fun _ L => L = n - 1 := by
  unfold unlock
  by_cases hsem : sormSemaphoreEnabled conn.flags
  · rw [if_pos hsem]
    exact triple_lockChange (hasked _ rfl ⟨hsem, rfl⟩)
  · have hrw : sormRwlockEnabled conn.flags := by simpa [Connection.locking, hsem] using hlock
    have howns : sormSemaphoreEnabled conn.flags = false := by simpa using hsem
    rw [if_neg hsem, if_pos hrw]
    apply Triple.bind (triple_lockChange (hasked .rwUnlock rfl howns))
    intro ret
    cases ret with
    | true => exact Keeps.pure
    | false => exact keeps_abort

/-- Outside of a transaction a step is made between a lock and its unlock. -/
theorem step_balanced (hlock : conn.locking) (h0 : conn.transactionNum = 0)
    (stmtHandle : Option Handle) (rwFlag : RwlockFlag) :
    Keeps (lockMonitor conn.locksOnce) (· = 0) (sqlite3Step conn stmtHandle rwFlag) := by
  rw [sqlite3Step_outside h0]
  apply Triple.bind (triple_lock hlock rwFlag ?_)
  · intro _
    have hstep : Keeps (lockMonitor conn.locksOnce) (· = 0 + 1) (perform (.step stmtHandle)) :=
      keeps_of_lockChange rfl ⟨nofun, nofun, trivial⟩
    apply Triple.bind (Keeps.retry _ hstep)
    intro ret
    apply Triple.bind (triple_unlock hlock ?_)
    · intro _
      exact Triple.pure fun L hL => by omega
    · intro c hc howns
      refine ⟨fun h => ?_, fun _ => rfl, howns⟩
      cases c with
      | semV | rwUnlock => cases h
      | _ => cases hc
  · intro c hc howns
    refine ⟨fun _ => rfl, fun h => ?_, howns⟩
    cases c with
    | semP | rdlock | wrlock => cases h
    | _ => cases hc

theorem lock_discipline (hlock : conn.locking) (h0 : conn.transactionNum = 0) :
    Discipline (lockMonitor conn.locksOnce) conn AnyText fun _ L => L = 0 where
  isLocal := by
    intro hs c hc
    cases c with
    | malloc | strdup | free => exact keeps_of_lockChange rfl ⟨nofun, nofun, trivial⟩
    | _ => cases hc
  rowId := by
    intro hs c hc
    cases c with
    | lastInsertRowid | uninitialised =>
        exact keeps_of_lockChange rfl ⟨nofun, nofun, trivial⟩
    | _ => cases hc
  use := by
    intro hs c h hc hh
    cases c with
    | bind | columnType | columnInt | columnInt64 | columnDouble | columnText | columnBlob
    | columnBytes => exact keeps_of_lockChange rfl ⟨nofun, nofun, trivial⟩
    | _ => cases hc
  prepare := by
    intro hs sqlStmt _
    apply (keeps_of_lockChange rfl ⟨nofun, nofun, trivial⟩).post
    intro r L hL
    split
    · exact hL
    · exact hL
  finalize := Keeps.retry _ (keeps_of_lockChange rfl ⟨nofun, nofun, trivial⟩)
  step := fun rwFlag _ => step_balanced hlock h0 _ rwFlag

def finalizedOk : SormEvent → Bool
  | ⟨.finalize _, ret⟩ => ret == (.ok : DbCode)
  | _ => false

variable {before : Session}

/-- A begin that does not get past its finalize leaves everything as it was. -/
theorem begin_balanced (h0 : conn.transactionNum = 0) (sqlStmt : Text) (rwlockFlag : RwlockFlag) :
    Triple ((lockMonitor conn.locksOnce).assuming fun e => finalizedOk e = false) (· = 0)
      (sormBeginTransaction conn sqlStmt rwlockFlag) fun r L => r.2 = conn ∧ L = 0 := by
  unfold sormBeginTransaction
  rw [if_pos h0]
  apply Triple.bind (Triple.assuming (keeps_of_lockChange rfl ⟨nofun, nofun, trivial⟩))
  rintro ⟨ret, stmtHandle⟩
  dsimp only
  split
  · exact Triple.pure fun L hL => ⟨rfl, hL⟩
  · apply Triple.bind (Triple.assuming (keeps_of_lockChange rfl ⟨nofun, nofun, trivial⟩))
    intro stepRet
    have hfinalize : Triple ((lockMonitor conn.locksOnce).assuming fun e => finalizedOk e = false)
        (· = 0) (sqlite3Finalize stmtHandle) fun ret L => ret ≠ .ok ∧ L = 0 := by
      apply Triple.retry
      apply Triple.perform
      · exact fun L hL => ⟨nofun, nofun, trivial⟩
      · rintro L ret L' hL ⟨hL', hret⟩
        have hne : ret ≠ .ok := by simpa [finalizedOk] using hret
        have hzero : L' = 0 := by
          rw [hL', hL]
          rfl
        split
        · exact ⟨hzero, hne, hzero⟩
        · exact ⟨hne, hzero⟩
    apply Triple.bind hfinalize
    intro ret L hL
    rw [if_pos hL.1]
    exact ⟨rfl, hL.2⟩

/-- A begin that gets past its finalize opens a transaction without a lock, or releases a lock it
does not have. -/
theorem begin_unbalanced (hlock : conn.locking) (h0 : conn.transactionNum = 0) (sqlStmt : Text)
    (rwlockFlag : RwlockFlag) :
    Triple (lockMonitor fun _ _ => True).logged (fun s => s.1 = 0 ∧ s.2.any finalizedOk = false)
      (sormBeginTransaction conn sqlStmt rwlockFlag) fun r s =>
        s.2.any finalizedOk = true → (r.2.transactionNum = 1 ∧ s.1 = 0) ∨ s.1 = -1 := by
  have hperform : ∀ c : Call, c.lockChange = 0 →
      Triple (lockMonitor fun _ _ => True).logged
        (fun s => s.1 = 0 ∧ s.2.any finalizedOk = false) (perform c) fun r s =>
          s.1 = 0 ∧ s.2.any finalizedOk = finalizedOk ⟨c, r⟩ := by
    intro c hc
    apply Triple.perform
    · exact fun s hs => trivial
    · rintro s r s' ⟨h₁, h₂⟩ ⟨h₁', h₂'⟩
      have hchange : s'.1 = s.1 + c.lockChange := h₁'
      refine ⟨by omega, ?_⟩
      rw [h₂', List.any_append, h₂, Bool.false_or, List.any_cons, List.any_nil, Bool.or_false]
  unfold sormBeginTransaction
  rw [if_pos h0]
  apply Triple.bind (hperform _ rfl)
  rintro ⟨ret, stmtHandle⟩
  dsimp only
  split
  · exact Triple.pure fun s hs h => by simp [hs.2, finalizedOk] at h
  · apply Triple.bind (hperform (.step stmtHandle) rfl)
    intro stepRet
    have hfinalize : Triple (lockMonitor fun _ _ => True).logged
        (fun s => s.1 = 0 ∧ s.2.any finalizedOk = false) (sqlite3Finalize stmtHandle)
        fun ret s => s.1 = 0 ∧ s.2.any finalizedOk = (ret == .ok) := by
      apply Triple.retry
      apply (hperform _ rfl).post
      rintro ret s ⟨hzero, hok⟩
      split
      · next hbusy =>
          have hb : ret = .busy := by simpa using hbusy
          subst hb
          exact ⟨⟨hzero, hok⟩, hzero, hok⟩
      · exact ⟨hzero, hok⟩
    apply Triple.bind hfinalize
    intro ret
    split
    · next hret =>
        refine Triple.pure fun s hs h => ?_
        rw [hs.2] at h
        exact absurd (by simpa using h) hret
    · by_cases hdone : stepRet = .done
      · simp only [hdone, ne_eq, not_true_eq_false, if_false, if_true]
        exact Triple.pure fun s hs _ => Or.inl ⟨by simp only [h0], hs.1⟩
      · simp only [hdone, ne_eq, not_false_eq_true, if_true, reduceCtorEq, if_false]
        have hunlock : Triple (lockMonitor fun _ _ => True) (· = 0) (unlock conn)
            fun _ L => L = 0 - 1 := triple_unlock hlock fun _ _ _ => trivial
        apply Triple.bind (hunlock.logged.mono (fun s hs => hs.1) fun _ _ hs => hs)
        intro _
        exact Triple.pure fun s hs _ => Or.inr (by omega)

def Started.BeginsUnlocked (step : Started) : Prop :=
  step.op.isBegin ∧ step.before.conn.transactionNum = 0 ∧ step.trace.any finalizedOk

/-- What every operation but such a begin does when no transaction is open. -/
theorem op_balanced (hlock : before.conn.locking) (h0 : before.conn.transactionNum = 0) (o : Op) :
    Triple ((lockMonitor before.conn.locksOnce).assuming fun e => o.isBegin → finalizedOk e = false)
      (· = 0) (o.prog before) fun r L => r.2.conn = before.conn ∧ L = 0 := by
  have hbegin : ∀ sqlStmt rwlockFlag,
      Triple ((lockMonitor before.conn.locksOnce).assuming fun e => true → finalizedOk e = false)
        (· = 0) (before.onConn (sormBeginTransaction before.conn sqlStmt rwlockFlag))
        fun r L => r.2.conn = before.conn ∧ L = 0 := by
    intro sqlStmt rwlockFlag
    simp only [forall_const]
    exact Triple.bind (begin_balanced h0 sqlStmt rwlockFlag) fun r =>
      Triple.pure fun L hL => hL
  by_cases ht : o.isTransaction
  · cases o with
    | beginWriteTransaction => exact hbegin _ _
    | beginReadTransaction => exact hbegin _ _
    | commitTransaction =>
        simp only [Op.prog, sormCommitTransaction, h0, if_true]
        exact Triple.pure fun L hL => ⟨rfl, hL⟩
    | rollbackTransaction =>
        simp only [Op.prog, sormRollbackTransaction, h0, if_true]
        exact Triple.pure fun L hL => ⟨rfl, hL⟩
    | _ => exact absurd ht (by simp [Op.isTransaction])
  · have hop := (lock_discipline hlock h0).op_of_drop (fun hL => hL) o ht
    exact hop.assuming.post fun r L hL => ⟨hL.1.conn, hL.2⟩

/-- Along a trace the lock is taken only when it is not held and released only when it is. -/
def Connection.LocksOnce (conn : Connection) (tr : List SormEvent) : Prop :=
  ∀ tr₁ e tr₂, tr = tr₁ ++ e :: tr₂ → conn.locksOnce (lockBalance tr₁) e.1

namespace Connection.LocksOnce

variable {tr tr' : List SormEvent}

theorem of_wp {α : Type} {p q : Act α} {Q : α → ℤ → Prop} {A : SormEvent → Prop}
    (h : wp ((lockMonitor conn.locksOnce).assuming A) p Q 0) (he : p.Emits tr q)
    (hA : ∀ e ∈ tr, A e) : conn.LocksOnce tr := by
  rintro tr₁ e tr₂ rfl
  have hrun := (lockMonitor_run conn.locksOnce 0 tr₁).assuming fun e h =>
    hA e (List.mem_append_left _ h)
  have hok := wp_ok h he hrun
  rwa [zero_add] at hok

theorem append (h : conn.LocksOnce tr) (hzero : lockBalance tr = 0) (h' : conn.LocksOnce tr') :
    conn.LocksOnce (tr ++ tr') := by
  intro tr₁ e tr₂ heq
  rcases List.append_eq_append_iff.mp heq with ⟨as, rfl, htr'⟩ | ⟨cs, htr, hcs⟩
  · rw [lockBalance_append, hzero, zero_add]
    exact h' as e tr₂ htr'
  · cases cs with
    | nil =>
        rw [List.append_nil] at htr
        rw [← htr, hzero]
        exact h' [] e tr₂ hcs.symm
    | cons c cs =>
        obtain ⟨rfl, rfl⟩ := List.cons.inj hcs
        exact h tr₁ e cs htr

theorem unlocksHeld (h : conn.LocksOnce tr) : UnlocksHeld tr := by
  intro tr₁ e tr₂ heq hu
  have hone := (h tr₁ e tr₂ heq).2.1 hu
  omega

end Connection.LocksOnce

section Step

variable {step : Started} (h0 : step.before.conn.transactionNum = 0)

include h0

theorem Started.assumption (hb : ¬ step.BeginsUnlocked) :
    ∀ e ∈ step.trace, step.op.isBegin → finalizedOk e = false := by
  intro e he hbegin
  by_contra hne
  have htrue : finalizedOk e = true := by simpa using hne
  exact hb ⟨hbegin, h0, List.any_eq_true.mpr ⟨e, he, htrue⟩⟩

theorem Started.locksOnce (hlock : step.before.conn.locking) (hb : ¬ step.BeginsUnlocked) :
    step.before.conn.LocksOnce step.trace :=
  .of_wp (op_balanced hlock h0 step.op 0 rfl) step.emits (Started.assumption h0 hb)

end Step

section Finished

variable {step : Finished} (hlock : step.before.conn.locking)
  (h0 : step.before.conn.transactionNum = 0)

include hlock h0

theorem Finished.balanced (hb : ¬ step.BeginsUnlocked) :
    step.after.conn = step.before.conn ∧ lockBalance step.trace = 0 := by
  have hrun := (lockMonitor_run step.before.conn.locksOnce 0 step.trace).assuming
    (Started.assumption h0 hb)
  have hpost := (op_balanced hlock h0 step.op).returns rfl step.emits_pure hrun
  rwa [zero_add] at hpost

theorem Finished.unbalanced (hb : step.BeginsUnlocked) :
    (step.after.conn.transactionNum = 1 ∧ lockBalance step.trace = 0) ∨
      lockBalance step.trace = -1 := by
  obtain ⟨hbegin, -, hfinalized⟩ := hb
  have hrun := (lockMonitor_run (fun _ _ => True) 0 step.trace).logged []
  rw [zero_add, List.nil_append] at hrun
  have hop : Triple (lockMonitor fun _ _ => True).logged
      (fun s => s.1 = 0 ∧ s.2.any finalizedOk = false) (step.op.prog step.before) fun r s =>
        s.2.any finalizedOk = true → (r.2.conn.transactionNum = 1 ∧ s.1 = 0) ∨ s.1 = -1 := by
    cases hop : step.op with
    | beginWriteTransaction =>
        exact Triple.bind (begin_unbalanced hlock h0 _ .write) fun r => Triple.pure fun s hs => hs
    | beginReadTransaction =>
        exact Triple.bind (begin_unbalanced hlock h0 _ .read) fun r => Triple.pure fun s hs => hs
    | _ =>
        rw [hop] at hbegin
        exact absurd hbegin (by simp [Op.isBegin])
  exact hop.returns ⟨rfl, rfl⟩ step.emits_pure hrun hfinalized

end Finished

/-- Between the operations the lock is held exactly in an open transaction, and it is never
released while it is not held. -/
def LockBalanced (start : Session) (steps : List Finished) : Prop :=
  (∀ steps₁ steps₂ s, steps = steps₁ ++ steps₂ → Run start steps₁ s →
    lockBalance (runTrace steps₁) = if 0 < s.conn.transactionNum then 1 else 0) ∧
  UnlocksHeld (runTrace steps)

section Run

variable {start final : Session} {steps : List Finished} (hlock : start.conn.locking)
  (h0 : start.conn.transactionNum = 0)

include hlock h0

/-- A run without such a begin leaves no lock and never opens a transaction. -/
theorem Run.balanced (hrun : Run start steps final)
    (hb : ∀ step ∈ steps, ¬ step.BeginsUnlocked) :
    final.conn = start.conn ∧ lockBalance (runTrace steps) = 0 ∧
      start.conn.LocksOnce (runTrace steps) := by
  induction hrun with
  | nil s =>
      refine ⟨rfl, rfl, ?_⟩
      intro tr₁ e tr₂ h
      simp at h
  | cons step hrun ih =>
      have hstep := hb step List.mem_cons_self
      obtain ⟨hconn, hzero⟩ := Finished.balanced hlock h0 hstep
      have honce := Started.locksOnce h0 hlock hstep
      obtain ⟨hconn', hzero', honce'⟩ := ih (by rwa [hconn]) (by rwa [hconn])
        fun step' h => hb step' (List.mem_cons_of_mem _ h)
      refine ⟨hconn'.trans hconn, ?_, ?_⟩
      · rw [runTrace_cons, lockBalance_append, hzero, hzero', add_zero]
      · rw [hconn] at honce'
        exact honce.append hzero honce'

/-- So does the operation that follows such a run, as far as it has come. -/
theorem Run.locksOnce (hrun : Run start steps final)
    (hb : ∀ step ∈ steps, ¬ step.BeginsUnlocked) {last : Started} (hlast : last.before = final)
    (hb' : ¬ last.BeginsUnlocked) : start.conn.LocksOnce (runTrace steps ++ last.trace) := by
  subst hlast
  obtain ⟨hconn, hzero, honce⟩ := Run.balanced hlock h0 hrun hb
  have honce' := Started.locksOnce (by rwa [hconn]) (by rwa [hconn]) hb'
  rw [hconn] at honce'
  exact honce.append hzero honce'

theorem Run.lockBalanced (hrun : Run start steps final)
    (hb : ∀ step ∈ steps, ¬ step.BeginsUnlocked) : LockBalanced start steps := by
  refine ⟨?_, (Run.balanced hlock h0 hrun hb).2.2.unlocksHeld⟩
  rintro steps₁ steps₂ s rfl hrun₁
  obtain ⟨hconn, hzero, -⟩ := Run.balanced hlock h0 hrun₁ fun step h =>
    hb step (List.mem_append_left _ h)
  rw [hzero, hconn, h0]
  rfl

/-- The first begin that gets past its finalize ends the balance. -/
theorem Run.not_beginsUnlocked (hrun : Run start steps final)
    (hbound : ∀ steps₁ steps₂ s, steps = steps₁ ++ steps₂ → Run start steps₁ s →
      lockBalance (runTrace steps₁) = if 0 < s.conn.transactionNum then 1 else 0) :
    ∀ step ∈ steps, ¬ step.BeginsUnlocked := by
  induction hrun with
  | nil s => simp
  | @cons step steps final hrun ih =>
      have hhead : ¬ step.BeginsUnlocked := by
        intro hb
        have hbal := hbound [step] _ step.after rfl (.cons step (.nil _))
        rw [runTrace_cons, runTrace_nil, List.append_nil] at hbal
        rcases Finished.unbalanced hlock h0 hb with ⟨hnum, hzero⟩ | hneg
        · rw [hzero, hnum] at hbal
          simp at hbal
        · rw [hneg] at hbal
          split at hbal
          · omega
          · omega
      obtain ⟨hconn, hzero⟩ := Finished.balanced hlock h0 hhead
      intro step' h
      rcases List.mem_cons.mp h with rfl | h
      · exact hhead
      · apply ih (by rwa [hconn]) (by rwa [hconn]) _ step' h
        rintro steps₁ steps₂ s rfl hrun₁
        have hbal := hbound (step :: steps₁) steps₂ s rfl (.cons step hrun₁)
        rwa [runTrace_cons, lockBalance_append, hzero, zero_add] at hbal

/-- Exactly the runs in which no begin made outside of a transaction gets past its finalize are
balanced, and such a run stays balanced inside of its next operation. -/
theorem lockBalanced_iff (hrun : Run start steps final) :
    (LockBalanced start steps ↔ ∀ step ∈ steps, ¬ step.BeginsUnlocked) ∧
    ((∀ step ∈ steps, ¬ step.BeginsUnlocked) → ∀ last : Started, last.before = final →
      ¬ last.BeginsUnlocked → UnlocksHeld (runTrace steps ++ last.trace)) := by
  refine ⟨⟨fun hbal => Run.not_beginsUnlocked hlock h0 hrun hbal.1,
    Run.lockBalanced hlock h0 hrun⟩, ?_⟩
  rintro hb last rfl hlast
  exact (Run.locksOnce hlock h0 hrun hb rfl hlast).unlocksHeld

end Run

def semaphoreSession : Session := ⟨⟨0, 1024, sormEnableSemaphore⟩, []⟩

def begunTransaction : Finished where
  op := .beginWriteTransaction
  before := semaphoreSession
  trace := [⟨.prepare beginWriteText sqlStmtMaxLen, (.ok, some 0)⟩, ⟨.step (some 0), .done⟩,
    ⟨.finalize (some 0), .ok⟩]
  rest := .pure (.ok, ⟨⟨1, 1024, sormEnableSemaphore⟩, []⟩)
  emits := .cons _ _ _ (.cons _ _ _ (.cons _ _ _ (.nil _)))
  code := .ok
  after := ⟨⟨1, 1024, sormEnableSemaphore⟩, []⟩
  returned := rfl

theorem begunTransaction_beginsUnlocked : begunTransaction.BeginsUnlocked := by
  refine ⟨rfl, rfl, rfl⟩

/-- The transaction is open and the lock is not held. -/
theorem not_lockBalanced :
    ¬ ∀ (start : Session) (steps : List Finished) (final : Session), start.conn.locking →
      start.conn.transactionNum = 0 → Run start steps final → LockBalanced start steps := by
  intro h
  have hrun : Run semaphoreSession [begunTransaction] begunTransaction.after :=
    .cons begunTransaction (.nil _)
  have hbal := (h _ _ _ rfl rfl hrun).1 [begunTransaction] [] _ rfl hrun
  exact absurd hbal (by decide)

theorem lockBalanced_iff_begunTransaction :
    Run semaphoreSession [begunTransaction] begunTransaction.after ∧
      ¬ LockBalanced semaphoreSession [begunTransaction] := by
  have hrun : Run semaphoreSession [begunTransaction] begunTransaction.after :=
    .cons begunTransaction (.nil _)
  refine ⟨hrun, fun h => ?_⟩
  exact (lockBalanced_iff rfl rfl hrun).1.mp h begunTransaction (by simp)
    begunTransaction_beginsUnlocked

end Sorm
