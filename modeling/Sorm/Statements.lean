import Sorm.DisciplineRun

/-!
# The life of a statement

SQLite's side of the statement handles: `sqlite3_prepare` returns a handle never used before,
`sqlite3_finalize` destroys its statement whatever it answers, and `sqlite3_close` answers
`SQLITE_BUSY` exactly while a statement is left. A monitor that only looks at the handles follows
the transaction calls as well as all other operations.
-/

namespace Sorm

open Interaction Monitor

def Call.stmt : Call → Option Handle
  | .step stmt | .finalize stmt => stmt
  | c => c.usedStmt.join

/-- The handles prepared so far, and those of them that are not finalized. -/
structure Statements where
  prepared : Finset Handle
  live : Finset Handle
  live_sub : live ⊆ prepared

namespace Statements

def prepare (s : Statements) (h : Handle) : Statements where
  prepared := insert h s.prepared
  live := insert h s.live
  live_sub := Finset.insert_subset_insert h s.live_sub

def finalize (s : Statements) : Option Handle → Statements
  | none => s
  | some h => ⟨s.prepared, s.live.erase h, (Finset.erase_subset h s.live).trans s.live_sub⟩

/-- How SQLite answers, and the statements after the answer. -/
def Answers (s : Statements) : (c : Call) → Resp c → Statements → Prop
  | .prepare _ _, (.ok, some h), s' => h ∉ s.prepared ∧ s' = s.prepare h
  | .finalize stmt, _, s' => s' = s.finalize stmt
  | .close, ret, s' => (ret = .busy ↔ s.live.Nonempty) ∧ s' = s
  | _, _, s' => s' = s

end Statements

/-- Follows the statements and asks `asked` of every call. -/
def statementMonitor (asked : Statements → Call → Prop) : Monitor Resp Statements where
  ok := asked
  step s c r s' := s.Answers c r s'

def Call.leavesStatements : Call → Bool
  | .prepare _ _ | .finalize _ | .close => false
  | _ => true

theorem Statements.answers_of_leaves {s s' : Statements} {c : Call} {r : Resp c}
    (hc : c.leavesStatements) (h : s.Answers c r s') : s' = s := by
  cases c with
  | prepare | finalize | close => cases hc
  | _ => exact h

theorem Statements.answers_prepare {s s' : Statements} {sql : Text} {n : ℕ}
    {r : DbCode × Option Handle} (h : s.Answers (.prepare sql n) r s') :
    (∃ h', r = (.ok, some h') ∧ h' ∉ s.prepared ∧ s' = s.prepare h') ∨
      ((∀ h', r ≠ (.ok, some h')) ∧ s' = s) := by
  obtain ⟨code, stmt⟩ := r
  by_cases hr : ∃ h', (code, stmt) = (DbCode.ok, some h')
  · obtain ⟨h', heq⟩ := hr
    cases heq
    exact Or.inl ⟨h', rfl, h⟩
  · have hne : ∀ h', (code, stmt) ≠ (DbCode.ok, some h') := fun h' heq => hr ⟨h', heq⟩
    refine Or.inr ⟨hne, ?_⟩
    cases code with
    | ok =>
        cases stmt with
        | none => exact h
        | some h' => exact absurd rfl (hne h')
    | _ => exact h

theorem keeps_of_leaves {asked : Statements → Call → Prop} {P : Statements → Prop} {c : Call}
    (hc : c.leavesStatements) (hasked : ∀ s, P s → asked s c) :
    Keeps (statementMonitor asked) P (perform c) := by
  apply Triple.perform hasked
  intro s r s' hs hanswer
  rw [Statements.answers_of_leaves hc hanswer]
  exact hs

def heldHandles (hs : Multiset (Option Handle)) : Multiset Handle := hs.filterMap id

@[simp] theorem heldHandles_cons_none (hs : Multiset (Option Handle)) :
    heldHandles (none ::ₘ hs) = heldHandles hs := Multiset.filterMap_cons_none _ _ rfl

@[simp] theorem heldHandles_cons_some (h : Handle) (hs : Multiset (Option Handle)) :
    heldHandles (some h ::ₘ hs) = h ::ₘ heldHandles hs := Multiset.filterMap_cons_some _ _ _ rfl

theorem heldHandles_mono {hs hs' : Multiset (Option Handle)} (hle : hs ≤ hs') :
    heldHandles hs ≤ heldHandles hs' := Multiset.filterMap_le_filterMap _ hle

theorem mem_heldHandles {h : Handle} {hs : Multiset (Option Handle)} (hh : some h ∈ hs) :
    h ∈ heldHandles hs := (Multiset.mem_filterMap _ _).mpr ⟨some h, hh, rfl⟩

theorem Call.leaves_of_isLocal {c : Call} (hc : c.isLocal) : c.leavesStatements := by
  cases c with
  | prepare | finalize | close => cases hc
  | _ => rfl

theorem Call.leaves_of_isRowId {c : Call} (hc : c.isRowId) : c.leavesStatements := by
  cases c with
  | prepare | finalize | close => cases hc
  | _ => rfl

theorem Call.leaves_of_usedStmt {c : Call} {h : Option Handle} (hc : c.usedStmt = some h) :
    c.leavesStatements := by
  cases c with
  | prepare | finalize | close => cases hc
  | _ => rfl

theorem Call.leaves_of_isLock {c : Call} (hc : c.isLock) : c.leavesStatements := by
  cases c with
  | prepare | finalize | close => cases hc
  | _ => rfl

theorem Call.leaves_of_isUnlock {c : Call} (hc : c.isUnlock) : c.leavesStatements := by
  cases c with
  | prepare | finalize | close => cases hc
  | _ => rfl

section Run

variable {asked : Statements → Call → Prop} {s s' : Statements} {tr : List SormEvent} {h : Handle}

/-- A call prepares a new handle, finalizes one, or leaves the statements as they are. -/
theorem Statements.answers_cases {e : SormEvent} (hanswer : s.Answers e.1 e.2 s') :
    (∃ sql n h', e = ⟨.prepare sql n, (.ok, some h')⟩ ∧ h' ∉ s.prepared ∧ s' = s.prepare h') ∨
      (∃ h' r, e = ⟨.finalize (some h'), r⟩ ∧ s' = s.finalize (some h')) ∨ s' = s := by
  obtain ⟨c, r⟩ := e
  cases c with
  | prepare sql n =>
      rcases Statements.answers_prepare hanswer with ⟨h', rfl, hnew, hs⟩ | ⟨-, hs⟩
      · exact Or.inl ⟨sql, n, h', rfl, hnew, hs⟩
      · exact Or.inr (Or.inr hs)
  | finalize stmt =>
      cases stmt with
      | none => exact Or.inr (Or.inr hanswer)
      | some h' => exact Or.inr (Or.inl ⟨h', r, rfl, hanswer⟩)
  | close => exact Or.inr (Or.inr hanswer.2)
  | _ => exact Or.inr (Or.inr hanswer)

theorem Statements.prepared_mono {e : SormEvent} (hanswer : s.Answers e.1 e.2 s') :
    s.prepared ⊆ s'.prepared := by
  rcases Statements.answers_cases hanswer with ⟨-, -, h', -, -, rfl⟩ | ⟨h', -, -, rfl⟩ | rfl
  · exact Finset.subset_insert _ _
  · exact subset_rfl
  · exact subset_rfl

/-- A finalized handle is never prepared again. -/
theorem Statements.dead_of_dead {e : SormEvent} (hanswer : s.Answers e.1 e.2 s')
    (hprepared : h ∈ s.prepared) (hdead : h ∉ s.live) : h ∉ s'.live := by
  rcases Statements.answers_cases hanswer with ⟨-, -, h', -, hnew, rfl⟩ | ⟨h', -, -, rfl⟩ | rfl
  · intro hlive
    rcases Finset.mem_insert.mp hlive with rfl | hlive
    · exact hnew hprepared
    · exact hdead hlive
  · exact fun hlive => hdead (Finset.mem_of_mem_erase hlive)
  · exact hdead

theorem run_prepared_mono (hrun : (statementMonitor asked).Run s tr s') :
    s.prepared ⊆ s'.prepared := by
  induction hrun with
  | nil s => exact subset_rfl
  | cons hanswer _ ih => exact (Statements.prepared_mono hanswer).trans ih

theorem run_dead (hrun : (statementMonitor asked).Run s tr s') (hprepared : h ∈ s.prepared)
    (hdead : h ∉ s.live) : h ∉ s'.live := by
  induction hrun with
  | nil s => exact hdead
  | cons hanswer _ ih =>
      exact ih (Statements.prepared_mono hanswer hprepared)
        (Statements.dead_of_dead hanswer hprepared hdead)

/-- What has been passed to `sqlite3_finalize` is not live any more. -/
theorem run_finalized (hrun : (statementMonitor asked).Run s tr s') (hprepared : h ∈ s.prepared)
    {r : DbCode} (hfinal : (⟨.finalize (some h), r⟩ : SormEvent) ∈ tr) : h ∉ s'.live := by
  induction hrun with
  | nil s => cases hfinal
  | @cons s s' s'' e tr hanswer hrun ih =>
      have hprepared' := Statements.prepared_mono hanswer hprepared
      rcases List.mem_cons.mp hfinal with rfl | hfinal
      · obtain rfl : s' = s.finalize (some h) := hanswer
        exact run_dead hrun hprepared' (Finset.notMem_erase h s.live)
      · exact ih hprepared' hfinal

/-- A live statement that is not live at the end has been passed to `sqlite3_finalize`. -/
theorem run_live (hrun : (statementMonitor asked).Run s tr s') (hlive : h ∈ s.live)
    (hdead : h ∉ s'.live) : ∃ r, (⟨.finalize (some h), r⟩ : SormEvent) ∈ tr := by
  induction hrun with
  | nil s => exact absurd hlive hdead
  | @cons s s' s'' e tr hanswer hrun ih =>
      by_cases hlive' : h ∈ s'.live
      · obtain ⟨r, hr⟩ := ih hlive' hdead
        exact ⟨r, List.mem_cons_of_mem _ hr⟩
      · rcases Statements.answers_cases hanswer with
          ⟨-, -, h', -, -, rfl⟩ | ⟨h', r, rfl, rfl⟩ | rfl
        · exact absurd (Finset.mem_insert_of_mem hlive) hlive'
        · have hsame : h = h' := by
            by_contra hne
            exact hlive' (Finset.mem_erase.mpr ⟨hne, hlive⟩)
          subst hsame
          exact ⟨r, List.mem_cons_self⟩
        · exact absurd hlive hlive'

/-- A statement that has become live has been prepared. -/
theorem run_prepared (hrun : (statementMonitor asked).Run s tr s') (hlive : h ∈ s'.live)
    (hdead : h ∉ s.live) : ∃ tr₁ tr₂ sql n,
      tr = tr₁ ++ (⟨.prepare sql n, (DbCode.ok, some h)⟩ : SormEvent) :: tr₂ := by
  induction hrun with
  | nil s => exact absurd hlive hdead
  | @cons s s' s'' e tr hanswer hrun ih =>
      by_cases hlive' : h ∈ s'.live
      · rcases Statements.answers_cases hanswer with
          ⟨sql, n, h', rfl, -, rfl⟩ | ⟨h', -, -, rfl⟩ | rfl
        · rcases Finset.mem_insert.mp hlive' with rfl | hlive'
          · exact ⟨[], tr, sql, n, rfl⟩
          · exact absurd hlive' hdead
        · exact absurd (Finset.mem_of_mem_erase hlive') hdead
        · exact absurd hlive' hdead
      · obtain ⟨tr₁, tr₂, sql, n, rfl⟩ := ih hlive hlive'
        exact ⟨_ :: tr₁, tr₂, sql, n, rfl⟩

end Run

structure StatementHandling {σ : Type} (M : Monitor Resp σ)
    (Holds : Multiset (Option Handle) → σ → Prop) : Prop extends Handling M AnyText Holds where
  rowId : ∀ {hs : Multiset (Option Handle)} {c : Call}, c.isRowId → Keeps M (Holds hs) (perform c)
  step : ∀ {hs : Multiset (Option Handle)} {h : Option Handle}, h ∈ hs →
    Keeps M (Holds hs) (perform (.step h))
  lock : ∀ {hs : Multiset (Option Handle)} {c : Call}, c.isLock → Keeps M (Holds hs) (perform c)
  unlock : ∀ {hs : Multiset (Option Handle)} {c : Call}, c.isUnlock →
    Keeps M (Holds hs) (perform c)

namespace StatementHandling

variable {σ : Type} {M : Monitor Resp σ} {Holds : Multiset (Option Handle) → σ → Prop}
  {hs : Multiset (Option Handle)} (d : StatementHandling M Holds)

include d

theorem discipline (conn : Connection) : Discipline M conn AnyText Holds where
  toHandling := d.toHandling
  rowId := d.rowId
  step := fun rwFlag hh =>
    keeps_sqlite3Step (fun _ => d.lock) (fun _ => d.unlock) (d.step hh) conn rwFlag

/-- How the three transaction calls begin: one prepare and a bare step. -/
theorem prepareOnce_bind {α : Type} {Q : α → σ → Prop} (sqlStmt : Text)
    {k : DbCode × Option Handle → Act α}
    (hfailed : ∀ r, r.1 ≠ .ok → Triple M (Holds hs) (k r) Q)
    (hok : ∀ h, Triple M (Holds (h ::ₘ hs)) (k (.ok, h)) Q) :
    Triple M (Holds hs) (prepareOnce sqlStmt >>= k) Q := by
  apply Triple.bind (d.prepare trivial)
  rintro ⟨ret, h⟩
  by_cases hret : ret = .ok
  · subst hret
    exact hok h
  · simp only [hret, if_false]
    exact hfailed (ret, h) hret

theorem sormBeginTransaction (conn : Connection) (sqlStmt : Text) (rwlockFlag : RwlockFlag) :
    Keeps M (Holds hs) (sormBeginTransaction conn sqlStmt rwlockFlag) := by
  unfold Sorm.sormBeginTransaction
  split
  · apply d.prepareOnce_bind sqlStmt
    · intro r hret
      dsimp only
      rw [if_pos hret]
      exact Keeps.pure
    intro h
    apply Triple.bind (d.step (Multiset.mem_cons_self h hs))
    intro stepRet
    apply Triple.bind d.finalize
    intro ret
    split
    · exact Keeps.pure
    · by_cases hdone : stepRet = .done
      · simp only [hdone, ne_eq, not_true_eq_false, if_false, if_true]
        exact Keeps.pure
      · simp only [hdone, ne_eq, not_false_eq_true, if_true, reduceCtorEq, if_false]
        exact Keeps.bind (keeps_unlock (fun _ => d.unlock) conn) fun _ => Keeps.pure
  · split
    · exact Triple.stop
    · exact Keeps.pure

theorem sormCommitTransaction (conn : Connection) :
    Keeps M (Holds hs) (sormCommitTransaction conn) := by
  unfold Sorm.sormCommitTransaction
  split
  · exact Keeps.pure
  · split
    · split
      · exact Keeps.bind (keeps_fail _) fun _ => Keeps.pure
      · apply d.prepareOnce_bind
        · intro r hret
          dsimp only
          rw [if_pos hret]
          exact Keeps.pure
        intro h
        apply Triple.bind (d.step (Multiset.mem_cons_self h hs))
        intro stepRet
        apply Triple.bind d.finalize
        intro ret
        split
        · exact Keeps.pure
        · exact Keeps.bind (keeps_unlock (fun _ => d.unlock) _) fun _ => Keeps.pure
    · exact Keeps.pure

theorem sormRollbackTransaction (conn : Connection) :
    Keeps M (Holds hs) (sormRollbackTransaction conn) := by
  unfold Sorm.sormRollbackTransaction
  split
  · exact Keeps.pure
  · split
    · split
      · exact Keeps.bind (keeps_fail _) fun _ => Keeps.pure
      · apply d.prepareOnce_bind
        · intro r hret
          dsimp only
          rw [if_pos hret]
          exact Keeps.pure
        intro h
        apply Triple.bind (d.step (Multiset.mem_cons_self h hs))
        intro stepRet
        apply Triple.bind d.finalize
        intro ret
        split
        · exact Keeps.pure
        · exact Keeps.bind (keeps_unlock (fun _ => d.unlock) _) fun _ => Keeps.pure
    · exact Keeps.pure

theorem transactionOp (before : Session) (o : Op) (ht : o.isTransaction) :
    Triple M (Holds before.handles) (o.prog before) fun r s =>
      r.2.handles = before.handles ∧ Holds r.2.handles s := by
  have hconn : ∀ p : Act (SormError × Connection), Keeps M (Holds before.handles) p →
      Triple M (Holds before.handles) (before.onConn p) fun r s =>
        r.2.handles = before.handles ∧ Holds r.2.handles s :=
    fun p hp => Triple.bind hp fun _ => Triple.pure fun s hs => ⟨rfl, hs⟩
  cases o with
  | beginWriteTransaction => exact hconn _ (d.sormBeginTransaction _ _ _)
  | beginReadTransaction => exact hconn _ (d.sormBeginTransaction _ _ _)
  | commitTransaction => exact hconn _ (d.sormCommitTransaction _)
  | rollbackTransaction => exact hconn _ (d.sormRollbackTransaction _)
  | _ => exact absurd ht (by simp [Op.isTransaction])

/-- Every operation but a row write ends with the statements of the open iterators. -/
theorem op (before : Session) (o : Op) (hw : ¬ o.isRowWrite) :
    Triple M (Holds before.handles) (o.prog before) fun r s =>
      (¬ o.opensIterator → r.2.handles ≤ before.handles) ∧ Holds r.2.handles s := by
  by_cases ht : o.isTransaction
  · exact (d.transactionOp before o ht).post fun r s hs => ⟨fun _ => hs.1.le, hs.2⟩
  · exact ((d.discipline before.conn).op o ht hw).post fun r s hs => ⟨hs.1.handles, hs.2⟩

theorem op_of_drop (before : Session)
    (drop : ∀ {hs : Multiset (Option Handle)} {h : Option Handle} {s : σ}, Holds (h ::ₘ hs) s →
      Holds hs s) (o : Op) :
    Triple M (Holds before.handles) (o.prog before) fun r => Holds r.2.handles := by
  by_cases ht : o.isTransaction
  · exact (d.transactionOp before o ht).post fun r s hs => hs.2
  · exact ((d.discipline before.conn).op_of_drop drop o ht).post fun r s hs => hs.2

end StatementHandling
end Sorm
