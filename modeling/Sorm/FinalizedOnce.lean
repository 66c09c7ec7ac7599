import Sorm.Close

/-!
# Statements are not used after they are finalized

Every call is made on a statement that is live as long as `sqlite3_finalize` does not answer
`SQLITE_BUSY`. `_sqlite3_finalize` takes that answer for a request to try again and finalizes the
destroyed statement a second time.
-/

namespace Sorm

open Interaction Monitor

/-- No call works on a statement that has been finalized. -/
def FinalizedOnce (tr : List SormEvent) : Prop :=
  ∀ tr₁ tr₂ h r e, tr = tr₁ ++ (⟨.finalize (some h), r⟩ : SormEvent) :: tr₂ → e ∈ tr₂ →
    e.1.stmt ≠ some h

def BusyFinalize (tr : List SormEvent) : Prop :=
  ∃ h, (⟨.finalize (some h), .busy⟩ : SormEvent) ∈ tr

theorem FinalizedOnce.of_append {tr tr' : List SormEvent} (h : FinalizedOnce (tr ++ tr')) :
    FinalizedOnce tr := by
  rintro tr₁ tr₂ h' r e rfl he
  refine h tr₁ (tr₂ ++ tr') h' r e ?_ (List.mem_append_left _ he)
  rw [List.append_assoc, List.cons_append]

def UsesLive (s : Statements) (c : Call) : Prop := ∀ h, c.stmt = some h → h ∈ s.live

abbrev liveMonitor : Monitor Resp Statements :=
  (statementMonitor UsesLive).assuming fun e => ∀ h, e ≠ ⟨.finalize (some h), .busy⟩

def Held (hs : Multiset (Option Handle)) (s : Statements) : Prop := heldHandles hs ≤ s.live.val

theorem Held.mem {hs : Multiset (Option Handle)} {s : Statements} {h : Handle} (hheld : Held hs s)
    (hmem : some h ∈ hs) : h ∈ s.live :=
  Finset.mem_val.mp (Multiset.mem_of_le hheld (mem_heldHandles hmem))

theorem Held.drop {hs : Multiset (Option Handle)} {h : Option Handle} {s : Statements}
    (hheld : Held (h ::ₘ hs) s) : Held hs s :=
  (heldHandles_mono (Multiset.le_cons_self hs h)).trans hheld

theorem held_finalize {hs : Multiset (Option Handle)} (h : Option Handle) :
    Triple liveMonitor (Held (h ::ₘ hs)) (sqlite3Finalize h) fun _ => Held hs := by
  cases h with
  | none =>
      have hkeeps : Keeps liveMonitor (Held hs) (sqlite3Finalize none) := by
        apply Keeps.retry
        apply Triple.perform
        · intro s hs h hstmt
          cases hstmt
        · intro s r s' hs hanswer
          obtain rfl : s' = s := hanswer.1
          exact hs
      exact hkeeps.mono (fun s hs => hs.drop) fun _ _ hs => hs
  | some h =>
      apply Triple.retry
      apply Triple.perform
      · intro s hs h' hstmt
        obtain rfl : h = h' := Option.some.inj hstmt
        exact hs.mem (Multiset.mem_cons_self _ _)
      · intro s r s' hheld hanswer
        obtain rfl : s' = s.finalize (some h) := hanswer.1
        have hbusy : r ≠ .busy := by
          rintro rfl
          exact hanswer.2 h rfl
        have hheld' : Held hs (s.finalize (some h)) := by
          unfold Held at hheld
          rw [heldHandles_cons_some] at hheld
          change heldHandles hs ≤ (s.live.erase h).val
          rw [Finset.erase_val, ← Multiset.erase_cons_head h (heldHandles hs)]
          exact Multiset.erase_le_erase h hheld
        simpa [hbusy] using hheld'

theorem held_prepare {hs : Multiset (Option Handle)} (sqlStmt : Text) :
    Triple liveMonitor (Held hs) (perform (.prepare sqlStmt sqlStmtMaxLen)) fun r s =>
      if r.1 = .ok then Held (r.2 ::ₘ hs) s else Held hs s := by
  apply Triple.perform
  · intro s hs h hstmt
    cases hstmt
  · intro s r s' hheld hanswer
    rcases Statements.answers_prepare hanswer.1 with ⟨h, rfl, hnew, rfl⟩ | ⟨hr, rfl⟩
    · have hdead : h ∉ s.live := fun hlive => hnew (s.live_sub hlive)
      change heldHandles (some h ::ₘ hs) ≤ (insert h s.live).val
      rw [heldHandles_cons_some, Finset.insert_val_of_notMem hdead]
      exact Multiset.cons_le_cons h hheld
    · obtain ⟨code, stmt⟩ := r
      by_cases hcode : code = .ok
      · subst hcode
        cases stmt with
        | none =>
            change heldHandles (none ::ₘ hs) ≤ s'.live.val
            rwa [heldHandles_cons_none]
        | some h => exact absurd rfl (hr h)
      · simpa only [hcode, if_false] using hheld

theorem usesLive_none {s : Statements} {c : Call} (hc : c.stmt = none) : UsesLive s c := by
  intro h hstmt
  rw [hc] at hstmt
  cases hstmt

theorem held_handling : StatementHandling liveMonitor Held where
  isLocal := by
    intro hs c hc
    refine (keeps_of_leaves (Call.leaves_of_isLocal hc) fun s _ => usesLive_none ?_).assuming
    cases c with
    | malloc | strdup | free => rfl
    | _ => cases hc
  use := by
    intro hs c h hc hh
    refine (keeps_of_leaves (Call.leaves_of_usedStmt hc) fun s hs h' hstmt => ?_).assuming
    have hjoin : c.stmt = h := by
      cases c with
      | bind | columnType | columnInt | columnInt64 | columnDouble | columnText | columnBlob
      | columnBytes => exact Option.some.inj hc
      | _ => cases hc
    obtain rfl : h = some h' := hjoin.symm.trans hstmt
    exact hs.mem hh
  rowId := by
    intro hs c hc
    refine (keeps_of_leaves (Call.leaves_of_isRowId hc) fun s _ => usesLive_none ?_).assuming
    cases c with
    | lastInsertRowid | uninitialised => rfl
    | _ => cases hc
  step := by
    intro hs h hh
    refine (keeps_of_leaves rfl fun s hs h' hstmt => ?_).assuming
    obtain rfl : h = some h' := hstmt
    exact hs.mem hh
  lock := by
    intro hs c hc
    refine (keeps_of_leaves (Call.leaves_of_isLock hc) fun s _ => usesLive_none ?_).assuming
    cases c with
    | semP | rdlock | wrlock => rfl
    | _ => cases hc
  unlock := by
    intro hs c hc
    refine (keeps_of_leaves (Call.leaves_of_isUnlock hc) fun s _ => usesLive_none ?_).assuming
    cases c with
    | semV | rwUnlock => rfl
    | _ => cases hc
  finalize := held_finalize _
  prepare := fun _ => held_prepare _

theorem program_held (ops : List Op) (s : Session) :
    Triple liveMonitor (Held s.handles) (program s ops) fun s => Held s.handles :=
  program_triple (fun op _ s => held_handling.op_of_drop s Held.drop op) s

/-- If every call is made on a live statement, none is made on a finalized one. -/
theorem finalizedOnce_of_live {tr : List SormEvent} {m m' : Statements}
    (hsql : (statementMonitor UsesLive).Run m tr m')
    (hlive : ∀ tr₁ e tr₂ m₁, tr = tr₁ ++ e :: tr₂ → (statementMonitor UsesLive).Run m tr₁ m₁ →
      UsesLive m₁ e.1) : FinalizedOnce tr := by
  rintro tr₁ tr₂ h r e rfl he hstmt
  obtain ⟨tr₃, tr₄, rfl⟩ := List.append_of_mem he
  obtain ⟨m₁, hfirst, hrest⟩ := hsql.split
  cases hrest with
  | @cons _ m₂ _ _ _ hfinal hrest =>
      obtain ⟨m₃, hmiddle, -⟩ := hrest.split
      obtain rfl : m₂ = m₁.finalize (some h) := hfinal
      have hbefore : h ∈ m₁.live := hlive tr₁ _ _ m₁ rfl hfirst h rfl
      have hafter : h ∈ m₃.live := by
        apply hlive (tr₁ ++ (⟨.finalize (some h), r⟩ : SormEvent) :: tr₃) e tr₄ m₃ (by simp)
        · exact hfirst.append (.cons rfl hmiddle)
        · exact hstmt
      exact run_dead hmiddle (m₁.live_sub hbefore) (Finset.notMem_erase h m₁.live) hafter

theorem run_asked {asked asked' : Statements → Call → Prop} {tr : List SormEvent}
    {m m' : Statements} (h : (statementMonitor asked).Run m tr m') :
    (statementMonitor asked').Run m tr m' := by
  induction h with
  | nil s => exact .nil s
  | cons hs _ ih => exact .cons hs ih

/-- A statement whose finalize was answered `SQLITE_BUSY` has been used again. -/
def Repeats (tr : List SormEvent) : Prop := BusyFinalize tr → ¬ FinalizedOnce tr

theorem Repeats.append {tr : List SormEvent} {e : SormEvent} (hrep : Repeats tr)
    (he : ∀ h, e ≠ ⟨.finalize (some h), .busy⟩) : Repeats (tr ++ [e]) := by
  rintro ⟨h, hbusy⟩ honce
  rcases List.mem_append.mp hbusy with hbusy | hbusy
  · exact hrep ⟨h, hbusy⟩ honce.of_append
  · exact he h (List.mem_singleton.mp hbusy).symm

theorem not_finalizedOnce_append {tr : List SormEvent} {h : Handle} {r r' : DbCode}
    (hfinal : (⟨.finalize (some h), r⟩ : SormEvent) ∈ tr) :
    ¬ FinalizedOnce (tr ++ [⟨.finalize (some h), r'⟩]) := by
  intro honce
  obtain ⟨tr₁, tr₂, rfl⟩ := List.append_of_mem hfinal
  refine honce tr₁ (tr₂ ++ [⟨.finalize (some h), r'⟩]) h r ⟨.finalize (some h), r'⟩ ?_ ?_ rfl
  · rw [List.append_assoc, List.cons_append]
  · exact List.mem_append_right _ (List.mem_singleton_self _)

theorem repeats_keeps {c : Call} (hc : ∀ h, c ≠ .finalize (some h)) :
    Keeps sqlite.logged (fun s => Repeats s.2) (perform c) := by
  apply keeps_log Repeats
  intro log r hrep
  apply hrep.append
  intro h heq
  cases heq
  exact hc h rfl

/-- The first answer `SQLITE_BUSY` is followed by another finalize. -/
theorem repeats_finalize (h : Option Handle) :
    Keeps sqlite.logged (fun s => Repeats s.2) (sqlite3Finalize h) := by
  cases h with
  | none => exact Keeps.retry _ (repeats_keeps fun h => by simp)
  | some h =>
      have hfirst : Triple sqlite.logged (fun s => Repeats s.2) (perform (.finalize (some h)))
          fun r s => if r = .busy then ∃ r', (⟨.finalize (some h), r'⟩ : SormEvent) ∈ s.2
            else Repeats s.2 := by
        apply Triple.perform
        · exact fun s hs => trivial
        · rintro s r s' hrep ⟨-, hlog⟩
          rw [hlog]
          split
          · exact ⟨r, by simp⟩
          · next hbusy =>
              apply hrep.append
              intro h' heq
              cases heq
              exact hbusy rfl
      have hagain : Triple sqlite.logged
          (fun s => ∃ r', (⟨.finalize (some h), r'⟩ : SormEvent) ∈ s.2)
          (Prog.retry (fun ret : DbCode => ret == .busy) (perform (.finalize (some h))) 8)
          fun _ s => Repeats s.2 := by
        apply Triple.retry
        apply Triple.perform
        · exact fun s hs => trivial
        · rintro s r s' ⟨r', hfinal⟩ ⟨-, hlog⟩
          have hnot : Repeats s'.2 := by
            rw [hlog]
            exact fun _ => not_finalizedOnce_append hfinal
          split
          · refine ⟨⟨r', ?_⟩, hnot⟩
            rw [hlog]
            exact List.mem_append_left _ hfinal
          · exact hnot
      change Keeps sqlite.logged _ (do
        let r ← perform (.finalize (some h))
        if r == .busy then
          Prog.retry (fun ret : DbCode => ret == .busy) (perform (.finalize (some h))) 8
        else return r)
      apply Triple.bind hfirst
      intro r
      by_cases hbusy : r = .busy
      · subst hbusy
        exact hagain
      · simp only [hbusy, beq_iff_eq, if_false]
        exact Triple.pure fun s hs => hs

theorem repeats_handling :
    StatementHandling sqlite.logged fun _ s => Repeats s.2 where
  isLocal := fun hc => repeats_keeps fun h heq => by simp [heq, Call.isLocal] at hc
  use := fun hc _ => repeats_keeps fun h heq => by simp [heq, Call.usedStmt] at hc
  rowId := fun hc => repeats_keeps fun h heq => by simp [heq, Call.isRowId] at hc
  step := fun _ => repeats_keeps fun h heq => by cases heq
  lock := fun hc => repeats_keeps fun h heq => by simp [heq, Call.isLock] at hc
  unlock := fun hc => repeats_keeps fun h heq => by simp [heq, Call.isUnlock] at hc
  finalize := repeats_finalize _
  prepare := by
    intro hs sqlStmt _
    have hkeeps : Keeps sqlite.logged (fun s => Repeats s.2)
        (perform (.prepare sqlStmt sqlStmtMaxLen)) := repeats_keeps fun h heq => by cases heq
    apply hkeeps.post
    intro r s hs
    split
    · exact hs
    · exact hs

section Run

variable {start final : Session} {steps : List Finished} {m m' : Statements}

theorem program_finalizedOnce {ops : List Op} {tr : List SormEvent} {q : Act Session}
    (hemits : (program start ops).Emits tr q) (hheld : Held start.handles m)
    (hsql : sqlite.Run m tr m') (hbusy : ¬ BusyFinalize tr) : FinalizedOnce tr := by
  have hno : ∀ e ∈ tr, ∀ h, e ≠ (⟨.finalize (some h), .busy⟩ : SormEvent) := by
    rintro e he h rfl
    exact hbusy ⟨h, he⟩
  apply finalizedOnce_of_live (run_asked hsql)
  rintro tr₁ e tr₂ m₁ rfl hfirst
  have hassume : liveMonitor.Run m tr₁ m₁ :=
    hfirst.assuming fun e' he' => hno e' (List.mem_append_left _ he')
  exact wp_ok (program_held ops start m hheld) hemits hassume

theorem Run.repeats (hrun : Run start steps final) (hsql : sqlite.Run m (runTrace steps) m') :
    Repeats (runTrace steps) := by
  have hnone : Repeats [] := fun ⟨h, hbusy⟩ => absurd hbusy List.not_mem_nil
  have hkeeps : Keeps sqlite.logged (fun s => Repeats s.2)
      (program start (steps.map fun step : Finished => step.op)) :=
    program_triple (fun op _ s => repeats_handling.op_of_drop s (fun hs => hs) op) start
  have hemits := hrun.emits []
  rw [List.append_nil] at hemits
  exact hkeeps.returns (s := (m, [])) hnone hemits (hsql.logged [])

/-- In a run no finalized statement is used exactly when no finalize is answered `SQLITE_BUSY`;
and none is used by the operation under way as long as that holds. -/
theorem finalizedOnce_iff (hrun : Run start steps final) (hheld : Held start.handles m)
    (hsql : sqlite.Run m (runTrace steps) m') :
    (FinalizedOnce (runTrace steps) ↔ ¬ BusyFinalize (runTrace steps)) ∧
    ∀ (last : Started) (m'' : Statements), last.before = final →
      sqlite.Run m' last.trace m'' → ¬ BusyFinalize (runTrace steps ++ last.trace) →
      FinalizedOnce (runTrace steps ++ last.trace) := by
  refine ⟨⟨fun honce hbusy => hrun.repeats hsql hbusy honce, ?_⟩, ?_⟩
  · exact program_finalizedOnce (hrun.emits []) hheld hsql
  · rintro last m'' rfl hlast hbusy
    exact program_finalizedOnce hrun.emits_started hheld (hsql.append hlast) hbusy

end Run

def lastStepOf (h : Handle) (tr : List SormEvent) : Option DbCode :=
  lastStep (tr.filter fun e => e.1.stmt == some h)

/-- `sqlite3_finalize` of a statement not finalized before answers the code of the statement's last
step, if that failed. -/
def LegacyFinalize (tr : List SormEvent) : Prop :=
  ∀ tr₁ tr₂ h r, tr = tr₁ ++ (⟨.finalize (some h), r⟩ : SormEvent) :: tr₂ →
    (∀ r', (⟨.finalize (some h), r'⟩ : SormEvent) ∉ tr₁) →
    ∀ ret, lastStepOf h tr₁ = some ret → r = if ret = .row ∨ ret = .done then .ok else ret

def busyRunStmt : Finished where
  op := .runStmt ⟨"DELETE FROM t".toList, by decide⟩ .write
  before := plainSession
  trace := [⟨.prepare "DELETE FROM t".toList sqlStmtMaxLen, (.ok, some 0)⟩,
    ⟨.step (some 0), .busy⟩, ⟨.step (some 0), .busy⟩, ⟨.step (some 0), .busy⟩,
    ⟨.step (some 0), .busy⟩, ⟨.step (some 0), .busy⟩, ⟨.step (some 0), .busy⟩,
    ⟨.step (some 0), .busy⟩, ⟨.step (some 0), .busy⟩, ⟨.step (some 0), .busy⟩,
    ⟨.step (some 0), .busy⟩, ⟨.finalize (some 0), .busy⟩, ⟨.finalize (some 0), .other 21⟩]
  rest := return (.dbError, plainSession)
  emits := by
    iterate 13 refine .cons _ _ _ ?_
    exact .nil _
  code := .dbError
  after := plainSession
  returned := rfl

theorem busyRunStmt_run : Run plainSession [busyRunStmt] plainSession ∧
    sqlite.Run noStatements (runTrace [busyRunStmt])
      (((noStatements.prepare 0).finalize (some 0)).finalize (some 0)) := by
  refine ⟨.cons busyRunStmt (.nil _), .cons ⟨Finset.notMem_empty 0, rfl⟩ ?_⟩
  iterate 10 refine .cons rfl ?_
  exact .cons rfl (.cons rfl (.nil _))

theorem busyRunStmt_busyFinalize : BusyFinalize (runTrace [busyRunStmt]) :=
  ⟨0, List.mem_of_getElem? (i := 11) rfl⟩

theorem busyRunStmt_legacy : LegacyFinalize (runTrace [busyRunStmt]) := by
  intro tr₁ tr₂ h r heq hfirst ret hret
  have hget : (runTrace [busyRunStmt])[tr₁.length]? = some ⟨.finalize (some h), r⟩ := by
    rw [heq, List.getElem?_append_right le_rfl, Nat.sub_self, List.getElem?_cons_zero]
  have htake : tr₁ = (runTrace [busyRunStmt]).take tr₁.length := by
    rw [heq, List.take_left]
  have hlt : tr₁.length < 13 := (List.getElem?_eq_some_iff.mp hget).1
  generalize tr₁.length = n at hget htake hlt
  interval_cases n
  case «11» =>
    cases hget
    subst htake
    cases hret
    rfl
  case «12» =>
    cases hget
    subst htake
    exact absurd (List.mem_of_getElem? (i := 11) rfl) (hfirst .busy)
  all_goals cases hget

/-- The answers are those of the legacy interface, and statement 0 is finalized twice. -/
theorem not_finalizedOnce :
    ¬ ∀ (start final : Session) (steps : List Finished) (m m' : Statements),
      Run start steps final → Held start.handles m → sqlite.Run m (runTrace steps) m' →
      LegacyFinalize (runTrace steps) → FinalizedOnce (runTrace steps) := by
  intro h
  obtain ⟨hrun, hsql⟩ := busyRunStmt_run
  have honce := h _ _ _ _ _ hrun (Multiset.zero_le _) hsql busyRunStmt_legacy
  exact hrun.repeats hsql busyRunStmt_busyFinalize honce

theorem finalizedOnce_iff_busyRunStmt : ¬ FinalizedOnce (runTrace [busyRunStmt]) := by
  obtain ⟨hrun, hsql⟩ := busyRunStmt_run
  intro honce
  exact (finalizedOnce_iff hrun (Multiset.zero_le _) hsql).1.mp honce busyRunStmt_busyFinalize

end Sorm
