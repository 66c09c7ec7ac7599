import Sorm.ColumnErrors
import Sorm.MutualExclusion
import Sorm.Rwlock

/-!
# Selects and writers

Connections that share one rwlock take it for each `sqlite3_step` and release it behind it. A writer
steps only while it holds the lock for writing. But a select holds nothing between its steps, so a
writer may come in there; what keeps it out is only that it is not granted the lock.
-/

namespace Sorm

open Interaction Monitor

def RwlockFlag.mode : RwlockFlag → Rwlock.Mode
  | .read => .read
  | .write => .write

def hold : Option Rwlock.Mode → SormEvent → Option Rwlock.Mode
  | _, ⟨.rdlock, true⟩ => some .read
  | _, ⟨.wrlock, true⟩ => some .write
  | _, ⟨.rwUnlock, true⟩ => none
  | mode, _ => mode

def Call.isStep : Call → Bool
  | .step _ => true
  | _ => false

/-- Follows the rwlock; a step is made only while it is held in a mode that will do. -/
def holdMonitor (need : Rwlock.Mode → Prop) : Monitor Resp (Option Rwlock.Mode) :=
  .fold (fun held c => c.isStep → ∃ mode, held = some mode ∧ need mode) hold

structure Connection.Rwlocked (conn : Connection) : Prop where
  enabled : sormRwlockEnabled conn.flags
  noSemaphore : sormSemaphoreEnabled conn.flags = false
  outside : conn.transactionNum = 0

section Hold

variable {need : Rwlock.Mode → Prop} {P : Option Rwlock.Mode → Prop} {conn : Connection}

theorem keeps_hold {c : Call} (hc : (c.isLock || c.isUnlock || c.isStep) = false) :
    Keeps (holdMonitor need) P (perform c) := by
  apply Triple.perform
  · intro held _ hstep
    rw [hstep, Bool.or_true] at hc
    cases hc
  · intro held r held' hheld hnext
    have hsame : held' = held := by
      rw [hnext]
      cases c with
      | semP | semV | rdlock | wrlock | rwUnlock | step => cases hc
      | _ => rfl
    rw [hsame]
    exact hheld

theorem triple_hold {c : Call} (hc : c.isStep = false) :
    Triple (holdMonitor need) (· = none) (perform c) fun r held => held = hold none ⟨c, r⟩ := by
  apply Triple.perform
  · intro held _ hstep
    rw [hc] at hstep
    cases hstep
  · rintro held r held' rfl hnext
    exact hnext

theorem lock_holds (h : conn.Rwlocked) (rwFlag : RwlockFlag) :
    Triple (holdMonitor need) (· = none) (lock conn rwFlag) fun _ held =>
      held = some rwFlag.mode := by
  unfold lock
  rw [if_neg (by simp [h.noSemaphore]), if_pos h.enabled]
  cases rwFlag with
  | read =>
      apply Triple.bind (triple_hold (c := .rdlock) rfl)
      intro ret
      cases ret with
      | true => exact Triple.pure fun held hheld => hheld
      | false => exact Triple.stop
  | write =>
      apply Triple.bind (triple_hold (c := .wrlock) rfl)
      intro ret
      cases ret with
      | true => exact Triple.pure fun held hheld => hheld
      | false => exact Triple.stop

theorem unlock_releases (h : conn.Rwlocked) :
    Triple (holdMonitor need) (fun _ => True) (unlock conn) fun _ held => held = none := by
  unfold unlock
  rw [if_neg (by simp [h.noSemaphore]), if_pos h.enabled]
  have hunlock : Triple (holdMonitor need) (fun _ => True) (perform .rwUnlock)
      fun ret held => ret = true → held = none := by
    apply Triple.perform
    · exact fun held _ hstep => by cases hstep
    · rintro held ret held' - hnext rfl
      exact hnext
  apply Triple.bind hunlock
  intro ret
  cases ret with
  | true => exact Triple.pure fun held hheld => hheld rfl
  | false => exact Triple.stop

/-- A step is made under the lock, and the lock is released behind it. -/
theorem step_held (h : conn.Rwlocked) (stmt : Option Handle) {rwFlag : RwlockFlag}
    (hneed : need rwFlag.mode) :
    Keeps (holdMonitor need) (· = none) (sqlite3Step conn stmt rwFlag) := by
  rw [sqlite3Step_outside h.outside]
  apply Triple.bind (lock_holds h rwFlag)
  intro _
  have hstep : Keeps (holdMonitor need) (· = some rwFlag.mode) (perform (.step stmt)) := by
    apply Triple.perform
    · rintro held rfl -
      exact ⟨rwFlag.mode, rfl, hneed⟩
    · rintro held r held' rfl hnext
      exact hnext
  apply Triple.bind (Keeps.retry _ hstep)
  intro ret
  apply Triple.bind ((unlock_releases h).mono (fun _ _ => trivial) fun _ _ hheld => hheld)
  intro _
  exact Triple.pure fun held hheld => hheld

theorem hold_handling (need : Rwlock.Mode → Prop) :
    Handling (holdMonitor need) AnyText fun _ held => held = none where
  isLocal := by
    intro hs c hc
    apply keeps_hold
    cases c with
    | malloc | strdup | free => rfl
    | _ => cases hc
  use := by
    intro hs c h hc _
    apply keeps_hold
    cases c with
    | bind | columnType | columnInt | columnInt64 | columnDouble | columnText | columnBlob
    | columnBytes => rfl
    | _ => cases hc
  prepare := by
    intro hs sqlStmt _
    have hkeeps : Keeps (holdMonitor need) (· = none) (perform (.prepare sqlStmt sqlStmtMaxLen)) :=
      keeps_hold rfl
    refine hkeeps.post fun r held hheld => ?_
    split
    · exact hheld
    · exact hheld
  finalize := Keeps.retry _ (keeps_hold rfl)

theorem hold_rowId {c : Call} (hc : c.isRowId) : Keeps (holdMonitor need) P (perform c) := by
  apply keeps_hold
  cases c with
  | lastInsertRowid | uninitialised => rfl
  | _ => cases hc

theorem hold_discipline (h : conn.Rwlocked) (hneed : ∀ mode, need mode) :
    Discipline (holdMonitor need) conn AnyText fun _ held => held = none :=
  { hold_handling need with
    rowId := hold_rowId
    step := fun _ _ => step_held h _ (hneed _) }

theorem hold_writeDiscipline (h : conn.Rwlocked) (hneed : need .write) :
    WriteDiscipline (holdMonitor need) conn AnyText fun _ held => held = none :=
  { hold_handling need with
    rowId := hold_rowId
    write := fun _ => step_held h _ hneed }

end Hold

def Op.isWrite : Op → Bool
  | .insert _ | .replace _ | .update _ | .delete _ | .deleteBy _ _ | .deleteByColumn _ _ _ => true
  | _ => false

def Op.isRowsSelect : Op → Bool
  | .selectOneByColumn .. | .selectSomeArrayBy .. | .selectSomeListBy .. | .selectAllArrayBy ..
  | .selectAllArrayByJoin .. | .selectAllListBy .. => true
  | _ => false

/-- How the lock has to be held for the steps of an operation. -/
def Op.needs (o : Op) (mode : Rwlock.Mode) : Prop := o.isWrite → mode = .write

theorem op_holds {before : Session} (h : before.conn.Rwlocked) (o : Op) (ht : ¬ o.isTransaction) :
    Triple (holdMonitor o.needs) (· = none) (o.prog before) fun r held =>
      r.2.conn = before.conn ∧ held = none := by
  have hkeep : ∀ {α : Type} {p : Act α} {code : α → SormError},
      Keeps (holdMonitor o.needs) (· = none) p → Triple (holdMonitor o.needs) (· = none)
        (before.keep p code) fun r held => r.2.conn = before.conn ∧ held = none := by
    intro α p code hp
    exact Triple.bind hp fun _ => Triple.pure fun held hheld => ⟨rfl, hheld⟩
  by_cases hwrite : o.isWrite
  · have d : WriteDiscipline (holdMonitor o.needs) before.conn AnyText fun _ held => held = none :=
      hold_writeDiscipline h fun _ => rfl
    cases o with
    | insert row =>
        exact hkeep (@WriteDiscipline.save_of_drop _ _ _ _ 0 _ _ d (fun hheld => hheld) row _
          fun _ _ _ _ => trivial)
    | replace row =>
        exact hkeep (@WriteDiscipline.save_of_drop _ _ _ _ 0 _ _ d (fun hheld => hheld) row _
          fun _ _ _ _ => trivial)
    | update row =>
        exact hkeep (@WriteDiscipline.sormUpdate_of_drop _ _ _ _ 0 _ _ d (fun hheld => hheld) row
          fun _ _ _ _ => trivial)
    | delete row =>
        exact hkeep (@WriteDiscipline.sormDelete_of_drop _ _ _ _ 0 _ _ d (fun hheld => hheld) row
          fun _ _ _ _ => trivial)
    | deleteBy tableDesc filter =>
        exact hkeep (@WriteDiscipline.sormDeleteBy _ _ _ _ _ 0 d tableDesc filter
          fun _ _ _ _ => trivial)
    | deleteByColumn tableDesc columnIndex columnValue =>
        exact hkeep (@WriteDiscipline.sormDeleteByColumn _ _ _ _ _ 0 d tableDesc columnIndex
          columnValue fun _ _ _ _ _ _ _ _ _ _ => trivial)
    | _ => cases hwrite
  · have hneed : ∀ mode, o.needs mode := fun mode hw => absurd hw hwrite
    have hop := (hold_discipline h hneed).op_of_drop (fun hheld => hheld) o ht
    exact hop.post fun r held hr => ⟨hr.1.conn, hr.2⟩

theorem Run.eq_of_nil {s s' : Session} (h : Run s [] s') : s' = s := by
  cases h
  rfl

/-- A call grants a lock, releases it, or leaves what is held. -/
theorem hold_cases (held : Option Rwlock.Mode) (e : SormEvent) :
    (e = ⟨.rdlock, true⟩ ∧ hold held e = some .read) ∨
    (e = ⟨.wrlock, true⟩ ∧ hold held e = some .write) ∨
    hold held e = none ∨ hold held e = held := by
  unfold hold
  split
  · exact Or.inl ⟨rfl, rfl⟩
  · exact Or.inr (Or.inl ⟨rfl, rfl⟩)
  · exact Or.inr (Or.inr (Or.inl rfl))
  · exact Or.inr (Or.inr (Or.inr rfl))

namespace Client

def held (c : Client) : Option Rwlock.Mode := c.trace.foldl hold none

def Outside (c : Client) : Prop :=
  (∀ step ∈ c.steps, ¬ step.op.isTransaction) ∧ ¬ c.last.op.isTransaction

structure OpensRwlocked (c : Client) : Prop where
  rwlocked : c.start.conn.Rwlocked
  steps : c.steps = []
  last : c.last.trace = []

/-- An array or list select that has received its first row and has not finalized its statement. -/
def Reading (c : Client) : Prop :=
  c.last.op.isRowsSelect ∧
    (c.last.trace.any fun
      | ⟨.step _, ret⟩ => ret == (.row : DbCode)
      | _ => false) ∧
    ¬ c.last.trace.any fun
      | ⟨.finalize _, _⟩ => true
      | _ => false

def Writing (c : Client) : Prop :=
  c.last.op.isWrite ∧ ∃ stmt k, c.last.rest = .call (.step stmt) k

structure KeepsLock (c : Client) : Prop where
  conn : c.last.before.conn = c.start.conn
  rest : wp (holdMonitor c.last.op.needs) c.last.rest
    (fun r held => r.2.conn = c.last.before.conn ∧ held = none) c.held

theorem Outside.of_step {c c' : Client} {e : Option SormEvent} (h : c'.Outside)
    (hs : Step c e c') : c.Outside := by
  cases hs with
  | call e rest he => exact h
  | next code after he op =>
      exact ⟨fun step hstep => h.1 step (List.mem_append_left _ hstep),
        h.1 _ (List.mem_append_right _ (List.mem_singleton_self _))⟩

theorem held_advance (c : Client) (e : SormEvent) (rest : Act (SormError × Session))
    (h : c.last.rest.Emits [e] rest) : (c.advance [e] rest h).held = hold c.held e := by
  unfold held trace advance
  rw [← List.append_assoc, List.foldl_append]
  rfl

theorem held_next (c : Client) (code : SormError) (after : Session)
    (h : c.last.rest = .pure (code, after)) (op : Op) : (c.next code after h op).held = c.held := by
  unfold held trace next
  simp

theorem Step.held_eq {c c' : Client} {e : Option SormEvent} (hs : Step c e c') :
    c'.held = e.elim c.held (hold c.held) := by
  cases hs with
  | call e rest he => exact held_advance c e rest he
  | next code after he op => exact held_next c code after he op

theorem OpensRwlocked.keepsLock {c : Client} (h : c.OpensRwlocked) (hout : c.Outside) :
    c.KeepsLock := by
  have hbefore : c.last.before = c.start := by
    have hrun := c.run
    rw [h.steps] at hrun
    exact hrun.eq_of_nil
  have hrest : c.last.rest = c.last.op.prog c.last.before := by
    have hemits := c.last.emits
    rw [h.last] at hemits
    exact hemits.eq_of_nil
  constructor
  · rw [hbefore]
  · have hheld : c.held = none := by
      unfold held trace
      rw [h.steps, h.last]
      rfl
    have hconn : c.last.before.conn.Rwlocked := by
      rw [hbefore]
      exact h.rwlocked
    rw [hrest, hheld]
    exact op_holds hconn c.last.op hout.2 none rfl

theorem KeepsLock.step {c c' : Client} {e : Option SormEvent} (h : c.KeepsLock)
    (hconn : c.start.conn.Rwlocked) (hs : Step c e c') (hout : c'.Outside) : c'.KeepsLock := by
  cases hs with
  | call e rest he =>
      refine ⟨h.conn, ?_⟩
      rw [held_advance]
      exact wp_emits h.rest he (fold_run _ [e])
  | next code after he op =>
      have hend := h.rest
      rw [he] at hend
      have hafter : after.conn = c.start.conn := hend.1.trans h.conn
      refine ⟨hafter, ?_⟩
      rw [held_next]
      have hheld : c.held = none := hend.2
      rw [hheld]
      exact op_holds (by rw [hafter]; exact hconn) op hout.2 none rfl

/-- A step of an operation is made while the lock is held as it needs it. -/
theorem KeepsLock.held_of_step {c : Client} (h : c.KeepsLock) {stmt : Option Handle}
    {k : DbCode → Act (SormError × Session)} (hrest : c.last.rest = .call (.step stmt) k) :
    ∃ mode, c.held = some mode ∧ c.last.op.needs mode := by
  have hwp := h.rest
  rw [hrest] at hwp
  exact hwp.1 rfl

theorem KeepsLock.held_of_next {c : Client} (h : c.KeepsLock) {code : SormError} {after : Session}
    (hrest : c.last.rest = .pure (code, after)) : c.held = none := by
  have hwp := h.rest
  rw [hrest] at hwp
  exact hwp.2

end Client

abbrev Connections (ι : Type) := ι → Client

namespace Connections

variable {ι : Type}

def held (s : Connections ι) : Rwlock.Held ι := fun i => (s i).held

def Admits (s : Connections ι) : Option SormEvent → Prop
  | some ⟨.rdlock, true⟩ => Rwlock.Grants s.held .read
  | some ⟨.wrlock, true⟩ => Rwlock.Grants s.held .write
  | _ => True

structure StepOf (s : Connections ι) (i : ι) (e : Option SormEvent) (s' : Connections ι) :
    Prop where
  admits : s.Admits e
  moves : Client.Step (s i) e (s' i)
  others : ∀ j, j ≠ i → s' j = s j

/-- No insert, replace, update or delete is granted the write lock while another process reads. -/
def Spares (s : Connections ι) (i : ι) (e : Option SormEvent) : Prop :=
  e = some ⟨.wrlock, true⟩ → (s i).last.op.isWrite → ∀ j, j ≠ i → ¬ (s j).Reading

def Step (s s' : Connections ι) : Prop := ∃ i e, StepOf s i e s'

def SparingStep (s s' : Connections ι) : Prop := ∃ i e, StepOf s i e s' ∧ Spares s i e

def Protected (s : Connections ι) : Prop := ∀ i j, i ≠ j → (s i).Reading → ¬ (s j).Writing

theorem StepOf.update_held [DecidableEq ι] {s s' : Connections ι} {i : ι} {e : Option SormEvent}
    (h : StepOf s i e s') : s'.held = Function.update s.held i (s' i).held := by
  funext j
  by_cases hj : j = i
  · rw [hj, Function.update_self]
    rfl
  · rw [Function.update_of_ne hj]
    exact congrArg Client.held (h.others j hj)

/-- What a process does with the rwlock is a step of one of its clients, or none. -/
theorem StepOf.simulates [DecidableEq ι] {s s' : Connections ι} {i : ι} {e : Option SormEvent}
    (h : StepOf s i e s') : s'.held = s.held ∨ Rwlock.Step s.held s'.held := by
  have hsame : (s' i).held = (s i).held → s'.held = s.held := by
    intro hi
    rw [h.update_held, hi]
    exact Function.update_eq_self i s.held
  have hmoves := h.moves.held_eq
  cases e with
  | none => exact Or.inl (hsame hmoves)
  | some e =>
      rw [Option.elim_some] at hmoves
      rcases hold_cases (s i).held e with ⟨rfl, heq⟩ | ⟨rfl, heq⟩ | heq | heq
      · rw [h.update_held, hmoves, heq]
        exact Or.inr (.acquire i .read h.admits)
      · rw [h.update_held, hmoves, heq]
        exact Or.inr (.acquire i .write h.admits)
      · rw [h.update_held, hmoves, heq]
        exact Or.inr (.release i)
      · exact Or.inl (hsame (hmoves.trans heq))

/-- Every process keeps to the lock, a writer is alone with it, and the lock is not held for
writing by an insert, replace, update or delete while another process reads. -/
structure Guarded (s : Connections ι) : Prop where
  keepsLock : ∀ i, (s i).KeepsLock
  exclusive : Rwlock.Exclusive s.held
  spared : ∀ i j, i ≠ j → (s i).Reading → (s j).last.op.isWrite → (s j).held ≠ some .write

theorem Guarded.protects {s : Connections ι} (h : s.Guarded) : s.Protected := by
  rintro i j hij hreading ⟨hwrite, stmt, k, hrest⟩
  obtain ⟨mode, hheld, hneeds⟩ := (h.keepsLock j).held_of_step hrest
  rw [hneeds hwrite] at hheld
  exact h.spared i j hij hreading hwrite hheld

/-- A process that begins to read has just made a step. -/
theorem reading_of_step {c c' : Client} {e : Option SormEvent} (hs : Client.Step c e c')
    (hreading : c'.Reading) : c.Reading ∨ ∃ stmt k, c.last.rest = .call (.step stmt) k := by
  cases hs with
  | next code after he op => cases hreading.2.1
  | call e rest he =>
      obtain ⟨hselect, hrow, hopen⟩ := hreading
      simp only [Client.advance, List.any_append, List.any_cons, List.any_nil, Bool.or_false,
        Bool.or_eq_true, not_or] at hrow hopen
      rcases hrow with hrow | hrow
      · exact Or.inl ⟨hselect, hrow, hopen.1⟩
      · right
        obtain ⟨c', r⟩ := e
        cases c' with
        | step stmt =>
            obtain ⟨k, hk, -⟩ := @Prog.Emits.at_call _ _ _ _ _ [] [] _ he
            exact ⟨stmt, k, hk.eq_of_nil.symm⟩
        | _ => cases hrow

theorem Guarded.step [DecidableEq ι] {s s' : Connections ι} {i : ι} {e : Option SormEvent}
    (h : s.Guarded) (hs : StepOf s i e s') (hspares : Spares s i e) (hconn : ∀ i, (s i).start.conn.Rwlocked)
    (hout : ∀ i, (s' i).Outside) : s'.Guarded where
  keepsLock := by
    intro j
    by_cases hj : j = i
    · subst hj
      exact (h.keepsLock j).step (hconn j) hs.moves (hout j)
    · rw [hs.others j hj]
      exact h.keepsLock j
  exclusive := by
    rcases hs.simulates with heq | hstep
    · rw [heq]
      exact h.exclusive
    · exact h.exclusive.step hstep
  spared := by
    intro k j hkj hreading hwrite hheld
    by_cases hki : k = i
    · subst hki
      rw [hs.others j (Ne.symm hkj)] at hwrite hheld
      rcases reading_of_step hs.moves hreading with hbefore | ⟨stmt, cont, hrest⟩
      · exact h.spared k j hkj hbefore hwrite hheld
      · obtain ⟨mode, hmode, -⟩ := (h.keepsLock k).held_of_step hrest
        have hsome : s.held k ≠ none := by
          intro hnone
          have heq : (s k).held = none := hnone
          rw [hmode] at heq
          cases heq
        exact h.exclusive.ne_write hsome hkj hheld
    · rw [hs.others k hki] at hreading
      by_cases hji : j = i
      · subst hji
        have hmoves := hs.moves
        generalize s' j = c at hmoves hwrite hheld
        cases hmoves with
        | next code after he op =>
            rw [Client.held_next, (h.keepsLock j).held_of_next he] at hheld
            cases hheld
        | call e rest he =>
            rw [Client.held_advance] at hheld
            rcases hold_cases (s j).held e with ⟨rfl, heq⟩ | ⟨rfl, heq⟩ | heq | heq
            · rw [heq] at hheld
              cases hheld
            · exact hspares rfl hwrite k hkj hreading
            · rw [heq] at hheld
              cases hheld
            · rw [heq] at hheld
              exact h.spared k j hkj hreading hwrite hheld
      · rw [hs.others j hji] at hwrite hheld
        exact h.spared k j hkj hreading hwrite hheld

theorem StepOf.start_eq {s s' : Connections ι} {i : ι} {e : Option SormEvent} (h : StepOf s i e s')
    (j : ι) : (s' j).start = (s j).start := by
  by_cases hj : j = i
  · subst hj
    exact h.moves.start_eq
  · rw [h.others j hj]

theorem StepOf.outside {s s' : Connections ι} {i : ι} {e : Option SormEvent} (h : StepOf s i e s')
    (hout : ∀ j, (s' j).Outside) (j : ι) : (s j).Outside := by
  have hj := hout j
  by_cases hji : j = i
  · subst hji
    exact hj.of_step h.moves
  · rwa [h.others j hji] at hj

end Connections

section Runs

open Relation Connections

variable {ι : Type} {s₀ s : Connections ι}

theorem guarded_of_opens (h0 : ∀ i, (s₀ i).OpensRwlocked) (hout : ∀ i, (s₀ i).Outside) :
    Guarded s₀ where
  keepsLock i := (h0 i).keepsLock (hout i)
  exclusive := by
    apply Rwlock.exclusive_free
    intro i
    change (s₀ i).held = none
    unfold Client.held Client.trace
    rw [(h0 i).steps, (h0 i).last]
    rfl
  spared := by
    intro i j _ hreading
    have hrow := hreading.2.1
    rw [(h0 i).last] at hrow
    cases hrow

theorem guarded_of_reaches (h0 : ∀ i, (s₀ i).OpensRwlocked)
    (hreach : ReflTransGen SparingStep s₀ s) (hout : ∀ i, (s i).Outside) :
    Guarded s ∧ ∀ i, (s i).start = (s₀ i).start := by
  classical
  induction hreach with
  | refl => exact ⟨guarded_of_opens h0 hout, fun _ => rfl⟩
  | @tail s s' _ hs ih =>
      obtain ⟨i, e, hstep, hspares⟩ := hs
      obtain ⟨hguarded, hstart⟩ := ih (hstep.outside hout)
      have hconn : ∀ j, (s j).start.conn.Rwlocked := by
        intro j
        rw [hstart j]
        exact (h0 j).rwlocked
      exact ⟨hguarded.step hstep hspares hconn hout,
        fun j => (hstep.start_eq j).trans (hstart j)⟩

/-- Outside of transactions no connection steps an insert, replace, update or delete while the
select of another is between its first row and its finalize, in every run in which none of them is
granted the write lock there. -/
theorem select_protected (h0 : ∀ i, (s₀ i).OpensRwlocked)
    (hreach : ReflTransGen SparingStep s₀ s) (hout : ∀ i, (s i).Outside) : Protected s :=
  (guarded_of_reaches h0 hreach hout).1.protects

end Runs

def AsksFree : Option Rwlock.Mode → List SormEvent → Prop
  | _, [] => True
  | held, e :: tr => (e.1.isLock → held = none) ∧ AsksFree (hold held e) tr

namespace Connections

open Relation

variable {ι : Type} [DecidableEq ι]

omit [DecidableEq ι] in
theorem admits_of_free {s : Connections ι} {e : SormEvent}
    (h : e.1.isLock → ∀ i, (s i).held = none) : s.Admits (some e) := by
  unfold Admits
  split
  · next heq =>
    cases heq
    intro i hi
    have hnone : s.held i = none := h rfl i
    rw [hnone] at hi
    cases hi
  · next heq =>
    cases heq
    exact h rfl
  · trivial

/-- While nobody else holds the lock a process can go on with its calls. -/
theorem reaches_calls {A : Connections ι → Prop} (s : Connections ι) (i : ι)
    (hothers : ∀ j, j ≠ i → (s j).held = none) (tr : List SormEvent)
    (rest : Act (SormError × Session)) (c : Client) (h : c.last.rest.Emits tr rest)
    (hfree : AsksFree c.held tr)
    (hA : ∀ c' : Client, c'.last.op = c.last.op → A (Function.update s i c')) :
    ReflTransGen (fun s s' => A s ∧ ∃ e, StepOf s i e s') (Function.update s i c)
      (Function.update s i (c.advance tr rest h)) := by
  induction tr generalizing c with
  | nil =>
      obtain rfl := h.eq_of_nil
      have hsame : c.advance [] _ h = c := by
        simp only [Client.advance, List.append_nil]
      rw [hsame]
  | cons e tr ih =>
      obtain ⟨rest', h₁, h₂⟩ := @Prog.Emits.split _ _ _ _ _ [e] tr h
      have hstep : StepOf (Function.update s i c) i (some e)
          (Function.update s i (c.advance [e] rest' h₁)) := by
        refine ⟨admits_of_free fun hlock j => ?_, ?_, fun j hj => ?_⟩
        · by_cases hj : j = i
          · subst hj
            rw [Function.update_self]
            exact hfree.1 hlock
          · rw [Function.update_of_ne hj]
            exact hothers j hj
        · rw [Function.update_self, Function.update_self]
          exact .call e rest' h₁
        · rw [Function.update_of_ne hj, Function.update_of_ne hj]
      have hheld : AsksFree (c.advance [e] rest' h₁).held tr := by
        rw [Client.held_advance]
        exact hfree.2
      have hrest := ih (c.advance [e] rest' h₁) h₂ hheld hA
      have hsame : (c.advance [e] rest' h₁).advance tr rest h₂ = c.advance (e :: tr) rest h := by
        simp only [Client.advance, List.append_assoc, List.singleton_append]
      rw [hsame] at hrest
      exact hrest.head ⟨hA c rfl, some e, hstep⟩

end Connections

def rwlockSession : Session := ⟨⟨0, 0, sormEnableRwlock⟩, []⟩

theorem rwlockSession_opens (op : Op) : (Client.opening rwlockSession op).OpensRwlocked where
  rwlocked := ⟨(by decide : sormRwlockEnabled sormEnableRwlock = true),
    (by decide : sormSemaphoreEnabled sormEnableRwlock = false), rfl⟩
  steps := rfl
  last := rfl

theorem starText_noNul : '\x00' ∉ ['*'] := by decide

def starText : CString := ⟨['*'], starText_noNul⟩

def firstRow : List SormEvent :=
  [⟨.malloc .libc 16, some 1⟩, ⟨.malloc .libc 8, some 2⟩,
    ⟨.prepare "SELECT * FROM device".toList sqlStmtMaxLen, (.ok, some 0)⟩,
    ⟨.strdup .libc starText, some 3⟩, ⟨.free .libc (some 3), ()⟩, ⟨.rdlock, true⟩,
    ⟨.step (some 0), .row⟩, ⟨.rwUnlock, true⟩]

def selecting : Op := .selectAllListBy 2 .user (.single deviceTable) (some starText) none (some 0)
  [false]

theorem selecting_emits : ∃ rest, (selecting.prog rwlockSession).Emits firstRow rest := by
  refine ⟨?_, ?_⟩
  rotate_left
  · unfold firstRow
    iterate 8 refine .cons _ _ _ ?_
    exact .nil _

def deleting : Op := .deleteBy (some deviceTable) none

def writeLocked : List SormEvent :=
  [⟨.prepare "DELETE FROM device ".toList sqlStmtMaxLen, (.ok, some 1)⟩, ⟨.wrlock, true⟩]

theorem deleting_emits : ∃ k,
    (deleting.prog rwlockSession).Emits writeLocked (.call (.step (some 1)) k) := by
  refine ⟨?_, ?_⟩
  rotate_left
  · unfold writeLocked
    iterate 2 refine .cons _ _ _ ?_
    exact .nil _

def deletes : Client := .opening rwlockSession deleting

def selects : Client := .opening rwlockSession selecting

/-- A process that selects, as far as its first row, and one that has yet to delete. -/
theorem reaches_firstRow {rest : Act (SormError × Session)}
    (h : selects.last.rest.Emits firstRow rest) :
    Relation.ReflTransGen Connections.SparingStep
      (Function.update (fun _ : Bool => deletes) true selects)
      (Function.update (fun _ : Bool => deletes) true (selects.advance firstRow rest h)) := by
  have hfree : AsksFree selects.held firstRow := by
    simp [firstRow, AsksFree, hold, Call.isLock, Client.held, Client.trace, selects, Client.opening]
  have hcalls := Connections.reaches_calls (A := fun s => ¬ (s true).last.op.isWrite)
    (fun _ : Bool => deletes) true (fun _ _ => rfl) firstRow rest selects h hfree (by
      intro c hc
      rw [Function.update_self, hc]
      exact Bool.false_ne_true)
  refine Relation.ReflTransGen.mono ?_ _ _ hcalls
  rintro s s' ⟨hwrite, e, hstep⟩
  exact ⟨true, e, hstep, fun _ hw => absurd hw hwrite⟩

/-- The deleting process is granted the write lock after the select's first row. -/
theorem not_select_protected : ¬ ∀ (s₀ s : Connections Bool), (∀ i, (s₀ i).OpensRwlocked) →
    Relation.ReflTransGen Connections.Step s₀ s → (∀ i, (s i).Outside) → s.Protected := by
  intro hall
  obtain ⟨rest, hselect⟩ := selecting_emits
  obtain ⟨k, hdelete⟩ := deleting_emits
  let reads := selects.advance firstRow rest hselect
  let writes := deletes.advance writeLocked _ hdelete
  let s₁ : Connections Bool := Function.update (fun _ => deletes) true reads
  have hfirst : Relation.ReflTransGen Connections.Step
      (Function.update (fun _ : Bool => deletes) true selects) s₁ := by
    refine Relation.ReflTransGen.mono ?_ _ _ (reaches_firstRow hselect)
    rintro s s' ⟨i, e, hstep, -⟩
    exact ⟨i, e, hstep⟩
  have hsecond : Relation.ReflTransGen Connections.Step s₁ (Function.update s₁ false writes) := by
    have hothers : ∀ j, j ≠ false → (s₁ j).held = none := by
      intro j hj
      cases j with
      | false => exact absurd rfl hj
      | true => rfl
    have hfree : AsksFree deletes.held writeLocked := by
      simp [writeLocked, AsksFree, hold, Call.isLock, Client.held, Client.trace, deletes,
        Client.opening]
    have hcalls := Connections.reaches_calls (A := fun _ => True) s₁ false hothers writeLocked _
      deletes hdelete hfree fun _ _ => trivial
    have hself : Function.update s₁ false deletes = s₁ := Function.update_eq_self false s₁
    rw [hself] at hcalls
    refine Relation.ReflTransGen.mono ?_ _ _ hcalls
    rintro s s' ⟨-, e, hstep⟩
    exact ⟨false, e, hstep⟩
  have hopens : ∀ i, (Function.update (fun _ : Bool => deletes) true selects i).OpensRwlocked := by
    intro i
    cases i with
    | false => exact rwlockSession_opens deleting
    | true => exact rwlockSession_opens selecting
  have hout : ∀ i, (Function.update s₁ false writes i).Outside := by
    intro i
    cases i with
    | false => exact ⟨fun step h => (List.not_mem_nil h).elim, Bool.false_ne_true⟩
    | true => exact ⟨fun step h => (List.not_mem_nil h).elim, Bool.false_ne_true⟩
  have hreading : (Function.update s₁ false writes true).Reading :=
    ⟨rfl, rfl, Bool.false_ne_true⟩
  exact hall _ _ hopens (hfirst.trans hsecond) hout true false Bool.noConfusion hreading
    ⟨rfl, some 1, k, rfl⟩

/-- As long as the deleting process waits, the select is protected. -/
theorem select_protected_firstRow : ∃ s : Connections Bool, (s true).Reading ∧ s.Protected := by
  obtain ⟨rest, hselect⟩ := selecting_emits
  refine ⟨_, ?_, select_protected ?_ (reaches_firstRow hselect) ?_⟩
  · exact ⟨rfl, rfl, Bool.false_ne_true⟩
  · intro i
    cases i with
    | false => exact rwlockSession_opens deleting
    | true => exact rwlockSession_opens selecting
  · intro i
    cases i with
    | false => exact ⟨fun step h => (List.not_mem_nil h).elim, Bool.false_ne_true⟩
    | true => exact ⟨fun step h => (List.not_mem_nil h).elim, Bool.false_ne_true⟩

end Sorm
