import Sorm.LockBalance
import Sorm.Semaphore

/-!
# Mutual exclusion between connections

Any number of connections run their operations against the same semaphores, one call at a time in
any order. As long as no begin gets past its finalize, the connections are clients of a binary
semaphore that release only what they hold.
-/

namespace Sorm

open Interaction

theorem Run.snoc {s s' : Session} {steps : List Finished} (h : Run s steps s') (step : Finished)
    (hb : step.before = s') : Run s (steps ++ [step]) step.after := by
  induction h with
  | nil s =>
      subst hb
      exact .cons step (.nil _)
  | cons step' h ih => exact .cons step' (ih hb)

structure Client where
  start : Session
  steps : List Finished
  last : Started
  run : Run start steps last.before

namespace Client

def trace (c : Client) : List SormEvent := runTrace c.steps ++ c.last.trace

def locks (c : Client) : ℤ := lockBalance c.trace

def advance (c : Client) (tr : List SormEvent) (rest : Act (SormError × Session))
    (h : c.last.rest.Emits tr rest) : Client where
  start := c.start
  steps := c.steps
  last := { c.last with trace := c.last.trace ++ tr, rest, emits := c.last.emits.append h }
  run := c.run

def next (c : Client) (code : SormError) (after : Session) (h : c.last.rest = .pure (code, after))
    (op : Op) : Client where
  start := c.start
  steps := c.steps ++ [{ c.last with code, after, returned := h }]
  last := { op, before := after, trace := [], rest := op.prog after, emits := .nil _ }
  run := c.run.snoc { c.last with code, after, returned := h } rfl

inductive Step (c : Client) : Option SormEvent → Client → Prop
  | call (e : SormEvent) (rest : Act (SormError × Session)) (h : c.last.rest.Emits [e] rest) :
      Step c (some e) (c.advance [e] rest h)
  | next (code : SormError) (after : Session) (h : c.last.rest = .pure (code, after)) (op : Op) :
      Step c none (c.next code after h op)

@[simp] theorem locks_advance (c : Client) (tr : List SormEvent)
    (rest : Act (SormError × Session)) (h : c.last.rest.Emits tr rest) :
    (c.advance tr rest h).locks = c.locks + lockBalance tr := by
  simp only [locks, trace, advance, lockBalance_append]
  omega

@[simp] theorem locks_next (c : Client) (code : SormError) (after : Session)
    (h : c.last.rest = .pure (code, after)) (op : Op) : (c.next code after h op).locks = c.locks := by
  simp [locks, trace, next]

/-- Inside of a transaction, or executing a step between `_lock` and `_unlock`. -/
def Busy (c : Client) : Prop :=
  0 < c.last.before.conn.transactionNum ∨
    (0 < c.locks ∧ ∃ stmt k, c.last.rest = .call (.step stmt) k)

/-- No begin of this process has got past its finalize outside of a transaction. -/
def NoneBegun (c : Client) : Prop :=
  (∀ step ∈ c.steps, ¬ step.BeginsUnlocked) ∧ ¬ c.last.BeginsUnlocked

structure Opened (key : ℤ) (c : Client) : Prop where
  enabled : sormSemaphoreEnabled c.start.conn.flags
  semKey : c.start.conn.semKey = key
  outside : c.start.conn.transactionNum = 0
  steps : c.steps = []
  last : c.last.trace = []

theorem NoneBegun.of_step {c c' : Client} {e : Option SormEvent} (h : c'.NoneBegun)
    (hs : Step c e c') : c.NoneBegun := by
  cases hs with
  | call e rest he =>
      refine ⟨h.1, fun hb => h.2 ⟨hb.1, hb.2.1, ?_⟩⟩
      simp only [advance, List.any_append, hb.2.2, Bool.true_or]
  | next code after he op =>
      refine ⟨fun step hstep => h.1 step (List.mem_append_left _ hstep), fun hb => ?_⟩
      exact h.1 _ (List.mem_append_right _ (List.mem_singleton_self _)) hb

section Lock

variable {key : ℤ} {c : Client} (hsem : sormSemaphoreEnabled c.start.conn.flags)
  (h0 : c.start.conn.transactionNum = 0) (hb : c.NoneBegun)

include hsem h0 hb

theorem locksOnce : c.start.conn.LocksOnce c.trace := by
  have hlock : c.start.conn.locking := by simp [Connection.locking, hsem]
  exact Run.locksOnce hlock h0 c.run hb.1 rfl hb.2

/-- Without such a begin no transaction is ever open. -/
theorem transactionNum_eq_zero : c.last.before.conn.transactionNum = 0 := by
  have hlock : c.start.conn.locking := by simp [Connection.locking, hsem]
  rw [(Run.balanced hlock h0 c.run hb.1).1]
  exact h0

theorem Busy.locks_pos (h : c.Busy) : 0 < c.locks := by
  rcases h with h | h
  · have hzero := transactionNum_eq_zero hsem h0 hb
    omega
  · exact h.1

end Lock

theorem Step.start_eq {c c' : Client} {e : Option SormEvent} (hs : Step c e c') :
    c'.start = c.start := by
  cases hs with
  | call => rfl
  | next => rfl

end Client

structure System (ι : Type) where
  semaphores : ℤ → ℕ
  clients : ι → Client

/-- `sem_p` waits for a positive value and decrements it, `sem_v` increments it. -/
inductive SemaphoreStep (semaphores : ℤ → ℕ) : Option SormEvent → (ℤ → ℕ) → Prop
  | semP (key : ℤ) (h : 0 < semaphores key) :
      SemaphoreStep semaphores (some ⟨.semP key, ()⟩)
        (Function.update semaphores key (semaphores key - 1))
  | semV (key : ℤ) :
      SemaphoreStep semaphores (some ⟨.semV key, ()⟩)
        (Function.update semaphores key (semaphores key + 1))
  | other (e : SormEvent) (hp : ∀ key, e.1 ≠ .semP key) (hv : ∀ key, e.1 ≠ .semV key) :
      SemaphoreStep semaphores (some e) semaphores
  | none : SemaphoreStep semaphores none semaphores

variable {ι : Type} [DecidableEq ι]

def System.Step (s s' : System ι) : Prop :=
  ∃ i e c, Client.Step (s.clients i) e c ∧ SemaphoreStep s.semaphores e s'.semaphores ∧
    s'.clients = Function.update s.clients i c

def System.Reachable : System ι → System ι → Prop := Relation.ReflTransGen System.Step

def System.semaphore (s : System ι) (key : ℤ) : Semaphore.State ι where
  value := s.semaphores key
  held i := (s.clients i).locks

namespace System

theorem Step.start_eq {s s' : System ι} (h : Step s s') (i : ι) :
    (s'.clients i).start = (s.clients i).start := by
  obtain ⟨k, e, c, hc, -, hclients⟩ := h
  rw [hclients]
  by_cases hi : i = k
  · subst hi
    rw [Function.update_self]
    exact hc.start_eq
  · rw [Function.update_of_ne hi]

theorem Step.noneBegun {s s' : System ι} (h : Step s s')
    (hb : ∀ i, (s'.clients i).NoneBegun) (i : ι) : (s.clients i).NoneBegun := by
  obtain ⟨k, e, c, hc, -, hclients⟩ := h
  have hi := hb i
  rw [hclients] at hi
  by_cases hik : i = k
  · subst hik
    rw [Function.update_self] at hi
    exact hi.of_step hc
  · rwa [Function.update_of_ne hik] at hi

/-- The lock is moved by nothing but the semaphore of the connection. -/
theorem lockChange_eq_zero {conn : Connection} {L : ℤ} {e : SormEvent}
    (hsem : sormSemaphoreEnabled conn.flags) (h : conn.locksOnce L e.1)
    (hp : ∀ key, e.1 ≠ .semP key) (hv : ∀ key, e.1 ≠ .semV key) : e.1.lockChange = 0 := by
  obtain ⟨c, r⟩ := e
  have howns := h.2.2
  cases c with
  | semP key => exact absurd rfl (hp key)
  | semV key => exact absurd rfl (hv key)
  | rdlock | wrlock | rwUnlock => simp [Connection.owns, hsem] at howns
  | _ => rfl

section Simulation

variable {key : ℤ} {s s' : System ι}

theorem semaphore_update (semaphores : ℤ → ℕ) (clients : ι → Client) (i : ι) (c : Client)
    (value : ℕ) :
    System.semaphore ⟨Function.update semaphores key value, Function.update clients i c⟩ key =
      ⟨value, Function.update (fun j => (clients j).locks) i c.locks⟩ := by
  unfold System.semaphore
  simp only [Function.update_self, Semaphore.State.mk.injEq, true_and]
  funext j
  by_cases hj : j = i
  · subst hj
    rw [Function.update_self, Function.update_self]
  · rw [Function.update_of_ne hj, Function.update_of_ne hj]

theorem semaphore_eq (semaphores : ℤ → ℕ) (clients : ι → Client) (i : ι) (c : Client)
    (hc : c.locks = (clients i).locks) :
    System.semaphore ⟨semaphores, Function.update clients i c⟩ key =
      System.semaphore ⟨semaphores, clients⟩ key := by
  unfold System.semaphore
  simp only [Semaphore.State.mk.injEq, true_and]
  funext j
  by_cases hj : j = i
  · subst hj
    rw [Function.update_self, hc]
  · rw [Function.update_of_ne hj]

/-- Each step of the system is one of the semaphore's clients, or none for the semaphore. -/
theorem Step.simulates (h : Step s s')
    (hsem : ∀ i, sormSemaphoreEnabled (s.clients i).start.conn.flags)
    (hkey : ∀ i, (s.clients i).start.conn.semKey = key)
    (h0 : ∀ i, (s.clients i).start.conn.transactionNum = 0)
    (hb : ∀ i, (s'.clients i).NoneBegun) :
    s'.semaphore key = s.semaphore key ∨
      Semaphore.Step (s.semaphore key) (s'.semaphore key) := by
  obtain ⟨semaphores, clients⟩ := s
  obtain ⟨semaphores', clients'⟩ := s'
  obtain ⟨i, e, c, hc, hsemaphores, rfl⟩ := h
  dsimp only at hc hsemaphores hsem hkey h0 hb
  have hbi : c.NoneBegun := by simpa using hb i
  cases hc with
  | next code after he op =>
      cases hsemaphores
      exact Or.inl (semaphore_eq _ _ _ _ (Client.locks_next ..))
  | call e rest he =>
      have honce : (clients i).start.conn.locksOnce (clients i).locks e.1 := by
        have htrace : (clients i).start.conn.LocksOnce
            ((clients i).advance [e] rest he).trace := Client.locksOnce (hsem i) (h0 i) hbi
        refine htrace (clients i).trace e [] ?_
        simp [Client.trace, Client.advance]
      have hlocks : ((clients i).advance [e] rest he).locks =
          (clients i).locks + e.1.lockChange := by
        rw [Client.locks_advance, lockBalance_cons, lockBalance_nil, add_zero]
      cases hsemaphores with
      | semP key' hpos =>
          have hkey' : key' = key := honce.2.2.2.trans (hkey i)
          subst hkey'
          rw [semaphore_update, hlocks]
          exact Or.inr (.acquire i hpos)
      | semV key' =>
          have hkey' : key' = key := honce.2.2.2.trans (hkey i)
          subst hkey'
          have hone := honce.2.1 rfl
          rw [semaphore_update, hlocks]
          refine Or.inr (.release i ?_)
          change 0 < (clients i).locks
          omega
      | other e hp hv =>
          apply Or.inl
          apply semaphore_eq
          rw [hlocks, lockChange_eq_zero (hsem i) honce hp hv, add_zero]

end Simulation

variable {key : ℤ} {s₀ s : System ι}

theorem Reachable.start_eq (h : Reachable s₀ s) (i : ι) :
    (s.clients i).start = (s₀.clients i).start := by
  induction h with
  | refl => rfl
  | tail _ hs ih => exact (hs.start_eq i).trans ih

theorem Reachable.binary (h0 : ∀ i, (s₀.clients i).Opened key) (hone : s₀.semaphores key = 1)
    (h : Reachable s₀ s) (hb : ∀ i, (s.clients i).NoneBegun) :
    Semaphore.Binary (s.semaphore key) := by
  induction h with
  | refl =>
      refine .free hone fun i => ?_
      change lockBalance (runTrace (s₀.clients i).steps ++ (s₀.clients i).last.trace) = 0
      rw [(h0 i).steps, (h0 i).last]
      rfl
  | @tail s s' hs₁ hs ih =>
      have hstart := fun i => Reachable.start_eq hs₁ i
      have hsim := hs.simulates (fun i => by rw [hstart]; exact (h0 i).enabled)
        (fun i => by rw [hstart]; exact (h0 i).semKey)
        (fun i => by rw [hstart]; exact (h0 i).outside) hb
      have hbinary := ih (hs.noneBegun hb)
      rcases hsim with heq | hstep
      · rw [heq]
        exact hbinary
      · exact hbinary.step hstep

/-- Calls that are not to a semaphore can always be made. -/
theorem reachable_calls (semaphores : ℤ → ℕ) (clients : ι → Client) (i : ι)
    (tr : List SormEvent) (rest : Act (SormError × Session))
    (h : (clients i).last.rest.Emits tr rest)
    (hp : ∀ e ∈ tr, ∀ key, e.1 ≠ .semP key) (hv : ∀ e ∈ tr, ∀ key, e.1 ≠ .semV key) :
    Reachable ⟨semaphores, clients⟩
      ⟨semaphores, Function.update clients i ((clients i).advance tr rest h)⟩ := by
  induction tr using List.reverseRecOn generalizing rest with
  | nil =>
      obtain rfl := h.eq_of_nil
      have hsame : (clients i).advance [] _ h = clients i := by
        simp only [Client.advance, List.append_nil]
      rw [hsame, Function.update_eq_self]
      exact .refl
  | append_singleton tr e ih =>
      obtain ⟨rest', h₁, h₂⟩ := h.split
      refine (ih rest' h₁ (fun e' he' => hp e' (by simp [he']))
        fun e' he' => hv e' (by simp [he'])).tail ?_
      refine ⟨i, some e, _, .call e rest (by simpa [Client.advance] using h₂),
        .other e (hp e (by simp)) (hv e (by simp)), ?_⟩
      simp [Client.advance]

end System

/-- In every state reached without a begin that got past its finalize, the semaphore is 0 or 1 and
at most one connection is in a transaction or in a locked step. -/
theorem mutual_exclusion {key : ℤ} {s₀ s : System ι} (h0 : ∀ i, (s₀.clients i).Opened key)
    (hone : s₀.semaphores key = 1) (hreach : System.Reachable s₀ s)
    (hb : ∀ i, (s.clients i).NoneBegun) :
    s.semaphores key ≤ 1 ∧ ∀ i j, (s.clients i).Busy → (s.clients j).Busy → i = j := by
  have hbinary := System.Reachable.binary h0 hone hreach hb
  have hstart := fun i => System.Reachable.start_eq hreach i
  have hlocks : ∀ i, (s.clients i).Busy → 0 < (s.clients i).locks := by
    intro i hi
    exact Client.Busy.locks_pos (by rw [hstart]; exact (h0 i).enabled)
      (by rw [hstart]; exact (h0 i).outside) (hb i) hi
  refine ⟨hbinary.value_le_one, fun i j hi hj => ?_⟩
  exact hbinary.exclusive (hlocks i hi) (hlocks j hj)

def Client.opening (s : Session) (op : Op) : Client where
  start := s
  steps := []
  last := { op, before := s, trace := [], rest := op.prog s, emits := .nil _ }
  run := .nil s

theorem opening_opened (op : Op) : (Client.opening semaphoreSession op).Opened 1024 where
  enabled := (by decide : sormSemaphoreEnabled sormEnableSemaphore = true)
  semKey := rfl
  outside := rfl
  steps := rfl
  last := rfl

/-- Two processes begin a write transaction, one after the other, and both are inside of theirs. -/
theorem not_mutual_exclusion :
    ¬ ∀ (key : ℤ) (s₀ s : System Bool), (∀ i, (s₀.clients i).Opened key) →
      s₀.semaphores key = 1 → System.Reachable s₀ s →
      s.semaphores key ≤ 1 ∧ ∀ i j, (s.clients i).Busy → (s.clients j).Busy → i = j := by
  intro h
  let opened : Client := .opening semaphoreSession .beginWriteTransaction
  let begun := opened.advance begunTransaction.trace _ begunTransaction.emits
  let inside := begun.next .ok begunTransaction.after rfl .commitTransaction
  let first : Bool → Client := Function.update (fun _ => opened) true begun
  let one : Bool → Client := Function.update first true inside
  let second : Bool → Client := Function.update one false begun
  let both : Bool → Client := Function.update second false inside
  have hfirst : System.Reachable ⟨fun _ => 1, fun _ : Bool => opened⟩ ⟨fun _ => 1, first⟩ :=
    System.reachable_calls (fun _ => 1) (fun _ : Bool => opened) true begunTransaction.trace
      _ begunTransaction.emits (by simp [begunTransaction]) (by simp [begunTransaction])
  have hone : System.Step ⟨fun _ => 1, first⟩ ⟨fun _ => 1, one⟩ :=
    ⟨true, none, inside, .next (c := begun) _ _ rfl _, .none, rfl⟩
  have hsecond : System.Reachable ⟨fun _ => 1, one⟩ ⟨fun _ => 1, second⟩ :=
    System.reachable_calls (fun _ => 1) one false begunTransaction.trace _ begunTransaction.emits
      (by simp [begunTransaction]) (by simp [begunTransaction])
  have hboth : System.Step ⟨fun _ => 1, second⟩ ⟨fun _ => 1, both⟩ :=
    ⟨false, none, inside, .next (c := begun) _ _ rfl _, .none, rfl⟩
  have hbusy : ∀ i, (both i).Busy := by
    intro i
    cases i with
    | true => exact .inl (show 0 < begunTransaction.after.conn.transactionNum by decide)
    | false => exact .inl (show 0 < begunTransaction.after.conn.transactionNum by decide)
  have hexcluded := h 1024 _ _ (fun _ => opening_opened _) rfl
    (((hfirst.tail hone).trans hsecond).tail hboth)
  cases hexcluded.2 true false (hbusy true) (hbusy false)

/-- A statement run up to its step. -/
theorem runStmt_emits : ∃ k, (Op.prog semaphoreSession (.runStmt .empty .write)).Emits
    ([⟨.prepare [] sqlStmtMaxLen, (.ok, some 0)⟩] ++ [⟨.semP 1024, ()⟩])
    (.call (.step (some 0)) k) :=
  ⟨_, .cons _ _ _ (.cons _ _ _ (.nil _))⟩

/-- Of two processes one has taken the semaphore for a statement and is in its step. -/
theorem mutual_exclusion_runStmt : ∃ s : System Bool, (s.clients true).Busy ∧
    s.semaphores 1024 ≤ 1 ∧ ∀ i j, (s.clients i).Busy → (s.clients j).Busy → i = j := by
  obtain ⟨k, hemits⟩ := runStmt_emits
  obtain ⟨rest, hprepare, hlock⟩ := hemits.split
  let opened : Client := .opening semaphoreSession (.runStmt .empty .write)
  let prepared := opened.advance _ rest hprepare
  let locked := prepared.advance _ _ hlock
  let s : System Bool := ⟨Function.update (fun _ => 1) 1024 0,
    Function.update (Function.update (fun _ => opened) true prepared) true locked⟩
  have hreach : System.Reachable ⟨fun _ => 1, fun _ : Bool => opened⟩ s := by
    have hcalls := System.reachable_calls (fun _ => 1) (fun _ : Bool => opened) true _ rest
      hprepare (by simp) (by simp)
    exact hcalls.tail ⟨true, some ⟨.semP 1024, ()⟩, locked, .call _ _ hlock,
      .semP 1024 Nat.one_pos, rfl⟩
  have hnone : ∀ i, (s.clients i).NoneBegun := by
    intro i
    cases i with
    | true => exact ⟨fun step h => (List.not_mem_nil h).elim, fun h => Bool.false_ne_true h.1⟩
    | false => exact ⟨fun step h => (List.not_mem_nil h).elim, fun h => Bool.false_ne_true h.1⟩
  have hlocks : (s.clients true).locks = 1 := rfl
  have hbusy : (s.clients true).Busy := Or.inr ⟨by omega, some 0, k, rfl⟩
  exact ⟨s, hbusy, mutual_exclusion (fun _ => opening_opened _) rfl hreach hnone⟩

end Sorm
