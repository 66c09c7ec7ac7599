import Sorm.Interaction
import Sorm.Semaphore

/-!
# The semaphore set of a key

`semaphore.c` over the system calls it makes. The set is created and initialised by two calls, and
a process that has found it absent initialises it whatever the others have done since. As long as
no process does so while another holds the semaphore, the processes are clients of a semaphore
that is held by one of them at most.
-/

namespace Sorm

open Interaction

inductive SemError
  | ok
  | initFail
  | opFail
deriving DecidableEq, Repr

abbrev SemId := ℕ

/-- The calls on the key; `none` for an identifier is -1. The first has `0666 | IPC_CREAT` or no
flags, the second sets a value, the third adds to it with `SEM_UNDO`. -/
inductive SysCall
  | semget (create : Bool)
  | semctl (semId : Option SemId) (val : ℕ)
  | semop (semId : Option SemId) (semOp : ℤ)
deriving DecidableEq, Repr

abbrev SysAnswer : SysCall → Type
  | .semget _ => Option SemId
  | .semctl _ _ | .semop _ _ => Bool

abbrev SysProg := Prog SysCall SysAnswer SemError

abbrev sysCall (c : SysCall) : Prog SysCall SysAnswer (SysAnswer c) := Prog.perform c

def semOperate (semId : Option SemId) (semOp : ℤ) : SysProg := do
  let ret ← sysCall (.semop semId semOp)
  if ret then return .ok else return .opFail

def semInitialise (semId : Option SemId) (semOp : ℤ) : SysProg := do
  let ret ← sysCall (.semctl semId 1)
  if ret then semOperate semId semOp else return .initFail

def semCreate (semOp : ℤ) : SysProg := do
  let semId ← sysCall (.semget true)
  semInitialise semId semOp

def semCall (semOp : ℤ) : SysProg := do
  match ← sysCall (.semget false) with
  | none => semCreate semOp
  | some semId => semOperate (some semId) semOp

def semP : SysProg := semCall (-1)

def semV : SysProg := semCall 1

structure SemSet where
  id : SemId
  value : ℕ
deriving DecidableEq, Repr

/-- One call, where `none` is the absent set. A new set has the value 0; a `semop` that would make
the value negative waits. -/
inductive KernelStep : Option SemSet → Event SysAnswer → Option SemSet → Prop
  | absent : KernelStep none ⟨.semget false, none⟩ none
  | create (id : SemId) : KernelStep none ⟨.semget true, some id⟩ (some ⟨id, 0⟩)
  | present (set : SemSet) (create : Bool) :
      KernelStep (some set) ⟨.semget create, some set.id⟩ (some set)
  | setval (set : SemSet) (val : ℕ) :
      KernelStep (some set) ⟨.semctl (some set.id) val, true⟩ (some ⟨set.id, val⟩)
  | semop (set : SemSet) (semOp : ℤ) (h : 0 ≤ set.value + semOp) :
      KernelStep (some set) ⟨.semop (some set.id) semOp, true⟩
        (some ⟨set.id, (set.value + semOp).toNat⟩)
  | invalidCtl (kernel : Option SemSet) (semId : Option SemId) (val : ℕ)
      (h : ∀ set ∈ kernel, semId ≠ some set.id) :
      KernelStep kernel ⟨.semctl semId val, false⟩ kernel
  | invalidOp (kernel : Option SemSet) (semId : Option SemId) (semOp : ℤ)
      (h : ∀ set ∈ kernel, semId ≠ some set.id) :
      KernelStep kernel ⟨.semop semId semOp, false⟩ kernel

inductive SemProcess
  | outside
  | entering (rest : SysProg)
  | critical
  | leaving (rest : SysProg)

namespace SemProcess

inductive Step : SemProcess → Option (Event SysAnswer) → SemProcess → Prop
  | callP : Step .outside none (.entering semP)
  | enter {rest rest' : SysProg} (e : Event SysAnswer) (h : rest.Emits [e] rest') :
      Step (.entering rest) (some e) (.entering rest')
  | entered : Step (.entering (.pure .ok)) none .critical
  | refused (e : SemError) (h : e ≠ .ok) : Step (.entering (.pure e)) none .outside
  | callV : Step .critical none (.leaving semV)
  | leave {rest rest' : SysProg} (e : Event SysAnswer) (h : rest.Emits [e] rest') :
      Step (.leaving rest) (some e) (.leaving rest')
  | left (e : SemError) : Step (.leaving (.pure e)) none .outside

def Holds : SemProcess → Prop
  | .outside => False
  | .entering rest => rest = .pure .ok
  | .critical => True
  | .leaving rest => rest ≠ .pure .ok

end SemProcess

structure SemSystem (ι : Type) where
  kernel : Option SemSet
  processes : ι → SemProcess

variable {ι : Type} [DecidableEq ι]

namespace SemSystem

inductive Kernel (kernel : Option SemSet) : Option (Event SysAnswer) → Option SemSet → Prop
  | none : Kernel kernel none kernel
  | call {e : Event SysAnswer} {kernel' : Option SemSet} (h : KernelStep kernel e kernel') :
      Kernel kernel (some e) kernel'

def Step (s : SemSystem ι) (e : Option (Event SysAnswer)) (s' : SemSystem ι) : Prop :=
  ∃ i p, (s.processes i).Step e p ∧ Kernel s.kernel e s'.kernel ∧
    s'.processes = Function.update s.processes i p

/-- The step sets the value of the semaphore while a process holds it. -/
def Resets (s : SemSystem ι) : Option (Event SysAnswer) → Prop
  | some ⟨.semctl _ _, ret⟩ => ret = true ∧ ∃ i, (s.processes i).Holds
  | _ => False

def Reachable : SemSystem ι → SemSystem ι → Prop :=
  Relation.ReflTransGen fun s s' => ∃ e, s.Step e s'

/-- Steps none of which sets a value that a process holds. -/
def CalmReachable : SemSystem ι → SemSystem ι → Prop :=
  Relation.ReflTransGen fun s s' => ∃ e, s.Step e s' ∧ ¬ s.Resets e

def scratch : SemSystem ι := ⟨none, fun _ => .outside⟩

/-- One process is in its critical section at most, and the value never exceeds 1. -/
structure Safe (s : SemSystem ι) : Prop where
  exclusive : ∀ i j, s.processes i = .critical → s.processes j = .critical → i = j
  value_le_one : ∀ set ∈ s.kernel, set.value ≤ 1

/-- Where a process can be: it works with the identifier of the set, and it holds the semaphore
only where the set is present. -/
def Known (kernel : Option SemSet) : SemProcess → Prop
  | .outside => True
  | .entering rest =>
      rest = semP ∨ rest = semCreate (-1) ∨ ∃ set, kernel = some set ∧
        (rest = semInitialise (some set.id) (-1) ∨ rest = semOperate (some set.id) (-1) ∨
          rest = .pure .ok)
  | .critical => ∃ set, kernel = some set
  | .leaving rest => ∃ set, kernel = some set ∧
      (rest = semV ∨ rest = semOperate (some set.id) 1 ∨ rest = .pure .ok)

def value (kernel : Option SemSet) : ℕ := (kernel.map SemSet.value).getD 0

inductive Effect (kernel kernel' : Option SemSet) (p p' : SemProcess) :
    Option (Event SysAnswer) → Prop
  | stays (e : Option (Event SysAnswer)) (h : value kernel' = value kernel)
      (hp : p'.Holds ↔ p.Holds) : Effect kernel kernel' p p' e
  | sets (semId : Option SemId) (val : ℕ) (h : value kernel' = 1) (hp : p'.Holds ↔ p.Holds) :
      Effect kernel kernel' p p' (some ⟨.semctl semId val, true⟩)
  | takes (e : Option (Event SysAnswer)) (h : value kernel = value kernel' + 1) (hp : ¬ p.Holds)
      (hp' : p'.Holds) : Effect kernel kernel' p p' e
  | gives (e : Option (Event SysAnswer)) (h : value kernel' = value kernel + 1) (hp : p.Holds)
      (hp' : ¬ p'.Holds) : Effect kernel kernel' p p' e

/-- A call keeps the identifier of a set that is present. -/
theorem KernelStep.present_after {set : SemSet} {e : Event SysAnswer} {kernel : Option SemSet}
    (h : KernelStep (some set) e kernel) : ∃ set', kernel = some set' ∧ set'.id = set.id := by
  cases h with
  | present create => exact ⟨set, rfl, rfl⟩
  | setval val => exact ⟨_, rfl, rfl⟩
  | semop semOp h => exact ⟨_, rfl, rfl⟩
  | invalidCtl semId val h => exact ⟨set, rfl, rfl⟩
  | invalidOp semId semOp h => exact ⟨set, rfl, rfl⟩

/-- What another process knows is still so. -/
theorem Known.after {kernel kernel' : Option SemSet} {p : SemProcess} (h : Known kernel p)
    (hk : ∀ set, kernel = some set → ∃ set', kernel' = some set' ∧ set'.id = set.id) :
    Known kernel' p := by
  cases p with
  | outside => exact h
  | entering rest =>
      rcases h with h | h | ⟨set, hset, h⟩
      · exact .inl h
      · exact .inr (.inl h)
      · obtain ⟨set', hset', hid⟩ := hk set hset
        exact .inr (.inr ⟨set', hset', hid ▸ h⟩)
  | critical =>
      obtain ⟨set, hset⟩ := h
      obtain ⟨set', hset', -⟩ := hk set hset
      exact ⟨set', hset'⟩
  | leaving rest =>
      obtain ⟨set, hset, h⟩ := h
      obtain ⟨set', hset', hid⟩ := hk set hset
      exact ⟨set', hset', hid ▸ h⟩

theorem semCall_emits {op : ℤ} {e : Event SysAnswer} {rest : SysProg}
    (h : (semCall op).Emits [e] rest) : (e = ⟨.semget false, none⟩ ∧ rest = semCreate op) ∨
      ∃ id, e = ⟨.semget false, some id⟩ ∧ rest = semOperate (some id) op := by
  obtain ⟨r, rfl, rfl⟩ := Prog.emits_call_iff.mp h
  cases r with
  | none => exact .inl ⟨rfl, rfl⟩
  | some id => exact .inr ⟨id, rfl, rfl⟩

theorem semCreate_emits {op : ℤ} {e : Event SysAnswer} {rest : SysProg}
    (h : (semCreate op).Emits [e] rest) :
    ∃ id, e = ⟨.semget true, id⟩ ∧ rest = semInitialise id op := Prog.emits_call_iff.mp h

theorem semInitialise_emits {id : Option SemId} {op : ℤ} {e : Event SysAnswer} {rest : SysProg}
    (h : (semInitialise id op).Emits [e] rest) : (e = ⟨.semctl id 1, true⟩ ∧ rest = semOperate id op) ∨
      e = ⟨.semctl id 1, false⟩ ∧ rest = .pure .initFail := by
  obtain ⟨r, rfl, rfl⟩ := Prog.emits_call_iff.mp h
  cases r with
  | true => exact .inl ⟨rfl, rfl⟩
  | false => exact .inr ⟨rfl, rfl⟩

theorem semOperate_emits {id : Option SemId} {op : ℤ} {e : Event SysAnswer} {rest : SysProg}
    (h : (semOperate id op).Emits [e] rest) : (e = ⟨.semop id op, true⟩ ∧ rest = .pure .ok) ∨
      e = ⟨.semop id op, false⟩ ∧ rest = .pure .opFail := by
  obtain ⟨r, rfl, rfl⟩ := Prog.emits_call_iff.mp h
  cases r with
  | true => exact .inl ⟨rfl, rfl⟩
  | false => exact .inr ⟨rfl, rfl⟩

/-- A call of `sem_p`. -/
theorem Known.enter {kernel kernel' : Option SemSet} {rest rest' : SysProg} {e : Event SysAnswer}
    (h : Known kernel (.entering rest)) (he : rest.Emits [e] rest') (hk : KernelStep kernel e kernel') :
    Known kernel' (.entering rest') ∧
      Effect kernel kernel' (.entering rest) (.entering rest') (some e) := by
  rcases h with rfl | rfl | ⟨set, rfl, rfl | rfl | rfl⟩
  · rcases semCall_emits he with ⟨rfl, rfl⟩ | ⟨id, rfl, rfl⟩
    · cases hk
      exact ⟨.inr (.inl rfl), .stays _ rfl ⟨nofun, nofun⟩⟩
    · cases hk with
      | present set => exact ⟨.inr (.inr ⟨set, rfl, .inr (.inl rfl)⟩), .stays _ rfl ⟨nofun, nofun⟩⟩
  · obtain ⟨id, rfl, rfl⟩ := semCreate_emits he
    cases hk with
    | create id => exact ⟨.inr (.inr ⟨_, rfl, .inl rfl⟩), .stays _ rfl ⟨nofun, nofun⟩⟩
    | present set => exact ⟨.inr (.inr ⟨set, rfl, .inl rfl⟩), .stays _ rfl ⟨nofun, nofun⟩⟩
  · rcases semInitialise_emits he with ⟨rfl, rfl⟩ | ⟨rfl, rfl⟩
    · cases hk
      exact ⟨.inr (.inr ⟨_, rfl, .inr (.inl rfl)⟩), .sets _ _ rfl ⟨nofun, nofun⟩⟩
    · cases hk with
      | invalidCtl _ _ _ hid => exact absurd rfl (hid set rfl)
  · rcases semOperate_emits he with ⟨rfl, rfl⟩ | ⟨rfl, rfl⟩
    · cases hk with
      | semop _ _ hpos =>
          refine ⟨.inr (.inr ⟨_, rfl, .inr (.inr rfl)⟩), .takes _ ?_ nofun rfl⟩
          change set.value = ((set.value : ℤ) + -1).toNat + 1
          omega
    · cases hk with
      | invalidOp _ _ _ hid => exact absurd rfl (hid set rfl)
  · exact absurd he Prog.not_emits_pure

/-- A call of `sem_v`. -/
theorem Known.leave {kernel kernel' : Option SemSet} {rest rest' : SysProg} {e : Event SysAnswer}
    (h : Known kernel (.leaving rest)) (he : rest.Emits [e] rest') (hk : KernelStep kernel e kernel') :
    Known kernel' (.leaving rest') ∧
      Effect kernel kernel' (.leaving rest) (.leaving rest') (some e) := by
  obtain ⟨set, rfl, rfl | rfl | rfl⟩ := h
  · rcases semCall_emits he with ⟨rfl, rfl⟩ | ⟨id, rfl, rfl⟩
    · cases hk
    · cases hk
      exact ⟨⟨set, rfl, .inr (.inl rfl)⟩, .stays _ rfl ⟨nofun, nofun⟩⟩
  · rcases semOperate_emits he with ⟨rfl, rfl⟩ | ⟨rfl, rfl⟩
    · cases hk with
      | semop _ _ hpos =>
          refine ⟨⟨_, rfl, .inr (.inr rfl)⟩, .gives _ ?_ nofun fun hne => hne rfl⟩
          change ((set.value : ℤ) + 1).toNat = set.value + 1
          omega
    · cases hk with
      | invalidOp _ _ _ hid => exact absurd rfl (hid set rfl)
  · exact absurd he Prog.not_emits_pure

/-- What a step of a process does. -/
theorem Known.step {kernel kernel' : Option SemSet} {p p' : SemProcess}
    {e : Option (Event SysAnswer)} (h : Known kernel p) (hs : p.Step e p')
    (hk : Kernel kernel e kernel') : Known kernel' p' ∧ Effect kernel kernel' p p' e := by
  cases hs with
  | callP =>
      cases hk
      exact ⟨.inl rfl, .stays _ rfl ⟨nofun, nofun⟩⟩
  | enter e he =>
      cases hk with
      | call hk => exact h.enter he hk
  | entered =>
      cases hk
      obtain h | h | ⟨set, hset, -⟩ := h
      · cases h
      · cases h
      · exact ⟨⟨set, hset⟩, .stays _ rfl ⟨fun _ => rfl, fun _ => trivial⟩⟩
  | refused e hne =>
      cases hk
      exact ⟨trivial, .stays _ rfl ⟨nofun, fun heq => hne (Prog.pure.inj heq)⟩⟩
  | callV =>
      cases hk
      obtain ⟨set, hset⟩ := h
      exact ⟨⟨set, hset, .inl rfl⟩, .stays _ rfl ⟨fun _ => trivial, fun _ => nofun⟩⟩
  | leave e he =>
      cases hk with
      | call hk => exact h.leave he hk
  | left e =>
      cases hk
      obtain ⟨set, -, h | h | h⟩ := h
      · cases h
      · cases h
      · exact ⟨trivial, .stays _ rfl ⟨nofun, fun hne => hne h⟩⟩

noncomputable def semaphore (s : SemSystem ι) : Semaphore.State ι where
  value := value s.kernel
  held i := open Classical in if (s.processes i).Holds then 1 else 0

section Runs

variable {s s' t : SemSystem ι} {e : Option (Event SysAnswer)}

omit [DecidableEq ι] in
theorem held_of_holds {i : ι} (h : (s.processes i).Holds) : s.semaphore.held i = 1 := if_pos h

omit [DecidableEq ι] in
theorem held_of_not_holds {i : ι} (h : ¬ (s.processes i).Holds) : s.semaphore.held i = 0 := if_neg h

omit [DecidableEq ι] in
theorem held_congr {i : ι} (h : (s'.processes i).Holds ↔ (s.processes i).Holds) :
    s'.semaphore.held i = s.semaphore.held i := by
  by_cases hholds : (s.processes i).Holds
  · rw [held_of_holds hholds, held_of_holds (h.mpr hholds)]
  · rw [held_of_not_holds hholds, held_of_not_holds fun h' => hholds (h.mp h')]

theorem Kernel.present_after {kernel kernel' : Option SemSet} (h : Kernel kernel e kernel') :
    ∀ set, kernel = some set → ∃ set', kernel' = some set' ∧ set'.id = set.id := by
  rintro set rfl
  cases h with
  | none => exact ⟨set, rfl, rfl⟩
  | call h => exact KernelStep.present_after h

/-- Every process knows where it is, whatever the order of the steps. -/
theorem Step.known (h : s.Step e s') (hs : ∀ i, Known s.kernel (s.processes i)) (i : ι) :
    Known s'.kernel (s'.processes i) := by
  obtain ⟨k, p, hp, hk, hprocesses⟩ := h
  rw [hprocesses]
  by_cases hik : i = k
  · subst hik
    rw [Function.update_self]
    exact ((hs i).step hp hk).1
  · rw [Function.update_of_ne hik]
    exact (hs i).after hk.present_after

theorem Reachable.known (h : Reachable s t) (hs : ∀ i, Known s.kernel (s.processes i)) (i : ι) :
    Known t.kernel (t.processes i) := by
  induction h generalizing i with
  | refl => exact hs i
  | tail _ hstep ih =>
      obtain ⟨e, hstep⟩ := hstep
      exact hstep.known ih i

/-- The holders after one process has changed. -/
theorem held_update {i : ι} {p : SemProcess} (hprocesses : s'.processes = Function.update s.processes i p)
    {n : ℤ} (hn : s'.semaphore.held i = n) :
    s'.semaphore.held = Function.update s.semaphore.held i n := by
  funext j
  by_cases hj : j = i
  · subst hj
    rw [Function.update_self, hn]
  · have hother : s'.processes j = s.processes j := by rw [hprocesses, Function.update_of_ne hj]
    rw [Function.update_of_ne hj]
    exact held_congr (hother ▸ Iff.rfl)

/-- A step that does not set the value of a held semaphore keeps one holder at most. -/
theorem Step.atMostOne (h : s.Step e s') (hcalm : ¬ s.Resets e)
    (hs : ∀ i, Known s.kernel (s.processes i)) (hone : Semaphore.AtMostOne s.semaphore) :
    Semaphore.AtMostOne s'.semaphore := by
  obtain ⟨i, p, hp, hk, hprocesses⟩ := h
  have hself : s'.processes i = p := by rw [hprocesses, Function.update_self]
  obtain ⟨-, heffect⟩ := (hs i).step hp hk
  have hsame : (p.Holds ↔ (s.processes i).Holds) → s'.semaphore.held = s.semaphore.held := by
    intro hiff
    rw [held_update hprocesses (held_congr (hself ▸ hiff)), Function.update_eq_self]
  have hstate : s'.semaphore = ⟨value s'.kernel, s'.semaphore.held⟩ := rfl
  rw [hstate]
  cases heffect with
  | stays _ hvalue hiff =>
      rw [hvalue, hsame hiff]
      exact hone
  | sets semId val hvalue hiff =>
      rw [hvalue, hsame hiff]
      refine .set fun j => held_of_not_holds fun hj => hcalm ⟨rfl, j, hj⟩
  | takes _ hvalue hno hyes =>
      have hheld : s'.semaphore.held i = s.semaphore.held i + 1 := by
        rw [held_of_holds (hself ▸ hyes), held_of_not_holds hno, zero_add]
      have hpos : 0 < s.semaphore.value := by
        change 0 < value s.kernel
        omega
      have hdec : value s'.kernel = s.semaphore.value - 1 := by
        change value s'.kernel = value s.kernel - 1
        omega
      rw [held_update hprocesses hheld, hdec]
      exact hone.step (.acquire i hpos)
  | gives _ hvalue hyes hno =>
      have hheld : s'.semaphore.held i = s.semaphore.held i - 1 := by
        rw [held_of_not_holds (hself ▸ hno), held_of_holds hyes, sub_self]
      have hpos : 0 < s.semaphore.held i := by
        rw [held_of_holds hyes]
        exact Int.one_pos
      rw [held_update hprocesses hheld, hvalue]
      exact hone.step (.release i hpos)

theorem CalmReachable.reachable (h : CalmReachable s t) : Reachable s t := by
  induction h with
  | refl => exact .refl
  | tail _ hstep ih =>
      obtain ⟨e, hstep, -⟩ := hstep
      exact ih.tail ⟨e, hstep⟩

omit [DecidableEq ι] in
theorem scratch_known (i : ι) : Known (scratch : SemSystem ι).kernel (scratch.processes i) := trivial

omit [DecidableEq ι] in
theorem scratch_atMostOne : Semaphore.AtMostOne (scratch : SemSystem ι).semaphore where
  value_le_one := Nat.zero_le 1
  held_le_one i := by
    rw [held_of_not_holds (s := scratch) (i := i) id]
    exact Int.one_pos.le
  alone i hi := by
    rw [held_of_not_holds (s := scratch) (i := i) id] at hi
    exact absurd hi (lt_irrefl 0)

theorem CalmReachable.atMostOne (h : CalmReachable scratch t) : Semaphore.AtMostOne t.semaphore := by
  induction h with
  | refl => exact scratch_atMostOne
  | tail hreach hstep ih =>
      obtain ⟨e, hstep, hcalm⟩ := hstep
      exact hstep.atMostOne hcalm ((CalmReachable.reachable hreach).known scratch_known) ih

omit [DecidableEq ι] in
theorem safe_of_atMostOne (h : Semaphore.AtMostOne t.semaphore) : t.Safe where
  exclusive i j hi hj := by
    have hheld : ∀ k, t.processes k = .critical → 0 < t.semaphore.held k := by
      intro k hk
      rw [held_of_holds (hk ▸ trivial)]
      exact Int.one_pos
    exact (h.alone j (hheld j hj)).2 i (hheld i hi)
  value_le_one set hset := by
    have hvalue : t.semaphore.value = set.value := by
      change value t.kernel = _
      rw [Option.mem_def.mp hset]
      rfl
    rw [← hvalue]
    exact h.value_le_one

/-- Only a process in `sem_p` that does not hold the semaphore sets a value, and it sets 1. -/
theorem Known.semctl {kernel : Option SemSet} {p p' : SemProcess} {id : Option SemId} {val : ℕ}
    {ret : Bool} (h : Known kernel p) (hs : p.Step (some ⟨.semctl id val, ret⟩) p') :
    val = 1 ∧ ¬ p.Holds := by
  have hcall : ∀ {op rest}, ¬ (semCall op).Emits [⟨.semctl id val, ret⟩] rest := by
    intro op rest he
    rcases semCall_emits he with ⟨he, -⟩ | ⟨_, he, -⟩ <;> cases he
  have hoperate : ∀ {id' op rest}, ¬ (semOperate id' op).Emits [⟨.semctl id val, ret⟩] rest := by
    intro id' op rest he
    rcases semOperate_emits he with ⟨he, -⟩ | ⟨he, -⟩ <;> cases he
  cases hs with
  | enter _ he =>
      rcases h with rfl | rfl | ⟨set, -, rfl | rfl | rfl⟩
      · exact absurd he hcall
      · obtain ⟨_, he, -⟩ := semCreate_emits he
        cases he
      · rcases semInitialise_emits he with ⟨he, -⟩ | ⟨he, -⟩
        · cases he
          exact ⟨rfl, nofun⟩
        · cases he
          exact ⟨rfl, nofun⟩
      · exact absurd he hoperate
      · exact absurd he Prog.not_emits_pure
  | leave _ he =>
      obtain ⟨set, -, rfl | rfl | rfl⟩ := h
      · exact absurd he hcall
      · exact absurd he hoperate
      · exact absurd he Prog.not_emits_pure

/-- A step of one process, as a run. -/
theorem Step.reachable {i : ι} {p : SemProcess} {kernel : Option SemSet}
    (hp : (s.processes i).Step e p) (hk : Kernel s.kernel e kernel) :
    Reachable s ⟨kernel, Function.update s.processes i p⟩ :=
  .single ⟨e, i, p, hp, hk, rfl⟩

/-- A process that holds the semaphore can release it. -/
theorem exists_release {i : ι} {set : SemSet} (hknown : Known s.kernel (s.processes i))
    (hset : s.kernel = some set) (hholds : (s.processes i).Holds) :
    ∃ t, Reachable s t ∧ t.kernel = some ⟨set.id, set.value + 1⟩ := by
  have hoperate : ∀ {s : SemSystem ι}, s.kernel = some set →
      s.processes i = .leaving (semOperate (some set.id) 1) →
      ∃ t, Reachable s t ∧ t.kernel = some ⟨set.id, set.value + 1⟩ := by
    intro s hset hp
    have hstep : (s.processes i).Step (some ⟨.semop (some set.id) 1, true⟩) (.leaving (.pure .ok)) :=
      hp ▸ .leave _ (.cons _ _ _ (.nil _))
    exact ⟨_, Step.reachable hstep (hset ▸ .call (.semop set 1 (by omega))), rfl⟩
  have hleave : ∀ {s : SemSystem ι}, s.kernel = some set → s.processes i = .leaving semV →
      ∃ t, Reachable s t ∧ t.kernel = some ⟨set.id, set.value + 1⟩ := by
    intro s hset hp
    have hstep : (s.processes i).Step (some ⟨.semget false, some set.id⟩)
        (.leaving (semOperate (some set.id) 1)) := hp ▸ .leave _ (.cons _ _ _ (.nil _))
    obtain ⟨t, hreach, ht⟩ := hoperate
      (s := ⟨some set, Function.update s.processes i (.leaving (semOperate (some set.id) 1))⟩) rfl
      (Function.update_self ..)
    have hpresent : Kernel s.kernel (some ⟨.semget false, some set.id⟩) (some set) := by
      rw [hset]
      exact .call (.present set false)
    exact ⟨t, (Step.reachable hstep hpresent).trans hreach, ht⟩
  have hcritical : ∀ {s : SemSystem ι}, s.kernel = some set → s.processes i = .critical →
      ∃ t, Reachable s t ∧ t.kernel = some ⟨set.id, set.value + 1⟩ := by
    intro s hset hp
    have hstep : (s.processes i).Step none (.leaving semV) := hp ▸ .callV
    obtain ⟨t, hreach, ht⟩ := hleave
      (s := ⟨some set, Function.update s.processes i (.leaving semV)⟩) rfl (Function.update_self ..)
    exact ⟨t, (Step.reachable hstep (hset ▸ .none)).trans hreach, ht⟩
  cases hp : s.processes i with
  | outside =>
      rw [hp] at hholds
      exact hholds.elim
  | entering rest =>
      rw [hp] at hholds
      obtain rfl : rest = .pure .ok := hholds
      have hstep : (s.processes i).Step none .critical := hp ▸ .entered
      obtain ⟨t, hreach, ht⟩ := hcritical
        (s := ⟨some set, Function.update s.processes i .critical⟩) rfl (Function.update_self ..)
      exact ⟨t, (Step.reachable hstep (hset ▸ .none)).trans hreach, ht⟩
  | critical => exact hcritical hset hp
  | leaving rest =>
      rw [hp] at hknown hholds
      obtain ⟨set', hset', hrest | hrest | hrest⟩ := hknown
      · exact hleave hset (hrest ▸ hp)
      · obtain rfl := Option.some.inj (hset.symm.trans hset')
        exact hoperate hset (hrest ▸ hp)
      · exact absurd hrest hholds

/-- After the value of a held semaphore has been set, its release makes it 2. -/
theorem exists_not_safe (hs : ∀ i, Known s.kernel (s.processes i)) (h : s.Step e s')
    (hreset : s.Resets e) : ∃ t, Reachable s' t ∧ ¬ t.Safe := by
  have hknown := h.known hs
  obtain ⟨i, p, hp, hk, hprocesses⟩ := h
  obtain ⟨id, val, rfl, j, hj⟩ : ∃ id val, e = some ⟨.semctl id val, true⟩ ∧
      ∃ j, (s.processes j).Holds := by
    match e, hreset with
    | some ⟨.semctl id val, ret⟩, h => exact ⟨id, val, by rw [h.1], h.2⟩
  obtain ⟨rfl, hi⟩ := (hs i).semctl hp
  obtain ⟨set, hset⟩ : ∃ set : SemSet, s'.kernel = some ⟨set.id, 1⟩ := by
    generalize s'.kernel = kernel' at hk
    cases hk with
    | call hk =>
        generalize s.kernel = kernel at hk
        cases hk with
        | setval set => exact ⟨set, rfl⟩
  have hji : j ≠ i := fun h => hi (h ▸ hj)
  have hholds : (s'.processes j).Holds := by
    rw [hprocesses, Function.update_of_ne hji]
    exact hj
  obtain ⟨t, hreach, ht⟩ := exists_release (hknown j) hset hholds
  refine ⟨t, hreach, fun hsafe => ?_⟩
  have hvalue := hsafe.value_le_one _ ht
  change 1 + 1 ≤ 1 at hvalue
  omega

end Runs

/-- In every run that never sets the value of the semaphore while a process holds it, one process
at most is in its critical section and the value is at most 1. After a step that does so a state is
within reach where this fails. -/
theorem sem_mutual_exclusion :
    (∀ s : SemSystem ι, CalmReachable scratch s → s.Safe) ∧
      ∀ (s s' : SemSystem ι) e, Reachable scratch s → s.Step e s' → s.Resets e →
        ∃ t, Reachable s' t ∧ ¬ t.Safe :=
  ⟨fun _ h => safe_of_atMostOne h.atMostOne,
    fun _ _ _ h hstep hreset => exists_not_safe (h.known scratch_known) hstep hreset⟩

def pair (kernel : Option SemSet) (p q : SemProcess) : SemSystem Bool :=
  ⟨kernel, fun i => if i then p else q⟩

theorem pair_first {kernel kernel' : Option SemSet} {p p' : SemProcess} (q : SemProcess)
    {e : Option (Event SysAnswer)} (hp : p.Step e p') (hk : Kernel kernel e kernel') :
    (pair kernel p q).Step e (pair kernel' p' q) := by
  refine ⟨true, p', hp, hk, funext fun i => ?_⟩
  cases i with
  | true => rfl
  | false => rfl

theorem pair_second {kernel kernel' : Option SemSet} (p : SemProcess) {q q' : SemProcess}
    {e : Option (Event SysAnswer)} (hq : q.Step e q') (hk : Kernel kernel e kernel') :
    (pair kernel p q).Step e (pair kernel' p q') := by
  refine ⟨false, q', hq, hk, funext fun i => ?_⟩
  cases i with
  | true => rfl
  | false => rfl

theorem scratch_eq_pair : scratch = pair none .outside .outside := by
  refine congrArg (SemSystem.mk none) (funext fun i => ?_)
  cases i with
  | true => rfl
  | false => rfl

/-- Both find the set absent; the first creates and initialises it and enters its critical section,
and the second gets the identifier. -/
theorem calmReachable_late : CalmReachable scratch
    (pair (some ⟨0, 0⟩) .critical (.entering (semInitialise (some 0) (-1)))) := by
  rw [scratch_eq_pair]
  have hfree : ¬ (pair (some ⟨0, 0⟩) (.entering (semInitialise (some 0) (-1)))
      (.entering (semCreate (-1)))).Resets (some ⟨.semctl (some 0) 1, true⟩) := by
    rintro ⟨-, i, hi⟩
    cases i with
    | true => cases (hi : semInitialise (some 0) (-1) = .pure .ok)
    | false => cases (hi : semCreate (-1) = .pure .ok)
  have habsent : semP.Emits [⟨.semget false, none⟩] (semCreate (-1)) := .cons _ _ _ (.nil _)
  have hcreate : (semCreate (-1)).Emits [⟨.semget true, some 0⟩] (semInitialise (some 0) (-1)) :=
    .cons _ _ _ (.nil _)
  have hset : (semInitialise (some 0) (-1)).Emits [⟨.semctl (some 0) 1, true⟩]
      (semOperate (some 0) (-1)) := .cons _ _ _ (.nil _)
  have htake : (semOperate (some 0) (-1)).Emits [⟨.semop (some 0) (-1), true⟩] (.pure .ok) :=
    .cons _ _ _ (.nil _)
  have htaken : KernelStep (some ⟨0, 1⟩) ⟨.semop (some 0) (-1), true⟩ (some ⟨0, 0⟩) :=
    .semop ⟨0, 1⟩ (-1) (by decide)
  refine .head ⟨_, pair_first _ .callP .none, id⟩ ?_
  refine .head ⟨_, pair_second _ .callP .none, id⟩ ?_
  refine .head ⟨_, pair_first _ (.enter _ habsent) (.call .absent), id⟩ ?_
  refine .head ⟨_, pair_second _ (.enter _ habsent) (.call .absent), id⟩ ?_
  refine .head ⟨_, pair_first _ (.enter _ hcreate) (.call (.create 0)), id⟩ ?_
  refine .head ⟨_, pair_first _ (.enter _ hset) (.call (.setval ⟨0, 0⟩ 1)), hfree⟩ ?_
  refine .head ⟨_, pair_first _ (.enter _ htake) (.call htaken), id⟩ ?_
  refine .head ⟨_, pair_first _ .entered .none, id⟩ ?_
  exact .single ⟨_, pair_second _ (.enter _ hcreate) (.call (.present ⟨0, 0⟩ true)), id⟩

/-- The second process initialises the set again while the first is in its critical section. -/
theorem late_step : (pair (some ⟨0, 0⟩) .critical (.entering (semInitialise (some 0) (-1)))).Step
    (some ⟨.semctl (some 0) 1, true⟩)
    (pair (some ⟨0, 1⟩) .critical (.entering (semOperate (some 0) (-1)))) :=
  pair_second _ (.enter _ (Prog.emits_call_iff.mpr ⟨true, rfl, rfl⟩)) (.call (.setval ⟨0, 0⟩ 1))

theorem late_resets :
    (pair (some ⟨0, 0⟩) .critical (.entering (semInitialise (some 0) (-1)))).Resets
      (some ⟨.semctl (some 0) 1, true⟩) := ⟨rfl, true, trivial⟩

theorem sem_mutual_exclusion_late :
    (pair (some ⟨0, 0⟩) .critical (.entering (semInitialise (some 0) (-1)))).Safe ∧
      ∃ t, Reachable (pair (some ⟨0, 1⟩) .critical (.entering (semOperate (some 0) (-1)))) t ∧
        ¬ t.Safe :=
  ⟨sem_mutual_exclusion.1 _ calmReachable_late,
    sem_mutual_exclusion.2 _ _ _ calmReachable_late.reachable late_step late_resets⟩

theorem not_sem_mutual_exclusion :
    ¬ ∀ s : SemSystem Bool, Reachable scratch s → s.Safe := by
  intro h
  have hlate := CalmReachable.reachable calmReachable_late
  obtain ⟨t, hreach, ht⟩ := exists_not_safe (hlate.known scratch_known) late_step late_resets
  exact ht (h t ((hlate.tail ⟨_, late_step⟩).trans hreach))

end SemSystem

end Sorm
