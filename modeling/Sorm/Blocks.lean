import Sorm.ColumnReading
import Sorm.DisciplineRun

/-!
# Blocks that are out

The ledger of a trace: the blocks that were obtained and not given back, each with the allocator it
came from. There is none once a block is freed that is not out, or by an allocator it did not come
from.
-/

namespace Sorm

open Interaction Monitor

abbrev Block := Allocator × Address

/-- The blocks that are out after one more call. -/
def enter : Option (Multiset Block) → SormEvent → Option (Multiset Block)
  | none, _ => none
  | some out, ⟨.malloc allocator _, some block⟩ => some (out + {(allocator, block)})
  | some out, ⟨.strdup allocator _, some block⟩ => some (out + {(allocator, block)})
  | some out, ⟨.free allocator (some block), _⟩ =>
      if (allocator, block) ∈ out then some (out.erase (allocator, block)) else none
  | some out, _ => some out

def ledger (tr : List SormEvent) : Option (Multiset Block) := tr.foldl enter (some 0)

theorem ledger_append (tr tr' : List SormEvent) :
    ledger (tr ++ tr') = tr'.foldl enter (ledger tr) := List.foldl_append

def blockOf (allocator : Allocator) : Option Address → Multiset Block
  | none => 0
  | some block => {(allocator, block)}

theorem mem_blockOf {allocator : Allocator} {ptr : Option Address} {block : Block}
    (h : block ∈ blockOf allocator ptr) : block.1 = allocator := by
  cases ptr with
  | none => exact absurd h (Multiset.notMem_zero _)
  | some a =>
      have heq : block = (allocator, a) := Multiset.mem_singleton.mp h
      rw [heq]

theorem foldl_enter_none (tr : List SormEvent) : tr.foldl enter none = none := by
  induction tr with
  | nil => rfl
  | cons e tr ih => exact ih

def blockMonitor : Monitor Resp (Option (Multiset Block)) := .fold (fun _ _ => True) enter

def Out (out : Multiset Block) (s : Option (Multiset Block)) : Prop := s = some out

theorem blockMonitor_run (s : Option (Multiset Block)) (tr : List SormEvent) :
    blockMonitor.Run s tr (tr.foldl enter s) := fold_run s tr

/-- What is out after a program has returned. -/
theorem ledger_returns {α : Type} {p : Act α} {a : α} {tr tr' : List SormEvent}
    {out : Multiset Block} {Q : α → Option (Multiset Block) → Prop}
    (h : Triple blockMonitor (Out out) p Q) (hout : ledger tr = some out)
    (he : p.Emits tr' (.pure a)) : Q a (ledger (tr ++ tr')) := by
  rw [ledger_append]
  exact h.returns hout he (blockMonitor_run _ _)

/-- Every call is allowed. -/
theorem keeps_true {α : Type} (p : Act α) : Keeps blockMonitor (fun _ => True) p := by
  intro s _
  induction p generalizing s with
  | pure a => exact trivial
  | call c k ih => exact ⟨trivial, fun r s' _ => ih r s'⟩
  | stop why => exact trivial

section Calls

variable {out : Multiset Block} {P : Option (Multiset Block) → Prop} {c : Call}

theorem keeps_of_not_isLocal (hc : c.isLocal = false) : Keeps blockMonitor P (perform c) := by
  apply Triple.perform
  · exact fun s hs => trivial
  · intro s r s' hs hstep
    have hs' : s' = s := by
      rw [hstep]
      cases s with
      | none => rfl
      | some out =>
          cases c with
          | malloc | strdup | free => cases hc
          | _ => rfl
    rw [hs']
    exact hs

theorem out_malloc (allocator : Allocator) (size : ℕ) :
    Triple blockMonitor (Out out) (malloc allocator size) fun block =>
      Out (out + blockOf allocator block) := by
  unfold malloc
  split
  · refine Triple.pure fun s hs => ?_
    rw [blockOf, add_zero]
    exact hs
  · have hcall : Triple blockMonitor (Out out) (perform (.malloc allocator size)) fun block =>
        Out (out + blockOf allocator block) := by
      apply Triple.perform
      · exact fun s hs => trivial
      · rintro s block s' rfl hstep
        cases block with
        | none =>
            rw [blockOf, add_zero]
            exact hstep
        | some block => exact hstep
    apply Triple.bind hcall
    intro block
    cases block with
    | none => exact Triple.stop
    | some block => exact Triple.pure fun s hs => hs

theorem out_strdup (allocator : Allocator) (string : Option CString) :
    Triple blockMonitor (Out out) (strdup allocator string) fun copy =>
      Out (out + blockOf allocator (copy.map Prod.fst)) := by
  cases string with
  | none =>
      refine Triple.pure fun s hs => ?_
      rw [Option.map_none, blockOf, add_zero]
      exact hs
  | some str =>
      have hcall : Triple blockMonitor (Out out) (perform (.strdup allocator str)) fun block =>
          Out (out + blockOf allocator block) := by
        apply Triple.perform
        · exact fun s hs => trivial
        · rintro s block s' rfl hstep
          cases block with
          | none =>
              rw [blockOf, add_zero]
              exact hstep
          | some block => exact hstep
      apply Triple.bind hcall
      intro block
      cases block with
      | none => exact Triple.stop
      | some block => exact Triple.pure fun s hs => hs

theorem out_free (allocator : Allocator) (ptr : Option Address) :
    Triple blockMonitor (Out (out + blockOf allocator ptr)) (free allocator ptr) fun _ =>
      Out out := by
  apply Triple.perform
  · exact fun s hs => trivial
  · rintro s r s' rfl hstep
    cases ptr with
    | none =>
        rw [blockOf, add_zero] at hstep
        exact hstep
    | some block =>
        have hmem : (allocator, block) ∈ out + blockOf allocator (some block) :=
          Multiset.mem_add.mpr (Or.inr (Multiset.mem_singleton_self _))
        have herase : (out + blockOf allocator (some block)).erase (allocator, block) = out := by
          rw [blockOf, Multiset.erase_add_right_pos _ (Multiset.mem_singleton_self _),
            Multiset.erase_singleton, add_zero]
        have henter : enter (some (out + blockOf allocator (some block)))
            ⟨.free allocator (some block), r⟩ = some out := by
          rw [enter, if_pos hmem, herase]
        exact hstep.trans henter

/-- A block that is out as far as the ledger goes. -/
def Keeping (block : Block) (s : Option (Multiset Block)) : Prop := ∀ out, s = some out → block ∈ out

/-- What another allocator is given leaves a block where it is. -/
theorem keeping_free {allocator : Allocator} {block : Block} (hne : block.1 ≠ allocator)
    (ptr : Option Address) : Keeps blockMonitor (Keeping block) (free allocator ptr) := by
  apply Triple.perform
  · exact fun s hs => trivial
  · intro s r s' hs hstep out hout
    rw [hstep] at hout
    cases s with
    | none => cases hout
    | some out' =>
        cases ptr with
        | none =>
            cases hout
            exact hs out rfl
        | some a =>
            rw [enter] at hout
            split at hout
            · cases hout
              have hother : block ≠ (allocator, a) := fun heq => hne (by rw [heq])
              exact (Multiset.mem_erase_of_ne hother).mpr (hs out' rfl)
            · cases hout

theorem keeping_freeAll {allocator : Allocator} {block : Block} (hne : block.1 ≠ allocator)
    (blocks : List Address) : Keeps blockMonitor (Keeping block) (freeAll allocator blocks) := by
  induction blocks with
  | nil => exact Keeps.pure
  | cons a blocks ih => exact Keeps.bind (keeping_free hne _) fun _ => ih

theorem out_assertSome {allocator : Allocator} (ptr : Option Address) :
    Triple blockMonitor (Out (out + blockOf allocator ptr)) (assertSome ptr) fun block =>
      Out (out + blockOf allocator (some block)) := by
  cases ptr with
  | none => exact Triple.stop
  | some block => exact Triple.pure fun s hs => hs

theorem out_sormNewArray (allocator : Allocator) (initTableDesc : TableDescriptor) (n : ℤ) :
    Triple blockMonitor (Out out) (sormNewArray allocator initTableDesc n) fun block =>
      Out (out + blockOf allocator block) := by
  unfold sormNewArray
  split
  · refine Triple.pure fun s hs => ?_
    rw [blockOf, add_zero]
    exact hs
  · exact out_malloc _ _

theorem out_freeAll (allocator : Allocator) (blocks : List Address) :
    Triple blockMonitor (Out (out + (blocks.map fun block => blockOf allocator (some block)).sum))
      (freeAll allocator blocks) fun _ => Out out := by
  induction blocks with
  | nil => exact Triple.pure fun s hs => by simpa using hs
  | cons block blocks ih =>
      rw [List.map_cons, List.sum_cons, ← add_assoc, add_right_comm]
      exact Triple.bind (out_free _ _) fun _ => ih

theorem keeps_step (conn : Connection) (h : Option Handle) (rwFlag : RwlockFlag) :
    Keeps blockMonitor P (sqlite3Step conn h rwFlag) := by
  apply keeps_sqlite3Step
  · intro c hc
    apply keeps_of_not_isLocal
    cases c with
    | semP | rdlock | wrlock => rfl
    | _ => cases hc
  · intro c hc
    apply keeps_of_not_isLocal
    cases c with
    | semV | rwUnlock => rfl
    | _ => cases hc
  · exact keeps_of_not_isLocal rfl

theorem keeps_finalize (h : Option Handle) (retVal : SormError) :
    Keeps blockMonitor P (dbFinalize h retVal) := by
  have hretry : Keeps blockMonitor P (sqlite3Finalize h) :=
    Keeps.retry _ (keeps_of_not_isLocal rfl)
  apply Keeps.bind hretry
  intro ret
  split
  · exact Keeps.pure
  · exact Keeps.pure

theorem keeps_prepare (sqlStmt : Text) : Keeps blockMonitor P (sqlite3Prepare sqlStmt) :=
  Keeps.retry _ (keeps_of_not_isLocal rfl)

end Calls

section Objects

variable {table : TableDescriptor} {out : Multiset Block}

namespace Object

def blockAt (allocator : Allocator) (obj : Object table) (i : table.Index) : Multiset Block :=
  if sormIsStatNeedfree (obj.getColumnStat i) then
    blockOf allocator ((obj.slots i).pointer.map CharPointer.address)
  else 0

def blocksAt (allocator : Allocator) (obj : Object table) (is : List table.Index) :
    Multiset Block := (is.map (obj.blockAt allocator)).sum

def blocks (allocator : Allocator) (obj : Object table) : Multiset Block :=
  obj.blocksAt allocator table.indexes

variable {allocator : Allocator} {obj obj' : Object table} {i : table.Index}
  {is : List table.Index}

@[simp] theorem blocksAt_cons : obj.blocksAt allocator (i :: is) =
    obj.blockAt allocator i + obj.blocksAt allocator is := List.sum_cons

theorem blockAt_congr (h : obj'.slots i = obj.slots i) :
    obj'.blockAt allocator i = obj.blockAt allocator i := by
  unfold blockAt getColumnStat
  rw [h]

end Object

theorem Object.mem_blocksAt {allocator : Allocator} {obj : Object table}
    {is : List table.Index} {block : Block} (h : block ∈ obj.blocksAt allocator is) :
    block.1 = allocator := by
  induction is with
  | nil => exact absurd h (Multiset.notMem_zero _)
  | cons i is ih =>
      rw [Object.blocksAt_cons, Multiset.mem_add] at h
      rcases h with h | h
      · unfold Object.blockAt at h
        split at h
        · exact mem_blockOf h
        · exact absurd h (Multiset.notMem_zero _)
      · exact ih h

theorem out_sormFreeColumns (allocator : Allocator) (obj : Object table) (is : List table.Index) :
    Triple blockMonitor (Out (out + obj.blocksAt allocator is)) (sormFreeColumns allocator obj is)
      fun _ => Out out := by
  induction is with
  | nil => exact Triple.pure fun s hs => by simpa [Object.blocksAt] using hs
  | cons i is ih =>
      rw [Object.blocksAt_cons]
      unfold sormFreeColumns
      by_cases hfree : sormIsStatNeedfree (obj.getColumnStat i)
      · simp only [hfree, if_true]
        rw [Object.blockAt, if_pos hfree, ← add_assoc, add_right_comm]
        have hrest : Triple blockMonitor (Out (out + obj.blocksAt allocator is))
            (sormFreeColumns allocator obj is) fun _ => Out out := ih
        split
        · exact Triple.bind (out_free _ _) fun _ => hrest
        · exact Triple.bind Triple.stop fun _ => hrest
      · simp only [hfree]
        rw [Object.blockAt, if_neg hfree, zero_add]
        exact ih

theorem out_sormFree (allocator : Allocator) (obj : Object table) :
    Triple blockMonitor (Out (out + obj.blocks allocator)) (sormFree allocator (some obj))
      fun _ => Out out := out_sormFreeColumns allocator obj table.indexes

def markedBlock (allocator : Allocator) (mark : Mark) : Multiset Block :=
  if mark.1 then blockOf allocator mark.2 else 0

def enterBlock (allocator : Allocator) (out : Multiset Block) (_ : table.Index) (mark : Mark) :
    Multiset Block := out + markedBlock allocator mark

theorem entered_enterBlock (allocator : Allocator) (obj : Object table) (is : List table.Index) :
    obj.entered (enterBlock allocator) is out = out + obj.blocksAt allocator is := by
  induction is generalizing out with
  | nil => exact (add_zero out).symm
  | cons i is ih =>
      rw [Object.entered, List.foldl_cons]
      rw [Object.blocksAt_cons, ← add_assoc]
      exact ih

theorem mark_zero : Slot.zero.mark = (false, none) := by decide

theorem markedBlock_zero (allocator : Allocator) : markedBlock allocator Slot.zero.mark = 0 := by
  rw [mark_zero]
  rfl

/-- The block monitor follows the reading of a column that holds nothing. -/
theorem readsColumn_out (allocator : Allocator) (h : Option Handle) (i : table.Index) (k : ℕ) :
    ReadsColumn blockMonitor allocator h table i k Slot.zero.mark (Out out) fun mark s =>
      Out (out + markedBlock allocator mark) s ∧ (mark.1 → table.InHeap i) where
  plain c hc := by
    apply keeps_of_not_isLocal
    cases c with
    | malloc | strdup | free => exact absurd hc id
    | _ => rfl
  kept s hs := by
    refine ⟨?_, fun hmark => ?_⟩
    · rw [markedBlock_zero, add_zero]
      exact hs
    · rw [mark_zero] at hmark
      exact absurd hmark Bool.false_ne_true
  stack _ := (keeps_of_not_isLocal rfl).post fun text s hs _ => hs
  text htype hmem := ⟨fun _ => Out out, keeps_of_not_isLocal rfl, fun text =>
    (out_strdup allocator text).post fun copy s hs => ⟨hs, fun _ => ⟨Or.inl htype, hmem⟩⟩⟩
  blob htype hmem := by
    refine ⟨fun _ => Out out, keeps_of_not_isLocal rfl, fun s hs => ⟨?_, fun hmark => ?_⟩, ?_⟩
    · rw [markedBlock, mark_zero, if_neg Bool.false_ne_true, add_zero]
      exact hs
    · rw [mark_zero] at hmark
      exact absurd hmark Bool.false_ne_true
    · intro len _
      exact (out_malloc allocator len).post fun block s hs => ⟨hs, fun _ => ⟨Or.inr htype, hmem⟩⟩

def Object.needfree (obj : Object table) (i : table.Index) : Bool :=
  sormIsStatNeedfree (obj.getColumnStat i)

def HeapMarked (obj : Object table) : Prop := ∀ i, obj.needfree i → table.InHeap i

/-- A fresh row holds what reading it has taken, also when it was not read to its end. -/
theorem reads_parseSelectResult (allocator : Allocator) (h : Option Handle)
    (columnIndexesInResult : List (Option ℕ)) (table : TableDescriptor) :
    Triple blockMonitor (Out out)
      (parseSelectResult allocator h columnIndexesInResult (Object.fresh table)) fun r s =>
        Out (out + r.2.blocks allocator) s ∧ HeapMarked r.2 := by
  have hunread : Unread (enterBlock allocator) (fun i mark => mark.1 → table.InHeap i)
      (Object.fresh table) table.indexes := by
    intro i _
    refine ⟨fun b => ?_, fun hmark => ?_⟩
    · exact (congrArg (b + ·) (markedBlock_zero allocator)).trans (add_zero b)
    · change Slot.zero.mark.1 = true at hmark
      rw [mark_zero] at hmark
      exact absurd hmark Bool.false_ne_true
  refine (triple_parseSelectResult hunread fun i k b _ => readsColumn_out allocator h i k).post ?_
  intro r s hr
  refine ⟨?_, fun i hi => hr.good i (List.mem_finRange i) hi⟩
  have hacc := hr.acc
  rw [entered_enterBlock] at hacc
  exact hacc

theorem out_parseSelectResult (allocator : Allocator) (h : Option Handle)
    (columnIndexesInResult : List (Option ℕ)) (table : TableDescriptor) :
    Triple blockMonitor (Out out)
      (parseSelectResult allocator h columnIndexesInResult (Object.fresh table)) fun r =>
        Out (out + r.2.blocks allocator) :=
  (reads_parseSelectResult allocator h columnIndexesInResult table).post fun _ _ hr => hr.1

end Objects

end Sorm
