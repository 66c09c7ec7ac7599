import Sorm.Blocks
import Sorm.ColumnFilter
import Sorm.Recorder
import Sorm.Storage

/-!
# Who owns the text and blob of a row

A select copies the TEXT and BLOB values of heap columns into blocks of the row, and marks them
`NEEDFREE`. Setting a column clears the mark, but gives no block back, so the marks tell which
blocks the row owns exactly as long as no marked column is set.
-/

namespace Sorm

open Interaction Monitor

variable {table : TableDescriptor}

def Object.pointer (obj : Object table) (i : table.Index) : Option CharPointer :=
  (obj.slots i).pointer

def isNullText : SormEvent → Bool
  | ⟨.columnText _ _, none⟩ => true
  | _ => false

def Call.isColumnText : Call → Bool
  | .columnText _ _ => true
  | _ => false

theorem nullText_keeps {P : Bool → Prop} {c : Call} (hc : c.isColumnText = false) :
    Keeps (seen isNullText) P (perform c) := by
  apply keeps_seen
  intro r
  cases c with
  | columnText h k => cases hc
  | _ => rfl

theorem nullText_columnText (before : Bool) (h : Option Handle) (k : ℕ) :
    Triple (seen isNullText) (· = before) (perform (.columnText h k)) fun text b =>
      b = (before || text.isNone) := by
  apply Triple.perform
  · exact fun b hb => trivial
  · rintro b text b' rfl hstep
    cases text with
    | none => exact hstep
    | some text => exact hstep

def enterNullText (before : Bool) (_ : table.Index) (mark : Mark) : Bool :=
  before || (mark.1 && mark.2.isNone)

theorem entered_enterNullText {before : Bool} {obj : Object table} {is : List table.Index} :
    obj.entered enterNullText is before = true ↔ before = true ∨
      ∃ i ∈ is, sormIsStatNeedfree (obj.getColumnStat i) ∧ (obj.slots i).pointer = none := by
  induction is generalizing before with
  | nil => simp [Object.entered]
  | cons i is ih =>
      rw [Object.entered, List.foldl_cons, ← Object.entered, ih, List.exists_mem_cons_iff, ← or_assoc]
      apply or_congr_left
      simp [enterNullText, Slot.mark, Object.getColumnStat]

/-- The monitor follows the reading of a column that holds nothing: only a heap column gets a
mark, and without a mark there is no pointer. -/
theorem readsColumn_nullText (allocator : Allocator) (h : Option Handle) (i : table.Index) (k : ℕ)
    (before : Bool) :
    ReadsColumn (seen isNullText) allocator h table i k Slot.zero.mark (· = before) fun mark b =>
      b = enterNullText before i mark ∧ (mark.1 → table.InHeap i) ∧
        (mark.1 = false → mark.2 = none) := by
  have hlocal : ∀ {P : Bool → Prop} (c : Call), c.isLocal → Keeps (seen isNullText) P (perform c) := by
    intro P c hc
    apply nullText_keeps
    cases c with
    | malloc | strdup | free => rfl
    | _ => cases hc
  have hnone : ∀ b : Bool, b = before → b = enterNullText before i (false, none) ∧
      (false = true → table.InHeap i) ∧ (false = false → (none : Option Address) = none) := by
    rintro b rfl
    exact ⟨(Bool.or_false b).symm, fun hmark => absurd hmark Bool.false_ne_true, fun _ => rfl⟩
  rw [mark_zero]
  constructor
  · intro c hc
    apply nullText_keeps
    cases c with
    | columnText => exact absurd hc id
    | _ => rfl
  · exact hnone
  · intro _
    refine (nullText_columnText before h k).post fun text b hb hsome => ?_
    cases text with
    | none => cases hsome
    | some text => rwa [Option.isNone_some, Bool.or_false] at hb
  · intro htype hmem
    refine ⟨_, nullText_columnText before h k, fun text => ?_⟩
    refine (triple_strdup hlocal allocator text).post ?_
    rintro copy b ⟨hb, hcopy⟩
    refine ⟨?_, fun _ => ⟨Or.inl htype, hmem⟩, fun hmark => absurd hmark.symm Bool.false_ne_true⟩
    have hcopy' : (copy.map Prod.fst).isNone = text.isNone := by
      rw [Option.isNone_map, ← Option.not_isSome, hcopy, Option.not_isSome]
    rw [hb, enterNullText, hcopy', Bool.true_and]
  · intro htype hmem
    refine ⟨fun _ => (· = before), nullText_keeps rfl, hnone, fun len hlen => ?_⟩
    refine (triple_malloc hlocal allocator len).post ?_
    rintro block b ⟨hb, hblock⟩
    refine ⟨?_, fun _ => ⟨Or.inr htype, hmem⟩, fun hmark => absurd hmark.symm Bool.false_ne_true⟩
    obtain ⟨address, rfl⟩ := Option.isSome_iff_exists.mp (hblock.mpr hlen)
    rw [hb, enterNullText]
    simp

/-- A row after reading: every column as its own reading left it, and a text read as NULL when some
column is marked without a pointer. -/
structure Marks (before : Bool) (obj : Object table) (is : List table.Index)
    (r : SormError × Object table) (after : Bool) : Prop where
  inHeap : ∀ i ∈ is, sormIsStatNeedfree (r.2.getColumnStat i) → table.InHeap i
  unmarked : ∀ i ∈ is, ¬ sormIsStatNeedfree (r.2.getColumnStat i) → (r.2.slots i).pointer = none
  nullText : after = true ↔ before = true ∨
    ∃ i ∈ is, sormIsStatNeedfree (r.2.getColumnStat i) ∧ (r.2.slots i).pointer = none
  same : ∀ j, j ∉ is → r.2.slots j = obj.slots j

theorem marks_parseSelectResult (allocator : Allocator) (h : Option Handle)
    (columnIndexesInResult : List (Option ℕ)) (table : TableDescriptor) :
    Triple (seen isNullText) (· = false)
      (parseSelectResult allocator h columnIndexesInResult (Object.fresh table))
      (Marks false (Object.fresh table) table.indexes) := by
  have hunread : Unread enterNullText (fun i mark => (mark.1 → table.InHeap i) ∧
      (mark.1 = false → mark.2 = none)) (Object.fresh table) table.indexes := by
    intro i _
    have hzero : ((Object.fresh table).slots i).mark = (false, none) := mark_zero
    rw [hzero]
    exact ⟨fun b => Bool.or_false b, fun hmark => absurd hmark Bool.false_ne_true, fun _ => rfl⟩
  refine (triple_parseSelectResult hunread fun i k b _ =>
    readsColumn_nullText allocator h i k b).post fun r b hr => ?_
  refine ⟨fun i hi => (hr.good i hi).1, fun i hi hmark => ?_, ?_, hr.same⟩
  · exact Option.map_eq_none_iff.mp ((hr.good i hi).2 (Bool.eq_false_iff.mpr hmark))
  · rw [hr.acc, entered_enterNullText]

structure SetsAt (obj : Object table) (i : table.Index) (address : Address) (obj' : Object table) :
    Prop where
  same : ∀ j, j ≠ i → obj'.slots j = obj.slots j
  unmarks : obj'.needfree i → obj.needfree i
  inHeap : table.InHeap i → obj'.needfree i = false ∧ ∃ p, obj'.pointer i = some p ∧ p.address = address

structure Switched (obj : Object table) (i : table.Index) (value : Pointer) (ret : SormError)
    (slot : Slot) : Prop where
  stat : slot.stat = (obj.slots i).stat
  inHeap : table.InHeap i → ret = .ok ∧ slot.pointer = some value.toCharPointer

theorem setColumn_switched {obj obj' : Object table} {i : table.Index} {value : Pointer}
    {valueLen : ℤ} {ret : SormError} (h : obj.setColumn i value valueLen = .ok (ret, obj')) :
    ∃ slot, obj' = obj.setSlot i slot ∧ Switched obj i value ret slot := by
  have hself : obj = obj.setSlot i (obj.slots i) := by
    unfold Object.setSlot
    rw [Function.update_eq_self]
  have hplain : ∀ {slot : Slot}, slot.stat = (obj.slots i).stat → ¬ table.InHeap i →
      Switched obj i value ret slot := fun hstat hno => ⟨hstat, fun hheap => absurd hheap hno⟩
  unfold Object.setColumn at h
  split at h
  · next htype =>
    cases h
    exact ⟨_, rfl, hplain rfl fun hheap => by simp [TableDescriptor.InHeap, htype] at hheap⟩
  · next htype =>
    cases h
    exact ⟨_, rfl, hplain rfl fun hheap => by simp [TableDescriptor.InHeap, htype] at hheap⟩
  · next htype =>
    unfold Object.setColumnText at h
    split at h
    · cases h
      exact ⟨_, rfl, rfl, fun _ => ⟨rfl, rfl⟩⟩
    · next hmem =>
      have hno : ¬ table.InHeap i := fun hheap => by simp [TableDescriptor.InHeap, hmem] at hheap
      dsimp only at h
      split at h
      · cases h
        exact ⟨_, rfl, hplain rfl hno⟩
      · cases h
        exact ⟨_, rfl, hplain rfl hno⟩
    · next hmem =>
      cases h
      exact ⟨_, hself, hplain rfl fun hheap => by simp [TableDescriptor.InHeap, hmem] at hheap⟩
  · next htype =>
    cases h
    exact ⟨_, rfl, hplain rfl fun hheap => by simp [TableDescriptor.InHeap, htype] at hheap⟩
  · next htype =>
    unfold Object.setColumnBlob at h
    split at h
    · cases h
      exact ⟨_, rfl, rfl, fun _ => ⟨rfl, rfl⟩⟩
    · next hmem =>
      have hno : ¬ table.InHeap i := fun hheap => by simp [TableDescriptor.InHeap, hmem] at hheap
      split at h
      · cases h
        exact ⟨_, hself, hplain rfl hno⟩
      · split at h
        · cases h
        · cases h
          exact ⟨_, rfl, hplain rfl hno⟩
    · next hmem =>
      cases h
      exact ⟨_, hself, hplain rfl fun hheap => by simp [TableDescriptor.InHeap, hmem] at hheap⟩
  · next htype =>
    cases h
    exact ⟨_, hself, hplain rfl fun hheap => by simp [TableDescriptor.InHeap, htype] at hheap⟩

theorem setColumnValue_setsAt {obj obj' : Object table} {i : table.Index} {value : Pointer}
    {valueLen : ℤ} {ret : SormError} (h : obj.setColumnValue i value valueLen = .ok (ret, obj')) :
    SetsAt obj i value.address obj' := by
  unfold Object.setColumnValue at h
  cases hset : obj.setColumn i value valueLen with
  | error why =>
      rw [hset] at h
      cases h
  | ok r =>
      obtain ⟨ret', row⟩ := r
      obtain ⟨slot, rfl, hslot⟩ := setColumn_switched hset
      rw [hset] at h
      change (if ret' = .ok then Except.ok (SormError.ok,
        ((obj.setSlot i slot).addColumnStat i sormStatValued).delColumnStat i sormStatNeedfree)
        else Except.ok (ret', obj.setSlot i slot)) = _ at h
      split at h
      · rw [Object.addColumnStat_setSlot, Object.delColumnStat_setSlot] at h
        cases h
        have hfree : ∀ stat : Stat, sormIsStatNeedfree (stat &&& ~~~sormStatNeedfree) = false := by
          intro stat
          rw [← Bool.not_eq_true, sormIsStatNeedfree_iff]
          simp [sormStatNeedfree]
        constructor
        · exact fun j hj => obj.setSlot_of_ne hj _
        · intro hno
          unfold Object.needfree Object.getColumnStat at hno
          rw [Object.setSlot_self, hfree] at hno
          cases hno
        · intro hheap
          unfold Object.needfree Object.getColumnStat Object.pointer
          rw [Object.setSlot_self]
          exact ⟨hfree _, _, (hslot.inHeap hheap).2, rfl⟩
      · next hret =>
        cases h
        constructor
        · exact fun j hj => obj.setSlot_of_ne hj _
        · unfold Object.needfree Object.getColumnStat
          rw [Object.setSlot_self, hslot.stat]
          exact fun hfree => hfree
        · exact fun hheap => absurd (hslot.inHeap hheap).1 hret

def Call.isUninitialised : Call → Bool
  | .uninitialised => true
  | _ => false

section Saving

variable {σ : Type} {M : Monitor Resp σ} {P : σ → Prop} {Q : Pointer → σ → Prop}
  {obj : Object table}

/-- A save leaves the row alone, or sets its key from the memory of a local variable. -/
def WritesBack (P : σ → Prop) (Q : Pointer → σ → Prop) (obj : Object table) (obj' : Object table)
    (s : σ) : Prop :=
  (P s ∧ obj' = obj) ∨ ∃ above rowId pkIndex ret, Q above s ∧ table.pkIndex = some pkIndex ∧
    obj.setColumnValue pkIndex (rowIdPointer rowId above) 0 = .ok (ret, obj')

theorem save_writesBack (hc : ∀ (P : σ → Prop) (c : Call), c.isLocal = false →
      c.isUninitialised = false → Keeps M P (perform c))
    (habove : Triple M P (perform .uninitialised) Q) (conn : Option Connection)
    (insertOrReplace : Text) :
    Triple M P (save conn (some obj) insertOrReplace) fun r s =>
      ∃ obj', r.2 = some obj' ∧ WritesBack P Q obj obj' s := by
  have hfinalize : ∀ (P : σ → Prop) h ret, Keeps M P (dbFinalize h ret) := by
    intro P h ret
    have hretry : Keeps M P (sqlite3Finalize h) := Keeps.retry _ (hc _ _ rfl rfl)
    apply Keeps.bind hretry
    intro ret'
    split
    · exact Keeps.pure
    · exact Keeps.pure
  have hstep : ∀ conn h, Keeps M P (sqlite3Step conn h .write) := by
    intro conn h
    apply keeps_sqlite3Step
    · intro c hlock
      apply hc
      · cases c with
        | malloc | strdup | free => cases hlock
        | _ => rfl
      · cases c with
        | uninitialised => cases hlock
        | _ => rfl
    · intro c hunlock
      apply hc
      · cases c with
        | malloc | strdup | free => cases hunlock
        | _ => rfl
      · cases c with
        | uninitialised => cases hunlock
        | _ => rfl
    · exact hc _ _ rfl rfl
  have hkey : Triple M P (savePrimaryKey obj) fun r => WritesBack P Q obj r.2 := by
    unfold savePrimaryKey
    split
    · exact Triple.pure fun s hs => Or.inl ⟨hs, rfl⟩
    · next pkIndex hpk =>
      apply Triple.bind (hc P _ rfl rfl)
      intro rowId
      apply Triple.bind habove
      intro above
      apply Triple.ofExcept
      intro r s hr hs
      exact Or.inr ⟨above, rowId.truncate 32, pkIndex, r.1, hs, hpk, hr⟩
  have hprepared : ∀ conn sqlStmt, Triple M P (savePrepared conn obj sqlStmt) fun r =>
      WritesBack P Q obj r.2 := by
    intro conn sqlStmt
    have hsame : ∀ ret : SormError, Triple M P (Pure.pure (ret, obj) :
        Act (SormError × Object table)) fun r => WritesBack P Q obj r.2 :=
      fun ret => Triple.pure fun s hs => Or.inl ⟨hs, rfl⟩
    unfold savePrepared
    have hprepare : Keeps M P (sqlite3Prepare sqlStmt) := Keeps.retry _ (hc _ _ rfl rfl)
    apply Triple.bind hprepare
    rintro ⟨ret, h⟩
    dsimp only
    split
    · exact hsame _
    · apply Triple.bind (keeps_bindEach (fun _ _ => hc _ _ rfl rfl) obj _ _ _)
      rintro ⟨ret, k⟩
      dsimp only
      split
      · exact Triple.bind (hfinalize _ _ _) fun _ => hsame _
      · apply Triple.bind (hstep conn h)
        intro ret
        split
        · exact Triple.bind (hfinalize _ _ _) fun _ => hsame _
        · apply Triple.bind hkey
          rintro ⟨ret, row⟩
          dsimp only
          split
          · exact Triple.pure fun s hs => hs
          · exact Triple.bind (hfinalize _ _ _) fun _ => Triple.pure fun s hs => hs
  unfold save
  cases conn with
  | none => exact Triple.pure fun s hs => ⟨obj, rfl, Or.inl ⟨hs, rfl⟩⟩
  | some conn =>
      dsimp only
      split
      · split
        · exact Triple.bind (keeps_fail _) fun _ =>
            Triple.pure fun s hs => ⟨obj, rfl, Or.inl ⟨hs, rfl⟩⟩
        · apply Triple.bind (hprepared conn _)
          rintro ⟨ret, row⟩
          exact Triple.pure fun s hs => ⟨row, rfl, hs⟩
      · exact Triple.pure fun s hs => ⟨obj, rfl, Or.inl ⟨hs, rfl⟩⟩

end Saving

def localOf : SormEvent → Option Pointer
  | ⟨.uninitialised, above⟩ => some above
  | _ => none

inductive Change (table : TableDescriptor)
  | set (i : table.Index) (value : Option Pointer) (valueLen : ℤ)
  | insert (conn : Option Connection)
  | replace (conn : Option Connection)

namespace Change

def Runs : Change table → Object table → List SormEvent → Object table → Prop
  | .set i value valueLen, obj, calls, obj' =>
      calls = [] ∧ ∃ ret, sormSetColumnValue (some obj) i value valueLen = .ok (ret, some obj')
  | .insert conn, obj, calls, obj' =>
      ∃ ret, (sormInsert conn (some obj)).Emits calls (.pure (ret, some obj'))
  | .replace conn, obj, calls, obj' =>
      ∃ ret, (sormReplace conn (some obj)).Emits calls (.pure (ret, some obj'))

/-- The columns a change sets, each with the address it sets it from: a save sets the primary key
from a local variable. -/
def writes : Change table → List SormEvent → List (table.Index × Address)
  | .set i (some value) _, _ => [(i, value.address)]
  | .set _ none _, _ => []
  | _, calls =>
      match table.pkIndex with
      | none => []
      | some pkIndex => (calls.filterMap localOf).map fun above => (pkIndex, above.address)

end Change

structure Step (table : TableDescriptor) where
  change : Change table
  calls : List SormEvent
  after : Object table

def StepsRun : Object table → List (Step table) → Prop
  | _, [] => True
  | obj, step :: steps => step.change.Runs obj step.calls step.after ∧ StepsRun step.after steps

def lastOf : Object table → List (Step table) → Object table
  | obj, [] => obj
  | _, step :: steps => lastOf step.after steps

def callsOf (steps : List (Step table)) : List SormEvent := (steps.map Step.calls).flatten

def Along (P : List SormEvent → Object table → Prop) :
    List SormEvent → Object table → List (Step table) → Prop
  | tr, obj, [] => P tr obj
  | tr, obj, step :: steps => P tr obj ∧ Along P (tr ++ step.calls) step.after steps

def Object.MarksBlocks (allocator : Allocator) (out : Multiset Block) (obj : Object table) : Prop :=
  ∀ i, table.InHeap i →
    (obj.needfree i ↔ ∃ p, obj.pointer i = some p ∧ (allocator, p.address) ∈ out)

def Owned (allocator : Allocator) (tr : List SormEvent) (obj : Object table) : Prop :=
  ∃ out, ledger tr = some out ∧ obj.MarksBlocks allocator out

/-- No step writes over a marked column, or writes one of the blocks `out` into a column. -/
def Careful (allocator : Allocator) (out : Multiset Block) :
    Object table → List (Step table) → Prop
  | _, [] => True
  | obj, step :: steps =>
      (∀ w ∈ step.change.writes step.calls, table.InHeap w.1 →
        obj.needfree w.1 = false ∧ (allocator, w.2) ∉ out) ∧
      Careful allocator out step.after steps

structure Life (table : TableDescriptor) where
  allocator : Allocator
  handle : Option Handle
  columnIndexesInResult : List (Option ℕ)
  reading : List SormEvent
  ret : SormError
  row : Object table
  steps : List (Step table)
  freeing : List SormEvent
  read : (parseSelectResult allocator handle columnIndexesInResult (Object.fresh table)).Emits
    reading (.pure (ret, row))
  stepped : StepsRun row steps
  freed : (sormFree allocator (some (lastOf row steps))).Emits freeing (.pure ())

namespace Life

/-- `NEEDFREE` tells the blocks of the row at every point, and `sorm_free` gives them all back. -/
def TracksOwnership (l : Life table) : Prop :=
  Along (Owned l.allocator) l.reading l.row l.steps ∧
  ledger (l.reading ++ callsOf l.steps ++ l.freeing) = some 0

/-- SQLite had memory for the text of every column, and the program left those columns alone. -/
def IsCareful (l : Life table) : Prop :=
  l.reading.any isNullText = false ∧
  Careful l.allocator (l.row.blocks l.allocator) l.row l.steps

end Life

theorem collecting_localOf (conn : Option Connection) (insertOrReplace : Text)
    (obj : Object table) :
    Triple (collecting localOf) (· = []) (save conn (some obj) insertOrReplace) fun r l =>
      ∃ obj', r.2 = some obj' ∧ WritesBack (· = []) (fun above l => l = [above]) obj obj' l := by
  apply save_writesBack
  · intro P c _ hc
    apply keeps_collecting
    intro r
    cases c with
    | uninitialised => cases hc
    | _ => rfl
  · have habove : ∀ above : Resp .uninitialised,
        localOf ⟨.uninitialised, above⟩ = some above := fun _ => rfl
    exact (collecting_perform habove).post fun above l hl => hl

def Applies (writes : List (table.Index × Address)) (obj obj' : Object table) : Prop :=
  (writes = [] ∧ obj' = obj) ∨ ∃ i address, writes = [(i, address)] ∧ SetsAt obj i address obj'

theorem save_applies {conn : Option Connection} {insertOrReplace : Text} {obj obj' : Object table}
    {ret : SormError} {calls : List SormEvent}
    (h : (save conn (some obj) insertOrReplace).Emits calls (.pure (ret, some obj'))) :
    Applies (match table.pkIndex with
      | none => []
      | some pkIndex => (calls.filterMap localOf).map fun above => (pkIndex, above.address))
      obj obj' := by
  obtain ⟨row, hrow, hwrites⟩ := (collecting_localOf conn insertOrReplace obj).returns rfl h
    (collecting_run calls)
  cases hrow
  rcases hwrites with ⟨hnone, rfl⟩ | ⟨above, rowId, pkIndex, ret', habove, hpk, hset⟩
  · refine Or.inl ⟨?_, rfl⟩
    rw [hnone]
    split
    · rfl
    · rfl
  · have hsets : SetsAt obj pkIndex (rowIdPointer rowId above).address obj' :=
      setColumnValue_setsAt hset
    refine Or.inr ⟨pkIndex, above.address, ?_, hsets⟩
    rw [habove, hpk]
    rfl

theorem Change.Runs.applies {change : Change table} {obj obj' : Object table}
    {calls : List SormEvent} (h : change.Runs obj calls obj') :
    Applies (change.writes calls) obj obj' := by
  cases change with
  | set i value valueLen =>
      obtain ⟨rfl, ret, hset⟩ := h
      cases value with
      | none =>
          cases hset
          exact Or.inl ⟨rfl, rfl⟩
      | some value =>
          unfold sormSetColumnValue at hset
          cases hvalue : obj.setColumnValue i value valueLen with
          | error why =>
              simp only [hvalue] at hset
              cases hset
          | ok r =>
              simp only [hvalue] at hset
              cases hset
              exact Or.inr ⟨i, value.address, rfl, setColumnValue_setsAt hvalue⟩
  | insert conn =>
      obtain ⟨ret, hret⟩ := h
      exact save_applies hret
  | replace conn =>
      obtain ⟨ret, hret⟩ := h
      exact save_applies hret

/-- No change takes or gives back a block. -/
theorem Change.Runs.ledger {change : Change table} {obj obj' : Object table}
    {tr calls : List SormEvent} {out : Multiset Block} (h : change.Runs obj calls obj')
    (hout : ledger tr = some out) : Sorm.ledger (tr ++ calls) = some out := by
  have hsave : ∀ conn insertOrReplace, Triple blockMonitor (Out out)
      (save conn (some obj) insertOrReplace) fun _ => Out out := by
    intro conn insertOrReplace
    have hwrites : Triple blockMonitor (Out out) (save conn (some obj) insertOrReplace) fun r s =>
        ∃ obj', r.2 = some obj' ∧ WritesBack (Out out) (fun _ => Out out) obj obj' s :=
      save_writesBack (fun P c hc _ => keeps_of_not_isLocal hc) (keeps_of_not_isLocal rfl) conn
        insertOrReplace
    refine hwrites.post fun r s hr => ?_
    obtain ⟨obj', -, hr | ⟨above, rowId, pkIndex, ret, hs, -⟩⟩ := hr
    · exact hr.1
    · exact hs
  cases change with
  | set i value valueLen =>
      obtain ⟨rfl, -⟩ := h
      rw [List.append_nil]
      exact hout
  | insert conn =>
      obtain ⟨ret, hret⟩ := h
      exact ledger_returns (hsave conn _) hout hret
  | replace conn =>
      obtain ⟨ret, hret⟩ := h
      exact ledger_returns (hsave conn _) hout hret

def Unmarks (obj obj' : Object table) : Prop := ∀ i, obj'.needfree i → obj'.slots i = obj.slots i

section Careful

variable {allocator : Allocator} {out : Multiset Block} {obj obj' obj'' : Object table}
  {writes : List (table.Index × Address)} {i : table.Index}

theorem needfree_congr (h : obj'.slots i = obj.slots i) : obj'.needfree i = obj.needfree i := by
  unfold Object.needfree Object.getColumnStat
  rw [h]

theorem Unmarks.trans (h : Unmarks obj obj') (h' : Unmarks obj' obj'') : Unmarks obj obj'' := by
  intro i hi
  have hslot := h' i hi
  have hfree : obj'.needfree i := by rwa [← needfree_congr hslot]
  exact hslot.trans (h i hfree)

theorem Unmarks.heapMarked (h : Unmarks obj obj') (hheap : HeapMarked obj) : HeapMarked obj' := by
  intro i hi
  apply hheap
  rwa [← needfree_congr (h i hi)]

theorem blockAt_of_unmarked (h : obj.needfree i = false) : obj.blockAt allocator i = 0 := by
  unfold Object.blockAt
  rw [if_neg]
  exact Bool.eq_false_iff.mp h

theorem blockAt_of_needfree (h : obj.needfree i) : obj.blockAt allocator i =
    blockOf allocator ((obj.pointer i).map CharPointer.address) := if_pos h

theorem Unmarks.blockAt_le (h : Unmarks obj obj') (i : table.Index) :
    obj'.blockAt allocator i ≤ obj.blockAt allocator i := by
  cases hi : obj'.needfree i with
  | false =>
      rw [blockAt_of_unmarked hi]
      exact Multiset.zero_le _
  | true => exact (Object.blockAt_congr (h i hi)).le

theorem SetsAt.unmarks_of_heapMarked {address : Address} (h : SetsAt obj i address obj')
    (hheap : HeapMarked obj) : Unmarks obj obj' := by
  intro j hj
  by_cases hji : j = i
  · subst hji
    have hfree := (h.inHeap (hheap j (h.unmarks hj))).1
    rw [hj] at hfree
    cases hfree
  · exact h.same j hji

theorem Applies.unmarks (h : Applies writes obj obj') (hheap : HeapMarked obj) :
    Unmarks obj obj' := by
  rcases h with ⟨-, rfl⟩ | ⟨i, address, -, hset⟩
  · exact fun _ _ => rfl
  · exact hset.unmarks_of_heapMarked hheap

/-- Setting a heap column keeps marks and blocks together exactly when the column was not marked
and is not given one of the blocks. -/
theorem SetsAt.careful_iff {address : Address} (h : SetsAt obj i address obj')
    (hheap : HeapMarked obj) (hmarks : obj.MarksBlocks allocator out) :
    (table.InHeap i → obj.needfree i = false ∧ (allocator, address) ∉ out) ↔
      obj'.MarksBlocks allocator out ∧ ∀ j, obj'.blockAt allocator j = obj.blockAt allocator j := by
  constructor
  · intro hcareful
    constructor
    · intro j hj
      by_cases hji : j = i
      · subst hji
        obtain ⟨hfree, p, hp, haddress⟩ := h.inHeap hj
        rw [hfree, hp]
        refine iff_of_false (by simp) ?_
        rintro ⟨p', hp', hmem⟩
        cases hp'
        rw [haddress] at hmem
        exact (hcareful hj).2 hmem
      · have hslot := h.same j hji
        rw [needfree_congr hslot, hmarks j hj]
        unfold Object.pointer
        rw [hslot]
    · intro j
      by_cases hji : j = i
      · subst hji
        have hfree : obj.needfree j = false := by
          by_contra hmarked
          have hj := hheap j (Bool.not_eq_false _ ▸ hmarked)
          exact hmarked (hcareful hj).1
        have hfree' : obj'.needfree j = false :=
          Bool.eq_false_iff.mpr fun hj => by simp [h.unmarks hj] at hfree
        rw [blockAt_of_unmarked hfree, blockAt_of_unmarked hfree']
      · exact Object.blockAt_congr (h.same j hji)
  · rintro ⟨hmarks', hblocks⟩ hi
    obtain ⟨hfree, p, hp, haddress⟩ := h.inHeap hi
    constructor
    · rw [Bool.eq_false_iff]
      intro hmarked
      obtain ⟨p', hp', -⟩ := (hmarks i hi).mp hmarked
      have hblock := hblocks i
      rw [blockAt_of_unmarked hfree, blockAt_of_needfree hmarked, hp'] at hblock
      exact Multiset.singleton_ne_zero _ hblock.symm
    · intro hmem
      have hmarked := (hmarks' i hi).mpr ⟨p, hp, haddress ▸ hmem⟩
      rw [hfree] at hmarked
      cases hmarked

theorem Applies.careful_iff (h : Applies writes obj obj') (hheap : HeapMarked obj)
    (hmarks : obj.MarksBlocks allocator out) :
    (∀ w ∈ writes, table.InHeap w.1 → obj.needfree w.1 = false ∧ (allocator, w.2) ∉ out) ↔
      obj'.MarksBlocks allocator out ∧ ∀ j, obj'.blockAt allocator j = obj.blockAt allocator j := by
  rcases h with ⟨rfl, rfl⟩ | ⟨i, address, rfl, hset⟩
  · exact iff_of_true (by simp) ⟨hmarks, fun _ => rfl⟩
  · rw [← hset.careful_iff hheap hmarks, List.forall_mem_singleton]

theorem StepsRun.unmarks {steps : List (Step table)} (h : StepsRun obj steps)
    (hheap : HeapMarked obj) : Unmarks obj (lastOf obj steps) := by
  induction steps generalizing obj with
  | nil => exact fun _ _ => rfl
  | cons step steps ih =>
      have hstep := h.1.applies.unmarks hheap
      exact hstep.trans (ih h.2 (hstep.heapMarked hheap))

theorem owned_iff {tr : List SormEvent} (hout : ledger tr = some out) :
    Owned allocator tr obj ↔ obj.MarksBlocks allocator out := by
  constructor
  · rintro ⟨out', hout', hmarks⟩
    rw [hout] at hout'
    cases hout'
    exact hmarks
  · exact fun hmarks => ⟨out, hout, hmarks⟩

/-- Over all steps: the marks tell the blocks at every point and no block is lost, exactly when
they do at the start and every step is careful. -/
theorem StepsRun.careful_iff {steps : List (Step table)} {tr : List SormEvent}
    (h : StepsRun obj steps) (hheap : HeapMarked obj) (hout : ledger tr = some out) :
    (Along (Owned allocator) tr obj steps ∧
      ∀ i, (lastOf obj steps).blockAt allocator i = obj.blockAt allocator i) ↔
    obj.MarksBlocks allocator out ∧ Careful allocator out obj steps := by
  induction steps generalizing obj tr with
  | nil =>
      unfold Along Careful lastOf
      rw [owned_iff hout]
      simp
  | cons step steps ih =>
      have hunmarks := h.1.applies.unmarks hheap
      have hrest := ih h.2 (hunmarks.heapMarked hheap) (h.1.ledger hout)
      have hlast := h.2.unmarks (hunmarks.heapMarked hheap)
      unfold Along Careful lastOf
      rw [owned_iff hout]
      constructor
      · rintro ⟨⟨hmarks, halong⟩, hblocks⟩
        have hafter : ∀ i, step.after.blockAt allocator i = obj.blockAt allocator i := fun i =>
          le_antisymm (hunmarks.blockAt_le i) ((hblocks i).symm.le.trans (hlast.blockAt_le i))
        obtain ⟨hmarks', hcareful⟩ :=
          hrest.mp ⟨halong, fun i => (hblocks i).trans (hafter i).symm⟩
        exact ⟨hmarks, (h.1.applies.careful_iff hheap hmarks).mpr ⟨hmarks', hafter⟩, hcareful⟩
      · rintro ⟨hmarks, hstep, hcareful⟩
        obtain ⟨hmarks', hafter⟩ := (h.1.applies.careful_iff hheap hmarks).mp hstep
        obtain ⟨halong, hblocks⟩ := hrest.mpr ⟨hmarks', hcareful⟩
        exact ⟨⟨hmarks, halong⟩, fun i => (hblocks i).trans (hafter i)⟩

theorem StepsRun.ledger {steps : List (Step table)} {tr : List SormEvent} (h : StepsRun obj steps)
    (hout : Sorm.ledger tr = some out) : Sorm.ledger (tr ++ callsOf steps) = some out := by
  induction steps generalizing obj tr with
  | nil =>
      unfold callsOf
      rw [List.map_nil, List.flatten_nil, List.append_nil]
      exact hout
  | cons step steps ih =>
      have hrest := ih h.2 (h.1.ledger hout)
      rw [List.append_assoc] at hrest
      exact hrest

/-- What is out at the end is what the marks no longer tell. -/
theorem freed_iff {row last : Object table} {tr freeing : List SormEvent}
    (hunmarks : Unmarks row last) (hout : ledger tr = some (row.blocks allocator))
    (hfree : (sormFree allocator (some last)).Emits freeing (.pure ())) :
    ledger (tr ++ freeing) = some 0 ↔
      ∀ i, last.blockAt allocator i = row.blockAt allocator i := by
  have hsum : ∀ obj : Object table, obj.blocks allocator = ∑ i, obj.blockAt allocator i :=
    fun obj => (Fin.sum_univ_def _).symm
  have hle : last.blocks allocator ≤ row.blocks allocator := by
    rw [hsum, hsum]
    exact Finset.sum_le_sum fun i _ => hunmarks.blockAt_le i
  rw [← Multiset.sub_add_cancel hle] at hout
  have hend : Out (row.blocks allocator - last.blocks allocator) (ledger (tr ++ freeing)) :=
    ledger_returns (a := ()) (out_sormFree allocator last) hout hfree
  unfold Out at hend
  rw [hend, Option.some_inj, tsub_eq_zero_iff_le]
  have heq : row.blocks allocator ≤ last.blocks allocator ↔
      last.blocks allocator = row.blocks allocator :=
    ⟨fun hge => le_antisymm hle hge, fun heq => heq.symm.le⟩
  rw [heq, hsum, hsum, Finset.sum_eq_sum_iff_of_le fun i _ => hunmarks.blockAt_le i]
  simp

end Careful

theorem Life.marksBlocks_iff (l : Life table) :
    l.row.MarksBlocks l.allocator (l.row.blocks l.allocator) ↔
      l.reading.any isNullText = false := by
  have hmarks : Marks false (Object.fresh table) table.indexes (l.ret, l.row)
      (l.reading.any isNullText) :=
    (marks_parseSelectResult l.allocator l.handle l.columnIndexesInResult table).returns rfl l.read
      (seen_run _)
  have hall : ∀ i : table.Index, i ∈ table.indexes := List.mem_finRange
  rw [Bool.eq_false_iff, ne_eq, hmarks.nullText]
  constructor
  · rintro h (hno | ⟨i, hi, hfree, hpointer⟩)
    · cases hno
    · obtain ⟨p, hp, -⟩ := (h i (hmarks.inHeap i hi hfree)).mp hfree
      unfold Object.pointer at hp
      rw [hpointer] at hp
      cases hp
  · intro h i hheap
    constructor
    · intro hfree
      cases hpointer : l.row.pointer i with
      | none => exact absurd (Or.inr ⟨i, hall i, hfree, hpointer⟩) h
      | some p =>
          refine ⟨p, rfl, ?_⟩
          have hmem : (l.allocator, p.address) ∈ l.row.blockAt l.allocator i := by
            rw [blockAt_of_needfree hfree, hpointer]
            exact Multiset.mem_singleton_self _
          exact Multiset.mem_of_le (List.single_le_sum (fun _ _ => Multiset.zero_le _) _
            (List.mem_map_of_mem (hall i))) hmem
    · rintro ⟨p, hp, -⟩
      by_contra hfree
      have hnone : l.row.pointer i = none := hmarks.unmarked i (hall i) hfree
      rw [hnone] at hp
      cases hp

/-- `NEEDFREE` tracks the blocks of a row, and `sorm_free` gives each back, exactly when SQLite had
memory for its texts and no step wrote over a marked column or copied a block into another. -/
theorem Life.tracksOwnership_iff (l : Life table) : l.TracksOwnership ↔ l.IsCareful := by
  have hout : ledger l.reading = some (l.row.blocks l.allocator) := by
    have hreads : Triple blockMonitor (Out 0) (parseSelectResult l.allocator l.handle
        l.columnIndexesInResult (Object.fresh table)) fun r => Out (0 + r.2.blocks l.allocator) :=
      out_parseSelectResult l.allocator l.handle l.columnIndexesInResult table
    have hout := hreads.returns rfl l.read (blockMonitor_run (some 0) l.reading)
    unfold Out at hout
    rw [zero_add] at hout
    exact hout
  have hheap : HeapMarked l.row := by
    have hmarks : Marks false (Object.fresh table) table.indexes (l.ret, l.row)
        (l.reading.any isNullText) :=
      (marks_parseSelectResult l.allocator l.handle l.columnIndexesInResult table).returns rfl
        l.read (seen_run _)
    exact fun i => hmarks.inHeap i (List.mem_finRange i)
  have hend := freed_iff (l.stepped.unmarks hheap) (l.stepped.ledger hout) l.freed
  unfold TracksOwnership IsCareful
  rw [hend, l.stepped.careful_iff hheap hout, l.marksBlocks_iff]

def userTable : TableDescriptor where
  name := "user".toList
  size := 24
  columns := [⟨"name".toList, .text, .none, .heap, 0, false, [], []⟩]
  pkIndex := none
  createSql := none

def userNameIndex : userTable.Index := ⟨0, by decide⟩

def userNameText : CString := ⟨['a'], by decide⟩

def readName : Object userTable := (((Object.fresh userTable).setSlot userNameIndex
  { Slot.zero with pointer := some (CharPointer.ofBlock 5 userNameText.chars) }).addColumnStat userNameIndex
    sormStatNeedfree).addColumnStat userNameIndex sormStatValued

def renamed : Life userTable where
  allocator := .user
  handle := some 0
  columnIndexesInResult := [some 0]
  reading := [⟨.columnType (some 0) 0, .text⟩, ⟨.columnText (some 0) 0, some userNameText⟩,
    ⟨.strdup .user userNameText, some 5⟩]
  ret := .ok
  row := readName
  steps := [⟨.set userNameIndex (some (textPointer userNameText)) 0, [], _⟩]
  freeing := []
  read := by
    iterate 3 refine .cons _ _ _ ?_
    exact .nil _
  stepped := ⟨⟨rfl, .ok, rfl⟩, trivial⟩
  freed := .nil _

theorem not_tracksOwnership :
    ¬ ∀ (table : TableDescriptor) (l : Life table), l.TracksOwnership := by
  intro h
  have hend := (h _ renamed).2
  have hledger : ledger (renamed.reading ++ callsOf renamed.steps ++ renamed.freeing) =
      some {(.user, 5)} := rfl
  rw [hledger, Option.some_inj] at hend
  exact Multiset.singleton_ne_zero _ hend

end Sorm
