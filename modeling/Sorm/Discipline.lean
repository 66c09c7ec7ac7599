import Sorm.Session

/-!
# The statement discipline

Every operation prepares its statement, works on it while it holds it, and gives it back with a
finalize. A `Discipline` says what one monitor asks of these four kinds of calls, relative to the
statements held; from it every operation is shown to follow the discipline, once for all monitors.
The operations that may return with a statement still held are shown to do so with at most one.
-/

namespace Sorm

open Interaction Monitor

def Call.isLocal : Call → Bool
  | .malloc _ _ | .strdup _ _ | .free _ _ => true
  | _ => false

def Call.isLock : Call → Bool
  | .semP _ | .rdlock | .wrlock => true
  | _ => false

def Call.isUnlock : Call → Bool
  | .semV _ | .rwUnlock => true
  | _ => false

/-- The calls `_save` sets the primary key from. -/
def Call.isRowId : Call → Bool
  | .lastInsertRowid | .uninitialised => true
  | _ => false

def Call.usedStmt : Call → Option (Option Handle)
  | .bind stmt _ _ | .columnType stmt _ | .columnInt stmt _ | .columnInt64 stmt _
  | .columnDouble stmt _ | .columnText stmt _ | .columnBlob stmt _ | .columnBytes stmt _ =>
      some stmt
  | _ => none

/-- What a monitor asks of the calls that handle statements. `Holds hs` is what is known while the
statements `hs` are held, and `Prepares` says which texts may be prepared. -/
structure Handling {σ : Type} (M : Monitor Resp σ) (Prepares : Text → Prop)
    (Holds : Multiset (Option Handle) → σ → Prop) : Prop where
  isLocal : ∀ {hs : Multiset (Option Handle)} {c : Call}, c.isLocal → Keeps M (Holds hs) (perform c)
  use : ∀ {hs : Multiset (Option Handle)} {c : Call} {h : Option Handle}, c.usedStmt = some h →
    h ∈ hs → Keeps M (Holds hs) (perform c)
  prepare : ∀ {hs : Multiset (Option Handle)} {sqlStmt : Text}, Prepares sqlStmt →
    Triple M (Holds hs) (perform (.prepare sqlStmt sqlStmtMaxLen)) fun r s =>
      if r.1 = .ok then Holds (r.2 ::ₘ hs) s else Holds hs s
  finalize : ∀ {hs : Multiset (Option Handle)} {h : Option Handle},
    Triple M (Holds (h ::ₘ hs)) (sqlite3Finalize h) fun _ => Holds hs

/-- A discipline also keeps what is known across the steps of an operation on `conn`. -/
structure Discipline {σ : Type} (M : Monitor Resp σ) (conn : Connection) (Prepares : Text → Prop)
    (Holds : Multiset (Option Handle) → σ → Prop) : Prop extends Handling M Prepares Holds where
  rowId : ∀ {hs : Multiset (Option Handle)} {c : Call}, c.isRowId → Keeps M (Holds hs) (perform c)
  step : ∀ {hs : Multiset (Option Handle)} {h : Option Handle} (rwFlag : RwlockFlag), h ∈ hs →
    Keeps M (Holds hs) (sqlite3Step conn h rwFlag)

structure WriteDiscipline {σ : Type} (M : Monitor Resp σ) (conn : Connection)
    (Prepares : Text → Prop) (Holds : Multiset (Option Handle) → σ → Prop) : Prop
    extends Handling M Prepares Holds where
  rowId : ∀ {hs : Multiset (Option Handle)} {c : Call}, c.isRowId → Keeps M (Holds hs) (perform c)
  write : ∀ {hs : Multiset (Option Handle)} {h : Option Handle}, h ∈ hs →
    Keeps M (Holds hs) (sqlite3Step conn h .write)

theorem Discipline.writing {σ : Type} {M : Monitor Resp σ} {conn : Connection}
    {Prepares : Text → Prop} {Holds : Multiset (Option Handle) → σ → Prop}
    (d : Discipline M conn Prepares Holds) : WriteDiscipline M conn Prepares Holds :=
  { d.toHandling with rowId := d.rowId, write := d.step .write }

abbrev AnyText (_ : Text) : Prop := True

variable {σ : Type} {M : Monitor Resp σ} {conn : Connection} {Prepares : Text → Prop}
  {Holds : Multiset (Option Handle) → σ → Prop} {hs : Multiset (Option Handle)}
  {h : Option Handle} {table : TableDescriptor}

theorem keeps_abort {α : Type} {P : σ → Prop} : Keeps M P (abort : Act α) := Triple.stop

theorem keeps_assertSome {α : Type} {P : σ → Prop} (o : Option α) : Keeps M P (assertSome o) := by
  cases o with
  | none => exact keeps_abort
  | some a => exact Keeps.pure

theorem keeps_fail {P : σ → Prop} (e : Fail) : Keeps M P e.act := by
  cases e with
  | code e => exact Keeps.pure
  | halt why => exact Triple.stop

section Binds

variable {P : σ → Prop} (hbind : ∀ k v, Keeps M P (perform (.bind h k v)))

include hbind

theorem keeps_sqlite3ColumnBind (obj : Object table) (i : table.Index) (bindIndex : ℕ) :
    Keeps M P (sqlite3ColumnBind obj h i bindIndex) := by
  apply Keeps.bind (keeps_assertSome h)
  intro _
  split
  · split
    · exact Keeps.pure
    · apply Keeps.bind (hbind _ _)
      intro ret
      split
      · exact Keeps.pure
      · exact Keeps.pure
  · exact keeps_abort

theorem keeps_bindEach (obj : Object table) (test : table.Index → Bool) (is : List table.Index)
    (bindIndex : ℕ) : Keeps M P (bindEach obj h test is bindIndex) := by
  induction is generalizing bindIndex with
  | nil => exact Keeps.pure
  | cons i is ih =>
      unfold bindEach
      split
      · apply Keeps.bind (keeps_sqlite3ColumnBind hbind obj i bindIndex)
        intro ret
        split
        · exact ih _
        · exact Keeps.pure
      · exact ih _

end Binds

section Locks

variable {P : σ → Prop}

theorem keeps_lock (hlock : ∀ c : Call, c.isLock → Keeps M P (perform c)) (conn : Connection)
    (rwFlag : RwlockFlag) : Keeps M P (lock conn rwFlag) := by
  have hanswer : ∀ ret : Bool, Keeps M P (if ret then return () else abort : Act Unit) := by
    intro ret
    cases ret with
    | true => exact Keeps.pure
    | false => exact keeps_abort
  unfold lock
  split
  · exact hlock _ rfl
  · split
    · cases rwFlag with
      | read => exact Keeps.bind (hlock .rdlock rfl) hanswer
      | write => exact Keeps.bind (hlock .wrlock rfl) hanswer
    · exact Keeps.pure

theorem keeps_unlock (hunlock : ∀ c : Call, c.isUnlock → Keeps M P (perform c))
    (conn : Connection) : Keeps M P (unlock conn) := by
  unfold unlock
  split
  · exact hunlock _ rfl
  · split
    · apply Keeps.bind (hunlock .rwUnlock rfl)
      intro ret
      cases ret with
      | true => exact Keeps.pure
      | false => exact keeps_abort
    · exact Keeps.pure

/-- What the locks and a bare step keep, `_sqlite3_step` keeps. -/
theorem keeps_sqlite3Step (hlock : ∀ c : Call, c.isLock → Keeps M P (perform c))
    (hunlock : ∀ c : Call, c.isUnlock → Keeps M P (perform c))
    (hstep : Keeps M P (perform (.step h))) (conn : Connection) (rwFlag : RwlockFlag) :
    Keeps M P (sqlite3Step conn h rwFlag) := by
  have hretry : Keeps M P (Prog.retry (fun ret : DbCode => ret == .busy) (perform (.step h))
      (busyRetryTime - 1)) := Keeps.retry _ hstep
  by_cases h0 : conn.transactionNum = 0
  · rw [sqlite3Step_outside h0]
    apply Keeps.bind (keeps_lock hlock conn rwFlag)
    intro _
    apply Keeps.bind hretry
    intro ret
    exact Keeps.bind (keeps_unlock hunlock conn) fun _ => Keeps.pure
  · rw [sqlite3Step_inside h0]
    exact hretry

end Locks

section Local

variable {P : σ → Prop} (hlocal : ∀ c : Call, c.isLocal → Keeps M P (perform c))

include hlocal

/-- A call that returns has its memory, since the process exits without. -/
theorem triple_malloc (allocator : Allocator) (size : ℕ) :
    Triple M P (malloc allocator size) fun block s => P s ∧ (block.isSome ↔ size ≠ 0) := by
  unfold malloc
  by_cases hsize : size = 0
  · rw [if_pos hsize]
    exact Triple.pure fun s hs => ⟨hs, by simp [hsize]⟩
  · rw [if_neg hsize]
    apply Triple.bind (hlocal _ rfl)
    intro r
    cases r with
    | none => exact Triple.stop
    | some buf => exact Triple.pure fun s hs => ⟨hs, by simp [hsize]⟩

theorem keeps_malloc (allocator : Allocator) (size : ℕ) :
    Keeps M P (malloc allocator size) :=
  (triple_malloc hlocal allocator size).post fun _ _ hs => hs.1

theorem triple_strdup (allocator : Allocator) (string : Option CString) :
    Triple M P (strdup allocator string) fun copy s => P s ∧ copy.isSome = string.isSome := by
  cases string with
  | none => exact Triple.pure fun s hs => ⟨hs, rfl⟩
  | some str =>
      apply Triple.bind (hlocal _ rfl)
      intro r
      cases r with
      | none => exact Triple.stop
      | some buf => exact Triple.pure fun s hs => ⟨hs, rfl⟩

theorem keeps_strdup (allocator : Allocator) (string : Option CString) :
    Keeps M P (strdup allocator string) :=
  (triple_strdup hlocal allocator string).post fun _ _ hs => hs.1

theorem keeps_free (allocator : Allocator) (ptr : Option Address) :
    Keeps M P (free allocator ptr) := hlocal _ rfl

theorem keeps_freeAll (allocator : Allocator) (blocks : List Address) :
    Keeps M P (freeAll allocator blocks) := by
  induction blocks with
  | nil => exact Keeps.pure
  | cons block blocks ih => exact Keeps.bind (keeps_free hlocal _ _) fun _ => ih

theorem keeps_sormFreeColumns (allocator : Allocator) (obj : Object table) (is : List table.Index) :
    Keeps M P (sormFreeColumns allocator obj is) := by
  induction is with
  | nil => exact Keeps.pure
  | cons i is ih =>
      unfold sormFreeColumns
      split
      · split
        · exact Keeps.bind (keeps_free hlocal _ _) fun _ => ih
        · exact Keeps.bind keeps_abort fun _ => ih
      · exact ih

theorem keeps_listFreeEntries (allocator : Allocator) (entries : List ListEntry) :
    Keeps M P (listFreeEntries allocator entries) := by
  induction entries with
  | nil => exact Keeps.pure
  | cons entry entries ih =>
      have hrest : Keeps M P (do
          free allocator (some entry.block)
          listFreeEntries allocator entries) := Keeps.bind (keeps_free hlocal _ _) fun _ => ih
      unfold listFreeEntries
      cases entry.data with
      | none => exact hrest
      | some data => exact Keeps.bind (keeps_sormFreeColumns hlocal _ _ _) fun _ => hrest

theorem keeps_sormListFree (allocator : Allocator) (list : Option RowList) :
    Keeps M P (sormListFree allocator list) := by
  cases list with
  | none => exact Keeps.pure
  | some list => exact Keeps.bind (keeps_listFreeEntries hlocal _ _) fun _ => keeps_free hlocal _ _

theorem keeps_sormNewArray (allocator : Allocator) (initTableDesc : TableDescriptor) (n : ℤ) :
    Keeps M P (sormNewArray allocator initTableDesc n) := by
  unfold sormNewArray
  split
  · exact Keeps.pure
  · exact keeps_malloc hlocal _ _

end Local

namespace Handling

variable (d : Handling M Prepares Holds)

include d

theorem malloc (allocator : Allocator) (size : ℕ) :
    Keeps M (Holds hs) (malloc allocator size) := keeps_malloc (fun _ => d.isLocal) allocator size

theorem strdup (allocator : Allocator) (string : Option CString) :
    Keeps M (Holds hs) (strdup allocator string) :=
  keeps_strdup (fun _ => d.isLocal) allocator string

theorem free (allocator : Allocator) (ptr : Option Address) :
    Keeps M (Holds hs) (free allocator ptr) := d.isLocal rfl

theorem freeAll (allocator : Allocator) (blocks : List Address) :
    Keeps M (Holds hs) (freeAll allocator blocks) :=
  keeps_freeAll (fun _ => d.isLocal) allocator blocks

theorem sormFreeColumns (allocator : Allocator) (obj : Object table) (is : List table.Index) :
    Keeps M (Holds hs) (sormFreeColumns allocator obj is) :=
  keeps_sormFreeColumns (fun _ => d.isLocal) allocator obj is

theorem sormListFree (allocator : Allocator) (list : Option RowList) :
    Keeps M (Holds hs) (sormListFree allocator list) :=
  keeps_sormListFree (fun _ => d.isLocal) allocator list

theorem sormNewArray (allocator : Allocator) (initTableDesc : TableDescriptor) (n : ℤ) :
    Keeps M (Holds hs) (sormNewArray allocator initTableDesc n) :=
  keeps_sormNewArray (fun _ => d.isLocal) allocator initTableDesc n

theorem sqlite3Prepare {sqlStmt : Text} (hsql : Prepares sqlStmt) :
    Triple M (Holds hs) (sqlite3Prepare sqlStmt) fun r s =>
      if r.1 = .ok then Holds (r.2 ::ₘ hs) s else Holds hs s := by
  apply Triple.retry
  refine (d.prepare hsql).post fun r s hs => ?_
  by_cases hb : r.1 = .busy
  · simpa [hb] using hs
  · simpa [hb] using hs

theorem dbFinalize (retVal : SormError) :
    Triple M (Holds (h ::ₘ hs)) (dbFinalize h retVal) fun _ => Holds hs := by
  apply Triple.bind d.finalize
  intro ret
  split
  · exact Keeps.pure
  · exact Keeps.pure

omit d in
/-- With a NULL statement the first bind asserts. -/
theorem bindEach_none (obj : Object table) (test : table.Index → Bool) (is : List table.Index)
    (bindIndex : ℕ) (htest : is.any test) : Sorm.bindEach obj none test is bindIndex = abort := by
  induction is with
  | nil => cases htest
  | cons i is ih =>
      unfold Sorm.bindEach
      by_cases hi : test i
      · rw [if_pos hi]
        rfl
      · rw [if_neg hi]
        apply ih
        simpa [hi] using htest

theorem bindEach (obj : Object table) (test : table.Index → Bool) (is : List table.Index)
    (bindIndex : ℕ) (hh : h ∈ hs) : Keeps M (Holds hs) (bindEach obj h test is bindIndex) :=
  keeps_bindEach (fun _ _ => d.use rfl hh) obj test is bindIndex

/-- `sorm_delete` and `sorm_update`: what a step other than DONE leaves is left for good. -/
theorem runBound (Done : Handle → σ → Prop) {Post : σ → Prop} {obj : Object table}
    (hvalue : checkHasValue obj) {sqlStmt : Text} (hsql : Prepares sqlStmt)
    (second : Option (table.Index → Bool)) (hreturn : ∀ s, Holds hs s → Post s)
    (hstep : ∀ h : Handle, Triple M (Holds (some h ::ₘ hs)) (sqlite3Step conn (some h) .write)
      fun ret s => if ret = .done then Done h s else Post s)
    (hdone : ∀ h : Handle, Triple M (Done h) (sqlite3Finalize (some h)) fun _ => Post) :
    Triple M (Holds hs) (runBound conn obj sqlStmt second) fun _ => Post := by
  have hfinalize : ∀ h ret, Triple M (Holds (h ::ₘ hs)) (Sorm.dbFinalize h ret) fun _ => Post :=
    fun h ret => (d.dbFinalize ret).post fun _ s => hreturn s
  apply Triple.bind (d.sqlite3Prepare hsql)
  rintro ⟨ret, h⟩
  by_cases hret : ret = .ok
  · subst hret
    cases h with
    | none =>
        simp only [ne_eq, not_true_eq_false, if_false,
          bindEach_none obj obj.valued table.indexes 1 hvalue]
        exact Triple.stop
    | some h =>
        have hrest : ∀ ret, Triple M (Holds (some h ::ₘ hs))
            (if ret ≠ SormError.ok then Sorm.dbFinalize (some h) ret
              else do
                let ret ← Sorm.sqlite3Step conn (some h) .write
                if ret ≠ .done then return .dbError
                Sorm.dbFinalize (some h) .ok) fun _ => Post := by
          intro ret
          split
          · exact hfinalize (some h) ret
          · apply Triple.bind (hstep h)
            intro ret
            by_cases hd : ret = .done
            · subst hd
              apply Triple.bind (hdone h)
              intro ret
              split
              · exact Keeps.pure
              · exact Keeps.pure
            · simp only [hd, if_false, ne_eq, not_false_eq_true, if_true]
              exact Keeps.pure
        have hmem := Multiset.mem_cons_self (some h) hs
        apply Triple.bind (d.bindEach obj obj.valued table.indexes 1 hmem)
        rintro ⟨ret, bindIndex⟩
        dsimp only
        split
        · exact hfinalize (some h) ret
        · cases second with
          | none => exact hrest .ok
          | some test =>
              apply Triple.bind (d.bindEach obj test table.indexes bindIndex hmem)
              exact fun r => hrest r.1
  · simp only [hret, if_false, ne_eq, not_false_eq_true, if_true]
    exact Triple.pure hreturn

/-- `_save`: what a failed setting of the primary key leaves is left for good. -/
theorem savePrepared (Done Saved : Handle → σ → Prop) {Post : σ → Prop} {obj : Object table}
    (hvalue : checkHasValue obj) {sqlStmt : Text} (hsql : Prepares sqlStmt)
    (hreturn : ∀ s, Holds hs s → Post s)
    (hstep : ∀ h : Handle, Triple M (Holds (some h ::ₘ hs)) (sqlite3Step conn (some h) .write)
      fun ret s => if ret = .done then Done h s else Holds (some h ::ₘ hs) s)
    (hsave : ∀ h : Handle, Triple M (Done h) (savePrimaryKey obj) fun r s =>
      if r.1 = .ok then Saved h s else Post s)
    (hdone : ∀ h : Handle, Triple M (Saved h) (sqlite3Finalize (some h)) fun _ => Post) :
    Triple M (Holds hs) (savePrepared conn obj sqlStmt) fun _ => Post := by
  have hfinalize : ∀ h ret obj', Triple M (Holds (h ::ₘ hs)) (do
      let ret ← Sorm.dbFinalize h ret
      return (ret, obj') : Act (SormError × Object table)) fun _ => Post := by
    intro h ret obj'
    exact Triple.bind (d.dbFinalize ret) fun _ => Triple.pure hreturn
  apply Triple.bind (d.sqlite3Prepare hsql)
  rintro ⟨ret, h⟩
  by_cases hret : ret = .ok
  · subst hret
    cases h with
    | none =>
        simp only [ne_eq, not_true_eq_false, if_false,
          bindEach_none obj obj.valued table.indexes 1 hvalue]
        exact Triple.stop
    | some h =>
        apply Triple.bind (d.bindEach obj obj.valued table.indexes 1
          (Multiset.mem_cons_self (some h) hs))
        rintro ⟨ret, bindIndex⟩
        dsimp only
        split
        · exact hfinalize (some h) ret obj
        · apply Triple.bind (hstep h)
          intro ret
          by_cases hd : ret = .done
          · subst hd
            apply Triple.bind (hsave h)
            rintro ⟨ret, obj'⟩
            by_cases hs : ret = .ok
            · subst hs
              apply Triple.bind (Triple.bind (hdone h) ?_) fun _ => Keeps.pure
              intro ret
              split
              · exact Keeps.pure
              · exact Keeps.pure
            · simp only [hs, if_false, ne_eq, not_false_eq_true, if_true]
              exact Keeps.pure
          · simp only [hd, if_false, ne_eq, not_false_eq_true, if_true]
            exact hfinalize (some h) .dbError obj
  · simp only [hret, if_false, ne_eq, not_false_eq_true, if_true]
    exact Triple.pure hreturn

theorem runPrepared {sqlStmt : Text} (hsql : Prepares sqlStmt) {rwlockFlag : RwlockFlag}
    (hstep : ∀ h, Keeps M (Holds (h ::ₘ hs)) (sqlite3Step conn h rwlockFlag)) :
    Keeps M (Holds hs) (runPrepared conn sqlStmt rwlockFlag) := by
  apply Triple.bind (d.sqlite3Prepare hsql)
  rintro ⟨ret, h⟩
  by_cases hret : ret = .ok
  · subst hret
    apply Triple.bind (hstep h)
    intro ret
    split
    · exact d.dbFinalize _
    · exact d.dbFinalize _
  · simp only [hret, if_false, ne_eq, not_false_eq_true, if_true]
    exact Keeps.pure

end Handling

namespace WriteDiscipline

variable (d : WriteDiscipline M conn Prepares Holds)

include d

theorem runBuilt {built : Build} (hbuilt : ∀ b, built = .ok b → Prepares b.text) :
    Keeps M (Holds hs) (runBuilt conn built) := by
  rcases built with ⟨e, b⟩ | b
  · exact keeps_fail e
  · exact d.runPrepared (hbuilt b rfl) fun h => d.write (Multiset.mem_cons_self h hs)

theorem sormDeleteBy (tableDesc : Option TableDescriptor) (filter : Option Text)
    (hsql : ∀ table b, tableDesc = some table → deleteByStmt table filter = .ok b →
      Prepares b.text) :
    Keeps M (Holds hs) (sormDeleteBy (some conn) tableDesc filter) := by
  cases tableDesc with
  | none => exact Keeps.pure
  | some table => exact d.runBuilt fun b hbuilt => hsql table b rfl hbuilt

theorem sormDeleteByColumn (tableDesc : Option TableDescriptor) (columnIndex : ℕ)
    (columnValue : Option Pointer)
    (hsql : ∀ table column value filter b, tableDesc = some table →
      table.columns[columnIndex]? = some column → columnValue = some value →
      constructColumnFilter column value = .ok (.ok, filter) →
      deleteByStmt table (some filter) = .ok b → Prepares b.text) :
    Keeps M (Holds hs) (sormDeleteByColumn (some conn) tableDesc columnIndex columnValue) := by
  cases tableDesc with
  | none => exact keeps_abort
  | some table =>
    cases columnValue with
    | none => exact keeps_abort
    | some value =>
      unfold Sorm.sormDeleteByColumn
      rw [assertSome_some, pure_bind, assertSome_some, pure_bind]
      cases hcolumn : table.columns[columnIndex]? with
      | none => exact keeps_abort
      | some column =>
          rw [assertSome_some, pure_bind]
          have hfilter : Triple M (Holds hs) (Prog.ofExcept (constructColumnFilter column value))
              fun r s => constructColumnFilter column value = .ok r ∧ Holds hs s :=
            Triple.ofExcept fun r s hr hs => ⟨hr, hs⟩
          apply Triple.bind hfilter
          rintro ⟨ret, filter⟩
          dsimp only
          by_cases hret : ret = .ok
          · subst hret
            simp only [ne_eq, not_true_eq_false, if_false]
            rintro s ⟨hr, hs⟩
            refine d.sormDeleteBy _ _ (fun table' b htable hbuilt => ?_) s hs
            cases htable
            exact hsql table column value filter b rfl hcolumn rfl hr hbuilt
          · rw [if_pos hret]
            exact Triple.pure fun s hs => hs.2

end WriteDiscipline

namespace Discipline

variable (d : Discipline M conn Prepares Holds)

include d

theorem runPrepared {sqlStmt : Text} (hsql : Prepares sqlStmt) (rwlockFlag : RwlockFlag) :
    Keeps M (Holds hs) (runPrepared conn sqlStmt rwlockFlag) :=
  d.toHandling.runPrepared hsql fun h => d.step rwlockFlag (Multiset.mem_cons_self h hs)

section AnyText

variable (hall : ∀ sqlStmt, Prepares sqlStmt)

include hall

theorem sormCreateTable (tableDesc : Option TableDescriptor) :
    Keeps M (Holds hs) (sormCreateTable (some conn) tableDesc) := by
  cases tableDesc with
  | none => exact Keeps.pure
  | some table =>
      unfold Sorm.sormCreateTable
      dsimp only
      split
      · exact d.writing.runBuilt fun b _ => hall b.text
      · exact d.runPrepared (hall _) _

theorem sormDeleteTable (tableDesc : Option TableDescriptor) :
    Keeps M (Holds hs) (sormDeleteTable (some conn) tableDesc) := by
  cases tableDesc with
  | none => exact Keeps.pure
  | some table => exact d.writing.runBuilt fun b _ => hall b.text

theorem sormCreateIndex (tableDesc : Option TableDescriptor) (columnsName : Option CString) :
    Keeps M (Holds hs) (sormCreateIndex (some conn) tableDesc columnsName) := by
  cases tableDesc with
  | none => exact Keeps.pure
  | some table =>
    cases columnsName with
    | none => exact Keeps.pure
    | some columnsName =>
        apply Keeps.bind (d.malloc _ _)
        intro indexSuffix
        exact Keeps.bind (d.free _ _) fun _ => d.writing.runBuilt fun b _ => hall b.text

theorem sormDropIndex (columnsName : Option CString) :
    Keeps M (Holds hs) (sormDropIndex (some conn) columnsName) := by
  cases columnsName with
  | none => exact Keeps.pure
  | some columnsName =>
      apply Keeps.bind (d.malloc _ _)
      intro indexSuffix
      exact Keeps.bind (d.free _ _) fun _ => d.writing.runBuilt fun b _ => hall b.text

end AnyText

end Discipline
end Sorm
