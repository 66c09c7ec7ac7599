import Sorm.DisciplineSelect

/-!
# Sessions follow the statement discipline

The statements a session holds between its operations are those of its open iterators.
-/

namespace Sorm

open Interaction Monitor

variable {σ : Type} {M : Monitor Resp σ} {conn : Connection} {Prepares : Text → Prop}
  {Holds : Multiset (Option Handle) → σ → Prop} {hs : Multiset (Option Handle)}
  {h : Option Handle} {table : TableDescriptor}

namespace Discipline

variable (d : Discipline M conn AnyText Holds)

include d

theorem selectIteratePrepare (columnsName : CString) (tables : SelectTables)
    (filter : Option CString) :
    Triple M (Holds hs) (selectIteratePrepare columnsName tables filter) fun r s =>
      if r.1 = .ok then Holds (r.2.2 ::ₘ hs) s else Holds hs s := by
  unfold Sorm.selectIteratePrepare
  split
  · next e _ hbuilt =>
      cases e with
      | halt why => exact Triple.stop
      | code e =>
          obtain rfl := tables.stmt_tooLongOnly _ _ hbuilt
          exact Triple.pure fun s hs => by simpa using hs
  · apply Triple.bind (d.parseColumnsName _ _)
    rintro ⟨ret, selectColumns⟩
    dsimp only
    split
    · next hret => exact Triple.pure fun s hs => by simpa [hret] using hs
    · apply Triple.bind (d.sqlite3Prepare trivial)
      rintro ⟨ret, h⟩
      by_cases hret : ret = .ok
      · subst hret
        exact Triple.pure fun s hs => by simpa using hs
      · simp only [hret, if_false, ne_eq, not_false_eq_true, if_true]
        exact Triple.pure fun s hs => by simpa using hs

theorem selectIterateOpen (allocator : Allocator) (columnsName : Option CString)
    (tables : SelectTables) (filter : Option CString) (tablesDescBlock : Option Address) :
    Triple M (Holds hs) (selectIterateOpen (some conn) allocator columnsName tables filter
      tablesDescBlock) fun r => Holds (hs + (r.iterator.toList.map Iterator.stmtHandle : List _)) := by
  unfold Sorm.selectIterateOpen
  cases checkSelectArgs columnsName filter with
  | error e => exact Triple.pure fun s hs => by simpa using hs
  | ok columnsName =>
      dsimp only
      apply Triple.bind (d.malloc _ _)
      intro block
      apply Triple.bind (keeps_assertSome _)
      intro block
      apply Triple.bind (d.malloc _ _)
      intro maps
      apply Triple.bind (keeps_assertSome _)
      intro maps
      apply Triple.bind (d.newIndexes _)
      rintro ⟨ok, indexes⟩
      have hrest : ∀ r : SormError × List SelectColumns × Option Handle,
          Triple M (fun s => if r.1 = .ok then Holds (r.2.2 ::ₘ hs) s else Holds hs s)
            (if r.1 = .ok then
              return ⟨.ok, some block, some ⟨false, tables.tablesDesc.zip r.2.1, r.2.2, allocator,
                block, maps, indexes, tablesDescBlock⟩⟩
            else do
              Sorm.freeAll .libc indexes
              Sorm.free .libc (some maps)
              Sorm.free .libc (some block)
              return ⟨r.1, some block, none⟩ : Act Opened)
            fun r => Holds (hs + (r.iterator.toList.map Iterator.stmtHandle : List _)) := by
        rintro ⟨ret, selectColumns, stmtHandle⟩
        by_cases hret : ret = .ok
        · subst hret
          refine Triple.pure fun s hs => ?_
          simpa only [if_true, Option.toList_some, List.map_cons, List.map_nil,
            Multiset.coe_singleton, Multiset.add_comm _ {_}, Multiset.singleton_add] using hs
        · simp only [hret, if_false]
          apply Triple.bind (d.freeAll _ _)
          intro _
          apply Triple.bind (d.free _ _)
          intro _
          apply Triple.bind (d.free _ _)
          intro _
          exact Triple.pure fun s hs => by simpa using hs
      dsimp only
      split
      · exact Triple.bind (d.selectIteratePrepare _ _ _) hrest
      · exact Triple.bind (Triple.pure fun s hs => by simpa using hs) hrest

theorem sormSelectIterateByOpen (allocator : Allocator) (tables : SelectTables)
    (columnsName filter : Option CString) :
    Triple M (Holds hs) (sormSelectIterateByOpen (some conn) allocator tables columnsName filter)
      fun r => Holds (hs + (r.iterator.toList.map Iterator.stmtHandle : List _)) := by
  apply Triple.bind (d.malloc _ _)
  intro tablesDescBlock
  dsimp only
  split
  · apply Triple.bind (d.malloc _ _)
    intro namesBlock
    apply Triple.bind (d.selectIterateOpen _ _ _ _ _)
    intro r
    split
    · apply Triple.bind (d.free _ _)
      intro _
      exact Triple.bind (d.free _ _) fun _ => Triple.pure fun s hs => hs
    · exact Triple.bind (d.free _ _) fun _ => Triple.pure fun s hs => hs
  · apply Triple.bind Keeps.pure
    intro namesBlock
    apply Triple.bind (d.selectIterateOpen _ _ _ _ _)
    intro r
    split
    · exact Triple.bind (d.free _ _) fun _ => Triple.pure fun s hs => hs
    · exact Triple.pure fun s hs => hs

theorem iterateRow (allocator : Allocator) (ts : List TableSelect) (hh : h ∈ hs) :
    Keeps M (Holds hs) (iterateRow allocator h ts) := by
  induction ts with
  | nil => exact Keeps.pure
  | cons t ts ih =>
      unfold Sorm.iterateRow
      split
      · apply Keeps.bind (d.sormNewArray _ _ _)
        intro block
        apply Keeps.bind (keeps_assertSome _)
        intro block
        apply Keeps.bind (d.parseColumns _ _ _ _ hh)
        rintro ⟨ret, row⟩
        dsimp only
        split
        · exact Keeps.bind ih fun _ => Keeps.pure
        · exact Keeps.pure
      · exact Keeps.bind ih fun _ => Keeps.pure

/-- A step of an iterator keeps its handle. -/
theorem selectIterate (iterator : Iterator) (isTableSelect : List Bool)
    (hh : iterator.stmtHandle ∈ hs) :
    Triple M (Holds hs) (selectIterate conn iterator isTableSelect) fun r s =>
      Holds hs s ∧ r.2.1.stmtHandle = iterator.stmtHandle := by
  apply Triple.bind (d.step .write hh)
  intro stepRet
  split
  · apply Triple.bind (d.iterateRow _ _ hh)
    intro r
    exact Triple.pure fun s hs => ⟨hs, rfl⟩
  · exact Triple.pure fun s hs => ⟨hs, rfl⟩

theorem sormSelectIterateClose (iterator : Iterator) :
    Triple M (Holds (iterator.stmtHandle ::ₘ hs)) (sormSelectIterateClose iterator)
      fun _ => Holds hs := by
  apply Triple.bind (d.dbFinalize _)
  intro retVal
  apply Triple.bind (d.freeAll _ _)
  intro _
  apply Triple.bind (d.free _ _)
  intro _
  split
  · exact Triple.bind (d.free _ _) fun _ => Triple.bind (d.free _ _) fun _ => Keeps.pure
  · exact Triple.bind (d.free _ _) fun _ => Keeps.pure

end Discipline

/-- Data-changing operations that may leave their statement behind. -/
def Op.isRowWrite : Op → Bool
  | .insert _ | .replace _ | .update _ | .delete _ => true
  | _ => false

def Op.opensIterator : Op → Bool
  | .selectIterateByOpen .. => true
  | _ => false

theorem Session.handles_set (s : Session) (k : ℕ) (iterator iterator' : Iterator)
    (hk : s.iterators[k]? = some iterator) (hh : iterator'.stmtHandle = iterator.stmtHandle) :
    (Session.mk s.conn (s.iterators.set k iterator')).handles = s.handles := by
  unfold Session.handles
  rw [List.map_set, hh]
  congr 1
  apply List.ext_getElem?
  intro j
  rw [List.getElem?_set]
  by_cases hj : k = j
  · subst hj
    obtain ⟨hlt, heq⟩ := List.getElem?_eq_some_iff.mp hk
    simp [hlt, heq]
  · simp [hj]

theorem Session.handles_eraseIdx (s : Session) (k : ℕ) (iterator : Iterator)
    (hk : s.iterators[k]? = some iterator) :
    s.handles = iterator.stmtHandle ::ₘ
      (Session.mk s.conn (s.iterators.eraseIdx k)).handles := by
  obtain ⟨hlt, rfl⟩ := List.getElem?_eq_some_iff.mp hk
  unfold Session.handles
  rw [Multiset.cons_coe, Multiset.coe_eq_coe, ← List.map_cons]
  exact ((List.getElem_cons_eraseIdx_perm hlt).symm).map _

namespace Discipline

/-- What an operation leaves of a session: the connection as it was, and at most one iterator more
than there were. -/
structure Leaves (before : Session) (o : Op) (after : Session) : Prop where
  conn : after.conn = before.conn
  handles : ¬ o.opensIterator → after.handles ≤ before.handles

theorem Leaves.refl {before : Session} {o : Op} : Leaves before o before := ⟨rfl, fun _ => le_rfl⟩

/-- An operation that is no transaction call and no row write ends with the statements of the
open iterators. -/
theorem op {before : Session} (d : Discipline M before.conn AnyText Holds) (o : Op)
    (ht : ¬ o.isTransaction) (hw : ¬ o.isRowWrite) :
    Triple M (Holds before.handles) (o.prog before) fun r s =>
      Leaves before o r.2 ∧ Holds r.2.handles s := by
  have hkeep : ∀ {α : Type} {p : Act α} {code : α → SormError},
      Keeps M (Holds before.handles) p →
      Triple M (Holds before.handles) (before.keep p code) fun r s =>
        Leaves before o r.2 ∧ Holds r.2.handles s := by
    intro α p code hp
    exact Triple.bind hp fun _ => Triple.pure fun s hs => ⟨.refl, hs⟩
  cases o with
  | runStmt sqlStmt rwlockFlag => exact hkeep (d.runPrepared trivial _)
  | createTable tableDesc => exact hkeep (d.sormCreateTable (fun _ => trivial) _)
  | deleteTable tableDesc => exact hkeep (d.sormDeleteTable (fun _ => trivial) _)
  | createIndex tableDesc columnsName => exact hkeep (d.sormCreateIndex (fun _ => trivial) _ _)
  | dropIndex columnsName => exact hkeep (d.sormDropIndex (fun _ => trivial) _)
  | insert row => exact absurd rfl hw
  | replace row => exact absurd rfl hw
  | update row => exact absurd rfl hw
  | delete row => exact absurd rfl hw
  | deleteBy tableDesc filter => exact hkeep (d.writing.sormDeleteBy _ _ fun _ _ _ _ => trivial)
  | deleteByColumn tableDesc columnIndex columnValue =>
      exact hkeep (d.writing.sormDeleteByColumn _ _ _ fun _ _ _ _ _ _ _ _ _ _ => trivial)
  | selectOneByColumn => exact hkeep (d.sormSelectOneByColumn _ _ _ _ _ _
      fun _ _ _ _ _ _ _ _ _ _ => trivial)
  | selectSomeArrayBy => exact hkeep (d.sormSelectSomeArrayBy _ _ _ _ _ _
      fun _ _ _ _ => trivial)
  | selectSomeListBy => exact hkeep (d.sormSelectSomeListBy (fun _ => trivial) _ _ _ _ _ _)
  | selectAllArrayBy => exact hkeep (d.sormSelectAllArrayBy (fun _ => trivial) _ _ _ _ _ _ _)
  | selectAllArrayByJoin => exact hkeep (d.sormSelectAllArrayByJoin (fun _ => trivial) _ _ _ _ _ _ _)
  | selectAllListBy => exact hkeep (d.sormSelectAllListBy (fun _ => trivial) _ _ _ _ _ _ _)
  | selectIterateByOpen allocator tables columnsName filter =>
      apply Triple.bind (d.sormSelectIterateByOpen _ _ _ _)
      intro opened
      refine Triple.pure fun s hs => ⟨⟨rfl, fun h => absurd rfl h⟩, ?_⟩
      simpa only [Session.handles, List.map_append, Multiset.coe_add] using hs
  | selectIterateBy k isTableSelect =>
      change Triple M _ (before.iterate k isTableSelect) _
      unfold Session.iterate
      split
      · exact Triple.pure fun s hs => ⟨.refl, hs⟩
      · next iterator hk =>
          have hmem : iterator.stmtHandle ∈ before.handles := by
            rw [before.handles_eraseIdx k iterator hk]
            exact Multiset.mem_cons_self _ _
          apply Triple.bind (d.selectIterate iterator isTableSelect hmem)
          rintro ⟨code, iterator', rows⟩
          refine Triple.pure fun s hs => ?_
          have hset := before.handles_set k iterator iterator' hk hs.2
          refine ⟨⟨rfl, fun _ => hset.le⟩, ?_⟩
          rw [hset]
          exact hs.1
  | selectIterateClose k =>
      change Triple M _ (before.closeIterator k) _
      unfold Session.closeIterator
      split
      · exact Triple.pure fun s hs => ⟨.refl, hs⟩
      · next iterator hk =>
          have hle := Multiset.le_cons_self
            (Session.mk before.conn (before.iterators.eraseIdx k)).handles iterator.stmtHandle
          rw [← before.handles_eraseIdx k iterator hk] at hle
          rw [before.handles_eraseIdx k iterator hk]
          apply Triple.bind (d.sormSelectIterateClose iterator)
          intro code
          exact Triple.pure fun s hs => ⟨⟨rfl, fun _ => hle⟩, hs⟩
  | beginWriteTransaction => exact absurd rfl ht
  | beginReadTransaction => exact absurd rfl ht
  | commitTransaction => exact absurd rfl ht
  | rollbackTransaction => exact absurd rfl ht

end Discipline

namespace WriteDiscipline

section Drop

variable {Prepares : Text → Prop} (d : WriteDiscipline M conn Prepares Holds)
  (drop : ∀ {hs : Multiset (Option Handle)} {h : Option Handle} {s : σ}, Holds (h ::ₘ hs) s →
    Holds hs s)

include d drop

theorem runBound_of_drop {obj : Object table} (hvalue : checkHasValue obj) {sqlStmt : Text}
    (hsql : Prepares sqlStmt) (second : Option (table.Index → Bool)) :
    Keeps M (Holds hs) (runBound conn obj sqlStmt second) := by
  apply d.toHandling.runBound (fun h => Holds (some h ::ₘ hs)) hvalue hsql second
    (fun _ hs => hs)
  · intro h
    apply (d.write (Multiset.mem_cons_self (some h) hs)).post
    intro ret s hs'
    split
    · exact hs'
    · exact drop hs'
  · exact fun h => d.finalize

theorem savePrepared_of_drop {obj : Object table} (hvalue : checkHasValue obj) {sqlStmt : Text}
    (hsql : Prepares sqlStmt) : Keeps M (Holds hs) (savePrepared conn obj sqlStmt) := by
  apply d.toHandling.savePrepared (fun h => Holds (some h ::ₘ hs))
    (fun h => Holds (some h ::ₘ hs)) hvalue hsql (fun _ hs => hs)
  · intro h
    apply (d.write (Multiset.mem_cons_self (some h) hs)).post
    intro ret s hs'
    split
    · exact hs'
    · exact hs'
  · intro h
    unfold savePrimaryKey
    have hpost : ∀ (r : SormError × Object table) (s : σ), Holds (some h ::ₘ hs) s →
        if r.1 = .ok then Holds (some h ::ₘ hs) s else Holds hs s := by
      intro r s hs'
      split
      · exact hs'
      · exact drop hs'
    split
    · exact Triple.pure fun s hs' => hpost _ s hs'
    · apply Triple.bind (d.rowId rfl)
      intro rowId
      apply Triple.bind (d.rowId rfl)
      intro above
      exact Triple.ofExcept fun r s _ hs' => hpost r s hs'
  · exact fun h => d.finalize

theorem save_of_drop (row : Option (Object table)) (insertOrReplace : Text)
    (hsql : ∀ obj b, row = some obj → saveStmt obj insertOrReplace = .ok b → Prepares b.text) :
    Keeps M (Holds hs) (save (some conn) row insertOrReplace) := by
  cases row with
  | none => exact Keeps.pure
  | some obj =>
      unfold save
      dsimp only
      split
      · next hvalue =>
          split
          · exact Keeps.bind (keeps_fail _) fun _ => Keeps.pure
          · next b hbuilt =>
              exact Keeps.bind (d.savePrepared_of_drop drop hvalue (hsql obj b rfl hbuilt))
                fun _ => Keeps.pure
      · exact Keeps.pure

theorem sormDelete_of_drop (row : Option (Object table))
    (hsql : ∀ obj b, row = some obj → deleteStmt obj = .ok b → Prepares b.text) :
    Keeps M (Holds hs) (sormDelete (some conn) row) := by
  cases row with
  | none => exact Keeps.pure
  | some obj =>
      unfold sormDelete
      dsimp only
      split
      · next hvalue =>
          split
          · exact keeps_fail _
          · next b hbuilt =>
              rw [assertSome_some, pure_bind]
              exact d.runBound_of_drop drop hvalue (hsql obj b rfl hbuilt) _
      · exact Keeps.pure

theorem sormUpdate_of_drop (row : Option (Object table))
    (hsql : ∀ obj b, row = some obj → updateStmt obj = .ok b → Prepares b.text) :
    Keeps M (Holds hs) (sormUpdate (some conn) row) := by
  cases row with
  | none => exact Keeps.pure
  | some obj =>
      unfold sormUpdate
      dsimp only
      split
      · next hvalue =>
          split
          · exact keeps_fail _
          · next b hbuilt =>
              rw [assertSome_some, pure_bind]
              exact d.runBound_of_drop drop hvalue (hsql obj b rfl hbuilt) _
      · exact Keeps.pure

end Drop

end WriteDiscipline

namespace Discipline

theorem op_of_drop {before : Session} (d : Discipline M before.conn AnyText Holds)
    (drop : ∀ {hs : Multiset (Option Handle)} {h : Option Handle} {s : σ}, Holds (h ::ₘ hs) s →
      Holds hs s) (o : Op) (ht : ¬ o.isTransaction) :
    Triple M (Holds before.handles) (o.prog before) fun r s =>
      Leaves before o r.2 ∧ Holds r.2.handles s := by
  by_cases hw : o.isRowWrite
  · cases o with
    | insert row =>
        exact Triple.bind (d.writing.save_of_drop drop row _ fun _ _ _ _ => trivial) fun _ =>
          Triple.pure fun s hs => ⟨.refl, hs⟩
    | replace row =>
        exact Triple.bind (d.writing.save_of_drop drop row _ fun _ _ _ _ => trivial) fun _ =>
          Triple.pure fun s hs => ⟨.refl, hs⟩
    | update row =>
        exact Triple.bind (d.writing.sormUpdate_of_drop drop row fun _ _ _ _ => trivial) fun _ =>
          Triple.pure fun s hs => ⟨.refl, hs⟩
    | delete row =>
        exact Triple.bind (d.writing.sormDelete_of_drop drop row fun _ _ _ _ => trivial) fun _ =>
          Triple.pure fun s hs => ⟨.refl, hs⟩
    | _ => exact absurd hw (by simp [Op.isRowWrite])
  · exact d.op o ht hw

end Discipline
end Sorm
