import Sorm.ColumnErrors
import Sorm.ColumnFilter
import Sorm.Storage

/-!
# Reading undoes writing

The bind loop gives SQLite the value of each valued column under the index of its place in the
statement. A row that holds what is stored of these values is decoded into an object with the same
columns valued and the same values.
-/

namespace Sorm

open Interaction

variable {table : TableDescriptor}

def bindings {ι : Type} (v : ι → Bound) (k : ℕ) (is : List ι) : List (ℕ × Bound) :=
  (is.zipIdx k).map fun p => (p.2, v p.1)

theorem bindings_cons {ι : Type} (v : ι → Bound) (k : ℕ) (i : ι) (is : List ι) :
    bindings v k (i :: is) = (k, v i) :: bindings v (k + 1) is := by
  rw [bindings, List.zipIdx_cons, List.map_cons]
  rfl

theorem lookup_bindings {ι : Type} (v : ι → Bound) (j k : ℕ) (is : List ι) :
    (bindings v j is).lookup (j + k) = is[k]?.map v := by
  induction is generalizing j k with
  | nil => rfl
  | cons i is ih =>
      rw [bindings_cons]
      cases k with
      | zero => rw [Nat.add_zero, List.lookup_cons_self, List.getElem?_cons_zero, Option.map_some]
      | succ k =>
          have hne : (j + (k + 1) == j) = false := by
            rw [beq_eq_false_iff_ne]
            omega
          have hadd : j + (k + 1) = j + 1 + k := by omega
          rw [List.lookup_cons, hne, hadd, List.getElem?_cons_succ]
          exact ih (j + 1) k

theorem bindEach_run {o : Outside} (h : Handle) {obj : Object table} {test : table.Index → Bool}
    {v : table.Index → Bound} {is : List table.Index}
    (hv : ∀ i ∈ is, test i → obj.valued i ∧ obj.boundValue i = .ok (v i)) (k : ℕ) (s : Db) :
    o.run (bindEach obj (some h) test is k) s =
      (.ok (.ok, k + (is.filter test).length),
        { s with bound := s.bound ++ bindings v k (is.filter test) }) := by
  induction is generalizing k s with
  | nil =>
      rw [List.filter_nil, bindings, List.zipIdx_nil, List.map_nil, List.append_nil]
      rfl
  | cons i is ih =>
      have hrest := ih fun i' h' => hv i' (List.mem_cons_of_mem _ h')
      unfold bindEach
      by_cases htest : test i
      · obtain ⟨hvalued, hbound⟩ := hv i List.mem_cons_self htest
        have hbind : o.run (sqlite3ColumnBind obj (some h) i k) s =
            (.ok .ok, { s with bound := s.bound ++ [(k, v i)] }) := by
          unfold sqlite3ColumnBind
          rw [assertSome_some, pure_bind, if_pos hvalued, hbound]
          rfl
        rw [if_pos htest, Outside.run, Prog.run_bind_ok hbind, if_pos rfl, List.filter_cons_of_pos htest,
          List.length_cons, bindings_cons]
        have hlength : k + ((is.filter test).length + 1) = k + 1 + (is.filter test).length := by
          omega
        rw [hlength, List.append_cons s.bound (k, v i) (bindings v (k + 1) (is.filter test))]
        exact hrest (k + 1) _
      · rw [if_neg htest, List.filter_cons_of_neg htest]
        exact hrest k s

/-- What is stored in a column of a row inserted under the column names `names` with the values
`bound`: the name's place is the number of its `?`, and a column that is not named is NULL. -/
def columnStored (names : List table.Index) (bound : List (ℕ × Bound)) (i : table.Index) :
    Option DbValue :=
  (names.idxOf? i).bind fun k => (bound.lookup (k + 1)).bind Bound.stored

theorem columnStored_bindings (v : table.Index → Bound) (names : List table.Index)
    (i : table.Index) :
    columnStored names (bindings v 1 names) i = if i ∈ names then (v i).stored else none := by
  unfold columnStored
  by_cases hi : i ∈ names
  · obtain ⟨k, hk⟩ := Option.isSome_iff_exists.mp (List.isSome_idxOf?.mpr hi)
    obtain ⟨hlt, hget, -⟩ := List.idxOf?_eq_some_iff.mp hk
    rw [if_pos hi, hk, Option.bind_some, Nat.add_comm, lookup_bindings,
      List.getElem?_eq_getElem hlt, hget]
    rfl
  · rw [if_neg hi, List.idxOf?_eq_none_iff.mpr hi, Option.bind_none]

def RowOf (row : ResultRow) (columnIndexesInResult : List (Option ℕ))
    (stored : table.Index → Option DbValue) : Prop :=
  ∀ i : table.Index, ∃ resultIndex, columnIndexesInResult[i.val]?.join = some resultIndex ∧
    (row resultIndex).Holds (stored i)

theorem decodeColumns_ok {row : ResultRow} {columnIndexesInResult : List (Option ℕ)}
    {new : table.Index → Slot} {is : List table.Index} (hnodup : is.Nodup) {obj : Object table}
    (hread : ∀ i ∈ is, ∃ resultIndex, columnIndexesInResult[i.val]?.join = some resultIndex ∧
      (row resultIndex).read (table.column i) (obj.slots i) 0 = .ok (.ok, new i)) :
    ∃ obj', decodeColumns row columnIndexesInResult is obj = .ok (.ok, obj') ∧
      ∀ j, obj'.slots j = if j ∈ is then new j else obj.slots j := by
  induction is generalizing obj with
  | nil => exact ⟨obj, rfl, fun j => rfl⟩
  | cons i is ih =>
      obtain ⟨hi, hnodup'⟩ := List.nodup_cons.mp hnodup
      obtain ⟨resultIndex, hindex, hslot⟩ := hread i List.mem_cons_self
      have hread' : ∀ i' ∈ is, ∃ resultIndex, columnIndexesInResult[i'.val]?.join =
          some resultIndex ∧ (row resultIndex).read (table.column i')
            ((obj.setSlot i (new i)).slots i') 0 = .ok (.ok, new i') := by
        intro i' h'
        have hne : i' ≠ i := fun heq => hi (heq ▸ h')
        rw [Object.setSlot_of_ne obj hne]
        exact hread i' (List.mem_cons_of_mem _ h')
      obtain ⟨obj', hobj', hslots⟩ := ih hnodup' hread'
      unfold decodeColumns
      rw [hindex]
      dsimp only
      rw [hslot]
      dsimp only
      rw [if_pos rfl]
      refine ⟨obj', hobj', fun j => ?_⟩
      rw [hslots j]
      by_cases hj : j ∈ is
      · rw [if_pos hj, if_pos (List.mem_cons_of_mem _ hj)]
      · rw [if_neg hj]
        by_cases hji : j = i
        · subst hji
          rw [Object.setSlot_self, if_pos List.mem_cons_self]
        · have hcons : j ∉ i :: is := by
            rw [List.mem_cons, not_or]
            exact ⟨hji, hj⟩
          rw [Object.setSlot_of_ne obj hji, if_neg hcons]

theorem parseSelectResult_ok {o : Outside} {s : Db} (allocator : Allocator) (h : Handle)
    {columnIndexesInResult : List (Option ℕ)} {new : table.Index → Slot}
    (hread : ∀ i : table.Index, ∃ resultIndex,
      columnIndexesInResult[i.val]?.join = some resultIndex ∧
      (s.current resultIndex).read (table.column i) Slot.zero 0 = .ok (.ok, new i)) :
    ∃ obj s', o.run (parseSelectResult allocator (some h) columnIndexesInResult (.fresh table)) s =
        (.ok (.ok, obj), s') ∧ ∀ i, (obj.slots i).erase = new i := by
  have hnodup : table.indexes.Nodup := List.nodup_finRange _
  have hslot : ∀ i ∈ table.indexes, ∃ resultIndex,
      columnIndexesInResult[i.val]?.join = some resultIndex ∧
      (s.current resultIndex).read (table.column i) ((Object.fresh table).slots i) 0 =
        .ok (.ok, new i) := fun i _ => hread i
  obtain ⟨obj', hdecode, hslots⟩ := decodeColumns_ok hnodup hslot
  obtain ⟨r, k, hparse, hr⟩ := Outside.parseColumns_run (o := o) (s := s) allocator h
    columnIndexesInResult table.indexes (.fresh table)
  rw [Object.erase_fresh, hdecode] at hr
  cases r with
  | error why => cases hr
  | ok r =>
      obtain ⟨ret, obj⟩ := r
      have heq : (ret, obj.erase) = (SormError.ok, obj') := Except.ok.inj hr
      obtain ⟨rfl, rfl⟩ := Prod.mk.inj heq
      exact ⟨obj, _, hparse, fun i => (hslots i).trans (if_pos (List.mem_finRange i))⟩

theorem Object.mem_valuedColumns {obj : Object table} {i : table.Index} :
    i ∈ obj.valuedColumns ↔ obj.valued i := by
  rw [Object.valuedColumns, List.mem_filter]
  exact and_iff_right (List.mem_finRange i)

def Object.stored (obj : Object table) (i : table.Index) : Option DbValue :=
  if obj.valued i then ((obj.slots i).value (table.column i)).stored else none

/-- The bind loop, when the value of each valued column can be bound. -/
theorem bindEach_stored {obj : Object table} {stored : table.Index → Option DbValue}
    (hbound : ∀ i, obj.valued i → ∃ v, obj.boundValue i = .ok v ∧ v.stored = stored i)
    (o : Outside) (h : Handle) (s : Db) :
    ∃ n bound, o.run (bindEach obj (some h) obj.valued table.indexes 1) s =
        (.ok (.ok, n), { s with bound := s.bound ++ bound }) ∧
      ∀ i, columnStored obj.valuedColumns bound i = if obj.valued i then stored i else none := by
  have hchoice : ∀ i, ∃ v, obj.valued i → obj.boundValue i = .ok v ∧ v.stored = stored i := by
    intro i
    by_cases hi : obj.valued i
    · obtain ⟨v, hv⟩ := hbound i hi
      exact ⟨v, fun _ => hv⟩
    · exact ⟨.text none, fun hi' => absurd hi' hi⟩
  choose v hv using hchoice
  refine ⟨_, _, bindEach_run h (v := v) (fun i _ hi => ⟨hi, (hv i hi).1⟩) 1 s, fun i => ?_⟩
  change columnStored obj.valuedColumns (bindings v 1 obj.valuedColumns) i = _
  rw [columnStored_bindings]
  by_cases hi : obj.valued i
  · rw [if_pos (Object.mem_valuedColumns.mpr hi), if_pos hi, (hv i hi).2]
  · rw [if_neg (mt Object.mem_valuedColumns.mp hi), if_neg hi]

/-- What is read from a row that stores the values of an object, column by column. -/
theorem read_stored {obj : Object table}
    (hsettled : ∀ i, obj.valued i → (obj.slots i).Settled (table.column i)) {i : table.Index}
    {cell : Cell} (hcell : cell.Holds (obj.stored i)) :
    ∃ new, cell.read (table.column i) Slot.zero 0 = .ok (.ok, new) ∧
      sormIsStatValued new.stat = obj.valued i ∧
      (obj.valued i → new.value (table.column i) = (obj.slots i).value (table.column i)) := by
  unfold Object.stored at hcell
  by_cases hi : obj.valued i
  · rw [if_pos hi] at hcell
    obtain ⟨new, hnew, hrestores⟩ := read_restores (hsettled i hi) hcell
    exact ⟨new, hnew, hrestores.valued.trans hi.symm, fun _ => hrestores.value⟩
  · rw [if_neg hi] at hcell
    have hzero : sormIsStatValued Slot.zero.stat = false := by decide
    have hnot : obj.valued i = false := Bool.eq_false_iff.mpr hi
    exact ⟨Slot.zero, read_null hcell, hzero.trans hnot.symm, fun hi' => absurd hi' hi⟩

/-- The same columns are valued, with the same values. -/
structure SameValues (obj obj' : Object table) : Prop where
  valued : ∀ i, obj'.valued i = obj.valued i
  value : ∀ i, obj.valued i →
    (obj'.slots i).value (table.column i) = (obj.slots i).value (table.column i)

/-- Values do not depend on the addresses of the blocks they are in. -/
theorem value_erase (column : ColumnDescriptor) (slot : Slot) :
    slot.erase.value column = slot.value column := by
  unfold Slot.value Slot.erase
  cases column.type with
  | text | blob =>
      cases column.mem with
      | none | stack => rfl
      | heap =>
          cases slot.pointer with
          | none => rfl
          | some p => rfl
  | _ => rfl

/-- An object whose valued columns are bound, and whose row is read into a fresh object, comes back
with the same columns valued and the same values. -/
theorem reading_undoes_writing {obj : Object table} (hbuilt : obj.Built) (o : Outside)
    (allocator : Allocator) (h h' : Handle) (s : Db) :
    ∃ n bound, o.run (bindEach obj (some h) obj.valued table.indexes 1) s =
        (.ok (.ok, n), { s with bound := s.bound ++ bound }) ∧
      ∀ (columnIndexesInResult : List (Option ℕ)) (s' : Db),
        RowOf s'.current columnIndexesInResult (columnStored obj.valuedColumns bound) →
        ∃ obj' s'', o.run (parseSelectResult allocator (some h') columnIndexesInResult
            (.fresh table)) s' = (.ok (.ok, obj'), s'') ∧ SameValues obj obj' := by
  have hsettled : ∀ i, obj.valued i → (obj.slots i).Settled (table.column i) :=
    fun i hi => hbuilt.settled hi
  obtain ⟨n, bound, hrun, hstored⟩ := bindEach_stored
    (fun i hi => bound_settled (hsettled i hi)) o h s
  refine ⟨n, bound, hrun, fun columnIndexesInResult s' hrow => ?_⟩
  have hcolumns : columnStored obj.valuedColumns bound = obj.stored := funext hstored
  rw [hcolumns] at hrow
  choose resultIndex hindex hcell using hrow
  choose new hnew hvalued hvalue using fun i => read_stored hsettled (hcell i)
  obtain ⟨obj', s'', hparse, herased⟩ := parseSelectResult_ok (o := o) (s := s') allocator h'
    fun i => ⟨resultIndex i, hindex i, hnew i⟩
  refine ⟨obj', s'', hparse, fun i => ?_, fun i hi => ?_⟩
  · rw [← hvalued i, ← herased i]
    rfl
  · rw [← hvalue i hi, ← herased i, value_erase]

def nameIndex : deviceTable.Index := ⟨1, by decide⟩

def diskName : CString := ⟨"disk".toList, by decide⟩

def namedDevice : Object deviceTable :=
  match (Object.fresh deviceTable).setColumnValue nameIndex (textPointer diskName) 0 with
  | .ok (_, obj) => obj
  | .error _ => .fresh deviceTable

theorem namedDevice_built : namedDevice.Built :=
  @Object.Built.set _ (.fresh deviceTable) namedDevice nameIndex (textPointer diskName) 0 .fresh
    (fun _ => le_rfl) rfl

/-- A `device` without a key, read back by `SELECT *`. -/
theorem reading_undoes_writing_device :
    ∃ obj' s'', Outside.run ⟨.done, by decide, 0, .ok, id, textPointer .empty, 0⟩
        (parseSelectResult .libc (some 0) [some 0, some 1] (.fresh deviceTable))
        { Db.ofRows [] with current := fun k => if k = 0 then .null else
          { Cell.null with columnClass := .text, text := some diskName, blob := some diskName.chars } } =
        (.ok (.ok, obj'), s'') ∧ SameValues namedDevice obj' := by
  obtain ⟨n, bound, hrun, hread⟩ := reading_undoes_writing namedDevice_built
    ⟨.done, by decide, 0, .ok, id, textPointer .empty, 0⟩ .libc 0 0 (.ofRows [])
  have hbound : bound = [(1, .text (some diskName))] :=
    (congrArg (fun r => r.2.bound) hrun).symm
  apply hread
  rw [hbound]
  intro i
  refine ⟨i.val, ?_, ?_⟩
  · fin_cases i
    · rfl
    · rfl
  · fin_cases i
    · rfl
    · exact ⟨rfl, rfl, rfl⟩

end Sorm
