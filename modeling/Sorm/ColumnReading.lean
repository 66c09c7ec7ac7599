import Sorm.Decoding
import Sorm.Discipline

/-!
# Reading a column, under any monitor

`_sqlite3_column` asks SQLite for the type of a value and for the value, and copies the value of a
TEXT or BLOB column in the heap into a block. What it leaves in the slot of the column is, as far as
blocks go, whether the column is marked to be freed and where its pointer points to. A monitor that
is followed through these calls for one column is followed through the reading of a row.
-/

namespace Sorm

open Interaction Monitor

def TableDescriptor.InHeap (table : TableDescriptor) (i : table.Index) : Prop :=
  ((table.column i).type = .text ∨ (table.column i).type = .blob) ∧ (table.column i).mem = .heap

abbrev Mark := Bool × Option Address

def Slot.mark (slot : Slot) : Mark :=
  (sormIsStatNeedfree slot.stat, slot.pointer.map CharPointer.address)

theorem sormIsStatNeedfree_needfree (stat : Stat) :
    sormIsStatNeedfree (stat ||| sormStatNeedfree) = true := by
  have hneedfree : sormIsStatNeedfree sormStatNeedfree = true := by decide
  rw [sormIsStatNeedfree_or, hneedfree, Bool.or_true]

/-- A call that reads position `k` of the result, and after which nothing is copied from there. -/
def Call.readsPlain (h : Option Handle) (column : ColumnDescriptor) (k : ℕ) : Call → Prop
  | .columnType h' j => h' = h ∧ j = k
  | .columnBytes h' j => h' = h ∧ j = k ∧ column.mem ≠ .heap
  | .columnInt h' _ | .columnInt64 h' _ | .columnDouble h' _ | .columnBlob h' _ => h' = h
  | _ => False

section Column

variable {σ : Type} {table : TableDescriptor} {i : table.Index} {k : ℕ} {M : Monitor Resp σ}
  {P : σ → Prop} {Post : Mark → σ → Prop} {obj : Object table}

/-- How a monitor follows the reading of column `i`, marked as `old`, from position `k`: `P` holds
before, and `Post` of what the column is marked as then. -/
structure ReadsColumn (M : Monitor Resp σ) (allocator : Allocator) (h : Option Handle)
    (table : TableDescriptor) (i : table.Index) (k : ℕ) (old : Mark) (P : σ → Prop)
    (Post : Mark → σ → Prop) : Prop where
  plain : ∀ c, c.readsPlain h (table.column i) k → Keeps M P (perform c)
  kept : ∀ s, P s → Post old s
  stack : (table.column i).mem ≠ .heap →
    Triple M P (perform (.columnText h k)) fun text s => text.isSome → P s
  text : (table.column i).type = .text → (table.column i).mem = .heap →
    ∃ Told : Option CString → σ → Prop, Triple M P (perform (.columnText h k)) Told ∧
      ∀ text, Triple M (Told text) (strdup allocator text) fun copy =>
        Post (true, copy.map Prod.fst)
  blob : (table.column i).type = .blob → (table.column i).mem = .heap →
    ∃ Told : ℕ → σ → Prop, Triple M P (perform (.columnBytes h k)) Told ∧
      (∀ s, Told 0 s → Post (old.1, none) s) ∧
      ∀ len, len ≠ 0 → Triple M (Told len) (malloc allocator len) fun block =>
        Post (true, block)

def ReadAt (Post : Mark → σ → Prop) (obj : Object table) (i : table.Index)
    (r : SormError × Object table) (s : σ) : Prop :=
  Post (r.2.slots i).mark s ∧ ∀ j, j ≠ i → r.2.slots j = obj.slots j

theorem readAt_setSlot {slot : Slot} {ret : SormError} {s : σ} (h : Post slot.mark s) :
    ReadAt Post obj i (ret, obj.setSlot i slot) s := by
  refine ⟨?_, fun j hj => obj.setSlot_of_ne hj slot⟩
  rw [Object.setSlot_self]
  exact h

theorem readAt_self {ret : SormError} {s : σ} (h : Post (obj.slots i).mark s) :
    ReadAt Post obj i (ret, obj) s := ⟨h, fun _ _ => rfl⟩

/-- Marking a column as valued or NULL says nothing about its block. -/
theorem ReadAt.addColumnStat {obj' : Object table} {ret ret' : SormError} {s : σ} {stat : Stat}
    (hstat : sormIsStatNeedfree stat = false) (h : ReadAt Post obj i (ret, obj') s) :
    ReadAt Post obj i (ret', obj'.addColumnStat i stat) s := by
  refine ⟨?_, fun j hj => (obj'.setSlot_of_ne hj _).trans (h.2 j hj)⟩
  have hmark : ((obj'.addColumnStat i stat).slots i).mark = (obj'.slots i).mark := by
    unfold Slot.mark Object.addColumnStat Object.getColumnStat
    rw [Object.setSlot_self, sormIsStatNeedfree_or, hstat, Bool.or_false]
  dsimp only
  rw [hmark]
  exact h.1

variable {allocator : Allocator} {h : Option Handle}

theorem ReadsColumn.sqlite3ColumnText
    (hr : ReadsColumn M allocator h table i k (obj.slots i).mark P Post)
    (htype : (table.column i).type = .text) :
    Triple M P (sqlite3ColumnText allocator obj h i k) (ReadAt Post obj i) := by
  unfold Sorm.sqlite3ColumnText
  dsimp only
  split
  · next hmem =>
    obtain ⟨Told, htold, hcopy⟩ := hr.text htype hmem
    apply Triple.bind htold
    intro text
    apply Triple.bind (hcopy text)
    intro copy
    refine Triple.pure fun s hs => ?_
    rw [Object.addColumnStat_setSlot]
    apply readAt_setSlot
    rw [Slot.mark, sormIsStatNeedfree_needfree]
    cases copy with
    | none => exact hs
    | some copy => exact hs
  · next hmem =>
    have hstack : (table.column i).mem ≠ .heap := by simp [hmem]
    apply Triple.bind (hr.plain (.columnBlob h k) rfl)
    intro blob
    cases blob with
    | none => exact Triple.pure fun s hs => readAt_self (hr.kept s hs)
    | some blob =>
        apply Triple.bind (hr.stack hstack)
        intro text
        cases text with
        | none => exact Triple.stop
        | some text =>
            dsimp only
            split
            · exact Triple.pure fun s hs => readAt_setSlot (hr.kept s (hs rfl))
            · exact Triple.pure fun s hs => readAt_setSlot (hr.kept s (hs rfl))
  · exact Triple.pure fun s hs => readAt_self (hr.kept s hs)

theorem ReadsColumn.sqlite3ColumnBlob
    (hr : ReadsColumn M allocator h table i k (obj.slots i).mark P Post)
    (htype : (table.column i).type = .blob) :
    Triple M P (sqlite3ColumnBlob allocator obj h i k) (ReadAt Post obj i) := by
  unfold Sorm.sqlite3ColumnBlob
  split
  · next hmem =>
    obtain ⟨Told, htold, hempty, hcopy⟩ := hr.blob htype hmem
    apply Triple.bind (hr.plain (.columnBlob h k) rfl)
    intro blobDb
    apply Triple.bind htold
    intro blobLen
    by_cases hlen : blobLen = 0
    · subst hlen
      refine Triple.pure fun s hs => ?_
      rw [if_neg (not_not_intro rfl), Object.setBlobLen_setSlot]
      exact readAt_setSlot (hempty s hs)
    · apply Triple.bind (hcopy blobLen hlen)
      intro block
      refine Triple.pure fun s hs => ?_
      rw [if_pos hlen, Object.addColumnStat_setSlot, Object.setBlobLen_setSlot]
      apply readAt_setSlot
      rw [Slot.mark, sormIsStatNeedfree_needfree]
      cases block with
      | none => exact hs
      | some block => exact hs
  · next hmem =>
    have hstack : (table.column i).mem ≠ .heap := by simp [hmem]
    apply Triple.bind (hr.plain (.columnBlob h k) rfl)
    intro blob
    apply Triple.bind (hr.plain (.columnBytes h k) ⟨rfl, rfl, hstack⟩)
    intro blobLen
    split
    · exact Triple.pure fun s hs => readAt_self (hr.kept s hs)
    · refine Triple.pure fun s hs => ?_
      rw [Object.setBlobLen_setSlot]
      exact readAt_setSlot (hr.kept s hs)
  · exact Triple.pure fun s hs => readAt_self (hr.kept s hs)

theorem ReadsColumn.sqlite3Column
    (hr : ReadsColumn M allocator h table i k (obj.slots i).mark P Post) :
    Triple M P (sqlite3Column allocator obj h i k) (ReadAt Post obj i) := by
  have hvalued : sormIsStatNeedfree sormStatValued = false := by decide
  have hnull : sormIsStatNeedfree sormStatNull = false := by decide
  have hrest : ∀ r : SormError × Object table, Triple M (ReadAt Post obj i r)
      (if r.1 = .ok then Pure.pure (.ok, r.2.addColumnStat i sormStatValued)
        else Pure.pure r : Act (SormError × Object table)) (ReadAt Post obj i) := by
    rintro ⟨ret, obj'⟩
    split
    · exact Triple.pure fun s hs => hs.addColumnStat hvalued
    · exact Triple.pure fun s hs => hs
  have hplain : ∀ slot : Slot, slot.mark = (obj.slots i).mark →
      Triple M P (Pure.pure (SormError.ok, obj.setSlot i slot) : Act (SormError × Object table))
        (ReadAt Post obj i) := by
    intro slot hslot
    refine Triple.pure fun s hs => readAt_setSlot ?_
    rw [hslot]
    exact hr.kept s hs
  unfold Sorm.sqlite3Column
  apply Triple.bind (keeps_assertSome h)
  intro _
  apply Triple.bind (hr.plain (.columnType h k) ⟨rfl, rfl⟩)
  intro columnClass
  split
  · apply Triple.pure
    intro s hs
    have hself : ReadAt Post obj i (SormError.ok, obj) s := readAt_self (hr.kept s hs)
    exact hself.addColumnStat hnull
  · split
    · apply Triple.bind (hr.plain (.columnInt h k) rfl)
      intro v
      exact Triple.bind (hplain { obj.slots i with int32 := v } rfl) hrest
    · apply Triple.bind (hr.plain (.columnInt64 h k) rfl)
      intro v
      exact Triple.bind (hplain { obj.slots i with int64 := v } rfl) hrest
    · next htype => exact Triple.bind (hr.sqlite3ColumnText htype) hrest
    · apply Triple.bind (hr.plain (.columnDouble h k) rfl)
      intro v
      exact Triple.bind (hplain { obj.slots i with double := v } rfl) hrest
    · next htype => exact Triple.bind (hr.sqlite3ColumnBlob htype) hrest
    · exact Triple.bind (Triple.pure fun s hs => readAt_self (hr.kept s hs)) hrest

end Column

section Row

variable {σ β : Type} {table : TableDescriptor} {M : Monitor Resp σ} {Acc : β → σ → Prop}
  {enter : β → table.Index → Mark → β} {Good : table.Index → Mark → Prop} {allocator : Allocator}
  {h : Option Handle} {columnIndexesInResult : List (Option ℕ)} {obj : Object table} {b : β}

/-- What the columns `is` of a row are entered as. -/
def Object.entered (enter : β → table.Index → Mark → β) (obj : Object table)
    (is : List table.Index) (b : β) : β :=
  is.foldl (fun b i => enter b i (obj.slots i).mark) b

structure ReadColumns (Acc : β → σ → Prop) (enter : β → table.Index → Mark → β)
    (Good : table.Index → Mark → Prop) (b : β) (obj : Object table) (is : List table.Index)
    (r : SormError × Object table) (s : σ) : Prop where
  acc : Acc (r.2.entered enter is b) s
  good : ∀ i ∈ is, Good i (r.2.slots i).mark
  same : ∀ j, j ∉ is → r.2.slots j = obj.slots j

def Unread (enter : β → table.Index → Mark → β) (Good : table.Index → Mark → Prop)
    (obj : Object table) (is : List table.Index) : Prop :=
  ∀ i ∈ is, (∀ b, enter b i (obj.slots i).mark = b) ∧ Good i (obj.slots i).mark

theorem Unread.readColumns {is : List table.Index} (hunread : Unread enter Good obj is)
    {ret : SormError} {s : σ} (hs : Acc b s) : ReadColumns Acc enter Good b obj is (ret, obj) s := by
  refine ⟨?_, fun i hi => (hunread i hi).2, fun _ _ => rfl⟩
  have hentered : obj.entered enter is b = b := by
    induction is with
    | nil => rfl
    | cons i is ih =>
        rw [Object.entered, List.foldl_cons, (hunread i List.mem_cons_self).1 b]
        exact ih fun j hj => hunread j (List.mem_cons_of_mem _ hj)
  dsimp only
  rw [hentered]
  exact hs

theorem ReadColumns.cons {i : table.Index} {is : List table.Index} {row : Object table}
    {r : SormError × Object table} {s : σ} (hnotMem : i ∉ is)
    (hgood : Good i (row.slots i).mark) (hsame : ∀ j, j ≠ i → row.slots j = obj.slots j)
    (hr : ReadColumns Acc enter Good (enter b i (row.slots i).mark) row is r s) :
    ReadColumns Acc enter Good b obj (i :: is) r s := by
  have hslot : r.2.slots i = row.slots i := hr.same i hnotMem
  refine ⟨?_, ?_, fun j hj => ?_⟩
  · have hacc := hr.acc
    rw [← hslot] at hacc
    exact hacc
  · rw [List.forall_mem_cons, hslot]
    exact ⟨hgood, hr.good⟩
  · obtain ⟨hji, hj⟩ := not_or.mp (mt List.mem_cons.mpr hj)
    exact (hr.same j hj).trans (hsame j hji)

/-- A monitor that follows the reading of each column follows that of a row. -/
theorem triple_parseColumns {is : List table.Index} (hnodup : is.Nodup)
    (hunread : Unread enter Good obj is)
    (hcolumn : ∀ i ∈ is, ∀ k b, columnIndexesInResult[i.val]?.join = some k →
      ReadsColumn M allocator h table i k (obj.slots i).mark (Acc b)
        fun mark s => Acc (enter b i mark) s ∧ Good i mark) :
    Triple M (Acc b) (parseColumns allocator h columnIndexesInResult is obj)
      (ReadColumns Acc enter Good b obj is) := by
  induction is generalizing obj b with
  | nil => exact Triple.pure fun s hs => hunread.readColumns hs
  | cons i is ih =>
      have hi := hunread i List.mem_cons_self
      have his : Unread enter Good obj is := fun j hj => hunread j (List.mem_cons_of_mem _ hj)
      have hnotMem := (List.nodup_cons.mp hnodup).1
      have hrest := (List.nodup_cons.mp hnodup).2
      unfold parseColumns
      split
      · refine (ih hrest his fun j hj => hcolumn j (List.mem_cons_of_mem _ hj)).post ?_
        intro r s hr
        refine ReadColumns.cons hnotMem hi.2 (fun _ _ => rfl) ?_
        rw [hi.1 b]
        exact hr
      · next k hk =>
        apply Triple.bind (hcolumn i List.mem_cons_self k b hk).sqlite3Column
        rintro ⟨ret, row⟩ s ⟨⟨hacc, hgood⟩, hsame⟩
        have hslot : ∀ j ∈ is, row.slots j = obj.slots j :=
          fun j hj => hsame j fun hji => hnotMem (hji ▸ hj)
        have hrow : Unread enter Good row is := by
          intro j hj
          rw [hslot j hj]
          exact his j hj
        dsimp only
        split
        · refine ((ih hrest hrow ?_).post fun r s hr =>
            ReadColumns.cons hnotMem hgood hsame hr) s hacc
          intro j hj
          rw [hslot j hj]
          exact hcolumn j (List.mem_cons_of_mem _ hj)
        · exact ReadColumns.cons hnotMem hgood hsame (hrow.readColumns hacc)

theorem triple_parseSelectResult
    (hunread : Unread enter Good (Object.fresh table) table.indexes)
    (hcolumn : ∀ i k b, columnIndexesInResult[i.val]?.join = some k →
      ReadsColumn M allocator h table i k Slot.zero.mark (Acc b)
        fun mark s => Acc (enter b i mark) s ∧ Good i mark) :
    Triple M (Acc b)
      (parseSelectResult allocator h columnIndexesInResult (Object.fresh table))
      (ReadColumns Acc enter Good b (Object.fresh table) table.indexes) :=
  triple_parseColumns (List.nodup_finRange _) hunread fun i _ => hcolumn i

end Row

end Sorm
