import Sorm.IteratorMemory
import Sorm.Recorder
import Sorm.SelectAnswers

/-!
# The blocks of a select

What stands for the blocks of an array or a list, and what of it is left when the array is dropped
or the list freed: of an array that is dropped the copies in its rows, of a list that is freed the
objects, since `sorm_free` frees the columns of an object and never the object.
-/

namespace Sorm

open Interaction Monitor

def Row.copies (allocator : Allocator) (row : Row) : Multiset Block := row.2.blocks allocator

namespace RowArray

def copies (allocator : Allocator) (array : RowArray) : Multiset Block :=
  (array.rows.map (Row.copies allocator)).sum

def blocks (allocator : Allocator) (array : RowArray) : Multiset Block :=
  array.copies allocator + blockOf allocator (some array.block)

end RowArray

namespace ListEntry

def object (allocator : Allocator) (entry : ListEntry) : Multiset Block :=
  blockOf allocator (entry.data.map Prod.fst)

def copies (allocator : Allocator) (entry : ListEntry) : Multiset Block :=
  ((entry.data.map Prod.snd).map (Row.copies allocator)).getD 0

def given (allocator : Allocator) (entry : ListEntry) : Multiset Block :=
  entry.copies allocator + blockOf allocator (some entry.block)

end ListEntry

namespace RowList

def objects (allocator : Allocator) (list : RowList) : Multiset Block :=
  (list.entries.map (ListEntry.object allocator)).sum

def blocks (allocator : Allocator) (list : RowList) : Multiset Block :=
  list.objects allocator + ((list.entries.map (ListEntry.given allocator)).sum +
    blockOf allocator (some list.block))

end RowList

def held {ρ : Type} (f : ρ → Multiset Block) (cs : List (Option ρ)) : Multiset Block :=
  (cs.map fun c => (c.map f).getD 0).sum

section Held

variable {ρ : Type} {f g : ρ → Multiset Block} {c : ρ} {cs : List (Option ρ)}

@[simp] theorem held_nil : held f [] = 0 := rfl

@[simp] theorem held_some : held f (some c :: cs) = f c + held f cs := List.sum_cons

@[simp] theorem held_none : held f (none :: cs) = held f cs :=
  List.sum_cons.trans (zero_add _)

theorem held_of_none (h : ∀ c ∈ cs, c = none) : held f cs = 0 := by
  induction cs with
  | nil => rfl
  | cons c cs ih =>
      rw [h c List.mem_cons_self, held_none]
      exact ih fun c' hc' => h c' (List.mem_cons_of_mem _ hc')

theorem held_map_none {α : Type} (l : List α) : held f (l.map fun _ => none) = 0 := by
  apply held_of_none
  intro c hc
  obtain ⟨_, _, rfl⟩ := List.mem_map.mp hc
  rfl

/-- Nothing is held exactly when no container holds anything. -/
theorem held_eq_zero : held f cs = 0 ↔ ∀ c, some c ∈ cs → f c = 0 := by
  induction cs with
  | nil => simp
  | cons c cs ih =>
      cases c with
      | none => simp [ih]
      | some c =>
          rw [held_some, add_eq_zero, ih]
          simp

end Held

theorem Out.congr {out out' : Multiset Block} {s : Option (Multiset Block)} (h : Out out s)
    (heq : out = out') : Out out' s := heq ▸ h

def RowArray.Marked (array : RowArray) : Prop := ∀ row ∈ array.rows, HeapMarked row.2

def RowList.Marked (list : RowList) : Prop :=
  ∀ entry ∈ list.entries, ∀ data ∈ entry.data, HeapMarked data.2.2

def shape {ρ : Type} (cs : Containers ρ) : List (TableSelect × Bool) :=
  cs.map fun tc => (tc.1, tc.2.isSome)

def Shaped {ρ : Type} (ts : List TableSelect) (cs : Containers ρ) : Prop :=
  shape cs = ts.map fun t => (t, t.wanted)

theorem Shaped.wanted {ρ : Type} {ts : List TableSelect} {cs : Containers ρ} (h : Shaped ts cs)
    {t : TableSelect} {c : ρ} (hc : (t, some c) ∈ cs) : t ∈ ts ∧ t.wanted := by
  have hmem : (t, true) ∈ ts.map fun t => (t, t.wanted) := by
    rw [← h]
    exact List.mem_map_of_mem (f := fun tc : TableSelect × Option ρ => (tc.1, tc.2.isSome)) hc
  obtain ⟨t', ht', heq⟩ := List.mem_map.mp hmem
  obtain ⟨rfl, hw⟩ := Prod.mk.inj heq
  exact ⟨ht', hw⟩

section Storing

variable {ρ σ : Type} {f : ρ → Multiset Block} {out : Multiset Block} {M : Monitor Resp σ}
  {Acc : Multiset Block → σ → Prop} {Good : TableSelect → ρ → Prop}
  {one : TableSelect → ρ → Act (SormError × ρ)}

/-- What is accounted for one container while it is stored into is accounted for all. -/
theorem triple_storeEach
    (hone : ∀ t c out, Good t c → Triple M (Acc (out + f c)) (one t c) fun r s =>
      Acc (out + f r.2) s ∧ Good t r.2)
    (cs : Containers ρ) (hgood : ∀ t c, (t, some c) ∈ cs → Good t c) :
    Triple M (Acc (out + held f (cs.map Prod.snd))) (storeEach one cs) fun r s =>
      Acc (out + held f (r.2.map Prod.snd)) s ∧ (∀ t c, (t, some c) ∈ r.2 → Good t c) ∧
        shape r.2 = shape cs := by
  induction cs generalizing out with
  | nil => exact Triple.pure fun s hs => ⟨hs, hgood, rfl⟩
  | cons tc cs ih =>
      have hrest : ∀ t c, (t, some c) ∈ cs → Good t c :=
        fun t c hc => hgood t c (List.mem_cons_of_mem _ hc)
      obtain ⟨t, _ | c⟩ := tc
      · unfold storeEach
        rw [List.map_cons, held_none]
        apply Triple.bind (ih hrest)
        rintro ⟨ret, cs'⟩
        refine Triple.pure fun s hs => ⟨?_, fun t' c' hc => ?_, ?_⟩
        · rw [List.map_cons, held_none]
          exact hs.1
        · exact hs.2.1 t' c' (List.mem_of_ne_of_mem (by simp) hc)
        · exact congrArg ((t, false) :: ·) hs.2.2
      · unfold storeEach
        have hsum : out + held f (((t, some c) :: cs).map Prod.snd) =
            out + held f (cs.map Prod.snd) + f c := by
          rw [List.map_cons, held_some]
          abel
        rw [hsum]
        apply Triple.bind (hone t c _ (hgood t c List.mem_cons_self))
        rintro ⟨ret, c'⟩
        dsimp only
        have hcons : ∀ {cs' : Containers ρ}, Good t c' → (∀ t c, (t, some c) ∈ cs' → Good t c) →
            ∀ t' c'', (t', some c'') ∈ (t, some c') :: cs' → Good t' c'' := by
          intro cs' hc' hcs' t' c'' hmem
          rcases List.mem_cons.mp hmem with heq | hmem
          · cases heq
            exact hc'
          · exact hcs' t' c'' hmem
        split
        · rintro s ⟨hs, hc'⟩
          rw [add_right_comm] at hs
          refine (Triple.bind (ih hrest) ?_) s hs
          rintro ⟨ret, cs'⟩
          refine Triple.pure fun s hs => ⟨?_, hcons hc' hs.2.1, ?_⟩
          · rw [List.map_cons, held_some, ← add_assoc]
            exact hs.1
          · exact congrArg ((t, true) :: ·) hs.2.2
        · refine Triple.pure fun s hs => ⟨?_, hcons hs.2 hrest, rfl⟩
          have hacc := hs.1
          rw [add_assoc, add_comm (held f _)] at hacc
          rw [List.map_cons, held_some]
          exact hacc

end Storing

section Containers

variable {out : Multiset Block} (allocator : Allocator) (h : Option Handle)

theorem RowArray.copies_append (array : RowArray) (row : Row) :
    ({ array with rows := array.rows ++ [row] } : RowArray).copies allocator =
      array.copies allocator + row.copies allocator := by
  rw [RowArray.copies, List.map_append, List.sum_append, List.map_singleton, List.sum_singleton]
  rfl

theorem out_storeArrayEntry (t : TableSelect) (array : RowArray) (hgood : array.Marked) :
    Triple blockMonitor (Out (out + array.blocks allocator)) (storeArrayEntry allocator h t array)
      fun r s => Out (out + r.2.blocks allocator) s ∧ r.2.Marked := by
  apply Triple.bind (reads_parseSelectResult allocator h t.selectColumns.indexesInResult t.tableDesc)
  rintro ⟨ret, row⟩
  refine Triple.pure fun s hs => ⟨hs.1.congr ?_, fun row' hrow' => ?_⟩
  · rw [RowArray.blocks, RowArray.blocks]
    dsimp only
    rw [RowArray.copies_append]
    change _ + _ + row.blocks allocator = out + (_ + row.blocks allocator + _)
    abel
  · rcases List.mem_append.mp hrow' with hrow' | hrow'
    · exact hgood row' hrow'
    · rw [List.mem_singleton.mp hrow']
      exact hs.2

theorem RowList.blocks_append (list : RowList) (entry : ListEntry) :
    ({ list with entries := list.entries ++ [entry] } : RowList).blocks allocator =
      list.blocks allocator + (entry.object allocator + entry.given allocator) := by
  unfold RowList.blocks RowList.objects
  simp only [List.map_append, List.sum_append, List.map_singleton, List.sum_singleton]
  abel

theorem RowList.Marked.append {list : RowList} (hgood : list.Marked) {entry : ListEntry}
    (hentry : ∀ data ∈ entry.data, HeapMarked data.2.2) :
    ({ list with entries := list.entries ++ [entry] } : RowList).Marked := by
  intro entry' hmem
  rcases List.mem_append.mp hmem with hmem | hmem
  · exact hgood entry' hmem
  · rw [List.mem_singleton.mp hmem]
    exact hentry

theorem out_storeListEntry (t : TableSelect) (list : RowList) (hgood : list.Marked) :
    Triple blockMonitor (Out (out + list.blocks allocator)) (storeListEntry allocator h t list)
      fun r s => Out (out + r.2.blocks allocator) s ∧ r.2.Marked := by
  apply Triple.bind (out_malloc allocator sormListSize)
  intro block
  cases block with
  | none =>
      refine Triple.pure fun s hs => ⟨hs.congr ?_, hgood⟩
      rw [blockOf, add_zero]
  | some block =>
      apply Triple.bind (out_sormNewArray allocator t.tableDesc 1)
      intro data
      cases data with
      | none =>
          refine Triple.pure fun s hs => ⟨hs.congr ?_, hgood.append fun data hdata => ?_⟩
          · rw [RowList.blocks_append]
            simp only [ListEntry.object, ListEntry.given, ListEntry.copies, blockOf,
              Option.map_none, Option.getD_none]
            abel
          · cases hdata
      | some data =>
          apply Triple.bind (reads_parseSelectResult allocator h t.selectColumns.indexesInResult
            t.tableDesc)
          rintro ⟨ret, row⟩
          refine Triple.pure fun s hs => ⟨hs.1.congr ?_, hgood.append fun data' hdata => ?_⟩
          · rw [RowList.blocks_append]
            simp only [ListEntry.object, ListEntry.given, ListEntry.copies, Row.copies, blockOf,
              Option.map_some, Option.getD_some]
            abel
          · cases hdata
            exact hs.2

structure Allocated {ρ : Type} (Empty : ρ → Prop) (ts : List TableSelect)
    (r : Bool × Containers ρ) : Prop where
  empty : ∀ c, some c ∈ r.2.map Prod.snd → Empty c
  shaped : r.1 = true → Shaped ts r.2

theorem Allocated.cons {ρ : Type} {Empty : ρ → Prop} {t : TableSelect} {ts : List TableSelect}
    {r : Bool × Containers ρ} (h : Allocated Empty ts r) {c : Option ρ}
    (hc : ∀ c' ∈ c, Empty c') (hwanted : c.isSome = t.wanted) :
    Allocated Empty (t :: ts) (r.1, (t, c) :: r.2) := by
  refine ⟨fun c' hmem => ?_, fun hok => ?_⟩
  · rw [List.map_cons] at hmem
    rcases List.mem_cons.mp hmem with heq | hmem
    · exact hc c' heq.symm
    · exact h.empty c' hmem
  · have hrest := h.shaped hok
    unfold Shaped shape at hrest ⊢
    rw [List.map_cons, List.map_cons, hrest, hwanted]

theorem allocated_stopped {ρ : Type} {Empty : ρ → Prop} {ts : List TableSelect} (t : TableSelect) :
    Allocated (ρ := ρ) Empty (t :: ts) (false, (t, none) :: ts.map fun t => (t, none)) := by
  refine ⟨fun c hmem => ?_, fun hok => absurd hok Bool.false_ne_true⟩
  obtain ⟨tc, htc, hc⟩ := List.mem_map.mp hmem
  rcases List.mem_cons.mp htc with rfl | htc
  · cases hc
  · obtain ⟨t', _, rfl⟩ := List.mem_map.mp htc
    cases hc

theorem out_newArrays (maxRowsNum : ℤ) (ts : List TableSelect) :
    Triple blockMonitor (Out out) (newArrays allocator maxRowsNum ts) fun r s =>
      Out (out + held (RowArray.blocks allocator) (r.2.map Prod.snd)) s ∧
        Allocated (fun array => array.rows = []) ts r := by
  induction ts generalizing out with
  | nil =>
      refine Triple.pure fun s hs => ⟨hs.congr (by simp), fun c hc => ?_, fun _ => rfl⟩
      exact absurd hc List.not_mem_nil
  | cons t ts ih =>
      unfold newArrays
      by_cases hw : t.wanted
      · rw [if_pos hw]
        apply Triple.bind (out_sormNewArray allocator t.tableDesc maxRowsNum)
        intro block
        cases block with
        | none =>
            refine Triple.pure fun s hs => ⟨hs.congr ?_, allocated_stopped t⟩
            rw [List.map_cons, held_none, List.map_map, blockOf]
            exact congrArg _ (held_map_none ts).symm
        | some block =>
            apply Triple.bind ih
            rintro ⟨ok, cs⟩
            refine Triple.pure fun s hs => ⟨hs.1.congr ?_, hs.2.cons ?_ hw.symm⟩
            · simp only [List.map_cons, held_some, RowArray.blocks, RowArray.copies, List.map_nil,
                List.sum_nil]
              abel
            · intro array harray
              cases harray
              rfl
      · rw [if_neg hw]
        apply Triple.bind ih
        rintro ⟨ok, cs⟩
        refine Triple.pure fun s hs => ⟨hs.1.congr (by simp), hs.2.cons ?_ ?_⟩
        · intro array harray
          cases harray
        · exact (Bool.eq_false_iff.mpr hw).symm

theorem out_newLists (ts : List TableSelect) :
    Triple blockMonitor (Out out) (newLists allocator ts) fun r s =>
      Out (out + held (RowList.blocks allocator) (r.2.map Prod.snd)) s ∧
        Allocated (fun list => list.entries = []) ts r := by
  induction ts generalizing out with
  | nil =>
      refine Triple.pure fun s hs => ⟨hs.congr (by simp), fun c hc => ?_, fun _ => rfl⟩
      exact absurd hc List.not_mem_nil
  | cons t ts ih =>
      unfold newLists
      by_cases hw : t.wanted
      · rw [if_pos hw]
        apply Triple.bind (out_malloc allocator sormListSize)
        intro block
        cases block with
        | none =>
            refine Triple.pure fun s hs => ⟨hs.congr ?_, allocated_stopped t⟩
            rw [List.map_cons, held_none, List.map_map, blockOf]
            exact congrArg _ (held_map_none ts).symm
        | some block =>
            apply Triple.bind ih
            rintro ⟨ok, cs⟩
            refine Triple.pure fun s hs => ⟨hs.1.congr ?_, hs.2.cons ?_ hw.symm⟩
            · simp only [List.map_cons, held_some, RowList.blocks, RowList.objects, List.map_nil,
                List.sum_nil]
              abel
            · intro list hlist
              cases hlist
              rfl
      · rw [if_neg hw]
        apply Triple.bind ih
        rintro ⟨ok, cs⟩
        refine Triple.pure fun s hs => ⟨hs.1.congr (by simp), hs.2.cons ?_ ?_⟩
        · intro list hlist
          cases hlist
        · exact (Bool.eq_false_iff.mpr hw).symm

/-- The copies in the rows of a dropped array stay out. -/
theorem out_dropArrays (cs : Containers RowArray) :
    Triple blockMonitor (Out (out + held (RowArray.blocks allocator) (cs.map Prod.snd)))
      (dropArrays allocator cs) fun _ =>
        Out (out + held (RowArray.copies allocator) (cs.map Prod.snd)) := by
  induction cs generalizing out with
  | nil => exact Triple.pure fun s hs => hs
  | cons tc cs ih =>
      obtain ⟨t, _ | array⟩ := tc
      · have hsum : out + held (RowArray.blocks allocator) (((t, none) :: cs).map Prod.snd) =
            out + held (RowArray.blocks allocator) (cs.map Prod.snd) + blockOf allocator none := by
          rw [List.map_cons, held_none, blockOf, add_zero]
        rw [hsum, List.map_cons, held_none]
        exact Triple.bind (out_free allocator none) fun _ => ih
      · have hsum : out + held (RowArray.blocks allocator) (((t, some array) :: cs).map Prod.snd) =
            out + array.copies allocator + held (RowArray.blocks allocator) (cs.map Prod.snd) +
              blockOf allocator (some array.block) := by
          rw [List.map_cons, held_some, RowArray.blocks]
          abel
        rw [hsum, List.map_cons, held_some, ← add_assoc]
        exact Triple.bind (out_free allocator (some array.block)) fun _ => ih

theorem out_listFreeEntries (entries : List ListEntry) :
    Triple blockMonitor (Out (out + (entries.map (ListEntry.given allocator)).sum))
      (listFreeEntries allocator entries) fun _ => Out out := by
  induction entries generalizing out with
  | nil => exact Triple.pure fun s hs => hs.congr (by simp)
  | cons entry entries ih =>
      have hrest : Triple blockMonitor (Out (out + (entries.map (ListEntry.given allocator)).sum +
          blockOf allocator (some entry.block))) (do
            free allocator (some entry.block)
            listFreeEntries allocator entries) fun _ => Out out :=
        Triple.bind (out_free allocator _) fun _ => ih
      unfold listFreeEntries
      obtain ⟨block, data⟩ := entry
      cases data with
      | none =>
          refine hrest.mono (fun s hs => hs.congr ?_) fun _ _ hs => hs
          simp only [List.map_cons, List.sum_cons, ListEntry.given, ListEntry.copies,
            Option.map_none, Option.getD_none]
          abel
      | some data =>
          have hsum : out + (List.map (ListEntry.given allocator) (⟨block, some data⟩ :: entries)).sum =
              out + (entries.map (ListEntry.given allocator)).sum +
                blockOf allocator (some block) + data.2.2.blocks allocator := by
            simp only [List.map_cons, List.sum_cons, ListEntry.given, ListEntry.copies, Row.copies,
              Option.map_some, Option.getD_some]
            abel
          rw [hsum]
          exact Triple.bind (out_sormFree allocator data.2.2) fun _ => hrest

/-- The objects of a freed list stay out. -/
theorem out_sormListFree (list : RowList) :
    Triple blockMonitor (Out (out + list.blocks allocator)) (sormListFree allocator (some list))
      fun _ => Out (out + list.objects allocator) := by
  have hsum : out + list.blocks allocator = out + list.objects allocator +
      blockOf allocator (some list.block) +
        (list.entries.map (ListEntry.given allocator)).sum := by
    unfold RowList.blocks
    abel
  rw [hsum]
  exact Triple.bind (out_listFreeEntries allocator list.entries) fun _ => out_free allocator _

theorem out_dropLists (cs : Containers RowList) :
    Triple blockMonitor (Out (out + held (RowList.blocks allocator) (cs.map Prod.snd)))
      (dropLists allocator cs) fun _ =>
        Out (out + held (RowList.objects allocator) (cs.map Prod.snd)) := by
  induction cs generalizing out with
  | nil => exact Triple.pure fun s hs => hs
  | cons tc cs ih =>
      obtain ⟨t, _ | list⟩ := tc
      · rw [List.map_cons, held_none, held_none]
        exact ih
      · have hsum : out + held (RowList.blocks allocator) (((t, some list) :: cs).map Prod.snd) =
            out + held (RowList.blocks allocator) (cs.map Prod.snd) + list.blocks allocator := by
          rw [List.map_cons, held_some]
          abel
        rw [hsum, List.map_cons, held_some, ← add_assoc]
        apply Triple.bind (out_sormListFree allocator list)
        intro _
        rw [add_right_comm]
        exact ih

/-- Of a list that is copied into an array the copies in its rows stay out. -/
theorem out_listCpyFree (list : RowList) (n : ℕ) :
    Triple blockMonitor (Out (out + list.blocks allocator)) (listCpyFree allocator list n)
      fun rows => Out (out + (rows.map (Row.copies allocator)).sum) := by
  have hentries : ∀ (entries : List ListEntry) out, Triple blockMonitor
      (Out (out + (entries.map fun entry => entry.object allocator + entry.given allocator).sum))
      (listCpyFreeEntries allocator entries) fun rows =>
        Out (out + (rows.map (Row.copies allocator)).sum) := by
    intro entries
    induction entries with
    | nil => exact fun out => Triple.pure fun s hs => hs
    | cons entry entries ih =>
        intro out
        unfold listCpyFreeEntries
        have hsum : out + (List.map (fun entry => entry.object allocator + entry.given allocator)
            (entry :: entries)).sum = out + entry.copies allocator + (entries.map fun entry =>
              entry.object allocator + entry.given allocator).sum +
                blockOf allocator (some entry.block) +
                  blockOf allocator (entry.data.map Prod.fst) := by
          simp only [List.map_cons, List.sum_cons, ListEntry.given, ListEntry.object]
          abel
        rw [hsum]
        apply Triple.bind (out_free allocator _)
        intro _
        apply Triple.bind (out_free allocator _)
        intro _
        apply Triple.bind (ih _)
        intro rows
        refine Triple.pure fun s hs => hs.congr ?_
        rw [List.map_append, List.sum_append, ListEntry.copies]
        cases entry.data with
        | none => simp
        | some data =>
            simp only [Option.map_some, Option.toList_some, Option.getD_some, List.map_singleton,
              List.sum_singleton]
            abel
  have hsum : list.blocks allocator = blockOf allocator (some list.block) +
      (list.entries.map fun entry => entry.object allocator + entry.given allocator).sum := by
    rw [List.sum_map_add, RowList.blocks, RowList.objects]
    abel
  unfold listCpyFree
  rw [hsum, ← add_assoc]
  apply Triple.bind (hentries list.entries _)
  intro rows
  split
  · rw [add_right_comm]
    exact Triple.bind (out_free allocator (some list.block)) fun _ => Triple.pure fun s hs => hs
  · exact Triple.stop

end Containers

end Sorm
