import Sorm.SelectLeaks

/-!
# Releasing what a select returned

The caller of a select frees each list with `sorm_list_free` and each array with `sorm_free_array`
and the row count. That gives everything back but the objects of a list, and what the select itself
has lost is lost for good.
-/

namespace Sorm

open Interaction Monitor

def Left.release (allocator : Allocator) (n : ℕ) : Left → Act Unit
  | .rows (.array array) => sormFreeArray allocator n (some array)
  | .rows (.list list) => sormListFree allocator (some list)
  | .untouched | .null => return ()

def releaseAll (allocator : Allocator) (n : ℕ) : List Left → Act Unit
  | [] => return ()
  | left :: lefts => do
      left.release allocator n
      releaseAll allocator n lefts

def Finishes (p : Act Unit) : Prop := ∃ tr, p.Emits tr (.pure ())

section Release

variable {ρ : Type} {f g : ρ → Multiset Block} {Good : ρ → Prop} {out : Multiset Block}

theorem finishes_pure : Finishes (pure ()) := ⟨[], .nil _⟩

theorem Finishes.bind {p q : Act Unit} (hp : Finishes p) (hq : Finishes q) :
    Finishes (do p; q) := by
  obtain ⟨tr, htr⟩ := hp
  obtain ⟨tr', htr'⟩ := hq
  exact ⟨tr ++ tr', (htr.bind fun _ => q).append htr'⟩

theorem finishes_free (allocator : Allocator) (ptr : Option Address) :
    Finishes (free allocator ptr) :=
  ⟨_, @Prog.Emits.cons Call Resp Unit (.free allocator ptr) .pure () [] _ (.nil _)⟩

variable (allocator : Allocator)

/-- `sorm_free` passes its assertions on an object whose marked columns are in the heap. -/
theorem finishes_sormFree {table : TableDescriptor} {obj : Object table} (h : HeapMarked obj) :
    Finishes (sormFree allocator (some obj)) := by
  have hcolumns : ∀ is : List table.Index, Finishes (sormFreeColumns allocator obj is) := by
    intro is
    induction is with
    | nil => exact finishes_pure
    | cons i is ih =>
        unfold sormFreeColumns
        by_cases hfree : sormIsStatNeedfree (obj.getColumnStat i)
        · have hheap : ((table.column i).type = .text ∨ (table.column i).type = .blob) ∧
              (table.column i).mem = .heap := h i hfree
          simp only [hfree, if_true]
          rw [if_pos hheap]
          exact (finishes_free _ _).bind ih
        · simp only [hfree]
          exact finishes_pure.bind ih
  exact hcolumns table.indexes

theorem finishes_sormListFree {list : RowList} (h : list.Marked) :
    Finishes (sormListFree allocator (some list)) := by
  have hentries : ∀ entries : List ListEntry, (∀ entry ∈ entries, ∀ data ∈ entry.data,
      HeapMarked data.2.2) → Finishes (listFreeEntries allocator entries) := by
    intro entries
    induction entries with
    | nil => exact fun _ => finishes_pure
    | cons entry entries ih =>
        intro hmarked
        have hrest := ih fun entry' h' => hmarked entry' (List.mem_cons_of_mem _ h')
        obtain ⟨block, data⟩ := entry
        unfold listFreeEntries
        cases data with
        | none => exact finishes_pure.bind ((finishes_free _ _).bind hrest)
        | some data =>
            have hdata : HeapMarked data.2.2 := hmarked _ List.mem_cons_self data rfl
            exact (finishes_sormFree allocator hdata).bind ((finishes_free _ _).bind hrest)
  exact (hentries list.entries h).bind (finishes_free _ _)

theorem finishes_sormFreeArray {array : RowArray} (h : array.Marked) (n : ℕ) :
    Finishes (sormFreeArray allocator n (some array)) := by
  have hrows : ∀ rows : List Row, (∀ row ∈ rows, HeapMarked row.2) →
      Finishes (sormFreeRows allocator rows) := by
    intro rows
    induction rows with
    | nil => exact fun _ => finishes_pure
    | cons row rows ih =>
        intro hmarked
        have hrest := ih fun row' h' => hmarked row' (List.mem_cons_of_mem _ h')
        exact (finishes_sormFree allocator (hmarked row List.mem_cons_self)).bind hrest
  have htake : ∀ row ∈ array.rows.take n, HeapMarked row.2 :=
    fun row hrow => h row (List.mem_of_mem_take hrow)
  exact (hrows _ htake).bind (finishes_free _ _)

/-- `sorm_free_array` gives everything of an array back. -/
theorem out_sormFreeArray {array : RowArray} {n : ℕ} (h : array.Full n) :
    Triple blockMonitor (Out (out + array.blocks allocator))
      (sormFreeArray allocator n (some array)) fun _ => Out out := by
  have hrows : ∀ (rows : List Row) out, Triple blockMonitor
      (Out (out + (rows.map (Row.copies allocator)).sum)) (sormFreeRows allocator rows)
      fun _ => Out out := by
    intro rows
    induction rows with
    | nil => exact fun out => Triple.pure fun s hs => hs.congr (by simp)
    | cons row rows ih =>
        intro out
        rw [List.map_cons, List.sum_cons, ← add_assoc, add_right_comm]
        exact Triple.bind (out_sormFree allocator row.2) fun _ => ih out
  have hall : array.rows.take n = array.rows := List.take_of_length_le (Nat.le_of_eq h)
  unfold sormFreeArray
  dsimp only
  rw [hall, RowArray.blocks, add_comm (array.copies allocator), ← add_assoc]
  exact Triple.bind (hrows array.rows _) fun _ => out_free allocator _

structure Releases (allocator : Allocator) (n : ℕ) (f g : ρ → Multiset Block) (Good : ρ → Prop)
    (toOutput : ρ → Output) : Prop where
  finishes : ∀ c, Good c → Finishes ((Left.rows (toOutput c)).release allocator n)
  out : ∀ c out, Good c → Triple blockMonitor (Out (out + f c))
    ((Left.rows (toOutput c)).release allocator n) fun _ => Out (out + g c)

theorem releases_array (n : ℕ) : Releases allocator n (RowArray.blocks allocator) (fun _ => 0)
    (fun array => array.Marked ∧ array.Full n) .array where
  finishes array h := finishes_sormFreeArray allocator h.1 n
  out array out h := by
    rw [add_zero]
    exact out_sormFreeArray allocator h.2

theorem releases_list (n : ℕ) : Releases allocator n (RowList.blocks allocator)
    (RowList.objects allocator) RowList.Marked .list where
  finishes _ h := finishes_sormListFree allocator h
  out list _ _ := out_sormListFree allocator list

variable {allocator} {n : ℕ} {toOutput : ρ → Output} {rowsOfTables : List (Option ρ)}

theorem Releases.finishes_all (h : Releases allocator n f g Good toOutput)
    (hgood : ∀ c, some c ∈ rowsOfTables → Good c) :
    Finishes (releaseAll allocator n (rowsOfTables.map (Left.ofRows toOutput))) := by
  induction rowsOfTables with
  | nil => exact finishes_pure
  | cons c cs ih =>
      have hrest := ih fun c' hc' => hgood c' (List.mem_cons_of_mem _ hc')
      cases c with
      | none => exact finishes_pure.bind hrest
      | some c => exact (h.finishes c (hgood c List.mem_cons_self)).bind hrest

theorem Releases.out_all (h : Releases allocator n f g Good toOutput)
    (hgood : ∀ c, some c ∈ rowsOfTables → Good c) :
    Triple blockMonitor (Out (out + held f rowsOfTables))
      (releaseAll allocator n (rowsOfTables.map (Left.ofRows toOutput)))
      fun _ => Out (out + held g rowsOfTables) := by
  induction rowsOfTables generalizing out with
  | nil => exact Triple.pure fun s hs => hs
  | cons c cs ih =>
      have hrest := fun out => @ih out fun c' hc' => hgood c' (List.mem_cons_of_mem _ hc')
      cases c with
      | none =>
          rw [held_none, held_none]
          exact Triple.bind Keeps.pure fun _ => hrest out
      | some c =>
          have hsum : out + held f (some c :: cs) = out + held f cs + f c := by
            rw [held_some]
            abel
          rw [hsum, held_some, ← add_assoc]
          apply Triple.bind (h.out c _ (hgood c List.mem_cons_self))
          intro _
          rw [add_right_comm]
          exact hrest _

end Release

structure HandsOut {ρ : Type} (f g : ρ → Multiset Block) (Good : ρ → Prop) (leaks : Prop)
    (code : SormError) (lost : Multiset Block) (rowsOfTables : List (Option ρ))
    (s : Option (Multiset Block)) : Prop where
  out : Out (held f rowsOfTables + lost) s
  good : code = .ok → ∀ c, some c ∈ rowsOfTables → Good c
  ok : code = .ok → (held g rowsOfTables + lost ≠ 0 ↔ leaks)
  failed : code ≠ .ok → (held f rowsOfTables + lost ≠ 0 ↔ leaks)

/-- What an array select leaves behind: the arrays of a statement that was not finalized, or the
copies in the arrays that were dropped. -/
def ArrayLeaks (ts : List TableSelect) (tr : List SormEvent) (a : SelectAnswers) : Prop :=
  if a.rows ≠ 0 ∧ a.refused = false ∧ a.going then
    a.finalized ≠ some .ok ∧ ∃ t ∈ ts, t.wanted
  else tr.any (copies ts)

section Settling

variable {ρ : Type} {f g : ρ → Multiset Block} {Good : ρ → Prop} {lost : Multiset Block}
  {ts : List TableSelect} {a : SelectAnswers} {s : Option (Multiset Block)} {tr : List SormEvent}
  {allocator : Allocator}

theorem held_ne_zero {rowsOfTables : List (Option ρ)} {c : ρ} (hc : some c ∈ rowsOfTables)
    (hne : f c ≠ 0) : held f rowsOfTables ≠ 0 := fun h => hne (held_eq_zero.mp h c hc)

theorem exists_of_held {rowsOfTables : List (Option ρ)} (h : held f rowsOfTables ≠ 0) :
    ∃ c, some c ∈ rowsOfTables ∧ f c ≠ 0 := by
  by_contra hnone
  refine h (held_eq_zero.mpr fun c hc => ?_)
  by_contra hne
  exact hnone ⟨c, hc, hne⟩

theorem held_zero (rowsOfTables : List (Option ρ)) :
    held (fun _ => (0 : Multiset Block)) rowsOfTables = 0 := held_eq_zero.mpr fun _ _ => rfl

theorem RowArray.blocks_ne_zero (array : RowArray) : array.blocks allocator ≠ 0 := by
  simp [RowArray.blocks, blockOf]

theorem RowList.blocks_ne_zero (list : RowList) : list.blocks allocator ≠ 0 := by
  simp [RowList.blocks, blockOf]

theorem RowList.Full.objects_ne_zero {list : RowList} {n : ℕ} (h : list.Full n) (hn : n ≠ 0) :
    list.objects allocator ≠ 0 := by
  obtain ⟨hlength, hdata⟩ := h
  cases hentries : list.entries with
  | nil =>
      rw [hentries] at hlength
      exact absurd hlength.symm hn
  | cons entry entries =>
      obtain ⟨data, hentry⟩ := Option.isSome_iff_exists.mp
        (hdata entry (hentries ▸ List.mem_cons_self))
      simp [RowList.objects, hentries, ListEntry.object, hentry, blockOf]

theorem selectedTables_length {columnsName : Option CString} {tables : SelectTables}
    {wants : List Bool} : (selectedTables columnsName tables wants).length ≤ wants.length := by
  by_contra hlt
  have hwant := selectedTables_wants (List.getElem?_eq_getElem (Nat.lt_of_not_le hlt))
  rw [List.getElem?_eq_none (Nat.le_refl _)] at hwant
  cases hwant

/-- A select from one table. -/
theorem selectedTables_single {columnsName : Option CString} {tableDesc : TableDescriptor}
    {getRow : Bool} (hts : ts = selectedTables columnsName (.single tableDesc) [getRow]) :
    ts = [] ∨ ∃ t, ts = [t] ∧ t.tableDesc = tableDesc ∧ t.isTableSelect = getRow := by
  have hlength : ts.length ≤ [getRow].length := hts ▸ selectedTables_length
  cases hcases : ts with
  | nil => exact Or.inl rfl
  | cons t rest =>
      have hget : (selectedTables columnsName (.single tableDesc) [getRow])[0]? = some t := by
        rw [← hts, hcases]
        rfl
      have hdesc := selectedTables_desc hget
      have hwant := selectedTables_wants hget
      rw [hcases] at hlength
      have hrest : rest = [] := List.eq_nil_of_length_eq_zero (by simpa using hlength)
      exact Or.inr ⟨t, by rw [hrest], (Option.some.inj hdesc).symm, (Option.some.inj hwant).symm⟩

theorem not_wanted_of_single {columnsName : Option CString} {tableDesc : TableDescriptor}
    (hts : ts = selectedTables columnsName (.single tableDesc) [false]) : ∀ t ∈ ts, ¬ t.wanted := by
  intro t ht hw
  have hselect : t.isTableSelect = true := (Bool.and_eq_true_iff.mp hw).2
  obtain rfl | ⟨t', rfl, -, hnot⟩ := selectedTables_single hts
  · exact absurd ht List.not_mem_nil
  · rw [List.mem_singleton.mp ht, hnot] at hselect
    cases hselect

theorem Answered.length {Full : ℕ → ρ → Prop} {room : Prop} {B : ℕ → Prop} {selected : Selected ρ}
    (h : Answered Full room B ts selected a) (hcode : selected.code = .ok) :
    selected.rowsOfTables.length = ts.length :=
  (h.rows (h.code.mp hcode).1).2.2.length_eq

/-- What is handed out when rows are delivered. -/
theorem Answered.handed {Full : ℕ → ρ → Prop} {room : Prop} {B : ℕ → Prop} {selected : Selected ρ}
    (h : Answered Full room B ts selected a) {c : ρ} (hc : some c ∈ selected.rowsOfTables) :
    a.Delivers room ∧ Full a.rows c ∧ ∃ t ∈ ts, t.wanted := by
  have hdel : a.Delivers room := by
    by_contra hdel
    exact absurd (h.nothing hdel _ hc) (by simp)
  obtain ⟨-, -, hfull⟩ := h.rows hdel
  obtain ⟨i, hi⟩ := List.mem_iff_getElem?.mp hc
  obtain ⟨t, ht, hrows⟩ := forall₂_getElem? hfull.flip hi
  have hrow : if t.wanted then ∃ c', some c = some c' ∧ Full a.rows c' else some c = none := hrows
  by_cases hw : t.wanted
  · rw [if_pos hw] at hrow
    obtain ⟨c', hc', hfull'⟩ := hrow
    cases hc'
    exact ⟨hdel, hfull', t, List.mem_of_getElem? ht, hw⟩
  · rw [if_neg hw] at hrow
    cases hrow

/-- Every wanted table is handed out when rows are delivered. -/
theorem Answered.hands {Full : ℕ → ρ → Prop} {room : Prop} {B : ℕ → Prop} {selected : Selected ρ}
    (h : Answered Full room B ts selected a) (hdel : a.Delivers room)
    (hw : ∃ t ∈ ts, t.wanted) : ∃ c, some c ∈ selected.rowsOfTables := by
  obtain ⟨-, -, hfull⟩ := h.rows hdel
  obtain ⟨t, ht, hw⟩ := hw
  obtain ⟨i, hi⟩ := List.mem_iff_getElem?.mp ht
  obtain ⟨c, hc, hrows⟩ := forall₂_getElem? hfull hi
  rw [if_pos hw] at hrows
  obtain ⟨c, rfl, -⟩ := hrows
  exact ⟨c, List.mem_of_getElem? hc⟩

theorem head?_join_of_none {cs : List (Option ρ)} (h : ∀ c ∈ cs, c = none) :
    cs.head?.join = none := by
  cases cs with
  | nil => rfl
  | cons c cs => exact h c List.mem_cons_self

theorem Answered.none_of_unwanted {Full : ℕ → ρ → Prop} {room : Prop} {B : ℕ → Prop}
    {selected : Selected ρ} (h : Answered Full room B ts selected a) (hnot : ∀ t ∈ ts, ¬ t.wanted) :
    ∀ c ∈ selected.rowsOfTables, c = none := by
  intro c hc
  cases c with
  | none => rfl
  | some c =>
      obtain ⟨-, -, t, ht, hw⟩ := h.handed hc
      exact absurd hw (hnot t ht)

/-- An array select; `n` is what its caller takes for the row count. -/
theorem handsOut_array {B : ℕ → Prop} {selected : Selected RowArray} {n : ℕ}
    (hn : selected.code = .ok → n = a.rows)
    (haccounted : Accounted (RowArray.blocks allocator) (RowArray.copies allocator) RowArray.Marked
      (tr.any (copies ts) = true) 0 lost selected.rowsOfTables s)
    (h : Answered RowArray.Full True B ts selected a) :
    HandsOut (RowArray.blocks allocator) (fun _ => 0)
      (fun array => array.Marked ∧ array.Full n) (ArrayLeaks ts tr a) selected.code lost
      selected.rowsOfTables s := by
  have hdelivers : a.Delivers True ↔ a.rows ≠ 0 ∧ a.refused = false ∧ a.going := by
    unfold SelectAnswers.Delivers
    rw [and_true]
  have hlost : a.Delivers True → lost = 0 := by
    intro hdel
    by_contra hlost
    have hcopied := haccounted.needed.mp fun h => hlost (add_eq_zero.mp h).2
    obtain ⟨e, -, he⟩ := List.any_eq_true.mp hcopied
    obtain ⟨c, hc⟩ := h.hands hdel (wanted_of_copies he)
    exact absurd (haccounted.apart hlost _ hc) (by simp)
  have hout := haccounted.out
  rw [zero_add] at hout
  refine ⟨hout, fun hcode c hc => ⟨haccounted.good c hc, ?_⟩, fun hcode => ?_, fun hcode => ?_⟩
  · rw [hn hcode]
    exact (h.handed hc).2.1
  · obtain ⟨hdel, hfinalized⟩ := h.code.mp hcode
    rw [held_zero, zero_add, ArrayLeaks, if_pos (hdelivers.mp hdel), hlost hdel]
    exact iff_of_false (not_not_intro rfl) fun hnot => hnot.1 hfinalized
  · by_cases hdel : a.Delivers True
    · have hfinalized : a.finalized ≠ some .ok := fun hok => hcode (h.code.mpr ⟨hdel, hok⟩)
      rw [ArrayLeaks, if_pos (hdelivers.mp hdel), hlost hdel, add_zero]
      constructor
      · intro hheld
        obtain ⟨c, hc, -⟩ := exists_of_held hheld
        exact ⟨hfinalized, (h.handed hc).2.2⟩
      · rintro ⟨-, hw⟩
        obtain ⟨array, harray⟩ := h.hands hdel hw
        exact held_ne_zero harray array.blocks_ne_zero
    · have hnone := h.nothing hdel
      have hneeded := haccounted.needed
      rw [held_of_none hnone, zero_add] at hneeded
      rw [ArrayLeaks, if_neg (mt hdelivers.mpr hdel), held_of_none hnone, zero_add]
      exact hneeded

section Lists

variable {B : ℕ → Prop} {selected : Selected RowList}
  (haccounted : Accounted (RowList.blocks allocator) (RowList.objects allocator) RowList.Marked
    (LosesObjects ts a) 0 lost selected.rowsOfTables s)
  (h : Answered RowList.Full (Roomy ts) B ts selected a)

include haccounted h

/-- A list that is handed out has objects, if it has anything. -/
theorem held_lists : held (RowList.blocks allocator) selected.rowsOfTables + lost ≠ 0 ↔
    LosesObjects ts a := by
  rw [← haccounted.needed, ne_eq, ne_eq, add_eq_zero, add_eq_zero]
  refine not_congr (and_congr_left fun _ => ⟨fun hblocks => ?_, fun hobjects => ?_⟩)
  · by_contra hne
    obtain ⟨list, hlist, -⟩ := exists_of_held hne
    exact held_ne_zero hlist list.blocks_ne_zero hblocks
  · by_contra hne
    obtain ⟨list, hlist, -⟩ := exists_of_held hne
    obtain ⟨hdel, hfull, -⟩ := h.handed hlist
    exact held_ne_zero hlist (hfull.objects_ne_zero hdel.1) hobjects

theorem handsOut_list : HandsOut (RowList.blocks allocator) (RowList.objects allocator)
    RowList.Marked (LosesObjects ts a) selected.code lost selected.rowsOfTables s := by
  have hout := haccounted.out
  rw [zero_add] at hout
  exact ⟨hout, fun _ => haccounted.good, fun _ => haccounted.needed,
    fun _ => held_lists haccounted h⟩

/-- When lists are handed out the select itself has lost nothing. -/
theorem lost_of_delivers (hdel : a.Delivers (Roomy ts)) : lost = 0 := by
  by_contra hlost
  obtain ⟨-, t, ht, -⟩ := haccounted.needed.mp fun h => hlost (add_eq_zero.mp h).2
  obtain ⟨list, hlist⟩ := h.hands hdel ⟨t, List.mem_of_find?_eq_some ht, List.find?_some ht⟩
  exact absurd (haccounted.apart hlost _ hlist) (by simp)

end Lists

/-- What a monitor tells by itself it tells beside the ledger. -/
theorem triple_also {α σ : Type} {N : Monitor Resp σ} {P : Option (Multiset Block) → Prop}
    {P' : σ → Prop} {p : Act α} {Q : α → Option (Multiset Block) × σ → Prop} {Q' : α → σ → Prop}
    (h : Triple (blockMonitor.prod N) (fun s => P s.1 ∧ P' s.2) p Q) (h' : Triple N P' p Q') :
    Triple (blockMonitor.prod N) (fun s => P s.1 ∧ P' s.2) p fun a s => Q a s ∧ Q' a s.2 := by
  refine (h.and ((keeps_true p).prod h')).mono ?_ ?_
  · exact fun s hs => ⟨hs, trivial, hs.2⟩
  · exact fun a s hs => ⟨hs.1, hs.2.2⟩

def ListSelected (allocator : Allocator) (ts : List TableSelect) (selected : Selected RowList)
    (s : Option (Multiset Block) × SelectAnswers) : Prop :=
  (∃ lost, Accounted (RowList.blocks allocator) (RowList.objects allocator) RowList.Marked
    (LosesObjects ts s.2) 0 lost selected.rowsOfTables s.1) ∧
    Answered RowList.Full (Roomy ts) (fun _ => True) ts selected s.2

section Lists

variable {conn : Option Connection} {columnsName filter : Option CString} {tables : SelectTables}
  {rowsNum : Option ℤ} {wants : List Bool} (hts : ts = selectedTables columnsName tables wants)

include hts

theorem selected_someList :
    Triple (blockMonitor.prod (answersMonitor (refuses ts))) (fun s => Out 0 s.1 ∧ s.2 = .start)
      (sormSelectSomeListBy conn allocator tables columnsName filter rowsNum wants)
      (ListSelected allocator ts) :=
  triple_also (accounted_list hts fun _ conn h n => accounted_someListCore conn allocator h n)
    (answers_someList allocator hts)

theorem selected_allList (rounds : ℕ) :
    Triple (blockMonitor.prod (answersMonitor (refuses ts))) (fun s => Out 0 s.1 ∧ s.2 = .start)
      (sormSelectAllListBy rounds conn allocator tables columnsName filter rowsNum wants)
      (ListSelected allocator ts) :=
  triple_also (accounted_list hts fun _ conn h n => accounted_allListCore conn allocator h rounds n)
    (answers_allList allocator rounds hts)

end Lists

def AllArrayLeaks (ts : List TableSelect) (a : SelectAnswers) : Prop :=
  LosesObjects ts a ∧ ¬ (a.Delivers (Roomy ts) ∧ a.finalized = some .ok ∧ Fits a.rows ts)

def HandsOutAllArray (allocator : Allocator) (ts : List TableSelect) (m : ℕ)
    (selected : Selected RowArray) (s : Option (Multiset Block) × SelectAnswers) : Prop :=
  (selected.code = .ok → selected.rowsOfTables.length ≤ m) ∧
    ∃ lost, HandsOut (RowArray.blocks allocator) (fun _ => 0)
      (fun array => array.Marked ∧ array.Full (selected.rowsNum.getD 0)) (AllArrayLeaks ts s.2)
      selected.code lost selected.rowsOfTables s.1

section AllArrays

variable {selected : Selected RowList} {B : ℕ → Prop} {rowsNum : Option ℕ}
  {rowsOfTables : List (Option RowArray)} {code : SormError} {m : ℕ}

/-- Nothing is handed out and the lists are gone, or given up. -/
theorem handsOut_nothing (hcode : code ≠ .ok) (hnone : ∀ c ∈ rowsOfTables, c = none)
    (hout : Out lost s) (hleaks : lost ≠ 0 ↔ AllArrayLeaks ts a) :
    HandsOutAllArray allocator ts m ⟨code, rowsNum, rowsOfTables⟩ (s, a) := by
  refine ⟨fun h => absurd h hcode, lost, ?_, fun h => absurd h hcode, fun h => absurd h hcode,
    fun _ => ?_⟩
  · rw [held_of_none hnone, zero_add]
    exact hout
  · rw [held_of_none hnone, zero_add]
    exact hleaks

/-- The lists were not delivered. -/
theorem handsOut_undelivered
    (haccounted : Accounted (RowList.blocks allocator) (RowList.objects allocator) RowList.Marked
      (LosesObjects ts a) 0 lost selected.rowsOfTables s)
    (h : Answered RowList.Full (Roomy ts) B ts selected a) (hcode : selected.code ≠ .ok)
    (hnone : ∀ c ∈ rowsOfTables, c = none) :
    HandsOutAllArray allocator ts m ⟨selected.code, rowsNum, rowsOfTables⟩ (s, a) := by
  have hout := haccounted.out
  rw [zero_add] at hout
  refine handsOut_nothing hcode hnone hout ((held_lists haccounted h).trans ?_)
  exact (and_iff_left fun hdel => hcode (h.code.mpr ⟨hdel.1, hdel.2.1⟩)).symm

theorem allArrayLeaks_of_not_fits (hdel : a.Delivers (Roomy ts)) (hnot : ¬ Fits a.rows ts) :
    AllArrayLeaks ts a := by
  have hw : ∃ t ∈ ts, t.wanted := by
    by_contra hnone
    exact hnot fun t ht hw => absurd ⟨t, ht, hw⟩ hnone
  obtain ⟨t, ht⟩ := Option.isSome_iff_exists.mp (List.find?_isSome.mpr hw)
  have hroomy := hdel.2.2.2 t (List.mem_of_find?_eq_some ht) (List.find?_some ht)
  exact ⟨⟨hdel.1, t, ht, hroomy⟩, fun hfits => hnot hfits.2.2⟩

/-- The arrays that the lists were turned into. -/
theorem handsOut_arrays (hcode : code = .ok)
    (hdel : a.Delivers (Roomy ts)) (hfinalized : a.finalized = some .ok) (hfits : Fits a.rows ts)
    (hout : Out (held (RowArray.blocks allocator) rowsOfTables) s)
    (hgood : ∀ c, some c ∈ rowsOfTables → c.Marked ∧ c.Full a.rows) (hm : rowsOfTables.length ≤ m) :
    HandsOutAllArray allocator ts m ⟨code, some a.rows, rowsOfTables⟩ (s, a) := by
  refine ⟨fun _ => hm, 0, ?_, fun _ => hgood, fun _ => ?_, fun h => absurd hcode h⟩
  · rw [add_zero]
    exact hout
  · rw [held_zero, add_zero]
    exact iff_of_false (not_not_intro rfl) fun h => h.2 ⟨hdel, hfinalized, hfits⟩

/-- Without a container there was no wanted table. -/
theorem not_losesObjects (h : Answered RowList.Full (Roomy ts) B ts selected a)
    (hdel : a.Delivers (Roomy ts)) (hnone : ∀ c ∈ selected.rowsOfTables, c = none) :
    ¬ LosesObjects ts a := by
  rintro ⟨-, t, ht, -⟩
  obtain ⟨list, hlist⟩ := h.hands hdel ⟨t, List.mem_of_find?_eq_some ht, List.find?_some ht⟩
  exact absurd (hnone _ hlist) (by simp)

end AllArrays

section Copying

variable (out : Multiset Block)

/-- A list that is copied into an array of as many rows. -/
theorem settled_listCpyFree {list : RowList} {n : ℕ} (hfull : list.Full n) (hmarked : list.Marked)
    (block : Address) :
    Triple (blockMonitor.prod (answersMonitor (refuses ts)))
      (fun s => Out (out + blockOf allocator (some block) + list.blocks allocator) s.1 ∧ s.2 = a)
      (listCpyFree allocator list n) fun rows s =>
        Out (out + RowArray.blocks allocator ⟨block, rows⟩) s.1 ∧ s.2 = a ∧
          RowArray.Marked ⟨block, rows⟩ ∧ RowArray.Full n ⟨block, rows⟩ := by
  have hblocks : Triple blockMonitor
      (Out (out + blockOf allocator (some block) + list.blocks allocator))
      (listCpyFree allocator list n) fun rows =>
        Out (out + blockOf allocator (some block) + (rows.map (Row.copies allocator)).sum) :=
    out_listCpyFree allocator list n
  refine (hblocks.prod (answers_listCpyFree (P := (· = a)) allocator list n)).post ?_
  rintro rows s ⟨hout, ha, rfl⟩
  refine ⟨hout.congr ?_, ha, fun row hrow => ?_, hfull.length_rows⟩
  · rw [RowArray.blocks, RowArray.copies]
    abel
  · obtain ⟨entry, hentry, hdata⟩ := List.mem_filterMap.mp hrow
    cases hentrydata : entry.data with
    | none =>
        rw [hentrydata] at hdata
        cases hdata
    | some data =>
        rw [hentrydata] at hdata
        cases hdata
        exact hmarked entry hentry data hentrydata

theorem settled_sormNewArray (tableDesc : TableDescriptor) {n : ℕ} (hn : n ≠ 0) :
    Triple (blockMonitor.prod (answersMonitor (refuses ts))) (fun s => Out out s.1 ∧ s.2 = a)
      (sormNewArray allocator tableDesc n) fun block s =>
        Out (out + blockOf allocator block) s.1 ∧ s.2 = a ∧
          (block.isSome ↔ mulSizeT tableDesc.size n ≠ 0) :=
  (out_sormNewArray allocator tableDesc n).prod
    (answers_sormNewArray (P := (· = a)) allocator tableDesc hn)

/-- The lists that are turned into arrays: those that came too late stay out. -/
theorem settled_listsToArrays {n : ℕ} (hn : n ≠ 0)
    {cs : List (TableDescriptor × Option RowList)}
    (hfull : ∀ table list, (table, some list) ∈ cs → list.Full n ∧ list.Marked) :
    Triple (blockMonitor.prod (answersMonitor (refuses ts)))
      (fun s => Out (out + held (RowList.blocks allocator) (cs.map Prod.snd)) s.1 ∧ s.2 = a)
      (listsToArrays allocator n cs) fun r s => ∃ rest,
        Out (out + held (RowArray.blocks allocator) r.2 + rest) s.1 ∧ s.2 = a ∧
          (rest ≠ 0 ↔ r.1 = false) ∧ ∀ array, some array ∈ r.2 → array.Marked ∧ array.Full n := by
  induction cs generalizing out with
  | nil =>
      refine Triple.pure fun s hs => ⟨0, hs.1.congr (add_zero _).symm, hs.2, ?_, ?_⟩
      · exact iff_of_false (not_not_intro rfl) Bool.noConfusion
      · exact fun array harray => absurd harray List.not_mem_nil
  | cons c cs ih =>
      have hrest := fun out =>
        ih out fun table list h => hfull table list (List.mem_cons_of_mem _ h)
      obtain ⟨table, _ | list⟩ := c
      · unfold listsToArrays
        rw [List.map_cons, held_none]
        apply Triple.bind (hrest out)
        rintro ⟨ok, rest⟩
        apply Triple.pure
        rintro s ⟨left, hout, ha, hleft, hgood⟩
        refine ⟨left, ?_, ha, hleft, ?_⟩
        · rw [held_none]
          exact hout
        · intro array harray
          exact hgood array (List.mem_of_ne_of_mem (by simp) harray)
      · obtain ⟨hlist, hmarked⟩ := hfull table list List.mem_cons_self
        unfold listsToArrays
        rw [List.map_cons, held_some]
        apply Triple.bind (settled_sormNewArray _ table hn)
        intro block
        cases block with
        | none =>
            apply Triple.pure
            rintro s ⟨hout, ha, _⟩
            refine ⟨list.blocks allocator +
              held (RowList.blocks allocator) (cs.map Prod.snd), ?_, ha, ?_, ?_⟩
            · rw [held_none, held_map_none, add_zero]
              rw [blockOf, add_zero] at hout
              exact hout
            · refine iff_of_true (fun h => ?_) rfl
              exact list.blocks_ne_zero (add_eq_zero.mp h).1
            · intro array harray
              rcases List.mem_cons.mp harray with h | h
              · cases h
              · obtain ⟨_, _, h⟩ := List.mem_map.mp h
                cases h
        | some block =>
            rintro s ⟨hout, ha, -⟩
            refine (Triple.bind (settled_listCpyFree (out + held (RowList.blocks allocator)
              (cs.map Prod.snd)) hlist hmarked block) ?_) s ⟨hout.congr (by abel), ha⟩
            rintro rows s ⟨hout, ha, hgood⟩
            refine (Triple.bind (hrest (out + RowArray.blocks allocator ⟨block, rows⟩)) ?_) s
              ⟨hout.congr (by abel), ha⟩
            rintro ⟨ok, arrays⟩
            apply Triple.pure
            rintro s ⟨left, hout, ha, hleft, hrows⟩
            refine ⟨left, ?_, ha, hleft, ?_⟩
            · rw [held_some, ← add_assoc]
              exact hout
            · intro array harray
              rcases List.mem_cons.mp harray with h | h
              · cases h
                exact hgood
              · exact hrows array h

end Copying

section Selects

variable {conn : Option Connection} {columnsName filter : Option CString} {tables : SelectTables}
  {rowsNum : Option ℤ} {wants : List Bool}

/-- There is no room for the array of the list, which is freed. -/
theorem handsOut_noRoom {list : RowList} (hfull : list.Full a.rows) (hdel : a.Delivers (Roomy ts))
    (hnot : ¬ Fits a.rows ts) (rowsNum : Option ℕ) :
    Triple (blockMonitor.prod (answersMonitor (refuses ts)))
      (fun s => Out (list.blocks allocator) s.1 ∧ s.2 = a)
      (do sormListFree allocator (some list)
          return ⟨.nomem, rowsNum, [none]⟩ : Act (Selected RowArray))
      (HandsOutAllArray allocator ts 1) := by
  have hfree : Triple blockMonitor (Out (0 + list.blocks allocator))
      (sormListFree allocator (some list)) fun _ => Out (0 + list.objects allocator) :=
    out_sormListFree allocator list
  rw [zero_add, zero_add] at hfree
  apply Triple.bind (hfree.prod (keeps_sormListFree
    (answers_isLocal (P := (· = a))) allocator (some list)))
  rintro _ ⟨s, a'⟩ ⟨hout, ha⟩
  dsimp only at hout ha
  subst ha
  refine handsOut_nothing SormError.noConfusion (fun c hc => List.mem_singleton.mp hc) hout ?_
  exact iff_of_true (hfull.objects_ne_zero hdel.1) (allArrayLeaks_of_not_fits hdel hnot)

/-- The list is turned into the array. -/
theorem handsOut_copied {list : RowList} (hfull : list.Full a.rows) (hmarked : list.Marked)
    (hdel : a.Delivers (Roomy ts)) (hfinalized : a.finalized = some .ok) (hfits : Fits a.rows ts)
    (block : Address) :
    Triple (blockMonitor.prod (answersMonitor (refuses ts)))
      (fun s => Out (list.blocks allocator + blockOf allocator (some block)) s.1 ∧ s.2 = a)
      (do let rows ← listCpyFree allocator list a.rows
          return ⟨.ok, some a.rows, [some ⟨block, rows⟩]⟩ : Act (Selected RowArray))
      (HandsOutAllArray allocator ts 1) := by
  have hcopied : Triple (blockMonitor.prod (answersMonitor (refuses ts)))
      (fun s => Out (list.blocks allocator + blockOf allocator (some block)) s.1 ∧ s.2 = a) _ _ :=
    (settled_listCpyFree (a := a) 0 hfull hmarked block).mono
      (fun s hs => ⟨hs.1.congr (by abel), hs.2⟩) fun _ _ hs => hs
  apply Triple.bind hcopied
  rintro rows ⟨s, a'⟩ ⟨hout, ha, hgood⟩
  dsimp only at hout ha
  subst ha
  refine handsOut_arrays rfl hdel hfinalized hfits ?_ ?_ (Nat.le_refl 1)
  · rw [held_some, held_nil, add_zero]
    exact hout.congr (zero_add _)
  · intro c hc
    cases List.mem_singleton.mp hc
    exact hgood

/-- `sorm_select_all_array_by` -/
theorem handsOut_allArrayBy (rounds : ℕ) (tableDesc : TableDescriptor) (getRow : Bool)
    (hts : ts = selectedTables columnsName (.single tableDesc) [getRow]) :
    Triple (blockMonitor.prod (answersMonitor (refuses ts))) (fun s => Out 0 s.1 ∧ s.2 = .start)
      (sormSelectAllArrayBy rounds conn allocator tableDesc columnsName filter rowsNum getRow)
      (HandsOutAllArray allocator ts 1) := by
  have hone : ∀ c ∈ [(none : Option RowArray)], c = none := fun c hc => List.mem_singleton.mp hc
  apply Triple.bind (selected_allList hts rounds)
  rintro ⟨code, num, rowsOfTables⟩ ⟨s, a⟩ ⟨⟨lost, haccounted⟩, hanswered⟩
  dsimp only at haccounted hanswered ⊢
  by_cases hcode : code = .ok
  · subst hcode
    obtain ⟨hdel, hfinalized⟩ := hanswered.code.mp rfl
    obtain ⟨-, hnum, hfull⟩ := hanswered.rows hdel
    obtain rfl := lost_of_delivers haccounted hanswered hdel
    have hout := haccounted.out
    dsimp only at hnum hfull hout
    rw [zero_add, add_zero] at hout
    subst hnum
    have hn := hdel.1
    simp only [ne_eq, not_true_eq_false, if_false, Option.getD_some, hn]
    cases getRow with
    | false =>
        have hunwanted := not_wanted_of_single hts
        rw [held_of_none (hanswered.none_of_unwanted hunwanted)] at hout
        refine handsOut_arrays rfl hdel hfinalized (fun t ht hw => absurd hw (hunwanted t ht))
          hout ?_ (Nat.le_refl 1)
        intro c hc
        cases hone _ hc
    | true =>
        rw [if_pos rfl]
        refine (Triple.bind (settled_sormNewArray _ tableDesc hn) ?_) (s, a) ⟨hout, rfl⟩
        rintro block ⟨s', a'⟩ ⟨hout', ha, hblock⟩
        dsimp only at hout' ha hblock ⊢
        subst ha
        by_cases hw : ∃ t ∈ ts, t.wanted
        · obtain ⟨t', ht', hw⟩ := hw
          obtain rfl | ⟨t, rfl, hdesc, -⟩ := selectedTables_single hts
          · exact absurd ht' List.not_mem_nil
          obtain rfl := List.mem_singleton.mp ht'
          have hfits : Fits a'.rows [t'] ↔ block.isSome := by
            rw [Fits, List.forall_mem_singleton, TableSelect.HoldsRows, hdesc, hblock]
            exact ⟨fun h => h hw, fun h _ => h⟩
          obtain ⟨c, rest, hc, hrest, rfl⟩ := List.forall₂_cons_right_iff.mp hfull
          obtain rfl := List.forall₂_nil_right_iff.mp hrest
          rw [if_pos hw] at hc
          obtain ⟨list, rfl, hlist⟩ := hc
          rw [held_some, held_nil, add_zero] at hout'
          cases block with
          | none =>
              have hnot : ¬ Fits a'.rows [t'] := fun h => Bool.false_ne_true (hfits.mp h)
              exact handsOut_noRoom hlist hdel hnot _ (s', a')
                ⟨hout'.congr (add_zero _), rfl⟩
          | some block =>
              have hmarked := haccounted.good list List.mem_cons_self
              exact handsOut_copied hlist hmarked hdel hfinalized (hfits.mpr rfl) block (s', a')
                ⟨hout', rfl⟩
        · have hnone : ∀ c ∈ rowsOfTables, c = none :=
            hanswered.none_of_unwanted fun t ht hwanted => hw ⟨t, ht, hwanted⟩
          rw [head?_join_of_none hnone]
          cases block with
          | some block => exact trivial
          | none =>
              rw [held_of_none hnone, zero_add, blockOf] at hout'
              refine handsOut_nothing SormError.noConfusion hone hout' ?_
              exact iff_of_false (not_not_intro rfl) fun hleaks =>
                not_losesObjects hanswered hdel hnone hleaks.1
  · rw [if_pos hcode]
    exact handsOut_undelivered haccounted hanswered hcode hone

/-- The lists of a join with their tables. -/
theorem forall₂_zip {n : ℕ} {tablesDesc : List TableDescriptor}
    {rowsOfTables : List (Option RowList)}
    (hdesc : ∀ (i : ℕ) (t : TableSelect), ts[i]? = some t → tablesDesc[i]? = some t.tableDesc)
    (hfull : List.Forall₂ (fun c t => if t.wanted then ∃ c', c = some c' ∧ RowList.Full n c'
      else c = none) rowsOfTables ts) :
    List.Forall₂ (fun c t => c.1 = t.tableDesc ∧
      if t.wanted then ∃ list, c.2 = some list ∧ list.Full n else c.2 = none)
      (tablesDesc.zip rowsOfTables) ts ∧
      (tablesDesc.zip rowsOfTables).map Prod.snd = rowsOfTables := by
  induction hfull generalizing tablesDesc with
  | nil =>
      rw [List.zip_nil_right]
      exact ⟨.nil, rfl⟩
  | @cons c t rowsOfTables ts hc _ ih =>
      cases tablesDesc with
      | nil => cases hdesc 0 t rfl
      | cons tableDesc tablesDesc =>
          have hfirst := hdesc 0 t rfl
          cases hfirst
          obtain ⟨hrest, hsnd⟩ := ih fun i t hi => hdesc (i + 1) t hi
          refine ⟨.cons ⟨rfl, hc⟩ hrest, ?_⟩
          rw [List.zip_cons_cons, List.map_cons, hsnd]

/-- `sorm_select_all_array_by_join` -/
theorem handsOut_allArrayByJoin (rounds : ℕ) (hts : ts = selectedTables columnsName tables wants) :
    Triple (blockMonitor.prod (answersMonitor (refuses ts))) (fun s => Out 0 s.1 ∧ s.2 = .start)
      (sormSelectAllArrayByJoin rounds conn allocator tables columnsName filter rowsNum wants)
      (HandsOutAllArray allocator ts wants.length) := by
  have hnone : ∀ c ∈ tables.tablesDesc.map fun _ => (none : Option RowArray), c = none := by
    intro c hc
    obtain ⟨_, _, rfl⟩ := List.mem_map.mp hc
    rfl
  apply Triple.bind (selected_allList hts rounds)
  rintro ⟨code, num, rowsOfTables⟩ ⟨s, a⟩ ⟨⟨lost, haccounted⟩, hanswered⟩
  dsimp only at haccounted hanswered ⊢
  by_cases hcode : code = .ok
  · subst hcode
    obtain ⟨hdel, hfinalized⟩ := hanswered.code.mp rfl
    obtain ⟨-, hnum, hfull⟩ := hanswered.rows hdel
    obtain rfl := lost_of_delivers haccounted hanswered hdel
    have hout := haccounted.out
    dsimp only at hnum hfull hout
    rw [zero_add, add_zero] at hout
    subst hnum
    have hn := hdel.1
    simp only [ne_eq, not_true_eq_false, if_false, Option.getD_some]
    obtain ⟨hcs, hsnd⟩ := forall₂_zip (fun i t hi => selectedTables_desc (hts ▸ hi)) hfull
    have hlists : ∀ table list, (table, some list) ∈ tables.tablesDesc.zip rowsOfTables →
        list.Full a.rows ∧ list.Marked := by
      intro table list hc
      have hmem := (List.of_mem_zip hc).2
      exact ⟨(hanswered.handed hmem).2.1, haccounted.good list hmem⟩
    have hconverted : Triple (blockMonitor.prod (answersMonitor (refuses ts)))
        (fun s => True ∧ s.2 = a)
        (listsToArrays allocator a.rows (tables.tablesDesc.zip rowsOfTables)) fun r s =>
          True ∧ s.2 = a ∧ Converted a.rows ts r :=
      (keeps_true _).prod (answers_listsToArrays (P := (· = a)) allocator hn hcs)
    refine (Triple.bind ((settled_listsToArrays 0 hn hlists).and hconverted) ?_) (s, a)
      ⟨⟨hout.congr (by rw [hsnd, zero_add]), rfl⟩, trivial, rfl⟩
    rintro ⟨ok, arrays⟩ ⟨s', a'⟩ ⟨⟨rest, hout', ha, hrest, hgood⟩, -, -, hfits⟩
    dsimp only at hout' ha hrest hgood hfits ⊢
    subst ha
    rw [zero_add] at hout'
    have hok := hfits.ok
    dsimp only at hok
    cases ok with
    | true =>
        have hnothing : rest = 0 := by
          by_contra hne
          cases hrest.mp hne
        rw [hnothing, add_zero] at hout'
        refine handsOut_arrays rfl hdel hfinalized (hok.mp rfl) hout' hgood ?_
        rw [hfits.length, hts]
        exact selectedTables_length
    | false =>
        have hnot : ¬ Fits a'.rows ts := fun h => Bool.false_ne_true (hok.mpr h)
        refine ⟨fun h => absurd h SormError.noConfusion, rest, hout',
          fun h => absurd h SormError.noConfusion, fun h => absurd h SormError.noConfusion,
          fun _ => ?_⟩
        refine iff_of_true (fun h => ?_) (allArrayLeaks_of_not_fits hdel hnot)
        exact hrest.mpr rfl (add_eq_zero.mp h).2
  · rw [if_pos hcode]
    exact handsOut_undelivered haccounted hanswered hcode hnone

end Selects

end Settling

def RowsCall.rowCount (c : RowsCall) (r : Outputs) : ℕ :=
  match c with
  | oneByColumn .. => 1
  | _ => r.rowsNum.getD 0

def RowsCall.release (c : RowsCall) (r : Outputs) : Act Unit :=
  releaseAll c.request.allocator (c.rowCount r)
    ((List.range c.request.tables.wants.length).map r.output)

/-- After an error nothing is out, and otherwise nothing is once the caller has released what he
got. -/
def RowsCall.Released (c : RowsCall) (tr : List SormEvent) (r : Outputs) : Prop :=
  if r.code = .ok then
    ∃ tr', (c.release r).Emits tr' (.pure ()) ∧ ledger (tr ++ tr') = some 0
  else ledger tr = some 0

/-- The answers after which blocks are left behind. -/
def RowsCall.Leaks (c : RowsCall) (tr : List SormEvent) : Prop :=
  let ts := c.request.selects
  let a := c.request.told tr
  match c with
  | someArray .. | oneByColumn .. => ArrayLeaks ts tr a
  | someList .. | allList .. => LosesObjects ts a
  | allArray .. => AllArrayLeaks ts a

section Outcome

variable {ρ : Type} {f g : ρ → Multiset Block} {Good : ρ → Prop} {leaks : Prop}
  {lost : Multiset Block} {rowsOfTables : List (Option ρ)} {toOutput : ρ → Output}
  {tr : List SormEvent} {r : Outputs} {allocator : Allocator} {n : ℕ}

theorem held_range {m : ℕ} (h : rowsOfTables.length ≤ m) :
    held f ((List.range m).map fun i => rowsOfTables[i]?.join) = held f rowsOfTables := by
  induction rowsOfTables generalizing m with
  | nil =>
      apply held_of_none
      intro c hc
      obtain ⟨i, -, rfl⟩ := List.mem_map.mp hc
      rfl
  | cons c cs ih =>
      cases m with
      | zero => exact absurd h (Nat.not_succ_le_zero _)
      | succ m =>
          have hrest := ih (Nat.le_of_succ_le_succ h)
          rw [List.range_succ_eq_map, List.map_cons, List.map_map]
          cases c with
          | none =>
              rw [held_none]
              exact held_none.trans hrest
          | some c =>
              rw [held_some]
              exact held_some.trans (congrArg (f c + ·) hrest)

theorem releaseAll_congr {is : List ℕ} {lefts lefts' : ℕ → Left}
    (h : ∀ i ∈ is, (lefts i).release allocator n = (lefts' i).release allocator n) :
    releaseAll allocator n (is.map lefts) = releaseAll allocator n (is.map lefts') := by
  induction is with
  | nil => rfl
  | cons i is ih =>
      rw [List.map_cons, List.map_cons, releaseAll, releaseAll, h i List.mem_cons_self,
        ih fun i' hi' => h i' (List.mem_cons_of_mem _ hi')]

/-- What has settled is released exactly when nothing leaks. -/
theorem HandsOut.released_iff {c : RowsCall}
    (h : HandsOut f g Good leaks r.code lost rowsOfTables (ledger tr))
    (hreleases : Releases c.request.allocator (c.rowCount r) f g Good toOutput)
    (hlength : r.code = .ok → rowsOfTables.length ≤ c.request.tables.wants.length)
    (houtput : r.code = .ok → ∀ i < c.request.tables.wants.length,
      (r.output i).release c.request.allocator (c.rowCount r) =
        (Left.ofRows toOutput rowsOfTables[i]?.join).release c.request.allocator (c.rowCount r)) :
    c.Released tr r ↔ ¬ leaks := by
  have hledger : ledger tr = some (held f rowsOfTables + lost) := h.out
  unfold RowsCall.Released
  by_cases hcode : r.code = .ok
  · rw [if_pos hcode]
    have hall : c.release r = releaseAll c.request.allocator (c.rowCount r)
        (((List.range c.request.tables.wants.length).map fun i =>
          rowsOfTables[i]?.join).map (Left.ofRows toOutput)) := by
      rw [List.map_map]
      exact releaseAll_congr fun i hi => houtput hcode i (List.mem_range.mp hi)
    have hgood : ∀ c', some c' ∈ ((List.range c.request.tables.wants.length).map fun i =>
        rowsOfTables[i]?.join) → Good c' := by
      intro c' hc'
      obtain ⟨i, -, hi⟩ := List.mem_map.mp hc'
      exact h.good hcode c' (List.mem_of_getElem? (Option.join_eq_some_iff.mp hi))
    have hrest : ∀ {tr'}, (c.release r).Emits tr' (.pure ()) →
        ledger (tr ++ tr') = some (lost + held g rowsOfTables) := by
      intro tr' he
      rw [hall] at he
      have hout : ledger tr = some (lost + held f ((List.range
          c.request.tables.wants.length).map fun i => rowsOfTables[i]?.join)) := by
        rw [held_range (hlength hcode), hledger, add_comm]
      have hreleased := ledger_returns (hreleases.out_all hgood) hout he
      rw [held_range (hlength hcode)] at hreleased
      exact hreleased
    have hleaks := h.ok hcode
    rw [add_comm] at hleaks
    constructor
    · rintro ⟨tr', he, hzero⟩ hleak
      rw [hrest he] at hzero
      exact hleaks.mpr hleak (Option.some_inj.mp hzero)
    · intro hnot
      obtain ⟨tr', he⟩ := hreleases.finishes_all hgood
      rw [← hall] at he
      have hzero : lost + held g rowsOfTables = 0 := not_not.mp (mt hleaks.mp hnot)
      exact ⟨tr', he, by rw [hrest he, hzero]⟩
  · rw [if_neg hcode, hledger, Option.some_inj, ← h.failed hcode, not_not]

end Outcome

section Calls

variable {tr : List SormEvent} {r : Outputs}

theorem arraySelect_released_iff {c : RowsCall}
    {selected : Selected RowArray} {B : ℕ → Prop} {lost : Multiset Block}
    (haccounted : Accounted (RowArray.blocks c.request.allocator)
      (RowArray.copies c.request.allocator) RowArray.Marked
      (tr.any (copies c.request.selects) = true) 0 lost selected.rowsOfTables (ledger tr))
    (hanswered : Answered RowArray.Full True B c.request.selects selected (c.request.told tr))
    (hcode : r.code = selected.code)
    (hn : selected.code = .ok → c.rowCount r = (c.request.told tr).rows)
    (houtput : r.code = .ok → ∀ i < c.request.tables.wants.length,
      (r.output i).release c.request.allocator (c.rowCount r) =
        (Left.ofRows .array selected.rowsOfTables[i]?.join).release c.request.allocator
          (c.rowCount r)) :
    c.Released tr r ↔ ¬ ArrayLeaks c.request.selects tr (c.request.told tr) := by
  have hsettles := handsOut_array hn haccounted hanswered
  rw [← hcode] at hsettles
  refine hsettles.released_iff (releases_array _ _) (fun hok => ?_) houtput
  rw [hanswered.length (hcode.symm.trans hok)]
  exact selectedTables_length

def OneSelected (allocator : Allocator) (ts : List TableSelect) (getRow : Bool)
    (r : SormError × Option (Option RowArray))
    (s : (Option (Multiset Block) × Bool) × SelectAnswers) : Prop :=
  (r.1 ≠ .ok ∧ Out 0 s.1.1) ∧ s.1.2 = false ∧ s.2 = .start ∨
    ∃ selected : Selected RowArray,
      r = (selected.code, if getRow then some selected.rowsOfTables.head?.join else none) ∧
      (∃ lost, Accounted (RowArray.blocks allocator) (RowArray.copies allocator) RowArray.Marked
        (s.1.2 = true) 0 lost selected.rowsOfTables s.1.1) ∧
      Answered RowArray.Full True (fun n => ∀ limit ∈ some (1 : ℤ), n ≤ limit.toNat) ts selected s.2

theorem selected_oneByColumn (conn : Option Connection) (allocator : Allocator)
    (tableDesc : TableDescriptor) (columnsName : Option CString) (columnIndex : ℕ)
    (columnValue : Option Pointer) (getRow : Bool) {ts : List TableSelect}
    (hts : ts = selectedTables columnsName (.single tableDesc) [getRow]) :
    Triple ((blockMonitor.prod (seen (copies ts))).prod (answersMonitor (refuses ts)))
      (fun s => (Out 0 s.1.1 ∧ s.1.2 = false) ∧ s.2 = .start)
      (sormSelectOneByColumn conn allocator tableDesc columnsName columnIndex columnValue getRow)
      (OneSelected allocator ts getRow) := by
  unfold sormSelectOneByColumn
  cases columnValue with
  | none =>
      exact Triple.pure fun s hs => Or.inl ⟨⟨SormError.noConfusion, hs.1.1⟩, hs.1.2, hs.2⟩
  | some value =>
  dsimp only
  apply Triple.bind (keeps_assertSome _)
  intro column
  apply Triple.bind Keeps.ofExcept
  rintro ⟨ret, filter⟩
  by_cases hret : ret = .ok
  · simp only [hret, ne_eq, not_true_eq_false, if_false]
    apply Triple.bind ((accounted_someArray hts).prod (answers_someArray allocator hts))
    intro selected
    exact Triple.pure fun s hs => Or.inr ⟨selected, rfl, hs⟩
  · simp only [ne_eq, hret, not_false_eq_true, if_true]
    exact Triple.pure fun s hs => Or.inl ⟨⟨hret, hs.1.1⟩, hs.1.2, hs.2⟩

theorem run_told (q : SelectRequest) (tr : List SormEvent) :
    (blockMonitor.prod (answersMonitor (refuses q.selects))).Run (some 0, .start) tr
      (ledger tr, q.told tr) :=
  (blockMonitor_run _ _).prod (fold_run _ tr)

theorem run_copied (q : SelectRequest) (tr : List SormEvent) :
    ((blockMonitor.prod (seen (copies q.selects))).prod (answersMonitor (refuses q.selects))).Run
      ((some 0, false), .start) tr ((ledger tr, tr.any (copies q.selects)), q.told tr) :=
  ((blockMonitor_run _ _).prod (seen_run tr)).prod (fold_run _ tr)

theorem someArray_released_iff (q : SelectRequest) (rowsNum : Option ℤ)
    (h : (RowsCall.someArray q rowsNum).run.Emits tr (.pure r)) :
    (RowsCall.someArray q rowsNum).Released tr r ↔ ¬ (RowsCall.someArray q rowsNum).Leaks tr := by
  have hselect : Triple ((blockMonitor.prod (seen (copies q.selects))).prod
      (answersMonitor (refuses q.selects)))
      (fun s => (Out 0 s.1.1 ∧ s.1.2 = false) ∧ s.2 = .start)
      (RowsCall.someArray q rowsNum).run fun r s => ∃ selected,
        r = .ofSelected .array selected ∧
        (∃ lost, Accounted (RowArray.blocks q.allocator) (RowArray.copies q.allocator)
          RowArray.Marked (s.1.2 = true) 0 lost selected.rowsOfTables s.1.1) ∧
        Answered RowArray.Full True (fun n => ∀ limit ∈ rowsNum, n ≤ limit.toNat) q.selects
          selected s.2 :=
    Triple.bind ((accounted_someArray rfl).prod (answers_someArray q.allocator rfl))
      fun selected => Triple.pure fun s hs => ⟨selected, rfl, hs⟩
  obtain ⟨selected, rfl, ⟨lost, haccounted⟩, hanswered⟩ :=
    hselect.returns (s := ((some 0, false), .start)) ⟨⟨rfl, rfl⟩, rfl⟩ h (run_copied q tr)
  refine arraySelect_released_iff haccounted hanswered rfl (fun hcode => ?_) fun _ _ _ => rfl
  have hnum := (hanswered.rows (hanswered.code.mp hcode).1).2.1
  exact congrArg (fun n : Option ℕ => n.getD 0) hnum

/-- A call that selects lists and hands them out. -/
theorem list_released_iff {c : RowsCall} {p : Act (Selected RowList)}
    (hrun : c.run = do let selected ← p; return .ofSelected .list selected)
    (hp : Triple (blockMonitor.prod (answersMonitor (refuses c.request.selects)))
      (fun s => Out 0 s.1 ∧ s.2 = .start) p (ListSelected c.request.allocator c.request.selects))
    (h : c.run.Emits tr (.pure r)) :
    c.Released tr r ↔ ¬ LosesObjects c.request.selects (c.request.told tr) := by
  have hselect : Triple (blockMonitor.prod (answersMonitor (refuses c.request.selects)))
      (fun s => Out 0 s.1 ∧ s.2 = .start) c.run fun r s => ∃ selected,
        r = .ofSelected .list selected ∧
          ListSelected c.request.allocator c.request.selects selected s := by
    rw [hrun]
    exact Triple.bind hp fun selected => Triple.pure fun s hs => ⟨selected, rfl, hs⟩
  obtain ⟨selected, rfl, ⟨lost, haccounted⟩, hanswered⟩ :=
    hselect.returns (s := (some 0, .start)) ⟨rfl, rfl⟩ h (run_told c.request tr)
  refine (handsOut_list haccounted hanswered).released_iff (releases_list _ _) (fun hok => ?_)
    fun _ _ _ => rfl
  rw [hanswered.length hok]
  exact selectedTables_length

theorem allArray_released_iff (rounds : ℕ) (q : SelectRequest) (rowsNum : Option ℤ)
    (h : (RowsCall.allArray rounds q rowsNum).run.Emits tr (.pure r)) :
    (RowsCall.allArray rounds q rowsNum).Released tr r ↔
      ¬ (RowsCall.allArray rounds q rowsNum).Leaks tr := by
  have hselect : Triple (blockMonitor.prod (answersMonitor (refuses q.selects)))
      (fun s => Out 0 s.1 ∧ s.2 = .start) (RowsCall.allArray rounds q rowsNum).run fun r s =>
        ∃ selected, r = .ofSelected .array selected ∧
          HandsOutAllArray q.allocator q.selects q.tables.wants.length selected s := by
    obtain ⟨conn, allocator, tables, columnsName, filter⟩ := q
    cases tables with
    | one tableDesc getRow =>
        exact Triple.bind (handsOut_allArrayBy rounds tableDesc getRow rfl)
          fun selected => Triple.pure fun s hs => ⟨selected, rfl, hs⟩
    | two table1 name1 table2 name2 join getRow1 getRow2 =>
        exact Triple.bind (handsOut_allArrayByJoin rounds rfl)
          fun selected => Triple.pure fun s hs => ⟨selected, rfl, hs⟩
  obtain ⟨selected, rfl, hlength, lost, hsettles⟩ :=
    hselect.returns (s := (some 0, .start)) ⟨rfl, rfl⟩ h (run_told q tr)
  exact hsettles.released_iff (releases_array _ _) hlength fun _ _ _ => rfl

/-- The one array of `sorm_select_one_by_column` is what the caller gets, if it wants it. -/
theorem oneByColumn_output {B : ℕ → Prop} {columnsName : Option CString}
    {tableDesc : TableDescriptor} {getRow : Bool} {selected : Selected RowArray} {a : SelectAnswers}
    (h : Answered RowArray.Full True B (selectedTables columnsName (.single tableDesc) [getRow])
      selected a) (allocator : Allocator) (n : ℕ) :
    (((if getRow then some selected.rowsOfTables.head?.join else none).map
      (Left.ofRows .array)).getD .untouched).release allocator n =
      (Left.ofRows .array selected.rowsOfTables[0]?.join).release allocator n := by
  rw [← List.head?_eq_getElem?]
  cases getRow with
  | true => rfl
  | false =>
      rw [head?_join_of_none (h.none_of_unwanted (not_wanted_of_single rfl))]
      rfl

theorem oneByColumn_released_iff (conn : Option Connection) (allocator : Allocator)
    (tableDesc : TableDescriptor) (columnsName : Option CString) (columnIndex : ℕ)
    (columnValue : Option Pointer) (getRow : Bool) {c : RowsCall}
    (hc : c = .oneByColumn conn allocator tableDesc columnsName columnIndex columnValue getRow)
    (h : c.run.Emits tr (.pure r)) : c.Released tr r ↔ ¬ c.Leaks tr := by
  subst hc
  let c := RowsCall.oneByColumn conn allocator tableDesc columnsName columnIndex columnValue getRow
  have hselect : Triple ((blockMonitor.prod (seen (copies c.request.selects))).prod
      (answersMonitor (refuses c.request.selects)))
      (fun s => (Out 0 s.1.1 ∧ s.1.2 = false) ∧ s.2 = .start) c.run fun r s => ∃ r' :
        SormError × Option (Option RowArray), r = ⟨r'.1, none, fun _ =>
          (r'.2.map (Left.ofRows .array)).getD .untouched⟩ ∧
          OneSelected allocator c.request.selects getRow r' s :=
    Triple.bind (selected_oneByColumn conn allocator tableDesc columnsName columnIndex
      columnValue getRow rfl) fun r' => Triple.pure fun s hs => ⟨r', rfl, hs⟩
  obtain ⟨r', rfl, hselected⟩ :=
    hselect.returns (s := ((some 0, false), .start)) ⟨⟨rfl, rfl⟩, rfl⟩ h (run_copied c.request tr)
  rcases hselected with ⟨⟨hcode, hout⟩, hb, ha⟩ | ⟨selected, rfl, ⟨lost, haccounted⟩, hanswered⟩
  · have hreleased : c.Released tr ⟨r'.1, none, fun _ =>
        (r'.2.map (Left.ofRows .array)).getD .untouched⟩ := by
      unfold RowsCall.Released
      rw [if_neg hcode]
      exact hout
    refine iff_of_true hreleased ?_
    change ¬ ArrayLeaks c.request.selects tr (c.request.told tr)
    dsimp only at ha hb
    rw [ha, ArrayLeaks, if_neg (fun h => h.1 rfl), hb]
    exact Bool.false_ne_true
  · refine arraySelect_released_iff haccounted hanswered rfl (fun hcode => ?_) fun _ i hi => ?_
    · have hdel := (hanswered.code.mp hcode).1
      have hle := (hanswered.rows hdel).1 1 rfl
      exact Nat.le_antisymm (Nat.one_le_iff_ne_zero.mpr hdel.1) hle
    · obtain rfl : i = 0 := Nat.lt_one_iff.mp hi
      exact oneByColumn_output hanswered allocator _

end Calls

/-- A select returns everything it took, at the latest when its caller releases the rows, exactly
when it does not leak. -/
theorem rowsCall_released_iff (c : RowsCall) {tr : List SormEvent} {r : Outputs}
    (h : c.run.Emits tr (.pure r)) : c.Released tr r ↔ ¬ c.Leaks tr := by
  cases c with
  | someArray q rowsNum => exact someArray_released_iff q rowsNum h
  | someList q rowsNum => exact list_released_iff rfl (selected_someList rfl) h
  | allArray rounds q rowsNum => exact allArray_released_iff rounds q rowsNum h
  | allList rounds q rowsNum => exact list_released_iff rfl (selected_allList rfl rounds) h
  | oneByColumn conn allocator tableDesc columnsName columnIndex columnValue getRow =>
      exact oneByColumn_released_iff conn allocator tableDesc columnsName columnIndex columnValue
        getRow rfl h

/-- One name comes, and its array is never given back. -/
theorem rowsCall_released_iff_unfinalized : ∃ r, oneName.run.Emits unfinalized (.pure r) ∧
    (oneName.Released unfinalized r ↔ ¬ oneName.Leaks unfinalized) := by
  obtain ⟨r, hr⟩ := oneName_emits
  exact ⟨r, hr, rowsCall_released_iff oneName hr⟩

def guestTable : TableDescriptor where
  name := "guest".toList
  size := 64
  columns := [⟨"name".toList, .text, .none, .heap, 0, false, [], []⟩]
  pkIndex := none
  createSql := none

theorem nul_notMem_name : '\x00' ∉ "name".toList := by decide

def guestName : CString := ⟨"name".toList, nul_notMem_name⟩

def guestNames : RowsCall :=
  .someArray ⟨some ⟨0, 0, 0⟩, .libc, .one guestTable true, some guestName, none⟩ (some 2)

/-- One name has been copied when the next step fails. -/
def interrupted : List SormEvent :=
  [⟨.malloc .libc 16, some 1⟩, ⟨.malloc .libc 4, some 2⟩,
    ⟨.prepare "SELECT name FROM guest".toList sqlStmtMaxLen, (.ok, some 0)⟩,
    ⟨.strdup .libc guestName, some 3⟩, ⟨.free .libc (some 3), ()⟩,
    ⟨.malloc .libc 128, some 4⟩, ⟨.step (some 0), .row⟩, ⟨.columnType (some 0) 0, .text⟩,
    ⟨.columnText (some 0) 0, some ⟨"Ada".toList, by decide⟩⟩,
    ⟨.strdup .libc ⟨"Ada".toList, by decide⟩, some 5⟩, ⟨.step (some 0), .other 10⟩,
    ⟨.free .libc (some 4), ()⟩, ⟨.finalize (some 0), .ok⟩, ⟨.free .libc (some 2), ()⟩,
    ⟨.free .libc (some 1), ()⟩]

/-- The array is given back, and the copy of the name in it is not. -/
theorem not_rowsCall_released : ¬ ∀ (c : RowsCall) (tr : List SormEvent) (r : Outputs),
    c.run.Emits tr (.pure r) → c.Released tr r := by
  intro h
  have hemits : ∃ r, guestNames.run.Emits interrupted (.pure r) ∧ r.code = .dbError := by
    refine ⟨?_, ?_, ?_⟩
    rotate_left
    · unfold interrupted
      iterate 15 refine .cons _ _ _ ?_
      exact .nil _
    · rfl
  obtain ⟨r, hr, hcode⟩ := hemits
  have hreleased := h guestNames interrupted r hr
  unfold RowsCall.Released at hreleased
  rw [hcode, if_neg (by decide)] at hreleased
  exact absurd hreleased (by decide)

end Sorm
