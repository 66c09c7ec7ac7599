import Sorm.LinkedList
import Sorm.SelectOperations

/-!
# The intrusive list

The list of `sorm.h` on a heap of nodes: adding at either end, the loops over it, and the two
functions that free it node by node. The list as the select functions have it, a sequence of
entries, is what these operations make and take apart.
-/

namespace Sorm

open Interaction LinkedList

variable {δ ρ σ : Type}

abbrev ListHeap (δ : Type) := LinkedList.Heap Address δ

def initListHead (h : ListHeap δ) (head : Address) : Option (ListHeap δ) := do
  let h ← setNext h head head
  setPrev h head head

def listAdd (h : ListHeap δ) (new prev next : Address) : Option (ListHeap δ) := do
  let prevNext ← nextOf h prev
  let h ← setNext h new prevNext
  let h ← setNext h prev new
  let nextPrev ← prevOf h next
  let h ← setPrev h new nextPrev
  setPrev h next new

def listAddTail (h : ListHeap δ) (new head : Address) : Option (ListHeap δ) := do
  let prev ← prevOf h head
  listAdd h new prev head

def listAddHead (h : ListHeap δ) (new head : Address) : Option (ListHeap δ) := do
  let next ← nextOf h head
  listAdd h new head next

/-- `sorm_list_for_each`, or the same loop along `prev`: the nodes it is at. -/
def sormListForEach (link : Address → Option Address) (fuel : ℕ) (head : Address) :
    Option (List Address) := do
  let pos ← link head
  follow link head fuel pos

def sormListForEachSafe (fuel : ℕ) (body : Address → σ → ListHeap δ → Act (σ × ListHeap δ))
    (head : Address) (s : σ) (h : ListHeap δ) : Act (σ × ListHeap δ) := do
  let pos ← access (nextOf h head)
  let scratch ← access (nextOf h pos)
  forEachSafe body head fuel pos scratch s h

def freeNode (allocator : Allocator) (h : ListHeap δ) (pos : Address) : Act (ListHeap δ) := do
  let _ ← access (h pos)
  free allocator (some pos)
  return erase h pos

def callDataFree (dataFree : Option (δ → Act Unit)) (data : δ) : Act Unit :=
  match dataFree with
  | none => return ()
  | some dataFree => dataFree data

def listFreeBody (allocator : Allocator) (dataFree : Option (δ → Act Unit)) (pos : Address)
    (_ : Unit) (h : ListHeap δ) : Act (Unit × ListHeap δ) := do
  let data ← access (dataOf h pos)
  callDataFree dataFree data
  let h ← freeNode allocator h pos
  return ((), h)

def listFree (fuel : ℕ) (allocator : Allocator) (sormList : Option Address)
    (dataFree : Option (δ → Act Unit)) (h : ListHeap δ) : Act (ListHeap δ) :=
  match sormList with
  | none => return h
  | some head => do
      let (_, h) ← sormListForEachSafe fuel (listFreeBody allocator dataFree) head () h
      freeNode allocator h head

/-- One round of `__list_cpy_free`: `memcpy` of the row behind `pos->data` to the end of the rows
copied so far. -/
def listCpyFreeBody (allocator : Allocator) (content : δ → Option (Address × ρ)) (pos : Address)
    (rows : List ρ) (h : ListHeap δ) : Act (List ρ × ListHeap δ) := do
  let data ← access (dataOf h pos)
  let (block, row) ← access (content data)
  free allocator (some block)
  let h ← freeNode allocator h pos
  return (rows ++ [row], h)

def listCpyFreeNodes (fuel : ℕ) (allocator : Allocator) (content : δ → Option (Address × ρ))
    (sormList : Option Address) (n : ℕ) (rows : Option Address) (h : ListHeap δ) :
    Act (List ρ × ListHeap δ) := do
  let head ← assertSome sormList
  let _ ← assertSome rows
  let (copied, h) ← sormListForEachSafe fuel (listCpyFreeBody allocator content) head [] h
  if copied.length = n then do
    let h ← freeNode allocator h head
    return (copied, h)
  else abort

inductive ListEnd
  | tail
  | head
deriving DecidableEq, Repr

structure ListAdd (δ : Type) where
  place : ListEnd
  new : Address
  data : δ

def ListAdd.run (head : Address) (h : ListHeap δ) (add : ListAdd δ) : Option (ListHeap δ) :=
  match add.place with
  | .tail => listAddTail h add.new head
  | .head => listAddHead h add.new head

def buildList (h : ListHeap δ) (head : Address) (adds : List (ListAdd δ)) :
    Option (ListHeap δ) := do
  let h ← initListHead h head
  adds.foldlM (ListAdd.run head) h

def ListAdd.extend (cells : List (Address × δ)) (add : ListAdd δ) : List (Address × δ) :=
  match add.place with
  | .tail => cells ++ [(add.new, add.data)]
  | .head => (add.new, add.data) :: cells

def sequenceOf (adds : List (ListAdd δ)) : List (Address × δ) := adds.foldl ListAdd.extend []

section Adding

variable {h : ListHeap δ} {head : Address} {cells : List (Address × δ)}

theorem initListHead_represents (hhead : (h head).isSome) : ∃ h', initListHead h head = some h' ∧
    LinkedList.Represents h' head [] ∧ dataOf h' = dataOf h := by
  obtain ⟨h₁, hset₁, hnext₁, hprev₁, hdata₁, hsome₁⟩ := setNext_eq hhead head
  have hhead₁ : (h₁ head).isSome := (hsome₁ head).trans hhead
  obtain ⟨h₂, hset₂, hnext₂, hprev₂, hdata₂, -⟩ := setPrev_eq hhead₁ head
  refine ⟨h₂, ?_, ⟨List.nodup_singleton _, ?_, ?_, ?_⟩, hdata₂.trans hdata₁⟩
  · unfold initListHead
    rw [hset₁]
    exact hset₂
  · change nextOf h₂ head = some head
    rw [hnext₂, hnext₁, if_pos rfl]
  · change prevOf h₂ head = some head
    rw [hprev₂, if_pos rfl]
  · exact fun c hc => absurd hc List.not_mem_nil

/-- The two reads of `_list_add` get what was there before, and its four writes put the node in
between, also when `prev` and `next` are the same node. -/
theorem listAdd_eq {new prev next p n : Address} (hnew : (h new).isSome) (hprev : new ≠ prev)
    (hnext : new ≠ next) (hp : nextOf h prev = some p) (hn : prevOf h next = some n) :
    ∃ h', listAdd h new prev next = some h' ∧ Inserted h h' new prev next := by
  have hprevSome : (h prev).isSome := isSome_of_map hp
  have hnextSome : (h next).isSome := isSome_of_map hn
  obtain ⟨h₁, hset₁, hnext₁, hprev₁, hdata₁, hsome₁⟩ := setNext_eq hnew p
  obtain ⟨h₂, hset₂, hnext₂, hprev₂, hdata₂, hsome₂⟩ :=
    setNext_eq ((hsome₁ prev).trans hprevSome) new
  have hread : prevOf h₂ next = some n := by rw [hprev₂, hprev₁, hn]
  obtain ⟨h₃, hset₃, hnext₃, hprev₃, hdata₃, hsome₃⟩ :=
    setPrev_eq ((hsome₂ new).trans ((hsome₁ new).trans hnew)) n
  obtain ⟨h₄, hset₄, hnext₄, hprev₄, hdata₄, -⟩ :=
    setPrev_eq ((hsome₃ next).trans ((hsome₂ next).trans ((hsome₁ next).trans hnextSome))) new
  refine ⟨h₄, ?_, ⟨fun x => ?_, fun x => ?_, ?_⟩⟩
  · unfold listAdd
    simp only [hp, hset₁, hset₂, hread, hset₃, Option.bind_eq_bind, Option.bind_some]
    exact hset₄
  · rw [hnext₄, hnext₃, hnext₂, hnext₁, hp]
    by_cases hx : x = prev
    · rw [if_pos hx, if_neg (hx ▸ Ne.symm hprev), if_pos hx]
    · rw [if_neg hx, if_neg hx]
  · rw [hprev₄, hprev₃, hprev₂, hprev₁, hn]
    by_cases hx : x = next
    · rw [if_pos hx, if_neg (hx ▸ Ne.symm hnext), if_pos hx]
    · rw [if_neg hx, if_neg hx]
  · rw [hdata₄, hdata₃, hdata₂, hdata₁]

theorem ListAdd.run_represents (hrep : LinkedList.Represents h head cells) (add : ListAdd δ)
    (hnew : add.new ∉ head :: cells.map Prod.fst) (hdata : dataOf h add.new = some add.data) :
    ∃ h', add.run head h = some h' ∧ LinkedList.Represents h' head (add.extend cells) ∧
      dataOf h' = dataOf h := by
  obtain ⟨place, new, data⟩ := add
  have hsome : (h new).isSome := isSome_of_map hdata
  have hne : ∀ x ∈ head :: cells.map Prod.fst, new ≠ x := by
    intro x hx heq
    exact hnew (heq ▸ hx)
  have hfirst := hrep.next.first
  have hlast : prevOf h head = some (last head (cells.map Prod.fst)) := by
    rw [hrep.prev.first, ← last_reverse, List.reverse_reverse]
  cases place with
  | tail =>
      have hlastMem := last_mem head (cells.map Prod.fst)
      obtain ⟨h', hadd, hins⟩ := listAdd_eq hsome (hne _ hlastMem) (hne _ List.mem_cons_self)
        hrep.next.last hlast
      refine ⟨h', ?_, hrep.concat hnew hdata hins, hins.data⟩
      change listAddTail h new head = some h'
      unfold listAddTail
      rw [hlast]
      exact hadd
  | head =>
      have hfirstMem := first_mem (cells.map Prod.fst) head
      have hback : prevOf h (first (cells.map Prod.fst) head) = some head := by
        rw [← last_reverse]
        exact hrep.prev.last
      obtain ⟨h', hadd, hins⟩ := listAdd_eq hsome (hne _ List.mem_cons_self) (hne _ hfirstMem)
        hfirst hback
      refine ⟨h', ?_, hrep.cons hnew hdata hins, hins.data⟩
      change listAddHead h new head = some h'
      unfold listAddHead
      rw [hfirst]
      exact hadd

theorem ListAdd.extend_perm (cells : List (Address × δ)) (add : ListAdd δ) :
    (add.extend cells).Perm ((add.new, add.data) :: cells) := by
  obtain ⟨_ | _, new, data⟩ := add
  · exact List.perm_append_singleton _ _
  · exact List.Perm.refl _

theorem foldl_extend_perm (cells : List (Address × δ)) (adds : List (ListAdd δ)) :
    (adds.foldl ListAdd.extend cells).Perm
      (cells ++ adds.map fun add => (add.new, add.data)) := by
  induction adds generalizing cells with
  | nil => simp
  | cons add adds ih =>
      refine (ih _).trans ?_
      have hone := (add.extend_perm cells).append_right (adds.map fun add => (add.new, add.data))
      refine hone.trans ?_
      rw [List.map_cons, List.cons_append]
      exact List.perm_middle.symm

theorem foldlM_run_represents (hrep : LinkedList.Represents h head cells) (adds : List (ListAdd δ))
    (hfresh : (head :: (cells.map Prod.fst ++ adds.map ListAdd.new)).Nodup)
    (hdata : ∀ add ∈ adds, dataOf h add.new = some add.data) :
    ∃ h', adds.foldlM (ListAdd.run head) h = some h' ∧
      LinkedList.Represents h' head (adds.foldl ListAdd.extend cells) := by
  induction adds generalizing h cells with
  | nil => exact ⟨h, rfl, hrep⟩
  | cons add adds ih =>
      rw [List.map_cons] at hfresh
      have hnew : add.new ∉ head :: cells.map Prod.fst := by
        intro hmem
        have hdisjoint := List.disjoint_of_nodup_append
          (List.cons_append ▸ hfresh : (head :: cells.map Prod.fst ++ _).Nodup)
        exact hdisjoint hmem List.mem_cons_self
      obtain ⟨h₁, hrun, hrep₁, hdata₁⟩ :=
        add.run_represents hrep hnew (hdata add List.mem_cons_self)
      have hperm : (head :: (cells.map Prod.fst ++ add.new :: adds.map ListAdd.new)).Perm
          (head :: ((add.extend cells).map Prod.fst ++ adds.map ListAdd.new)) := by
        have hone := ((add.extend_perm cells).map Prod.fst).append_right (adds.map ListAdd.new)
        exact List.Perm.cons _ (List.perm_middle.trans hone.symm)
      obtain ⟨h', hrest, hrep'⟩ := ih hrep₁ (hperm.nodup_iff.mp hfresh) fun a ha => by
        rw [hdata₁]
        exact hdata a (List.mem_cons_of_mem _ ha)
      refine ⟨h', ?_, hrep'⟩
      rw [List.foldlM_cons, hrun]
      exact hrest

theorem buildList_represents (hhead : (h head).isSome) (adds : List (ListAdd δ))
    (hfresh : (head :: adds.map ListAdd.new).Nodup)
    (hdata : ∀ add ∈ adds, dataOf h add.new = some add.data) :
    ∃ h', buildList h head adds = some h' ∧ LinkedList.Represents h' head (sequenceOf adds) := by
  obtain ⟨h₁, hinit, hrep₁, hdata₁⟩ := initListHead_represents hhead
  obtain ⟨h', hrun, hrep'⟩ := foldlM_run_represents hrep₁ adds hfresh fun a ha => by
    rw [hdata₁]
    exact hdata a ha
  refine ⟨h', ?_, hrep'⟩
  unfold buildList
  rw [hinit]
  exact hrun

end Adding

section Freeing

variable {h : ListHeap δ} {head : Address} {cells : List (Address × δ)} {fuel : ℕ}
variable (hrep : LinkedList.Represents h head cells) (hfuel : cells.length < fuel)
include hrep hfuel

theorem sormListForEach_next :
    sormListForEach (nextOf h) fuel head = some (cells.map Prod.fst) := by
  unfold sormListForEach
  rw [hrep.next.first]
  refine hrep.next.follow (List.nodup_cons.mp hrep.nodup).1 ?_
  rw [List.length_map]
  exact hfuel

theorem sormListForEach_prev :
    sormListForEach (prevOf h) fuel head = some (cells.map Prod.fst).reverse := by
  unfold sormListForEach
  rw [hrep.prev.first]
  refine hrep.prev.follow ?_ ?_
  · rw [List.mem_reverse]
    exact (List.nodup_cons.mp hrep.nodup).1
  · rw [List.length_reverse, List.length_map]
    exact hfuel

theorem sormListForEachSafe_erases {body : Address → σ → ListHeap δ → Act (σ × ListHeap δ)}
    {use : Address × δ → σ → Act σ} (hbody : Erases body use) (s : σ) :
    sormListForEachSafe fuel body head s h =
      cells.foldlM (fun s c => use c s) s >>= fun s' => pure (s', eraseAll h cells) := by
  have hahead := hrep.ahead
  obtain ⟨n, hn⟩ := Option.isSome_iff_exists.mp hahead.first_isSome
  have hscratch : nextOf h (first (cells.map Prod.fst) head) = some n.next := by
    unfold nextOf
    rw [hn]
    rfl
  unfold sormListForEachSafe
  rw [hrep.next.first, access_some, pure_bind, hscratch, access_some, pure_bind]
  exact forEachSafe_erases hbody hahead hscratch hfuel s

omit hrep hfuel in
theorem freeNode_eq (allocator : Allocator) {a : Address} (ha : (h a).isSome) :
    freeNode allocator h a = free allocator (some a) >>= fun _ => pure (erase h a) := by
  obtain ⟨n, hn⟩ := Option.isSome_iff_exists.mp ha
  unfold freeNode
  rw [hn, access_some, pure_bind]

omit hfuel in
/-- The head is still there when its nodes are gone. -/
theorem eraseAll_head : (eraseAll h cells head).isSome := by
  rw [eraseAll_eq, if_neg (List.nodup_cons.mp hrep.nodup).1]
  exact isSome_of_map hrep.next.first

/-- `data_free` and `_free` for each node in order, and the head at last. -/
theorem listFree_eq (allocator : Allocator) (dataFree : Option (δ → Act Unit)) :
    listFree fuel allocator (some head) dataFree h = (do
      cells.forM fun c => do
        callDataFree dataFree c.2
        free allocator (some c.1)
      free allocator (some head)
      return erase (eraseAll h cells) head) := by
  have hbody : Erases (listFreeBody allocator dataFree) (fun c _ => do
      callDataFree dataFree c.2
      free allocator (some c.1)) := by
    intro a d s h hd
    unfold listFreeBody
    rw [hd, access_some, pure_bind, freeNode_eq allocator (isSome_of_map hd)]
    simp only [bind_assoc, pure_bind]
  have hunit : ∀ (f : Address × δ → Act Unit) (l : List (Address × δ)),
      l.foldlM (fun _ c => f c) () = l.forM f := by
    intro f l
    induction l with
    | nil => rfl
    | cons c l ih =>
        rw [List.foldlM_cons, List.forM, ← ih]
  unfold listFree
  dsimp only
  rw [sormListForEachSafe_erases hrep hfuel hbody, hunit, bind_assoc]
  simp only [pure_bind, freeNode_eq allocator (eraseAll_head hrep)]

/-- The two blocks of each node in order, and the head when the rows are as many as expected. -/
theorem listCpyFreeNodes_eq (allocator : Allocator) {content : δ → Option (Address × ρ)}
    (hcontent : ∀ c ∈ cells, (content c.2).isSome) (n : ℕ) (rows : Address) :
    listCpyFreeNodes fuel allocator content (some head) n (some rows) h = (do
      cells.forM fun c => do
        free allocator ((content c.2).map Prod.fst)
        free allocator (some c.1)
      if cells.length = n then do
        free allocator (some head)
        return (cells.filterMap fun c => (content c.2).map Prod.snd, erase (eraseAll h cells) head)
      else abort) := by
  have hbody : Erases (listCpyFreeBody allocator content) (fun c copied => do
      let (block, row) ← access (content c.2)
      free allocator (some block)
      free allocator (some c.1)
      return copied ++ [row]) := by
    intro a d s h hd
    unfold listCpyFreeBody
    rw [hd, access_some, pure_bind, freeNode_eq allocator (isSome_of_map hd)]
    simp only [bind_assoc, pure_bind]
  have hfold : ∀ (l : List (Address × δ)) (copied : List ρ), (∀ c ∈ l, (content c.2).isSome) →
      (l.foldlM (fun copied c => do
        let (block, row) ← access (content c.2)
        free allocator (some block)
        free allocator (some c.1)
        return copied ++ [row]) copied : Act (List ρ)) = (do
          l.forM fun c => do
            free allocator ((content c.2).map Prod.fst)
            free allocator (some c.1)
          return copied ++ l.filterMap fun c => (content c.2).map Prod.snd) := by
    intro l
    induction l with
    | nil => exact fun copied _ => by simp
    | cons c l ih =>
        intro copied hl
        obtain ⟨⟨block, row⟩, hc⟩ := Option.isSome_iff_exists.mp (hl c List.mem_cons_self)
        have hrest := fun copied => ih copied fun x hx => hl x (List.mem_cons_of_mem _ hx)
        rw [List.foldlM_cons, List.forM, List.filterMap_cons, hc, access_some, pure_bind]
        simp only [bind_assoc, pure_bind, Option.map_some, hrest, List.append_assoc,
          List.singleton_append]
  have hlength : ∀ l : List (Address × δ), (∀ c ∈ l, (content c.2).isSome) →
      (l.filterMap fun c => (content c.2).map Prod.snd).length = l.length := by
    intro l hl
    rw [List.length_filterMap_eq_countP, List.countP_eq_length]
    intro c hc
    rw [Option.isSome_map]
    exact hl c hc
  unfold listCpyFreeNodes
  simp only [assertSome_some, pure_bind]
  rw [sormListForEachSafe_erases hrep hfuel hbody, hfold cells [] hcontent]
  simp only [bind_assoc, pure_bind, List.nil_append, hlength cells hcontent,
    freeNode_eq allocator (eraseAll_head hrep)]

end Freeing

/-- Behind the head there is a sequence: the loops along the links visit it and its reverse, and a
loop that frees the node it is at uses the nodes one after the other, frees each of them once and
then is over. A loop that read a freed node, or did not end, would stop. -/
structure Sequenced (h : ListHeap δ) (head : Address) (cells : List (Address × δ)) : Prop where
  distinct : (head :: cells.map Prod.fst).Nodup
  forward : ∀ fuel > cells.length,
    sormListForEach (nextOf h) fuel head = some (cells.map Prod.fst)
  backward : ∀ fuel > cells.length,
    sormListForEach (prevOf h) fuel head = some (cells.map Prod.fst).reverse
  freeing : ∀ {σ : Type} (body : Address → σ → ListHeap δ → Act (σ × ListHeap δ))
    (use : Address × δ → σ → Act σ), Erases body use → ∀ fuel > cells.length, ∀ s : σ,
      sormListForEachSafe fuel body head s h =
        cells.foldlM (fun s c => use c s) s >>= fun s' => pure (s', eraseAll h cells)
  listFree : ∀ (allocator : Allocator) (dataFree : Option (δ → Act Unit)), ∀ fuel > cells.length,
    listFree fuel allocator (some head) dataFree h = (do
      cells.forM fun c => do
        callDataFree dataFree c.2
        free allocator (some c.1)
      free allocator (some head)
      return erase (eraseAll h cells) head)
  listCpyFree : ∀ {ρ : Type} (allocator : Allocator) (content : δ → Option (Address × ρ)),
    (∀ c ∈ cells, (content c.2).isSome) → ∀ (n : ℕ) (rows : Address), ∀ fuel > cells.length,
      listCpyFreeNodes fuel allocator content (some head) n (some rows) h = (do
        cells.forM fun c => do
          free allocator ((content c.2).map Prod.fst)
          free allocator (some c.1)
        if cells.length = n then do
          free allocator (some head)
          return (cells.filterMap fun c => (content c.2).map Prod.snd,
            erase (eraseAll h cells) head)
        else abort)

theorem sequenced_of_represents {h : ListHeap δ} {head : Address} {cells : List (Address × δ)}
    (hrep : LinkedList.Represents h head cells) : Sequenced h head cells where
  distinct := hrep.nodup
  forward _ hfuel := sormListForEach_next hrep hfuel
  backward _ hfuel := sormListForEach_prev hrep hfuel
  freeing _ _ hbody _ hfuel s := sormListForEachSafe_erases hrep hfuel hbody s
  listFree allocator dataFree _ hfuel := listFree_eq hrep hfuel allocator dataFree
  listCpyFree allocator _ hcontent n rows _ hfuel :=
    listCpyFreeNodes_eq hrep hfuel allocator hcontent n rows

/-- After any calls that add fresh nodes the list is the sequence the calls stand for. -/
theorem buildList_sequenced (h : ListHeap δ) (head : Address) (adds : List (ListAdd δ))
    (hhead : (h head).isSome) (hfresh : (head :: adds.map ListAdd.new).Nodup)
    (hdata : ∀ add ∈ adds, dataOf h add.new = some add.data) :
    ∃ h', buildList h head adds = some h' ∧
      (sequenceOf adds).Perm (adds.map fun add => (add.new, add.data)) ∧
        Sequenced h' head (sequenceOf adds) := by
  obtain ⟨h', hbuild, hrep⟩ := buildList_represents hhead adds hfresh hdata
  exact ⟨h', hbuild, foldl_extend_perm [] adds, sequenced_of_represents hrep⟩

def looseNodes : ListHeap ℕ := fun a => if a < 4 then some ⟨a, a, a⟩ else none

theorem buildList_sequenced_three :
    ∃ h', buildList looseNodes 0 [⟨.tail, 1, 1⟩, ⟨.head, 2, 2⟩, ⟨.tail, 3, 3⟩] = some h' ∧
      (sequenceOf [⟨.tail, 1, 1⟩, ⟨.head, 2, 2⟩, ⟨.tail, 3, 3⟩]).Perm [(1, 1), (2, 2), (3, 3)] ∧
        Sequenced h' 0 [(2, 2), (1, 1), (3, 3)] :=
  buildList_sequenced looseNodes 0 [⟨.tail, 1, 1⟩, ⟨.head, 2, 2⟩, ⟨.tail, 3, 3⟩] (by decide)
    (by decide) (by decide)

section Rows

variable {h : ListHeap (Option (Address × Row))} {head : Address}
variable {cells : List (Address × Option (Address × Row))} {fuel : ℕ}

def entryOf (c : Address × Option (Address × Row)) : ListEntry := ⟨c.1, c.2⟩

def sormFreeData (allocator : Allocator) (data : Option (Address × Row)) : Act Unit :=
  match data with
  | none => return ()
  | some (_, row) => sormFree allocator (some row.2)

/-- `sorm_list_free` on the nodes is what it is on the sequence. -/
theorem listFree_sormFree (hrep : LinkedList.Represents h head cells) (hfuel : cells.length < fuel)
    (allocator : Allocator) :
    listFree fuel allocator (some head) (some (sormFreeData allocator)) h = (do
      sormListFree allocator (some ⟨head, cells.map entryOf⟩)
      return erase (eraseAll h cells) head) := by
  have hentries : ∀ l : List (Address × Option (Address × Row)),
      listFreeEntries allocator (l.map entryOf) = (l.forM fun c => do
        callDataFree (some (sormFreeData allocator)) c.2
        free allocator (some c.1)) := by
    intro l
    induction l with
    | nil => rfl
    | cons c l ih =>
        obtain ⟨block, _ | ⟨address, row⟩⟩ := c
        · rw [List.map_cons, List.forM, ← ih]
          rfl
        · rw [List.map_cons, List.forM, ← ih, bind_assoc]
          rfl
  unfold sormListFree
  dsimp only
  rw [listFree_eq hrep hfuel, hentries, bind_assoc]

/-- `__list_cpy_free` on the nodes is what it is on the sequence. -/
theorem listCpyFreeNodes_id (hrep : LinkedList.Represents h head cells)
    (hfuel : cells.length < fuel) (hdata : ∀ c ∈ cells, c.2.isSome) (allocator : Allocator)
    (n : ℕ) (rows : Address) :
    listCpyFreeNodes fuel allocator id (some head) n (some rows) h = (do
      let copied ← listCpyFree allocator ⟨head, cells.map entryOf⟩ n
      return (copied, erase (eraseAll h cells) head)) := by
  have hentries : ∀ l : List (Address × Option (Address × Row)), (∀ c ∈ l, c.2.isSome) →
      listCpyFreeEntries allocator (l.map entryOf) = (do
        l.forM fun c => do
          free allocator (c.2.map Prod.fst)
          free allocator (some c.1)
        return l.filterMap fun c => c.2.map Prod.snd) := by
    intro l
    induction l with
    | nil => exact fun _ => rfl
    | cons c l ih =>
        intro hl
        obtain ⟨block, data⟩ := c
        obtain ⟨⟨address, row⟩, rfl⟩ := Option.isSome_iff_exists.mp (hl _ List.mem_cons_self)
        have hrest := ih fun x hx => hl x (List.mem_cons_of_mem _ hx)
        rw [List.map_cons, listCpyFreeEntries, List.forM, hrest]
        simp only [bind_assoc, pure_bind]
        rfl
  unfold listCpyFree
  rw [listCpyFreeNodes_eq hrep hfuel allocator hdata, hentries cells hdata]
  simp only [bind_assoc, pure_bind, List.length_map]
  by_cases hn : cells.length = n
  · simp only [if_pos hn, bind_assoc, pure_bind, id_eq]
  · simp only [if_neg hn, id_eq]
    rfl

end Rows

end Sorm
