import Mathlib.Data.List.Nodup
import Mathlib.Tactic
import Sorm.Interaction

/-!
# Circular doubly linked lists

A heap of nodes with two links each, and what it means that the nodes behind a head are a sequence:
the links forward visit them in order and come back to the head, and the links backward visit them
in reverse. A node that is not there cannot be read or written, and is not freed again.
-/

namespace LinkedList

open Interaction

structure Node (α δ : Type) where
  next : α
  prev : α
  data : δ
deriving DecidableEq, Repr

abbrev Heap (α δ : Type) := α → Option (Node α δ)

section Paths

variable {α : Type}

def Path (f : α → Option α) : α → List α → α → Prop
  | a, [], b => f a = some b
  | a, x :: l, b => f a = some x ∧ Path f x l b

def last (a : α) (l : List α) : α := l.getLast?.getD a

def first (l : List α) (b : α) : α := l.head?.getD b

variable {f g : α → Option α} {a b : α} {l : List α}

theorem Path.first (h : Path f a l b) : f a = some (first l b) := by
  cases l with
  | nil => exact h
  | cons x l => exact h.1

/-- A path depends on the links of its nodes only, and on where it begins. -/
theorem Path.congr {a' : α} (h : Path f a l b) (ha : g a' = f a) (hl : ∀ x ∈ l, g x = f x) :
    Path g a' l b := by
  induction l generalizing a a' with
  | nil => exact ha.trans h
  | cons x l ih =>
      refine ⟨ha.trans h.1, ih h.2 (hl x List.mem_cons_self) fun y hy => ?_⟩
      exact hl y (List.mem_cons_of_mem _ hy)

theorem last_cons (a x : α) (l : List α) : last a (x :: l) = last x l := by
  unfold last
  rw [List.getLast?_cons]
  rfl

theorem last_mem (a : α) (l : List α) : last a l ∈ a :: l := by
  induction l generalizing a with
  | nil => exact List.mem_cons_self
  | cons x l ih =>
      rw [last_cons]
      exact List.mem_cons_of_mem _ (ih x)

/-- A node in front of all. -/
theorem Path.cons {x : α} (h : Path f a l b) (ha : g a = some x) (hx : g x = f a)
    (hl : ∀ y ∈ l, g y = f y) : Path g a (x :: l) b := ⟨ha, h.congr hx hl⟩

/-- A node behind the last one. -/
theorem Path.concat {x c : α} (h : Path f a l b) (hnodup : (a :: l).Nodup)
    (hlast : g (last a l) = some x) (hx : g x = some c)
    (hl : ∀ y ∈ a :: l, y ≠ last a l → g y = f y) : Path g a (l ++ [x]) c := by
  induction l generalizing a with
  | nil => exact ⟨hlast, hx⟩
  | cons y l ih =>
      rw [last_cons] at hlast hl
      have hne : a ≠ last y l := by
        intro heq
        exact (List.nodup_cons.mp hnodup).1 (heq ▸ last_mem y l)
      refine ⟨(hl a List.mem_cons_self hne).trans h.1, ih h.2 hnodup.of_cons hlast ?_⟩
      exact fun z hz => hl z (List.mem_cons_of_mem _ hz)

theorem Path.last (h : Path f a l b) : f (last a l) = some b := by
  induction l generalizing a with
  | nil => exact h
  | cons x l ih =>
      rw [last_cons]
      exact ih h.2

theorem first_mem (l : List α) (b : α) : first l b ∈ b :: l := by
  cases l with
  | nil => exact List.mem_cons_self
  | cons x l => exact List.mem_cons_of_mem _ List.mem_cons_self

theorem last_reverse (a : α) (l : List α) : last a l.reverse = first l a := by
  unfold last LinkedList.first
  rw [List.getLast?_reverse]

end Paths

section Heap

variable {α δ : Type}

def nextOf (h : Heap α δ) (a : α) : Option α := (h a).map Node.next

def prevOf (h : Heap α δ) (a : α) : Option α := (h a).map Node.prev

def dataOf (h : Heap α δ) (a : α) : Option δ := (h a).map Node.data

/-- A node with a field is there. -/
theorem isSome_of_map {β : Type} {h : Heap α δ} {a : α} {field : Node α δ → β} {b : β}
    (hb : (h a).map field = some b) : (h a).isSome := by
  rw [Option.map_eq_some_iff] at hb
  obtain ⟨n, hn, -⟩ := hb
  rw [hn]
  rfl

/-- Behind the head there are these nodes with these data. -/
structure Represents (h : Heap α δ) (head : α) (cells : List (α × δ)) : Prop where
  nodup : (head :: cells.map Prod.fst).Nodup
  next : Path (nextOf h) head (cells.map Prod.fst) head
  prev : Path (prevOf h) head (cells.map Prod.fst).reverse head
  data : ∀ c ∈ cells, dataOf h c.1 = some c.2

variable [DecidableEq α]

def setNext (h : Heap α δ) (a next : α) : Option (Heap α δ) :=
  (h a).map fun n => Function.update h a (some { n with next := next })

def setPrev (h : Heap α δ) (a prev : α) : Option (Heap α δ) :=
  (h a).map fun n => Function.update h a (some { n with prev := prev })

def erase (h : Heap α δ) (a : α) : Heap α δ := Function.update h a none

variable {h h' : Heap α δ} {head a b : α} {cells : List (α × δ)}

theorem setNext_eq (ha : (h a).isSome) (b : α) : ∃ h', setNext h a b = some h' ∧
    (∀ x, nextOf h' x = if x = a then some b else nextOf h x) ∧ prevOf h' = prevOf h ∧
    dataOf h' = dataOf h ∧ ∀ x, (h' x).isSome = (h x).isSome := by
  obtain ⟨n, hn⟩ := Option.isSome_iff_exists.mp ha
  refine ⟨Function.update h a (some { n with next := b }), by rw [setNext, hn]; rfl, fun x => ?_,
    funext fun x => ?_, funext fun x => ?_, fun x => ?_⟩
  all_goals
    by_cases hx : x = a
    · subst hx
      simp [nextOf, prevOf, dataOf, hn]
    · simp [nextOf, prevOf, dataOf, hx]

theorem setPrev_eq (ha : (h a).isSome) (b : α) : ∃ h', setPrev h a b = some h' ∧
    nextOf h' = nextOf h ∧ (∀ x, prevOf h' x = if x = a then some b else prevOf h x) ∧
    dataOf h' = dataOf h ∧ ∀ x, (h' x).isSome = (h x).isSome := by
  obtain ⟨n, hn⟩ := Option.isSome_iff_exists.mp ha
  refine ⟨Function.update h a (some { n with prev := b }), by rw [setPrev, hn]; rfl,
    funext fun x => ?_, fun x => ?_, funext fun x => ?_, fun x => ?_⟩
  all_goals
    by_cases hx : x = a
    · subst hx
      simp [nextOf, prevOf, dataOf, hn]
    · simp [nextOf, prevOf, dataOf, hx]

structure Inserted (h h' : Heap α δ) (new a b : α) : Prop where
  next : ∀ x, nextOf h' x = if x = new then nextOf h a else if x = a then some new else nextOf h x
  prev : ∀ x, prevOf h' x = if x = new then prevOf h b else if x = b then some new else prevOf h x
  data : dataOf h' = dataOf h

section Insert

variable {new : α} {d : δ} (hrep : Represents h head cells)
include hrep

/-- Between the last node and the head. -/
theorem Represents.concat (hnew : new ∉ head :: cells.map Prod.fst) (hd : dataOf h new = some d)
    (hins : Inserted h h' new (last head (cells.map Prod.fst)) head) :
    Represents h' head (cells ++ [(new, d)]) := by
  obtain ⟨hhead, hnodes⟩ := not_or.mp (List.mem_cons.not.mp hnew)
  have hne : ∀ x ∈ head :: cells.map Prod.fst, x ≠ new := by
    rintro x hx rfl
    exact hnew hx
  refine ⟨?_, ?_, ?_, ?_⟩
  · rw [List.map_append, ← List.cons_append, List.nodup_append]
    refine ⟨hrep.nodup, by simp, fun x hx y hy => ?_⟩
    rw [List.mem_singleton.mp hy]
    exact hne x hx
  · rw [List.map_append]
    have hlast := last_mem head (cells.map Prod.fst)
    refine hrep.next.concat hrep.nodup ?_ ?_ fun x hx hxlast => ?_
    · rw [hins.next, if_neg (hne _ hlast), if_pos rfl]
    · rw [hins.next, if_pos rfl]
      exact hrep.next.last
    · rw [hins.next, if_neg (hne x hx), if_neg hxlast]
  · rw [List.map_append, List.reverse_append]
    refine hrep.prev.cons ?_ ?_ fun x hx => ?_
    · rw [hins.prev, if_neg (Ne.symm hhead), if_pos rfl]
    · rw [hins.prev, if_pos rfl]
    · have hmem := List.mem_reverse.mp hx
      have hxhead : x ≠ head := by
        rintro rfl
        exact (List.nodup_cons.mp hrep.nodup).1 hmem
      rw [hins.prev, if_neg (hne x (List.mem_cons_of_mem _ hmem)), if_neg hxhead]
  · intro c hc
    rw [hins.data]
    rcases List.mem_append.mp hc with hc | hc
    · exact hrep.data c hc
    · rw [List.mem_singleton.mp hc]
      exact hd

/-- Between the head and the first node. -/
theorem Represents.cons (hnew : new ∉ head :: cells.map Prod.fst) (hd : dataOf h new = some d)
    (hins : Inserted h h' new head (first (cells.map Prod.fst) head)) :
    Represents h' head ((new, d) :: cells) := by
  obtain ⟨hhead, hnodes⟩ := not_or.mp (List.mem_cons.not.mp hnew)
  have hne : ∀ x ∈ head :: cells.map Prod.fst, x ≠ new := by
    rintro x hx rfl
    exact hnew hx
  have hfirst := first_mem (cells.map Prod.fst) head
  refine ⟨?_, ?_, ?_, ?_⟩
  · rw [List.map_cons, List.nodup_cons, List.nodup_cons]
    obtain ⟨hnotMem, hnodup⟩ := List.nodup_cons.mp hrep.nodup
    refine ⟨?_, hnodes, hnodup⟩
    intro hmem
    rcases List.mem_cons.mp hmem with heq | hmem
    · exact hhead heq.symm
    · exact hnotMem hmem
  · rw [List.map_cons]
    refine hrep.next.cons ?_ ?_ fun x hx => ?_
    · rw [hins.next, if_neg (Ne.symm hhead), if_pos rfl]
    · rw [hins.next, if_pos rfl]
    · have hxhead : x ≠ head := by
        rintro rfl
        exact (List.nodup_cons.mp hrep.nodup).1 hx
      rw [hins.next, if_neg (hne x (List.mem_cons_of_mem _ hx)), if_neg hxhead]
  · rw [List.map_cons, List.reverse_cons]
    have hreverse : (head :: (cells.map Prod.fst).reverse).Nodup := by
      rw [List.nodup_cons, List.mem_reverse, List.nodup_reverse, ← List.nodup_cons]
      exact hrep.nodup
    rw [← last_reverse] at hins
    refine hrep.prev.concat hreverse ?_ ?_ fun x hx hxlast => ?_
    · rw [hins.prev, if_neg, if_pos rfl]
      rw [last_reverse]
      exact hne _ hfirst
    · rw [hins.prev, if_pos rfl]
      exact hrep.prev.last
    · have hmem : x ∈ head :: cells.map Prod.fst := by
        rcases List.mem_cons.mp hx with rfl | hx
        · exact List.mem_cons_self
        · exact List.mem_cons_of_mem _ (List.mem_reverse.mp hx)
      rw [hins.prev, if_neg (hne x hmem), if_neg hxlast]
  · intro c hc
    rw [hins.data]
    rcases List.mem_cons.mp hc with rfl | hc
    · exact hd
    · exact hrep.data c hc

end Insert

end Heap

section Loops

variable {α δ σ : Type}

def Ahead (h : Heap α δ) (head : α) : List (α × δ) → Prop
  | [] => (h head).isSome
  | c :: cells => nextOf h c.1 = some (first (cells.map Prod.fst) head) ∧
      dataOf h c.1 = some c.2 ∧ c.1 ≠ head ∧ c.1 ∉ cells.map Prod.fst ∧ Ahead h head cells

variable {h : Heap α δ} {head : α} {cells : List (α × δ)}

theorem Represents.ahead (hrep : Represents h head cells) : Ahead h head cells := by
  have hhead : (h head).isSome := isSome_of_map hrep.next.first
  have hgeneral : ∀ (a : α) (cells : List (α × δ)), (head :: cells.map Prod.fst).Nodup →
      Path (nextOf h) a (cells.map Prod.fst) head → (∀ c ∈ cells, dataOf h c.1 = some c.2) →
        Ahead h head cells := by
    intro a cells
    induction cells generalizing a with
    | nil => exact fun _ _ _ => hhead
    | cons c cells ih =>
        intro hnodup hpath hdata
        rw [List.map_cons, List.nodup_cons, List.nodup_cons] at hnodup
        obtain ⟨hne, hnot, hnodup⟩ := hnodup
        obtain ⟨hc, hl⟩ := not_or.mp (List.mem_cons.not.mp hne)
        refine ⟨hpath.2.first, hdata c List.mem_cons_self, Ne.symm hc, hnot, ?_⟩
        refine ih c.1 (List.nodup_cons.mpr ⟨hl, hnodup⟩) hpath.2 fun x hx => ?_
        exact hdata x (List.mem_cons_of_mem _ hx)
  exact hgeneral head cells hrep.nodup hrep.next hrep.data

theorem Ahead.first_isSome (hahead : Ahead h head cells) :
    (h (first (cells.map Prod.fst) head)).isSome := by
  cases cells with
  | nil => exact hahead
  | cons c cells => exact isSome_of_map hahead.1

variable [DecidableEq α]

/-- From `pos` a link at a time up to the head: the nodes on the way, or `none` when a node is
missing or the loop is not over in time. -/
def follow (link : α → Option α) (head : α) : ℕ → α → Option (List α)
  | 0, _ => none
  | fuel + 1, pos =>
      if pos = head then some []
      else do
        let pos' ← link pos
        let rest ← follow link head fuel pos'
        return pos :: rest

theorem Path.follow {f : α → Option α} {a b : α} {l : List α} (hpath : Path f a l b) (hb : b ∉ l)
    {fuel : ℕ} (hfuel : l.length < fuel) : follow f b fuel (LinkedList.first l b) = some l := by
  induction l generalizing a fuel with
  | nil =>
      obtain ⟨fuel, rfl⟩ := Nat.exists_eq_succ_of_ne_zero (Nat.ne_of_gt hfuel)
      exact if_pos rfl
  | cons x l ih =>
      obtain ⟨hx, hl⟩ := not_or.mp (List.mem_cons.not.mp hb)
      obtain ⟨fuel, rfl⟩ := Nat.exists_eq_succ_of_ne_zero (Nat.ne_of_gt (Nat.zero_lt_of_lt hfuel))
      have hrest := ih hpath.2 hl (Nat.lt_of_succ_lt_succ hfuel)
      have hnext := hpath.2.first
      have hfirst : LinkedList.first (x :: l) b = x := rfl
      rw [hfirst, LinkedList.follow, if_neg (Ne.symm hx), hnext]
      simp only [Option.bind_eq_bind, Option.bind_some, hrest]
      rfl

variable {C : Type} {R : C → Type}

def access {β : Type} : Option β → Prog C R β
  | some b => .pure b
  | none => .stop .undefined

@[simp] theorem access_some {β : Type} (b : β) : (access (some b) : Prog C R β) = pure b := rfl

/-- The loop that reads the link of a node before its body runs. -/
def forEachSafe (body : α → σ → Heap α δ → Prog C R (σ × Heap α δ)) (head : α) :
    ℕ → α → α → σ → Heap α δ → Prog C R (σ × Heap α δ)
  | 0, _, _, _, _ => .stop .unbounded
  | fuel + 1, pos, scratch, s, h =>
      if pos = head then return (s, h)
      else do
        let (s, h) ← body pos s h
        let next ← access (nextOf h scratch)
        forEachSafe body head fuel scratch next s h

/-- The nodes ahead do not depend on one that is not among them. -/
theorem Ahead.erase {a : α} (hahead : Ahead h head cells) (ha : a ≠ head)
    (hnot : a ∉ cells.map Prod.fst) : Ahead (erase h a) head cells := by
  induction cells with
  | nil =>
      unfold Ahead LinkedList.erase
      rw [Function.update_of_ne (Ne.symm ha)]
      exact hahead
  | cons c cells ih =>
      obtain ⟨hnext, hdata, hhead, hnodes, hrest⟩ := hahead
      obtain ⟨hc, hl⟩ := not_or.mp (List.mem_cons.not.mp hnot)
      have hsame : LinkedList.erase h a c.1 = h c.1 := Function.update_of_ne (Ne.symm hc) _ _
      refine ⟨?_, ?_, hhead, hnodes, ih hrest hl⟩
      · unfold nextOf at hnext ⊢
        rw [hsame]
        exact hnext
      · unfold dataOf at hdata ⊢
        rw [hsame]
        exact hdata

def eraseAll (h : Heap α δ) (cells : List (α × δ)) : Heap α δ :=
  cells.foldl (fun h c => erase h c.1) h

theorem eraseAll_eq (h : Heap α δ) (cells : List (α × δ)) (a : α) :
    eraseAll h cells a = if a ∈ cells.map Prod.fst then none else h a := by
  induction cells generalizing h with
  | nil => rfl
  | cons c cells ih =>
      have hcons : eraseAll h (c :: cells) = eraseAll (erase h c.1) cells := rfl
      rw [hcons, ih, List.map_cons]
      by_cases ha : a ∈ cells.map Prod.fst
      · rw [if_pos ha, if_pos (List.mem_cons_of_mem _ ha)]
      · rw [if_neg ha]
        by_cases hac : a = c.1
        · rw [if_pos (hac ▸ List.mem_cons_self), hac, erase, Function.update_self]
        · rw [if_neg (not_or.mpr ⟨hac, ha⟩ ∘ List.mem_cons.mp), erase,
            Function.update_of_ne hac]

def Erases (body : α → σ → Heap α δ → Prog C R (σ × Heap α δ)) (use : α × δ → σ → Prog C R σ) :
    Prop :=
  ∀ a d s h, dataOf h a = some d → body a s h = use (a, d) s >>= fun s' => pure (s', erase h a)

/-- A loop that frees the nodes it is at uses the data of each in order, and frees them all. -/
theorem forEachSafe_erases {body : α → σ → Heap α δ → Prog C R (σ × Heap α δ)}
    {use : α × δ → σ → Prog C R σ} (hbody : Erases body use) (hahead : Ahead h head cells)
    {scratch : α} (hscratch : nextOf h (first (cells.map Prod.fst) head) = some scratch)
    {fuel : ℕ} (hfuel : cells.length < fuel) (s : σ) :
    forEachSafe body head fuel (first (cells.map Prod.fst) head) scratch s h =
      cells.foldlM (fun s c => use c s) s >>= fun s' => pure (s', eraseAll h cells) := by
  induction cells generalizing h scratch fuel s with
  | nil =>
      obtain ⟨fuel, rfl⟩ := Nat.exists_eq_succ_of_ne_zero (Nat.ne_of_gt hfuel)
      exact if_pos rfl
  | cons c cells ih =>
      obtain ⟨fuel, rfl⟩ := Nat.exists_eq_succ_of_ne_zero (Nat.ne_of_gt (Nat.zero_lt_of_lt hfuel))
      obtain ⟨hnext, hdata, hhead, hnodes, hrest⟩ := hahead
      have herased := hrest.erase hhead hnodes
      have hscratch' : scratch = first (cells.map Prod.fst) head :=
        Option.some_injective _ (hscratch.symm.trans hnext)
      obtain ⟨n, hn⟩ := Option.isSome_iff_exists.mp herased.first_isSome
      have hload : nextOf (erase h c.1) (first (cells.map Prod.fst) head) = some n.next := by
        unfold nextOf
        rw [hn]
        rfl
      have hloop := fun s => ih herased hload (Nat.lt_of_succ_lt_succ hfuel) s
      have hfirst : first ((c :: cells).map Prod.fst) head = c.1 := rfl
      rw [hfirst, forEachSafe, if_neg hhead, hbody c.1 c.2 s h hdata, hscratch', List.foldlM_cons]
      simp only [bind_assoc, pure_bind, hload, access_some, hloop]
      rfl

end Loops

end LinkedList
