import Mathlib.Logic.Relation
import Mathlib.Tactic

/-!
# Shift-reduce parsers

The run of a table of shifts, default reductions and gotos over a sequence of tokens with values.
A reduction takes the values of its right side off the stack and may change a global state. The
items of the states say what a stack spells: from them a parser never misses a goto, and where
each reduction loses weight it stops on every input.
-/

namespace ShiftReduce

inductive Symbol (T N : Type)
  | terminal (t : T)
  | nonterminal (n : N)
deriving DecidableEq, Repr

/-- What a state does: shift one of some tokens, else reduce by its default rule. -/
structure Row (S T N R : Type) where
  shifts : List (T × S)
  default : Option R
  gotos : List (N × S)
  accepts : Bool

structure Parser (S T N R V G : Type) where
  lhs : R → N
  rhs : R → List (Symbol T N)
  start : S
  row : S → Row S T N R
  action : R → List V → G → V × G

structure Config (S T V G : Type) where
  stack : List (S × V)
  rest : List (T × V)
  state : G

variable {S T N R V G : Type} [DecidableEq T] [DecidableEq N] (p : Parser S T N R V G)

namespace Parser

def top : List (S × V) → S
  | [] => p.start
  | (s, _) :: _ => s

def next (s : S) : Symbol T N → Option S
  | .terminal t => (p.row s).shifts.lookup t
  | .nonterminal n => (p.row s).gotos.lookup n

/-- The values of the right side are replaced by that of the left one. -/
def reduce (c : Config S T V G) (r : R) : Bool ⊕ Config S T V G :=
  let count := (p.rhs r).length
  let below := c.stack.drop count
  match p.next (p.top below) (.nonterminal (p.lhs r)) with
  | some s =>
      let (v, state) := p.action r ((c.stack.take count).reverse.map Prod.snd) c.state
      .inr ⟨(s, v) :: below, c.rest, state⟩
  | none => .inl false

def byDefault (c : Config S T V G) : Bool ⊕ Config S T V G :=
  match (p.row (p.top c.stack)).default with
  | some r => p.reduce c r
  | none => .inl false

def step (c : Config S T V G) : Bool ⊕ Config S T V G :=
  match c.rest with
  | [] => if (p.row (p.top c.stack)).accepts then .inl true else p.byDefault c
  | (t, v) :: rest =>
      match p.next (p.top c.stack) (.terminal t) with
      | some s => .inr ⟨(s, v) :: c.stack, rest, c.state⟩
      | none => p.byDefault c

def run : ℕ → Config S T V G → Option (Bool × G)
  | 0, _ => none
  | n + 1, c =>
      match p.step c with
      | .inl accepted => some (accepted, c.state)
      | .inr c' => run n c'

def Steps : Config S T V G → Config S T V G → Prop :=
  Relation.ReflTransGen fun c c' => p.step c = .inr c'

variable {p}

theorem Steps.refl (c : Config S T V G) : p.Steps c c := Relation.ReflTransGen.refl

theorem Steps.trans {c c' c'' : Config S T V G} (h : p.Steps c c') (h' : p.Steps c' c'') :
    p.Steps c c'' := Relation.ReflTransGen.trans h h'

theorem Steps.next {c c' c'' : Config S T V G} (h : p.step c = .inr c') (h' : p.Steps c' c'') :
    p.Steps c c'' := Relation.ReflTransGen.head h h'

theorem run_mono {n m : ℕ} {c : Config S T V G} {result : Bool × G} (h : p.run n c = some result)
    (hle : n ≤ m) : p.run m c = some result := by
  induction n generalizing c m with
  | zero => cases h
  | succ n ih =>
      obtain ⟨k, rfl⟩ : ∃ k, m = k + 1 := ⟨m - 1, by omega⟩
      rw [run] at h ⊢
      cases hstep : p.step c with
      | inl accepted =>
          rw [hstep] at h
          exact h
      | inr c' =>
          rw [hstep] at h
          exact ih h (by omega)

theorem Steps.run {c c' : Config S T V G} {accepted : Bool} (h : p.Steps c c')
    (hdone : p.step c' = .inl accepted) : ∃ n, p.run n c = some (accepted, c'.state) := by
  induction h using Relation.ReflTransGen.head_induction_on with
  | refl => exact ⟨1, by rw [Parser.run, hdone]⟩
  | head hstep _ ih =>
      obtain ⟨n, hn⟩ := ih
      exact ⟨n + 1, by rw [Parser.run, hstep]; exact hn⟩

theorem steps_of_run {n : ℕ} {c : Config S T V G} {result : Bool × G}
    (h : p.run n c = some result) :
    ∃ c', p.Steps c c' ∧ p.step c' = .inl result.1 ∧ c'.state = result.2 := by
  induction n generalizing c with
  | zero => cases h
  | succ n ih =>
      rw [run] at h
      cases hstep : p.step c with
      | inl accepted =>
          rw [hstep] at h
          obtain rfl := Option.some.inj h
          exact ⟨c, .refl c, hstep, rfl⟩
      | inr c' =>
          rw [hstep] at h
          obtain ⟨last, hsteps, hdone⟩ := ih h
          exact ⟨last, .next hstep hsteps, hdone⟩

/-- A run has one result. -/
theorem run_unique {n m : ℕ} {c : Config S T V G} {result result' : Bool × G}
    (h : p.run n c = some result) (h' : p.run m c = some result') : result = result' := by
  have hleft := run_mono h (Nat.le_max_left n m)
  have hright := run_mono h' (Nat.le_max_right n m)
  exact Option.some.inj (hleft.symm.trans hright)

theorem Steps.shift {stack : List (S × V)} {t : T} {v : V} {rest : List (T × V)} {state : G} {s : S}
    (hnext : p.next (p.top stack) (.terminal t) = some s) :
    p.Steps ⟨stack, (t, v) :: rest, state⟩ ⟨(s, v) :: stack, rest, state⟩ := by
  refine .next ?_ (.refl _)
  simp only [step, hnext]

variable (p) in
def NoShift (s : S) : List (T × V) → Prop
  | [] => (p.row s).accepts = false
  | (t, _) :: _ => p.next s (.terminal t) = none

theorem noShift_of_nil {s : S} (hshifts : (p.row s).shifts = []) (haccepts : (p.row s).accepts = false)
    (rest : List (T × V)) : p.NoShift s rest := by
  cases rest with
  | nil => exact haccepts
  | cons token rest =>
      rw [NoShift, Parser.next, hshifts]
      rfl

theorem Steps.reduce {stack : List (S × V)} {rest : List (T × V)} {state : G} {r : R} {s : S}
    (hno : p.NoShift (p.top stack) rest) (hdefault : (p.row (p.top stack)).default = some r)
    (hnext : p.next (p.top (stack.drop (p.rhs r).length)) (.nonterminal (p.lhs r)) = some s) :
    p.Steps ⟨stack, rest, state⟩
      ⟨(s, (p.action r ((stack.take (p.rhs r).length).reverse.map Prod.snd) state).1) ::
          stack.drop (p.rhs r).length, rest,
        (p.action r ((stack.take (p.rhs r).length).reverse.map Prod.snd) state).2⟩ := by
  have hstep : p.step ⟨stack, rest, state⟩ = p.reduce ⟨stack, rest, state⟩ r := by
    cases rest with
    | nil =>
        have haccepts : (p.row (p.top stack)).accepts = false := hno
        simp only [step, byDefault, hdefault, haccepts, Bool.false_eq_true, if_false]
    | cons token rest =>
        have hnone : p.next (p.top stack) (.terminal token.1) = none := hno
        simp only [step, byDefault, hdefault, hnone]
  refine .next ?_ (.refl _)
  rw [hstep]
  simp only [Parser.reduce, hnext]

variable (p)

def Path : List (S × V) → Prop
  | [] => True
  | frame :: below => (∃ x, p.next (p.top below) x = some frame.1) ∧ Path below

/-- The symbol that leads to each state, and rules with the part of their right side that has been
read there. -/
structure Items where
  symbol : S → Symbol T N
  kernel : S → List (R × ℕ)
  /-- An item goes back to the one before its last symbol. -/
  edge : ∀ s x s', p.next s x = some s' → symbol s' = x ∧ ∀ item ∈ kernel s',
    0 < item.2 ∧ (p.rhs item.1)[item.2 - 1]? = some x ∧ ((item.1, item.2 - 1) ∈ kernel s ∨
      item.2 = 1 ∧ (p.next s (.nonterminal (p.lhs item.1))).isSome)
  complete : ∀ s r, (p.row s).default = some r → (r, (p.rhs r).length) ∈ kernel s ∨
    p.rhs r = [] ∧ (p.next s (.nonterminal (p.lhs r))).isSome

variable {p}

theorem next_cases {s s' : S} {x : Symbol T N} (h : p.next s x = some s') :
    (∃ t, x = .terminal t ∧ (t, s') ∈ (p.row s).shifts) ∨
      ∃ n, x = .nonterminal n ∧ (n, s') ∈ (p.row s).gotos := by
  cases x with
  | terminal t =>
      obtain ⟨before, behind, hsplit, -⟩ := List.lookup_eq_some_iff.mp h
      exact .inl ⟨t, rfl, hsplit ▸ List.mem_append_right before List.mem_cons_self⟩
  | nonterminal n =>
      obtain ⟨before, behind, hsplit, -⟩ := List.lookup_eq_some_iff.mp h
      exact .inr ⟨n, rfl, hsplit ▸ List.mem_append_right before List.mem_cons_self⟩

variable (items : p.Items)

theorem Path.drop {stack : List (S × V)} (h : p.Path stack) (n : ℕ) : p.Path (stack.drop n) := by
  induction n generalizing stack with
  | zero => exact h
  | succ n ih =>
      cases stack with
      | nil => exact h
      | cons frame below => exact ih h.2

namespace Items

/-- The states on top of a stack are those of what an item has read. -/
theorem spells (hstart : items.kernel p.start = []) {stack : List (S × V)} (h : p.Path stack)
    {r : R} {k : ℕ} (hitem : (r, k) ∈ items.kernel (p.top stack)) :
    (stack.take k).map (fun frame => items.symbol frame.1) = ((p.rhs r).take k).reverse ∧
      (p.next (p.top (stack.drop k)) (.nonterminal (p.lhs r))).isSome := by
  induction k generalizing stack with
  | zero =>
      cases stack with
      | nil =>
          rw [top, hstart] at hitem
          cases hitem
      | cons frame below =>
          obtain ⟨⟨x, hx⟩, -⟩ := h
          exact absurd ((items.edge _ x _ hx).2 _ hitem).1 (Nat.lt_irrefl 0)
  | succ k ih =>
      cases stack with
      | nil =>
          rw [top, hstart] at hitem
          cases hitem
      | cons frame below =>
          obtain ⟨⟨x, hx⟩, hbelow⟩ := h
          obtain ⟨hsymbol, hkernel⟩ := items.edge _ x _ hx
          obtain ⟨-, hread, hback⟩ := hkernel _ hitem
          rw [Nat.add_sub_cancel] at hread hback
          rw [List.take_succ_cons, List.map_cons, List.drop_succ_cons, List.take_add_one, hread,
            Option.toList_some, List.reverse_append, List.reverse_singleton, hsymbol]
          rcases hback with hmem | ⟨hone, hgoto⟩
          · obtain ⟨hspell, hnext⟩ := ih hbelow hmem
            rw [hspell]
            exact ⟨rfl, hnext⟩
          · obtain rfl : k = 0 := Nat.succ.inj hone
            exact ⟨rfl, hgoto⟩

/-- A default reduction finds its right side on the stack and a state to go to. -/
theorem reduces (hstart : items.kernel p.start = []) {stack : List (S × V)} (h : p.Path stack)
    {r : R} (hdefault : (p.row (p.top stack)).default = some r) :
    (stack.take (p.rhs r).length).map (fun frame => items.symbol frame.1) = (p.rhs r).reverse ∧
      ∃ s, p.next (p.top (stack.drop (p.rhs r).length)) (.nonterminal (p.lhs r)) = some s := by
  rw [← Option.isSome_iff_exists]
  rcases items.complete _ r hdefault with hmem | ⟨hnil, hgoto⟩
  · have hspell := items.spells hstart h hmem
    rwa [List.take_length] at hspell
  · rw [hnil]
    exact ⟨rfl, hgoto⟩

/-- What a step does: it stops, shifts a token, or reduces by the default rule of its state. -/
theorem step_cases (hstart : items.kernel p.start = []) {c : Config S T V G}
    (h : p.Path c.stack) :
    (∃ accepted, p.step c = .inl accepted) ∨
      (∃ t v rest s, c.rest = (t, v) :: rest ∧ p.next (p.top c.stack) (.terminal t) = some s ∧
        p.step c = .inr ⟨(s, v) :: c.stack, rest, c.state⟩) ∨
      ∃ r s v state, (p.row (p.top c.stack)).default = some r ∧
        p.next (p.top (c.stack.drop (p.rhs r).length)) (.nonterminal (p.lhs r)) = some s ∧
        (v, state) = p.action r ((c.stack.take (p.rhs r).length).reverse.map Prod.snd) c.state ∧
        p.step c = .inr ⟨(s, v) :: c.stack.drop (p.rhs r).length, c.rest, state⟩ := by
  have hdefault : p.step c = p.byDefault c → (∃ accepted, p.step c = .inl accepted) ∨
      ∃ r s v state, (p.row (p.top c.stack)).default = some r ∧
        p.next (p.top (c.stack.drop (p.rhs r).length)) (.nonterminal (p.lhs r)) = some s ∧
        (v, state) = p.action r ((c.stack.take (p.rhs r).length).reverse.map Prod.snd) c.state ∧
        p.step c = .inr ⟨(s, v) :: c.stack.drop (p.rhs r).length, c.rest, state⟩ := by
    intro hstep
    rw [byDefault] at hstep
    cases hr : (p.row (p.top c.stack)).default with
    | none =>
        rw [hr] at hstep
        exact .inl ⟨false, hstep⟩
    | some r =>
        rw [hr] at hstep
        obtain ⟨-, s, hs⟩ := items.reduces hstart h hr
        refine .inr ⟨r, s, _, _, rfl, hs, rfl, ?_⟩
        rw [hstep]
        simp only [reduce, hs]
  cases hrest : c.rest with
  | nil =>
      by_cases haccept : (p.row (p.top c.stack)).accepts
      · refine .inl ⟨true, ?_⟩
        simp only [step, hrest, haccept, if_true]
      · have hstep : p.step c = p.byDefault c := by simp only [step, hrest, haccept]; rfl
        rcases hdefault hstep with hstop | hreduce
        · exact .inl hstop
        · exact .inr (.inr (hrest ▸ hreduce))
  | cons token rest =>
      obtain ⟨t, v⟩ := token
      cases hnext : p.next (p.top c.stack) (.terminal t) with
      | some s =>
          refine .inr (.inl ⟨t, v, rest, s, rfl, hnext, ?_⟩)
          simp only [step, hrest, hnext]
      | none =>
          have hstep : p.step c = p.byDefault c := by simp only [step, hrest, hnext]
          rcases hdefault hstep with hstop | hreduce
          · exact .inl hstop
          · exact .inr (.inr (hrest ▸ hreduce))

theorem step_path (hstart : items.kernel p.start = []) {c c' : Config S T V G}
    (h : p.Path c.stack) (hstep : p.step c = .inr c') : p.Path c'.stack := by
  rcases items.step_cases hstart h with ⟨accepted, hstop⟩ | ⟨t, v, rest, s, -, hnext, hshift⟩ |
      ⟨r, s, v, state, -, hnext, -, hreduce⟩
  · cases hstop.symm.trans hstep
  · obtain rfl := Sum.inr.inj (hshift.symm.trans hstep)
    exact ⟨⟨_, hnext⟩, h⟩
  · obtain rfl := Sum.inr.inj (hreduce.symm.trans hstep)
    exact ⟨⟨_, hnext⟩, h.drop _⟩

end Items

variable (p)

/-- Weights for the symbols: a rule weighs less than its right side, and every terminal symbol
less than `token`. Empty rules weigh nothing and do not lead to another one. -/
structure Weights where
  weight : Symbol T N → ℕ
  token : ℕ
  empties : S → Bool
  terminal : ∀ t, weight (.terminal t) < token
  rule : ∀ r, p.rhs r ≠ [] → weight (.nonterminal (p.lhs r)) < ((p.rhs r).map weight).sum
  empty : ∀ r, p.rhs r = [] → weight (.nonterminal (p.lhs r)) = 0
  ready : ∀ s r, (p.row s).default = some r → p.rhs r = [] → empties s = true
  leads : ∀ s r s', (p.row s).default = some r → p.rhs r = [] →
    p.next s (.nonterminal (p.lhs r)) = some s' → empties s' = false

variable {p}

namespace Weights

def stack (w : p.Weights) (frames : List (S × V)) : ℕ :=
  (frames.map fun frame => w.weight (items.symbol frame.1)).sum

def measure (w : p.Weights) (c : Config S T V G) : ℕ :=
  2 * (w.stack items c.stack + w.token * c.rest.length) +
    if w.empties (p.top c.stack) then 1 else 0

variable {items}

theorem stack_drop (w : p.Weights) (hstart : items.kernel p.start = []) {frames : List (S × V)}
    (h : p.Path frames) {r : R} (hdefault : (p.row (p.top frames)).default = some r) :
    w.stack items frames =
      ((p.rhs r).map w.weight).sum + w.stack items (frames.drop (p.rhs r).length) := by
  obtain ⟨hspell, -⟩ := items.reduces hstart h hdefault
  have htaken : w.stack items (frames.take (p.rhs r).length) = ((p.rhs r).map w.weight).sum := by
    have hmap := congrArg (fun symbols => (symbols.map w.weight).sum) hspell
    rw [List.map_map, List.map_reverse, List.sum_reverse] at hmap
    exact hmap
  conv_lhs => rw [← List.take_append_drop (p.rhs r).length frames]
  rw [stack, List.map_append, List.sum_append, ← htaken]
  rfl

theorem measure_step (w : p.Weights) (hstart : items.kernel p.start = []) {c c' : Config S T V G}
    (h : p.Path c.stack) (hstep : p.step c = .inr c') : w.measure items c' < w.measure items c := by
  rcases items.step_cases hstart h with ⟨accepted, hstop⟩ | ⟨t, v, rest, s, hrest, hnext, hshift⟩ |
      ⟨r, s, v, state, hdefault, hnext, -, hreduce⟩
  · cases hstop.symm.trans hstep
  · obtain rfl := Sum.inr.inj (hshift.symm.trans hstep)
    have hsymbol := (items.edge _ _ _ hnext).1
    have hlight := w.terminal t
    have hstack : w.stack items ((s, v) :: c.stack) =
        w.weight (.terminal t) + w.stack items c.stack := by
      rw [stack, List.map_cons, List.sum_cons, hsymbol]
      rfl
    have hlength : w.token * c.rest.length = w.token * rest.length + w.token := by
      rw [hrest, List.length_cons, Nat.mul_succ]
    rw [measure, measure, hstack, hlength]
    dsimp only
    split <;> split <;> omega
  · obtain rfl := Sum.inr.inj (hreduce.symm.trans hstep)
    have hsymbol := (items.edge _ _ _ hnext).1
    have hstack : w.stack items ((s, v) :: c.stack.drop (p.rhs r).length) =
        w.weight (.nonterminal (p.lhs r)) + w.stack items (c.stack.drop (p.rhs r).length) := by
      rw [stack, List.map_cons, List.sum_cons, hsymbol]
      rfl
    rw [measure, measure, w.stack_drop hstart h hdefault, hstack]
    by_cases hempty : p.rhs r = []
    · rw [hempty, List.length_nil, List.drop_zero] at hnext
      have hleads : w.empties (p.top ((s, v) :: c.stack)) = false :=
        w.leads _ r s hdefault hempty hnext
      rw [w.empty r hempty, w.ready _ r hdefault hempty, hempty, List.map_nil, List.sum_nil,
        List.length_nil, List.drop_zero, hleads, if_pos rfl, if_neg Bool.false_ne_true]
      dsimp only
      omega
    · have hrule := w.rule r hempty
      simp only [Nat.mul_add]
      split <;> split <;> omega

/-- The parser stops. -/
theorem run_total (w : p.Weights) (hstart : items.kernel p.start = []) {c : Config S T V G}
    (h : p.Path c.stack) {n : ℕ} (hn : w.measure items c < n) : ∃ result, p.run n c = some result := by
  induction n generalizing c with
  | zero => exact absurd hn (Nat.not_lt_zero _)
  | succ n ih =>
      rw [run]
      cases hstep : p.step c with
      | inl accepted => exact ⟨_, rfl⟩
      | inr c' =>
          have hless := w.measure_step hstart h hstep
          exact ih (items.step_path hstart h hstep) (by omega)

end Weights

variable (p)

/-- What is said of the value of a symbol, and of the global state where the parser is in some
state. -/
structure Attributes (items : p.Items) where
  value : Symbol T N → V → Prop
  state : S → G → Prop
  shift : ∀ s t s' g, p.next s (.terminal t) = some s' → state s g → state s' g
  reduce : ∀ s r s' g values, (p.row s).default = some r → List.Forall₂ value (p.rhs r) values →
    state s g → items.symbol s' = .nonterminal (p.lhs r) →
    value (.nonterminal (p.lhs r)) (p.action r values g).1 ∧ state s' (p.action r values g).2

variable {p}

namespace Attributes
variable {items}

structure Holds (a : p.Attributes items) (c : Config S T V G) : Prop where
  path : p.Path c.stack
  stack : ∀ frame ∈ c.stack, a.value (items.symbol frame.1) frame.2
  rest : ∀ token ∈ c.rest, a.value (.terminal token.1) token.2
  state : a.state (p.top c.stack) c.state

variable (a : p.Attributes items) (hstart : items.kernel p.start = [])
include hstart

/-- The values of a right side on the stack. -/
theorem forall₂_values {c : Config S T V G} (h : a.Holds c) {r : R}
    (hdefault : (p.row (p.top c.stack)).default = some r) :
    List.Forall₂ a.value (p.rhs r) ((c.stack.take (p.rhs r).length).reverse.map Prod.snd) := by
  have hspell := congrArg List.reverse (items.reduces hstart h.path hdefault).1
  rw [List.reverse_reverse, ← List.map_reverse] at hspell
  have hsame : List.Forall₂ a.value
      ((c.stack.take (p.rhs r).length).reverse.map fun frame => items.symbol frame.1)
      ((c.stack.take (p.rhs r).length).reverse.map Prod.snd) := by
    rw [List.forall₂_map_left_iff, List.forall₂_map_right_iff, List.forall₂_same]
    exact fun frame hmem => h.stack frame (List.mem_of_mem_take (List.mem_reverse.mp hmem))
  rwa [hspell] at hsame

theorem holds_step {c c' : Config S T V G} (h : a.Holds c) (hstep : p.step c = .inr c') :
    a.Holds c' := by
  have hpath := items.step_path hstart h.path hstep
  rcases items.step_cases hstart h.path with ⟨accepted, hstop⟩ |
      ⟨t, v, rest, s, hrest, hnext, hshift⟩ | ⟨r, s, v, state, hdefault, hnext, haction, hreduce⟩
  · cases hstop.symm.trans hstep
  · obtain rfl := Sum.inr.inj (hshift.symm.trans hstep)
    have htokens := h.rest
    rw [hrest, List.forall_mem_cons] at htokens
    refine ⟨hpath, ?_, htokens.2, a.shift _ t s _ hnext h.state⟩
    rw [List.forall_mem_cons, (items.edge _ _ _ hnext).1]
    exact ⟨htokens.1, h.stack⟩
  · obtain rfl := Sum.inr.inj (hreduce.symm.trans hstep)
    have hsymbol := (items.edge _ _ _ hnext).1
    have hvalues := a.forall₂_values hstart h hdefault
    have hnew := a.reduce _ r s c.state _ hdefault hvalues h.state hsymbol
    rw [← haction] at hnew
    refine ⟨hpath, ?_, h.rest, hnew.2⟩
    rw [List.forall_mem_cons, hsymbol]
    exact ⟨hnew.1, fun frame hmem => h.stack frame (List.mem_of_mem_drop hmem)⟩

theorem holds_steps {c c' : Config S T V G} (h : a.Holds c) (hsteps : p.Steps c c') :
    a.Holds c' := by
  induction hsteps with
  | refl => exact h
  | tail _ hstep ih => exact a.holds_step hstart ih hstep

/-- Where the parser stops, and where it accepts. -/
theorem state_of_run {n : ℕ} {c : Config S T V G} {result : Bool × G} (h : a.Holds c)
    (hrun : p.run n c = some result) :
    ∃ s, a.state s result.2 ∧ (result.1 = true → (p.row s).accepts = true) := by
  obtain ⟨c', hsteps, hstop, hstate⟩ := steps_of_run hrun
  refine ⟨p.top c'.stack, hstate ▸ (a.holds_steps hstart h hsteps).state, fun haccepted => ?_⟩
  rw [haccepted] at hstop
  by_contra hno
  have hdefault : p.byDefault c' ≠ .inl true := by
    unfold byDefault Parser.reduce
    split
    · dsimp only
      split <;> simp
    · simp
  unfold step at hstop
  split at hstop
  · rw [if_neg hno] at hstop
    exact hdefault hstop
  · split at hstop
    · cases hstop
    · exact hdefault hstop

end Attributes
end Parser
end ShiftReduce
