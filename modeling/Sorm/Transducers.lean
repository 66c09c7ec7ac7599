import Mathlib.Tactic

/-!
# Transducers

Machines that read their input piece by piece, write pieces of output and may reject. One machine
can read what another writes. A simulation says that a machine on rewritten input does what the
other one does on the input itself.
-/

/-- `finish` is what is written at the end of the input, if it may end there. -/
structure Transducer (σ I O : Type) where
  start : σ
  step : σ → I → Option (List O × σ)
  finish : σ → Option (List O)

namespace Transducer

variable {σ τ I O P : Type}

section Run
variable (t : Transducer σ I O)

def run : σ → List I → Option (List O × σ)
  | s, [] => some ([], s)
  | s, i :: is => (t.step s i).bind fun r => (run r.2 is).map fun r' => (r.1 ++ r'.1, r'.2)

def outputFrom (s : σ) (is : List I) : Option (List O) :=
  (t.run s is).bind fun r => (t.finish r.2).map (r.1 ++ ·)

def output (is : List I) : Option (List O) := t.outputFrom t.start is

def Passes (s : σ) (is : List I) (os : List O) (s' : σ) : Prop := t.run s is = some (os, s')

def Reads (is : List I) (os : List O) : Prop := t.Passes t.start is os t.start

variable {t} {s s' s'' : σ} {is js : List I} {os ps : List O}

@[simp] theorem run_nil : t.run s [] = some ([], s) := rfl

theorem run_append : t.run s (is ++ js) =
    (t.run s is).bind fun r => (t.run r.2 js).map fun r' => (r.1 ++ r'.1, r'.2) := by
  induction is generalizing s with
  | nil => simp
  | cons i is ih =>
      rw [List.cons_append, run, run]
      cases t.step s i with
      | none => rfl
      | some r =>
          simp only [Option.bind_some]
          rw [ih]
          cases t.run r.2 is with
          | none => rfl
          | some r' =>
              simp only [Option.bind_some, Option.map_some]
              cases t.run r'.2 js with
              | none => rfl
              | some r'' => simp

theorem run_singleton (i : I) : t.run s [i] = t.step s i := by
  rw [run]
  cases t.step s i with
  | none => rfl
  | some r => simp

theorem Passes.nil : t.Passes s [] [] s := rfl

theorem Passes.append (h : t.Passes s is os s') (h' : t.Passes s' js ps s'') :
    t.Passes s (is ++ js) (os ++ ps) s'' := by
  rw [Passes, run_append, h, Option.bind_some, h', Option.map_some]

theorem Passes.cons {i : I} (h : t.step s i = some (os, s')) (h' : t.Passes s' js ps s'') :
    t.Passes s (i :: js) (os ++ ps) s'' := by
  rw [Passes, run, h, Option.bind_some, h', Option.map_some]

theorem Passes.uncons {i : I} (h : t.Passes s (i :: is) os s') : ∃ first next rest,
    t.step s i = some (first, next) ∧ t.Passes next is rest s' ∧ os = first ++ rest := by
  obtain ⟨⟨first, next⟩, hstep, hrest⟩ := Option.bind_eq_some_iff.mp h
  obtain ⟨⟨rest, last⟩, hrun, heq⟩ := Option.map_eq_some_iff.mp hrest
  obtain ⟨rfl, rfl⟩ := Prod.mk.inj heq
  exact ⟨first, next, rest, hstep, hrun, rfl⟩

theorem Passes.split (h : t.Passes s (is ++ js) os s'') : ∃ s' first rest,
    t.Passes s is first s' ∧ t.Passes s' js rest s'' ∧ os = first ++ rest := by
  rw [Passes, run_append] at h
  obtain ⟨⟨first, s'⟩, hfirst, hrest⟩ := Option.bind_eq_some_iff.mp h
  obtain ⟨⟨rest, last⟩, hrun, heq⟩ := Option.map_eq_some_iff.mp hrest
  obtain ⟨rfl, rfl⟩ := Prod.mk.inj heq
  exact ⟨s', first, rest, hfirst, hrun, rfl⟩

theorem Passes.unique {os' : List O} (h : t.Passes s is os s') (h' : t.Passes s is os' s'') :
    os = os' ∧ s' = s'' :=
  Prod.mk.inj (Option.some.inj (h.symm.trans h'))

theorem Passes.eq_nil (h : t.Passes s [] os s') : os = [] ∧ s = s' := by
  obtain ⟨rfl, rfl⟩ := Prod.mk.inj (Option.some.inj h)
  exact ⟨rfl, rfl⟩

theorem Reads.append (h : t.Reads is os) (h' : t.Reads js ps) : t.Reads (is ++ js) (os ++ ps) :=
  Passes.append h h'

/-- A loop over parts that are read on their own. -/
theorem Reads.flatMap {α : Type} {xs : List α} {part : α → List I} {items : α → List O}
    (h : ∀ x ∈ xs, t.Reads (part x) (items x)) : t.Reads (xs.flatMap part) (xs.flatMap items) := by
  induction xs with
  | nil => exact Passes.nil
  | cons x xs ih =>
      rw [List.flatMap_cons, List.flatMap_cons]
      exact (h x List.mem_cons_self).append (ih fun y hy => h y (List.mem_cons_of_mem _ hy))

theorem Passes.outputFrom_append (h : t.Passes s is os s') :
    t.outputFrom s (is ++ js) = (t.outputFrom s' js).map (os ++ ·) := by
  rw [outputFrom, run_append, h, Option.bind_some, outputFrom]
  cases t.run s' js with
  | none => rfl
  | some r =>
      simp only [Option.map_some, Option.bind_some]
      cases t.finish r.2 with
      | none => rfl
      | some last => simp

theorem Reads.output_append (h : t.Reads is os) :
    t.output (is ++ js) = (t.output js).map (os ++ ·) := Passes.outputFrom_append h

theorem Reads.output_eq (h : t.Reads is os) (hnil : t.output [] = some []) :
    t.output is = some os := by
  have houtput : t.output (is ++ []) = _ := h.output_append
  rw [List.append_nil, hnil, Option.map_some, List.append_nil] at houtput
  exact houtput

theorem output_of_run_eq_none (h : t.run t.start is = none) (js : List I) :
    t.output (is ++ js) = none := by
  rw [output, outputFrom, run_append, h]
  rfl

end Run

section Comp

variable (t : Transducer σ I O) (u : Transducer τ O P)

def comp : Transducer (σ × τ) I P where
  start := (t.start, u.start)
  step s i := (t.step s.1 i).bind fun r => (u.run s.2 r.1).map fun r' => (r'.1, (r.2, r'.2))
  finish s := (t.finish s.1).bind fun os => u.outputFrom s.2 os

variable {t u} {s s' : σ} {q q' : τ} {is : List I} {os : List O} {ps : List P}

theorem comp_run (s : σ) (q : τ) (is : List I) : (t.comp u).run (s, q) is =
    (t.run s is).bind fun r => (u.run q r.1).map fun r' => (r'.1, (r.2, r'.2)) := by
  induction is generalizing s q with
  | nil => rfl
  | cons i is ih =>
      have hstep : (t.comp u).step (s, q) i = (t.step s i).bind fun r =>
        (u.run q r.1).map fun r' => (r'.1, (r.2, r'.2)) := rfl
      rw [run, run, hstep]
      cases t.step s i with
      | none => rfl
      | some r =>
          simp only [Option.bind_some]
          cases hhead : u.run q r.1 with
          | none =>
              cases t.run r.2 is with
              | none => rfl
              | some r' => simp [run_append, hhead]
          | some w =>
              simp only [Option.map_some, Option.bind_some]
              rw [ih]
              cases t.run r.2 is with
              | none => rfl
              | some r' =>
                  simp only [Option.bind_some, Option.map_some]
                  rw [run_append, hhead, Option.bind_some]
                  cases u.run w.2 r'.1 with
                  | none => rfl
                  | some w' => rfl

theorem Passes.comp (h : t.Passes s is os s') (h' : u.Passes q os ps q') :
    (t.comp u).Passes (s, q) is ps (s', q') := by
  rw [Passes, comp_run, h, Option.bind_some, h', Option.map_some]

theorem Reads.comp (h : t.Reads is os) (h' : u.Reads os ps) : (t.comp u).Reads is ps :=
  Passes.comp h h'

/-- What lies between the two machines. -/
theorem comp_output (h : (t.comp u).output is = some ps) :
    ∃ os, t.output is = some os ∧ u.output os = some ps := by
  obtain ⟨⟨first, last⟩, hrun, hfinish⟩ := Option.bind_eq_some_iff.mp h
  have hpair : (t.comp u).start = (t.start, u.start) := rfl
  rw [hpair, comp_run] at hrun
  obtain ⟨⟨between, s⟩, hbetween, hrest⟩ := Option.bind_eq_some_iff.mp hrun
  obtain ⟨⟨first', q⟩, hpass, heq⟩ := Option.map_eq_some_iff.mp hrest
  obtain ⟨rfl, rfl⟩ := Prod.mk.inj heq
  obtain ⟨second, hsecond, rfl⟩ := Option.map_eq_some_iff.mp hfinish
  obtain ⟨between', hend, houtput⟩ := Option.bind_eq_some_iff.mp hsecond
  refine ⟨between ++ between', ?_, ?_⟩
  · rw [output, outputFrom, hbetween, Option.bind_some, hend]
    rfl
  · rw [output, Passes.outputFrom_append hpass, houtput]
    rfl

end Comp

section Simulation

variable {σ' τ' I' O' P' : Type}

def Along (t : Transducer σ I O) (ok : σ → I → Prop) : σ → List I → Prop
  | _, [] => True
  | s, i :: is => ok s i ∧ ∀ r, t.step s i = some r → Along t ok r.2 is

/-- Where a step is `ok`, the other machine follows it on the rewritten input. -/
structure Simulates (t : Transducer σ I O) (t' : Transducer σ' I' O') (state : σ → σ')
    (input : I → List I') (output : O → O') (ok : σ → I → Prop) : Prop where
  start : state t.start = t'.start
  step : ∀ s i, ok s i → t'.run (state s) (input i) =
    (t.step s i).map fun r => (r.1.map output, state r.2)

variable {t : Transducer σ I O} {t' : Transducer σ' I' O'} {state : σ → σ'} {input : I → List I'}
  {output : O → O'} {ok ok' : σ → I → Prop}

theorem Along.mono {s : σ} {is : List I} (h : t.Along ok s is) (hmono : ∀ s i, ok s i → ok' s i) :
    t.Along ok' s is := by
  induction is generalizing s with
  | nil => trivial
  | cons i is ih => exact ⟨hmono s i h.1, fun r hr => ih (h.2 r hr)⟩

theorem along_of_forall {s : σ} {is : List I} (h : ∀ i ∈ is, ∀ s, ok s i) : t.Along ok s is := by
  induction is generalizing s with
  | nil => trivial
  | cons i is ih =>
      exact ⟨h i List.mem_cons_self s, fun r _ => ih fun j hj => h j (List.mem_cons_of_mem _ hj)⟩

theorem Along.comp {u : Transducer τ O P} {s : σ} {is : List I} (h : t.Along ok s is) (q : τ) :
    (t.comp u).Along (fun s i => ok s.1 i) (s, q) is := by
  induction is generalizing s q with
  | nil => trivial
  | cons i is ih =>
      refine ⟨h.1, fun r hr => ?_⟩
      obtain ⟨r', hr', hrest⟩ := Option.bind_eq_some_iff.mp hr
      obtain ⟨w, -, rfl⟩ := Option.map_eq_some_iff.mp hrest
      exact ih (h.2 r' hr') w.2

theorem Simulates.run (h : Simulates t t' state input output ok) {s : σ} {is : List I}
    (hok : t.Along ok s is) : t'.run (state s) (is.flatMap input) =
      (t.run s is).map fun r => (r.1.map output, state r.2) := by
  induction is generalizing s with
  | nil => rfl
  | cons i is ih =>
      rw [List.flatMap_cons, run_append, h.step s i hok.1, Transducer.run]
      cases hstep : t.step s i with
      | none => rfl
      | some r =>
          simp only [Option.map_some, Option.bind_some]
          rw [ih (hok.2 r hstep)]
          cases t.run r.2 is with
          | none => rfl
          | some r' => simp

theorem Simulates.passes (h : Simulates t t' state input output ok) {s s' : σ} {is : List I}
    {os : List O} (hok : t.Along ok s is) (hpass : t.Passes s is os s') :
    t'.Passes (state s) (is.flatMap input) (os.map output) (state s') := by
  rw [Passes, h.run hok, hpass, Option.map_some]

theorem Simulates.reads (h : Simulates t t' state input output ok) {is : List I}
    {os : List O} (hok : t.Along ok t.start is) (hreads : t.Reads is os) :
    t'.Reads (is.flatMap input) (os.map output) := by
  have hpass := h.passes hok hreads
  rw [h.start] at hpass
  exact hpass

/-- A simulation that rewrites one piece into one. -/
theorem simulates_of_step {input : I → I'} (hstart : state t.start = t'.start)
    (hstep : ∀ s i, t'.step (state s) (input i) =
      (t.step s i).map fun r => (r.1.map output, state r.2)) :
    Simulates t t' state (fun i => [input i]) output fun _ _ => True where
  start := hstart
  step s i _ := by rw [run_singleton, hstep]

theorem Simulates.run_map {input : I → I'}
    (h : Simulates t t' state (fun i => [input i]) output fun _ _ => True) (s : σ) (is : List I) :
    t'.run (state s) (is.map input) = (t.run s is).map fun r => (r.1.map output, state r.2) := by
  rw [List.map_eq_flatMap]
  exact h.run (along_of_forall fun _ _ _ => trivial)

theorem Simulates.comp {u : Transducer τ O P} {u' : Transducer τ' O' P'} {state' : τ → τ'}
    {output' : P → P'} (h : Simulates t t' state input output ok)
    (h' : Simulates u u' state' (fun o => [output o]) output' fun _ _ => True) :
    Simulates (t.comp u) (t'.comp u') (fun s => (state s.1, state' s.2)) input output'
      fun s i => ok s.1 i where
  start := by
    change (state t.start, state' u.start) = (t'.start, u'.start)
    rw [h.start, h'.start]
  step := by
    rintro ⟨s, q⟩ i hok
    have hhead : (t.comp u).step (s, q) i = (t.step s i).bind fun r =>
      (u.run q r.1).map fun r' => (r'.1, (r.2, r'.2)) := rfl
    rw [comp_run, h.step s i hok, hhead]
    cases t.step s i with
    | none => rfl
    | some r =>
        simp only [Option.map_some, Option.bind_some]
        rw [h'.run_map]
        cases u.run q r.1 with
        | none => rfl
        | some w => rfl

end Simulation

end Transducer
