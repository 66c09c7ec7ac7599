import Sorm.CReader

/-!
# Functions that return a call

The head of a function is read as its name and its parameters, its block as the call that it
returns. A name in an argument is the parameter that is called so, unless another meaning of the
name is hidden by it.
-/

namespace CReader

/-- A parameter as it is declared. -/
structure Parameter (W : Type) where
  type : List (Token W)
  name : W
deriving DecidableEq, Repr

/-- A function whose block is one `return` of a call. -/
structure Forwarder (W : Type) where
  name : W
  params : List (Parameter W)
  callee : W
  args : List (List (Token W))
deriving DecidableEq, Repr

section Reading
variable {W W' : Type} (f : W → W')

def functionName (head : List (Token W)) : Option W :=
  (head.takeWhile fun t => !t.isMark '(').getLast?.bind Token.wordOf

/-- What stands in brackets behind the first opening one, up to the last token. -/
def bracketed (ts : List (Token W)) : Option (List (List (Token W))) :=
  fieldsOf (ts.dropWhile fun t => !t.isMark '(').tail.dropLast

def parameter (ts : List (Token W)) : Option (Parameter W) :=
  (ts.getLast?.bind Token.wordOf).map fun name => ⟨ts.dropLast, name⟩

def isCall (ts : List (Token W)) : Bool :=
  ts.head?.any (Token.isMark '(') && ts.getLast?.any (Token.isMark ';') &&
    isFunction ts.dropLast

def returnedCall (keyword : W) [DecidableEq W] :
    List (Token W) → Option (W × List (List (Token W)))
  | .word first :: .word callee :: call =>
      if first = keyword ∧ isCall call then
        (bracketed call.dropLast).map fun args => (callee, args)
      else none
  | _ => none

def forwarder (keyword : W) [DecidableEq W] (d : List (Token W) × List (Token W)) :
    Option (Forwarder W) := do
  let name ← functionName d.1
  let fields ← bracketed d.1
  let params ← fields.mapM parameter
  let (callee, args) ← returnedCall keyword d.2
  return ⟨name, params, callee, args⟩

def Parameter.map (p : Parameter W) : Parameter W' := ⟨mapTokens f p.type, f p.name⟩

def Forwarder.map (g : Forwarder W) : Forwarder W' where
  name := f g.name
  params := g.params.map (Parameter.map f)
  callee := f g.callee
  args := g.args.map (mapTokens f)

theorem functionName_map (head : List (Token W)) :
    functionName (mapTokens f head) = (functionName head).map f := by
  have hmark : (fun t : Token W' => !t.isMark '(') ∘ Token.map f = fun t => !t.isMark '(' := by
    funext t
    exact congrArg not (Token.isMark_map f '(' t)
  rw [functionName, mapTokens, List.takeWhile_map, hmark, List.getLast?_map, functionName]
  cases (head.takeWhile fun t => !t.isMark '(').getLast? with
  | none => rfl
  | some t => cases t <;> rfl

theorem bracketed_map {ts : List (Token W)} {fields : List (List (Token W))}
    (h : bracketed ts = some fields) :
    bracketed (mapTokens f ts) = some (fields.map (mapTokens f)) := by
  have hmark : (fun t : Token W' => !t.isMark '(') ∘ Token.map f = fun t => !t.isMark '(' := by
    funext t
    exact congrArg not (Token.isMark_map f '(' t)
  have hfields := fieldsOf_map f h
  rw [bracketed, mapTokens, List.dropWhile_map, hmark, ← List.map_tail, ← List.map_dropLast]
  exact hfields

theorem parameter_map {ts : List (Token W)} {p : Parameter W} (h : parameter ts = some p) :
    parameter (mapTokens f ts) = some (p.map f) := by
  obtain ⟨name, hname, rfl⟩ := Option.map_eq_some_iff.mp h
  obtain ⟨t, hlast, hword⟩ := Option.bind_eq_some_iff.mp hname
  have hmapped : (t.map f).wordOf = some (f name) := by
    cases t with
    | word w =>
        obtain rfl := Option.some.inj hword
        rfl
    | _ => cases hword
  rw [parameter, mapTokens, List.getLast?_map, hlast, Option.map_some, Option.bind_some, hmapped,
    ← List.map_dropLast]
  rfl

theorem parameters_map {fields : List (List (Token W))} {params : List (Parameter W)}
    (h : fields.mapM parameter = some params) :
    (fields.map (mapTokens f)).mapM parameter = some (params.map (Parameter.map f)) := by
  induction fields generalizing params with
  | nil =>
      obtain rfl := Option.some.inj h
      rfl
  | cons field fields ih =>
      rw [List.mapM_cons] at h
      obtain ⟨p, hp, hrest⟩ := Option.bind_eq_some_iff.mp h
      obtain ⟨params', hparams, heq⟩ := Option.bind_eq_some_iff.mp hrest
      obtain rfl := Option.some.inj heq
      rw [List.map_cons, List.mapM_cons, parameter_map f hp, ih hparams]
      rfl

theorem isCall_map (ts : List (Token W)) : isCall (mapTokens f ts) = isCall ts := by
  have hlast : isFunction (mapTokens f ts).dropLast = isFunction ts.dropLast := by
    rw [mapTokens, ← List.map_dropLast]
    exact isFunction_map f ts.dropLast
  rw [isCall, hlast, isCall, mapTokens, List.head?_map, List.getLast?_map, Option.any_map,
    Option.any_map]
  simp only [Token.isMark_map]

variable [DecidableEq W] [DecidableEq W'] {keyword : W}

theorem returnedCall_map {block : List (Token W)} {callee : W} {args : List (List (Token W))}
    (h : returnedCall keyword block = some (callee, args)) :
    returnedCall (f keyword) (mapTokens f block) = some (f callee, args.map (mapTokens f)) := by
  unfold returnedCall at h
  split at h
  · next first callee' call =>
    split_ifs at h with hcall
    obtain ⟨rfl, hisCall⟩ := hcall
    obtain ⟨args', hargs, heq⟩ := Option.map_eq_some_iff.mp h
    obtain ⟨rfl, rfl⟩ := Prod.mk.inj heq
    have hmapped : bracketed (mapTokens f call).dropLast = some (args'.map (mapTokens f)) := by
      rw [mapTokens, ← List.map_dropLast]
      exact bracketed_map f hargs
    change returnedCall (f first) (.word (f first) :: .word (f callee') :: mapTokens f call) = _
    rw [returnedCall, if_pos ⟨rfl, (isCall_map f call).trans hisCall⟩, hmapped]
    rfl
  · cases h

theorem forwarder_map {d : List (Token W) × List (Token W)} {g : Forwarder W}
    (h : forwarder keyword d = some g) :
    forwarder (f keyword) (mapTokens f d.1, mapTokens f d.2) = some (g.map f) := by
  obtain ⟨name, hname, hrest⟩ := Option.bind_eq_some_iff.mp h
  obtain ⟨fields, hfields, hrest⟩ := Option.bind_eq_some_iff.mp hrest
  obtain ⟨params, hparams, hrest⟩ := Option.bind_eq_some_iff.mp hrest
  obtain ⟨call, hcall, heq⟩ := Option.bind_eq_some_iff.mp hrest
  obtain rfl := Option.some.inj heq
  rw [forwarder, functionName_map, hname, bracketed_map f hfields, returnedCall_map f hcall]
  simp only [Option.map_some, Option.bind_eq_bind, Option.bind_some, parameters_map f hparams]
  rfl

theorem functionName_of_forwarder {d : List (Token W) × List (Token W)} {g : Forwarder W}
    (h : forwarder keyword d = some g) : functionName d.1 = some g.name := by
  obtain ⟨name, hname, hrest⟩ := Option.bind_eq_some_iff.mp h
  obtain ⟨fields, -, hrest⟩ := Option.bind_eq_some_iff.mp hrest
  obtain ⟨params, -, hrest⟩ := Option.bind_eq_some_iff.mp hrest
  obtain ⟨call, -, heq⟩ := Option.bind_eq_some_iff.mp hrest
  obtain rfl := Option.some.inj heq
  exact hname

end Reading

def wordsOf {W : Type} (ts : List (Token W)) : List W := ts.filterMap Token.wordOf

def reserved : List (List Char) :=
  ["auto".toList, "break".toList, "case".toList, "char".toList, "const".toList,
    "continue".toList, "default".toList, "do".toList, "double".toList, "else".toList,
    "enum".toList, "extern".toList, "float".toList, "for".toList, "goto".toList, "if".toList,
    "inline".toList, "int".toList, "long".toList, "register".toList, "restrict".toList,
    "return".toList, "short".toList, "signed".toList, "sizeof".toList, "static".toList,
    "struct".toList, "switch".toList, "typedef".toList, "union".toList, "unsigned".toList,
    "void".toList, "volatile".toList, "while".toList, "_Bool".toList, "_Complex".toList,
    "_Imaginary".toList]

def IsIdentifier (w : List Char) : Prop :=
  IsWord w ∧ w.head?.all (fun c => !c.isDigit) ∧ w ∉ reserved

instance (w : List Char) : Decidable (IsIdentifier w) :=
  inferInstanceAs (Decidable (_ ∧ _ ∧ _))

def Forwarder.words (g : Forwarder (List Char)) : List (List Char) :=
  g.callee :: g.args.flatMap wordsOf

/-- Each parameter has a name of its own, hides no name in what is declared behind it, and stands
in the call once. -/
structure Forwarder.Scoped (g : Forwarder (List Char)) : Prop where
  identifiers : ∀ p ∈ g.params, IsIdentifier p.name
  visible : g.params.Pairwise fun p p' => p.name ≠ p'.name ∧ p.name ∉ wordsOf p'.type
  once : ∀ p ∈ g.params, g.words.count p.name = 1

def voidCast : List (Token (List Char)) :=
  [.mark '(', .word "void".toList, .mark '*', .mark ')']

def uncast (e : List (Token (List Char))) : List (Token (List Char)) :=
  if e.take 4 = voidCast then e.drop 4 else e

def unqualified (type : List (Token (List Char))) : List (Token (List Char)) :=
  type.filter fun t => t ≠ .word "const".toList

def Forwarder.typeOf (g : Forwarder (List Char)) (x : List Char) :
    Option (List (Token (List Char))) :=
  (g.params.find? fun p => p.name = x).map Parameter.type

def pointed (type : List (Token (List Char))) : Option (List (Token (List Char))) :=
  if type.getLast? = some (.mark '*') then some (unqualified type.dropLast) else none

/-- The type of what an argument points to. -/
def Forwarder.pointee (g : Forwarder (List Char)) (e : List (Token (List Char))) :
    Option (List (Token (List Char))) :=
  match uncast e with
  | [.mark '&', .word x] => (g.typeOf x).map unqualified
  | [.word x] => (g.typeOf x).bind pointed
  | _ => none

section Pointee
variable {g : Forwarder (List Char)} {x : List Char}

theorem uncast_void (e : List (Token (List Char))) : uncast (voidCast ++ e) = e := rfl

theorem pointee_void (e : List (Token (List Char))) (h : uncast e = e) :
    g.pointee (voidCast ++ e) = g.pointee e := by
  rw [Forwarder.pointee, uncast_void, Forwarder.pointee, h]

theorem uncast_address : uncast [.mark '&', .word x] = [.mark '&', .word x] := by
  have hcast : [Token.mark '&', .word x].take 4 ≠ voidCast := by
    intro h
    cases h
  rw [uncast, if_neg hcast]

theorem uncast_word : uncast [.word x] = [.word x] := by
  have hcast : [Token.word x].take 4 ≠ voidCast := by
    intro h
    cases h
  rw [uncast, if_neg hcast]

theorem pointee_address : g.pointee [.mark '&', .word x] = (g.typeOf x).map unqualified := by
  rw [Forwarder.pointee, uncast_address]
  rfl

theorem pointee_word : g.pointee [.word x] = (g.typeOf x).bind pointed := by
  rw [Forwarder.pointee, uncast_word]

end Pointee

/-- Names that stand once among some words. -/
theorem count_eq_one_iff {words names others : List (List Char)} (h : words.Perm (names ++ others)) :
    (∀ name ∈ names, words.count name = 1) ↔
      names.Nodup ∧ ∀ name ∈ names, name ∉ others := by
  have hcount : ∀ name ∈ names,
      (words.count name = 1 ↔ names.count name = 1 ∧ name ∉ others) := by
    intro name hmem
    have hpos := List.count_pos_iff.mpr hmem
    rw [h.count_eq, List.count_append, ← List.count_eq_zero]
    omega
  rw [forall₂_congr hcount, List.nodup_iff_count_eq_one]
  exact ⟨fun h => ⟨fun name hmem => (h name hmem).1, fun name hmem => (h name hmem).2⟩,
    fun h name hmem => ⟨h.1 name hmem, h.2 name hmem⟩⟩

theorem scoped_iff {g : Forwarder (List Char)} {params : List (Parameter (List Char))}
    {others : List (List Char)} (hparams : g.params = params)
    (hwords : g.words.Perm (params.map Parameter.name ++ others)) : g.Scoped ↔
      (∀ name ∈ params.map Parameter.name, IsIdentifier name ∧ name ∉ others) ∧
      (params.map Parameter.name).Nodup ∧
      params.Pairwise fun p p' => p.name ∉ wordsOf p'.type := by
  subst hparams
  have honce := count_eq_one_iff hwords
  rw [List.forall_mem_map] at honce
  constructor
  · intro hscoped
    obtain ⟨hnodup, hothers⟩ := honce.mp hscoped.once
    refine ⟨fun name hmem => ⟨?_, hothers name hmem⟩, hnodup,
      hscoped.visible.imp fun hvisible => hvisible.2⟩
    obtain ⟨p, hp, rfl⟩ := List.mem_map.mp hmem
    exact hscoped.identifiers p hp
  · rintro ⟨hnames, hnodup, htypes⟩
    refine ⟨fun p hp => (hnames _ (List.mem_map_of_mem hp)).1, ?_,
      honce.mpr ⟨hnodup, fun name hmem => (hnames name hmem).2⟩⟩
    exact (List.pairwise_map.mp hnodup).and htypes

theorem IsIdentifier.ne_number {w w' : List Char} (h : IsIdentifier w)
    (hdigit : w'.head?.any Char.isDigit) : w ≠ w' := by
  intro heq
  have hhead := h.2.1
  rw [heq] at hhead
  cases w' with
  | nil => cases hdigit
  | cons c w' => simp_all

theorem IsIdentifier.ne_reserved {w w' : List Char} (h : IsIdentifier w) (hmem : w' ∈ reserved) :
    w ≠ w' := by
  intro heq
  exact h.2.2 (heq ▸ hmem)

end CReader
