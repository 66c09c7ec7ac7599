import Sorm.Transducers

/-!
# Reading C source

A C source file is read as tokens, the tokens as directives and code, and the code as what stands
outside of all braces: declarations up to a semicolon, and heads with a block. A template is a
source with holes; a word put into a hole changes the words that are read and nothing else.
-/

namespace CReader

inductive Kind
  | letter
  | blank
  | newline
  | quote
  | backslash
  | mark (c : Char)
deriving DecidableEq, Repr

def isLetter (c : Char) : Bool :=
  Nat.ble 97 c.toNat && Nat.ble c.toNat 122 || Nat.ble 65 c.toNat && Nat.ble c.toNat 90 ||
    Nat.ble 48 c.toNat && Nat.ble c.toNat 57 || Nat.beq c.toNat 95

def kind (c : Char) : Kind :=
  if isLetter c then .letter
  else if c = ' ' ∨ c = '\t' then .blank
  else if c = '\n' then .newline
  else if c = '"' then .quote
  else if c = '\\' then .backslash
  else .mark c

inductive Glyph (H : Type)
  | char (c : Char)
  | hole (h : H)
deriving DecidableEq, Repr

section Glyph
variable {H : Type}

def Glyph.kind : Glyph H → Kind
  | .char c => CReader.kind c
  | .hole _ => .letter

def Glyph.text (env : H → List Char) : Glyph H → List Char
  | .char c => [c]
  | .hole h => env h

def render (env : H → List Char) (gs : List (Glyph H)) : List Char := gs.flatMap (Glyph.text env)

@[simp] theorem render_nil (env : H → List Char) : render env [] = [] := rfl

@[simp] theorem render_append (env : H → List Char) (gs gs' : List (Glyph H)) :
    render env (gs ++ gs') = render env gs ++ render env gs' := List.flatMap_append

/-- A format: each `%` begins a conversion of one letter, in whose place the next argument comes. -/
def format : List Char → List (List (Glyph H)) → List (Glyph H)
  | '%' :: _ :: fmt, arg :: args => arg ++ format fmt args
  | c :: fmt, args => .char c :: format fmt args
  | [], _ => []

def fprintf (fmt : String) (args : List (List (Glyph H))) : List (Glyph H) :=
  format fmt.toList args

theorem fprintf_eq {fmt : String} {cs : List Char} (h : fmt = String.ofList cs)
    (args : List (List (Glyph H))) : fprintf fmt args = format cs args := by
  rw [h, fprintf, String.toList_ofList]

end Glyph

def IsWord (w : List Char) : Prop := w ≠ [] ∧ ∀ c ∈ w, isLetter c

instance (w : List Char) : Decidable (IsWord w) :=
  decidable_of_iff (w ≠ [] ∧ w.all isLetter) (and_congr_right fun _ => List.all_eq_true)

/-- No character of a text ends the string literal that it stands in. -/
def staysInside : Bool → List Char → Bool
  | escaped, [] => !escaped
  | true, c :: w => c ≠ '\n' && staysInside false w
  | false, c :: w => c ≠ '"' && c ≠ '\n' && staysInside (c = '\\') w

/-- May stand in a hole in a string literal. -/
def Enclosed (w : List Char) : Prop := staysInside false w

instance (w : List Char) : Decidable (Enclosed w) :=
  inferInstanceAs (Decidable (staysInside false w = true))

/-- Means itself in a string literal. -/
def Quotable (w : List Char) : Prop := ∀ c ∈ w, c ≠ '"' ∧ c ≠ '\\' ∧ c ≠ '\n'

instance (w : List Char) : Decidable (Quotable w) :=
  List.decidableBAll (fun c => c ≠ '"' ∧ c ≠ '\\' ∧ c ≠ '\n') w

theorem Quotable.enclosed {w : List Char} (h : Quotable w) : Enclosed w := by
  induction w with
  | nil => rfl
  | cons c w ih =>
      obtain ⟨hquote, hbackslash, hnewline⟩ := h c List.mem_cons_self
      have hrest := ih fun c' hc' => h c' (List.mem_cons_of_mem _ hc')
      rw [Enclosed, staysInside]
      simp only [hquote, hbackslash, hnewline, ne_eq, not_false_eq_true, decide_true,
        decide_false, Bool.and_self, Bool.true_and]
      exact hrest

inductive Token (W : Type)
  | word (w : W)
  | str (w : W)
  | mark (c : Char)
  | newline
deriving DecidableEq, Repr

section Token
variable {W W' : Type}

def Token.map (f : W → W') : Token W → Token W'
  | .word w => .word (f w)
  | .str w => .str (f w)
  | .mark c => .mark c
  | .newline => .newline

def Token.isMark (c : Char) : Token W → Bool
  | .mark c' => c' == c
  | _ => false

def Token.isNewline : Token W → Bool
  | .newline => true
  | _ => false

@[simp] theorem Token.isMark_map (f : W → W') (c : Char) (t : Token W) :
    (t.map f).isMark c = t.isMark c := by
  cases t <;> rfl

@[simp] theorem Token.isNewline_map (f : W → W') (t : Token W) :
    (t.map f).isNewline = t.isNewline := by
  cases t <;> rfl

end Token

inductive LexState (α : Type)
  | normal
  | word (acc : List α)
  | str (acc : List α)
  | escape (acc : List α)
deriving DecidableEq, Repr

section Lexer
variable {α : Type} (k : α → Kind)

def lexNormal (a : α) : List (Token (List α)) × LexState α :=
  match k a with
  | .letter => ([], .word [a])
  | .blank => ([], .normal)
  | .newline => ([.newline], .normal)
  | .quote => ([], .str [])
  | .backslash => ([.mark '\\'], .normal)
  | .mark c => ([.mark c], .normal)

def lexStep : LexState α → α → Option (List (Token (List α)) × LexState α)
  | .normal, a => some (lexNormal k a)
  | .word acc, a =>
      match k a with
      | .letter => some ([], .word (acc ++ [a]))
      | _ => some (.word acc :: (lexNormal k a).1, (lexNormal k a).2)
  | .str acc, a =>
      match k a with
      | .quote => some ([.str acc], .normal)
      | .backslash => some ([], .escape (acc ++ [a]))
      | .newline => none
      | _ => some ([], .str (acc ++ [a]))
  | .escape acc, a =>
      match k a with
      | .newline => none
      | _ => some ([], .str (acc ++ [a]))

def lexFinish : LexState α → Option (List (Token (List α)))
  | .normal => some []
  | .word acc => some [.word acc]
  | .str _ | .escape _ => none

def lexer : Transducer (LexState α) α (Token (List α)) := ⟨.normal, lexStep k, lexFinish⟩

@[simp] theorem lexer_step : (lexer k).step = lexStep k := rfl

end Lexer

inductive Piece (W : Type)
  | directive (line : List (Token W))
  | code (token : Token W)
deriving DecidableEq, Repr

inductive LineState (W : Type)
  | start
  | code
  | directive (line : List (Token W))
deriving DecidableEq, Repr

section Lines
variable {W : Type}

/-- A directive ends with its line, unless that ends with a backslash. -/
def lineStep : LineState W → Token W → Option (List (Piece W) × LineState W)
  | .start, t =>
      if t.isNewline then some ([], .start)
      else if t.isMark '#' then some ([], .directive [])
      else some ([.code t], .code)
  | .code, t => if t.isNewline then some ([], .start) else some ([.code t], .code)
  | .directive line, t =>
      if t.isNewline then
        if line.getLast?.any (Token.isMark '\\') then some ([], .directive line.dropLast)
        else some ([.directive line], .start)
      else some ([], .directive (line ++ [t]))

def lineFinish : LineState W → Option (List (Piece W))
  | .start | .code => some []
  | .directive line => some [.directive line]

def lines : Transducer (LineState W) (Token W) (Piece W) := ⟨.start, lineStep, lineFinish⟩

@[simp] theorem lines_step : (lines (W := W)).step = lineStep := rfl

end Lines

inductive Item (W : Type)
  | directive (line : List (Token W))
  | chunk (head : List (Token W)) (block : Option (List (Token W)))
deriving DecidableEq, Repr

inductive ChunkState (W : Type)
  | head (acc : List (Token W))
  | block (head : List (Token W)) (depth : ℕ) (acc : List (Token W))
deriving DecidableEq, Repr

section Chunks
variable {W : Type}

/-- How deep a token leads from some depth within a block; `none` closes the block. -/
def deepen (t : Token W) (depth : ℕ) : Option ℕ :=
  if t.isMark '\x7b' then some (depth + 1)
  else if t.isMark '\x7d' then
    match depth with
    | 0 => none
    | depth + 1 => some depth
  else some depth

def chunkStep : ChunkState W → Piece W → Option (List (Item W) × ChunkState W)
  | s, .directive line => some ([.directive line], s)
  | .head acc, .code t =>
      if t.isMark ';' then some ([.chunk acc none], .head [])
      else if t.isMark '\x7b' then some ([], .block acc 0 [])
      else if t.isMark '\x7d' then none
      else some ([], .head (acc ++ [t]))
  | .block head depth acc, .code t =>
      match deepen t depth with
      | some depth => some ([], .block head depth (acc ++ [t]))
      | none => some ([.chunk head (some acc)], .head [])

def chunkFinish : ChunkState W → Option (List (Item W))
  | .head [] => some []
  | .head (_ :: _) | .block _ _ _ => none

def chunks : Transducer (ChunkState W) (Piece W) (Item W) := ⟨.head [], chunkStep, chunkFinish⟩

@[simp] theorem chunks_step : (chunks (W := W)).step = chunkStep := rfl

end Chunks

def pieces {α : Type} (k : α → Kind) :
    Transducer (LexState α × LineState (List α)) α (Piece (List α)) := (lexer k).comp lines

abbrev ReaderState (α : Type) := (LexState α × LineState (List α)) × ChunkState (List α)

def reader {α : Type} (k : α → Kind) : Transducer (ReaderState α) α (Item (List α)) :=
  (pieces k).comp chunks

instance {α : Type} [DecidableEq α] : DecidableEq (ReaderState α) := inferInstance

instance {α : Type} [DecidableEq α] : DecidableEq (List (Item (List α)) × ReaderState α) :=
  inferInstance

def readUnit (z : List Char) : Option (List (Item (List Char))) := (reader kind).output z

section Map
variable {W W' : Type} (f : W → W')

def mapTokens (ts : List (Token W)) : List (Token W') := ts.map (Token.map f)

def Piece.map : Piece W → Piece W'
  | .directive line => .directive (mapTokens f line)
  | .code t => .code (t.map f)

def Item.map : Item W → Item W'
  | .directive line => .directive (mapTokens f line)
  | .chunk head block => .chunk (mapTokens f head) (block.map (mapTokens f))

def LineState.map : LineState W → LineState W'
  | .start => .start
  | .code => .code
  | .directive line => .directive (mapTokens f line)

def ChunkState.map : ChunkState W → ChunkState W'
  | .head acc => .head (mapTokens f acc)
  | .block front depth acc => .block (mapTokens f front) depth (mapTokens f acc)

theorem lines_simulates : Transducer.Simulates (lines (W := W)) (lines (W := W'))
    (LineState.map f) (fun t => [t.map f]) (Piece.map f) fun _ _ => True := by
  refine Transducer.simulates_of_step rfl fun s t => ?_
  change lineStep (s.map f) (t.map f) = (lineStep s t).map _
  cases s with
  | start =>
      simp only [LineState.map, lineStep, Token.isNewline_map, Token.isMark_map]
      split_ifs <;> rfl
  | code =>
      simp only [LineState.map, lineStep, Token.isNewline_map]
      split_ifs <;> rfl
  | directive line =>
      have hlast : (mapTokens f line).getLast?.any (Token.isMark '\\') =
          line.getLast?.any (Token.isMark '\\') := by
        rw [mapTokens, List.getLast?_map, Option.any_map]
        simp only [Token.isMark_map]
      simp only [LineState.map, lineStep, Token.isNewline_map, hlast]
      split_ifs
      · simp [mapTokens, List.map_dropLast]
      · rfl
      · simp [mapTokens]

theorem chunks_simulates : Transducer.Simulates (chunks (W := W)) (chunks (W := W'))
    (ChunkState.map f) (fun p => [p.map f]) (Item.map f) fun _ _ => True := by
  refine Transducer.simulates_of_step rfl fun s p => ?_
  change chunkStep (s.map f) (p.map f) = (chunkStep s p).map _
  have hdeepen : ∀ (t : Token W) depth, deepen (t.map f) depth = deepen t depth := by
    intro t depth
    simp only [deepen, Token.isMark_map]
  cases p with
  | directive line => cases s <;> rfl
  | code t =>
      cases s with
      | head acc =>
          simp only [ChunkState.map, Piece.map, chunkStep, Token.isMark_map]
          split_ifs
          · rfl
          · rfl
          · rfl
          · simp [mapTokens]
      | block front depth acc =>
          simp only [ChunkState.map, Piece.map, chunkStep, hdeepen]
          cases deepen t depth with
          | none => rfl
          | some depth => simp [mapTokens]

end Map

section Render
variable {H : Type} (env : H → List Char)

def LexState.map {α β : Type} (f : List α → List β) : LexState α → LexState β
  | .normal => .normal
  | .word acc => .word (f acc)
  | .str acc => .str (f acc)
  | .escape acc => .escape (f acc)

def Suits (s : LexState (Glyph H)) : Glyph H → Prop
  | .char _ => True
  | .hole h =>
      match s with
      | .str _ => Enclosed (env h)
      | .normal | .word _ | .escape _ => IsWord (env h)

theorem kind_letter {c : Char} (h : isLetter c) : kind c = .letter := if_pos h

theorem run_word {w : List Char} (h : ∀ c ∈ w, isLetter c) (acc : List Char) :
    (lexer kind).run (.word acc) w = some ([], .word (acc ++ w)) := by
  induction w generalizing acc with
  | nil => simp
  | cons c w ih =>
      have hstep : (lexer kind).step (.word acc) c = some ([], .word (acc ++ [c])) := by
        rw [lexer_step, lexStep, kind_letter (h c List.mem_cons_self)]
      have hrest := ih (fun c' hc' => h c' (List.mem_cons_of_mem _ hc')) (acc ++ [c])
      have hpass := Transducer.Passes.cons hstep hrest
      rwa [List.append_assoc] at hpass

theorem kind_ne_newline {c : Char} (h : c ≠ '\n') : kind c ≠ .newline := by
  unfold kind
  split_ifs <;> simp

theorem kind_ne_backslash {c : Char} (h : c ≠ '\\') : kind c ≠ .backslash := by
  unfold kind
  split_ifs <;> simp

theorem kind_plain {c : Char} (hquote : c ≠ '"') (hnewline : c ≠ '\n') :
    kind c ≠ .quote ∧ kind c ≠ .newline := by
  refine ⟨?_, kind_ne_newline hnewline⟩
  unfold kind
  split_ifs <;> simp

theorem run_inside {w : List Char} {escaped : Bool} (h : staysInside escaped w)
    (acc : List Char) : (lexer kind).run (cond escaped (.escape acc) (.str acc)) w =
      some ([], .str (acc ++ w)) := by
  induction w generalizing escaped acc with
  | nil =>
      cases escaped with
      | true => cases h
      | false => simp
  | cons c w ih =>
      have hstep : ∃ escaped', staysInside escaped' w ∧
          (lexer kind).step (cond escaped (.escape acc) (.str acc)) c =
            some ([], cond escaped' (.escape (acc ++ [c])) (.str (acc ++ [c]))) := by
        cases escaped with
        | true =>
            obtain ⟨hnewline, hrest⟩ := Bool.and_eq_true_iff.mp h
            have hkind : kind c ≠ .newline := kind_ne_newline (of_decide_eq_true hnewline)
            refine ⟨false, hrest, ?_⟩
            rw [lexer_step, cond_true, lexStep]
            cases hc : kind c <;> simp_all
        | false =>
            obtain ⟨hplain, hrest⟩ := Bool.and_eq_true_iff.mp h
            obtain ⟨hquote, hnewline⟩ := Bool.and_eq_true_iff.mp hplain
            refine ⟨decide (c = '\\'), hrest, ?_⟩
            have hkinds := kind_plain (of_decide_eq_true hquote) (of_decide_eq_true hnewline)
            rw [lexer_step, cond_false, lexStep]
            by_cases hbackslash : c = '\\'
            · subst hbackslash
              rfl
            · have hkind := kind_ne_backslash hbackslash
              cases hc : kind c <;> simp_all
      obtain ⟨escaped', hrest, hstep⟩ := hstep
      have hpass := Transducer.Passes.cons hstep (ih hrest (acc ++ [c]))
      rwa [List.append_assoc] at hpass

theorem run_str {w : List Char} (h : Enclosed w) (acc : List Char) :
    (lexer kind).run (.str acc) w = some ([], .str (acc ++ w)) := run_inside h acc

theorem isLetter_plain {c : Char} (h : isLetter c) : c ≠ '"' ∧ c ≠ '\\' ∧ c ≠ '\n' := by
  refine ⟨?_, ?_, ?_⟩ <;>
  · rintro rfl
    exact absurd h (by decide)

theorem enclosed_of_letters {w : List Char} (h : ∀ c ∈ w, isLetter c) : Enclosed w :=
  Quotable.enclosed fun c hc => isLetter_plain (h c hc)

theorem lexNormal_char (c : Char) : lexNormal kind c =
    ((lexNormal Glyph.kind (Glyph.char (H := H) c)).1.map (Token.map (render env)),
      (lexNormal Glyph.kind (Glyph.char (H := H) c)).2.map (render env)) := by
  have hkind : (Glyph.char c : Glyph H).kind = kind c := rfl
  unfold lexNormal
  rw [hkind]
  cases kind c <;> rfl

theorem lexer_simulates : Transducer.Simulates (lexer (Glyph.kind (H := H))) (lexer kind)
    (LexState.map (render env)) (Glyph.text env) (Token.map (render env)) (Suits env) where
  start := rfl
  step := by
    intro s g hsuits
    have hsnoc : ∀ acc, render env (acc ++ [g]) = render env acc ++ g.text env := by
      intro acc
      simp [render]
    rw [lexer_step]
    cases g with
    | char c =>
        have hkind : (Glyph.char c : Glyph H).kind = kind c := rfl
        have hone : Glyph.text env (Glyph.char c : Glyph H) = [c] := rfl
        rw [hone] at hsnoc ⊢
        rw [Transducer.run_singleton, lexer_step]
        cases s with
        | normal =>
            rw [LexState.map, lexStep, lexStep, lexNormal_char env]
            rfl
        | word acc =>
            rw [LexState.map, lexStep, lexStep, hkind]
            cases hc : kind c <;> simp [lexNormal_char env c, hsnoc, LexState.map, Token.map]
        | str acc =>
            rw [LexState.map, lexStep, lexStep, hkind]
            cases kind c <;> simp [hsnoc, LexState.map, Token.map]
        | escape acc =>
            rw [LexState.map, lexStep, lexStep, hkind]
            cases kind c <;> simp [hsnoc, LexState.map]
    | hole h =>
        have hone : Glyph.text env (Glyph.hole h) = env h := rfl
        rw [hone] at hsnoc ⊢
        cases s with
        | normal =>
            obtain ⟨c, w, hw⟩ := List.exists_cons_of_ne_nil hsuits.1
            have hletters := hsuits.2
            have hacc := hsnoc []
            rw [hw] at hletters hacc ⊢
            have hstep : (lexer kind).step .normal c = some ([], .word [c]) := by
              rw [lexer_step, lexStep, lexNormal, kind_letter (hletters c List.mem_cons_self)]
            have hrest := run_word (fun c' hc' => hletters c' (List.mem_cons_of_mem _ hc')) [c]
            refine (Transducer.Passes.cons hstep hrest).trans ?_
            change _ = some ([], LexState.word (render env ([] ++ [.hole h])))
            rw [hacc]
            rfl
        | word acc =>
            refine (run_word hsuits.2 _).trans ?_
            rw [← hsnoc acc]
            rfl
        | str acc =>
            refine (run_str hsuits _).trans ?_
            rw [← hsnoc acc]
            rfl
        | escape acc =>
            obtain ⟨c, w, hw⟩ := List.exists_cons_of_ne_nil hsuits.1
            have hletters := hsuits.2
            have hacc := hsnoc acc
            rw [hw] at hletters hacc ⊢
            have hstep : (lexer kind).step (.escape (render env acc)) c =
                some ([], .str (render env acc ++ [c])) := by
              rw [lexer_step, lexStep, kind_letter (hletters c List.mem_cons_self)]
            have hrest := run_str (enclosed_of_letters fun c' hc' =>
              hletters c' (List.mem_cons_of_mem _ hc')) (render env acc ++ [c])
            refine (Transducer.Passes.cons hstep hrest).trans ?_
            change _ = some ([], LexState.str (render env (acc ++ [.hole h])))
            rw [hacc, List.append_assoc]
            rfl

def readerState (s : ReaderState (Glyph H)) : ReaderState Char :=
  ((s.1.1.map (render env), s.1.2.map (render env)), s.2.map (render env))

theorem pieces_simulates : Transducer.Simulates (pieces (Glyph.kind (H := H))) (pieces kind)
    (fun s => (s.1.map (render env), s.2.map (render env))) (Glyph.text env)
    (Piece.map (render env)) fun s => Suits env s.1 :=
  (lexer_simulates env).comp (lines_simulates _)

theorem reader_simulates : Transducer.Simulates (reader (Glyph.kind (H := H))) (reader kind)
    (readerState env) (Glyph.text env) (Item.map (render env)) fun s => Suits env s.1.1 :=
  (pieces_simulates env).comp (chunks_simulates _)

variable {env}

theorem suits_of_isWord {g : Glyph H} (h : ∀ h, g = .hole h → IsWord (env h))
    (s : LexState (Glyph H)) : Suits env s g := by
  cases g with
  | char c => trivial
  | hole h' =>
      cases s with
      | str acc => exact enclosed_of_letters (h h' rfl).2
      | normal => exact h h' rfl
      | word acc => exact h h' rfl
      | escape acc => exact h h' rfl

/-- A template whose holes are filled with words. -/
theorem reads_render {gs : List (Glyph H)} {items : List (Item (List (Glyph H)))}
    (hwords : ∀ h, .hole h ∈ gs → IsWord (env h)) (h : (reader Glyph.kind).Reads gs items) :
    (reader kind).Reads (render env gs) (items.map (Item.map (render env))) :=
  (reader_simulates env).reads (Transducer.along_of_forall fun _ hg _ =>
    suits_of_isWord (fun h' hh => hwords h' (hh ▸ hg)) _) h

theorem pieces_render {gs : List (Glyph H)} {ps : List (Piece (List (Glyph H)))}
    (hwords : ∀ h, .hole h ∈ gs → IsWord (env h)) (h : (pieces Glyph.kind).Reads gs ps) :
    (pieces kind).Reads (render env gs) (ps.map (Piece.map (render env))) :=
  (pieces_simulates env).reads (Transducer.along_of_forall fun _ hg _ =>
    suits_of_isWord (fun h' hh => hwords h' (hh ▸ hg)) _) h

theorem lexer_render {gs : List (Glyph H)} {ts : List (Token (List (Glyph H)))}
    (hwords : ∀ h, .hole h ∈ gs → IsWord (env h)) (h : (lexer Glyph.kind).Reads gs ts) :
    (lexer kind).Reads (render env gs) (mapTokens (render env) ts) :=
  (lexer_simulates env).reads (Transducer.along_of_forall fun _ hg _ =>
    suits_of_isWord (fun h' hh => hwords h' (hh ▸ hg)) _) h

end Render

section Frame
variable {W : Type}

def deepenAll : ℕ → List (Token W) → Option ℕ
  | depth, [] => some depth
  | depth, t :: ts => (deepen t depth).bind fun depth => deepenAll depth ts

theorem deepen_map {W' : Type} (f : W → W') (t : Token W) (depth : ℕ) :
    deepen (t.map f) depth = deepen t depth := by
  simp only [deepen, Token.isMark_map]

theorem deepenAll_map {W' : Type} (f : W → W') (ts : List (Token W)) (depth : ℕ) :
    deepenAll depth (mapTokens f ts) = deepenAll depth ts := by
  induction ts generalizing depth with
  | nil => rfl
  | cons t ts ih =>
      change (deepen (t.map f) depth).bind (fun d => deepenAll d (mapTokens f ts)) = _
      simp only [deepen_map, ih]
      rfl

theorem chunks_block {ts : List (Token W)} {depth depth' : ℕ} (h : deepenAll depth ts = some depth')
    (front acc : List (Token W)) : chunks.Passes (.block front depth acc) (ts.map .code) []
      (.block front depth' (acc ++ ts)) := by
  induction ts generalizing depth acc with
  | nil =>
      obtain rfl := Option.some.inj h
      rw [List.append_nil]
      exact Transducer.Passes.nil
  | cons t ts ih =>
      obtain ⟨deeper, hdeeper, hrest⟩ := Option.bind_eq_some_iff.mp h
      have hstep : chunks.step (.block front depth acc) (.code t) =
          some ([], .block front deeper (acc ++ [t])) := by
        rw [chunks_step, chunkStep, hdeeper]
      have hpass := Transducer.Passes.cons hstep (ih hrest (acc ++ [t]))
      rwa [List.append_assoc] at hpass

theorem lines_directive {ts : List (Token W)} (h : ∀ t ∈ ts, t.isNewline = false)
    (line : List (Token W)) : lines.Passes (.directive line) ts [] (.directive (line ++ ts)) := by
  induction ts generalizing line with
  | nil =>
      rw [List.append_nil]
      exact Transducer.Passes.nil
  | cons t ts ih =>
      have hstep : lines.step (.directive line) t = some ([], .directive (line ++ [t])) := by
        rw [lines_step, lineStep, h t List.mem_cons_self]
        rfl
      have hpass := Transducer.Passes.cons hstep
        (ih (fun t' ht' => h t' (List.mem_cons_of_mem _ ht')) (line ++ [t]))
      rwa [List.append_assoc] at hpass

end Frame

section Template
variable {H : Type} [DecidableEq H]

def Piece.token {W : Type} : Piece W → Option (Token W)
  | .code t => some t
  | .directive _ => none

def codeTokens (gs : List (Glyph H)) : Option (List (Token (List (Glyph H)))) :=
  match (pieces Glyph.kind).run (pieces Glyph.kind).start gs with
  | some (ps, s) => if s = (pieces Glyph.kind).start then ps.mapM Piece.token else none
  | none => none

theorem mapM_token {W : Type} {ps : List (Piece W)} {ts : List (Token W)}
    (h : ps.mapM Piece.token = some ts) : ps = ts.map .code := by
  induction ps generalizing ts with
  | nil =>
      obtain rfl := Option.some.inj h
      rfl
  | cons p ps ih =>
      rw [List.mapM_cons] at h
      obtain ⟨t, ht, hrest⟩ := Option.bind_eq_some_iff.mp h
      obtain ⟨ts', hts', heq⟩ := Option.bind_eq_some_iff.mp hrest
      obtain rfl := Option.some.inj heq
      cases p with
      | directive line => cases ht
      | code t' =>
          obtain rfl := Option.some.inj ht
          rw [ih hts']
          rfl

theorem reads_of_codeTokens {gs : List (Glyph H)} {ts : List (Token (List (Glyph H)))}
    (h : codeTokens gs = some ts) : (pieces Glyph.kind).Reads gs (ts.map .code) := by
  unfold codeTokens at h
  cases hrun : (pieces Glyph.kind).run (pieces Glyph.kind).start gs with
  | none =>
      rw [hrun] at h
      cases h
  | some r =>
      obtain ⟨ps, s⟩ := r
      rw [hrun] at h
      dsimp only at h
      split_ifs at h with hs
      rw [← mapM_token h]
      subst hs
      exact hrun

def lexTokens (gs : List (Glyph H)) : Option (List (Token (List (Glyph H)))) :=
  match (lexer Glyph.kind).run .normal gs with
  | some (ts, .normal) => some ts
  | _ => none

omit [DecidableEq H] in
theorem reads_of_lexTokens {gs : List (Glyph H)} {ts : List (Token (List (Glyph H)))}
    (h : lexTokens gs = some ts) : (lexer Glyph.kind).Reads gs ts := by
  unfold lexTokens at h
  split at h
  · next ts' hrun =>
    obtain rfl := Option.some.inj h
    exact hrun
  · cases h

def templateItems (gs : List (Glyph H)) : Option (List (Item (List (Glyph H)))) :=
  match (reader Glyph.kind).run (reader Glyph.kind).start gs with
  | some (items, s) => if s = (reader Glyph.kind).start then some items else none
  | none => none

theorem reads_of_templateItems {gs : List (Glyph H)} {items : List (Item (List (Glyph H)))}
    (h : templateItems gs = some items) : (reader Glyph.kind).Reads gs items := by
  unfold templateItems at h
  cases hrun : (reader Glyph.kind).run (reader Glyph.kind).start gs with
  | none =>
      rw [hrun] at h
      cases h
  | some r =>
      obtain ⟨items', s⟩ := r
      rw [hrun] at h
      dsimp only at h
      split_ifs at h with hs
      obtain rfl := Option.some.inj h
      subst hs
      exact hrun

end Template

section Functions
variable {W W' : Type} (f : W → W')

def isFunction (head : List (Token W)) : Bool := head.getLast?.any (Token.isMark ')')

def Item.declaration : Item W → Option (List (Token W))
  | .chunk head none => if isFunction head then some head else none
  | .chunk _ (some _) | .directive _ => none

def Item.definition : Item W → Option (List (Token W) × List (Token W))
  | .chunk head (some block) => if isFunction head then some (head, block) else none
  | .chunk _ none | .directive _ => none

def declared (items : List (Item W)) : List (List (Token W)) := items.filterMap Item.declaration

def defined (items : List (Item W)) : List (List (Token W) × List (Token W)) :=
  items.filterMap Item.definition

theorem isFunction_map (head : List (Token W)) : isFunction (mapTokens f head) = isFunction head := by
  rw [isFunction, mapTokens, List.getLast?_map, Option.any_map]
  simp only [Token.isMark_map]
  rfl

theorem Item.declaration_map (item : Item W) :
    (item.map f).declaration = item.declaration.map (mapTokens f) := by
  cases item with
  | directive line => rfl
  | chunk head block =>
      cases block with
      | some block => rfl
      | none =>
          simp only [Item.map, Option.map_none, Item.declaration, isFunction_map]
          split_ifs <;> rfl

theorem Item.definition_map (item : Item W) : (item.map f).definition =
    item.definition.map fun d => (mapTokens f d.1, mapTokens f d.2) := by
  cases item with
  | directive line => rfl
  | chunk head block =>
      cases block with
      | none => rfl
      | some block =>
          simp only [Item.map, Option.map_some, Item.definition, isFunction_map]
          split_ifs <;> rfl

theorem declared_map (items : List (Item W)) :
    declared (items.map (Item.map f)) = (declared items).map (mapTokens f) := by
  rw [declared, List.filterMap_map, declared, List.map_filterMap]
  exact congrArg (fun g => List.filterMap g items) (funext (Item.declaration_map f))

theorem defined_map (items : List (Item W)) : defined (items.map (Item.map f)) =
    (defined items).map fun d => (mapTokens f d.1, mapTokens f d.2) := by
  rw [defined, List.filterMap_map, defined, List.map_filterMap]
  exact congrArg (fun g => List.filterMap g items) (funext (Item.definition_map f))

@[simp] theorem declared_append (items items' : List (Item W)) :
    declared (items ++ items') = declared items ++ declared items' := List.filterMap_append

@[simp] theorem defined_append (items items' : List (Item W)) :
    defined (items ++ items') = defined items ++ defined items' := List.filterMap_append

end Functions

section Members
variable {W W' : Type} (f : W → W')

def statementStep (acc : List (Token W)) (t : Token W) :
    Option (List (List (Token W)) × List (Token W)) :=
  if t.isMark ';' then some ([acc], []) else some ([], acc ++ [t])

def statements : Transducer (List (Token W)) (Token W) (List (Token W)) :=
  ⟨[], statementStep, fun acc => if acc.isEmpty then some [] else none⟩

def Token.wordOf : Token W → Option W
  | .word w => some w
  | .str _ | .mark _ | .newline => none

def declaredName (ts : List (Token W)) : Option W :=
  (ts.takeWhile fun t => !t.isMark '[').getLast?.bind Token.wordOf

def memberNames (block : List (Token W)) : Option (List W) :=
  (statements.output block).bind fun members => members.mapM declaredName

theorem statements_simulates : Transducer.Simulates (statements (W := W)) (statements (W := W'))
    (mapTokens f) (fun t => [t.map f]) (mapTokens f) fun _ _ => True := by
  refine Transducer.simulates_of_step rfl fun acc t => ?_
  change statementStep (mapTokens f acc) (t.map f) = (statementStep acc t).map _
  simp only [statementStep, Token.isMark_map]
  split_ifs
  · rfl
  · simp [mapTokens]

theorem declaredName_map (ts : List (Token W)) :
    declaredName (mapTokens f ts) = (declaredName ts).map f := by
  have hmark : (fun t : Token W' => !t.isMark '[') ∘ Token.map f = fun t => !t.isMark '[' := by
    funext t
    exact congrArg not (Token.isMark_map f '[' t)
  rw [declaredName, mapTokens, List.takeWhile_map, hmark, List.getLast?_map, declaredName]
  cases (ts.takeWhile fun t => !t.isMark '[').getLast? with
  | none => rfl
  | some t => cases t <;> rfl

def Declares (ts : List (Token W)) (names : List W) : Prop :=
  ∃ members, statements.Reads ts members ∧ members.mapM declaredName = some names

theorem Declares.append {ts ts' : List (Token W)} {names names' : List W} (h : Declares ts names)
    (h' : Declares ts' names') : Declares (ts ++ ts') (names ++ names') := by
  obtain ⟨members, hreads, hnames⟩ := h
  obtain ⟨members', hreads', hnames'⟩ := h'
  refine ⟨members ++ members', hreads.append hreads', ?_⟩
  rw [List.mapM_append, hnames, hnames']
  rfl

theorem Declares.map {ts : List (Token W)} {names : List W} (h : Declares ts names) :
    Declares (mapTokens f ts) (names.map f) := by
  obtain ⟨members, hreads, hnames⟩ := h
  refine ⟨members.map (mapTokens f), ?_, ?_⟩
  · have hrun := (statements_simulates f).run_map [] ts
    rw [show statements.run [] ts = some (members, []) from hreads] at hrun
    exact hrun
  · clear hreads
    induction members generalizing names with
    | nil =>
        obtain rfl := Option.some.inj hnames
        rfl
    | cons member members ih =>
        rw [List.mapM_cons] at hnames
        obtain ⟨name, hname, hrest⟩ := Option.bind_eq_some_iff.mp hnames
        obtain ⟨names', hnames', heq⟩ := Option.bind_eq_some_iff.mp hrest
        obtain rfl := Option.some.inj heq
        rw [List.map_cons, List.mapM_cons, declaredName_map, hname, ih hnames']
        rfl

theorem Declares.memberNames {ts : List (Token W)} {names : List W} (h : Declares ts names) :
    memberNames ts = some names := by
  obtain ⟨members, hreads, hnames⟩ := h
  have houtput := hreads.output_eq rfl
  rw [CReader.memberNames, houtput, Option.bind_some, hnames]

end Members

/-- Between two records, or in one: its fields so far, the next one, and the brackets around. -/
inductive RecordState (W : Type)
  | outside
  | inside (fields : List (List (Token W))) (acc : List (Token W)) (depth : ℕ)
deriving DecidableEq, Repr

instance {W : Type} [DecidableEq W] :
    DecidableEq (List (List (List (Token W))) × RecordState W) := inferInstance

section Records
variable {W W' : Type}

def recordStep : RecordState W → Token W →
    Option (List (List (List (Token W))) × RecordState W)
  | .outside, t =>
      if t.isMark '\x7b' then some ([], .inside [] [] 0)
      else if t.isMark ',' then some ([], .outside)
      else none
  | .inside fields acc depth, t =>
      if t.isMark '(' then some ([], .inside fields (acc ++ [t]) (depth + 1))
      else if t.isMark ')' then
        match depth with
        | 0 => none
        | depth + 1 => some ([], .inside fields (acc ++ [t]) depth)
      else if depth = 0 ∧ t.isMark ',' then some ([], .inside (fields ++ [acc]) [] 0)
      else if depth = 0 ∧ t.isMark '\x7d' then
        some ([if acc.isEmpty then fields else fields ++ [acc]], .outside)
      else some ([], .inside fields (acc ++ [t]) depth)

def recordFinish : RecordState W → Option (List (List (List (Token W))))
  | .outside => some []
  | .inside _ _ _ => none

def records : Transducer (RecordState W) (Token W) (List (List (Token W))) :=
  ⟨.outside, recordStep, recordFinish⟩

@[simp] theorem records_step : (records (W := W)).step = recordStep := rfl

def RecordState.map (f : W → W') : RecordState W → RecordState W'
  | .outside => .outside
  | .inside fields acc depth => .inside (fields.map (mapTokens f)) (mapTokens f acc) depth

theorem records_simulates (f : W → W') : Transducer.Simulates (records (W := W))
    (records (W := W')) (RecordState.map f) (fun t => [t.map f])
    (fun fields => fields.map (mapTokens f)) fun _ _ => True := by
  refine Transducer.simulates_of_step rfl fun s t => ?_
  change recordStep (s.map f) (t.map f) = (recordStep s t).map _
  cases s with
  | outside =>
      simp only [RecordState.map, recordStep, Token.isMark_map]
      split_ifs <;> rfl
  | inside fields acc depth =>
      have hempty : (mapTokens f acc).isEmpty = acc.isEmpty := by cases acc <;> rfl
      simp only [RecordState.map, recordStep, Token.isMark_map, hempty]
      split_ifs
      · simp [mapTokens]
      · cases depth with
        | zero => rfl
        | succ depth => simp [mapTokens]
      · simp [mapTokens]
      · rfl
      · simp [mapTokens]
      · simp [mapTokens]

def fieldsOf (block : List (Token W)) : Option (List (List (Token W))) :=
  match records.run .outside (.mark '\x7b' :: (block ++ [.mark '\x7d'])) with
  | some ([fields], .outside) => some fields
  | _ => none

theorem fieldsOf_map (f : W → W') {block : List (Token W)} {fields : List (List (Token W))}
    (h : fieldsOf block = some fields) :
    fieldsOf (mapTokens f block) = some (fields.map (mapTokens f)) := by
  unfold fieldsOf at h
  split at h
  · next fields' hrun =>
    obtain rfl := Option.some.inj h
    have hmap := (records_simulates f).run_map .outside
      (.mark '\x7b' :: (block ++ [.mark '\x7d']))
    rw [hrun, List.map_cons, List.map_append] at hmap
    unfold fieldsOf
    change records.run .outside (.mark '\x7b' :: (mapTokens f block ++ [.mark '\x7d'])) = _ at hmap
    rw [hmap]
    rfl
  · cases h

def initialisedName (head : List (Token W)) : Option W :=
  declaredName (head.takeWhile fun t => !t.isMark '=')

def initialiser [DecidableEq W] (name : W) (items : List (Item W)) : Option (List (Token W)) :=
  items.findSome? fun item =>
    match item with
    | .chunk head (some block) => if initialisedName head = some name then some block else none
    | .chunk _ none | .directive _ => none

end Records

def Item.subject {W : Type} : Item W → Option W
  | .directive (_ :: .word name :: _) => some name
  | _ => none

theorem Item.subject_map {W W' : Type} (f : W → W') (item : Item W) :
    (item.map f).subject = item.subject.map f := by
  cases item with
  | chunk head block => rfl
  | directive line =>
      cases line with
      | nil => rfl
      | cons kind line =>
          cases line with
          | nil => rfl
          | cons name value => cases name <;> rfl

def subjects {W : Type} (items : List (Item W)) : List W := items.filterMap Item.subject

theorem subjects_map {W W' : Type} (f : W → W') (items : List (Item W)) :
    subjects (items.map (Item.map f)) = (subjects items).map f := by
  rw [subjects, List.filterMap_map, subjects, List.map_filterMap]
  exact congrArg (fun g => List.filterMap g items) (funext (Item.subject_map f))

@[simp] theorem subjects_append {W : Type} (items items' : List (Item W)) :
    subjects (items ++ items') = subjects items ++ subjects items' := List.filterMap_append

def Item.macro : Item (List Char) → Option (List Char × List (Token (List Char)))
  | .directive (.word kind :: .word name :: value) =>
      if kind = "define".toList then some (name, value) else none
  | _ => none

theorem Item.subject_of_macro {item : Item (List Char)} {name : List Char}
    {value : List (Token (List Char))} (h : item.macro = some (name, value)) :
    item.subject = some name := by
  unfold Item.macro at h
  split at h
  · split_ifs at h
    obtain ⟨rfl, rfl⟩ := Prod.mk.inj (Option.some.inj h)
    rfl
  · cases h

def macros (items : List (Item (List Char))) : List (List Char × List (Token (List Char))) :=
  items.filterMap Item.macro

/-- What a name stands for behind all definitions: the last one of it counts. -/
def macroValue (items : List (Item (List Char))) (name : List Char) :
    Option (List (Token (List Char))) := (macros items).reverse.lookup name

@[simp] theorem macros_append (items items' : List (Item (List Char))) :
    macros (items ++ items') = macros items ++ macros items' := List.filterMap_append

theorem mem_subjects_of_macros {items : List (Item (List Char))} {name : List Char}
    {value : List (Token (List Char))} (h : (name, value) ∈ macros items) :
    name ∈ subjects items := by
  obtain ⟨item, hmem, hmacro⟩ := List.mem_filterMap.mp h
  exact List.mem_filterMap.mpr ⟨item, hmem, Item.subject_of_macro hmacro⟩

theorem mem_of_macroValue {items : List (Item (List Char))} {name : List Char}
    {value : List (Token (List Char))} (h : macroValue items name = some value) :
    (name, value) ∈ macros items := by
  obtain ⟨front, back, hsplit, -⟩ := List.lookup_eq_some_iff.mp h
  exact List.mem_reverse.mp (hsplit ▸ List.mem_append_right front List.mem_cons_self)

theorem macroValue_isSome {items : List (Item (List Char))} {name : List Char}
    {value : List (Token (List Char))} (hmem : (name, value) ∈ macros items) :
    ∃ value', macroValue items name = some value' := by
  rw [← Option.isSome_iff_exists, Option.isSome_iff_ne_none]
  intro hnone
  have hother := List.lookup_eq_none_iff.mp hnone (name, value) (List.mem_reverse.mpr hmem)
  simp at hother

/-- A name with one meaning. -/
theorem macroValue_eq {items : List (Item (List Char))} {name : List Char}
    {value : List (Token (List Char))} (hmem : (name, value) ∈ macros items)
    (hunique : ∀ value', (name, value') ∈ macros items → value' = value) :
    macroValue items name = some value := by
  obtain ⟨value', hvalue⟩ := macroValue_isSome hmem
  rw [hvalue, hunique value' (mem_of_macroValue hvalue)]

/-- A name that is defined behind the rest. -/
theorem macroValue_append {items items' : List (Item (List Char))} {name : List Char}
    {value : List (Token (List Char))} (hmem : (name, value) ∈ macros items') :
    macroValue (items ++ items') name = macroValue items' name := by
  obtain ⟨value', hvalue⟩ := macroValue_isSome hmem
  rw [macroValue] at hvalue
  rw [macroValue, macroValue, macros_append, List.reverse_append, List.lookup_append, hvalue]
  rfl

section Braces
variable {W : Type}

/-- The braces outside of all directives match. -/
def Balanced (z : List Char) : Prop :=
  ∃ ps, (pieces kind).output z = some ps ∧ deepenAll 0 (ps.filterMap Piece.token) = some 0

def ChunkState.depth : ChunkState W → ℕ
  | .head _ => 0
  | .block _ depth _ => depth + 1

theorem deepen_succ (t : Token W) (depth : ℕ) :
    deepen t (depth + 1) = some (((deepen t depth).map (· + 1)).getD 0) := by
  unfold deepen
  split_ifs
  · rfl
  · cases depth <;> rfl
  · rfl

theorem chunkStep_depth {s s' : ChunkState W} {t : Token W} {items : List (Item W)}
    (h : chunkStep s (.code t) = some (items, s')) : deepen t s.depth = some s'.depth := by
  cases s with
  | head acc =>
      rw [chunkStep] at h
      rw [ChunkState.depth, deepen]
      split_ifs at h with hsemi hopen hclose
      · obtain ⟨-, rfl⟩ := Prod.mk.inj (Option.some.inj h)
        cases t with
        | mark c =>
            obtain rfl := beq_iff_eq.mp hsemi
            rfl
        | _ => cases hsemi
      · obtain ⟨-, rfl⟩ := Prod.mk.inj (Option.some.inj h)
        rw [if_pos hopen]
        rfl
      · obtain ⟨-, rfl⟩ := Prod.mk.inj (Option.some.inj h)
        rw [if_neg hopen, if_neg hclose]
        rfl
  | block front depth acc =>
      rw [chunkStep] at h
      rw [ChunkState.depth, deepen_succ]
      cases hdeepen : deepen t depth with
      | none =>
          rw [hdeepen] at h
          obtain ⟨-, rfl⟩ := Prod.mk.inj (Option.some.inj h)
          rfl
      | some depth' =>
          rw [hdeepen] at h
          obtain ⟨-, rfl⟩ := Prod.mk.inj (Option.some.inj h)
          rfl

theorem chunks_depth {ps : List (Piece W)} {items : List (Item W)} {s s' : ChunkState W}
    (h : chunks.Passes s ps items s') :
    deepenAll s.depth (ps.filterMap Piece.token) = some s'.depth := by
  induction ps generalizing s items with
  | nil =>
      obtain ⟨-, rfl⟩ := h.eq_nil
      rfl
  | cons p ps ih =>
      obtain ⟨first, next, rest, hstep, hrest, -⟩ := h.uncons
      have hnext := ih hrest
      cases p with
      | directive line =>
          have hsame : chunkStep s (.directive line) = some ([.directive line], s) := by
            cases s <;> rfl
          obtain ⟨-, rfl⟩ := Prod.mk.inj (Option.some.inj (hsame.symm.trans hstep))
          exact hnext
      | code t =>
          change (deepen t s.depth).bind (fun depth =>
            deepenAll depth (ps.filterMap Piece.token)) = _
          rw [chunkStep_depth hstep, Option.bind_some, hnext]

theorem balanced_of_readUnit {z : List Char} {items : List (Item (List Char))}
    (h : readUnit z = some items) : Balanced z := by
  obtain ⟨ps, hps, hchunks⟩ := Transducer.comp_output h
  refine ⟨ps, hps, ?_⟩
  obtain ⟨⟨first, s⟩, hrun, hfinish⟩ := Option.bind_eq_some_iff.mp hchunks
  have hdepth : s.depth = 0 := by
    cases s with
    | head acc => rfl
    | block front depth acc => cases hfinish
  have hall := chunks_depth hrun
  rw [hdepth] at hall
  exact hall

end Braces

end CReader
