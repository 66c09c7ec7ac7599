import Sorm.StatementText

/-!
# Building a statement in its buffer

A builder prints pieces at a running offset, and patches single bytes in between. As long as the
pieces fit it leaves them one after the other in the buffer, and once they do not it returns
`SORM_TOO_LONG`. A piece can also be so long that adding its length to the offset overflows.
-/

namespace Sorm

open Interaction

def Overflows : ℕ → List Text → Prop
  | _, [] => False
  | offset, piece :: pieces => offset ≤ sqlStmtMaxLen ∧
      ((piece.length ≤ intMax ∧ intMax < offset + piece.length) ∨
        Overflows (offset + piece.length) pieces)

theorem Overflows.offset_le {offset : ℕ} {pieces : List Text} (h : Overflows offset pieces) :
    offset ≤ sqlStmtMaxLen := by
  cases pieces with
  | nil => cases h
  | cons piece pieces => exact h.1

theorem overflows_cons {offset : ℕ} {piece : Text} {pieces : List Text} :
    Overflows offset (piece :: pieces) ↔ offset ≤ sqlStmtMaxLen ∧
      ((piece.length ≤ intMax ∧ intMax < offset + piece.length) ∨
        Overflows (offset + piece.length) pieces) := Iff.rfl

theorem overflows_append {offset : ℕ} {pieces pieces' : List Text} :
    Overflows offset (pieces ++ pieces') ↔
      Overflows offset pieces ∨ Overflows (offset + pieces.flatten.length) pieces' := by
  induction pieces generalizing offset with
  | nil => simp [Overflows]
  | cons piece pieces ih =>
      have hlength : offset + (piece :: pieces).flatten.length =
          offset + piece.length + pieces.flatten.length := by
        rw [List.flatten_cons, List.length_append, Nat.add_assoc]
      rw [List.cons_append, hlength, overflows_cons, overflows_cons, ih]
      constructor
      · rintro ⟨hle, hhere | hlater | hrest⟩
        · exact Or.inl ⟨hle, Or.inl hhere⟩
        · exact Or.inl ⟨hle, Or.inr hlater⟩
        · exact Or.inr hrest
      · rintro (⟨hle, hhere | hlater⟩ | hrest)
        · exact ⟨hle, Or.inl hhere⟩
        · exact ⟨hle, Or.inr (Or.inl hlater)⟩
        · have hle := hrest.offset_le
          exact ⟨by omega, Or.inr (Or.inr hrest)⟩

def cutLast (n : ℕ) (t : Text) : Text := t.take (t.length - n)

def replaceLast (c : Char) (t : Text) : Text := cutLast 1 t ++ [c]

theorem length_replaceLast {c : Char} {t : Text} (ht : t ≠ []) :
    (replaceLast c t).length = t.length := by
  have hpos := List.length_pos_iff.mpr ht
  rw [replaceLast, cutLast, List.length_append, List.length_take, List.length_singleton]
  omega

namespace Buf

def InBounds (b : Buf) : Prop := ∀ w ∈ b.writes, 0 ≤ w.1 ∧ w.1 + w.2 ≤ sqlStmtMaxLen + 1

theorem inBounds_empty : Buf.empty.InBounds := by
  intro w hw
  cases hw

theorem InBounds.snprintf {b : Buf} (h : b.InBounds) (s : Text) {size : ℕ}
    (hsize : b.offset + min s.length (size - 1) ≤ sqlStmtMaxLen) :
    (b.snprintf size s).InBounds := by
  unfold InBounds Buf.snprintf
  dsimp only
  split
  · exact h
  · intro w hw
    rcases List.mem_append.mp hw with hw | hw
    · exact h w hw
    · obtain rfl := List.mem_singleton.mp hw
      constructor
      · exact Int.natCast_nonneg _
      · dsimp only
        omega

theorem InBounds.put {b : Buf} (h : b.InBounds) {index : ℤ} (hpos : 0 ≤ index)
    (hle : index ≤ sqlStmtMaxLen) (c : Char) : (b.put index c).InBounds := by
  intro w hw
  rcases List.mem_append.mp hw with hw | hw
  · exact h w hw
  · obtain rfl := List.mem_singleton.mp hw
    constructor
    · exact hpos
    · dsimp only
      omega

/-- The offset stepped back by one, and a NUL put there. -/
theorem InBounds.stepBack {b : Buf} (h : b.InBounds) (hpos : 0 < b.offset)
    (hle : b.offset ≤ sqlStmtMaxLen) :
    (Buf.put { b with offset := b.offset - 1 } (b.offset - 1 : ℕ) '\x00').InBounds := by
  apply InBounds.put (b := { b with offset := b.offset - 1 }) h
  · exact Int.natCast_nonneg _
  · omega

theorem put_text {b : Buf} {t : Text} (h : b.text = t) {k : ℕ} (hk : k ≤ t.length) (c : Char) :
    (b.put k c).text = t.take k ++ if c = '\x00' then [] else c :: t.drop (k + 1) := by
  unfold Buf.put
  dsimp only
  rw [if_pos ⟨Int.natCast_nonneg k, by rw [h]; exact_mod_cast hk⟩, h, Int.toNat_natCast]

/-- The last character of the text replaced by another one. -/
theorem Holds.put_last {b : Buf} {t : Text} (h : b.Holds t) (ht : t ≠ []) {c : Char}
    (hc : c ≠ '\x00') : (b.put ((b.offset : ℤ) - 1) c).Holds (replaceLast c t) := by
  have hpos := List.length_pos_iff.mpr ht
  have hindex : (b.offset : ℤ) - 1 = (t.length - 1 : ℕ) := by
    rw [h.offset]
    omega
  constructor
  · rw [hindex, put_text h.text (Nat.sub_le _ _), if_neg hc, Nat.sub_add_cancel hpos,
      List.drop_length]
    rfl
  · rw [length_replaceLast ht]
    exact h.offset

/-- A NUL put `n` characters before the end. -/
theorem Holds.put_nul {b : Buf} {t : Text} (h : b.Holds t) {n : ℕ} (hn : n ≤ t.length) :
    (b.put ((b.offset : ℤ) - n) '\x00').text = cutLast n t := by
  have hindex : (b.offset : ℤ) - n = (t.length - n : ℕ) := by
    rw [h.offset]
    omega
  rw [hindex, put_text h.text (Nat.sub_le _ _), if_pos rfl, List.append_nil]
  rfl

theorem check_ok {b : Buf} (h : b.offset ≤ sqlStmtMaxLen) : b.check = .ok b :=
  if_neg (by omega)

def appendAll : List Text → Buf → Build
  | [], b => .ok b
  | piece :: pieces, b => do
      let b ← b.append piece
      appendAll pieces b

theorem appendEach_eq {ι : Type} (test : ι → Bool) (item : ι → Text) (is : List ι) (b : Buf) :
    b.appendEach test item is = b.appendAll ((is.filter test).map item) := by
  induction is generalizing b with
  | nil => rfl
  | cons i is ih =>
      unfold appendEach
      by_cases hi : test i
      · rw [if_pos hi, List.filter_cons_of_pos hi, List.map_cons, appendAll]
        congr 1
        funext b'
        exact ih b'
      · rw [if_neg hi, List.filter_cons_of_neg hi, ih]

/-- A piece that fits is printed. -/
theorem Holds.append_fits {b : Buf} {t s : Text} (h : b.Holds t)
    (hlen : (t ++ s).length ≤ sqlStmtMaxLen) : ∃ b', b.append s = .ok b' ∧ b'.Holds (t ++ s) := by
  have hmax : sqlStmtMaxLen < intMax := by decide
  have hoffset := h.offset
  rw [List.length_append] at hlen
  have hholds : (b.snprintf (sqlStmtMaxLen - b.offset + 1) s).Holds (t ++ s) :=
    h.snprintf (by omega)
  refine ⟨b.snprintf (sqlStmtMaxLen - b.offset + 1) s, ?_, hholds⟩
  unfold Buf.append
  dsimp only
  rw [if_neg (by omega), if_neg (by omega)]
  apply check_ok
  rw [hholds.offset, List.length_append]
  exact hlen

theorem Holds.appendAll_fits {b : Buf} {t : Text} (h : b.Holds t) (pieces : List Text)
    (hlen : (t ++ pieces.flatten).length ≤ sqlStmtMaxLen) :
    ∃ b', b.appendAll pieces = .ok b' ∧ b'.Holds (t ++ pieces.flatten) := by
  induction pieces generalizing b t with
  | nil =>
      rw [List.flatten_nil, List.append_nil]
      exact ⟨b, rfl, h⟩
  | cons piece pieces ih =>
      rw [List.flatten_cons, ← List.append_assoc] at hlen ⊢
      obtain ⟨b₁, h₁, hholds⟩ := h.append_fits (s := piece) (by
        rw [List.length_append] at hlen
        omega)
      obtain ⟨b', h', hholds'⟩ := ih hholds hlen
      refine ⟨b', ?_, hholds'⟩
      rw [appendAll, h₁]
      exact h'

end Buf

namespace Build

def buffer : Build → Buf
  | .ok b => b
  | .error (_, b) => b

/-- What a builder comes to that is to build `text`: unless an offset overflows, it is in the
buffer, or the error is `SORM_TOO_LONG`. The buffer is never left. -/
inductive Outcome (overflows : Prop) (text : Text) : Build → Prop
  | ok {b : Buf} (htext : b.text = text) (hlength : text.length ≤ sqlStmtMaxLen)
      (hbounds : b.InBounds) (hno : ¬ overflows) : Outcome overflows text (.ok b)
  | tooLong {b : Buf} (hbounds : b.InBounds) (hno : ¬ overflows) :
      Outcome overflows text (.error (.code .tooLong, b))
  | overflow {b : Buf} (hbounds : b.InBounds) (h : overflows) :
      Outcome overflows text (.error (.halt .undefined, b))

theorem Outcome.mono {overflows overflows' : Prop} {text : Text} {built : Build}
    (h : built.Outcome overflows text) (hiff : overflows ↔ overflows') :
    built.Outcome overflows' text := by
  rwa [← propext hiff]

variable {b : Buf} {t text : Text} {later : Prop} {k : Buf → Build}

/-- A piece printed behind `t`, and the rest of the builder after it. -/
theorem Outcome.append (h : b.Holds t) (hb : b.InBounds) (ht : t.length ≤ sqlStmtMaxLen)
    (piece : Text) (hlater : later → (t ++ piece).length ≤ sqlStmtMaxLen)
    (hk : ∀ b', b'.Holds (t ++ piece) → b'.InBounds → (t ++ piece).length ≤ sqlStmtMaxLen →
      Outcome later text (k b')) :
    Outcome (Overflows t.length [piece] ∨ later) text (b.append piece >>= k) := by
  have hmax : sqlStmtMaxLen < intMax := by decide
  have hbounds : (b.snprintf (sqlStmtMaxLen - b.offset + 1) piece).InBounds := by
    apply hb.snprintf
    rw [h.offset]
    omega
  have hoffset : (b.snprintf (sqlStmtMaxLen - b.offset + 1) piece).offset =
      t.length + piece.length := by
    rw [← h.offset]
    rfl
  have hhere : Overflows t.length [piece] ↔
      piece.length ≤ intMax ∧ intMax < t.length + piece.length := by
    simp [Overflows, ht]
  rw [List.length_append] at hlater
  unfold Buf.append Buf.check
  dsimp only
  rw [hoffset, h.offset, hhere]
  split_ifs with hint hsum hlong
  · rw [h.offset] at hbounds
    refine .tooLong hbounds ?_
    rintro (hhere | hl)
    · omega
    · have := hlater hl
      omega
  · rw [h.offset] at hbounds
    exact .overflow hbounds (Or.inl ⟨by omega, hsum⟩)
  · rw [h.offset] at hbounds
    refine .tooLong hbounds ?_
    rintro (hhere | hl)
    · omega
    · have := hlater hl
      omega
  · rw [← h.offset]
    have hlen : (t ++ piece).length ≤ sqlStmtMaxLen := by
      rw [List.length_append]
      omega
    have hholds : (b.snprintf (sqlStmtMaxLen - b.offset + 1) piece).Holds (t ++ piece) := by
      apply h.snprintf
      rw [h.offset]
      omega
    apply (hk _ hholds hbounds hlen).mono
    rw [h.offset, or_iff_right]
    omega

theorem Outcome.appendAll (h : b.Holds t) (hb : b.InBounds) (ht : t.length ≤ sqlStmtMaxLen)
    (pieces : List Text) (hlater : later → (t ++ pieces.flatten).length ≤ sqlStmtMaxLen)
    (hk : ∀ b', b'.Holds (t ++ pieces.flatten) → b'.InBounds →
      (t ++ pieces.flatten).length ≤ sqlStmtMaxLen → Outcome later text (k b')) :
    Outcome (Overflows t.length pieces ∨ later) text (b.appendAll pieces >>= k) := by
  induction pieces generalizing b t with
  | nil =>
      rw [List.flatten_nil, List.append_nil] at hk
      apply (hk b h hb ht).mono
      simp [Overflows]
  | cons piece pieces ih =>
      have hassoc : (t ++ piece) ++ pieces.flatten = t ++ (piece :: pieces).flatten := by
        rw [List.append_assoc, List.flatten_cons]
      have hlast : Overflows (t ++ piece).length pieces ∨ later →
          (t ++ piece).length ≤ sqlStmtMaxLen := by
        rintro (hrest | hl)
        · exact hrest.offset_le
        · have hle := hlater hl
          rw [← hassoc, List.length_append] at hle
          omega
      have hsplit : Overflows t.length (piece :: pieces) ↔
          Overflows t.length [piece] ∨ Overflows (t ++ piece).length pieces := by
        rw [← List.singleton_append, overflows_append, List.flatten_singleton, List.length_append]
      rw [Buf.appendAll, bind_assoc, hsplit, or_assoc]
      apply Outcome.append h hb ht piece hlast
      intro b' h' hb' ht'
      rw [← hassoc] at hlater hk
      exact ih h' hb' ht' hlater hk

end Build
end Sorm
