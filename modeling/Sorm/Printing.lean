import Sorm.Objects
import Sorm.QuoteBounds

/-!
# Printing an object

`sorm_to_string` on a byte memory. Each column is printed behind what is there already, and the
bound that is passed on is one more than what is left of the buffer, but for the first piece. What
`%f` prints is a parameter, since doubles are rationals here and infinities, NaN and -0.0 are not.
-/

namespace Sorm

open Interaction

def Memory.writeText (m : Memory) (l : Loc) : Text → Memory
  | [] => m
  | c :: text => (m.write l c).writeText (l.add 1) text

/-- `snprintf(dest, n, ..)`, where `text` is what the format and its arguments come to. The size is
converted to an unsigned type. A length that does not fit into an `int` is reported as an error. -/
def snprintf (m : Memory) (dest : Loc) (n : ℤ) (text : Text) : ℤ × Memory :=
  let ret : ℤ := if intMax < text.length then -1 else text.length
  if n = 0 then (ret, m)
  else if n < 0 then (ret, m.writeText dest (text ++ ['\x00']))
  else (ret, m.writeText dest (text.take (n - 1).toNat ++ ['\x00']))

def nullString : Text := "(null)".toList

def TableDescriptor.heading (table : TableDescriptor) : Text := table.name ++ " \x7b ".toList

section Function

variable (printed : ℚ → Text)

/-- The text of one column; `none` is the return of NULL. -/
def Object.columnText {table : TableDescriptor} (obj : Object table) (i : table.Index) :
    Option Text :=
  let column := table.column i
  let slot := obj.slots i
  if obj.valued i then
    match column.type with
    | .int => some (column.name ++ ['('] ++ printInt slot.int32.toInt ++ "); ".toList)
    | .int64 => some (column.name ++ ['('] ++ printInt slot.int64.toInt ++ "); ".toList)
    | .text =>
        let quoted (data : Text) := column.name ++ "(\"".toList ++ data ++ "\"); ".toList
        match column.mem with
        | .heap => some (quoted ((slot.pointer.map fun p => p.text.chars).getD nullString))
        | .stack => some (quoted slot.chars.chars)
        | .none => none
    | .double => some (column.name ++ ['('] ++ printed slot.double ++ "); ".toList)
    | .blob => some (column.name ++ ['('] ++ printInt slot.blobLen ++ "); ".toList)
    | .unknown _ => none
  else some (column.name ++ "(null); ".toList)

def toStringColumns {table : TableDescriptor} (obj : Object table) (string : Loc) (len : ℤ) :
    List table.Index → ℤ → Memory → Except Halt (Option Loc × Memory)
  | [], offset, m =>
      let (_, m) := snprintf m (string.add offset) (len - offset + 1) ['\x7d']
      .ok (some string, m)
  | i :: is, offset, m =>
      match obj.columnText printed i with
      | none => .ok (none, m)
      | some text =>
          let (ret, m) := snprintf m (string.add offset) (len - offset + 1) text
          let offset := offset + ret
          if offset > intMax then .error .undefined
          else if ret < 0 ∨ offset > len - 1 then .ok (some string, m)
          else toStringColumns obj string len is offset m

def sormToString {table : TableDescriptor} (tableDesc : Option (Object table))
    (string : Option Loc) (len : ℤ) (m : Memory) : Except Halt (Option Loc × Memory) :=
  match tableDesc, string with
  | none, _ | some _, none => .ok (none, m)
  | some obj, some string =>
      let (offset, m) := snprintf m string len table.heading
      if offset < 0 ∨ offset > len - 1 then .ok (some string, m)
      else toStringColumns printed obj string len table.indexes offset m

end Function

section Text

variable {m : Memory} {a : ℕ}

theorem loc_add (a : ℕ) (i j : ℤ) : Loc.add (a, i) j = (a, i + j) := rfl

theorem writeText_touches {R W : Loc → Prop} {i : ℤ} {text : Text}
    (h : ∀ k : ℕ, k < text.length → W (a, i + k)) :
    m.Touches (m.writeText (a, i) text) R W := by
  induction text generalizing m i with
  | nil => exact .refl m R W
  | cons c text ih =>
      have hfirst : W (a, i) := by
        have h0 := h 0 (Nat.succ_pos _)
        rwa [Nat.cast_zero, add_zero] at h0
      refine .trans (.write hfirst c) (ih fun k hk => ?_)
      have hnext := h (k + 1) (Nat.succ_lt_succ hk)
      rw [Nat.cast_succ, add_comm (k : ℤ), ← add_assoc] at hnext
      exact hnext

theorem writeText_writes {i : ℤ} {text : Text} {k : ℕ} (hk : k < text.length) :
    (a, i + k) ∈ (m.writeText (a, i) text).writes := by
  induction text generalizing m i k with
  | nil => cases hk
  | cons c text ih =>
      have hrest : (m.write (a, i) c).Touches ((m.write (a, i) c).writeText (a, i + 1) text)
          (fun _ => True) fun _ => True := writeText_touches fun _ _ => trivial
      cases k with
      | zero =>
          apply hrest.mem_writes
          rw [Nat.cast_zero, add_zero]
          exact List.mem_append_right _ (List.mem_singleton_self _)
      | succ k =>
          have hmem := @ih (m.write (a, i) c) (i + 1) k (Nat.lt_of_succ_lt_succ hk)
          rw [add_assoc, add_comm 1] at hmem
          rw [Nat.cast_succ]
          exact hmem

/-- Nothing before a text changes. -/
theorem writeText_before {i j : ℤ} {text : Text} (hj : j < i) :
    (m.writeText (a, i) text).byte (a, j) = m.byte (a, j) := by
  induction text generalizing m i with
  | nil => rfl
  | cons c text ih =>
      refine (@ih (m.write (a, i) c) (i + 1) (by omega)).trans ?_
      apply m.write_byte_of_ne
      intro heq
      have hj' := congrArg Prod.snd heq
      dsimp only at hj'
      omega

theorem writeText_hasString {i : ℤ} {text : Text} :
    HasString (m.writeText (a, i) (text ++ ['\x00'])).byte (a, i) text := by
  induction text generalizing m i with
  | nil => exact m.write_byte_self _ _
  | cons c text ih =>
      refine ⟨?_, @ih (m.write (a, i) c) (i + 1)⟩
      have hlt : i < i + 1 := Int.lt_succ i
      exact (writeText_before (m := m.write (a, i) c) hlt).trans (m.write_byte_self _ _)

/-- A string printed behind a string. -/
theorem HasString.printed {s text : Text} (h : HasString m.byte (a, 0) s) :
    HasString (m.writeText (a, (s.length : ℤ)) (text ++ ['\x00'])).byte (a, 0) (s ++ text) := by
  have happend : ∀ (i : ℤ) (s : Text), HasString m.byte (a, i) s →
      HasString (m.writeText (a, i + s.length) (text ++ ['\x00'])).byte (a, i) (s ++ text) := by
    intro i s hs
    induction s generalizing i with
    | nil =>
        rw [List.nil_append, List.length_nil, Nat.cast_zero, add_zero]
        exact writeText_hasString
    | cons c s ih =>
        obtain ⟨hc, hs⟩ := hs
        refine ⟨?_, ?_⟩
        · rw [writeText_before (by rw [List.length_cons]; omega)]
          exact hc
        · have hrest := ih (i + 1) hs
          have hlen : i + ((c :: s).length : ℤ) = i + 1 + s.length := by
            rw [List.length_cons, Nat.cast_succ]
            ring
          rw [hlen]
          exact hrest
  have hprinted := happend 0 s h
  rwa [zero_add] at hprinted

end Text

section Snprintf

variable {m : Memory} {a : ℕ} {i n : ℤ} {text : Text}

/-- A text that fits is printed whole. -/
theorem snprintf_fits (hn : (text.length : ℤ) < n) (hint : text.length ≤ intMax) :
    snprintf m (a, i) n text = ((text.length : ℤ), m.writeText (a, i) (text ++ ['\x00'])) := by
  unfold snprintf
  rw [if_neg (by omega), if_neg (by omega), if_neg (by omega), List.take_of_length_le (by omega)]

/-- A text that does not fit is cut off. -/
theorem snprintf_cut (hpos : 0 < n) :
    snprintf m (a, i) n text = (if intMax < text.length then -1 else (text.length : ℤ),
      m.writeText (a, i) (text.take (n - 1).toNat ++ ['\x00'])) := by
  unfold snprintf
  rw [if_neg (show n ≠ 0 by omega), if_neg (show ¬ n < 0 by omega)]

end Snprintf

def TableDescriptor.Printable (table : TableDescriptor) : Prop :=
  ∀ column ∈ table.columns, match column.type with
    | .text => column.mem ≠ .none
    | .unknown _ => False
    | _ => True

section Object

variable {table : TableDescriptor} (printed : ℚ → Text)

def Object.columnTexts (obj : Object table) (is : List table.Index) : Text :=
  (is.map fun i => (obj.columnText printed i).getD []).flatten ++ ['\x7d']

def Object.rendering (obj : Object table) : Text :=
  table.heading ++ obj.columnTexts printed table.indexes

/-- The object is printed into a buffer of `len` bytes, as far as there is room for it. -/
def Object.PrintsWithin (obj : Object table) (len : ℤ) : Prop :=
  ∀ (m : Memory) (a : ℕ), ∃ m',
    sormToString printed (some obj) (some (a, 0)) len m = .ok (some (a, 0), m') ∧
    m.Touches m' (fun _ => False) (inRange a 0 len) ∧
    HasString m'.byte (a, 0) ((obj.rendering printed).take (len - 1).toNat)

variable {printed} {obj : Object table} {len : ℤ} {a : ℕ}

theorem Object.columnText_isSome (h : table.Printable) (obj : Object table) (i : table.Index) :
    ∃ text, obj.columnText printed i = some text := by
  have hcolumn := h (table.column i) (List.get_mem table.columns i)
  unfold columnText
  dsimp only
  split
  · split
    · exact ⟨_, rfl⟩
    · exact ⟨_, rfl⟩
    · next htype =>
      rw [htype] at hcolumn
      split
      · exact ⟨_, rfl⟩
      · exact ⟨_, rfl⟩
      · next hmem => exact absurd hmem hcolumn
    · exact ⟨_, rfl⟩
    · exact ⟨_, rfl⟩
    · next htype =>
      rw [htype] at hcolumn
      exact absurd hcolumn id
  · exact ⟨_, rfl⟩

theorem columnTexts_cons {i : table.Index} {is : List table.Index} {text : Text}
    (h : obj.columnText printed i = some text) :
    obj.columnTexts printed (i :: is) = text ++ obj.columnTexts printed is := by
  unfold Object.columnTexts
  rw [List.map_cons, List.flatten_cons, h, Option.getD_some, List.append_assoc]

/-- Columns that fit into what is left of the buffer are printed behind what is there. -/
theorem toStringColumns_fits (hprintable : table.Printable) (hlen : len ≤ intMax)
    {is : List table.Index} {s : Text} {m : Memory} (hs : HasString m.byte (a, 0) s)
    (hfits : (s.length : ℤ) + (obj.columnTexts printed is).length < len) :
    ∃ m', toStringColumns printed obj (a, 0) len is s.length m = .ok (some (a, 0), m') ∧
      m.Touches m' (fun _ => False) (inRange a 0 len) ∧
      HasString m'.byte (a, 0) (s ++ obj.columnTexts printed is) := by
  have htouches : ∀ (m : Memory) (s text : Text), (s.length : ℤ) + text.length < len →
      m.Touches (m.writeText (a, (s.length : ℤ)) (text ++ ['\x00'])) (fun _ => False)
        (inRange a 0 len) := by
    intro m s text h
    refine writeText_touches fun k hk => ⟨s.length + k, by omega, ?_, rfl⟩
    rw [List.length_append, List.length_singleton] at hk
    omega
  induction is generalizing s m with
  | nil =>
      have hone : (obj.columnTexts printed []).length = 1 := rfl
      rw [hone] at hfits
      unfold toStringColumns
      rw [loc_add, zero_add, snprintf_fits (by simp; omega) (by simp [intMax])]
      exact ⟨_, rfl, htouches m s ['\x7d'] hfits, hs.printed⟩
  | cons i is ih =>
      obtain ⟨text, htext⟩ : ∃ text, obj.columnText printed i = some text :=
        obj.columnText_isSome hprintable i
      rw [columnTexts_cons htext, List.length_append] at hfits
      unfold toStringColumns
      rw [htext]
      dsimp only
      rw [loc_add, zero_add, snprintf_fits (by omega) (by omega)]
      dsimp only
      rw [if_neg (by push_cast at hfits ⊢; omega), if_neg (by push_cast at hfits ⊢; omega)]
      have hrest := @ih (s ++ text) _ hs.printed
        (by rw [List.length_append]; push_cast at hfits ⊢; omega)
      rw [List.length_append] at hrest
      obtain ⟨m', heq, hlog, hstring⟩ := hrest
      refine ⟨m', heq, .trans (htouches m s text (by push_cast at hfits; omega)) hlog, ?_⟩
      rw [columnTexts_cons htext, ← List.append_assoc]
      exact hstring

/-- Columns that do not fit are written over the end of the buffer. -/
theorem toStringColumns_over (hprintable : table.Printable) (hlen : len ≤ intMax)
    {is : List table.Index} {offset : ℤ} {m m' : Memory} {r : Option Loc}
    (hoffset : 0 ≤ offset) (hlt : offset < len)
    (hover : len ≤ offset + (obj.columnTexts printed is).length)
    (h : toStringColumns printed obj (a, 0) len is offset m = .ok (r, m')) :
    (a, len) ∈ m'.writes := by
  have hlast : ∀ (m : Memory) (offset : ℤ) (text : Text), offset < len →
      len ≤ offset + text.length →
        (a, len) ∈ (snprintf m (a, offset) (len - offset + 1) text).2.writes := by
    intro m offset text hlt hover
    have hindex : ∀ l : Text, (l.length : ℤ) = len - offset →
        (a, len) ∈ (m.writeText (a, offset) (l ++ ['\x00'])).writes := by
      intro l hl
      have hmem := @writeText_writes m a offset (l ++ ['\x00']) l.length (by simp)
      rwa [hl, add_sub_cancel] at hmem
    rw [snprintf_cut (by omega)]
    apply hindex
    rw [List.length_take]
    omega
  induction is generalizing offset m with
  | nil =>
      have hone : (obj.columnTexts printed []).length = 1 := rfl
      rw [hone] at hover
      have hmem := hlast m offset ['\x7d'] hlt hover
      unfold toStringColumns at h
      rw [loc_add, zero_add] at h
      obtain ⟨-, rfl⟩ := Prod.mk.inj (Except.ok.inj h)
      exact hmem
  | cons i is ih =>
      obtain ⟨text, htext⟩ : ∃ text, obj.columnText printed i = some text :=
        obj.columnText_isSome hprintable i
      rw [columnTexts_cons htext, List.length_append] at hover
      unfold toStringColumns at h
      rw [htext] at h
      dsimp only at h
      rw [loc_add, zero_add] at h
      by_cases hfits : offset + text.length < len ∧ text.length ≤ intMax
      · obtain ⟨hfits, hint⟩ := hfits
        rw [snprintf_fits (by omega) hint] at h
        dsimp only at h
        by_cases hoverflow : offset + (text.length : ℤ) > intMax
        · rw [if_pos hoverflow] at h
          cases h
        · rw [if_neg hoverflow, if_neg (by omega)] at h
          exact ih (by omega) hfits (by push_cast at hover; omega) h
      · have hmem := hlast m offset text hlt (by omega)
        have hroom : 0 < len - offset + 1 := by omega
        have hcut := @snprintf_cut m a offset (len - offset + 1) text hroom
        rw [hcut] at hmem h
        dsimp only at h
        by_cases hint : intMax < text.length
        · rw [if_pos hint, if_neg (by omega), if_pos (.inl (by omega))] at h
          obtain ⟨-, rfl⟩ := Prod.mk.inj (Except.ok.inj h)
          exact hmem
        · rw [if_neg hint] at h
          by_cases hoverflow : offset + (text.length : ℤ) > intMax
          · rw [if_pos hoverflow] at h
            cases h
          · rw [if_neg hoverflow, if_pos (.inr (by omega))] at h
            obtain ⟨-, rfl⟩ := Prod.mk.inj (Except.ok.inj h)
            exact hmem

/-- The heading alone fills the buffer. -/
theorem printsWithin_heading (hlen : 0 < len) (hfills : len ≤ table.heading.length) :
    obj.PrintsWithin printed len := by
  intro m a
  have hcut : table.heading.take (len - 1).toNat =
      (obj.rendering printed).take (len - 1).toNat := by
    rw [Object.rendering, List.take_append_of_le_length (by omega)]
  refine ⟨m.writeText (a, 0) (table.heading.take (len - 1).toNat ++ ['\x00']), ?_, ?_, ?_⟩
  · unfold sormToString
    dsimp only
    rw [snprintf_cut hlen]
    dsimp only
    rw [if_pos]
    by_cases hint : intMax < table.heading.length
    · rw [if_pos hint]
      exact .inl (by omega)
    · rw [if_neg hint]
      exact .inr (by omega)
  · refine writeText_touches fun k hk => ⟨k, by omega, ?_, by rw [zero_add]⟩
    rw [List.length_append, List.length_take, List.length_singleton] at hk
    omega
  · rw [← hcut]
    exact writeText_hasString

/-- The whole text fits. -/
theorem printsWithin_fits (hprintable : table.Printable) (hlen : len ≤ intMax)
    (hfits : ((obj.rendering printed).length : ℤ) < len) : obj.PrintsWithin printed len := by
  intro m a
  rw [Object.rendering, List.length_append] at hfits
  push_cast at hfits
  have hheading : HasString (m.writeText (a, 0) (table.heading ++ ['\x00'])).byte (a, 0)
      table.heading := writeText_hasString
  obtain ⟨m', heq, hlog, hstring⟩ := toStringColumns_fits hprintable hlen hheading hfits
  refine ⟨m', ?_,
    .trans (writeText_touches fun k hk => ⟨k, by omega, ?_, by rw [zero_add]⟩) hlog, ?_⟩
  · unfold sormToString
    dsimp only
    rw [snprintf_fits (by omega) (by omega)]
    dsimp only
    rw [if_neg (by omega)]
    exact heq
  · rw [List.length_append, List.length_singleton] at hk
    omega
  · rw [List.take_of_length_le]
    · exact hstring
    · rw [Object.rendering, List.length_append]
      omega

/-- The buffer is respected exactly when the whole text fits, or already the heading does not. -/
theorem printsWithin_iff (hprintable : table.Printable) (printed : ℚ → Text) (obj : Object table)
    (hlen : 1 ≤ len) (hmax : len ≤ intMax) : obj.PrintsWithin printed len ↔
      ((obj.rendering printed).length : ℤ) < len ∨ len ≤ table.heading.length := by
  constructor
  · intro h
    by_contra hnot
    obtain ⟨hover, hheading⟩ := not_or.mp hnot
    obtain ⟨m', heq, hlog, -⟩ := h ⟨fun _ => '\x00', [], []⟩ 0
    unfold sormToString at heq
    dsimp only at heq
    have hlt : (table.heading.length : ℤ) < len := by omega
    rw [snprintf_fits hlt (by omega)] at heq
    dsimp only at heq
    rw [if_neg (by omega)] at heq
    rw [Object.rendering, List.length_append] at hover
    have hmem := toStringColumns_over hprintable hmax (by omega) hlt
      (by push_cast at hover; omega) heq
    obtain ⟨ls, hls, hin⟩ := hlog.writes
    rw [hls, List.nil_append] at hmem
    obtain ⟨k, -, hk, hloc⟩ := hin _ hmem
    have hk' := congrArg Prod.snd hloc
    dsimp only at hk'
    omega
  · rintro (hfits | hfills)
    · exact printsWithin_fits hprintable hmax hfits
    · exact printsWithin_heading (by omega) hfills

end Object

def letterTable : TableDescriptor where
  name := ['t']
  size := 16
  columns := [⟨['c'], .int, .none, .none, 0, false, [], []⟩]
  pkIndex := none
  createSql := none

theorem printsWithin_iff_letter :
    (Object.fresh letterTable).PrintsWithin printDouble 15 ↔
      (((Object.fresh letterTable).rendering printDouble).length : ℤ) < 15 ∨
        (15 : ℤ) ≤ letterTable.heading.length := by
  have hlen : (1 : ℤ) ≤ 15 ∧ (15 : ℤ) ≤ intMax := by decide
  refine printsWithin_iff ?_ printDouble _ hlen.1 hlen.2
  intro column hcolumn
  obtain rfl := List.mem_singleton.mp hcolumn
  trivial

/-- A buffer of five bytes for the text `t { c(null); }`. -/
theorem not_printsWithin : ¬ ∀ (printed : ℚ → Text) (table : TableDescriptor) (obj : Object table)
    (len : ℤ), table.Printable → 1 ≤ len → len ≤ intMax → obj.PrintsWithin printed len := by
  intro h
  have hprintable : letterTable.Printable := by
    intro column hcolumn
    obtain rfl := List.mem_singleton.mp hcolumn
    trivial
  have hlen : (1 : ℤ) ≤ 5 ∧ (5 : ℤ) ≤ intMax := by decide
  obtain ⟨m', heq, hlog, -⟩ := h printDouble letterTable (Object.fresh letterTable) 5 hprintable
    hlen.1 hlen.2 ⟨fun _ => '\x00', [], []⟩ 0
  have hwrites : ∃ m₁ : Memory, (0, (5 : ℤ)) ∈ m₁.writes ∧
      sormToString printDouble (some (Object.fresh letterTable)) (some (0, 0)) 5
        ⟨fun _ => '\x00', [], []⟩ = .ok (some (0, 0), m₁) := ⟨_, by decide, rfl⟩
  obtain ⟨m₁, hmem, heq₁⟩ := hwrites
  obtain ⟨-, rfl⟩ := Prod.mk.inj (Except.ok.inj (heq.symm.trans heq₁))
  obtain ⟨ls, hls, hin⟩ := hlog.writes
  rw [hls, List.nil_append] at hmem
  obtain ⟨k, -, hk, hloc⟩ := hin _ hmem
  have hk' := congrArg Prod.snd hloc
  dsimp only at hk'
  omega

end Sorm
