import Sorm.ColumnItems
import Sorm.QuoteBounds

/-!
# Trimming in place

The loop of `_columns_name_to_select_columns` on a byte memory: a comma is overwritten by NUL, and
`trim` then walks over the item from both ends. Its last loop has no bound and stops at a byte that
is no blank, which for an item that is all blank is the NUL of the comma before it.
-/

namespace Sorm

open Interaction

def strchrAt (m : Memory) (str : Loc) (c : Char) : ℕ → Except Halt (Memory × Option Loc)
  | 0 => .error .undefined
  | size + 1 =>
      let m := m.touch str
      if m.byte str = c then .ok (m, some str)
      else if m.byte str = '\x00' then .ok (m, none)
      else strchrAt m (str.add 1) c size

def skipBlanks (m : Memory) (str : Loc) : ℕ → Except Halt (Memory × Loc)
  | 0 => .error .undefined
  | size + 1 =>
      let m := m.touch str
      if isBlank (m.byte str) then skipBlanks m (str.add 1) size else .ok (m, str)

def findEnd (m : Memory) (strEnd : Loc) : ℕ → Except Halt (Memory × Loc)
  | 0 => .error .undefined
  | size + 1 =>
      let m := m.touch strEnd
      if m.byte strEnd = '\x00' then .ok (m, strEnd) else findEnd m (strEnd.add 1) size

def clearBlanks (m : Memory) (strEnd : Loc) : ℕ → Except Halt Memory
  | 0 => .error .undefined
  | size + 1 =>
      let m := m.touch strEnd
      if isBlank (m.byte strEnd) then clearBlanks (m.write strEnd '\x00') (strEnd.add (-1)) size
      else .ok m

/-- `trim`: the memory, and what is in `*str_p` then. -/
def trimAt (m : Memory) (strP : Loc) (strEnd : Option Loc) (size : ℕ) :
    Except Halt (Memory × Loc) := do
  let (m, str) ← skipBlanks m strP size
  let (m, strEnd) ← match strEnd with
    | some strEnd => pure (m, strEnd)
    | none => findEnd m str size
  let m ← clearBlanks m (strEnd.add (-1)) size
  return (m, str)

def cutName (m : Memory) (columnName : Loc) (size : ℕ) : Except Halt Memory := do
  let (m, delimiter) ← strchrAt m columnName '.' size
  match delimiter with
  | none => return m
  | some l => return m.write l '\x00'

def trimItems (size : ℕ) (m : Memory) (columnName : Loc) : ℕ → Except Halt (Memory × List Text)
  | 0 => .error .undefined
  | rounds + 1 => do
      let (m, delimiter) ← strchrAt m columnName ',' size
      let m := match delimiter with
        | some l => m.write l '\x00'
        | none => m
      let (m, str) ← trimAt m columnName delimiter size
      let item := m.stringAt str size
      let m ← cutName m str size
      match delimiter with
      | none => return (m, [item])
      | some l => do
          let (m, items) ← trimItems size m (l.add 1) rounds
          return (m, item :: items)

section Loops

variable {m : Memory} {a : ℕ} {i : ℤ} {s : Text} {size : ℕ}

theorem HasString.byte_nul (h : HasString m.byte (a, i) s) : m.byte (a, i + s.length) = '\x00' := by
  have hend := hasString_iff.mp h s.length (by simp)
  rw [List.getElem_append_right le_rfl] at hend
  simpa [Loc.add] using hend

theorem HasString.append_right {u v : Text} (h : HasString m.byte (a, i) (u ++ v)) :
    HasString m.byte (a, i + u.length) v := by
  induction u generalizing i with
  | nil => simpa using h
  | cons c u ih =>
      have hrest := ih h.2
      rw [List.length_cons, Nat.cast_succ, add_comm (u.length : ℤ), ← add_assoc]
      exact hrest

theorem strchrAt_eq {c : Char} (hs : HasString m.byte (a, i) s) (hnul : '\x00' ∉ s)
    (hc : c ≠ '\x00') (hsize : s.length < size) :
    ∃ m', strchrAt m (a, i) c size =
        .ok (m', if c ∈ s then some (a, i + s.idxOf c) else none) ∧ m'.byte = m.byte ∧
      m.Touches m' (inRange a i (i + s.length + 1)) fun _ => False := by
  induction s generalizing m i size with
  | nil =>
      obtain ⟨size, rfl⟩ := Nat.exists_eq_succ_of_ne_zero (Nat.ne_of_gt hsize)
      have hbyte : (m.touch (a, i)).byte (a, i) = '\x00' := hs
      refine ⟨m.touch (a, i), ?_, rfl, .touch ⟨i, le_rfl, by simp, rfl⟩⟩
      unfold strchrAt
      rw [if_neg (by rw [hbyte]; exact hc.symm), if_pos hbyte, if_neg List.not_mem_nil]
  | cons d s ih =>
      obtain ⟨size, rfl⟩ := Nat.exists_eq_succ_of_ne_zero (Nat.ne_of_gt (Nat.zero_lt_of_lt hsize))
      obtain ⟨hd, hs⟩ := hs
      have hbyte : (m.touch (a, i)).byte (a, i) = d := hd
      have hlog : m.Touches (m.touch (a, i)) (inRange a i (i + (d :: s).length + 1))
          fun _ => False := .touch ⟨i, le_rfl, by rw [List.length_cons]; omega, rfl⟩
      unfold strchrAt
      dsimp only
      rw [hbyte]
      by_cases hdc : d = c
      · subst hdc
        refine ⟨m.touch (a, i), ?_, rfl, hlog⟩
        rw [if_pos rfl, if_pos List.mem_cons_self, List.idxOf_cons_self, Nat.cast_zero, add_zero]
      · have hne : d ≠ '\x00' := fun h => hnul (h ▸ List.mem_cons_self)
        obtain ⟨m', heq, hsame, htouches⟩ := @ih (m.touch (a, i)) (i + 1) size hs
          (fun h => hnul (List.mem_cons_of_mem _ h)) (by simpa using hsize)
        refine ⟨m', ?_, hsame, hlog.trans (htouches.mono ?_ fun _ => id)⟩
        · rw [if_neg hdc, if_neg hne]
          refine heq.trans ?_
          have hmem : c ∈ d :: s ↔ c ∈ s := by simp [Ne.symm hdc]
          by_cases hin : c ∈ s
          · rw [if_pos hin, if_pos (hmem.mpr hin), List.idxOf_cons_ne _ hdc]
            rw [Nat.cast_succ, add_comm (s.idxOf c : ℤ) 1, add_assoc]
          · rw [if_neg hin, if_neg (mt hmem.mp hin)]
        · rintro _ ⟨k, hk, hk', rfl⟩
          exact ⟨k, by omega, by rw [List.length_cons]; omega, rfl⟩

theorem skipBlanks_eq (hs : HasString m.byte (a, i) s) (hsize : s.length < size) :
    ∃ m', skipBlanks m (a, i) size = .ok (m', (a, i + (s.takeWhile isBlank).length)) ∧
      m'.byte = m.byte ∧ m.Touches m' (inRange a i (i + s.length + 1)) fun _ => False := by
  induction s generalizing m i size with
  | nil =>
      obtain ⟨size, rfl⟩ := Nat.exists_eq_succ_of_ne_zero (Nat.ne_of_gt hsize)
      have hbyte : (m.touch (a, i)).byte (a, i) = '\x00' := hs
      refine ⟨m.touch (a, i), ?_, rfl, .touch ⟨i, le_rfl, by simp, rfl⟩⟩
      unfold skipBlanks
      dsimp only
      rw [hbyte, if_neg (by decide)]
      simp
  | cons d s ih =>
      obtain ⟨size, rfl⟩ := Nat.exists_eq_succ_of_ne_zero (Nat.ne_of_gt (Nat.zero_lt_of_lt hsize))
      obtain ⟨hd, hs⟩ := hs
      have hbyte : (m.touch (a, i)).byte (a, i) = d := hd
      have hlog : m.Touches (m.touch (a, i)) (inRange a i (i + (d :: s).length + 1))
          fun _ => False := .touch ⟨i, le_rfl, by rw [List.length_cons]; omega, rfl⟩
      unfold skipBlanks
      dsimp only
      rw [hbyte]
      by_cases hblank : isBlank d
      · obtain ⟨m', heq, hsame, htouches⟩ := @ih (m.touch (a, i)) (i + 1) size hs
          (by simpa using hsize)
        refine ⟨m', ?_, hsame, hlog.trans (htouches.mono ?_ fun _ => id)⟩
        · rw [if_pos hblank]
          refine heq.trans ?_
          rw [List.takeWhile_cons_of_pos hblank, List.length_cons, Nat.cast_succ,
            add_comm ((s.takeWhile isBlank).length : ℤ) 1, add_assoc]
        · rintro _ ⟨k, hk, hk', rfl⟩
          exact ⟨k, by omega, by rw [List.length_cons]; omega, rfl⟩
      · refine ⟨m.touch (a, i), ?_, rfl, hlog⟩
        rw [if_neg hblank, List.takeWhile_cons_of_neg hblank]
        simp

theorem findEnd_eq (hs : HasString m.byte (a, i) s) (hnul : '\x00' ∉ s) (hsize : s.length < size) :
    ∃ m', findEnd m (a, i) size = .ok (m', (a, i + s.length)) ∧ m'.byte = m.byte ∧
      m.Touches m' (inRange a i (i + s.length + 1)) fun _ => False := by
  induction s generalizing m i size with
  | nil =>
      obtain ⟨size, rfl⟩ := Nat.exists_eq_succ_of_ne_zero (Nat.ne_of_gt hsize)
      have hbyte : (m.touch (a, i)).byte (a, i) = '\x00' := hs
      refine ⟨m.touch (a, i), ?_, rfl, .touch ⟨i, le_rfl, by simp, rfl⟩⟩
      unfold findEnd
      rw [if_pos hbyte]
      simp
  | cons d s ih =>
      obtain ⟨size, rfl⟩ := Nat.exists_eq_succ_of_ne_zero (Nat.ne_of_gt (Nat.zero_lt_of_lt hsize))
      obtain ⟨hd, hs⟩ := hs
      have hbyte : (m.touch (a, i)).byte (a, i) = d := hd
      have hne : d ≠ '\x00' := fun h => hnul (h ▸ List.mem_cons_self)
      obtain ⟨m', heq, hsame, htouches⟩ := @ih (m.touch (a, i)) (i + 1) size hs
        (fun h => hnul (List.mem_cons_of_mem _ h)) (by simpa using hsize)
      have hlog : m.Touches (m.touch (a, i)) (inRange a i (i + (d :: s).length + 1))
          fun _ => False := .touch ⟨i, le_rfl, by rw [List.length_cons]; omega, rfl⟩
      refine ⟨m', ?_, hsame, hlog.trans (htouches.mono ?_ fun _ => id)⟩
      · unfold findEnd
        dsimp only
        rw [hbyte, if_neg hne]
        refine heq.trans ?_
        rw [List.length_cons, Nat.cast_succ, add_comm (s.length : ℤ) 1, add_assoc]
      · rintro _ ⟨k, hk, hk', rfl⟩
        exact ⟨k, by omega, by rw [List.length_cons]; omega, rfl⟩

/-- The last loop clears the `b` blanks before `e` and stops at the byte before them. -/
theorem clearBlanks_eq {e : ℤ} {b : ℕ} (hblank : ∀ k : ℕ, k < b → isBlank (m.byte (a, e - 1 - k)))
    (hstop : ¬ isBlank (m.byte (a, e - 1 - b))) (hsize : b < size) :
    ∃ m', clearBlanks m (a, e - 1) size = .ok m' ∧
      (∀ j, m'.byte (a, j) = if e - b ≤ j ∧ j < e then '\x00' else m.byte (a, j)) ∧
      m.Touches m' (inRange a (e - 1 - b) e) (inRange a (e - b) e) ∧ (a, e - 1 - b) ∈ m'.reads := by
  induction b generalizing m e size with
  | zero =>
      obtain ⟨size, rfl⟩ := Nat.exists_eq_succ_of_ne_zero (Nat.ne_of_gt hsize)
      rw [Nat.cast_zero, sub_zero] at hstop
      refine ⟨m.touch (a, e - 1), ?_, fun j => ?_, .touch ⟨e - 1, by simp, by omega, rfl⟩, ?_⟩
      · unfold clearBlanks
        exact if_neg hstop
      · rw [if_neg (by rw [Nat.cast_zero]; omega)]
        rfl
      · rw [Nat.cast_zero, sub_zero]
        exact List.mem_append_right _ (List.mem_singleton_self _)
  | succ b ih =>
      obtain ⟨size, rfl⟩ := Nat.exists_eq_succ_of_ne_zero (Nat.ne_of_gt (Nat.zero_lt_of_lt hsize))
      have hindex : ∀ k : ℕ, e - 1 - ((k + 1 : ℕ) : ℤ) = e - 1 - 1 - k := by
        intro k
        push_cast
        ring
      have hfirst : isBlank (m.byte (a, e - 1)) := by
        have h0 := hblank 0 (Nat.succ_pos b)
        rwa [Nat.cast_zero, sub_zero] at h0
      let m₁ := (m.touch (a, e - 1)).write (a, e - 1) '\x00'
      have hbyte : ∀ j : ℤ, m₁.byte (a, j) = if j = e - 1 then '\x00' else m.byte (a, j) := by
        intro j
        rw [← Memory.touch_byte m (a, e - 1)]
        exact (update_byte _ a a (e - 1) j _).trans (by simp)
      have hlog₁ : m.Touches m₁ (inRange a (e - 1 - (b + 1 : ℕ)) e)
          (inRange a (e - (b + 1 : ℕ)) e) :=
        .trans (.touch ⟨e - 1, by push_cast; omega, by omega, rfl⟩)
          (.write ⟨e - 1, by push_cast; omega, by omega, rfl⟩ _)
      have hblank₁ : ∀ k : ℕ, k < b → isBlank (m₁.byte (a, e - 1 - 1 - k)) := by
        intro k hk
        rw [hbyte, if_neg (by omega), ← hindex]
        exact hblank (k + 1) (Nat.succ_lt_succ hk)
      have hstop₁ : ¬ isBlank (m₁.byte (a, e - 1 - 1 - b)) := by
        rw [hbyte, if_neg (by omega), ← hindex]
        exact hstop
      obtain ⟨m', heq, hbytes, hlog, hread⟩ := ih hblank₁ hstop₁ (Nat.lt_of_succ_lt_succ hsize)
      refine ⟨m', ?_, fun j => ?_, hlog₁.trans (hlog.mono ?_ ?_), ?_⟩
      · unfold clearBlanks
        dsimp only
        rw [Memory.touch_byte, if_pos hfirst]
        exact heq
      · rw [hbytes, hbyte]
        push_cast
        by_cases hj : j = e - 1
        · have hin : e - (b + 1) ≤ j ∧ j < e := by omega
          rw [if_pos hj, ite_self, if_pos hin]
        · rw [if_neg hj]
          by_cases hin : e - 1 - b ≤ j ∧ j < e - 1
          · rw [if_pos hin, if_pos (by omega)]
          · rw [if_neg hin, if_neg (by omega)]
      · rintro _ ⟨k, hk, hk', rfl⟩
        exact ⟨k, by push_cast; omega, by omega, rfl⟩
      · rintro _ ⟨k, hk, hk', rfl⟩
        exact ⟨k, by push_cast; omega, by omega, rfl⟩
      · rw [hindex]
        exact hread

theorem HasString.byte_getElem (h : HasString m.byte (a, i) s) {k : ℕ} (hk : k < s.length) :
    m.byte (a, i + k) = s[k] := by
  have hchar := hasString_iff.mp h k (by simp; omega)
  rw [List.getElem_append_left hk] at hchar
  exact hchar

theorem hasString_of_bytes (h : ∀ k (hk : k < s.length), m.byte (a, i + (k : ℤ)) = s[k])
    (hend : m.byte (a, i + s.length) = '\x00') : HasString m.byte (a, i) s := by
  rw [hasString_iff]
  intro k hk
  rw [List.length_append, List.length_singleton] at hk
  change m.byte (a, i + (k : ℤ)) = _
  by_cases hlt : k < s.length
  · rw [List.getElem_append_left hlt]
    exact h k hlt
  · have hk' : k = s.length := by omega
    subst hk'
    rw [List.getElem_append_right le_rfl, hend]
    simp

def firstRead (item : Text) (i : ℤ) : ℤ := if trimmed item = [] then i - 1 else i

/-- The blanks behind a text that does not end in one are cleared. -/
theorem clearTail_eq {text tail : Text} (hs : HasString m.byte (a, i) (text ++ tail))
    (hne : text ≠ []) (hlast : ¬ isBlank (text.getLast hne)) (htail : ∀ c ∈ tail, isBlank c)
    (hsize : tail.length < size) :
    ∃ m', clearBlanks m (a, i + (text ++ tail).length - 1) size = .ok m' ∧
      HasString m'.byte (a, i) text ∧
      (∀ j, i + (text ++ tail).length ≤ j → m'.byte (a, j) = m.byte (a, j)) ∧
      m.Touches m' (inRange a i (i + (text ++ tail).length))
        (inRange a i (i + (text ++ tail).length)) := by
  have hpos := List.length_pos_iff.mpr hne
  have hlength : (text ++ tail).length = text.length + tail.length := List.length_append
  have hblank : ∀ k : ℕ, k < tail.length →
      isBlank (m.byte (a, i + (text ++ tail).length - 1 - k)) := by
    intro k hk
    have hbyte := hs.append_right.byte_getElem (k := tail.length - 1 - k) (by omega)
    have hindex : i + text.length + (tail.length - 1 - k : ℕ) =
        i + (text ++ tail).length - 1 - k := by omega
    rw [hindex] at hbyte
    rw [hbyte]
    exact htail _ (List.getElem_mem _)
  have hstop : ¬ isBlank (m.byte (a, i + (text ++ tail).length - 1 - tail.length)) := by
    have hbyte := hs.byte_getElem (k := text.length - 1) (by omega)
    have hindex : i + (text.length - 1 : ℕ) = i + (text ++ tail).length - 1 - tail.length := by
      omega
    rw [hindex, List.getElem_append_left (by omega),
      List.getElem_length_sub_one_eq_getLast] at hbyte
    rw [hbyte]
    exact hlast
  obtain ⟨m', heq, hbytes, hlog, -⟩ := clearBlanks_eq hblank hstop hsize
  refine ⟨m', heq, hasString_of_bytes (fun k hk => ?_) ?_, fun j hj => ?_, hlog.mono ?_ ?_⟩
  · rw [hbytes, if_neg (by omega), hs.byte_getElem (by omega), List.getElem_append_left hk]
  · rw [hbytes]
    by_cases htail : tail.length = 0
    · have hnil := List.length_eq_zero_iff.mp htail
      subst hnil
      rw [if_neg (by omega)]
      exact hs.append_right
    · rw [if_pos (by omega)]
  · rw [hbytes, if_neg (by omega)]
  · rintro _ ⟨k, hk, hk', rfl⟩
    exact ⟨k, by omega, hk', rfl⟩
  · rintro _ ⟨k, hk, hk', rfl⟩
    exact ⟨k, by omega, hk', rfl⟩

/-- An item that is all blank is cleared, and the byte before it is read. -/
theorem clearItem_eq {item : Text} (hs : HasString m.byte (a, i) item)
    (hblank : ∀ c ∈ item, isBlank c) (hstop : ¬ isBlank (m.byte (a, i - 1)))
    (hsize : item.length < size) :
    ∃ m', clearBlanks m (a, i + item.length - 1) size = .ok m' ∧
      (∀ j, i + item.length ≤ j → m'.byte (a, j) = m.byte (a, j)) ∧
      m.Touches m' (inRange a (i - 1) (i + item.length)) (inRange a i (i + item.length)) ∧
      (a, i - 1) ∈ m'.reads := by
  have hindex : i + item.length - 1 - item.length = i - 1 := by ring
  have hblank' : ∀ k : ℕ, k < item.length → isBlank (m.byte (a, i + item.length - 1 - k)) := by
    intro k hk
    have hbyte := hs.byte_getElem (k := item.length - 1 - k) (by omega)
    have hindex : i + (item.length - 1 - k : ℕ) = i + item.length - 1 - k := by omega
    rw [hindex] at hbyte
    rw [hbyte]
    exact hblank _ (List.getElem_mem _)
  obtain ⟨m', heq, hbytes, hlog, hread⟩ := clearBlanks_eq hblank' (hindex ▸ hstop) hsize
  rw [hindex] at hlog hread
  refine ⟨m', heq, fun j hj => ?_, hlog.mono (fun _ => id) ?_, hread⟩
  · rw [hbytes, if_neg (by omega)]
  · rintro _ ⟨k, hk, hk', rfl⟩
    exact ⟨k, by omega, hk', rfl⟩

/-- Whether `trim` was given the end of the item or not, its last loop starts at the same byte. -/
theorem trimEnds {item : Text} (hs : HasString m.byte (a, i) item) (hnul : '\x00' ∉ item)
    {strEnd : Option Loc} (hend : ∀ l, strEnd = some l → l = (a, i + item.length))
    (hsize : item.length < size) :
    ∃ m₁, trimAt m (a, i) strEnd size = (do
        let m ← clearBlanks m₁ (a, i + item.length - 1) size
        return (m, (a, i + (item.takeWhile isBlank).length))) ∧ m₁.byte = m.byte ∧
      m.Touches m₁ (inRange a i (i + item.length + 1)) fun _ => False := by
  obtain ⟨m₁, heq, hbyte, hlog⟩ := skipBlanks_eq hs hsize
  have hsplit := List.takeWhile_append_dropWhile (p := isBlank) (l := item)
  have hlength := congrArg List.length hsplit
  rw [List.length_append] at hlength
  unfold trimAt
  cases strEnd with
  | some l =>
      refine ⟨m₁, ?_, hbyte, hlog⟩
      rw [heq, hend l rfl]
      rfl
  | none =>
      have hrest : HasString m₁.byte (a, i + (item.takeWhile isBlank).length)
          (item.dropWhile isBlank) := by
        rw [hbyte]
        exact HasString.append_right (by rwa [hsplit])
      obtain ⟨m₂, heq₂, hbyte₂, hlog₂⟩ := findEnd_eq hrest
        (fun h => hnul ((List.dropWhile_suffix _).subset h)) (show _ < size by omega)
      refine ⟨m₂, ?_, hbyte₂.trans hbyte, hlog.trans (hlog₂.mono ?_ fun _ => id)⟩
      · rw [heq]
        change (do
          let (m, strEnd) ← findEnd m₁ (a, i + (item.takeWhile isBlank).length) size
          let m ← clearBlanks m (strEnd.add (-1)) size
          return (m, (a, i + (item.takeWhile isBlank).length))) = _
        rw [heq₂]
        have hloc : i + (item.takeWhile isBlank).length + (item.dropWhile isBlank).length =
            i + item.length := by omega
        rw [hloc]
        rfl
      · rintro _ ⟨k, hk, hk', rfl⟩
        exact ⟨k, by omega, by omega, rfl⟩

/-- `trim` leaves the item without the blanks around it. -/
theorem trimAt_eq {item : Text} (hs : HasString m.byte (a, i) item) (hnul : '\x00' ∉ item)
    {strEnd : Option Loc} (hend : ∀ l, strEnd = some l → l = (a, i + item.length))
    (hstop : trimmed item = [] → ¬ isBlank (m.byte (a, i - 1))) (hsize : item.length < size) :
    ∃ m' p, trimAt m (a, i) strEnd size = .ok (m', (a, p)) ∧ i ≤ p ∧
      p + (trimmed item).length ≤ i + item.length ∧ HasString m'.byte (a, p) (trimmed item) ∧
      (∀ j, i + item.length ≤ j → m'.byte (a, j) = m.byte (a, j)) ∧
      m.Touches m' (inRange a (firstRead item i) (i + item.length + 1))
        (inRange a i (i + item.length)) ∧ (trimmed item = [] → (a, i - 1) ∈ m'.reads) := by
  obtain ⟨m₁, heq, hbyte, hlog⟩ := trimEnds hs hnul hend hsize
  have hsplit : item.takeWhile isBlank ++ (trimmed item ++
      (item.dropWhile isBlank).rtakeWhile isBlank) = item := by
    unfold trimmed
    rw [List.rdropWhile_append_rtakeWhile, List.takeWhile_append_dropWhile]
  have hlength := congrArg List.length hsplit
  rw [List.length_append] at hlength
  rw [← hbyte] at hs hstop
  rw [heq]
  unfold firstRead
  by_cases hempty : trimmed item = []
  · have hblank : ∀ c ∈ item, isBlank c := by
      have hdrop := trimmed_eq_nil.mp hempty
      rwa [List.dropWhile_eq_nil_iff] at hdrop
    have hlead : item.takeWhile isBlank = item := List.takeWhile_eq_self_iff.mpr hblank
    obtain ⟨m₂, hclear, hbytes, hlog₂, hread⟩ := clearItem_eq hs hblank (hstop hempty) hsize
    rw [hclear, hlead, hempty, if_pos rfl]
    refine ⟨m₂, i + item.length, rfl, by omega, by simp, ?_, fun j hj => ?_, ?_, fun _ => hread⟩
    · change m₂.byte _ = _
      rw [hbytes _ le_rfl]
      exact hs.byte_nul
    · rw [hbytes j hj, hbyte]
    · refine (hlog.mono ?_ fun _ => False.elim).trans (hlog₂.mono ?_ fun _ => id)
      · rintro _ ⟨k, hk, hk', rfl⟩
        exact ⟨k, by omega, hk', rfl⟩
      · rintro _ ⟨k, hk, hk', rfl⟩
        exact ⟨k, hk, by omega, rfl⟩
  · have htail : ∀ c ∈ (item.dropWhile isBlank).rtakeWhile isBlank, isBlank c :=
      fun _ => List.mem_rtakeWhile_imp
    have hrest : HasString m₁.byte (a, i + (item.takeWhile isBlank).length)
        (trimmed item ++ (item.dropWhile isBlank).rtakeWhile isBlank) :=
      HasString.append_right (by rwa [hsplit])
    rw [List.length_append] at hlength
    obtain ⟨m₂, hclear, hstring, hbytes, hlog₂⟩ := clearTail_eq hrest hempty
      (List.rdropWhile_last_not isBlank _ hempty) htail (show _ < size by omega)
    have hindex : i + (item.takeWhile isBlank).length + (trimmed item ++
        (item.dropWhile isBlank).rtakeWhile isBlank).length = i + item.length := by
      rw [List.length_append]
      omega
    rw [hindex] at hclear hbytes hlog₂
    rw [hclear, if_neg hempty]
    refine ⟨m₂, _, rfl, by omega, by omega, hstring, fun j hj => ?_, ?_, fun h => absurd h hempty⟩
    · rw [hbytes j hj, hbyte]
    · refine (hlog.mono (fun _ => id) fun _ => False.elim).trans (hlog₂.mono ?_ ?_)
      · rintro _ ⟨k, hk, hk', rfl⟩
        exact ⟨k, by omega, by omega, rfl⟩
      · rintro _ ⟨k, hk, hk', rfl⟩
        exact ⟨k, by omega, by omega, rfl⟩

/-- Cutting the name at its `.` changes no byte behind it. -/
theorem cutName_eq (hs : HasString m.byte (a, i) s) (hnul : '\x00' ∉ s) (hsize : s.length < size) :
    ∃ m', cutName m (a, i) size = .ok m' ∧
      (∀ j, i + s.length ≤ j → m'.byte (a, j) = m.byte (a, j)) ∧
      m.Touches m' (inRange a i (i + s.length + 1)) (inRange a i (i + s.length)) := by
  obtain ⟨m₁, heq, hbyte, hlog⟩ := strchrAt_eq (c := '.') hs hnul (by decide) hsize
  have hlog' := hlog.mono (fun _ => id) fun (l : Loc) (h : False) =>
    (h.elim : inRange a i (i + s.length) l)
  unfold cutName
  rw [heq]
  by_cases hmem : '.' ∈ s
  · have hlt := List.idxOf_lt_length_iff.mpr hmem
    rw [if_pos hmem]
    refine ⟨m₁.write (a, i + s.idxOf '.') '\x00', rfl, fun j hj => ?_,
      hlog'.trans (.write ⟨_, by omega, by omega, rfl⟩ _)⟩
    rw [Memory.write_byte_of_ne, hbyte]
    intro h
    have hj' := congrArg Prod.snd h
    dsimp only at hj'
    omega
  · rw [if_neg hmem]
    exact ⟨m₁, rfl, fun j _ => by rw [hbyte], hlog'⟩

theorem HasString.congr {m' : Memory} (h : HasString m.byte (a, i) s)
    (hsame : ∀ j, i ≤ j → m'.byte (a, j) = m.byte (a, j)) : HasString m'.byte (a, i) s := by
  refine hasString_of_bytes (fun k hk => ?_) ?_
  · rw [hsame _ (by omega), h.byte_getElem hk]
  · rw [hsame _ (by omega), h.byte_nul]

/-- The string up to where a NUL is written. -/
theorem HasString.cut {u v : Text} (h : HasString m.byte (a, i) (u ++ v)) :
    HasString (m.write (a, i + u.length) '\x00').byte (a, i) u := by
  refine hasString_of_bytes (fun k hk => ?_) (m.write_byte_self _ _)
  rw [m.write_byte_of_ne, h.byte_getElem (by rw [List.length_append]; omega),
    List.getElem_append_left hk]
  intro heq
  have hk' := congrArg Prod.snd heq
  dsimp only at hk'
  omega

def firstItem (s : Text) : Text := s.takeWhile (· ≠ ',')

theorem firstItem_append {item : Text} (h : ',' ∉ item) (rest : Text) :
    firstItem (item ++ ',' :: rest) = item := by
  unfold firstItem
  rw [List.takeWhile_append_of_pos]
  · simp
  · intro c hc
    have hne : c ≠ ',' := fun hcomma => h (hcomma ▸ hc)
    simpa using hne

theorem firstItem_of_notMem (h : ',' ∉ s) : firstItem s = s := by
  refine List.takeWhile_eq_self_iff.mpr fun c hc => ?_
  have hne : c ≠ ',' := fun hcomma => h (hcomma ▸ hc)
  simpa using hne

theorem Memory.Touches.mem_reads {m m' : Memory} {R W : Loc → Prop} (h : m.Touches m' R W) {l : Loc}
    (hl : l ∈ m.reads) : l ∈ m'.reads := by
  obtain ⟨ls, hls, -⟩ := h.reads
  rw [hls]
  exact List.mem_append_left _ hl

/-- A round of the loop, up to the next item. -/
theorem round_eq {item : Text} (hs : HasString m.byte (a, i) item) (hnul : '\x00' ∉ item)
    (strEnd : Option Loc) (hend : ∀ l, strEnd = some l → l = (a, i + item.length))
    (hstop : trimmed item = [] → ¬ isBlank (m.byte (a, i - 1))) (hsize : item.length < size) :
    ∃ m₁ m' p, trimAt m (a, i) strEnd size = .ok (m₁, (a, p)) ∧
      m₁.stringAt (a, p) size = trimmed item ∧ cutName m₁ (a, p) size = .ok m' ∧
      (∀ j, i + item.length ≤ j → m'.byte (a, j) = m.byte (a, j)) ∧
      m.Touches m' (inRange a (firstRead item i) (i + item.length + 1))
        (inRange a i (i + item.length)) ∧ (trimmed item = [] → (a, i - 1) ∈ m'.reads) := by
  obtain ⟨m₁, p, htrim, hp, hp', hstring, hbytes, hlog, hread⟩ := trimAt_eq hs hnul hend hstop hsize
  have hnul' := nul_notMem_trimmed hnul
  have hsize' : (trimmed item).length < size := by omega
  obtain ⟨m', hcut, hbytes', hlog'⟩ := cutName_eq hstring hnul' hsize'
  refine ⟨m₁, m', p, htrim, stringAt_eq hstring hnul' hsize', hcut, fun j hj => ?_,
    hlog.trans (hlog'.mono ?_ ?_), fun h => hlog'.mem_reads (hread h)⟩
  · rw [hbytes' j (by omega), hbytes j hj]
  · unfold firstRead
    rintro _ ⟨k, hk, hk', rfl⟩
    refine ⟨k, ?_, by omega, rfl⟩
    split <;> omega
  · rintro _ ⟨k, hk, hk', rfl⟩
    exact ⟨k, by omega, by omega, rfl⟩

/-- Every item is trimmed, whatever the bytes around the buffer, if the one before the buffer is no
blank or the first item is not all blank. -/
theorem trimItems_eq {rounds : ℕ} (hs : HasString m.byte (a, i) s) (hnul : '\x00' ∉ s)
    (hstop : trimmed (firstItem s) = [] → ¬ isBlank (m.byte (a, i - 1))) (hsize : s.length < size)
    (hrounds : s.length < rounds) :
    ∃ m', trimItems size m (a, i) rounds = .ok (m', (s.splitOn ',').map trimmed) ∧
      m.Touches m' (inRange a (firstRead (firstItem s) i) (i + s.length + 1))
        (inRange a i (i + s.length)) ∧ (trimmed (firstItem s) = [] → (a, i - 1) ∈ m'.reads) := by
  induction rounds generalizing m i s with
  | zero => cases hrounds
  | succ rounds ih =>
      obtain ⟨m₁, hchr, hbyte, hlog⟩ := strchrAt_eq (c := ',') hs hnul (by decide) hsize
      have hlow : firstRead (firstItem s) i ≤ i := by
        unfold firstRead
        split <;> omega
      have hlog₁ : m.Touches m₁ (inRange a (firstRead (firstItem s) i) (i + s.length + 1))
          (inRange a i (i + s.length)) := by
        refine hlog.mono ?_ fun _ => False.elim
        rintro _ ⟨k, hk, hk', rfl⟩
        exact ⟨k, by omega, hk', rfl⟩
      unfold trimItems
      by_cases hcomma : ',' ∈ s
      · obtain ⟨item, rest, rfl, hnot⟩ := List.eq_append_cons_of_mem hcomma
        have hlength : (item ++ ',' :: rest).length = item.length + 1 + rest.length := by
          rw [List.length_append, List.length_cons]
          omega
        have hindex : (item ++ ',' :: rest).idxOf ',' = item.length := by
          rw [List.idxOf_append_of_notMem hnot, List.idxOf_cons_self, Nat.add_zero]
        rw [firstItem_append hnot] at hstop hlog₁ hlow ⊢
        rw [if_pos hcomma, hindex] at hchr
        rw [List.splitOn_append_cons_self_of_not_mem hnot, hchr]
        rw [← hbyte] at hs
        have hitem := hs.cut
        have hother : ∀ j, j ≠ i + item.length →
            (m₁.write (a, i + item.length) '\x00').byte (a, j) = m.byte (a, j) := by
          intro j hj
          rw [Memory.write_byte_of_ne, hbyte]
          exact fun h => hj (congrArg Prod.snd h)
        have hstop₁ : trimmed item = [] →
            ¬ isBlank ((m₁.write (a, i + item.length) '\x00').byte (a, i - 1)) := by
          intro h
          rw [hother _ (by omega)]
          exact hstop h
        have hlog₂ : m₁.Touches (m₁.write (a, i + item.length) '\x00')
            (inRange a (firstRead item i) (i + (item ++ ',' :: rest).length + 1))
            (inRange a i (i + (item ++ ',' :: rest).length)) :=
          .write ⟨_, by omega, by omega, rfl⟩ _
        obtain ⟨m₂, m₃, p, htrim, htext, hcut, hbytes, hlog₃, hread⟩ := round_eq hitem
          (fun h => hnul (List.mem_append_left _ h)) (some (a, i + item.length))
          (fun _ h => (Option.some.inj h).symm) hstop₁ (show _ < size by omega)
        have hnext : HasString m₃.byte (a, i + item.length + 1) rest := by
          refine HasString.congr (m := m₁) hs.append_right.2 fun j hj => ?_
          rw [hbytes j (by omega), hother j (by omega), hbyte]
        have hend : ¬ isBlank (m₃.byte (a, i + item.length + 1 - 1)) := by
          rw [hbytes _ (by omega), add_sub_cancel_right, Memory.write_byte_self]
          decide
        obtain ⟨m', hrun, hlog₄, -⟩ := ih hnext
          (fun h => hnul (List.mem_append_right _ (List.mem_cons_of_mem _ h))) (fun _ => hend)
          (by omega) (by omega)
        have hlow' : i ≤ firstRead (firstItem rest) (i + item.length + 1) := by
          unfold firstRead
          split <;> omega
        refine ⟨m', ?_, (hlog₁.trans hlog₂).trans ((hlog₃.mono ?_ ?_).trans (hlog₄.mono ?_ ?_)),
          fun h => hlog₄.mem_reads (hread h)⟩
        · change (do
            let (m, str) ← trimAt (m₁.write (a, i + item.length) '\x00') (a, i)
              (some (a, i + item.length)) size
            let item' := m.stringAt str size
            let m ← cutName m str size
            let (m, items) ← trimItems size m (a, i + item.length + 1) rounds
            return (m, item' :: items)) = _
          rw [htrim]
          change (do
            let m ← cutName m₂ (a, p) size
            let (m, items) ← trimItems size m (a, i + item.length + 1) rounds
            return (m, m₂.stringAt (a, p) size :: items)) = _
          rw [hcut, htext]
          change (do
            let (m, items) ← trimItems size m₃ (a, i + item.length + 1) rounds
            return (m, trimmed item :: items)) = _
          rw [hrun]
          rfl
        · rintro _ ⟨k, hk, hk', rfl⟩
          exact ⟨k, hk, by omega, rfl⟩
        · rintro _ ⟨k, hk, hk', rfl⟩
          exact ⟨k, hk, by omega, rfl⟩
        · rintro _ ⟨k, hk, hk', rfl⟩
          exact ⟨k, by omega, by omega, rfl⟩
        · rintro _ ⟨k, hk, hk', rfl⟩
          exact ⟨k, by omega, by omega, rfl⟩
      · rw [firstItem_of_notMem hcomma] at hstop hlog₁ hlow ⊢
        rw [if_neg hcomma] at hchr
        rw [List.splitOn_eq_singleton hcomma, hchr]
        rw [← hbyte] at hs hstop
        obtain ⟨m₂, m₃, p, htrim, hitem, hcut, -, hlog₂, hread⟩ := round_eq hs hnul none
          (fun _ h => by cases h) hstop hsize
        refine ⟨m₃, ?_, hlog₁.trans hlog₂, hread⟩
        change (do
          let (m, str) ← trimAt m₁ (a, i) none size
          let item := m.stringAt str size
          let m ← cutName m str size
          return (m, [item])) = _
        rw [htrim]
        change (do
          let m ← cutName m₂ (a, p) size
          return (m, [m₂.stringAt (a, p) size])) = _
        rw [hcut, hitem]
        rfl

end Loops

/-- In every buffer that holds the string every item is trimmed, and only bytes of the buffer are
read and written. -/
def TrimsExactly (s : CString) : Prop :=
  ∀ (m : Memory) (a size : ℕ), HasString m.byte (a, 0) s.chars → s.chars.length < size →
    ∃ m', trimItems size m (a, 0) size = .ok (m', (s.chars.splitOn ',').map trimmed) ∧
      m.Touches m' (inRange a 0 (s.chars.length + 1)) (inRange a 0 (s.chars.length + 1))

/-- The items are trimmed within the buffer exactly if the first one is not all blank. -/
theorem trimsExactly_iff (s : CString) :
    TrimsExactly s ↔ trimmed (firstItem s.chars) ≠ [] := by
  constructor
  · intro h hblank
    have hstop : ¬ isBlank ((Memory.ofString s).byte (0, 0 - 1)) := by
      unfold Memory.ofString
      dsimp only
      rw [if_neg (by decide)]
      decide
    obtain ⟨m', hrun, -, hread⟩ := trimItems_eq (hasString_ofString s) s.noNul
      (fun _ => hstop) (Nat.lt_succ_self _) (Nat.lt_succ_self _)
    obtain ⟨m'', hrun', ⟨ls, hreads, hin⟩, -⟩ := h (Memory.ofString s) 0 (s.chars.length + 1)
      (hasString_ofString s) (Nat.lt_succ_self _)
    have heq := congrArg Prod.fst (Except.ok.inj (hrun.symm.trans hrun'))
    dsimp only at heq
    subst heq
    have hmem := hread hblank
    rw [hreads] at hmem
    obtain ⟨k, hk, -, hloc⟩ := hin _ (by simpa [Memory.ofString] using hmem)
    have hk' := congrArg Prod.snd hloc
    dsimp only at hk'
    omega
  · intro hne m a size hs hsize
    obtain ⟨m', hrun, hlog, -⟩ := trimItems_eq hs s.noNul (fun h => absurd h hne) hsize hsize
    refine ⟨m', hrun, hlog.mono ?_ ?_⟩
    · unfold firstRead
      rw [if_neg hne]
      rintro _ ⟨k, hk, hk', rfl⟩
      exact ⟨k, hk, by omega, rfl⟩
    · rintro _ ⟨k, hk, hk', rfl⟩
      exact ⟨k, hk, by omega, rfl⟩

/-- A list that begins with a comma. -/
theorem not_trimsExactly : ¬ ∀ s, TrimsExactly s := by
  intro h
  exact (trimsExactly_iff ⟨", uuid".toList, by decide⟩).mp (h _) (by decide)

end Sorm
