import Mathlib.Data.List.GetD
import Sorm.Filter
import Sorm.SqlLexer

/-!
# What `_fix_string` writes

The copy loop doubles every quote of the string it copies, and a quote at the beginning of the
string is counted once only: the loop ends when it has written its first half. The proof does not
need the two buffers to be apart, since a byte is read before anything is written over it.
-/

namespace Sorm

open Interaction

def HasString (byte : Loc → Char) (l : Loc) : Text → Prop
  | [] => byte l = '\x00'
  | c :: s => byte l = c ∧ HasString byte (l.add 1) s

namespace Memory

@[simp] theorem touch_byte (m : Memory) (l : Loc) : (m.touch l).byte = m.byte := rfl

theorem write_byte_self (m : Memory) (l : Loc) (c : Char) : (m.write l c).byte l = c :=
  Function.update_self ..

theorem write_byte_of_ne (m : Memory) {l l' : Loc} (h : l' ≠ l) (c : Char) :
    (m.write l c).byte l' = m.byte l' := Function.update_of_ne h ..

/-- Writing a byte somewhere does not change the place it was read from. -/
theorem write_byte_read (m : Memory) (l l' : Loc) : (m.write l (m.byte l')).byte l' = m.byte l' := by
  by_cases h : l' = l
  · subst h
    exact m.write_byte_self ..
  · exact m.write_byte_of_ne h _

end Memory

@[simp] theorem Loc.add_add (l : Loc) (j k : ℤ) : (l.add j).add k = l.add (j + k) := by
  unfold Loc.add
  rw [add_assoc]

@[simp] theorem Loc.add_zero (l : Loc) : l.add 0 = l := by
  unfold Loc.add
  exact congrArg (Prod.mk l.1) (Int.add_zero l.2)

/-- From `m` to `m'` only locations in `R` have been read and only those in `W` written. -/
structure Memory.Touches (m m' : Memory) (R W : Loc → Prop) : Prop where
  reads : ∃ ls, m'.reads = m.reads ++ ls ∧ ∀ l ∈ ls, R l
  writes : ∃ ls, m'.writes = m.writes ++ ls ∧ ∀ l ∈ ls, W l

namespace Memory.Touches

variable {m m' m'' : Memory} {R W : Loc → Prop}

theorem refl (m : Memory) (R W : Loc → Prop) : Touches m m R W where
  reads := ⟨[], (List.append_nil _).symm, fun _ h => absurd h List.not_mem_nil⟩
  writes := ⟨[], (List.append_nil _).symm, fun _ h => absurd h List.not_mem_nil⟩

theorem trans (h : Touches m m' R W) (h' : Touches m' m'' R W) : Touches m m'' R W := by
  obtain ⟨⟨rs, hrs, hR⟩, ws, hws, hW⟩ := h
  obtain ⟨⟨rs', hrs', hR'⟩, ws', hws', hW'⟩ := h'
  refine ⟨⟨rs ++ rs', ?_, fun l hl => ?_⟩, ws ++ ws', ?_, fun l hl => ?_⟩
  · rw [hrs', hrs, List.append_assoc]
  · rcases List.mem_append.mp hl with hl | hl
    · exact hR l hl
    · exact hR' l hl
  · rw [hws', hws, List.append_assoc]
  · rcases List.mem_append.mp hl with hl | hl
    · exact hW l hl
    · exact hW' l hl

theorem mono {R' W' : Loc → Prop} (h : Touches m m' R W) (hR : ∀ l, R l → R' l)
    (hW : ∀ l, W l → W' l) : Touches m m' R' W' := by
  obtain ⟨⟨rs, hrs, hR₀⟩, ws, hws, hW₀⟩ := h
  exact ⟨⟨rs, hrs, fun l hl => hR l (hR₀ l hl)⟩, ws, hws, fun l hl => hW l (hW₀ l hl)⟩

theorem touch {l : Loc} (h : R l) : Touches m (m.touch l) R W where
  reads := ⟨[l], rfl, fun _ hl => List.mem_singleton.mp hl ▸ h⟩
  writes := ⟨[], (List.append_nil _).symm, fun _ hl => absurd hl List.not_mem_nil⟩

theorem write {l : Loc} (h : W l) (c : Char) : Touches m (m.write l c) R W where
  reads := ⟨[], (List.append_nil _).symm, fun _ hl => absurd hl List.not_mem_nil⟩
  writes := ⟨[l], rfl, fun _ hl => List.mem_singleton.mp hl ▸ h⟩

/-- What has been written stays in the log. -/
theorem mem_writes (h : Touches m m' R W) {l : Loc} (hl : l ∈ m.writes) : l ∈ m'.writes := by
  obtain ⟨ls, hls, -⟩ := h.writes
  rw [hls]
  exact List.mem_append_left _ hl

end Memory.Touches

def doubledButFirst (s : Text) : Text :=
  (Sql.doubled '\'' s).drop (if s.head? = some '\'' then 1 else 0)

theorem doubledButFirst_of_ne {s : Text} (h : s.head? ≠ some '\'') :
    doubledButFirst s = Sql.doubled '\'' s := by
  unfold doubledButFirst
  rw [if_neg h, List.drop_zero]

theorem doubledButFirst_cons_quote (s : Text) :
    doubledButFirst ('\'' :: s) = '\'' :: Sql.doubled '\'' s := by
  unfold doubledButFirst
  rw [Sql.doubled_cons_self]
  rfl

theorem length_doubled (s : Text) :
    (Sql.doubled '\'' s).length = s.length + s.count '\'' := by
  induction s with
  | nil => rfl
  | cons c s ih =>
      by_cases hc : c = '\''
      · subst hc
        rw [Sql.doubled_cons_self, List.count_cons_self]
        simp only [List.length_cons, ih]
        omega
      · rw [Sql.doubled_cons_of_ne hc, List.count_cons_of_ne hc]
        simp only [List.length_cons, ih]
        omega

theorem length_doubledButFirst (s : Text) :
    (doubledButFirst s).length = s.length + s.tail.count '\'' := by
  cases s with
  | nil => rfl
  | cons c s =>
      by_cases hc : c = '\''
      · subst hc
        rw [doubledButFirst_cons_quote, List.length_cons, length_doubled]
        simp only [List.length_cons, List.tail_cons]
        omega
      · rw [doubledButFirst_of_ne (by simpa using hc), Sql.doubled_cons_of_ne hc,
          List.length_cons, length_doubled]
        simp only [List.length_cons, List.tail_cons]
        omega

theorem doubledButFirst_append {p : Text} (hp : p ≠ []) (s : Text) :
    doubledButFirst (p ++ s) = doubledButFirst p ++ Sql.doubled '\'' s := by
  have happend : ∀ p, Sql.doubled '\'' (p ++ s) = Sql.doubled '\'' p ++ Sql.doubled '\'' s :=
    fun p => List.flatMap_append
  cases p with
  | nil => exact absurd rfl hp
  | cons c p =>
      by_cases hc : c = '\''
      · subst hc
        rw [List.cons_append, doubledButFirst_cons_quote, doubledButFirst_cons_quote, happend]
        rfl
      · rw [doubledButFirst_of_ne (by simpa using hc), doubledButFirst_of_ne (by simpa using hc),
          happend]

theorem countQuotes_eq {m : Memory} {l : Loc} {s : Text} {size : ℕ} (hs : HasString m.byte l s)
    (hnul : '\x00' ∉ s) (hsize : s.length < size) (stringLen fixedStringLen : ℤ) :
    ∃ m', countQuotes m l stringLen fixedStringLen size = .ok (m', l.add s.length,
      stringLen + s.length, fixedStringLen + s.tail.count '\'') ∧ m'.byte = m.byte ∧
      m.Touches m' (fun r => ∃ j : ℕ, j ≤ s.length ∧ r = l.add j) fun _ => False := by
  induction s generalizing m l size stringLen fixedStringLen with
  | nil =>
      obtain ⟨size, rfl⟩ := Nat.exists_eq_succ_of_ne_zero (Nat.ne_of_gt hsize)
      refine ⟨m.touch l, ?_, rfl, .touch ⟨0, le_rfl, (Loc.add_zero l).symm⟩⟩
      unfold countQuotes
      rw [if_pos (show (m.touch l).byte l = '\x00' from hs)]
      simp
  | cons c s ih =>
      obtain ⟨size, rfl⟩ := Nat.exists_eq_succ_of_ne_zero (Nat.ne_of_gt (Nat.zero_lt_of_lt hsize))
      obtain ⟨hc, hs⟩ := hs
      have hne : c ≠ '\x00' := fun h => hnul (by rw [h]; exact List.mem_cons_self)
      have hnul' : '\x00' ∉ s := fun h => hnul (List.mem_cons_of_mem _ h)
      have hsize' : s.length < size := by simpa using hsize
      have hcount : (if m.byte (l.add 1) = '\'' then fixedStringLen + 1 else fixedStringLen) +
          s.tail.count '\'' = fixedStringLen + s.count '\'' := by
        cases s with
        | nil =>
            have hend : m.byte (l.add 1) ≠ '\'' := by
              rw [show m.byte (l.add 1) = '\x00' from hs]
              decide
            rw [if_neg hend]
            rfl
        | cons d s =>
            rw [hs.1]
            by_cases hd : d = '\''
            · subst hd
              rw [if_pos rfl, List.count_cons_self, List.tail_cons]
              push_cast
              ring
            · rw [if_neg hd, List.count_cons_of_ne hd, List.tail_cons]
      obtain ⟨m', heq, hbyte, hlog⟩ := ih (m := (m.touch l).touch (l.add 1)) hs hnul' hsize'
        (stringLen + 1)
        (if m.byte (l.add 1) = '\'' then fixedStringLen + 1 else fixedStringLen)
      have hhead : m.Touches ((m.touch l).touch (l.add 1))
          (fun r => ∃ j : ℕ, j ≤ (c :: s).length ∧ r = l.add j) fun _ => False :=
        .trans (.touch ⟨0, Nat.zero_le _, (Loc.add_zero l).symm⟩)
          (.touch ⟨1, Nat.succ_le_succ (Nat.zero_le _), rfl⟩)
      refine ⟨m', ?_, hbyte, hhead.trans (hlog.mono ?_ fun _ => id)⟩
      on_goal 2 =>
        rintro _ ⟨j, hj, rfl⟩
        refine ⟨j + 1, Nat.succ_le_succ hj, ?_⟩
        rw [Loc.add_add, add_comm]
        rfl
      unfold countQuotes
      rw [if_neg (show (m.touch l).byte l ≠ '\x00' from fun h => hne (hc.symm.trans h))]
      refine heq.trans ?_
      rw [hcount, Loc.add_add]
      simp only [List.length_cons, List.tail_cons]
      push_cast
      ring_nf

theorem doubledButFirst_singleton (c : Char) : doubledButFirst [c] = [c] := by
  by_cases hc : c = '\''
  · subst hc
    rfl
  · rw [doubledButFirst_of_ne (by simpa using hc), Sql.doubled_cons_of_ne hc]
    rfl

theorem getD_append_singleton (s : Text) (c d : Char) (k : ℕ) :
    (s ++ [c]).getD k d = s.getD k (if k = s.length then c else d) := by
  rcases lt_trichotomy k s.length with h | h | h
  · rw [List.getD_append _ _ _ _ h, List.getD_eq_getElem _ _ h, List.getD_eq_getElem _ _ h]
  · subst h
    rw [List.getD_append_right _ _ _ _ le_rfl, Nat.sub_self, if_pos rfl,
      List.getD_eq_default _ _ le_rfl]
    rfl
  · rw [List.getD_append_right _ _ _ _ h.le, if_neg (by omega), List.getD_eq_default _ _ h.le,
      List.getD_eq_default]
    simp only [List.length_singleton]
    omega

theorem update_byte (byte : Loc → Char) (a b : ℕ) (i j : ℤ) (c : Char) :
    Function.update byte (b, i) c (a, j) = if a = b ∧ j = i then c else byte (a, j) := by
  rw [Function.update_apply]
  simp only [Prod.mk.injEq]

/-- A write behind what is still to be read. -/
theorem unread_update {byte : Loc → Char} {a b : ℕ} {q : Text}
    (hread : ∀ j (h : j < q.length), byte (a, (j : ℤ)) = q[j]) {i : ℤ} (hi : (q.length : ℤ) ≤ i)
    (c : Char) : ∀ j (h : j < q.length), Function.update byte (b, i) c (a, (j : ℤ)) = q[j] := by
  intro j h
  rw [update_byte, if_neg (by omega)]
  exact hread j h

/-- One round of the copy loop at a character that is no quote. -/
theorem copyBack_other {m : Memory} {iter : Loc} (hc : m.byte iter ≠ '\'') (fixedString : Loc)
    (i : ℕ) : ∃ m', m'.byte = Function.update m.byte (fixedString.add i) (m.byte iter) ∧
      copyBack m fixedString iter (i + 1) = copyBack m' fixedString (iter.add (-1)) i ∧
      m.Touches m' (fun l => l = iter) fun l => l = fixedString.add i := by
  have hwrite : (m.touch iter).Touches ((m.touch iter).write (fixedString.add i) (m.byte iter))
      (fun l => l = iter) fun l => l = fixedString.add i := .write (by rfl) _
  refine ⟨((m.touch iter).write (fixedString.add i) (m.byte iter)).touch iter, rfl, ?_,
    .trans (.trans (.touch rfl) hwrite) (.touch rfl)⟩
  have hbyte := (m.touch iter).write_byte_read (fixedString.add i) iter
  rw [copyBack, if_neg]
  rw [Memory.touch_byte]
  exact fun h => hc (hbyte.symm.trans h)

/-- One round at a quote, which is written twice. -/
theorem copyBack_quote {m : Memory} {iter : Loc} (hc : m.byte iter = '\'') (fixedString : Loc)
    (i : ℕ) : ∃ m', m'.byte = Function.update (Function.update m.byte (fixedString.add i) '\'')
        (fixedString.add ((i : ℤ) - 1)) '\'' ∧
      copyBack m fixedString iter (i + 1) = copyBack m' fixedString (iter.add (-1)) (i - 1) ∧
      m.Touches m' (fun l => l = iter)
        (fun l => l = fixedString.add i ∨ l = fixedString.add ((i : ℤ) - 1)) ∧
      fixedString.add ((i : ℤ) - 1) ∈ m'.writes := by
  have hbyte := (m.touch iter).write_byte_read (fixedString.add i) iter
  rw [Memory.touch_byte, hc] at hbyte
  refine ⟨((((m.touch iter).write (fixedString.add i) '\'').touch iter).touch iter).write
    (fixedString.add ((i : ℤ) - 1)) '\'', rfl, ?_,
    .trans (.trans (.trans (.trans (.touch rfl) (.write (.inl rfl) _)) (.touch rfl)) (.touch rfl))
      (.write (.inr rfl) _), List.mem_append_right _ (List.mem_singleton_self _)⟩
  rw [copyBack, hc, if_pos]
  · simp only [Memory.touch_byte, hbyte]
    cases i with
    | zero => rfl
    | succ i => rfl
  · exact hbyte

/-- The copy loop, started at the end of `p` and at the end of where it goes, writes `p` with its
quotes doubled there and nothing behind it. -/
theorem copyBack_byte {a b : ℕ} {p : Text} (hp : p ≠ []) {m : Memory}
    (hread : ∀ j (h : j < p.length), m.byte (a, (j : ℤ)) = p[j]) (k : ℕ) :
    (copyBack m (b, 0) (a, (p.length : ℤ) - 1) (doubledButFirst p).length).byte (b, (k : ℤ)) =
      (doubledButFirst p).getD k (m.byte (b, (k : ℤ))) := by
  induction p using List.reverseRecOn generalizing m with
  | nil => exact absurd rfl hp
  | append_singleton q c ih =>
      have hiter : (((q ++ [c]).length : ℤ) - 1) = (q.length : ℤ) := by simp
      have hc : m.byte (a, (q.length : ℤ)) = c := by
        rw [hread q.length (by simp)]
        simp
      have hloc : ∀ i : ℤ, Loc.add (b, 0) i = (b, i) := fun i => by simp [Loc.add]
      rw [hiter]
      by_cases hq : q = []
      · subst hq
        rw [List.nil_append, doubledButFirst_singleton]
        have hk : (k : ℤ) ≠ -1 := by omega
        have hk0 : (k : ℤ) = 0 ↔ k = 0 := by omega
        have hend : ∀ m' : Memory, m'.byte (b, (k : ℤ)) =
            (if k = 0 then c else m.byte (b, (k : ℤ))) →
            m'.byte (b, (k : ℤ)) = [c].getD k (m.byte (b, (k : ℤ))) := by
          intro m' h
          rw [h]
          cases k with
          | zero => rfl
          | succ k => rfl
        by_cases hquote : c = '\''
        · subst hquote
          obtain ⟨m', hbyte, heq, -⟩ := copyBack_quote hc (b, 0) 0
          change (copyBack m (b, 0) _ (0 + 1)).byte _ = _
          rw [heq]
          apply hend m'
          rw [hbyte, hloc, hloc, update_byte, update_byte]
          simp [hk]
        · obtain ⟨m', hbyte, heq, -⟩ := copyBack_other (hc ▸ hquote) (b, 0) 0
          change (copyBack m (b, 0) _ (0 + 1)).byte _ = _
          rw [heq]
          apply hend m'
          rw [hbyte, hloc, hc, update_byte]
          simp
      · have hle : q.length ≤ (doubledButFirst q).length := by
          rw [length_doubledButFirst]
          omega
        have hreadq : ∀ j (h : j < q.length), m.byte (a, (j : ℤ)) = q[j] := by
          intro j h
          rw [hread j (by simp; omega)]
          exact List.getElem_append_left h
        rw [doubledButFirst_append hq]
        by_cases hquote : c = '\''
        · subst hquote
          obtain ⟨m', hbyte, heq, -⟩ := copyBack_quote hc (b, 0) ((doubledButFirst q).length + 1)
          have hsplit : doubledButFirst q ++ Sql.doubled '\'' ['\''] =
              (doubledButFirst q ++ ['\'']) ++ ['\''] := by simp [Sql.doubled]
          have hlen : ((doubledButFirst q ++ ['\'']) ++ ['\'']).length =
              (doubledButFirst q).length + 1 + 1 := by simp
          rw [hsplit, hlen, heq, Nat.add_sub_cancel]
          have hread' : ∀ j (h : j < q.length), m'.byte (a, (j : ℤ)) = q[j] := by
            rw [hbyte, hloc, hloc]
            exact unread_update (unread_update hreadq (by omega) _) (by omega) _
          refine (ih hq hread').trans ?_
          rw [getD_append_singleton, getD_append_singleton, hbyte, hloc, hloc, update_byte,
            update_byte, List.length_append, List.length_singleton]
          congr 1
          push_cast
          have hlast : ((k : ℤ) = (doubledButFirst q).length + 1 - 1) ↔
              k = (doubledButFirst q).length := by omega
          have hnext : ((k : ℤ) = (doubledButFirst q).length + 1) ↔
              k = (doubledButFirst q).length + 1 := by omega
          simp only [true_and, hlast, hnext]
        · obtain ⟨m', hbyte, heq, -⟩ := copyBack_other (hc ▸ hquote) (b, 0) (doubledButFirst q).length
          have hsplit : doubledButFirst q ++ Sql.doubled '\'' [c] = doubledButFirst q ++ [c] := by
            simp [Sql.doubled, hquote]
          have hlen : (doubledButFirst q ++ [c]).length = (doubledButFirst q).length + 1 := by simp
          rw [hsplit, hlen, heq]
          have hread' : ∀ j (h : j < q.length), m'.byte (a, (j : ℤ)) = q[j] := by
            rw [hbyte, hloc]
            exact unread_update hreadq (by omega) _
          refine (ih hq hread').trans ?_
          rw [getD_append_singleton, hbyte, hloc, hc, update_byte]
          simp only [true_and, Nat.cast_inj]

theorem hasString_iff {byte : Loc → Char} {l : Loc} {s : Text} : HasString byte l s ↔
    ∀ j (h : j < (s ++ ['\x00']).length), byte (l.add j) = (s ++ ['\x00'])[j] := by
  induction s generalizing l with
  | nil => simp [HasString]
  | cons c s ih =>
      have hnext : ∀ j : ℕ, (l.add 1).add j = l.add ((j + 1 : ℕ) : ℤ) := by
        intro j
        rw [Loc.add_add]
        congr 1
        push_cast
        ring
      unfold HasString
      rw [ih]
      constructor
      · rintro ⟨hc, hs⟩ j h
        cases j with
        | zero => simpa using hc
        | succ j =>
            rw [← hnext]
            exact hs j (by simpa using h)
      · intro hs
        refine ⟨by simpa using hs 0 (by simp), fun j h => ?_⟩
        rw [hnext]
        exact hs (j + 1) (by simpa using h)

theorem hasString_ofString (s : CString) :
    HasString (Memory.ofString s).byte stringLoc s.chars := by
  rw [hasString_iff]
  intro j h
  have hloc : stringLoc.add (j : ℤ) = (0, (j : ℤ)) := by simp [stringLoc, Loc.add]
  rw [hloc]
  simp only [Memory.ofString, stringLoc, Nat.cast_nonneg, and_self, if_true, Int.toNat_natCast]
  rcases Nat.lt_or_ge j s.chars.length with hj | hj
  · rw [List.getElem_append_left hj, List.getD_eq_getElem _ _ hj]
  · rw [List.getElem_append_right hj, List.getD_eq_default _ _ hj, List.getElem_singleton]

theorem stringAt_eq {m : Memory} {l : Loc} {s : Text} {n : ℕ} (hs : HasString m.byte l s)
    (hnul : '\x00' ∉ s) (hn : s.length < n) : m.stringAt l n = s := by
  induction s generalizing l n with
  | nil =>
      obtain ⟨n, rfl⟩ := Nat.exists_eq_succ_of_ne_zero (Nat.ne_of_gt hn)
      unfold Memory.stringAt
      rw [if_pos (show m.byte l = '\x00' from hs)]
  | cons c s ih =>
      obtain ⟨n, rfl⟩ := Nat.exists_eq_succ_of_ne_zero (Nat.ne_of_gt (Nat.zero_lt_of_lt hn))
      obtain ⟨hc, hs⟩ := hs
      have hne : c ≠ '\x00' := fun h => hnul (by rw [h]; exact List.mem_cons_self)
      unfold Memory.stringAt
      rw [hc, if_neg hne, ih hs (fun h => hnul (List.mem_cons_of_mem _ h)) (by simpa using hn)]

theorem doubledButFirst_nul (s : Text) :
    doubledButFirst (s ++ ['\x00']) = doubledButFirst s ++ ['\x00'] := by
  cases s with
  | nil => rfl
  | cons c s => exact doubledButFirst_append (List.cons_ne_nil c s) _

/-- The first loop, and what the second one is started with. -/
theorem fixString_loops {m : Memory} {a b : ℕ} {s : Text} {size : ℕ}
    (hs : HasString m.byte (a, 0) s) (hnul : '\x00' ∉ s) (hsize : s.length < size) (len : ℤ) :
    ∃ m₁, m₁.byte = m.byte ∧
      m.Touches m₁ (fun r => ∃ j : ℕ, j ≤ s.length ∧ r = (a, (j : ℤ))) (fun _ => False) ∧
      fixString m (a, 0) (b, 0) len size =
        if ((doubledButFirst s).length : ℤ) > intMax then .error .undefined
        else if ((doubledButFirst s).length : ℤ) ≥ len then .ok (.tooLong, m₁)
        else .ok (.ok, copyBack m₁ (b, 0) (a, ((s ++ ['\x00']).length : ℤ) - 1)
          (doubledButFirst (s ++ ['\x00'])).length) := by
  obtain ⟨m₁, hcount, hbyte, hlog⟩ := countQuotes_eq hs hnul hsize 0 0
  have hlen : (0 : ℤ) + s.tail.count '\'' + (0 + s.length) = (doubledButFirst s).length := by
    rw [length_doubledButFirst]
    push_cast
    ring
  have hn : (((doubledButFirst s).length : ℤ) + 1).toNat =
      (doubledButFirst (s ++ ['\x00'])).length := by
    rw [doubledButFirst_nul, List.length_append, List.length_singleton]
    omega
  have hiter : Loc.add (a, 0) s.length = (a, ((s ++ ['\x00']).length : ℤ) - 1) := by
    simp [Loc.add]
  refine ⟨m₁, hbyte, hlog.mono ?_ (fun _ => id), ?_⟩
  · rintro _ ⟨j, hj, rfl⟩
    exact ⟨j, hj, congrArg (Prod.mk a) (Int.zero_add _)⟩
  · unfold fixString
    rw [hcount]
    simp only [Except.bind, bind, hlen, hn, hiter]
    rfl

/-- `_fix_string` on a string, wherever the buffer for the result is. -/
theorem fixString_eq {m : Memory} {a b : ℕ} {s : Text} {size : ℕ} (hs : HasString m.byte (a, 0) s)
    (hnul : '\x00' ∉ s) (hsize : s.length < size) (hint : (doubledButFirst s).length ≤ intMax)
    (len : ℤ) :
    ∃ m', fixString m (a, 0) (b, 0) len size =
        .ok (if ((doubledButFirst s).length : ℤ) ≥ len then .tooLong else .ok, m') ∧
      (((doubledButFirst s).length : ℤ) < len → HasString m'.byte (b, 0) (doubledButFirst s)) := by
  obtain ⟨m₁, hbyte, -, heq⟩ := fixString_loops (b := b) hs hnul hsize len
  rw [if_neg (by omega)] at heq
  rw [heq]
  by_cases htoo : ((doubledButFirst s).length : ℤ) ≥ len
  · rw [if_pos htoo, if_pos htoo]
    exact ⟨m₁, rfl, fun h => absurd htoo (not_le.mpr h)⟩
  · rw [if_neg htoo, if_neg htoo]
    refine ⟨_, rfl, fun _ => ?_⟩
    rw [hasString_iff]
    intro k hk
    have hread : ∀ j (h : j < (s ++ ['\x00']).length),
        m₁.byte (a, (j : ℤ)) = (s ++ ['\x00'])[j] := by
      intro j h
      rw [hbyte]
      simpa [Loc.add] using hasString_iff.mp hs j h
    have hcopy := copyBack_byte (b := b) (by simp) hread k
    rw [doubledButFirst_nul, List.getD_eq_getElem _ _ hk] at hcopy
    simpa [Loc.add, doubledButFirst_nul] using hcopy

theorem notMem_doubledButFirst {c : Char} {s : Text} (h : c ∉ s) : c ∉ doubledButFirst s := by
  intro hmem
  have hdoubled := List.mem_of_mem_drop hmem
  obtain ⟨d, hd, hc⟩ := List.mem_flatMap.mp hdoubled
  have hcd : c = d := by
    split at hc
    · next hquote =>
      rw [hquote]
      simpa using hc
    · exact List.mem_singleton.mp hc
  exact h (hcd ▸ hd)

/-- Two runs end with the same code, and the string in the buffer `l'` of the one is in the buffer `l`
of the other, or neither has written anything. -/
def EndAlike (m m' : Memory) (l l' : Loc) :
    Except Halt (SormError × Memory) → Except Halt (SormError × Memory) → Prop
  | .ok (ret, m₁), .ok (ret', m₁') => ret = ret' ∧
      (ret = .ok → ∃ fixed : Text, '\x00' ∉ fixed ∧ HasString m₁'.byte l' fixed ∧
        ∀ k : ℕ, k ≤ fixed.length → m₁.byte (l.add k) = m₁'.byte (l'.add k)) ∧
      (ret ≠ .ok → m₁.byte = m.byte ∧ m₁'.byte = m'.byte)
  | _, _ => False

/-- Over the buffer of the string itself as into another one. -/
def WorksInPlace (s : CString) (len : ℤ) : Prop :=
  ∀ (m m' : Memory) (a b c size size' : ℕ), b ≠ c →
    HasString m.byte (a, 0) s.chars → HasString m'.byte (b, 0) s.chars →
    s.chars.length < size → s.chars.length < size' →
    EndAlike m m' (a, 0) (c, 0) (fixString m (a, 0) (a, 0) len size)
      (fixString m' (b, 0) (c, 0) len size')

theorem HasString.byte_eq {byte byte' : Loc → Char} {l l' : Loc} {s : Text} (h : HasString byte l s)
    (h' : HasString byte' l' s) {k : ℕ} (hk : k ≤ s.length) :
    byte (l.add k) = byte' (l'.add k) := by
  have hlt : k < (s ++ ['\x00']).length := by
    rw [List.length_append, List.length_singleton]
    omega
  rw [hasString_iff.mp h k hlt, hasString_iff.mp h' k hlt]

theorem worksInPlace {s : CString} {len : ℤ} (hint : (doubledButFirst s.chars).length ≤ intMax) :
    WorksInPlace s len := by
  intro m m' a b c size size' _ hs hs' hsize hsize'
  obtain ⟨m₁, hbyte, -, heq⟩ := fixString_loops (b := a) hs s.noNul hsize len
  obtain ⟨m₁', hbyte', -, heq'⟩ := fixString_loops (b := c) hs' s.noNul hsize' len
  rw [if_neg (by omega)] at heq heq'
  by_cases htoo : ((doubledButFirst s.chars).length : ℤ) ≥ len
  · rw [heq, heq', if_pos htoo, if_pos htoo]
    exact ⟨rfl, fun hok => absurd hok (by decide), fun _ => ⟨hbyte, hbyte'⟩⟩
  · obtain ⟨m₂, hend, hstring⟩ := fixString_eq (b := a) hs s.noNul hsize hint len
    obtain ⟨m₂', hend', hstring'⟩ := fixString_eq (b := c) hs' s.noNul hsize' hint len
    rw [hend, hend', if_neg htoo]
    refine ⟨rfl, fun _ => ⟨doubledButFirst s.chars, ?_, hstring' (by omega), fun k hk => ?_⟩, ?_⟩
    · exact notMem_doubledButFirst s.noNul
    · exact (hstring (by omega)).byte_eq (hstring' (by omega)) hk
    · exact fun hne => absurd rfl hne

/-- The counters of the length overflow, wherever the result is to be stored. -/
def CountersOverflow (s : CString) (len : ℤ) : Prop :=
  ∀ (m : Memory) (a b size : ℕ), HasString m.byte (a, 0) s.chars → s.chars.length < size →
    fixString m (a, 0) (b, 0) len size = .error .undefined

/-- `string` and `fixed_string` can point to the same buffer, for every string whose quotes can be
doubled within the range of an `int`; in no buffer can those of a longer one be. -/
theorem fixString_inPlace (s : CString) (len : ℤ) :
    (s.chars.length + s.chars.tail.count '\'' ≤ intMax → WorksInPlace s len) ∧
      (intMax < s.chars.length + s.chars.tail.count '\'' → CountersOverflow s len) := by
  rw [← length_doubledButFirst]
  refine ⟨worksInPlace, fun hlong m a b size hs hsize => ?_⟩
  obtain ⟨m₁, -, -, heq⟩ := fixString_loops (b := b) hs s.noNul hsize len
  rw [heq, if_pos (by omega)]

end Sorm
