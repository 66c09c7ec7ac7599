import Sorm.QuoteDoubling

/-!
# Where `_fix_string` reads and writes

The copy loop writes every byte of the result and none besides, until it comes to a quote at the
beginning of the string: the second half of that quote goes in front of the buffer.
-/

namespace Sorm

open Interaction

def inString (a : ℕ) (p : Text) (l : Loc) : Prop := ∃ j : ℕ, j < p.length ∧ l = (a, (j : ℤ))

def inRange (b : ℕ) (lo n : ℤ) (l : Loc) : Prop := ∃ k : ℤ, lo ≤ k ∧ k < n ∧ l = (b, k)

def firstIndex (p : Text) : ℤ := if p.head? = some '\'' then -1 else 0

theorem firstIndex_append {q : Text} (hq : q ≠ []) (s : Text) : firstIndex (q ++ s) = firstIndex q := by
  cases q with
  | nil => exact absurd rfl hq
  | cons c q => rfl

theorem firstIndex_le_zero (p : Text) : firstIndex p ≤ 0 := by
  unfold firstIndex
  split <;> omega

/-- What the copy loop reads and writes, started at the end of `p`. -/
theorem copyBack_touches {a b : ℕ} {p : Text} (hp : p ≠ []) {m : Memory}
    (hread : ∀ j (h : j < p.length), m.byte (a, (j : ℤ)) = p[j]) :
    m.Touches (copyBack m (b, 0) (a, (p.length : ℤ) - 1) (doubledButFirst p).length)
        (inString a p) (inRange b (firstIndex p) (doubledButFirst p).length) ∧
      (p.head? = some '\'' → (b, (-1 : ℤ)) ∈
        (copyBack m (b, 0) (a, (p.length : ℤ) - 1) (doubledButFirst p).length).writes) := by
  induction p using List.reverseRecOn generalizing m with
  | nil => exact absurd rfl hp
  | append_singleton q c ih =>
      have hiter : (((q ++ [c]).length : ℤ) - 1) = (q.length : ℤ) := by simp
      have hlast : q.length < (q ++ [c]).length := by simp
      have hc : m.byte (a, (q.length : ℤ)) = c := by
        rw [hread q.length hlast]
        simp
      have hloc : ∀ i : ℤ, Loc.add (b, 0) i = (b, i) := fun i => by simp [Loc.add]
      have hself : inString a (q ++ [c]) (a, (q.length : ℤ)) := ⟨q.length, hlast, rfl⟩
      rw [hiter]
      by_cases hq : q = []
      · subst hq
        rw [List.nil_append, doubledButFirst_singleton]
        change m.Touches (copyBack m (b, 0) _ (0 + 1)) _ _ ∧ (_ → _ ∈ (copyBack m (b, 0) _ (0 + 1)).writes)
        by_cases hquote : c = '\''
        · subst hquote
          obtain ⟨m', -, heq, hlog, hmem⟩ := copyBack_quote hc (b, 0) 0
          rw [heq]
          refine ⟨hlog.mono ?_ ?_, fun _ => ?_⟩
          · rintro _ rfl
            exact hself
          · rintro _ (rfl | rfl)
            · exact ⟨0, firstIndex_le_zero _, Int.one_pos, hloc _⟩
            · exact ⟨-1, le_rfl, by decide, hloc _⟩
          · rw [hloc] at hmem
            exact hmem
        · obtain ⟨m', -, heq, hlog⟩ := copyBack_other (hc ▸ hquote) (b, 0) 0
          rw [heq]
          refine ⟨hlog.mono ?_ ?_, fun h => absurd (Option.some.inj h) hquote⟩
          · rintro _ rfl
            exact hself
          · rintro _ rfl
            exact ⟨0, firstIndex_le_zero _, Int.one_pos, hloc _⟩
      · have hle : q.length ≤ (doubledButFirst q).length := by
          rw [length_doubledButFirst]
          omega
        have hhead : (q ++ [c]).head? = q.head? := by
          cases q with
          | nil => exact absurd rfl hq
          | cons d q => rfl
        have hfirst := firstIndex_le_zero q
        have hreadq : ∀ j (h : j < q.length), m.byte (a, (j : ℤ)) = q[j] := by
          intro j h
          rw [hread j (h.trans hlast)]
          exact List.getElem_append_left h
        have hin : ∀ l, inString a q l → inString a (q ++ [c]) l := by
          rintro _ ⟨j, hj, rfl⟩
          exact ⟨j, hj.trans hlast, rfl⟩
        rw [doubledButFirst_append hq, firstIndex_append hq, hhead]
        by_cases hquote : c = '\''
        · subst hquote
          obtain ⟨m', hbyte, heq, hlog, -⟩ := copyBack_quote hc (b, 0) ((doubledButFirst q).length + 1)
          have hlen : (doubledButFirst q ++ Sql.doubled '\'' ['\'']).length =
              (doubledButFirst q).length + 1 + 1 := by simp [Sql.doubled]
          rw [hlen, heq, Nat.add_sub_cancel]
          have hread' : ∀ j (h : j < q.length), m'.byte (a, (j : ℤ)) = q[j] := by
            rw [hbyte, hloc, hloc]
            exact unread_update (unread_update hreadq (by omega) _) (by omega) _
          obtain ⟨htouches, hmem⟩ := ih hq hread'
          refine ⟨(hlog.mono ?_ ?_).trans (htouches.mono hin ?_), hmem⟩
          · rintro _ rfl
            exact hself
          · rintro _ (rfl | rfl)
            · exact ⟨_, by omega, by omega, hloc _⟩
            · exact ⟨_, by omega, by omega, hloc _⟩
          · rintro _ ⟨k, hk, hk', rfl⟩
            exact ⟨k, hk, by omega, rfl⟩
        · obtain ⟨m', hbyte, heq, hlog⟩ := copyBack_other (hc ▸ hquote) (b, 0) (doubledButFirst q).length
          have hlen : (doubledButFirst q ++ Sql.doubled '\'' [c]).length =
              (doubledButFirst q).length + 1 := by simp [Sql.doubled, hquote]
          rw [hlen, heq]
          have hread' : ∀ j (h : j < q.length), m'.byte (a, (j : ℤ)) = q[j] := by
            rw [hbyte, hloc]
            exact unread_update hreadq (by omega) _
          obtain ⟨htouches, hmem⟩ := ih hq hread'
          refine ⟨(hlog.mono ?_ ?_).trans (htouches.mono hin ?_), hmem⟩
          · rintro _ rfl
            exact hself
          · rintro _ rfl
            exact ⟨_, by omega, by omega, hloc _⟩
          · rintro _ ⟨k, hk, hk', rfl⟩
            exact ⟨k, hk, by omega, rfl⟩

/-- With the buffer apart from the string: `SORM_TOO_LONG` and nothing written where the string
with its quotes doubled does not fit, else this text; nothing is read but the string, and nothing
written outside of the buffer. -/
def QuotesDoubled (s : CString) (len : ℤ) : Prop :=
  ∀ (m : Memory) (a b size : ℕ), a ≠ b → HasString m.byte (a, 0) s.chars → s.chars.length < size →
    ∃ ret m', fixString m (a, 0) (b, 0) len size = .ok (ret, m') ∧
      m.Touches m' (inString a (s.chars ++ ['\x00'])) (inRange b 0 len) ∧
      (len ≤ (Sql.doubled '\'' s.chars).length →
        ret = .tooLong ∧ m'.byte = m.byte ∧ m'.writes = m.writes) ∧
      ((Sql.doubled '\'' s.chars).length < len →
        ret = .ok ∧ HasString m'.byte (b, 0) (Sql.doubled '\'' s.chars))

theorem Memory.Touches.writes_eq {m m' : Memory} {R : Loc → Prop}
    (h : m.Touches m' R fun _ => False) : m'.writes = m.writes := by
  obtain ⟨ls, hls, hfalse⟩ := h.writes
  rw [hls, List.eq_nil_iff_forall_not_mem.mpr hfalse, List.append_nil]

theorem length_doubledButFirst_add {s : Text} (h : s.head? = some '\'') :
    (doubledButFirst s).length + 1 = (Sql.doubled '\'' s).length := by
  cases s with
  | nil => cases h
  | cons c s =>
      obtain rfl : c = '\'' := Option.some.inj h
      rw [doubledButFirst_cons_quote, Sql.doubled_cons_self, List.length_cons, List.length_cons,
        List.length_cons]

theorem head?_append_nul {s : Text} : (s ++ ['\x00']).head? = some '\'' ↔ s.head? = some '\'' := by
  cases s with
  | nil => decide
  | cons c s => rfl

/-- The counters do not overflow, and a quote at the beginning only stands where the result would
not fit. -/
theorem QuotesDoubled.fits {s : CString} {len : ℤ} (h : QuotesDoubled s len) :
    (doubledButFirst s.chars).length ≤ intMax ∧
      (s.chars.head? = some '\'' → len < (Sql.doubled '\'' s.chars).length) := by
  have hstring := hasString_ofString s
  obtain ⟨ret, m', heq, hlog, -⟩ := h (.ofString s) 0 1 (s.chars.length + 1) Nat.zero_ne_one
    hstring (Nat.lt_succ_self _)
  obtain ⟨m₁, hbyte, hread, hloops⟩ := fixString_loops (b := 1) hstring s.noNul
    (Nat.lt_succ_self _) len
  rw [heq] at hloops
  by_cases hint : ((doubledButFirst s.chars).length : ℤ) > intMax
  · rw [if_pos hint] at hloops
    cases hloops
  · refine ⟨by omega, fun hquote => ?_⟩
    have hone := length_doubledButFirst_add hquote
    by_contra hfits
    rw [if_neg hint, if_neg (by omega)] at hloops
    obtain ⟨-, hm'⟩ := Prod.mk.inj (Except.ok.inj hloops)
    have hcopy : ∀ j (h : j < (s.chars ++ ['\x00']).length),
        m₁.byte (0, (j : ℤ)) = (s.chars ++ ['\x00'])[j] := by
      intro j h
      rw [hbyte]
      simpa [Loc.add, stringLoc] using hasString_iff.mp hstring j h
    have hmem := (copyBack_touches (b := 1) (by simp) hcopy).2 (head?_append_nul.mpr hquote)
    rw [← hm'] at hmem
    obtain ⟨ls, hls, hin⟩ := hlog.writes
    rw [hls] at hmem
    obtain ⟨k, hk, -, heq⟩ := hin _ (by simpa [Memory.ofString] using hmem)
    have hneg := congrArg Prod.snd heq
    change (-1 : ℤ) = k at hneg
    omega

/-- Quotes are doubled exactly and within bounds unless the counters overflow, or the string begins
with a quote and would fit. -/
theorem quotesDoubled_iff (s : CString) (len : ℤ) :
    QuotesDoubled s len ↔ s.chars.length + s.chars.tail.count '\'' ≤ intMax ∧
      (s.chars.head? = some '\'' → len < (Sql.doubled '\'' s.chars).length) := by
  rw [← length_doubledButFirst]
  constructor
  · exact QuotesDoubled.fits
  · rintro ⟨hint, hquote⟩ m a b size hab hstring hsize
    obtain ⟨m₁, hbyte, hread, hloops⟩ := fixString_loops (b := b) hstring s.noNul hsize len
    rw [if_neg (by omega)] at hloops
    have hin : ∀ l, (∃ j : ℕ, j ≤ s.chars.length ∧ l = (a, (j : ℤ))) →
        inString a (s.chars ++ ['\x00']) l := by
      rintro _ ⟨j, hj, rfl⟩
      exact ⟨j, by simp; omega, rfl⟩
    by_cases htoo : ((doubledButFirst s.chars).length : ℤ) ≥ len
    · have hlong : len ≤ (Sql.doubled '\'' s.chars).length := by
        by_cases hhead : s.chars.head? = some '\''
        · exact (hquote hhead).le
        · rwa [← doubledButFirst_of_ne hhead]
      rw [if_pos htoo] at hloops
      refine ⟨_, m₁, hloops, hread.mono hin fun _ => False.elim, fun _ => ⟨rfl, hbyte, ?_⟩, fun h => ?_⟩
      · exact hread.writes_eq
      · omega
    · have hhead : s.chars.head? ≠ some '\'' := by
        intro hhead
        have hone := length_doubledButFirst_add hhead
        have hlong := hquote hhead
        omega
      have hsame := doubledButFirst_of_ne hhead
      obtain ⟨m', heq, hresult⟩ := fixString_eq (b := b) hstring s.noNul hsize hint len
      rw [if_neg htoo] at heq hloops
      obtain ⟨-, hm'⟩ := Prod.mk.inj (Except.ok.inj (heq.symm.trans hloops))
      have hcopy : ∀ j (h : j < (s.chars ++ ['\x00']).length),
          m₁.byte (a, (j : ℤ)) = (s.chars ++ ['\x00'])[j] := by
        intro j h
        rw [hbyte]
        simpa [Loc.add] using hasString_iff.mp hstring j h
      have htouches := (copyBack_touches (b := b) (by simp) hcopy).1
      rw [← hm', firstIndex, if_neg (mt head?_append_nul.mp hhead), doubledButFirst_nul] at htouches
      refine ⟨_, m', heq, (hread.mono hin fun _ => False.elim).trans
        (htouches.mono (fun _ => id) ?_), fun h => ?_, fun h => ⟨rfl, ?_⟩⟩
      · rintro _ ⟨k, hk, hk', rfl⟩
        simp only [List.length_append, List.length_singleton] at hk'
        exact ⟨k, hk, by omega, rfl⟩
      · rw [← hsame] at h
        omega
      · rw [← hsame] at h ⊢
        exact hresult h

/-- A string of one quote, and a buffer for it with the quote doubled. -/
theorem not_quotesDoubled : ¬ ∀ (s : CString) (len : ℤ), 0 < len → QuotesDoubled s len := by
  intro h
  have hquote := h ⟨['\''], by decide⟩ 3 (by decide)
  exact absurd (hquote.fits.2 rfl) (by decide)

end Sorm
