import Sorm.Select

/-!
# The size of an array of objects

`sorm_new_array` multiplies a `size_t` with an `int`. The product is taken in a `size_t` of `w`
bits, and nothing rejects a negative count or one that wraps. The copies of the descriptor to the
heads of the rows are left out: a row is at least as large as the descriptor it begins with, so they
stay inside of a block that holds the rows.
-/

namespace Sorm

open Interaction

/-- `init_table_desc->size * n` in a `size_t` of `w` bits. -/
def mulSizeTOn (w size : ℕ) (n : ℤ) : ℕ := (size * (n % 2 ^ w).toNat) % 2 ^ w

def sormNewArrayOn (w : ℕ) (allocator : Allocator) (initTableDesc : TableDescriptor) (n : ℤ) :
    Act (Option Address) :=
  if n = 0 then return none else malloc allocator (mulSizeTOn w initTableDesc.size n)

def newArraysOn (w : ℕ) (allocator : Allocator) (maxRowsNum : ℤ) :
    List TableSelect → Act (Bool × Containers RowArray)
  | [] => return (true, [])
  | t :: ts =>
      if t.wanted then do
        match ← sormNewArrayOn w allocator t.tableDesc maxRowsNum with
        | none => return (false, (t, none) :: ts.map fun t => (t, none))
        | some block => do
            let (ok, rest) ← newArraysOn w allocator maxRowsNum ts
            return (ok, (t, some ⟨block, []⟩) :: rest)
      else do
        let (ok, rest) ← newArraysOn w allocator maxRowsNum ts
        return (ok, (t, none) :: rest)

theorem sormNewArrayOn_64 : sormNewArrayOn 64 = sormNewArray := rfl

theorem newArraysOn_64 (allocator : Allocator) (maxRowsNum : ℤ) (ts : List TableSelect) :
    newArraysOn 64 allocator maxRowsNum ts = newArrays allocator maxRowsNum ts := by
  induction ts with
  | nil => rfl
  | cons t ts ih =>
      unfold newArraysOn
      rw [sormNewArrayOn_64, ih]
      rfl

def requests (tr : List SormEvent) : List ℕ :=
  tr.filterMap fun e => match e.1 with
    | .malloc _ size => some size
    | _ => none

/-- What is requested is the product, and all `n` objects lie inside. -/
def RequestsExactly (w size : ℕ) (n : ℤ) (tr : List SormEvent) : Prop :=
  ∀ m ∈ requests tr, (m : ℤ) = size * n ∧ ∀ i : ℕ, (i : ℤ) < n → mulSizeTOn w size i + size ≤ m

/-- An array of `n` rows is allocated with the right size, or nothing is requested and the call
rejected; a selection of 0 rows does not come to the allocation. -/
structure AllocatesSoundly (w : ℕ) (table : TableDescriptor) (n : ℤ) : Prop where
  newArray : ∀ allocator tr q, (sormNewArrayOn w allocator table n).Emits tr q →
    RequestsExactly w table.size n tr ∧ ∀ r, q = .pure r → requests tr = [] → r = none
  select : n ≠ 0 → ∀ t : TableSelect, t.tableDesc = table → t.wanted → ∀ allocator tr q,
    (newArraysOn w allocator n [t]).Emits tr q →
    RequestsExactly w table.size n tr ∧ ∀ r, q = .pure r → requests tr = [] → r.1 = false

section Malloc

variable {α : Type} {allocator : Allocator} {size : ℕ} {k : Option Address → α}
variable {tr : List SormEvent} {q : Act α}

/-- A block is requested once, and not at all for the size 0. -/
theorem requests_malloc (h : (malloc allocator size >>= fun buf => pure (k buf)).Emits tr q) :
    (∀ m ∈ requests tr, m = size ∧ size ≠ 0) ∧
      ∀ r, q = .pure r → requests tr = [] → r = k none := by
  unfold malloc at h
  by_cases hsize : size = 0
  · rw [if_pos hsize] at h
    cases h with
    | nil p =>
        refine ⟨fun m hm => absurd hm List.not_mem_nil, fun r hr _ => ?_⟩
        exact (Interaction.Prog.pure.inj hr).symm
  · rw [if_neg hsize] at h
    cases h with
    | nil p => exact ⟨fun m hm => absurd hm List.not_mem_nil, fun r hr _ => by cases hr⟩
    | cons c f buf h =>
        have hdone : ∀ m ∈ requests [⟨.malloc allocator size, buf⟩], m = size ∧ size ≠ 0 :=
          fun m hm => ⟨List.mem_singleton.mp hm, hsize⟩
        cases buf with
        | none =>
            change (Prog.stop .exit : Act α).Emits _ q at h
            cases h with
            | nil p => exact ⟨hdone, fun r hr _ => by cases hr⟩
        | some block =>
            change (Prog.pure (k (some block)) : Act α).Emits _ q at h
            cases h with
            | nil p => exact ⟨hdone, fun r _ hnone => by cases hnone⟩

theorem malloc_requests (k : Option Address → α) (hsize : size ≠ 0) : ∃ tr q,
    (malloc allocator size >>= fun buf => pure (k buf)).Emits tr q ∧ requests tr = [size] := by
  unfold malloc
  rw [if_neg hsize]
  exact ⟨[⟨.malloc allocator size, none⟩], _, .cons _ _ _ (.nil _), rfl⟩

theorem sormNewArrayOn_eq (w : ℕ) (table : TableDescriptor) {n : ℤ} (hn : n ≠ 0) :
    sormNewArrayOn w allocator table n =
      (malloc allocator (mulSizeTOn w table.size n) >>= fun buf => pure buf) := by
  unfold sormNewArrayOn
  rw [if_neg hn]
  exact (Prog.bind_pure _).symm

/-- The loop over one table goes on with what `sorm_new_array` returns. -/
theorem newArraysOn_eq (w : ℕ) {t : TableSelect} (ht : t.wanted) {n : ℤ} (hn : n ≠ 0) :
    newArraysOn w allocator n [t] =
      (malloc allocator (mulSizeTOn w t.tableDesc.size n) >>= fun buf =>
        pure (buf.isSome, [(t, buf.map fun block => ⟨block, []⟩)])) := by
  unfold newArraysOn
  rw [if_pos ht]
  unfold sormNewArrayOn
  rw [if_neg hn]
  congr 1
  funext buf
  cases buf with
  | none => rfl
  | some block => rfl

end Malloc

theorem mulSizeTOn_eq (w size : ℕ) (n : ℤ) : (mulSizeTOn w size n : ℤ) = size * n % 2 ^ w := by
  have hpos : (0 : ℤ) < 2 ^ w := by positivity
  have hnonneg := Int.emod_nonneg n hpos.ne'
  unfold mulSizeTOn
  push_cast
  rw [Int.toNat_of_nonneg hnonneg, Int.mul_emod, Int.emod_emod_of_dvd n dvd_rfl, ← Int.mul_emod]

/-- A product that fits is the size of the array. -/
theorem requestsExactly_of_fits {w size : ℕ} {n : ℤ} (hpos : 0 < n) (hfits : size * n < 2 ^ w)
    {tr : List SormEvent} (h : ∀ m ∈ requests tr, m = mulSizeTOn w size n) :
    RequestsExactly w size n tr := by
  have hmul : ∀ i : ℤ, 0 ≤ i → i ≤ n → (mulSizeTOn w size i : ℤ) = size * i := by
    intro i hi hin
    rw [mulSizeTOn_eq, Int.emod_eq_of_lt (by positivity)]
    have hle : (size : ℤ) * i ≤ size * n := by gcongr
    omega
  intro m hm
  rw [h m hm]
  refine ⟨hmul n hpos.le le_rfl, fun i hi => ?_⟩
  have hone := hmul i (Int.natCast_nonneg i) hi.le
  have hnext : (size : ℤ) * (i + 1) ≤ size * n := by
    gcongr
    omega
  have hlast := hmul n hpos.le le_rfl
  rw [mul_add, mul_one] at hnext
  omega

/-- The allocation is sound exactly if the product fits, or wraps to 0, for which nothing is
requested. -/
theorem allocatesSoundly_iff (w : ℕ) (table : TableDescriptor) (n : ℤ) :
    AllocatesSoundly w table n ↔
      2 ^ w ∣ table.size * n ∨ (0 < n ∧ table.size * n < 2 ^ w) := by
  have hzero : mulSizeTOn w table.size n = 0 ↔ 2 ^ w ∣ table.size * n := by
    rw [Int.dvd_iff_emod_eq_zero, ← mulSizeTOn_eq, Int.natCast_eq_zero]
  constructor
  · intro h
    by_cases hdvd : (2 ^ w : ℤ) ∣ table.size * n
    · exact .inl hdvd
    · right
      have hn : n ≠ 0 := by
        rintro rfl
        exact hdvd (by simp)
      obtain ⟨tr, q, hemits, hrequests⟩ :=
        @malloc_requests _ .libc _ (fun buf => buf) (mt hzero.mp hdvd)
      rw [← sormNewArrayOn_eq w table hn] at hemits
      obtain ⟨hproduct, -⟩ := (h.newArray _ tr q hemits).1 _ (hrequests ▸ List.mem_singleton_self _)
      have hlt : mulSizeTOn w table.size n < 2 ^ w := Nat.mod_lt _ (by positivity)
      have hlt' : (mulSizeTOn w table.size n : ℤ) < 2 ^ w := by exact_mod_cast hlt
      have hpos : 0 < mulSizeTOn w table.size n := Nat.pos_of_ne_zero (mt hzero.mp hdvd)
      rw [hproduct] at hlt'
      refine ⟨pos_of_mul_pos_right (a := (table.size : ℤ)) (by omega) (Int.natCast_nonneg _), hlt'⟩
  · intro h
    have hexact : ∀ tr, (∀ m ∈ requests tr, m = mulSizeTOn w table.size n ∧
        mulSizeTOn w table.size n ≠ 0) → RequestsExactly w table.size n tr := by
      intro tr htr
      rcases h with hdvd | ⟨hpos, hfits⟩
      · exact fun m hm => absurd (hzero.mpr hdvd) (htr m hm).2
      · exact requestsExactly_of_fits hpos hfits fun m hm => (htr m hm).1
    refine ⟨fun allocator tr q hemits => ?_, ?_⟩
    · by_cases hn : n = 0
      · subst hn
        unfold sormNewArrayOn at hemits
        rw [if_pos rfl] at hemits
        cases hemits with
        | nil p =>
            exact ⟨fun m hm => absurd hm List.not_mem_nil,
              fun r hr _ => (Interaction.Prog.pure.inj hr).symm⟩
      · rw [sormNewArrayOn_eq w table hn] at hemits
        obtain ⟨hrequests, hresult⟩ := requests_malloc hemits
        exact ⟨hexact tr hrequests, hresult⟩
    · rintro hn t rfl ht allocator tr q hemits
      rw [newArraysOn_eq w ht hn] at hemits
      obtain ⟨hrequests, hresult⟩ := requests_malloc hemits
      refine ⟨hexact tr hrequests, fun r hr hnone => ?_⟩
      rw [hresult r hr hnone]
      rfl

/-- A count of -1 becomes a request for nearly the whole address space. -/
theorem not_allocatesSoundly : ¬ ∀ (w : ℕ) (table : TableDescriptor) (n : ℤ), w = 32 ∨ w = 64 →
    AllocatesSoundly w table n := by
  intro h
  let table : TableDescriptor := ⟨"device".toList, 48, [], none, none⟩
  obtain ⟨tr, q, hemits, hrequests⟩ := @malloc_requests _ .libc
    (mulSizeTOn 64 table.size (-1)) (fun buf => buf) (by decide)
  rw [← sormNewArrayOn_eq 64 table (by decide)] at hemits
  have hproduct := ((h 64 table (-1) (.inr rfl)).newArray _ tr q hemits).1
    (mulSizeTOn 64 table.size (-1)) (hrequests ▸ List.mem_singleton_self _)
  exact absurd hproduct.1 (by decide)

end Sorm
