import Sorm.ColumnFilter

/-!
# Filters on DOUBLE columns

`%f` prints six digits after the point. The decimal in a filter is the value it was built from
exactly if that value is a multiple of a millionth.
-/

namespace Sorm

open Interaction Monitor Sql

def unsignedValue (s : Text) : Option ℚ :=
  let digits := s.takeWhile Char.isDigit
  match s.dropWhile Char.isDigit with
  | [] => if digits = [] then none else some (Nat.ofDigitChars 10 digits 0)
  | c :: fraction =>
      if digits ≠ [] ∧ c = '.' ∧ fraction.all Char.isDigit then
        some (Nat.ofDigitChars 10 digits 0 + Nat.ofDigitChars 10 fraction 0 / 10 ^ fraction.length)
      else none

def decimalValue (s : Text) : Option ℚ :=
  if s.head? = some '-' then (unsignedValue s.tail).map fun v => -v else unsignedValue s

def IsMillionths (v : ℚ) : Prop := ∃ k : ℤ, v = k / 10 ^ 6

def printMillionths (n : ℕ) : Text :=
  Nat.toDigits 10 (n / 10 ^ 6) ++ ['.'] ++
    List.replicate (6 - (Nat.toDigits 10 (n % 10 ^ 6)).length) '0' ++ Nat.toDigits 10 (n % 10 ^ 6)

theorem printDouble_eq (v : ℚ) : printDouble v = (if v < 0 then ['-'] else []) ++
    printMillionths (roundHalfEven (|v| * 10 ^ 6)).natAbs := by
  unfold printDouble printMillionths
  simp only [List.append_assoc]

theorem isDigit_toDigits {n : ℕ} {c : Char} (h : c ∈ Nat.toDigits 10 n) : c.isDigit :=
  Nat.isDigit_of_mem_toDigits (by decide) (by decide) h

theorem unsignedValue_printMillionths (n : ℕ) :
    unsignedValue (printMillionths n) = some ((n : ℚ) / 10 ^ 6) := by
  let fraction := Nat.toDigits 10 (n % 10 ^ 6)
  let padding := List.replicate (6 - fraction.length) '0'
  have hlength : fraction.length ≤ 6 :=
    (Nat.length_toDigits_le_iff (by decide) (by decide)).mpr (Nat.mod_lt _ (by decide))
  have hsplit : printMillionths n =
      Nat.toDigits 10 (n / 10 ^ 6) ++ '.' :: (padding ++ fraction) := by
    unfold printMillionths
    simp only [List.append_assoc, List.singleton_append]
    rfl
  have htake : (printMillionths n).takeWhile Char.isDigit = Nat.toDigits 10 (n / 10 ^ 6) := by
    rw [hsplit, List.takeWhile_append_of_pos fun c hc => isDigit_toDigits hc]
    simp
  have hdrop : (printMillionths n).dropWhile Char.isDigit = '.' :: (padding ++ fraction) := by
    rw [hsplit, List.dropWhile_append_of_pos fun c hc => isDigit_toDigits hc]
    simp
  have hdigits : (padding ++ fraction).all Char.isDigit := by
    rw [List.all_eq_true]
    intro c hc
    rcases List.mem_append.mp hc with hc | hc
    · rw [List.eq_of_mem_replicate hc]
      decide
    · exact isDigit_toDigits hc
  have hsize : (padding ++ fraction).length = 6 := by
    rw [List.length_append, List.length_replicate]
    omega
  have hvalue : Nat.ofDigitChars 10 (padding ++ fraction) 0 = n % 10 ^ 6 := by
    rw [Nat.ofDigitChars_append, Nat.ofDigitChars_replicate_zero, Nat.mul_zero]
    exact Nat.ofDigitChars_ten_toDigits
  unfold unsignedValue
  rw [htake, hdrop]
  dsimp only
  rw [if_pos ⟨Nat.toDigits_ne_nil, rfl, hdigits⟩, hsize, hvalue, Nat.ofDigitChars_ten_toDigits]
  have hdivide := Nat.div_add_mod n (10 ^ 6)
  have hcast : (10 ^ 6 : ℚ) * (n / 10 ^ 6 : ℕ) + (n % 10 ^ 6 : ℕ) = n := by exact_mod_cast hdivide
  congr 1
  rw [← hcast]
  field_simp

def millionths (v : ℚ) : ℤ :=
  (if v < 0 then -1 else 1) * (roundHalfEven (|v| * 10 ^ 6)).natAbs

theorem decimalValue_printDouble (v : ℚ) :
    decimalValue (printDouble v) = some ((millionths v : ℚ) / 10 ^ 6) := by
  have hdigits := unsignedValue_printMillionths (roundHalfEven (|v| * 10 ^ 6)).natAbs
  rw [printDouble_eq]
  unfold decimalValue millionths
  by_cases hneg : v < 0
  · rw [if_pos hneg, if_pos hneg, List.singleton_append, List.head?_cons, List.tail_cons,
      if_pos rfl, hdigits]
    simp [neg_div]
  · have hhead : (printMillionths (roundHalfEven (|v| * 10 ^ 6)).natAbs).head? ≠ some '-' := by
      intro h
      unfold printMillionths at h
      rw [List.append_assoc, List.append_assoc,
        List.head?_append_of_ne_nil _ Nat.toDigits_ne_nil] at h
      exact absurd (isDigit_toDigits (List.mem_of_mem_head? h)) (by decide)
    rw [if_neg hneg, if_neg hneg, List.nil_append, if_neg hhead, hdigits, one_mul, Int.cast_natCast]

theorem roundHalfEven_intCast (n : ℤ) : roundHalfEven n = n := by
  unfold roundHalfEven
  simp

/-- The decimal in a filter is the value itself exactly if no digit is lost. -/
theorem millionths_eq_iff (v : ℚ) : (millionths v : ℚ) / 10 ^ 6 = v ↔ IsMillionths v := by
  constructor
  · intro h
    exact ⟨millionths v, h.symm⟩
  · rintro ⟨k, rfl⟩
    have habs : |(k : ℚ) / 10 ^ 6| * 10 ^ 6 = ((|k| : ℤ) : ℚ) := by
      rw [abs_div, abs_of_pos (show (0 : ℚ) < 10 ^ 6 by norm_num), div_mul_cancel₀ _ (by norm_num),
        Int.cast_abs]
    have hneg : (k : ℚ) / 10 ^ 6 < 0 ↔ k < 0 := by
      rw [div_lt_iff₀ (by norm_num), zero_mul]
      exact Int.cast_lt_zero
    unfold millionths
    rw [habs, roundHalfEven_intCast, Int.natAbs_abs]
    congr 2
    by_cases hk : k < 0
    · rw [if_pos (hneg.mpr hk)]
      omega
    · rw [if_neg (mt hneg.mp hk)]
      omega

def SelectsValue (column : ColumnDescriptor) (filter : Text) (r : ℚ) : Prop :=
  ∃ decimal, filter = column.name ++ " = ".toList ++ decimal ∧ decimalValue decimal = some r

/-- The filter is satisfied by the rows that hold the value and by no others. -/
def SelectsOnly (column : ColumnDescriptor) (value : Pointer) (filter : Text) : Prop :=
  ∀ r, SelectsValue column filter r ↔ r = value.double

structure DoubleFilterExact (column : ColumnDescriptor) (value : Pointer) : Prop where
  filter : ∀ filter, constructColumnFilter column value = .ok (.ok, filter) →
    SelectsOnly column value filter
  delete : ∀ conn table i tr q sqlStmt n r, table.columns[i]? = some column →
    (sormDeleteByColumn (some conn) (some table) i (some value)).Emits tr q →
    (⟨.prepare sqlStmt n, r⟩ : SormEvent) ∈ tr →
    ∃ w, sqlStmt = "DELETE FROM ".toList ++ table.name ++ " WHERE ".toList ++ w ∧
      SelectsOnly column value w
  select : ∀ conn allocator table (columnsName : CString) i getRow tr q sqlStmt n r,
    table.columns[i]? = some column →
    (sormSelectOneByColumn (some conn) allocator table (some columnsName) i (some value)
      getRow).Emits tr q →
    (⟨.prepare sqlStmt n, r⟩ : SormEvent) ∈ tr →
    ∃ w, sqlStmt = "SELECT ".toList ++ columnsName.chars ++ " FROM ".toList ++ table.name ++
      " WHERE ".toList ++ w ∧ SelectsOnly column value w

/-- The filters on two values differ, and each is exact. -/
structure DistinctFilters (column : ColumnDescriptor) (value value' : Pointer) : Prop where
  exact₁ : DoubleFilterExact column value
  exact₂ : DoubleFilterExact column value'
  distinct : ∀ filter filter', constructColumnFilter column value = .ok (.ok, filter) →
    constructColumnFilter column value' = .ok (.ok, filter') → filter ≠ filter'

/-- A filter that fits its buffer is for a multiple of a millionth. -/
def PrintsExactly (column : ColumnDescriptor) (value : Pointer) : Prop :=
  column.name.length + 3 + (printDouble value.double).length ≤ sqlStmtMaxLen →
    IsMillionths value.double

section Filter

variable {column : ColumnDescriptor} {value value' : Pointer} {filter : Text}

theorem constructColumnFilter_double (htype : column.type = .double) :
    constructColumnFilter column value = .ok (.ok, filter) ↔
      filter = column.name ++ " = ".toList ++ printDouble value.double ∧
        column.name.length + 3 + (printDouble value.double).length ≤ sqlStmtMaxLen := by
  have htext : filterText column value =
      .ok (.ok, column.name ++ " = ".toList ++ printDouble value.double) := by
    unfold filterText
    rw [htype]
  have hlength : (column.name ++ " = ".toList ++ printDouble value.double).length =
      column.name.length + 3 + (printDouble value.double).length := by
    rw [List.length_append, List.length_append]
    rfl
  rw [constructColumnFilter_ok htext, hlength]

theorem selectsValue_printDouble (v r : ℚ) :
    SelectsValue column (column.name ++ " = ".toList ++ printDouble v) r ↔
      (millionths v : ℚ) / 10 ^ 6 = r := by
  constructor
  · rintro ⟨decimal, heq, hvalue⟩
    obtain rfl := List.append_cancel_left heq
    rw [decimalValue_printDouble] at hvalue
    exact Option.some.inj hvalue
  · rintro rfl
    exact ⟨_, rfl, decimalValue_printDouble v⟩

theorem selectsOnly_printDouble :
    SelectsOnly column value (column.name ++ " = ".toList ++ printDouble value.double) ↔
      IsMillionths value.double := by
  rw [← millionths_eq_iff]
  unfold SelectsOnly
  simp only [selectsValue_printDouble]
  constructor
  · intro h
    exact (h value.double).mpr rfl
  · intro h r
    rw [h]
    exact eq_comm

theorem nul_notMem_doubleFilter (hname : '\x00' ∉ column.name) (v : ℚ) :
    '\x00' ∉ column.name ++ " = ".toList ++ printDouble v := by
  have hdigits : ∀ n, '\x00' ∉ Nat.toDigits 10 n :=
    fun n h => absurd (isDigit_toDigits h) (by decide)
  have hmillionths : ∀ n, '\x00' ∉ printMillionths n := by
    intro n h
    unfold printMillionths at h
    simp only [List.mem_append, List.mem_singleton] at h
    rcases h with ((h | h) | h) | h
    · exact hdigits _ h
    · exact absurd h (by decide)
    · exact absurd (List.eq_of_mem_replicate h) (by decide)
    · exact hdigits _ h
  rw [printDouble_eq]
  intro h
  simp only [List.mem_append] at h
  rcases h with (h | h) | h | h
  · exact hname h
  · exact absurd h (by decide)
  · split at h
    · exact absurd h (by decide)
    · cases h
  · exact hmillionths _ h

theorem doubleFilterExact_iff (hname : '\x00' ∉ column.name) (htype : column.type = .double) :
    DoubleFilterExact column value ↔ PrintsExactly column value := by
  constructor
  · intro h hfits
    exact selectsOnly_printDouble.mp
      (h.filter _ ((constructColumnFilter_double htype).mpr ⟨rfl, hfits⟩))
  · intro h
    have hfilter : ∀ filter, constructColumnFilter column value = .ok (.ok, filter) →
        '\x00' ∉ filter ∧ SelectsOnly column value filter := by
      intro filter hok
      obtain ⟨rfl, hfits⟩ := (constructColumnFilter_double htype).mp hok
      exact ⟨nul_notMem_doubleFilter hname _, selectsOnly_printDouble.mpr (h hfits)⟩
    exact ⟨fun filter hok => (hfilter filter hok).2,
      fun _ _ _ _ _ _ _ _ hcolumn hemits hprepare =>
        delete_filter (fun filter hok => (hfilter filter hok).2) hcolumn hemits hprepare,
      fun _ _ _ _ _ _ _ _ _ _ _ hcolumn hemits hprepare =>
        select_filter hfilter hcolumn hemits hprepare⟩

end Filter

/-- The filters on two different values differ and select exactly the rows that hold them, if and
only if the values whose filters fit are multiples of a millionth. -/
theorem distinctFilters_iff {column : ColumnDescriptor} {value value' : Pointer}
    (hname : '\x00' ∉ column.name) (htype : column.type = .double)
    (hne : value.double ≠ value'.double) :
    DistinctFilters column value value' ↔
      PrintsExactly column value ∧ PrintsExactly column value' := by
  rw [← doubleFilterExact_iff hname htype, ← doubleFilterExact_iff hname htype]
  constructor
  · intro h
    exact ⟨h.exact₁, h.exact₂⟩
  · rintro ⟨h, h'⟩
    refine ⟨h, h', fun filter filter' hok hok' heq => hne ?_⟩
    have honly := h.filter filter hok value.double
    rw [heq, h'.filter filter' hok'] at honly
    exact honly.mpr rfl

def IsDouble (v : ℚ) : Prop :=
  ∃ m e : ℤ, |m| < 2 ^ 53 ∧ -1074 ≤ e ∧ e ≤ 971 ∧ v = m * 2 ^ e

def doublePointer (v : ℚ) : Pointer where
  address := 0
  text := .empty
  bytes := fun _ => '\x00'
  int32 := 0
  int64 := 0
  double := v

def priceColumn : ColumnDescriptor := { nameColumn with name := "price".toList, type := .double }

theorem distinctFilters_iff_price :
    DistinctFilters priceColumn (doublePointer (1 / 2)) (doublePointer 3) ↔
      PrintsExactly priceColumn (doublePointer (1 / 2)) ∧
        PrintsExactly priceColumn (doublePointer 3) :=
  distinctFilters_iff (by decide) rfl (show (1 / 2 : ℚ) ≠ 3 by norm_num)

/-- Zero and a small number have the same filter, `price = 0.000000`. -/
theorem not_distinctFilters : ¬ ∀ (column : ColumnDescriptor) (value value' : Pointer),
    '\x00' ∉ column.name → column.type = .double → IsDouble value.double →
    IsDouble value'.double → value.double ≠ value'.double →
    DistinctFilters column value value' := by
  intro h
  have hzero : IsDouble 0 := ⟨0, 0, by norm_num, by norm_num, by norm_num, by norm_num⟩
  have hsmall : IsDouble (1 / 2 ^ 30) :=
    ⟨1, -30, by norm_num, by norm_num, by norm_num, by norm_num⟩
  have hdistinct := h priceColumn (doublePointer 0) (doublePointer (1 / 2 ^ 30)) (by decide) rfl
    hzero hsmall (show (0 : ℚ) ≠ 1 / 2 ^ 30 by norm_num)
  have hfits : priceColumn.name.length + 3 + (printDouble (1 / 2 ^ 30)).length ≤ sqlStmtMaxLen := by
    decide +kernel
  obtain ⟨k, hk⟩ := (doubleFilterExact_iff (by decide) rfl).mp hdistinct.exact₂ hfits
  have hinteger : (2 ^ 30 * k : ℚ) = 10 ^ 6 := by
    change (1 : ℚ) / 2 ^ 30 = _ at hk
    field_simp at hk
    linarith
  have hinteger' : 2 ^ 30 * k = 10 ^ 6 := by exact_mod_cast hinteger
  omega

end Sorm
