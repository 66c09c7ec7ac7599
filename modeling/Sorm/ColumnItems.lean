import Mathlib.Data.List.DropRight
import Sorm.Columns

/-!
# The items of a column list

What one round of the loop of `_columns_name_to_select_columns` works on: `trim` leaves the item
without the blanks and tabs around it, and the lookup of a trimmed item either finds the columns it
names, skips it because no table has the name before the `.`, or runs into the `assert(0)`.
-/

namespace Sorm

open Interaction

def trimmed (item : Text) : Text := (item.dropWhile isBlank).rdropWhile isBlank

theorem trimmed_eq_nil {item : Text} : trimmed item = [] ↔ item.dropWhile isBlank = [] := by
  unfold trimmed
  rw [List.rdropWhile_eq_nil_iff]
  constructor
  · intro h
    by_contra hne
    have hhead := List.head_dropWhile_not isBlank hne
    have hblank := h _ (List.head_mem hne)
    rw [hhead] at hblank
    cases hblank
  · intro h c hc
    rw [h] at hc
    cases hc

theorem trimHead_eq (left item : Text) : trimHead left item =
    ((item.takeWhile isBlank).reverse ++ left, item.dropWhile isBlank) := by
  induction item generalizing left with
  | nil => rfl
  | cons c cs ih =>
      unfold trimHead
      by_cases hc : isBlank c
      · rw [if_pos hc, ih]
        simp [hc]
      · rw [if_neg hc]
        simp [hc]

/-- The tail loop stops at the first byte that is no blank, if there is one. -/
theorem trimTail_eq {bytes : Text} (h : bytes.dropWhile isBlank ≠ []) : trimTail bytes =
    .ok (List.replicate (bytes.takeWhile isBlank).length '\x00' ++ bytes.dropWhile isBlank) := by
  induction bytes with
  | nil => exact absurd rfl h
  | cons c cs ih =>
      unfold trimTail
      by_cases hc : isBlank c
      · rw [List.dropWhile_cons_of_pos hc] at h
        rw [if_pos hc, ih h]
        simp [hc, List.replicate_succ]
      · rw [if_neg hc]
        simp [hc]

theorem trimTail_error {bytes : Text} (h : bytes.dropWhile isBlank = []) :
    trimTail bytes = .error .undefined := by
  induction bytes with
  | nil => rfl
  | cons c cs ih =>
      unfold trimTail
      by_cases hc : isBlank c
      · rw [List.dropWhile_cons_of_pos hc] at h
        rw [if_pos hc, ih h]
        rfl
      · rw [List.dropWhile_cons_of_neg hc] at h
        cases h

theorem takeWhile_ne_nul {s : Text} (hs : '\x00' ∉ s) (k : ℕ) :
    (s ++ List.replicate k '\x00').takeWhile (· != '\x00') = s := by
  have hpos : ∀ c ∈ s, (c != '\x00') = true := by
    intro c hc
    have hne : c ≠ '\x00' := fun h => hs (h ▸ hc)
    simpa using hne
  rw [List.takeWhile_append_of_pos hpos]
  cases k with
  | zero => simp
  | succ k => simp [List.replicate_succ]

theorem nul_notMem_trimmed {item : Text} (h : '\x00' ∉ item) : '\x00' ∉ trimmed item := by
  intro hmem
  exact h ((List.dropWhile_suffix _).subset ((List.rdropWhile_prefix _ _).subset hmem))

/-- An item that is not all blank is left trimmed, whatever bytes are before it. -/
theorem trim_eq {left item : Text} (hne : trimmed item ≠ []) (hnul : '\x00' ∉ item) :
    ∃ left' region, trim left item = .ok (left', region) ∧
      region.takeWhile (· != '\x00') = trimmed item := by
  have hstr : item.dropWhile isBlank ≠ [] := fun h => hne (trimmed_eq_nil.mpr h)
  have htrimmed : ((item.dropWhile isBlank).reverse.dropWhile isBlank).reverse = trimmed item := rfl
  have hnul' := nul_notMem_trimmed hnul
  unfold trim
  rw [trimHead_eq]
  dsimp only
  generalize item.dropWhile isBlank = str at hstr htrimmed
  generalize (item.takeWhile isBlank).reverse ++ left = left₁
  have hrev : str.reverse.dropWhile isBlank ≠ [] := by
    intro h
    rw [h] at htrimmed
    exact hne htrimmed.symm
  have hsplit := congrArg List.length
    (List.takeWhile_append_dropWhile (p := isBlank) (l := str.reverse))
  rw [List.length_append, List.length_reverse] at hsplit
  have hpos := List.length_pos_iff.mpr hrev
  have hdrop : (str.reverse ++ left₁).dropWhile isBlank =
      str.reverse.dropWhile isBlank ++ left₁ := by
    rw [List.dropWhile_append, if_neg]
    simpa using hrev
  have htake : (str.reverse ++ left₁).takeWhile isBlank = str.reverse.takeWhile isBlank := by
    rw [List.takeWhile_append, if_neg]
    rw [List.length_reverse]
    omega
  rw [trimTail_eq (by rw [hdrop]; simp [hrev]), hdrop, htake, ← List.append_assoc]
  refine ⟨_, _, rfl, ?_⟩
  rw [List.take_left' (by rw [List.length_append, List.length_replicate, hsplit]),
    List.reverse_append, htrimmed, List.reverse_replicate]
  exact takeWhile_ne_nul hnul' _

/-- An item that is all blank is trimmed to nothing, once some byte before it is no blank. -/
theorem trim_blank {item : Text} (hblank : trimmed item = []) (left : Text) :
    ∃ left', trim ('\x00' :: left) item = .ok (left', []) := by
  have hstr := trimmed_eq_nil.mp hblank
  have hdrop : ((item.takeWhile isBlank).reverse ++ '\x00' :: left).dropWhile isBlank ≠ [] := by
    rw [List.dropWhile_append_of_pos]
    · simp [isBlank]
    · exact fun c hc => List.mem_takeWhile_imp (List.mem_reverse.mp hc)
  unfold trim
  rw [trimHead_eq, hstr]
  dsimp only
  rw [List.reverse_nil, List.nil_append, trimTail_eq hdrop]
  exact ⟨_, rfl⟩

/-- At the beginning of the list `trim` then runs out of the buffer. -/
theorem trim_first_blank {item : Text} (hblank : trimmed item = []) :
    trim [] item = .error .undefined := by
  have hstr := trimmed_eq_nil.mp hblank
  have hall : (item.takeWhile isBlank).reverse.dropWhile isBlank = [] := by
    rw [List.dropWhile_eq_nil_iff]
    exact fun c hc => List.mem_takeWhile_imp (List.mem_reverse.mp hc)
  unfold trim
  rw [trimHead_eq, hstr]
  dsimp only
  rw [List.reverse_nil, List.nil_append, List.append_nil, trimTail_error hall]
  rfl

/-- The item names columns of the tables: all of them, all of a table, or one. The name of a table
stands before the first `.`. -/
def Known (tablesDesc : List TableDescriptor) (item : Text) : Prop :=
  match strchr '.' item with
  | some (tableName, columnName) => ∃ table ∈ tablesDesc, table.name = tableName ∧
      (columnName = ['*'] ∨ ∃ column ∈ table.columns, column.name = columnName)
  | none => item = ['*'] ∨ ∃ table ∈ tablesDesc, ∃ column ∈ table.columns, column.name = item

def Names (tablesDesc : List TableDescriptor) (item : Text) : Prop :=
  match strchr '.' item with
  | some (tableName, columnName) => ∃ table,
      tablesDesc.find? (fun table => table.name == tableName) = some table ∧
        (columnName = ['*'] ∨ ∃ column ∈ table.columns, column.name = columnName)
  | none => item = ['*'] ∨ ∃ table ∈ tablesDesc, ∃ column ∈ table.columns, column.name = item

/-- A `.` in the item, but no table of the name before it. -/
def UnknownTable (tablesDesc : List TableDescriptor) (item : Text) : Prop :=
  match strchr '.' item with
  | some (tableName, _) => ∀ table ∈ tablesDesc, table.name ≠ tableName
  | none => False

theorem UnknownTable.not_known {tablesDesc : List TableDescriptor} {item : Text}
    (h : UnknownTable tablesDesc item) : ¬ Known tablesDesc item := by
  unfold UnknownTable at h
  unfold Known
  split at h
  · rintro ⟨table, hmem, hname, -⟩
    exact h table hmem hname
  · cases h

theorem Names.known {tablesDesc : List TableDescriptor} {item : Text} (h : Names tablesDesc item) :
    Known tablesDesc item := by
  unfold Names at h
  unfold Known
  split at h
  · next tableName columnName _ =>
      obtain ⟨table, hfind, hcolumn⟩ := h
      have hname : table.name = tableName := by simpa using List.find?_some hfind
      exact ⟨table, List.mem_of_find?_eq_some hfind, hname, hcolumn⟩
  · exact h

theorem findIdx?_column {columns : List ColumnDescriptor} {name : Text} :
    (columns.findIdx? fun column => column.name == name) = none ↔
      ¬ ∃ column ∈ columns, column.name = name := by
  rw [List.findIdx?_eq_none_iff]
  simp

theorem findColumn_eq_none {tablesDesc : List TableDescriptor} {name : Text} :
    findColumn name tablesDesc = none ↔
      ¬ ∃ table ∈ tablesDesc, ∃ column ∈ table.columns, column.name = name := by
  induction tablesDesc with
  | nil => simp [findColumn]
  | cons table tables ih =>
      unfold findColumn
      cases hfind : table.columns.findIdx? fun column => column.name == name with
      | some j =>
          have hex : ∃ column ∈ table.columns, column.name = name := by
            by_contra hnone
            rw [findIdx?_column.mpr hnone] at hfind
            cases hfind
          simp only [reduceCtorEq, false_iff, not_not]
          exact ⟨table, List.mem_cons_self, hex⟩
      | none =>
          have hnone := findIdx?_column.mp hfind
          simp only [Option.map_eq_none_iff, ih, List.mem_cons, exists_eq_or_imp, hnone, false_or]

/-- What the lookup of an item comes to. -/
theorem columnNameToIndexInTables_cases (tablesDesc : List TableDescriptor) (item : Text) :
    (Names tablesDesc item ∧
      ∃ i j, columnNameToIndexInTables tablesDesc item = .ok (.ok, i, j)) ∨
    (UnknownTable tablesDesc item ∧
      columnNameToIndexInTables tablesDesc item = .ok (.invalidColumnName, none, none)) ∨
    (¬ Names tablesDesc item ∧ ¬ UnknownTable tablesDesc item ∧
      columnNameToIndexInTables tablesDesc item = .error .abort) := by
  unfold Names UnknownTable columnNameToIndexInTables
  cases strchr '.' item with
  | none =>
      dsimp only
      by_cases hstar : item = ['*']
      · rw [if_pos hstar]
        exact Or.inl ⟨Or.inl hstar, none, none, rfl⟩
      · rw [if_neg hstar]
        cases hfind : findColumn item tablesDesc with
        | none =>
            have hnone := findColumn_eq_none.mp hfind
            exact Or.inr (Or.inr ⟨fun h => h.elim hstar hnone, id, rfl⟩)
        | some p =>
            have hex : ∃ table ∈ tablesDesc, ∃ column ∈ table.columns, column.name = item := by
              by_contra hnone
              rw [findColumn_eq_none.mpr hnone] at hfind
              cases hfind
            exact Or.inl ⟨Or.inr hex, some p.1, some p.2, rfl⟩
  | some names =>
      obtain ⟨tableName, columnName⟩ := names
      dsimp only
      have hfind : tablesDesc.find? (fun table => table.name == tableName) =
          (tablesDesc.findIdx? fun table => table.name == tableName).bind (tablesDesc[·]?) :=
        List.find?_eq_bind_findIdx?_getElem?
      rw [hfind]
      cases hindex : tablesDesc.findIdx? fun table => table.name == tableName with
      | none =>
          have hunknown : ∀ table ∈ tablesDesc, table.name ≠ tableName := by
            simpa using List.findIdx?_eq_none_iff.mp hindex
          exact Or.inr (Or.inl ⟨hunknown, rfl⟩)
      | some i =>
          obtain ⟨hlt, hname, -⟩ := List.findIdx?_eq_some_iff_getElem.mp hindex
          have hknown : ¬ ∀ table ∈ tablesDesc, table.name ≠ tableName :=
            fun h => h _ (List.getElem_mem hlt) (by simpa using hname)
          have hget : tablesDesc[i]? = some tablesDesc[i] := List.getElem?_eq_getElem hlt
          simp only [Option.bind_some, hget, Option.some.injEq, exists_eq_left']
          by_cases hstar : columnName = ['*']
          · rw [if_pos hstar]
            exact Or.inl ⟨Or.inl hstar, some i, none, rfl⟩
          · rw [if_neg hstar]
            cases hcolumn : tablesDesc[i].columns.findIdx? fun column => column.name == columnName with
            | none =>
                have hnone := findIdx?_column.mp hcolumn
                exact Or.inr (Or.inr ⟨fun h => h.elim hstar hnone, hknown, rfl⟩)
            | some j =>
                have hex : ∃ column ∈ tablesDesc[i].columns, column.name = columnName := by
                  by_contra hnone
                  rw [findIdx?_column.mpr hnone] at hcolumn
                  cases hcolumn
                exact Or.inl ⟨Or.inr hex, some i, some j, rfl⟩

/-- A round of the loop looks the trimmed item up, unless `trim` runs out of the buffer. -/
theorem selectItems_cons (tablesDesc : List TableDescriptor) {item left : Text}
    (hnul : '\x00' ∉ item) (hstart : trimmed item ≠ [] ∨ ∃ l, left = '\x00' :: l)
    (items : List Text) (m : ResultMap) : ∃ l, selectItems tablesDesc (item :: items) left m =
      columnNameToIndexInTables tablesDesc (trimmed item) >>= fun r =>
        selectItems tablesDesc items ('\x00' :: l)
          (if r.1 = .ok then m.add tablesDesc r.2.1 r.2.2 else m) := by
  obtain ⟨left', region, htrim, hname⟩ : ∃ left' region, trim left item = .ok (left', region) ∧
      region.takeWhile (· != '\x00') = trimmed item := by
    by_cases hblank : trimmed item = []
    · obtain ⟨l, rfl⟩ := hstart.resolve_left (not_not.mpr hblank)
      obtain ⟨left', htrim⟩ := trim_blank hblank l
      exact ⟨left', [], htrim, hblank.symm⟩
    · exact trim_eq hblank hnul
  refine ⟨(cutAtDot region).reverse ++ left', ?_⟩
  rw [selectItems, htrim, ← hname]
  rfl

theorem selectItems_first_blank {tablesDesc : List TableDescriptor} {item : Text}
    (hblank : trimmed item = []) (items : List Text) (m : ResultMap) :
    selectItems tablesDesc (item :: items) [] m = .error .undefined := by
  unfold selectItems
  rw [trim_first_blank hblank]
  rfl

theorem mem_of_mem_splitOn {c d : Char} {s item : Text} (hitem : item ∈ s.splitOn d)
    (hc : c ∈ item) : c ∈ s := by
  induction s generalizing item with
  | nil =>
      rw [List.splitOn_nil, List.mem_singleton] at hitem
      rwa [hitem] at hc
  | cons e s ih =>
      rw [List.splitOn_cons_eq_if_modifyHead] at hitem
      split at hitem
      · rcases List.mem_cons.mp hitem with rfl | hitem
        · cases hc
        · exact List.mem_cons_of_mem _ (ih hitem hc)
      · cases hsplit : s.splitOn d with
        | nil =>
            rw [hsplit] at hitem
            cases hitem
        | cons first rest =>
            rw [hsplit, List.modifyHead_cons] at hitem
            rcases List.mem_cons.mp hitem with rfl | hitem
            · rcases List.mem_cons.mp hc with rfl | hc
              · exact List.mem_cons_self
              · exact List.mem_cons_of_mem _ (ih (hsplit ▸ List.mem_cons_self) hc)
            · exact List.mem_cons_of_mem _ (ih (hsplit ▸ List.mem_cons_of_mem _ hitem) hc)

theorem nul_notMem_item {s : CString} {item : Text} (hitem : item ∈ s.chars.splitOn ',') :
    '\x00' ∉ item := fun h => s.noNul (mem_of_mem_splitOn hitem h)

end Sorm
