import Sorm.Decoding
import Sorm.SelectOperations

/-!
# The row loops of a select

`gather` is what every row loop comes to: how many result rows are taken before the limit, the end
of the rows, or a row that does not decode. `expected` is what the caller then sees. The loops into
arrays, into lists and into lists without a bound are each shown to be `gather`.
-/

namespace Sorm

open Interaction

def Row.erase (row : Row) : Row := ⟨row.1, row.2.erase⟩

def decodedRow (t : TableSelect) (row : ResultRow) : Row :=
  match decode t row with
  | .ok r => ⟨t.tableDesc, r.2⟩
  | .error _ => ⟨t.tableDesc, .fresh t.tableDesc⟩

def decodeTables : List TableSelect → ResultRow → Except Halt SormError
  | [], _ => .ok .ok
  | t :: ts, row =>
      if t.wanted then
        match decode t row with
        | .error why => .error why
        | .ok r => if r.1 = .ok then decodeTables ts row else .ok r.1
      else decodeTables ts row

/-- The error code, and the number of rows taken. -/
def gather (ts : List TableSelect) (finish : DbCode) :
    ℕ → List ResultRow → Except Halt (SormError × ℕ)
  | 0, _ => .ok (.ok, 0)
  | _ + 1, [] => .ok (if finish = .done then .ok else .dbError, 0)
  | limit + 1, row :: rows =>
      match decodeTables ts row with
      | .error why => .error why
      | .ok ret =>
        if ret = .ok then (gather ts finish limit rows).map fun r => (r.1, r.2 + 1)
        else .ok (ret, 0)

structure Seen where
  code : SormError
  rowsNum : Option ℕ
  rows : List (Option (List Row))

def perTable (ts : List TableSelect) (rowsOf : TableSelect → List Row) :
    List (Option (List Row)) :=
  ts.map fun t => if t.wanted then some (rowsOf t) else none

def noRows (ts : List TableSelect) : List (Option (List Row)) := ts.map fun _ => none

def expected (ts : List TableSelect) (rows : List ResultRow) (r : SormError × ℕ) : Seen :=
  if r.1 ≠ .ok ∨ r.2 = 0 then ⟨r.1, some r.2, noRows ts⟩
  else ⟨r.1, some r.2, perTable ts fun t => (rows.take r.2).map (decodedRow t)⟩

def RowArray.content (array : RowArray) : List Row := array.rows.map Row.erase

def RowList.content (list : RowList) : List Row :=
  list.entries.filterMap fun entry => entry.data.map fun data => data.2.erase

def Object.Freeable {table : TableDescriptor} (obj : Object table) : Prop :=
  ∀ i, sormIsStatNeedfree (obj.getColumnStat i) →
    ((table.column i).type = .text ∨ (table.column i).type = .blob) ∧ (table.column i).mem = .heap

/-- Every entry has a row, and the rows can be freed. -/
structure RowList.Complete (list : RowList) : Prop where
  data : ∀ entry ∈ list.entries, entry.data.isSome
  freeable : ∀ entry ∈ list.entries, ∀ data ∈ entry.data, data.2.2.Freeable

def TableDescriptor.Sized (table : TableDescriptor) : Prop := 0 < table.size ∧ table.size < 2 ^ 32

section Containers

variable {ρ : Type} (content : ρ → List Row) (Good : ρ → Prop)

inductive Contain (rowsOf : TableSelect → List Row) : Containers ρ → List TableSelect → Prop
  | nil : Contain rowsOf [] []
  | wanted {t : TableSelect} {c : ρ} {cs : Containers ρ} {ts : List TableSelect}
      (ht : t.wanted) (hc : content c = rowsOf t) (hgood : Good c) (h : Contain rowsOf cs ts) :
      Contain rowsOf ((t, some c) :: cs) (t :: ts)
  | unwanted {t : TableSelect} {cs : Containers ρ} {ts : List TableSelect} (ht : ¬ t.wanted)
      (h : Contain rowsOf cs ts) : Contain rowsOf ((t, none) :: cs) (t :: ts)

structure Keep (cs : Containers ρ) (ts : List TableSelect) : Prop where
  length : cs.length = ts.length
  good : ∀ tc ∈ cs, ∀ c ∈ tc.2, Good c

variable {Good} in
theorem Keep.cons {cs : Containers ρ} {ts : List TableSelect} (h : Keep Good cs ts)
    {t t' : TableSelect} {c : Option ρ} (hc : ∀ c' ∈ c, Good c') :
    Keep Good ((t, c) :: cs) (t' :: ts) := by
  refine ⟨congrArg (· + 1) h.length, fun tc htc => ?_⟩
  rcases List.mem_cons.mp htc with rfl | htc
  · exact hc
  · exact h.good tc htc

variable {content Good} {rowsOf rowsOf' : TableSelect → List Row} {cs : Containers ρ}
  {ts : List TableSelect}

theorem Contain.keep (h : Contain content Good rowsOf cs ts) : Keep Good cs ts := by
  induction h with
  | nil => exact ⟨rfl, fun tc htc => by cases htc⟩
  | @wanted t c cs ts ht hc hgood h ih =>
      apply ih.cons
      intro c' hc'
      cases hc'
      exact hgood
  | @unwanted t cs ts ht h ih =>
      apply ih.cons
      intro c' hc'
      cases hc'

theorem Contain.perTable (h : Contain content Good rowsOf cs ts) :
    cs.map (fun tc => tc.2.map content) = perTable ts rowsOf := by
  induction h with
  | nil => rfl
  | @wanted t c cs ts ht hc hgood h ih =>
      rw [Sorm.perTable, List.map_cons, List.map_cons, if_pos ht, ih, Option.map_some, hc]
      rfl
  | @unwanted t cs ts ht h ih =>
      rw [Sorm.perTable, List.map_cons, List.map_cons, if_neg ht, ih]
      rfl

theorem Contain.congr (h : Contain content Good rowsOf cs ts)
    (hrows : ∀ t, rowsOf t = rowsOf' t) : Contain content Good rowsOf' cs ts := by
  rwa [← funext hrows]

end Containers

section Store

variable {ρ : Type} {content : ρ → List Row} {Good : ρ → Prop}
  {one : TableSelect → ρ → Act (SormError × ρ)}

def storeEach (one : TableSelect → ρ → Act (SormError × ρ)) :
    Containers ρ → Act (SormError × Containers ρ)
  | [] => return (.ok, [])
  | (t, some c) :: cs => do
      let (ret, c) ← one t c
      if ret = .ok then
        let (ret, cs) ← storeEach one cs
        return (ret, (t, some c) :: cs)
      else return (ret, (t, some c) :: cs)
  | (t, none) :: cs => do
      let (ret, cs) ← storeEach one cs
      return (ret, (t, none) :: cs)

def storeArrayEntry (allocator : Allocator) (stmtHandle : Option Handle) (t : TableSelect)
    (array : RowArray) : Act (SormError × RowArray) := do
  let (ret, row) ← parseSelectResult allocator stmtHandle t.selectColumns.indexesInResult
    (Object.fresh t.tableDesc)
  return (ret, { array with rows := array.rows ++ [⟨t.tableDesc, row⟩] })

theorem storeArrayRow_eq (allocator : Allocator) (h : Option Handle) (cs : Containers RowArray) :
    storeArrayRow allocator h cs = storeEach (storeArrayEntry allocator h) cs := by
  induction cs with
  | nil => rfl
  | cons tc cs ih =>
      obtain ⟨t, _ | array⟩ := tc
      · rw [storeArrayRow, storeEach, ih]
      · rw [storeArrayRow, storeEach, ih, storeArrayEntry, bind_assoc]
        rfl

theorem storeListRow_eq (allocator : Allocator) (h : Option Handle) (cs : Containers RowList) :
    storeListRow allocator h cs = storeEach (storeListEntry allocator h) cs := by
  induction cs with
  | nil => rfl
  | cons tc cs ih =>
      obtain ⟨t, _ | list⟩ := tc
      · rw [storeListRow, storeEach, ih]
      · rw [storeListRow, storeEach, ih]

variable (o : Outside)

def StoresOne (content : ρ → List Row) (Good : ρ → Prop) (t : TableSelect)
    (one : TableSelect → ρ → Act (SormError × ρ)) : Prop :=
  ∀ (c : ρ) (s : Db), Good c → ∃ r n, o.run (one t c) s = (r, { s with blocks := n }) ∧
    match decode t s.current with
    | .error why => r = .error why
    | .ok d => ∃ c', r = .ok (d.1, c') ∧ Good c' ∧
        (d.1 = .ok → content c' = content c ++ [decodedRow t s.current])

def Stores (content : ρ → List Row) (Good : ρ → Prop) (ts : List TableSelect)
    (store : Containers ρ → Act (SormError × Containers ρ)) : Prop :=
  ∀ (rowsOf : TableSelect → List Row) (cs : Containers ρ) (s : Db),
    Contain content Good rowsOf cs ts →
    ∃ r n, o.run (store cs) s = (r, { s with blocks := n }) ∧
      match decodeTables ts s.current with
      | .error why => r = .error why
      | .ok ret => ∃ cs', r = .ok (ret, cs') ∧ Keep Good cs' ts ∧
          (ret = .ok →
            Contain content Good (fun t => rowsOf t ++ [decodedRow t s.current]) cs' ts)

variable {o}

theorem storeEach_stores {ts : List TableSelect}
    (hone : ∀ t ∈ ts, StoresOne o content Good t one) : Stores o content Good ts (storeEach one) := by
  intro rowsOf cs s hcs
  induction hcs generalizing s with
  | nil => exact ⟨_, s.blocks, rfl, [], rfl, ⟨rfl, fun _ htc => by cases htc⟩, fun _ => .nil⟩
  | @unwanted t cs ts ht h ih =>
      obtain ⟨r, n, hrun, hr⟩ := ih (fun t' ht' => hone t' (List.mem_cons_of_mem _ ht')) s
      rw [decodeTables, if_neg ht]
      cases hd : decodeTables ts s.current with
      | error why =>
          rw [hd] at hr
          subst hr
          exact ⟨_, n, Prog.run_bind_error hrun _, rfl⟩
      | ok ret =>
          rw [hd] at hr
          obtain ⟨cs', rfl, hkeep, hcontain⟩ := hr
          refine ⟨_, n, Prog.run_bind_ok hrun _, _, rfl, ?_, fun hret => .unwanted ht (hcontain hret)⟩
          exact hkeep.cons fun c hc => by cases hc
  | @wanted t c cs ts ht hc hgood h ih =>
      obtain ⟨r, n, hrun, hr⟩ := hone t List.mem_cons_self c s hgood
      rw [decodeTables, if_pos ht]
      cases hd : decode t s.current with
      | error why =>
          rw [hd] at hr
          subst hr
          exact ⟨_, n, Prog.run_bind_error hrun _, rfl⟩
      | ok d =>
          rw [hd] at hr
          obtain ⟨c', rfl, hgood', hcontent⟩ := hr
          unfold storeEach
          rw [Outside.run, Prog.run_bind_ok hrun]
          dsimp only
          by_cases hret : d.1 = .ok
          · obtain ⟨r', n', hrun', hr'⟩ := ih (fun t' ht' => hone t' (List.mem_cons_of_mem _ ht'))
              { s with blocks := n }
            rw [if_pos hret, if_pos hret]
            dsimp only at hr'
            cases hd' : decodeTables ts s.current with
            | error why =>
                rw [hd'] at hr'
                subst hr'
                exact ⟨_, n', Prog.run_bind_error hrun' _, rfl⟩
            | ok ret =>
                rw [hd'] at hr'
                obtain ⟨cs', rfl, hkeep, hcontain⟩ := hr'
                refine ⟨_, n', Prog.run_bind_ok hrun' _, _, rfl, ?_, fun hret' =>
                  .wanted ht ?_ hgood' (hcontain hret')⟩
                · exact hkeep.cons fun c hc => by cases hc; exact hgood'
                · rw [hcontent hret, hc]
          · rw [if_neg hret, if_neg hret]
            refine ⟨_, n, rfl, _, rfl, ?_, fun hret' => absurd hret' hret⟩
            exact h.keep.cons fun c hc => by cases hc; exact hgood'

end Store

section Freeable

variable {table : TableDescriptor}

theorem freeable_fresh : (Object.fresh table).Freeable := by
  intro i h
  have hzero : ¬ sormIsStatNeedfree Slot.zero.stat := by decide
  exact absurd h hzero

/-- A column that is marked to be freed has its value in a block. -/
theorem Cell.read_needfree {cell : Cell} {column : ColumnDescriptor} {slot : Slot}
    {block : Address} {r : SormError × Slot} (h : cell.read column slot block = .ok r)
    (hfree : sormIsStatNeedfree r.2.stat) : sormIsStatNeedfree slot.stat ∨
      ((column.type = .text ∨ column.type = .blob) ∧ column.mem = .heap) := by
  have hvalue : ∀ r, cell.readValue column slot block = .ok r → sormIsStatNeedfree r.2.stat →
      sormIsStatNeedfree slot.stat ∨
        ((column.type = .text ∨ column.type = .blob) ∧ column.mem = .heap) := by
    intro r hr hfree
    unfold readValue at hr
    cases htype : column.type with
    | text =>
        rw [htype] at hr
        unfold readText at hr
        cases hmem : column.mem with
        | heap => exact Or.inr ⟨Or.inl rfl, rfl⟩
        | none =>
            rw [hmem] at hr
            cases hr
            exact Or.inl hfree
        | stack =>
            rw [hmem] at hr
            dsimp only at hr
            split at hr
            · cases hr
              exact Or.inl hfree
            · cases hr
            · cases hr
              exact Or.inl hfree
    | blob =>
        rw [htype] at hr
        cases hr
        unfold readBlob at hfree
        cases hmem : column.mem with
        | heap => exact Or.inr ⟨Or.inr rfl, rfl⟩
        | none =>
            rw [hmem] at hfree
            exact Or.inl hfree
        | stack =>
            rw [hmem] at hfree
            dsimp only at hfree
            split at hfree
            · exact Or.inl hfree
            · exact Or.inl hfree
    | _ =>
        rw [htype] at hr
        cases hr
        exact Or.inl hfree
  unfold read at h
  split at h
  · cases h
    rw [sormIsStatNeedfree_or, Bool.or_eq_true] at hfree
    exact hfree.imp_right fun hnull => absurd hnull (by decide)
  · cases hr : cell.readValue column slot block with
    | error why =>
        rw [hr] at h
        cases h
    | ok r' =>
        rw [hr] at h
        cases h
        apply hvalue r' hr
        dsimp only at hfree
        split at hfree
        · rw [sormIsStatNeedfree_or, Bool.or_eq_true] at hfree
          exact hfree.resolve_right (by decide)
        · exact hfree

theorem Object.Freeable.setSlot {obj : Object table} (h : obj.Freeable) {i : table.Index}
    {slot : Slot} (hslot : sormIsStatNeedfree slot.stat →
      ((table.column i).type = .text ∨ (table.column i).type = .blob) ∧
        (table.column i).mem = .heap) : (obj.setSlot i slot).Freeable := by
  intro j hj
  by_cases hij : j = i
  · subst hij
    unfold Object.getColumnStat at hj
    rw [Object.setSlot_self] at hj
    exact hslot hj
  · unfold Object.getColumnStat at hj
    rw [Object.setSlot_of_ne obj hij] at hj
    exact h j hj

theorem decodeColumns_freeable {row : ResultRow} {columnIndexesInResult : List (Option ℕ)}
    {is : List table.Index} {obj : Object table} {r : SormError × Object table}
    (hr : decodeColumns row columnIndexesInResult is obj = .ok r) (h : obj.Freeable) :
    r.2.Freeable := by
  induction is generalizing obj with
  | nil =>
      cases hr
      exact h
  | cons i is ih =>
      unfold decodeColumns at hr
      split at hr
      · exact ih hr h
      · split at hr
        · cases hr
        · next resultIndex _ ret slot hread =>
          have hset : (obj.setSlot i slot).Freeable := h.setSlot fun hfree =>
            (Cell.read_needfree hread hfree).elim (h i) id
          split at hr
          · exact ih hr hset
          · cases hr
            exact hset

theorem freeable_erase {obj : Object table} (h : obj.erase.Freeable) : obj.Freeable := h

variable {o : Outside} {s : Db}

theorem sormFreeColumns_run (allocator : Allocator) {obj : Object table} (h : obj.Freeable)
    (is : List table.Index) : o.run (sormFreeColumns allocator obj is) s = (.ok (), s) := by
  induction is with
  | nil => rfl
  | cons i is ih =>
      unfold sormFreeColumns
      by_cases hfree : sormIsStatNeedfree (obj.getColumnStat i)
      · simp only [hfree, if_true, if_pos (h i hfree)]
        exact ih
      · simp only [hfree]
        exact ih

theorem listFreeEntries_run (allocator : Allocator) {entries : List ListEntry}
    (h : ∀ entry ∈ entries, ∀ data ∈ entry.data, data.2.2.Freeable) :
    o.run (listFreeEntries allocator entries) s = (.ok (), s) := by
  induction entries with
  | nil => rfl
  | cons entry entries ih =>
      have hrest := ih fun entry' h' => h entry' (List.mem_cons_of_mem _ h')
      unfold listFreeEntries
      cases hdata : entry.data with
      | none => exact hrest
      | some data =>
          have hfree : o.run (sormFree allocator (some data.2.2)) s = (.ok (), s) :=
            sormFreeColumns_run allocator (h entry List.mem_cons_self data hdata) _
          rw [Outside.run, Prog.run_bind_ok hfree]
          exact hrest

theorem sormListFree_run (allocator : Allocator) {list : Option RowList}
    (h : ∀ l ∈ list, l.Complete) : o.run (sormListFree allocator list) s = (.ok (), s) := by
  cases list with
  | none => rfl
  | some l =>
      unfold sormListFree
      rw [Outside.run, Prog.run_bind_ok (listFreeEntries_run allocator (h l rfl).freeable)]
      rfl

theorem dropLists_run (allocator : Allocator) {cs : Containers RowList}
    (h : ∀ tc ∈ cs, ∀ l ∈ tc.2, l.Complete) : o.run (dropLists allocator cs) s = (.ok (), s) := by
  induction cs with
  | nil => rfl
  | cons tc cs ih =>
      unfold dropLists
      rw [Outside.run, Prog.run_bind_ok (sormListFree_run allocator (h tc List.mem_cons_self))]
      exact ih fun tc' h' => h tc' (List.mem_cons_of_mem _ h')

theorem dropArrays_run (allocator : Allocator) (cs : Containers RowArray) :
    o.run (dropArrays allocator cs) s = (.ok (), s) := by
  induction cs with
  | nil => rfl
  | cons tc cs ih => exact ih

end Freeable

section Store

variable {o : Outside} (allocator : Allocator) (h : Handle)

theorem storeArrayEntry_stores (t : TableSelect) :
    StoresOne o RowArray.content (fun _ => True) t (storeArrayEntry allocator (some h)) := by
  intro array s _
  obtain ⟨r, n, hrun, hr⟩ := @Outside.parseSelectResult_run o s allocator h t
  unfold storeArrayEntry
  cases r with
  | error why =>
      rw [← hr]
      exact ⟨_, n, Prog.run_bind_error hrun _, rfl⟩
  | ok r =>
      rw [← hr]
      refine ⟨_, n, Prog.run_bind_ok hrun _, _, rfl, trivial, fun _ => ?_⟩
      rw [RowArray.content, List.map_append, decodedRow, ← hr]
      rfl

theorem mulSizeT_ne_zero {table : TableDescriptor} (ht : table.Sized) {n : ℤ} (hpos : 0 < n)
    (hle : n ≤ intMax) : mulSizeT table.size n ≠ 0 := by
  have hmax : intMax = 2147483647 := rfl
  obtain ⟨hsize, hsize'⟩ := ht
  have hn : (n % 2 ^ 64).toNat = n.toNat := by
    rw [Int.emod_eq_of_lt (by omega) (by omega)]
  have hprod : table.size * n.toNat < 2 ^ 64 := by
    calc table.size * n.toNat < 2 ^ 32 * 2 ^ 32 := Nat.mul_lt_mul'' hsize' (by omega)
      _ = 2 ^ 64 := by norm_num
  unfold mulSizeT
  rw [hn, Nat.mod_eq_of_lt hprod]
  exact Nat.mul_ne_zero (by omega) (by omega)

theorem sormNewArray_run {table : TableDescriptor} (ht : table.Sized) {n : ℤ} (hpos : 0 < n)
    (hle : n ≤ intMax) (s : Db) : o.run (sormNewArray allocator table n) s =
      (.ok (some (o.block s.blocks)), { s with blocks := s.blocks + 1 }) := by
  unfold sormNewArray malloc
  rw [if_neg (by omega), if_neg (mulSizeT_ne_zero ht hpos hle)]
  rfl

theorem storeListEntry_stores {t : TableSelect} (ht : t.tableDesc.Sized) :
    StoresOne o RowList.content RowList.Complete t (storeListEntry allocator (some h)) := by
  intro list s hlist
  obtain ⟨r, n, hrun, hr⟩ := @Outside.parseSelectResult_run o
    { s with blocks := s.blocks + 1 + 1 } allocator h t
  dsimp only at hr
  have hnew : o.run (sormNew allocator t.tableDesc) { s with blocks := s.blocks + 1 } =
      (.ok (some (o.block (s.blocks + 1))), { s with blocks := s.blocks + 1 + 1 }) :=
    sormNewArray_run allocator ht Int.one_pos (by decide) _
  have hblocks : o.run (storeListEntry allocator (some h) t list) s =
      o.run (do
        let (ret, row) ← parseSelectResult allocator (some h) t.selectColumns.indexesInResult
          (Object.fresh t.tableDesc)
        return (ret, { list with entries := list.entries ++
          [⟨o.block s.blocks, some (o.block (s.blocks + 1), ⟨_, row⟩)⟩] }))
        { s with blocks := s.blocks + 1 + 1 } := by
    change o.run (sormNew allocator t.tableDesc >>= _) { s with blocks := s.blocks + 1 } = _
    rw [Outside.run, Prog.run_bind_ok hnew]
  rw [hblocks]
  cases r with
  | error why =>
      rw [← hr]
      exact ⟨_, n, Prog.run_bind_error hrun _, rfl⟩
  | ok r =>
      have hdecode : decodeColumns s.current t.selectColumns.indexesInResult t.tableDesc.indexes
          (.fresh t.tableDesc) = .ok (eraseResult r) := hr.symm
      have herased := decodeColumns_freeable hdecode freeable_fresh
      have hfree : r.2.Freeable := freeable_erase herased
      rw [← hr]
      refine ⟨_, n, Prog.run_bind_ok hrun _, _, rfl, ?_, fun _ => ?_⟩
      · constructor
        · intro entry hentry
          rcases List.mem_append.mp hentry with hentry | hentry
          · exact hlist.data entry hentry
          · obtain rfl := List.mem_singleton.mp hentry
            rfl
        · intro entry hentry data hdata
          rcases List.mem_append.mp hentry with hentry | hentry
          · exact hlist.freeable entry hentry data hdata
          · obtain rfl := List.mem_singleton.mp hentry
            cases hdata
            exact hfree
      · rw [RowList.content, List.filterMap_append, decodedRow, ← hr]
        rfl

end Store

section Loops

variable {o : Outside} {ρ : Type} {content : ρ → List Row} {Good : ρ → Prop}
  {ts : List TableSelect} {rowsOf : TableSelect → List Row} {cs : Containers ρ} {s : Db}

/-- What a row loop comes to when it is to be `gather`: its error code, the rows taken, and the
containers with these rows behind the ones that were there. -/
structure Gathers (o : Outside) (content : ρ → List Row) (Good : ρ → Prop) (ts : List TableSelect)
    (rowsOf : TableSelect → List Row) (rows : List ResultRow) (before : ℕ)
    (gathered : SormError × ℕ) (r : Rows ρ) (s' : Db) : Prop where
  code : r.code = gathered.1
  rowsNum : r.rowsNum = before + gathered.2
  keep : Keep Good r.containers ts
  contain : gathered.1 = .ok →
    Contain content Good (fun t => rowsOf t ++ (rows.take gathered.2).map (decodedRow t))
      r.containers ts
  failed : s'.failed = true → gathered.1 = .dbError

theorem rowLoop_run (conn : Connection) {h : Option Handle}
    {store : Containers ρ → Act (SormError × Containers ρ)} (hstore : Stores o content Good ts store)
    (limit before : ℕ) (hcs : Contain content Good rowsOf cs ts) (hs : s.failed = false) :
    ∃ r s', o.run (rowLoop conn h store limit before cs) s = (r, s') ∧
      match gather ts o.finish limit s.upcoming with
      | .error why => r = .error why
      | .ok gathered => ∃ rows, r = .ok rows ∧
          Gathers o content Good ts rowsOf s.upcoming before gathered rows s' := by
  induction limit generalizing before cs rowsOf s with
  | zero =>
      refine ⟨_, s, rfl, _, rfl, rfl, rfl, hcs.keep, fun _ => ?_, fun hf => ?_⟩
      · apply hcs.congr
        intro t
        rw [List.take_zero, List.map_nil, List.append_nil]
      · rw [hs] at hf
        cases hf
  | succ limit ih =>
      unfold rowLoop
      rw [Outside.run, Prog.run_bind_ok (Outside.sqlite3Step_run conn h .read)]
      cases hrows : s.upcoming with
      | nil =>
          simp only [Outside.step, hrows, if_neg o.finish_ne]
          refine ⟨_, _, rfl, _, rfl, rfl, rfl, hcs.keep, fun _ => ?_, fun hf => ?_⟩
          · apply hcs.congr
            intro t
            rw [List.take_nil, List.map_nil, List.append_nil]
          · rw [if_neg (of_decide_eq_true hf)]
      | cons row rows =>
          simp only [Outside.step, hrows, if_true]
          obtain ⟨r, n, hrun, hr⟩ := hstore rowsOf cs
            { s with upcoming := rows, current := row, failed := false } hcs
          dsimp only at hrun hr
          unfold gather
          cases hd : decodeTables ts row with
          | error why =>
              rw [hd] at hr
              subst hr
              exact ⟨_, _, Prog.run_bind_error hrun _, rfl⟩
          | ok ret =>
              rw [hd] at hr
              obtain ⟨cs', rfl, hkeep, hcontain⟩ := hr
              rw [Prog.run_bind_ok hrun]
              dsimp only
              by_cases hret : ret = .ok
              · rw [if_pos hret, if_pos hret]
                obtain ⟨r', s', hrun', hr'⟩ := ih (s := ⟨rows, row, false, n, s.bound⟩) (before + 1)
                  (hcontain hret) rfl
                refine ⟨r', s', hrun', ?_⟩
                dsimp only at hr'
                cases hg : gather ts o.finish limit rows with
                | error why =>
                    rw [hg] at hr'
                    exact hr'
                | ok g =>
                    rw [hg] at hr'
                    obtain ⟨rs, rfl, hgathers⟩ := hr'
                    refine ⟨rs, rfl, hgathers.code, ?_, hgathers.keep, fun hok => ?_,
                      hgathers.failed⟩
                    · rw [hgathers.rowsNum, Nat.add_assoc, Nat.add_comm 1]
                    · apply (hgathers.contain hok).congr
                      intro t
                      rw [List.take_succ_cons, List.map_cons, List.append_assoc,
                        List.singleton_append]
              · rw [if_neg hret, if_neg hret]
                refine ⟨_, _, rfl, _, rfl, rfl, rfl, hkeep, fun hok => absurd hok hret, fun hf => ?_⟩
                cases hf

/-- With rounds for all rows and the end of them, `while(1)` is a loop with that limit. -/
theorem allRowsLoop_run (conn : Connection) (allocator : Allocator) {h : Option Handle}
    {cs : Containers RowList} (hstore : Stores o RowList.content RowList.Complete ts
      (storeListRow allocator h)) (rounds before : ℕ)
    (hcs : Contain RowList.content RowList.Complete rowsOf cs ts)
    (hrounds : s.upcoming.length < rounds) (hle : before + s.upcoming.length ≤ intMax) :
    o.run (allRowsLoop conn allocator h rounds before cs) s =
      o.run (rowLoop conn h (storeListRow allocator h) rounds before cs) s := by
  induction rounds generalizing before cs rowsOf s with
  | zero => omega
  | succ rounds ih =>
      unfold allRowsLoop rowLoop
      rw [Outside.run, Outside.run, Prog.run_bind_ok (Outside.sqlite3Step_run conn h .read),
        Prog.run_bind_ok (Outside.sqlite3Step_run conn h .read)]
      cases hrows : s.upcoming with
      | nil => simp only [Outside.step, hrows, if_neg o.finish_ne]
      | cons row rows =>
          simp only [Outside.step, hrows, if_true]
          obtain ⟨r, n, hrun, hr⟩ := hstore rowsOf cs
            { s with upcoming := rows, current := row, failed := false } hcs
          dsimp only at hrun hr
          cases hd : decodeTables ts row with
          | error why =>
              rw [hd] at hr
              subst hr
              rw [Prog.run_bind_error hrun, Prog.run_bind_error hrun]
          | ok ret =>
              rw [hd] at hr
              obtain ⟨cs', rfl, hkeep, hcontain⟩ := hr
              rw [Prog.run_bind_ok hrun, Prog.run_bind_ok hrun]
              dsimp only
              by_cases hret : ret = .ok
              · rw [hrows, List.length_cons] at hrounds hle
                have hint : ¬ intMax ≤ before := by omega
                have hnext : before + 1 + rows.length ≤ intMax := by omega
                rw [if_pos hret, if_pos hret, if_neg hint]
                exact ih (s := ⟨rows, row, false, n, s.bound⟩) (before + 1) (hcontain hret)
                  (Nat.lt_of_succ_lt_succ hrounds) hnext
              · rw [if_neg hret, if_neg hret]

theorem gather_of_length {ts : List TableSelect} {finish : DbCode} {limit : ℕ}
    {rows : List ResultRow} (h : rows.length < limit) :
    gather ts finish limit rows = gather ts finish (rows.length + 1) rows := by
  induction limit generalizing rows with
  | zero => omega
  | succ limit ih =>
      cases rows with
      | nil => rfl
      | cons row rows =>
          rw [List.length_cons, gather, gather, ih (Nat.lt_of_succ_lt_succ h)]

end Loops

section Cores

variable {o : Outside} {ts : List TableSelect} {s : Db}

def Selected.seen {ρ : Type} (content : ρ → List Row) (selected : Selected ρ) : Seen :=
  ⟨selected.code, selected.rowsNum, selected.rowsOfTables.map (Option.map content)⟩

structure Sees {ρ : Type} (content : ρ → List Row) (Good : ρ → Prop) (ts : List TableSelect)
    (rows : List ResultRow) (g : SormError × ℕ) (selected : Selected ρ) (s' : Db) : Prop where
  seen : selected.seen content = expected ts rows g
  good : ∀ c ∈ selected.rowsOfTables, ∀ c' ∈ c, Good c'
  failed : s'.failed = true → selected.code = .dbError

def CoreSees {ρ : Type} (content : ρ → List Row) (Good : ρ → Prop) (ts : List TableSelect)
    (rows : List ResultRow) (gathered : Except Halt (SormError × ℕ))
    (r : Except Halt (Selected ρ)) (s' : Db) : Prop :=
  match gathered with
  | .error why => r = .error why
  | .ok g => ∃ selected, r = .ok selected ∧ Sees content Good ts rows g selected s'

theorem newArrays_run (allocator : Allocator) {n : ℤ} (hpos : 0 < n) (hle : n ≤ intMax)
    (hts : ∀ t ∈ ts, t.tableDesc.Sized) : ∃ cs k, o.run (newArrays allocator n ts) s =
      (.ok (true, cs), { s with blocks := k }) ∧
        Contain RowArray.content (fun _ => True) (fun _ => []) cs ts := by
  induction ts generalizing s with
  | nil => exact ⟨[], s.blocks, rfl, .nil⟩
  | cons t ts ih =>
      have hrest := fun t' ht' => hts t' (List.mem_cons_of_mem _ ht')
      unfold newArrays
      by_cases ht : t.wanted
      · rw [if_pos ht, Outside.run,
          Prog.run_bind_ok (sormNewArray_run allocator (hts t List.mem_cons_self) hpos hle s)]
        obtain ⟨cs, k, hrun, hcs⟩ := ih (s := { s with blocks := s.blocks + 1 }) hrest
        exact ⟨_, k, Prog.run_bind_ok hrun _, .wanted ht rfl trivial hcs⟩
      · rw [if_neg ht]
        obtain ⟨cs, k, hrun, hcs⟩ := ih (s := s) hrest
        exact ⟨_, k, Prog.run_bind_ok hrun _, .unwanted ht hcs⟩

theorem newLists_run (allocator : Allocator) (ts : List TableSelect) (s : Db) :
    ∃ cs k, o.run (newLists allocator ts) s = (.ok (true, cs), { s with blocks := k }) ∧
      Contain RowList.content RowList.Complete (fun _ => []) cs ts := by
  induction ts generalizing s with
  | nil => exact ⟨[], s.blocks, rfl, .nil⟩
  | cons t ts ih =>
      have hblock : o.run (malloc allocator sormListSize) s =
          (.ok (some (o.block s.blocks)), { s with blocks := s.blocks + 1 }) := rfl
      unfold newLists
      by_cases ht : t.wanted
      · rw [if_pos ht, Outside.run, Prog.run_bind_ok hblock]
        obtain ⟨cs, k, hrun, hcs⟩ := ih { s with blocks := s.blocks + 1 }
        refine ⟨_, k, Prog.run_bind_ok hrun _, .wanted ht rfl ⟨?_, ?_⟩ hcs⟩
        · intro entry hentry
          cases hentry
        · intro entry hentry
          cases hentry
      · rw [if_neg ht]
        obtain ⟨cs, k, hrun, hcs⟩ := ih s
        exact ⟨_, k, Prog.run_bind_ok hrun _, .unwanted ht hcs⟩

theorem map_none_eq {α β : Type} {cs : List α} (hlength : cs.length = ts.length)
    (content : β → List Row) :
    (cs.map fun _ => (none : Option β)).map (Option.map content) = noRows ts := by
  have hnone : (Option.map content ∘ fun _ : α => (none : Option β)) = fun _ => none := rfl
  rw [noRows, List.map_map, hnone, List.map_const', List.map_const', hlength]

theorem nothing_sees {ρ : Type} {content : ρ → List Row} {Good : ρ → Prop}
    {rows : List ResultRow} (hs : s.failed = false) :
    Sees content Good ts rows (.ok, 0) ⟨.ok, some 0, ts.map fun _ => none⟩ s := by
  refine ⟨?_, fun c hc c' hc' => ?_, fun hf => ?_⟩
  · rw [expected, if_pos (Or.inr rfl), Selected.seen]
    dsimp only
    rw [map_none_eq rfl]
  · obtain ⟨t, _, rfl⟩ := List.mem_map.mp hc
    cases hc'
  · rw [hs] at hf
    cases hf

def finished {ρ : Type} (r : Rows ρ) : Selected ρ :=
  if r.code ≠ .ok ∨ r.rowsNum = 0 then ⟨r.code, some r.rowsNum, r.containers.map fun _ => none⟩
  else ⟨r.code, some r.rowsNum, r.containers.map Prod.snd⟩

theorem finished_sees {ρ : Type} {content : ρ → List Row} {Good : ρ → Prop}
    {rows : List ResultRow} {gathered : SormError × ℕ} {r : Rows ρ} {s' : Db}
    (h : Gathers o content Good ts (fun _ => []) rows 0 gathered r s') :
    Sees content Good ts rows gathered (finished r) s' := by
  have hnum : r.rowsNum = gathered.2 := by rw [h.rowsNum, Nat.zero_add]
  unfold finished
  by_cases hnone : r.code ≠ .ok ∨ r.rowsNum = 0
  · rw [if_pos hnone]
    refine ⟨?_, fun c hc c' hc' => ?_, fun hf => h.code.trans (h.failed hf)⟩
    · unfold expected Selected.seen
      rw [← h.code, ← hnum, if_pos hnone]
      dsimp only
      rw [map_none_eq h.keep.length]
    · obtain ⟨tc, _, rfl⟩ := List.mem_map.mp hc
      cases hc'
  · rw [if_neg hnone]
    refine ⟨?_, fun c hc c' hc' => ?_, fun hf => h.code.trans (h.failed hf)⟩
    · unfold expected Selected.seen
      rw [← h.code, ← hnum, if_neg hnone]
      rw [not_or, not_not] at hnone
      have hcontain := (h.contain (h.code ▸ hnone.1)).perTable
      simp only [List.nil_append, ← hnum] at hcontain
      rw [← hcontain, List.map_map]
      rfl
    · obtain ⟨tc, htc, rfl⟩ := List.mem_map.mp hc
      exact h.keep.good tc htc c' hc'

theorem finishArrays_run {allocator : Allocator} {r : Rows RowArray} :
    o.run (finishArrays allocator r) s = (.ok (finished r), s) := by
  unfold finishArrays finished
  split
  · rw [Outside.run, Prog.run_bind_ok (dropArrays_run allocator r.containers)]
    rfl
  · rfl

theorem finishLists_run {allocator : Allocator} {r : Rows RowList}
    (h : Keep RowList.Complete r.containers ts) :
    o.run (finishLists allocator r) s = (.ok (finished r), s) := by
  unfold finishLists finished
  split
  · rw [Outside.run, Prog.run_bind_ok (dropLists_run allocator h.good)]
    rfl
  · rfl

section SomeCores

variable (conn : Connection) (allocator : Allocator) (h : Handle) {maxRowsNum : ℤ}
  (hpos : 0 ≤ maxRowsNum) (hts : ∀ t ∈ ts, t.tableDesc.Sized) (hs : s.failed = false)

include hpos hts hs

theorem selectSomeArrayCore_run (hle : maxRowsNum ≤ intMax) :
    ∃ r s', o.run (selectSomeArrayCore conn allocator (some h) ts maxRowsNum) s = (r, s') ∧
      CoreSees RowArray.content (fun _ => True) ts s.upcoming (gather ts o.finish maxRowsNum.toNat s.upcoming)
        r s' := by
  unfold selectSomeArrayCore
  rw [assertSome_some, pure_bind]
  by_cases hzero : maxRowsNum = 0
  · rw [if_pos hzero, hzero]
    exact ⟨_, s, rfl, _, rfl, nothing_sees hs⟩
  · rw [if_neg hzero]
    obtain ⟨cs, k, hnew, hcs⟩ := newArrays_run (o := o) (s := s) allocator (by omega) hle hts
    have hstore : Stores o RowArray.content (fun _ => True) ts (storeArrayRow allocator (some h)) := by
      rw [funext (storeArrayRow_eq allocator (some h))]
      exact storeEach_stores fun t ht => storeArrayEntry_stores allocator h t
    obtain ⟨r, s', hrun, hr⟩ := rowLoop_run (h := some h) (s := { s with blocks := k }) conn hstore
      maxRowsNum.toNat 0 hcs hs
    rw [Outside.run, Prog.run_bind_ok hnew]
    simp only [if_true]
    dsimp only at hr
    cases hg : gather ts o.finish maxRowsNum.toNat s.upcoming with
    | error why =>
        rw [hg] at hr
        subst hr
        exact ⟨_, s', Prog.run_bind_error hrun _, rfl⟩
    | ok g =>
        rw [hg] at hr
        obtain ⟨rows, rfl, hgathers⟩ := hr
        rw [Prog.run_bind_ok hrun]
        exact ⟨_, s', finishArrays_run, _, rfl, finished_sees hgathers⟩

omit hpos in
theorem listLoop_run (limit : ℕ) {k : ℕ} {cs : Containers RowList}
    (hcs : Contain RowList.content RowList.Complete (fun _ => []) cs ts) :
    ∃ r s', o.run (do
        let r ← rowLoop conn (some h) (storeListRow allocator (some h)) limit 0 cs
        finishLists allocator r) { s with blocks := k } = (r, s') ∧
      CoreSees RowList.content RowList.Complete ts s.upcoming (gather ts o.finish limit s.upcoming) r s' := by
  have hstore : Stores o RowList.content RowList.Complete ts (storeListRow allocator (some h)) := by
    rw [funext (storeListRow_eq allocator (some h))]
    exact storeEach_stores fun t ht => storeListEntry_stores allocator h (hts t ht)
  obtain ⟨r, s', hrun, hr⟩ := rowLoop_run (h := some h) (s := { s with blocks := k }) conn hstore
    limit 0 hcs hs
  dsimp only at hr
  cases hg : gather ts o.finish limit s.upcoming with
  | error why =>
      rw [hg] at hr
      subst hr
      exact ⟨_, s', Prog.run_bind_error hrun _, rfl⟩
  | ok g =>
      rw [hg] at hr
      obtain ⟨rows, rfl, hgathers⟩ := hr
      rw [Outside.run, Prog.run_bind_ok hrun]
      exact ⟨_, s', finishLists_run hgathers.keep, _, rfl, finished_sees hgathers⟩

omit hpos in
theorem selectSomeListCore_run :
    ∃ r s', o.run (selectSomeListCore conn allocator (some h) ts maxRowsNum) s = (r, s') ∧
      CoreSees RowList.content RowList.Complete ts s.upcoming (gather ts o.finish maxRowsNum.toNat s.upcoming)
        r s' := by
  unfold selectSomeListCore
  rw [assertSome_some, pure_bind]
  by_cases hzero : maxRowsNum = 0
  · rw [if_pos hzero, hzero]
    exact ⟨_, s, rfl, _, rfl, nothing_sees hs⟩
  · rw [if_neg hzero]
    obtain ⟨cs, k, hnew, hcs⟩ := newLists_run (o := o) allocator ts s
    rw [Outside.run, Prog.run_bind_ok hnew]
    simp only [if_true]
    exact listLoop_run conn allocator h hts hs _ hcs

omit hpos in
theorem selectAllListCore_run {rounds : ℕ} (hrounds : s.upcoming.length < rounds)
    (hle : s.upcoming.length ≤ intMax) :
    ∃ r s', o.run (selectAllListCore rounds conn allocator (some h) ts maxRowsNum) s = (r, s') ∧
      CoreSees RowList.content RowList.Complete ts s.upcoming
        (gather ts o.finish (s.upcoming.length + 1) s.upcoming) r s' := by
  unfold selectAllListCore
  rw [assertSome_some, pure_bind]
  obtain ⟨cs, k, hnew, hcs⟩ := newLists_run (o := o) allocator ts s
  have hstore : Stores o RowList.content RowList.Complete ts (storeListRow allocator (some h)) := by
    rw [funext (storeListRow_eq allocator (some h))]
    exact storeEach_stores fun t ht => storeListEntry_stores allocator h (hts t ht)
  rw [Outside.run, Prog.run_bind_ok hnew, ← gather_of_length hrounds]
  simp only [if_true]
  obtain ⟨r, s', hrun, hr⟩ := listLoop_run conn allocator h hts hs rounds (k := k) hcs
  have hloop := allRowsLoop_run (s := { s with blocks := k }) conn allocator hstore rounds 0 hcs
    hrounds (by rwa [Nat.zero_add])
  simp only [Outside.run] at hloop
  refine ⟨r, s', ?_, hr⟩
  rw [← hrun, Outside.run, Prog.run_bind, Prog.run_bind, hloop]

end SomeCores

end Cores

end Sorm
