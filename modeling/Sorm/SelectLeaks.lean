import Sorm.SelectBlocks
import Sorm.SelectOutputs

/-!
# What a select does not give back

A select that fails drops its arrays with the copies that are in their rows, and frees its lists but
not the objects of their entries. Which blocks are left behind is told by what SQLite answers: by
the texts and blobs that were copied, and by whether there was a row at all.
-/

namespace Sorm

open Interaction Monitor

/-- `Acc out` is known when the blocks `out` are out, and goes along with what is obtained and given
back; preparing a statement is none of it. -/
structure Accounts {σ : Type} (M : Monitor Resp σ) (Acc : Multiset Block → σ → Prop) : Prop where
  malloc : ∀ out allocator size, Triple M (Acc out) (malloc allocator size) fun block =>
    Acc (out + blockOf allocator block)
  strdup : ∀ out allocator string, Triple M (Acc out) (strdup allocator string) fun copy =>
    Acc (out + blockOf allocator (copy.map Prod.fst))
  free : ∀ out allocator ptr, Triple M (Acc (out + blockOf allocator ptr)) (free allocator ptr)
    fun _ => Acc out
  prepare : ∀ out sqlStmt, Keeps M (Acc out) (sqlite3Prepare sqlStmt)

def mapBlocks (indexes : List Address) (maps : Address) : Multiset Block :=
  blockOf .libc (some maps) + (indexes.map fun block => blockOf .libc (some block)).sum

section Accounting

variable {σ τ ρ : Type} {M : Monitor Resp σ} {N : Monitor Resp τ} {P : τ → Prop}
  {Acc : Multiset Block → σ → Prop} {out : Multiset Block}

/-- The ledger, beside a monitor to which no block matters. -/
theorem accounts_prod (hlocal : ∀ c : Call, c.isLocal → Keeps N P (perform c))
    (hprepare : ∀ sql n, Keeps N P (perform (.prepare sql n))) :
    Accounts (blockMonitor.prod N) fun out s => Out out s.1 ∧ P s.2 where
  malloc out allocator size := (out_malloc allocator size).prod (keeps_malloc hlocal allocator size)
  strdup out allocator string :=
    (out_strdup allocator string).prod (keeps_strdup hlocal allocator string)
  free out allocator ptr := (out_free allocator ptr).prod (keeps_free hlocal allocator ptr)
  prepare out sqlStmt := by
    have hretry : Keeps N P (sqlite3Prepare sqlStmt) := Keeps.retry _ (hprepare _ _)
    exact (keeps_prepare sqlStmt).prod hretry

variable (h : Accounts M Acc)

include h

theorem Accounts.freeAll (allocator : Allocator) (blocks : List Address) :
    Triple M (Acc (out + (blocks.map fun block => blockOf allocator (some block)).sum))
      (freeAll allocator blocks) fun _ => Acc out := by
  induction blocks with
  | nil => exact Triple.pure fun s hs => by simpa using hs
  | cons block blocks ih =>
      rw [List.map_cons, List.sum_cons, ← add_assoc, add_right_comm]
      exact Triple.bind (h.free _ _ _) fun _ => ih

theorem Accounts.newIndexes (tablesDesc : List TableDescriptor) :
    Triple M (Acc out) (newIndexes tablesDesc) fun r =>
      Acc (out + (r.2.map fun block => blockOf .libc (some block)).sum) := by
  induction tablesDesc generalizing out with
  | nil => exact Triple.pure fun s hs => by simpa using hs
  | cons table tablesDesc ih =>
      unfold Sorm.newIndexes
      apply Triple.bind (h.malloc _ _ _)
      intro block
      cases block with
      | none => exact Triple.pure fun s hs => by simpa [blockOf] using hs
      | some block =>
          apply Triple.bind ih
          intro r
          refine Triple.pure fun s hs => ?_
          rw [List.map_cons, List.sum_cons, ← add_assoc]
          exact hs

theorem Accounts.parseColumnsName (tablesDesc : List TableDescriptor) (columnsName : CString) :
    Triple M (Acc out) (parseColumnsName tablesDesc columnsName) fun r s =>
      Acc out s ∧ r.1 = .ok := by
  apply Triple.bind (h.strdup _ _ _)
  intro copy
  have hof : Triple M (Acc (out + blockOf .libc (copy.map Prod.fst)))
      (Prog.ofExcept (columnsNameToSelectColumns tablesDesc columnsName)) fun r s =>
        Acc (out + blockOf .libc (copy.map Prod.fst)) s ∧ r.1 = .ok :=
    Triple.ofExcept fun r s hr hs => ⟨hs, columnsNameToSelectColumns_code hr⟩
  apply Triple.bind hof
  rintro r s ⟨hs, hr⟩
  exact (Triple.bind (h.free _ _ _) fun _ => Triple.pure fun s hs => ⟨hs, hr⟩) s hs

theorem Accounts.selectReturn (indexes : List Address) (maps : Address) (selected : Selected ρ) :
    Triple M (Acc (out + mapBlocks indexes maps)) (selectReturn indexes maps selected) fun r s =>
      Acc out s ∧ r.rowsOfTables = selected.rowsOfTables := by
  rw [mapBlocks, ← add_assoc]
  apply Triple.bind (h.freeAll .libc indexes)
  intro _
  apply Triple.bind (h.free _ _ _)
  intro _
  split
  · exact Triple.pure fun s hs => ⟨hs, rfl⟩
  · exact Triple.pure fun s hs => ⟨hs, rfl⟩

/-- What `_select` has out when it comes to its core, or gives up before. -/
theorem Accounts.selectOpening (conn : Option Connection) (columnsName filter : Option CString)
    (tables : SelectTables) (wants : List Bool) (rowsNum : Option ℤ) :
    Triple M (Acc out)
      (selectOpening conn columnsName tables wants filter rowsNum : Act (Selected ρ ⊕ RowLoop))
      fun r => Acc (out + r.elim (fun _ => 0) fun loop => mapBlocks loop.indexes loop.maps) := by
  have hrefused : ∀ selected : Selected ρ, Triple M (Acc out)
      (Pure.pure (.inl selected) : Act (Selected ρ ⊕ RowLoop)) fun r =>
        Acc (out + r.elim (fun _ => 0) fun loop => mapBlocks loop.indexes loop.maps) := by
    intro selected
    refine Triple.pure fun s hs => ?_
    rw [Sum.elim_inl, add_zero]
    exact hs
  unfold Sorm.selectOpening
  dsimp only
  split
  · exact hrefused _
  · exact hrefused _
  · exact hrefused _
  · exact hrefused _
  · apply Triple.bind (h.malloc _ _ _)
    intro maps
    cases maps with
    | none =>
        rw [blockOf, add_zero]
        exact hrefused _
    | some maps =>
    apply Triple.bind (h.newIndexes tables.tablesDesc)
    rintro ⟨ok, indexes⟩
    dsimp only
    rw [add_assoc, ← mapBlocks]
    have hfail : ∀ selected : Selected ρ, Triple M (Acc (out + mapBlocks indexes maps)) (do
        let selected ← Sorm.selectReturn indexes maps selected
        return .inl selected : Act (Selected ρ ⊕ RowLoop)) fun r =>
          Acc (out + r.elim (fun _ => 0) fun loop => mapBlocks loop.indexes loop.maps) := by
      intro selected
      apply Triple.bind (h.selectReturn indexes maps selected)
      exact fun selected => (hrefused selected).mono (fun s hs => hs.1) fun _ _ hs => hs
    split
    · split
      · exact Triple.bind (keeps_fail _) fun ret => hfail _
      · apply Triple.bind (h.prepare _ _)
        rintro ⟨ret, handle⟩
        dsimp only
        split
        · exact hfail _
        · apply Triple.bind (Accounts.parseColumnsName h tables.tablesDesc _)
          rintro ⟨ret, selectColumns⟩ s ⟨hs, hret⟩
          dsimp only at hret ⊢
          rw [if_neg (not_not_intro hret)]
          exact hs
    · exact hfail _

end Accounting

section Memory

variable {σ : Type} {M : Monitor Resp σ} {P : σ → Prop}
  (hlocal : ∀ c : Call, c.isLocal → Keeps M P (perform c))

include hlocal

theorem keeps_newArrays (allocator : Allocator) (maxRowsNum : ℤ) (ts : List TableSelect) :
    Keeps M P (newArrays allocator maxRowsNum ts) := by
  induction ts with
  | nil => exact Keeps.pure
  | cons t ts ih =>
      unfold newArrays
      split
      · apply Keeps.bind (keeps_sormNewArray hlocal _ _ _)
        intro block
        split
        · exact Keeps.pure
        · exact Keeps.bind ih fun _ => Keeps.pure
      · exact Keeps.bind ih fun _ => Keeps.pure

theorem keeps_dropArrays (allocator : Allocator) (cs : Containers RowArray) :
    Keeps M P (dropArrays allocator cs) := by
  induction cs with
  | nil => exact Keeps.pure
  | cons tc cs ih => exact Keeps.bind (keeps_free hlocal _ _) fun _ => ih

theorem keeps_dropLists (allocator : Allocator) (cs : Containers RowList) :
    Keeps M P (dropLists allocator cs) := by
  induction cs with
  | nil => exact Keeps.pure
  | cons tc cs ih => exact Keeps.bind (keeps_sormListFree hlocal _ _) fun _ => ih

end Memory

def ColumnDescriptor.copies (column : ColumnDescriptor) (k : ℕ) : SormEvent → Bool
  | ⟨.columnText _ j, some _⟩ => decide (j = k ∧ column.type = .text ∧ column.mem = .heap)
  | ⟨.columnBytes _ j, blobLen⟩ =>
      decide (j = k ∧ column.type = .blob ∧ column.mem = .heap ∧ (blobLen : ℕ) ≠ 0)
  | _ => false

abbrev copies : List TableSelect → SormEvent → Bool := anyColumn ColumnDescriptor.copies

theorem ColumnDescriptor.copies_resultIndex (column : ColumnDescriptor) (k : ℕ) (e : SormEvent)
    (h : column.copies k e) : e.1.resultIndex = some k := by
  obtain ⟨c, r⟩ := e
  cases c with
  | columnText stmt j =>
      cases r with
      | none => cases h
      | some text =>
          have hj := (of_decide_eq_true h).1
          rw [hj]
          rfl
  | columnBytes stmt j =>
      have hj := (of_decide_eq_true h).1
      rw [hj]
      rfl
  | _ => cases h

theorem wanted_of_copies {ts : List TableSelect} {e : SormEvent} (h : copies ts e) :
    ∃ t ∈ ts, t.wanted := by
  obtain ⟨t, ht, h⟩ := List.any_eq_true.mp h
  exact ⟨t, ht, (Bool.and_eq_true_iff.mp h).1⟩

/-- Something has been copied exactly when a copy is out. -/
def Copied (out : Multiset Block) (b : Bool) : Prop := b = true ↔ out ≠ 0

section Copying

variable {ts : List TableSelect} {t : TableSelect} {i : t.tableDesc.Index} {k : ℕ}
  {out : Multiset Block} {P : Bool → Prop}

theorem copies_silent {c : Call} (hc : c.resultIndex = none) :
    Keeps (seen (copies ts)) P (perform c) :=
  keeps_seen (anyColumn_silent ColumnDescriptor.copies_resultIndex hc)

theorem copies_isLocal (c : Call) (hc : c.isLocal) : Keeps (seen (copies ts)) P (perform c) := by
  apply copies_silent
  cases c with
  | malloc | strdup | free => rfl
  | _ => cases hc

/-- The block of a column that has just been marked. -/
theorem copied_marked {allocator : Allocator} {block : Option Address} {b : Bool}
    (h : b = true ↔ out ≠ 0 ∨ block.isSome) :
    Copied (out + markedBlock allocator (true, block)) b := by
  rw [Copied, h, markedBlock, if_pos rfl]
  cases block with
  | none => simp [blockOf]
  | some block => simp [blockOf]

theorem readsColumn_copied (hs : Separate ts) (ht : t ∈ ts) (hw : t.wanted)
    (hi : t.position i = some k) (allocator : Allocator) (h : Option Handle) :
    ReadsColumn (seen (copies ts)) allocator h t.tableDesc i k Slot.zero.mark (Copied out)
      fun mark b => Copied (out + markedBlock allocator mark) b ∧ True := by
  have hcopies : ∀ {e : SormEvent}, e.1.resultIndex = some k →
      copies ts e = (t.tableDesc.column i).copies k e :=
    anyColumn_eq ColumnDescriptor.copies_resultIndex hs ht hw hi
  have htold : ∀ {c : Call}, c.resultIndex = some k → Triple (seen (copies ts)) (Copied out)
      (perform c) fun r b => b = true ↔ out ≠ 0 ∨ (t.tableDesc.column i).copies k ⟨c, r⟩ := by
    intro c hc b hb
    refine (seen_perform.post ?_) b rfl
    rintro r _ rfl
    rw [hcopies hc, Bool.or_eq_true]
    exact or_congr_left hb
  have hnone : ∀ {c : Call}, c.resultIndex = some k →
      (∀ r, (t.tableDesc.column i).copies k ⟨c, r⟩ = false) →
      Keeps (seen (copies ts)) (Copied out) (perform c) :=
    fun hc hno => keeps_seen fun r => (hcopies hc).trans (hno r)
  constructor
  · intro c hc
    cases c with
    | columnType stmt j =>
        obtain ⟨rfl, rfl⟩ := hc
        exact hnone rfl fun r => rfl
    | columnBytes stmt j =>
        obtain ⟨rfl, rfl, hmem⟩ := hc
        exact hnone rfl fun r => decide_eq_false fun h => hmem h.2.2.1
    | columnInt | columnInt64 | columnDouble | columnBlob => exact copies_silent rfl
    | _ => exact hc.elim
  · intro b hb
    rw [markedBlock_zero, add_zero]
    exact ⟨hb, trivial⟩
  · intro hmem
    refine Triple.post (Q := fun _ => Copied out) (hnone rfl fun text => ?_) fun _ b hb _ => hb
    cases text with
    | none => rfl
    | some text => exact decide_eq_false fun h => hmem h.2.2
  · intro htype hmem
    refine ⟨fun text b => b = true ↔ out ≠ 0 ∨ text.isSome, (htold rfl).post ?_, ?_⟩
    · intro text b hb
      rw [hb]
      cases text with
      | none => simp [ColumnDescriptor.copies]
      | some text => simp [ColumnDescriptor.copies, htype, hmem]
    · intro text
      refine (triple_strdup copies_isLocal allocator text).post ?_
      rintro copy b ⟨hb, hsome⟩
      refine ⟨copied_marked ?_, trivial⟩
      rw [Option.isSome_map, hsome]
      exact hb
  · intro htype hmem
    refine ⟨fun blobLen b => b = true ↔ out ≠ 0 ∨ blobLen ≠ 0, (htold rfl).post ?_, ?_, ?_⟩
    · intro blobLen b hb
      rw [hb]
      simp [ColumnDescriptor.copies, htype, hmem]
    · intro b hb
      rw [markedBlock, mark_zero, if_neg Bool.false_ne_true, add_zero]
      exact ⟨by simpa [Copied] using hb, trivial⟩
    · intro blobLen hlen
      refine (triple_malloc copies_isLocal allocator blobLen).post ?_
      rintro block b ⟨hb, hblock⟩
      refine ⟨copied_marked ?_, trivial⟩
      rw [hb, hblock]

theorem copied_storeArrayEntry (hs : Separate ts) (ht : t ∈ ts) (hw : t.wanted)
    (allocator : Allocator) (h : Option Handle) (array : RowArray) :
    Triple (seen (copies ts)) (Copied (out + array.copies allocator))
      (storeArrayEntry allocator h t array)
      fun r => Copied (out + r.2.copies allocator) := by
  have hunread : Unread (enterBlock allocator) (fun _ _ => True)
      (Object.fresh t.tableDesc) t.tableDesc.indexes := by
    intro i _
    exact ⟨fun b => (congrArg (b + ·) (markedBlock_zero allocator)).trans (add_zero b), trivial⟩
  apply Triple.bind (triple_parseSelectResult hunread fun i k b hi =>
    readsColumn_copied hs ht hw hi allocator h)
  rintro ⟨ret, row⟩
  refine Triple.pure fun b hb => ?_
  have hacc := hb.acc
  rw [entered_enterBlock, add_assoc] at hacc
  dsimp only
  rw [RowArray.copies_append]
  exact hacc

end Copying

/-- The containers that are handed out hold `f`, besides `lost` that no caller knows of. Something
of theirs or of that stays out when the caller has released them exactly when `needed`. -/
structure Accounted {ρ : Type} (f g : ρ → Multiset Block) (Good : ρ → Prop) (needed : Prop)
    (out lost : Multiset Block) (rowsOfTables : List (Option ρ)) (s : Option (Multiset Block)) :
    Prop where
  out : Out (out + held f rowsOfTables + lost) s
  apart : lost ≠ 0 → ∀ c ∈ rowsOfTables, c = none
  needed : held g rowsOfTables + lost ≠ 0 ↔ needed
  good : ∀ c, some c ∈ rowsOfTables → Good c

section Cores

variable {ρ σ : Type} {f g : ρ → Multiset Block} {Good : ρ → Prop} {M : Monitor Resp σ}
  {N : σ → Prop} {out : Multiset Block}

theorem accounted_nothing {s : Option (Multiset Block)} {needed : Prop}
    {rowsOfTables : List (Option ρ)} (hs : Out out s) (hneeded : ¬ needed)
    (hnone : ∀ c ∈ rowsOfTables, c = none) :
    Accounted f g Good needed out 0 rowsOfTables s := by
  refine ⟨?_, fun hlost => absurd rfl hlost, ?_, fun c hc => absurd (hnone _ hc) (by simp)⟩
  · rw [held_of_none hnone, add_zero, add_zero]
    exact hs
  · rw [held_of_none hnone, add_zero]
    exact iff_of_false (not_not_intro rfl) hneeded

def HeldOut (f : ρ → Multiset Block) (Good : ρ → Prop) (out : Multiset Block) (cs : Containers ρ)
    (s : Option (Multiset Block)) : Prop :=
  Out (out + held f (cs.map Prod.snd)) s ∧ ∀ t c, (t, some c) ∈ cs → Good c

def Leaves (g : ρ → Multiset Block) (N : σ → Prop) (cs : Containers ρ) (s : σ) : Prop :=
  held g (cs.map Prod.snd) ≠ 0 ↔ N s

theorem out_round {one : TableSelect → ρ → Act (SormError × ρ)}
    {store : Containers ρ → Act (SormError × Containers ρ)}
    (hstore : ∀ cs, store cs = storeEach one cs)
    (hone : ∀ t c (out : Multiset Block), Good c → Triple blockMonitor (Out (out + f c)) (one t c)
      fun r s => Out (out + f r.2) s ∧ Good r.2) (conn : Connection) (h : Option Handle) :
    Round blockMonitor conn h (fun _ => HeldOut f Good out) (fun _ => HeldOut f Good out)
      (fun r => HeldOut f Good out r.containers) store where
  step n cs := by
    refine Triple.post (Q := fun _ => HeldOut f Good out cs) (keeps_step conn h .read) ?_
    intro ret s hs
    split
    · exact hs
    · exact hs
  store n cs := by
    rw [hstore]
    rintro s ⟨hs, hgood⟩
    refine ((triple_storeEach (fun t c out hc => hone t c out hc) cs hgood).post ?_) s hs
    intro r s hr
    split
    · exact ⟨hr.1, hr.2.1⟩
    · exact ⟨hr.1, hr.2.1⟩

theorem accounted_finish {drop : Containers ρ → Act Unit}
    (hdrop : ∀ cs out, Triple blockMonitor (Out (out + held f (cs.map Prod.snd))) (drop cs) fun _ =>
      Out (out + held g (cs.map Prod.snd)))
    (hkeep : ∀ cs P, Keeps M P (drop cs)) (r : Rows ρ) :
    Triple (blockMonitor.prod M)
      (fun s => HeldOut f Good out r.containers s.1 ∧ Leaves g N r.containers s.2)
      (if r.code ≠ .ok ∨ r.rowsNum = 0 then do
        drop r.containers
        return ⟨r.code, some r.rowsNum, r.containers.map fun _ => none⟩
      else return ⟨r.code, some r.rowsNum, r.containers.map Prod.snd⟩ : Act (Selected ρ))
      fun selected s => ∃ lost, Accounted f g Good (N s.2) out lost selected.rowsOfTables s.1 := by
  split
  · have hboth : Triple (blockMonitor.prod M)
        (fun s => HeldOut f Good out r.containers s.1 ∧ Leaves g N r.containers s.2)
        (drop r.containers) fun _ s => Out (out + held g (r.containers.map Prod.snd)) s.1 ∧
          Leaves g N r.containers s.2 :=
      ((hdrop _ _).prod (hkeep r.containers _)).mono (fun s hs => ⟨hs.1.1, hs.2⟩) fun _ _ hs => hs
    apply Triple.bind hboth
    intro _
    refine Triple.pure fun s hs => ⟨held g (r.containers.map Prod.snd), ?_, ?_, ?_, ?_⟩
    · rw [held_map_none, add_zero]
      exact hs.1
    · intro _ c hc
      obtain ⟨_, _, rfl⟩ := List.mem_map.mp hc
      rfl
    · rw [held_map_none, zero_add]
      exact hs.2
    · intro c hc
      obtain ⟨_, _, hc⟩ := List.mem_map.mp hc
      cases hc
  · refine Triple.pure fun s hs => ⟨0, ?_, fun hlost => absurd rfl hlost, ?_, ?_⟩
    · rw [add_zero]
      exact hs.1.1
    · rw [add_zero]
      exact hs.2
    · intro c hc
      obtain ⟨⟨t, c'⟩, htc, rfl⟩ := List.mem_map.mp hc
      exact hs.1.2 t c htc

end Cores

section Arrays

variable {ts : List TableSelect} {out : Multiset Block} (conn : Connection)
  (allocator : Allocator) (h : Option Handle)

def Chosen {ρ : Type} (ts : List TableSelect) (cs : Containers ρ) : Prop :=
  ∀ t c, (t, some c) ∈ cs → t ∈ ts ∧ t.wanted

theorem leaves_copied (cs : Containers RowArray) (b : Bool) :
    Copied (0 + held (RowArray.copies allocator) (cs.map Prod.snd)) b ↔
      Leaves (RowArray.copies allocator) (· = true) cs b := by
  rw [Copied, zero_add]
  exact Iff.comm

theorem out_arrayRound (out : Multiset Block) : Round blockMonitor conn h
    (fun _ => HeldOut (RowArray.blocks allocator) RowArray.Marked out)
    (fun _ => HeldOut (RowArray.blocks allocator) RowArray.Marked out)
    (fun r => HeldOut (RowArray.blocks allocator) RowArray.Marked out r.containers)
    (storeArrayRow allocator h) :=
  out_round (storeArrayRow_eq allocator h) (fun t array _ hgood =>
    out_storeArrayEntry allocator h t array hgood) conn h

theorem copied_round (hs : Separate ts) :
    Round (seen (copies ts)) conn h
      (fun _ cs b => Leaves (RowArray.copies allocator) (· = true) cs b ∧ Chosen ts cs)
      (fun _ cs b => Leaves (RowArray.copies allocator) (· = true) cs b ∧ Chosen ts cs)
      (fun r b => Leaves (RowArray.copies allocator) (· = true) r.containers b)
      (storeArrayRow allocator h) where
  step n cs := by
    have hkeep : Keeps (seen (copies ts))
        (fun b => Leaves (RowArray.copies allocator) (· = true) cs b ∧ Chosen ts cs)
        (sqlite3Step conn h .read) := by
      apply keeps_sqlite3Step
      · intro c hc
        apply copies_silent
        cases c with
        | semP | rdlock | wrlock => rfl
        | _ => cases hc
      · intro c hc
        apply copies_silent
        cases c with
        | semV | rwUnlock => rfl
        | _ => cases hc
      · exact copies_silent rfl
    refine hkeep.post fun ret b hb => ?_
    split
    · exact hb
    · exact hb.1
  store n cs := by
    rw [storeArrayRow_eq]
    rintro b ⟨hb, hchosen⟩
    rw [← leaves_copied] at hb
    have hone : ∀ t (array : RowArray) out, t ∈ ts ∧ t.wanted → Triple (seen (copies ts))
        (Copied (out + array.copies allocator)) (storeArrayEntry allocator h t array) fun r b =>
          Copied (out + r.2.copies allocator) b ∧ t ∈ ts ∧ t.wanted := fun t array out ht =>
      (copied_storeArrayEntry hs ht.1 ht.2 allocator h array).post fun r b hr => ⟨hr, ht⟩
    refine ((triple_storeEach hone cs hchosen).post ?_) b hb
    rintro r b ⟨hr, hchosen, -⟩
    rw [leaves_copied] at hr
    split
    · exact ⟨hr, hchosen⟩
    · exact hr

/-- The arrays as they are allocated hold no copies. -/
theorem leaves_newArrays {r : Bool × Containers RowArray}
    (hr : Allocated (fun array => array.rows = []) ts r) :
    Leaves (RowArray.copies allocator) (· = true) r.2 false := by
  refine iff_of_false (not_not_intro (held_eq_zero.mpr fun array harray => ?_)) Bool.false_ne_true
  rw [RowArray.copies, hr.empty array harray]
  rfl

theorem accounted_someArrayCore (hs : Separate ts) (maxRowsNum : ℤ) :
    Triple (blockMonitor.prod (seen (copies ts))) (fun s => Out out s.1 ∧ s.2 = false)
      (selectSomeArrayCore conn allocator h ts maxRowsNum) fun selected s => ∃ lost,
        Accounted (RowArray.blocks allocator) (RowArray.copies allocator) RowArray.Marked
          (s.2 = true) out lost selected.rowsOfTables s.1 := by
  by_cases hzero : maxRowsNum = 0
  · unfold selectSomeArrayCore
    rw [if_pos hzero]
    apply Triple.bind (keeps_assertSome h)
    rintro _ s ⟨hout, hb⟩
    refine ⟨0, accounted_nothing hout (by simp [hb]) fun c hc => ?_⟩
    obtain ⟨_, _, rfl⟩ := List.mem_map.mp hc
    rfl
  · rw [selectSomeArrayCore_eq conn allocator h hzero]
    apply Triple.bind (keeps_assertSome h)
    intro _
    have hquiet : Keeps (seen (copies ts)) (· = false) (newArrays allocator maxRowsNum ts) :=
      keeps_newArrays copies_isLocal allocator maxRowsNum ts
    have hmarked : ∀ {r : Bool × Containers RowArray},
        Allocated (fun array => array.rows = []) ts r →
        ∀ t c, (t, some c) ∈ r.2 → c.Marked := by
      intro r hr t c hc row hrow
      rw [hr.empty c (List.mem_map_of_mem (f := Prod.snd) hc)] at hrow
      cases hrow
    refine Triple.bind ((out_newArrays allocator maxRowsNum ts).prod hquiet)
      (@triple_coreRest _ _ _ _ (fun r s =>
      HeldOut (RowArray.blocks allocator) RowArray.Marked out r.containers s.1 ∧
        Leaves (RowArray.copies allocator) (· = true) r.containers s.2) _ _ _ ?_ ?_ ?_)
    · rintro cs ⟨s, b⟩ ⟨⟨hout, hcs⟩, hb⟩
      dsimp only at hout hb
      subst hb
      have hloop := ((out_arrayRound conn allocator h out).rowLoop conn h (fun n cs s hs => hs)
        maxRowsNum.toNat 0 cs).prod ((copied_round conn allocator h hs).rowLoop conn h
          (fun n cs b hb => hb.1) maxRowsNum.toNat 0 cs)
      refine (hloop.post fun r s hr => ⟨hr.1.1, hr.2.1⟩) (s, false) ⟨⟨hout, hmarked hcs⟩, ?_, ?_⟩
      · exact leaves_newArrays allocator hcs
      · exact fun t c hc => (hcs.shaped rfl).wanted hc
    · rintro cs ⟨s, b⟩ ⟨⟨hout, hcs⟩, hb⟩
      dsimp only at hout hb
      subst hb
      exact ⟨⟨hout, hmarked hcs⟩, leaves_newArrays allocator hcs⟩
    · intro r
      exact accounted_finish (fun cs out => out_dropArrays allocator cs)
        (fun cs P => keeps_dropArrays copies_isLocal allocator cs) r

end Arrays

def FirstRoomy (ts : List TableSelect) : Prop := ∃ t ∈ ts.find? TableSelect.wanted, t.roomy

theorem firstRoomy_cons {t : TableSelect} {ts : List TableSelect} :
    FirstRoomy (t :: ts) ↔ if t.wanted then t.roomy else FirstRoomy ts := by
  unfold FirstRoomy
  rw [List.find?_cons]
  by_cases hw : t.wanted
  · simp [hw]
  · simp [hw]

theorem shaped_cons {ρ : Type} {ts : List TableSelect} {tc : TableSelect × Option ρ}
    {cs : Containers ρ} (h : Shaped ts (tc :: cs)) :
    ∃ ts', ts = tc.1 :: ts' ∧ tc.2.isSome = tc.1.wanted ∧ Shaped ts' cs := by
  cases ts with
  | nil => cases h
  | cons t ts =>
      obtain ⟨hhead, htail⟩ := List.cons.inj h
      obtain ⟨rfl, hwanted⟩ := Prod.mk.inj hhead
      exact ⟨ts, rfl, hwanted, htail⟩

theorem Shaped.cons {ρ : Type} {ts : List TableSelect} {t : TableSelect} {c : Option ρ}
    {cs : Containers ρ} (h : Shaped ts cs) (hwanted : c.isSome = t.wanted) :
    Shaped (t :: ts) ((t, c) :: cs) := by
  unfold Shaped shape at h ⊢
  rw [List.map_cons, List.map_cons, h, hwanted]

section Objects

variable {σ : Type} {M : Monitor Resp σ} {P : σ → Prop} (allocator : Allocator)
  (h : Option Handle) (hlocal : ∀ c : Call, c.isLocal → Keeps M P (perform c))
  (huse : ∀ c : Call, c.usedStmt = some h → Keeps M P (perform c))

theorem RowList.objects_append (list : RowList) (entry : ListEntry) :
    ({ list with entries := list.entries ++ [entry] } : RowList).objects allocator =
      list.objects allocator + entry.object allocator := by
  unfold RowList.objects
  rw [List.map_append, List.sum_append, List.map_singleton, List.sum_singleton]

include hlocal huse

/-- An entry has an object unless the table has no room for one, and then the row is not stored. -/
theorem objects_storeListEntry (t : TableSelect) (list : RowList) :
    Triple M P (storeListEntry allocator h t list) fun r s => P s ∧
      (t.roomy → r.2.objects allocator ≠ 0) ∧
      (¬ t.roomy → r.1 ≠ .ok ∧ r.2.objects allocator = list.objects allocator) := by
  apply Triple.bind (triple_malloc hlocal allocator sormListSize)
  rintro block s ⟨hs, hblock⟩
  cases block with
  | none => exact absurd (hblock.mpr (by decide)) (by simp)
  | some block =>
      have hnew : Triple M P (sormNew allocator t.tableDesc) fun data s =>
          P s ∧ (data.isSome ↔ t.roomy) :=
        triple_malloc hlocal allocator (mulSizeT t.tableDesc.size 1)
      refine (Triple.bind hnew ?_) s hs
      rintro data s' ⟨hs', hdata⟩
      cases data with
      | none =>
          have hroom : ¬ t.roomy := fun hroom => absurd (hdata.mpr hroom) (by simp)
          refine ⟨hs', fun h => absurd h hroom, fun _ => ⟨SormError.noConfusion, ?_⟩⟩
          rw [RowList.objects_append]
          exact add_zero _
      | some data =>
          have hroom : t.roomy := hdata.mp rfl
          refine (Triple.bind (keeps_parseColumns hlocal huse allocator _ _ _) ?_) s' hs'
          rintro ⟨ret, row⟩
          refine Triple.pure fun s hs => ⟨hs, fun _ => ?_, fun h => absurd hroom h⟩
          rw [RowList.objects_append, ListEntry.object]
          simp [blockOf]

theorem objects_storeListRow {ts : List TableSelect} {cs : Containers RowList}
    (hcs : Shaped ts cs) :
    Triple M P (storeListRow allocator h cs) fun r s => P s ∧ Shaped ts r.2 ∧
      (held (RowList.objects allocator) (r.2.map Prod.snd) ≠ 0 ↔
        FirstRoomy ts ∨ held (RowList.objects allocator) (cs.map Prod.snd) ≠ 0) := by
  rw [storeListRow_eq]
  induction cs generalizing ts with
  | nil =>
      cases ts with
      | cons t ts => cases hcs
      | nil =>
          refine Triple.pure fun s hs => ⟨hs, rfl, (or_iff_right ?_).symm⟩
          rintro ⟨t, ht, -⟩
          cases ht
  | cons tc cs ih =>
      obtain ⟨ts, rfl, hwanted, hrest⟩ := shaped_cons hcs
      obtain ⟨t, _ | list⟩ := tc
      · have hw : t.wanted = false := hwanted.symm
        unfold storeEach
        apply Triple.bind (ih hrest)
        rintro ⟨ret, cs'⟩
        refine Triple.pure fun s hs => ⟨hs.1, hs.2.1.cons hwanted, ?_⟩
        rw [List.map_cons, List.map_cons, held_none, held_none, firstRoomy_cons, hw]
        exact hs.2.2
      · have hw : t.wanted = true := hwanted.symm
        have hsum : ∀ (l : RowList) (cs : Containers RowList),
            held (RowList.objects allocator) (((t, some l) :: cs).map Prod.snd) ≠ 0 ↔
              l.objects allocator ≠ 0 ∨ held (RowList.objects allocator) (cs.map Prod.snd) ≠ 0 := by
          intro l cs
          rw [List.map_cons, held_some, ne_eq, add_eq_zero, not_and_or]
        unfold storeEach
        apply Triple.bind (objects_storeListEntry allocator h hlocal huse t list)
        rintro ⟨ret, list'⟩ s ⟨hs, hroomy, hnot⟩
        dsimp only at hroomy hnot ⊢
        rw [firstRoomy_cons, hw, if_pos rfl]
        by_cases hret : ret = .ok
        · have hroom : t.roomy := not_not.mp fun h => (hnot h).1 hret
          rw [if_pos hret]
          refine (Triple.bind (ih hrest) ?_) s hs
          rintro ⟨ret, cs'⟩
          refine Triple.pure fun s hs => ⟨hs.1, hs.2.1.cons hwanted, ?_⟩
          rw [hsum]
          exact iff_of_true (Or.inl (hroomy hroom)) (Or.inl hroom)
        · rw [if_neg hret]
          refine ⟨hs, hrest.cons hwanted, ?_⟩
          rw [hsum, hsum]
          by_cases hroom : t.roomy
          · exact iff_of_true (Or.inl (hroomy hroom)) (Or.inl hroom)
          · rw [(hnot hroom).2]
            exact (or_iff_right hroom).symm

end Objects

section Lists

variable {ts : List TableSelect} {out : Multiset Block} (conn : Connection)
  (allocator : Allocator) (h : Option Handle)

def LosesObjects (ts : List TableSelect) (a : SelectAnswers) : Prop := a.rows ≠ 0 ∧ FirstRoomy ts

theorem keeps_rows {n : ℕ} {c : Call} (hc : ∀ h, c ≠ .step h) :
    Keeps (answersMonitor (refuses ts)) (fun a => a.rows = n) (perform c) := by
  apply Triple.perform
  · exact fun a ha => trivial
  · rintro a r a' ha hstep
    have hsame : a'.rows = a.rows := by
      rw [hstep]
      cases c with
      | step h => exact absurd rfl (hc h)
      | _ => rfl
    rw [hsame, ha]

theorem rows_isLocal {n : ℕ} (c : Call) (hc : c.isLocal) :
    Keeps (answersMonitor (refuses ts)) (fun a => a.rows = n) (perform c) := by
  apply keeps_rows
  rintro h rfl
  cases hc

theorem rows_usedStmt {n : ℕ} (c : Call) (hc : c.usedStmt = some h) :
    Keeps (answersMonitor (refuses ts)) (fun a => a.rows = n) (perform c) := by
  apply keeps_rows
  rintro h rfl
  cases hc

theorem objects_round (ts : List TableSelect) :
    Round (answersMonitor (refuses ts)) conn h
      (fun n cs a => a.rows = n ∧ Shaped ts cs ∧
        Leaves (RowList.objects allocator) (LosesObjects ts) cs a)
      (fun n cs a => a.rows = n + 1 ∧ Shaped ts cs ∧
        (held (RowList.objects allocator) (cs.map Prod.snd) ≠ 0 → FirstRoomy ts))
      (fun r a => Leaves (RowList.objects allocator) (LosesObjects ts) r.containers a)
      (storeListRow allocator h) where
  step n cs := by
    rintro a ⟨hrows, hcs, hleaves⟩
    refine ((answers_step conn h .read).post ?_) a rfl
    rintro ret _ rfl
    by_cases hret : ret = .row
    · rw [if_pos hret]
      refine ⟨?_, hcs, fun hheld => (hleaves.mp hheld).2⟩
      rw [SelectAnswers.stepped, if_pos hret, hrows]
    · rw [if_neg hret]
      have hsame : (a.stepped ret).rows = a.rows := by
        rw [SelectAnswers.stepped, if_neg hret]
      unfold Leaves LosesObjects afterStep at *
      rw [hsame]
      exact hleaves
  store n cs := by
    rintro a ⟨hrows, hcs, hheld⟩
    refine ((objects_storeListRow allocator h rows_isLocal (rows_usedStmt h) hcs).post ?_) a hrows
    rintro r a ⟨hrows, hcs, hobjects⟩
    have hleaves : Leaves (RowList.objects allocator) (LosesObjects ts) r.2 a := by
      unfold Leaves LosesObjects
      rw [hobjects, hrows, or_iff_left_of_imp hheld]
      exact (and_iff_right (Nat.succ_ne_zero n)).symm
    split
    · exact ⟨hrows, hcs, hleaves⟩
    · exact hleaves

theorem out_listRound (out : Multiset Block) : Round blockMonitor conn h
    (fun _ => HeldOut (RowList.blocks allocator) RowList.Marked out)
    (fun _ => HeldOut (RowList.blocks allocator) RowList.Marked out)
    (fun r => HeldOut (RowList.blocks allocator) RowList.Marked out r.containers)
    (storeListRow allocator h) :=
  out_round (storeListRow_eq allocator h) (fun t list _ hgood =>
    out_storeListEntry allocator h t list hgood) conn h

def ListsLooped (ts : List TableSelect) (allocator : Allocator) (out : Multiset Block)
    (cs : Containers RowList) (s : Option (Multiset Block) × SelectAnswers) : Prop :=
  HeldOut (RowList.blocks allocator) RowList.Marked out cs s.1 ∧
    Leaves (RowList.objects allocator) (LosesObjects ts) cs s.2

/-- The rest of a list core, once its lists are there. -/
theorem accounted_listCore {loop : Containers RowList → Act (Rows RowList)}
    (hloop : ∀ cs, Triple (blockMonitor.prod (answersMonitor (refuses ts)))
      (fun s => ListsLooped ts allocator out cs s ∧ s.2.rows = 0 ∧ Shaped ts cs) (loop cs)
      fun r => ListsLooped ts allocator out r.containers) :
    Triple (blockMonitor.prod (answersMonitor (refuses ts)))
      (fun s => Out out s.1 ∧ s.2 = .start) (do
        let _ ← assertSome h
        let r ← newLists allocator ts
        coreRest loop (finishLists allocator) r) fun selected s => ∃ lost,
      Accounted (RowList.blocks allocator) (RowList.objects allocator) RowList.Marked
        (LosesObjects ts s.2) out lost selected.rowsOfTables s.1 := by
  apply Triple.bind (keeps_assertSome h)
  intro _
  have hnew : Keeps (answersMonitor (refuses ts)) (· = .start) (newLists allocator ts) :=
    (answers_newLists allocator ts).post fun _ _ hs => hs.1
  have hlooped : ∀ {r : Bool × Containers RowList} {s : Option (Multiset Block)},
      Out (out + held (RowList.blocks allocator) (r.2.map Prod.snd)) s →
      Allocated (fun list => list.entries = []) ts r →
      ListsLooped ts allocator out r.2 (s, .start) := by
    intro r s hout hr
    refine ⟨⟨hout, fun t list hc entry hentry => ?_⟩, iff_of_false ?_ fun hlost => hlost.1 rfl⟩
    · rw [hr.empty list (List.mem_map_of_mem (f := Prod.snd) hc)] at hentry
      cases hentry
    · refine not_not_intro (held_eq_zero.mpr fun list hlist => ?_)
      rw [RowList.objects, hr.empty list hlist]
      rfl
  refine Triple.bind ((out_newLists allocator ts).prod hnew) (@triple_coreRest _ _ _ _
    (fun r => ListsLooped ts allocator out r.containers) _ _ _ ?_ ?_ ?_)
  · rintro cs ⟨s, a⟩ ⟨⟨hout, hcs⟩, ha⟩
    dsimp only at hout ha
    subst ha
    exact hloop cs _ ⟨hlooped hout hcs, rfl, hcs.shaped rfl⟩
  · rintro cs ⟨s, a⟩ ⟨⟨hout, hcs⟩, ha⟩
    dsimp only at hout ha
    subst ha
    exact hlooped hout hcs
  · intro r
    exact accounted_finish (fun cs out => out_dropLists allocator cs)
      (fun cs P => keeps_dropLists answers_isLocal allocator cs) r

theorem accounted_someListCore (maxRowsNum : ℤ) :
    Triple (blockMonitor.prod (answersMonitor (refuses ts)))
      (fun s => Out out s.1 ∧ s.2 = .start)
      (selectSomeListCore conn allocator h ts maxRowsNum) fun selected s => ∃ lost,
        Accounted (RowList.blocks allocator) (RowList.objects allocator) RowList.Marked
          (LosesObjects ts s.2) out lost selected.rowsOfTables s.1 := by
  by_cases hzero : maxRowsNum = 0
  · unfold selectSomeListCore
    rw [if_pos hzero]
    apply Triple.bind (keeps_assertSome h)
    rintro _ s ⟨hout, ha⟩
    refine ⟨0, accounted_nothing hout (by simp [ha, LosesObjects, SelectAnswers.start]) ?_⟩
    intro c hc
    obtain ⟨_, _, rfl⟩ := List.mem_map.mp hc
    rfl
  · rw [selectSomeListCore_eq conn allocator h hzero]
    apply accounted_listCore
    intro cs
    have hloop := ((out_listRound conn allocator h out).rowLoop conn h (fun n cs s hs => hs)
      maxRowsNum.toNat 0 cs).prod ((objects_round conn allocator h ts).rowLoop conn h
        (fun n cs a ha => ha.2.2) maxRowsNum.toNat 0 cs)
    exact hloop.mono (fun s hs => ⟨hs.1.1, hs.2.1, hs.2.2, hs.1.2⟩)
      fun r s hr => ⟨hr.1.1, hr.2.1⟩

theorem accounted_allListCore (rounds : ℕ) (maxRowsNum : ℤ) :
    Triple (blockMonitor.prod (answersMonitor (refuses ts)))
      (fun s => Out out s.1 ∧ s.2 = .start)
      (selectAllListCore rounds conn allocator h ts maxRowsNum) fun selected s => ∃ lost,
        Accounted (RowList.blocks allocator) (RowList.objects allocator) RowList.Marked
          (LosesObjects ts s.2) out lost selected.rowsOfTables s.1 := by
  rw [selectAllListCore_eq]
  apply accounted_listCore
  intro cs
  have hloop := ((out_listRound conn allocator h out).allRowsLoop conn h rounds 0 cs).prod
    ((objects_round conn allocator h ts).allRowsLoop conn h rounds 0 cs)
  exact hloop.mono (fun s hs => ⟨hs.1.1, hs.2.1, hs.2.2, hs.1.2⟩) fun r s hr => hr

end Lists

section Select

variable {ρ σ : Type} {f g : ρ → Multiset Block} {Good : ρ → Prop} {M : Monitor Resp σ}
  {selectCore : SelectCore ρ} {allocator : Allocator}
  {columnsName filter : Option CString} {tables : SelectTables} {wants : List Bool}
  {rowsNum : Option ℤ} {ts : List TableSelect}

/-- What the opening comes to does not depend on who watches. -/
theorem selectOpening_results {conn : Option Connection} {tr : List SormEvent}
    {r : Selected ρ ⊕ RowLoop}
    (he : (selectOpening (ρ := ρ) conn columnsName tables wants filter rowsNum).Emits tr
      (.pure r)) :
    r.elim (fun selected => ∀ c ∈ selected.rowsOfTables, c = none) fun loop =>
      loop.tables = selectedTables columnsName tables wants ∧ Separate loop.tables := by
  have hopening : Triple (answersMonitor (refuses [])) (· = .start)
      (selectOpening (ρ := ρ) conn columnsName tables wants filter rowsNum) _ :=
    answers_selectOpening conn
  have hanswers := hopening.returns rfl he (fold_run _ tr)
  cases r with
  | inl selected => exact hanswers.2.2
  | inr loop => exact hanswers.2.2

/-- What a core accounts for, `_select` accounts for, besides its column maps. -/
theorem accounted_select (start : σ) (needed : σ → Prop) {conn : Option Connection}
    (hlocal : ∀ (P : σ → Prop) (c : Call), c.isLocal → Keeps M P (perform c))
    (hprepare : ∀ (P : σ → Prop) sql n, Keeps M P (perform (.prepare sql n)))
    (hfinalize : ∀ (p : Prop) h code, Keeps M (fun s => needed s ↔ p) (dbFinalize h code))
    (hstart : ¬ needed start) (hts : ts = selectedTables columnsName tables wants)
    (hcore : Separate ts → ∀ out conn h n, Triple (blockMonitor.prod M)
      (fun s => Out out s.1 ∧ s.2 = start) (selectCore conn allocator h ts n) fun selected s =>
        ∃ lost, Accounted f g Good (needed s.2) out lost selected.rowsOfTables s.1) :
    Triple (blockMonitor.prod M) (fun s => Out 0 s.1 ∧ s.2 = start)
      (select selectCore conn allocator columnsName tables wants filter rowsNum) fun selected s =>
        ∃ lost, Accounted f g Good (needed s.2) 0 lost selected.rowsOfTables s.1 := by
  rw [select_eq]
  have haccounts : Accounts (blockMonitor.prod M) fun out s => Out out s.1 ∧ s.2 = start :=
    accounts_prod (P := (· = start)) (hlocal _) (hprepare _)
  apply Triple.bind ((haccounts.selectOpening conn columnsName filter tables wants rowsNum).results
    fun tr r he => selectOpening_results he)
  rintro (selected | loop) s ⟨⟨hout, hs⟩, hopening⟩
  · rw [Sum.elim_inl, add_zero] at hout
    exact ⟨0, accounted_nothing hout (hs ▸ hstart) hopening⟩
  · rw [Sum.elim_inr] at hout hopening
    obtain ⟨htables, hseparate⟩ := hopening
    rw [htables, ← hts] at hseparate
    dsimp only [selectRest]
    rw [htables, ← hts]
    refine (Triple.bind (hcore hseparate _ loop.conn loop.stmtHandle loop.maxRowsNum) ?_) s
      ⟨hout, hs⟩
    rintro selected s ⟨lost, haccounted⟩
    refine (Triple.bind ((keeps_finalize loop.stmtHandle selected.code).prod (hfinalize
      (held g selected.rowsOfTables + lost ≠ 0) loop.stmtHandle selected.code)) ?_) s
        ⟨haccounted.out, haccounted.needed.symm⟩
    rintro code s ⟨hout, hneeded⟩
    have haccounts' : Accounts (blockMonitor.prod M) fun out s => Out out s.1 ∧
        (needed s.2 ↔ held g selected.rowsOfTables + lost ≠ 0) :=
      accounts_prod (P := fun a => needed a ↔ held g selected.rowsOfTables + lost ≠ 0) (hlocal _)
        (hprepare _)
    have hmaps : Out (held f selected.rowsOfTables + lost +
        mapBlocks loop.indexes loop.maps) s.1 := hout.congr (by abel)
    refine ((haccounts'.selectReturn loop.indexes loop.maps _).post ?_) s ⟨hmaps, hneeded⟩
    rintro r s ⟨⟨hout, hneeded⟩, hrows⟩
    refine ⟨lost, ?_⟩
    rw [hrows]
    exact ⟨hout.congr (by rw [zero_add]), haccounted.apart, hneeded.symm, haccounted.good⟩

/-- Finalizing a statement counts no rows. -/
theorem rows_finalize (p : Prop) (h : Option Handle) (code : SormError) :
    Keeps (answersMonitor (refuses ts)) (fun a => LosesObjects ts a ↔ p) (dbFinalize h code) := by
  intro a ha
  refine ((answers_dbFinalize h code).post ?_) a rfl
  rintro r _ ⟨ret, rfl, -⟩
  exact ha

theorem accounted_someArray {conn : Option Connection}
    (hts : ts = selectedTables columnsName tables wants) :
    Triple (blockMonitor.prod (seen (copies ts))) (fun s => Out 0 s.1 ∧ s.2 = false)
      (sormSelectSomeArrayBy conn allocator tables columnsName filter rowsNum wants)
      fun selected s => ∃ lost, Accounted (RowArray.blocks allocator) (RowArray.copies allocator)
        RowArray.Marked (s.2 = true) 0 lost selected.rowsOfTables s.1 := by
  have hfinalize : ∀ (p : Prop) h code,
      Keeps (seen (copies ts)) (fun b => b = true ↔ p) (dbFinalize h code) := by
    intro p h code
    have hretry : Keeps (seen (copies ts)) (fun b => b = true ↔ p) (sqlite3Finalize h) :=
      Keeps.retry _ (copies_silent rfl)
    apply Keeps.bind hretry
    intro ret
    split
    · exact Keeps.pure
    · exact Keeps.pure
  exact accounted_select false (· = true) (fun _ c hc => copies_isLocal c hc)
    (fun _ _ _ => copies_silent rfl) hfinalize Bool.false_ne_true hts
    fun hs out conn h n => accounted_someArrayCore conn allocator h hs n

theorem accounted_list {conn : Option Connection} {selectCore : SelectCore RowList}
    (hts : ts = selectedTables columnsName tables wants)
    (hcore : ∀ out conn h n, Triple (blockMonitor.prod (answersMonitor (refuses ts)))
      (fun s => Out out s.1 ∧ s.2 = .start) (selectCore conn allocator h ts n) fun selected s =>
        ∃ lost, Accounted (RowList.blocks allocator) (RowList.objects allocator) RowList.Marked
          (LosesObjects ts s.2) out lost selected.rowsOfTables s.1) :
    Triple (blockMonitor.prod (answersMonitor (refuses ts))) (fun s => Out 0 s.1 ∧ s.2 = .start)
      (select selectCore conn allocator columnsName tables wants filter rowsNum)
      fun selected s => ∃ lost, Accounted (RowList.blocks allocator) (RowList.objects allocator)
        RowList.Marked (LosesObjects ts s.2) 0 lost selected.rowsOfTables s.1 :=
  accounted_select .start (LosesObjects ts) (fun _ c hc => answers_isLocal c hc)
    (fun _ _ _ => answers_silent rfl) rows_finalize (fun hlost => hlost.1 rfl) hts fun _ => hcore

end Select

end Sorm
