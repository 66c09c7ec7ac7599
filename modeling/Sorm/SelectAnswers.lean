import Sorm.Blocks
import Sorm.SelectRuns

/-!
# What SQLite answers a select

Whether the row loop of a select comes to its end well is told by the answers alone: by the last
step, and by the values that were read, since a value that its column cannot take ends the loop.
For that a result position has to belong to one column only.
-/

namespace Sorm

open Interaction Monitor

def ColumnDescriptor.unreadable (column : ColumnDescriptor) : Bool :=
  match column.type with
  | .text | .blob => decide (column.mem = .none)
  | .unknown _ => true
  | _ => false

def ColumnDescriptor.refuses (column : ColumnDescriptor) (k : ℕ) : SormEvent → Bool
  | ⟨.columnType _ j, columnClass⟩ =>
      decide (j = k ∧ columnClass ≠ .null ∧ column.unreadable = true)
  | ⟨.columnText _ j, some text⟩ =>
      decide (j = k ∧ column.type = .text ∧ column.mem = .stack ∧
        (text.chars.length : ℤ) > column.maxLen)
  | ⟨.columnBytes _ j, blobLen⟩ =>
      decide (j = k ∧ column.type = .blob ∧ column.mem = .stack ∧
        ((blobLen : ℕ) : ℤ) > column.maxLen)
  | _ => false

def TableSelect.position (t : TableSelect) (i : t.tableDesc.Index) : Option ℕ :=
  t.selectColumns.indexesInResult[i.val]?.join

def anyColumn (p : ColumnDescriptor → ℕ → SormEvent → Bool) (ts : List TableSelect)
    (e : SormEvent) : Bool :=
  ts.any fun t => t.wanted && t.tableDesc.indexes.any fun i =>
    (t.position i).any fun k => p (t.tableDesc.column i) k e

abbrev refuses : List TableSelect → SormEvent → Bool := anyColumn ColumnDescriptor.refuses

/-- No result position belongs to two columns. -/
structure Separate (ts : List TableSelect) : Prop where
  own : ∀ t ∈ ts, ∀ i j k, t.position i = some k → t.position j = some k → i = j
  apart : ts.Pairwise fun t t' => ∀ i j k, t.position i = some k → t'.position j ≠ some k

/-- How many rows SQLite has answered with, its last answer to a step, whether a value was refused,
and its last answer to a finalize. -/
structure SelectAnswers where
  rows : ℕ
  last : Option DbCode
  refused : Bool
  finalized : Option DbCode
deriving DecidableEq

namespace SelectAnswers

def start : SelectAnswers := ⟨0, none, false, none⟩

def stepped (a : SelectAnswers) (ret : DbCode) : SelectAnswers :=
  { a with rows := if ret = .row then a.rows + 1 else a.rows, last := some ret }

def refusing (a : SelectAnswers) (refused : Bool) : SelectAnswers :=
  { a with refused := a.refused || refused }

def after (refused : SormEvent → Bool) (a : SelectAnswers) : SormEvent → SelectAnswers
  | ⟨.step _, ret⟩ => a.stepped ret
  | ⟨.finalize _, ret⟩ => { a with finalized := some ret }
  | e => a.refusing (refused e)

@[simp] theorem refusing_false (a : SelectAnswers) : a.refusing false = a := by
  unfold refusing
  rw [Bool.or_false]

@[simp] theorem refusing_refusing (a : SelectAnswers) (b b' : Bool) :
    (a.refusing b).refusing b' = a.refusing (b || b') := by
  unfold refusing
  rw [Bool.or_assoc]

end SelectAnswers

def answersMonitor (refused : SormEvent → Bool) : Monitor Resp SelectAnswers :=
  .fold (fun _ _ => True) (SelectAnswers.after refused)

def answers (refused : SormEvent → Bool) (tr : List SormEvent) : SelectAnswers :=
  tr.foldl (SelectAnswers.after refused) .start

def Call.resultIndex : Call → Option ℕ
  | .columnType _ k | .columnText _ k | .columnBytes _ k => some k
  | _ => none

def Call.isSilent : Call → Bool
  | .step _ | .finalize _ | .columnType _ _ | .columnText _ _ | .columnBytes _ _ => false
  | _ => true

theorem ColumnDescriptor.refuses_resultIndex (column : ColumnDescriptor) (k : ℕ) (e : SormEvent)
    (h : column.refuses k e) : e.1.resultIndex = some k := by
  obtain ⟨c, r⟩ := e
  cases c with
  | columnType stmt j =>
      have hj := (of_decide_eq_true h).1
      rw [hj]
      rfl
  | columnText stmt j =>
      cases r with
      | none => cases h
      | some text =>
          have hj := (of_decide_eq_true h).1
          rw [hj]
          rfl
  | columnBytes stmt j =>
      have hj := (of_decide_eq_true h).1
      rw [hj]
      rfl
  | _ => cases h

section AnyColumn

variable {p : ColumnDescriptor → ℕ → SormEvent → Bool} {ts : List TableSelect}
  (hp : ∀ column k e, p column k e → e.1.resultIndex = some k)

include hp

theorem anyColumn_silent {c : Call} (hc : c.resultIndex = none) (r : Resp c) :
    anyColumn p ts ⟨c, r⟩ = false := by
  have hcolumn : ∀ (column : ColumnDescriptor) k, p column k ⟨c, r⟩ = false := by
    intro column k
    rw [Bool.eq_false_iff]
    intro h
    rw [hp _ _ _ h] at hc
    cases hc
  unfold anyColumn
  simp [hcolumn]

variable {t : TableSelect} {k : ℕ}

omit hp in
theorem Separate.unique {t' : TableSelect} (hs : Separate ts) (ht : t ∈ ts) (ht' : t' ∈ ts)
    {i : t.tableDesc.Index} {i' : t'.tableDesc.Index} (hi : t.position i = some k)
    (hi' : t'.position i' = some k) :
    (⟨t, i⟩ : Σ t : TableSelect, t.tableDesc.Index) = ⟨t', i'⟩ := by
  by_cases heq : t = t'
  · subst heq
    rw [hs.own t ht i i' k hi hi']
  · have hsymm : Std.Symm fun t t' : TableSelect =>
        ∀ i j k, t.position i = some k → t'.position j ≠ some k :=
      ⟨fun t t' h i j k hi hj => h j i k hj hi⟩
    exact absurd hi' (hs.apart.forall ht ht' heq i i' k hi)

/-- The answers at a column's position decide about this column only. -/
theorem anyColumn_eq (hs : Separate ts) (ht : t ∈ ts) (hw : t.wanted) {i : t.tableDesc.Index}
    (hi : t.position i = some k) {e : SormEvent} (he : e.1.resultIndex = some k) :
    anyColumn p ts e = p (t.tableDesc.column i) k e := by
  rw [Bool.eq_iff_iff]
  constructor
  · intro h
    obtain ⟨t', ht', h⟩ := List.any_eq_true.mp h
    obtain ⟨-, h⟩ := Bool.and_eq_true_iff.mp h
    obtain ⟨i', -, h⟩ := List.any_eq_true.mp h
    cases hposition : t'.position i' with
    | none =>
        rw [hposition] at h
        cases h
    | some k' =>
        rw [hposition] at h
        have hk : k' = k := Option.some_inj.mp ((hp _ _ _ h).symm.trans he)
        subst hk
        cases hs.unique ht ht' hi hposition
        exact h
  · intro h
    apply List.any_eq_true.mpr
    refine ⟨t, ht, ?_⟩
    rw [hw, Bool.true_and]
    apply List.any_eq_true.mpr
    refine ⟨i, List.mem_finRange i, ?_⟩
    rw [hi]
    exact h

end AnyColumn

section Calls

variable {ts : List TableSelect} {a : SelectAnswers} {P : SelectAnswers → Prop}

theorem answers_silent {c : Call} (hc : c.isSilent) :
    Keeps (answersMonitor (refuses ts)) P (perform c) := by
  have hindex : c.resultIndex = none := by
    cases c with
    | columnType | columnText | columnBytes => cases hc
    | _ => rfl
  apply Triple.perform
  · exact fun a ha => trivial
  · intro a r a' ha hstep
    have hsame : a' = a := by
      rw [hstep]
      have hafter : SelectAnswers.after (refuses ts) a ⟨c, r⟩ = a.refusing (refuses ts ⟨c, r⟩) := by
        cases c with
        | step | finalize => cases hc
        | _ => rfl
      have hnone : refuses ts ⟨c, r⟩ = false :=
        anyColumn_silent ColumnDescriptor.refuses_resultIndex hindex r
      rw [hafter, hnone, SelectAnswers.refusing_false]
    rw [hsame]
    exact ha

theorem answers_isLocal (c : Call) (hc : c.isLocal) :
    Keeps (answersMonitor (refuses ts)) P (perform c) := by
  apply answers_silent
  cases c with
  | malloc | strdup | free => rfl
  | _ => cases hc

theorem answers_step (conn : Connection) (h : Option Handle) (rwFlag : RwlockFlag) :
    Triple (answersMonitor (refuses ts)) (· = a) (sqlite3Step conn h rwFlag) fun ret a' =>
      a' = a.stepped ret := by
  have hlock : Keeps (answersMonitor (refuses ts)) (· = a) (lock conn rwFlag) := by
    apply keeps_lock
    intro c hc
    apply answers_silent
    cases c with
    | semP | rdlock | wrlock => rfl
    | _ => cases hc
  have hunlock : ∀ a', Keeps (answersMonitor (refuses ts)) (· = a') (unlock conn) := by
    intro a'
    apply keeps_unlock
    intro c hc
    apply answers_silent
    cases c with
    | semV | rwUnlock => rfl
    | _ => cases hc
  have hretry : Triple (answersMonitor (refuses ts)) (· = a)
      (Prog.retry (fun ret : DbCode => ret == .busy) (perform (.step h)) (busyRetryTime - 1))
      fun ret a' => a' = a.stepped ret := by
    have hsteps : Triple (answersMonitor (refuses ts)) (fun s => ∃ last, s = { a with last })
        (Prog.retry (fun ret : DbCode => ret == .busy) (perform (.step h)) (busyRetryTime - 1))
        fun ret a' => a' = a.stepped ret := by
      apply Triple.retry
      apply Triple.perform
      · exact fun s hs => trivial
      · rintro s ret s' ⟨last, rfl⟩ hstep
        have hs' : s' = a.stepped ret := hstep
        by_cases hbusy : ret = .busy
        · subst hbusy
          exact ⟨⟨some .busy, hs'⟩, hs'⟩
        · rw [if_neg (by simpa using hbusy)]
          exact hs'
    exact hsteps.mono (fun s hs => ⟨a.last, hs⟩) fun _ _ hs => hs
  by_cases h0 : conn.transactionNum = 0
  · rw [sqlite3Step_outside h0]
    apply Triple.bind hlock
    intro _
    apply Triple.bind hretry
    intro ret
    exact Triple.bind (hunlock _) fun _ => Triple.pure fun s hs => hs
  · rw [sqlite3Step_inside h0]
    exact hretry

theorem answers_dbFinalize (h : Option Handle) (code : SormError) :
    Triple (answersMonitor (refuses ts)) (· = a) (dbFinalize h code) fun r a' =>
      ∃ ret, a' = { a with finalized := some ret } ∧ r = if ret = .ok then code else .dbError := by
  have hretry : Triple (answersMonitor (refuses ts)) (fun s => ∃ finalized, s = { a with finalized })
      (sqlite3Finalize h) fun ret a' => a' = { a with finalized := some ret } := by
    apply Triple.retry
    apply Triple.perform
    · exact fun s hs => trivial
    · rintro s ret s' ⟨finalized, rfl⟩ hstep
      have hs' : s' = { a with finalized := some ret } := hstep
      split
      · exact ⟨⟨some ret, hs'⟩, hs'⟩
      · exact hs'
  apply Triple.bind (hretry.mono (fun s hs => ⟨a.finalized, hs⟩) fun _ _ hs => hs)
  intro ret
  split
  · next hret => exact Triple.pure fun s hs => ⟨ret, hs, by rw [if_pos hret]⟩
  · next hret => exact Triple.pure fun s hs => ⟨ret, hs, by rw [if_neg hret]⟩

end Calls

section Reading

variable {ts : List TableSelect} {a : SelectAnswers} {t : TableSelect} {k : ℕ}

theorem answers_column (hs : Separate ts) (ht : t ∈ ts) (hw : t.wanted) {i : t.tableDesc.Index}
    (hi : t.position i = some k) {c : Call} (hc : c.resultIndex = some k) :
    Triple (answersMonitor (refuses ts)) (· = a) (perform c) fun r a' =>
      a' = a.refusing ((t.tableDesc.column i).refuses k ⟨c, r⟩) := by
  apply Triple.perform
  · exact fun a ha => trivial
  · rintro a r a' rfl hstep
    have hafter : SelectAnswers.after (refuses ts) a ⟨c, r⟩ = a.refusing (refuses ts ⟨c, r⟩) := by
      cases c with
      | step | finalize => cases hc
      | _ => rfl
    rw [← anyColumn_eq ColumnDescriptor.refuses_resultIndex hs ht hw hi hc, ← hafter]
    exact hstep

variable (allocator : Allocator) (h : Option Handle)

theorem answers_sqlite3ColumnText (hs : Separate ts) (ht : t ∈ ts) (hw : t.wanted)
    {i : t.tableDesc.Index} (hi : t.position i = some k) (obj : Object t.tableDesc)
    (htype : (t.tableDesc.column i).type = .text) :
    Triple (answersMonitor (refuses ts)) (· = a.refusing (t.tableDesc.column i).unreadable)
      (sqlite3ColumnText allocator obj h i k) fun r a' =>
        a' = a.refusing (decide (r.1 ≠ .ok)) := by
  cases hmem : (t.tableDesc.column i).mem with
  | heap =>
    have hunreadable : (t.tableDesc.column i).unreadable = false := by
      simp [ColumnDescriptor.unreadable, htype, hmem]
    have htext : Triple (answersMonitor (refuses ts)) (· = a)
        (perform (.columnText h k)) fun _ a' => a' = a := by
      refine (answers_column hs ht hw hi rfl).post fun text a' ha => ?_
      rw [ha]
      cases text with
      | none => exact SelectAnswers.refusing_false a
      | some text => simp [ColumnDescriptor.refuses, hmem]
    unfold sqlite3ColumnText
    simp only [hmem, hunreadable, SelectAnswers.refusing_false]
    apply Triple.bind htext
    intro text
    apply Triple.bind (keeps_strdup answers_isLocal allocator text)
    intro copy
    refine Triple.pure fun a' ha => ?_
    rw [ha]
    exact (SelectAnswers.refusing_false a).symm
  | stack =>
    have hunreadable : (t.tableDesc.column i).unreadable = false := by
      simp [ColumnDescriptor.unreadable, htype, hmem]
    have hblob : Keeps (answersMonitor (refuses ts)) (· = a) (perform (.columnBlob h k)) :=
      answers_silent rfl
    unfold sqlite3ColumnText
    simp only [hmem, hunreadable, SelectAnswers.refusing_false]
    apply Triple.bind hblob
    intro blob
    cases blob with
    | none =>
        refine Triple.pure fun a' ha => ?_
        rw [ha]
        exact (SelectAnswers.refusing_false a).symm
    | some blob =>
        apply Triple.bind (answers_column hs ht hw hi rfl)
        intro text
        cases text with
        | none => exact Triple.stop
        | some text =>
            have hrefuses : (t.tableDesc.column i).refuses k ⟨.columnText h k, some text⟩ =
                decide ((text.chars.length : ℤ) > (t.tableDesc.column i).maxLen) := by
              simp [ColumnDescriptor.refuses, htype, hmem]
            simp only [hrefuses]
            split
            · next hlong =>
              refine Triple.pure fun a' ha => ?_
              simp [ha, hlong]
            · next hlong =>
              refine Triple.pure fun a' ha => ?_
              simp [ha, hlong]
  | none =>
    have hunreadable : (t.tableDesc.column i).unreadable = true := by
      simp [ColumnDescriptor.unreadable, htype, hmem]
    unfold sqlite3ColumnText
    simp only [hmem, hunreadable]
    exact Triple.pure fun a' ha => ha

theorem answers_sqlite3ColumnBlob (hs : Separate ts) (ht : t ∈ ts) (hw : t.wanted)
    {i : t.tableDesc.Index} (hi : t.position i = some k) (obj : Object t.tableDesc)
    (htype : (t.tableDesc.column i).type = .blob) :
    Triple (answersMonitor (refuses ts)) (· = a.refusing (t.tableDesc.column i).unreadable)
      (sqlite3ColumnBlob allocator obj h i k) fun r a' =>
        a' = a.refusing (decide (r.1 ≠ .ok)) := by
  have hblob : ∀ a, Keeps (answersMonitor (refuses ts)) (· = a) (perform (.columnBlob h k)) :=
    fun a => answers_silent rfl
  cases hmem : (t.tableDesc.column i).mem with
  | heap =>
    have hunreadable : (t.tableDesc.column i).unreadable = false := by
      simp [ColumnDescriptor.unreadable, htype, hmem]
    have hbytes : Triple (answersMonitor (refuses ts)) (· = a)
        (perform (.columnBytes h k)) fun _ a' => a' = a := by
      refine (answers_column hs ht hw hi rfl).post fun blobLen a' ha => ?_
      rw [ha]
      simp [ColumnDescriptor.refuses, hmem]
    unfold sqlite3ColumnBlob
    simp only [hmem, hunreadable, SelectAnswers.refusing_false]
    apply Triple.bind (hblob a)
    intro blobDb
    apply Triple.bind hbytes
    intro blobLen
    apply Triple.bind (keeps_malloc answers_isLocal allocator blobLen)
    intro blob
    refine Triple.pure fun a' ha => ?_
    rw [ha]
    exact (SelectAnswers.refusing_false a).symm
  | stack =>
    have hunreadable : (t.tableDesc.column i).unreadable = false := by
      simp [ColumnDescriptor.unreadable, htype, hmem]
    unfold sqlite3ColumnBlob
    simp only [hmem, hunreadable, SelectAnswers.refusing_false]
    apply Triple.bind (hblob a)
    intro blobDb
    apply Triple.bind (answers_column hs ht hw hi rfl)
    intro blobLen
    have hrefuses : (t.tableDesc.column i).refuses k ⟨.columnBytes h k, blobLen⟩ =
        decide (((blobLen : ℕ) : ℤ) > (t.tableDesc.column i).maxLen) := by
      simp [ColumnDescriptor.refuses, htype, hmem]
    simp only [hrefuses]
    split
    · next hlong =>
      refine Triple.pure fun a' ha => ?_
      simp [ha, hlong]
    · next hlong =>
      refine Triple.pure fun a' ha => ?_
      simp [ha, hlong]
  | none =>
    have hunreadable : (t.tableDesc.column i).unreadable = true := by
      simp [ColumnDescriptor.unreadable, htype, hmem]
    unfold sqlite3ColumnBlob
    simp only [hmem, hunreadable]
    exact Triple.pure fun a' ha => ha

theorem answers_sqlite3Column (hs : Separate ts) (ht : t ∈ ts) (hw : t.wanted)
    {i : t.tableDesc.Index} (hi : t.position i = some k) (obj : Object t.tableDesc) :
    Triple (answersMonitor (refuses ts)) (· = a) (sqlite3Column allocator obj h i k) fun r a' =>
      a' = a.refusing (decide (r.1 ≠ .ok)) := by
  have hrest : ∀ r : SormError × Object t.tableDesc, Triple (answersMonitor (refuses ts))
      (· = a.refusing (decide (r.1 ≠ .ok)))
      (if r.1 = .ok then Pure.pure (.ok, r.2.addColumnStat i sormStatValued)
        else Pure.pure r : Act (SormError × Object t.tableDesc)) fun r a' =>
        a' = a.refusing (decide (r.1 ≠ .ok)) := by
    rintro ⟨ret, obj'⟩
    split
    · next hret =>
      refine Triple.pure fun a' ha => ?_
      rw [ha]
      dsimp only at hret ⊢
      rw [hret]
    · exact Triple.pure fun a' ha => ha
  have hplain : ∀ obj' : Object t.tableDesc, Triple (answersMonitor (refuses ts)) (· = a)
      (Pure.pure (SormError.ok, obj') : Act (SormError × Object t.tableDesc)) fun r a' =>
        a' = a.refusing (decide (r.1 ≠ .ok)) := by
    intro obj'
    refine Triple.pure fun a' ha => ?_
    rw [ha]
    exact (SelectAnswers.refusing_false a).symm
  unfold sqlite3Column
  apply Triple.bind (keeps_assertSome h)
  intro _
  apply Triple.bind (answers_column hs ht hw hi rfl)
  intro columnClass
  by_cases hnull : columnClass = .null
  · rw [if_pos hnull]
    refine Triple.pure fun a' ha => ?_
    rw [ha, hnull]
    simp [ColumnDescriptor.refuses]
  · have hrefuses : (t.tableDesc.column i).refuses k ⟨.columnType h k, columnClass⟩ =
        (t.tableDesc.column i).unreadable := by
      simp [ColumnDescriptor.refuses, hnull]
    rw [if_neg hnull, hrefuses]
    cases htype : (t.tableDesc.column i).type with
    | int =>
        have hreadable : (t.tableDesc.column i).unreadable = false := by
          rw [ColumnDescriptor.unreadable, htype]
        rw [hreadable, SelectAnswers.refusing_false]
        apply Triple.bind (answers_silent rfl)
        intro v
        exact Triple.bind (hplain (obj.setSlot i { obj.slots i with int32 := v })) hrest
    | int64 =>
        have hreadable : (t.tableDesc.column i).unreadable = false := by
          rw [ColumnDescriptor.unreadable, htype]
        rw [hreadable, SelectAnswers.refusing_false]
        apply Triple.bind (answers_silent rfl)
        intro v
        exact Triple.bind (hplain (obj.setSlot i { obj.slots i with int64 := v })) hrest
    | text => exact Triple.bind (answers_sqlite3ColumnText allocator h hs ht hw hi obj htype) hrest
    | double =>
        have hreadable : (t.tableDesc.column i).unreadable = false := by
          rw [ColumnDescriptor.unreadable, htype]
        rw [hreadable, SelectAnswers.refusing_false]
        apply Triple.bind (answers_silent rfl)
        intro v
        exact Triple.bind (hplain (obj.setSlot i { obj.slots i with double := v })) hrest
    | blob => exact Triple.bind (answers_sqlite3ColumnBlob allocator h hs ht hw hi obj htype) hrest
    | unknown code =>
        have hunreadable : (t.tableDesc.column i).unreadable = true := by
          rw [ColumnDescriptor.unreadable, htype]
        rw [hunreadable]
        have hpure : Triple (answersMonitor (refuses ts)) (· = a.refusing true)
            (Pure.pure (SormError.invalidType, obj) : Act (SormError × Object t.tableDesc))
            fun r a' => a' = a.refusing (decide (r.1 ≠ .ok)) := Triple.pure fun a' ha => ha
        exact Triple.bind hpure hrest

/-- A row is read to its end unless one of its values is refused. -/
theorem answers_parseColumns (hs : Separate ts) (ht : t ∈ ts) (hw : t.wanted)
    (is : List t.tableDesc.Index) (obj : Object t.tableDesc) :
    Triple (answersMonitor (refuses ts)) (· = a)
      (parseColumns allocator h t.selectColumns.indexesInResult is obj) fun r a' =>
        a' = a.refusing (decide (r.1 ≠ .ok)) := by
  induction is generalizing obj with
  | nil =>
      refine Triple.pure fun a' ha => ?_
      rw [ha]
      exact (SelectAnswers.refusing_false a).symm
  | cons i is ih =>
      unfold parseColumns
      split
      · exact ih obj
      · next resultIndex hi =>
        apply Triple.bind (answers_sqlite3Column allocator h hs ht hw hi obj)
        rintro ⟨ret, row⟩
        dsimp only
        split
        · next hret =>
          rw [hret]
          simpa using ih row
        · next hret => exact Triple.pure fun a' ha => ha

end Reading

theorem tableSelects_getElem? {tablesDesc : List TableDescriptor} {wants : List Bool}
    {selected : List SelectColumns} {n : ℕ} {t : TableSelect}
    (h : (tableSelects tablesDesc wants selected)[n]? = some t) :
    tablesDesc[n]? = some t.tableDesc ∧ wants[n]? = some t.isTableSelect ∧
      selected[n]? = some t.selectColumns := by
  unfold tableSelects at h
  rw [List.getElem?_map] at h
  obtain ⟨⟨table, wants', select⟩, hzip, rfl⟩ := Option.map_eq_some_iff.mp h
  obtain ⟨htable, hpair⟩ := List.getElem?_zip_eq_some.mp hzip
  obtain ⟨hwants, hselect⟩ := List.getElem?_zip_eq_some.mp hpair
  exact ⟨htable, hwants, hselect⟩

theorem Maps.separate {tablesDesc : List TableDescriptor} {refs : List (ℕ × ℕ)}
    {selected : List SelectColumns} (h : Maps tablesDesc refs selected) (wants : List Bool) :
    Separate (tableSelects tablesDesc wants selected) := by
  have hposition : ∀ n (t : TableSelect), (tableSelects tablesDesc wants selected)[n]? = some t →
      ∀ (i : t.tableDesc.Index) k, t.position i = some k → refs[k]? = some (n, i.val) := by
    intro n t ht i k hi
    obtain ⟨htable, -, hselect⟩ := tableSelects_getElem? ht
    have hmaps := h.2 n _ _ htable hselect
    have hindex : t.selectColumns.indexesInResult[i.val]? = some (some k) := by
      unfold TableSelect.position at hi
      cases hget : t.selectColumns.indexesInResult[i.val]? with
      | none =>
          rw [hget] at hi
          cases hi
      | some index =>
          rw [hget, Option.join_some] at hi
          rw [hi]
    by_cases hin : (n, i.val) ∈ refs
    · obtain ⟨p, hp, hrefs⟩ := hmaps.selected i.val i.isLt hin
      rw [hindex] at hp
      cases hp
      exact hrefs
    · rw [hmaps.unselected i.val i.isLt hin] at hindex
      cases hindex
  constructor
  · intro t ht i j k hi hj
    obtain ⟨n, hn⟩ := List.mem_iff_getElem?.mp ht
    have heq := (hposition n t hn i k hi).symm.trans (hposition n t hn j k hj)
    exact Fin.ext (Prod.mk.inj (Option.some_inj.mp heq)).2
  · rw [List.pairwise_iff_getElem]
    intro n n' hn hn' hlt i j k hi hj
    have hfst := hposition n _ (List.getElem?_eq_getElem hn) i k hi
    have hsnd := hposition n' _ (List.getElem?_eq_getElem hn') j k hj
    have hne := (Prod.mk.inj (Option.some_inj.mp (hfst.symm.trans hsnd))).1
    omega

def SelectAnswers.going (a : SelectAnswers) : Bool :=
  decide (a.last = none ∨ a.last = some .row ∨ a.last = some .done)

def Filled {ρ : Type} (Full : ℕ → ρ → Prop) (n : ℕ) (cs : Containers ρ) (ts : List TableSelect) :
    Prop :=
  List.Forall₂ (fun tc t => tc.1 = t ∧
    if t.wanted then ∃ c, tc.2 = some c ∧ Full n c else tc.2 = none) cs ts

section Stores

variable {ρ : Type} {Full : ℕ → ρ → Prop} {room : TableSelect → Prop} {ts : List TableSelect}
  {one : TableSelect → ρ → Act (SormError × ρ)} {n : ℕ} {a : SelectAnswers}

structure Stored {α : Type} (a : SelectAnswers) (roomy : Prop) (Fills : α → Prop)
    (r : SormError × α) (a' : SelectAnswers) : Prop where
  answers : ∃ refused, a' = a.refusing refused ∧ (r.1 = .ok ↔ refused = false ∧ roomy)
  fills : r.1 = .ok → Fills r.2

theorem answers_storeEach (hone : ∀ t ∈ ts, t.wanted → ∀ c a, Full n c →
      Triple (answersMonitor (refuses ts)) (· = a) (one t c) (Stored a (room t) (Full (n + 1))))
    {cs : Containers ρ} {ts' : List TableSelect} (hsub : ∀ t ∈ ts', t ∈ ts)
    (hcs : Filled Full n cs ts') :
    Triple (answersMonitor (refuses ts)) (· = a) (storeEach one cs)
      (Stored a (∀ t ∈ ts', t.wanted → room t) fun cs => Filled Full (n + 1) cs ts') := by
  induction hcs generalizing a with
  | nil =>
      refine Triple.pure fun a' ha => ⟨⟨false, ?_, ?_⟩, fun _ => .nil⟩
      · rw [ha, SelectAnswers.refusing_false]
      · simp
  | @cons tc t cs ts' htc hcs ih =>
      obtain ⟨t, c⟩ := tc
      obtain ⟨rfl, hc⟩ := htc
      have hrest : ∀ a, _ := fun a => @ih a fun t' h' => hsub t' (List.mem_cons_of_mem _ h')
      by_cases hw : t.wanted
      · rw [if_pos hw] at hc
        obtain ⟨c, rfl, hfull⟩ := hc
        unfold storeEach
        apply Triple.bind (hone t (hsub t List.mem_cons_self) hw c a hfull)
        rintro ⟨ret, c'⟩ a' ⟨⟨refused, rfl, hcode⟩, hfull'⟩
        dsimp only at hcode hfull' ⊢
        by_cases hret : ret = .ok
        · subst hret
          obtain ⟨rfl, hroom⟩ := hcode.mp rfl
          rw [if_pos rfl, SelectAnswers.refusing_false]
          refine (Triple.bind (hrest a) ?_) a rfl
          rintro ⟨ret, cs'⟩
          refine Triple.pure fun a'' hstored => ⟨?_, fun hok => ?_⟩
          · obtain ⟨refused, ha, hcode'⟩ := hstored.answers
            refine ⟨refused, ha, hcode'.trans (and_congr_right fun _ => ?_)⟩
            rw [List.forall_mem_cons]
            exact (and_iff_right fun _ => hroom).symm
          · refine .cons ⟨rfl, ?_⟩ (hstored.fills hok)
            rw [if_pos hw]
            exact ⟨c', rfl, hfull' rfl⟩
        · rw [if_neg hret]
          refine ⟨⟨refused, rfl, ⟨fun hok => absurd hok hret, fun hok => ?_⟩⟩,
            fun hok => absurd hok hret⟩
          exact absurd (hcode.mpr ⟨hok.1, hok.2 t List.mem_cons_self hw⟩) hret
      · rw [if_neg hw] at hc
        dsimp only at hc
        subst hc
        unfold storeEach
        apply Triple.bind (hrest a)
        rintro ⟨ret, cs'⟩
        refine Triple.pure fun a' hstored => ⟨?_, fun hok => ?_⟩
        · obtain ⟨refused, ha, hcode⟩ := hstored.answers
          refine ⟨refused, ha, hcode.trans (and_congr_right fun _ => ?_)⟩
          rw [List.forall_mem_cons]
          exact (and_iff_right fun h => absurd h hw).symm
        · refine .cons ⟨rfl, ?_⟩ (hstored.fills hok)
          rw [if_neg hw]

end Stores

section Loops

variable {ρ : Type} {Full : ℕ → ρ → Prop} {room : Prop} {ts : List TableSelect} {n : ℕ}
  {a : SelectAnswers} {cs : Containers ρ}

structure Taking (room : Prop) (n : ℕ) (a : SelectAnswers) : Prop where
  rows : a.rows = n
  refused : a.refused = false
  last : a.last = none ∨ a.last = some .row
  room : n = 0 ∨ room

structure Ran (Full : ℕ → ρ → Prop) (room : Prop) (ts : List TableSelect) (r : Rows ρ)
    (a : SelectAnswers) : Prop where
  code : r.code = .ok ↔ a.refused = false ∧ a.going ∧ (a.rows = 0 ∨ room)
  filled : r.code = .ok → r.rowsNum = a.rows ∧ Filled Full a.rows r.containers ts

theorem Taking.going (h : Taking room n a) : a.going := by
  unfold SelectAnswers.going
  rcases h.last with hlast | hlast
  · simp [hlast]
  · simp [hlast]

theorem Taking.ran (h : Taking room n a) (hcs : Filled Full n cs ts) :
    Ran Full room ts ⟨.ok, n, cs⟩ a := by
  have hrows := h.rows
  refine ⟨⟨fun _ => ⟨h.refused, h.going, ?_⟩, fun _ => rfl⟩, fun _ => ⟨hrows.symm, ?_⟩⟩
  · rw [hrows]
    exact h.room
  · rw [hrows]
    exact hcs

/-- The answer to a step that is no row. -/
theorem Taking.afterStep (h : Taking room n a) (hcs : Filled Full n cs ts) {ret : DbCode}
    (hret : ret ≠ .row) : Ran Full room ts (afterStep ret n cs) (a.stepped ret) := by
  have hrows : (a.stepped ret).rows = n := by
    rw [SelectAnswers.stepped, if_neg hret]
    exact h.rows
  have hgoing : (a.stepped ret).going = true ↔ ret = .done := by
    simp [SelectAnswers.going, SelectAnswers.stepped, hret]
  unfold Sorm.afterStep
  refine ⟨?_, fun _ => ⟨hrows.symm, by rw [hrows]; exact hcs⟩⟩
  dsimp only
  rw [hgoing, hrows]
  by_cases hdone : ret = .done
  · rw [if_pos hdone]
    exact ⟨fun _ => ⟨h.refused, hdone, h.room⟩, fun _ => rfl⟩
  · rw [if_neg hdone]
    exact ⟨fun hcode => absurd hcode (by decide), fun hcode => absurd hcode.2.1 hdone⟩

/-- The row a step answered with, stored in the containers. -/
theorem Taking.stored (h : Taking room n a) {r : SormError × Containers ρ} {a' : SelectAnswers}
    (hr : Stored (a.stepped .row) room (fun cs => Filled Full (n + 1) cs ts) r a') :
    (r.1 = .ok → Taking room (n + 1) a' ∧ Filled Full (n + 1) r.2 ts) ∧
      (r.1 ≠ .ok → Ran Full room ts ⟨r.1, n, r.2⟩ a') := by
  obtain ⟨refused, rfl, hcode⟩ := hr.answers
  have hrows : ((a.stepped .row).refusing refused).rows = n + 1 := by
    simp [SelectAnswers.refusing, SelectAnswers.stepped, h.rows]
  have hrefused : ((a.stepped .row).refusing refused).refused = refused := by
    simp [SelectAnswers.refusing, SelectAnswers.stepped, h.refused]
  constructor
  · intro hok
    obtain ⟨hnone, hroom⟩ := hcode.mp hok
    exact ⟨⟨hrows, hrefused.trans hnone, Or.inr rfl, Or.inr hroom⟩, hr.fills hok⟩
  · intro hne
    refine ⟨⟨fun hok => absurd hok hne, fun hok => ?_⟩, fun hok => absurd hok hne⟩
    obtain ⟨hnone, -, hroom⟩ := hok
    rw [hrefused] at hnone
    rw [hrows] at hroom
    exact absurd (hcode.mpr ⟨hnone, hroom.resolve_left (Nat.succ_ne_zero n)⟩) hne

variable {σ : Type} {M : Monitor Resp σ} {Before AtRow : ℕ → Containers ρ → σ → Prop}
  {Post : Rows ρ → σ → Prop} {store : Containers ρ → Act (SormError × Containers ρ)}
  (conn : Connection) (h : Option Handle)

/-- One round of a row loop: `Before` holds before its step, `AtRow` once that answered a row. -/
structure Round (M : Monitor Resp σ) (conn : Connection) (h : Option Handle)
    (Before AtRow : ℕ → Containers ρ → σ → Prop) (Post : Rows ρ → σ → Prop)
    (store : Containers ρ → Act (SormError × Containers ρ)) : Prop where
  step : ∀ n cs, Triple M (Before n cs) (sqlite3Step conn h .read) fun ret s =>
    if ret = .row then AtRow n cs s else Post (afterStep ret n cs) s
  store : ∀ n cs, Triple M (AtRow n cs) (store cs) fun r s =>
    if r.1 = .ok then Before (n + 1) r.2 s else Post ⟨r.1, n, r.2⟩ s

/-- No more rows are taken than asked for. -/
theorem Round.rowLoop (hround : Round M conn h Before AtRow Post store)
    (hend : ∀ n cs s, Before n cs s → Post ⟨.ok, n, cs⟩ s) (limit : ℕ) (n : ℕ)
    (cs : Containers ρ) :
    Triple M (Before n cs) (rowLoop conn h store limit n cs) fun r s =>
      Post r s ∧ r.rowsNum ≤ n + limit := by
  induction limit generalizing n cs with
  | zero => exact Triple.pure fun s hs => ⟨hend n cs s hs, Nat.le_refl _⟩
  | succ limit ih =>
      have hle : n ≤ n + (limit + 1) := Nat.le_add_right _ _
      unfold Sorm.rowLoop
      apply Triple.bind (hround.step n cs)
      intro ret
      by_cases hret : ret = .row
      · simp only [hret, if_true]
        apply Triple.bind (hround.store n cs)
        rintro ⟨ret, cs'⟩
        by_cases hret : ret = .ok
        · simp only [hret, if_true]
          refine (ih (n + 1) cs').post fun r s hs => ⟨hs.1, ?_⟩
          have hlimit := hs.2
          omega
        · simp only [hret, if_false]
          exact Triple.pure fun s hs => ⟨hs, hle⟩
      · simp only [hret, if_false]
        exact Triple.pure fun s hs => ⟨hs, by unfold afterStep; exact hle⟩

theorem Round.allRowsLoop {Before AtRow : ℕ → Containers RowList → σ → Prop}
    {Post : Rows RowList → σ → Prop} {allocator : Allocator}
    (hround : Round M conn h Before AtRow Post (storeListRow allocator h)) (rounds : ℕ) (n : ℕ)
    (cs : Containers RowList) :
    Triple M (Before n cs) (allRowsLoop conn allocator h rounds n cs) Post := by
  induction rounds generalizing n cs with
  | zero => exact Triple.stop
  | succ rounds ih =>
      unfold Sorm.allRowsLoop
      apply Triple.bind (hround.step n cs)
      intro ret
      by_cases hret : ret = .row
      · simp only [hret, if_true]
        apply Triple.bind (hround.store n cs)
        rintro ⟨ret, cs'⟩
        by_cases hret : ret = .ok
        · simp only [hret, if_true]
          split
          · exact Triple.stop
          · exact ih (n + 1) cs'
        · simp only [hret, if_false]
          exact Triple.pure fun s hs => hs
      · simp only [hret, if_false]
        exact Triple.pure fun s hs => hs

/-- The answers during a round. -/
theorem answers_round (hstore : ∀ n cs a, Filled Full n cs ts →
      Triple (answersMonitor (refuses ts)) (· = a) (store cs)
        (Stored a room fun cs => Filled Full (n + 1) cs ts)) :
    Round (answersMonitor (refuses ts)) conn h
      (fun n cs a => Taking room n a ∧ Filled Full n cs ts)
      (fun n cs a => ∃ a', a = a'.stepped .row ∧ Taking room n a' ∧ Filled Full n cs ts)
      (Ran Full room ts) store := by
  constructor
  · rintro n cs a ⟨htaking, hcs⟩
    refine ((answers_step conn h .read).post ?_) a rfl
    rintro ret _ rfl
    by_cases hret : ret = .row
    · rw [if_pos hret, hret]
      exact ⟨a, rfl, htaking, hcs⟩
    · rw [if_neg hret]
      exact htaking.afterStep hcs hret
  · rintro n cs _ ⟨a, rfl, htaking, hcs⟩
    refine ((hstore n cs _ hcs).post ?_) _ rfl
    intro r a' hstored
    obtain ⟨hok, hfail⟩ := htaking.stored hstored
    by_cases hret : r.1 = .ok
    · rw [if_pos hret]
      exact hok hret
    · rw [if_neg hret]
      exact hfail hret

end Loops

def RowArray.Full (n : ℕ) (array : RowArray) : Prop := array.rows.length = n

def RowList.Full (n : ℕ) (list : RowList) : Prop :=
  list.entries.length = n ∧ ∀ entry ∈ list.entries, entry.data.isSome

def TableSelect.roomy (t : TableSelect) : Prop := mulSizeT t.tableDesc.size 1 ≠ 0

def SelectAnswers.Delivers (room : Prop) (a : SelectAnswers) : Prop :=
  a.rows ≠ 0 ∧ a.refused = false ∧ a.going ∧ room

/-- What a core returns is told by the answers. -/
structure Delivered {ρ : Type} (Full : ℕ → ρ → Prop) (room : Prop) (ts : List TableSelect)
    (selected : Selected ρ) (a : SelectAnswers) : Prop where
  code : selected.code = .ok ∧ selected.rowsNum ≠ some 0 ↔ a.Delivers room
  rows : a.Delivers room → selected.rowsNum = some a.rows ∧
    List.Forall₂ (fun c t => if t.wanted then ∃ c', c = some c' ∧ Full a.rows c' else c = none)
      selected.rowsOfTables ts
  nothing : ¬ a.Delivers room → ∀ c ∈ selected.rowsOfTables, c = none

section Cores

variable {ρ : Type} {Full : ℕ → ρ → Prop} {room : Prop} {ts ts' : List TableSelect}
  {a : SelectAnswers} (conn : Connection) (allocator : Allocator) (h : Option Handle)

theorem answers_storeArrayEntry (hs : Separate ts) {t : TableSelect} (ht : t ∈ ts) (hw : t.wanted)
    {n : ℕ} {array : RowArray} (hfull : array.Full n) :
    Triple (answersMonitor (refuses ts)) (· = a) (storeArrayEntry allocator h t array)
      (Stored a True (RowArray.Full (n + 1))) := by
  apply Triple.bind (answers_parseColumns allocator h hs ht hw t.tableDesc.indexes _)
  rintro ⟨ret, row⟩
  refine Triple.pure fun a' ha => ⟨⟨_, ha, ?_⟩, fun _ => ?_⟩
  · simp
  · unfold RowArray.Full at hfull ⊢
    rw [List.length_append, hfull, List.length_singleton]

theorem answers_storeListEntry (hs : Separate ts) {t : TableSelect} (ht : t ∈ ts) (hw : t.wanted)
    {n : ℕ} {list : RowList} (hfull : list.Full n) :
    Triple (answersMonitor (refuses ts)) (· = a) (storeListEntry allocator h t list)
      (Stored a t.roomy (RowList.Full (n + 1))) := by
  apply Triple.bind (triple_malloc answers_isLocal allocator sormListSize)
  rintro block a' ⟨ha, hblock⟩
  cases block with
  | none => exact absurd (hblock.mpr (by decide)) (by simp)
  | some block =>
      have hnew : Triple (answersMonitor (refuses ts)) (· = a) (sormNew allocator t.tableDesc)
          fun data a' => a' = a ∧ (data.isSome ↔ t.roomy) :=
        triple_malloc answers_isLocal allocator (mulSizeT t.tableDesc.size 1)
      refine (Triple.bind hnew ?_) a' ha
      rintro data a'' ⟨ha', hdata⟩
      cases data with
      | none =>
          have hroom : ¬ t.roomy := fun hroom => absurd (hdata.mpr hroom) (by simp)
          have hnomem : SormError.nomem ≠ .ok := by decide
          refine ⟨⟨false, ?_, ⟨fun hok => absurd hok hnomem, fun hok => absurd hok.2 hroom⟩⟩,
            fun hok => absurd hok hnomem⟩
          rw [ha', SelectAnswers.refusing_false]
      | some data =>
          have hroom : t.roomy := hdata.mp rfl
          refine (Triple.bind (answers_parseColumns allocator h hs ht hw t.tableDesc.indexes _) ?_)
            a'' ha'
          rintro ⟨ret, row⟩
          refine Triple.pure fun a' ha => ⟨⟨_, ha, ?_⟩, fun _ => ?_⟩
          · simp [hroom]
          · obtain ⟨hlength, hdata'⟩ := hfull
            refine ⟨?_, fun entry hentry => ?_⟩
            · rw [List.length_append, hlength, List.length_singleton]
            · rcases List.mem_append.mp hentry with hentry | hentry
              · exact hdata' entry hentry
              · rw [List.mem_singleton.mp hentry]
                rfl

theorem answers_newArrays (maxRowsNum : ℤ) (ts' : List TableSelect) :
    Triple (answersMonitor (refuses ts)) (· = a) (newArrays allocator maxRowsNum ts') fun r a' =>
      a' = a ∧ (r.1 = true → Filled RowArray.Full 0 r.2 ts') := by
  induction ts' with
  | nil => exact Triple.pure fun a' ha => ⟨ha, fun _ => .nil⟩
  | cons t ts' ih =>
      unfold newArrays
      by_cases hw : t.wanted
      · rw [if_pos hw]
        apply Triple.bind (keeps_sormNewArray answers_isLocal allocator t.tableDesc maxRowsNum)
        intro block
        cases block with
        | none => exact Triple.pure fun a' ha => ⟨ha, fun hok => absurd hok Bool.false_ne_true⟩
        | some block =>
            apply Triple.bind ih
            rintro ⟨ok, cs⟩
            refine Triple.pure fun a' hrest => ⟨hrest.1, fun hok => .cons ⟨rfl, ?_⟩ (hrest.2 hok)⟩
            rw [if_pos hw]
            exact ⟨_, rfl, rfl⟩
      · rw [if_neg hw]
        apply Triple.bind ih
        rintro ⟨ok, cs⟩
        refine Triple.pure fun a' hrest => ⟨hrest.1, fun hok => .cons ⟨rfl, ?_⟩ (hrest.2 hok)⟩
        rw [if_neg hw]

theorem answers_newLists (ts' : List TableSelect) :
    Triple (answersMonitor (refuses ts)) (· = a) (newLists allocator ts') fun r a' =>
      a' = a ∧ (r.1 = true → Filled RowList.Full 0 r.2 ts') := by
  induction ts' with
  | nil => exact Triple.pure fun a' ha => ⟨ha, fun _ => .nil⟩
  | cons t ts' ih =>
      unfold newLists
      by_cases hw : t.wanted
      · rw [if_pos hw]
        apply Triple.bind (keeps_malloc answers_isLocal allocator sormListSize)
        intro block
        cases block with
        | none => exact Triple.pure fun a' ha => ⟨ha, fun hok => absurd hok Bool.false_ne_true⟩
        | some block =>
            apply Triple.bind ih
            rintro ⟨ok, cs⟩
            refine Triple.pure fun a' hrest => ⟨hrest.1, fun hok => .cons ⟨rfl, ?_⟩ (hrest.2 hok)⟩
            rw [if_pos hw]
            exact ⟨_, rfl, rfl, fun entry hentry => absurd hentry List.not_mem_nil⟩
      · rw [if_neg hw]
        apply Triple.bind ih
        rintro ⟨ok, cs⟩
        refine Triple.pure fun a' hrest => ⟨hrest.1, fun hok => .cons ⟨rfl, ?_⟩ (hrest.2 hok)⟩
        rw [if_neg hw]

/-- What the end of a core makes of a row loop's result. -/
theorem Ran.delivered {r : Rows ρ} (hr : Ran Full room ts r a) :
    Delivered Full room ts (finished r) a := by
  have hcode : (finished r).code = r.code ∧ (finished r).rowsNum = some r.rowsNum := by
    unfold finished
    split
    · exact ⟨rfl, rfl⟩
    · exact ⟨rfl, rfl⟩
  have hdelivers : r.code = .ok ∧ r.rowsNum ≠ 0 ↔ a.Delivers room := by
    constructor
    · rintro ⟨hok, hnum⟩
      obtain ⟨hrefused, hgoing, hroom⟩ := hr.code.mp hok
      rw [(hr.filled hok).1] at hnum
      exact ⟨hnum, hrefused, hgoing, hroom.resolve_left hnum⟩
    · rintro ⟨hnum, hrefused, hgoing, hroom⟩
      have hok := hr.code.mpr ⟨hrefused, hgoing, Or.inr hroom⟩
      rw [← (hr.filled hok).1] at hnum
      exact ⟨hok, hnum⟩
  refine ⟨?_, fun hdel => ?_, fun hdel c hc => ?_⟩
  · rw [hcode.1, hcode.2, ← hdelivers, ne_eq, Option.some_inj]
  · obtain ⟨hok, hnum⟩ := hdelivers.mpr hdel
    obtain ⟨hrows, hfilled⟩ := hr.filled hok
    refine ⟨hcode.2.trans (congrArg some hrows), ?_⟩
    rw [finished, if_neg (by simp [hok, hnum])]
    apply List.forall₂_map_left_iff.mpr
    exact hfilled.imp fun _ _ h => h.2
  · have hnone : r.code ≠ .ok ∨ r.rowsNum = 0 := by
      rw [← hdelivers] at hdel
      tauto
    rw [finished, if_pos hnone] at hc
    obtain ⟨_, _, rfl⟩ := List.mem_map.mp hc
    rfl

/-- Before any row. -/
theorem delivered_nothing {selected : Selected ρ} (hrows : a.rows = 0)
    (hcode : ¬ (selected.code = .ok ∧ selected.rowsNum ≠ some 0))
    (hnone : ∀ c ∈ selected.rowsOfTables, c = none) : Delivered Full room ts selected a :=
  have hnot : ¬ a.Delivers room := fun hdel => hdel.1 hrows
  ⟨⟨fun h => absurd h hcode, fun h => absurd h hnot⟩, fun h => absurd h hnot, fun _ => hnone⟩

theorem finished_nothing {r : Rows ρ} (hr : r.code ≠ .ok) :
    ∀ c ∈ (finished r).rowsOfTables, c = none := by
  rw [finished, if_pos (Or.inl hr)]
  intro c hc
  obtain ⟨_, _, rfl⟩ := List.mem_map.mp hc
  rfl

variable {P : SelectAnswers → Prop}

theorem answers_finishArrays (r : Rows RowArray) :
    Triple (answersMonitor (refuses ts)) P (finishArrays allocator r) fun selected a =>
      P a ∧ selected = finished r := by
  have hdrop : ∀ cs : Containers RowArray,
      Keeps (answersMonitor (refuses ts)) P (dropArrays allocator cs) := by
    intro cs
    induction cs with
    | nil => exact Keeps.pure
    | cons tc cs ih => exact Keeps.bind (keeps_free answers_isLocal _ _) fun _ => ih
  unfold finishArrays finished
  split
  · exact Triple.bind (hdrop _) fun _ => Triple.pure fun a ha => ⟨ha, rfl⟩
  · exact Triple.pure fun a ha => ⟨ha, rfl⟩

theorem answers_finishLists (r : Rows RowList) :
    Triple (answersMonitor (refuses ts)) P (finishLists allocator r) fun selected a =>
      P a ∧ selected = finished r := by
  have hdrop : ∀ cs : Containers RowList,
      Keeps (answersMonitor (refuses ts)) P (dropLists allocator cs) := by
    intro cs
    induction cs with
    | nil => exact Keeps.pure
    | cons tc cs ih => exact Keeps.bind (keeps_sormListFree answers_isLocal _ _) fun _ => ih
  unfold finishLists finished
  split
  · exact Triple.bind (hdrop _) fun _ => Triple.pure fun a ha => ⟨ha, rfl⟩
  · exact Triple.pure fun a ha => ⟨ha, rfl⟩

theorem taking_start : Taking room 0 .start := ⟨rfl, rfl, Or.inl rfl, Or.inl rfl⟩

def coreRest (loop : Containers ρ → Act (Rows ρ)) (finish : Rows ρ → Act (Selected ρ)) :
    Bool × Containers ρ → Act (Selected ρ)
  | (true, cs) => do
      let r ← loop cs
      finish r
  | (false, cs) => finish ⟨.nomem, 0, cs⟩

theorem triple_coreRest {σ : Type} {M : Monitor Resp σ} {New : Bool × Containers ρ → σ → Prop}
    {Looped : Rows ρ → σ → Prop} {Post : Selected ρ → σ → Prop}
    {loop : Containers ρ → Act (Rows ρ)} {finish : Rows ρ → Act (Selected ρ)}
    (hloop : ∀ cs, Triple M (New (true, cs)) (loop cs) Looped)
    (hfail : ∀ cs s, New (false, cs) s → Looped ⟨.nomem, 0, cs⟩ s)
    (hfinish : ∀ r, Triple M (Looped r) (finish r) Post) (r : Bool × Containers ρ) :
    Triple M (New r) (coreRest loop finish r) Post := by
  obtain ⟨ok, cs⟩ := r
  cases ok with
  | true => exact Triple.bind (hloop cs) hfinish
  | false => exact (hfinish ⟨.nomem, 0, cs⟩).mono (hfail cs) fun _ _ h => h

theorem selectSomeArrayCore_eq {maxRowsNum : ℤ} (hmax : maxRowsNum ≠ 0) :
    selectSomeArrayCore conn allocator h ts maxRowsNum = (do
      let _ ← assertSome h
      let r ← newArrays allocator maxRowsNum ts
      coreRest (rowLoop conn h (storeArrayRow allocator h) maxRowsNum.toNat 0)
        (finishArrays allocator) r) := by
  unfold selectSomeArrayCore
  rw [if_neg hmax]
  congr 1
  funext _
  congr 1
  funext r
  obtain ⟨ok, cs⟩ := r
  cases ok with
  | true => rfl
  | false => rfl

theorem selectSomeListCore_eq {maxRowsNum : ℤ} (hmax : maxRowsNum ≠ 0) :
    selectSomeListCore conn allocator h ts maxRowsNum = (do
      let _ ← assertSome h
      let r ← newLists allocator ts
      coreRest (rowLoop conn h (storeListRow allocator h) maxRowsNum.toNat 0)
        (finishLists allocator) r) := by
  unfold selectSomeListCore
  rw [if_neg hmax]
  congr 1
  funext _
  congr 1
  funext r
  obtain ⟨ok, cs⟩ := r
  cases ok with
  | true => rfl
  | false => rfl

theorem selectAllListCore_eq (rounds : ℕ) (maxRowsNum : ℤ) :
    selectAllListCore rounds conn allocator h ts maxRowsNum = (do
      let _ ← assertSome h
      let r ← newLists allocator ts
      coreRest (allRowsLoop conn allocator h rounds 0) (finishLists allocator) r) := by
  unfold selectAllListCore
  congr 1
  funext _
  congr 1
  funext r
  obtain ⟨ok, cs⟩ := r
  cases ok with
  | true => rfl
  | false => rfl

def Looped (Full : ℕ → ρ → Prop) (room : Prop) (ts : List TableSelect) (r : Rows ρ)
    (a : SelectAnswers) : Prop := Ran Full room ts r a ∨ r.code ≠ .ok ∧ a.rows = 0

theorem Looped.delivered {r : Rows ρ} (hr : Looped Full room ts r a) :
    Delivered Full room ts (finished r) a := by
  rcases hr with hran | ⟨hcode, hrows⟩
  · exact hran.delivered
  · refine delivered_nothing hrows ?_ (finished_nothing hcode)
    rw [finished, if_pos (Or.inl hcode)]
    exact fun hok => hcode hok.1

theorem delivered_none (ha : a = .start) :
    Delivered Full room ts ⟨.ok, some 0, ts.map fun _ => none⟩ a := by
  refine delivered_nothing (by rw [ha]; rfl) (fun hcode => hcode.2 rfl) fun c hc => ?_
  obtain ⟨_, _, rfl⟩ := List.mem_map.mp hc
  rfl

theorem finished_rowsNum (r : Rows ρ) : (finished r).rowsNum = some r.rowsNum := by
  unfold finished
  split
  · rfl
  · rfl

theorem answers_selectSomeArrayCore (hs : Separate ts) (maxRowsNum : ℤ) :
    Triple (answersMonitor (refuses ts)) (· = .start)
      (selectSomeArrayCore conn allocator h ts maxRowsNum) fun selected a =>
        Delivered RowArray.Full True ts selected a ∧
          ∀ n ∈ selected.rowsNum, n ≤ maxRowsNum.toNat := by
  have hstore : ∀ n cs a, Filled RowArray.Full n cs ts →
      Triple (answersMonitor (refuses ts)) (· = a) (storeArrayRow allocator h cs)
        (Stored a True fun cs => Filled RowArray.Full (n + 1) cs ts) := by
    intro n cs a hcs
    rw [storeArrayRow_eq]
    have hrow : Triple (answersMonitor (refuses ts)) (· = a)
        (storeEach (storeArrayEntry allocator h) cs)
        (Stored a (∀ t ∈ ts, t.wanted → True) fun cs => Filled RowArray.Full (n + 1) cs ts) :=
      answers_storeEach (fun t ht hw array a hfull =>
        answers_storeArrayEntry allocator h hs ht hw hfull) (fun t ht => ht) hcs
    refine hrow.post ?_
    rintro r a' ⟨⟨refused, ha, hcode⟩, hfills⟩
    exact ⟨⟨refused, ha, by simpa using hcode⟩, hfills⟩
  by_cases hzero : maxRowsNum = 0
  · unfold selectSomeArrayCore
    rw [if_pos hzero]
    apply Triple.bind (keeps_assertSome h)
    exact fun _ => Triple.pure fun a ha => ⟨delivered_none ha, fun n hn => by cases hn; omega⟩
  · rw [selectSomeArrayCore_eq conn allocator h hzero]
    apply Triple.bind (keeps_assertSome h)
    intro _
    refine Triple.bind (answers_newArrays allocator maxRowsNum ts)
      (@triple_coreRest _ _ _ _ (fun r a => Looped RowArray.Full True ts r a ∧
        r.rowsNum ≤ maxRowsNum.toNat) _ _ _ ?_ ?_ ?_)
    · rintro cs a ⟨rfl, hcs⟩
      refine (((answers_round conn h hstore).rowLoop conn h (fun n cs a h => h.1.ran h.2)
        maxRowsNum.toNat 0 cs).post ?_) _ ⟨taking_start, hcs rfl⟩
      rintro r a ⟨hran, hle⟩
      exact ⟨Or.inl hran, by omega⟩
    · rintro cs a ⟨rfl, -⟩
      exact ⟨Or.inr ⟨SormError.noConfusion, rfl⟩, Nat.zero_le _⟩
    · intro r
      refine (answers_finishArrays allocator r).post ?_
      rintro selected a ⟨⟨hlooped, hle⟩, rfl⟩
      refine ⟨hlooped.delivered, fun n hn => ?_⟩
      rw [finished_rowsNum] at hn
      cases hn
      exact hle

def Roomy (ts : List TableSelect) : Prop := ∀ t ∈ ts, t.wanted → t.roomy

theorem answers_storeListRow (hs : Separate ts) (n : ℕ) (cs : Containers RowList)
    (a : SelectAnswers) (hcs : Filled RowList.Full n cs ts) :
    Triple (answersMonitor (refuses ts)) (· = a) (storeListRow allocator h cs)
      (Stored a (Roomy ts) fun cs => Filled RowList.Full (n + 1) cs ts) := by
  rw [storeListRow_eq]
  exact answers_storeEach (fun t ht hw list a hfull =>
    answers_storeListEntry allocator h hs ht hw hfull) (fun t ht => ht) hcs

/-- The rest of a list core, once its lists are there. -/
theorem answers_listCore {loop : Containers RowList → Act (Rows RowList)}
    (hloop : ∀ cs, Triple (answersMonitor (refuses ts))
      (fun a => Taking (Roomy ts) 0 a ∧ Filled RowList.Full 0 cs ts) (loop cs)
      (Ran RowList.Full (Roomy ts) ts)) :
    Triple (answersMonitor (refuses ts)) (· = .start) (do
        let _ ← assertSome h
        let r ← newLists allocator ts
        coreRest loop (finishLists allocator) r)
      (Delivered RowList.Full (Roomy ts) ts) := by
  apply Triple.bind (keeps_assertSome h)
  intro _
  refine Triple.bind (answers_newLists allocator ts)
    (@triple_coreRest _ _ _ _ (Looped RowList.Full (Roomy ts) ts) _ _ _ ?_ ?_ ?_)
  · rintro cs a ⟨rfl, hcs⟩
    exact (hloop cs).post (fun r a hran => Or.inl hran) _ ⟨taking_start, hcs rfl⟩
  · rintro cs a ⟨rfl, -⟩
    exact Or.inr ⟨SormError.noConfusion, rfl⟩
  · intro r
    refine (answers_finishLists allocator r).post ?_
    rintro selected a ⟨hlooped, rfl⟩
    exact hlooped.delivered

theorem answers_selectSomeListCore (hs : Separate ts) (maxRowsNum : ℤ) :
    Triple (answersMonitor (refuses ts)) (· = .start)
      (selectSomeListCore conn allocator h ts maxRowsNum)
      (Delivered RowList.Full (Roomy ts) ts) := by
  by_cases hzero : maxRowsNum = 0
  · unfold selectSomeListCore
    rw [if_pos hzero]
    apply Triple.bind (keeps_assertSome h)
    exact fun _ => Triple.pure fun a ha => delivered_none ha
  · rw [selectSomeListCore_eq conn allocator h hzero]
    apply answers_listCore
    intro cs
    exact ((answers_round conn h (answers_storeListRow allocator h hs)).rowLoop conn h
      (fun n cs a h => h.1.ran h.2) maxRowsNum.toNat 0 cs).post fun r a hran => hran.1

theorem answers_selectAllListCore (hs : Separate ts) (rounds : ℕ) (maxRowsNum : ℤ) :
    Triple (answersMonitor (refuses ts)) (· = .start)
      (selectAllListCore rounds conn allocator h ts maxRowsNum)
      (Delivered RowList.Full (Roomy ts) ts) := by
  rw [selectAllListCore_eq]
  apply answers_listCore
  intro cs
  exact (answers_round conn h (answers_storeListRow allocator h hs)).allRowsLoop conn h rounds 0 cs

end Cores

end Sorm
