import Sorm.SaveRun

/-!
# Writing back what was read

A row that was inserted is read into an object, and the object is replaced. What this binds is what
is stored already, but for a BLOB without bytes in heap memory: it is read as a NULL pointer, and
binding that stores NULL.
-/

namespace Sorm

open Interaction

/-- What is read from a column and bound again is the same: it is no BLOB without bytes in heap
memory, and an integer fits the column. -/
structure DbValue.Rewritable (column : ColumnDescriptor) (d : DbValue) : Prop where
  blob : column.type = .blob → column.mem = .heap → d ≠ .blob []
  int : column.type = .int → ∀ v, d = .integer v → (v.setWidth 32).signExtend 64 = v

section Column

variable {column : ColumnDescriptor} {slot : Slot} {cell : Cell} {d : DbValue}

def Rebinds (column : ColumnDescriptor) (d : DbValue) (new : Slot) : Prop :=
  sormIsStatValued new.stat ∧ ∃ v, new.bound column = .ok v ∧ (v.stored = some d ↔ d.Rewritable column)

theorem emptyHeapBlob_iff (h : slot.Settled column) (hd : (slot.value column).stored = some d) :
    slot.EmptyHeapBlob column ↔ column.type = .blob ∧ column.mem = .heap ∧ d = .blob [] := by
  unfold Slot.EmptyHeapBlob
  refine and_congr_right fun htype => and_congr_right fun hmem => ?_
  unfold Slot.Settled at h
  unfold Slot.value at hd
  rw [htype, hmem] at h hd
  obtain ⟨p, hp⟩ := Option.isSome_iff_exists.mp h.1
  rw [hp] at hd
  have hblob : DbValue.blob (firstBytes slot.blobLen p.bytes) = d := Option.some_injective _ hd
  rw [← hblob, DbValue.blob.injEq, ← List.length_eq_zero_iff, firstBytes_length]
  have hlen := h.2
  omega

theorem read_rebinds (h : slot.Settled column) (hd : (slot.value column).stored = some d)
    (hcell : cell.Holds (some d)) :
    ∃ new, cell.read column Slot.zero 0 = .ok (.ok, new) ∧ Rebinds column d new := by
  rw [← hd] at hcell
  obtain ⟨new, hnew, hrestores⟩ := read_restores h hcell
  refine ⟨new, hnew, hrestores.valued, ?_⟩
  by_cases hempty : slot.EmptyHeapBlob column
  · obtain ⟨htype, hmem, hblob⟩ := (emptyHeapBlob_iff h hd).mp hempty
    have hpointer := hrestores.pointer hempty
    refine ⟨.blob none new.blobLen, ?_, iff_of_false (fun h => by cases h) fun h => ?_⟩
    · unfold Slot.bound
      rw [htype, hmem, hpointer]
      rfl
    · exact h.blob htype hmem hblob
  · obtain ⟨v, hv, hstored⟩ := bound_settled (hrestores.settled hempty)
    refine ⟨v, hv, iff_of_true ?_ ⟨fun htype hmem hblob => ?_, fun htype w hw => ?_⟩⟩
    · rw [hstored, hrestores.value, hd]
    · exact hempty ((emptyHeapBlob_iff h hd).mpr ⟨htype, hmem, hblob⟩)
    · unfold Slot.value at hd
      rw [htype] at hd
      have hint : DbValue.integer (slot.int32.signExtend 64) = d := Option.some_injective _ hd
      rw [hw] at hint
      have hext : slot.int32.signExtend 64 = w := DbValue.integer.inj hint
      rw [← hext, setWidth_signExtend]

/-- A key that SQLite assigned. -/
theorem read_rebinds_integer (htype : column.type = .int ∨ column.type = .int64) {v : BitVec 64}
    (hcell : cell.Holds (some (.integer v))) :
    ∃ new, cell.read column Slot.zero 0 = .ok (.ok, new) ∧ Rebinds column (.integer v) new := by
  rcases htype with htype | htype
  · have hvalued : sormIsStatValued (Slot.zero.stat ||| sormStatValued) := by decide
    unfold Cell.read Cell.readValue Rebinds Slot.bound
    rw [if_neg hcell.class_ne, htype]
    refine ⟨_, rfl, hvalued, _, rfl, ?_⟩
    dsimp only [Bound.stored]
    rw [hcell.2.1, Option.some_inj, DbValue.integer.injEq]
    refine ⟨fun hfits => ⟨fun hblob => ?_, fun _ w hw => ?_⟩, fun h => h.int htype v rfl⟩
    · rw [htype] at hblob
      cases hblob
    · rw [← DbValue.integer.inj hw]
      exact hfits
  · have hsettled : { Slot.zero with int64 := v }.Settled column := by
      unfold Slot.Settled
      rw [htype]
      trivial
    apply read_rebinds hsettled _ hcell
    unfold Slot.value
    rw [htype]
    rfl

end Column

variable {table : TableDescriptor}

def savedRow (o : Outside) (conn : Connection) (insertOrReplace : Text) (obj : Object table)
    (i : table.Index) : Option DbValue :=
  columnStored obj.valuedColumns
    (o.run (save (some conn) (some obj) insertOrReplace) (.ofRows [])).2.bound i

/-- A row that was inserted from an object of values that were set. The key is assigned by SQLite
when it is an integer that has no value. -/
structure Inserted (o : Outside) (conn : Connection) (insertOrReplace : Text) (obj : Object table)
    (row : table.Index → Option DbValue) : Prop where
  built : obj.Built
  hasValue : checkHasValue obj
  fits : ∃ b, saveStmt obj insertOrReplace = .ok b
  valued : ∀ i, obj.valued i → row i = savedRow o conn insertOrReplace obj i
  unvalued : ∀ i, ¬ obj.valued i → row i = none ∨
    (table.pkIndex = some i ∧ ((table.column i).type = .int ∨ (table.column i).type = .int64) ∧
      ∃ v, row i = some (.integer v))

theorem savedRow_eq {obj : Object table} {stored : table.Index → Option DbValue}
    (hbound : ∀ i, obj.valued i → ∃ v, obj.boundValue i = .ok v ∧ v.stored = stored i)
    (o : Outside) (conn : Connection) {insertOrReplace : Text} (hvalue : checkHasValue obj)
    (hfits : ∃ b, saveStmt obj insertOrReplace = .ok b) (i : table.Index) :
    savedRow o conn insertOrReplace obj i = if obj.valued i then stored i else none := by
  obtain ⟨b, hb⟩ := hfits
  obtain ⟨n, bound, hbind, hstored⟩ := bindEach_stored hbound o o.stmtHandle (.ofRows [])
  have hrun := save_run conn hvalue hb hbind
  rw [savedRow, hrun, ← hstored i, Outside.step_bound]
  rfl

/-- What is read from a row that was inserted, column by column. -/
theorem Inserted.read {o : Outside} {conn : Connection} {insertOrReplace : Text} {obj : Object table}
    {row : table.Index → Option DbValue} (h : Inserted o conn insertOrReplace obj row)
    {i : table.Index} {cell : Cell} (hcell : cell.Holds (row i)) :
    ∃ new, cell.read (table.column i) Slot.zero 0 = .ok (.ok, new) ∧
      (row i = none → ¬ sormIsStatValued new.stat) ∧
      ∀ d, row i = some d → Rebinds (table.column i) d new := by
  cases hd : row i with
  | none =>
      rw [hd] at hcell
      refine ⟨Slot.zero, read_null hcell, fun _ => ?_, fun d hd' => (by cases hd')⟩
      decide
  | some d =>
      rw [hd] at hcell
      suffices hread : ∃ new, cell.read (table.column i) Slot.zero 0 = .ok (.ok, new) ∧
          Rebinds (table.column i) d new by
        obtain ⟨new, hnew, hrebinds⟩ := hread
        refine ⟨new, hnew, fun hnone => (by cases hnone), fun d' hd' => ?_⟩
        rw [← Option.some_injective _ hd']
        exact hrebinds
      by_cases hi : obj.valued i
      · have hsettled := h.built.settled hi
        have hrow := h.valued i hi
        rw [savedRow_eq (fun j hj => bound_settled (h.built.settled hj)) o conn h.hasValue h.fits,
          if_pos hi, hd] at hrow
        exact read_rebinds hsettled hrow.symm hcell
      · rcases h.unvalued i hi with hnone | ⟨-, htype, v, hv⟩
        · rw [hd] at hnone
          cases hnone
        · rw [hd] at hv
          cases hv
          exact read_rebinds_integer htype hcell

theorem bound_erase (column : ColumnDescriptor) (slot : Slot) :
    slot.erase.bound column = slot.bound column := by
  unfold Slot.bound Slot.erase
  cases column.type with
  | text | blob =>
      cases column.mem with
      | none | stack => rfl
      | heap =>
          cases slot.pointer with
          | none => rfl
          | some p => rfl
  | _ => rfl

def ReadFrom (row : table.Index → Option DbValue) (obj' : Object table) : Prop :=
  ∀ i, (row i = none → ¬ obj'.valued i) ∧
    ∀ d, row i = some d → Rebinds (table.column i) d (obj'.slots i)

/-- The object that is decoded from a row that was inserted. -/
theorem Inserted.decode {o : Outside} {conn : Connection} {insertOrReplace : Text}
    {obj : Object table} {row : table.Index → Option DbValue}
    (h : Inserted o conn insertOrReplace obj row) (allocator : Allocator) (handle : Handle)
    {columnIndexesInResult : List (Option ℕ)} {s : Db}
    (hrow : RowOf s.current columnIndexesInResult row) :
    ∃ obj' s', o.run (parseSelectResult allocator (some handle) columnIndexesInResult
        (.fresh table)) s = (.ok (.ok, obj'), s') ∧
      ReadFrom row obj' := by
  choose resultIndex hindex hcell using hrow
  choose new hnew hnone hsome using fun i => h.read (hcell i)
  obtain ⟨obj', s', hparse, herased⟩ := parseSelectResult_ok (o := o) (s := s) allocator handle
    fun i => ⟨resultIndex i, hindex i, hnew i⟩
  refine ⟨obj', s', hparse, fun i => ⟨fun hi => ?_, fun d hd => ?_⟩⟩
  · have hstat := hnone i hi
    rw [← herased i] at hstat
    exact hstat
  · have hrebinds := hsome i d hd
    rw [← herased i] at hrebinds
    unfold Rebinds at hrebinds ⊢
    rw [bound_erase] at hrebinds
    exact hrebinds

section Replace

variable {o : Outside} {conn : Connection} {insertOrReplace : Text} {obj : Object table}
  {row : table.Index → Option DbValue}

theorem ReadFrom.valued_iff {obj' : Object table} (h : ReadFrom row obj') (i : table.Index) :
    obj'.valued i ↔ ∃ d, row i = some d := by
  cases hd : row i with
  | none => exact iff_of_false ((h i).1 hd) fun hsome => by obtain ⟨d, hd'⟩ := hsome; cases hd'
  | some d => exact iff_of_true ((h i).2 d hd).1 ⟨d, rfl⟩

theorem Inserted.exists_some (h : Inserted o conn insertOrReplace obj row) :
    ∃ i d, row i = some d := by
  obtain ⟨i, -, hi⟩ := List.any_eq_true.mp h.hasValue
  have hrow := h.valued i hi
  rw [savedRow_eq (fun j hj => bound_settled (h.built.settled hj)) o conn h.hasValue h.fits,
    if_pos hi] at hrow
  obtain ⟨d, hd⟩ := Option.isSome_iff_exists.mp (stored_isSome (h.built.settled hi))
  exact ⟨i, d, hrow.trans hd⟩

theorem ReadFrom.savedRow_eq_iff {obj' : Object table} (h : ReadFrom row obj')
    (hvalue : checkHasValue obj') (hfits : ∃ b, saveStmt obj' insertOrReplace = .ok b) :
    savedRow o conn insertOrReplace obj' = row ↔
      ∀ i d, row i = some d → d.Rewritable (table.column i) := by
  have hbound : ∀ i, ∃ v, obj'.valued i → obj'.boundValue i = .ok v ∧
      ∀ d, row i = some d → (v.stored = some d ↔ d.Rewritable (table.column i)) := by
    intro i
    by_cases hi : obj'.valued i
    · obtain ⟨d, hd⟩ := (h.valued_iff i).mp hi
      obtain ⟨-, v, hv, hiff⟩ := (h i).2 d hd
      refine ⟨v, fun _ => ⟨hv, fun d' hd' => ?_⟩⟩
      rw [← Option.some_injective _ (hd.symm.trans hd')]
      exact hiff
    · exact ⟨.text none, fun hi' => absurd hi' hi⟩
  choose v hv using hbound
  rw [funext_iff]
  refine forall_congr' fun i => ?_
  have hsaved := @savedRow_eq table obj' (fun i => (v i).stored)
    (fun j hj => ⟨v j, (hv j hj).1, rfl⟩) o conn insertOrReplace hvalue hfits i
  rw [hsaved]
  cases hd : row i with
  | none =>
      rw [if_neg ((h i).1 hd)]
      exact iff_of_true rfl fun d hd' => by cases hd'
  | some d =>
      have hi : obj'.valued i := (h.valued_iff i).mpr ⟨d, hd⟩
      rw [if_pos hi, (hv i hi).2 d hd]
      refine ⟨fun hd d' hd' => ?_, fun hall => hall d rfl⟩
      rw [← Option.some_injective _ hd']
      exact hd

theorem ReadFrom.hasValue {obj' : Object table} (h : ReadFrom row obj')
    (hrow : ∃ i d, row i = some d) : checkHasValue obj' := by
  obtain ⟨i, d, hd⟩ := hrow
  exact List.any_eq_true.mpr ⟨i, List.mem_finRange i, (h.valued_iff i).mpr ⟨d, hd⟩⟩

/-- What `sorm_replace` binds for an object that was read from an inserted row is what the row
holds, exactly when no heap BLOB of the row is empty and its integers fit their columns. -/
theorem writing_back_iff (h : Inserted o conn insertOrReplace obj row) (allocator : Allocator)
    (handle : Handle) {columnIndexesInResult : List (Option ℕ)} {s : Db}
    (hrow : RowOf s.current columnIndexesInResult row) :
    ∃ obj' s', o.run (parseSelectResult allocator (some handle) columnIndexesInResult
        (.fresh table)) s = (.ok (.ok, obj'), s') ∧
      ((∃ b, saveStmt obj' "REPLACE".toList = .ok b) →
        (savedRow o conn "REPLACE".toList obj' = row ↔
          ∀ i d, row i = some d → d.Rewritable (table.column i))) := by
  obtain ⟨obj', s', hparse, hread⟩ := h.decode allocator handle hrow
  exact ⟨obj', s', hparse, hread.savedRow_eq_iff (hread.hasValue h.exists_some)⟩

end Replace

theorem saveStmt_congr {obj obj' : Object table} (h : ∀ i, obj.valued i = obj'.valued i)
    (insertOrReplace : Text) : saveStmt obj insertOrReplace = saveStmt obj' insertOrReplace := by
  unfold saveStmt
  rw [show obj.valued = obj'.valued from funext h]

def photoTable : TableDescriptor where
  name := "photo".toList
  size := 96
  columns := [⟨"id".toList, .int, .pk, .none, 0, false, [], []⟩,
    ⟨"data".toList, .blob, .none, .heap, 0, false, [], []⟩]
  pkIndex := some 0
  createSql := none

def dataIndex : photoTable.Index := ⟨1, by decide⟩

def emptyPhoto : Object photoTable :=
  match (Object.fresh photoTable).setColumnValue dataIndex (textPointer .empty) 0 with
  | .ok (_, obj) => obj
  | .error _ => .fresh photoTable

theorem emptyPhoto_built : emptyPhoto.Built :=
  @Object.Built.set _ (.fresh photoTable) emptyPhoto dataIndex (textPointer .empty) 0 .fresh
    (fun _ => le_rfl) rfl

def writingOutside : Outside := ⟨.done, by decide, 0, .ok, id, textPointer .empty, 1⟩

def emptyPhotoRow (i : photoTable.Index) : Option DbValue :=
  if i = dataIndex then some (.blob []) else some (.integer 1)

def emptyPhotoResult : ResultRow := fun k =>
  if k = 0 then { Cell.null with columnClass := .integer, int := 1, int64 := 1 }
  else { Cell.null with columnClass := .blob }

theorem emptyPhoto_inserted :
    Inserted writingOutside ⟨0, 0, 0⟩ "INSERT".toList emptyPhoto emptyPhotoRow := by
  refine ⟨emptyPhoto_built, rfl, ⟨_, rfl⟩, fun i hi => ?_, fun i hi => ?_⟩
  · fin_cases i
    · cases hi
    · rfl
  · fin_cases i
    · exact Or.inr ⟨rfl, Or.inl rfl, 1, rfl⟩
    · exact absurd rfl hi

theorem emptyPhoto_rowOf : RowOf emptyPhotoResult [some 0, some 1] emptyPhotoRow := by
  intro i
  fin_cases i
  · exact ⟨0, rfl, rfl, rfl, rfl⟩
  · exact ⟨1, rfl, rfl, rfl, rfl⟩

/-- The blob of `emptyPhoto` is replaced by NULL. -/
theorem not_writing_back : ¬ ∀ (o : Outside) (conn : Connection) (insertOrReplace : Text)
    (table : TableDescriptor) (obj : Object table) (row : table.Index → Option DbValue),
    Inserted o conn insertOrReplace obj row →
    ∀ (allocator : Allocator) (handle : Handle) (columnIndexesInResult : List (Option ℕ)) (s : Db),
      RowOf s.current columnIndexesInResult row → ∀ obj' s',
        o.run (parseSelectResult allocator (some handle) columnIndexesInResult (.fresh table)) s =
          (.ok (.ok, obj'), s') → (∃ b, saveStmt obj' "REPLACE".toList = .ok b) →
        savedRow o conn "REPLACE".toList obj' = row := by
  intro h
  have hrow : RowOf { Db.ofRows [] with current := emptyPhotoResult }.current [some 0, some 1]
    emptyPhotoRow := emptyPhoto_rowOf
  obtain ⟨obj', s', hparse, hread⟩ := emptyPhoto_inserted.decode .libc 0 hrow
  have hvalued : ∀ i, Object.valued ⟨fun _ : photoTable.Index =>
      { Slot.zero with stat := sormStatValued }⟩ i = obj'.valued i := by
    intro i
    have hself : sormIsStatValued sormStatValued = true := by decide
    have hsome : ∃ d, emptyPhotoRow i = some d := by
      fin_cases i
      · exact ⟨_, rfl⟩
      · exact ⟨_, rfl⟩
    exact hself.trans ((hread.valued_iff i).mpr hsome).symm
  have hfits : ∃ b, saveStmt obj' "REPLACE".toList = .ok b := by
    rw [← saveStmt_congr hvalued]
    exact ⟨_, rfl⟩
  have hsame := h _ _ _ _ _ _ emptyPhoto_inserted .libc 0 _ _ hrow obj' s' hparse hfits
  have hvalue := hread.hasValue emptyPhoto_inserted.exists_some
  have hrewritable := (hread.savedRow_eq_iff hvalue hfits).mp hsame dataIndex (.blob []) rfl
  exact hrewritable.blob rfl rfl rfl

theorem writing_back_iff_photo :
    ∃ obj' s', writingOutside.run (parseSelectResult .libc (some 0) [some 0, some 1]
        (.fresh photoTable)) { Db.ofRows [] with current := emptyPhotoResult } =
        (.ok (.ok, obj'), s') ∧
      ((∃ b, saveStmt obj' "REPLACE".toList = .ok b) →
        (savedRow writingOutside ⟨0, 0, 0⟩ "REPLACE".toList obj' = emptyPhotoRow ↔
          ∀ i d, emptyPhotoRow i = some d → d.Rewritable (photoTable.column i))) :=
  writing_back_iff emptyPhoto_inserted .libc 0 emptyPhoto_rowOf

end Sorm
