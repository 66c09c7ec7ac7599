import Sorm.ResultRows

/-!
# Decoding a result row

`Cell.read` is what `_sqlite3_column` makes of one column of a result row, as a function of the
cell and of what the member held before; `decode` is `_parse_select_result` on a fresh row. The
blocks that are allocated lie elsewhere every time, so rows are compared with the addresses in
them left out.
-/

namespace Sorm

open Interaction

def CharPointer.erase (p : CharPointer) : CharPointer := { p with address := 0 }

def Slot.erase (slot : Slot) : Slot := { slot with pointer := slot.pointer.map CharPointer.erase }

namespace Object

variable {table : TableDescriptor}

def erase (obj : Object table) : Object table := ⟨fun i => (obj.slots i).erase⟩

theorem erase_setSlot (obj : Object table) (i : table.Index) (slot : Slot) :
    (obj.setSlot i slot).erase = obj.erase.setSlot i slot.erase := by
  unfold erase setSlot
  congr 1
  funext j
  by_cases hj : j = i
  · subst hj
    simp only [Function.update_self]
  · simp only [Function.update_of_ne hj]

theorem erase_fresh : (fresh table).erase = fresh table := rfl

theorem setSlot_slots (obj : Object table) (i : table.Index) : obj.setSlot i (obj.slots i) = obj := by
  unfold setSlot
  rw [Function.update_eq_self]

theorem setSlot_setSlot (obj : Object table) (i : table.Index) (slot slot' : Slot) :
    (obj.setSlot i slot).setSlot i slot' = obj.setSlot i slot' := by
  unfold setSlot
  rw [Function.update_idem]

theorem addColumnStat_setSlot (obj : Object table) (i : table.Index) (slot : Slot) (stat : Stat) :
    (obj.setSlot i slot).addColumnStat i stat =
      obj.setSlot i { slot with stat := slot.stat ||| stat } := by
  unfold addColumnStat getColumnStat
  rw [setSlot_self, setSlot_setSlot]

theorem setBlobLen_setSlot (obj : Object table) (i : table.Index) (slot : Slot) (len : ℤ) :
    (obj.setSlot i slot).setBlobLen i len = obj.setSlot i { slot with blobLen := len } := by
  unfold setBlobLen
  rw [setSlot_self, setSlot_setSlot]

end Object

/-- The result of decoding with the addresses in it left out. -/
def eraseResult {table : TableDescriptor} (r : SormError × Object table) :
    SormError × Object table := (r.1, r.2.erase)

namespace Cell

def readText (cell : Cell) (column : ColumnDescriptor) (slot : Slot) (block : Address) :
    Except Halt (SormError × Slot) :=
  match column.mem with
  | .heap => .ok (.ok, { slot with
      pointer := cell.text.map fun t => CharPointer.ofBlock block t.chars
      stat := slot.stat ||| sormStatNeedfree })
  | .stack =>
      match cell.blob, cell.text with
      | none, _ => .ok (.ok, slot)
      | some _, none => .error .undefined
      | some _, some text =>
          .ok (if (text.chars.length : ℤ) > column.maxLen then .tooLong else .ok,
            { slot with chars := stackText column.maxLen slot.chars text })
  | .none => .ok (.invalidMem, slot)

def readBlob (cell : Cell) (column : ColumnDescriptor) (slot : Slot) (block : Address) :
    SormError × Slot :=
  match column.mem with
  | .heap => (.ok, { slot with
      pointer := if cell.bytes = 0 then none
        else some (CharPointer.ofBlock block ((cell.blob.getD []).take cell.bytes))
      stat := if cell.bytes = 0 then slot.stat else slot.stat ||| sormStatNeedfree
      blobLen := cell.bytes })
  | .stack =>
      if (cell.bytes : ℤ) > column.maxLen then (.tooLong, slot)
      else (.ok, { slot with
        bytes := fun k => if k < cell.bytes then (cell.blob.getD []).getD k '\x00' else slot.bytes k
        blobLen := cell.bytes })
  | .none => (.invalidMem, slot)

def readValue (cell : Cell) (column : ColumnDescriptor) (slot : Slot) (block : Address) :
    Except Halt (SormError × Slot) :=
  match column.type with
  | .int => .ok (.ok, { slot with int32 := cell.int })
  | .int64 => .ok (.ok, { slot with int64 := cell.int64 })
  | .text => cell.readText column slot block
  | .double => .ok (.ok, { slot with double := cell.double })
  | .blob => .ok (cell.readBlob column slot block)
  | .unknown _ => .ok (.invalidType, slot)

def read (cell : Cell) (column : ColumnDescriptor) (slot : Slot) (block : Address) :
    Except Halt (SormError × Slot) :=
  if cell.columnClass = .null then .ok (.ok, { slot with stat := slot.stat ||| sormStatNull })
  else (cell.readValue column slot block).map fun r =>
    if r.1 = .ok then (.ok, { r.2 with stat := r.2.stat ||| sormStatValued }) else r

def eraseSlot (r : SormError × Slot) : SormError × Slot := (r.1, r.2.erase)

variable (cell : Cell) (column : ColumnDescriptor) (slot : Slot) (block : Address)

theorem erase_readText :
    (cell.readText column slot block).map eraseSlot = cell.readText column slot.erase 0 := by
  unfold readText
  cases column.mem with
  | none => rfl
  | heap =>
      cases cell.text with
      | none => rfl
      | some text => rfl
  | stack =>
      dsimp only
      split
      · rfl
      · rfl
      · rfl

theorem erase_readBlob :
    eraseSlot (cell.readBlob column slot block) = cell.readBlob column slot.erase 0 := by
  unfold readBlob
  cases column.mem with
  | none => rfl
  | heap =>
      dsimp only [eraseSlot, Slot.erase]
      split
      · rfl
      · rfl
  | stack =>
      dsimp only
      split
      · rfl
      · rfl

theorem erase_readValue :
    (cell.readValue column slot block).map eraseSlot = cell.readValue column slot.erase 0 := by
  unfold readValue
  cases column.type with
  | text => exact erase_readText cell column slot block
  | blob => exact congrArg Except.ok (erase_readBlob cell column slot block)
  | _ => rfl

theorem erase_read :
    (cell.read column slot block).map eraseSlot = cell.read column slot.erase 0 := by
  unfold read
  split
  · rfl
  · rw [← erase_readValue]
    cases cell.readValue column slot block with
    | error why => rfl
    | ok r =>
        change Except.ok (eraseSlot (if r.1 = .ok then _ else r)) = Except.ok (if r.1 = .ok then _ else _)
        split
        · rfl
        · rfl

end Cell

variable {table : TableDescriptor}

/-- `_parse_select_result` on a result row, for the columns of the list. -/
def decodeColumns (row : ResultRow) (columnIndexesInResult : List (Option ℕ)) :
    List table.Index → Object table → Except Halt (SormError × Object table)
  | [], obj => .ok (.ok, obj)
  | i :: is, obj =>
      match columnIndexesInResult[i.val]?.join with
      | none => decodeColumns row columnIndexesInResult is obj
      | some resultIndex =>
        match (row resultIndex).read (table.column i) (obj.slots i) 0 with
        | .error why => .error why
        | .ok (ret, slot) =>
          if ret = .ok then decodeColumns row columnIndexesInResult is (obj.setSlot i slot)
          else .ok (ret, obj.setSlot i slot)

def decode (t : TableSelect) (row : ResultRow) : Except Halt (SormError × Object t.tableDesc) :=
  decodeColumns row t.selectColumns.indexesInResult t.tableDesc.indexes (.fresh t.tableDesc)

namespace Outside

variable {o : Outside} {s : Db}

theorem strdup_run (allocator : Allocator) (text : Option CString) :
    ∃ n, o.run (strdup allocator text) s =
      (.ok (text.map fun t => (o.block s.blocks, t)), { s with blocks := n }) := by
  cases text with
  | none => exact ⟨s.blocks, rfl⟩
  | some t => exact ⟨_, rfl⟩

theorem malloc_run (allocator : Allocator) (size : ℕ) :
    ∃ n, o.run (malloc allocator size) s =
      (.ok (if size = 0 then none else some (o.block s.blocks)), { s with blocks := n }) := by
  unfold malloc
  split
  · exact ⟨s.blocks, rfl⟩
  · exact ⟨_, rfl⟩

section Columns

variable (allocator : Allocator) (h : Handle) (obj : Object table) (i : table.Index)
  (resultIndex : ℕ)

theorem sqlite3ColumnText_run : ∃ n,
    o.run (sqlite3ColumnText allocator obj (some h) i resultIndex) s =
      (((s.current resultIndex).readText (table.column i) (obj.slots i) (o.block s.blocks)).map
        fun r => (r.1, obj.setSlot i r.2), { s with blocks := n }) := by
  unfold sqlite3ColumnText Cell.readText
  cases (table.column i).mem with
  | none => exact ⟨s.blocks, by rw [Except.map, Object.setSlot_slots]; rfl⟩
  | heap =>
      obtain ⟨n, hn⟩ := @strdup_run o s allocator (s.current resultIndex).text
      refine ⟨n, ?_⟩
      change o.run (strdup allocator (s.current resultIndex).text >>= _) s = _
      rw [run, Prog.run_bind_ok hn, Option.map_map]
      change (Except.ok (SormError.ok, Object.addColumnStat _ i sormStatNeedfree), _) = _
      rw [Object.addColumnStat_setSlot]
      rfl
  | stack =>
      refine ⟨s.blocks, ?_⟩
      dsimp only
      rw [run, Prog.run_perform_bind]
      dsimp only [answer]
      cases (s.current resultIndex).blob with
      | none =>
          dsimp only [Except.map]
          rw [Object.setSlot_slots]
          rfl
      | some blob =>
          dsimp only
          rw [Prog.run_perform_bind]
          dsimp only [answer]
          cases (s.current resultIndex).text with
          | none => rfl
          | some text =>
              dsimp only [Except.map]
              split
              · rfl
              · rfl

theorem sqlite3ColumnBlob_run : ∃ n,
    o.run (sqlite3ColumnBlob allocator obj (some h) i resultIndex) s =
      (.ok (((s.current resultIndex).readBlob (table.column i) (obj.slots i) (o.block s.blocks)).1,
          obj.setSlot i
            ((s.current resultIndex).readBlob (table.column i) (obj.slots i) (o.block s.blocks)).2),
        { s with blocks := n }) := by
  unfold sqlite3ColumnBlob Cell.readBlob
  cases (table.column i).mem with
  | none => exact ⟨s.blocks, by rw [Object.setSlot_slots]; rfl⟩
  | heap =>
      obtain ⟨n, hn⟩ := @malloc_run o s allocator (s.current resultIndex).bytes
      refine ⟨n, ?_⟩
      dsimp only
      rw [run, Prog.run_perform_bind]
      dsimp only [answer]
      rw [Prog.run_perform_bind]
      dsimp only [answer]
      rw [Prog.run_bind_ok hn]
      by_cases hbytes : (s.current resultIndex).bytes = 0
      · simp only [hbytes, if_true, ne_eq, not_true_eq_false, if_false]
        change (Except.ok (SormError.ok, Object.setBlobLen _ i _), _) = _
        rw [Object.setBlobLen_setSlot]
        rfl
      · simp only [hbytes, if_false, ne_eq, not_false_eq_true, if_true]
        change (Except.ok (SormError.ok, Object.setBlobLen _ i _), _) = _
        rw [Object.addColumnStat_setSlot, Object.setBlobLen_setSlot]
        rfl
  | stack =>
      refine ⟨s.blocks, ?_⟩
      dsimp only
      rw [run, Prog.run_perform_bind]
      dsimp only [answer]
      rw [Prog.run_perform_bind]
      dsimp only [answer]
      change o.run (if ((s.current resultIndex).bytes : ℤ) > (table.column i).maxLen then
        return (SormError.tooLong, obj) else _) s = _
      by_cases hlen : ((s.current resultIndex).bytes : ℤ) > (table.column i).maxLen
      · simp only [if_pos hlen, Object.setSlot_slots]
        rfl
      · simp only [if_neg hlen, Object.setBlobLen_setSlot]
        rfl

/-- The last lines of `_sqlite3_column`. -/
theorem valued_run {p : Act (SormError × Object table)} {r : Except Halt (SormError × Slot)}
    {s s' : Db} (hp : o.run p s = (r.map fun r => (r.1, obj.setSlot i r.2), s')) :
    o.run (p >>= fun r => if r.1 = .ok then return (.ok, r.2.addColumnStat i sormStatValued)
      else return (r.1, r.2)) s =
      ((r.map fun r => if r.1 = .ok then (.ok, { r.2 with stat := r.2.stat ||| sormStatValued })
        else r).map fun r => (r.1, obj.setSlot i r.2), s') := by
  cases r with
  | error why => exact Prog.run_bind_error hp _
  | ok r =>
      rw [run, Prog.run_bind_ok hp]
      dsimp only [Except.map]
      split
      · change (Except.ok (SormError.ok, Object.addColumnStat _ i _), _) = _
        rw [Object.addColumnStat_setSlot]
      · rfl

theorem sqlite3Column_run : ∃ n,
    o.run (sqlite3Column allocator obj (some h) i resultIndex) s =
      (((s.current resultIndex).read (table.column i) (obj.slots i) (o.block s.blocks)).map
        fun r => (r.1, obj.setSlot i r.2), { s with blocks := n }) := by
  unfold sqlite3Column Cell.read
  rw [assertSome_some, pure_bind]
  change ∃ n, o.run (if (s.current resultIndex).columnClass = .null then
    return (SormError.ok, obj.addColumnStat i sormStatNull) else _) s = _
  split
  · exact ⟨s.blocks, rfl⟩
  · unfold Cell.readValue
    cases (table.column i).type with
    | int => exact ⟨s.blocks, valued_run obj i (p := do
        let v ← perform (.columnInt (some h) resultIndex)
        pure (SormError.ok, obj.setSlot i { obj.slots i with int32 := v })) rfl⟩
    | int64 => exact ⟨s.blocks, valued_run obj i (p := do
        let v ← perform (.columnInt64 (some h) resultIndex)
        pure (SormError.ok, obj.setSlot i { obj.slots i with int64 := v })) rfl⟩
    | double => exact ⟨s.blocks, valued_run obj i (p := do
        let v ← perform (.columnDouble (some h) resultIndex)
        pure (SormError.ok, obj.setSlot i { obj.slots i with double := v })) rfl⟩
    | text =>
        obtain ⟨n, hn⟩ := @sqlite3ColumnText_run table o s allocator h obj i resultIndex
        exact ⟨n, valued_run obj i hn⟩
    | blob =>
        obtain ⟨n, hn⟩ := @sqlite3ColumnBlob_run table o s allocator h obj i resultIndex
        exact ⟨n, valued_run obj i hn⟩
    | unknown code =>
        refine ⟨s.blocks, ?_⟩
        rw [Except.map, Except.map, if_neg (by rintro ⟨⟩), Object.setSlot_slots]
        rfl

end Columns

theorem parseColumns_run (allocator : Allocator) (h : Handle)
    (columnIndexesInResult : List (Option ℕ)) (is : List table.Index) (obj : Object table) :
    ∃ r n, o.run (parseColumns allocator (some h) columnIndexesInResult is obj) s =
        (r, { s with blocks := n }) ∧
      r.map eraseResult = decodeColumns s.current columnIndexesInResult is obj.erase := by
  induction is generalizing obj s with
  | nil => exact ⟨_, s.blocks, rfl, rfl⟩
  | cons i is ih =>
      unfold parseColumns decodeColumns
      cases columnIndexesInResult[i.val]?.join with
      | none => exact ih obj
      | some resultIndex =>
          dsimp only
          obtain ⟨n, hn⟩ := @sqlite3Column_run table o s allocator h obj i resultIndex
          have herase := Cell.erase_read (s.current resultIndex) (table.column i) (obj.slots i)
            (o.block s.blocks)
          change _ = (s.current resultIndex).read (table.column i) (obj.erase.slots i) 0 at herase
          rw [← herase]
          cases hread : (s.current resultIndex).read (table.column i) (obj.slots i)
              (o.block s.blocks) with
          | error why =>
              rw [hread] at hn
              exact ⟨_, n, Prog.run_bind_error hn _, rfl⟩
          | ok r =>
              rw [hread] at hn
              dsimp only [Except.map, Cell.eraseSlot]
              rw [run, Prog.run_bind_ok hn]
              dsimp only
              by_cases hret : r.1 = .ok
              · rw [if_pos hret, if_pos hret, ← Object.erase_setSlot]
                obtain ⟨r', n', hrun, hr'⟩ := @ih { s with blocks := n } (obj.setSlot i r.2)
                exact ⟨r', n', hrun, hr'⟩
              · rw [if_neg hret, if_neg hret, ← Object.erase_setSlot]
                exact ⟨_, n, rfl, rfl⟩

/-- What a select loop parses into a fresh row is what the result row decodes to. -/
theorem parseSelectResult_run (allocator : Allocator) (h : Handle) (t : TableSelect) :
    ∃ r n, o.run (parseSelectResult allocator (some h) t.selectColumns.indexesInResult
        (.fresh t.tableDesc)) s = (r, { s with blocks := n }) ∧
      r.map eraseResult = decode t s.current :=
  parseColumns_run allocator h _ _ _

end Outside
end Sorm
