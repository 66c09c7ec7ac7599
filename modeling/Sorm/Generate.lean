import Sorm.ParsedTables

/-!
# The program that generates

The loop of `main` in `generate.c` over the input files. Whether a primary key has been seen is kept
from one file to the next, and the list, the columns and the table with a second one are freed and
used again. So the files of a run are independent of each other only if one of them at most has a
primary key.
-/

namespace Sorm

open ParserLex ParserYacc

def isPk : SormConstraint → Bool
  | .pk | .pkAsc | .pkDesc => true
  | .none | .unique => false

inductive Ending
  /-- `return 0` -/
  | finished
  /-- `return -1`: there is no statement to read. -/
  | failed
  /-- There is a file behind one that the parser has rejected; what was left unread of that one
  would precede it. -/
  | rejected
  /-- A block is used or freed that has been freed. -/
  | misused
  /-- The address of a copy is lost, or a byte is written that is none of the buffer. -/
  | undefined
deriving DecidableEq, Repr

/-- What `main` allocates for one file, less the column under construction. -/
inductive HeapBlock
  | tableDesc
  | columns
  | listHead
  | node (i : ℕ)
deriving DecidableEq, Repr

def touch (freed : List HeapBlock) (block : HeapBlock) : Except Ending Unit :=
  if block ∈ freed then .error .misused else .ok ()

def release (freed : List HeapBlock) (block : HeapBlock) : Except Ending (List HeapBlock) :=
  if block ∈ freed then .error .misused else .ok (block :: freed)

/-- `sorm_list_free` on the list of `n` columns. -/
def freeColumnsList (n : ℕ) (freed : List HeapBlock) : Except Ending (List HeapBlock) := do
  touch freed .listHead
  let freed ← (List.range n).foldlM (fun freed i => release freed (.node i)) freed
  release freed .listHead

/-- The loop over `columns_list_head`, with `n` columns, from the `i`-th one on: `has_PK` and
`PK_index` behind it, and what has been freed. -/
def readPk (n : ℕ) : ℕ → List ColumnDesc → Bool → Option ℕ → List HeapBlock →
    Except Ending (Bool × Option ℕ × List HeapBlock)
  | _, [], hasPk, pkIndex, freed => .ok (hasPk, pkIndex, freed)
  | i, column :: columns, hasPk, pkIndex, freed => do
      touch freed .tableDesc
      touch freed .columns
      let freed ← release freed (.node i)
      if isPk column.constraint then
        if hasPk then do
          let freed ← freeColumnsList n freed
          let freed ← release freed .columns
          let freed ← release freed .tableDesc
          readPk n (i + 1) columns hasPk pkIndex freed
        else readPk n (i + 1) columns true (some i) freed
      else readPk n (i + 1) columns hasPk pkIndex freed

/-- What the generators are called with, and what is freed around the calls. -/
def closeTable (freed : List HeapBlock) : Except Ending (List HeapBlock) := do
  let freed ← release freed .listHead
  touch freed .tableDesc
  touch freed .columns
  let freed ← release freed .columns
  release freed .tableDesc

/-- Whether the parser accepts the file, which `main` does not ask, `has_PK` behind it, and the table
that the generators are called with. -/
def readTable (strdup : ℕ → Address) (hasPk : Bool) (file : Text) :
    Except Ending (Bool × Bool × GenTable) :=
  match parse strdup file with
  | .error _ => .error .undefined
  | .ok (accepted, parsed) =>
      match readStatement file with
      | none => .error .failed
      | some createSql =>
          if file.head? = some '\x00' then .error .undefined
          else do
            let (hasPk, pkIndex, freed) ←
              readPk parsed.columnsNum 0 parsed.columnsList hasPk none []
            let _ ← closeTable freed
            match parsed.name with
            | none => .error .undefined
            | some name => return (accepted, hasPk, ⟨name, parsed.columnsList, pkIndex, createSql⟩)

/-- The tables that the generators are called with, where the k-th copy made of the i-th file lies at
`strdup i k`; a file that cannot be opened is passed over. -/
def generateFrom (strdup : ℕ → ℕ → Address) :
    ℕ → Bool → List (Option Text) → List (Option GenTable) × Ending
  | _, _, [] => ([], .finished)
  | i, hasPk, none :: files =>
      (none :: (generateFrom strdup (i + 1) hasPk files).1,
        (generateFrom strdup (i + 1) hasPk files).2)
  | i, hasPk, some file :: files =>
      match readTable (strdup i) hasPk file with
      | .error ending => ([], ending)
      | .ok (accepted, hasPk, table) =>
          if accepted || files.isEmpty then
            (some table :: (generateFrom strdup (i + 1) hasPk files).1,
              (generateFrom strdup (i + 1) hasPk files).2)
          else ([some table], .rejected)

def generateMain (strdup : ℕ → ℕ → Address) (files : List (Option Text)) :
    List (Option GenTable) × Ending := generateFrom strdup 0 false files

def pkCount (columns : List ColumnDesc) : ℕ := columns.countP fun column => isPk column.constraint

/-- Of the blocks of a file the nodes before the `i`-th one have been freed. -/
def FreedBefore (i : ℕ) (freed : List HeapBlock) : Prop :=
  ∀ block, block ∈ freed ↔ ∃ j < i, block = .node j

section Heap
variable {i n : ℕ} {freed : List HeapBlock}

theorem freedBefore_zero : FreedBefore 0 [] := fun _ =>
  ⟨fun h => absurd h List.not_mem_nil, fun ⟨j, hj, _⟩ => absurd hj (Nat.not_lt_zero j)⟩

theorem FreedBefore.notMem (h : FreedBefore i freed) (block : HeapBlock)
    (hblock : ∀ j < i, block ≠ .node j) : block ∉ freed := by
  intro hmem
  obtain ⟨j, hj, heq⟩ := (h block).mp hmem
  exact hblock j hj heq

theorem FreedBefore.touch (h : FreedBefore i freed) (block : HeapBlock)
    (hblock : ∀ j < i, block ≠ .node j) : Sorm.touch freed block = .ok () := by
  rw [Sorm.touch, if_neg (h.notMem block hblock)]

theorem FreedBefore.node (h : FreedBefore i freed) :
    release freed (.node i) = .ok (.node i :: freed) ∧ FreedBefore (i + 1) (.node i :: freed) := by
  constructor
  · rw [release, if_neg (h.notMem _ fun j hj heq => by cases heq; omega)]
  · intro block
    rw [List.mem_cons, h block]
    constructor
    · rintro (rfl | ⟨j, hj, rfl⟩)
      · exact ⟨i, by omega, rfl⟩
      · exact ⟨j, by omega, rfl⟩
    · rintro ⟨j, hj, rfl⟩
      by_cases hlast : j = i
      · exact Or.inl (hlast ▸ rfl)
      · exact Or.inr ⟨j, by omega, rfl⟩

/-- A list whose first node has been freed is not freed again without using it. -/
theorem freeColumnsList_misused (h : FreedBefore (i + 1) freed) (hn : 0 < n) :
    freeColumnsList n freed = .error .misused := by
  obtain ⟨n, rfl⟩ := Nat.exists_eq_succ_of_ne_zero (Nat.pos_iff_ne_zero.mp hn)
  have hzero : HeapBlock.node 0 ∈ freed := (h _).mpr ⟨0, by omega, rfl⟩
  have hrelease : release freed (.node 0) = .error .misused := by rw [release, if_pos hzero]
  have htouch := h.touch .listHead fun j _ => HeapBlock.noConfusion
  unfold freeColumnsList
  rw [htouch, List.range_succ_eq_map, List.foldlM_cons, hrelease]
  rfl

theorem closeTable_ok (h : FreedBefore i freed) :
    closeTable freed = .ok (.tableDesc :: .columns :: .listHead :: freed) := by
  have hhead := h.notMem .listHead fun j _ => HeapBlock.noConfusion
  have hcolumns := h.notMem .columns fun j _ => HeapBlock.noConfusion
  have htable := h.notMem .tableDesc fun j _ => HeapBlock.noConfusion
  have hrelease : release freed .listHead = .ok (.listHead :: freed) := by
    rw [release, if_neg hhead]
  unfold closeTable
  rw [hrelease]
  simp [touch, release, hcolumns, htable, bind, Except.bind]

end Heap

/-- One round: its column is the second one with a key, or the loop goes on. -/
theorem readPk_cons {n i : ℕ} {freed : List HeapBlock} (h : FreedBefore i freed) (hn : i < n)
    (column : ColumnDesc) (columns : List ColumnDesc) (hasPk : Bool) (pkIndex : Option ℕ) :
    readPk n i (column :: columns) hasPk pkIndex freed =
      if isPk column.constraint then
        if hasPk then .error .misused
        else readPk n (i + 1) columns true (some i) (.node i :: freed)
      else readPk n (i + 1) columns hasPk pkIndex (.node i :: freed) := by
  have htable := h.touch .tableDesc fun j _ => HeapBlock.noConfusion
  have hcolumns := h.touch .columns fun j _ => HeapBlock.noConfusion
  obtain ⟨hrelease, hnext⟩ := h.node
  rw [readPk, htable, hcolumns, hrelease]
  change (if isPk column.constraint then if hasPk then _ else _ else _) = _
  by_cases hpk : isPk column.constraint
  · rw [if_pos hpk, if_pos hpk]
    by_cases hkeyed : hasPk
    · rw [if_pos hkeyed, if_pos hkeyed, freeColumnsList_misused hnext (by omega)]
      rfl
    · rw [if_neg hkeyed, if_neg hkeyed]
  · rw [if_neg hpk, if_neg hpk]

theorem pkCount_cons (column : ColumnDesc) (columns : List ColumnDesc) :
    pkCount (column :: columns) = pkCount columns + if isPk column.constraint then 1 else 0 :=
  List.countP_cons

section Loop
variable {n i : ℕ} {columns : List ColumnDesc} {freed : List HeapBlock}

theorem readPk_of_none (h : pkCount columns = 0) (hfreed : FreedBefore i freed)
    (hn : i + columns.length = n) (hasPk : Bool) (pkIndex : Option ℕ) : ∃ freed',
    readPk n i columns hasPk pkIndex freed = .ok (hasPk, pkIndex, freed') ∧
      FreedBefore n freed' := by
  induction columns generalizing i freed with
  | nil =>
      obtain rfl : i = n := hn
      exact ⟨freed, rfl, hfreed⟩
  | cons column columns ih =>
      rw [List.length_cons] at hn
      rw [pkCount_cons] at h
      have hnot : isPk column.constraint ≠ true := by
        intro hpk
        rw [if_pos hpk] at h
        omega
      rw [readPk_cons hfreed (by omega), if_neg hnot]
      exact ih (by omega) hfreed.node.2 (by omega)

theorem readPk_true (h : pkCount columns ≠ 0) (hfreed : FreedBefore i freed)
    (hn : i + columns.length = n) (pkIndex : Option ℕ) :
    readPk n i columns true pkIndex freed = .error .misused := by
  induction columns generalizing i freed with
  | nil => exact absurd rfl h
  | cons column columns ih =>
      rw [List.length_cons] at hn
      rw [readPk_cons hfreed (by omega)]
      by_cases hpk : isPk column.constraint
      · rw [if_pos hpk, if_pos rfl]
      · rw [pkCount_cons, if_neg hpk, Nat.add_zero] at h
        rw [if_neg hpk]
        exact ih h hfreed.node.2 (by omega)

/-- The loop ends if there is at most one key, counting the one of an earlier file; the key of these
columns is found where it is. -/
theorem readPk_eq (hfreed : FreedBefore i freed) (hn : i + columns.length = n) (hasPk : Bool) :
    (hasPk.toNat + pkCount columns ≤ 1 → ∃ freed',
      readPk n i columns hasPk none freed =
        .ok (decide (hasPk.toNat + pkCount columns = 1),
          (columns.findIdx? fun column => isPk column.constraint).map (i + ·), freed') ∧
      FreedBefore n freed') ∧
    (¬ hasPk.toNat + pkCount columns ≤ 1 →
      readPk n i columns hasPk none freed = .error .misused) := by
  induction columns generalizing i freed with
  | nil =>
      obtain rfl : i = n := hn
      refine ⟨fun _ => ⟨freed, ?_, hfreed⟩, fun hmore => absurd ?_ hmore⟩
      · cases hasPk <;> rfl
      · cases hasPk <;> decide
  | cons column columns ih =>
      rw [List.length_cons] at hn
      rw [readPk_cons hfreed (by omega), pkCount_cons, List.findIdx?_cons]
      by_cases hpk : isPk column.constraint
      · rw [if_pos hpk, if_pos hpk, if_pos hpk]
        cases hasPk with
        | true =>
            rw [if_pos rfl, Bool.toNat_true]
            exact ⟨fun hone => absurd hone (by omega), fun _ => rfl⟩
        | false =>
            rw [if_neg Bool.false_ne_true, Bool.toNat_false]
            by_cases hzero : pkCount columns = 0
            · obtain ⟨freed', hread, hfreed'⟩ :=
                @readPk_of_none n (i + 1) _ _ hzero hfreed.node.2 (by omega) true (some i)
              rw [hzero]
              exact ⟨fun _ => ⟨freed', hread, hfreed'⟩, fun hmore => absurd hmore (by omega)⟩
            · rw [readPk_true hzero hfreed.node.2 (by omega)]
              exact ⟨fun hone => absurd hone (by omega), fun _ => rfl⟩
      · have hshift : ((i + 1) + ·) = (i + ·) ∘ (· + 1) := by
          funext k
          simp only [Function.comp_apply]
          omega
        have hrest := ih hfreed.node.2 (by omega : i + 1 + columns.length = n)
        rw [if_neg hpk, if_neg hpk, if_neg hpk, Nat.add_zero, Option.map_map, ← hshift]
        exact hrest

end Loop

/-- A file that the parser accepts. Its first byte is not a NUL, behind which nothing would be read
of the statement. -/
structure Accepted (file : Text) : Prop where
  parses : (yyparse (yylex file)).1 = true
  head : file.head? ≠ some '\x00'

def columnsOf (file : Text) : List ColumnDesc := (yyparse (yylex file)).2.columnsList

def describedBy (name file createSql : Text) : GenTable where
  name := name
  columns := columnsOf file
  pkIndex := (columnsOf file).findIdx? fun column => isPk column.constraint
  createSql := createSql

/-- A file is read if the copies of its words can be found again, its first byte is none that ends
the statement, and it has the only key so far. -/
theorem readTable_eq {file : Text} (hne : file ≠ []) : ∃ createSql,
    readStatement file = some createSql ∧ ∀ (strdup : ℕ → Address) (hasPk : Bool),
      readTable strdup hasPk file =
        if CopiesFit strdup file ∧ file.head? ≠ some '\x00' then
          if hasPk.toNat + pkCount (columnsOf file) ≤ 1 then
            match (yyparse (yylex file)).2.name with
            | none => .error .undefined
            | some name => .ok ((yyparse (yylex file)).1,
                decide (hasPk.toNat + pkCount (columnsOf file) = 1), describedBy name file createSql)
          else .error .misused
        else .error .undefined := by
  have hsql : readStatement file =
      some ((fgets (sqlStmtMaxLen + 1) file).takeWhile (· ≠ '\x00')).dropLast := if_neg hne
  refine ⟨_, hsql, fun strdup hasPk => ?_⟩
  rw [readTable]
  obtain ⟨hfit, hrun⟩ | ⟨hfit, hrun⟩ := parse_eq strdup file
  · have hnum : (yyparse (yylex file)).2.columnsNum = (columnsOf file).length :=
      (yyparse_parsed file).1
    have hlisted : (yyparse (yylex file)).2.columnsList = columnsOf file := rfl
    obtain ⟨hone, hmore⟩ := readPk_eq freedBefore_zero
      (show 0 + (columnsOf file).length = (columnsOf file).length by omega) hasPk
    have hzero : ((columnsOf file).findIdx? fun column => isPk column.constraint).map (0 + ·) =
        (columnsOf file).findIdx? fun column => isPk column.constraint := by
      simp
    rw [hrun]
    dsimp only
    rw [hsql, hnum, hlisted]
    dsimp only
    by_cases hhead : file.head? = some '\x00'
    · rw [if_pos hhead, if_neg fun hboth => hboth.2 hhead]
    · rw [if_neg hhead, if_pos ⟨hfit, hhead⟩]
      by_cases hkeys : hasPk.toNat + pkCount (columnsOf file) ≤ 1
      · obtain ⟨freed, hread, hfreed⟩ := hone hkeys
        rw [if_pos hkeys, hread, hzero]
        change (closeTable freed).bind _ = _
        rw [closeTable_ok hfreed]
        rfl
      · rw [if_neg hkeys, hmore hkeys]
        rfl
  · rw [hrun, if_neg fun hboth => hfit hboth.1]

/-- The table of a file on its own. -/
def tableOf (file : Text) : GenTable :=
  describedBy ((yyparse (yylex file)).2.name.getD []) file ((readStatement file).getD [])

theorem readTable_accepted {file : Text} (h : Accepted file) (strdup : ℕ → Address)
    (hasPk : Bool) : readTable strdup hasPk file =
      if CopiesFit strdup file then
        if hasPk.toNat + pkCount (columnsOf file) ≤ 1 then
          .ok (true, decide (hasPk.toNat + pkCount (columnsOf file) = 1), tableOf file)
        else .error .misused
      else .error .undefined := by
  have hne : file ≠ [] := by
    rintro rfl
    exact absurd h.parses (by decide)
  obtain ⟨name, hname⟩ := (yyparse_parsed file).2.2.2 h.parses
  obtain ⟨createSql, hsql, hread⟩ := readTable_eq hne
  rw [hread, hname, h.parses, tableOf, hname, hsql]
  by_cases hfit : CopiesFit strdup file
  · rw [if_pos hfit, if_pos ⟨hfit, h.head⟩]
    rfl
  · rw [if_neg hfit, if_neg fun hboth => hfit hboth.1]

theorem readTable_parsed {strdup : ℕ → Address} {file : Text} {hasPk accepted hasPk' : Bool}
    {t : GenTable} (h : readTable strdup hasPk file = .ok (accepted, hasPk', t)) :
    t.Parsed ∧ pkCount t.columns ≤ 1 ∧
      t.pkIndex = t.columns.findIdx? fun column => isPk column.constraint := by
  have hne : file ≠ [] := by
    rintro rfl
    rw [readTable] at h
    obtain ⟨-, hrun⟩ | ⟨-, hrun⟩ := parse_eq strdup []
    · rw [hrun] at h
      cases h
    · rw [hrun] at h
      cases h
  obtain ⟨-, hcolumns, hnamed, -⟩ := yyparse_parsed file
  obtain ⟨createSql, -, hread⟩ := readTable_eq hne
  rw [hread] at h
  split_ifs at h with hfit hone
  cases hname : (yyparse (yylex file)).2.name with
  | none =>
      rw [hname] at h
      cases h
  | some name =>
      rw [hname] at h
      obtain ⟨-, hrest⟩ := Prod.mk.inj (Except.ok.inj h)
      obtain ⟨-, rfl⟩ := Prod.mk.inj hrest
      exact ⟨⟨hnamed name hname, hcolumns⟩, (Nat.le_add_left _ _).trans hone, rfl⟩

def filesPkCount (files : List Text) : ℕ := (files.map fun file => pkCount (columnsOf file)).sum

/-- The addresses of the copies survive, whichever file they are made of; the first file is the
`i`-th one of the run. -/
def AllCopiesFit (strdup : ℕ → ℕ → Address) (i : ℕ) (files : List Text) : Prop :=
  ∀ j file, files[j]? = some file → CopiesFit (strdup (i + j)) file

theorem allCopiesFit_cons {strdup : ℕ → ℕ → Address} {i : ℕ} {file : Text} {files : List Text} :
    AllCopiesFit strdup i (file :: files) ↔
      CopiesFit (strdup i) file ∧ AllCopiesFit strdup (i + 1) files := by
  constructor
  · intro h
    refine ⟨h 0 file rfl, fun j file' hfile => ?_⟩
    have hnext := h (j + 1) file' hfile
    rwa [Nat.add_comm j 1, ← Nat.add_assoc] at hnext
  · rintro ⟨hfirst, hrest⟩ j file' hfile
    cases j with
    | zero =>
        obtain rfl := Option.some.inj hfile
        exact hfirst
    | succ j =>
        have hnext := hrest j file' hfile
        rwa [Nat.add_assoc, Nat.add_comm 1 j] at hnext

theorem generateFrom_eq {files : List Text} (h : ∀ file ∈ files, Accepted file)
    (strdup : ℕ → ℕ → Address) (i : ℕ) (hasPk : Bool) :
    (AllCopiesFit strdup i files ∧ hasPk.toNat + filesPkCount files ≤ 1 →
      generateFrom strdup i hasPk (files.map some) =
        (files.map fun file => some (tableOf file), .finished)) ∧
    (¬ (AllCopiesFit strdup i files ∧ hasPk.toNat + filesPkCount files ≤ 1) →
      (generateFrom strdup i hasPk (files.map some)).2 = .misused ∨
        (generateFrom strdup i hasPk (files.map some)).2 = .undefined) := by
  induction files generalizing i hasPk with
  | nil =>
      refine ⟨fun _ => rfl, fun hnot => absurd ⟨nofun, ?_⟩ hnot⟩
      cases hasPk <;> decide
  | cons file files ih =>
      have hrest := ih fun file' hmem => h file' (List.mem_cons_of_mem _ hmem)
      have hcount : filesPkCount (file :: files) =
          pkCount (columnsOf file) + filesPkCount files := List.sum_cons
      rw [hcount, allCopiesFit_cons, List.map_cons, List.map_cons, generateFrom,
        readTable_accepted (h file List.mem_cons_self)]
      by_cases hfit : CopiesFit (strdup i) file
      · rw [if_pos hfit]
        by_cases hone : hasPk.toNat + pkCount (columnsOf file) ≤ 1
        · rw [if_pos hone]
          have hnat : (decide (hasPk.toNat + pkCount (columnsOf file) = 1)).toNat =
              hasPk.toNat + pkCount (columnsOf file) := by
            by_cases heq : hasPk.toNat + pkCount (columnsOf file) = 1
            · rw [heq]
              rfl
            · obtain hzero : hasPk.toNat + pkCount (columnsOf file) = 0 := by omega
              rw [hzero]
              rfl
          obtain ⟨hfinish, hbreak⟩ :=
            hrest (i + 1) (decide (hasPk.toNat + pkCount (columnsOf file) = 1))
          rw [hnat, Nat.add_assoc] at hfinish hbreak
          dsimp only
          rw [Bool.true_or, if_pos rfl]
          constructor
          · rintro ⟨⟨-, hfits⟩, hall⟩
            rw [hfinish ⟨hfits, hall⟩]
          · intro hnot
            exact hbreak fun hall => hnot ⟨⟨hfit, hall.1⟩, hall.2⟩
        · rw [if_neg hone]
          exact ⟨fun hall => absurd hall.2 (by omega), fun _ => Or.inl rfl⟩
      · rw [if_neg hfit]
        exact ⟨fun hall => absurd hall.1.1 hfit, fun _ => Or.inr rfl⟩

def keyedFile : Text := "CREATE TABLE a (id INTEGER PRIMARY KEY)\n".toList

theorem accepted_keyedFile : Accepted keyedFile := ⟨by decide +kernel, by decide +kernel⟩

theorem pkCount_keyedFile : pkCount (columnsOf keyedFile) = 1 := by decide +kernel

/-- The texts of the two files that are generated. -/
structure Generated where
  header : Option Text
  source : Option Text
deriving DecidableEq

/-- What a run has generated for its `i`-th file. -/
def generatedFor (tables : List (Option GenTable)) (i : ℕ) (file : Text) : Option Generated :=
  tables[i]?.join.map fun t => ⟨headerGenerate t, cGenerate t (some file)⟩

/-- The input files of a run are independent of each other: what is generated for each is what a run
on it alone generates, nothing is generated for one with several primary keys, and no block is used
after it was freed. -/
structure IndependentFiles (strdup : ℕ → ℕ → Address) (files : List Text) : Prop where
  alone : ∀ i file, files[i]? = some file → ∀ strdup' tables,
    generateMain strdup' [some file] = (tables, .finished) →
      generatedFor (generateMain strdup (files.map some)).1 i file = generatedFor tables 0 file
  keyed : ∀ i file, files[i]? = some file → 1 < pkCount (columnsOf file) →
    generatedFor (generateMain strdup (files.map some)).1 i file = none
  unfreed : (generateMain strdup (files.map some)).2 ≠ .misused
  isDefined : (generateMain strdup (files.map some)).2 ≠ .undefined

theorem accepted_keyedTwice : ∀ file ∈ [keyedFile, keyedFile], Accepted file := by
  intro file hmem
  obtain rfl | hmem := List.mem_cons.mp hmem
  · exact accepted_keyedFile
  · obtain rfl := List.mem_singleton.mp hmem
    exact accepted_keyedFile

end Sorm
