import Sorm.IndexNames
import Sorm.StatementBuffers

/-!
# The schema that a descriptor describes

`sorm_create_table` prints the table and the indexes on its foreign keys as statements in one text.
The first of them is the table as the descriptor has it, and it is the only one that is executed.
-/

namespace Sorm

open Interaction Monitor Sql SqlSchema

def itemsFrom (fuel : ℕ) (t : Token) (rest : List Token) (i : Item) : Option (List Item) :=
  if rest = [] then if t = rp then some [i] else none
  else if t = comma then (items fuel rest).map (i :: ·) else none

theorem items_of_item {fuel : ℕ} {ts rest : List Token} {i : Item} {t : Token}
    (h : item (ts ++ t :: rest) = some (i, t :: rest)) :
    items (fuel + 1) (ts ++ t :: rest) = itemsFrom fuel t rest i := by
  rw [items, h, itemsFrom]
  cases rest with
  | nil => rfl
  | cons t' rest => rfl

/-- A text with a comma or the closing parenthesis behind it, and the item it is read as, if it can
be read. -/
def Prints (x : Text) (i : Option Item) : Prop :=
  ∃ ts, ts ≠ [] ∧ (∀ t ∈ ts, t.type ≠ .semi) ∧
    (∀ c z, c = ',' ∨ c = ')' → tokens (x ++ c :: z) = ts ++ tokens (c :: z)) ∧
    ∀ fuel t rest, t = comma ∨ t = rp →
      items (fuel + 1) (ts ++ t :: rest) = i.bind (itemsFrom fuel t rest)

def closed : List Text → Text
  | [] => []
  | [x] => x ++ [')']
  | x :: y :: xs => x ++ ',' :: closed (y :: xs)

theorem replaceLast_commas (head : Text) {xs : List Text} (hne : xs ≠ []) :
    replaceLast ')' (head ++ (xs.map (· ++ [','])).flatten) = head ++ closed xs := by
  induction xs generalizing head with
  | nil => exact absurd rfl hne
  | cons x xs ih =>
      cases xs with
      | nil =>
          have hcut : cutLast 1 (head ++ x ++ [',']) = head ++ x := by
            unfold cutLast
            rw [List.length_append, List.length_singleton, Nat.add_sub_cancel, List.take_left]
          rw [List.map_singleton, List.flatten_singleton, ← List.append_assoc, replaceLast, hcut,
            List.append_assoc]
          rfl
      | cons y xs =>
          have hrest := ih (head ++ (x ++ [','])) (List.cons_ne_nil _ _)
          rw [List.map_cons, List.flatten_cons, ← List.append_assoc, hrest, closed]
          simp only [List.append_assoc, List.singleton_append]

/-- The tokens of a list of items, and what is read from them. -/
theorem tokens_closed {xs : List Text} {is : List (Option Item)} (h : List.Forall₂ Prints xs is)
    (hne : xs ≠ []) : ∃ ts, (∀ z, tokens (closed xs ++ z) = ts ++ tokens z) ∧
      (∀ t ∈ ts, t.type ≠ .semi) ∧ xs.length ≤ ts.length ∧
      ∀ fuel, xs.length ≤ fuel → items fuel ts = is.mapM id := by
  induction h with
  | nil => exact absurd rfl hne
  | @cons x i xs is hx hxs ih =>
      obtain ⟨ts, hts, hsemi, htokens, hitem⟩ := hx
      have hlength := List.length_pos_iff.mpr hts
      cases xs with
      | nil =>
          cases hxs
          refine ⟨ts ++ [rp], fun z => ?_, fun t ht => ?_, ?_, fun fuel hfuel => ?_⟩
          · rw [closed, List.append_assoc, List.singleton_append, htokens _ _ (.inr rfl), tokens_rp,
              List.append_assoc]
            rfl
          · rcases List.mem_append.mp ht with ht | ht
            · exact hsemi t ht
            · rw [List.mem_singleton.mp ht]
              decide
          · rw [List.length_append]
            exact Nat.le_add_left _ _
          · obtain ⟨fuel, rfl⟩ := Nat.exists_eq_succ_of_ne_zero (Nat.ne_of_gt hfuel)
            rw [hitem fuel rp [] (.inr rfl), List.mapM_cons]
            cases i <;> rfl
      | cons y xs =>
          obtain ⟨rest, hrest, hrestSemi, hrestLength, hitems⟩ := ih (List.cons_ne_nil _ _)
          refine ⟨ts ++ comma :: rest, fun z => ?_, fun t ht => ?_, ?_, fun fuel hfuel => ?_⟩
          · rw [closed, List.append_assoc, List.cons_append, htokens _ _ (.inl rfl), tokens_comma,
              hrest, List.append_assoc]
            rfl
          · rcases List.mem_append.mp ht with ht | ht
            · exact hsemi t ht
            · rcases List.mem_cons.mp ht with rfl | ht
              · decide
              · exact hrestSemi t ht
          · simp only [List.length_append, List.length_cons] at hrestLength ⊢
            omega
          · obtain ⟨fuel, rfl⟩ := Nat.exists_eq_succ_of_ne_zero
              (Nat.ne_of_gt (Nat.lt_of_lt_of_le (Nat.succ_pos _) hfuel))
            have hrestNe : rest ≠ [] := by
              intro hnil
              rw [hnil, List.length_nil] at hrestLength
              exact absurd hrestLength (Nat.not_succ_le_zero _)
            have hitemsFrom : itemsFrom fuel comma rest = fun i =>
                (is.mapM id).map (i :: ·) := by
              funext i
              rw [itemsFrom, if_neg hrestNe, if_pos rfl, hitems fuel (Nat.le_of_succ_le_succ hfuel)]
            rw [hitem fuel comma rest (.inl rfl), hitemsFrom, List.mapM_cons]
            cases i with
            | none => rfl
            | some i => cases is.mapM id <;> rfl

def keyOf : SormConstraint → Key
  | .pk => .primary none
  | .pkAsc => .primary (some .ascending)
  | .pkDesc => .primary (some .descending)
  | .unique => .unique
  | .none => .none

def columnOf (column : ColumnDescriptor) : Column :=
  ⟨column.name, (sormTypeDbStr column.type).getD [], keyOf column.constraint⟩

/-- What is read where a column is printed: a column named `constraint` is a `CONSTRAINT` without a
table constraint behind it, which no key follows. -/
def itemOf (column : ColumnDescriptor) : Option Item :=
  if isConstraint column.name then
    if column.constraint = .none then some .constraintName else none
  else some (.column (columnOf column))

def foreignKeyOf (column : ColumnDescriptor) : ForeignKey :=
  ⟨column.name, column.foreignTableName, column.foreignColumnName⟩

def constraintWords : SormConstraint → List Token
  | .pk => [word "PRIMARY", word "KEY"]
  | .pkAsc => [word "PRIMARY", word "KEY", word "ASC"]
  | .pkDesc => [word "PRIMARY", word "KEY", word "DESC"]
  | .unique => [word "UNIQUE"]
  | .none => []

def columnText (column : ColumnDescriptor) : Text :=
  ' ' :: column.name ++ ' ' :: (sormTypeDbStr column.type).getD [] ++
    cutLast 1 (createConstraintStr column.constraint)

def foreignKeyText (column : ColumnDescriptor) : Text :=
  " FOREIGN KEY(".toList ++ column.name ++ ") REFERENCES ".toList ++ column.foreignTableName ++
    '(' :: column.foreignColumnName ++ [')']

theorem key_constraintWords (constraint : SormConstraint) {t : Token} (rest : List Token)
    (ht : t = comma ∨ t = rp) :
    key (constraintWords constraint ++ t :: rest) = (keyOf constraint, t :: rest) := by
  rcases ht with rfl | rfl <;> cases constraint <;> rfl

/-- The name of a type and the constraint behind it. -/
theorem tokens_typeConstraint {type : Text} (htype : plainIdentifier type)
    (constraint : SormConstraint) {c : Char} (z : Text) (hc : c = ',' ∨ c = ')') :
    tokens (type ++ (cutLast 1 (createConstraintStr constraint) ++ c :: z)) =
      ⟨.word, type⟩ :: (constraintWords constraint ++ tokens (c :: z)) := by
  have hmark : ∀ {a : Text}, plainIdentifier a →
      tokens (a ++ c :: z) = ⟨.word, a⟩ :: tokens (c :: z) := by
    intro a ha
    exact tokens_nameMark ha z (by tauto)
  have hword : ∀ {w : Text} (z : Text), plainIdentifier w → Unspaced (w ++ z) :=
    fun z hw => unspaced_of_plainIdentifier hw z
  have hprimary : ∀ y : Text, tokens (type ++ ' ' :: ("PRIMARY".toList ++ ' ' ::
      ("KEY".toList ++ y))) = ⟨.word, type⟩ :: word "PRIMARY" :: tokens ("KEY".toList ++ y) := by
    intro y
    rw [tokens_wordBlank htype (hword _ (by decide)),
      tokens_wordBlank (by decide) (hword _ (by decide))]
    rfl
  cases constraint with
  | none => exact hmark htype
  | unique =>
      change tokens (type ++ ' ' :: ("UNIQUE".toList ++ c :: z)) = _
      rw [tokens_wordBlank htype (hword _ (by decide)), hmark (by decide)]
      rfl
  | pk =>
      refine (hprimary (c :: z)).trans ?_
      rw [hmark (by decide)]
      rfl
  | pkAsc =>
      refine (hprimary (' ' :: ("ASC".toList ++ c :: z))).trans ?_
      rw [tokens_wordBlank (by decide) (hword _ (by decide)), hmark (by decide)]
      rfl
  | pkDesc =>
      refine (hprimary (' ' :: ("DESC".toList ++ c :: z))).trans ?_
      rw [tokens_wordBlank (by decide) (hword _ (by decide)), hmark (by decide)]
      rfl

theorem constraintWords_ne_semi (constraint : SormConstraint) :
    ∀ t ∈ constraintWords constraint, t.type ≠ .semi := by
  cases constraint <;> decide

theorem typeName {type : SormType} (h : ∀ code, type ≠ .unknown code) :
    ∃ name, sormTypeDbStr type = some name ∧ plainIdentifier name ∧ name ≠ "KEY".toList := by
  cases type with
  | unknown code => exact absurd rfl (h code)
  | _ => exact ⟨_, rfl, by decide, by decide⟩

/-- No foreign key begins with a name and a type. -/
theorem foreignKey_column {name type : Text} (htype : type ≠ "KEY".toList) (rest : List Token) :
    foreignKey (⟨.word, name⟩ :: ⟨.word, type⟩ :: rest) = none := by
  have hkey : expect (word "KEY") (⟨.word, type⟩ :: rest) = none := by
    refine if_neg fun h => htype ?_
    exact congrArg Token.text h
  unfold foreignKey
  by_cases hname : (⟨.word, name⟩ : Token) = word "FOREIGN"
  · have hexpect : expect (word "FOREIGN") (⟨.word, name⟩ :: ⟨.word, type⟩ :: rest) =
        some (⟨.word, type⟩ :: rest) := if_pos hname
    rw [hexpect, Option.bind_eq_bind, Option.bind_eq_bind, Option.bind_some, hkey]
    rfl
  · have hexpect : expect (word "FOREIGN") (⟨.word, name⟩ :: ⟨.word, type⟩ :: rest) = none :=
      if_neg hname
    rw [hexpect]
    rfl

theorem item_column {name type : Text} (hname : isConstraint name = false)
    (htype : type ≠ "KEY".toList) {constraint : SormConstraint} {t : Token} {rest : List Token}
    (ht : t = comma ∨ t = rp) :
    item (⟨.word, name⟩ :: ⟨.word, type⟩ :: (constraintWords constraint ++ t :: rest)) =
      some (.column ⟨name, type, keyOf constraint⟩, t :: rest) := by
  have hread : SqlSchema.column (⟨.word, name⟩ :: ⟨.word, type⟩ ::
      (constraintWords constraint ++ t :: rest)) =
        some (⟨name, type, keyOf constraint⟩, t :: rest) := by
    simp only [SqlSchema.column, SqlSchema.name, Option.bind_eq_bind, Option.bind_some, hname,
      Bool.false_eq_true, if_false, Option.pure_def, key_constraintWords _ _ ht]
  have hconstraint : constraintName (⟨.word, name⟩ :: ⟨.word, type⟩ ::
      (constraintWords constraint ++ t :: rest)) = none := by
    rw [constraintName, hname]
    rfl
  rw [item, foreignKey_column htype, hconstraint, hread]
  rfl

theorem item_constraintName {name type : Text} (hname : isConstraint name)
    (htype : type ≠ "KEY".toList) (rest : List Token) :
    item (⟨.word, name⟩ :: ⟨.word, type⟩ :: rest) = some (.constraintName, rest) := by
  have hconstraint : constraintName (⟨.word, name⟩ :: ⟨.word, type⟩ :: rest) = some rest := by
    rw [constraintName, if_pos hname]
    rfl
  rw [item, foreignKey_column htype, hconstraint]

/-- No key stands where an item has ended. -/
theorem items_key {ts rest : List Token} {i : Item} {t : Token} {constraint : SormConstraint}
    (hkey : constraint ≠ .none) (fuel : ℕ)
    (h : item (ts ++ (constraintWords constraint ++ t :: rest)) =
      some (i, constraintWords constraint ++ t :: rest)) :
    items (fuel + 1) (ts ++ (constraintWords constraint ++ t :: rest)) = none := by
  rw [items, h]
  cases constraint with
  | none => exact absurd rfl hkey
  | _ => rfl

theorem prints_column {column : ColumnDescriptor} (hname : plainIdentifier column.name)
    (htype : ∀ code, column.type ≠ .unknown code) :
    Prints (columnText column) (itemOf column) := by
  obtain ⟨type, htypeStr, hplain, hkey⟩ := typeName htype
  refine ⟨⟨.word, column.name⟩ :: ⟨.word, type⟩ :: constraintWords column.constraint,
    List.cons_ne_nil _ _, fun t ht => ?_, fun c z hc => ?_, fun fuel t rest ht => ?_⟩
  · rcases List.mem_cons.mp ht with rfl | ht
    · exact nofun
    · rcases List.mem_cons.mp ht with rfl | ht
      · exact nofun
      · exact constraintWords_ne_semi _ t ht
  · have hsplit : columnText column ++ c :: z = ' ' :: (column.name ++ ' ' :: (type ++
        (cutLast 1 (createConstraintStr column.constraint) ++ c :: z))) := by
      unfold columnText
      rw [htypeStr]
      simp only [Option.getD_some, List.append_assoc, List.cons_append]
    rw [hsplit, tokens_space (unspaced_of_plainIdentifier hname _),
      tokens_wordBlank hname (unspaced_of_plainIdentifier hplain _),
      tokens_typeConstraint hplain column.constraint z hc]
    rfl
  · by_cases hconstraint : isConstraint column.name
    · have hitem := item_constraintName hconstraint hkey
        (constraintWords column.constraint ++ t :: rest)
      rw [itemOf, if_pos hconstraint]
      by_cases hnone : column.constraint = .none
      · rw [hnone] at hitem ⊢
        exact @items_of_item fuel [_, _] rest _ t hitem
      · rw [if_neg hnone]
        exact @items_key [_, _] rest _ t _ hnone fuel hitem
    · have hcolumn : columnOf column = ⟨column.name, type, keyOf column.constraint⟩ := by
        rw [columnOf, htypeStr]
        rfl
      rw [itemOf, if_neg hconstraint, hcolumn]
      exact items_of_item (item_column (Bool.eq_false_iff.mpr hconstraint) hkey ht)

theorem prints_foreignKey {column : ColumnDescriptor} (hname : plainIdentifier column.name)
    (htable : plainIdentifier column.foreignTableName)
    (hcolumn : plainIdentifier column.foreignColumnName) :
    Prints (foreignKeyText column) (some (.foreignKey (foreignKeyOf column))) := by
  have hword : ∀ {w : Text} (z : Text), plainIdentifier w → Unspaced (w ++ z) :=
    fun z hw => unspaced_of_plainIdentifier hw z
  refine ⟨[word "FOREIGN", word "KEY", lp, ⟨.word, column.name⟩, rp, word "REFERENCES",
    ⟨.word, column.foreignTableName⟩, lp, ⟨.word, column.foreignColumnName⟩, rp],
    List.cons_ne_nil _ _, fun t ht => ?_, fun c z hc => ?_, fun fuel t rest ht => ?_⟩
  · simp only [List.mem_cons, List.not_mem_nil, or_false] at ht
    rcases ht with rfl | rfl | rfl | rfl | rfl | rfl | rfl | rfl | rfl | rfl <;> exact nofun
  · have hsplit : foreignKeyText column ++ c :: z = ' ' :: ("FOREIGN".toList ++ ' ' ::
        ("KEY".toList ++ '(' :: (column.name ++ ')' :: ' ' :: ("REFERENCES".toList ++ ' ' ::
          (column.foreignTableName ++ '(' :: (column.foreignColumnName ++ ')' :: c :: z)))))) := by
      unfold foreignKeyText
      simp only [List.append_assoc, List.cons_append, List.nil_append]
      rfl
    rw [hsplit, tokens_space (hword _ (by decide)), tokens_wordBlank (by decide)
      (hword _ (by decide)), tokens_nameMark (by decide) _ (by simp), tokens_lp,
      tokens_nameMark hname _ (by simp), tokens_rp, tokens_space (hword _ (by decide)),
      tokens_wordBlank (by decide) (hword _ htable), tokens_nameMark htable _ (by simp), tokens_lp,
      tokens_nameMark hcolumn _ (by simp), tokens_rp]
    rfl
  · exact items_of_item rfl

structure PlainNames (table : TableDescriptor) : Prop where
  name : plainIdentifier table.name
  columns : ∀ column ∈ table.columns, plainIdentifier column.name
  foreign : ∀ column ∈ foreignColumns table,
    plainIdentifier column.foreignTableName ∧ plainIdentifier column.foreignColumnName

def describedTable (conn : Connection) (table : TableDescriptor) : SqlSchema.Table :=
  ⟨table.name, table.columns.map columnOf,
    if sormForeignKeyEnabled conn.flags then (foreignColumns table).map foreignKeyOf else []⟩

def itemTexts (conn : Connection) (table : TableDescriptor) : List Text :=
  table.columns.map columnText ++
    if sormForeignKeyEnabled conn.flags then (foreignColumns table).map foreignKeyText else []

def describedItems (conn : Connection) (table : TableDescriptor) : List (Option Item) :=
  table.columns.map itemOf ++
    (describedTable conn table).foreignKeys.map fun f => some (.foreignKey f)

section Statement

variable {conn : Connection} {table : TableDescriptor}

theorem flatten_createColumnPieces (columns : List ColumnDescriptor) :
    (createColumnPieces columns).flatten =
      ((columns.map columnText).map (· ++ [','])).flatten := by
  have hcomma : ∀ constraint, createConstraintStr constraint =
      cutLast 1 (createConstraintStr constraint) ++ [','] := by
    intro constraint
    cases constraint <;> rfl
  induction columns with
  | nil => rfl
  | cons column columns ih =>
      have hpieces : createColumnPieces (column :: columns) =
          (' ' :: column.name ++ ' ' :: (sormTypeDbStr column.type).getD []) ::
            createConstraintStr column.constraint :: createColumnPieces columns := rfl
      rw [hpieces, List.flatten_cons, List.flatten_cons, ih, hcomma column.constraint,
        List.map_cons, List.map_cons, List.flatten_cons, columnText]
      simp only [List.append_assoc]

theorem foreignKeyPieces_eq : foreignKeyPieces conn table =
    (if sormForeignKeyEnabled conn.flags then (foreignColumns table).map foreignKeyText
      else []).map (· ++ [',']) := by
  unfold foreignKeyPieces
  split
  · rw [List.map_map]
    refine List.map_congr_left fun column _ => ?_
    unfold foreignKeyText
    simp only [Function.comp_apply, List.append_assoc, List.cons_append]
    rfl
  · rfl

theorem createTableHead_append (table : TableDescriptor) (z : Text) : createTableHead table ++ z =
    "CREATE".toList ++ ' ' :: ("TABLE".toList ++ ' ' :: ("IF".toList ++ ' ' :: ("NOT".toList ++
      ' ' :: ("EXISTS".toList ++ ' ' :: (table.name ++ '(' :: z))))) := by
  have hhead : createTableHead table = "CREATE TABLE IF NOT EXISTS ".toList ++
      (table.name ++ ['(']) := List.append_assoc _ _ _
  rw [hhead, List.append_assoc, List.append_assoc]
  rfl

theorem createTableText_eq (hcolumns : table.columns ≠ []) : createTableText conn table =
    createTableHead table ++ (closed (itemTexts conn table) ++ (indexPieces table).flatten) := by
  have hne : itemTexts conn table ≠ [] := by
    intro h
    exact hcolumns (List.map_eq_nil_iff.mp (List.append_eq_nil_iff.mp h).1)
  unfold createTableText
  rw [flatten_createColumnPieces, foreignKeyPieces_eq, List.append_assoc, ← List.flatten_append,
    ← List.map_append]
  change replaceLast ')' (createTableHead table ++
    ((itemTexts conn table).map (· ++ [','])).flatten) ++ _ = _
  rw [replaceLast_commas _ hne, List.append_assoc]

theorem prints_items (hplain : PlainNames table)
    (htypes : ∀ column ∈ table.columns, ∀ code, column.type ≠ .unknown code) :
    List.Forall₂ Prints (itemTexts conn table) (describedItems conn table) := by
  unfold itemTexts describedItems describedTable
  dsimp only
  refine List.rel_append ?_ ?_
  · rw [List.forall₂_map_left_iff, List.forall₂_map_right_iff, List.forall₂_same]
    exact fun column hc => prints_column (hplain.columns column hc) (htypes column hc)
  · split
    · rw [List.map_map, List.forall₂_map_left_iff, List.forall₂_map_right_iff, List.forall₂_same]
      intro column hc
      have hmem := (List.mem_filter.mp hc).1
      exact prints_foreignKey (hplain.columns column hmem) (hplain.foreign column hc).1
        (hplain.foreign column hc).2
    · exact .nil

theorem mapM_id_eq_some {α : Type} {l : List (Option α)} {as : List α} :
    l.mapM id = some as ↔ l = as.map some := by
  induction l generalizing as with
  | nil =>
      cases as with
      | nil => exact iff_of_true rfl rfl
      | cons a as => exact iff_of_false nofun nofun
  | cons a l ih =>
      rw [List.mapM_cons]
      cases a with
      | none =>
          refine iff_of_false nofun fun h => ?_
          cases as with
          | nil => cases h
          | cons a as => cases h
      | some a =>
          cases as with
          | nil => cases l.mapM id <;> simp
          | cons a' as =>
              rw [List.map_cons, List.cons.injEq, ← ih, Option.some_inj]
              cases l.mapM id <;> simp

def definedTable (conn : Connection) (table : TableDescriptor) : Option SqlSchema.Table := do
  let is ← (describedItems conn table).mapM id
  if columnsFirst is then
    return ⟨table.name, is.filterMap Item.column?, is.filterMap Item.foreignKey?⟩
  else none

/-- No column has the name that is a keyword behind a comma. -/
def NamesColumns (table : TableDescriptor) : Prop :=
  ∀ column ∈ table.columns, isConstraint column.name = false

theorem filterMap_describedItems {is : List Item} (h : describedItems conn table = is.map some) :
    is.filterMap Item.column? =
        (table.columns.filter fun column => !isConstraint column.name).map columnOf ∧
      is.filterMap Item.foreignKey? = (describedTable conn table).foreignKeys := by
  have hread : ∀ {α : Type} (f : Item → Option α),
      is.filterMap f = (describedItems conn table).filterMap fun i => i.bind f := by
    intro α f
    rw [h, List.filterMap_map]
    rfl
  constructor
  · have hcolumn : ((fun i : Option Item => i.bind Item.column?) ∘ itemOf) =
        fun column => if !isConstraint column.name then some (columnOf column) else none := by
      funext column
      rw [Function.comp_apply, itemOf]
      by_cases hname : isConstraint column.name
      · rw [if_pos hname, hname]
        by_cases hnone : column.constraint = .none
        · rw [if_pos hnone]
          rfl
        · rw [if_neg hnone]
          rfl
      · rw [if_neg hname, Bool.eq_false_iff.mpr hname]
        rfl
    rw [hread, describedItems, List.filterMap_append, List.filterMap_map, List.filterMap_map,
      hcolumn]
    simp [Function.comp_def, Item.column?, ← List.filterMap_eq_map, List.filterMap_filter]
  · have hcolumn : ((fun i : Option Item => i.bind Item.foreignKey?) ∘ itemOf) =
        fun _ => none := by
      funext column
      rw [Function.comp_apply, itemOf]
      split
      · split <;> rfl
      · rfl
    have hforeign : ((fun i : Option Item => i.bind Item.foreignKey?) ∘
        fun f => some (.foreignKey f)) = some := rfl
    rw [hread, describedItems, List.filterMap_append, List.filterMap_map, List.filterMap_map,
      hcolumn, hforeign, List.filterMap_some]
    simp

theorem definedTable_eq {t : SqlSchema.Table} (h : definedTable conn table = some t) :
    t = ⟨table.name,
      (table.columns.filter fun column => !isConstraint column.name).map columnOf,
      (describedTable conn table).foreignKeys⟩ := by
  rw [definedTable] at h
  cases hread : (describedItems conn table).mapM id with
  | none =>
      rw [hread] at h
      cases h
  | some is =>
      obtain ⟨hcolumns, hforeign⟩ := filterMap_describedItems (mapM_id_eq_some.mp hread)
      rw [hread, Option.bind_eq_bind, Option.bind_some, hcolumns, hforeign] at h
      split at h
      · exact (Option.some.inj h).symm
      · cases h

theorem columnsFirst_append {columns : List Column} (hne : columns ≠ [])
    (foreignKeys : List ForeignKey) :
    columnsFirst (columns.map Item.column ++ foreignKeys.map Item.foreignKey) := by
  have hdrop : ∀ columns : List Column, (columns.map Item.column ++
      foreignKeys.map Item.foreignKey).dropWhile (fun i => i.column?.isSome) =
        foreignKeys.map Item.foreignKey := by
    intro columns
    induction columns with
    | nil => cases foreignKeys <;> rfl
    | cons column columns ih => exact ih
  cases columns with
  | nil => exact absurd rfl hne
  | cons column columns =>
      rw [columnsFirst, hdrop, List.all_map]
      exact List.all_eq_true.mpr fun f _ => rfl

/-- All columns are defined if each has a name. -/
theorem definedTable_of_namesColumns (hcolumns : table.columns ≠ []) (h : NamesColumns table) :
    definedTable conn table = some (describedTable conn table) := by
  have hitems : describedItems conn table =
      ((table.columns.map columnOf).map Item.column ++
        (describedTable conn table).foreignKeys.map Item.foreignKey).map some := by
    rw [describedItems, List.map_append, List.map_map, List.map_map, List.map_map]
    congr 1
    refine List.map_congr_left fun column hc => ?_
    rw [itemOf, h column hc]
    rfl
  obtain ⟨hdefined, hforeign⟩ := filterMap_describedItems hitems
  have hne : table.columns.map columnOf ≠ [] := by simpa using hcolumns
  have hfirst := columnsFirst_append hne (describedTable conn table).foreignKeys
  rw [definedTable, mapM_id_eq_some.mpr hitems, Option.bind_eq_bind, Option.bind_some, hdefined,
    hforeign, if_pos hfirst, List.filter_eq_self.mpr fun column hc => by rw [h column hc]; rfl]
  rfl

/-- The first statement of the text is the one that defines the table, and the rest is behind a
semicolon. -/
theorem firstStatement_createTable (hplain : PlainNames table) (hcolumns : table.columns ≠ [])
    (htypes : ∀ column ∈ table.columns, ∀ code, column.type ≠ .unknown code)
    (hlength : (createTableText conn table).length ≤ sqlStmtMaxLen) :
    ∃ stmt, Execution.firstStatement (createTableText conn table) sqlStmtMaxLen = some stmt ∧
      definition stmt = (definedTable conn table).map (.createTable true) := by
  have hne : itemTexts conn table ≠ [] := by
    intro h
    exact hcolumns (List.map_eq_nil_iff.mp (List.append_eq_nil_iff.mp h).1)
  obtain ⟨ts, htokens, hsemi, hts, hitems⟩ := tokens_closed (prints_items hplain htypes) hne
  have hword : ∀ {w : Text} (z : Text), plainIdentifier w → Unspaced (w ++ z) :=
    fun z hw => unspaced_of_plainIdentifier hw z
  have hall : tokens (createTableText conn table) = word "CREATE" :: word "TABLE" ::
      ((word "IF" :: word "NOT" :: word "EXISTS" :: ⟨.word, table.name⟩ :: lp :: ts) ++
        tokens (indexPieces table).flatten) := by
    have hsplit : createTableText conn table = "CREATE".toList ++ ' ' :: ("TABLE".toList ++
        ' ' :: ("IF".toList ++ ' ' :: ("NOT".toList ++ ' ' :: ("EXISTS".toList ++ ' ' ::
          (table.name ++ '(' :: (closed (itemTexts conn table) ++
            (indexPieces table).flatten)))))) := by
      rw [createTableText_eq hcolumns, createTableHead_append]
    rw [hsplit, tokens_wordBlank (by decide) (hword _ (by decide)),
      tokens_wordBlank (by decide) (hword _ (by decide)),
      tokens_wordBlank (by decide) (hword _ (by decide)),
      tokens_wordBlank (by decide) (hword _ (by decide)),
      tokens_wordBlank (by decide) (hword _ hplain.name),
      tokens_nameMark hplain.name _ (by simp), tokens_lp, htokens]
    rfl
  have hread : ∀ t ∈ word "IF" :: word "NOT" :: word "EXISTS" :: ⟨.word, table.name⟩ :: lp :: ts,
      t.type ≠ .semi := by
    intro t ht
    simp only [List.mem_cons] at ht
    rcases ht with rfl | rfl | rfl | rfl | rfl | ht
    · decide
    · decide
    · decide
    · exact nofun
    · decide
    · exact hsemi t ht
  have hnil : [word "CREATE", word "TABLE"] ≠ [] := List.cons_ne_nil _ _
  refine ⟨word "CREATE" :: word "TABLE" :: word "IF" :: word "NOT" :: word "EXISTS" ::
    ⟨.word, table.name⟩ :: lp :: ts, ?_, ?_⟩
  · unfold Execution.firstStatement statements
    rw [List.take_of_length_le hlength, hall]
    change (statementsFrom .normal [word "CREATE", word "TABLE"] _).head? = _
    cases hindexes : indexPieces table with
    | nil =>
        rw [List.flatten_nil, tokens_nil, List.append_nil, statementsFrom_normal hnil hread]
        rfl
    | cons piece pieces =>
        have hpiece : ∃ z, piece = ';' :: z := by
          have hmem : piece ∈ indexPieces table := hindexes ▸ List.mem_cons_self
          obtain ⟨column, -, rfl⟩ := List.mem_map.mp hmem
          exact ⟨_, rfl⟩
        obtain ⟨z, rfl⟩ := hpiece
        have hmark : tokens (';' :: z ++ pieces.flatten) =
            ⟨.semi, [';']⟩ :: tokens (z ++ pieces.flatten) := tokens_semi _
        rw [List.flatten_cons, hmark, head?_statementsFrom_normal hnil hread]
        rfl
  · have hcreate : definition (word "CREATE" :: word "TABLE" :: word "IF" :: word "NOT" ::
        word "EXISTS" :: ⟨.word, table.name⟩ :: lp :: ts) = (do
          let is ← items ts.length ts
          if columnsFirst is then
            return .createTable true
              ⟨table.name, is.filterMap Item.column?, is.filterMap Item.foreignKey?⟩
          else none) := rfl
    rw [hcreate, hitems ts.length hts, definedTable]
    cases (describedItems conn table).mapM id with
    | none => rfl
    | some is =>
        rw [Option.bind_eq_bind, Option.bind_some, Option.bind_eq_bind, Option.bind_some]
        split <;> rfl

end Statement

section Executed

variable {conn : Connection} {table : TableDescriptor} {accepts : List Token → Prop}

/-- A text that fits is built. -/
theorem createTableStmt_fits
    (htypes : ∀ column ∈ table.columns, ∀ code, column.type ≠ .unknown code)
    (hlength : (createTableText conn table).length ≤ sqlStmtMaxLen) :
    ∃ b, createTableStmt conn table = .ok b ∧ b.text = createTableText conn table := by
  rw [createTableStmt_eq htypes]
  have hne : createTableHead table ++ (createColumnPieces table.columns).flatten ++
      (foreignKeyPieces conn table).flatten ≠ [] :=
    List.append_ne_nil_of_left_ne_nil
      (List.append_ne_nil_of_left_ne_nil (createTableHead_ne_nil table) _) _
  have htotal := hlength
  unfold createTableText at htotal
  rw [List.length_append, length_replaceLast hne, List.length_append, List.length_append] at htotal
  obtain ⟨b₁, h₁, hholds₁⟩ := Buf.holds_empty.append_fits (s := createTableHead table) (by
    rw [List.nil_append]
    omega)
  rw [List.nil_append] at hholds₁
  obtain ⟨b₂, h₂, hholds₂⟩ := hholds₁.appendAll_fits (createColumnPieces table.columns) (by
    rw [List.length_append]
    omega)
  obtain ⟨b₃, h₃, hholds₃⟩ := hholds₂.appendAll_fits (foreignKeyPieces conn table) (by
    rw [List.length_append, List.length_append]
    omega)
  obtain ⟨b, hb, hholds⟩ :=
    (hholds₃.put_last hne (c := ')') (by decide)).appendAll_fits (indexPieces table) hlength
  refine ⟨b, ?_, hholds.text⟩
  rw [h₁]
  change (b₁.appendAll _ >>= _) = _
  rw [h₂]
  change (b₂.appendAll _ >>= _) = _
  rw [h₃]
  exact hb

theorem createTableStmt_ok
    (htypes : ∀ column ∈ table.columns, ∀ code, column.type ≠ .unknown code) {b : Buf}
    (hb : createTableStmt conn table = .ok b) :
    b.text = createTableText conn table ∧ (createTableText conn table).length ≤ sqlStmtMaxLen := by
  have houtcome : (createTableStmt conn table).Outcome _ _ := createTableStmt_outcome htypes
  rw [hb] at houtcome
  cases houtcome with
  | ok htext hlength _ _ => exact ⟨htext, hlength⟩

theorem createTableStmt_tooLongOnly
    (htypes : ∀ column ∈ table.columns, ∀ code, column.type ≠ .unknown code) :
    (createTableStmt conn table).TooLongOnly := by
  have houtcome : (createTableStmt conn table).Outcome _ _ := createTableStmt_outcome htypes
  generalize createTableStmt conn table = built at houtcome
  cases houtcome with
  | ok _ _ _ _ => exact .ok
  | tooLong _ _ =>
      rintro e b ⟨⟩
      rfl
  | overflow _ _ => exact .halt

def compiledStatement (conn : Connection) (table : TableDescriptor) : Option (List Token) :=
  Execution.firstStatement (createTableText conn table) sqlStmtMaxLen

variable (hsql : table.createSql = none) (hcolumns : table.columns ≠ [])
variable (htypes : ∀ column ∈ table.columns, ∀ code, column.type ≠ .unknown code)
variable (hplain : PlainNames table)
include hsql hcolumns htypes hplain

/-- A call that returns OK has created the table that its text defines and no index. -/
theorem createTable_reaches {schema : Schema}
    (h : Reaches accepts (sormCreateTable (some conn) (some table)) .empty .ok schema) :
    (∃ t, definedTable conn table = some t ∧ schema = ⟨[t], []⟩) ∧
      (createTableText conn table).length ≤ sqlStmtMaxLen ∧
        ∃ stmt ∈ compiledStatement conn table, DefinitionsOnly accepts stmt := by
  obtain ⟨tr, s, hemits, hrun, rfl⟩ := h
  have hidle : Idle .start := rfl
  have hprog : sormCreateTable (some conn) (some table) =
      runBuilt conn (createTableStmt conn table) := by
    simp only [sormCreateTable, hsql]
  rw [hprog] at hemits
  have hexecutes := (runBuilt_executes conn (createTableStmt_tooLongOnly htypes)).returns hidle
    hemits hrun
  rcases hexecutes with ⟨hne, -⟩ | ⟨b, hb, stmt, hstmt, ⟨hdefines, haccepts⟩, hexecuted⟩
  · exact absurd rfl hne
  · obtain ⟨htext, hlength⟩ := createTableStmt_ok htypes hb
    rw [htext] at hstmt
    obtain ⟨stmt', hstmt', hdefinition⟩ :=
      firstStatement_createTable hplain hcolumns htypes hlength
    obtain rfl : stmt' = stmt := Option.some_injective _ (hstmt'.symm.trans hstmt)
    refine ⟨?_, hlength, stmt', hstmt', hdefines, haccepts⟩
    rw [hdefinition, Option.isSome_map] at hdefines
    obtain ⟨t, ht⟩ := Option.isSome_iff_exists.mp hdefines
    refine ⟨t, ht, ?_⟩
    rw [hexecuted, Schema.run, List.foldl_cons, List.foldl_nil, hdefinition, ht]
    rfl

/-- The table is created when the statement fits and SQLite accepts it. -/
theorem reaches_createTable (hlength : (createTableText conn table).length ≤ sqlStmtMaxLen)
    {stmt : List Token} (hstmt : compiledStatement conn table = some stmt)
    (haccepts : DefinitionsOnly accepts stmt) : ∃ t, definedTable conn table = some t ∧
      Reaches accepts (sormCreateTable (some conn) (some table)) .empty .ok ⟨[t], []⟩ := by
  obtain ⟨b, hb, htext⟩ := createTableStmt_fits htypes hlength
  obtain ⟨stmt', hstmt', hdefinition⟩ := firstStatement_createTable hplain hcolumns htypes hlength
  obtain rfl : stmt' = stmt := Option.some_injective _ (hstmt'.symm.trans hstmt)
  have hdefines := haccepts.1
  rw [hdefinition, Option.isSome_map] at hdefines
  obtain ⟨t, ht⟩ := Option.isSome_iff_exists.mp hdefines
  obtain ⟨tr, s, hemits, hrun, hexecuted⟩ := runPrepared_answered conn .write hstmt' haccepts
  have hprog : sormCreateTable (some conn) (some table) =
      runPrepared conn (createTableText conn table) .write := by
    simp only [sormCreateTable, hsql, hb, runBuilt, htext]
  refine ⟨t, ht, tr, s, ?_, hrun, ?_⟩
  · rw [hprog]
    exact hemits
  · rw [hexecuted, Schema.run, List.foldl_cons, List.foldl_nil, hdefinition, ht]
    rfl

end Executed

/-- SQLite makes an index of its own for a UNIQUE column, and for a PRIMARY KEY unless the column is
the rowid: of type INTEGER and not DESC. -/
def HasOwnIndex (c : Column) : Prop :=
  match c.key with
  | .none => False
  | .unique => True
  | .primary direction => c.type ≠ "INTEGER".toList ∨ direction = some .descending

def IsIndexed (schema : Schema) (table column : Text) : Prop :=
  HasIndex schema table [column] ∨
    ∃ t ∈ schema.tables, t.name = table ∧ ∃ c ∈ t.columns, c.name = column ∧ HasOwnIndex c

/-- The schema has the table as the descriptor describes it, and an index on each foreign key. -/
structure Realises (conn : Connection) (table : TableDescriptor) (schema : Schema) : Prop where
  created : ∃ t ∈ schema.tables, t.name = table.name ∧ t.columns = table.columns.map columnOf ∧
    (sormForeignKeyEnabled conn.flags → t.foreignKeys = (foreignColumns table).map foreignKeyOf)
  indexes : ∀ column ∈ foreignColumns table, IsIndexed schema table.name column.name

/-- `sorm_create_table` realises the descriptor in a fresh database whenever it returns OK. -/
def RealisesDescriptor (accepts : List Token → Prop) (conn : Connection)
    (table : TableDescriptor) : Prop :=
  ∀ schema, Reaches accepts (sormCreateTable (some conn) (some table)) .empty .ok schema →
    Realises conn table schema

def OwnIndexes (table : TableDescriptor) : Prop :=
  ∀ column ∈ foreignColumns table,
    ∃ c ∈ table.columns, c.name = column.name ∧ HasOwnIndex (columnOf c)

section Realises

variable {conn : Connection} {table : TableDescriptor} {accepts : List Token → Prop}

/-- In the schema with the described table alone only SQLite's own indexes are there. -/
theorem realises_described : Realises conn table ⟨[describedTable conn table], []⟩ ↔
    OwnIndexes table := by
  constructor
  · intro h column hc
    rcases h.indexes column hc with ⟨i, hi, -⟩ | ⟨t, ht, -, c, hmem, hname, hown⟩
    · exact absurd hi List.not_mem_nil
    · obtain rfl := List.mem_singleton.mp ht
      obtain ⟨c', hc', rfl⟩ := List.mem_map.mp hmem
      exact ⟨c', hc', hname, hown⟩
  · intro h
    refine ⟨⟨_, List.mem_singleton_self _, rfl, rfl, fun henabled => if_pos henabled⟩, ?_⟩
    intro column hc
    obtain ⟨c, hmem, hname, hown⟩ := h column hc
    exact .inr ⟨_, List.mem_singleton_self _, rfl, columnOf c, List.mem_map_of_mem hmem, hname, hown⟩

/-- The columns of the descriptor are there if none of them is read as a table constraint. -/
theorem realises_iff (hcolumns : table.columns ≠ []) {t : SqlSchema.Table}
    (h : definedTable conn table = some t) :
    Realises conn table ⟨[t], []⟩ ↔ OwnIndexes table ∧ NamesColumns table := by
  have hnamed : NamesColumns table → t = describedTable conn table := by
    intro hnames
    exact Option.some_injective _ (h.symm.trans (definedTable_of_namesColumns hcolumns hnames))
  constructor
  · intro hrealises
    have hnames : NamesColumns table := by
      obtain ⟨t', ht', -, hsame, -⟩ := hrealises.created
      obtain rfl := List.mem_singleton.mp ht'
      have hlength := congrArg List.length hsame
      rw [definedTable_eq h, List.length_map, List.length_map] at hlength
      intro column hc
      have hall := List.length_filter_eq_length_iff.mp hlength column hc
      rwa [Bool.not_eq_true'] at hall
    rw [hnamed hnames] at hrealises
    exact ⟨realises_described.mp hrealises, hnames⟩
  · rintro ⟨hown, hnames⟩
    rw [hnamed hnames]
    exact realises_described.mpr hown

/-- The descriptor is realised exactly if every foreign key has an index without the rest of the
text and no column is read as a table constraint, or the call cannot return OK: the text does not
fit, or SQLite does not accept its first statement. -/
theorem realisesDescriptor_iff (hsql : table.createSql = none) (hcolumns : table.columns ≠ [])
    (htypes : ∀ column ∈ table.columns, ∀ code, column.type ≠ .unknown code)
    (hplain : PlainNames table) : RealisesDescriptor accepts conn table ↔
      (OwnIndexes table ∧ NamesColumns table) ∨
        sqlStmtMaxLen < (createTableText conn table).length ∨
          ¬ ∃ stmt ∈ compiledStatement conn table, DefinitionsOnly accepts stmt := by
  constructor
  · intro h
    by_contra hnot
    obtain ⟨hown, hfits⟩ := not_or.mp hnot
    obtain ⟨hlength, haccepts⟩ := not_or.mp hfits
    obtain ⟨stmt, hstmt, hstmtAccepts⟩ := not_not.mp haccepts
    obtain ⟨t, ht, hreaches⟩ := reaches_createTable hsql hcolumns htypes hplain
      (Nat.le_of_not_lt hlength) hstmt hstmtAccepts
    exact hown ((realises_iff hcolumns ht).mp (h _ hreaches))
  · intro h schema hreaches
    obtain ⟨⟨t, ht, rfl⟩, hlength, hstmt⟩ :=
      createTable_reaches hsql hcolumns htypes hplain hreaches
    rcases h with hown | hlong | hrefused
    · exact (realises_iff hcolumns ht).mpr hown
    · omega
    · exact absurd hstmt hrefused

def orderTable : TableDescriptor where
  name := "orders".toList
  size := 8
  columns := [⟨"customer".toList, .int, .none, .none, 0, true, "customers".toList, "id".toList⟩]
  pkIndex := none
  createSql := none

theorem plainNames_orderTable : PlainNames orderTable where
  name := by decide
  columns := by decide
  foreign := by decide

theorem realisesDescriptor_iff_orders :
    RealisesDescriptor (fun _ => True) plainConnection orderTable ↔
      (OwnIndexes orderTable ∧ NamesColumns orderTable) ∨
        sqlStmtMaxLen < (createTableText plainConnection orderTable).length ∨
          ¬ ∃ stmt ∈ compiledStatement plainConnection orderTable,
            DefinitionsOnly (fun _ => True) stmt :=
  realisesDescriptor_iff rfl (by decide) (by simp [orderTable]) plainNames_orderTable

/-- The column that refers to another table has no index. -/
theorem not_realisesDescriptor : ¬ ∀ (accepts : List Token → Prop) (conn : Connection)
    (table : TableDescriptor), table.createSql = none → table.columns ≠ [] → PlainNames table →
      RealisesDescriptor accepts conn table := by
  intro h
  have hrealises := h (fun _ => True) plainConnection orderTable rfl (by decide)
    plainNames_orderTable
  have hlength : (createTableText plainConnection orderTable).length ≤ sqlStmtMaxLen := by decide
  have htypes : ∀ column ∈ orderTable.columns, ∀ code, column.type ≠ .unknown code := by
    simp [orderTable]
  have hnames : NamesColumns orderTable := by
    intro column hc
    obtain rfl := List.mem_singleton.mp hc
    rfl
  obtain ⟨stmt, hstmt, hdefinition⟩ :=
    firstStatement_createTable plainNames_orderTable (by decide) htypes hlength
  have haccepts : DefinitionsOnly (fun _ => True) stmt := by
    rw [DefinitionsOnly, hdefinition, definedTable_of_namesColumns (by decide) hnames]
    exact ⟨rfl, trivial⟩
  obtain ⟨t, ht, hreaches⟩ := reaches_createTable rfl (by decide) htypes plainNames_orderTable
    hlength hstmt haccepts
  obtain ⟨hown, -⟩ := (realises_iff (by decide) ht).mp (hrealises _ hreaches)
  obtain ⟨c, hc, -, hindex⟩ := hown _ List.mem_cons_self
  obtain rfl := List.mem_singleton.mp hc
  exact hindex

end Realises

end Sorm
