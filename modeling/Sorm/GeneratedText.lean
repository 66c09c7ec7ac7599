import Sorm.CGenerate
import Sorm.HeaderGenerate

/-!
# Reading what the generators print

For a table as the parser builds it every argument of a format is a word, so a template that is
read on its own is read in the same way wherever it is printed.
-/

namespace Sorm

open CReader ParserLex

def IsParsedName (w : Text) : Prop := w ≠ [] ∧ ∀ c ∈ w, isNameChar c

instance (w : Text) : Decidable (IsParsedName w) :=
  have := List.decidableBAll (fun c => isNameChar c = true) w
  inferInstanceAs (Decidable (_ ∧ _))

/-- What the parser says of a column. -/
structure ColumnDesc.Parsed (column : ColumnDesc) : Prop where
  name : ∃ name, column.name = some name ∧ IsParsedName name
  type : ∀ code, column.type ≠ .unknown code
  mem : column.type = .text ∨ column.type = .blob → column.mem ≠ .none
  maxLen : 0 ≤ column.maxLen
  foreignTableName : ∀ name ∈ column.foreignTableName, IsParsedName name
  foreignColumnName : ∀ name ∈ column.foreignColumnName, IsParsedName name

structure GenTable.Parsed (t : GenTable) : Prop where
  name : IsParsedName t.name
  columns : ∀ column ∈ t.columns, column.Parsed

def ColumnDesc.parsed (column : ColumnDesc) : Bool :=
  column.name.any (fun name => decide (IsParsedName name)) &&
    (match column.type with
      | .unknown _ => false
      | .text | .blob => column.mem ≠ .none
      | .int | .int64 | .double => true) &&
    decide (0 ≤ column.maxLen) &&
    column.foreignTableName.all (fun name => decide (IsParsedName name)) &&
    column.foreignColumnName.all (fun name => decide (IsParsedName name))

theorem ColumnDesc.parsed_iff (column : ColumnDesc) : column.parsed ↔ column.Parsed := by
  simp only [parsed, Bool.and_eq_true, Option.any_eq_true, Option.all_eq_true, decide_eq_true_eq,
    and_assoc]
  constructor
  · rintro ⟨⟨name, hname, hword⟩, htype, hmaxLen, htable, hforeign⟩
    refine ⟨⟨name, hname, hword⟩, ?_, ?_, hmaxLen, htable, hforeign⟩
    · intro code hcode
      simp [hcode] at htype
    · rintro (hkind | hkind) <;> simpa [hkind] using htype
  · rintro ⟨⟨name, hname, hword⟩, htype, hmem, hmaxLen, htable, hforeign⟩
    refine ⟨⟨name, hname, hword⟩, ?_, hmaxLen, htable, hforeign⟩
    cases hkind : column.type with
    | unknown code => exact absurd hkind (htype code)
    | text => simpa using hmem (Or.inl hkind)
    | blob => simpa using hmem (Or.inr hkind)
    | _ => rfl

instance (column : ColumnDesc) : Decidable column.Parsed :=
  decidable_of_iff _ column.parsed_iff

theorem GenTable.parsed_iff (t : GenTable) :
    (IsParsedName t.name ∧ ∀ column ∈ t.columns, column.Parsed) ↔ t.Parsed :=
  ⟨fun h => ⟨h.1, h.2⟩, fun h => ⟨h.name, h.columns⟩⟩

instance (t : GenTable) : Decidable t.Parsed := decidable_of_iff _ t.parsed_iff

theorem isLetter_of_isNameChar {c : Char} (h : isNameChar c) : isLetter c := by
  have hletters : 'a'.val.toNat = 97 ∧ 'z'.val.toNat = 122 ∧ '0'.val.toNat = 48 ∧
      '9'.val.toNat = 57 := ⟨rfl, rfl, rfl, rfl⟩
  have hval : c.toNat = c.val.toNat := rfl
  have hisLower : c.isLower = (decide (c.val ≥ 'a'.val) && decide (c.val ≤ 'z'.val)) := rfl
  simp only [isLetter, Bool.or_eq_true, Bool.and_eq_true, Nat.ble_eq, Nat.beq_eq]
  rw [isNameChar, Bool.or_eq_true, Bool.or_eq_true, decide_eq_true_eq] at h
  obtain (hlower | rfl) | hdigit := h
  · simp only [hisLower, Bool.and_eq_true, decide_eq_true_eq, ge_iff_le,
      UInt32.le_iff_toNat_le] at hlower
    omega
  · exact Or.inr rfl
  · simp only [Char.isDigit, Bool.and_eq_true, decide_eq_true_eq, ge_iff_le,
      UInt32.le_iff_toNat_le] at hdigit
    omega

theorem IsParsedName.isWord {w : Text} (h : IsParsedName w) : IsWord w :=
  ⟨h.1, fun c hc => isLetter_of_isNameChar (h.2 c hc)⟩

theorem isLetter_upper {c : Char} (h : isNameChar c) :
    isLetter (if c ≤ 'z' ∧ c ≥ 'a' then Char.ofNat (c.toNat - 32) else c) := by
  split_ifs with hlower
  · have hbounds : 97 ≤ c.toNat ∧ c.toNat ≤ 122 := ⟨hlower.2, hlower.1⟩
    have hvalid : (c.toNat - 32).isValidChar := Or.inl (by omega)
    have hnat : (Char.ofNat (c.toNat - 32)).toNat = c.toNat - 32 := by
      rw [Char.ofNat, dif_pos hvalid]
      rfl
    simp only [isLetter, hnat, Bool.or_eq_true, Bool.and_eq_true, Nat.ble_eq, Nat.beq_eq]
    omega
  · exact isLetter_of_isNameChar h

theorem IsParsedName.isWord_upper {w : Text} (h : IsParsedName w) : IsWord (caseLower2upper w) := by
  refine ⟨fun hnil => h.1 (List.map_eq_nil_iff.mp hnil), fun c hc => ?_⟩
  obtain ⟨c', hc', rfl⟩ := List.mem_map.mp hc
  exact isLetter_upper (h.2 c' hc')

theorem isWord_printInt {n : ℤ} (h : 0 ≤ n) : IsWord (printInt n) := by
  rw [printInt, if_neg (Int.not_lt.mpr h)]
  refine ⟨Nat.toDigits_ne_nil, fun c hc => isLetter_of_isNameChar (isNameChar_of_isDigit ?_)⟩
  exact Nat.isDigit_of_mem_toDigits (by decide) (by decide) hc

theorem isWord_strOrNull {string : Option Text} (h : ∀ name ∈ string, IsParsedName name) :
    IsWord (strOrNull string) := by
  cases string with
  | none => decide
  | some name => exact (h name rfl).isWord

theorem isWord_sormStrtype {type : SormType} (h : ∀ code, type ≠ .unknown code) :
    IsWord (sormStrtype type) := by
  cases type with
  | unknown code => exact absurd rfl (h code)
  | _ => decide

theorem isWord_sormStrconstraint (constraint : SormConstraint) :
    IsWord (sormStrconstraint constraint) := by
  cases constraint <;> decide

theorem isWord_sormStrmem (mem : SormMem) : IsWord (sormStrmem mem) := by
  cases mem <;> decide

def Arg.ofTable : Arg → Bool
  | .tableName | .upperTableName | .columnsNum | .pkIndex => true
  | _ => false

theorem GenTable.Parsed.isWord_ofTable {t : GenTable} (h : t.Parsed) (i : ℕ) (column : ColumnDesc)
    {arg : Arg} (harg : arg.ofTable) : IsWord (t.value i column arg) := by
  cases arg with
  | tableName => exact h.name.isWord
  | upperTableName => exact h.name.isWord_upper
  | columnsNum => exact isWord_printInt (Int.natCast_nonneg _)
  | pkIndex => exact isWord_printInt (Int.natCast_nonneg _)
  | _ => cases harg

theorem ColumnDesc.Parsed.isParsedName {column : ColumnDesc} (h : column.Parsed) :
    IsParsedName column.nameText := by
  obtain ⟨name, hname, hword⟩ := h.name
  rw [nameText, hname]
  exact hword

theorem GenTable.Parsed.isWord {t : GenTable} (h : t.Parsed) (i : ℕ) {column : ColumnDesc}
    (hcolumn : column.Parsed) {arg : Arg} (harg : arg ≠ .createSql) :
    IsWord (t.value i column arg) := by
  cases arg with
  | tableName => exact h.name.isWord
  | upperTableName => exact h.name.isWord_upper
  | columnsNum => exact isWord_printInt (Int.natCast_nonneg _)
  | pkIndex => exact isWord_printInt (Int.natCast_nonneg _)
  | createSql => exact absurd rfl harg
  | columnName => exact hcolumn.isParsedName.isWord
  | upperColumnName => exact hcolumn.isParsedName.isWord_upper
  | index => exact isWord_printInt (Int.natCast_nonneg _)
  | type => exact isWord_sormStrtype hcolumn.type
  | constraint => exact isWord_sormStrconstraint column.constraint
  | mem => exact isWord_sormStrmem column.mem
  | maxLen => exact isWord_printInt hcolumn.maxLen
  | isForeignKey =>
      unfold GenTable.value
      split_ifs <;> exact isWord_printInt (by decide)
  | foreignTableName => exact isWord_strOrNull hcolumn.foreignTableName
  | foreignColumnName => exact isWord_strOrNull hcolumn.foreignColumnName

def holesAll (allowed : Arg → Bool) (gs : Template) : Bool :=
  gs.all fun g =>
    match g with
    | .char _ => true
    | .hole arg => allowed arg

theorem allowed_of_holesAll {allowed : Arg → Bool} {gs : Template} (h : holesAll allowed gs)
    {arg : Arg} (harg : .hole arg ∈ gs) : allowed arg := List.all_eq_true.mp h _ harg

def Arg.isWordArg (arg : Arg) : Bool := arg ≠ .createSql

def lit (s : String) : Template := s.toList.map .char

theorem render_lit (env : Arg → Text) (s : String) : render env (lit s) = s.toList := by
  rw [render, lit, List.flatMap_map]
  exact List.flatMap_singleton' _

def itemsIn (gs : Template) : List (Item Template) := (templateItems gs).getD []

def Closed (allowed : Arg → Bool) (gs : Template) : Bool :=
  (templateItems gs).isSome && holesAll allowed gs

theorem Closed.reads {allowed : Arg → Bool} {gs : Template} (h : Closed allowed gs)
    {env : Arg → Text} (henv : ∀ arg, allowed arg → IsWord (env arg)) :
    (reader kind).Reads (render env gs) ((itemsIn gs).map (Item.map (render env))) := by
  obtain ⟨hsome, hholes⟩ := Bool.and_eq_true_iff.mp h
  obtain ⟨items, hitems⟩ := Option.isSome_iff_exists.mp hsome
  rw [itemsIn, hitems]
  exact reads_render (fun arg harg => henv arg (allowed_of_holesAll hholes harg))
    (reads_of_templateItems hitems)

theorem closed_nil (allowed : Arg → Bool) : Closed allowed [] := rfl

def statementQuoted : LexState (Glyph Arg) → Template → Bool
  | _, [] => true
  | s, g :: gs =>
      (match s with
        | .str _ => true
        | .normal | .word _ | .escape _ => g ≠ .hole .createSql) &&
      (match lexStep Glyph.kind s g with
        | some r => statementQuoted r.2 gs
        | none => true)

theorem along_of_statementQuoted {env : Arg → Text}
    (hwords : ∀ arg, Arg.ofTable arg → IsWord (env arg)) (hsql : Enclosed (env .createSql))
    {gs : Template} (hholes : holesAll (fun arg => arg.ofTable || arg == .createSql) gs)
    {s : LexState (Glyph Arg)} (h : statementQuoted s gs) :
    (lexer Glyph.kind).Along (Suits env) s gs := by
  induction gs generalizing s with
  | nil => trivial
  | cons g gs ih =>
      obtain ⟨hhead, htail⟩ := Bool.and_eq_true_iff.mp h
      rw [holesAll, List.all_cons] at hholes
      obtain ⟨hhole, hrest⟩ := Bool.and_eq_true_iff.mp hholes
      constructor
      · cases g with
        | char c => trivial
        | hole arg =>
            by_cases harg : arg = .createSql
            · subst harg
              cases s with
              | str acc => exact hsql
              | _ => simp at hhead
            · have htable : arg.ofTable := by simpa [harg] using hhole
              refine suits_of_isWord (fun arg' harg' => ?_) s
              cases harg'
              exact hwords arg htable
      · intro r hr
        rw [lexer_step] at hr
        rw [hr] at htail
        exact ih hrest htail

def ClosedQuoting (gs : Template) : Bool :=
  (templateItems gs).isSome && holesAll (fun arg => arg.ofTable || arg == .createSql) gs &&
    statementQuoted .normal gs

theorem ClosedQuoting.reads {gs : Template} (h : ClosedQuoting gs) {env : Arg → Text}
    (hwords : ∀ arg, Arg.ofTable arg → IsWord (env arg)) (hsql : Enclosed (env .createSql)) :
    (reader kind).Reads (render env gs) ((itemsIn gs).map (Item.map (render env))) := by
  obtain ⟨hleft, hquoted⟩ := Bool.and_eq_true_iff.mp h
  obtain ⟨hsome, hholes⟩ := Bool.and_eq_true_iff.mp hleft
  obtain ⟨items, hitems⟩ := Option.isSome_iff_exists.mp hsome
  rw [itemsIn, hitems]
  have halong := along_of_statementQuoted hwords hsql hholes hquoted
  exact (reader_simulates env).reads ((halong.comp _).comp _) (reads_of_templateItems hitems)

def roundItems (t : GenTable) (round : ColumnDesc → Option Template) (i : ℕ)
    (column : ColumnDesc) : List (Item Text) :=
  (itemsIn ((round column).getD [])).map (Item.map (render (t.value i column)))

def columnsItems (t : GenTable) (round : ColumnDesc → Option Template) :
    ℕ → List ColumnDesc → List (Item Text)
  | _, [] => []
  | i, column :: columns => roundItems t round i column ++ columnsItems t round (i + 1) columns

def Part.items (t : GenTable) : Part → List (Item Text)
  | .once gs => (itemsIn gs).map (Item.map (render (t.value 0 .zero)))
  | .each round => columnsItems t round 0 t.columns

def partsItems (t : GenTable) (parts : List Part) : List (Item Text) :=
  parts.flatMap (Part.items t)

theorem partsItems_append (t : GenTable) (parts parts' : List Part) :
    partsItems t (parts ++ parts') = partsItems t parts ++ partsItems t parts' :=
  List.flatMap_append

/-- The templates of a part are read on their own, those of a loop for the columns in question. -/
def Part.Complete (ok : ColumnDesc → Prop) : Part → Prop
  | .once gs => Closed Arg.ofTable gs
  | .each round => ∀ column : ColumnDesc, column.Parsed → ok column →
      ∃ gs, round column = some gs ∧ Closed Arg.isWordArg gs

theorem complete_once {gs : Template} (h : Closed Arg.ofTable gs) (ok : ColumnDesc → Prop) :
    (Part.once gs).Complete ok := h

section Print
variable {t : GenTable} {ok : ColumnDesc → Prop}

theorem printColumns_reads (ht : t.Parsed) {round : ColumnDesc → Option Template}
    (hround : (Part.each round).Complete ok) {columns : List ColumnDesc}
    (hcolumns : ∀ column ∈ columns, column.Parsed ∧ ok column) (i : ℕ) :
    ∃ text, t.printColumns round i columns = some text ∧
      (reader kind).Reads text (columnsItems t round i columns) := by
  induction columns generalizing i with
  | nil => exact ⟨[], rfl, Transducer.Passes.nil⟩
  | cons column columns ih =>
      obtain ⟨hparsed, hok⟩ := hcolumns column List.mem_cons_self
      obtain ⟨gs, hgs, hclosed⟩ := hround column hparsed hok
      obtain ⟨rest, hrest, hreads⟩ :=
        ih (fun column' hmem => hcolumns column' (List.mem_cons_of_mem _ hmem)) (i + 1)
      refine ⟨render (t.value i column) gs ++ rest, ?_, ?_⟩
      · rw [GenTable.printColumns, hgs, hrest]
        rfl
      · rw [columnsItems, roundItems, hgs]
        exact (Closed.reads hclosed fun arg harg =>
          ht.isWord i hparsed (of_decide_eq_true harg)).append hreads

theorem Part.Complete.reads (ht : t.Parsed) (hok : ∀ column ∈ t.columns, ok column) {part : Part}
    (h : part.Complete ok) :
    ∃ text, part.print t = some text ∧ (reader kind).Reads text (part.items t) := by
  cases part with
  | once gs =>
      exact ⟨_, rfl, Closed.reads h fun arg harg => ht.isWord_ofTable 0 .zero harg⟩
  | each round =>
      exact printColumns_reads ht h (fun column hmem => ⟨ht.columns column hmem, hok column hmem⟩) 0

theorem printParts_reads (ht : t.Parsed) (hok : ∀ column ∈ t.columns, ok column)
    {parts : List Part} (h : ∀ part ∈ parts, part.Complete ok) :
    ∃ text, printParts t parts = some text ∧ (reader kind).Reads text (partsItems t parts) := by
  induction parts with
  | nil => exact ⟨[], rfl, Transducer.Passes.nil⟩
  | cons part parts ih =>
      obtain ⟨text, htext, hreads⟩ := (h part List.mem_cons_self).reads ht hok
      obtain ⟨rest, hrest, hreads'⟩ := ih fun part' hmem => h part' (List.mem_cons_of_mem _ hmem)
      refine ⟨text ++ rest, ?_, hreads.append hreads'⟩
      rw [printParts, htext, hrest]
      rfl

theorem printParts_append {parts parts' : List Part} {text text' : Text}
    (h : printParts t parts = some text) (h' : printParts t parts' = some text') :
    printParts t (parts ++ parts') = some (text ++ text') := by
  induction parts generalizing text with
  | nil =>
      obtain rfl := Option.some.inj h
      exact h'
  | cons part parts ih =>
      obtain ⟨head, hhead, hrest⟩ := Option.bind_eq_some_iff.mp h
      obtain ⟨rest, hrest', heq⟩ := Option.bind_eq_some_iff.mp hrest
      obtain rfl := Option.some.inj heq
      rw [List.cons_append, printParts, hhead, ih hrest', List.append_assoc]
      rfl

end Print

def InBlock (gs : Template) : Bool :=
  match codeTokens gs with
  | some ts => deepenAll 0 ts == some 0 && holesAll Arg.isWordArg gs
  | none => false

def roundTokens (t : GenTable) (round : ColumnDesc → Option Template) (i : ℕ)
    (column : ColumnDesc) : List (Token Text) :=
  mapTokens (render (t.value i column)) ((codeTokens ((round column).getD [])).getD [])

def columnsTokens (t : GenTable) (round : ColumnDesc → Option Template) :
    ℕ → List ColumnDesc → List (Token Text)
  | _, [] => []
  | i, column :: columns => roundTokens t round i column ++ columnsTokens t round (i + 1) columns

theorem printColumns_block {t : GenTable} (ht : t.Parsed) {round : ColumnDesc → Option Template}
    (hround : ∀ column : ColumnDesc, column.Parsed → ∃ gs, round column = some gs ∧ InBlock gs)
    {columns : List ColumnDesc} (hcolumns : ∀ column ∈ columns, column.Parsed) (i : ℕ)
    (front acc : List (Token Text)) : ∃ text, t.printColumns round i columns = some text ∧
      (reader kind).Passes ((.normal, .start), .block front 0 acc) text []
        ((.normal, .start), .block front 0 (acc ++ columnsTokens t round i columns)) := by
  induction columns generalizing i acc with
  | nil =>
      refine ⟨[], rfl, ?_⟩
      rw [columnsTokens, List.append_nil]
      exact Transducer.Passes.nil
  | cons column columns ih =>
      have hparsed := hcolumns column List.mem_cons_self
      obtain ⟨gs, hgs, hblock⟩ := hround column hparsed
      unfold InBlock at hblock
      cases hts : codeTokens gs with
      | none =>
          rw [hts] at hblock
          cases hblock
      | some ts =>
          rw [hts] at hblock
          obtain ⟨hdepth, hholes⟩ := Bool.and_eq_true_iff.mp hblock
          have hwords : ∀ arg, .hole arg ∈ gs → IsWord (t.value i column arg) := fun arg harg =>
            ht.isWord i hparsed (of_decide_eq_true (allowed_of_holesAll hholes harg))
          have hround' : roundTokens t round i column =
              mapTokens (render (t.value i column)) ts := by
            rw [roundTokens, hgs, Option.getD_some, hts, Option.getD_some]
          have hcode := pieces_render hwords (reads_of_codeTokens hts)
          have hmap : (ts.map Piece.code).map (Piece.map (render (t.value i column))) =
              (roundTokens t round i column).map .code := by
            rw [hround', mapTokens, List.map_map, List.map_map]
            rfl
          rw [hmap] at hcode
          have hdeep : deepenAll 0 (roundTokens t round i column) = some 0 := by
            rw [hround', deepenAll_map]
            exact beq_iff_eq.mp hdepth
          obtain ⟨rest, hrest, hpass⟩ := ih (fun column' hmem =>
            hcolumns column' (List.mem_cons_of_mem _ hmem)) (i + 1)
            (acc ++ roundTokens t round i column)
          refine ⟨render (t.value i column) gs ++ rest, ?_, ?_⟩
          · rw [GenTable.printColumns, hgs, hrest]
            rfl
          · rw [columnsTokens, ← List.append_assoc]
            exact (Transducer.Passes.comp hcode (chunks_block hdeep front acc)).append hpass

def InDirective (gs : Template) : Bool :=
  match lexTokens gs with
  | some ts => ts.all (fun t => !t.isNewline) && holesAll Arg.isWordArg gs
  | none => false

theorem printColumns_directive {t : GenTable} (ht : t.Parsed)
    {round : ColumnDesc → Option Template}
    (hround : ∀ column : ColumnDesc, column.Parsed → ∃ gs, round column = some gs ∧ InDirective gs)
    {columns : List ColumnDesc} (hcolumns : ∀ column ∈ columns, column.Parsed) (i : ℕ)
    (line : List (Token Text)) (s : ChunkState Text) :
    ∃ text more, t.printColumns round i columns = some text ∧
      (reader kind).Passes ((.normal, .directive line), s) text []
        ((.normal, .directive (line ++ more)), s) := by
  induction columns generalizing i line with
  | nil =>
      refine ⟨[], [], rfl, ?_⟩
      rw [List.append_nil]
      exact Transducer.Passes.nil
  | cons column columns ih =>
      have hparsed := hcolumns column List.mem_cons_self
      obtain ⟨gs, hgs, hdirective⟩ := hround column hparsed
      unfold InDirective at hdirective
      cases hts : lexTokens gs with
      | none =>
          rw [hts] at hdirective
          cases hdirective
      | some ts =>
          rw [hts] at hdirective
          obtain ⟨hlines, hholes⟩ := Bool.and_eq_true_iff.mp hdirective
          have hwords : ∀ arg, .hole arg ∈ gs → IsWord (t.value i column arg) := fun arg harg =>
            ht.isWord i hparsed (of_decide_eq_true (allowed_of_holesAll hholes harg))
          have hlex := lexer_render hwords (reads_of_lexTokens hts)
          have hnewline : ∀ token ∈ mapTokens (render (t.value i column)) ts,
              token.isNewline = false := by
            intro token hmem
            obtain ⟨token', hmem', rfl⟩ := List.mem_map.mp hmem
            rw [Token.isNewline_map]
            exact Bool.not_eq_true' _ ▸ List.all_eq_true.mp hlines token' hmem'
          obtain ⟨rest, more, hrest, hpass⟩ := ih (fun column' hmem =>
            hcolumns column' (List.mem_cons_of_mem _ hmem)) (i + 1)
            (line ++ mapTokens (render (t.value i column)) ts)
          refine ⟨render (t.value i column) gs ++ rest,
            mapTokens (render (t.value i column)) ts ++ more, ?_, ?_⟩
          · rw [GenTable.printColumns, hgs, hrest]
            rfl
          · rw [← List.append_assoc]
            have hpieces : (pieces kind).Passes (.normal, .directive line)
                (render (t.value i column) gs) []
                (.normal, .directive (line ++ mapTokens (render (t.value i column)) ts)) :=
              Transducer.Passes.comp hlex (lines_directive hnewline line)
            exact (Transducer.Passes.comp hpieces Transducer.Passes.nil).append hpass

end Sorm
