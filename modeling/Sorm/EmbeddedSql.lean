import Sorm.Generate
import Sorm.LiteralTokens

/-!
# The statement in the generated source

The parser reads all tokens of the input file, the generators paste its first line between two
quotes. What the literals denote has the tokens of the file exactly if all of these stand in that
line and none of them is touched by what the quotes and backslashes in it mean to C.
-/

namespace Sorm

open ParserLex ParserYacc CReader CLiterals

def inLine (c : Char) : Bool := c ≠ '\n' && c ≠ '\x00'

/-- What is pasted: the first line, of which a NUL or the end of the buffer cuts off the rest, and
without its last byte where no newline ends it. -/
def firstLine (file : Text) : Text :=
  let line := (file.take sqlStmtMaxLen).takeWhile inLine
  if line.length < sqlStmtMaxLen ∧ file[line.length]? = some '\n' then line else line.dropLast

theorem fgets_takeWhile (n : ℕ) (z : Text) : (fgets (n + 1) z).takeWhile (· ≠ '\x00') =
    if ((z.take n).takeWhile inLine).length < n ∧
        z[((z.take n).takeWhile inLine).length]? = some '\n' then
      (z.take n).takeWhile inLine ++ ['\n']
    else (z.take n).takeWhile inLine := by
  induction z generalizing n with
  | nil => simp [fgets]
  | cons c z ih =>
      cases n with
      | zero => simp [fgets]
      | succ n =>
          rw [fgets, List.take_succ_cons, List.takeWhile_cons]
          by_cases hc : inLine c
          · rw [inLine, Bool.and_eq_true, decide_eq_true_eq, decide_eq_true_eq] at hc
            rw [if_neg hc.1, List.takeWhile_cons, if_pos (decide_eq_true hc.2), ih, inLine,
              decide_eq_true hc.1, decide_eq_true hc.2, Bool.and_self, if_pos rfl]
            simp only [List.length_cons, List.getElem?_cons_succ, Nat.add_lt_add_iff_right]
            split_ifs <;> rfl
          · rw [if_neg hc, List.length_nil, List.getElem?_cons_zero]
            by_cases hline : c = '\n'
            · subst hline
              simp
            · have hnul : c = '\x00' := by
                simpa [inLine, hline] using hc
              subst hnul
              rw [if_neg hline, if_neg fun hboth => hline (Option.some.inj hboth.2)]
              rfl

/-- The first line is what the generators read. -/
theorem readStatement_eq {file : Text} (h : file ≠ []) :
    readStatement file = some (firstLine file) := by
  rw [readStatement, if_neg h, fgets_takeWhile, firstLine]
  split_ifs with hline
  · rw [List.dropLast_concat]
  · rfl

theorem firstLine_isPrefix (file : Text) : firstLine file <+: file := by
  have hline : (file.take sqlStmtMaxLen).takeWhile inLine <+: file :=
    (List.takeWhile_prefix _).trans (List.take_prefix _ _)
  rw [firstLine]
  split_ifs
  · exact hline
  · exact (List.dropLast_prefix _).trans hline

theorem mem_firstLine {file : Text} {c : Char} (h : c ∈ firstLine file) : inLine c := by
  rw [firstLine] at h
  split_ifs at h
  · exact List.mem_takeWhile_imp h
  · exact List.mem_takeWhile_imp (List.mem_of_mem_dropLast h)

theorem nul_notMem_firstLine (file : Text) : '\x00' ∉ firstLine file := fun h =>
  absurd (mem_firstLine h) (by decide)

theorem firstLine_append (file : Text) :
    file = firstLine file ++ file.drop (firstLine file).length :=
  (List.prefix_append_drop (firstLine_isPrefix file))

/-- The text behind the `n`-th quote of a text. -/
def behindQuote : ℕ → Text → Text
  | 0, z => z
  | n + 1, z => behindQuote n (z.dropWhile (· ≠ '"')).tail

theorem behindQuote_append (n : ℕ) {w : Text} (h : '"' ∉ w) (z : Text) :
    behindQuote (n + 1) (w ++ z) = behindQuote (n + 1) z := by
  rw [behindQuote, behindQuote, List.dropWhile_append_of_pos]
  exact fun c hc => decide_eq_true fun heq => h (heq ▸ hc)

theorem behindQuote_cons (n : ℕ) (z : Text) : behindQuote (n + 1) ('"' :: z) = behindQuote n z := by
  rw [behindQuote]
  rfl

/-- Behind the last quote that a format prints. -/
theorem behindQuote_render {env : Arg → Text} {gs : Template}
    (h : ∀ arg, .hole arg ∈ gs → '"' ∉ env arg) (z : Text) :
    behindQuote (gs.count (.char '"') + 1) (render env gs ++ '"' :: z) = z := by
  induction gs with
  | nil => exact behindQuote_cons 0 z
  | cons g gs ih =>
      have hrest := ih fun arg harg => h arg (List.mem_cons_of_mem _ harg)
      have hrender : render env (g :: gs) = g.text env ++ render env gs := rfl
      rw [hrender, List.append_assoc]
      by_cases hquote : g = .char '"'
      · subst hquote
        rw [List.count_cons_self]
        exact (behindQuote_cons _ _).trans hrest
      · have hw : '"' ∉ g.text env := by
          cases g with
          | char c =>
              intro hmem
              exact hquote (List.mem_singleton.mp hmem ▸ rfl)
          | hole arg => exact h arg List.mem_cons_self
        rw [List.count_cons_of_ne hquote, behindQuote_append _ hw, hrest]

/-- What the literals denote of which the first begins with the `n`-th quote of a printed text. The
token behind them begins with the given character. -/
def LiteralsAt (n : ℕ) (behind : Char) (printed : Option Text) (denoted : Denoted) : Prop :=
  ∃ text, printed = some text ∧ literals.Passes .chars (behindQuote n text) denoted (.ended behind)

/-- The literals for `create_sql` in the descriptor and for `sql_stmt` in `X_create_table` denote
the tokens of a text. -/
structure DenotesTokens (t : GenTable) (file : Text) : Prop where
  descriptor : ∃ denoted, LiteralsAt 3 ',' (printParts t (cGenerateDeviceDesc t.pkIndex)) denoted ∧
    lexemes (cString denoted) = lexemes file
  createTable : ∃ denoted, LiteralsAt 1 ';' (printCreateTable t (some file)) denoted ∧
    lexemes (cString denoted) = lexemes file

/-- If the parser accepts the file, the source that is generated from it has its statement; if not,
nothing is generated. -/
structure EmbedsSql (strdup : ℕ → Address) (file : Text) : Prop where
  accepted : (yyparse (yylex file)).1 = true → ∃ t,
    generateMain (fun _ => strdup) [some file] = ([some t], .finished) ∧ DenotesTokens t file
  rejected : (yyparse (yylex file)).1 = false → ∃ ending,
    generateMain (fun _ => strdup) [some file] = ([], ending) ∧ ending ≠ .undefined ∧
      ending ≠ .misused

/-- All tokens of the file stand in its first line; between two quotes the line is one string
literal or some adjacent ones, where no character of a token is one of an escape sequence or a
comment, and no token is made of pieces of several literals. -/
structure Embeddable (file : Text) : Prop where
  inLine : tokenChars (file.drop (firstLine file).length) = 0
  literal : ∃ denoted, literals.Passes .chars (firstLine file ++ ['"']) denoted .closed ∧
    literals.Along Unescaped .chars (firstLine file ++ ['"']) ∧
      lexemes denoted.reduceOption = lexemes (spelled denoted)

theorem lexemes_firstLine {file : Text} (h : tokenChars (file.drop (firstLine file).length) = 0) :
    lexemes file = lexemes (firstLine file) := by
  have hsplit := lexemes_append_of_none h (firstLine file)
  rwa [← firstLine_append] at hsplit

section Denoted
variable {file : Text} {denoted : Denoted}
  (h : literals.Passes .chars (firstLine file ++ ['"']) denoted .closed)
include h

/-- Where no character of a token is lost the string has no NUL, and the line is what it spells. -/
theorem denoted_unescaped (halong : literals.Along Unescaped .chars (firstLine file ++ ['"'])) :
    cString denoted = denoted.reduceOption ∧
      lexemes (firstLine file) = lexemes (spelled denoted) := by
  have hquote : tokenChars ['"'] = 0 := rfl
  have hnul : '\x00' ∉ firstLine file ++ ['"'] := by
    rw [List.mem_append, not_or]
    exact ⟨nul_notMem_firstLine file, by decide⟩
  constructor
  · rw [cString, List.takeWhile_eq_self_iff]
    intro c hc
    have hne : c ≠ '\x00' := by
      rintro rfl
      exact nul_notMem plain_chars halong hnul h (List.reduceOption_mem_iff.mp hc)
    exact decide_eq_true hne
  · have hline := (lexemes_spelled plain_chars halong h).1 rfl []
    rw [List.nil_append, List.nil_append, lexemes_append_of_none hquote] at hline
    exact hline

/-- The literals denote the tokens of the file exactly if none is lost. -/
theorem lexemes_denoted : lexemes (cString denoted) = lexemes file ↔ Embeddable file := by
  constructor
  · intro htokens
    have hcount : tokenChars (cString denoted) = tokenChars file := by
      rw [← tokenChars_lexemes, htokens, tokenChars_lexemes]
    have hfile : tokenChars file = tokenChars (firstLine file) +
        tokenChars (file.drop (firstLine file).length) := by
      rw [tokenChars, tokenChars, tokenChars, ← List.countP_append, ← firstLine_append]
    have hline : tokenChars (firstLine file ++ ['"']) = tokenChars (firstLine file) := by
      rw [tokenChars, List.countP_append]
      exact Nat.add_zero _
    have hstring : tokenChars (cString denoted) ≤ denotedChars denoted :=
      (List.takeWhile_prefix _).sublist.countP_le
    have hread := passes_count h
    have hdebt : debt .closed = 0 ∧ debt .chars = 0 := ⟨rfl, rfl⟩
    have hinLine : tokenChars (file.drop (firstLine file).length) = 0 := by omega
    obtain halong | hlt := along_or_lt plain_chars h
    · obtain ⟨hstring, hspelled⟩ := denoted_unescaped h halong
      refine ⟨hinLine, denoted, h, halong, ?_⟩
      rw [← hstring, htokens, lexemes_firstLine hinLine, hspelled]
    · omega
  · rintro ⟨hinLine, denoted', hpasses, halong, hjoined⟩
    obtain rfl : denoted = denoted' :=
      congrArg Prod.fst (Option.some.inj (h.symm.trans hpasses))
    obtain ⟨hstring, hspelled⟩ := denoted_unescaped h halong
    rw [hstring, hjoined, ← hspelled, lexemes_firstLine hinLine]

end Denoted

def beforeSql (gs : Template) : Template := (gs.takeWhile (· ≠ .hole .createSql)).dropLast

def behindSql (gs : Template) : Template := (gs.dropWhile (· ≠ .hole .createSql)).drop 2

/-- A format that prints the statement between two quotes, behind `n` other ones. -/
structure QuotesSql (n : ℕ) (gs : Template) : Prop where
  eq : gs = beforeSql gs ++ .char '"' :: .hole .createSql :: .char '"' :: behindSql gs
  count : (beforeSql gs).count (.char '"') = n
  holes : holesAll Arg.ofTable (beforeSql gs)

theorem quotesSql_iff (n : ℕ) (gs : Template) :
    (gs = beforeSql gs ++ .char '"' :: .hole .createSql :: .char '"' :: behindSql gs ∧
      (beforeSql gs).count (.char '"') = n ∧ holesAll Arg.ofTable (beforeSql gs)) ↔
        QuotesSql n gs :=
  ⟨fun h => ⟨h.1, h.2.1, h.2.2⟩, fun h => ⟨h.eq, h.count, h.holes⟩⟩

instance (n : ℕ) (gs : Template) : Decidable (QuotesSql n gs) :=
  decidable_of_iff _ (quotesSql_iff n gs)

theorem deviceDesc_cases (pkIndex : Option ℕ) :
    deviceDesc pkIndex = deviceDesc none ∨ deviceDesc pkIndex = deviceDesc (some 0) := by
  cases pkIndex with
  | none => exact Or.inl rfl
  | some i => exact Or.inr rfl

theorem deviceDesc_quotesSql (pkIndex : Option ℕ) : QuotesSql 2 (deviceDesc pkIndex) ∧
    (behindSql (deviceDesc pkIndex)).head? = some (.char ',') := by
  obtain hpk | hpk := deviceDesc_cases pkIndex
  · rw [hpk]
    decide +kernel
  · rw [hpk]
    decide +kernel

def createTableEnd : String :=
  ";\n\n    return sorm_run_stmt(conn, sql_stmt, SORM_RWLOCK_WRITE);\n\x7d\n\n"

theorem createTable_quotesSql : QuotesSql 0 createTableFunc ∧
    behindSql createTableFunc = lit createTableEnd := by
  decide +kernel

theorem stepBehind_chars {value : ℕ} {denoted : Denoted} {s : LiteralState}
    (h : stepBehind value ';' = some (denoted, s)) : s = .chars := by
  obtain ⟨char, -, hrest⟩ := Option.bind_eq_some_iff.mp h
  exact (Prod.mk.inj (Option.some.inj hrest)).2.symm

/-- Only behind the literals is the end of `X_create_table` read as its end. -/
theorem closed_of_passes {s : LiteralState} {denoted : Denoted}
    (h : literals.Passes s createTableEnd.toList denoted (.ended ';')) :
    s = .closed ∨ s = .ended ';' := by
  have hline : ∀ denoted s, ¬ literals.Passes .chars (createTableEnd.toList.drop 1) denoted s := by
    intro denoted s hpasses
    have hnone : literals.run .chars (createTableEnd.toList.drop 1) = none := by decide +kernel
    cases hnone.symm.trans hpasses
  have hother : ∀ denoted s, (literals.run s (createTableEnd.toList.drop 1)).map Prod.snd ≠
      some (.ended ';') →
        ¬ literals.Passes s (createTableEnd.toList.drop 1) denoted (.ended ';') :=
    fun _ _ hne hpasses => hne (congrArg (Option.map Prod.snd) hpasses)
  have huncons : createTableEnd.toList = ';' :: createTableEnd.toList.drop 1 := by decide +kernel
  rw [huncons] at h
  obtain ⟨first, next, rest, hstep, hrest, rfl⟩ := h.uncons
  cases s with
  | closed => exact Or.inl rfl
  | ended c =>
      obtain ⟨rfl, rfl⟩ := Prod.mk.inj (Option.some.inj hstep)
      rw [Transducer.Passes, run_ended] at hrest
      exact Or.inr (Prod.mk.inj (Option.some.inj hrest)).2
  | chars =>
      obtain ⟨rfl, rfl⟩ := Prod.mk.inj (Option.some.inj hstep)
      exact absurd hrest (hline _ _)
  | octal digits value =>
      have hdigit : (if digits < 3 then octalDigit ';' else none) = none := by
        split_ifs <;> rfl
      change stepOctal digits value ';' = _ at hstep
      rw [stepOctal, hdigit] at hstep
      obtain rfl := stepBehind_chars hstep
      exact absurd hrest (hline _ _)
  | hex value =>
      cases value with
      | none => cases hstep
      | some value =>
          obtain rfl := @stepBehind_chars value _ _ hstep
          exact absurd hrest (hline _ _)
  | backslash | universal => cases hstep
  | slash | line | comment | star =>
      obtain ⟨rfl, rfl⟩ := Prod.mk.inj (Option.some.inj hstep)
      exact absurd hrest (hother _ _ (by decide +kernel))

section Printed
variable {t : GenTable} (ht : t.Parsed)
include ht

theorem QuotesSql.behindQuote {n : ℕ} {gs : Template} (h : QuotesSql n gs) :
    Sorm.behindQuote (n + 1) (render (t.value 0 .zero) gs) =
      t.createSql ++ '"' :: render (t.value 0 .zero) (behindSql gs) := by
  have hquote : ∀ arg, .hole arg ∈ beforeSql gs → '"' ∉ t.value 0 .zero arg := by
    intro arg harg hmem
    have hletter := (ht.isWord_ofTable 0 .zero (allowed_of_holesAll h.holes harg)).2 _ hmem
    exact absurd hletter (by decide)
  have hrender : render (t.value 0 .zero) gs = render (t.value 0 .zero) (beforeSql gs) ++
      '"' :: (t.createSql ++ '"' :: render (t.value 0 .zero) (behindSql gs)) := by
    conv_lhs => rw [h.eq, render_append]
    rfl
  rw [hrender, ← h.count]
  exact behindQuote_render hquote _

theorem denotesTokens_iff {file : Text} (hfile : readStatement file = some t.createSql)
    (hsql : t.createSql = firstLine file) : DenotesTokens t file ↔ Embeddable file := by
  obtain ⟨hdevice, hcomma⟩ := deviceDesc_quotesSql t.pkIndex
  obtain ⟨htable, hend⟩ := createTable_quotesSql
  obtain ⟨rest, hrest⟩ : ∃ rest, render (t.value 0 .zero) (behindSql (deviceDesc t.pkIndex)) =
      ',' :: rest := by
    obtain ⟨gs, hgs⟩ := List.head?_eq_some_iff.mp hcomma
    rw [hgs]
    exact ⟨_, rfl⟩
  have hprinted : printParts t (cGenerateDeviceDesc t.pkIndex) =
      some (render (t.value 0 .zero) (deviceDesc t.pkIndex)) := by
    rw [cGenerateDeviceDesc, printParts, Part.print, printParts]
    exact congrArg some (List.append_nil _)
  have hcreate : printCreateTable t (some file) =
      some (render (t.value 0 .zero) createTableFunc) := by
    rw [printCreateTable, Option.bind_some, hfile]
    exact congrArg some (List.append_nil _)
  have hclosed : literals.Passes .closed createTableEnd.toList [] (.ended ';') := by
    rw [Transducer.Passes]
    decide +kernel
  have hdescriptor := hdevice.behindQuote ht
  have hfunction := htable.behindQuote ht
  rw [hrest, hsql, ← List.singleton_append, ← List.append_assoc] at hdescriptor
  rw [hend, render_lit, hsql, ← List.singleton_append, ← List.append_assoc] at hfunction
  constructor
  · rintro ⟨⟨denoted, ⟨text, htext, hpasses⟩, -⟩, denoted', ⟨text', htext', hpasses'⟩, htokens⟩
    obtain rfl := Option.some.inj (hprinted.symm.trans htext)
    obtain rfl := Option.some.inj (hcreate.symm.trans htext')
    rw [hdescriptor] at hpasses
    rw [hfunction] at hpasses'
    obtain ⟨s, first, behind, hfirst, hbehind, rfl⟩ := hpasses'.split
    obtain ⟨s', first', behind', hfirst', hbehind', -⟩ := hpasses.split
    obtain ⟨-, rfl⟩ := hfirst.unique hfirst'
    obtain rfl | rfl := closed_of_passes hbehind
    · have hnil : behind = [] := (hbehind.unique hclosed).1
      rw [hnil, List.append_nil] at htokens
      exact (lexemes_denoted hfirst).mp htokens
    · rw [Transducer.Passes, run_ended] at hbehind'
      cases hbehind'
  · intro hembeddable
    obtain ⟨denoted, hpasses, -⟩ := hembeddable.literal
    have htokens := (lexemes_denoted hpasses).mpr hembeddable
    refine ⟨⟨denoted, ⟨_, hprinted, ?_⟩, htokens⟩, denoted, ⟨_, hcreate, ?_⟩, htokens⟩
    · rw [hdescriptor]
      have happend := hpasses.append (passes_behind (c := ',') rfl rest)
      rwa [List.append_nil] at happend
    · rw [hfunction]
      have happend := hpasses.append hclosed
      rwa [List.append_nil] at happend

end Printed

section File
variable {file : Text} (hne : file ≠ [])
include hne

theorem readStatement_tableOf : readStatement file = some (tableOf file).createSql ∧
    (tableOf file).createSql = firstLine file := by
  have hsql := readStatement_eq hne
  have hcreate : (tableOf file).createSql = firstLine file := by
    change (readStatement file).getD [] = _
    rw [hsql]
    rfl
  exact ⟨hcreate ▸ hsql, hcreate⟩

/-- What a run on one file takes to generate its table. -/
structure Generates (strdup : ℕ → Address) (file : Text) : Prop where
  copies : CopiesFit strdup file
  head : file.head? ≠ some '\x00'
  keys : pkCount (columnsOf file) ≤ 1
  named : (yyparse (yylex file)).2.name.isSome

theorem generateMain_singleton (strdup : ℕ → Address) :
    (Generates strdup file →
      generateMain (fun _ => strdup) [some file] = ([some (tableOf file)], .finished)) ∧
    (¬ Generates strdup file → ∃ ending, generateMain (fun _ => strdup) [some file] = ([], ending) ∧
      (ending = .undefined ∨ ending = .misused)) := by
  obtain ⟨createSql, hsql, hread⟩ := readTable_eq hne
  have hkeys := hread strdup false
  rw [Bool.toNat_false, Nat.zero_add] at hkeys
  rw [generateMain, generateFrom, hkeys]
  by_cases hfit : CopiesFit strdup file ∧ file.head? ≠ some '\x00'
  · rw [if_pos hfit]
    by_cases hone : pkCount (columnsOf file) ≤ 1
    · rw [if_pos hone]
      cases hname : (yyparse (yylex file)).2.name with
      | none =>
          refine ⟨fun h => ?_, fun _ => ⟨_, rfl, Or.inl rfl⟩⟩
          have hnamed := h.named
          rw [hname] at hnamed
          cases hnamed
      | some name =>
          have htable : tableOf file = describedBy name file createSql := by
            rw [tableOf, hname, hsql]
            rfl
          dsimp only
          rw [List.isEmpty_nil, Bool.or_true, if_pos rfl, htable]
          refine ⟨fun _ => rfl, fun hnot => absurd ⟨hfit.1, hfit.2, hone, ?_⟩ hnot⟩
          rw [hname]
          rfl
    · rw [if_neg hone]
      exact ⟨fun h => absurd h.keys hone, fun _ => ⟨_, rfl, Or.inr rfl⟩⟩
  · rw [if_neg hfit]
    exact ⟨fun h => absurd ⟨h.copies, h.head⟩ hfit, fun _ => ⟨_, rfl, Or.inl rfl⟩⟩

/-- A file that the parser accepts has a token in its first line, before any NUL. -/
theorem Embeddable.head (h : Embeddable file) (haccepted : (yyparse (yylex file)).1 = true) :
    file.head? ≠ some '\x00' := by
  intro hhead
  obtain ⟨z, rfl⟩ := List.head?_eq_some_iff.mp hhead
  have hline : firstLine ('\x00' :: z) = [] := by
    by_contra hnonempty
    obtain ⟨c, line, hcons⟩ := List.exists_cons_of_ne_nil hnonempty
    have hprefix := firstLine_isPrefix ('\x00' :: z)
    rw [hcons, List.cons_prefix_cons] at hprefix
    have hnul := nul_notMem_firstLine ('\x00' :: z)
    rw [hcons, hprefix.1] at hnul
    exact hnul List.mem_cons_self
  have hnone := h.inLine
  rw [hline, List.length_nil, List.drop_zero] at hnone
  have hlexemes : yylex ('\x00' :: z) = [] := by
    rw [yylex, lexemes_of_none hnone]
    rfl
  rw [hlexemes] at haccepted
  exact absurd haccepted (by decide)

end File

theorem tableOf_parsed {file : Text} (h : (yyparse (yylex file)).2.name.isSome) :
    (tableOf file).Parsed := by
  obtain ⟨-, hcolumns, hnamed, -⟩ := yyparse_parsed file
  obtain ⟨name, hname⟩ := Option.isSome_iff_exists.mp h
  refine ⟨?_, hcolumns⟩
  change IsParsedName ((yyparse (yylex file)).2.name.getD [])
  rw [hname]
  exact hnamed name hname

theorem generateMain_empty (strdup : ℕ → Address) :
    generateMain (fun _ => strdup) [some []] = ([], .failed) := by
  have hread : readTable strdup false [] = .error .failed := by
    rw [readTable]
    obtain ⟨-, hrun⟩ | ⟨hfit, -⟩ := parse_eq strdup []
    · rw [hrun]
      rfl
    · exact absurd (fun k hk => absurd hk (Nat.not_lt_zero k)) hfit
  rw [generateMain, generateFrom, hread]

def splitStatement : Text := "CREATE TABLE a (\nid INTEGER)\n".toList

end Sorm
