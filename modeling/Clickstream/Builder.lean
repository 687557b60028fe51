import Clickstream.Allowlist

/-! `build_select_sql`, and which of the statements that it builds `sanitize_sql` lets through. -/

namespace Clickstream.Assistant

open Python Kit Kit.Regex

def limitError : PyStr :=
  lit "Exceeds the limit (4300 digits) for integer string conversion; " ++
    lit "use sys.set_int_max_str_digits() to increase the limit"

/-- `", ".join(columns) if columns else "*"` -/
def columnText : Option (List PyStr) → PyStr
  | some (column :: rest) => (lit ", ").intercalate (column :: rest)
  | _ => lit "*"

/-- An error is the text of a `ValueError`. -/
def buildSelectSql (py : Interpreter) (table : PyStr) (columns : Option (List PyStr)) (limit : Int) :
    Except PyStr PyStr :=
  if table ∉ allowedTables then
    .error (lit "table " ++ reprStr py table ++ lit " is not allowlisted")
  else if maxStrDigits < (Nat.digits 10 limit.natAbs).length then .error limitError
  else
    .ok (lit "SELECT " ++ columnText columns ++ lit " FROM " ++ table ++ lit " LIMIT " ++
      intText limit)

/-- `[a-z0-9_]` -/
def identifierChar (c : Cp) : Bool :=
  decide (0x61 ≤ c.val ∧ c.val ≤ 0x7A ∨ 0x30 ≤ c.val ∧ c.val ≤ 0x39 ∨ c.val = 0x5F)

/-- A plain SQL identifier: `[a-z_][a-z0-9_]*`, and no reserved word. -/
structure PlainIdentifier (reserved : PyStr → Prop) (column : PyStr) : Prop where
  start : ∃ c rest, column = c :: rest ∧ isAsciiDigit c = false
  chars : ∀ c ∈ column, identifierChar c = true
  not_reserved : ¬reserved column

/-! ### The words of the statement -/

/-- The names between `SELECT` and `FROM`. -/
def selected : Option (List PyStr) → List PyStr
  | some (column :: rest) => column :: rest
  | _ => [lit "*"]

/-- What may stand between `SELECT` and `FROM`: a plain identifier or `*`. -/
structure IsName (name : PyStr) : Prop where
  ne_nil : name ≠ []
  chars : ∀ c ∈ name, identifierChar c = true ∨ c = chr '*'
  inner : ∀ x, name = x ++ lit "from" → ∃ c ∈ x.getLast?, identifierChar c = true

theorem isName_star : IsName (lit "*") where
  ne_nil := List.cons_ne_nil _ _
  chars c hc := .inr (List.mem_singleton.mp hc)
  inner x hx := by
    have hlength := congrArg List.length hx
    rw [List.length_append] at hlength
    have hlong : (lit "*").length < (lit "from").length := by decide
    omega

theorem PlainIdentifier.isName {reserved : PyStr → Prop} (hfrom : reserved (lit "from"))
    {column : PyStr} (h : PlainIdentifier reserved column) : IsName column where
  ne_nil := by
    obtain ⟨c, rest, hcons, -⟩ := h.start
    rw [hcons]
    exact List.cons_ne_nil _ _
  chars c hc := .inl (h.chars c hc)
  inner x hx := by
    rcases List.eq_nil_or_concat' x with rfl | ⟨x, c, rfl⟩
    · exact absurd (hx ▸ hfrom) h.not_reserved
    · refine ⟨c, List.getLast?_concat, h.chars c ?_⟩
      rw [hx]
      simp

theorem intText_ne_nil {n : Int} (h : 0 < n) : intText n ≠ [] := by
  have hne : Nat.digits 10 n.natAbs ≠ [] := Nat.digits_ne_nil_iff_ne_zero.mpr (by omega)
  rw [intText_pos h]
  simpa using hne

/-- What `build_select_sql` puts into a statement: the columns in front of the last one, the last one,
the table and the number behind `LIMIT`. -/
structure Parts where
  front : List PyStr
  last : PyStr
  table : PyStr
  number : PyStr
  names : ∀ name ∈ front ++ [last], IsName name
  table_mem : table ∈ allowedTables
  number_ne_nil : number ≠ []
  digits : ∀ c ∈ number, isAsciiDigit c = true

namespace Parts

/-- The words in front of `FROM`: those of `front` are followed by a comma. -/
def columnWords (p : Parts) (select : PyStr) : List PyStr :=
  select :: (p.front.map (· ++ lit ",") ++ [p.last])

def words (p : Parts) (select from' limit' : PyStr) : List PyStr :=
  p.columnWords select ++ [from', p.table, limit', p.number]

/-- The statement. -/
def text (p : Parts) : PyStr := unwords (p.words (lit "SELECT") (lit "FROM") (lit "LIMIT"))

def loweredWords (p : Parts) : List PyStr := p.words (lit "select") (lit "from") (lit "limit")

/-- The statement as the checks see it. -/
def loweredText (p : Parts) : PyStr := unwords p.loweredWords

end Parts

theorem Parts.unwords_words (p : Parts) (select from' limit' : PyStr) :
    unwords (p.words select from' limit') =
      select ++ chr ' ' :: (unwords (p.front.map (· ++ lit ",") ++ [p.last]) ++
        chr ' ' :: (from' ++ chr ' ' :: (p.table ++ chr ' ' :: (limit' ++ chr ' ' :: p.number)))) := by
  rw [words, columnWords, unwords_append (List.cons_ne_nil _ _) (List.cons_ne_nil _ _),
    unwords_cons select (by simp), unwords_cons from' (by simp), unwords_cons p.table (by simp),
    unwords_cons limit' (by simp)]
  simp [unwords]

theorem intercalate_concat (front : List PyStr) (last : PyStr) :
    (lit ", ").intercalate (front ++ [last]) = unwords (front.map (· ++ lit ",") ++ [last]) := by
  induction front with
  | nil => rfl
  | cons column front ih =>
    rw [List.cons_append, List.intercalate_cons_of_ne_nil (by simp), ih, List.map_cons,
      List.cons_append, unwords_cons _ (by simp), List.append_assoc, List.append_assoc]
    rfl

theorem buildSelectSql_eq (py : Interpreter) {columns : Option (List PyStr)} {limit : Int} (p : Parts)
    (hcolumns : selected columns = p.front ++ [p.last]) (hnumber : p.number = intText limit)
    (hlimit : (Nat.digits 10 limit.natAbs).length ≤ maxStrDigits) :
    buildSelectSql py p.table columns limit = .ok p.text := by
  have hcols : columnText columns = (lit ", ").intercalate (selected columns) := by
    rcases columns with _ | _ | ⟨column, rest⟩ <;> rfl
  have hwords : lit "SELECT " = lit "SELECT" ++ [chr ' '] ∧
      lit " FROM " = chr ' ' :: (lit "FROM" ++ [chr ' ']) ∧
      lit " LIMIT " = chr ' ' :: (lit "LIMIT" ++ [chr ' ']) := ⟨rfl, rfl, rfl⟩
  rw [buildSelectSql, if_neg (not_not.mpr p.table_mem), if_neg (by omega), hcols, hcolumns,
    intercalate_concat, ← hnumber, Parts.text, p.unwords_words, hwords.1, hwords.2.1, hwords.2.2]
  simp

/-! ### Its characters -/

/-- A character of a statement in lower case, other than a blank. -/
def statementChar (c : Cp) : Bool :=
  identifierChar c || decide (c.val = 0x2A ∨ c.val = 0x2C ∨ c.val = 0x2E)

theorem statementChar_spec {c : Cp} (h : statementChar c = true) :
    c.val < 0x80 ∧ asciiLower c = c ∧ Python.isSpace c = false ∧ c ≠ chr ';' ∧ c ≠ chr '-' ∧
      c ≠ chr '/' := by
  have hval : 0x61 ≤ c.val ∧ c.val ≤ 0x7A ∨ 0x30 ≤ c.val ∧ c.val ≤ 0x39 ∨ c.val = 0x5F ∨
      c.val = 0x2A ∨ c.val = 0x2C ∨ c.val = 0x2E := by
    simp only [statementChar, identifierChar, Bool.or_eq_true, decide_eq_true_eq] at h
    omega
  refine ⟨by omega, ?_, ?_, ?_, ?_, ?_⟩
  · unfold asciiLower
    split
    · omega
    · rfl
  · simp only [Python.isSpace, decide_eq_false_iff_not]
    omega
  · rintro rfl
    exact absurd hval (by decide)
  · rintro rfl
    exact absurd hval (by decide)
  · rintro rfl
    exact absurd hval (by decide)

/-- A word of a statement in lower case. -/
def StatementWord (w : PyStr) : Prop := w ≠ [] ∧ ∀ c ∈ w, statementChar c = true

theorem StatementWord.isWord {w : PyStr} (h : StatementWord w) : IsWord w :=
  ⟨h.1, fun c hc => (statementChar_spec (h.2 c hc)).2.2.1⟩

theorem statementWord_table {table : PyStr} (h : table ∈ allowedTables) : StatementWord table := by
  have hall : allowedTables.all fun table => decide (table ≠ []) && table.all statementChar := by
    decide +kernel
  have htable := List.all_eq_true.mp hall table h
  simp only [Bool.and_eq_true, decide_eq_true_eq, List.all_eq_true] at htable
  exact htable

theorem tableChar_of_mem {table : PyStr} (h : table ∈ allowedTables) :
    ∀ c ∈ table, tableChar c = true := by
  have hall : allowedTables.all (·.all tableChar) := by decide +kernel
  exact List.all_eq_true.mp (List.all_eq_true.mp hall table h)

theorem isWord_of_identifierChar (u : UnicodeTables) {c : Cp} (h : identifierChar c = true) :
    u.isWord c = true := by
  rw [identifierChar, decide_eq_true_eq] at h
  rw [u.isWord_ascii c (by omega), isAsciiWord, decide_eq_true_eq]
  omega

theorem not_isWord_blank (u : UnicodeTables) : u.isWord (chr ' ') = false :=
  (u.isWord_ascii _ (by decide)).trans rfl

/-- A match begins at the start of a word. -/
theorem boundary_of_mem_run_fromPattern {u : UnicodeTables} {c d : Cursor Cp Unit}
    (h : d ∈ run (fromPattern u) c) : ∀ x ∈ c.behind.head?, u.isWord x = false := by
  obtain ⟨space, name, hahead, -⟩ := mem_run_fromPattern h
  rw [fromPattern, run_seqs_cons, run_look, flatMap_guard] at h
  split at h
  · rename_i hboundary
    have hright : c.ahead.head?.any u.isWord = true := by
      rw [hahead]
      exact isWord_of_identifierChar u (by decide : identifierChar (chr 'f') = true)
    intro x hx
    rw [wordBoundary, hright, Option.mem_def.mp hx] at hboundary
    simpa using hboundary
  · cases h

theorem isSome_matchStart_select (u : UnicodeTables) (rest : PyStr) :
    (matchStart (selectPattern u) (lit "select" ++ chr ' ' :: rest)).isSome = true := by
  have hboundary : wordBoundary u ((lit "select").reverse ++ []) (chr ' ' :: rest) = true := by
    show (u.isWord (chr 't') != u.isWord (chr ' ')) = true
    rw [isWord_of_identifierChar u (by decide : identifierChar (chr 't') = true), not_isWord_blank u]
    rfl
  rw [matchStart, selectPattern, run_seqs_cons, word, run_letters_eq, List.flatMap_singleton,
    run_seqs_cons, run_look, if_pos hboundary]
  rfl

/-- A keyword is a word, which ends no other word of the statement, and a blank. -/
theorem keyword_spec {keyword : PyStr} (h : keyword ∈ forbiddenKeywords) :
    ∃ v, keyword = v ++ [chr ' '] ∧ chr ' ' ∉ v ∧ (∀ name, ¬v <:+ name ++ lit ",") ∧
      ∀ w ∈ lit "select" :: lit "from" :: lit "limit" :: allowedTables, ¬v <:+ w := by
  have hall : forbiddenKeywords.all fun keyword =>
      decide (keyword = keyword.dropLast ++ [chr ' ']) && keyword.dropLast.all identifierChar &&
        decide (keyword.dropLast ≠ []) &&
        (lit "select" :: lit "from" :: lit "limit" :: allowedTables).all fun w =>
          !keyword.dropLast.isSuffixOf w := by
    decide +kernel
  have hkeyword := List.all_eq_true.mp hall keyword h
  simp only [Bool.and_eq_true, decide_eq_true_eq, List.all_eq_true] at hkeyword
  obtain ⟨⟨⟨heq, hchars⟩, hne⟩, hwords⟩ := hkeyword
  refine ⟨keyword.dropLast, heq, fun hblank => ?_, fun name hsuffix => ?_, fun w hw hsuffix => ?_⟩
  · exact absurd (hchars _ hblank) (by decide)
  · -- the word does not end in a comma
    have hcomma : keyword.dropLast.getLast hne = chr ',' := by
      obtain ⟨x, hx⟩ := hsuffix
      have hlast := congrArg List.getLast? hx
      rw [List.getLast?_append, List.getLast?_eq_some_getLast hne, Option.some_or] at hlast
      exact Option.some.inj (hlast.trans List.getLast?_concat)
    have hchar := hchars _ (List.getLast_mem hne)
    rw [hcomma] at hchar
    exact absurd hchar (by decide)
  · have hnot := hwords w hw
    rw [List.isSuffixOf_iff_suffix.mpr hsuffix] at hnot
    cases hnot

namespace Parts

variable (p : Parts)

theorem statementWord {w : PyStr} (hw : w ∈ p.loweredWords) : StatementWord w := by
  have hname : ∀ name ∈ p.front ++ [p.last], StatementWord name := by
    intro name hmem
    refine ⟨(p.names name hmem).ne_nil, fun c hc => ?_⟩
    rw [statementChar, Bool.or_eq_true]
    rcases (p.names name hmem).chars c hc with hchar | rfl
    · exact .inl hchar
    · exact .inr rfl
  have hkeywords : [lit "select", lit "from", lit "limit"].all fun w =>
      decide (w ≠ []) && w.all statementChar := by decide +kernel
  have hkeyword : ∀ w ∈ [lit "select", lit "from", lit "limit"], StatementWord w := by
    intro w hmem
    have hall := List.all_eq_true.mp hkeywords w hmem
    simp only [Bool.and_eq_true, decide_eq_true_eq, List.all_eq_true] at hall
    exact hall
  have hnumber : StatementWord p.number := by
    refine ⟨p.number_ne_nil, fun c hc => ?_⟩
    have hdigit := of_decide_eq_true (p.digits c hc)
    rw [statementChar, identifierChar, Bool.or_eq_true, decide_eq_true_eq]
    exact .inl (.inr (.inl hdigit))
  simp only [loweredWords, words, columnWords, List.cons_append, List.mem_cons, List.mem_append,
    List.mem_map, List.not_mem_nil, or_false] at hw
  rcases hw with rfl | (⟨name, hmem, rfl⟩ | rfl) | rfl | rfl | rfl | rfl
  · exact hkeyword _ (by simp)
  · obtain ⟨-, hchars⟩ := hname name (List.mem_append_left _ hmem)
    refine ⟨by simp [lit], fun c hc => ?_⟩
    rcases List.mem_append.mp hc with hc | hc
    · exact hchars c hc
    · rw [List.mem_singleton.mp hc]
      rfl
  · exact hname _ (by simp)
  · exact hkeyword _ (by simp)
  · exact statementWord_table p.table_mem
  · exact hkeyword _ (by simp)
  · exact hnumber

theorem isWord {w : PyStr} (hw : w ∈ p.loweredWords) : IsWord w := (p.statementWord hw).isWord

theorem mem_loweredText {c : Cp} (h : c ∈ p.loweredText) : c = chr ' ' ∨ statementChar c = true := by
  rcases mem_unwords h with hblank | ⟨w, hw, hc⟩
  · exact .inl hblank
  · exact .inr ((p.statementWord hw).2 c hc)

/-- The statement in lower case. -/
theorem map_asciiLower_text : p.text.map asciiLower = p.loweredText := by
  have hsame : ∀ w ∈ p.loweredWords, w.map asciiLower = w := by
    intro w hw
    have hchars : w.map asciiLower = w.map id := List.map_congr_left fun c hc =>
      (statementChar_spec ((p.statementWord hw).2 c hc)).2.1
    rw [hchars, List.map_id]
  have hkeywords : (lit "SELECT").map asciiLower = (lit "select").map asciiLower ∧
      (lit "FROM").map asciiLower = (lit "from").map asciiLower ∧
      (lit "LIMIT").map asciiLower = (lit "limit").map asciiLower := by decide +kernel
  have hlower : (p.words (lit "SELECT") (lit "FROM") (lit "LIMIT")).map (·.map asciiLower) =
      p.loweredWords.map (·.map asciiLower) := by
    simp only [loweredWords, words, columnWords, List.map_append, List.map_cons, List.map_nil,
      hkeywords]
  rw [text, map_unwords rfl, hlower, List.map_congr_left hsame, List.map_id', loweredText]

theorem lower_text (u : UnicodeTables) : lower u p.text = p.loweredText := by
  have hascii : ∀ c ∈ p.text, c.val < 0x80 := by
    intro c hc
    have hlower := List.mem_map_of_mem (f := asciiLower) hc
    rw [p.map_asciiLower_text] at hlower
    apply asciiLower_ascii
    rcases p.mem_loweredText hlower with hblank | hchar
    · rw [hblank]
      decide
    · exact (statementChar_spec hchar).1
  rw [lower, lowerFrom_ascii u hascii, p.map_asciiLower_text]

/-- There is nothing around the statement to be stripped. -/
theorem stripped_text : stripped p.text = p.text := by
  obtain ⟨middle, htext⟩ : ∃ middle, p.text = chr 'S' :: (middle ++ p.number) := by
    rw [text, p.unwords_words]
    exact ⟨lit "ELECT" ++ chr ' ' :: (unwords (p.front.map (· ++ lit ",") ++ [p.last]) ++ chr ' ' ::
      (lit "FROM" ++ chr ' ' :: (p.table ++ chr ' ' :: (lit "LIMIT" ++ [chr ' '])))), by simp [lit]⟩
  rw [htext]
  have hlast : ∀ c ∈ (chr 'S' :: (middle ++ p.number)).getLast?, isAsciiDigit c = true := by
    intro c hc
    rw [← List.cons_append, List.getLast?_append, List.getLast?_eq_some_getLast p.number_ne_nil,
      Option.some_or] at hc
    cases hc
    exact p.digits _ (List.getLast_mem p.number_ne_nil)
  have hstrip : strip (chr 'S' :: (middle ++ p.number)) = chr 'S' :: (middle ++ p.number) := by
    refine strip_eq_self (fun c hc => by cases hc; rfl) fun c hc => ?_
    have hdigit := of_decide_eq_true (hlast c hc)
    simp only [Python.isSpace, decide_eq_false_iff_not]
    omega
  rw [stripped, hstrip, List.rdropWhile_eq_self_iff.mpr fun hne => ?_, hstrip]
  rw [decide_eq_true_eq]
  intro hsemicolon
  have hdigit := hlast _ (List.getLast?_eq_some_getLast hne)
  rw [hsemicolon] at hdigit
  exact absurd hdigit (by decide)

theorem lowered_text (u : UnicodeTables) : lowered u p.text = p.loweredText := by
  rw [lowered, p.stripped_text, p.lower_text]
  exact collapse_unwords fun w hw => p.isWord hw

/-! ### What the checks find -/

/-- No word up to the last column ends in `from` as a word of its own. -/
theorem not_mem_columnWords {ws : List PyStr} {w pre : PyStr} (hsuffix : lit "from" <:+ w)
    (htext : pre ++ lit "from" = unwords (ws ++ [w]))
    (hpre : ∀ c ∈ pre.getLast?, identifierChar c = false) : w ∉ p.columnWords (lit "select") := by
  intro hmem
  simp only [columnWords, List.mem_cons, List.mem_append, List.mem_map, List.not_mem_nil,
    or_false] at hmem
  obtain ⟨x, hx⟩ := hsuffix
  rcases hmem with rfl | ⟨name, -, rfl⟩ | rfl
  · have hnot : ¬lit "from" <:+ lit "select" := by decide
    exact hnot ⟨x, hx⟩
  · have hend := congrArg List.getLast? hx
    rw [List.getLast?_append] at hend
    exact absurd (Option.some.inj (hend.trans List.getLast?_concat)) (by decide)
  · obtain ⟨c, hc, hchar⟩ := (p.names p.last (by simp)).inner x hx.symm
    have hend : pre.getLast? = some c := by
      by_cases hnil : ws = []
      · rw [hnil, List.nil_append, unwords_singleton, ← hx,
          List.append_cancel_right_eq] at htext
        rw [htext]
        exact hc
      · rw [unwords_concat hnil, ← hx, ← List.append_assoc, List.append_cancel_right_eq] at htext
        rw [htext, List.getLast?_append, Option.mem_def.mp hc, Option.some_or]
    rw [hpre c hend] at hchar
    cases hchar

/-- The word `from`, where no name goes on in front of it, and a blank behind it stand at one place:
behind the columns. -/
theorem place_of_from {pre rest : PyStr}
    (htext : p.loweredText = pre ++ lit "from" ++ chr ' ' :: rest)
    (hpre : ∀ c ∈ pre.getLast?, identifierChar c = false) :
    pre = unwords (p.columnWords (lit "select")) ++ [chr ' '] ∧
      rest = unwords [p.table, lit "limit", p.number] := by
  obtain ⟨ws₁, ws₂, hsplit, hne₁, hne₂, hleft, hright⟩ :=
    unwords_eq_append_cons (fun w hw => (p.isWord hw).blank) htext
  obtain ⟨ws, w, rfl⟩ : ∃ ws w, ws₁ = ws ++ [w] := ⟨_, _, (List.dropLast_append_getLast hne₁).symm⟩
  have hsuffix : lit "from" <:+ w :=
    (suffix_unwords (by decide) ws).mp (hleft ▸ List.suffix_append pre (lit "from"))
  have hcolumns := p.not_mem_columnWords hsuffix hleft hpre
  have hlast : ∀ (m : List PyStr) (x : PyStr),
      ws ++ [w] = p.columnWords (lit "select") ++ (m ++ [x]) → w = x := by
    intro m x h
    rw [← List.append_assoc] at h
    exact (List.cons.inj (List.append_inj' h rfl).2).1
  rw [loweredWords, words] at hsplit
  -- how many of the four words behind the columns stand in front of the blank
  rcases List.append_eq_append_iff.mp hsplit with ⟨a, hP, ha⟩ | ⟨a, hP, -⟩
  · rcases a with _ | ⟨a₁, _ | ⟨a₂, _ | ⟨a₃, a⟩⟩⟩
    · rw [List.append_nil] at hP
      exact absurd (hP ▸ List.mem_append_right ws List.mem_cons_self) hcolumns
    · obtain ⟨rfl, rfl⟩ := List.cons.inj ha
      obtain ⟨rfl, hw⟩ := List.append_inj' hP rfl
      cases hw
      have hne : p.columnWords (lit "select") ≠ [] := List.cons_ne_nil _ _
      rw [unwords_append hne (List.cons_ne_nil _ _)] at hleft
      have hcancel : pre ++ lit "from" =
          unwords (p.columnWords (lit "select")) ++ [chr ' '] ++ lit "from" := by
        rw [List.append_assoc]
        exact hleft
      exact ⟨List.append_cancel_right hcancel, hright⟩
    · obtain ⟨-, htail⟩ := List.cons.inj ha
      obtain ⟨rfl, -⟩ := List.cons.inj htail
      rw [hlast [a₁] p.table hP] at hsuffix
      exact absurd hsuffix
        (not_suffix_allowed p.table_mem (List.prefix_refl _) (List.cons_ne_nil _ _))
    · obtain ⟨-, htail₁⟩ := List.cons.inj ha
      obtain ⟨-, htail₂⟩ := List.cons.inj htail₁
      obtain ⟨rfl, htail₃⟩ := List.cons.inj htail₂
      cases a with
      | nil =>
        rw [hlast [a₁, a₂] (lit "limit") hP] at hsuffix
        exact absurd hsuffix (by decide)
      | cons a₄ a =>
        obtain ⟨-, hnil⟩ := List.cons.inj htail₃
        exact absurd (List.append_eq_nil_iff.mp hnil.symm).2 hne₂
  · refine absurd ?_ hcolumns
    rw [hP]
    simp

/-- The pattern finds the table, and nothing else. -/
theorem mem_findAll {u : UnicodeTables} {name : PyStr}
    (hname : name ∈ findAll (fromPattern u) () p.loweredText) : name = p.table := by
  obtain ⟨d, hd, rfl⟩ := List.mem_map.mp hname
  obtain ⟨pre, text, htext, hrun⟩ := exists_of_mem_findFrom hd
  have hmem := List.mem_of_mem_head? hrun
  obtain ⟨space, found, hahead, hspacene, hspaces, -, -, -⟩ := mem_run_fromPattern hmem
  simp only at hahead
  obtain ⟨c, spaces, rfl⟩ := List.exists_cons_of_ne_nil hspacene
  have hblank : c = chr ' ' := by
    rcases p.mem_loweredText (c := c) (by rw [htext, hahead]; simp) with hblank | hchar
    · exact hblank
    · have hspace := (statementChar_spec hchar).2.2.1
      rw [hspaces c List.mem_cons_self] at hspace
      cases hspace
  have hbehind := boundary_of_mem_run_fromPattern hmem
  have hsplit : p.loweredText = pre ++ lit "from" ++ chr ' ' :: (spaces ++ (found ++ d.ahead)) := by
    rw [htext, hahead, hblank]
    simp
  obtain ⟨-, hplace⟩ := p.place_of_from hsplit fun e he => by
    rw [List.append_nil, List.head?_reverse] at hbehind
    by_contra hchar
    rw [Bool.not_eq_false] at hchar
    have hword := isWord_of_identifierChar u hchar
    rw [hbehind e he] at hword
    cases hword
  have hfrom : text = lit "from" ++ chr ' ' :: (p.table ++
      chr ' ' :: (lit "limit" ++ chr ' ' :: p.number)) := by
    rw [hahead, hblank, List.cons_append, hplace, unwords_cons p.table (by simp),
      unwords_cons (lit "limit") (by simp), unwords_singleton]
  have hrest : ∀ x ∈ (chr ' ' :: (lit "limit" ++ chr ' ' :: p.number)).head?, tableChar x = false := by
    intro x hx
    cases hx
    rfl
  obtain ⟨e, he, hcaptured⟩ := run_fromPattern hbehind (statementWord_table p.table_mem).1
    (tableChar_of_mem p.table_mem) hrest
  rw [hfrom, he, Option.some.injEq] at hrun
  rw [← hrun]
  exact hcaptured

/-- A forbidden keyword lies in the statement exactly when it ends the last column. -/
theorem contains_keyword_iff {keyword : PyStr} (hkeyword : keyword ∈ forbiddenKeywords) :
    contains keyword p.loweredText = true ↔ keyword <:+ p.last ++ [chr ' '] := by
  obtain ⟨v, rfl, hblank, hcomma, hwords⟩ := keyword_spec hkeyword
  have hlast : v ++ [chr ' '] <:+ p.last ++ [chr ' '] ↔ v <:+ p.last := by
    constructor
    · rintro ⟨x, hx⟩
      rw [← List.append_assoc] at hx
      exact ⟨x, List.append_cancel_right hx⟩
    · rintro ⟨x, hx⟩
      exact ⟨x, by rw [← List.append_assoc, hx]⟩
  have hdrop : p.loweredWords.dropLast =
      p.columnWords (lit "select") ++ [lit "from", p.table, lit "limit"] := by
    rw [loweredWords, words, List.dropLast_append_of_ne_nil (List.cons_ne_nil _ _)]
    rfl
  rw [contains_iff, loweredText, infix_unwords_iff (fun w hw => (p.isWord hw).blank) hblank, hlast,
    hdrop]
  constructor
  · rintro ⟨w, hw, hsuffix⟩
    simp only [columnWords, List.cons_append, List.mem_cons, List.mem_append, List.mem_map,
      List.not_mem_nil, or_false] at hw
    rcases hw with rfl | (⟨name, -, rfl⟩ | rfl) | rfl | rfl | rfl
    · exact absurd hsuffix (hwords _ (by simp))
    · exact absurd hsuffix (hcomma name)
    · exact hsuffix
    · exact absurd hsuffix (hwords _ (by simp))
    · exact absurd hsuffix (hwords _ (by simp [p.table_mem]))
    · exact absurd hsuffix (hwords _ (by simp))
  · exact fun hsuffix => ⟨p.last, by simp [columnWords], hsuffix⟩

/-- Of the checks only that for the keywords can fail. -/
theorem sanitizeSql_text (py : Interpreter) (u : UnicodeTables) :
    sanitizeSql py u p.text = .ok p.text ↔
      ∀ keyword ∈ forbiddenKeywords, ¬keyword <:+ p.last ++ [chr ' '] := by
  have hselect : (matchStart (selectPattern u) p.loweredText).isNone = false := by
    rw [loweredText, loweredWords, p.unwords_words, ← Option.not_isSome,
      isSome_matchStart_select u _]
    rfl
  have hchars : ∀ c ∈ p.loweredText, c ≠ chr ';' ∧ c ≠ chr '-' ∧ c ≠ chr '/' := by
    intro c hc
    rcases p.mem_loweredText hc with rfl | hchar
    · exact ⟨by decide, by decide, by decide⟩
    · exact (statementChar_spec hchar).2.2.2
  have hsingle : chr ';' ∉ p.text := by
    intro hmem
    have hlower := List.mem_map_of_mem (f := asciiLower) hmem
    rw [p.map_asciiLower_text] at hlower
    exact (hchars _ hlower).1 rfl
  have hcomments : contains (lit "--") p.loweredText = false ∧
      contains (lit "/*") p.loweredText = false := by
    simp only [← Bool.not_eq_true, contains_iff]
    exact ⟨fun h => (hchars _ (h.subset List.mem_cons_self)).2.1 rfl,
      fun h => (hchars _ (h.subset List.mem_cons_self)).2.2 rfl⟩
  have htables : (findAll (fromPattern u) () p.loweredText).find? (· ∉ allowedTables) = none := by
    refine List.find?_eq_none.mpr fun name hname => ?_
    rw [p.mem_findAll hname]
    simpa using p.table_mem
  have hkeywords : (forbiddenKeywords.any fun keyword => contains keyword p.loweredText) = true ↔
      ∃ keyword ∈ forbiddenKeywords, keyword <:+ p.last ++ [chr ' '] := by
    rw [List.any_eq_true]
    exact exists_congr fun keyword => and_congr_right p.contains_keyword_iff
  rw [sanitizeSql, p.lowered_text, p.stripped_text, if_neg (ne_true_of_eq_false hselect), if_neg hsingle,
    hcomments.1, hcomments.2, htables]
  by_cases hany : (forbiddenKeywords.any fun keyword => contains keyword p.loweredText) = true
  · rw [if_pos hany]
    obtain ⟨keyword, hmem, hsuffix⟩ := hkeywords.mp hany
    exact iff_of_false (fun h => by cases h) fun h => h keyword hmem hsuffix
  · rw [if_neg hany]
    refine iff_of_true rfl fun keyword hmem hsuffix => ?_
    exact hany (hkeywords.mpr ⟨keyword, hmem, hsuffix⟩)

end Parts

/-! ### The builder and the sanitizer -/

theorem selected_concat {reserved : PyStr → Prop} (hfrom : reserved (lit "from"))
    {columns : Option (List PyStr)}
    (hcolumns : ∀ names ∈ columns, ∀ column ∈ names, PlainIdentifier reserved column) :
    ∃ front last, selected columns = front ++ [last] ∧ (∀ name ∈ front ++ [last], IsName name) ∧
      ((∀ keyword ∈ forbiddenKeywords, ¬keyword <:+ last ++ [chr ' ']) ↔
        ∀ column ∈ (columns.getD []).getLast?, ∀ keyword ∈ forbiddenKeywords,
          ¬keyword <:+ column ++ lit " ") := by
  have hstar : (∀ keyword ∈ forbiddenKeywords, ¬keyword <:+ lit "*" ++ [chr ' ']) ↔
      ∀ column ∈ ([] : List PyStr).getLast?, ∀ keyword ∈ forbiddenKeywords,
        ¬keyword <:+ column ++ lit " " :=
    iff_of_true (by decide) fun _ hcolumn => by cases hcolumn
  have hstarName : ∀ name ∈ [] ++ [lit "*"], IsName name :=
    List.forall_mem_singleton.mpr isName_star
  rcases columns with _ | _ | ⟨column, rest⟩
  · exact ⟨[], lit "*", rfl, hstarName, hstar⟩
  · exact ⟨[], lit "*", rfl, hstarName, hstar⟩
  · have hne : column :: rest ≠ [] := List.cons_ne_nil _ _
    have hsplit := List.dropLast_append_getLast hne
    refine ⟨_, _, hsplit.symm, fun name hname => ?_, ?_⟩
    · rw [hsplit] at hname
      exact (hcolumns _ rfl name hname).isName hfrom
    · rw [Option.getD_some, List.getLast?_eq_some_getLast hne]
      simp only [Option.mem_some_iff, forall_eq']
      rfl

/-- `sanitize_sql` returns the statement that `build_select_sql` has built of plain identifiers exactly
when the last of them does not end in a forbidden keyword, and the limit can be written out. -/
theorem builder_agrees_iff (py : Interpreter) (u : UnicodeTables) {reserved : PyStr → Prop}
    (hfrom : reserved (lit "from")) {table : PyStr} (htable : table ∈ allowedTables)
    {columns : Option (List PyStr)}
    (hcolumns : ∀ names ∈ columns, ∀ column ∈ names, PlainIdentifier reserved column)
    {limit : Int} (hlimit : 1 ≤ limit) :
    (∃ sql, buildSelectSql py table columns limit = .ok sql ∧ sanitizeSql py u sql = .ok sql) ↔
      (∀ column ∈ (columns.getD []).getLast?, ∀ keyword ∈ forbiddenKeywords,
        ¬keyword <:+ column ++ lit " ") ∧
      (Nat.digits 10 limit.natAbs).length ≤ maxStrDigits := by
  obtain ⟨front, last, hselected, hnames, hlast⟩ := selected_concat hfrom hcolumns
  let p : Parts := ⟨front, last, table, intText limit, hnames, htable, intText_ne_nil (by omega),
    fun c hc => isAsciiDigit_of_mem_intText (by omega) hc⟩
  by_cases hdigits : (Nat.digits 10 limit.natAbs).length ≤ maxStrDigits
  · have hbuild : buildSelectSql py table columns limit = .ok p.text :=
      buildSelectSql_eq py p hselected rfl hdigits
    rw [← hlast, hbuild]
    constructor
    · rintro ⟨sql, hsql, hsanitize⟩
      cases hsql
      exact ⟨(p.sanitizeSql_text py u).mp hsanitize, hdigits⟩
    · exact fun h => ⟨p.text, rfl, (p.sanitizeSql_text py u).mpr h.1⟩
  · refine iff_of_false (fun h => ?_) fun h => hdigits h.2
    obtain ⟨sql, hsql, -⟩ := h
    rw [buildSelectSql, if_neg (not_not.mpr htable), if_pos (by omega)] at hsql
    cases hsql

theorem plainIdentifier_of_all {reserved : PyStr → Prop} {column : PyStr}
    (hstart : column.head?.any (!isAsciiDigit ·) = true) (hchars : column.all identifierChar = true)
    (hreserved : ¬reserved column) : PlainIdentifier reserved column where
  start := by
    cases column with
    | nil => cases hstart
    | cons c rest => exact ⟨c, rest, rfl, by simpa using hstart⟩
  chars := List.all_eq_true.mp hchars
  not_reserved := hreserved

theorem builder_agrees_daily : ∃ sql,
    buildSelectSql cpython (lit "curated.daily_page_summary") (some [lit "day", lit "views"]) 10 =
      .ok sql ∧ sanitizeSql cpython asciiTables sql = .ok sql := by
  have hcolumns : ∀ names ∈ some [lit "day", lit "views"], ∀ column ∈ names,
      PlainIdentifier (· = lit "from") column := by
    intro names hnames
    cases hnames
    exact List.forall_mem_cons.mpr ⟨plainIdentifier_of_all rfl rfl (by decide),
      List.forall_mem_singleton.mpr (plainIdentifier_of_all rfl rfl (by decide))⟩
  refine (@builder_agrees_iff cpython asciiTables (· = lit "from") rfl _ (by decide) _ hcolumns _
    (by decide)).mpr ⟨?_, ?_⟩
  · intro column hcolumn
    cases hcolumn
    decide
  · simp [maxStrDigits]

/-- The last column is named as an update would begin. -/
theorem not_builder_agrees : ¬∀ (py : Interpreter) (u : UnicodeTables) (reserved : PyStr → Prop)
    (table : PyStr) (columns : List PyStr) (limit : Int), reserved (lit "from") →
    table ∈ allowedTables → (∀ column ∈ columns, PlainIdentifier reserved column) → 1 ≤ limit →
    ∃ sql, buildSelectSql py table (some columns) limit = .ok sql ∧
      sanitizeSql py u sql = .ok sql := by
  intro h
  have hcolumns : ∀ column ∈ [lit "page", lit "last_update"],
      PlainIdentifier (· = lit "from") column :=
    List.forall_mem_cons.mpr ⟨plainIdentifier_of_all rfl rfl (by decide),
      List.forall_mem_singleton.mpr (plainIdentifier_of_all rfl rfl (by decide))⟩
  obtain ⟨sql, hbuild, hsanitize⟩ := h cpython asciiTables (· = lit "from")
    (lit "curated.daily_page_summary") _ 10 rfl (by decide) hcolumns (by decide)
  have hsql : buildSelectSql cpython (lit "curated.daily_page_summary")
      (some [lit "page", lit "last_update"]) 10 =
      .ok (lit "SELECT page, last_update FROM curated.daily_page_summary LIMIT 10") := by
    have hdigits : Nat.digits 10 (10 : Int).natAbs = [0, 1] := by simp
    have hlimit : intText 10 = lit "10" := by
      rw [intText_pos (by decide), hdigits]
      rfl
    rw [buildSelectSql, if_neg (by decide), if_neg (by simp [maxStrDigits]), hlimit]
    rfl
  rw [hsql, Except.ok.injEq] at hbuild
  subst hbuild
  have hrejected : sanitizeSql cpython asciiTables
      (lit "SELECT page, last_update FROM curated.daily_page_summary LIMIT 10") =
      .error (lit "statement contains a forbidden keyword") := by
    decide +kernel
  rw [hrejected] at hsanitize
  cases hsanitize

end Clickstream.Assistant
