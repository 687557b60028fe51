import Mathlib.Data.List.Infix
import Clickstream.Assistant
import Clickstream.Sql.Relations

/-! The table allowlist of the assistant.  The pattern of `sanitize_sql` finds the plain names that stand
directly behind `FROM`; every other table that a statement reads is not checked. -/

namespace Clickstream.Assistant

open Python Kit Kit.Regex Sql

/-! ### Tables that are checked -/

/-- The table is one of `ALLOWED_TABLES`, with a schema and a name. -/
def Allowed (r : Ref) : Prop := r.path ∈ allowedTables.map (·.splitOn (chr '.'))

instance (r : Ref) : Decidable (Allowed r) := inferInstanceAs (Decidable (_ ∈ _))

def ReadsAllowed (s : PyStr) : Prop := ∀ table ∈ refs s, Allowed table

instance (s : PyStr) : Decidable (ReadsAllowed s) := inferInstanceAs (Decidable (∀ _ ∈ _, _))

/-- An ASCII letter, digit or underscore, or a character beyond ASCII. -/
def wordLike (c : Cp) : Bool := isAsciiWord c || decide (0x80 ≤ c.val)

/-- An identifier without quotes of ASCII letters, digits and underscores. -/
def plainPart (p : Part) : Bool := !p.quoted && decide (p.text ≠ []) && p.text.all isAsciiWord

/-- The table is written in plain identifiers and dots, directly behind the word `FROM` and white space,
and neither that word nor the name touches another word. -/
def checked (r : Ref) : Bool :=
  match r.before with
  | .space _ :: word :: behind =>
    decide (word.word = some (lit "from")) &&
      (itemsText behind.reverse).getLast?.all (!wordLike ·) &&
      plainPart r.first && (r.more.all fun q => decide (q.1 = lit ".") && plainPart q.2) &&
      (itemsText r.after).head?.all fun c => !wordLike c && decide (c ≠ chr '.')
  | _ => false

/-! ### What the pattern finds -/

section

variable {u : UnicodeTables}

theorem isSpace_of_tableChar {c : Cp} (h : tableChar c = true) : Python.isSpace c = false := by
  have hval : 0x61 ≤ c.val ∧ c.val ≤ 0x7A ∨ 0x30 ≤ c.val ∧ c.val ≤ 0x39 ∨ c.val = 0x5F ∨
      c.val = 0x2E := by
    rcases of_decide_eq_true h with h | h | rfl | rfl
    · exact .inl h
    · exact .inr (.inl h)
    · exact .inr (.inr (.inl rfl))
    · exact .inr (.inr (.inr rfl))
  simp only [Python.isSpace, decide_eq_false_iff_not]
  omega

theorem mem_run_fromPattern {c d : Cursor Cp Unit} (h : d ∈ run (fromPattern u) c) :
    ∃ space name, c.ahead = lit "from" ++ (space ++ (name ++ d.ahead)) ∧ space ≠ [] ∧
      (∀ x ∈ space, Python.isSpace x = true) ∧ name ≠ [] ∧ (∀ x ∈ name, tableChar x = true) ∧
      captured () d = name := by
  rw [fromPattern, run_seqs_cons, run_look, flatMap_guard] at h
  split at h
  swap
  · cases h
  rw [List.flatMap_singleton, run_seqs_cons] at h
  obtain ⟨c₁, hword, h⟩ := List.mem_flatMap.mp h
  rw [run_seqs_cons] at h
  obtain ⟨c₂, hspace, h⟩ := List.mem_flatMap.mp h
  rw [run_seqs_cons, flatMap_run_group] at h
  obtain ⟨c₃, hname, h⟩ := List.mem_flatMap.mp h
  rw [run_seqs_nil, List.mem_singleton] at h
  subst h
  obtain ⟨hahead, -⟩ := mem_run_letters_eq hword
  obtain ⟨space, hspacene, hspaces, hahead₁, -⟩ := mem_run_plus hspace
  obtain ⟨name, hnamene, hnames, hahead₂, -⟩ := mem_run_plus hname
  refine ⟨space, name, ?_, hspacene, hspaces, hnamene, hnames, ?_⟩
  · rw [hahead, hahead₁, hahead₂]
  · rw [captured, List.lookup_cons_self, Option.getD_some, hahead₂]
    simp

/-- At the word `FROM`, a blank and a name the pattern takes the whole name. -/
theorem run_fromPattern {behind name rest : PyStr}
    (hbehind : ∀ c ∈ behind.head?, u.isWord c = false) (hne : name ≠ [])
    (hname : ∀ c ∈ name, tableChar c = true) (hrest : ∀ c ∈ rest.head?, tableChar c = false) :
    ∃ d, (run (fromPattern u) ⟨behind, lit "from" ++ chr ' ' :: (name ++ rest), []⟩).head? = some d ∧
      captured () d = name := by
  refine ⟨⟨name.reverse ++ chr ' ' :: ((lit "from").reverse ++ behind), rest, [((), name)]⟩, ?_,
    by simp [captured]⟩
  have hboundary : wordBoundary u behind (lit "from" ++ chr ' ' :: (name ++ rest)) = true := by
    have hleft : behind.head?.any u.isWord = false := by
      cases hb : behind.head? with
      | none => rfl
      | some c => exact hbehind c hb
    have hright : u.isWord (chr 'f') = true := (u.isWord_ascii _ (by decide)).trans rfl
    rw [wordBoundary, hleft]
    show (false != u.isWord (chr 'f')) = true
    rw [hright]
    rfl
  have hspace : ∀ c ∈ (name ++ rest).head?, Python.isSpace c = false := by
    intro c hc
    rw [List.head?_append, List.head?_eq_some_head hne, Option.some_or] at hc
    cases hc
    exact isSpace_of_tableChar (hname _ (List.head_mem hne))
  rw [fromPattern, run_seqs_cons, run_look, if_pos hboundary, List.flatMap_singleton, run_seqs_cons]
  refine head?_flatMap (congrArg List.head? (run_letters_eq _ _ _ _)) ?_
  rw [run_seqs_cons]
  refine head?_flatMap (head?_run_plus (w := [chr ' ']) (List.cons_ne_nil _ _) ?_ hspace _ _) ?_
  · intro c hc
    rw [List.mem_singleton.mp hc]
    rfl
  rw [run_seqs_cons, flatMap_run_group]
  refine head?_flatMap (head?_run_plus hne hname hrest _ _) ?_
  simp

theorem not_suffix_allowed {table v : PyStr} (htable : table ∈ allowedTables)
    (hv : v <+: lit "from") (hne : v ≠ []) : ¬v <:+ table := by
  have hall : allowedTables.all fun table => (lit "from").inits.all fun v =>
      decide (v = []) || !v.isSuffixOf table := by decide +kernel
  have hv := List.all_eq_true.mp (List.all_eq_true.mp hall table htable) v ((List.mem_inits _ _).mpr hv)
  rw [decide_eq_false hne, Bool.false_or, Bool.not_eq_true'] at hv
  rw [← List.isSuffixOf_iff_suffix, hv]
  exact Bool.false_ne_true

/-- A match that begins before the word `from` and ends behind its first letter has captured a name that
ends in the beginning of it. -/
theorem not_overlapping {d : Cursor Cp Unit} {behind before name rest : PyStr} (hne : before ≠ [])
    (hd : d ∈ run (fromPattern u)
      ⟨behind, before ++ (lit "from" ++ chr ' ' :: (name ++ rest)), []⟩)
    (hlength : d.ahead.length < (lit "from" ++ chr ' ' :: (name ++ rest)).length) :
    captured () d ∉ allowedTables := by
  obtain ⟨space, table, hahead, hspacene, hspaces, htablene, htable, hcaptured⟩ :=
    mem_run_fromPattern hd
  rw [hcaptured]
  intro hallowed
  have hahead : before ++ (lit "from" ++ chr ' ' :: (name ++ rest)) =
      lit "from" ++ space ++ table ++ d.ahead := by
    rw [List.append_assoc, List.append_assoc]
    exact hahead
  -- the rest of the first match, behind the start of the second
  obtain ⟨v, hv, htext⟩ : ∃ v, lit "from" ++ space ++ table = before ++ v ∧
      lit "from" ++ chr ' ' :: (name ++ rest) = v ++ d.ahead := by
    rcases List.append_eq_append_iff.mp hahead with ⟨v, hv, htext⟩ | ⟨v, -, htext⟩
    · exact ⟨v, hv, htext⟩
    · rw [htext, List.length_append] at hlength
      omega
  obtain ⟨v, rfl⟩ : ∃ v', v = chr 'f' :: v' := by
    cases v with
    | nil =>
      rw [htext] at hlength
      exact absurd hlength (lt_irrefl _)
    | cons c v =>
      have hhead := congrArg List.head? htext
      cases hhead
      exact ⟨v, rfl⟩
  have hsuffix : chr 'f' :: v <:+ table := by
    rcases List.suffix_or_suffix_of_suffix (⟨before, hv.symm⟩ : chr 'f' :: v <:+ _)
      (List.suffix_append _ table) with hsuffix | ⟨x, hx⟩
    · exact hsuffix
    cases x with
    | nil => rw [← hx, List.nil_append]
    | cons c x =>
      -- an `f` behind the first letter of `from` and in front of the name
      obtain ⟨b, bs, rfl⟩ := List.exists_cons_of_ne_nil hne
      have hc : c = chr 'f' := by injection hx
      rw [← hx, ← List.append_assoc, List.append_cancel_right_eq] at hv
      have htail : lit "rom" ++ space = bs ++ c :: x := by injection hv
      have hmem : chr 'f' ∈ lit "rom" ++ space := by
        rw [htail, hc]
        exact List.mem_append_right bs List.mem_cons_self
      rcases List.mem_append.mp hmem with hrom | hspace
      · exact absurd hrom (by decide +kernel)
      · exact absurd (hspaces _ hspace) (by decide)
  have hprefix : chr 'f' :: v <+: lit "from" := by
    refine prefix_of_prefix_append ⟨d.ahead, htext.symm⟩ (fun c hc => ?_) (fun c hc => by cases hc; rfl)
    exact isSpace_of_tableChar (htable c (hsuffix.subset hc))
  exact not_suffix_allowed hallowed hprefix (List.cons_ne_nil _ _) hsuffix

variable {sql : PyStr}

theorem Sanitized.found (h : Sanitized (u := u) sql) {before name rest : PyStr}
    (htext : lowered u sql = before ++ (lit "from" ++ chr ' ' :: (name ++ rest)))
    (hbefore : ∀ c ∈ before.getLast?, u.isWord c = false) (hne : name ≠ [])
    (hname : ∀ c ∈ name, tableChar c = true) (hrest : ∀ c ∈ rest.head?, tableChar c = false) :
    name ∈ allowedTables := by
  have hbehind : ∀ c ∈ (before.reverse ++ []).head?, u.isWord c = false := by
    rw [List.append_nil, List.head?_reverse]
    exact hbefore
  obtain ⟨d, hd, hcaptured⟩ := run_fromPattern hbehind hne hname hrest
  have hfind : ∀ e ∈ findFrom (fromPattern u) 0 [] (lowered u sql),
      captured () e ∈ allowedTables :=
    fun e he => h.tables _ (List.mem_map_of_mem he)
  rw [htext] at hfind
  rcases mem_findFrom (x := chr 'f') before [] 0 (Nat.zero_le _) hd with
    hfound | ⟨before₁, y, before₂, d', rfl, hrun, hmem, hlength⟩
  · rw [← hcaptured]
    exact hfind d hfound
  · have hd' := List.mem_of_mem_head? hrun
    exact absurd (hfind d' hmem)
      (not_overlapping (List.cons_ne_nil y before₂) hd' (Nat.lt_succ_of_le hlength))

/-! ### From the statement to the normalised text -/

theorem checked_eq_true {r : Ref} (h : checked r = true) : ∃ space word behind,
    r.before = .space space :: word :: behind ∧ word.word = some (lit "from") ∧
      (∀ c ∈ (itemsText behind.reverse).getLast?, wordLike c = false) ∧
      plainPart r.first = true ∧ (∀ q ∈ r.more, q.1 = lit "." ∧ plainPart q.2 = true) ∧
      ∀ c ∈ (itemsText r.after).head?, wordLike c = false ∧ c ≠ chr '.' := by
  unfold checked at h
  split at h
  · rename_i space word behind hbefore
    simp only [Bool.and_eq_true, decide_eq_true_eq, Option.all_eq_true, List.all_eq_true,
      Bool.not_eq_true'] at h
    obtain ⟨⟨⟨⟨hword, hbehind⟩, hfirst⟩, hmore⟩, hafter⟩ := h
    exact ⟨space, word, behind, hbefore, hword, hbehind, hfirst, hmore, hafter⟩
  · cases h

theorem not_wordLike {c : Cp} (h : wordLike c = false) :
    c.val < 0x80 ∧ asciiLower c = c ∧ isAsciiWord c = false := by
  rw [wordLike, Bool.or_eq_false_iff, decide_eq_false_iff_not, not_le] at h
  refine ⟨h.2, ?_, h.1⟩
  unfold asciiLower
  split
  · rename_i hupper
    exact absurd h.1 (by simp [isAsciiWord, hupper])
  · rfl

theorem not_tableChar {c : Cp} (h : isAsciiWord c = false) (hdot : c ≠ chr '.') :
    tableChar c = false := by
  rw [isAsciiWord, decide_eq_false_iff_not] at h
  rw [tableChar, decide_eq_false_iff_not]
  rintro (hc | hc | rfl | rfl)
  · exact h (.inr (.inl hc))
  · exact h (.inr (.inr (.inl hc)))
  · exact h (.inr (.inr (.inr rfl)))
  · exact hdot rfl

theorem asciiWord_lower {c : Cp} (h : isAsciiWord c = true) :
    c.val < 0x80 ∧ tableChar (asciiLower c) = true ∧ asciiLower c ≠ chr '.' := by
  rw [isAsciiWord, decide_eq_true_eq] at h
  unfold asciiLower
  split
  · rename_i hupper
    refine ⟨by omega, ?_, fun heq => ?_⟩
    · rw [tableChar, decide_eq_true_eq]
      exact .inl ⟨by simp only; omega, by simp only; omega⟩
    · have hval : c.val + 0x20 = 0x2E := congrArg Fin.val heq
      omega
  · rename_i hupper
    refine ⟨by omega, ?_, fun heq => ?_⟩
    · rw [tableChar, decide_eq_true_eq]
      rcases h with h | h | h | h
      · exact absurd h hupper
      · exact .inl h
      · exact .inr (.inl h)
      · exact .inr (.inr (.inl (Fin.ext h)))
    · have hval : c.val = 0x2E := congrArg Fin.val heq
      omega

theorem plainPart_spec {p : Part} (h : plainPart p = true) :
    p.identifier = p.text.map asciiLower ∧ p.text ≠ [] ∧ ∀ c ∈ p.text, isAsciiWord c = true := by
  simp only [plainPart, Bool.and_eq_true, Bool.not_eq_true', decide_eq_true_eq, List.all_eq_true] at h
  obtain ⟨⟨hquoted, hne⟩, hword⟩ := h
  refine ⟨?_, hne, hword⟩
  rw [Part.identifier, hquoted, if_neg Bool.false_ne_true]

theorem plain_lower {p : Part} {more : List (PyStr × Part)} (hp : plainPart p = true)
    (hmore : ∀ q ∈ more, q.1 = lit "." ∧ plainPart q.2 = true) :
    (Item.name p more).text.map asciiLower =
      [chr '.'].intercalate (p.identifier :: more.map fun q => q.2.identifier) := by
  induction more generalizing p with
  | nil =>
    rw [List.map_nil, List.intercalate_singleton, (plainPart_spec hp).1, Item.text, moreText,
      List.flatMap_nil, List.append_nil]
  | cons q more ih =>
    obtain ⟨⟨hdot, hq⟩, hmore⟩ := List.forall_mem_cons.mp hmore
    have htext : (Item.name p (q :: more)).text =
        p.text ++ (lit "." ++ (Item.name q.2 more).text) := by
      simp [Item.text, moreText, hdot]
    rw [htext, List.map_append, List.map_append, ih hq hmore, List.map_cons,
      List.intercalate_cons_cons, ← (plainPart_spec hp).1, List.append_assoc]
    rfl

/-- The identifiers of allowed tables are short enough to be names. -/
theorem allowed_of_identifiers {r : Ref}
    (h : r.identifiers ∈ allowedTables.map (·.splitOn (chr '.'))) : Allowed r := by
  have hall : (allowedTables.map (·.splitOn (chr '.'))).all fun path =>
      decide (path.map (truncate 63) = path) := by decide +kernel
  have hpath : r.path = r.identifiers.map (truncate 63) := by simp [Ref.path, Ref.identifiers, Part.name]
  rwa [Allowed, hpath, of_decide_eq_true (List.all_eq_true.mp hall _ h)]

theorem plain_path {r : Ref} (hfirst : plainPart r.first = true)
    (hmore : ∀ q ∈ r.more, q.1 = lit "." ∧ plainPart q.2 = true) :
    r.text ≠ [] ∧ (∀ c ∈ r.text, c.val < 0x80 ∧ tableChar (asciiLower c) = true) ∧
      (r.text.map asciiLower).splitOn (chr '.') = r.identifiers := by
  have hchars : ∀ {p : Part}, plainPart p = true → ∀ c ∈ p.text,
      c.val < 0x80 ∧ tableChar (asciiLower c) = true := fun hp c hc =>
    ⟨(asciiWord_lower ((plainPart_spec hp).2.2 c hc)).1,
      (asciiWord_lower ((plainPart_spec hp).2.2 c hc)).2.1⟩
  refine ⟨?_, fun c hc => ?_, ?_⟩
  · rw [Ref.text, Item.text]
    exact List.append_ne_nil_of_left_ne_nil (plainPart_spec hfirst).2.1 _
  · rw [Ref.text, Item.text] at hc
    rcases List.mem_append.mp hc with hc | hc
    · exact hchars hfirst c hc
    · obtain ⟨q, hq, hc⟩ := List.mem_flatMap.mp hc
      rcases List.mem_append.mp hc with hc | hc
      · rw [(hmore q hq).1] at hc
        rw [List.mem_singleton.mp hc]
        exact ⟨by decide, rfl⟩
      · exact hchars (hmore q hq).2 c hc
  · have hdot : ∀ p : Part, plainPart p = true → chr '.' ∉ p.identifier := by
      intro p hp hmem
      rw [(plainPart_spec hp).1] at hmem
      obtain ⟨c, hc, hlower⟩ := List.mem_map.mp hmem
      exact (asciiWord_lower ((plainPart_spec hp).2.2 c hc)).2.2 hlower
    rw [Ref.text, plain_lower hfirst hmore]
    refine List.splitOn_intercalate _ ?_ (List.cons_ne_nil _ _)
    refine List.forall_mem_cons.mpr ⟨hdot _ hfirst, fun name hname => ?_⟩
    obtain ⟨q, hq, rfl⟩ := List.mem_map.mp hname
    exact hdot q.2 (hmore q hq).2

theorem word_eq_some {item : Item} {w : PyStr} (h : item.word = some w) :
    item.text.map asciiLower = w := by
  unfold Item.word at h
  split at h
  · split at h
    · cases h
    · cases h
      rw [Item.text, moreText, List.flatMap_nil, List.append_nil]
  · cases h

theorem ascii_of_lower {s w : PyStr} (h : s.map asciiLower = w) (hw : ∀ c ∈ w, c.val < 0x80) :
    ∀ c ∈ s, c.val < 0x80 := by
  intro c hc
  exact asciiLower_ascii (hw _ (h ▸ List.mem_map_of_mem hc))

/-- White space of PostgreSQL is white space of Python. -/
theorem space_before {s space : PyStr} {r : Ref} {behind : List Item} (hr : r ∈ refs s)
    (hbefore : r.before = .space space :: behind) :
    space ≠ [] ∧ ∀ c ∈ space, Python.isSpace c = true := by
  have hitem : .space space ∈ items s := by
    have hmem := mem_refsFrom hr
    rw [List.reverse_nil, List.nil_append] at hmem
    rw [hmem, hbefore]
    simp
  obtain ⟨hne, hspaces⟩ := text_of_space_item hitem
  refine ⟨hne, fun c hc => ?_⟩
  have hc := hspaces c hc
  simp only [Sql.isSpace, Python.isSpace, decide_eq_true_eq] at hc ⊢
  omega

theorem Sanitized.allowed (h : Sanitized (u := u) sql) {r : Ref} (hr : r ∈ refs (stripped sql))
    (hchecked : checked r = true) : Allowed r := by
  obtain ⟨space, word, behind, hbefore, hword, hbehind, hfirst, hmore, hafter⟩ :=
    checked_eq_true hchecked
  obtain ⟨hne, hchars, hpath⟩ := plain_path hfirst hmore
  apply allowed_of_identifiers
  rw [← hpath]
  apply List.mem_map_of_mem
  obtain ⟨hspacene, hspaces⟩ := space_before hr hbefore
  have hfrom := word_eq_some hword
  have hascii : (lit "from").all fun c => c.val < 0x80 := rfl
  simp only [List.all_eq_true, decide_eq_true_eq] at hascii
  have hfromspaces : (lit "from").all (!Python.isSpace ·) := rfl
  simp only [List.all_eq_true, Bool.not_eq_true'] at hfromspaces
  -- the statement around the word `FROM` and the name
  have htext : stripped sql =
      itemsText behind.reverse ++ word.text ++ space ++ (r.text ++ itemsText r.after) := by
    rw [text_of_mem_refs hr, hbefore]
    simp [itemsText, Item.text]
  obtain ⟨s, t, hlower, hs, ht⟩ := lower_words u (ascii_of_lower hfrom hascii) hspaces
    (fun c hc => (hchars c hc).1) (fun c hc => (not_wordLike (hbehind c hc)).1)
    (fun c hc => (not_wordLike (hafter c hc).1).1)
  rw [← htext, hfrom] at hlower
  have hname : ∀ c ∈ r.text.map asciiLower, tableChar c = true := by
    intro c hc
    obtain ⟨d, hd, rfl⟩ := List.mem_map.mp hc
    exact (hchars d hd).2
  obtain ⟨s', t', hcollapse, hs', ht'⟩ := collapse_words hfromspaces (by decide)
    (fun c hc => isSpace_of_tableChar (hname c hc)) (by simpa using hne) hspaces hspacene s t
  rw [← hlower, ← lowered, List.append_assoc] at hcollapse
  refine h.found hcollapse (fun c hc => ?_) (by simpa using hne) hname fun c hc => ?_
  · rcases hs' c hc with rfl | hc
    · exact (u.isWord_ascii _ (by decide)).trans rfl
    · rw [hs, Option.map_eq_some_iff] at hc
      obtain ⟨d, hd, rfl⟩ := hc
      obtain ⟨hd, hsame, hword⟩ := not_wordLike (hbehind d hd)
      rw [hsame, u.isWord_ascii d hd, hword]
  · rcases ht' c hc with rfl | hc
    · rfl
    · rw [ht, Option.map_eq_some_iff] at hc
      obtain ⟨d, hd, rfl⟩ := hc
      obtain ⟨-, hsame, hword⟩ := not_wordLike (hafter d hd).1
      rw [hsame]
      exact not_tableChar hword (hafter d hd).2

end

/-! ### Statements -/

def summaryRequest : SQLRequest :=
  ⟨lit "views by day", lit "curated.daily_page_summary", 100, by decide⟩

def commaStatement : PyStr := lit "SELECT * FROM curated.page_views_1m, curated.secrets"

end Clickstream.Assistant
