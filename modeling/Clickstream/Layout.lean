import Clickstream.Assistant
import Clickstream.Python.LowerCase

/-! Case and layout of a statement: texts that agree in lower case, with single blanks for their white
space, are accepted or rejected alike by `sanitize_sql`. -/

namespace Clickstream.Assistant

open Python Kit Kit.Regex

/-- `" ".join(s.lower().split())` -/
def normalized (u : UnicodeTables) (s : PyStr) : PyStr := collapse (lower u s)

/-! ### Lower case -/

section Lower

variable {u : UnicodeTables}

theorem semicolon_of_mem_lowerAt {behind ahead : PyStr} {c : Cp}
    (h : chr ';' ∈ u.lowerAt behind c ahead) : c = chr ';' := by
  by_cases hc : c.val < 0x80
  · rw [u.lowerAt_ascii behind c ahead hc, List.mem_singleton] at h
    unfold asciiLower at h
    split at h
    · have hval : 0x3B = c.val + 0x20 := congrArg Fin.val h
      omega
    · exact h.symm
  · rcases u.lowerAt_other behind c ahead (not_lt.mp hc) _ h (by decide) with ⟨-, hi⟩ | ⟨-, hk⟩
    · exact absurd hi (by decide)
    · exact absurd hk (by decide)

theorem semicolon_of_mem_lowerFrom {behind s ahead : PyStr}
    (h : chr ';' ∈ lowerFrom u behind s ahead) : chr ';' ∈ s := by
  induction s generalizing behind with
  | nil => cases h
  | cons c s ih =>
    rcases List.mem_append.mp h with hc | hs
    · rw [semicolon_of_mem_lowerAt hc]
      exact List.mem_cons_self
    · exact List.mem_cons_of_mem c (ih hs)

/-- The last character of a text in lower case comes from the last one of the text. -/
theorem getLast?_lower {s : PyStr} {d : Cp} (h : d ∈ (lower u s).getLast?) :
    ∃ c ∈ s.getLast?, ∃ behind ahead, d ∈ u.lowerAt behind c ahead := by
  rcases List.eq_nil_or_concat' s with rfl | ⟨s, c, rfl⟩
  · cases h
  · refine ⟨c, List.getLast?_concat, s.reverse, [], ?_⟩
    simp only [lower, lowerFrom_append, lowerFrom, List.append_nil] at h
    rw [List.getLast?_append, List.getLast?_eq_some_getLast (u.lowerAt_ne_nil _ _ _),
      Option.some_or, Option.mem_some_iff] at h
    rw [← h]
    exact List.getLast_mem _

theorem getLast?_lower_of_strip {s : PyStr} (hs : ∀ c ∈ s.getLast?, isSpace c = false) :
    ∀ c ∈ (lower u s).getLast?, isSpace c = false := by
  intro d hd
  obtain ⟨c, hc, behind, ahead, hmem⟩ := getLast?_lower hd
  exact u.lowerAt_not_space behind c ahead (hs c hc) d hmem

theorem getLast?_collapse {s : PyStr} (hs : ∀ c ∈ s.getLast?, isSpace c = false) :
    (collapse s).getLast? = s.getLast? := by
  rcases List.eq_nil_or_concat' s with rfl | ⟨s, c, rfl⟩
  · rfl
  · have hword : ∀ x ∈ [c], isSpace x = false :=
      List.forall_mem_singleton.mpr (hs c List.getLast?_concat)
    obtain ⟨t, ht, -⟩ := collapse_append_word hword (List.cons_ne_nil _ _) s
    rw [ht, List.getLast?_concat, List.getLast?_concat]

end Lower

/-! ### What is stripped -/

/-- A text is what `sanitize_sql` makes of it, with white space, semicolons and white space around it. -/
structure Stripping (s : PyStr) where
  before : PyStr
  space : PyStr
  semicolons : PyStr
  after : PyStr
  eq : s = before ++ (stripped s ++ space ++ semicolons) ++ after
  before_space : ∀ c ∈ before, isSpace c = true
  space_space : ∀ c ∈ space, isSpace c = true
  semicolons_eq : ∀ c ∈ semicolons, c = chr ';'
  after_space : ∀ c ∈ after, isSpace c = true
  of_space : space ≠ [] → stripped s ≠ [] ∧ semicolons ≠ []
  of_no_space : space = [] → ∀ c ∈ (stripped s).getLast?, c ≠ chr ';'

theorem exists_stripping (s : PyStr) : Nonempty (Stripping s) := by
  obtain ⟨before, after, hs, hbefore, hafter⟩ := exists_strip s
  have hcore : strip s = (strip s).rdropWhile (· = chr ';') ++ (strip s).rtakeWhile (· = chr ';') :=
    (List.rdropWhile_append_rtakeWhile ..).symm
  have hsemicolons : ∀ c ∈ (strip s).rtakeWhile (· = chr ';'), c = chr ';' :=
    fun c hc => by simpa using List.mem_rtakeWhile_imp hc
  generalize hm : (strip s).rdropWhile (· = chr ';') = m at hcore
  generalize (strip s).rtakeWhile (· = chr ';') = semicolons at hcore hsemicolons
  have hstripped : stripped s = m.rdropWhile isSpace := by
    have hhead : m.dropWhile isSpace = m := by
      cases m with
      | nil => rfl
      | cons c m =>
        have hc : isSpace c = false := head?_strip s c (by rw [hcore]; rfl)
        exact List.dropWhile_cons_of_neg (by simp [hc])
    rw [stripped, hm, strip, stripBy, hhead]
  have hsplit : m = stripped s ++ m.rtakeWhile isSpace := by
    rw [hstripped, List.rdropWhile_append_rtakeWhile]
  have hspace : ∀ c ∈ m.rtakeWhile isSpace, isSpace c = true :=
    fun c hc => List.mem_rtakeWhile_imp hc
  generalize m.rtakeWhile isSpace = space at hsplit hspace
  refine ⟨before, space, semicolons, after, ?_, hbefore, hspace, hsemicolons, hafter,
    fun hne => ⟨fun hnil => ?_, fun hnil => ?_⟩, fun hnil c hc hsemicolon => ?_⟩
  · rw [← hsplit, ← hcore]
    exact hs
  · -- `strip` has left no white space in front
    obtain ⟨c, rest, rfl⟩ := List.exists_cons_of_ne_nil hne
    have hhead := head?_strip s c (by rw [hcore, hsplit, hnil]; rfl)
    rw [hspace c List.mem_cons_self] at hhead
    cases hhead
  · -- nor at the end
    have hend : (strip s).getLast? = some (space.getLast hne) := by
      rw [hcore, hnil, List.append_nil, hsplit, List.getLast?_append,
        List.getLast?_eq_some_getLast hne, Option.some_or]
    have hlast := getLast?_strip s _ hend
    rw [hspace _ (List.getLast_mem hne)] at hlast
    cases hlast
  · rw [hnil, List.append_nil] at hsplit
    rw [← hsplit] at hc
    have hne : (strip s).rdropWhile (· = chr ';') ≠ [] := by
      rintro hempty
      rw [← hm, hempty] at hc
      cases hc
    have hlast := List.rdropWhile_last_not (fun c => decide (c = chr ';')) (strip s) hne
    rw [← hm, List.getLast?_eq_some_getLast hne, Option.mem_some_iff] at hc
    rw [hc, hsemicolon] at hlast
    exact hlast (decide_eq_true rfl)

/-! ### The verdict -/

theorem rdropWhile_append {p : Cp → Bool} {w : PyStr} (hw : ∀ c ∈ w, p c = true) (s : PyStr) :
    (s ++ w).rdropWhile p = s.rdropWhile p := by
  rw [List.rdropWhile, List.reverse_append, List.dropWhile_append_of_pos, List.rdropWhile]
  exact fun c hc => hw c (List.mem_reverse.mp hc)

theorem strip_append_spaces {w : PyStr} (hw : ∀ c ∈ w, isSpace c = true) (s : PyStr) :
    strip (s ++ w) = strip s := by
  rw [strip, stripBy, strip, stripBy, List.dropWhile_append]
  split
  · rename_i hempty
    have hnil : w.dropWhile isSpace = [] := List.dropWhile_eq_nil_iff.mpr hw
    rw [hnil, List.isEmpty_iff.mp hempty]
  · exact rdropWhile_append hw _

theorem lower_ne_nil {u : UnicodeTables} {s : PyStr} (hs : s ≠ []) : lower u s ≠ [] := by
  obtain ⟨c, rest, rfl⟩ := List.exists_cons_of_ne_nil hs
  exact List.append_ne_nil_of_left_ne_nil (u.lowerAt_ne_nil _ _ _) _

section Verdict

variable {u : UnicodeTables} (hu : u.Local)
include hu

/-- The normalised text is that of the stripped one, but for semicolons at its end and a blank in front
of them. -/
theorem normalized_eq {s : PyStr} (k : Stripping s) :
    ∃ blank, normalized u s = lowered u s ++ blank ++ k.semicolons ∧
      strip (lowered u s ++ blank) = lowered u s ∧
      ∀ c ∈ (lowered u s ++ blank).getLast?, c ≠ chr ';' := by
  have hend : ∀ c ∈ (lower u (stripped s)).getLast?, isSpace c = false :=
    getLast?_lower_of_strip (getLast?_strip _)
  have hsemicolons : ∀ c ∈ k.semicolons, isSpace c = false := by
    intro c hc
    rw [k.semicolons_eq c hc]
    rfl
  have hnormalized :
      normalized u s = collapse (lower u (stripped s) ++ k.space ++ k.semicolons) := by
    have hbefore : ∀ c ∈ k.before, isBreak c = true := fun c hc => by
      rw [isBreak, k.before_space c hc, Bool.true_or]
    have hafter : ∀ c ∈ k.space ++ (k.semicolons ++ k.after), isBreak c = true := by
      intro c hc
      rw [isBreak, Bool.or_eq_true, decide_eq_true_eq]
      rcases List.mem_append.mp hc with hc | hc
      · exact .inl (k.space_space c hc)
      · rcases List.mem_append.mp hc with hc | hc
        · exact .inr (k.semicolons_eq c hc)
        · exact .inl (k.after_space c hc)
    have htext : s = k.before ++ stripped s ++ (k.space ++ (k.semicolons ++ k.after)) := by
      simpa using k.eq
    have hlower : lower u s = k.before ++ (lower u (stripped s) ++ k.space ++ k.semicolons) ++
        k.after := by
      conv_lhs => rw [htext, lower_around hu hbefore hafter]
      simp
    rw [normalized, hlower, collapse_around k.before_space k.after_space]
  by_cases hnil : k.space = []
  · refine ⟨[], ?_, ?_, fun c hc hsemicolon => ?_⟩
    · rw [hnormalized, hnil, List.append_nil, List.append_nil,
        collapse_append_glued hend hsemicolons, lowered]
    · rw [List.append_nil, lowered, strip_collapse]
    · rw [List.append_nil, lowered, getLast?_collapse hend] at hc
      obtain ⟨d, hd, behind, ahead, hmem⟩ := getLast?_lower hc
      rw [hsemicolon] at hmem
      exact k.of_no_space hnil d hd (semicolon_of_mem_lowerAt hmem)
  · obtain ⟨hne, hsemicolonsne⟩ := k.of_space hnil
    have hsplit : split (lower u (stripped s)) ≠ [] := by
      apply split_ne_nil
      intro hempty
      have hlast := getLast?_collapse hend
      rw [hempty] at hlast
      exact lower_ne_nil hne (List.getLast?_eq_none_iff.mp hlast.symm)
    refine ⟨[chr ' '], ?_, ?_, fun c hc => ?_⟩
    · rw [hnormalized, collapse_append_spaced hsplit k.space_space hnil ⟨hsemicolonsne, hsemicolons⟩,
        lowered]
    · rw [strip_append_spaces (List.forall_mem_singleton.mpr rfl), lowered, strip_collapse]
    · rw [List.getLast?_concat] at hc
      cases hc
      decide

/-- What the checks of `sanitize_sql` see is a function of the normalised text. -/
theorem lowered_eq (s : PyStr) :
    lowered u s = strip ((normalized u s).rdropWhile (· = chr ';')) := by
  obtain ⟨k⟩ := exists_stripping s
  obtain ⟨blank, hnormalized, hstrip, hlast⟩ := normalized_eq hu k
  rw [hnormalized, rdropWhile_append fun c hc => decide_eq_true (k.semicolons_eq c hc),
    List.rdropWhile_eq_self_iff.mpr fun hne => ?_, hstrip]
  simpa using hlast _ (List.getLast?_eq_some_getLast hne)

end Verdict

theorem semicolon_mem_iff (u : UnicodeTables) (s : PyStr) :
    chr ';' ∈ stripped s ↔ chr ';' ∈ lowered u s := by
  constructor
  · intro hmem
    have hinfix : [chr ';'] <:+: stripped s := by
      obtain ⟨before, after, htext⟩ := List.append_of_mem hmem
      exact ⟨before, after, by rw [htext, List.append_assoc, List.singleton_append]⟩
    have hascii : ∀ c ∈ [chr ';'], c.val < 0x80 ∧ isSpace c = false :=
      List.forall_mem_singleton.mpr ⟨by decide, rfl⟩
    exact (infix_lowered hinfix (List.cons_ne_nil _ _) hascii).subset List.mem_cons_self
  · intro hmem
    rcases mem_of_mem_collapse hmem with hblank | hlower
    · exact absurd hblank (by decide)
    · exact semicolon_of_mem_lowerFrom hlower

/-- The verdict, and the reason of a rejection, depend on what the checks see and on nothing else. -/
theorem sanitizeSql_congr (py : Interpreter) {u : UnicodeTables} {s s' : PyStr}
    (h : lowered u s = lowered u s') :
    (sanitizeSql py u s).map (fun _ => ()) = (sanitizeSql py u s').map fun _ => () := by
  have hsemicolon : chr ';' ∈ stripped s ↔ chr ';' ∈ stripped s' := by
    rw [semicolon_mem_iff u, semicolon_mem_iff u, h]
  rw [sanitizeSql, sanitizeSql, h]
  simp only [hsemicolon]
  split_ifs
  · rfl
  · rfl
  · rfl
  · rfl
  · split <;> rfl

theorem eq_error_iff {x y : Except PyStr PyStr} (h : x.map (fun _ => ()) = y.map fun _ => ())
    (e : PyStr) : x = .error e ↔ y = .error e := by
  cases x with
  | error a =>
    cases y with
    | error b =>
      cases h
      rfl
    | ok r => cases h
  | ok r =>
    cases y with
    | error b => cases h
    | ok r' => exact iff_of_false (fun hx => by cases hx) fun hy => by cases hy

theorem exists_eq_ok_iff {x y : Except PyStr PyStr} (h : x.map (fun _ => ()) = y.map fun _ => ()) :
    (∃ r, x = .ok r) ↔ ∃ r, y = .ok r := by
  cases x with
  | error a =>
    cases y with
    | error b => exact iff_of_false (by rintro ⟨_, hx⟩; cases hx) (by rintro ⟨_, hy⟩; cases hy)
    | ok r => cases h
  | ok r =>
    cases y with
    | error b => cases h
    | ok r' => exact iff_of_true ⟨r, rfl⟩ ⟨r', rfl⟩

/-- Statements that differ in case and layout only are accepted alike and rejected alike, for the same
reason, and what is returned for them differs in case and layout only. -/
theorem layout_invariant (py : Interpreter) (t : CaseTables) {s s' : PyStr}
    (h : normalized t.unicode s = normalized t.unicode s') :
    ((∃ r, sanitizeSql py t.unicode s = .ok r) ↔ ∃ r', sanitizeSql py t.unicode s' = .ok r') ∧
    (∀ e, sanitizeSql py t.unicode s = .error e ↔ sanitizeSql py t.unicode s' = .error e) ∧
    ∀ r r', sanitizeSql py t.unicode s = .ok r → sanitizeSql py t.unicode s' = .ok r' →
      normalized t.unicode r = normalized t.unicode r' := by
  have hlowered : lowered t.unicode s = lowered t.unicode s' := by
    rw [lowered_eq t.local_unicode, lowered_eq t.local_unicode, h]
  have hverdict := sanitizeSql_congr py hlowered
  refine ⟨exists_eq_ok_iff hverdict, eq_error_iff hverdict, fun r r' hr hr' => ?_⟩
  rw [(sanitizeSql_eq_ok hr).1, (sanitizeSql_eq_ok hr').1]
  exact hlowered

/-- A statement on two lines, by way of the same statement on one. -/
theorem layout_invariant_lines : ∃ r, sanitizeSql cpython asciiCase.unicode
    (lit "SELECT *\n  FROM curated.daily_page_summary LIMIT 5 ;\n") = .ok r := by
  have hline : sanitizeSql cpython asciiCase.unicode
      (lit "select * from curated.daily_page_summary limit 5 ;") =
      .ok (lit "select * from curated.daily_page_summary limit 5") := by decide +kernel
  exact (layout_invariant cpython asciiCase (by decide +kernel)).1.mpr ⟨_, hline⟩

end Clickstream.Assistant
