import Clickstream.Python.Text

/-! `str.lower`, and a text with its white space normalised to single blanks. -/

namespace Clickstream.Python

/-! ### Lower case -/

/-- `\w` of a pattern, for an ASCII character. -/
def isAsciiWord (c : Cp) : Bool :=
  decide (0x41 ≤ c.val ∧ c.val ≤ 0x5A ∨ 0x61 ≤ c.val ∧ c.val ≤ 0x7A ∨ 0x30 ≤ c.val ∧ c.val ≤ 0x39 ∨
    c.val = 0x5F)

/-- What the interpreter's Unicode tables contribute: the lower case of a character between the text
behind it, nearest first, and ahead (a final sigma depends on both), and `\w`. Of the characters
beyond ASCII only the dotted capital I and the Kelvin sign have a lower case with an ASCII letter. -/
structure UnicodeTables where
  lowerAt : PyStr → Cp → PyStr → PyStr
  isWord : Cp → Bool
  lowerAt_ascii : ∀ behind c ahead, c.val < 0x80 → lowerAt behind c ahead = [asciiLower c]
  lowerAt_ne_nil : ∀ behind c ahead, lowerAt behind c ahead ≠ []
  lowerAt_other : ∀ behind c ahead, 0x80 ≤ c.val → ∀ d ∈ lowerAt behind c ahead, d.val < 0x80 →
    c.val = 0x130 ∧ d = chr 'i' ∨ c.val = 0x212A ∧ d = chr 'k'
  lowerAt_space : ∀ behind c ahead, isSpace c = true → lowerAt behind c ahead = [c]
  lowerAt_not_space : ∀ behind c ahead, isSpace c = false →
    ∀ d ∈ lowerAt behind c ahead, isSpace d = false
  isWord_ascii : ∀ c, c.val < 0x80 → isWord c = isAsciiWord c

theorem asciiLower_ascii {c : Cp} (h : (asciiLower c).val < 0x80) : c.val < 0x80 := by
  unfold asciiLower at h
  split at h
  · rename_i hupper
    omega
  · exact h

theorem isSpace_asciiLower (c : Cp) : isSpace (asciiLower c) = isSpace c := by
  unfold asciiLower
  split
  · rename_i hupper
    simp only [isSpace, decide_eq_decide]
    omega
  · rfl

theorem asciiLower_of_isSpace {c : Cp} (h : isSpace c = true) : asciiLower c = c := by
  unfold asciiLower
  split
  · rename_i hupper
    simp only [isSpace, decide_eq_true_eq] at h
    omega
  · rfl

/-- Tables for ASCII: every other character is its own lower case and no part of a word. -/
def asciiTables : UnicodeTables where
  lowerAt _ c _ := [asciiLower c]
  isWord := isAsciiWord
  lowerAt_ascii _ _ _ _ := rfl
  lowerAt_ne_nil _ _ _ := List.cons_ne_nil _ _
  lowerAt_other _ c _ hc d hd hlow := by
    rw [List.mem_singleton.mp hd] at hlow
    exact absurd (asciiLower_ascii hlow) (not_lt.mpr hc)
  lowerAt_space _ c _ hc := by rw [asciiLower_of_isSpace hc]
  lowerAt_not_space _ c _ hc d hd := by rw [List.mem_singleton.mp hd, isSpace_asciiLower, hc]
  isWord_ascii _ _ := rfl

section Lower

variable (u : UnicodeTables)

def lowerFrom (behind : PyStr) : PyStr → PyStr → PyStr
  | [], _ => []
  | c :: rest, ahead => u.lowerAt behind c (rest ++ ahead) ++ lowerFrom (c :: behind) rest ahead

/-- `s.lower()` -/
def lower (s : PyStr) : PyStr := lowerFrom u [] s []

theorem lowerFrom_append (behind s t ahead : PyStr) :
    lowerFrom u behind (s ++ t) ahead =
      lowerFrom u behind s (t ++ ahead) ++ lowerFrom u (s.reverse ++ behind) t ahead := by
  induction s generalizing behind with
  | nil => rfl
  | cons c s ih =>
    rw [List.cons_append, lowerFrom, lowerFrom, ih, List.append_assoc, List.append_assoc,
      List.reverse_cons, List.append_assoc, List.singleton_append]

theorem lowerFrom_ascii {s : PyStr} (hs : ∀ c ∈ s, c.val < 0x80) (behind ahead : PyStr) :
    lowerFrom u behind s ahead = s.map asciiLower := by
  induction s generalizing behind with
  | nil => rfl
  | cons c s ih =>
    obtain ⟨hc, hs⟩ := List.forall_mem_cons.mp hs
    rw [lowerFrom, u.lowerAt_ascii _ _ _ hc, ih hs]
    rfl

theorem lowerFrom_spaces {s : PyStr} (hs : ∀ c ∈ s, isSpace c = true) (behind ahead : PyStr) :
    lowerFrom u behind s ahead = s := by
  induction s generalizing behind with
  | nil => rfl
  | cons c s ih =>
    obtain ⟨hc, hs⟩ := List.forall_mem_cons.mp hs
    rw [lowerFrom, u.lowerAt_space _ _ _ hc, ih hs]
    rfl

/-- An ASCII text without `i` and `k` at the start of a lower case is that of ASCII characters. -/
theorem prefix_lowerFrom {w s behind ahead : PyStr} (h : w <+: lowerFrom u behind s ahead)
    (hw : ∀ c ∈ w, c.val < 0x80 ∧ c ≠ chr 'i' ∧ c ≠ chr 'k') :
    ∃ v rest, s = v ++ rest ∧ v.map asciiLower = w := by
  induction w generalizing s behind with
  | nil => exact ⟨[], s, rfl, rfl⟩
  | cons d w ih =>
    obtain ⟨⟨hd, hi, hk⟩, hw⟩ := List.forall_mem_cons.mp hw
    cases s with
    | nil => exact absurd h.length_le (Nat.not_succ_le_zero _)
    | cons c s =>
      rw [lowerFrom] at h
      have hc : c.val < 0x80 := by
        by_contra hge
        obtain ⟨e, es, he⟩ := List.exists_cons_of_ne_nil (u.lowerAt_ne_nil behind c (s ++ ahead))
        rw [he, List.cons_append, List.cons_prefix_cons] at h
        rcases u.lowerAt_other behind c (s ++ ahead) (not_lt.mp hge) d
          (by rw [he, h.1]; exact List.mem_cons_self) hd with ⟨-, hd⟩ | ⟨-, hd⟩
        · exact hi hd
        · exact hk hd
      rw [u.lowerAt_ascii _ _ _ hc, List.singleton_append, List.cons_prefix_cons] at h
      obtain ⟨v, rest, hs, hv⟩ := ih h.2 hw
      exact ⟨c :: v, rest, by rw [hs, List.cons_append], by rw [List.map_cons, hv, ← h.1]⟩

theorem getLast?_lowerFrom {s : PyStr} (hs : ∀ c ∈ s.getLast?, c.val < 0x80)
    (behind ahead : PyStr) : (lowerFrom u behind s ahead).getLast? = s.getLast?.map asciiLower := by
  rcases List.eq_nil_or_concat' s with rfl | ⟨s, c, rfl⟩
  · rfl
  · rw [lowerFrom_append, lowerFrom, lowerFrom, List.append_nil]
    rw [List.getLast?_concat] at hs ⊢
    rw [u.lowerAt_ascii _ _ _ (hs c rfl), List.getLast?_concat]
    rfl

theorem head?_lowerFrom {s : PyStr} (hs : ∀ c ∈ s.head?, c.val < 0x80) (behind ahead : PyStr) :
    (lowerFrom u behind s ahead).head? = s.head?.map asciiLower := by
  cases s with
  | nil => rfl
  | cons c s =>
    rw [lowerFrom, u.lowerAt_ascii _ _ _ (hs c rfl)]
    rfl

theorem lower_words {v space w : PyStr} (hv : ∀ c ∈ v, c.val < 0x80)
    (hspace : ∀ c ∈ space, isSpace c = true) (hw : ∀ c ∈ w, c.val < 0x80) {s t : PyStr}
    (hs : ∀ c ∈ s.getLast?, c.val < 0x80) (ht : ∀ c ∈ t.head?, c.val < 0x80) :
    ∃ s' t', lower u (s ++ v ++ space ++ (w ++ t)) =
        s' ++ v.map asciiLower ++ space ++ (w.map asciiLower ++ t') ∧
      s'.getLast? = s.getLast?.map asciiLower ∧ t'.head? = t.head?.map asciiLower := by
  refine ⟨lowerFrom u [] s (v ++ (space ++ (w ++ t))), lowerFrom u
    (w.reverse ++ ((s ++ v ++ space).reverse)) t [], ?_, getLast?_lowerFrom u hs _ _,
    head?_lowerFrom u ht _ _⟩
  rw [lower, lowerFrom_append, lowerFrom_append, lowerFrom_append, lowerFrom_append,
    lowerFrom_ascii u hv, lowerFrom_spaces u hspace, lowerFrom_ascii u hw]
  simp

theorem head?_lower {s : PyStr} (hs : ∀ c ∈ s.head?, isSpace c = false) :
    ∀ c ∈ (lower u s).head?, isSpace c = false := by
  cases s with
  | nil => exact fun _ h => nomatch h
  | cons c rest =>
    intro d hd
    obtain ⟨e, es, he⟩ := List.exists_cons_of_ne_nil (u.lowerAt_ne_nil [] c (rest ++ []))
    rw [lower, lowerFrom, he] at hd
    cases hd
    apply u.lowerAt_not_space [] c (rest ++ []) (hs c rfl) _
    rw [he]
    exact List.mem_cons_self

end Lower

/-! ### White space -/

theorem strip_eq_self {s : PyStr} (hhead : ∀ c ∈ s.head?, isSpace c = false)
    (hlast : ∀ c ∈ s.getLast?, isSpace c = false) : strip s = s := by
  have hleft : s.dropWhile isSpace = s := by
    cases s with
    | nil => rfl
    | cons c s => exact List.dropWhile_cons_of_neg (by simp [hhead c rfl])
  rw [strip, stripBy, hleft, List.rdropWhile_eq_self_iff]
  intro hne
  simp [hlast _ (List.getLast?_eq_some_getLast hne)]

/-- `" ".join(s.split())` -/
def collapse (s : PyStr) : PyStr := [chr ' '].intercalate (split s)

theorem exists_strip (s : PyStr) : ∃ before after, s = before ++ strip s ++ after ∧
    (∀ c ∈ before, isSpace c = true) ∧ ∀ c ∈ after, isSpace c = true := by
  refine ⟨s.takeWhile isSpace, (s.dropWhile isSpace).rtakeWhile isSpace, ?_,
    fun c hc => List.mem_takeWhile_imp hc, fun c hc => List.mem_rtakeWhile_imp hc⟩
  rw [strip, stripBy, List.append_assoc, List.rdropWhile_append_rtakeWhile,
    List.takeWhile_append_dropWhile]

theorem getLast?_strip (s : PyStr) : ∀ c ∈ (strip s).getLast?, isSpace c = false := by
  intro c hc
  rw [strip, stripBy] at hc
  have hne : (s.dropWhile isSpace).rdropWhile isSpace ≠ [] := by
    intro hnil
    rw [hnil] at hc
    cases hc
  have hlast := List.rdropWhile_last_not isSpace (s.dropWhile isSpace) hne
  rw [List.getLast?_eq_some_getLast hne, Option.mem_some_iff] at hc
  rw [hc] at hlast
  simpa using hlast

theorem split_append_cons {c : Cp} (hc : isSpace c = true) (s t : PyStr) :
    split (s ++ c :: t) = split s ++ split t := by
  rw [split, List.splitOnP_append_cons s t hc, List.filter_append, split, split]

theorem split_word {w : PyStr} (hw : ∀ c ∈ w, isSpace c = false) (hne : w ≠ []) : split w = [w] := by
  rw [split, List.splitOnP_eq_singleton hw, List.filter_cons_of_pos (by simpa using hne)]
  rfl

theorem split_spaces_append {w : PyStr} (hw : ∀ c ∈ w, isSpace c = true) (s : PyStr) :
    split (w ++ s) = split s := by
  induction w with
  | nil => rfl
  | cons c w ih =>
    obtain ⟨hc, hw⟩ := List.forall_mem_cons.mp hw
    have hcons := split_append_cons hc [] (w ++ s)
    rw [ih hw] at hcons
    exact hcons

theorem split_append_spaces {w : PyStr} (hw : ∀ c ∈ w, isSpace c = true) (hne : w ≠ [])
    (s t : PyStr) : split (s ++ w ++ t) = split s ++ split t := by
  obtain ⟨c, w, rfl⟩ := List.exists_cons_of_ne_nil hne
  obtain ⟨hc, hw⟩ := List.forall_mem_cons.mp hw
  rw [List.append_assoc, List.cons_append, split_append_cons hc, split_spaces_append hw]

theorem intercalate_append {ws vs : List PyStr} (hws : ws ≠ []) (hvs : vs ≠ []) :
    [chr ' '].intercalate (ws ++ vs) =
      [chr ' '].intercalate ws ++ chr ' ' :: [chr ' '].intercalate vs := by
  induction ws with
  | nil => exact absurd rfl hws
  | cons w ws ih =>
    cases ws with
    | nil =>
      rw [List.singleton_append, List.intercalate_cons_of_ne_nil hvs, List.intercalate_singleton]
      simp
    | cons v ws =>
      rw [List.cons_append, List.intercalate_cons_of_ne_nil (by simp), ih (List.cons_ne_nil v ws),
        List.intercalate_cons_cons]
      simp

/-- A text up to its last white space, and the characters behind that. -/
theorem exists_last_word (s : PyStr) : ∃ s₁ v, s = s₁ ++ v ∧
    (s₁ = [] ∨ ∃ s₂ c, s₁ = s₂ ++ [c] ∧ isSpace c = true) ∧ ∀ c ∈ v, isSpace c = false := by
  refine ⟨s.rdropWhile (!isSpace ·), s.rtakeWhile (!isSpace ·),
    (List.rdropWhile_append_rtakeWhile ..).symm, ?_, fun c hc => ?_⟩
  · rcases List.eq_nil_or_concat' (s.rdropWhile (!isSpace ·)) with hnil | ⟨s₂, c, hcons⟩
    · exact .inl hnil
    · have hlast := List.rdropWhile_last_not (!isSpace ·) s (by simp [hcons])
      simp only [hcons, List.getLast_append_singleton] at hlast
      exact .inr ⟨s₂, c, hcons, by simpa using hlast⟩
  · simpa using List.mem_rtakeWhile_imp hc

theorem split_last_word {s v : PyStr} (hs : s = [] ∨ ∃ t c, s = t ++ [c] ∧ isSpace c = true)
    (hv : ∀ c ∈ v, isSpace c = false) (hne : v ≠ []) : split (s ++ v) = split s ++ [v] := by
  rcases hs with rfl | ⟨t, c, rfl, hc⟩
  · rw [List.nil_append, split_word hv hne]
    rfl
  · rw [List.append_assoc, List.singleton_append, split_append_cons hc, split_append_cons hc,
      split_word hv hne]
    show _ = split t ++ [] ++ [v]
    rw [List.append_nil]

/-- A text in front of its first white space, and what begins with that. -/
theorem exists_first_word (s : PyStr) : ∃ v t, s = v ++ t ∧ (∀ c ∈ v, isSpace c = false) ∧
    (t = [] ∨ ∃ c rest, t = c :: rest ∧ isSpace c = true) := by
  refine ⟨s.takeWhile (!isSpace ·), s.dropWhile (!isSpace ·),
    List.takeWhile_append_dropWhile.symm, fun c hc => by simpa using List.mem_takeWhile_imp hc, ?_⟩
  cases hrest : s.dropWhile (!isSpace ·) with
  | nil => exact .inl rfl
  | cons c rest =>
    have hnot := head?_dropWhile (p := (!isSpace ·)) s c (by rw [hrest]; rfl)
    exact .inr ⟨c, rest, rfl, by rwa [Bool.not_eq_false'] at hnot⟩

/-- Characters other than white space go on with the last word. -/
theorem exists_glued {w : PyStr} (hw : ∀ c ∈ w, isSpace c = false) (hne : w ≠ []) (s : PyStr) :
    ∃ s₁ v, s = s₁ ++ v ∧ (s₁ = [] ∨ ∃ s₂ c, s₁ = s₂ ++ [c] ∧ isSpace c = true) ∧
      (∀ c ∈ v, isSpace c = false) ∧ split (s ++ w) = split s₁ ++ [v ++ w] := by
  obtain ⟨s₁, v, rfl, hs₁, hv⟩ := exists_last_word s
  have hword : ∀ c ∈ v ++ w, isSpace c = false :=
    fun c hc => (List.mem_append.mp hc).elim (hv c) (hw c)
  refine ⟨s₁, v, rfl, hs₁, hv, ?_⟩
  rw [List.append_assoc, split_last_word hs₁ hword (by simp [hne])]

theorem collapse_append_word {w : PyStr} (hw : ∀ c ∈ w, isSpace c = false) (hne : w ≠ [])
    (s : PyStr) : ∃ t, collapse (s ++ w) = t ++ w ∧
      ∀ c ∈ t.getLast?, c = chr ' ' ∨ s.getLast? = some c := by
  obtain ⟨s₁, v, rfl, -, -, hsplit⟩ := exists_glued hw hne s
  have hlast : ∀ c ∈ v.getLast?, (s₁ ++ v).getLast? = some c := by
    intro c hc
    rw [List.getLast?_append, Option.mem_def.mp hc, Option.some_or]
  by_cases hnil : split s₁ = []
  · refine ⟨v, ?_, fun c hc => .inr (hlast c hc)⟩
    rw [collapse, hsplit, hnil, List.nil_append, List.intercalate_singleton]
  · refine ⟨collapse s₁ ++ chr ' ' :: v, ?_, fun d hd => ?_⟩
    · rw [collapse, hsplit, intercalate_append hnil (List.cons_ne_nil _ _),
        List.intercalate_singleton, ← collapse]
      simp
    · rcases List.eq_nil_or_concat' v with rfl | ⟨v', e, rfl⟩
      · simp at hd
        exact .inl hd.symm
      · refine .inr (hlast d ?_)
        rw [← List.cons_append, ← List.append_assoc, List.getLast?_append] at hd
        rw [List.getLast?_append]
        exact hd

theorem collapse_word_append {w : PyStr} (hw : ∀ c ∈ w, isSpace c = false) (hne : w ≠ [])
    (s : PyStr) : ∃ t, collapse (w ++ s) = w ++ t ∧
      ∀ c ∈ t.head?, c = chr ' ' ∨ s.head? = some c := by
  obtain ⟨v, t, rfl, hv, ht⟩ := exists_first_word s
  have hword : split (w ++ v) = [w ++ v] :=
    split_word (fun c hc => (List.mem_append.mp hc).elim (hw c) (hv c)) (by simp [hne])
  have hhead : ∀ c ∈ v.head?, (v ++ t).head? = some c := by
    intro c hc
    rw [List.head?_append, Option.mem_def.mp hc, Option.some_or]
  rcases ht with rfl | ⟨c, rest, rfl, hc⟩
  · refine ⟨v, ?_, fun c hc => .inr (hhead c hc)⟩
    rw [List.append_nil, collapse, hword, List.intercalate_singleton]
  have hsplit : split (w ++ (v ++ c :: rest)) = (w ++ v) :: split rest := by
    rw [← List.append_assoc, split_append_cons hc, hword, List.singleton_append]
  by_cases hnil : split rest = []
  · refine ⟨v, ?_, fun c hc => .inr (hhead c hc)⟩
    rw [collapse, hsplit, hnil, List.intercalate_singleton]
  · refine ⟨v ++ chr ' ' :: collapse rest, ?_, fun d hd => ?_⟩
    · rw [collapse, hsplit, List.intercalate_cons_of_ne_nil hnil, ← collapse]
      simp
    · cases v with
      | nil =>
        simp at hd
        exact .inl hd.symm
      | cons e v => exact .inr (hhead d hd)

theorem infix_collapse {w : PyStr} (hw : ∀ c ∈ w, isSpace c = false) (hne : w ≠ []) (s t : PyStr) :
    w <:+: collapse (s ++ w ++ t) := by
  obtain ⟨v, t, rfl, hv, ht⟩ := exists_first_word t
  have hwords : ∀ c ∈ w ++ v, isSpace c = false :=
    fun c hc => (List.mem_append.mp hc).elim (hw c) (hv c)
  obtain ⟨x, hx, -⟩ := collapse_append_word hwords (by simp [hne]) s
  have hinfix : w <:+: collapse (s ++ (w ++ v)) := ⟨x, v, by rw [hx, List.append_assoc]⟩
  rw [List.append_assoc, ← List.append_assoc w, ← List.append_assoc s]
  rcases ht with rfl | ⟨c, rest, rfl, hc⟩
  · rwa [List.append_nil]
  have hsplit : split (s ++ (w ++ v)) ≠ [] := by
    intro hnil
    rw [collapse, hnil] at hinfix
    exact hne (List.eq_nil_of_infix_nil hinfix)
  rw [collapse, split_append_cons hc]
  by_cases hnil : split rest = []
  · rwa [hnil, List.append_nil, ← collapse]
  · rw [intercalate_append hsplit hnil]
    exact hinfix.trans (List.prefix_append _ _).isInfix

theorem split_ne_nil {s : PyStr} (h : collapse s ≠ []) : split s ≠ [] := by
  intro hnil
  rw [collapse, hnil] at h
  exact h rfl

/-- Two words with white space between them keep one blank of it. -/
theorem collapse_words {v w space : PyStr} (hv : ∀ c ∈ v, isSpace c = false) (hvne : v ≠ [])
    (hw : ∀ c ∈ w, isSpace c = false) (hwne : w ≠ []) (hspace : ∀ c ∈ space, isSpace c = true)
    (hspacene : space ≠ []) (s t : PyStr) :
    ∃ s' t', collapse (s ++ v ++ space ++ (w ++ t)) = s' ++ v ++ chr ' ' :: (w ++ t') ∧
      (∀ c ∈ s'.getLast?, c = chr ' ' ∨ s.getLast? = some c) ∧
      ∀ c ∈ t'.head?, c = chr ' ' ∨ t.head? = some c := by
  obtain ⟨s', hs, hlast⟩ := collapse_append_word hv hvne s
  obtain ⟨t', ht, hhead⟩ := collapse_word_append hw hwne t
  refine ⟨s', t', ?_, hlast, hhead⟩
  have hleft : split (s ++ v) ≠ [] := split_ne_nil (by simp [hs, hvne])
  have hright : split (w ++ t) ≠ [] := split_ne_nil (by simp [ht, hwne])
  rw [collapse, split_append_spaces hspace hspacene, intercalate_append hleft hright, ← collapse,
    ← collapse, hs, ht]

/-- A text without white space at the start of two texts, the second of which begins with white space,
lies in the first. -/
theorem prefix_of_prefix_append {w s t : PyStr} (h : w <+: s ++ t)
    (hw : ∀ c ∈ w, isSpace c = false) (ht : ∀ c ∈ t.head?, isSpace c = true) : w <+: s := by
  rcases List.prefix_or_prefix_of_prefix h (List.prefix_append s t) with hs | ⟨v, rfl⟩
  · exact hs
  cases v with
  | nil => simp
  | cons c v =>
    obtain ⟨rest, hrest⟩ := (List.prefix_append_right_inj s).mp h
    have hspace := ht c (by rw [← hrest]; rfl)
    rw [hw c (List.mem_append_right s List.mem_cons_self)] at hspace
    cases hspace

/-- What a normalised text begins with, the text itself begins with, when it has no white space in
front. -/
theorem prefix_of_prefix_collapse {w s : PyStr} (h : w <+: collapse s)
    (hw : ∀ c ∈ w, isSpace c = false) (hs : ∀ c ∈ s.head?, isSpace c = false) : w <+: s := by
  cases s with
  | nil => exact h
  | cons c s =>
    have hv : ∀ d ∈ (c :: s).takeWhile (!isSpace ·), isSpace d = false := fun d hd => by
      simpa using List.mem_takeWhile_imp hd
    have hne : (c :: s).takeWhile (!isSpace ·) ≠ [] := by
      simp [hs c rfl]
    obtain ⟨t, ht, hhead⟩ := collapse_word_append hv hne ((c :: s).dropWhile (!isSpace ·))
    rw [List.takeWhile_append_dropWhile] at ht
    rw [ht] at h
    refine (prefix_of_prefix_append h hw fun d hd => ?_).trans (List.takeWhile_prefix _)
    rcases hhead d hd with rfl | hrest
    · rfl
    · simpa using head?_dropWhile _ d hrest

/-! ### Texts of words -/

/-- `" ".join(ws)` -/
def unwords (ws : List PyStr) : PyStr := [chr ' '].intercalate ws

structure IsWord (w : PyStr) : Prop where
  ne_nil : w ≠ []
  spaceless : ∀ c ∈ w, isSpace c = false

theorem IsWord.blank {w : PyStr} (h : IsWord w) : chr ' ' ∉ w := by
  intro hmem
  have hblank := h.spaceless _ hmem
  cases hblank

@[simp] theorem unwords_singleton (w : PyStr) : unwords [w] = w := List.intercalate_singleton

theorem unwords_cons {ws : List PyStr} (w : PyStr) (hws : ws ≠ []) :
    unwords (w :: ws) = w ++ chr ' ' :: unwords ws := by
  rw [unwords, List.intercalate_cons_of_ne_nil hws, List.append_assoc]
  rfl

theorem unwords_append {ws vs : List PyStr} (hws : ws ≠ []) (hvs : vs ≠ []) :
    unwords (ws ++ vs) = unwords ws ++ chr ' ' :: unwords vs := intercalate_append hws hvs

theorem unwords_concat {ws : List PyStr} (hws : ws ≠ []) (w : PyStr) :
    unwords (ws ++ [w]) = unwords ws ++ [chr ' '] ++ w := by
  rw [unwords_append hws (List.cons_ne_nil _ _), List.append_assoc]
  show _ = unwords ws ++ chr ' ' :: w
  rw [unwords, unwords, List.intercalate_singleton]

theorem split_unwords {ws : List PyStr} (h : ∀ w ∈ ws, IsWord w) : split (unwords ws) = ws := by
  induction ws with
  | nil => rfl
  | cons w ws ih =>
    obtain ⟨hw, hws⟩ := List.forall_mem_cons.mp h
    have hword := split_word hw.spaceless hw.ne_nil
    by_cases hnil : ws = []
    · rw [hnil, unwords_singleton, hword]
    · rw [unwords_cons w hnil, split_append_cons rfl, hword, ih hws, List.singleton_append]

theorem mem_splitOnP {s w : PyStr} (h : w ∈ s.splitOnP isSpace) :
    ∀ c ∈ w, isSpace c = false ∧ c ∈ s := by
  induction s generalizing w with
  | nil =>
    rw [List.mem_singleton.mp h]
    exact List.forall_mem_nil _
  | cons x s ih =>
    have htail : ∀ v ∈ s.splitOnP isSpace, ∀ c ∈ v, isSpace c = false ∧ c ∈ x :: s :=
      fun v hv c hc => ⟨(ih hv c hc).1, List.mem_cons_of_mem x (ih hv c hc).2⟩
    rw [List.splitOnP_cons_eq_if_modifyHead] at h
    split at h
    · rcases List.mem_cons.mp h with rfl | hw
      · exact List.forall_mem_nil _
      · exact htail w hw
    · rename_i hx
      obtain ⟨first, rest, hfirst⟩ := List.exists_cons_of_ne_nil (List.splitOnP_ne_nil isSpace s)
      rw [hfirst, List.modifyHead_cons] at h
      rcases List.mem_cons.mp h with rfl | hw
      · refine List.forall_mem_cons.mpr ⟨⟨by simpa using hx, List.mem_cons_self⟩, ?_⟩
        exact htail first (by rw [hfirst]; exact List.mem_cons_self)
      · exact htail w (by rw [hfirst]; exact List.mem_cons_of_mem _ hw)

theorem isWord_of_mem_split {s w : PyStr} (h : w ∈ split s) : IsWord w := by
  obtain ⟨hpart, hne⟩ := List.mem_filter.mp h
  exact ⟨by simpa using hne, fun c hc => (mem_splitOnP hpart c hc).1⟩

theorem mem_of_mem_split {s w : PyStr} {c : Cp} (h : w ∈ split s) (hc : c ∈ w) : c ∈ s :=
  (mem_splitOnP (List.mem_of_mem_filter h) c hc).2

/-- A normalised text has no white space around it. -/
theorem ends_unwords {ws : List PyStr} (h : ∀ w ∈ ws, IsWord w) :
    (∀ c ∈ (unwords ws).head?, isSpace c = false) ∧
      ∀ c ∈ (unwords ws).getLast?, isSpace c = false := by
  constructor
  · intro c hc
    cases ws with
    | nil => cases hc
    | cons w ws =>
      obtain ⟨hw, -⟩ := List.forall_mem_cons.mp h
      have hhead : (unwords (w :: ws)).head? = w.head? := by
        by_cases hnil : ws = []
        · rw [hnil, unwords_singleton]
        · rw [unwords_cons w hnil, List.head?_append, List.head?_eq_some_head hw.ne_nil,
            Option.some_or]
      rw [hhead] at hc
      exact hw.spaceless c (List.mem_of_mem_head? hc)
  · intro c hc
    rcases List.eq_nil_or_concat' ws with rfl | ⟨ws, w, rfl⟩
    · cases hc
    · have hw := h w (by simp)
      have hlast : (unwords (ws ++ [w])).getLast? = w.getLast? := by
        by_cases hnil : ws = []
        · rw [hnil, List.nil_append, unwords_singleton]
        · rw [unwords_concat hnil, List.getLast?_append, List.getLast?_eq_some_getLast hw.ne_nil,
            Option.some_or]
      rw [hlast] at hc
      exact hw.spaceless c (List.mem_of_getLast? hc)

theorem strip_collapse (s : PyStr) : strip (collapse s) = collapse s :=
  have hends := ends_unwords fun _ hw => isWord_of_mem_split hw
  strip_eq_self hends.1 hends.2

/-- Words with single blanks between them are normalised. -/
theorem collapse_unwords {ws : List PyStr} (h : ∀ w ∈ ws, IsWord w) :
    collapse (unwords ws) = unwords ws := by rw [collapse, split_unwords h, unwords]

theorem mem_unwords {ws : List PyStr} {c : Cp} (h : c ∈ unwords ws) :
    c = chr ' ' ∨ ∃ w ∈ ws, c ∈ w := by
  induction ws with
  | nil => cases h
  | cons w ws ih =>
    by_cases hnil : ws = []
    · rw [hnil, unwords_singleton] at h
      exact .inr ⟨w, List.mem_cons_self, h⟩
    · rw [unwords_cons w hnil] at h
      rcases List.mem_append.mp h with hw | hrest
      · exact .inr ⟨w, List.mem_cons_self, hw⟩
      · rcases List.mem_cons.mp hrest with hblank | hmem
        · exact .inl hblank
        · rcases ih hmem with hblank | ⟨v, hv, hc⟩
          · exact .inl hblank
          · exact .inr ⟨v, List.mem_cons_of_mem w hv, hc⟩

theorem mem_of_mem_collapse {s : PyStr} {c : Cp} (h : c ∈ collapse s) : c = chr ' ' ∨ c ∈ s := by
  rcases mem_unwords h with hblank | ⟨w, hw, hc⟩
  · exact .inl hblank
  · exact .inr (mem_of_mem_split hw hc)

theorem map_unwords {f : Cp → Cp} (hf : f (chr ' ') = chr ' ') (ws : List PyStr) :
    (unwords ws).map f = unwords (ws.map (·.map f)) := by
  induction ws with
  | nil => rfl
  | cons w ws ih =>
    by_cases hnil : ws = []
    · rw [hnil, List.map_singleton, unwords_singleton, unwords_singleton]
    · rw [List.map_cons, unwords_cons w hnil, unwords_cons _ (by simpa using hnil), List.map_append,
        List.map_cons, hf, ih]

/-- White space around a text is not kept. -/
theorem collapse_around {before after : PyStr} (hbefore : ∀ c ∈ before, isSpace c = true)
    (hafter : ∀ c ∈ after, isSpace c = true) (s : PyStr) :
    collapse (before ++ s ++ after) = collapse s := by
  have hsplit : split (s ++ after) = split s := by
    by_cases hnil : after = []
    · rw [hnil, List.append_nil]
    · have hspaces := split_append_spaces hafter hnil s []
      rwa [List.append_nil, show split [] = [] from rfl, List.append_nil] at hspaces
  rw [collapse, List.append_assoc, split_spaces_append hbefore, hsplit, collapse]

theorem collapse_append_glued {s w : PyStr} (hs : ∀ c ∈ s.getLast?, isSpace c = false)
    (hw : ∀ c ∈ w, isSpace c = false) : collapse (s ++ w) = collapse s ++ w := by
  by_cases hne : w = []
  · rw [hne, List.append_nil, List.append_nil]
  obtain ⟨s₁, v, rfl, hs₁, hv, hsplit⟩ := exists_glued hw hne s
  by_cases hvne : v = []
  · -- no word in front: the text ends in white space, or is empty
    subst hvne
    rcases hs₁ with rfl | ⟨s₂, c, rfl, hc⟩
    · rw [List.nil_append, List.nil_append, collapse, split_word hw hne, List.intercalate_singleton]
      rfl
    · rw [List.append_nil] at hs
      rw [hs c List.getLast?_concat] at hc
      cases hc
  rw [collapse, hsplit, collapse, split_last_word hs₁ hv hvne]
  show unwords _ = unwords _ ++ w
  by_cases hnil : split s₁ = []
  · rw [hnil, List.nil_append, List.nil_append, unwords_singleton, unwords_singleton]
  · rw [unwords_concat hnil, unwords_concat hnil, List.append_assoc _ v w]

/-- A word behind white space is one more word. -/
theorem collapse_append_spaced {s space w : PyStr} (hs : split s ≠ [])
    (hspace : ∀ c ∈ space, isSpace c = true) (hne : space ≠ []) (hw : IsWord w) :
    collapse (s ++ space ++ w) = collapse s ++ [chr ' '] ++ w := by
  rw [collapse, split_append_spaces hspace hne, split_word hw.spaceless hw.ne_nil]
  exact unwords_concat hs w

/-- A blank in a text of words stands between two of them. -/
theorem unwords_eq_append_cons {ws : List PyStr} (hws : ∀ w ∈ ws, chr ' ' ∉ w) {s t : PyStr}
    (h : unwords ws = s ++ chr ' ' :: t) :
    ∃ ws₁ ws₂, ws = ws₁ ++ ws₂ ∧ ws₁ ≠ [] ∧ ws₂ ≠ [] ∧ s = unwords ws₁ ∧ t = unwords ws₂ := by
  induction ws generalizing s with
  | nil => exact absurd h.symm (List.append_ne_nil_of_right_ne_nil s (List.cons_ne_nil _ t))
  | cons w ws ih =>
    obtain ⟨hw, hws⟩ := List.forall_mem_cons.mp hws
    by_cases hnil : ws = []
    · rw [hnil, unwords_singleton] at h
      rw [h] at hw
      exact absurd (List.mem_append_right s List.mem_cons_self) hw
    have hfirst : s = w ∧ t = unwords ws →
        ∃ ws₁ ws₂, w :: ws = ws₁ ++ ws₂ ∧ ws₁ ≠ [] ∧ ws₂ ≠ [] ∧ s = unwords ws₁ ∧ t = unwords ws₂ :=
      fun ⟨hs, ht⟩ => ⟨[w], ws, rfl, List.cons_ne_nil _ _, hnil,
        by rw [hs, unwords_singleton], ht⟩
    rw [unwords_cons w hnil] at h
    rcases List.append_eq_append_iff.mp h with ⟨v, hs, ht⟩ | ⟨v, hv, ht⟩
    · cases v with
      | nil =>
        rw [List.append_nil] at hs
        exact hfirst ⟨hs, (List.cons.inj ht).2.symm⟩
      | cons c v =>
        obtain ⟨rfl, hrest⟩ := List.cons.inj ht
        obtain ⟨ws₁, ws₂, hsplit, hne₁, hne₂, hv, ht⟩ := ih hws hrest
        refine ⟨w :: ws₁, ws₂, by rw [hsplit, List.cons_append], List.cons_ne_nil _ _, hne₂, ?_, ht⟩
        rw [hs, hv, unwords_cons w hne₁]
    · cases v with
      | nil =>
        rw [List.append_nil] at hv
        exact hfirst ⟨hv.symm, (List.cons.inj ht).2⟩
      | cons c v =>
        obtain ⟨rfl, -⟩ := List.cons.inj ht
        rw [hv] at hw
        exact absurd (List.mem_append_right s List.mem_cons_self) hw

/-- What has no blank ends a text of words exactly when it ends the last of them. -/
theorem suffix_unwords {w v : PyStr} (hv : chr ' ' ∉ v) (ws : List PyStr) :
    v <:+ unwords (ws ++ [w]) ↔ v <:+ w := by
  by_cases hnil : ws = []
  · rw [hnil, List.nil_append, unwords_singleton]
  · rw [unwords_concat hnil, List.append_assoc, List.singleton_append]
    constructor
    · intro h
      rcases List.suffix_or_suffix_of_suffix h
        (List.suffix_append _ (chr ' ' :: w)) with hshort | hlong
      · rcases List.suffix_cons_iff.mp hshort with rfl | hsuffix
        · exact absurd List.mem_cons_self hv
        · exact hsuffix
      · exact absurd (hlong.subset List.mem_cons_self) hv
    · exact fun h => (h.trans (List.suffix_cons _ _)).trans (List.suffix_append _ _)

/-- A word part and a blank behind it lie in a text of words exactly when the part ends one of the words
that have a word behind them. -/
theorem infix_unwords_iff {ws : List PyStr} (hws : ∀ w ∈ ws, chr ' ' ∉ w) {v : PyStr}
    (hv : chr ' ' ∉ v) :
    v ++ [chr ' '] <:+: unwords ws ↔ ∃ w ∈ ws.dropLast, v <:+ w := by
  constructor
  · rintro ⟨before, after, htext⟩
    have hblank : unwords ws = before ++ v ++ chr ' ' :: after := by simp [← htext]
    obtain ⟨ws₁, ws₂, rfl, hne₁, hne₂, hleft, -⟩ := unwords_eq_append_cons hws hblank
    obtain ⟨front, w, rfl⟩ : ∃ front w, ws₁ = front ++ [w] :=
      ⟨_, _, (List.dropLast_append_getLast hne₁).symm⟩
    refine ⟨w, ?_, (suffix_unwords hv front).mp (hleft ▸ List.suffix_append before v)⟩
    rw [List.dropLast_append_of_ne_nil hne₂]
    exact List.mem_append_left _ (List.mem_append_right _ List.mem_cons_self)
  · rintro ⟨w, hw, hsuffix⟩
    obtain ⟨front, back, hfront⟩ := List.append_of_mem hw
    have hne : ws ≠ [] := by
      rintro rfl
      cases hw
    have hsplit : ws = (front ++ [w]) ++ (back ++ [ws.getLast hne]) := by
      conv_lhs => rw [← List.dropLast_append_getLast hne, hfront]
      simp
    obtain ⟨before, hbefore⟩ := (suffix_unwords hv front).mpr hsuffix
    rw [hsplit, unwords_append (by simp) (by simp), ← hbefore]
    exact ⟨before, unwords (back ++ [ws.getLast hne]), by simp⟩

end Clickstream.Python
