import Clickstream.Python.Words

/-! How `str.lower` treats a capital sigma: it becomes a final one when a cased character stands in front
of it and none behind it, case-ignorable ones passed over.  White space and semicolons are neither, so
nothing beyond them matters. -/

namespace Clickstream.Python

def isBreak (c : Cp) : Bool := isSpace c || decide (c = chr ';')

/-- The tables of `str.lower`: the full lower case of a character, and whether it is cased and
case-ignorable. -/
structure CaseTables where
  lowerOf : Cp → PyStr
  cased : Cp → Bool
  caseIgnorable : Cp → Bool
  isWord : Cp → Bool
  lowerOf_ascii : ∀ c, c.val < 0x80 → lowerOf c = [asciiLower c]
  lowerOf_ne_nil : ∀ c, lowerOf c ≠ []
  lowerOf_other : ∀ c, 0x80 ≤ c.val → ∀ d ∈ lowerOf c, d.val < 0x80 →
    c.val = 0x130 ∧ d = chr 'i' ∨ c.val = 0x212A ∧ d = chr 'k'
  lowerOf_space : ∀ c, isSpace c = true → lowerOf c = [c]
  lowerOf_not_space : ∀ c, isSpace c = false → ∀ d ∈ lowerOf c, isSpace d = false
  isWord_ascii : ∀ c, c.val < 0x80 → isWord c = isAsciiWord c
  break_caseIgnorable : ∀ c, isBreak c = true → caseIgnorable c = false
  break_cased : ∀ c, isBreak c = true → cased c = false

namespace CaseTables

variable (t : CaseTables)

/-- The next character that is not case-ignorable is cased. -/
def casedNext (s : PyStr) : Bool := (s.find? (!t.caseIgnorable ·)).any t.cased

/-- `handle_capital_sigma` -/
def lowerSigma (behind ahead : PyStr) : Cp :=
  if t.casedNext behind && !t.casedNext ahead then chr 'ς' else chr 'σ'

def lowerAt (behind : PyStr) (c : Cp) (ahead : PyStr) : PyStr :=
  if c = chr 'Σ' then [t.lowerSigma behind ahead] else t.lowerOf c

theorem lowerSigma_spec (behind ahead : PyStr) :
    0x80 ≤ (t.lowerSigma behind ahead).val ∧ isSpace (t.lowerSigma behind ahead) = false := by
  rw [lowerSigma]
  split
  · exact ⟨by decide, by decide⟩
  · exact ⟨by decide, by decide⟩

/-- The tables as the interpreter uses them. -/
def unicode : UnicodeTables where
  lowerAt := t.lowerAt
  isWord := t.isWord
  lowerAt_ascii behind c ahead hc := by
    rw [lowerAt, if_neg (by rintro rfl; exact absurd hc (by decide)), t.lowerOf_ascii c hc]
  lowerAt_ne_nil behind c ahead := by
    rw [lowerAt]
    split
    · exact List.cons_ne_nil _ _
    · exact t.lowerOf_ne_nil c
  lowerAt_other behind c ahead hc d hd hlow := by
    rw [lowerAt] at hd
    split at hd
    · rw [List.mem_singleton.mp hd] at hlow
      exact absurd hlow (not_lt.mpr (t.lowerSigma_spec behind ahead).1)
    · exact t.lowerOf_other c hc d hd hlow
  lowerAt_space behind c ahead hc := by
    rw [lowerAt, if_neg (by rintro rfl; exact absurd hc (by decide)), t.lowerOf_space c hc]
  lowerAt_not_space behind c ahead hc d hd := by
    rw [lowerAt] at hd
    split at hd
    · rw [List.mem_singleton.mp hd]
      exact (t.lowerSigma_spec behind ahead).2
    · exact t.lowerOf_not_space c hc d hd
  isWord_ascii := t.isWord_ascii

theorem casedNext_break {b : Cp} (hb : isBreak b = true) (near far : PyStr) :
    t.casedNext (near ++ b :: far) = t.casedNext near := by
  rw [casedNext, casedNext, List.find?_append, List.find?_cons_of_pos]
  · cases near.find? (!t.caseIgnorable ·) with
    | none => exact t.break_cased b hb
    | some c => rfl
  · rw [t.break_caseIgnorable b hb]
    rfl

end CaseTables

/-- What stands beyond white space or a semicolon has no part in the lower case of a character. -/
structure UnicodeTables.Local (u : UnicodeTables) : Prop where
  behind : ∀ {b}, isBreak b = true → ∀ near far c ahead,
    u.lowerAt (near ++ b :: far) c ahead = u.lowerAt near c ahead
  ahead : ∀ {b}, isBreak b = true → ∀ behind c near far,
    u.lowerAt behind c (near ++ b :: far) = u.lowerAt behind c near

theorem CaseTables.local_unicode (t : CaseTables) : t.unicode.Local where
  behind hb near far c ahead := by
    show t.lowerAt _ _ _ = t.lowerAt _ _ _
    rw [lowerAt, lowerAt, lowerSigma, lowerSigma, t.casedNext_break hb]
  ahead hb behind c near far := by
    show t.lowerAt _ _ _ = t.lowerAt _ _ _
    rw [lowerAt, lowerAt, lowerSigma, lowerSigma, t.casedNext_break hb]

section Local

variable {u : UnicodeTables}

theorem lowerAt_break {b : Cp} (hb : isBreak b = true) (behind ahead : PyStr) :
    u.lowerAt behind b ahead = [b] := by
  rw [isBreak, Bool.or_eq_true, decide_eq_true_eq] at hb
  rcases hb with hspace | rfl
  · exact u.lowerAt_space behind b ahead hspace
  · exact u.lowerAt_ascii behind _ ahead (by decide)

theorem lowerFrom_breaks {w : PyStr} (hw : ∀ b ∈ w, isBreak b = true) (behind ahead : PyStr) :
    lowerFrom u behind w ahead = w := by
  induction w generalizing behind with
  | nil => rfl
  | cons b w ih =>
    obtain ⟨hb, hw⟩ := List.forall_mem_cons.mp hw
    rw [lowerFrom, lowerAt_break hb, ih hw, List.singleton_append]

variable (hu : u.Local)
include hu

theorem lowerFrom_behind {b : Cp} (hb : isBreak b = true) (near far s ahead : PyStr) :
    lowerFrom u (near ++ b :: far) s ahead = lowerFrom u near s ahead := by
  induction s generalizing near with
  | nil => rfl
  | cons c s ih => rw [lowerFrom, lowerFrom, hu.behind hb, ← ih (c :: near), List.cons_append]

theorem lowerFrom_ahead {b : Cp} (hb : isBreak b = true) (behind s near far : PyStr) :
    lowerFrom u behind s (near ++ b :: far) = lowerFrom u behind s near := by
  induction s generalizing behind with
  | nil => rfl
  | cons c s ih => rw [lowerFrom, lowerFrom, ← List.append_assoc, hu.ahead hb, ih]

/-- White space and semicolons around a text have no part in its lower case. -/
theorem lower_around {before after : PyStr} (hbefore : ∀ b ∈ before, isBreak b = true)
    (hafter : ∀ b ∈ after, isBreak b = true) (s : PyStr) :
    lower u (before ++ s ++ after) = before ++ lower u s ++ after := by
  have hleft : ∀ ahead, lowerFrom u before.reverse s ahead = lowerFrom u [] s ahead := by
    intro ahead
    cases hreverse : before.reverse with
    | nil => rfl
    | cons b rest =>
      have hb : isBreak b = true :=
        hbefore b (List.mem_reverse.mp (by rw [hreverse]; exact List.mem_cons_self))
      exact lowerFrom_behind hu hb [] rest s ahead
  have hright : lowerFrom u [] s after = lowerFrom u [] s [] := by
    cases after with
    | nil => rfl
    | cons b rest => exact lowerFrom_ahead hu (hafter b List.mem_cons_self) [] s [] rest
  rw [lower, lowerFrom_append, lowerFrom_append, lowerFrom_breaks hbefore, lowerFrom_breaks hafter,
    List.append_nil, List.append_nil, hleft, hright, lower]

end Local

def isAsciiLetter (c : Cp) : Bool := decide (0x41 ≤ c.val ∧ c.val ≤ 0x5A ∨ 0x61 ≤ c.val ∧ c.val ≤ 0x7A)

theorem not_isAsciiLetter_of_isBreak {c : Cp} (hc : isBreak c = true) : isAsciiLetter c = false := by
  rw [isBreak, Bool.or_eq_true, decide_eq_true_eq] at hc
  rcases hc with hspace | rfl
  · simp only [isSpace, decide_eq_true_eq] at hspace
    rw [isAsciiLetter, decide_eq_false_iff_not]
    omega
  · rfl

/-- Tables for ASCII. -/
def asciiCase : CaseTables where
  lowerOf c := [asciiLower c]
  cased := isAsciiLetter
  caseIgnorable _ := false
  isWord := isAsciiWord
  lowerOf_ascii _ _ := rfl
  lowerOf_ne_nil _ := List.cons_ne_nil _ _
  lowerOf_other c hc d hd hlow := by
    rw [List.mem_singleton.mp hd] at hlow
    exact absurd (asciiLower_ascii hlow) (not_lt.mpr hc)
  lowerOf_space c hc := by rw [asciiLower_of_isSpace hc]
  lowerOf_not_space c hc d hd := by rw [List.mem_singleton.mp hd, isSpace_asciiLower, hc]
  isWord_ascii := asciiTables.isWord_ascii
  break_caseIgnorable _ _ := rfl
  break_cased _ := not_isAsciiLetter_of_isBreak

end Clickstream.Python
