import Clickstream.Parsing
import Clickstream.Python.JsonLimits

/-! When `parse_message` returns: the validators and the coercion to strings raise nothing but
`ParseError`, so a message gets through exactly when the JSON decoder stays within its limits on
integer literals and on nesting. -/

namespace Clickstream.Parsing

open Python

/-- `parse_message` returns, with exactly one of `event` and `error` set. -/
def Returns (py : Interpreter) (raw : Option PyStr) : Prop :=
  ∃ r, parseMessage py raw = .ok r ∧ (r.event = none ↔ r.error ≠ none)

theorem parseEvent_of_withinLimits {py : Interpreter} {raw : PyStr}
    (h : WithinLimits py.recursionLimit raw) :
    (∃ e, parseEvent py raw = .ok e) ∨ ∃ text, parseEvent py raw = .error (.parseError text) := by
  rw [parseEvent, loads]
  cases hscan : scanDocument py.recursionLimit raw with
  | error fault =>
    obtain rfl := withinLimits_iff.mp h fault hscan
    exact .inr ⟨_, rfl⟩
  | ok data =>
    cases hevent : eventOf py data with
    | ok e => exact .inl ⟨e, hevent⟩
    | error exc =>
      obtain ⟨text, rfl⟩ := eventOf_error hevent
      exact .inr ⟨text, hevent⟩

theorem parseEvent_of_not_withinLimits {py : Interpreter} {raw : PyStr}
    (h : ¬WithinLimits py.recursionLimit raw) :
    ∃ exc, parseEvent py raw = .error exc ∧ ∀ text, exc ≠ .parseError text := by
  rw [withinLimits_iff] at h
  push Not at h
  obtain ⟨fault, hscan, hfault⟩ := h
  rw [parseEvent, loads, hscan]
  cases fault with
  | decode => exact absurd rfl hfault
  | digits => exact ⟨_, rfl, fun _ h => by cases h⟩
  | recursion => exact ⟨_, rfl, fun _ h => by cases h⟩

/-- `parse_message` lets every other exception of the decoder through. -/
theorem not_returns {py : Interpreter} {text : PyStr} (h : ¬WithinLimits py.recursionLimit text) :
    ¬Returns py (some text) := by
  rintro ⟨r, hr, -⟩
  obtain ⟨exc, hexc, hne⟩ := parseEvent_of_not_withinLimits h
  rw [parseMessage, hexc] at hr
  cases exc with
  | parseError text => exact hne text rfl
  | jsonDecodeError | valueError | recursionError => cases hr

/-- `parse_message` returns exactly on null and on texts within the limits of the decoder. -/
theorem returns_iff (py : Interpreter) (raw : Option PyStr) :
    Returns py raw ↔ ∀ text, raw = some text → WithinLimits py.recursionLimit text := by
  cases raw with
  | none => exact iff_of_true ⟨_, rfl, by simp⟩ fun _ h => by cases h
  | some text =>
    simp only [Option.some.injEq, forall_eq']
    constructor
    · exact fun hreturns => by_contra fun hlimits => not_returns hlimits hreturns
    · intro hlimits
      rw [Returns, parseMessage]
      rcases parseEvent_of_withinLimits hlimits with ⟨e, he⟩ | ⟨error, he⟩
      · rw [he]
        exact ⟨_, rfl, by simp⟩
      · rw [he]
        exact ⟨_, rfl, by simp⟩

/-! ### A text beyond the limits -/

theorem longInteger_ones {n : Nat} (hn : maxStrDigits < n) :
    LongInteger (List.replicate n (chr '1')) := by
  refine ⟨List.replicate n (chr '1'), [], ?_, ?_, ?_, ?_, nofun, rfl, rfl⟩
  · cases n with
    | zero => rfl
    | succ n =>
      have hsign : minusSign (List.replicate (n + 1) (chr '1')) = [] := by
        rw [minusSign, List.replicate_succ]
        rfl
      rw [hsign, List.append_nil, List.nil_append]
  · rwa [List.length_replicate]
  · intro c hc
    rw [List.eq_of_mem_replicate hc]
    rfl
  · rw [List.head?_replicate]
    split <;> decide

/-- Some message stops the queries. -/
theorem not_returns_always :
    ¬∀ (py : Interpreter) (raw : Option PyStr), Returns py raw := by
  intro h
  have hlimits : ¬WithinLimits cpython.recursionLimit
      (List.replicate (maxStrDigits + 1) (chr '1')) := by
    intro h
    have hskip : skipSpace (List.replicate (maxStrDigits + 1) (chr '1')) =
        List.replicate (maxStrDigits + 1) (chr '1') := by
      rw [List.replicate_succ, skipSpace, List.dropWhile_cons_of_neg (by decide)]
    have hplaces := h (by rw [List.replicate_succ, List.head?_cons]; decide)
    rw [hskip] at hplaces
    exact (hplaces _ _ (.here ..)).2 (longInteger_ones (Nat.lt_succ_self _))
  exact not_returns hlimits (h cpython _)

end Clickstream.Parsing
