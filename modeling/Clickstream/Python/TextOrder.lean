import Clickstream.Python.Calendar
import Clickstream.Python.Strftime
import Mathlib.Order.Fin.Basic

/-! The order of timestamps as strings: moments of four-digit years are written so that an earlier one
is the smaller string.  A clock that is moved on never goes back. -/

namespace Clickstream.Python

theorem append_lt_append {α : Type} [LT α] {a b : List α} (h : a < b) (hlength : a.length = b.length)
    (x y : List α) : a ++ x < b ++ y := by
  induction a generalizing b with
  | nil =>
    rw [List.eq_nil_of_length_eq_zero hlength.symm] at h
    exact absurd h (List.not_lt_nil _)
  | cons c a ih =>
    cases b with
    | nil => exact absurd h (List.not_lt_nil _)
    | cons d b =>
      rw [List.cons_lt_cons_iff] at h
      rw [List.cons_append, List.cons_append, List.cons_lt_cons_iff]
      exact h.imp_right fun ⟨heq, hlt⟩ => ⟨heq, ih hlt (Nat.succ.inj hlength)⟩

theorem length_decimal (width n : Nat) : (decimal width n).length = width := by simp [decimal]

theorem decimal_lt {width a b : Nat} (h : a < b) (hb : b < 10 ^ width) :
    decimal width a < decimal width b := by
  induction width generalizing a b with
  | zero => omega
  | succ width ih =>
    rw [Nat.pow_succ] at hb
    rw [decimal_succ, decimal_succ]
    by_cases hprefix : a / 10 < b / 10
    · refine append_lt_append (ih hprefix (by omega)) ?_ _ _
      rw [length_decimal, length_decimal]
    · have hsame : a / 10 = b / 10 := by omega
      rw [hsame]
      apply List.append_left_lt
      rw [List.cons_lt_cons_iff]
      left
      show 0x30 + a % 10 < 0x30 + b % 10
      omega

/-- Of two numbers and what follows them, the numbers decide first. -/
theorem decimal_append_lt {width a b : Nat} {x y : PyStr} (hb : b < 10 ^ width)
    (h : a < b ∨ a = b ∧ x < y) : decimal width a ++ x < decimal width b ++ y := by
  rcases h with hlt | ⟨rfl, hrest⟩
  · refine append_lt_append (decimal_lt hlt hb) ?_ x y
    rw [length_decimal, length_decimal]
  · exact List.append_left_lt hrest

theorem cons_lt_cons {α : Type} [LT α] {c : α} {x y : List α} (h : x < y) : c :: x < c :: y :=
  List.cons_lt_cons_iff.mpr (.inr ⟨rfl, h⟩)

namespace DateTime

variable {t u : DateTime}

theorem strftime_lt (h : t.fields < u.fields) : strftime t isoFormat < strftime u isoFormat := by
  obtain ⟨hyear, hmonth, -, hhour, hminute, hsecond⟩ := u.ranges
  have hday := u.day_le
  simp only [fields, List.cons_lt_cons_iff, List.not_lt_nil, and_false, or_false] at h
  rw [strftime_isoFormat, strftime_isoFormat]
  simp only [List.append_assoc, List.cons_append]
  refine decimal_append_lt (by omega) (h.imp_right (And.imp_right fun h => cons_lt_cons ?_))
  refine decimal_append_lt (by omega) (h.imp_right (And.imp_right fun h => cons_lt_cons ?_))
  refine decimal_append_lt (by omega) (h.imp_right (And.imp_right fun h => cons_lt_cons ?_))
  refine decimal_append_lt (by omega) (h.imp_right (And.imp_right fun h => cons_lt_cons ?_))
  refine decimal_append_lt (by omega) (h.imp_right (And.imp_right fun h => cons_lt_cons ?_))
  exact decimal_append_lt (by omega) (.inl h)

theorem strftime_le (h : t.fields ≤ u.fields) : strftime t isoFormat ≤ strftime u isoFormat := by
  rcases h.lt_or_eq with hlt | heq
  · exact (strftime_lt hlt).le
  · rw [fields_injective heq]

/-- The next second is later, across the end of every field. -/
theorem fields_lt_nextSecond (h : t.nextSecond = some u) : t.fields < u.fields := by
  rw [nextSecond] at h
  split_ifs at h <;> rw [fields_make h, fields] <;> simp [List.cons_lt_cons_iff]

end DateTime

theorem Clock.fields_le_add {clock clock' : Clock} {micros : Nat} {h : micros ≤ 1000000}
    (hadd : clock.add micros h = some clock') : clock.moment.fields ≤ clock'.moment.fields := by
  rw [Clock.add] at hadd
  split at hadd
  · cases hadd
    exact le_refl _
  · obtain ⟨moment, hmoment, rfl⟩ := Option.map_eq_some_iff.mp hadd
    exact (DateTime.fields_lt_nextSecond hmoment).le

end Clickstream.Python
