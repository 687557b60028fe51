import Clickstream.Python.Strptime
import Mathlib.Data.List.Lex

/-! The order of moments: by their fields, the year first, and by the seconds since 1970. -/

namespace Clickstream.Python

theorem daysBeforeMonth_succ (year : Nat) {month : Nat} (h : 1 ≤ month) :
    daysBeforeMonth year (month + 1) = daysBeforeMonth year month + daysInMonth year month := by
  obtain ⟨m, rfl⟩ : ∃ m, month = m + 1 := ⟨month - 1, by omega⟩
  simp [daysBeforeMonth, List.range_succ]

theorem daysBeforeMonth_mono (year : Nat) {month month' : Nat} (h : 1 ≤ month) (hle : month ≤ month') :
    daysBeforeMonth year month ≤ daysBeforeMonth year month' := by
  induction month', hle using Nat.le_induction with
  | base => exact Nat.le_refl _
  | succ n hn ih =>
    rw [daysBeforeMonth_succ year (by omega)]
    omega

theorem daysBeforeMonth_thirteen (year : Nat) :
    daysBeforeMonth year 13 = if isLeap year then 366 else 365 := by
  cases hleap : isLeap year <;> simp +decide [daysBeforeMonth, List.range_succ, daysInMonth, hleap]

theorem isLeap_iff (year : Nat) :
    isLeap year = true ↔ 4 ∣ year ∧ (¬100 ∣ year ∨ 400 ∣ year) := by
  simp [isLeap, Nat.dvd_iff_mod_eq_zero]

theorem daysBeforeYear_succ {year : Nat} (h : 1 ≤ year) :
    daysBeforeYear (year + 1) = daysBeforeYear year + daysBeforeMonth year 13 := by
  obtain ⟨y, rfl⟩ : ∃ y, year = y + 1 := ⟨year - 1, by omega⟩
  have hcentury : y / 100 ≤ y / 4 := Nat.div_le_div_left (by decide) (by decide)
  simp only [daysBeforeMonth_thirteen, isLeap_iff, daysBeforeYear, Nat.add_sub_cancel,
    Nat.succ_div]
  split_ifs <;> omega

theorem daysBeforeYear_mono {year year' : Nat} (h : 1 ≤ year) (hle : year ≤ year') :
    daysBeforeYear year ≤ daysBeforeYear year' := by
  induction year', hle using Nat.le_induction with
  | base => exact Nat.le_refl _
  | succ n hn ih =>
    rw [daysBeforeYear_succ (by omega)]
    omega

namespace DateTime

variable {t u : DateTime}

theorem toordinal_le_month (t : DateTime) :
    t.toordinal ≤ daysBeforeYear t.year + daysBeforeMonth t.year (t.month + 1) := by
  have hday := t.day_range.2
  rw [toordinal, daysBeforeMonth_succ _ t.month_range.1]
  omega

theorem toordinal_lt_of_year (h : t.year < u.year) : t.toordinal < u.toordinal := by
  have hmonth := t.toordinal_le_month
  have hdecember : daysBeforeMonth t.year (t.month + 1) ≤ daysBeforeMonth t.year 13 :=
    daysBeforeMonth_mono t.year (Nat.succ_pos t.month) (Nat.succ_le_succ t.month_range.2)
  have hyear : daysBeforeYear (t.year + 1) ≤ daysBeforeYear u.year :=
    daysBeforeYear_mono (Nat.succ_pos t.year) h
  have hday := u.day_range.1
  rw [daysBeforeYear_succ t.year_range.1] at hyear
  change t.toordinal < daysBeforeYear u.year + daysBeforeMonth u.year u.month + u.day
  omega

theorem toordinal_lt_of_month (hyear : t.year = u.year) (h : t.month < u.month) :
    t.toordinal < u.toordinal := by
  have hmonth := t.toordinal_le_month
  have hnext : daysBeforeMonth t.year (t.month + 1) ≤ daysBeforeMonth t.year u.month :=
    daysBeforeMonth_mono t.year (Nat.succ_pos t.month) h
  have hday := u.day_range.1
  change t.toordinal < daysBeforeYear u.year + daysBeforeMonth u.year u.month + u.day
  rw [← hyear]
  omega

def secondOfDay (t : DateTime) : Nat := t.hour * 3600 + t.minute * 60 + t.second

theorem secondOfDay_lt (t : DateTime) : t.secondOfDay < 86400 := by
  have hhour := t.hour_lt
  have hminute := t.minute_lt
  have hsecond := t.second_lt
  rw [secondOfDay]
  omega

theorem epochSeconds_eq (t : DateTime) :
    t.epochSeconds = ((t.toordinal : Int) - 719163) * 86400 + t.secondOfDay := rfl

theorem epochSeconds_lt_of_toordinal (h : t.toordinal < u.toordinal) :
    t.epochSeconds < u.epochSeconds := by
  have hday := t.secondOfDay_lt
  rw [epochSeconds_eq, epochSeconds_eq]
  omega

def fields (t : DateTime) : List Nat := [t.year, t.month, t.day, t.hour, t.minute, t.second]

theorem fields_make {year month day hour minute second : Nat}
    (h : make year month day hour minute second = some t) :
    t.fields = [year, month, day, hour, minute, second] := by
  unfold make at h
  split at h
  · cases h
    rfl
  · cases h

theorem fields_injective (h : t.fields = u.fields) : t = u := by
  cases t
  cases u
  simp only [fields, List.cons.injEq] at h
  simp only [DateTime.mk.injEq]
  tauto

theorem epochSeconds_lt_of_fields (h : t.fields < u.fields) : t.epochSeconds < u.epochSeconds := by
  simp only [fields, List.cons_lt_cons_iff, List.not_lt_nil, and_false, or_false] at h
  rcases h with hyear | ⟨hyear, hmonth | ⟨hmonth, hday | ⟨hday, h⟩⟩⟩
  · exact epochSeconds_lt_of_toordinal (toordinal_lt_of_year hyear)
  · exact epochSeconds_lt_of_toordinal (toordinal_lt_of_month hyear hmonth)
  · apply epochSeconds_lt_of_toordinal
    rw [toordinal, toordinal, hyear, hmonth]
    omega
  · have hsame : t.toordinal = u.toordinal := by
      rw [toordinal, toordinal, hyear, hmonth, hday]
    have hminute := t.minute_lt
    have hsecond := t.second_lt
    rw [epochSeconds_eq, epochSeconds_eq, hsame, secondOfDay, secondOfDay]
    omega

/-- The fields tell which of two moments comes first. -/
theorem epochSeconds_lt_iff : t.epochSeconds < u.epochSeconds ↔ t.fields < u.fields := by
  refine ⟨fun h => ?_, epochSeconds_lt_of_fields⟩
  rcases lt_trichotomy t.fields u.fields with hlt | heq | hgt
  · exact hlt
  · rw [fields_injective heq] at h
    exact absurd h (lt_irrefl _)
  · exact absurd (epochSeconds_lt_of_fields hgt) (by omega)

end DateTime

end Clickstream.Python
