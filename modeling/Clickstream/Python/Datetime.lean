import Clickstream.Python.Calendar
import Clickstream.Python.Strftime

/-! `datetime` with microseconds and a time zone: arithmetic on its wall clock, and `isoformat`. -/

namespace Clickstream.Python

/-- Microseconds from the start of 1970 in UTC. -/
def Clock.epochMicros (c : Clock) : Int := c.moment.epochSeconds * 1000000 + c.micros

/-- `datetime.isoformat` without a time zone. -/
def Clock.isoformat (c : Clock) : PyStr :=
  c.moment.isoformat ++ if c.micros = 0 then [] else chr '.' :: decimal 6 c.micros

/-- A `datetime` in arithmetic: its wall clock in microseconds from the start of 1970, and whether it has
the time zone UTC or none. -/
structure Datetime where
  micros : Int
  aware : Bool
  deriving DecidableEq

/-- A `datetime` of a `TIMESTAMP` column has no time zone. -/
def Clock.naive (c : Clock) : Datetime := ⟨c.epochMicros, false⟩

inductive DatetimeError where
  | typeError
  | overflowError
  deriving DecidableEq

/-- The start of year 1. -/
def minMicros : Int := -62135596800000000

/-- The last microsecond of year 9999. -/
def maxMicros : Int := 253402300799999999

/-- `self + timedelta` -/
def Datetime.add (self : Datetime) (delta : Int) : Except DatetimeError Datetime :=
  if minMicros ≤ self.micros + delta ∧ self.micros + delta ≤ maxMicros then
    .ok { self with micros := self.micros + delta }
  else .error .overflowError

/-- `self - other`, a `timedelta`: a `datetime` with and one without a time zone do not go together. -/
def Datetime.sub (self other : Datetime) : Except DatetimeError Int :=
  if self.aware = other.aware then .ok (self.micros - other.micros) else .error .typeError

/-- `timedelta.total_seconds`, as an exact number. -/
def totalSeconds (delta : Int) : Rat := delta / 1000000

namespace DateTime

variable {t : DateTime}

theorem epochSeconds_range (t : DateTime) :
    -62135596800 ≤ t.epochSeconds ∧ t.epochSeconds < 253402300800 := by
  have hlast := t.toordinal_le_month
  have hmonth : daysBeforeMonth t.year (t.month + 1) ≤ daysBeforeMonth t.year 13 :=
    daysBeforeMonth_mono t.year (Nat.succ_pos t.month) (Nat.succ_le_succ t.month_range.2)
  have hyear : daysBeforeYear (t.year + 1) ≤ daysBeforeYear 10000 :=
    daysBeforeYear_mono (Nat.succ_pos t.year) (Nat.succ_le_succ t.year_range.2)
  have hmax : daysBeforeYear 10000 = 3652059 := rfl
  have hday := t.day_range.1
  have hsecond := t.secondOfDay_lt
  rw [daysBeforeYear_succ t.year_range.1] at hyear
  have hfirst : 1 ≤ t.toordinal := by
    rw [toordinal]
    omega
  rw [epochSeconds_eq]
  omega

theorem epochSeconds_make {year month day hour minute second : Nat}
    (h : make year month day hour minute second = some t) :
    t.epochSeconds =
      (((daysBeforeYear year + daysBeforeMonth year month + day : Nat) : Int) - 719163) * 86400 +
        (hour * 3600 + minute * 60 + second : Nat) := by
  have hfields := fields_make h
  simp only [fields, List.cons.injEq, and_true] at hfields
  obtain ⟨rfl, rfl, rfl, rfl, rfl, rfl⟩ := hfields
  rfl

/-- The last second of a day, a month or a year is followed by the first of the next. -/
theorem epochSeconds_nextSecond (h : t.nextSecond = some u) :
    u.epochSeconds = t.epochSeconds + 1 := by
  obtain ⟨hyear, hmonth, hday, hhour, hminute, hsecond⟩ := t.ranges
  rw [nextSecond] at h
  split_ifs at h <;> rw [epochSeconds_make h, epochSeconds_eq, toordinal, secondOfDay]
  · omega
  · omega
  · omega
  · omega
  · have hnext := daysBeforeMonth_succ t.year hmonth.1
    omega
  · rename_i hlastDay hlastMonth
    have hdecember : t.month = 12 := by omega
    have hnext : daysBeforeMonth t.year 13 = daysBeforeMonth t.year 12 + daysInMonth t.year 12 :=
      daysBeforeMonth_succ t.year (by decide)
    have hjanuary : daysBeforeMonth (t.year + 1) 1 = 0 := rfl
    rw [daysBeforeYear_succ hyear.1, hjanuary]
    rw [hdecember] at hday hlastDay ⊢
    omega

theorem not_range_of_make {year month day hour minute second : Nat}
    (h : make year month day hour minute second = none) :
    ¬((1 ≤ year ∧ year ≤ 9999) ∧ (1 ≤ month ∧ month ≤ 12) ∧
      (1 ≤ day ∧ day ≤ daysInMonth year month) ∧ hour < 24 ∧ minute < 60 ∧ second < 60) := by
  unfold make at h
  split at h
  · cases h
  · assumption

/-- Only the last second of year 9999 has no next one. -/
theorem epochSeconds_of_nextSecond (h : t.nextSecond = none) : t.epochSeconds = 253402300799 := by
  obtain ⟨hyear, hmonth, hday, hhour, hminute, hsecond⟩ := t.ranges
  rw [nextSecond] at h
  split_ifs at h with hs hm hh hd hmo <;> have hrange := not_range_of_make h
  · omega
  · omega
  · omega
  · omega
  · have hlength : 1 ≤ daysInMonth t.year (t.month + 1) := by
      unfold daysInMonth
      split_ifs <;> omega
    omega
  · have hlength : daysInMonth (t.year + 1) 1 = 31 := rfl
    have hyear' : t.year = 9999 := by omega
    have hmonth' : t.month = 12 := by omega
    rw [hyear', hmonth'] at hday hd
    have hdecember : daysInMonth 9999 12 = 31 := rfl
    have hbefore : daysBeforeYear 9999 + daysBeforeMonth 9999 12 = 3652028 := by decide
    rw [epochSeconds_eq, toordinal, secondOfDay, hyear', hmonth']
    omega

end DateTime

theorem Clock.epochMicros_range (c : Clock) : minMicros ≤ c.epochMicros ∧ c.epochMicros ≤ maxMicros := by
  have hseconds := c.moment.epochSeconds_range
  have hmicros := c.micros_lt
  rw [Clock.epochMicros, minMicros, maxMicros]
  omega

theorem Clock.epochMicros_add {clock clock' : Clock} {micros : Nat} {h : micros ≤ 1000000}
    (hadd : clock.add micros h = some clock') :
    clock'.epochMicros = clock.epochMicros + micros := by
  have hmicros := clock.micros_lt
  rw [Clock.add] at hadd
  split at hadd
  · cases hadd
    simp only [Clock.epochMicros]
    omega
  · obtain ⟨moment, hmoment, rfl⟩ := Option.map_eq_some_iff.mp hadd
    simp only [Clock.epochMicros, DateTime.epochSeconds_nextSecond hmoment]
    omega

/-- The clock raises an error only where it would leave year 9999. -/
theorem Clock.maxMicros_lt_of_add {clock : Clock} {micros : Nat} {h : micros ≤ 1000000}
    (hadd : clock.add micros h = none) : maxMicros < clock.epochMicros + micros := by
  rw [Clock.add] at hadd
  split at hadd
  · cases hadd
  · have hlast := DateTime.epochSeconds_of_nextSecond (Option.map_eq_none_iff.mp hadd)
    rw [Clock.epochMicros, maxMicros, hlast]
    omega

theorem scalar_decimal (width n : Nat) : Scalar (decimal width n) := by
  intro c hc
  obtain ⟨i, -, rfl⟩ := List.mem_map.mp hc
  have hdigit := isAsciiDigit_decimalDigit (n / 10 ^ i)
  rw [isAsciiDigit, decide_eq_true_iff] at hdigit
  rw [Cp.isSurrogate, decide_eq_false_iff_not]
  omega

theorem scalar_cons_decimal {c : Cp} (h : c.isSurrogate = false) (width n : Nat) :
    Scalar (c :: decimal width n) := List.forall_mem_cons.mpr ⟨h, scalar_decimal width n⟩

theorem DateTime.scalar_isoformat (t : DateTime) : Scalar t.isoformat := by
  have hfield : ∀ c, Cp.isSurrogate c = false → ∀ n, Scalar (c :: decimal 2 n) :=
    fun _ hc => scalar_cons_decimal hc 2
  simp only [Scalar, DateTime.isoformat, List.forall_mem_append]
  exact ⟨⟨⟨⟨⟨scalar_decimal 4 _, hfield _ (by decide) _⟩, hfield _ (by decide) _⟩,
    hfield _ (by decide) _⟩, hfield _ (by decide) _⟩, hfield _ (by decide) _⟩

theorem Clock.scalar_isoformat (c : Clock) : Scalar c.isoformat := by
  refine List.forall_mem_append.mpr ⟨c.moment.scalar_isoformat, ?_⟩
  split_ifs
  · exact fun _ hx => absurd hx List.not_mem_nil
  · exact scalar_cons_decimal (by decide) 6 _

theorem strftime_eq_isoformat (t : DateTime) : strftime t isoFormat = t.isoformat ++ lit "Z" := rfl

end Clickstream.Python
