import Clickstream.Python.Datetime
import Clickstream.Python.Json

/-! Package `time` of Go's standard library, as far as the control-plane client uses it: `time.Parse` for
layouts of numeric fields, instants in nanoseconds, and durations of 64 bits. -/

namespace Clickstream.Go

open Python

/-! ### Instants and durations -/

def minDuration : Int := -2 ^ 63

def maxDuration : Int := 2 ^ 63 - 1

/-- Signed arithmetic of 64 bits wraps. -/
def wrap64 (n : Int) : Int := (n + 2 ^ 63) % 2 ^ 64 - 2 ^ 63

/-- `t.Sub(u)` of instants in nanoseconds saturates. -/
def sub (t u : Int) : Int :=
  if t - u < minDuration then minDuration else if maxDuration < t - u then maxDuration else t - u

/-- `Duration.Seconds`, as an exact number. -/
def seconds (d : Int) : Rat := d / 1000000000

def minute : Int := 60 * 1000000000

/-! ### `time.Parse` -/

/-- The fields that `Parse` collects. -/
structure Date where
  year : Nat
  month : Nat
  day : Nat
  hour : Nat
  min : Nat
  sec : Nat
  nsec : Nat

/-- Days before a year, counted from year 1; year 0 is a leap year. -/
def daysBeforeYear (year : Int) : Int :=
  365 * (year - 1) + (year - 1) / 4 - (year - 1) / 100 + (year - 1) / 400

/-- The instant of `Date(year, month, day, hour, min, sec, nsec, UTC)`. -/
def Date.unixNano (d : Date) : Int :=
  ((daysBeforeYear d.year + daysBeforeMonth d.year d.month + d.day - 719163) * 86400 +
    (d.hour * 3600 + d.min * 60 + d.sec : Nat)) * 1000000000 + d.nsec

/-- What a layout is made of. -/
inductive Chunk where
  | literal (c : Cp)
  | longYear
  | zeroMonth
  | zeroDay
  | hour
  | zeroMinute
  | zeroSecond

/-- `getnum`: two digits or, unless `fixed`, one. -/
def getnum (s : PyStr) (fixed : Bool) : Option (Nat × PyStr) :=
  match s with
  | [] => none
  | a :: s1 =>
    if isAsciiDigit a then
      if s1.head?.any isAsciiDigit then some (decimalNat (a :: s1.take 1), s1.drop 1)
      else if fixed then none
      else some (decimalNat [a], s1)
    else none

/-- `parseNanoseconds` of the digits behind the point. -/
def parseNanoseconds (digits : PyStr) : Nat :=
  decimalNat (digits.take 9) * 10 ^ (9 - (digits.take 9).length)

/-- The fractional second that `Parse` accepts behind the seconds though the layout has none. -/
def fraction (s : PyStr) : Nat × PyStr :=
  match s with
  | [] => (0, s)
  | c :: s1 =>
    if (c = chr '.' ∨ c = chr ',') ∧ s1.head?.any isAsciiDigit = true then
      (parseNanoseconds (spanDigits s1).1, (spanDigits s1).2)
    else (0, s)

/-- One part of the layout: the fields, and what is left of the value. -/
def Chunk.read (chunk : Chunk) (d : Date) (value : PyStr) : Option (Date × PyStr) :=
  match chunk with
  | .literal c => if value.head? = some c then some (d, value.drop 1) else none
  | .longYear =>
    if 4 ≤ value.length ∧ (value.take 4).all isAsciiDigit = true then
      some ({ d with year := decimalNat (value.take 4) }, value.drop 4)
    else none
  | .zeroMonth => do
    let (n, value) ← getnum value true
    if 1 ≤ n ∧ n ≤ 12 then some ({ d with month := n }, value) else none
  | .zeroDay => do
    let (n, value) ← getnum value true
    some ({ d with day := n }, value)
  | .hour => do
    let (n, value) ← getnum value false
    if n < 24 then some ({ d with hour := n }, value) else none
  | .zeroMinute => do
    let (n, value) ← getnum value true
    if n < 60 then some ({ d with min := n }, value) else none
  | .zeroSecond => do
    let (n, value) ← getnum value true
    if n < 60 then some ({ d with sec := n, nsec := (fraction value).1 }, (fraction value).2) else none

def readChunks : List Chunk → Date → PyStr → Option (Date × PyStr)
  | [], d, value => some (d, value)
  | chunk :: layout, d, value => do
    let (d, value) ← chunk.read d value
    readChunks layout d value

/-- `time.Parse`: the instant in nanoseconds; `none` is its error. -/
def parse (layout : List Chunk) (value : PyStr) : Option Int := do
  let (d, extra) ← readChunks layout ⟨0, 1, 1, 0, 0, 0, 0⟩ value
  if extra = [] ∧ 1 ≤ d.day ∧ d.day ≤ daysInMonth d.year d.month then some d.unixNano else none

/-- `"2006-01-02T15:04:05"` -/
def isoLayout : List Chunk :=
  [.longYear, .literal (chr '-'), .zeroMonth, .literal (chr '-'), .zeroDay, .literal (chr 'T'), .hour,
    .literal (chr ':'), .zeroMinute, .literal (chr ':'), .zeroSecond]

/-! ### The text of `isoformat` -/

theorem decimal_two (n : Nat) : decimal 2 n = [decimalDigit (n / 10), decimalDigit n] := by
  rw [decimal_succ, decimal_succ]
  rfl

theorem getnum_decimal {n : Nat} (h : n < 100) (rest : PyStr) (fixed : Bool) :
    getnum (decimal 2 n ++ rest) fixed = some (n, rest) := by
  have hread := decimalNat_decimal (show n < 10 ^ 2 from h)
  rw [decimal_two] at hread ⊢
  simp [getnum, isAsciiDigit_decimalDigit, hread]

theorem all_isAsciiDigit_decimal (width n : Nat) : (decimal width n).all isAsciiDigit = true := by
  apply List.all_eq_true.mpr
  intro c hc
  obtain ⟨i, -, rfl⟩ := List.mem_map.mp hc
  exact isAsciiDigit_decimalDigit _

theorem length_decimal (width n : Nat) : (decimal width n).length = width := by
  rw [decimal, List.length_map, List.length_reverse, List.length_range]

theorem read_longYear {n : Nat} (h : n < 10000) (d : Date) (rest : PyStr) :
    Chunk.longYear.read d (decimal 4 n ++ rest) = some ({ d with year := n }, rest) := by
  have hlength := length_decimal 4 n
  have htake : (decimal 4 n ++ rest).take 4 = decimal 4 n := by
    rw [← hlength, List.take_left']
    rfl
  have hdrop : (decimal 4 n ++ rest).drop 4 = rest := by
    rw [← hlength, List.drop_left']
    rfl
  have hlong : 4 ≤ (decimal 4 n ++ rest).length := by
    rw [List.length_append]
    omega
  rw [Chunk.read, htake, hdrop, if_pos ⟨hlong, all_isAsciiDigit_decimal 4 n⟩,
    decimalNat_decimal (show n < 10 ^ 4 from h)]

theorem read_literal (c : Cp) (d : Date) (rest : PyStr) :
    (Chunk.literal c).read d (c :: rest) = some (d, rest) := by
  simp [Chunk.read]

/-- The fraction that `isoformat` writes unless it is zero. -/
theorem fraction_isoformat {micros : Nat} (h : micros < 1000000) :
    fraction (if micros = 0 then [] else chr '.' :: decimal 6 micros) = (micros * 1000, []) := by
  by_cases hzero : micros = 0
  · rw [if_pos hzero, hzero]
    rfl
  · have hall := all_isAsciiDigit_decimal 6 micros
    have hlength := length_decimal 6 micros
    have hdigits : spanDigits (decimal 6 micros) = (decimal 6 micros, []) := by
      rw [List.all_eq_true] at hall
      rw [spanDigits, List.takeWhile_eq_self_iff.mpr hall, List.dropWhile_eq_nil_iff.mpr hall]
    have hhead : (decimal 6 micros).head?.any isAsciiDigit = true := by
      cases hd : decimal 6 micros with
      | nil => simp [hd] at hlength
      | cons c rest =>
        rw [hd, List.all_cons, Bool.and_eq_true] at hall
        exact hall.1
    have hnanos : parseNanoseconds (decimal 6 micros) = micros * 1000 := by
      have htake : (decimal 6 micros).take 9 = decimal 6 micros :=
        List.take_of_length_le (by omega)
      rw [parseNanoseconds, htake, hlength, decimalNat_decimal (show micros < 10 ^ 6 from h)]
      rfl
    rw [if_neg hzero, fraction, if_pos ⟨.inl rfl, hhead⟩, hdigits, hnanos]

theorem readChunks_isoLayout (c : Clock) (d : Date) :
    readChunks isoLayout d c.isoformat =
      some (⟨c.moment.year, c.moment.month, c.moment.day, c.moment.hour, c.moment.minute,
        c.moment.second, c.micros * 1000⟩, []) := by
  obtain ⟨hyear, hmonth, -, hhour, hminute, hsecond⟩ := c.moment.ranges
  have hday : c.moment.day < 100 := c.moment.day_le.trans_lt (by decide)
  simp only [Clock.isoformat, DateTime.isoformat, List.append_assoc, List.cons_append, isoLayout,
    readChunks, read_longYear (show c.moment.year < 10000 by omega), read_literal,
    Option.bind_eq_bind, Option.bind_some]
  simp [Chunk.read, getnum_decimal, fraction_isoformat c.micros_lt, hday, hhour, hminute, hsecond, hmonth,
    show c.moment.month < 100 by omega, show c.moment.hour < 100 by omega,
    show c.moment.minute < 100 by omega, show c.moment.second < 100 by omega]

theorem daysBeforeYear_eq {year : Nat} (h : 1 ≤ year) :
    daysBeforeYear year = (Python.daysBeforeYear year : Nat) := by
  rw [daysBeforeYear, Python.daysBeforeYear]
  omega

/-- `Parse` reads back what `isoformat` writes. -/
theorem parse_isoformat (c : Clock) : parse isoLayout c.isoformat = some (c.epochMicros * 1000) := by
  have hvalid : 1 ≤ c.moment.day ∧ c.moment.day ≤ daysInMonth c.moment.year c.moment.month :=
    c.moment.day_range
  have hyear := daysBeforeYear_eq c.moment.year_range.1
  simp only [parse, readChunks_isoLayout, Option.bind_eq_bind, Option.bind_some, true_and, if_pos hvalid,
    Date.unixNano, hyear, Option.some_inj, Clock.epochMicros, DateTime.epochSeconds, DateTime.toordinal]
  push_cast
  ring

end Clickstream.Go
