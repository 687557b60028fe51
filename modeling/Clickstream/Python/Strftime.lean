import Clickstream.Python.Strptime

/-! `datetime.strftime` of Python's standard library for formats of numeric directives, which
`strptime` reads back, and the clock that `timedelta` moves on. -/

namespace Clickstream.Python

/-- The last `width` decimal digits of `n`: `format(n, "04d")` and the like, for numbers that are not
longer. -/
def decimal (width n : Nat) : PyStr :=
  (List.range width).reverse.map fun i => decimalDigit (n / 10 ^ i)

/-- What a directive writes. Platforms differ on `%Y` of a year before 1000; here it has four digits. -/
def fieldText (t : DateTime) (name : Cp) : PyStr :=
  if name = chr 'Y' then decimal 4 t.year
  else if name = chr 'm' then decimal 2 t.month
  else if name = chr 'd' then decimal 2 t.day
  else if name = chr 'H' then decimal 2 t.hour
  else if name = chr 'M' then decimal 2 t.minute
  else if name = chr 'S' then decimal 2 t.second
  else [chr '%', name]

def strftime (t : DateTime) : PyStr → PyStr
  | [] => []
  | [c] => [c]
  | c :: d :: s =>
    if c = chr '%' then fieldText t d ++ strftime t s else c :: strftime t (d :: s)

theorem DateTime.make_fields (t : DateTime) :
    DateTime.make t.year t.month t.day t.hour t.minute t.second = some t :=
  dif_pos t.ranges

theorem decimalValue_decimalDigit (n : Nat) : decimalValue (decimalDigit n) = some (n % 10) := by
  rw [decimalValue_of_isAsciiDigit (isAsciiDigit_decimalDigit n)]
  show some (0x30 + n % 10 - 0x30) = some (n % 10)
  rw [Nat.add_sub_cancel_left]

theorem decimalNat_append_digit (s : PyStr) (n : Nat) :
    decimalNat (s ++ [decimalDigit n]) = 10 * decimalNat s + n % 10 := by
  rw [decimalNat, List.foldl_append, List.foldl_cons, List.foldl_nil, decimalValue_decimalDigit]
  rfl

theorem decimal_succ (width n : Nat) :
    decimal (width + 1) n = decimal width (n / 10) ++ [decimalDigit n] := by
  have hshift : (List.range (width + 1)).reverse =
      (List.range width).reverse.map Nat.succ ++ [0] := by
    rw [List.range_succ_eq_map, List.reverse_cons, List.map_reverse]
  rw [decimal, hshift, List.map_append, List.map_map, List.map_singleton, Nat.pow_zero, Nat.div_one]
  congr 1
  apply List.map_congr_left
  intro i _
  rw [Function.comp_apply, Nat.div_div_eq_div_mul, Nat.pow_succ']

/-- A number that is not longer than its field is read back. -/
theorem decimalNat_decimal {width n : Nat} (h : n < 10 ^ width) : decimalNat (decimal width n) = n := by
  induction width generalizing n with
  | zero =>
    have hn : n = 0 := by simpa using h
    rw [hn]
    rfl
  | succ width ih =>
    have hlt : n / 10 < 10 ^ width := by
      rw [Nat.pow_succ] at h
      omega
    rw [decimal_succ, decimalNat_append_digit, ih hlt]
    omega

theorem strftime_isoFormat (t : DateTime) :
    strftime t isoFormat = decimal 4 t.year ++ chr '-' :: decimal 2 t.month ++
      chr '-' :: decimal 2 t.day ++ chr 'T' :: decimal 2 t.hour ++
      chr ':' :: decimal 2 t.minute ++ chr ':' :: decimal 2 t.second ++ [chr 'Z'] := rfl

theorem padded_strftime (t : DateTime) : Padded (strftime t isoFormat) := by
  rw [Padded, strftime_isoFormat]
  simp [decimal, List.range_succ, paddedClasses, fits, isAsciiDigit_decimalDigit]

theorem paddedDateTime_strftime (t : DateTime) : paddedDateTime (strftime t isoFormat) = some t := by
  have hyear : decimalNat (decimal 4 t.year) = t.year :=
    decimalNat_decimal (by have := t.year_range; omega)
  have hmonth : decimalNat (decimal 2 t.month) = t.month :=
    decimalNat_decimal (by have := t.month_range; omega)
  have hday : decimalNat (decimal 2 t.day) = t.day :=
    decimalNat_decimal (by have := t.day_le; omega)
  have hhour : decimalNat (decimal 2 t.hour) = t.hour :=
    decimalNat_decimal (by have := t.hour_lt; omega)
  have hminute : decimalNat (decimal 2 t.minute) = t.minute :=
    decimalNat_decimal (by have := t.minute_lt; omega)
  have hsecond : decimalNat (decimal 2 t.second) = t.second :=
    decimalNat_decimal (by have := t.second_lt; omega)
  have hfields : paddedDateTime (strftime t isoFormat) =
      DateTime.make (decimalNat (decimal 4 t.year)) (decimalNat (decimal 2 t.month))
        (decimalNat (decimal 2 t.day)) (decimalNat (decimal 2 t.hour))
        (decimalNat (decimal 2 t.minute)) (decimalNat (decimal 2 t.second)) := rfl
  rw [hfields, hyear, hmonth, hday, hhour, hminute, hsecond, t.make_fields]

/-- `strptime` reads back what `strftime` writes. -/
theorem strptime_strftime (t : DateTime) : strptime (strftime t isoFormat) isoFormat = some t := by
  rw [strptime_padded (padded_strftime t), paddedDateTime_strftime]

theorem strftime_injective {t t' : DateTime}
    (h : strftime t isoFormat = strftime t' isoFormat) : t = t' := by
  have hback := congrArg paddedDateTime h
  rw [paddedDateTime_strftime, paddedDateTime_strftime] at hback
  exact Option.some.inj hback

/-- `datetime.isoformat` of a moment without microseconds and time zone. -/
def DateTime.isoformat (t : DateTime) : PyStr :=
  decimal 4 t.year ++ chr '-' :: decimal 2 t.month ++ chr '-' :: decimal 2 t.day ++
    chr 'T' :: decimal 2 t.hour ++ chr ':' :: decimal 2 t.minute ++ chr ':' :: decimal 2 t.second

/-! ### Clocks -/

/-- The moment a second later; `none` is the `OverflowError` behind year 9999. -/
def DateTime.nextSecond (t : DateTime) : Option DateTime :=
  if t.second + 1 < 60 then DateTime.make t.year t.month t.day t.hour t.minute (t.second + 1)
  else if t.minute + 1 < 60 then DateTime.make t.year t.month t.day t.hour (t.minute + 1) 0
  else if t.hour + 1 < 24 then DateTime.make t.year t.month t.day (t.hour + 1) 0 0
  else if t.day + 1 ≤ daysInMonth t.year t.month then DateTime.make t.year t.month (t.day + 1) 0 0 0
  else if t.month + 1 ≤ 12 then DateTime.make t.year (t.month + 1) 1 0 0 0
  else DateTime.make (t.year + 1) 1 1 0 0 0

/-- A `datetime` with its microseconds. -/
structure Clock where
  moment : DateTime
  micros : Nat
  micros_lt : micros < 1000000
  deriving DecidableEq

theorem Clock.zero_lt_second : 0 < 1000000 := Nat.succ_pos 999999

/-- The clock after a `timedelta` of at most a second. -/
def Clock.add (clock : Clock) (micros : Nat) (h : micros ≤ 1000000) : Option Clock :=
  if hlt : clock.micros + micros < 1000000 then some ⟨clock.moment, clock.micros + micros, hlt⟩
  else
    clock.moment.nextSecond.map fun moment =>
      ⟨moment, clock.micros + micros - 1000000, by have := clock.micros_lt; omega⟩

end Clickstream.Python
