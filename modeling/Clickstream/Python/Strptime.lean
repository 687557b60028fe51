import Clickstream.Kit.Regex
import Clickstream.Python.Text

/-! `datetime.strptime` of Python's standard library for formats of numeric directives: the format
becomes a pattern that ignores case, the pattern must match the whole text, and the numbers found
must name a moment of the calendar. -/

namespace Clickstream.Python

open Kit Kit.Regex

/-! ### The calendar -/

def isLeap (year : Nat) : Bool := year % 4 == 0 && (year % 100 != 0 || year % 400 == 0)

def daysInMonth (year month : Nat) : Nat :=
  if month = 2 then if isLeap year then 29 else 28
  else if month = 4 ∨ month = 6 ∨ month = 9 ∨ month = 11 then 30
  else 31

theorem daysInMonth_le (year month : Nat) : daysInMonth year month ≤ 31 := by
  unfold daysInMonth
  split_ifs <;> omega

/-- A `datetime` without fraction and time zone; its fields name an existing moment. -/
structure DateTime where
  year : Nat
  month : Nat
  day : Nat
  hour : Nat
  minute : Nat
  second : Nat
  year_range : 1 ≤ year ∧ year ≤ 9999
  month_range : 1 ≤ month ∧ month ≤ 12
  day_range : 1 ≤ day ∧ day ≤ daysInMonth year month
  hour_lt : hour < 24
  minute_lt : minute < 60
  second_lt : second < 60
  deriving DecidableEq

theorem DateTime.day_le (t : DateTime) : t.day ≤ 31 :=
  t.day_range.2.trans (daysInMonth_le t.year t.month)

theorem DateTime.ranges (t : DateTime) : (1 ≤ t.year ∧ t.year ≤ 9999) ∧ (1 ≤ t.month ∧ t.month ≤ 12) ∧
    (1 ≤ t.day ∧ t.day ≤ daysInMonth t.year t.month) ∧ t.hour < 24 ∧ t.minute < 60 ∧ t.second < 60 :=
  ⟨t.year_range, t.month_range, t.day_range, t.hour_lt, t.minute_lt, t.second_lt⟩

/-- The constructor of `datetime`; `none` is its `ValueError` on a field out of range. -/
def DateTime.make (year month day hour minute second : Nat) : Option DateTime :=
  if h : (1 ≤ year ∧ year ≤ 9999) ∧ (1 ≤ month ∧ month ≤ 12) ∧
      (1 ≤ day ∧ day ≤ daysInMonth year month) ∧ hour < 24 ∧ minute < 60 ∧ second < 60 then
    some ⟨year, month, day, hour, minute, second, h.1, h.2.1, h.2.2.1, h.2.2.2.1, h.2.2.2.2.1,
      h.2.2.2.2.2⟩
  else none

def daysBeforeYear (year : Nat) : Nat :=
  365 * (year - 1) + (year - 1) / 4 - (year - 1) / 100 + (year - 1) / 400

def daysBeforeMonth (year month : Nat) : Nat :=
  ((List.range (month - 1)).map fun m => daysInMonth year (m + 1)).sum

/-- `datetime.toordinal`: the first day of year 1 is day 1. -/
def DateTime.toordinal (t : DateTime) : Nat :=
  daysBeforeYear t.year + daysBeforeMonth t.year t.month + t.day

/-- Seconds from the start of 1970 in UTC. -/
def DateTime.epochSeconds (t : DateTime) : Int :=
  ((t.toordinal : Int) - 719163) * 86400 + (t.hour * 3600 + t.minute * 60 + t.second : Nat)

/-! ### The pattern of a format -/

def between (a b : Char) : Regex Cp Cp :=
  .one fun c => decide (a.toNat ≤ c.val ∧ c.val ≤ b.toNat)

def digit : Regex Cp Cp := .one isDecimal

/-- A character of the format or, for an upper-case ASCII letter, its lower case. -/
def sameLetter (c d : Cp) : Bool :=
  decide (d = c ∨ 0x41 ≤ c.val ∧ c.val ≤ 0x5A ∧ d.val = c.val + 0x20)

def ignoreCase (c : Cp) : Regex Cp Cp := .one (sameLetter c)

/-- What a directive matches, as a group under the name of the directive. -/
def directive (name : Cp) : Regex Cp Cp :=
  if name = chr 'Y' then .group name (seqs [digit, digit, digit, digit])
  else if name = chr 'm' then
    .group name (.alt (.seq (between '1' '1') (between '0' '2'))
      (.alt (.seq (between '0' '0') (between '1' '9')) (between '1' '9')))
  else if name = chr 'd' then
    .group name (.alt (.seq (between '3' '3') (between '0' '1'))
      (.alt (.seq (between '1' '2') digit)
        (.alt (.seq (between '0' '0') (between '1' '9'))
          (.alt (between '1' '9') (.seq (between ' ' ' ') (between '1' '9'))))))
  else if name = chr 'H' then
    .group name (.alt (.seq (between '2' '2') (between '0' '3'))
      (.alt (.seq (between '0' '1') digit) digit))
  else if name = chr 'M' then
    .group name (.alt (.seq (between '0' '5') digit) digit)
  else if name = chr 'S' then
    .group name (.alt (.seq (between '6' '6') (between '0' '1'))
      (.alt (.seq (between '0' '5') digit) digit))
  else .look fun _ _ => false

def compile : PyStr → Regex Cp Cp
  | [] => .empty
  | [c] => .seq (ignoreCase c) .empty
  | c :: d :: s =>
    if c = chr '%' then .seq (directive d) (compile s) else .seq (ignoreCase c) (compile (d :: s))

/-- The number that a directive matched, or the default of `strptime`. -/
def found (c : Cursor Cp Cp) (name : Char) (default : Nat) : Nat :=
  match c.groups.lookup (chr name) with
  | some text => decimalNat text
  | none => default

/-- `datetime.strptime`; `none` is its `ValueError`. -/
def strptime (text format : PyStr) : Option DateTime :=
  match matchStart (compile format) text with
  | none => none
  | some c =>
    if c.ahead = [] then
      DateTime.make (found c 'Y' 1900) (found c 'm' 1) (found c 'd' 1) (found c 'H' 0)
        (found c 'M' 0) (found c 'S' 0)
    else none

/-! ### Zero-padded texts -/

def fits : List (Cp → Bool) → PyStr → Bool
  | [], s => s.isEmpty
  | _ :: _, [] => false
  | p :: ps, c :: s => p c && fits ps s

theorem fits_cons {p : Cp → Bool} {ps : List (Cp → Bool)} {s : PyStr} :
    fits (p :: ps) s = true ↔ ∃ c rest, s = c :: rest ∧ p c = true ∧ fits ps rest = true := by
  cases s with
  | nil => simp [fits]
  | cons c rest => simp [fits]

theorem fits_append {ps qs : List (Cp → Bool)} {s t : PyStr} (hs : fits ps s = true)
    (ht : fits qs t = true) : fits (ps ++ qs) (s ++ t) = true := by
  induction ps generalizing s with
  | nil =>
    obtain rfl : s = [] := by simpa [fits] using hs
    exact ht
  | cons p ps ih =>
    obtain ⟨c, rest, rfl, hc, hrest⟩ := fits_cons.mp hs
    exact fits_cons.mpr ⟨c, rest ++ t, rfl, hc, ih hrest⟩

theorem fits_replicate {p : Cp → Bool} {s : PyStr} (h : ∀ x ∈ s, p x = true) :
    fits (List.replicate s.length p) s = true := by
  induction s with
  | nil => rfl
  | cons x s ih =>
    rw [List.forall_mem_cons] at h
    exact fits_cons.mpr ⟨x, s, rfl, h.1, ih h.2⟩

theorem length_of_fits {ps : List (Cp → Bool)} {s : PyStr} (h : fits ps s = true) :
    s.length = ps.length := by
  induction ps generalizing s with
  | nil =>
    obtain rfl : s = [] := by simpa [fits] using h
    rfl
  | cons p ps ih =>
    obtain ⟨c, rest, rfl, -, hrest⟩ := fits_cons.mp h
    rw [List.length_cons, List.length_cons, ih hrest]

theorem forall_of_fits {ps : List (Cp → Bool)} {q : Cp → Prop} {s : PyStr}
    (hq : ∀ p ∈ ps, ∀ x, p x = true → q x) (h : fits ps s = true) : ∀ x ∈ s, q x := by
  induction ps generalizing s with
  | nil =>
    obtain rfl : s = [] := by simpa [fits] using h
    exact List.forall_mem_nil q
  | cons p ps ih =>
    obtain ⟨c, rest, rfl, hc, hrest⟩ := fits_cons.mp h
    rw [List.forall_mem_cons] at hq
    exact List.forall_mem_cons.mpr ⟨hq.1 c hc, ih hq.2 hrest⟩

theorem fits_mono {ps qs : List (Cp → Bool)} {s : PyStr}
    (hpq : List.Forall₂ (fun p q => ∀ x, p x = true → q x = true) ps qs) (h : fits ps s = true) :
    fits qs s = true := by
  induction hpq generalizing s with
  | nil => exact h
  | cons hp _ ih =>
    obtain ⟨c, rest, rfl, hc, hrest⟩ := fits_cons.mp h
    exact fits_cons.mpr ⟨c, rest, rfl, hp c hc, ih hrest⟩

def digitValue (c : Cp) : Nat := c.val - 0x30

def pair (x y : Cp) : Nat := 10 * digitValue x + digitValue y

theorem decimalValue_of_isAsciiDigit {c : Cp} (h : isAsciiDigit c = true) :
    decimalValue c = some (digitValue c) := by
  have hc : 0x30 ≤ c.val ∧ c.val ≤ 0x39 := by simpa [isAsciiDigit] using h
  rw [decimalValue, decimalZeros, List.find?_cons_of_pos (by simp; omega)]
  rfl

theorem isDecimal_of_isAsciiDigit {c : Cp} (h : isAsciiDigit c = true) : isDecimal c = true := by
  rw [isDecimal, decimalValue_of_isAsciiDigit h]
  rfl

theorem decimalNat_pair {x y : Cp} (hx : isAsciiDigit x = true) (hy : isAsciiDigit y = true) :
    decimalNat [x, y] = pair x y := by
  simp [decimalNat, decimalValue_of_isAsciiDigit hx, decimalValue_of_isAsciiDigit hy, pair]

/-- The two-digit values that a directive matches. -/
def admits (name : Char) (n : Nat) : Bool :=
  match name with
  | 'm' => decide (1 ≤ n ∧ n ≤ 12)
  | 'd' => decide (1 ≤ n ∧ n ≤ 31)
  | 'H' => decide (n < 24)
  | 'M' => decide (n < 60)
  | 'S' => decide (n < 62)
  | _ => false

/-- On two ASCII digits and a separator, a directive takes both digits when it admits their value,
and does not match else: of one digit alone, the other is no separator. -/
theorem run_directive_pair {name : Char} (hname : name ∈ ['m', 'd', 'H', 'M', 'S']) {x y c : Cp}
    {sep : Cp → Bool} (hx : isAsciiDigit x = true) (hy : isAsciiDigit y = true)
    (hsep : sep y = false) (hc : sep c = true) (k : Regex Cp Cp) (behind rest : PyStr)
    (groups : List (Cp × PyStr)) :
    run (.seq (directive (chr name)) (.seq (.one sep) k)) ⟨behind, x :: y :: c :: rest, groups⟩ =
      if admits name (pair x y) then
        run k ⟨c :: y :: x :: behind, rest, (chr name, [x, y]) :: groups⟩
      else [] := by
  have hx' : 0x30 ≤ x.val ∧ x.val ≤ 0x39 := by simpa [isAsciiDigit] using hx
  have hy' : 0x30 ≤ y.val ∧ y.val ≤ 0x39 := by simpa [isAsciiDigit] using hy
  have hdx := isDecimal_of_isAsciiDigit hx
  have hdy := isDecimal_of_isAsciiDigit hy
  have htake : (x :: y :: c :: rest).take
      ((x :: y :: c :: rest).length - (c :: rest).length) = [x, y] := by
    simp
  have hpair : pair x y = 10 * (x.val - 0x30) + (y.val - 0x30) := rfl
  simp only [List.mem_cons, List.not_mem_nil, or_false] at hname
  rcases hname with rfl | rfl | rfl | rfl | rfl <;>
    simp +decide only [directive, ↓reduceIte, run_seq, flatMap_run_group, flatMap_run_alt,
      between, flatMap_run_one, flatMap_guard, digit, admits, hdx, hdy, hsep, hc,
      Bool.false_eq_true, ite_self, htake, List.append_nil, List.nil_append, Char.reduceToNat,
      decide_eq_true_eq]
  all_goals split_ifs <;> first | omega | simp

theorem run_directive_year {a b c d : Cp} (ha : isAsciiDigit a = true)
    (hb : isAsciiDigit b = true) (hc : isAsciiDigit c = true) (hd : isAsciiDigit d = true)
    (k : Regex Cp Cp) (behind rest : PyStr) (groups : List (Cp × PyStr)) :
    run (.seq (directive (chr 'Y')) k) ⟨behind, a :: b :: c :: d :: rest, groups⟩ =
      run k ⟨d :: c :: b :: a :: behind, rest, (chr 'Y', [a, b, c, d]) :: groups⟩ := by
  have htake : (a :: b :: c :: d :: rest).take
      ((a :: b :: c :: d :: rest).length - rest.length) = [a, b, c, d] := by
    rw [show (a :: b :: c :: d :: rest).length - rest.length = 4 by simp; omega]
    rfl
  simp only [directive, ↓reduceIte, run_seq, flatMap_run_group, run_seqs_cons, run_seqs_nil, digit,
    isDecimal_of_isAsciiDigit, ha, hb, hc, hd, List.flatMap_cons, List.flatMap_nil,
    List.append_nil, run_one_cons, htake]

/-- The layout `YYYY-MM-DDTHH:MM:SSZ` in ASCII digits, with the letters in either case. -/
def paddedClasses : List (Cp → Bool) :=
  let d := isAsciiDigit
  let is (c : Char) : Cp → Bool := fun x => decide (x = chr c)
  let either (c e : Char) : Cp → Bool := fun x => decide (x = chr c ∨ x = chr e)
  [d, d, d, d, is '-', d, d, is '-', d, d, either 'T' 't', d, d, is ':', d, d, is ':', d, d,
    either 'Z' 'z']

/-- Every field of the timestamp is zero-padded to its full width in ASCII digits. -/
def Padded (s : PyStr) : Prop := fits paddedClasses s = true

instance (s : PyStr) : Decidable (Padded s) := inferInstanceAs (Decidable (_ = true))

def fieldAt (s : PyStr) (i n : Nat) : Nat := decimalNat ((s.drop i).take n)

/-- The moment that the fields of a padded timestamp name, if there is one. -/
def paddedDateTime (s : PyStr) : Option DateTime :=
  DateTime.make (fieldAt s 0 4) (fieldAt s 5 2) (fieldAt s 8 2) (fieldAt s 11 2) (fieldAt s 14 2)
    (fieldAt s 17 2)

def isoFormat : PyStr := lit "%Y-%m-%dT%H:%M:%SZ"

theorem compile_isoFormat :
    compile isoFormat = .seq (directive (chr 'Y')) (.seq (ignoreCase (chr '-'))
      (.seq (directive (chr 'm')) (.seq (ignoreCase (chr '-'))
      (.seq (directive (chr 'd')) (.seq (ignoreCase (chr 'T'))
      (.seq (directive (chr 'H')) (.seq (ignoreCase (chr ':'))
      (.seq (directive (chr 'M')) (.seq (ignoreCase (chr ':'))
      (.seq (directive (chr 'S')) (.seq (ignoreCase (chr 'Z')) .empty))))))))))) := rfl

theorem sameLetter_of_isAsciiDigit {c : Char} (hc : c ∈ ['-', 'T', ':', 'Z']) {x : Cp}
    (hx : isAsciiDigit x = true) : sameLetter (chr c) x = false := by
  rw [sameLetter, decide_eq_false_iff_not]
  rw [isAsciiDigit, decide_eq_true_iff] at hx
  rintro (rfl | h)
  · simp only [List.mem_cons, List.not_mem_nil, or_false] at hc
    rcases hc with rfl | rfl | rfl | rfl <;> revert hx <;> decide
  · omega

theorem sameLetter_of_either {c e : Char} (hce : sameLetter (chr c) (chr e) = true) {x : Cp}
    (hx : x = chr c ∨ x = chr e) : sameLetter (chr c) x = true := by
  rcases hx with rfl | rfl
  · simp [sameLetter]
  · exact hce

theorem admits_of_make {year month day hour minute second : Nat} {t : DateTime}
    (h : DateTime.make year month day hour minute second = some t) :
    admits 'm' month = true ∧ admits 'd' day = true ∧ admits 'H' hour = true ∧
      admits 'M' minute = true ∧ admits 'S' second = true := by
  rw [DateTime.make] at h
  split at h
  · rename_i hfields
    have hdays := daysInMonth_le year month
    simp only [admits, decide_eq_true_eq]
    omega
  · cases h

/-- On a padded timestamp `strptime` reads exactly the fields, and fails when they name no
moment. -/
theorem strptime_padded {s : PyStr} (h : Padded s) : strptime s isoFormat = paddedDateTime s := by
  simp only [Padded, paddedClasses, fits_cons, decide_eq_true_eq] at h
  obtain ⟨y1, _, rfl, hy1, y2, _, rfl, hy2, y3, _, rfl, hy3, y4, _, rfl, hy4, a, _, rfl, rfl,
    m1, _, rfl, hm1, m2, _, rfl, hm2, b, _, rfl, rfl, d1, _, rfl, hd1, d2, _, rfl, hd2,
    t, _, rfl, ht, h1, _, rfl, hh1, h2, _, rfl, hh2, e, _, rfl, rfl, n1, _, rfl, hn1,
    n2, _, rfl, hn2, f, _, rfl, rfl, s1, _, rfl, hs1, s2, _, rfl, hs2, z, rest, rfl, hz, hrest⟩ := h
  obtain rfl : rest = [] := by simpa [fits] using hrest
  have hT := sameLetter_of_either (c := 'T') (e := 't') (by decide) ht
  have hZ := sameLetter_of_either (c := 'Z') (e := 'z') (by decide) hz
  -- the run on the padded text, one directive and separator after the other
  have hrun : matchStart (compile isoFormat) [y1, y2, y3, y4, chr '-', m1, m2, chr '-', d1, d2, t,
      h1, h2, chr ':', n1, n2, chr ':', s1, s2, z] =
      if admits 'm' (pair m1 m2) ∧ admits 'd' (pair d1 d2) ∧ admits 'H' (pair h1 h2) ∧
          admits 'M' (pair n1 n2) ∧ admits 'S' (pair s1 s2) then
        some ⟨[z, s2, s1, chr ':', n2, n1, chr ':', h2, h1, t, d2, d1, chr '-', m2, m1, chr '-', y4,
          y3, y2, y1], [], [(chr 'S', [s1, s2]), (chr 'M', [n1, n2]), (chr 'H', [h1, h2]),
          (chr 'd', [d1, d2]), (chr 'm', [m1, m2]), (chr 'Y', [y1, y2, y3, y4])]⟩
      else none := by
    simp only [matchStart, compile_isoFormat, ignoreCase]
    rw [run_directive_year hy1 hy2 hy3 hy4, run_seq, flatMap_run_one, if_pos (by decide),
      run_directive_pair (by decide) hm1 hm2 (sameLetter_of_isAsciiDigit (by decide) hm2) (by decide),
      run_directive_pair (by decide) hd1 hd2 (sameLetter_of_isAsciiDigit (by decide) hd2) hT,
      run_directive_pair (by decide) hh1 hh2 (sameLetter_of_isAsciiDigit (by decide) hh2) (by decide),
      run_directive_pair (by decide) hn1 hn2 (sameLetter_of_isAsciiDigit (by decide) hn2) (by decide),
      run_directive_pair (by decide) hs1 hs2 (sameLetter_of_isAsciiDigit (by decide) hs2) hZ,
      run_empty]
    split_ifs <;> simp_all
  have hfields : paddedDateTime [y1, y2, y3, y4, chr '-', m1, m2, chr '-', d1, d2, t, h1, h2,
      chr ':', n1, n2, chr ':', s1, s2, z] = DateTime.make (decimalNat [y1, y2, y3, y4])
        (pair m1 m2) (pair d1 d2) (pair h1 h2) (pair n1 n2) (pair s1 s2) := by
    rw [← decimalNat_pair hm1 hm2, ← decimalNat_pair hd1 hd2, ← decimalNat_pair hh1 hh2,
      ← decimalNat_pair hn1 hn2, ← decimalNat_pair hs1 hs2]
    rfl
  rw [strptime, hrun, hfields]
  by_cases hadmits : admits 'm' (pair m1 m2) ∧ admits 'd' (pair d1 d2) ∧ admits 'H' (pair h1 h2) ∧
      admits 'M' (pair n1 n2) ∧ admits 'S' (pair s1 s2)
  · rw [if_pos hadmits, ← decimalNat_pair hm1 hm2, ← decimalNat_pair hd1 hd2,
      ← decimalNat_pair hh1 hh2, ← decimalNat_pair hn1 hn2, ← decimalNat_pair hs1 hs2]
    rfl
  · rw [if_neg hadmits]
    cases hmake : DateTime.make (decimalNat [y1, y2, y3, y4]) (pair m1 m2) (pair d1 d2)
      (pair h1 h2) (pair n1 n2) (pair s1 s2) with
    | none => rfl
    | some moment => exact absurd (admits_of_make hmake) hadmits

/-! ### What the directives take -/

/-- The characters that the directives match. -/
def isFieldChar (x : Cp) : Bool := isDecimal x || decide (x = chr ' ')

theorem isFieldChar_of_digit (x : Cp) (h : isDecimal x = true) : isFieldChar x = true := by
  rw [isFieldChar, h, Bool.true_or]

theorem isFieldChar_between {a b : Char} (ha : 0x30 ≤ a.toNat) (hb : b.toNat ≤ 0x39) (x : Cp)
    (h : decide (a.toNat ≤ x.val ∧ x.val ≤ b.toNat) = true) : isFieldChar x = true := by
  have hx := of_decide_eq_true h
  apply isFieldChar_of_digit
  apply isDecimal_of_isAsciiDigit
  rw [isAsciiDigit, decide_eq_true_iff]
  omega

theorem isFieldChar_space (x : Cp) (h : decide (' '.toNat ≤ x.val ∧ x.val ≤ ' '.toNat) = true) :
    isFieldChar x = true := by
  have hx : x = chr ' ' := Fin.ext (Nat.le_antisymm (of_decide_eq_true h).2 (of_decide_eq_true h).1)
  rw [hx]
  decide

theorem within_directive {name : Char} (hname : name ∈ ['m', 'd', 'H', 'M', 'S']) :
    Within isFieldChar 2 (directive (chr name)) := by
  have hdigit := isFieldChar_of_digit
  have h00 := @isFieldChar_between '0' '0' (by decide) (by decide)
  have h01 := @isFieldChar_between '0' '1' (by decide) (by decide)
  have h02 := @isFieldChar_between '0' '2' (by decide) (by decide)
  have h03 := @isFieldChar_between '0' '3' (by decide) (by decide)
  have h05 := @isFieldChar_between '0' '5' (by decide) (by decide)
  have h11 := @isFieldChar_between '1' '1' (by decide) (by decide)
  have h12 := @isFieldChar_between '1' '2' (by decide) (by decide)
  have h19 := @isFieldChar_between '1' '9' (by decide) (by decide)
  have h22 := @isFieldChar_between '2' '2' (by decide) (by decide)
  have h33 := @isFieldChar_between '3' '3' (by decide) (by decide)
  have h66 := @isFieldChar_between '6' '6' (by decide) (by decide)
  simp only [List.mem_cons, List.not_mem_nil, or_false] at hname
  rcases hname with rfl | rfl | rfl | rfl | rfl
  · exact .alt (.cons h11 (.one h02)) (.alt (.cons h00 (.one h19)) (.one h19))
  · exact .alt (.cons h33 (.one h01)) (.alt (.cons h12 (.one hdigit))
      (.alt (.cons h00 (.one h19)) (.alt (.one h19) (.cons isFieldChar_space (.one h19)))))
  · exact .alt (.cons h22 (.one h03)) (.alt (.cons h01 (.one hdigit)) (.one hdigit))
  · exact .alt (.cons h05 (.one hdigit)) (.one hdigit)
  · exact .alt (.cons h66 (.one h01)) (.alt (.cons h05 (.one hdigit)) (.one hdigit))

theorem within_year : Within isFieldChar 4 (directive (chr 'Y')) :=
  .cons isFieldChar_of_digit (.cons isFieldChar_of_digit (.cons isFieldChar_of_digit
    (.cons isFieldChar_of_digit .empty)))

end Clickstream.Python
