import Mathlib.Data.List.DropRight
import Mathlib.Data.Nat.Digits.Defs

/-! Python strings: sequences of code points, surrogates included, with the parts of `str`, `repr`
and `int` that the pipeline relies on.  What depends on tables or settings of the interpreter and
is never decided here is a field of `Interpreter`. -/

namespace Clickstream.Python

/-- A Unicode code point; a Python string may hold surrogates. -/
abbrev Cp := Fin 0x110000

abbrev PyStr := List Cp

instance (c : Cp) (s : PyStr) : Decidable (c ∈ s) := inferInstance

instance (s : PyStr) (l : List PyStr) : Decidable (s ∈ l) := inferInstance

def Cp.ofChar (c : Char) : Cp :=
  ⟨c.toNat, by
    have h : c.toNat.isValidChar := c.valid
    unfold Nat.isValidChar at h
    omega⟩

/-- A string literal of the source. -/
def lit (s : String) : PyStr := s.toList.map Cp.ofChar

abbrev chr (c : Char) : Cp := Cp.ofChar c

def Cp.isSurrogate (c : Cp) : Bool := decide (0xD800 ≤ c.val ∧ c.val < 0xE000)

def Scalar (s : PyStr) : Prop := ∀ c ∈ s, c.isSurrogate = false

theorem scalar_lit (s : String) : Scalar (lit s) := by
  intro c hc
  obtain ⟨x, -, rfl⟩ := List.mem_map.mp hc
  have h : x.toNat.isValidChar := x.valid
  unfold Nat.isValidChar at h
  rw [Cp.isSurrogate, decide_eq_false_iff_not]
  show ¬(0xD800 ≤ x.toNat ∧ x.toNat < 0xE000)
  omega

/-- What the interpreter contributes: how many containers `json.loads` may nest before
`RecursionError`, the text of the `JSONDecodeError` it raises on a document, the `str` of the float
that a JSON number or constant denotes, and which characters `repr` prints as they are. -/
structure Interpreter where
  recursionLimit : Nat
  recursionLimit_pos : 0 < recursionLimit
  jsonErrorText : PyStr → PyStr
  floatText : PyStr → PyStr
  isPrintable : Cp → Bool

/-- An interpreter with the default recursion limit that prints ASCII; its texts are placeholders
for inputs on which they are not read. -/
def cpython : Interpreter where
  recursionLimit := 1000
  recursionLimit_pos := by decide
  jsonErrorText _ := []
  floatText s := s
  isPrintable _ := false

/-- The exceptions that the modelled code raises or meets. `JSONDecodeError` and `ParseError` are
subclasses of `ValueError`; `valueError` is a plain one. -/
inductive Exc where
  | jsonDecodeError (text : PyStr)
  | valueError (text : PyStr)
  | parseError (text : PyStr)
  | recursionError
  deriving DecidableEq

/-- `sys.int_info.default_max_str_digits`. -/
def maxStrDigits : Nat := 4300

/-! ### Character classes -/

/-- `str.isspace` of one character, which is also `\s` of a pattern. -/
def isSpace (c : Cp) : Bool :=
  decide (9 ≤ c.val ∧ c.val ≤ 13 ∨ 0x1C ≤ c.val ∧ c.val ≤ 0x20 ∨ c.val = 0x85 ∨ c.val = 0xA0 ∨
    c.val = 0x1680 ∨ 0x2000 ≤ c.val ∧ c.val ≤ 0x200A ∨ c.val = 0x2028 ∨ c.val = 0x2029 ∨
    c.val = 0x202F ∨ c.val = 0x205F ∨ c.val = 0x3000)

/-- The code points of the digit zero in the scripts that have decimal digits (category `Nd`);
each is followed by the digits one to nine. -/
def decimalZeros : List Nat :=
  [0x30, 0x660, 0x6f0, 0x7c0, 0x966, 0x9e6, 0xa66, 0xae6, 0xb66, 0xbe6, 0xc66, 0xce6, 0xd66, 0xde6,
    0xe50, 0xed0, 0xf20, 0x1040, 0x1090, 0x17e0, 0x1810, 0x1946, 0x19d0, 0x1a80, 0x1a90, 0x1b50,
    0x1bb0, 0x1c40, 0x1c50, 0xa620, 0xa8d0, 0xa900, 0xa9d0, 0xa9f0, 0xaa50, 0xabf0, 0xff10, 0x104a0,
    0x10d30, 0x11066, 0x110f0, 0x11136, 0x111d0, 0x112f0, 0x11450, 0x114d0, 0x11650, 0x116c0,
    0x11730, 0x118e0, 0x11950, 0x11c50, 0x11d50, 0x11da0, 0x16a60, 0x16ac0, 0x16b50, 0x1d7ce,
    0x1d7d8, 0x1d7e2, 0x1d7ec, 0x1d7f6, 0x1e140, 0x1e2f0, 0x1e950, 0x1fbf0]

def decimalValue (c : Cp) : Option Nat :=
  (decimalZeros.find? fun z => decide (z ≤ c.val ∧ c.val < z + 10)).map (c.val - ·)

/-- `\d` of a pattern. -/
def isDecimal (c : Cp) : Bool := (decimalValue c).isSome

def isAsciiDigit (c : Cp) : Bool := decide (0x30 ≤ c.val ∧ c.val ≤ 0x39)

/-- The lower case of an ASCII letter, and any other character itself. -/
def asciiLower (c : Cp) : Cp :=
  if h : 0x41 ≤ c.val ∧ c.val ≤ 0x5A then ⟨c.val + 0x20, by omega⟩ else c

def hexValue (c : Cp) : Option Nat :=
  if 0x30 ≤ c.val ∧ c.val ≤ 0x39 then some (c.val - 0x30)
  else if 0x61 ≤ c.val ∧ c.val ≤ 0x66 then some (c.val - 0x61 + 10)
  else if 0x41 ≤ c.val ∧ c.val ≤ 0x46 then some (c.val - 0x41 + 10)
  else none

/-- The value of a string of decimal digits of any script, as `int` reads it. -/
def decimalNat (s : PyStr) : Nat :=
  s.foldl (fun n c => 10 * n + (decimalValue c).getD 0) 0

/-! ### Methods of `str` -/

def startsWith (w s : PyStr) : Bool := w.isPrefixOf s

/-- `s.strip()` when `p` is `isSpace`, else `s.strip(chars)`. -/
def stripBy (p : Cp → Bool) (s : PyStr) : PyStr := (s.dropWhile p).rdropWhile p

def strip (s : PyStr) : PyStr := stripBy isSpace s

/-- `s.split()`: the words between runs of white space. -/
def split (s : PyStr) : List PyStr := (s.splitOnP isSpace).filter (· ≠ [])

/-- `s.replace(w, "")` for a nonempty `w`, with `skip` characters of a removed copy still ahead. -/
def removeFrom (w : PyStr) : Nat → PyStr → PyStr
  | _, [] => []
  | skip + 1, _ :: rest => removeFrom w skip rest
  | 0, c :: rest =>
    if w.isPrefixOf (c :: rest) then removeFrom w (w.length - 1) rest else c :: removeFrom w 0 rest

def remove (w s : PyStr) : PyStr := removeFrom w 0 s

theorem head?_dropWhile {p : Cp → Bool} (s : PyStr) : ∀ c ∈ (s.dropWhile p).head?, p c = false := by
  intro c hc
  have hne : s.dropWhile p ≠ [] := by
    intro hnil
    rw [hnil] at hc
    cases hc
  have hnot := List.head_dropWhile_not p hne
  rw [List.head?_eq_some_head hne, Option.mem_some_iff] at hc
  rwa [hc] at hnot

/-! ### Numerals and `repr` -/

def hexDigit (n : Nat) : Cp :=
  if n % 16 < 10 then ⟨0x30 + n % 16, by omega⟩ else ⟨0x61 + (n % 16 - 10), by omega⟩

/-- The last `width` hexadecimal digits of `n`, in lower case. -/
def hex (width n : Nat) : PyStr :=
  (List.range width).reverse.map fun i => hexDigit (n / 16 ^ i)

def decimalDigit (n : Nat) : Cp := ⟨0x30 + n % 10, by omega⟩

/-- `str` of an `int`. -/
def intText (n : Int) : PyStr :=
  (if n < 0 then [chr '-'] else []) ++ (Nat.digits 10 n.natAbs).reverse.map decimalDigit ++
    (if n = 0 then [chr '0'] else [])

/-- The text of the `ValueError` for an integer with too many digits. -/
def intLimitText (digits : Nat) : PyStr :=
  (lit "Exceeds the limit (4300 digits) for integer string conversion: value has ") ++
    intText digits ++ lit " digits; use sys.set_int_max_str_digits() to increase the limit"

theorem isAsciiDigit_decimalDigit (n : Nat) : isAsciiDigit (decimalDigit n) = true := by
  rw [isAsciiDigit, decide_eq_true_iff]
  show 0x30 ≤ 0x30 + n % 10 ∧ 0x30 + n % 10 ≤ 0x39
  omega

theorem intText_pos {n : Int} (h : 0 < n) :
    intText n = (Nat.digits 10 n.natAbs).reverse.map decimalDigit := by
  rw [intText, if_neg (by omega), if_neg (by omega), List.nil_append, List.append_nil]

theorem isAsciiDigit_of_mem_intText {n : Int} (h : 0 < n) {c : Cp} (hc : c ∈ intText n) :
    isAsciiDigit c = true := by
  rw [intText_pos h] at hc
  obtain ⟨d, -, rfl⟩ := List.mem_map.mp hc
  exact isAsciiDigit_decimalDigit d

def reprCp (py : Interpreter) (quote c : Cp) : PyStr :=
  if c = quote ∨ c = chr '\\' then [chr '\\', c]
  else if c = chr '\t' then lit "\\t"
  else if c = chr '\n' then lit "\\n"
  else if c = chr '\r' then lit "\\r"
  else if 0x20 ≤ c.val ∧ c.val < 0x7F ∨ 0x7F < c.val ∧ py.isPrintable c then [c]
  else if c.val < 0x100 then lit "\\x" ++ hex 2 c.val
  else if c.val < 0x10000 then lit "\\u" ++ hex 4 c.val
  else lit "\\U" ++ hex 8 c.val

/-- `repr(s)`: double quotes when the string holds a single quote and no double quote. -/
def reprStr (py : Interpreter) (s : PyStr) : PyStr :=
  let quote := if chr '\'' ∈ s ∧ chr '"' ∉ s then chr '"' else chr '\''
  quote :: s.flatMap (reprCp py quote) ++ [quote]

end Clickstream.Python
