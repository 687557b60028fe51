import Clickstream.Python.Text

/-! `uuid.UUID` of Python's standard library on a text: prefixes, braces and hyphens are dropped, 32
characters must remain, and `int` reads them in base 16. -/

namespace Clickstream.Python

/-- The white space that `int` skips: the ASCII separators `\x1c` to `\x1f` are not part of it. -/
def isIntSpace (c : Cp) : Bool := isSpace c && !decide (0x1C ≤ c.val ∧ c.val ≤ 0x1F)

/-- The value of a digit in base 16, decimal digits of other scripts included. -/
def digit16 (c : Cp) : Option Nat := (decimalValue c).or (hexValue c)

/-- The digits of a number after `n`, with single underscores between digits. -/
def readDigits (afterUnderscore : Bool) (n : Nat) : PyStr → Option Nat
  | [] => if afterUnderscore then none else some n
  | c :: s =>
    if c = chr '_' then if afterUnderscore then none else readDigits true n s
    else
      match digit16 c with
      | some v => readDigits false (16 * n + v) s
      | none => none

/-- The text without a prefix `0x`, behind which one underscore may stand. -/
def dropPrefix (s : PyStr) : PyStr :=
  match s with
  | zero :: x :: rest =>
    if decimalValue zero = some 0 ∧ (x = chr 'x' ∨ x = chr 'X') then
      if rest.head? = some (chr '_') then rest.tail else rest
    else s
  | _ => s

/-- `int(s, 16)`; `none` is its `ValueError`. -/
def intBase16 (s : PyStr) : Option Int :=
  let body := stripBy isIntSpace s
  let negative := body.head? = some (chr '-')
  let unsigned := if negative ∨ body.head? = some (chr '+') then body.tail else body
  let digits := dropPrefix unsigned
  if digits = [] ∨ digits.head? = some (chr '_') then none
  else (readDigits false 0 digits).map fun n => if negative then -n else n

/-- What `uuid.UUID` hands to `int`. -/
def uuidHex (text : PyStr) : PyStr :=
  remove (lit "-") (stripBy (fun c => decide (c.val = 0x7B ∨ c.val = 0x7D))
    (remove (lit "uuid:") (remove (lit "urn:") text)))

/-- `uuid.UUID(text).int`; `none` is its `ValueError`. -/
def uuid (text : PyStr) : Option Nat :=
  if (uuidHex text).length ≠ 32 then none
  else
    match intBase16 (uuidHex text) with
    | none => none
    | some n => if 0 ≤ n ∧ n < 2 ^ 128 then some n.toNat else none

end Clickstream.Python
