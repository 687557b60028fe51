import Clickstream.Python.Uuid

/-! `int()` of a string in base 10. -/

namespace Clickstream.Python

/-- Whether a minus sign leads, and the text behind the sign. -/
def takeSign : PyStr → Bool × PyStr
  | [] => (false, [])
  | c :: s => if c = chr '-' then (true, s) else if c = chr '+' then (false, s) else (false, c :: s)

def isIntCharacter (c : Cp) : Bool := isDecimal c || decide (c = chr '_')

def intErrorText (py : Interpreter) (s : PyStr) : PyStr :=
  (lit "invalid literal for int() with base 10: ") ++ (reprStr py s).take 200

/-- `int(s)`: digits of any script, with single underscores between them.  Too many digits are
reported before anything that follows them. -/
def int (py : Interpreter) (s : PyStr) : Except Exc Int :=
  let (negative, body) := takeSign (stripBy isIntSpace s)
  let groups := (body.takeWhile isIntCharacter).splitOn (chr '_')
  if [] ∈ groups then .error (.valueError (intErrorText py s))
  else if maxStrDigits < groups.flatten.length then
    .error (.valueError (intLimitText groups.flatten.length))
  else if body.dropWhile isIntCharacter ≠ [] then .error (.valueError (intErrorText py s))
  else .ok (if negative then -decimalNat groups.flatten else decimalNat groups.flatten)

example : int cpython (lit " -1_000 ") = .ok (-1000) := by decide +kernel

end Clickstream.Python
