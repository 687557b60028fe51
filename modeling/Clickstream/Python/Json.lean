import Clickstream.Python.Text

/-! `json.loads` and `json.dumps` of Python's standard library: the scanner that reads a document
from left to right, with the strict string syntax, the digit limit of `int` and the recursion limit
on nested containers, and the default ASCII encoder for dicts of strings. -/

namespace Clickstream.Python

/-- A value that `json.loads` returns. A float keeps the text of its literal, and a dict keeps its
keys in the order of their first insertion. -/
inductive Json where
  | null
  | bool (b : Bool)
  | int (n : Int)
  | float (literal : PyStr)
  | str (s : PyStr)
  | arr (elems : List Json)
  | obj (pairs : List (PyStr × Json))

/-- What stops the scanner: text that is not JSON, an integer literal over the digit limit, or
nesting over the recursion limit. -/
inductive Fault where
  | decode
  | digits (count : Nat)
  | recursion
  deriving DecidableEq

/-- A scanner reads a value from the start of a text and leaves the rest. -/
abbrev Scan (α : Type) := PyStr → Except Fault (α × PyStr)

/-! ### Values -/

/-- `d[key] = v` for a dict `d`. -/
def dictSet {α : Type} (key : PyStr) (v : α) : List (PyStr × α) → List (PyStr × α)
  | [] => [(key, v)]
  | (k, u) :: d => if k = key then (k, v) :: d else (k, u) :: dictSet key v d

mutual

def Json.repr (py : Interpreter) : Json → PyStr
  | .null => lit "None"
  | .bool b => if b then lit "True" else lit "False"
  | .int n => intText n
  | .float literal => py.floatText literal
  | .str s => reprStr py s
  | .arr elems => chr '[' :: reprElems py elems ++ [chr ']']
  | .obj pairs => chr '{' :: reprPairs py pairs ++ [chr '}']

def reprElems (py : Interpreter) : List Json → PyStr
  | [] => []
  | [v] => v.repr py
  | v :: vs => v.repr py ++ lit ", " ++ reprElems py vs

def reprPairs (py : Interpreter) : List (PyStr × Json) → PyStr
  | [] => []
  | [(k, v)] => reprStr py k ++ lit ": " ++ v.repr py
  | (k, v) :: ps => reprStr py k ++ lit ": " ++ v.repr py ++ lit ", " ++ reprPairs py ps

end

def Json.toStr (py : Interpreter) : Json → PyStr
  | .str s => s
  | v => v.repr py

/-! ### Strings -/

def isHighSurrogate (n : Nat) : Bool := decide (0xD800 ≤ n ∧ n < 0xDC00)

def isLowSurrogate (n : Nat) : Bool := decide (0xDC00 ≤ n ∧ n < 0xE000)

def hexQuad (a b c d : Cp) : Option Nat := do
  let a ← hexValue a
  let b ← hexValue b
  let c ← hexValue c
  let d ← hexValue d
  return ((a * 16 + b) * 16 + c) * 16 + d

def cpOfNat (n : Nat) : Cp := ⟨n % 0x110000, Nat.mod_lt _ (by decide)⟩

def joinSurrogates (high low : Nat) : Cp :=
  cpOfNat (0x10000 + (high - 0xD800) * 0x400 + (low - 0xDC00))

def simpleEscape (c : Cp) : Option Cp :=
  if c = chr '"' ∨ c = chr '\\' ∨ c = chr '/' then some c
  else if c = chr 'b' then some 8
  else if c = chr 'f' then some 12
  else if c = chr 'n' then some 10
  else if c = chr 'r' then some 13
  else if c = chr 't' then some 9
  else none

def push (c : Cp) : Except Fault (PyStr × PyStr) → Except Fault (PyStr × PyStr)
  | .ok (s, rest) => .ok (c :: s, rest)
  | .error fault => .error fault

/-- The string after an opening quote, up to the closing one. A `\u` escape of a high surrogate
joins with a `\u` escape of a low surrogate right behind it. -/
def scanString : Scan PyStr
  | [] => .error .decode
  | c :: s =>
    if c = chr '"' then .ok ([], s)
    else if c = chr '\\' then
      match s with
      | [] => .error .decode
      | e :: s1 =>
        if e = chr 'u' then
          match s1 with
          | h0 :: h1 :: h2 :: h3 :: s2 =>
            match hexQuad h0 h1 h2 h3 with
            | none => .error .decode
            | some high =>
              match s2 with
              | b :: u :: l0 :: l1 :: l2 :: l3 :: s3 =>
                if isHighSurrogate high ∧ b = chr '\\' ∧ u = chr 'u' then
                  match hexQuad l0 l1 l2 l3 with
                  | none => .error .decode
                  | some low =>
                    if isLowSurrogate low then push (joinSurrogates high low) (scanString s3)
                    else push (cpOfNat high) (scanString (b :: u :: l0 :: l1 :: l2 :: l3 :: s3))
                else push (cpOfNat high) (scanString (b :: u :: l0 :: l1 :: l2 :: l3 :: s3))
              | s2 => push (cpOfNat high) (scanString s2)
          | _ => .error .decode
        else
          match simpleEscape e with
          | none => .error .decode
          | some x => push x (scanString s1)
    else if c.val < 0x20 then .error .decode
    else push c (scanString s)

/-! ### Numbers -/

def spanDigits (s : PyStr) : PyStr × PyStr := (s.takeWhile isAsciiDigit, s.dropWhile isAsciiDigit)

/-- `(0|[1-9][0-9]*)` at the start of a text. -/
def scanInteger : PyStr → Option (PyStr × PyStr)
  | [] => none
  | c :: s =>
    if c = chr '0' then some ([c], s)
    else if isAsciiDigit c then some (c :: (spanDigits s).1, (spanDigits s).2)
    else none

/-- `(\.[0-9]+)?` at the start of a text. -/
def scanFraction (s : PyStr) : PyStr × PyStr :=
  match s with
  | [] => ([], s)
  | c :: s1 =>
    if c = chr '.' ∧ (spanDigits s1).1 ≠ [] then (c :: (spanDigits s1).1, (spanDigits s1).2)
    else ([], s)

/-- `([eE][-+]?[0-9]+)?` at the start of a text. -/
def scanExponent (s : PyStr) : PyStr × PyStr :=
  match s with
  | [] => ([], s)
  | e :: s1 =>
    if e = chr 'e' ∨ e = chr 'E' then
      let sign := (s1.take 1).filter fun c => decide (c = chr '-' ∨ c = chr '+')
      let digits := spanDigits (s1.drop sign.length)
      if digits.1 ≠ [] then (e :: sign ++ digits.1, digits.2) else ([], s)
    else ([], s)

/-- A number. An `int` of more than `maxStrDigits` digits is a plain `ValueError`. -/
def scanNumber (s : PyStr) : Except Fault (Json × PyStr) :=
  let sign := (s.take 1).filter fun c => decide (c = chr '-')
  match scanInteger (s.drop sign.length) with
  | none => .error .decode
  | some (digits, s1) =>
    let fraction := scanFraction s1
    let exponent := scanExponent fraction.2
    if fraction.1 ≠ [] ∨ exponent.1 ≠ [] then
      .ok (.float (sign ++ digits ++ fraction.1 ++ exponent.1), exponent.2)
    else if maxStrDigits < digits.length then .error (.digits digits.length)
    else .ok (.int (if sign = [] then decimalNat digits else -decimalNat digits), s1)

/-! ### Containers -/

def isJsonSpace (c : Cp) : Bool :=
  decide (c = chr ' ' ∨ c = chr '\t' ∨ c = chr '\n' ∨ c = chr '\r')

def skipSpace (s : PyStr) : PyStr := s.dropWhile isJsonSpace

/-- The members of an object from a key on, added to `d`. Every round reads at least one character,
so a `fuel` of the length of the text is never used up. -/
def scanMembers (value : Scan Json) :
    (fuel : Nat) → List (PyStr × Json) → PyStr → Except Fault (Json × PyStr)
  | 0, _, _ => .error .decode
  | fuel + 1, d, s =>
    match s with
    | [] => .error .decode
    | q :: s1 =>
      if q = chr '"' then
        match scanString s1 with
        | .error fault => .error fault
        | .ok (key, s2) =>
          match skipSpace s2 with
          | [] => .error .decode
          | colon :: s3 =>
            if colon = chr ':' then
              match value (skipSpace s3) with
              | .error fault => .error fault
              | .ok (v, s4) =>
                match skipSpace s4 with
                | [] => .error .decode
                | c :: s5 =>
                  if c = chr '}' then .ok (.obj (dictSet key v d), s5)
                  else if c = chr ',' then
                    scanMembers value fuel (dictSet key v d) (skipSpace s5)
                  else .error .decode
            else .error .decode
      else .error .decode

/-- The elements of an array from a value on, after those in `vs`. -/
def scanElems (value : Scan Json) :
    (fuel : Nat) → List Json → PyStr → Except Fault (Json × PyStr)
  | 0, _, _ => .error .decode
  | fuel + 1, vs, s =>
    match value s with
    | .error fault => .error fault
    | .ok (v, s1) =>
      match skipSpace s1 with
      | [] => .error .decode
      | c :: s2 =>
        if c = chr ']' then .ok (.arr (vs ++ [v]), s2)
        else if c = chr ',' then scanElems value fuel (vs ++ [v]) (skipSpace s2)
        else .error .decode

/-- The object or array after its opening bracket. -/
def scanContainer (value : Scan Json) (bracket : Cp) (s : PyStr) : Except Fault (Json × PyStr) :=
  match skipSpace s with
  | [] => .error .decode
  | c :: s1 =>
    if bracket = chr '{' then
      if c = chr '}' then .ok (.obj [], s1) else scanMembers value s.length [] (c :: s1)
    else
      if c = chr ']' then .ok (.arr [], s1) else scanElems value (s.length + 1) [] (c :: s1)

def constants : List (PyStr × Json) :=
  [(lit "null", .null), (lit "true", .bool true), (lit "false", .bool false),
    (lit "NaN", .float (lit "NaN")), (lit "Infinity", .float (lit "Infinity")),
    (lit "-Infinity", .float (lit "-Infinity"))]

/-- `scan_once`: a value, with `container` reading what stands behind an opening bracket. -/
def scanValue (container : Cp → Scan Json) : Scan Json
  | [] => .error .decode
  | c :: s =>
    if c = chr '"' then (scanString s).map fun r => (.str r.1, r.2)
    else if c = chr '{' ∨ c = chr '[' then container c s
    else
      match constants.find? fun w => w.1.isPrefixOf (c :: s) with
      | some w => .ok (w.2, (c :: s).drop w.1.length)
      | none => scanNumber (c :: s)

/-- `scan_once` with `depth` levels of nesting left. -/
def scanOnce : (depth : Nat) → Scan Json
  | 0 => scanValue fun _ _ => .error .recursion
  | depth + 1 => scanValue (scanContainer (scanOnce depth))

def byteOrderMark : Cp := 0xFEFF

/-- The document: no byte order mark, one value, and only white space around it. -/
def scanDocument (depth : Nat) (s : PyStr) : Except Fault Json :=
  if s.head? = some byteOrderMark then .error .decode
  else
    match scanOnce depth (skipSpace s) with
    | .error fault => .error fault
    | .ok (v, rest) => if skipSpace rest = [] then .ok v else .error .decode

def loads (py : Interpreter) (s : PyStr) : Except Exc Json :=
  match scanDocument py.recursionLimit s with
  | .ok v => .ok v
  | .error .decode => .error (.jsonDecodeError (py.jsonErrorText s))
  | .error (.digits count) => .error (.valueError (intLimitText count))
  | .error .recursion => .error .recursionError

/-! ### The encoder -/

/-- `\uXXXX`. -/
def unicodeEscape (n : Nat) : PyStr := lit "\\u" ++ hex 4 n

/-- One character of a string under `ensure_ascii`; beyond the basic plane, a surrogate pair. -/
def escapeCp (c : Cp) : PyStr :=
  if c = chr '\\' then lit "\\\\"
  else if c = chr '"' then lit "\\\""
  else if c = 8 then lit "\\b"
  else if c = 12 then lit "\\f"
  else if c = 10 then lit "\\n"
  else if c = 13 then lit "\\r"
  else if c = 9 then lit "\\t"
  else if 0x20 ≤ c.val ∧ c.val ≤ 0x7E then [c]
  else if c.val < 0x10000 then unicodeEscape c.val
  else
    unicodeEscape (0xD800 + (c.val - 0x10000) / 0x400) ++
      unicodeEscape (0xDC00 + (c.val - 0x10000) % 0x400)

def dumpsStr (s : PyStr) : PyStr := chr '"' :: s.flatMap escapeCp ++ [chr '"']

/-- `json.dumps` of a dict of strings with the separators `,` and `:`. -/
def dumps (d : List (PyStr × PyStr)) : PyStr :=
  chr '{' :: [chr ','].intercalate (d.map fun m => dumpsStr m.1 ++ chr ':' :: dumpsStr m.2) ++
    [chr '}']

end Clickstream.Python
