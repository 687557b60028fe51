import Clickstream.Python.Json

/-! The decoder undoes the encoder: `json.loads` of `json.dumps` of a dict of strings without
surrogates is that dict, whatever quotes, controls or characters beyond the basic plane it holds. -/

namespace Clickstream.Python

theorem hexValue_hexDigit (n : Nat) : hexValue (hexDigit n) = some (n % 16) := by
  have h : n % 16 < 16 := Nat.mod_lt _ (by decide)
  unfold hexDigit
  split
  · simp only [hexValue]
    rw [if_pos (by omega)]
    congr 1
    omega
  · simp only [hexValue]
    rw [if_neg (by omega), if_pos (by omega)]
    congr 1
    omega

theorem hexQuad_hexDigit {n : Nat} (h : n < 0x10000) :
    hexQuad (hexDigit (n / 16 ^ 3)) (hexDigit (n / 16 ^ 2)) (hexDigit (n / 16 ^ 1))
      (hexDigit (n / 16 ^ 0)) = some n := by
  simp only [hexQuad, hexValue_hexDigit, Option.bind_eq_bind, Option.bind_some, Option.pure_def]
  congr 1
  omega

theorem unicodeEscape_eq (n : Nat) :
    unicodeEscape n = chr '\\' :: chr 'u' :: hexDigit (n / 16 ^ 3) :: hexDigit (n / 16 ^ 2) ::
      hexDigit (n / 16 ^ 1) :: [hexDigit (n / 16 ^ 0)] := rfl

theorem cpOfNat_val (c : Cp) : cpOfNat c.val = c := by
  apply Fin.ext
  exact Nat.mod_eq_of_lt c.isLt

/-- A `\u` escape of a number that is no high surrogate stands for itself. -/
theorem scanString_unicodeEscape {n : Nat} (hn : n < 0x10000) (hhigh : isHighSurrogate n = false)
    (rest : PyStr) :
    scanString (unicodeEscape n ++ rest) = push (cpOfNat n) (scanString rest) := by
  rw [unicodeEscape_eq]
  simp only [List.cons_append, List.nil_append]
  rw [scanString]
  rw [if_neg (by decide), if_pos rfl]
  simp only [↓reduceIte, hexQuad_hexDigit hn, hhigh, Bool.false_eq_true, false_and]
  split <;> rfl

/-- Two `\u` escapes of a surrogate pair stand for the character it denotes. -/
theorem scanString_surrogates {high low : Nat} (hhigh : isHighSurrogate high = true)
    (hlow : isLowSurrogate low = true) (rest : PyStr) :
    scanString (unicodeEscape high ++ (unicodeEscape low ++ rest)) =
      push (joinSurrogates high low) (scanString rest) := by
  have hh : high < 0x10000 := by simp [isHighSurrogate] at hhigh; omega
  have hl : low < 0x10000 := by simp [isLowSurrogate] at hlow; omega
  rw [unicodeEscape_eq, unicodeEscape_eq]
  simp only [List.cons_append, List.nil_append]
  rw [scanString]
  rw [if_neg (by decide), if_pos rfl]
  simp only [↓reduceIte, hexQuad_hexDigit hh, hexQuad_hexDigit hl, hhigh, hlow, and_self]

theorem scanString_plain {c : Cp} (hquote : c ≠ chr '"') (hslash : c ≠ chr '\\')
    (hcontrol : 0x20 ≤ c.val) (rest : PyStr) :
    scanString (c :: rest) = push c (scanString rest) := by
  rw [scanString.eq_def]
  simp only [hquote, hslash, ↓reduceIte, show ¬c.val < 0x20 by omega]

theorem scanString_simpleEscape {e x : Cp} (hu : e ≠ chr 'u') (h : simpleEscape e = some x)
    (rest : PyStr) : scanString (chr '\\' :: e :: rest) = push x (scanString rest) := by
  rw [scanString.eq_def]
  simp only [show chr '\\' ≠ chr '"' by decide, hu, ↓reduceIte, h]

/-- Scanning undoes the escape of one character. -/
theorem scanString_escapeCp {c : Cp} (hc : c.isSurrogate = false) (rest : PyStr) :
    scanString (escapeCp c ++ rest) = push c (scanString rest) := by
  unfold escapeCp
  by_cases hslash : c = chr '\\'
  · subst hslash; exact scanString_simpleEscape (by decide) rfl rest
  rw [if_neg hslash]
  by_cases hquote : c = chr '"'
  · subst hquote; exact scanString_simpleEscape (by decide) rfl rest
  rw [if_neg hquote]
  by_cases hb : c = 8
  · subst hb; exact scanString_simpleEscape (by decide) rfl rest
  rw [if_neg hb]
  by_cases hf : c = 12
  · subst hf; exact scanString_simpleEscape (by decide) rfl rest
  rw [if_neg hf]
  by_cases hn : c = 10
  · subst hn; exact scanString_simpleEscape (by decide) rfl rest
  rw [if_neg hn]
  by_cases hr : c = 13
  · subst hr; exact scanString_simpleEscape (by decide) rfl rest
  rw [if_neg hr]
  by_cases ht : c = 9
  · subst ht; exact scanString_simpleEscape (by decide) rfl rest
  rw [if_neg ht]
  have hrange : ¬(0xD800 ≤ c.val ∧ c.val < 0xE000) := by
    simpa [Cp.isSurrogate] using hc
  by_cases hplain : 0x20 ≤ c.val ∧ c.val ≤ 0x7E
  · rw [if_pos hplain]
    exact scanString_plain hquote hslash hplain.1 rest
  rw [if_neg hplain]
  by_cases hplane : c.val < 0x10000
  · have hhigh : isHighSurrogate c.val = false := by
      rw [isHighSurrogate, decide_eq_false_iff_not]
      omega
    rw [if_pos hplane, scanString_unicodeEscape hplane hhigh, cpOfNat_val]
  -- beyond the basic plane the two halves of `c - 0x10000` travel in a surrogate pair
  have hbound := c.isLt
  have hjoin : joinSurrogates (0xD800 + (c.val - 0x10000) / 0x400)
      (0xDC00 + (c.val - 0x10000) % 0x400) = c := by
    apply Fin.ext
    simp only [joinSurrogates, cpOfNat]
    omega
  have hhigh : isHighSurrogate (0xD800 + (c.val - 0x10000) / 0x400) = true := by
    rw [isHighSurrogate, decide_eq_true_iff]
    omega
  have hlow : isLowSurrogate (0xDC00 + (c.val - 0x10000) % 0x400) = true := by
    rw [isLowSurrogate, decide_eq_true_iff]
    omega
  rw [if_neg hplane, List.append_assoc, scanString_surrogates hhigh hlow, hjoin]

theorem scanString_escape {s : PyStr} (hs : Scalar s) (rest : PyStr) :
    scanString (s.flatMap escapeCp ++ chr '"' :: rest) = .ok (s, rest) := by
  induction s with
  | nil =>
    rw [List.flatMap_nil, List.nil_append, scanString.eq_def]
    exact if_pos rfl
  | cons c s ih =>
    rw [List.flatMap_cons, List.append_assoc, scanString_escapeCp (hs c (by simp)),
      ih fun x hx => hs x (by simp [hx])]
    rfl

theorem scanValue_dumpsStr (container : Cp → Scan Json) {s : PyStr} (hs : Scalar s)
    (rest : PyStr) : scanValue container (dumpsStr s ++ rest) = .ok (.str s, rest) := by
  have happ : dumpsStr s ++ rest = chr '"' :: (s.flatMap escapeCp ++ chr '"' :: rest) := by
    simp [dumpsStr]
  rw [happ, scanValue]
  simp only [↓reduceIte, scanString_escape hs, Except.map]

def dumpsMember (m : PyStr × PyStr) : PyStr := dumpsStr m.1 ++ chr ':' :: dumpsStr m.2

/-- The dict that the members of an object build up, from `d` on. -/
def setMembers (d : List (PyStr × Json)) (ms : List (PyStr × PyStr)) : List (PyStr × Json) :=
  ms.foldl (fun d m => dictSet m.1 (.str m.2) d) d

theorem skipSpace_cons {c : Cp} (hc : isJsonSpace c = false) (s : PyStr) :
    skipSpace (c :: s) = c :: s := by
  rw [skipSpace, List.dropWhile_cons_of_neg (by simp [hc])]

theorem skipSpace_dumpsStr (s rest : PyStr) :
    skipSpace (dumpsStr s ++ rest) = dumpsStr s ++ rest := skipSpace_cons (by decide) _

section Members

variable {value : Scan Json}
  (hvalue : ∀ s, Scalar s → ∀ rest, value (dumpsStr s ++ rest) = .ok (.str s, rest))
include hvalue

/-- Scanning one member of an object of strings, up to the character `c` behind it. -/
theorem scanMembers_member {m : PyStr × PyStr} (hkey : Scalar m.1) (hval : Scalar m.2) {c : Cp}
    (hc : isJsonSpace c = false) (fuel : Nat) (d : List (PyStr × Json)) (rest : PyStr) :
    scanMembers value (fuel + 1) d (dumpsMember m ++ c :: rest) =
      if c = chr '\x7d' then .ok (.obj (dictSet m.1 (.str m.2) d), rest)
      else if c = chr ',' then
        scanMembers value fuel (dictSet m.1 (.str m.2) d) (skipSpace rest)
      else .error .decode := by
  have happ : dumpsMember m ++ c :: rest =
      chr '"' :: (m.1.flatMap escapeCp ++ chr '"' :: (chr ':' :: (dumpsStr m.2 ++ c :: rest))) := by
    simp [dumpsMember, dumpsStr]
  have hcolon : isJsonSpace (chr ':') = false := by decide
  rw [happ, scanMembers]
  simp only [↓reduceIte, scanString_escape hkey, skipSpace_cons hcolon, skipSpace_dumpsStr,
    hvalue _ hval, skipSpace_cons hc]

theorem scanMembers_dumps {m : PyStr × PyStr} {ms : List (PyStr × PyStr)} {fuel : Nat}
    {d : List (PyStr × Json)} {rest : PyStr}
    (hscalar : ∀ x ∈ m :: ms, Scalar x.1 ∧ Scalar x.2) (hfuel : ms.length < fuel) :
    scanMembers value fuel d
        ([chr ','].intercalate ((m :: ms).map dumpsMember) ++ chr '\x7d' :: rest) =
      .ok (.obj (setMembers d (m :: ms)), rest) := by
  induction ms generalizing m fuel d with
  | nil =>
    obtain ⟨fuel, rfl⟩ : ∃ n, fuel = n + 1 := ⟨fuel - 1, by omega⟩
    obtain ⟨hkey, hval⟩ := hscalar m (by simp)
    simp only [List.map_cons, List.map_nil, List.intercalate_singleton]
    rw [scanMembers_member hvalue hkey hval (by decide), if_pos rfl]
    rfl
  | cons x xs ih =>
    obtain ⟨fuel, rfl⟩ : ∃ n, fuel = n + 1 := ⟨fuel - 1, by omega⟩
    obtain ⟨hkey, hval⟩ := hscalar m (by simp)
    have hstart : skipSpace ([chr ','].intercalate ((x :: xs).map dumpsMember) ++
        chr '\x7d' :: rest) =
        [chr ','].intercalate ((x :: xs).map dumpsMember) ++ chr '\x7d' :: rest := by
      cases xs with
      | nil => exact skipSpace_cons (by decide) _
      | cons y ys => exact skipSpace_cons (by decide) _
    rw [List.map_cons, List.map_cons, List.intercalate_cons_cons, List.append_assoc,
      List.append_assoc, List.singleton_append, ← List.map_cons,
      scanMembers_member hvalue hkey hval (by decide), if_neg (by decide), if_pos rfl, hstart,
      ih (fun y hy => hscalar y (by simp [hy])) (by simpa using hfuel)]
    rfl

end Members

theorem length_le_members (m : PyStr × PyStr) (ms : List (PyStr × PyStr)) :
    ms.length ≤ ([chr ','].intercalate ((m :: ms).map dumpsMember)).length := by
  induction ms generalizing m with
  | nil => simp
  | cons x xs ih =>
    have h := ih x
    rw [List.map_cons, List.map_cons, List.intercalate_cons_cons, ← List.map_cons,
      List.length_append, List.length_append, List.length_singleton, List.length_cons]
    omega

theorem scanDocument_dumps {depth : Nat} (hdepth : 0 < depth) {d : List (PyStr × PyStr)}
    (hne : d ≠ []) (hscalar : ∀ m ∈ d, Scalar m.1 ∧ Scalar m.2) :
    scanDocument depth (dumps d) = .ok (.obj (setMembers [] d)) := by
  obtain ⟨depth, rfl⟩ : ∃ n, depth = n + 1 := ⟨depth - 1, by omega⟩
  obtain ⟨m, ms, rfl⟩ := List.exists_cons_of_ne_nil hne
  set body := [chr ','].intercalate ((m :: ms).map dumpsMember) with hbody
  have hdumps : dumps (m :: ms) = chr '\x7b' :: (body ++ [chr '\x7d']) := rfl
  have hquote : ∃ tail, body ++ [chr '\x7d'] = chr '"' :: tail := by
    rw [hbody]
    cases ms with
    | nil => exact ⟨_, rfl⟩
    | cons x xs => exact ⟨_, rfl⟩
  obtain ⟨tail, htail⟩ := hquote
  have hlen : ms.length < (body ++ [chr '\x7d']).length := by
    have := length_le_members m ms
    rw [hbody, List.length_append, List.length_singleton]
    omega
  have honce : ∀ s, Scalar s → ∀ rest, scanOnce depth (dumpsStr s ++ rest) = .ok (.str s, rest) := by
    intro s hs rest
    cases depth with
    | zero => exact scanValue_dumpsStr _ hs rest
    | succ depth => exact scanValue_dumpsStr _ hs rest
  have hmembers : scanMembers (scanOnce depth) (body ++ [chr '\x7d']).length []
      (body ++ [chr '\x7d']) = .ok (.obj (setMembers [] (m :: ms)), []) :=
    scanMembers_dumps honce hscalar hlen
  have hcontainer : scanContainer (scanOnce depth) (chr '\x7b') (body ++ [chr '\x7d']) =
      .ok (.obj (setMembers [] (m :: ms)), []) := by
    rw [← hmembers, scanContainer, htail, skipSpace_cons (by decide)]
    simp only [↓reduceIte, show chr '"' ≠ chr '\x7d' by decide]
  have hvalue : scanOnce (depth + 1) (chr '\x7b' :: (body ++ [chr '\x7d'])) =
      .ok (.obj (setMembers [] (m :: ms)), []) := by
    rw [scanOnce, scanValue, if_neg (by decide), if_pos (.inl rfl), hcontainer]
  have hmark : (chr '\x7b' :: (body ++ [chr '\x7d'])).head? ≠ some byteOrderMark := by
    rw [List.head?_cons]
    decide
  rw [scanDocument, hdumps, if_neg hmark, skipSpace_cons (by decide), hvalue]
  rfl

/-- `json.loads` undoes `json.dumps` on a dict of strings without surrogates. -/
theorem loads_dumps (py : Interpreter) {d : List (PyStr × PyStr)} (hne : d ≠ [])
    (hscalar : ∀ m ∈ d, Scalar m.1 ∧ Scalar m.2) :
    loads py (dumps d) = .ok (.obj (setMembers [] d)) := by
  rw [loads, scanDocument_dumps py.recursionLimit_pos hne hscalar]

end Clickstream.Python
