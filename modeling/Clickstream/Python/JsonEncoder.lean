import Clickstream.Python.JsonLimits
import Clickstream.Python.JsonRoundTrip
import Clickstream.Python.Strftime
import Mathlib.Data.Nat.Digits.Lemmas

/-! `json.dumps` with its default separators, for nested values, and the decoder that reads back what it
writes: strings without surrogates, integers within the digit limit, floats by their literal, and no more
containers inside each other than the recursion limit allows. -/

namespace Clickstream.Python

mutual

/-- `json.dumps` of a value that needs no `default`. -/
def Json.encode : Json → PyStr
  | .null => lit "null"
  | .bool b => if b then lit "true" else lit "false"
  | .int n => intText n
  | .float literal => literal
  | .str s => dumpsStr s
  | .arr elems => chr '[' :: encodeElems elems ++ [chr ']']
  | .obj pairs => chr '\x7b' :: encodePairs pairs ++ [chr '\x7d']

def encodeElems : List Json → PyStr
  | [] => []
  | [v] => v.encode
  | v :: vs => v.encode ++ lit ", " ++ encodeElems vs

def encodePairs : List (PyStr × Json) → PyStr
  | [] => []
  | [(k, v)] => dumpsStr k ++ lit ": " ++ v.encode
  | (k, v) :: ps => dumpsStr k ++ lit ": " ++ v.encode ++ lit ", " ++ encodePairs ps

end

/-- What may stand behind a number: nothing that goes on with it. -/
def Delimited (rest : PyStr) : Prop :=
  ∀ c ∈ rest.head?, isAsciiDigit c = false ∧ c ≠ chr '.' ∧ c ≠ chr 'e' ∧ c ≠ chr 'E'

/-- The literal of a float, which the scanner reads as a whole. -/
def FloatLiteral (t : PyStr) : Prop :=
  ∀ container rest, Delimited rest → scanValue container (t ++ rest) = .ok (.float t, rest)

/-- What the decoder reads back, with at most `depth` containers inside each other. -/
inductive Readable : Nat → Json → Prop
  | null {depth : Nat} : Readable depth .null
  | bool {depth : Nat} (b : Bool) : Readable depth (.bool b)
  | int {depth : Nat} {n : Int} (h : (Nat.digits 10 n.natAbs).length ≤ maxStrDigits) :
      Readable depth (.int n)
  | float {depth : Nat} {t : PyStr} (h : FloatLiteral t) : Readable depth (.float t)
  | str {depth : Nat} {s : PyStr} (h : Scalar s) : Readable depth (.str s)
  | arr {depth : Nat} {elems : List Json} (h : ∀ v ∈ elems, Readable depth v) :
      Readable (depth + 1) (.arr elems)
  | obj {depth : Nat} {pairs : List (PyStr × Json)} (hkeys : (pairs.map Prod.fst).Nodup)
      (hscalar : ∀ p ∈ pairs, Scalar p.1) (h : ∀ p ∈ pairs, Readable depth p.2) :
      Readable (depth + 1) (.obj pairs)

/-! ### The first character of a value -/

/-- A character with which no value begins. -/
theorem scanValue_no_value {c : Cp} (hquote : c ≠ chr '"') (hbracket : ¬(c = chr '\x7b' ∨ c = chr '['))
    (hconstant : ∀ w ∈ constants, w.1.head? ≠ some c) (hminus : c ≠ chr '-')
    (hdigit : isAsciiDigit c = false) (container : Cp → Scan Json) (s : PyStr) :
    scanValue container (c :: s) = .error .decode := by
  have hfind : (constants.find? fun w => w.1.isPrefixOf (c :: s)) = none := by
    rw [List.find?_eq_none]
    intro w hw hprefix
    obtain ⟨tail, htail⟩ := List.isPrefixOf_iff_prefix.mp hprefix
    apply hconstant w hw
    obtain ⟨d, word, hword⟩ := List.exists_cons_of_length_pos (length_constants w hw)
    rw [hword] at htail ⊢
    exact congrArg some (List.cons.inj htail).1
  have hzero : c ≠ chr '0' := by
    rintro rfl
    revert hdigit
    decide
  have hnumber : scanNumber (c :: s) = .error .decode := by
    have hsign : ((c :: s).take 1).filter (fun c => decide (c = chr '-')) = [] := by
      simp [hminus]
    rw [scanNumber]
    simp only [hsign, List.length_nil, List.drop_zero, scanInteger, if_neg hzero, hdigit]
    rfl
  rw [scanValue, if_neg hquote, if_neg hbracket, hfind]
  exact hnumber

/-- The characters that the scanners look for in front of a value. -/
def notFirst : List Cp := [chr ' ', chr '\t', chr '\n', chr '\r', chr ']', chr '\x7d', byteOrderMark]

theorem first_of_scanValue {container : Cp → Scan Json} {s : PyStr} {r : Json × PyStr}
    (h : scanValue container s = .ok r) : ∃ c s', s = c :: s' ∧ c ∉ notFirst := by
  cases s with
  | nil => cases h
  | cons c s' =>
    refine ⟨c, s', rfl, fun hc => ?_⟩
    have hall : (notFirst.all fun d => decide (d ≠ chr '"' ∧ ¬(d = chr '\x7b' ∨ d = chr '[') ∧
        (constants.all fun w => decide (w.1.head? ≠ some d)) = true ∧ d ≠ chr '-' ∧
        isAsciiDigit d = false)) = true := by
      decide +kernel
    obtain ⟨hquote, hbracket, hconstant, hminus, hdigit⟩ :=
      of_decide_eq_true (List.all_eq_true.mp hall c hc)
    have hconstant' : ∀ w ∈ constants, w.1.head? ≠ some c :=
      fun w hw => of_decide_eq_true (List.all_eq_true.mp hconstant w hw)
    rw [scanValue_no_value hquote hbracket hconstant' hminus hdigit] at h
    cases h

/-! ### Numbers -/

def natText (m : Nat) : PyStr :=
  (Nat.digits 10 m).reverse.map decimalDigit ++ (if m = 0 then [chr '0'] else [])

theorem intText_eq (n : Int) :
    intText n = (if n < 0 then [chr '-'] else []) ++ natText n.natAbs := by
  simp [intText, natText, List.append_assoc]

theorem natText_pos {m : Nat} (h : 0 < m) : natText m = (Nat.digits 10 m).reverse.map decimalDigit := by
  rw [natText, if_neg (by omega), List.append_nil]

theorem decimalNat_natText (m : Nat) : decimalNat (natText m) = m := by
  have hdigits : decimalNat ((Nat.digits 10 m).reverse.map decimalDigit) = m := by
    induction m using Nat.strongRecOn with
    | ind m ih =>
      rcases Nat.eq_zero_or_pos m with rfl | hm
      · rfl
      · rw [Nat.digits_def' (by decide) hm, List.reverse_cons, List.map_append, List.map_singleton,
          decimalNat_append_digit, ih _ (Nat.div_lt_self hm (by decide))]
        omega
  rcases Nat.eq_zero_or_pos m with rfl | hm
  · rfl
  · rw [natText_pos hm, hdigits]

theorem isAsciiDigit_natText {m : Nat} : ∀ c ∈ natText m, isAsciiDigit c = true := by
  intro c hc
  rcases List.mem_append.mp hc with hc | hc
  · obtain ⟨d, -, rfl⟩ := List.mem_map.mp hc
    exact isAsciiDigit_decimalDigit d
  · split at hc
    · rw [List.mem_singleton.mp hc]
      decide
    · cases hc

theorem head?_natText {m : Nat} (h : 0 < m) : (natText m).head? ≠ some (chr '0') := by
  have hne : Nat.digits 10 m ≠ [] := Nat.digits_ne_nil_iff_ne_zero.mpr h.ne'
  have hlast : (Nat.digits 10 m).getLast hne ≠ 0 := Nat.getLast_digit_ne_zero 10 h.ne'
  have hlt := Nat.digits_lt_base (b := 10) (by decide) (List.getLast_mem hne)
  rw [natText_pos h, List.head?_map, List.head?_reverse, List.getLast?_eq_some_getLast hne]
  intro hzero
  have hval := congrArg Fin.val (Option.some.inj hzero)
  have hdigit : 0x30 + (Nat.digits 10 m).getLast hne % 10 = 0x30 := hval
  omega

theorem natText_eq_cons (m : Nat) : ∃ c s, natText m = c :: s ∧ isAsciiDigit c = true := by
  have hne : natText m ≠ [] := by
    rcases Nat.eq_zero_or_pos m with rfl | hm
    · exact List.cons_ne_nil _ _
    · rw [natText_pos hm, Ne, List.map_eq_nil_iff, List.reverse_eq_nil_iff]
      exact Nat.digits_ne_nil_iff_ne_zero.mpr hm.ne'
  obtain ⟨c, s, hs⟩ := List.exists_cons_of_ne_nil hne
  exact ⟨c, s, hs, isAsciiDigit_natText c (hs ▸ List.mem_cons_self)⟩

theorem scanInteger_natText (m : Nat) {rest : PyStr} (hrest : Delimited rest) :
    scanInteger (natText m ++ rest) = some (natText m, rest) := by
  rcases Nat.eq_zero_or_pos m with rfl | hm
  · rfl
  · obtain ⟨c, s, hs, -⟩ := natText_eq_cons m
    refine scanInteger_digits ?_ isAsciiDigit_natText (head?_natText hm) fun c hc => (hrest c hc).1
    rw [hs]
    exact List.cons_ne_nil _ _

theorem length_natText_le {m : Nat} (h : (Nat.digits 10 m).length ≤ maxStrDigits) :
    (natText m).length ≤ maxStrDigits := by
  rcases Nat.eq_zero_or_pos m with rfl | hm
  · decide
  · rwa [natText_pos hm, List.length_map, List.length_reverse]

theorem minusSign_intText (n : Int) (rest : PyStr) :
    minusSign (intText n ++ rest) = if n < 0 then [chr '-'] else [] := by
  rw [intText_eq]
  split_ifs
  · rfl
  · obtain ⟨c, s, hs, hc⟩ := natText_eq_cons n.natAbs
    have hminus : c ≠ chr '-' := by
      rintro rfl
      cases hc
    simp [minusSign, hs, hminus]

theorem scanFraction_delimited {rest : PyStr} (h : Delimited rest) : scanFraction rest = ([], rest) := by
  cases rest with
  | nil => rfl
  | cons c rest => exact if_neg fun hdot => (h c rfl).2.1 hdot.1

theorem scanExponent_delimited {rest : PyStr} (h : Delimited rest) : scanExponent rest = ([], rest) := by
  cases rest with
  | nil => rfl
  | cons c rest => exact if_neg fun he => he.elim (h c rfl).2.2.1 (h c rfl).2.2.2

theorem scanNumber_intText {n : Int} (h : (Nat.digits 10 n.natAbs).length ≤ maxStrDigits)
    {rest : PyStr} (hrest : Delimited rest) :
    scanNumber (intText n ++ rest) = .ok (.int n, rest) := by
  have hsign : ((intText n ++ rest).take 1).filter (fun c => decide (c = chr '-')) =
      if n < 0 then [chr '-'] else [] := minusSign_intText n rest
  have hdrop : (intText n ++ rest).drop (if n < 0 then [chr '-'] else []).length =
      natText n.natAbs ++ rest := by
    rw [intText_eq]
    split_ifs <;> rfl
  have hlong : ¬maxStrDigits < (natText n.natAbs).length := Nat.not_lt.mpr (length_natText_le h)
  simp only [scanNumber, hsign, hdrop, scanInteger_natText _ hrest, scanFraction_delimited hrest,
    scanExponent_delimited hrest, ne_eq, not_true_eq_false, or_self, if_false, if_neg hlong,
    decimalNat_natText]
  by_cases hneg : n < 0
  · rw [if_pos hneg, if_neg (List.cons_ne_nil _ _)]
    congr 3
    omega
  · rw [if_neg hneg, if_pos rfl]
    congr 3
    omega

theorem scanValue_intText {n : Int} (h : (Nat.digits 10 n.natAbs).length ≤ maxStrDigits)
    (container : Cp → Scan Json) {rest : PyStr} (hrest : Delimited rest) :
    scanValue container (intText n ++ rest) = .ok (.int n, rest) := by
  obtain ⟨c, s, hs, hc⟩ := natText_eq_cons n.natAbs
  have htext : intText n ++ rest = minusSign (intText n ++ rest) ++ c :: (s ++ rest) := by
    rw [minusSign_intText, intText_eq, hs, List.append_assoc]
    rfl
  rw [scanValue_number container htext hc, scanNumber_intText h hrest]

/-! ### Containers -/

theorem delimited_of_head {c : Cp} (h : isAsciiDigit c = false ∧ c ≠ chr '.' ∧ c ≠ chr 'e' ∧ c ≠ chr 'E')
    (rest : PyStr) : Delimited (c :: rest) := by
  intro d hd
  obtain rfl := Option.some.inj hd
  exact h

theorem isJsonSpace_of_notFirst {c : Cp} (h : c ∉ notFirst) : isJsonSpace c = false := by
  rw [isJsonSpace, decide_eq_false_iff_not]
  rintro (rfl | rfl | rfl | rfl) <;> exact h (by simp [notFirst])

/-- The scanner reads the encoded value back, and nothing in front of it is skipped. -/
structure Reads (value : Scan Json) (v : Json) : Prop where
  scan : ∀ {rest}, Delimited rest → value (v.encode ++ rest) = .ok (v, rest)
  first : ∃ c s, v.encode = c :: s ∧ c ∉ notFirst

theorem delimited_comma (rest : PyStr) : Delimited (chr ',' :: rest) := delimited_of_head (by decide) _

theorem delimited_bracket (rest : PyStr) : Delimited (chr ']' :: rest) :=
  delimited_of_head (by decide) _

theorem delimited_brace (rest : PyStr) : Delimited (chr '\x7d' :: rest) :=
  delimited_of_head (by decide) _

theorem skipSpace_blank (s : PyStr) : skipSpace (chr ' ' :: s) = skipSpace s :=
  List.dropWhile_cons_of_pos (by decide)

section Elems

variable {value : Scan Json}

theorem encodeElems_cons (v w : Json) (vs : List Json) :
    encodeElems (v :: w :: vs) = v.encode ++ lit ", " ++ encodeElems (w :: vs) := by
  rw [encodeElems]
  exact List.cons_ne_nil _ _

theorem first_encodeElems {v : Json} (h : Reads value v) (vs : List Json) (rest : PyStr) :
    ∃ c s, encodeElems (v :: vs) ++ rest = c :: s ∧ c ∉ notFirst := by
  obtain ⟨c, s, hs, hc⟩ := h.first
  cases vs with
  | nil => exact ⟨c, s ++ rest, by rw [encodeElems, hs]; rfl, hc⟩
  | cons w vs => exact ⟨c, _, by rw [encodeElems_cons, hs]; rfl, hc⟩

theorem length_le_encodeElems {vs : List Json} (h : ∀ v ∈ vs, Reads value v) :
    vs.length ≤ (encodeElems vs).length := by
  induction vs with
  | nil => exact Nat.zero_le _
  | cons v vs ih =>
    obtain ⟨hv, hvs⟩ := List.forall_mem_cons.mp h
    obtain ⟨c, s, hs, -⟩ := hv.first
    cases vs with
    | nil =>
      rw [encodeElems, hs]
      exact Nat.succ_le_succ (Nat.zero_le _)
    | cons w vs =>
      have hlength := ih hvs
      rw [encodeElems_cons, hs]
      simp only [List.length_cons, List.length_append, List.cons_append] at hlength ⊢
      omega

theorem scanElems_encode {v : Json} {vs : List Json} (h : ∀ w ∈ v :: vs, Reads value w) {fuel : Nat}
    (hfuel : vs.length < fuel) (before : List Json) (rest : PyStr) :
    scanElems value fuel before (encodeElems (v :: vs) ++ chr ']' :: rest) =
      .ok (.arr (before ++ v :: vs), rest) := by
  induction vs generalizing v fuel before with
  | nil =>
    obtain ⟨fuel, rfl⟩ : ∃ n, fuel = n + 1 := ⟨fuel - 1, by omega⟩
    have hscan := (h v List.mem_cons_self).scan (delimited_bracket rest)
    have hclose : isJsonSpace (chr ']') = false := by decide
    simp only [encodeElems, scanElems, hscan, skipSpace_cons hclose, ↓reduceIte]
  | cons w vs ih =>
    obtain ⟨fuel, rfl⟩ : ∃ n, fuel = n + 1 := ⟨fuel - 1, by omega⟩
    obtain ⟨hv, hvs⟩ := List.forall_mem_cons.mp h
    have hcomma : isJsonSpace (chr ',') = false := by decide
    have hscan := hv.scan (delimited_comma (chr ' ' :: (encodeElems (w :: vs) ++ chr ']' :: rest)))
    have htext : encodeElems (v :: w :: vs) ++ chr ']' :: rest =
        v.encode ++ chr ',' :: chr ' ' :: (encodeElems (w :: vs) ++ chr ']' :: rest) := by
      rw [encodeElems_cons]
      simp [lit]
    obtain ⟨c, s, hs, hc⟩ := first_encodeElems (hvs w List.mem_cons_self) vs (chr ']' :: rest)
    have hskip : skipSpace (chr ' ' :: (encodeElems (w :: vs) ++ chr ']' :: rest)) =
        encodeElems (w :: vs) ++ chr ']' :: rest := by
      rw [skipSpace_blank, hs, skipSpace_cons (isJsonSpace_of_notFirst hc)]
    have hlength : vs.length < fuel := Nat.lt_of_succ_lt_succ hfuel
    rw [htext, scanElems]
    simp only [hscan, skipSpace_cons hcomma, hskip, ih hvs hlength, List.append_assoc,
      List.singleton_append, show chr ',' ≠ chr ']' by decide, ↓reduceIte]

end Elems

section Pairs

variable {value : Scan Json}

theorem dictSet_append {k : PyStr} {v : Json} {d : List (PyStr × Json)} (h : k ∉ d.map Prod.fst) :
    dictSet k v d = d ++ [(k, v)] := by
  induction d with
  | nil => rfl
  | cons p d ih =>
    obtain ⟨hne, hd⟩ := not_or.mp (mt List.mem_cons.mpr h)
    rw [dictSet, if_neg fun heq => hne heq.symm, ih hd, List.cons_append]

def encodePair (p : PyStr × Json) : PyStr := dumpsStr p.1 ++ lit ": " ++ p.2.encode

theorem encodePairs_single (p : PyStr × Json) : encodePairs [p] = encodePair p := by
  rw [encodePairs, encodePair]

theorem encodePairs_cons (p q : PyStr × Json) (ps : List (PyStr × Json)) :
    encodePairs (p :: q :: ps) = encodePair p ++ lit ", " ++ encodePairs (q :: ps) := by
  rw [encodePairs, encodePair]
  exact List.cons_ne_nil _ _

theorem first_encodePairs (p : PyStr × Json) (ps : List (PyStr × Json)) (rest : PyStr) :
    ∃ s, encodePairs (p :: ps) ++ rest = chr '"' :: s := by
  cases ps with
  | nil => exact ⟨_, by rw [encodePairs_single]; rfl⟩
  | cons q ps => exact ⟨_, by rw [encodePairs_cons]; rfl⟩

theorem length_le_encodePairs (ps : List (PyStr × Json)) : ps.length ≤ (encodePairs ps).length := by
  induction ps with
  | nil => exact Nat.zero_le _
  | cons p ps ih =>
    cases ps with
    | nil => exact Nat.succ_le_succ (Nat.zero_le _)
    | cons q ps =>
      have hone : 1 ≤ (encodePair p).length := Nat.succ_le_succ (Nat.zero_le _)
      rw [encodePairs_cons, List.length_append, List.length_append, List.length_cons]
      omega

/-- One member of an object, up to the character `c` behind it. -/
theorem scanMembers_pair {p : PyStr × Json} (hkey : Scalar p.1) (hvalue : Reads value p.2) {c : Cp}
    {rest : PyStr} (hrest : Delimited (c :: rest)) (hc : isJsonSpace c = false) (fuel : Nat)
    (d : List (PyStr × Json)) :
    scanMembers value (fuel + 1) d (encodePair p ++ c :: rest) =
      if c = chr '\x7d' then .ok (.obj (dictSet p.1 p.2 d), rest)
      else if c = chr ',' then scanMembers value fuel (dictSet p.1 p.2 d) (skipSpace rest)
      else .error .decode := by
  have htext : encodePair p ++ c :: rest = chr '"' :: (p.1.flatMap escapeCp ++ chr '"' ::
      (chr ':' :: chr ' ' :: (p.2.encode ++ c :: rest))) := by
    simp [encodePair, dumpsStr, lit]
  have hcolon : isJsonSpace (chr ':') = false := by decide
  obtain ⟨x, s, hs, hx⟩ := hvalue.first
  have hskip : skipSpace (chr ' ' :: (p.2.encode ++ c :: rest)) = p.2.encode ++ c :: rest := by
    rw [skipSpace_blank, hs, List.cons_append, skipSpace_cons (isJsonSpace_of_notFirst hx)]
  rw [htext, scanMembers]
  simp only [↓reduceIte, scanString_escape hkey, skipSpace_cons hcolon, hskip, hvalue.scan hrest,
    skipSpace_cons hc]

theorem scanMembers_encode {p : PyStr × Json} {ps : List (PyStr × Json)}
    (h : ∀ q ∈ p :: ps, Scalar q.1 ∧ Reads value q.2) {fuel : Nat} (hfuel : ps.length < fuel)
    {d : List (PyStr × Json)} (hkeys : ((d ++ p :: ps).map Prod.fst).Nodup) (rest : PyStr) :
    scanMembers value fuel d (encodePairs (p :: ps) ++ chr '\x7d' :: rest) =
      .ok (.obj (d ++ p :: ps), rest) := by
  have hnew : p.1 ∉ d.map Prod.fst := by
    rw [List.map_append, List.map_cons] at hkeys
    exact fun hmem => (List.nodup_append.mp hkeys).2.2 _ hmem _ List.mem_cons_self rfl
  induction ps generalizing p fuel d with
  | nil =>
    obtain ⟨fuel, rfl⟩ : ∃ n, fuel = n + 1 := ⟨fuel - 1, by omega⟩
    obtain ⟨hkey, hvalue⟩ := h p List.mem_cons_self
    rw [encodePairs_single, scanMembers_pair hkey hvalue (delimited_brace rest) (by decide),
      if_pos rfl, dictSet_append hnew]
  | cons q ps ih =>
    obtain ⟨fuel, rfl⟩ : ∃ n, fuel = n + 1 := ⟨fuel - 1, by omega⟩
    obtain ⟨⟨hkey, hvalue⟩, hps⟩ := List.forall_mem_cons.mp h
    have htext : encodePairs (p :: q :: ps) ++ chr '\x7d' :: rest = encodePair p ++
        chr ',' :: chr ' ' :: (encodePairs (q :: ps) ++ chr '\x7d' :: rest) := by
      rw [encodePairs_cons]
      simp [lit]
    obtain ⟨s, hs⟩ := first_encodePairs q ps (chr '\x7d' :: rest)
    have hskip : skipSpace (chr ' ' :: (encodePairs (q :: ps) ++ chr '\x7d' :: rest)) =
        encodePairs (q :: ps) ++ chr '\x7d' :: rest := by
      rw [skipSpace_blank, hs, skipSpace_cons (by decide)]
    have hmoved : d ++ p :: q :: ps = (d ++ [(p.1, p.2)]) ++ q :: ps := by
      rw [List.append_assoc, List.singleton_append]
    rw [hmoved] at hkeys ⊢
    have hnext : q.1 ∉ (d ++ [(p.1, p.2)]).map Prod.fst := by
      rw [List.map_append, List.map_cons] at hkeys
      exact fun hmem => (List.nodup_append.mp hkeys).2.2 _ hmem _ List.mem_cons_self rfl
    rw [htext, scanMembers_pair hkey hvalue (delimited_comma _) (by decide), if_neg (by decide),
      if_pos rfl, dictSet_append hnew, hskip]
    exact ih hps (Nat.lt_of_succ_lt_succ hfuel) hkeys hnext

end Pairs

/-! ### The round trip -/

theorem scanContainer_arr {value : Scan Json} {elems : List Json} (h : ∀ v ∈ elems, Reads value v)
    (rest : PyStr) : scanContainer value (chr '[') (encodeElems elems ++ chr ']' :: rest) =
      .ok (.arr elems, rest) := by
  cases elems with
  | nil =>
    have hclose : isJsonSpace (chr ']') = false := by decide
    rw [encodeElems, List.nil_append, scanContainer, skipSpace_cons hclose]
    rfl
  | cons v vs =>
    obtain ⟨c, s, hs, hc⟩ := first_encodeElems (h v List.mem_cons_self) vs (chr ']' :: rest)
    have hne : c ≠ chr ']' := by
      rintro rfl
      exact hc (by simp [notFirst])
    have hfuel : vs.length < (encodeElems (v :: vs) ++ chr ']' :: rest).length + 1 := by
      have hlength := length_le_encodeElems h
      simp only [List.length_append, List.length_cons] at hlength ⊢
      omega
    have hscan := scanElems_encode h hfuel [] rest
    have hskip : skipSpace (encodeElems (v :: vs) ++ chr ']' :: rest) = c :: s := by
      rw [hs, skipSpace_cons (isJsonSpace_of_notFirst hc)]
    rw [scanContainer, hskip]
    simp only [show chr '[' ≠ chr '\x7b' by decide, ↓reduceIte, hne]
    rwa [← hs]

theorem scanContainer_obj {value : Scan Json} {pairs : List (PyStr × Json)}
    (hkeys : (pairs.map Prod.fst).Nodup) (h : ∀ p ∈ pairs, Scalar p.1 ∧ Reads value p.2)
    (rest : PyStr) : scanContainer value (chr '\x7b') (encodePairs pairs ++ chr '\x7d' :: rest) =
      .ok (.obj pairs, rest) := by
  cases pairs with
  | nil =>
    have hclose : isJsonSpace (chr '\x7d') = false := by decide
    rw [encodePairs, List.nil_append, scanContainer, skipSpace_cons hclose]
    rfl
  | cons p ps =>
    obtain ⟨s, hs⟩ := first_encodePairs p ps (chr '\x7d' :: rest)
    have hfuel : ps.length < (encodePairs (p :: ps) ++ chr '\x7d' :: rest).length := by
      have hlength := length_le_encodePairs (p :: ps)
      simp only [List.length_append, List.length_cons] at hlength ⊢
      omega
    have hscan := scanMembers_encode h hfuel (by rwa [List.nil_append]) rest
    have hskip : skipSpace (encodePairs (p :: ps) ++ chr '\x7d' :: rest) = chr '"' :: s := by
      rw [hs, skipSpace_cons (by decide)]
    rw [scanContainer, hskip]
    simp only [show chr '"' ≠ chr '\x7d' by decide, ↓reduceIte]
    rwa [← hs]

theorem reads_of_scanValue {container : Cp → Scan Json} {v : Json}
    (h : ∀ {rest}, Delimited rest → scanValue container (v.encode ++ rest) = .ok (v, rest)) :
    Reads (scanValue container) v := by
  have hend : Delimited [] := fun c hc => by cases hc
  obtain ⟨c, s, hs, hc⟩ := first_of_scanValue (h hend)
  rw [List.append_nil] at hs
  exact ⟨h, c, s, hs, hc⟩

theorem reads_scalar {v : Json} (h : ∀ container {rest}, Delimited rest →
    scanValue container (v.encode ++ rest) = .ok (v, rest)) (depth : Nat) :
    Reads (scanOnce depth) v := by
  cases depth with
  | zero => exact reads_of_scanValue (h _)
  | succ depth => exact reads_of_scanValue (h _)

/-- The scanner reads back every readable value. -/
theorem reads_scanOnce {depth : Nat} {v : Json} (h : Readable depth v) : Reads (scanOnce depth) v := by
  induction h with
  | null => exact reads_scalar (fun _ _ _ => rfl) _
  | bool b => exact reads_scalar (fun _ _ _ => by cases b <;> rfl) _
  | int hdigits => exact reads_scalar (fun container _ => scanValue_intText hdigits container) _
  | float hliteral =>
    refine reads_scalar (fun container {rest} hrest => ?_) _
    exact hliteral container rest hrest
  | str hscalar =>
    refine reads_scalar (fun container {rest} _ => ?_) _
    exact scanValue_dumpsStr container hscalar rest
  | @arr depth elems helems ih =>
    refine reads_of_scanValue fun {rest} _ => ?_
    have htext : (Json.arr elems).encode ++ rest =
        chr '[' :: (encodeElems elems ++ chr ']' :: rest) := by
      simp [Json.encode]
    rw [htext, scanValue_container _ (.inr rfl), scanContainer_arr ih]
  | @obj depth pairs hkeys hscalar hvalues ih =>
    refine reads_of_scanValue fun {rest} _ => ?_
    have htext : (Json.obj pairs).encode ++ rest =
        chr '\x7b' :: (encodePairs pairs ++ chr '\x7d' :: rest) := by
      simp [Json.encode]
    rw [htext, scanValue_container _ (.inl rfl),
      scanContainer_obj hkeys fun p hp => ⟨hscalar p hp, ih p hp⟩]

/-- `json.loads` undoes `json.dumps` on readable values. -/
theorem loads_encode (py : Interpreter) {v : Json} (h : Readable py.recursionLimit v) :
    loads py v.encode = .ok v := by
  have hreads := reads_scanOnce h
  have hend : Delimited [] := fun c hc => by cases hc
  obtain ⟨c, s, hs, hc⟩ := hreads.first
  have hscan := hreads.scan hend
  rw [List.append_nil, hs] at hscan
  have hmark : (c :: s).head? ≠ some byteOrderMark := by
    intro heq
    exact hc (Option.some.inj heq ▸ by simp [notFirst])
  rw [loads, scanDocument, hs, if_neg hmark, skipSpace_cons (isJsonSpace_of_notFirst hc), hscan]
  rfl

end Clickstream.Python
