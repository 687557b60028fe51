import Clickstream.Python.Json

/-! Where `json.loads` meets its limits: the places of a document at which a value begins, which the
scanner comes to before its first fault, and the literals and brackets there that it refuses. -/

namespace Clickstream.Python

/-! ### Every scanner reads forward -/

theorem push_ok {c : Cp} {r : Except Fault (PyStr × PyStr)} {t rest : PyStr}
    (h : push c r = .ok (t, rest)) : ∃ t', r = .ok (t', rest) := by
  cases r with
  | ok p => cases h; exact ⟨p.1, rfl⟩
  | error fault => cases h

theorem push_error {c : Cp} {r : Except Fault (PyStr × PyStr)} {fault : Fault}
    (h : push c r = .error fault) : r = .error fault := by
  cases r with
  | ok p => cases h
  | error fault => cases h; rfl

theorem scanString_length {s t rest : PyStr} (h : scanString s = .ok (t, rest)) :
    rest.length < s.length := by
  fun_induction scanString s generalizing t
  all_goals first | cases h; done | skip
  case case2 =>
    cases h
    exact Nat.lt_succ_self _
  -- a character or an escape, and the string behind it
  all_goals
    rename_i ih
    obtain ⟨t', ht'⟩ := push_ok h
    have hlt := ih ht'
    simp only [List.length_cons] at hlt ⊢
    omega

theorem scanString_error {s : PyStr} {fault : Fault} (h : scanString s = .error fault) :
    fault = .decode := by
  fun_induction scanString s
  all_goals first | cases h; rfl | skip
  case case2 => cases h
  all_goals
    rename_i ih
    exact ih (push_error h)

/-- An integer is the digit zero, or all digits from one that is not zero on. -/
theorem scanInteger_some {s digits rest : PyStr} (h : scanInteger s = some (digits, rest)) :
    s = digits ++ rest ∧ (digits = [chr '0'] ∨
      ∃ c, isAsciiDigit c = true ∧ c ≠ chr '0' ∧ digits = c :: s.tail.takeWhile isAsciiDigit ∧
        rest = s.tail.dropWhile isAsciiDigit) := by
  cases s with
  | nil => cases h
  | cons c s =>
    rw [scanInteger] at h
    split at h
    · rename_i hzero
      cases h
      exact ⟨rfl, .inl (by rw [hzero])⟩
    · rename_i hzero
      split at h
      · rename_i hdigit
        cases h
        refine ⟨?_, .inr ⟨c, hdigit, hzero, rfl, rfl⟩⟩
        exact congrArg (c :: ·) List.takeWhile_append_dropWhile.symm
      · cases h

theorem length_pos_of_scanInteger {s digits rest : PyStr} (h : scanInteger s = some (digits, rest)) :
    0 < digits.length := by
  rcases (scanInteger_some h).2 with rfl | ⟨c, -, -, rfl, -⟩
  · exact Nat.zero_lt_one
  · exact Nat.succ_pos _

theorem scanInteger_digits {digits rest : PyStr} (hne : digits ≠ [])
    (hdigits : ∀ c ∈ digits, isAsciiDigit c = true) (hzero : digits.head? ≠ some (chr '0'))
    (hrest : ∀ c ∈ rest.head?, isAsciiDigit c = false) :
    scanInteger (digits ++ rest) = some (digits, rest) := by
  obtain ⟨c, digits, rfl⟩ := List.exists_cons_of_ne_nil hne
  obtain ⟨hc, hdigits⟩ := List.forall_mem_cons.mp hdigits
  have hne : c ≠ chr '0' := fun h => hzero (by rw [h]; rfl)
  have hstop : rest.takeWhile isAsciiDigit = [] ∧ rest.dropWhile isAsciiDigit = rest := by
    cases rest with
    | nil => exact ⟨rfl, rfl⟩
    | cons d rest => simp [hrest d rfl]
  rw [List.cons_append, scanInteger, if_neg hne, if_pos hc, spanDigits,
    List.takeWhile_append_of_pos hdigits, List.dropWhile_append_of_pos hdigits, hstop.1, hstop.2,
    List.append_nil]

theorem length_scanFraction (s : PyStr) : (scanFraction s).2.length ≤ s.length := by
  unfold scanFraction
  split
  · exact le_refl _
  · split
    · exact (List.length_dropWhile_le ..).trans (Nat.le_succ _)
    · exact le_refl _

theorem length_scanExponent (s : PyStr) : (scanExponent s).2.length ≤ s.length := by
  unfold scanExponent
  split
  · exact le_refl _
  · split
    · simp only
      split
      · apply (List.length_dropWhile_le ..).trans
        rw [List.length_drop, List.length_cons]
        omega
      · exact le_refl _
    · exact le_refl _

def minusSign (s : PyStr) : PyStr := (s.take 1).filter fun c => decide (c = chr '-')

theorem minusSign_cases (s : PyStr) : minusSign s = [] ∨ minusSign s = [chr '-'] := by
  cases s with
  | nil => exact .inl rfl
  | cons c s =>
    by_cases hc : c = chr '-'
    · subst hc
      exact .inr rfl
    · exact .inl (by simp [minusSign, hc])

theorem minusSign_append_drop (s : PyStr) : minusSign s ++ s.drop (minusSign s).length = s := by
  cases s with
  | nil => rfl
  | cons c s =>
    by_cases hc : c = chr '-'
    · subst hc
      rfl
    · simp [minusSign, hc]

theorem scanNumber_length {s rest : PyStr} {v : Json} (h : scanNumber s = .ok (v, rest)) :
    rest.length < s.length := by
  have hsign := congrArg List.length (minusSign_append_drop s)
  rw [List.length_append] at hsign
  rw [scanNumber] at h
  simp only at h
  split at h
  · cases h
  · rename_i digits s₁ hinteger
    have hlength := congrArg List.length (scanInteger_some hinteger).1
    have hpos := length_pos_of_scanInteger hinteger
    have hfraction := length_scanFraction s₁
    have hexponent := length_scanExponent (scanFraction s₁).2
    rw [List.length_append] at hlength
    change (s.drop (minusSign s).length).length = _ at hlength
    split at h
    · cases h
      omega
    · split at h
      · cases h
      · cases h
        omega

/-! ### Literals over the digit limit -/

/-- The text begins with an integer literal of more than `maxStrDigits` digits. -/
def LongInteger (s : PyStr) : Prop :=
  ∃ digits rest, s = minusSign s ++ (digits ++ rest) ∧ maxStrDigits < digits.length ∧
    (∀ c ∈ digits, isAsciiDigit c = true) ∧ digits.head? ≠ some (chr '0') ∧
    (∀ c ∈ rest.head?, isAsciiDigit c = false) ∧
    (scanFraction rest).1 = [] ∧ (scanExponent rest).1 = []

theorem scanFraction_of_nil {s : PyStr} (h : (scanFraction s).1 = []) : (scanFraction s).2 = s := by
  cases s with
  | nil => rfl
  | cons c s =>
    simp only [scanFraction] at h ⊢
    split at h
    · cases h
    · rename_i hnone
      rw [if_neg hnone]

theorem scanNumber_error {s : PyStr} {fault : Fault} (h : scanNumber s = .error fault) :
    fault = .decode ∨ (∃ count, fault = .digits count) ∧ LongInteger s := by
  rw [scanNumber] at h
  simp only at h
  split at h
  · cases h
    exact .inl rfl
  · rename_i digits s₁ hinteger
    split at h
    · cases h
    · rename_i hnone
      rw [not_or, not_not, not_not] at hnone
      obtain ⟨hfraction, hexponent⟩ := hnone
      rw [scanFraction_of_nil hfraction] at hexponent
      split at h
      · rename_i hlong
        cases h
        obtain ⟨htext, hzero | ⟨c, hc, hne, hdigits, hrest⟩⟩ := scanInteger_some hinteger
        · rw [hzero] at hlong
          exact absurd hlong (by decide)
        · refine .inr ⟨⟨_, rfl⟩, digits, s₁, ?_, hlong, ?_, ?_, ?_, hfraction, hexponent⟩
          · rw [← htext]
            exact (minusSign_append_drop s).symm
          · rw [hdigits]
            exact List.forall_mem_cons.mpr ⟨hc, fun d hd => List.mem_takeWhile_imp hd⟩
          · rw [hdigits]
            exact fun h => hne (Option.some.inj h)
          · rw [hrest]
            exact head?_dropWhile _
      · cases h

theorem scanNumber_longInteger {s : PyStr} (h : LongInteger s) :
    ∃ count, scanNumber s = .error (.digits count) := by
  obtain ⟨digits, rest, hs, hlong, hdigits, hzero, hrest, hfraction, hexponent⟩ := h
  have hne : digits ≠ [] := List.ne_nil_of_length_pos (Nat.zero_lt_of_lt hlong)
  have hdrop : s.drop (minusSign s).length = digits ++ rest := by
    have happend := minusSign_append_drop s
    exact List.append_cancel_left (happend.trans hs)
  have hinteger := scanInteger_digits hne hdigits hzero hrest
  have hsign : (s.take 1).filter (fun c => decide (c = chr '-')) = minusSign s := rfl
  refine ⟨digits.length, ?_⟩
  simp only [scanNumber, hsign, hdrop, hinteger, hfraction, scanFraction_of_nil hfraction, hexponent,
    ne_eq, not_true_eq_false, or_self, if_false, if_pos hlong]

/-! ### Values and containers -/

theorem skipSpace_length (s : PyStr) : (skipSpace s).length ≤ s.length :=
  List.length_dropWhile_le ..

theorem length_constants : ∀ w ∈ constants, 0 < w.1.length := by decide

def Consumes (scan : Scan Json) : Prop :=
  ∀ s v rest, scan s = .ok (v, rest) → rest.length < s.length

/-- What one round of `scanElems` does. -/
inductive ElemsStep (value : Scan Json) (fuel : Nat) (vs : List Json) (s : PyStr) :
    Except Fault (Json × PyStr) → Prop
  | decode : ElemsStep value fuel vs s (.error .decode)
  | fault {fault : Fault} (hvalue : value s = .error fault) : ElemsStep value fuel vs s (.error fault)
  | last {v : Json} {s₁ rest : PyStr} (hvalue : value s = .ok (v, s₁))
      (hclose : skipSpace s₁ = chr ']' :: rest) :
      ElemsStep value fuel vs s (.ok (.arr (vs ++ [v]), rest))
  | next {v : Json} {s₁ s₂ : PyStr} {r : Except Fault (Json × PyStr)}
      (hvalue : value s = .ok (v, s₁)) (hcomma : skipSpace s₁ = chr ',' :: s₂)
      (hnext : scanElems value fuel (vs ++ [v]) (skipSpace s₂) = r) : ElemsStep value fuel vs s r

theorem scanElems_step (value : Scan Json) (fuel : Nat) (vs : List Json) (s : PyStr) :
    ElemsStep value fuel vs s (scanElems value (fuel + 1) vs s) := by
  rw [scanElems]
  split
  · exact .fault ‹_›
  · rename_i v s₁ hvalue
    split
    · exact .decode
    · rename_i c s₂ hskip
      split
      · rename_i hc
        exact .last hvalue (by rw [hskip, hc])
      · split
        · rename_i hc
          exact .next hvalue (by rw [hskip, hc]) rfl
        · exact .decode

theorem scanElems_length {value : Scan Json} (hvalue : Consumes value) {fuel : Nat} {vs : List Json}
    {s rest : PyStr} {v : Json} (h : scanElems value fuel vs s = .ok (v, rest)) :
    rest.length < s.length := by
  induction fuel generalizing vs s with
  | zero => cases h
  | succ fuel ih =>
    have hstep := scanElems_step value fuel vs s
    rw [h] at hstep
    cases hstep with
    | @last w s₁ _ hw hclose =>
      have hlt := hvalue s w s₁ hw
      have hskip := skipSpace_length s₁
      rw [hclose, List.length_cons] at hskip
      omega
    | @next w s₁ s₂ _ hw hcomma hnext =>
      have hlt := hvalue s w s₁ hw
      have hskip := skipSpace_length s₁
      have hskip' := skipSpace_length s₂
      have hrest := ih hnext
      rw [hcomma, List.length_cons] at hskip
      omega

/-- The text begins with a key and a colon, and `t` is the text of the value behind them. -/
def Member (s : PyStr) (key t : PyStr) : Prop :=
  ∃ s₁ s₂ s₃, s = chr '"' :: s₁ ∧ scanString s₁ = .ok (key, s₂) ∧ skipSpace s₂ = chr ':' :: s₃ ∧
    t = skipSpace s₃

theorem Member.length {s key t : PyStr} (h : Member s key t) : t.length < s.length := by
  obtain ⟨s₁, s₂, s₃, rfl, hkey, hcolon, rfl⟩ := h
  have hstring := scanString_length hkey
  have hskip := skipSpace_length s₂
  have hskip' := skipSpace_length s₃
  rw [hcolon, List.length_cons] at hskip
  rw [List.length_cons]
  omega

/-- What follows a value in an object. -/
def afterMember (value : Scan Json) (fuel : Nat) (d : List (PyStr × Json)) (key s : PyStr) (v : Json) :
    Except Fault (Json × PyStr) :=
  match skipSpace s with
  | [] => .error .decode
  | c :: s' =>
    if c = chr '}' then .ok (.obj (dictSet key v d), s')
    else if c = chr ',' then scanMembers value fuel (dictSet key v d) (skipSpace s')
    else .error .decode

theorem scanMembers_of_member (value : Scan Json) (fuel : Nat) (d : List (PyStr × Json))
    {s key t : PyStr} (h : Member s key t) :
    scanMembers value (fuel + 1) d s =
      (value t).bind fun r => afterMember value fuel d key r.2 r.1 := by
  obtain ⟨s₁, s₂, s₃, rfl, hkey, hcolon, rfl⟩ := h
  simp only [scanMembers, if_pos, hkey, hcolon]
  cases value (skipSpace s₃) with
  | error fault => rfl
  | ok r => rfl

theorem scanMembers_of_not_member (value : Scan Json) (fuel : Nat) (d : List (PyStr × Json))
    {s : PyStr} (h : ∀ key t, ¬Member s key t) :
    scanMembers value (fuel + 1) d s = .error .decode := by
  cases s with
  | nil => rfl
  | cons q s₁ =>
    simp only [scanMembers]
    split
    · rename_i hq
      cases hkey : scanString s₁ with
      | error fault => rw [scanString_error hkey]
      | ok r =>
        obtain ⟨key, s₂⟩ := r
        simp only
        cases hcolon : skipSpace s₂ with
        | nil => rfl
        | cons colon s₃ =>
          by_cases heq : colon = chr ':'
          · exact absurd ⟨s₁, s₂, s₃, by rw [hq], hkey, by rw [hcolon, heq], rfl⟩ (h key _)
          · exact if_neg heq
    · rfl

/-- What one round of `scanMembers` does. -/
inductive MembersStep (value : Scan Json) (fuel : Nat) (d : List (PyStr × Json)) (s : PyStr) :
    Except Fault (Json × PyStr) → Prop
  | decode : MembersStep value fuel d s (.error .decode)
  | fault {key t : PyStr} {fault : Fault} (hmember : Member s key t) (hvalue : value t = .error fault) :
      MembersStep value fuel d s (.error fault)
  | last {key t s₁ rest : PyStr} {v : Json} (hmember : Member s key t) (hvalue : value t = .ok (v, s₁))
      (hclose : skipSpace s₁ = chr '}' :: rest) :
      MembersStep value fuel d s (.ok (.obj (dictSet key v d), rest))
  | next {key t s₁ s₂ : PyStr} {v : Json} {r : Except Fault (Json × PyStr)} (hmember : Member s key t)
      (hvalue : value t = .ok (v, s₁)) (hcomma : skipSpace s₁ = chr ',' :: s₂)
      (hnext : scanMembers value fuel (dictSet key v d) (skipSpace s₂) = r) :
      MembersStep value fuel d s r

theorem scanMembers_step (value : Scan Json) (fuel : Nat) (d : List (PyStr × Json)) (s : PyStr) :
    MembersStep value fuel d s (scanMembers value (fuel + 1) d s) := by
  by_cases hmember : ∃ key t, Member s key t
  · obtain ⟨key, t, hmember⟩ := hmember
    rw [scanMembers_of_member _ _ _ hmember]
    cases hvalue : value t with
    | error fault => exact .fault hmember hvalue
    | ok r =>
      show MembersStep value fuel d s (afterMember value fuel d key r.2 r.1)
      unfold afterMember
      split
      · exact .decode
      · rename_i c s' hskip
        split
        · rename_i hc
          exact .last hmember hvalue (by rw [hskip, hc])
        · split
          · rename_i hc
            exact .next hmember hvalue (by rw [hskip, hc]) rfl
          · exact .decode
  · rw [scanMembers_of_not_member _ _ _ fun key t hm => hmember ⟨key, t, hm⟩]
    exact .decode

theorem scanMembers_length {value : Scan Json} (hvalue : Consumes value) {fuel : Nat}
    {d : List (PyStr × Json)} {s rest : PyStr} {v : Json}
    (h : scanMembers value fuel d s = .ok (v, rest)) : rest.length < s.length := by
  induction fuel generalizing d s with
  | zero => cases h
  | succ fuel ih =>
    have hstep := scanMembers_step value fuel d s
    rw [h] at hstep
    cases hstep with
    | @last key t s₁ _ w hmember hw hclose =>
      have hlt := hmember.length
      have hlt' := hvalue t w s₁ hw
      have hskip := skipSpace_length s₁
      rw [hclose, List.length_cons] at hskip
      omega
    | @next key t s₁ s₂ w _ hmember hw hcomma hnext =>
      have hlt := hmember.length
      have hlt' := hvalue t w s₁ hw
      have hskip := skipSpace_length s₁
      have hskip' := skipSpace_length s₂
      have hrest := ih hnext
      rw [hcomma, List.length_cons] at hskip
      omega

theorem scanContainer_length {value : Scan Json} (hvalue : Consumes value) {bracket : Cp}
    {s rest : PyStr} {v : Json} (h : scanContainer value bracket s = .ok (v, rest)) :
    rest.length < s.length := by
  have hskip := skipSpace_length s
  unfold scanContainer at h
  split at h
  · cases h
  · rename_i c s₁ hs₁
    rw [hs₁, List.length_cons] at hskip
    split at h
    · split at h
      · cases h
        omega
      · have hlt := scanMembers_length hvalue h
        rw [List.length_cons] at hlt
        omega
    · split at h
      · cases h
        omega
      · have hlt := scanElems_length hvalue h
        rw [List.length_cons] at hlt
        omega

theorem scanValue_length {container : Cp → Scan Json} (hcontainer : ∀ c, Consumes (container c)) :
    Consumes (scanValue container) := by
  intro s v rest h
  cases s with
  | nil => cases h
  | cons c s =>
    simp only [scanValue] at h
    split at h
    · cases hstring : scanString s with
      | error fault => rw [hstring] at h; cases h
      | ok r =>
        rw [hstring] at h
        cases h
        exact (scanString_length hstring).trans (Nat.lt_succ_self _)
    · split at h
      · exact (hcontainer c s v rest h).trans (Nat.lt_succ_self _)
      · split at h
        · rename_i w hw
          have hpos := length_constants w (List.mem_of_find?_eq_some hw)
          cases h
          rw [List.length_drop, List.length_cons]
          omega
        · exact scanNumber_length h

theorem scanOnce_length (depth : Nat) : Consumes (scanOnce depth) := by
  induction depth with
  | zero => exact scanValue_length fun _ _ _ _ h => nomatch h
  | succ depth ih => exact scanValue_length fun _ _ _ _ h => scanContainer_length ih h

/-! ### The places of values -/

/-- The elements of an array that are read one after the other: `t` is the text of one of them. -/
inductive ElementAt (value : Scan Json) : PyStr → PyStr → Prop
  | first (s : PyStr) : ElementAt value s s
  | next {s s₁ s₂ t : PyStr} {v : Json} (hvalue : value s = .ok (v, s₁))
      (hcomma : skipSpace s₁ = chr ',' :: s₂) (helement : ElementAt value (skipSpace s₂) t) :
      ElementAt value s t

inductive MemberAt (value : Scan Json) : PyStr → PyStr → Prop
  | first {s key t : PyStr} (hmember : Member s key t) : MemberAt value s t
  | next {s key t s₁ s₂ t' : PyStr} {v : Json} (hmember : Member s key t)
      (hvalue : value t = .ok (v, s₁)) (hcomma : skipSpace s₁ = chr ',' :: s₂)
      (hnext : MemberAt value (skipSpace s₂) t') : MemberAt value s t'

/-- Reading a value at `s` with `depth` levels of nesting left, the scanner comes to a value at `t` with
`d` levels left. -/
inductive ComesTo : Nat → PyStr → Nat → PyStr → Prop
  | here (depth : Nat) (s : PyStr) : ComesTo depth s depth s
  | element {depth d : Nat} {s t t' : PyStr} (hne : (skipSpace s).head? ≠ some (chr ']'))
      (helement : ElementAt (scanOnce depth) (skipSpace s) t) (hrest : ComesTo depth t d t') :
      ComesTo (depth + 1) (chr '[' :: s) d t'
  | member {depth d : Nat} {s t t' : PyStr} (hmember : MemberAt (scanOnce depth) (skipSpace s) t)
      (hrest : ComesTo depth t d t') : ComesTo (depth + 1) (chr '{' :: s) d t'

/-- The text begins with a container, and no level is left for it. -/
def TooDeep (depth : Nat) (s : PyStr) : Prop :=
  depth = 0 ∧ (s.head? = some (chr '{') ∨ s.head? = some (chr '['))

theorem elementAt_of_error {value : Scan Json} {fuel : Nat} {vs : List Json} {s : PyStr}
    {fault : Fault} (h : scanElems value fuel vs s = .error fault) (hfault : fault ≠ .decode) :
    ∃ t, ElementAt value s t ∧ value t = .error fault := by
  induction fuel generalizing vs s with
  | zero =>
    cases h
    exact absurd rfl hfault
  | succ fuel ih =>
    have hstep := scanElems_step value fuel vs s
    rw [h] at hstep
    cases hstep with
    | decode => exact absurd rfl hfault
    | fault hvalue => exact ⟨s, .first s, hvalue⟩
    | next hvalue hcomma hnext =>
      obtain ⟨t, helement, ht⟩ := ih hnext
      exact ⟨t, .next hvalue hcomma helement, ht⟩

/-- The fuel of an array is never used up. -/
theorem ElementAt.error {value : Scan Json} (hvalue : Consumes value) {s t : PyStr} {fault : Fault}
    (h : ElementAt value s t) (ht : value t = .error fault) {fuel : Nat} (hfuel : s.length < fuel)
    (vs : List Json) : scanElems value fuel vs s = .error fault := by
  induction h generalizing fuel vs with
  | first s =>
    obtain ⟨fuel, rfl⟩ := Nat.exists_eq_succ_of_ne_zero (Nat.ne_zero_of_lt hfuel)
    rw [scanElems, ht]
  | @next s s₁ s₂ t v hv hcomma helement ih =>
    obtain ⟨fuel, rfl⟩ := Nat.exists_eq_succ_of_ne_zero (Nat.ne_zero_of_lt hfuel)
    have hlt := hvalue s v s₁ hv
    have hskip := skipSpace_length s₁
    have hskip' := skipSpace_length s₂
    rw [hcomma, List.length_cons] at hskip
    rw [scanElems, hv]
    simp only [hcomma]
    rw [if_neg (by decide), if_pos trivial]
    exact ih ht (by omega) _

theorem memberAt_of_error {value : Scan Json} {fuel : Nat} {d : List (PyStr × Json)} {s : PyStr}
    {fault : Fault} (h : scanMembers value fuel d s = .error fault) (hfault : fault ≠ .decode) :
    ∃ t, MemberAt value s t ∧ value t = .error fault := by
  induction fuel generalizing d s with
  | zero =>
    cases h
    exact absurd rfl hfault
  | succ fuel ih =>
    have hstep := scanMembers_step value fuel d s
    rw [h] at hstep
    cases hstep with
    | decode => exact absurd rfl hfault
    | fault hmember hvalue => exact ⟨_, .first hmember, hvalue⟩
    | next hmember hvalue hcomma hnext =>
      obtain ⟨t, hat, ht⟩ := ih hnext
      exact ⟨t, .next hmember hvalue hcomma hat, ht⟩

theorem MemberAt.error {value : Scan Json} (hvalue : Consumes value) {s t : PyStr} {fault : Fault}
    (h : MemberAt value s t) (ht : value t = .error fault) {fuel : Nat} (hfuel : s.length ≤ fuel)
    (d : List (PyStr × Json)) : scanMembers value fuel d s = .error fault := by
  induction h generalizing fuel d with
  | first hmember =>
    have hlt := hmember.length
    obtain ⟨fuel, rfl⟩ := Nat.exists_eq_succ_of_ne_zero (show fuel ≠ 0 by omega)
    rw [scanMembers_of_member _ _ _ hmember, ht]
    rfl
  | @next s key t₀ s₁ s₂ t v hmember hv hcomma hnext ih =>
    have hlt := hmember.length
    obtain ⟨fuel, rfl⟩ := Nat.exists_eq_succ_of_ne_zero (show fuel ≠ 0 by omega)
    have hlt' := hvalue t₀ v s₁ hv
    have hskip := skipSpace_length s₁
    have hskip' := skipSpace_length s₂
    rw [hcomma, List.length_cons] at hskip
    rw [scanMembers_of_member _ _ _ hmember, hv]
    change afterMember value fuel d key s₁ v = _
    simp only [afterMember, hcomma]
    rw [if_neg (by decide), if_pos trivial]
    exact ih ht (by omega) _

/-! ### The limits of a document -/

theorem scanValue_container (container : Cp → Scan Json) {c : Cp} (hc : c = chr '{' ∨ c = chr '[')
    (s : PyStr) : scanValue container (c :: s) = container c s := by
  have hquote : c ≠ chr '"' := by
    rcases hc with rfl | rfl <;> decide
  rw [scanValue, if_neg hquote, if_pos hc]

theorem constants_spec {w : PyStr × Json} (hw : w ∈ constants) :
    ∃ a b rest, w.1 = a :: b :: rest ∧ isAsciiDigit a = false ∧ isAsciiDigit b = false := by
  have hall : constants.all fun w =>
      decide (2 ≤ w.1.length) && (w.1.take 2).all (!isAsciiDigit ·) := rfl
  have hspec := List.all_eq_true.mp hall w hw
  rw [Bool.and_eq_true, decide_eq_true_iff] at hspec
  obtain ⟨hlength, hdigits⟩ := hspec
  cases htext : w.1 with
  | nil =>
    rw [htext] at hlength
    exact absurd hlength (by decide)
  | cons a tail =>
    cases tail with
    | nil =>
      rw [htext] at hlength
      exact absurd hlength (by simp)
    | cons b rest =>
      rw [htext] at hdigits
      simp only [List.take_succ_cons, List.take_zero, List.all_cons, List.all_nil, Bool.and_true,
        Bool.and_eq_true, Bool.not_eq_true'] at hdigits
      exact ⟨a, b, rest, rfl, hdigits⟩

/-- A value that begins with a digit, perhaps behind a minus sign, is a number. -/
theorem scanValue_number (container : Cp → Scan Json) {s tail : PyStr} {c : Cp}
    (hs : s = minusSign s ++ c :: tail) (hc : isAsciiDigit c = true) :
    scanValue container s = scanNumber s := by
  have hfind : constants.find? (fun w => w.1.isPrefixOf s) = none := by
    rw [List.find?_eq_none]
    intro w hw hprefix
    obtain ⟨a, b, l, heq, ha, hb⟩ := constants_spec hw
    rw [heq, List.isPrefixOf_iff_prefix, hs] at hprefix
    rcases minusSign_cases s with hsign | hsign
    · rw [hsign, List.nil_append, List.cons_prefix_cons] at hprefix
      rw [← hprefix.1, ha] at hc
      cases hc
    · rw [hsign, List.singleton_append, List.cons_prefix_cons, List.cons_prefix_cons] at hprefix
      rw [← hprefix.2.1, hb] at hc
      cases hc
  obtain ⟨x, s', rfl, hx⟩ : ∃ x s', s = x :: s' ∧ x ≠ chr '"' ∧ ¬(x = chr '{' ∨ x = chr '[') := by
    rcases minusSign_cases s with hsign | hsign
    · refine ⟨c, tail, by rw [hs, hsign]; rfl, fun h => ?_, fun h => ?_⟩
      · rw [h] at hc
        cases hc
      · rcases h with h | h <;> rw [h] at hc <;> cases hc
    · exact ⟨chr '-', c :: tail, by rw [hs, hsign]; rfl, by decide, by decide⟩
  rw [scanValue, if_neg hx.1, if_neg hx.2, hfind]

theorem scanValue_longInteger (container : Cp → Scan Json) {s : PyStr} (h : LongInteger s) :
    ∃ count, scanValue container s = .error (.digits count) := by
  obtain ⟨count, hnumber⟩ := scanNumber_longInteger h
  obtain ⟨digits, rest, hs, hlong, hdigits, -⟩ := h
  obtain ⟨c, digits, rfl⟩ :=
    List.exists_cons_of_ne_nil (List.ne_nil_of_length_pos (Nat.zero_lt_of_lt hlong))
  rw [scanValue_number container hs (hdigits c List.mem_cons_self)]
  exact ⟨count, hnumber⟩

theorem scanValue_error {container : Cp → Scan Json} {s : PyStr} {fault : Fault}
    (h : scanValue container s = .error fault) (hfault : fault ≠ .decode) :
    (∃ c rest, s = c :: rest ∧ (c = chr '{' ∨ c = chr '[') ∧ container c rest = .error fault) ∨
      LongInteger s := by
  cases s with
  | nil =>
    cases h
    exact absurd rfl hfault
  | cons c s =>
    simp only [scanValue] at h
    split at h
    · cases hstring : scanString s with
      | error fault' =>
        rw [hstring] at h
        cases h
        exact absurd (scanString_error hstring) hfault
      | ok r => rw [hstring] at h; cases h
    · split at h
      · rename_i hc
        exact .inl ⟨c, s, rfl, hc, h⟩
      · split at h
        · cases h
        · rcases scanNumber_error h with hdecode | ⟨-, hlong⟩
          · exact absurd hdecode hfault
          · exact .inr hlong

/-- The scanner meets a limit only at a place that it comes to. -/
theorem comesTo_of_error {depth : Nat} {s : PyStr} {fault : Fault}
    (h : scanOnce depth s = .error fault) (hfault : fault ≠ .decode) :
    ∃ d t, ComesTo depth s d t ∧ (TooDeep d t ∨ LongInteger t) := by
  induction depth generalizing s with
  | zero =>
    rcases scanValue_error h hfault with ⟨c, rest, rfl, hc, -⟩ | hlong
    · refine ⟨0, c :: rest, .here 0 _, .inl ⟨rfl, ?_⟩⟩
      rcases hc with rfl | rfl
      · exact .inl rfl
      · exact .inr rfl
    · exact ⟨0, s, .here 0 s, .inr hlong⟩
  | succ depth ih =>
    rcases scanValue_error h hfault with ⟨c, rest, rfl, hc, hcontainer⟩ | hlong
    · unfold scanContainer at hcontainer
      split at hcontainer
      · cases hcontainer
        exact absurd rfl hfault
      · rename_i x s₁ hs₁
        split at hcontainer
        · rename_i hbracket
          split at hcontainer
          · cases hcontainer
          · obtain ⟨t, hmember, ht⟩ := memberAt_of_error hcontainer hfault
            obtain ⟨d, t', hcomes, ht'⟩ := ih ht
            subst hbracket
            exact ⟨d, t', .member (hs₁ ▸ hmember) hcomes, ht'⟩
        · rename_i hbracket
          split at hcontainer
          · cases hcontainer
          · rename_i hclose
            obtain ⟨t, helement, ht⟩ := elementAt_of_error hcontainer hfault
            obtain ⟨d, t', hcomes, ht'⟩ := ih ht
            obtain rfl := hc.resolve_left hbracket
            refine ⟨d, t', .element ?_ (hs₁ ▸ helement) hcomes, ht'⟩
            rw [hs₁]
            exact fun h => hclose (Option.some.inj h)
    · exact ⟨depth + 1, s, .here _ s, .inr hlong⟩

theorem scanOnce_nil (depth : Nat) : scanOnce depth [] = .error .decode := by
  cases depth with
  | zero => rfl
  | succ depth => rfl

/-- At a container too deep or an integer too long, a scanner that comes to it stops. -/
theorem ComesTo.error {depth d : Nat} {s t : PyStr} (h : ComesTo depth s d t)
    (ht : TooDeep d t ∨ LongInteger t) : ∃ fault, fault ≠ .decode ∧ scanOnce depth s = .error fault := by
  induction h with
  | here depth s =>
    rcases ht with ⟨rfl, hhead⟩ | hlong
    · obtain ⟨c, s, rfl⟩ : ∃ c s', s = c :: s' := by
        cases s with
        | nil => rcases hhead with h | h <;> cases h
        | cons c s => exact ⟨c, s, rfl⟩
      have hc : c = chr '{' ∨ c = chr '[' := hhead.imp Option.some.inj Option.some.inj
      exact ⟨.recursion, by decide, scanValue_container _ hc s⟩
    · obtain ⟨count, hscan⟩ : ∃ count, scanOnce depth s = .error (.digits count) := by
        cases depth with
        | zero => exact scanValue_longInteger _ hlong
        | succ depth => exact scanValue_longInteger _ hlong
      exact ⟨.digits count, nofun, hscan⟩
  | @element depth d s t t' hne helement hrest ih =>
    obtain ⟨fault, hfault, hscan⟩ := ih ht
    have hskip := skipSpace_length s
    refine ⟨fault, hfault, ?_⟩
    rw [scanOnce, scanValue_container _ (.inr rfl), scanContainer]
    cases hs : skipSpace s with
    | nil =>
      rw [hs] at helement
      have herror := helement.error (scanOnce_length depth) hscan Nat.zero_lt_one []
      rw [scanElems, scanOnce_nil] at herror
      cases herror
      exact absurd rfl hfault
    | cons c s₁ =>
      rw [hs] at hne helement hskip
      have hclose : c ≠ chr ']' := fun h => hne (by rw [h]; rfl)
      simp only
      rw [if_neg (by decide), if_neg hclose]
      exact helement.error (scanOnce_length depth) hscan (Nat.lt_succ_of_le hskip) []
  | @member depth d s t t' hmember hrest ih =>
    obtain ⟨fault, hfault, hscan⟩ := ih ht
    have hskip := skipSpace_length s
    refine ⟨fault, hfault, ?_⟩
    rw [scanOnce, scanValue_container _ (.inl rfl), scanContainer]
    obtain ⟨s₁, hs⟩ : ∃ s₁, skipSpace s = chr '"' :: s₁ := by
      cases hmember with
      | first h => obtain ⟨s₁, _, _, hs, -⟩ := h; exact ⟨s₁, hs⟩
      | next h => obtain ⟨s₁, _, _, hs, -⟩ := h; exact ⟨s₁, hs⟩
    rw [hs] at hmember hskip
    simp only [hs]
    rw [if_pos trivial, if_neg (by decide)]
    exact hmember.error (scanOnce_length depth) hscan hskip []

/-- Of the values that the scanner comes to in a document, with `depth` levels of nesting, none is a
container too deep or an integer too long. A byte order mark stops the scanner in front of them. -/
def WithinLimits (depth : Nat) (s : PyStr) : Prop :=
  s.head? ≠ some byteOrderMark → ∀ d t, ComesTo depth (skipSpace s) d t → ¬TooDeep d t ∧ ¬LongInteger t

/-- A document is refused for a limit exactly when it is not within the limits. -/
theorem withinLimits_iff {depth : Nat} {s : PyStr} :
    WithinLimits depth s ↔ ∀ fault, scanDocument depth s = .error fault → fault = .decode := by
  rw [WithinLimits, scanDocument]
  by_cases hmark : s.head? = some byteOrderMark
  · rw [if_pos hmark]
    apply iff_of_true (fun h => absurd hmark h)
    intro fault h
    cases h
    rfl
  · rw [if_neg hmark]
    constructor
    · intro h fault hfault
      by_contra hne
      cases hscan : scanOnce depth (skipSpace s) with
      | error fault' =>
        rw [hscan] at hfault
        cases hfault
        obtain ⟨d, t, hcomes, ht⟩ := comesTo_of_error hscan hne
        obtain ⟨hdeep, hlong⟩ := h hmark d t hcomes
        exact ht.elim hdeep hlong
      | ok r =>
        rw [hscan] at hfault
        simp only at hfault
        split at hfault
        · cases hfault
        · cases hfault
          exact hne rfl
    · intro h _ d t hcomes
      rw [← not_or]
      intro ht
      obtain ⟨fault, hne, hscan⟩ := hcomes.error ht
      exact hne (h fault (by rw [hscan]))

end Clickstream.Python
