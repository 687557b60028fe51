import Clickstream.Kit.Alike
import Clickstream.Python.Uuid

/-! How UUIDs are spelled: the plain spelling of 32 lower-case digits, and what two spellings of one
UUID have in common. -/

namespace Clickstream.Python

open Kit

/-! ### Removal -/

theorem removeFrom_cons_pos {c : Cp} {w s : PyStr} (h : w <+: c :: s) :
    removeFrom w 0 (c :: s) = removeFrom w (w.length - 1) s :=
  if_pos (List.isPrefixOf_iff_prefix.mpr h)

theorem removeFrom_cons_neg {c : Cp} {w s : PyStr} (h : ¬w <+: c :: s) :
    removeFrom w 0 (c :: s) = c :: removeFrom w 0 s :=
  if_neg (mt List.isPrefixOf_iff_prefix.mp h)

theorem removeFrom_of_not_mem {c : Cp} {w s : PyStr} (h : c ∉ s) : removeFrom (c :: w) 0 s = s := by
  induction s with
  | nil => rfl
  | cons d s ih =>
    obtain ⟨hd, hs⟩ := not_or.mp (mt List.mem_cons.mpr h)
    have hword : ¬c :: w <+: d :: s := fun h => hd (List.cons_prefix_cons.mp h).1
    rw [removeFrom_cons_neg hword, ih hs]

theorem remove_of_not_mem {c : Cp} {w s : PyStr} (h : c ∉ s) : remove (c :: w) s = s :=
  removeFrom_of_not_mem h

theorem remove_singleton (c : Cp) (s : PyStr) : remove [c] s = s.filter fun d => decide (d ≠ c) := by
  rw [remove]
  induction s with
  | nil => rfl
  | cons d s ih =>
    have hword : [c] <+: d :: s ↔ c = d := by simp
    by_cases h : c = d
    · rw [removeFrom_cons_pos (hword.mpr h), List.length_singleton, Nat.sub_self, ih,
        List.filter_cons_of_neg (by simp [h])]
    · rw [removeFrom_cons_neg (mt hword.mp h), ih, List.filter_cons_of_pos (by simp [Ne.symm h])]

theorem stripBy_of_forall {p : Cp → Bool} {s : PyStr} (h : ∀ c ∈ s, p c = false) : stripBy p s = s := by
  have hdrop : ∀ s : PyStr, (∀ c ∈ s, p c = false) → s.dropWhile p = s := by
    intro s hs
    cases s with
    | nil => rfl
    | cons c s => rw [List.dropWhile_cons_of_neg (by simp [hs c List.mem_cons_self])]
  rw [stripBy, hdrop s h, List.rdropWhile, hdrop s.reverse (fun c hc => h c (List.mem_reverse.mp hc)),
    List.reverse_reverse]

/-! ### Digits -/

/-- The digits are none of the characters that `uuid.UUID` and `int` treat in another way. -/
structure PlainDigit (c : Cp) : Prop where
  hyphen : c ≠ chr '-'
  underscore : c ≠ chr '_'
  plus : c ≠ chr '+'
  letter : c ≠ chr 'u' ∧ c ≠ chr 'x' ∧ c ≠ chr 'X'
  brace : ¬(c.val = 0x7B ∨ c.val = 0x7D)
  space : isIntSpace c = false

instance (c : Cp) : Decidable (PlainDigit c) :=
  decidable_of_iff ((c ≠ chr '-' ∧ c ≠ chr '_' ∧ c ≠ chr '+') ∧
      (c ≠ chr 'u' ∧ c ≠ chr 'x' ∧ c ≠ chr 'X') ∧ ¬(c.val = 0x7B ∨ c.val = 0x7D) ∧
      isIntSpace c = false)
    ⟨fun h => ⟨h.1.1, h.1.2.1, h.1.2.2, h.2.1, h.2.2.1, h.2.2.2⟩,
      fun h => ⟨⟨h.hyphen, h.underscore, h.plus⟩, h.letter, h.brace, h.space⟩⟩

/-- The digits of base 16 are ten behind the zero of a script, or six letters. -/
theorem exists_base {c : Cp} {v : Nat} (h : digit16 c = some v) : ∃ base, c.val = base + v ∧
    (base ∈ decimalZeros ∧ v < 10 ∨ (base = 0x57 ∨ base = 0x37) ∧ 10 ≤ v ∧ v < 16) := by
  rw [digit16, Option.or_eq_some_iff] at h
  rcases h with h | ⟨-, h⟩
  · rw [decimalValue, Option.map_eq_some_iff] at h
    obtain ⟨z, hz, rfl⟩ := h
    have hrange := List.find?_some hz
    rw [decide_eq_true_iff] at hrange
    exact ⟨z, by omega, .inl ⟨List.mem_of_find?_eq_some hz, by omega⟩⟩
  · rw [hexValue] at h
    split_ifs at h with hdecimal hlower hupper <;> rw [Option.some_inj] at h
    · exact ⟨0x30, by omega, .inl ⟨by decide, by omega⟩⟩
    · exact ⟨0x57, by omega, .inr ⟨.inl rfl, by omega⟩⟩
    · exact ⟨0x37, by omega, .inr ⟨.inr rfl, by omega⟩⟩

theorem digit16_lt {c : Cp} {v : Nat} (h : digit16 c = some v) : v < 16 := by
  obtain ⟨base, -, h⟩ := exists_base h
  omega

theorem plainDigit_of_digit16 {c : Cp} {v : Nat} (h : digit16 c = some v) : PlainDigit c := by
  have hscripts : ∀ base ∈ decimalZeros, ∀ v < 10, PlainDigit (Fin.ofNat 0x110000 (base + v)) := by
    decide +kernel
  have hletters : ∀ base ∈ [0x57, 0x37], ∀ v < 16, 10 ≤ v →
      PlainDigit (Fin.ofNat 0x110000 (base + v)) := by
    decide +kernel
  obtain ⟨base, hc, h⟩ := exists_base h
  have hchar : c = Fin.ofNat 0x110000 (base + v) := by
    apply Fin.ext
    rw [Fin.val_ofNat, ← hc, Nat.mod_eq_of_lt c.isLt]
  rw [hchar]
  rcases h with ⟨hbase, hv⟩ | ⟨hbase, hv⟩
  · exact hscripts base hbase v hv
  · exact hletters base (by simpa using hbase) v hv.2 hv.1

theorem plainDigit_hexDigit {v : Nat} (hv : v < 16) :
    PlainDigit (hexDigit v) ∧ digit16 (hexDigit v) = some v := by
  have hall : ∀ v < 16, digit16 (hexDigit v) = some v := by decide
  exact ⟨plainDigit_of_digit16 (hall v hv), hall v hv⟩

/-! ### The plain spelling -/

theorem hex_succ (width n : Nat) : hex (width + 1) n = hexDigit (n / 16 ^ width) :: hex width n := by
  rw [hex, List.range_succ, List.reverse_append, List.reverse_singleton, List.singleton_append,
    List.map_cons]
  rfl

theorem hexDigit_mod (n : Nat) : hexDigit (n % 16) = hexDigit n := by
  rw [hexDigit, hexDigit]
  simp only [Nat.mod_mod]

theorem mem_hex {width n : Nat} {c : Cp} (h : c ∈ hex width n) : ∃ v < 16, c = hexDigit v := by
  obtain ⟨i, -, rfl⟩ := List.mem_map.mp h
  exact ⟨n / 16 ^ i % 16, Nat.mod_lt _ (Nat.succ_pos 15), (hexDigit_mod _).symm⟩

theorem plainDigit_of_mem_hex {width n : Nat} {c : Cp} (h : c ∈ hex width n) : PlainDigit c := by
  obtain ⟨v, hv, rfl⟩ := mem_hex h
  exact (plainDigit_hexDigit hv).1

theorem readDigits_hex (width m n : Nat) :
    readDigits false m (hex width n) = some (m * 16 ^ width + n % 16 ^ width) := by
  induction width generalizing m with
  | zero => simp [hex, readDigits, Nat.mod_one]
  | succ width ih =>
    have hlt : n / 16 ^ width % 16 < 16 := Nat.mod_lt _ (Nat.succ_pos 15)
    have hplain := plainDigit_hexDigit hlt
    rw [hex_succ, ← hexDigit_mod, readDigits, if_neg hplain.1.underscore, hplain.2]
    simp only
    rw [ih, Nat.pow_succ, Nat.mod_mul, Option.some_inj]
    ring

theorem intBase16_of_plain {s : PyStr} (hs : ∀ c ∈ s, PlainDigit c) (hne : s ≠ []) :
    intBase16 s = (readDigits false 0 s).map fun n => (n : Int) := by
  have hstrip : stripBy isIntSpace s = s := stripBy_of_forall fun c hc => (hs c hc).space
  obtain ⟨c, rest, rfl⟩ := List.exists_cons_of_ne_nil hne
  rw [List.forall_mem_cons] at hs
  have hminus : ¬(c :: rest).head? = some (chr '-') := fun h => hs.1.hyphen (Option.some.inj h)
  have hplus : ¬(c :: rest).head? = some (chr '+') := fun h => hs.1.plus (Option.some.inj h)
  have hunderscore : ¬(c :: rest).head? = some (chr '_') :=
    fun h => hs.1.underscore (Option.some.inj h)
  have hdrop : dropPrefix (c :: rest) = c :: rest := by
    cases rest with
    | nil => rfl
    | cons x rest =>
      have hx := (hs.2 x List.mem_cons_self).letter
      exact if_neg fun h => h.2.elim hx.2.1 hx.2.2
  rw [intBase16, hstrip]
  simp only [hminus, hplus, or_self, if_false, hdrop, hunderscore, List.cons_ne_nil]

/-- The plain spelling of a number is read back. -/
theorem uuid_of_uuidHex {text : PyStr} {n : Nat} (htext : uuidHex text = hex 32 n)
    (hn : n < 2 ^ 128) : uuid text = some n := by
  have hlength : (hex 32 n).length = 32 := by simp [hex]
  have hne : hex 32 n ≠ [] := by
    rw [← List.length_pos_iff_ne_nil, hlength]
    omega
  have hread : intBase16 (hex 32 n) = some (n : Int) := by
    rw [intBase16_of_plain (fun c hc => plainDigit_of_mem_hex hc) hne, readDigits_hex,
      Nat.zero_mul, Nat.zero_add, Nat.mod_eq_of_lt (hn.trans_eq (by norm_num))]
    rfl
  rw [uuid, htext, hlength, if_neg (fun h => h rfl), hread]
  have hrange : 0 ≤ (n : Int) ∧ (n : Int) < 2 ^ 128 := ⟨Int.natCast_nonneg n, by exact_mod_cast hn⟩
  simp only [if_pos hrange, Int.toNat_natCast]

/-! ### Layouts -/

/-- A character up to the value of its digit: of a digit, the place where its digits begin. -/
def layoutOf (c : Cp) : Cp ⊕ Nat :=
  match digit16 c with
  | some v => .inr (c.val - v)
  | none => .inl c

/-- What stands between the digits of a text, and where there are digits of which kind. -/
def layout (s : PyStr) : List (Cp ⊕ Nat) := s.map layoutOf

def Alike (c c' : Cp) : Prop := layoutOf c = layoutOf c'

theorem layout_eq_iff {s s' : PyStr} : layout s = layout s' ↔ List.Forall₂ Alike s s' := by
  rw [layout, layout, ← List.forall₂_eq_eq_eq, List.forall₂_map_left_iff, List.forall₂_map_right_iff]
  rfl

theorem eq_of_alike {c c' : Cp} (h : Alike c c') (hdigit : digit16 c = digit16 c') : c = c' := by
  rw [Alike, layoutOf, layoutOf, hdigit] at h
  cases hv : digit16 c' with
  | none =>
    rw [hv] at h
    exact Sum.inl.inj h
  | some v =>
    rw [hv] at h
    obtain ⟨base, hc, -⟩ := exists_base (hdigit.trans hv)
    obtain ⟨base', hc', -⟩ := exists_base hv
    have hbase := Sum.inr.inj h
    exact Fin.ext (by omega)

theorem isSome_digit16_of_alike {c c' : Cp} (h : Alike c c') :
    (digit16 c).isSome = (digit16 c').isSome := by
  rw [Alike, layoutOf, layoutOf] at h
  cases hv : digit16 c with
  | none =>
    cases hv' : digit16 c' with
    | none => rfl
    | some v' =>
      rw [hv, hv'] at h
      cases h
  | some v =>
    cases hv' : digit16 c' with
    | none =>
      rw [hv, hv'] at h
      cases h
    | some v' => rfl

/-- Characters that are not digits are alike only when they are the same. -/
theorem Alike.eq {c c' : Cp} (h : Alike c c') (hnone : digit16 c = none ∨ digit16 c' = none) :
    c = c' := by
  have hsome := isSome_digit16_of_alike h
  apply eq_of_alike h
  rcases hnone with hc | hc
  · rw [hc, Option.isSome_none, eq_comm, Option.isSome_eq_false_iff] at hsome
    rw [hc, Option.isNone_iff_eq_none.mp hsome]
  · rw [hc, Option.isSome_none, Option.isSome_eq_false_iff] at hsome
    rw [hc, Option.isNone_iff_eq_none.mp hsome]

theorem digit16_eq_none {c : Cp} (h : ¬PlainDigit c) : digit16 c = none := by
  cases hv : digit16 c with
  | none => rfl
  | some v => exact absurd (plainDigit_of_digit16 hv) h

/-! ### Texts of one layout -/

theorem alike_symm {s s' : PyStr} (h : List.Forall₂ Alike s s') : List.Forall₂ Alike s' s :=
  h.flip.imp fun _ _ hc => hc.symm

/-- A search that goes the same way in two alike texts removes the same from both. -/
theorem keeps_removeFrom {w : PyStr} (hw : w ≠ []) (good : Cp → Prop)
    (hagree : ∀ {s s' : PyStr}, List.Forall₂ Alike s s' → (∀ c ∈ removeFrom w 0 s, good c) →
      (∀ c ∈ removeFrom w 0 s', good c) → (w <+: s ↔ w <+: s'))
    {s s' : PyStr} (h : List.Forall₂ Alike s s') (skip : Nat) (hskip : s.take skip = s'.take skip)
    (hs : ∀ c ∈ removeFrom w skip s, good c) (hs' : ∀ c ∈ removeFrom w skip s', good c) :
    Keeps Alike s s' (removeFrom w skip s) (removeFrom w skip s') := by
  induction h generalizing skip with
  | nil => exact .refl (by cases skip <;> exact .nil)
  | @cons c c' s s' hc hrest ih =>
    cases skip with
    | succ skip =>
      rw [List.take_succ_cons, List.take_succ_cons, List.cons.injEq] at hskip
      obtain ⟨rfl, hskip⟩ := hskip
      exact (ih skip hskip hs hs').drop c
    | zero =>
      have hword := hagree (.cons hc hrest) hs hs'
      by_cases hpre : w <+: c :: s
      · have hpre' := hword.mp hpre
        rw [removeFrom_cons_pos hpre] at hs ⊢
        rw [removeFrom_cons_pos hpre'] at hs' ⊢
        obtain ⟨x, w, rfl⟩ := List.exists_cons_of_ne_nil hw
        obtain ⟨rfl, hw⟩ := List.cons_prefix_cons.mp hpre
        obtain ⟨rfl, hw'⟩ := List.cons_prefix_cons.mp hpre'
        have htake : s.take w.length = s'.take w.length :=
          (List.prefix_iff_eq_take.mp hw).symm.trans (List.prefix_iff_eq_take.mp hw')
        exact (ih w.length htake hs hs').drop x
      · rw [removeFrom_cons_neg hpre, List.forall_mem_cons] at hs
        rw [removeFrom_cons_neg (mt hword.mpr hpre), List.forall_mem_cons] at hs'
        rw [removeFrom_cons_neg hpre, removeFrom_cons_neg (mt hword.mpr hpre)]
        exact (ih 0 rfl hs.2 hs'.2).cons hc

/-- A word without digits stands in the same places of alike texts. -/
theorem keeps_remove {w : PyStr} (hw : w ≠ []) (hall : (w.all fun c => (digit16 c).isNone) = true)
    {s s' : PyStr} (h : List.Forall₂ Alike s s') : Keeps Alike s s' (remove w s) (remove w s') := by
  have hnone : ∀ c ∈ w, digit16 c = none :=
    fun c hc => Option.isNone_iff_eq_none.mp (List.all_eq_true.mp hall c hc)
  have hword : ∀ {s s' : PyStr}, List.Forall₂ Alike s s' → w <+: s → w <+: s' := by
    intro s s' h hpre
    have htake := List.prefix_iff_eq_take.mp hpre
    have heq : s.take w.length = s'.take w.length :=
      eq_of_forall₂ (P := fun c => digit16 c = none) (fun hc hnone => Alike.eq hc (.inl hnone))
        (List.forall₂_take w.length h) (htake ▸ hnone)
    exact List.prefix_iff_eq_take.mpr (htake.trans heq)
  apply keeps_removeFrom hw (fun _ => True) _ h 0 rfl (fun _ _ => trivial) fun _ _ => trivial
  intro s s' h _ _
  exact ⟨hword h, hword (alike_symm h)⟩

/-- A word stands in the same places of alike texts when the character it begins with, no digit, stands
nowhere else. -/
theorem keeps_remove_of_head {u : Cp} {w : PyStr} (hu : digit16 u = none) {s s' : PyStr}
    (h : List.Forall₂ Alike s s') (hs : u ∉ remove (u :: w) s) (hs' : u ∉ remove (u :: w) s') :
    Keeps Alike s s' (remove (u :: w) s) (remove (u :: w) s') := by
  have hword : ∀ {s s' : PyStr}, List.Forall₂ Alike s s' →
      (∀ c ∈ removeFrom (u :: w) 0 s', c ≠ u) → u :: w <+: s → u :: w <+: s' := by
    rintro s s' h hgood ⟨t, rfl⟩
    cases h with
    | @cons _ c' _ s' hc hrest =>
      obtain rfl := Alike.eq hc (.inl hu)
      by_contra hpre
      rw [removeFrom_cons_neg hpre, List.forall_mem_cons] at hgood
      exact hgood.1 rfl
  apply keeps_removeFrom (List.cons_ne_nil u w) (fun c => c ≠ u) _ h 0 rfl
    (fun c hc e => hs (e ▸ hc)) (fun c hc e => hs' (e ▸ hc))
  intro s s' h hs hs'
  exact ⟨hword h hs', hword (alike_symm h) hs⟩

theorem keeps_stripBy {p : Cp → Bool} (hp : ∀ c, p c = true → digit16 c = none) {s s' : PyStr}
    (h : List.Forall₂ Alike s s') : Keeps Alike s s' (stripBy p s) (stripBy p s') := by
  have hfix : ∀ {c c' : Cp}, Alike c c' → p c = true ∨ p c' = true → c = c' :=
    fun hc hpc => Alike.eq hc (hpc.imp (hp _) (hp _))
  have hdrop := keeps_dropWhile hfix h
  exact hdrop.trans (keeps_rdropWhile hfix hdrop.alike)

theorem mem_stripBy {p : Cp → Bool} {s : PyStr} {c : Cp} (hc : c ∈ s) (hp : p c = false) :
    c ∈ stripBy p s := by
  have hdrop : ∀ {s : PyStr}, c ∈ s → c ∈ s.dropWhile p := by
    intro s hc
    rw [← List.takeWhile_append_dropWhile (p := p) (l := s), List.mem_append] at hc
    rcases hc with hc | hc
    · rw [List.mem_takeWhile_imp hc] at hp
      cases hp
    · exact hc
  rw [stripBy, List.rdropWhile, List.mem_reverse]
  exact hdrop (List.mem_reverse.mpr (hdrop hc))

/-! ### Numbers of one layout -/

theorem head?_of_alike {s s' : PyStr} (h : List.Forall₂ Alike s s') {x : Cp} (hx : digit16 x = none)
    (hhead : s.head? = some x) : s'.head? = some x := by
  cases h with
  | nil => cases hhead
  | cons hc _ =>
    obtain rfl := Option.some.inj hhead
    rw [List.head?_cons, Alike.eq hc (.inl hx)]

theorem head?_iff_of_alike {s s' : PyStr} (h : List.Forall₂ Alike s s') {x : Cp}
    (hx : digit16 x = none) : s.head? = some x ↔ s'.head? = some x :=
  ⟨head?_of_alike h hx, head?_of_alike (alike_symm h) hx⟩

/-- The first characters are dropped of both texts, where they are the same, or of none. -/
theorem keeps_tail {p p' : Prop} [Decidable p] [Decidable p'] {s s' : PyStr}
    (h : List.Forall₂ Alike s s') (hp : p ↔ p') (hhead : p → s.head? = s'.head?) :
    Keeps Alike s s' (if p then s.tail else s) (if p' then s'.tail else s') := by
  by_cases hdrop : p
  · rw [if_pos hdrop, if_pos (hp.mp hdrop)]
    cases h with
    | nil => exact .refl .nil
    | @cons c c' s s' _ hrest =>
      obtain rfl := Option.some.inj (hhead hdrop)
      exact (Keeps.refl hrest).drop c
  · rw [if_neg hdrop, if_neg (mt hp.mpr hdrop)]
    exact .refl h

theorem mem_of_readDigits {b : Bool} {n m : Nat} {s : PyStr} (h : readDigits b n s = some m) :
    ∀ c ∈ s, c = chr '_' ∨ digit16 c ≠ none := by
  induction s generalizing b n with
  | nil => exact List.forall_mem_nil _
  | cons c s ih =>
    rw [readDigits] at h
    rw [List.forall_mem_cons]
    split at h
    · rename_i hc
      split at h
      · cases h
      · exact ⟨.inl hc, ih h⟩
    · split at h
      · rename_i v hv
        exact ⟨.inr (hv ▸ Option.some_ne_none v), ih h⟩
      · cases h

/-- Alike texts that are read as one number behind what was read before hold the same digits. -/
theorem readDigits_injective {b : Bool} {n n' m : Nat} {s s' : PyStr} (h : List.Forall₂ Alike s s')
    (hs : readDigits b n s = some m) (hs' : readDigits b n' s' = some m) : n = n' ∧ s = s' := by
  induction h generalizing b n n' with
  | nil =>
    rw [readDigits] at hs hs'
    by_cases hb : b = true
    · rw [if_pos hb] at hs
      cases hs
    · rw [if_neg hb] at hs hs'
      exact ⟨(Option.some.inj hs).trans (Option.some.inj hs').symm, rfl⟩
  | @cons c c' s s' hc _ ih =>
    rw [readDigits] at hs hs'
    by_cases hunderscore : c = chr '_'
    · obtain rfl := Alike.eq hc (.inl (hunderscore ▸ by decide))
      rw [if_pos hunderscore] at hs hs'
      by_cases hb : b = true
      · rw [if_pos hb] at hs
        cases hs
      · rw [if_neg hb] at hs hs'
        obtain ⟨hn, rfl⟩ := ih hs hs'
        exact ⟨hn, rfl⟩
    · have hunderscore' : ¬c' = chr '_' :=
        fun e => hunderscore ((Alike.eq hc (.inr (e ▸ by decide))).trans e)
      rw [if_neg hunderscore] at hs
      rw [if_neg hunderscore'] at hs'
      cases hv : digit16 c with
      | none => rw [hv] at hs; cases hs
      | some v =>
        cases hv' : digit16 c' with
        | none => rw [hv'] at hs'; cases hs'
        | some v' =>
          rw [hv] at hs
          rw [hv'] at hs'
          obtain ⟨hn, rfl⟩ := ih hs hs'
          have hlt := digit16_lt hv
          have hlt' := digit16_lt hv'
          obtain rfl : v = v' := by omega
          exact ⟨by omega, by rw [eq_of_alike hc (hv.trans hv'.symm)]⟩

/-- The text begins with `0x`. -/
def HasPrefix (s : PyStr) : Prop :=
  ∃ zero x rest, s = zero :: x :: rest ∧ decimalValue zero = some 0 ∧ (x = chr 'x' ∨ x = chr 'X')

theorem dropPrefix_of_hasPrefix {zero x : Cp} {rest : PyStr} (hzero : decimalValue zero = some 0)
    (hx : x = chr 'x' ∨ x = chr 'X') : dropPrefix (zero :: x :: rest) =
      if rest.head? = some (chr '_') then rest.tail else rest := if_pos ⟨hzero, hx⟩

theorem dropPrefix_of_not_hasPrefix {s : PyStr} (h : ¬HasPrefix s) : dropPrefix s = s := by
  match s with
  | [] => rfl
  | [_] => rfl
  | zero :: x :: rest => exact if_neg fun hzero => h ⟨zero, x, rest, rfl, hzero⟩

theorem digit16_of_decimalValue {c : Cp} {v : Nat} (h : decimalValue c = some v) :
    digit16 c = some v := by
  rw [digit16, h, Option.some_or]

theorem digit16_x {x : Cp} (h : x = chr 'x' ∨ x = chr 'X') : digit16 x = none := by
  rcases h with rfl | rfl <;> decide

/-- A text that is read begins with `0x` if one alike does: an `x` is no digit. -/
theorem hasPrefix_of_alike {s s' : PyStr} {m : Nat} (h : List.Forall₂ Alike s s')
    (hread : readDigits false 0 (dropPrefix s') = some m) (hword : HasPrefix s) : HasPrefix s' := by
  obtain ⟨zero, x, rest, rfl, -, hx⟩ := hword
  by_contra hnot
  rw [dropPrefix_of_not_hasPrefix hnot] at hread
  cases h with
  | cons _ h =>
    cases h with
    | cons hc _ =>
      obtain rfl := Alike.eq hc (.inl (digit16_x hx))
      rcases mem_of_readDigits hread x (by simp) with rfl | hdigit
      · revert hx
        decide
      · exact hdigit (digit16_x hx)

theorem keeps_dropPrefix {s s' : PyStr} {m m' : Nat} (h : List.Forall₂ Alike s s')
    (hs : readDigits false 0 (dropPrefix s) = some m)
    (hs' : readDigits false 0 (dropPrefix s') = some m') :
    Keeps Alike s s' (dropPrefix s) (dropPrefix s') := by
  by_cases hword : HasPrefix s
  · obtain ⟨zero', x', rest', rfl, hzero', hx'⟩ := hasPrefix_of_alike h hs' hword
    obtain ⟨zero, x, rest, rfl, hzero, hx⟩ := hword
    rw [dropPrefix_of_hasPrefix hzero hx, dropPrefix_of_hasPrefix hzero' hx']
    cases h with
    | cons hczero h =>
      cases h with
      | cons hcx hrest =>
        obtain rfl := Alike.eq hcx (.inl (digit16_x hx))
        obtain rfl := eq_of_alike hczero
          ((digit16_of_decimalValue hzero).trans (digit16_of_decimalValue hzero').symm)
        have hunderscore : digit16 (chr '_') = none := by decide
        have htail := keeps_tail hrest (head?_iff_of_alike hrest hunderscore)
          (fun e => e.trans (head?_of_alike hrest hunderscore e).symm)
        exact ⟨htail.alike, fun e => by rw [htail.reflects e]⟩
  · have hword' : ¬HasPrefix s' :=
      fun hp => hword (hasPrefix_of_alike (alike_symm h) hs hp)
    rw [dropPrefix_of_not_hasPrefix hword, dropPrefix_of_not_hasPrefix hword']
    exact .refl h

/-- A number without its sign. -/
def unsigned (s : PyStr) : PyStr :=
  if s.head? = some (chr '-') ∨ s.head? = some (chr '+') then s.tail else s

theorem intBase16_eq_some {s : PyStr} {n : Int} (h : intBase16 s = some n) :
    ∃ m : Nat, readDigits false 0 (dropPrefix (unsigned (stripBy isIntSpace s))) = some m ∧
      n = if (stripBy isIntSpace s).head? = some (chr '-') then -(m : Int) else m := by
  simp only [intBase16, Option.ite_none_left_eq_some, Option.map_eq_some_iff, Option.bind_eq_bind,
    Option.bind_eq_some_iff, Option.pure_def, Option.some_inj] at h
  obtain ⟨-, _, ⟨m, hread, rfl⟩, rfl⟩ := h
  exact ⟨m, hread, rfl⟩

theorem keeps_unsigned {s s' : PyStr} (h : List.Forall₂ Alike s s') :
    Keeps Alike s s' (unsigned s) (unsigned s') := by
  have hminus : digit16 (chr '-') = none := by decide
  have hplus : digit16 (chr '+') = none := by decide
  apply keeps_tail h (or_congr (head?_iff_of_alike h hminus) (head?_iff_of_alike h hplus))
  rintro (e | e)
  · exact e.trans (head?_of_alike h hminus e).symm
  · exact e.trans (head?_of_alike h hplus e).symm

theorem digit16_of_isIntSpace (c : Cp) (h : isIntSpace c = true) : digit16 c = none :=
  digit16_eq_none fun hc => by rw [hc.space] at h; cases h

theorem eq_of_intBase16 {s s' : PyStr} {n : Int} (h : List.Forall₂ Alike s s')
    (hs : intBase16 s = some n) (hs' : intBase16 s' = some n) : s = s' := by
  obtain ⟨m, hread, hn⟩ := intBase16_eq_some hs
  obtain ⟨m', hread', hn'⟩ := intBase16_eq_some hs'
  have hbody := keeps_stripBy digit16_of_isIntSpace h
  have hunsigned := keeps_unsigned hbody.alike
  have hdigits := keeps_dropPrefix hunsigned.alike hread hread'
  have hsign := head?_iff_of_alike hbody.alike (x := chr '-') (by decide)
  have hm : m = m' := by
    by_cases hminus : (stripBy isIntSpace s).head? = some (chr '-')
    · rw [if_pos hminus] at hn
      rw [if_pos (hsign.mp hminus)] at hn'
      omega
    · rw [if_neg hminus] at hn
      rw [if_neg (mt hsign.mpr hminus)] at hn'
      omega
  have hequal := (readDigits_injective hdigits.alike hread (hm ▸ hread')).2
  exact hbody.reflects (hunsigned.reflects (hdigits.reflects hequal))

theorem mem_tail_if {p : Prop} [Decidable p] {c : Cp} {s : PyStr} (hc : c ∈ s)
    (hhead : p → s.head? ≠ some c) : c ∈ if p then s.tail else s := by
  split
  · rename_i hp
    cases s with
    | nil => cases hc
    | cons d s =>
      rcases List.mem_cons.mp hc with rfl | hc
      · exact absurd rfl (hhead hp)
      · exact hc
  · exact hc

/-- Behind its sign and prefix, a number has no other letters than its digits. -/
theorem not_mem_of_intBase16 {s : PyStr} {n : Int} (h : intBase16 s = some n) : chr 'u' ∉ s := by
  intro hu
  obtain ⟨m, hread, -⟩ := intBase16_eq_some h
  have hbody : chr 'u' ∈ stripBy isIntSpace s := mem_stripBy hu (by decide)
  have hunsigned : chr 'u' ∈ unsigned (stripBy isIntSpace s) := by
    apply mem_tail_if hbody
    rintro (e | e) <;> rw [e] <;> decide
  have hdigits : chr 'u' ∈ dropPrefix (unsigned (stripBy isIntSpace s)) := by
    by_cases hword : HasPrefix (unsigned (stripBy isIntSpace s))
    · obtain ⟨zero, x, rest, hs, hzero, hx⟩ := hword
      rw [hs, List.mem_cons, List.mem_cons] at hunsigned
      rw [hs, dropPrefix_of_hasPrefix hzero hx]
      rcases hunsigned with rfl | rfl | hrest
      · exact absurd hzero (by decide)
      · exact absurd hx (by decide)
      · apply mem_tail_if hrest
        intro e
        rw [e]
        decide
    · rw [dropPrefix_of_not_hasPrefix hword]
      exact hunsigned
  rcases mem_of_readDigits hread _ hdigits with hc | hc
  · exact absurd hc (by decide)
  · exact hc (by decide)

/-! ### UUIDs of one layout -/

theorem uuid_eq_some {text : PyStr} {n : Nat} (h : uuid text = some n) :
    intBase16 (uuidHex text) = some (n : Int) := by
  rw [uuid] at h
  split at h
  · cases h
  · split at h
    · cases h
    · rename_i m hm
      split at h
      · rename_i hrange
        obtain rfl := Option.some.inj h
        rw [hm, Int.toNat_of_nonneg hrange.1]
      · cases h

theorem not_mem_of_uuid {text : PyStr} {n : Nat} (h : uuid text = some n) :
    chr 'u' ∉ remove (lit "uuid:") (remove (lit "urn:") text) := by
  intro hu
  apply not_mem_of_intBase16 (uuid_eq_some h)
  rw [uuidHex, show lit "-" = [chr '-'] from rfl, remove_singleton, List.mem_filter]
  exact ⟨mem_stripBy hu (by decide), by decide⟩

/-- The texts that denote a UUID differ in their layouts. -/
theorem eq_of_uuid {text text' : PyStr} {n : Nat} (h : uuid text = some n) (h' : uuid text' = some n)
    (hlayout : layout text = layout text') : text = text' := by
  have hurn := keeps_remove (w := lit "urn:") (by decide) (by decide) (layout_eq_iff.mp hlayout)
  have huuid := keeps_remove_of_head (u := chr 'u') (w := lit "uid:") (by decide) hurn.alike
    (not_mem_of_uuid h) (not_mem_of_uuid h')
  have hbraces := keeps_stripBy (p := fun c => decide (c.val = 0x7B ∨ c.val = 0x7D))
    (fun c hc => digit16_eq_none fun hplain => hplain.brace (of_decide_eq_true hc)) huuid.alike
  have hhyphens := keeps_remove (w := lit "-") (by decide) (by decide) hbraces.alike
  have hequal := eq_of_intBase16 hhyphens.alike (uuid_eq_some h) (uuid_eq_some h')
  exact hurn.reflects (huuid.reflects (hbraces.reflects (hhyphens.reflects hequal)))

end Clickstream.Python
