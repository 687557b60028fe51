import Mathlib.Algebra.BigOperators.Fin
import Mathlib.Algebra.Order.BigOperators.Group.List
import Mathlib.Algebra.Order.Chebyshev
import Mathlib.Algebra.Order.Field.Basic
import Mathlib.Tactic.FieldSimp
import Mathlib.Tactic.Linarith
import Mathlib.Tactic.LinearCombination
import Mathlib.Tactic.Ring

/-! The mean and the population variance of a list of numbers: how they change with unit and origin,
how far a value can lie from the mean (Samuelson), and how many values can lie far from it
(Chebyshev). -/

namespace Clickstream.Kit

variable {K : Type} [Field K]

def mean (l : List K) : K := l.sum / l.length

def squares (l : List K) : K := (l.map fun x => (x - mean l) ^ 2).sum

def variance (l : List K) : K := squares l / l.length

section Algebra

variable [CharZero K] {l : List K}

theorem length_mul_mean (l : List K) : l.length * mean l = l.sum := by
  cases l with
  | nil => simp [mean]
  | cons x l =>
    rw [mean]
    exact mul_div_cancel₀ _ (Nat.cast_ne_zero.mpr (Nat.succ_ne_zero _))

theorem sum_map_affine (a b : K) (l : List K) :
    (l.map fun x => a * x + b).sum = a * l.sum + l.length * b := by
  induction l with
  | nil => simp
  | cons x l ih =>
    rw [List.map_cons, List.sum_cons, ih, List.sum_cons, List.length_cons, Nat.cast_succ]
    ring

/-- The deviations from the mean cancel. -/
theorem sum_sub_mean (l : List K) : (l.map fun x => x - mean l).sum = 0 := by
  have hsum := sum_map_affine 1 (-mean l) l
  have hmean := length_mul_mean l
  simp only [one_mul, ← sub_eq_add_neg] at hsum
  rw [hsum]
  linear_combination -hmean

theorem length_mul_variance (hl : l ≠ []) : l.length * variance l = squares l :=
  mul_div_cancel₀ _ (Nat.cast_ne_zero.mpr (Nat.pos_iff_ne_zero.mp (List.length_pos_iff.mpr hl)))

theorem mean_map_affine (hl : l ≠ []) (a b : K) : mean (l.map fun x => a * x + b) = a * mean l + b := by
  have hlength : (l.length : K) ≠ 0 :=
    Nat.cast_ne_zero.mpr (Nat.pos_iff_ne_zero.mp (List.length_pos_iff.mpr hl))
  rw [mean, sum_map_affine, List.length_map, mean]
  field_simp

theorem variance_map_affine (hl : l ≠ []) (a b : K) :
    variance (l.map fun x => a * x + b) = a ^ 2 * variance l := by
  have hsquares : squares (l.map fun x => a * x + b) = a ^ 2 * squares l := by
    rw [squares, mean_map_affine hl, List.map_map, squares, ← List.sum_map_mul_left]
    congr 1
    apply List.map_congr_left
    intro x _
    rw [Function.comp_apply]
    ring
  rw [variance, hsquares, List.length_map, variance, mul_div_assoc]

end Algebra

theorem mean_perm {l m : List K} (h : l.Perm m) : mean l = mean m := by
  rw [mean, mean, h.sum_eq, h.length_eq]

theorem variance_perm {l m : List K} (h : l.Perm m) : variance l = variance m := by
  rw [variance, variance, squares, squares, mean_perm h, (h.map _).sum_eq, h.length_eq]

section Order

variable [LinearOrder K] [IsStrictOrderedRing K] {l : List K}

theorem squares_nonneg (l : List K) : 0 ≤ squares l :=
  List.sum_nonneg fun y hy => by
    obtain ⟨x, -, rfl⟩ := List.mem_map.mp hy
    exact sq_nonneg _

theorem variance_nonneg (l : List K) : 0 ≤ variance l :=
  div_nonneg (squares_nonneg l) (Nat.cast_nonneg _)

theorem sq_sum_le (l : List K) : l.sum ^ 2 ≤ l.length * (l.map (· ^ 2)).sum := by
  have hsq := sq_sum_le_card_mul_sum_sq (s := Finset.univ) (f := fun i : Fin l.length => l[i.1])
  rw [Fin.sum_univ_getElem, Finset.card_univ, Fintype.card_fin,
    Fin.sum_univ_fun_getElem l fun x => x ^ 2] at hsq
  exact hsq

/-- A value lies at most the root of `n - 1` standard deviations from the mean of `n` values. -/
theorem sq_sub_mean_le {x : K} (hx : x ∈ l) : (x - mean l) ^ 2 ≤ (l.length - 1) * variance l := by
  obtain ⟨m, hperm⟩ : ∃ m, l.Perm (x :: m) := ⟨_, List.perm_cons_erase hx⟩
  have hlength : (l.length : K) = m.length + 1 := by
    rw [hperm.length_eq, List.length_cons, Nat.cast_succ]
  have hne : l ≠ [] := List.ne_nil_of_mem hx
  -- the other deviations add up to the opposite of that of `x`
  have hothers : (m.map fun y => y - mean l).sum = -(x - mean l) := by
    have hcancel := sum_sub_mean l
    rw [(hperm.map _).sum_eq, List.map_cons, List.sum_cons] at hcancel
    linear_combination hcancel
  have hsquares : squares l = (x - mean l) ^ 2 + (m.map fun y => (y - mean l) ^ 2).sum := by
    rw [squares, (hperm.map _).sum_eq, List.map_cons, List.sum_cons]
  have hle := sq_sum_le (m.map fun y => y - mean l)
  rw [hothers, List.map_map, List.length_map] at hle
  have hle' : (x - mean l) ^ 2 ≤ m.length * (squares l - (x - mean l) ^ 2) := by
    rw [hsquares, add_sub_cancel_left, ← neg_sq]
    exact hle
  have hvariance := length_mul_variance hne
  have hpos : (0 : K) < l.length := Nat.cast_pos.mpr (List.length_pos_iff.mpr hne)
  rw [hlength] at hvariance hpos ⊢
  apply le_of_mul_le_mul_left _ hpos
  rw [add_sub_cancel_right]
  calc (m.length + 1) * (x - mean l) ^ 2
      ≤ m.length * squares l := by linarith
    _ = (m.length + 1) * (m.length * variance l) := by rw [← hvariance]; ring

theorem countP_mul_lt_sum {α : Type} {m : List α} {p : α → Bool} {f : α → K} {c : K}
    (hf : ∀ x ∈ m, 0 ≤ f x) (hp : ∀ x ∈ m, p x = true → c < f x) (hcount : m.countP p ≠ 0) :
    m.countP p * c < (m.map f).sum := by
  induction m with
  | nil => exact absurd List.countP_nil hcount
  | cons x m ih =>
    rw [List.forall_mem_cons] at hf hp
    rw [List.map_cons, List.sum_cons]
    have hrest : 0 ≤ (m.map f).sum := List.sum_nonneg fun y hy => by
      obtain ⟨z, hz, rfl⟩ := List.mem_map.mp hy
      exact hf.2 z hz
    by_cases hx : p x = true
    · have hlt := hp.1 hx
      rw [List.countP_cons_of_pos hx, Nat.cast_succ, add_mul, one_mul]
      by_cases hzero : m.countP p = 0
      · rw [hzero, Nat.cast_zero, zero_mul]
        linarith
      · linarith [ih hf.2 hp.2 hzero]
    · rw [List.countP_cons_of_neg hx] at hcount ⊢
      linarith [ih hf.2 hp.2 hcount, hf.1]

/-- The values that lie farther than `c` from the mean, in squares, carry less than all squares. -/
theorem countP_mul_lt {p : K → Bool} {c : K} (hp : ∀ x ∈ l, p x = true → c < (x - mean l) ^ 2)
    (hcount : l.countP p ≠ 0) : l.countP p * c < squares l :=
  countP_mul_lt_sum (fun x _ => sq_nonneg (x - mean l)) hp hcount

end Order

/-! ### Moments -/

/-- What a list contributes to the mean and the variance of a longer one. -/
structure Moments (K : Type) where
  count : Nat
  total : K
  squareTotal : K

def moments (l : List K) : Moments K := ⟨l.length, l.sum, (l.map fun x => x ^ 2).sum⟩

instance : Add (Moments K) :=
  ⟨fun m n => ⟨m.count + n.count, m.total + n.total, m.squareTotal + n.squareTotal⟩⟩

theorem moments_append (l m : List K) : moments (l ++ m) = moments l + moments m := by
  rw [moments, List.length_append, List.sum_append, List.map_append, List.sum_append]
  rfl

theorem sum_map_sub_sq (c : K) (l : List K) : (l.map fun x => (x - c) ^ 2).sum =
    (l.map fun x => x ^ 2).sum - 2 * c * l.sum + l.length * c ^ 2 := by
  induction l with
  | nil => simp
  | cons x l ih =>
    simp only [List.map_cons, List.sum_cons, List.length_cons, Nat.cast_succ, ih]
    ring

theorem sq_length_mul_variance [CharZero K] {l : List K} (hl : l ≠ []) :
    (l.length : K) ^ 2 * variance l = l.length * (l.map fun x => x ^ 2).sum - l.sum ^ 2 := by
  have hmean := length_mul_mean l
  rw [sq, mul_assoc, length_mul_variance hl, squares, sum_map_sub_sq]
  linear_combination (l.length * mean l - l.sum) * hmean

section Far

variable [LinearOrder K] [IsStrictOrderedRing K] {l : List K}

/-- The value lies more than `t` standard deviations from the mean. -/
def Moments.Far (m : Moments K) (t v : K) : Prop :=
  t ^ 2 * (m.count * m.squareTotal - m.total ^ 2) < (m.count * v - m.total) ^ 2

theorem far_moments_iff (hl : l ≠ []) (t v : K) :
    (moments l).Far t v ↔ t ^ 2 * variance l < (v - mean l) ^ 2 := by
  have hpos : (0 : K) < (l.length : K) ^ 2 :=
    pow_pos (Nat.cast_pos.mpr (List.length_pos_iff.mpr hl)) 2
  have hspread : t ^ 2 * (l.length * (l.map fun x => x ^ 2).sum - l.sum ^ 2) =
      (l.length : K) ^ 2 * (t ^ 2 * variance l) := by
    rw [← sq_length_mul_variance hl]
    ring
  have hdeviation : (l.length * v - l.sum) ^ 2 = (l.length : K) ^ 2 * (v - mean l) ^ 2 := by
    rw [← length_mul_mean]
    ring
  rw [Moments.Far, moments]
  dsimp only
  rw [hspread, hdeviation]
  exact mul_lt_mul_iff_right₀ hpos

end Far

end Clickstream.Kit
