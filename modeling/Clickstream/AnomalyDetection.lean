import Clickstream.Kit.Deviation
import Mathlib.Analysis.Real.Sqrt
import Mathlib.Data.Sign.Basic

/-! The anomaly detector of the assistant in exact arithmetic.  A z-score is the root of a rational
number with a sign, and is kept as its sign and its square. -/

namespace Clickstream.AnomalyDetection

open Kit

structure Score where
  sign : SignType
  square : ℚ
  nonneg : 0 ≤ square
  zero_iff : sign = 0 ↔ square = 0
  deriving DecidableEq

namespace Score

def zero : Score := ⟨0, 0, le_refl 0, Iff.intro (fun _ => rfl) fun _ => rfl⟩

/-- The deviation in standard deviations: `d / sqrt(variance)`. -/
def ofDeviation (d variance : ℚ) (h : 0 < variance) : Score where
  sign := SignType.sign d
  square := d ^ 2 / variance
  nonneg := div_nonneg (sq_nonneg d) h.le
  zero_iff := by
    rw [sign_eq_zero_iff, div_eq_zero_iff, or_iff_left h.ne', sq_eq_zero_iff]

/-- `abs(z) > threshold` -/
def exceeds (z : Score) (threshold : ℚ) : Bool :=
  decide (threshold < 0) || decide (threshold ^ 2 < z.square)

/-- `sign * z` for the sign of a number other than 0. -/
def mulSign (z : Score) (sign : SignType) (h : sign ≠ 0) : Score where
  sign := sign * z.sign
  square := z.square
  nonneg := z.nonneg
  zero_iff := by rw [mul_eq_zero, or_iff_right h, z.zero_iff]

noncomputable def toReal (z : Score) : ℝ := (z.sign : ℝ) * Real.sqrt z.square

end Score

structure Anomaly where
  index : Nat
  value : ℚ
  zscore : Score
  deriving DecidableEq

theorem variance_pos {values : List ℚ} (h : variance values ≠ 0) : 0 < variance values :=
  lt_of_le_of_ne (variance_nonneg values) (Ne.symm h)

def zscore (values : List ℚ) : List Score :=
  if values.length < 2 then List.replicate values.length .zero
  else if h : variance values = 0 then List.replicate values.length .zero
  else values.map fun v => .ofDeviation (v - mean values) (variance values) (variance_pos h)

def detectAnomalies (values : List ℚ) (threshold : ℚ) (minPoints : Int) : List Anomaly :=
  if (values.length : Int) < minPoints then []
  else
    (((values.zip (zscore values)).zipIdx).filter fun p => p.1.2.exceeds threshold).map fun p =>
      ⟨p.2, p.1.1, p.1.2⟩

/-! ### Scores as real numbers -/

namespace Score

theorem toReal_zero : zero.toReal = 0 := by simp [toReal, zero]

theorem sign_ratCast (d : ℚ) : SignType.sign (d : ℝ) = SignType.sign d := by
  rcases lt_trichotomy d 0 with hneg | rfl | hpos
  · rw [sign_neg hneg, sign_neg (Rat.cast_lt_zero.mpr hneg)]
  · rw [Rat.cast_zero, sign_zero, sign_zero]
  · rw [sign_pos hpos, sign_pos (Rat.cast_pos.mpr hpos)]

theorem toReal_ofDeviation {d variance : ℚ} (h : 0 < variance) :
    (ofDeviation d variance h).toReal = d / Real.sqrt variance := by
  rw [toReal, ofDeviation]
  push_cast
  rw [Real.sqrt_div (sq_nonneg _), Real.sqrt_sq_eq_abs, ← sign_ratCast, mul_div_assoc',
    sign_mul_abs]

theorem toReal_mulSign (z : Score) {sign : SignType} (h : sign ≠ 0) :
    (z.mulSign sign h).toReal = sign * z.toReal := by
  rw [toReal, toReal, mulSign, SignType.coe_mul, mul_assoc]

theorem abs_toReal (z : Score) : |z.toReal| = Real.sqrt z.square := by
  rw [toReal, abs_mul, abs_of_nonneg (Real.sqrt_nonneg _)]
  cases hsign : z.sign with
  | zero =>
    rw [z.zero_iff.mp hsign]
    simp
  | neg | pos => simp

/-- The detector compares the size of the z-score with the threshold. -/
theorem exceeds_iff {z : Score} {threshold : ℚ} :
    z.exceeds threshold = true ↔ (threshold : ℝ) < |z.toReal| := by
  rw [exceeds, Bool.or_eq_true, decide_eq_true_iff, decide_eq_true_iff, abs_toReal]
  by_cases hneg : threshold < 0
  · have hlt : (threshold : ℝ) < 0 := Rat.cast_lt_zero.mpr hneg
    exact iff_of_true (.inl hneg) (hlt.trans_le (Real.sqrt_nonneg _))
  · have hnonneg : (0 : ℝ) ≤ threshold := Rat.cast_nonneg.mpr (not_lt.mp hneg)
    rw [or_iff_right hneg, Real.lt_sqrt hnonneg]
    exact_mod_cast Iff.rfl

end Score

/-- The score of a value in a series. -/
def score (values : List ℚ) (v : ℚ) : Score :=
  if h : values.length < 2 ∨ variance values = 0 then .zero
  else .ofDeviation (v - mean values) (variance values) (variance_pos (not_or.mp h).2)

theorem score_of_flat {values : List ℚ} (h : values.length < 2 ∨ variance values = 0) (v : ℚ) :
    score values v = .zero := dif_pos h

theorem score_of_spread {values : List ℚ} (h : ¬(values.length < 2 ∨ variance values = 0)) (v : ℚ) :
    score values v =
      .ofDeviation (v - mean values) (variance values) (variance_pos (not_or.mp h).2) := dif_neg h

theorem zscore_eq_map (values : List ℚ) : zscore values = values.map (score values) := by
  have hflat : values.length < 2 ∨ variance values = 0 →
      List.replicate values.length .zero = values.map (score values) := by
    intro h
    rw [← List.map_const']
    exact List.map_congr_left fun v _ => (score_of_flat h v).symm
  rw [zscore]
  by_cases hlength : values.length < 2
  · rw [if_pos hlength, hflat (.inl hlength)]
  · rw [if_neg hlength]
    by_cases hvariance : variance values = 0
    · rw [dif_pos hvariance, hflat (.inr hvariance)]
    · rw [dif_neg hvariance]
      exact List.map_congr_left fun v _ => (score_of_spread (not_or.mpr ⟨hlength, hvariance⟩) v).symm

/-- In real numbers the scores are deviations from the mean in standard deviations, and zeros where
there is none. -/
theorem toReal_score (values : List ℚ) (v : ℚ) : (score values v).toReal =
    if values.length < 2 then 0
    else ((v - mean values : ℚ) : ℝ) / Real.sqrt ((variance values : ℚ) : ℝ) := by
  by_cases hlength : values.length < 2
  · rw [score_of_flat (.inl hlength), if_pos hlength, Score.toReal_zero]
  · rw [if_neg hlength]
    by_cases hvariance : variance values = 0
    · rw [score_of_flat (.inr hvariance), hvariance, Rat.cast_zero, Real.sqrt_zero, div_zero,
        Score.toReal_zero]
    · rw [score_of_spread (not_or.mpr ⟨hlength, hvariance⟩), Score.toReal_ofDeviation]

section Detect

variable {values : List ℚ} {threshold : ℚ} {minPoints : Int}

/-- The detector reports the values whose score exceeds the threshold, each with its place. -/
theorem detectAnomalies_eq (hlength : ¬(values.length : Int) < minPoints) :
    detectAnomalies values threshold minPoints =
      (values.zipIdx.filter fun p => (score values p.1).exceeds threshold).map fun p =>
        ⟨p.2, p.1, score values p.1⟩ := by
  have hzip : values.zip (zscore values) = values.map fun v => (v, score values v) := by
    rw [zscore_eq_map, List.map_prod_left_eq_zip]
  rw [detectAnomalies, if_neg hlength, hzip, List.zipIdx_map, List.filter_map, List.map_map]
  rfl

theorem mem_detectAnomalies {anomaly : Anomaly} :
    anomaly ∈ detectAnomalies values threshold minPoints ↔ ¬(values.length : Int) < minPoints ∧
      values[anomaly.index]? = some anomaly.value ∧ anomaly.zscore = score values anomaly.value ∧
      anomaly.zscore.exceeds threshold = true := by
  by_cases hlength : (values.length : Int) < minPoints
  · rw [detectAnomalies, if_pos hlength]
    exact iff_of_false nofun fun h => h.1 hlength
  · rw [detectAnomalies_eq hlength, List.mem_map, and_iff_right hlength]
    constructor
    · rintro ⟨⟨v, i⟩, hmem, rfl⟩
      obtain ⟨hi, hexceeds⟩ := List.mem_filter.mp hmem
      exact ⟨List.mem_zipIdx_iff_getElem?.mp hi, rfl, hexceeds⟩
    · obtain ⟨i, v, z⟩ := anomaly
      rintro ⟨hi, hscore, hexceeds⟩
      obtain rfl : z = score values v := hscore
      exact ⟨(v, i), List.mem_filter.mpr ⟨List.mem_zipIdx_iff_getElem?.mpr hi, hexceeds⟩, rfl⟩

theorem length_detectAnomalies (hlength : ¬(values.length : Int) < minPoints) :
    (detectAnomalies values threshold minPoints).length =
      values.countP fun v => (score values v).exceeds threshold := by
  have hcount : (values.zipIdx.map Prod.fst).countP (fun v => (score values v).exceeds threshold) =
      values.zipIdx.countP fun p => (score values p.1).exceeds threshold := List.countP_map ..
  rw [List.zipIdx_map_fst] at hcount
  rw [detectAnomalies_eq hlength, List.length_map, ← List.countP_eq_length_filter, hcount]

end Detect

/-! ### Detection power -/

section Power

variable {values : List ℚ} {threshold : ℚ}

theorem exceeds_of_nonneg {z : Score} (ht : 0 ≤ threshold) :
    z.exceeds threshold = true ↔ threshold ^ 2 < z.square := by
  rw [Score.exceeds, Bool.or_eq_true, decide_eq_true_iff, decide_eq_true_iff, or_iff_right ht.not_gt]

theorem exceeds_of_neg {z : Score} (h : threshold < 0) : z.exceeds threshold = true := by
  rw [Score.exceeds, decide_eq_true h, Bool.true_or]

/-- A score that exceeds a threshold that is not negative lies in a series with a spread. -/
theorem exceeds_score_iff (ht : 0 ≤ threshold) (v : ℚ) :
    (score values v).exceeds threshold = true ↔ ¬(values.length < 2 ∨ variance values = 0) ∧
      threshold ^ 2 * variance values < (v - mean values) ^ 2 := by
  rw [exceeds_of_nonneg ht]
  by_cases hflat : values.length < 2 ∨ variance values = 0
  · rw [score_of_flat hflat]
    exact iff_of_false (not_lt.mpr (sq_nonneg threshold)) fun h => h.1 hflat
  · rw [score_of_spread hflat, and_iff_right hflat]
    exact lt_div_iff₀ (variance_pos (not_or.mp hflat).2)

/-- A member of a list that lies far from its mean gives it a spread. -/
theorem exceeds_score_of_mem {v : ℚ} (ht : 0 ≤ threshold) (hv : v ∈ values) :
    (score values v).exceeds threshold = true ↔ (moments values).Far threshold v := by
  rw [exceeds_score_iff ht, far_moments_iff (List.ne_nil_of_mem hv), and_iff_right_iff_imp]
  rintro hfar (hlength | hvariance)
  · have hpos : 0 < values.length := List.length_pos_of_mem hv
    have hone : values.length = 1 := by omega
    have hdeviation := sq_sub_mean_le hv
    rw [hone, Nat.cast_one, sub_self, zero_mul] at hdeviation
    have hspread := mul_nonneg (sq_nonneg threshold) (variance_nonneg values)
    linarith
  · have hdeviation := sq_sub_mean_le hv
    rw [hvariance, mul_zero] at hdeviation hfar
    linarith

theorem not_exceeds_of_mem (ht : 0 ≤ threshold) (hn : (values.length : ℚ) ≤ threshold ^ 2 + 1) {v : ℚ}
    (hv : v ∈ values) : ¬(score values v).exceeds threshold = true := by
  rw [exceeds_score_iff ht]
  rintro ⟨hflat, hlt⟩
  have hsamuelson := sq_sub_mean_le hv
  have hpos := variance_pos (not_or.mp hflat).2
  have hbound : ((values.length : ℚ) - 1) * variance values ≤ threshold ^ 2 * variance values :=
    mul_le_mul_of_nonneg_right (by linarith) hpos.le
  linarith

theorem countP_exceeds_lt (ht : 0 ≤ threshold)
    (hcount : values.countP (fun v => (score values v).exceeds threshold) ≠ 0) :
    (values.countP fun v => (score values v).exceeds threshold) * threshold ^ 2 <
      (values.length : ℚ) := by
  obtain ⟨v, hv, hexceeds⟩ := List.countP_pos_iff.mp (Nat.pos_of_ne_zero hcount)
  have hpos := variance_pos (not_or.mp ((exceeds_score_iff ht v).mp hexceeds).1).2
  have hsum := countP_mul_lt (fun x _ hx => ((exceeds_score_iff ht x).mp hx).2) hcount
  rw [← length_mul_variance (List.ne_nil_of_mem hv), ← mul_assoc] at hsum
  exact lt_of_mul_lt_mul_right hsum hpos.le

/-- A series with no more than `threshold ^ 2 + 1` points has no anomaly, and any series less than one
for each `threshold ^ 2` points. -/
theorem detection_power (values : List ℚ) {threshold : ℚ} (ht : 0 < threshold) (minPoints : Int) :
    ((values.length : ℚ) ≤ threshold ^ 2 + 1 → detectAnomalies values threshold minPoints = []) ∧
      ((detectAnomalies values threshold minPoints).length = 0 ∨
        (detectAnomalies values threshold minPoints).length * threshold ^ 2 <
          (values.length : ℚ)) := by
  by_cases hlength : (values.length : Int) < minPoints
  · rw [detectAnomalies, if_pos hlength]
    exact ⟨fun _ => rfl, .inl rfl⟩
  · rw [← List.length_eq_zero_iff, length_detectAnomalies hlength]
    constructor
    · intro hn
      exact List.countP_eq_zero.mpr fun v hv => not_exceeds_of_mem ht.le hn hv
    · by_cases hcount : values.countP (fun v => (score values v).exceeds threshold) = 0
      · exact .inl hcount
      · exact .inr (countP_exceeds_lt ht.le hcount)

/-- With the default threshold the largest of ten points is no anomaly. -/
theorem detection_power_ten : detectAnomalies [0, 0, 0, 0, 0, 0, 0, 0, 0, 1000] 3 3 = [] :=
  (detection_power [0, 0, 0, 0, 0, 0, 0, 0, 0, 1000] (by norm_num) 3).1 (by norm_num)

end Power

/-! ### Unit, origin and order -/

section Affine

variable {a : ℚ} (ha : a ≠ 0) (b : ℚ) (values : List ℚ)

theorem sign_ne_zero (ha : a ≠ 0) : SignType.sign a ≠ 0 := fun h => ha (sign_eq_zero_iff.mp h)

include ha in
theorem flat_map_affine : ((values.map fun v => a * v + b).length < 2 ∨
    variance (values.map fun v => a * v + b) = 0) ↔ (values.length < 2 ∨ variance values = 0) := by
  rw [List.length_map]
  by_cases hlength : values.length < 2
  · exact iff_of_true (.inl hlength) (.inl hlength)
  · have hne : values ≠ [] := by
      rintro rfl
      exact hlength (Nat.succ_pos 1)
    rw [or_iff_right hlength, or_iff_right hlength, variance_map_affine hne, mul_eq_zero,
      or_iff_right (pow_ne_zero 2 ha)]

/-- A series in another unit has the same scores, up to the sign of the unit. -/
theorem score_map_affine (v : ℚ) : score (values.map fun v => a * v + b) (a * v + b) =
    (score values v).mulSign (SignType.sign a) (sign_ne_zero ha) := by
  by_cases hflat : values.length < 2 ∨ variance values = 0
  · rw [score_of_flat hflat, score_of_flat ((flat_map_affine ha b values).mpr hflat)]
    simp [Score.zero, Score.mulSign]
  · have hne : values ≠ [] := by
      rintro rfl
      exact hflat (.inl (Nat.succ_pos 1))
    have hdeviation : a * v + b - mean (values.map fun v => a * v + b) = a * (v - mean values) := by
      rw [mean_map_affine hne]
      ring
    rw [score_of_spread hflat, score_of_spread (mt (flat_map_affine ha b values).mp hflat)]
    simp only [Score.ofDeviation, Score.mulSign, Score.mk.injEq]
    rw [hdeviation, variance_map_affine hne]
    refine ⟨sign_mul _ _, ?_⟩
    rw [mul_pow, mul_div_mul_left _ _ (pow_ne_zero 2 ha)]

theorem detectAnomalies_map_affine (threshold : ℚ) (minPoints : Int) :
    detectAnomalies (values.map fun v => a * v + b) threshold minPoints =
      (detectAnomalies values threshold minPoints).map fun anomaly =>
        ⟨anomaly.index, a * anomaly.value + b,
          anomaly.zscore.mulSign (SignType.sign a) (sign_ne_zero ha)⟩ := by
  by_cases hlength : (values.length : Int) < minPoints
  · have hlength' : ((values.map fun v => a * v + b).length : Int) < minPoints := by
      rwa [List.length_map]
    rw [detectAnomalies, detectAnomalies, if_pos hlength, if_pos hlength']
    rfl
  · have hlength' : ¬((values.map fun v => a * v + b).length : Int) < minPoints := by
      rwa [List.length_map]
    rw [detectAnomalies_eq hlength, detectAnomalies_eq hlength', List.zipIdx_map, List.filter_map,
      List.map_map, List.map_map]
    simp only [Function.comp_def, Prod.map, id, score_map_affine ha]
    rfl

end Affine

section Permutation

variable (values : List ℚ) (σ : Equiv.Perm (Fin values.length))

/-- The series with the value of the place `σ i` at the place `i`. -/
def permuted : List ℚ := List.ofFn fun i => values.get (σ i)

theorem permuted_perm : (permuted values σ).Perm values := by
  have hperm := Equiv.Perm.ofFn_comp_perm σ values.get
  rwa [List.ofFn_get] at hperm

theorem score_perm {values values' : List ℚ} (h : values.Perm values') (v : ℚ) :
    score values v = score values' v := by
  simp only [score, h.length_eq, mean_perm h, variance_perm h]

theorem getElem?_permuted (i : Fin values.length) :
    (permuted values σ)[i.val]? = values[(σ i).val]? := by
  rw [permuted, List.getElem?_ofFn, dif_pos i.isLt, List.getElem?_eq_getElem (σ i).isLt]
  rfl

end Permutation

/-- The anomalies of a series are the same in any unit and from any origin, with the sign of the unit on
their scores, and those of a permuted series are at the permuted places. -/
theorem anomalies_invariant {a : ℚ} (ha : a ≠ 0) (b : ℚ) (values : List ℚ) (threshold : ℚ)
    (minPoints : Int) :
    detectAnomalies (values.map fun v => a * v + b) threshold minPoints =
        ((detectAnomalies values threshold minPoints).map fun anomaly =>
          ⟨anomaly.index, a * anomaly.value + b,
            anomaly.zscore.mulSign (SignType.sign a) (sign_ne_zero ha)⟩) ∧
      ∀ σ : Equiv.Perm (Fin values.length),
        (∀ anomaly ∈ detectAnomalies (permuted values σ) threshold minPoints,
          anomaly.index < values.length) ∧
        ∀ (i : Fin values.length) (value : ℚ) (z : Score),
          ⟨i, value, z⟩ ∈ detectAnomalies (permuted values σ) threshold minPoints ↔
            ⟨σ i, value, z⟩ ∈ detectAnomalies values threshold minPoints := by
  refine ⟨detectAnomalies_map_affine ha b values threshold minPoints, fun σ => ⟨?_, ?_⟩⟩
  · intro anomaly hanomaly
    obtain ⟨-, hindex, -⟩ := mem_detectAnomalies.mp hanomaly
    obtain ⟨hlt, -⟩ := List.getElem?_eq_some_iff.mp hindex
    rwa [(permuted_perm values σ).length_eq] at hlt
  · intro i value z
    rw [mem_detectAnomalies, mem_detectAnomalies, (permuted_perm values σ).length_eq,
      getElem?_permuted, score_perm (permuted_perm values σ)]

/-- Eleven points, the last far from the others, and the same below zero. -/
theorem anomalies_invariant_opposite :
    (detectAnomalies ([0, 0, 0, 0, 0, 0, 0, 0, 0, 0, 1000].map fun v => -1 * v + 5) 3 3).map
        Anomaly.index = [10] := by
  rw [(anomalies_invariant (by norm_num : (-1 : ℚ) ≠ 0) 5
    [0, 0, 0, 0, 0, 0, 0, 0, 0, 0, 1000] 3 3).1, List.map_map]
  decide +kernel

end Clickstream.AnomalyDetection
