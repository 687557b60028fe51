import Mathlib.Data.Nat.Sqrt
import Clickstream.AnomalyDetection
import Clickstream.Assistant

/-! The endpoint that looks for anomalies in a metric.  Prometheus answers with one series for each set
of labels, and the endpoint scans the samples of all of them as one list, in exact arithmetic. -/

namespace Clickstream.AnomalyDetection.Score

/-- `round(abs(z) * 10 ** digits)`, half to even. -/
def scaledRound (z : Score) (digits : Nat) : Nat :=
  let square := z.square * 100 ^ digits
  let n := Nat.sqrt ⌊square⌋₊
  if (n + 1 / 2 : ℚ) ^ 2 < square ∨ (n + 1 / 2 : ℚ) ^ 2 = square ∧ n % 2 = 1 then n + 1 else n

/-- `round(z, digits)` -/
def round (z : Score) (digits : Nat) : ℚ := z.sign * z.scaledRound digits / 10 ^ digits

theorem abs_scaledRound_sub_le (z : Score) (digits : Nat) :
    |(z.scaledRound digits : ℝ) - Real.sqrt ((z.square * 100 ^ digits : ℚ) : ℝ)| ≤ 1 / 2 := by
  rw [scaledRound]
  have hnonneg : 0 ≤ z.square * 100 ^ digits := mul_nonneg z.nonneg (by positivity)
  set square := z.square * 100 ^ digits
  set n := Nat.sqrt ⌊square⌋₊
  have hlow : ((n : ℚ)) ^ 2 ≤ square := by
    have hn : n ^ 2 ≤ ⌊square⌋₊ := Nat.sqrt_le' _
    exact_mod_cast (Nat.le_floor_iff hnonneg).mp hn
  have hhigh : square < ((n : ℚ) + 1) ^ 2 := by
    have hn : ⌊square⌋₊ < (n + 1) ^ 2 := Nat.lt_succ_sqrt' _
    exact_mod_cast (Nat.floor_lt hnonneg).mp hn
  have hroot : (n : ℝ) ≤ Real.sqrt square := Real.le_sqrt_of_sq_le (by exact_mod_cast hlow)
  have hroot' : Real.sqrt square ≤ n + 1 :=
    Real.sqrt_le_iff.mpr ⟨by positivity, by exact_mod_cast hhigh.le⟩
  have hcast : ((n : ℝ) + 1 / 2) ^ 2 = (((n + 1 / 2 : ℚ) ^ 2 : ℚ) : ℝ) := by push_cast; rfl
  rw [abs_sub_le_iff]
  split
  · rename_i hup
    have hmid : (n + 1 / 2 : ℚ) ^ 2 ≤ square := hup.elim le_of_lt fun h => h.1.le
    have hhalf : (n : ℝ) + 1 / 2 ≤ Real.sqrt square :=
      Real.le_sqrt_of_sq_le (hcast ▸ Rat.cast_le.mpr hmid)
    push_cast
    constructor <;> linarith
  · rename_i hdown
    have hmid : square ≤ (n + 1 / 2 : ℚ) ^ 2 := not_lt.mp (not_or.mp hdown).1
    have hhalf : Real.sqrt square ≤ (n : ℝ) + 1 / 2 :=
      Real.sqrt_le_iff.mpr ⟨by positivity, hcast ▸ Rat.cast_le.mpr hmid⟩
    constructor <;> linarith

/-- A rounded score is within half a unit of its last digit. -/
theorem abs_round_sub_le (z : Score) (digits : Nat) :
    |((z.round digits : ℚ) : ℝ) - z.toReal| ≤ 1 / 2 / 10 ^ digits := by
  have hpow : (0 : ℝ) < 10 ^ digits := by positivity
  have hroot : Real.sqrt ((z.square * 100 ^ digits : ℚ) : ℝ) =
      Real.sqrt z.square * 10 ^ digits := by
    have hhundred : (100 : ℝ) ^ digits = (10 ^ digits) ^ 2 := by
      rw [← pow_mul, mul_comm, pow_mul]
      norm_num
    push_cast
    rw [hhundred, Real.sqrt_mul' _ (sq_nonneg _), Real.sqrt_sq hpow.le]
  have hsign : |((z.sign : ℚ) : ℝ)| ≤ 1 := by
    cases z.sign <;> simp
  have hreal : (z.sign : ℝ) = ((z.sign : ℚ) : ℝ) := by
    cases z.sign <;> simp
  have hdifference : ((z.round digits : ℚ) : ℝ) - z.toReal = ((z.sign : ℚ) : ℝ) *
      (z.scaledRound digits - Real.sqrt ((z.square * 100 ^ digits : ℚ) : ℝ)) / 10 ^ digits := by
    rw [hroot, round, toReal, hreal]
    push_cast
    field_simp
  rw [hdifference, abs_div, abs_mul, abs_of_pos hpow]
  apply div_le_div_of_nonneg_right _ hpow.le
  calc |((z.sign : ℚ) : ℝ)| * |z.scaledRound digits - Real.sqrt ((z.square * 100 ^ digits : ℚ) : ℝ)|
      ≤ 1 * (1 / 2) :=
        mul_le_mul hsign (abs_scaledRound_sub_le z digits) (abs_nonneg _) zero_le_one
    _ = 1 / 2 := one_mul _

end Clickstream.AnomalyDetection.Score

namespace Clickstream.Assistant

open Python Kit AnomalyDetection

structure Settings where
  prometheusUrl : PyStr
  anomalyThreshold : ℚ
  anomalyMinPoints : Int
  anomalyHours : Int

structure RangeQuery where
  url : PyStr
  query : PyStr
  start : Int
  stop : Int
  step : Nat

/-- A series of a range query: the times of its samples and the texts of their values, if it has any. -/
structure Series where
  values : Option (List (ℚ × PyStr))

structure AnomalyEntry where
  index : Nat
  value : ℚ
  zscore : ℚ
  deriving DecidableEq

structure AnomalyResult where
  metric : PyStr
  anomalies : List AnomalyEntry
  note : PyStr

def rangeQuery (settings : Settings) (now : Int) (metric : PyStr) : RangeQuery where
  url := settings.prometheusUrl ++ lit "/api/v1/query_range"
  query := metric
  start := now - settings.anomalyHours * 3600
  stop := now
  step := 60

section Endpoint

-- the number that `float` reads from a text, and the text of a number
variable (float : PyStr → ℚ) (floatText : ℚ → PyStr)

/-- `float(v) for _, v in r.get("values", [])` -/
def Series.samples (r : Series) : List ℚ := (r.values.getD []).map fun sample => float sample.2

/-- The list that the endpoint extends by the samples of one series after another. -/
def scanned (result : List Series) : List ℚ := result.flatMap (Series.samples float)

def scanNote (settings : Settings) (series : List ℚ) : PyStr :=
  intText series.length ++ lit " samples scanned; threshold=" ++ floatText settings.anomalyThreshold

/-- `anomalies`, with the answers of Prometheus to its queries. -/
def anomalies (settings : Settings) (prometheus : RangeQuery → Except PyStr (List Series)) (now : Int)
    (metric : PyStr) : Except HTTPException AnomalyResult :=
  match prometheus (rangeQuery settings now metric) with
  | .error exc => .error ⟨503, lit "prometheus unavailable: " ++ exc⟩
  | .ok result =>
    let series := scanned float result
    let found := detectAnomalies series settings.anomalyThreshold settings.anomalyMinPoints
    .ok ⟨metric, found.map fun a => ⟨a.index, a.value, a.zscore.round 2⟩,
      scanNote floatText settings series⟩

/-! ### The verdict on a value -/

/-- The answer lists the value at a place of the list that was scanned. -/
def Reported (answer : Except HTTPException AnomalyResult) (place : Nat) : Prop :=
  ∃ result, answer = .ok result ∧ place ∈ result.anomalies.map AnomalyEntry.index

/-- `detect_anomalies`, applied to a series alone, lists its sample at a place. -/
def ReportedAlone (settings : Settings) (r : Series) (i : Nat) : Prop :=
  i ∈ (detectAnomalies (r.samples float) settings.anomalyThreshold settings.anomalyMinPoints).map
    Anomaly.index

/-- A value is an anomaly among values with these moments: they are enough, and it is far from them. -/
def Anomalous (settings : Settings) (m : Moments ℚ) (v : ℚ) : Prop :=
  settings.anomalyMinPoints ≤ m.count ∧
    (settings.anomalyThreshold < 0 ∨ m.Far settings.anomalyThreshold v)

variable {float floatText} {settings : Settings}

theorem detected_iff {values : List ℚ} {i : Nat} {v : ℚ} (hv : values[i]? = some v) :
    i ∈ (detectAnomalies values settings.anomalyThreshold settings.anomalyMinPoints).map
      Anomaly.index ↔ Anomalous settings (moments values) v := by
  have hverdict : (score values v).exceeds settings.anomalyThreshold = true ↔
      settings.anomalyThreshold < 0 ∨ (moments values).Far settings.anomalyThreshold v := by
    by_cases hneg : settings.anomalyThreshold < 0
    · exact iff_of_true (exceeds_of_neg hneg) (.inl hneg)
    · rw [or_iff_right hneg]
      exact exceeds_score_of_mem (not_lt.mp hneg) (List.mem_of_getElem? hv)
  rw [Anomalous, ← hverdict, ← not_lt, List.mem_map]
  constructor
  · rintro ⟨anomaly, hanomaly, rfl⟩
    obtain ⟨hcount, hvalue, hscore, hexceeds⟩ := mem_detectAnomalies.mp hanomaly
    obtain rfl : anomaly.value = v := Option.some_inj.mp (hvalue.symm.trans hv)
    rw [hscore] at hexceeds
    exact ⟨hcount, hexceeds⟩
  · rintro ⟨hcount, hexceeds⟩
    exact ⟨⟨i, v, score values v⟩, mem_detectAnomalies.mpr ⟨hcount, hv, rfl, hexceeds⟩, rfl⟩

/-- The endpoint judges a sample among all samples. -/
theorem reported_iff {result : List Series} {now : Int} {metric : PyStr} {place : Nat} {v : ℚ}
    (hv : (scanned float result)[place]? = some v) :
    Reported (anomalies float floatText settings (fun _ => .ok result) now metric) place ↔
      Anomalous settings (moments (scanned float result)) v := by
  rw [← detected_iff hv, Reported, anomalies]
  dsimp only
  simp only [Except.ok.injEq, exists_eq_left', List.map_map]
  rfl

theorem reportedAlone_iff {r : Series} {i : Nat} {v : ℚ} (hv : (r.samples float)[i]? = some v) :
    ReportedAlone float settings r i ↔ Anomalous settings (moments (r.samples float)) v :=
  detected_iff hv

theorem scanned_append (before after : List Series) :
    scanned float (before ++ after) = scanned float before ++ scanned float after :=
  List.flatMap_append

theorem scanned_cons (r : Series) (after : List Series) :
    scanned float (r :: after) = r.samples float ++ scanned float after := List.flatMap_cons

theorem forall_samples_iff {result : List Series} {p : ℚ → Prop} :
    (∀ r ∈ result, ∀ v ∈ r.samples float, p v) ↔ ∀ v ∈ scanned float result, p v :=
  List.forall_mem_flatMap.symm

/-- The place of a sample in the list that is scanned. -/
theorem getElem?_scanned (before after : List Series) {r : Series} {i : Nat} {v : ℚ}
    (hv : (r.samples float)[i]? = some v) :
    (scanned float (before ++ r :: after))[(scanned float before).length + i]? = some v := by
  obtain ⟨hlt, -⟩ := List.getElem?_eq_some_iff.mp hv
  rw [scanned_append, scanned_cons, List.getElem?_append_right (Nat.le_add_right ..),
    Nat.add_sub_cancel_left, List.getElem?_append_left hlt, hv]

/-! ### Series by series -/

section Judged

variable (float floatText settings) (now : Int) (metric : PyStr)

/-- The endpoint reports a sample exactly when the detector reports it for its series alone. -/
def JudgedPerSeries (result : List Series) : Prop :=
  ∀ before r after, result = before ++ r :: after → ∀ i < (r.samples float).length,
    (Reported (anomalies float floatText settings (fun _ => .ok result) now metric)
      ((scanned float before).length + i) ↔ ReportedAlone float settings r i)

/-- A series that is added to a result neither hides nor creates anomalies in the others. -/
def Undisturbed (before : List Series) (extra : Series) (after : List Series) : Prop :=
  (∀ place < (scanned float before).length,
      (Reported (anomalies float floatText settings (fun _ => .ok (before ++ extra :: after)) now
        metric) place ↔
      Reported (anomalies float floatText settings (fun _ => .ok (before ++ after)) now metric)
        place)) ∧
    ∀ i < (scanned float after).length,
      (Reported (anomalies float floatText settings (fun _ => .ok (before ++ extra :: after)) now
        metric) ((scanned float before).length + (extra.samples float).length + i) ↔
      Reported (anomalies float floatText settings (fun _ => .ok (before ++ after)) now metric)
        ((scanned float before).length + i))

end Judged

/-- A value fares the same among its own values as among more of them: they are too few even together;
or its own are too few and it lies near the mean of all; or both are enough, and it lies far from both
means or from neither. -/
def SameVerdict (settings : Settings) (own all : Moments ℚ) (v : ℚ) : Prop :=
  if (all.count : Int) < settings.anomalyMinPoints then True
  else if (own.count : Int) < settings.anomalyMinPoints then
    0 ≤ settings.anomalyThreshold ∧ ¬all.Far settings.anomalyThreshold v
  else
    settings.anomalyThreshold < 0 ∨
      (own.Far settings.anomalyThreshold v ↔ all.Far settings.anomalyThreshold v)

theorem sameVerdict_iff {own all : Moments ℚ} (h : own.count ≤ all.count) {v : ℚ} :
    SameVerdict settings own all v ↔
      (Anomalous settings all v ↔ Anomalous settings own v) := by
  have hcount : (own.count : Int) ≤ all.count := Int.ofNat_le.mpr h
  rw [SameVerdict, Anomalous, Anomalous]
  by_cases hall : (all.count : Int) < settings.anomalyMinPoints
  · have hown : ¬settings.anomalyMinPoints ≤ own.count := not_le.mpr (hcount.trans_lt hall)
    rw [if_pos hall]
    simp only [hown, not_le.mpr hall, false_and]
  · rw [if_neg hall, and_iff_right (not_lt.mp hall)]
    by_cases hown : (own.count : Int) < settings.anomalyMinPoints
    · rw [if_pos hown]
      simp only [not_le.mpr hown, false_and, iff_false, not_or, not_lt]
    · rw [if_neg hown, and_iff_right (not_lt.mp hown)]
      by_cases hneg : settings.anomalyThreshold < 0
      · simp only [hneg, true_or]
      · simp only [hneg, false_or]
        exact Iff.comm

theorem sameVerdict_self (m : Moments ℚ) (v : ℚ) : SameVerdict settings m m v :=
  (sameVerdict_iff le_rfl).mpr Iff.rfl

section Result

variable {now : Int} {metric : PyStr}

theorem length_samples_le {result : List Series} {r : Series} (hr : r ∈ result) :
    (r.samples float).length ≤ (scanned float result).length := by
  obtain ⟨before, after, rfl⟩ := List.append_of_mem hr
  rw [scanned_append, scanned_cons, List.length_append, List.length_append]
  omega

theorem judgedPerSeries_iff {result : List Series} :
    JudgedPerSeries float floatText settings now metric result ↔
      ∀ r ∈ result, ∀ v ∈ r.samples float,
        SameVerdict settings (moments (r.samples float)) (moments (scanned float result)) v := by
  constructor
  · intro hjudged r hr v hv
    obtain ⟨before, after, rfl⟩ := List.append_of_mem hr
    obtain ⟨i, hi, hvalue⟩ := List.getElem_of_mem hv
    have hplace : (r.samples float)[i]? = some v := List.getElem?_eq_some_iff.mpr ⟨hi, hvalue⟩
    have hsame := hjudged before r after rfl i hi
    rw [reported_iff (getElem?_scanned before after hplace), reportedAlone_iff hplace] at hsame
    exact (sameVerdict_iff (length_samples_le hr)).mpr hsame
  · rintro hsame before r after rfl i hi
    have hr : r ∈ before ++ r :: after := List.mem_append_cons_self
    have hplace : (r.samples float)[i]? = some (r.samples float)[i] := List.getElem?_eq_getElem hi
    rw [reported_iff (getElem?_scanned before after hplace), reportedAlone_iff hplace]
    exact (sameVerdict_iff (length_samples_le hr)).mp (hsame r hr _ (List.getElem_mem hi))

/-- The verdicts of two requests on a value that both scan. -/
theorem reported_iff_reported {few more : List Series} {place place' : Nat} {v : ℚ}
    (hmore : (scanned float more)[place]? = some v) (hfew : (scanned float few)[place']? = some v)
    (hlength : (scanned float few).length ≤ (scanned float more).length) :
    (Reported (anomalies float floatText settings (fun _ => .ok more) now metric) place ↔
        Reported (anomalies float floatText settings (fun _ => .ok few) now metric) place') ↔
      SameVerdict settings (moments (scanned float few)) (moments (scanned float more)) v := by
  rw [reported_iff hmore, reported_iff hfew]
  exact (sameVerdict_iff hlength).symm

theorem undisturbed_iff {before after : List Series} {extra : Series} :
    Undisturbed float floatText settings now metric before extra after ↔
      ∀ r ∈ before ++ after, ∀ v ∈ r.samples float,
        SameVerdict settings (moments (scanned float (before ++ after)))
          (moments (scanned float (before ++ extra :: after))) v := by
  have hfew : scanned float (before ++ after) = scanned float before ++ scanned float after :=
    scanned_append before after
  have hmore : scanned float (before ++ extra :: after) =
      scanned float before ++ (extra.samples float ++ scanned float after) := scanned_append before _
  have hlength : (scanned float (before ++ after)).length ≤
      (scanned float (before ++ extra :: after)).length := by
    rw [hfew, hmore]
    simp only [List.length_append]
    omega
  rw [forall_samples_iff, scanned_append, List.forall_mem_append, List.forall_mem_iff_getElem,
    List.forall_mem_iff_getElem, ← scanned_append]
  refine and_congr (forall₂_congr fun place hplace => ?_) (forall₂_congr fun i hi => ?_)
  · refine reported_iff_reported ?_ ?_ hlength
    · rw [hmore, List.getElem?_append_left hplace, List.getElem?_eq_getElem hplace]
    · rw [hfew, List.getElem?_append_left hplace, List.getElem?_eq_getElem hplace]
  · refine reported_iff_reported ?_ ?_ hlength
    · rw [hmore, ← List.append_assoc, ← List.length_append,
        List.getElem?_append_right (Nat.le_add_right ..), Nat.add_sub_cancel_left,
        List.getElem?_eq_getElem hi]
    · rw [hfew, List.getElem?_append_right (Nat.le_add_right ..), Nat.add_sub_cancel_left,
        List.getElem?_eq_getElem hi]

/-- A metric with one series that has samples is judged as the detector is meant to. -/
theorem judgedPerSeries_of_single {before after : List Series} {r : Series}
    (h : ∀ s ∈ before ++ after, s.samples float = []) :
    JudgedPerSeries float floatText settings now metric (before ++ r :: after) := by
  rw [List.forall_mem_append] at h
  have hscanned : scanned float (before ++ r :: after) = r.samples float := by
    rw [scanned_append, scanned_cons, scanned, scanned, List.flatMap_eq_nil_iff.mpr h.1,
      List.flatMap_eq_nil_iff.mpr h.2, List.nil_append, List.append_nil]
  rw [judgedPerSeries_iff, hscanned]
  intro s hs v hv
  obtain rfl | hother : s = r ∨ s.samples float = [] := by
    rcases List.mem_append.mp hs with hbefore | hs
    · exact .inr (h.1 s hbefore)
    · exact (List.mem_cons.mp hs).imp_right (h.2 s)
  · exact sameVerdict_self _ v
  · rw [hother] at hv
    exact absurd hv List.not_mem_nil

/-- Of a series that is added only the number, the sum and the sum of squares of its samples matter. -/
theorem undisturbed_congr {before after : List Series} {extra extra' : Series}
    (h : moments (extra.samples float) = moments (extra'.samples float)) :
    Undisturbed float floatText settings now metric before extra after ↔
      Undisturbed float floatText settings now metric before extra' after := by
  have hmoments : moments (scanned float (before ++ extra :: after)) =
      moments (scanned float (before ++ extra' :: after)) := by
    simp only [scanned_append, scanned_cons, moments_append, h]
  rw [undisturbed_iff, undisturbed_iff, hmoments]

end Result

/-- A metric is judged series by series, and a series can be added to it without harm, exactly when
every sample fares the same among the samples of its series, or of the other series, as among all. -/
theorem judged_and_undisturbed_iff (float : PyStr → ℚ) (floatText : ℚ → PyStr) (settings : Settings)
    (now : Int) (metric : PyStr) :
    (∀ result, JudgedPerSeries float floatText settings now metric result ↔
      ∀ r ∈ result, ∀ v ∈ r.samples float,
        SameVerdict settings (moments (r.samples float)) (moments (scanned float result)) v) ∧
    ∀ before extra after, Undisturbed float floatText settings now metric before extra after ↔
      ∀ r ∈ before ++ after, ∀ v ∈ r.samples float,
        SameVerdict settings (moments (scanned float (before ++ after)))
          (moments (scanned float (before ++ extra :: after))) v :=
  ⟨fun _ => judgedPerSeries_iff, fun _ _ _ => undisturbed_iff⟩

/-! ### Two partitions -/

def defaults : Settings := ⟨lit "http://localhost:9090", 3, 3, 6⟩

def partitionLag (values : List String) : Series :=
  ⟨some (values.map fun value => (0, lit value))⟩

/-- A partition with a sudden lag, and one that lags far behind all the time. -/
def suddenLag : Series := partitionLag (List.replicate 11 "0" ++ ["100"])

def constantLag : Series := partitionLag (List.replicate 12 "1000")

/-- The number of a text of digits. -/
def digitsFloat (s : PyStr) : ℚ := decimalNat s

/-- The detector finds the sudden lag, and the endpoint only while the other partition is not there. -/
theorem not_judged : ¬JudgedPerSeries digitsFloat (fun _ => []) defaults 0 (lit "kafka_consumer_lag")
      [suddenLag, constantLag] ∧
    ¬Undisturbed digitsFloat (fun _ => []) defaults 0 (lit "kafka_consumer_lag") [suddenLag]
      constantLag [] := by
  have halone : ReportedAlone digitsFloat defaults suddenLag 11 := by
    rw [ReportedAlone]
    decide +kernel
  have hpooled : ¬Reported (anomalies digitsFloat (fun _ => []) defaults
      (fun _ => .ok [suddenLag, constantLag]) 0 (lit "kafka_consumer_lag")) 11 := by
    rintro ⟨result, hresult, hmem⟩
    obtain rfl := Except.ok.inj hresult
    revert hmem
    decide +kernel
  have hbefore : Reported (anomalies digitsFloat (fun _ => []) defaults
      (fun _ => .ok [suddenLag]) 0 (lit "kafka_consumer_lag")) 11 := by
    refine ⟨_, rfl, ?_⟩
    decide +kernel
  constructor
  · intro hjudged
    exact hpooled ((hjudged [] suddenLag [constantLag] rfl 11 (by decide)).mpr halone)
  · intro hundisturbed
    exact hpooled ((hundisturbed.1 11 (by decide)).mpr hbefore)

end Endpoint

end Clickstream.Assistant
