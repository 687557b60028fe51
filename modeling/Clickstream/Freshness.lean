import Clickstream.Cache
import Clickstream.Go.Time
import Mathlib.Algebra.Order.Field.Basic

/-! The freshness of the curated layer, as three components compute it from the latest window of
`curated.page_views_1m`: the Airflow check, the gauge of the API, and the control-plane client behind the
API's summary.  Seconds are exact numbers, and `now` is in microseconds from the start of 1970. -/

namespace Clickstream.Freshness

open Python Cache

def later (c : Clock) : Option Clock → Clock
  | some best => if best.epochMicros < c.epochMicros then c else best
  | none => c

/-- `SELECT MAX(window_start)` over the rows of the table; `none` is the `NULL` of an empty one. -/
def maxWindowStart : List Clock → Option Clock
  | [] => none
  | c :: windowStarts => some (later c (maxWindowStart windowStarts))

theorem maxWindowStart_eq_none {windowStarts : List Clock} :
    maxWindowStart windowStarts = none ↔ windowStarts = [] := by
  cases windowStarts <;> simp [maxWindowStart]

theorem maxWindowStart_mem {windowStarts : List Clock} {latest : Clock}
    (h : maxWindowStart windowStarts = some latest) : latest ∈ windowStarts := by
  induction windowStarts generalizing latest with
  | nil => cases h
  | cons c windowStarts ih =>
    obtain rfl := Option.some.inj h
    cases hrest : maxWindowStart windowStarts with
    | none => exact List.mem_cons_self
    | some best =>
      rw [later]
      split_ifs
      · exact List.mem_cons_self
      · exact List.mem_cons_of_mem _ (ih hrest)

theorem le_maxWindowStart {windowStarts : List Clock} {latest : Clock}
    (h : maxWindowStart windowStarts = some latest) :
    ∀ c ∈ windowStarts, c.epochMicros ≤ latest.epochMicros := by
  induction windowStarts generalizing latest with
  | nil => cases h
  | cons c windowStarts ih =>
    obtain rfl := Option.some.inj h
    cases hrest : maxWindowStart windowStarts with
    | none =>
      rw [maxWindowStart_eq_none.mp hrest]
      exact List.forall_mem_singleton.mpr (Int.le_refl _)
    | some best =>
      have hbest := ih hrest
      rw [later]
      split_ifs with hlt
      · exact List.forall_mem_cons.mpr ⟨Int.le_refl _, fun d hd => (hbest d hd).trans hlt.le⟩
      · exact List.forall_mem_cons.mpr ⟨Int.not_lt.mp hlt, hbest⟩

/-! ### The Airflow check -/

/-- `FRESHNESS_WINDOW_SECONDS` -/
def windowSeconds : Rat := 60

/-- `FRESHNESS_MAX_STALE_SECONDS` -/
def maxStaleSeconds : Rat := 180

def fetchLatestWindow (windowStarts : List Clock) : Option Datetime :=
  (maxWindowStart windowStarts).map Clock.naive

/-- A number of seconds or `float("inf")`. -/
inductive Staleness where
  | seconds (s : Rat)
  | infinite
  deriving DecidableEq

def Staleness.within (budget : Rat) : Staleness → Bool
  | .seconds s => decide (s ≤ budget)
  | .infinite => false

def staleSeconds (latestWindowStart : Option Datetime) (now : Datetime) (windowSeconds : Rat) :
    Except DatetimeError Staleness :=
  match latestWindowStart with
  | none => .ok .infinite
  | some latest => do
    let latest := if latest.aware then latest else { latest with aware := true }
    let age ← now.sub latest
    return .seconds (max 0 (totalSeconds age - windowSeconds))

def freshnessOk (latestWindowStart : Option Datetime) (now : Datetime)
    (windowSeconds maxStaleSeconds : Rat) : Except DatetimeError Bool := do
  let stale ← staleSeconds latestWindowStart now windowSeconds
  return stale.within maxStaleSeconds

/-! ### The gauge of the API -/

/-- `refresh_freshness_gauge` behind its query: the value of the gauge. -/
def refreshFreshnessGauge (latest : Option Datetime) (utcnow : Datetime) : Except DatetimeError Rat :=
  match latest with
  | none => .ok 0
  | some latest => do
    let now := { utcnow with aware := false }
    let windowEnd ← latest.add 60000000
    let freshness ← now.sub windowEnd
    return max 0 (totalSeconds freshness)

/-! ### The control-plane client -/

/-- `FetchSummary` of the body: a field that is `null` or missing is the empty string. -/
def fetchSummary : Json → Option PyStr
  | .obj pairs =>
    match pairs.lookup (lit "latest_window") with
    | some (.str s) => some s
    | some .null | none => some []
    | some _ => none
  | .null => some []
  | _ => none

def parseLatestWindow (value : PyStr) : Option Int := Go.parse Go.isoLayout value

/-- `StaleSeconds` -/
def clientStaleSeconds (latest now window : Int) : Rat :=
  let age := Go.sub now latest
  let stale := Go.wrap64 (age - window)
  if stale < 0 then 0 else Go.seconds stale

inductive Failure where
  | decode
  | parseLatestWindow (value : PyStr)
  | stale (seconds : Rat)

/-- The number that `runFreshness` prints. -/
def clientStaleness (summary : Json) (now : Int) : Except Failure Rat := do
  let value ← (fetchSummary summary).elim (.error .decode) .ok
  let latest ← (parseLatestWindow value).elim (.error (.parseLatestWindow value)) .ok
  return clientStaleSeconds latest (now * 1000) Go.minute

def runFreshness (summary : Json) (now : Int) : Except Failure Unit := do
  let stale ← clientStaleness summary now
  if 180 < stale then .error (.stale stale) else .ok ()

/-! ### The monitors on one state -/

/-- The columns of the summary beside `latest_window`. -/
structure Totals where
  totalViews : DbValue
  totalUsers : DbValue
  pages : DbValue
  campaigns : DbValue

/-- `GET /api/v1/summary` -/
def summaryBody (enc : Encoders) (totals : Totals) (windowStarts : List Clock) : Json :=
  Endpoint.summary.body ((Data.dict (querySummary totals.totalViews totals.totalUsers totals.pages
    (maxWindowStart windowStarts) totals.campaigns)).render (DbValue.toJson enc))

section Monitors

variable (enc : Encoders) (totals : Totals) (windowStarts : List Clock) (now : Int)

def airflowStaleness : Except DatetimeError Staleness :=
  staleSeconds (fetchLatestWindow windowStarts) ⟨now, true⟩ windowSeconds

def gaugeStaleness : Except DatetimeError Rat :=
  refreshFreshnessGauge (fetchLatestWindow windowStarts) ⟨now, true⟩

/-- The check fails, with an error too. -/
def AirflowStale : Prop :=
  freshnessOk (fetchLatestWindow windowStarts) ⟨now, true⟩ windowSeconds maxStaleSeconds ≠ .ok true

/-- The gauge is over the budget or not refreshed. -/
def GaugeStale : Prop := ∀ s, gaugeStaleness windowStarts now = .ok s → maxStaleSeconds < s

/-- The client exits with an error. -/
def ClientStale : Prop := runFreshness (summaryBody enc totals windowStarts) now ≠ .ok ()

/-- `max(0, now - latest - 60 s)` -/
def behind (latest : Clock) (now : Int) : Rat := max 0 (totalSeconds (now - latest.epochMicros) - 60)

/-- The monitors compute the same number, and find the same states stale. -/
structure Agree : Prop where
  airflow : ∀ latest, maxWindowStart windowStarts = some latest →
    airflowStaleness windowStarts now = .ok (.seconds (behind latest now))
  gauge : ∀ latest, maxWindowStart windowStarts = some latest →
    gaugeStaleness windowStarts now = .ok (behind latest now)
  client : ∀ latest, maxWindowStart windowStarts = some latest →
    clientStaleness (summaryBody enc totals windowStarts) now = .ok (behind latest now)
  airflow_iff_gauge : AirflowStale windowStarts now ↔ GaugeStale windowStarts now
  airflow_iff_client : AirflowStale windowStarts now ↔ ClientStale enc totals windowStarts now

/-- The end of the window is still in year 9999, and `now` so close that its distance to the window, and
that distance less one minute, fit into 64 bits of nanoseconds. -/
def Near (latest : Clock) (now : Int) : Prop :=
  latest.epochMicros + 60000000 ≤ maxMicros ∧
    Go.minDuration + Go.minute ≤ (now - latest.epochMicros) * 1000 ∧
    (now - latest.epochMicros) * 1000 ≤ Go.maxDuration

end Monitors

section Latest

variable {enc : Encoders} {totals : Totals} {windowStarts : List Clock} {latest : Clock} {now : Int}

theorem airflowStaleness_of_latest (h : maxWindowStart windowStarts = some latest) :
    airflowStaleness windowStarts now = .ok (.seconds (behind latest now)) := by
  rw [airflowStaleness, fetchLatestWindow, h]
  rfl

theorem totalSeconds_sub_sixty (delta : Int) :
    totalSeconds delta - 60 = totalSeconds (delta - 60000000) := by
  rw [totalSeconds, totalSeconds]
  push_cast
  ring

theorem totalSeconds_le_iff {delta delta' : Int} :
    totalSeconds delta ≤ totalSeconds delta' ↔ delta ≤ delta' := by
  rw [totalSeconds, totalSeconds, div_le_div_iff_of_pos_right (by norm_num), Int.cast_le]

/-- The end of the window raises behind year 9999. -/
theorem gaugeStaleness_of_latest (h : maxWindowStart windowStarts = some latest) :
    gaugeStaleness windowStarts now =
      if latest.epochMicros + 60000000 ≤ maxMicros then .ok (behind latest now)
      else .error .overflowError := by
  have hmin := latest.epochMicros_range.1
  rw [gaugeStaleness, fetchLatestWindow, h]
  simp only [Option.map_some, refreshFreshnessGauge, Datetime.add, Clock.naive]
  by_cases hend : latest.epochMicros + 60000000 ≤ maxMicros
  · have hrange : minMicros ≤ latest.epochMicros + 60000000 ∧
        latest.epochMicros + 60000000 ≤ maxMicros := ⟨by omega, hend⟩
    rw [if_pos hrange, if_pos hend, behind, totalSeconds_sub_sixty, sub_sub]
    rfl
  · rw [if_neg fun hrange => hend hrange.2, if_neg hend]
    rfl

theorem fetchSummary_summaryBody :
    fetchSummary (summaryBody enc totals windowStarts) =
      some ((maxWindowStart windowStarts).elim [] Clock.isoformat) := by
  cases h : maxWindowStart windowStarts with
  | none => rw [summaryBody, h]; rfl
  | some latest => rw [summaryBody, h]; rfl

theorem clientStaleness_of_latest (h : maxWindowStart windowStarts = some latest) :
    clientStaleness (summaryBody enc totals windowStarts) now =
      .ok (clientStaleSeconds (latest.epochMicros * 1000) (now * 1000) Go.minute) := by
  rw [clientStaleness, fetchSummary_summaryBody, h]
  have hparse : parseLatestWindow latest.isoformat = some (latest.epochMicros * 1000) :=
    Go.parse_isoformat latest
  show Except.bind ((parseLatestWindow latest.isoformat).elim
    (.error (Failure.parseLatestWindow latest.isoformat)) .ok) _ = _
  rw [hparse]
  rfl

theorem clientStaleSeconds_eq (latest now window : Int) :
    clientStaleSeconds latest now window =
      Go.seconds (max 0 (Go.wrap64 (Go.sub now latest - window))) := by
  rw [clientStaleSeconds]
  split_ifs with hneg
  · rw [max_eq_left hneg.le]
    simp [Go.seconds]
  · rw [max_eq_right (not_lt.mp hneg)]

theorem behind_eq (latest : Clock) (now : Int) :
    behind latest now = Go.seconds (max 0 ((now - latest.epochMicros) * 1000 - Go.minute)) := by
  have hseconds : totalSeconds (now - latest.epochMicros) - 60 =
      Go.seconds ((now - latest.epochMicros) * 1000 - Go.minute) := by
    rw [totalSeconds, Go.seconds, Go.minute]
    push_cast
    ring
  rw [behind, hseconds, Go.seconds, Go.seconds]
  push_cast
  rw [← zero_div (1000000000 : Rat), max_div_div_right (by norm_num), zero_div]

/-- Of the saturating and wrapping nanoseconds of the client, those in range are the exact ones. -/
theorem wrap64_sub_eq_iff {t u : Int} :
    max 0 (Go.wrap64 (Go.sub t u - Go.minute)) = max 0 (t - u - Go.minute) ↔
      Go.minDuration + Go.minute ≤ t - u ∧ t - u ≤ Go.maxDuration := by
  unfold Go.wrap64 Go.sub Go.minute Go.minDuration Go.maxDuration
  split_ifs <;> omega

theorem clientStaleSeconds_eq_behind_iff :
    clientStaleSeconds (latest.epochMicros * 1000) (now * 1000) Go.minute = behind latest now ↔
      Go.minDuration + Go.minute ≤ (now - latest.epochMicros) * 1000 ∧
        (now - latest.epochMicros) * 1000 ≤ Go.maxDuration := by
  have hdistance : now * 1000 - latest.epochMicros * 1000 = (now - latest.epochMicros) * 1000 := by ring
  rw [clientStaleSeconds_eq, behind_eq, Go.seconds, Go.seconds, div_left_inj' (by norm_num),
    Int.cast_inj, ← hdistance]
  exact wrap64_sub_eq_iff

theorem airflowStale_of_latest (h : maxWindowStart windowStarts = some latest) :
    AirflowStale windowStarts now ↔ maxStaleSeconds < behind latest now := by
  have hok : freshnessOk (fetchLatestWindow windowStarts) ⟨now, true⟩ windowSeconds maxStaleSeconds =
      .ok (decide (behind latest now ≤ maxStaleSeconds)) := by
    rw [freshnessOk, show staleSeconds _ _ _ = _ from airflowStaleness_of_latest h]
    rfl
  rw [AirflowStale, hok]
  simp

theorem gaugeStale_of_latest (h : maxWindowStart windowStarts = some latest)
    (hend : latest.epochMicros + 60000000 ≤ maxMicros) :
    GaugeStale windowStarts now ↔ maxStaleSeconds < behind latest now := by
  rw [GaugeStale, gaugeStaleness_of_latest h, if_pos hend]
  simp

theorem clientStale_of_latest {s : Rat}
    (h : clientStaleness (summaryBody enc totals windowStarts) now = .ok s) :
    ClientStale enc totals windowStarts now ↔ maxStaleSeconds < s := by
  have hrun : runFreshness (summaryBody enc totals windowStarts) now =
      if 180 < s then .error (.stale s) else .ok () := by
    rw [runFreshness, h]
    rfl
  rw [ClientStale, hrun, maxStaleSeconds]
  split_ifs with hs <;> simp [hs]

theorem agree_of_near (h : maxWindowStart windowStarts = some latest) (hnear : Near latest now) :
    Agree enc totals windowStarts now := by
  obtain ⟨hend, hrange⟩ := hnear
  have hclient : clientStaleness (summaryBody enc totals windowStarts) now = .ok (behind latest now) := by
    rw [clientStaleness_of_latest h, clientStaleSeconds_eq_behind_iff.mpr hrange]
  have hgauge : gaugeStaleness windowStarts now = .ok (behind latest now) := by
    rw [gaugeStaleness_of_latest h, if_pos hend]
  have hsame : ∀ other, maxWindowStart windowStarts = some other → other = latest :=
    fun other hother => Option.some.inj (hother.symm.trans h)
  refine ⟨fun other hother => ?_, fun other hother => ?_, fun other hother => ?_, ?_, ?_⟩
  · exact airflowStaleness_of_latest hother
  · rw [hsame other hother]
    exact hgauge
  · rw [hsame other hother]
    exact hclient
  · rw [airflowStale_of_latest h, gaugeStale_of_latest h hend]
  · rw [airflowStale_of_latest h, clientStale_of_latest hclient]

/-- An empty table is stale for the check and zero seconds behind for the gauge. -/
theorem not_agree_empty (enc : Encoders) (totals : Totals) (now : Int) : ¬Agree enc totals [] now := by
  intro h
  have hairflow : AirflowStale [] now := by
    have hok : freshnessOk none ⟨now, true⟩ windowSeconds maxStaleSeconds = .ok false := rfl
    rw [AirflowStale, fetchLatestWindow, maxWindowStart_eq_none.mpr rfl, Option.map_none, hok]
    exact fun heq => by cases heq
  have hgauge := h.airflow_iff_gauge.mp hairflow 0 rfl
  exact absurd hgauge (by decide)

end Latest

/-- The monitors agree exactly when the table has a latest window, near enough to now. -/
theorem agree_iff (enc : Encoders) (totals : Totals) (windowStarts : List Clock) (now : Int) :
    Agree enc totals windowStarts now ↔
      ∃ latest, maxWindowStart windowStarts = some latest ∧ Near latest now := by
  cases h : maxWindowStart windowStarts with
  | none =>
    rw [maxWindowStart_eq_none.mp h]
    simp [not_agree_empty]
  | some latest =>
    constructor
    · intro hagree
      have hend : latest.epochMicros + 60000000 ≤ maxMicros := by
        by_contra hend
        have hgauge := hagree.gauge latest h
        rw [gaugeStaleness_of_latest h, if_neg hend] at hgauge
        cases hgauge
      have hclient := hagree.client latest h
      rw [clientStaleness_of_latest h, Except.ok.injEq, clientStaleSeconds_eq_behind_iff] at hclient
      exact ⟨latest, rfl, hend, hclient⟩
    · rintro ⟨_, hsame, hnear⟩
      obtain rfl := Option.some.inj hsame
      exact agree_of_near h hnear

theorem not_agree_always :
    ¬∀ (enc : Encoders) (totals : Totals) (windowStarts : List Clock) (now : Int),
      Agree enc totals windowStarts now := by
  intro h
  exact not_agree_empty _ _ 0 (h integralEncoders ⟨.int 0, .int 0, .int 0, .int 0⟩ [] 0)

end Clickstream.Freshness
