import Clickstream.Marts
import Clickstream.Python.JsonEncoder

/-! The data-quality checks: those of Soda and dbt that are declared in files, the ones that run on
ClickHouse, and the report with its exit code.  What the checks say about values holds in every state
of the streaming job, so that only volume and freshness can fail a report. -/

namespace Clickstream.Quality

open Python Kit Streaming PostgresSink ClickHouseSink Refinement Rollup TopLists Marts

/-! ### Checks of Soda -/

inductive Check (γ : Type) where
  | freshness (column : γ) (limit : Int)
  | rowCount
  | missingCount (column : γ)
  | invalidCount (column : γ) (validValues : List PyStr)

section Check

variable {γ : Type}

def timestampUnder (column : γ) (r : Row γ) : Option Int :=
  match r column with
  | .timestamp t => some t
  | _ => none

/-- A value that is neither missing nor valid. -/
def isInvalid (validValues : List PyStr) : Value → Bool
  | .null => false
  | .text s => decide (s ∉ validValues)
  | _ => true

/-- `freshness(column) < limit`, `row_count > 0`, `missing_count(column) = 0` and
`invalid_count(column) = 0`. -/
def Check.passes (now : Int) (rows : List (Row γ)) : Check γ → Bool
  | .freshness column limit =>
    (maxTimestamp (rows.filterMap (timestampUnder column))).any fun t => decide (now - t < limit)
  | .rowCount => decide (0 < rows.length)
  | .missingCount column => decide (rows.countP (fun r => decide (r column = .null)) = 0)
  | .invalidCount column validValues =>
    decide (rows.countP (fun r => isInvalid validValues (r column)) = 0)

end Check

def sevenDays : Int := 7 * 24 * 60 * 60 * second

def validDevices : List PyStr := [lit "mobile", lit "desktop", lit "tablet"]

def validCampaignIds : List PyStr :=
  [lit "c-1", lit "c-2", lit "c-3", lit "c-4", lit "c-5", lit "c-6", lit "c-7", lit "c-8",
    lit "organic"]

/-- The checks for `page_views_1m`. -/
def pageViewsChecks : List (Check PageViewsColumn) :=
  [.freshness .windowStart sevenDays, .rowCount, .missingCount .windowStart, .missingCount .page,
    .invalidCount .device validDevices]

/-- The checks for `campaign_stats_1m`. -/
def campaignStatsChecks : List (Check CampaignStatsColumn) :=
  [.rowCount, .missingCount .campaignId, .invalidCount .campaignId validCampaignIds]

/-! ### `run_quality` -/

/-- What the report reads of a check in the results of a scan. -/
structure SodaEntry where
  table : Option PyStr
  name : Option PyStr
  definition : Option PyStr
  outcome : Option PyStr
  value : Option Int

/-- A scan of the curated tables at some time. -/
structure Soda where
  scan : Int → List (Row PageViewsColumn) → List (Row CampaignStatsColumn) → List SodaEntry

/-- The outcome of a check is `pass` exactly when it passes; the checks come in their order. -/
structure SodaSpec (soda : Soda) : Prop where
  outcomes : ∀ now pageViews campaignStats,
    (soda.scan now pageViews campaignStats).map (fun e => decide (e.outcome = some (lit "pass"))) =
      pageViewsChecks.map (Check.passes now pageViews) ++
        campaignStatsChecks.map (Check.passes now campaignStats)

structure CheckRow where
  source : PyStr
  table : Option PyStr
  check : Option PyStr
  status : PyStr
  value : Option Int

/-- `s or t` of Python. -/
def orElse (s t : Option PyStr) : Option PyStr :=
  match s with
  | some (c :: cs) => some (c :: cs)
  | _ => t

def checkRow (e : SodaEntry) : CheckRow where
  source := lit "postgres_curated"
  table := e.table
  check := orElse e.name e.definition
  status := (orElse e.outcome none).getD (lit "error")
  value := e.value

/-- `run_soda_postgres`; `none` is the `RuntimeError`. -/
def runSodaPostgres (entries : List SodaEntry) : Option (List CheckRow) :=
  if entries = [] then none else some (entries.map checkRow)

inductive Op where
  | greater (expected : Int)
  | isNotNull

/-- `ok`; `none` is the `TypeError` of a comparison with `None`. -/
def Op.ok : Op → Option Int → Option Bool
  | .greater expected, some value => some (decide (expected < value))
  | .greater _, none => none
  | .isNotNull, value => some value.isSome

/-- `max(ts)` of ClickHouse, which is the start of 1970 over no rows. -/
def maxTs (rows : List (Row ClicksColumn)) : Int :=
  (maxTimestamp (rows.filterMap (timestampUnder .ts))).getD 0

/-- The checks against ClickHouse: the table, the value of the query, the name and the operator. -/
def clickhouseChecks (clicks : List (Row ClicksColumn)) (pageViews : List (Row PageViewsColumn)) :
    List (PyStr × Option Int × PyStr × Op) :=
  [(lit "olap.clicks", some (final clicksOrderBy clicks).rows.length, lit "row_count", .greater 0),
    (lit "olap.page_views_1m", some (final pageViewsOrderBy pageViews).rows.length, lit "row_count",
      .greater 0),
    (lit "olap.clicks", some (maxTs (final clicksOrderBy clicks).rows), lit "max_ts_not_null",
      .isNotNull)]

def clickhouseRow (c : PyStr × Option Int × PyStr × Op) : Option CheckRow := do
  let ok ← c.2.2.2.ok c.2.1
  return ⟨lit "clickhouse", some c.1, some c.2.2.1, if ok then lit "pass" else lit "fail", c.2.1⟩

def runClickhouseChecks (clicks : List (Row ClicksColumn)) (pageViews : List (Row PageViewsColumn)) :
    Option (List CheckRow) :=
  (clickhouseChecks clicks pageViews).mapM clickhouseRow

structure Report where
  checks : List CheckRow
  total : Nat
  failed : Nat
  badge : PyStr

def writeReport (rows : List CheckRow) : Report :=
  let failed := (rows.filter fun r => decide (r.status ≠ lit "pass")).length
  ⟨rows, rows.length, failed,
    if failed = 0 then lit "PASS" else lit "FAIL (" ++ natText failed ++ lit ")"⟩

/-- The report and the exit code; `none` when a scan without checks raises. -/
def main (soda : Soda) (now : Int) (pageViews : List (Row PageViewsColumn))
    (campaignStats : List (Row CampaignStatsColumn)) (clicks : List (Row ClicksColumn))
    (olapPageViews : List (Row PageViewsColumn)) : Option (Report × Nat) := do
  let rows ← runSodaPostgres (soda.scan now pageViews campaignStats)
  let more ← runClickhouseChecks clicks olapPageViews
  let report := writeReport (rows ++ more)
  return (report, if report.failed = 0 then 0 else 1)

/-! ### The tests of dbt -/

section Tests

variable {ρ κ : Type} [DecidableEq κ]

/-- What `accepted_values` selects: the other values of a column, with their rows. -/
def unacceptedValues (column : ρ → PyStr) (values : List PyStr) (mart : List ρ) : List (PyStr × Nat) :=
  (aggregate (fun r => some (column r)) (fun value rows => (value, rows.length)) mart).filter
    fun p => decide (p.1 ∉ values)

/-- `group by` the key, `having count(*) > 1` -/
def repeatedKeys (key : ρ → κ) (mart : List ρ) : List (κ × Nat) :=
  (aggregate (fun r => some (key r)) (fun k rows => (k, rows.length)) mart).filter
    fun p => decide (1 < p.2)

end Tests

/-- The values of `device` in the tests of `daily_page_summary`. -/
def assertDevices (mart : List DailyPageSummary) : List (PyStr × Nat) :=
  unacceptedValues DailyPageSummary.device validDevices mart

def assertDailyPageSummaryUnique (mart : List DailyPageSummary) : List (DailyKey × Nat) :=
  repeatedKeys (fun r => (r.day, r.page, r.device)) mart

/-- The values of `campaign_id` in the tests of `daily_campaign_summary`. -/
def assertCampaignIds (mart : List DailyCampaignSummary) : List (PyStr × Nat) :=
  unacceptedValues DailyCampaignSummary.campaignId validCampaignIds mart

def assertDailyCampaignSummaryUnique (mart : List DailyCampaignSummary) : List ((Int × PyStr) × Nat) :=
  repeatedKeys (fun r => (r.day, r.campaignId)) mart

/-! ### Statuses -/

def CheckRow.passed (r : CheckRow) : Bool := decide (r.status = lit "pass")

theorem passed_checkRow (e : SodaEntry) :
    (checkRow e).passed = decide (e.outcome = some (lit "pass")) := by
  have hpass : lit "pass" ≠ [] := by decide +kernel
  have herror : lit "error" ≠ lit "pass" := by decide +kernel
  rw [CheckRow.passed, checkRow]
  cases e.outcome with
  | none => simp [orElse, herror]
  | some outcome =>
    cases outcome with
    | nil => simp [orElse, herror, hpass.symm]
    | cons c cs =>
      rw [decide_eq_decide, Option.some_inj]
      rfl

/-- Whether the checks of the ClickHouse tables pass. -/
def clickhouseOutcomes (clicks : List (Row ClicksColumn)) (pageViews : List (Row PageViewsColumn)) :
    List Bool :=
  [decide ((final clicksOrderBy clicks).rows ≠ []), decide ((final pageViewsOrderBy pageViews).rows ≠ []),
    true]

theorem passed_of_ok (source : PyStr) (table check : Option PyStr) (value : Option Int) (ok : Bool) :
    CheckRow.passed ⟨source, table, check, if ok then lit "pass" else lit "fail", value⟩ = ok := by
  have hfail : lit "fail" ≠ lit "pass" := by decide +kernel
  cases ok <;> simp [CheckRow.passed, hfail]

theorem decide_length_pos {α : Type} (l : List α) :
    decide ((0 : Int) < (l.length : Int)) = decide (l ≠ []) := by
  rw [decide_eq_decide, Int.natCast_pos, List.length_pos_iff]

theorem runClickhouseChecks_eq (clicks : List (Row ClicksColumn))
    (pageViews : List (Row PageViewsColumn)) : ∃ rows, runClickhouseChecks clicks pageViews = some rows ∧
      rows.map CheckRow.passed = clickhouseOutcomes clicks pageViews := by
  refine ⟨[_, _, _], rfl, ?_⟩
  simp only [List.map_cons, List.map_nil, passed_of_ok, clickhouseOutcomes, decide_length_pos]
  rfl

/-- Whether the eleven checks of a report pass, in their order. -/
def outcomes (now : Int) (pageViews : List (Row PageViewsColumn))
    (campaignStats : List (Row CampaignStatsColumn)) (clicks : List (Row ClicksColumn))
    (olapPageViews : List (Row PageViewsColumn)) : List Bool :=
  pageViewsChecks.map (Check.passes now pageViews) ++
    campaignStatsChecks.map (Check.passes now campaignStats) ++ clickhouseOutcomes clicks olapPageViews

theorem runSodaPostgres_eq {soda : Soda} (spec : SodaSpec soda) (now : Int)
    (pageViews : List (Row PageViewsColumn)) (campaignStats : List (Row CampaignStatsColumn)) :
    ∃ rows, runSodaPostgres (soda.scan now pageViews campaignStats) = some rows ∧
      rows.map CheckRow.passed = pageViewsChecks.map (Check.passes now pageViews) ++
        campaignStatsChecks.map (Check.passes now campaignStats) := by
  have houtcomes := spec.outcomes now pageViews campaignStats
  have hne : soda.scan now pageViews campaignStats ≠ [] := by
    intro hnil
    rw [hnil] at houtcomes
    cases houtcomes
  refine ⟨_, if_neg hne, ?_⟩
  rw [List.map_map, ← houtcomes]
  exact List.map_congr_left fun e _ => passed_checkRow e

theorem failed_writeReport (rows : List CheckRow) :
    (writeReport rows).failed = (rows.map CheckRow.passed).count false := by
  rw [List.count, List.countP_map, List.countP_eq_length_filter]
  refine congrArg List.length (List.filter_congr fun r _ => ?_)
  by_cases h : r.status = lit "pass" <;> simp [CheckRow.passed, h]

/-- The report has the outcomes of all checks, and the exit code is 0 when none fails. -/
theorem main_eq {soda : Soda} (spec : SodaSpec soda) (now : Int)
    (pageViews : List (Row PageViewsColumn)) (campaignStats : List (Row CampaignStatsColumn))
    (clicks : List (Row ClicksColumn)) (olapPageViews : List (Row PageViewsColumn)) :
    ∃ report code, main soda now pageViews campaignStats clicks olapPageViews = some (report, code) ∧
      report.checks.map CheckRow.passed = outcomes now pageViews campaignStats clicks olapPageViews ∧
      (code = 0 ↔ false ∉ outcomes now pageViews campaignStats clicks olapPageViews) := by
  obtain ⟨rows, hrows, hpassed⟩ := runSodaPostgres_eq spec now pageViews campaignStats
  obtain ⟨more, hmore, hpassed'⟩ := runClickhouseChecks_eq clicks olapPageViews
  have hall : (rows ++ more).map CheckRow.passed =
      outcomes now pageViews campaignStats clicks olapPageViews := by
    rw [List.map_append, hpassed, hpassed', outcomes]
  refine ⟨writeReport (rows ++ more), if (writeReport (rows ++ more)).failed = 0 then 0 else 1, ?_,
    hall, ?_⟩
  · rw [main, hrows, hmore]
    rfl
  · rw [failed_writeReport, hall, ← List.count_eq_zero]
    by_cases h : List.count false (outcomes now pageViews campaignStats clicks olapPageViews) = 0
    · simp [h]
    · simp [h]

/-! ### Values -/

theorem passes_missingCount {γ : Type} {now : Int} {rows : List (Row γ)} {column : γ} :
    (Check.missingCount column).passes now rows = true ↔ ∀ r ∈ rows, r column ≠ .null := by
  simp [Check.passes, List.countP_eq_zero]

theorem passes_invalidCount {γ : Type} {now : Int} {rows : List (Row γ)} {column : γ}
    {validValues : List PyStr} : (Check.invalidCount column validValues).passes now rows = true ↔
      ∀ r ∈ rows, isInvalid validValues (r column) = false := by
  simp [Check.passes, List.countP_eq_zero]

theorem timestampUnder_eq_some {γ : Type} {column : γ} {r : Row γ} {t : Int} :
    timestampUnder column r = some t ↔ r column = .timestamp t := by
  rw [timestampUnder]
  cases r column <;> simp

theorem passes_freshness {γ : Type} {now limit : Int} {rows : List (Row γ)} {column : γ} :
    (Check.freshness column limit).passes now rows = true ↔
      ∃ r ∈ rows, ∃ t, r column = .timestamp t ∧ now - t < limit := by
  have hspec := maxTimestamp_spec (rows.filterMap (timestampUnder column))
  simp only [List.mem_filterMap, timestampUnder_eq_some] at hspec
  rw [Check.passes, Option.any_eq_true]
  constructor
  · rintro ⟨t, hmax, hlimit⟩
    obtain ⟨⟨r, hr, hcolumn⟩, -⟩ := hspec.2 t hmax
    exact ⟨r, hr, t, hcolumn, of_decide_eq_true hlimit⟩
  · rintro ⟨r, hr, u, hcolumn, hlimit⟩
    cases hmax : maxTimestamp (rows.filterMap (timestampUnder column)) with
    | none =>
      have hmem := List.mem_filterMap.mpr ⟨r, hr, timestampUnder_eq_some.mpr hcolumn⟩
      rw [hspec.1.mp hmax] at hmem
      cases hmem
    | some t =>
      have hle : u ≤ t := (hspec.2 t hmax).2 u ⟨r, hr, hcolumn⟩
      exact ⟨t, rfl, decide_eq_true (by omega)⟩

section Values

variable {py : Interpreter} {spark : Spark} {l : List ParsedEvent}
  (haccepted : ∀ e ∈ l, Accepted py spark e)
include haccepted

theorem device_mem_of_mem_pageViews1m {w : PageViews} (hw : w ∈ pageViews1m spark l) :
    w.device ∈ validDevices := by
  obtain ⟨k, hk, rfl⟩ := mem_aggregate.mp hw
  obtain ⟨e, he, hkey⟩ := mem_groupKeys.mp hk
  obtain ⟨t, -, rfl⟩ := Option.map_eq_some_iff.mp hkey
  obtain ⟨text, fields, hparse, rfl⟩ := haccepted e he
  exact (Parsing.parseEvent_valid hparse).device

theorem campaignId_mem_of_mem_campaignStats1m {w : CampaignStats}
    (hw : w ∈ campaignStats1m spark l) : w.campaignId ∈ validCampaignIds := by
  have hvalues : validCampaignIds = Parsing.campaignIds := by decide +kernel
  obtain ⟨k, hk, rfl⟩ := mem_aggregate.mp hw
  obtain ⟨e, he, hkey⟩ := mem_groupKeys.mp hk
  obtain ⟨t, -, rfl⟩ := Option.map_eq_some_iff.mp hkey
  obtain ⟨text, fields, hparse, rfl⟩ := haccepted e he
  rw [hvalues]
  exact (Parsing.parseEvent_valid hparse).campaignId

end Values

section Tables

variable {spark : Spark} {l : List ParsedEvent}

theorem mem_rows_pageViews {db : Database pageViewsKeyColumns}
    (h : (pageViewsView spark).Holds db.table l) {r : Row PageViewsColumn} :
    r ∈ db.table.rows ↔ ∃ w ∈ pageViews1m spark l, w.toRow = r := by
  rw [h.perm_rows.mem_iff, pageViewsView_rows, List.mem_map]

theorem mem_rows_campaignStats {db : Database campaignStatsKeyColumns}
    (h : (campaignStatsView spark).Holds db.table l) {r : Row CampaignStatsColumn} :
    r ∈ db.table.rows ↔ ∃ w ∈ campaignStats1m spark l, w.toRow = r := by
  rw [h.perm_rows.mem_iff, campaignStatsView_rows, List.mem_map]

variable (spark) in
/-- There is a window around each moment, and no other. -/
theorem exists_pageViews1m (p : Int → Prop) :
    (∃ w ∈ pageViews1m spark l, p w.windowStart) ↔ ∃ e ∈ l, ∃ t, e.ts = some t ∧ p (windowStart t) := by
  constructor
  · rintro ⟨w, hw, hp⟩
    obtain ⟨k, hk, rfl⟩ := mem_aggregate.mp hw
    obtain ⟨e, he, hkey⟩ := mem_groupKeys.mp hk
    obtain ⟨t, hts, rfl⟩ := Option.map_eq_some_iff.mp hkey
    exact ⟨e, he, t, hts, hp⟩
  · rintro ⟨e, he, t, hts, hp⟩
    have hkey : pageViewsKey e = some (windowStart t, e.page, e.device) := by rw [pageViewsKey, hts]; rfl
    exact ⟨_, mem_aggregate.mpr ⟨_, mem_groupKeys.mpr ⟨e, he, hkey⟩, rfl⟩, hp⟩

variable (spark) in
theorem exists_campaignStats1m :
    (∃ w, w ∈ campaignStats1m spark l) ↔ ∃ e ∈ l, e.ts ≠ none := by
  constructor
  · rintro ⟨w, hw⟩
    obtain ⟨k, hk, rfl⟩ := mem_aggregate.mp hw
    obtain ⟨e, he, hkey⟩ := mem_groupKeys.mp hk
    obtain ⟨t, hts, rfl⟩ := Option.map_eq_some_iff.mp hkey
    exact ⟨e, he, by rw [hts]; exact Option.some_ne_none t⟩
  · rintro ⟨e, he, hts⟩
    obtain ⟨t, hts⟩ := Option.ne_none_iff_exists'.mp hts
    have hkey : campaignKey e = some (windowStart t, e.campaignId) := by rw [campaignKey, hts]; rfl
    exact ⟨_, mem_aggregate.mpr ⟨_, mem_groupKeys.mpr ⟨e, he, hkey⟩, rfl⟩⟩

end Tables

/-! ### Marts -/

section Marts

variable {ρ κ : Type} [DecidableEq κ]

theorem unacceptedValues_eq_nil {column : ρ → PyStr} {values : List PyStr} {mart : List ρ}
    (h : ∀ r ∈ mart, column r ∈ values) : unacceptedValues column values mart = [] := by
  rw [unacceptedValues, List.filter_eq_nil_iff]
  intro p hp
  obtain ⟨value, hvalue, rfl⟩ := mem_aggregate.mp hp
  obtain ⟨r, hr, hcolumn⟩ := mem_groupKeys.mp hvalue
  rw [decide_eq_true_iff, not_not, ← Option.some.inj hcolumn]
  exact h r hr

/-- No key has two rows when the keys of the rows differ. -/
theorem repeatedKeys_eq_nil {key : ρ → κ} {mart : List ρ} (h : (mart.map key).Nodup) :
    repeatedKeys key mart = [] := by
  rw [repeatedKeys, List.filter_eq_nil_iff]
  intro p hp
  obtain ⟨k, -, rfl⟩ := mem_aggregate.mp hp
  have hone : (group (fun r => some (key r)) mart k).length ≤ 1 := by
    have hcount : (group (fun r => some (key r)) mart k).length = (mart.map key).count k := by
      rw [group, ← List.countP_eq_length_filter, List.count, List.countP_map]
      exact List.countP_congr fun r _ => by simp
    rw [hcount]
    exact List.nodup_iff_count_le_one.mp h k
  rw [decide_eq_true_iff, not_lt]
  exact hone

/-- A row with the key of its group, from rows some of which cannot be built. -/
theorem map_of_mapM_aggregate {α β : Type} {key : α → Option κ} {row : κ → List α → Option β}
    {keyOfRow : β → κ} (hrow : ∀ k l r, row k l = some r → keyOfRow r = k) {l : List α} {mart : List β}
    (h : (aggregate key row l).mapM id = some mart) : mart.map keyOfRow = groupKeys key l := by
  rw [aggregate, List.mapM_map] at h
  generalize groupKeys key l = keys at h ⊢
  induction keys generalizing mart with
  | nil =>
    cases h
    rfl
  | cons k keys ih =>
    rw [List.mapM_cons] at h
    obtain ⟨r, hr, hrest⟩ := Option.bind_eq_some_iff.mp h
    obtain ⟨rest, hmap, hmart⟩ := Option.bind_eq_some_iff.mp hrest
    cases hmart
    rw [List.map_cons, hrow _ _ _ hr, ih hmap]

section Windows

variable {py : Interpreter} {spark : Spark} {l : List ParsedEvent} {session : TimeZone}
  (haccepted : ∀ e ∈ l, Accepted py spark e)
include haccepted

/-- The tests of `daily_page_summary` find nothing, whatever the time zone of the session. -/
theorem dailyPageSummary_tests {windows : List PageViews} (h : windows.Perm (pageViews1m spark l))
    {mart : List DailyPageSummary} (hmart : dailyPageSummary session windows = some mart) :
    assertDevices mart = [] ∧ assertDailyPageSummaryUnique mart = [] := by
  have hstg : stgPageViews1m windows = windows := List.map_id _
  have hrow : ∀ k l r, dailyPageSummaryRow k l = some r → (r.day, r.page, r.device) = k := by
    intro k l r hr
    obtain ⟨views, -, hrest⟩ := Option.bind_eq_some_iff.mp hr
    cases hrest
    rfl
  rw [dailyPageSummary_eq, hstg] at hmart
  have hkeys : mart.map (fun r => (r.day, r.page, r.device)) =
      groupKeys (dailyPageSummaryKey session) windows := map_of_mapM_aggregate hrow hmart
  refine ⟨unacceptedValues_eq_nil fun r hr => ?_, repeatedKeys_eq_nil ?_⟩
  · have hk : (r.day, r.page, r.device) ∈ groupKeys (dailyPageSummaryKey session) windows := by
      rw [← hkeys]
      exact List.mem_map_of_mem hr
    obtain ⟨w, hw, hkey⟩ := mem_groupKeys.mp hk
    have hdevice : w.device = r.device := congrArg (fun k => k.2.2) (Option.some.inj hkey)
    rw [← hdevice]
    exact device_mem_of_mem_pageViews1m haccepted (h.mem_iff.mp hw)
  · rw [hkeys]
    exact nodup_groupKeys _

theorem dailyCampaignSummary_tests {windows : List CampaignStats}
    (h : windows.Perm (campaignStats1m spark l)) {mart : List DailyCampaignSummary}
    (hmart : dailyCampaignSummary session windows = some mart) :
    assertCampaignIds mart = [] ∧ assertDailyCampaignSummaryUnique mart = [] := by
  have hstg : stgCampaignStats1m windows = windows := List.map_id _
  have hrow : ∀ k l r, dailyCampaignSummaryRow k l = some r → (r.day, r.campaignId) = k := by
    intro k l r hr
    obtain ⟨events, -, hr⟩ := Option.bind_eq_some_iff.mp hr
    obtain ⟨views, -, hr⟩ := Option.bind_eq_some_iff.mp hr
    obtain ⟨clicks, -, hr⟩ := Option.bind_eq_some_iff.mp hr
    obtain ⟨conversions, -, hr⟩ := Option.bind_eq_some_iff.mp hr
    cases hr
    rfl
  rw [dailyCampaignSummary, hstg] at hmart
  have hkeys : mart.map (fun r => (r.day, r.campaignId)) =
      groupKeys (dailyCampaignSummaryKey session) windows := map_of_mapM_aggregate hrow hmart
  refine ⟨unacceptedValues_eq_nil fun r hr => ?_, repeatedKeys_eq_nil ?_⟩
  · have hk : (r.day, r.campaignId) ∈ groupKeys (dailyCampaignSummaryKey session) windows := by
      rw [← hkeys]
      exact List.mem_map_of_mem hr
    obtain ⟨w, hw, hkey⟩ := mem_groupKeys.mp hk
    have hcampaign : w.campaignId = r.campaignId := congrArg Prod.snd (Option.some.inj hkey)
    rw [← hcampaign]
    exact campaignId_mem_of_mem_campaignStats1m haccepted (h.mem_iff.mp hw)
  · rw [hkeys]
    exact nodup_groupKeys _

end Windows

end Marts

/-! ### While the job runs -/

/-- The outcomes of the checks over tables that show the events `l` and `l'`: what they say about
values passes. -/
structure OutcomesTell (now : Int) (l l' : List ParsedEvent) (outcomes : List Bool) : Prop where
  total : outcomes.length = 11
  values : ∀ i ∈ [2, 3, 4, 6, 7, 10], outcomes[i]? = some true
  fresh : outcomes[0]? = some true ↔ ∃ e ∈ l, ∃ t, e.ts = some t ∧ now - windowStart t < sevenDays
  pageViews : outcomes[1]? = some true ↔ ∃ e ∈ l, e.ts ≠ none
  campaigns : outcomes[5]? = some true ↔ ∃ e ∈ l', e.ts ≠ none

/-- A report on the tables of two jobs, whatever the tables of ClickHouse hold: values, staleness and
volume, and the exit code. -/
def ReportTells (soda : Soda) (now : Int) (events : List ParsedEvent)
    (pageViews : Job ParsedEvent PageViewsKey pageViewsKeyColumns)
    (campaigns : Job ParsedEvent CampaignKey campaignStatsKeyColumns) : Prop :=
  ∃ l l', Shows events pageViews l ∧ Shows events campaigns l' ∧ ∀ clicks olapPageViews,
    ∃ report code, main soda now pageViews.db.table.rows campaigns.db.table.rows clicks olapPageViews =
        some (report, code) ∧
      OutcomesTell now l l' (report.checks.map CheckRow.passed) ∧
      (code = 0 ↔ (∃ e ∈ l, ∃ t, e.ts = some t ∧ now - windowStart t < sevenDays) ∧
        (∃ e ∈ l', e.ts ≠ none) ∧ (final clicksOrderBy clicks).rows ≠ [] ∧
        (final pageViewsOrderBy olapPageViews).rows ≠ [])

/-- The tests of both marts find nothing, in a session on any time zone. -/
def TestsPass (pageViews : Database pageViewsKeyColumns) (campaigns : Database campaignStatsKeyColumns) :
    Prop :=
  (∀ session mart, dailyPageSummary session (pageViewsWindows pageViews) = some mart →
    assertDevices mart = [] ∧ assertDailyPageSummaryUnique mart = []) ∧
  ∀ session mart, dailyCampaignSummary session (campaignStatsWindows campaigns) = some mart →
    assertCampaignIds mart = [] ∧ assertDailyCampaignSummaryUnique mart = []

theorem isInvalid_text {validValues : List PyStr} {s : PyStr} (h : s ∈ validValues) :
    isInvalid validValues (.text s) = false := decide_eq_false (not_not.mpr h)

theorem passes_rowCount {γ : Type} {now : Int} {rows : List (Row γ)} :
    Check.passes now rows .rowCount = true ↔ ∃ r, r ∈ rows := by
  rw [Check.passes, decide_eq_true_iff, List.length_pos_iff_exists_mem]

section Runs

variable {py : Interpreter} {spark : Spark} {events l l' : List ParsedEvent}
  {batches batches' : List (List ParsedEvent)} {soda : Soda} {now : Int}
  {pageViews : Job ParsedEvent PageViewsKey pageViewsKeyColumns}
  {campaigns : Job ParsedEvent CampaignKey campaignStatsKeyColumns}

/-- The checks of values pass; those of volume and freshness are left. -/
theorem outcomes_of_holds (haccepted : ∀ e ∈ l, Accepted py spark e)
    (haccepted' : ∀ e ∈ l', Accepted py spark e)
    (h : (pageViewsView spark).Holds pageViews.db.table l)
    (h' : (campaignStatsView spark).Holds campaigns.db.table l') (now : Int)
    (clicks : List (Row ClicksColumn)) (olapPageViews : List (Row PageViewsColumn)) :
    outcomes now pageViews.db.table.rows campaigns.db.table.rows clicks olapPageViews =
      [Check.passes now pageViews.db.table.rows (.freshness .windowStart sevenDays),
        Check.passes now pageViews.db.table.rows .rowCount, true, true, true,
        Check.passes now campaigns.db.table.rows .rowCount, true, true,
        decide ((final clicksOrderBy clicks).rows ≠ []),
        decide ((final pageViewsOrderBy olapPageViews).rows ≠ []), true] := by
  have hwindows : ∀ {p : Row PageViewsColumn → Prop}, (∀ w ∈ pageViews1m spark l, p w.toRow) →
      ∀ r ∈ pageViews.db.table.rows, p r := by
    intro p hp r hr
    obtain ⟨w, hw, rfl⟩ := (mem_rows_pageViews h).mp hr
    exact hp w hw
  have hwindows' : ∀ {p : Row CampaignStatsColumn → Prop},
      (∀ w ∈ campaignStats1m spark l', p w.toRow) → ∀ r ∈ campaigns.db.table.rows, p r := by
    intro p hp r hr
    obtain ⟨w, hw, rfl⟩ := (mem_rows_campaignStats h').mp hr
    exact hp w hw
  have hstart : Check.passes now pageViews.db.table.rows (.missingCount .windowStart) = true :=
    passes_missingCount.mpr (hwindows fun w _ h => by cases h)
  have hpage : Check.passes now pageViews.db.table.rows (.missingCount .page) = true :=
    passes_missingCount.mpr (hwindows fun w _ h => by cases h)
  have hdevice : Check.passes now pageViews.db.table.rows (.invalidCount .device validDevices) = true :=
    passes_invalidCount.mpr
      (hwindows fun w hw => isInvalid_text (device_mem_of_mem_pageViews1m haccepted hw))
  have hcampaign : Check.passes now campaigns.db.table.rows (.missingCount .campaignId) = true :=
    passes_missingCount.mpr (hwindows' fun w _ h => by cases h)
  have hcampaignId :
      Check.passes now campaigns.db.table.rows (.invalidCount .campaignId validCampaignIds) = true :=
    passes_invalidCount.mpr
      (hwindows' fun w hw => isInvalid_text (campaignId_mem_of_mem_campaignStats1m haccepted' hw))
  simp only [outcomes, pageViewsChecks, campaignStatsChecks, clickhouseOutcomes, List.map_cons,
    List.map_nil, List.cons_append, List.nil_append, hstart, hpage, hdevice, hcampaign, hcampaignId]

theorem passes_fresh_iff (h : (pageViewsView spark).Holds pageViews.db.table l) :
    Check.passes now pageViews.db.table.rows (.freshness .windowStart sevenDays) = true ↔
      ∃ e ∈ l, ∃ t, e.ts = some t ∧ now - windowStart t < sevenDays := by
  rw [passes_freshness, ← exists_pageViews1m spark fun w => now - w < sevenDays]
  constructor
  · rintro ⟨r, hr, t, hcolumn, hlimit⟩
    obtain ⟨w, hw, rfl⟩ := (mem_rows_pageViews h).mp hr
    cases hcolumn
    exact ⟨w, hw, hlimit⟩
  · rintro ⟨w, hw, hlimit⟩
    exact ⟨w.toRow, (mem_rows_pageViews h).mpr ⟨w, hw, rfl⟩, _, rfl, hlimit⟩

theorem passes_rowCount_pageViews (h : (pageViewsView spark).Holds pageViews.db.table l) :
    Check.passes now pageViews.db.table.rows .rowCount = true ↔ ∃ e ∈ l, e.ts ≠ none := by
  have hwindow : (∃ w ∈ pageViews1m spark l, True) ↔ ∃ e ∈ l, ∃ t, e.ts = some t ∧ True :=
    exists_pageViews1m spark fun _ => True
  simp only [and_true, ← Option.ne_none_iff_exists'] at hwindow
  rw [passes_rowCount, ← hwindow]
  constructor
  · rintro ⟨r, hr⟩
    obtain ⟨w, hw, -⟩ := (mem_rows_pageViews h).mp hr
    exact ⟨w, hw⟩
  · rintro ⟨w, hw⟩
    exact ⟨w.toRow, (mem_rows_pageViews h).mpr ⟨w, hw, rfl⟩⟩

variable (now) in
theorem passes_rowCount_campaigns (h : (campaignStatsView spark).Holds campaigns.db.table l) :
    Check.passes now campaigns.db.table.rows .rowCount = true ↔ ∃ e ∈ l, e.ts ≠ none := by
  rw [passes_rowCount, ← exists_campaignStats1m spark]
  constructor
  · rintro ⟨r, hr⟩
    obtain ⟨w, hw, -⟩ := (mem_rows_campaignStats h).mp hr
    exact ⟨w, hw⟩
  · rintro ⟨w, hw⟩
    exact ⟨w.toRow, (mem_rows_campaignStats h).mpr ⟨w, hw, rfl⟩⟩

theorem reportTells (spec : SodaSpec soda) (haccepted : ∀ e ∈ l, Accepted py spark e)
    (haccepted' : ∀ e ∈ l', Accepted py spark e) (hshows : Shows events pageViews l)
    (hshows' : Shows events campaigns l') (h : (pageViewsView spark).Holds pageViews.db.table l)
    (h' : (campaignStatsView spark).Holds campaigns.db.table l') :
    ReportTells soda now events pageViews campaigns := by
  refine ⟨l, l', hshows, hshows', fun clicks olapPageViews => ?_⟩
  obtain ⟨report, code, hmain, hpassed, hcode⟩ := main_eq spec now pageViews.db.table.rows
    campaigns.db.table.rows clicks olapPageViews
  rw [outcomes_of_holds haccepted haccepted' h h'] at hpassed hcode
  refine ⟨report, code, hmain, ?_, ?_⟩
  · rw [hpassed]
    constructor
    · rfl
    · intro i hi
      simp only [List.mem_cons, List.not_mem_nil, or_false] at hi
      rcases hi with rfl | rfl | rfl | rfl | rfl | rfl <;> rfl
    · exact Option.some_inj.trans (passes_fresh_iff h)
    · exact Option.some_inj.trans (passes_rowCount_pageViews h)
    · exact Option.some_inj.trans (passes_rowCount_campaigns now h')
  · rw [hcode, ← passes_fresh_iff h, ← passes_rowCount_campaigns now h']
    -- A fresh window is a row.
    have hrows : Check.passes now pageViews.db.table.rows (.freshness .windowStart sevenDays) = true →
        Check.passes now pageViews.db.table.rows .rowCount = true := by
      rw [passes_fresh_iff h, passes_rowCount_pageViews h]
      rintro ⟨e, he, t, hts, -⟩
      exact ⟨e, he, by rw [hts]; exact Option.some_ne_none t⟩
    revert hrows
    generalize Check.passes now pageViews.db.table.rows (.freshness .windowStart sevenDays) = fresh
    generalize Check.passes now pageViews.db.table.rows .rowCount = rows
    generalize Check.passes now campaigns.db.table.rows .rowCount = rows'
    cases fresh <;> cases rows <;> cases rows' <;> simp [not_or]

theorem mem_of_shows {α κ γ : Type} {keyColumns : List γ} {events l : List α}
    {job : Job α κ keyColumns} (h : Shows events job l) {e : α} (he : e ∈ l) : e ∈ events := by
  rcases h with rfl | ⟨batch, rest, -, rfl⟩
  · exact List.mem_append_left _ he
  · exact List.mem_append_left _ he

/-- At every moment of every run over accepted events a report has eleven checks of which those on
values pass, and the tests of dbt pass; the report passes exactly when the page views are fresh and no
table is empty. -/
theorem quality_of_reaches (spec : SodaSpec soda) (h : BoundedDisorder events)
    (haccepted : ∀ e ∈ events, Accepted py spark e)
    (hbatches : batches.flatten = events) (hbatches' : batches'.flatten = events)
    (hreach : Reaches (pageViewsView spark) upsertPageViews batches pageViews)
    (hreach' : Reaches (campaignStatsView spark) upsertCampaignStats batches' campaigns) :
    (∀ now, ReportTells soda now events pageViews campaigns) ∧ TestsPass pageViews.db campaigns.db := by
  obtain ⟨l, hshows, hholds⟩ := exists_shows mem_pageViewsColumns (List.cons_ne_nil _ _)
    (v := pageViewsView spark) h hbatches hreach
  obtain ⟨l', hshows', hholds'⟩ := exists_shows mem_campaignStatsColumns (List.cons_ne_nil _ _)
    (v := campaignStatsView spark) h hbatches' hreach'
  have hl : ∀ e ∈ l, Accepted py spark e := fun e he => haccepted e (mem_of_shows hshows he)
  have hl' : ∀ e ∈ l', Accepted py spark e := fun e he => haccepted e (mem_of_shows hshows' he)
  exact ⟨fun now => reportTells spec hl hl' hshows hshows' hholds hholds',
    fun session mart hmart => dailyPageSummary_tests hl (pageViewsWindows_perm hholds) hmart,
    fun session mart hmart => dailyCampaignSummary_tests hl' (campaignStatsWindows_perm hholds') hmart⟩

end Runs

def sampleEntry (table : PyStr) (ok : Bool) : SodaEntry :=
  ⟨some table, none, some table, some (if ok then lit "pass" else lit "fail"), none⟩

def sampleSoda : Soda where
  scan now pageViews campaignStats :=
    pageViewsChecks.map (fun c => sampleEntry (lit "page_views_1m") (c.passes now pageViews)) ++
      campaignStatsChecks.map fun c => sampleEntry (lit "campaign_stats_1m") (c.passes now campaignStats)

theorem sampleSoda_spec : SodaSpec sampleSoda where
  outcomes now pageViews campaignStats := by
    have hfail : lit "fail" ≠ lit "pass" := by decide +kernel
    have houtcome : ∀ table ok,
        decide ((sampleEntry table ok).outcome = some (lit "pass")) = ok := by
      intro table ok
      cases ok <;> simp [sampleEntry, hfail]
    simp only [sampleSoda, List.map_append, List.map_map, Function.comp_def, houtcome]

theorem accepted_visits : ∀ e ∈ ClickHouseRuns.visitEvents, Accepted cpython paddedSpark e := by
  have hvalid : ∀ e ∈ ClickHouseRuns.visits, checkFields cpython Schema.vocabulary e = .ok () := by
    decide +kernel
  have hscalar : ∀ e ∈ ClickHouseRuns.visits, e.ScalarFields := by
    intro e he f
    simp only [ClickHouseRuns.visits, List.mem_cons, List.not_mem_nil, or_false] at he
    rcases he with rfl | rfl | rfl <;> cases f <;> exact scalar_lit _
  intro e he
  obtain ⟨event, hevent, rfl⟩ := List.mem_map.mp he
  obtain ⟨text, htext⟩ := WireFormat.exists_parseEvent (hvalid event hevent) (hscalar event hevent)
  exact ⟨text, event, htext, rfl⟩

theorem quality_of_reaches_visits : ∃ pageViews campaigns, pageViews.pending = [] ∧
    campaigns.pending = [] ∧
      (∀ now, ReportTells sampleSoda now ClickHouseRuns.visitEvents pageViews campaigns) ∧
      TestsPass pageViews.db campaigns.db := by
  have h := ClickHouseRuns.boundedDisorder_visits
  obtain ⟨job, job', batches, batches', hbatches, hbatches', hreach, hreach', hpending, hpending'⟩ :=
    exists_completed_jobs
  exact ⟨job, job', hpending, hpending', quality_of_reaches sampleSoda_spec h
    accepted_visits hbatches hbatches' hreach hreach'⟩

end Clickstream.Quality
