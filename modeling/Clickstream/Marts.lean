import Clickstream.TopLists
import Clickstream.UtcDays

/-! The dbt marts over the curated tables, while the streaming job runs.  A mart adds up windows, a
window adds up events, and in a session on UTC a mart has the figures of the events of a day. -/

namespace Clickstream.Marts

open Python Kit Streaming PostgresSink Refinement Rollup TopLists

/-! ### Windows and days -/

/-- No window is on two days. -/
theorem utcDay_windowStart (t : Int) : utcDay (windowStart t) = utcDay t := by
  simp only [utcDay, windowStart, windowLength, windowMinutes, dayLength, second]
  omega

theorem castDate_utc (t : Int) : castDate utc (atTimeZoneUtc t) = utcDay t := by
  simp only [castDate, utc, atTimeZoneUtc, utcDay, Int.add_zero]

section Windows

variable {ν ρ : Type} [DecidableEq ν] (name : ParsedEvent → ν)

/-- What a table of one-minute windows groups by. -/
def minuteOf (e : ParsedEvent) : Option (Int × ν) := e.ts.map fun t => (windowStart t, name e)

/-- What a mart of days groups by. -/
def dayOf (e : ParsedEvent) : Option (Int × ν) := e.ts.map fun t => (utcDay t, name e)

/-- The number of one-minute windows that the events are in. -/
def windowsOf (events : List ParsedEvent) : Nat :=
  (events.filterMap fun e => e.ts.map windowStart).dedup.length

omit [DecidableEq ν] in
theorem map_minuteOf (e : ParsedEvent) :
    ((minuteOf name e).map fun k => (utcDay k.1, k.2)) = dayOf name e := by
  rw [minuteOf, Option.map_map, dayOf]
  simp only [Function.comp_def, utcDay_windowStart]

/-- The windows of one name differ in their start. -/
theorem length_groupKeys_minuteOf (l : List ParsedEvent) (k : Int × ν) :
    (groupKeys (minuteOf name) (group (dayOf name) l k)).length =
      windowsOf (group (dayOf name) l k) := by
  have hkeys : (group (dayOf name) l k).filterMap (minuteOf name) =
      ((group (dayOf name) l k).filterMap fun e => e.ts.map windowStart).map fun w => (w, k.2) := by
    rw [List.map_filterMap]
    refine List.filterMap_congr fun e he => ?_
    obtain ⟨t, ht, rfl⟩ := Option.map_eq_some_iff.mp (mem_group.mp he).2
    rw [minuteOf, ht]
    rfl
  have hinjective : Function.Injective fun w : Int => (w, k.2) := fun _ _ h => congrArg Prod.fst h
  rw [groupKeys, hkeys, List.dedup_map_of_injective hinjective, List.length_map, windowsOf]

section Rows

variable {name} {row : Int × ν → List ParsedEvent → ρ} {day : ρ → Int × ν}
  (hday : ∀ k l, day (row k l) = (utcDay k.1, k.2))
include hday

/-- The days of the windows are those of the events. -/
theorem groupKeys_day (l : List ParsedEvent) :
    (groupKeys (fun r => some (day r)) (aggregate (minuteOf name) row l)).Perm
      (groupKeys (dayOf name) l) := by
  have hkeys : (groupKeys (fun r => some (day r)) (aggregate (minuteOf name) row l)).Perm
      (groupKeys (fun e => (minuteOf name e).map fun k => (utcDay k.1, k.2)) l) :=
    groupKeys_regroup hday l
  simpa only [map_minuteOf] using hkeys

/-- A column that counts events, summed over the windows of a day. -/
theorem sum_group_day {column : ρ → Nat} {q : ParsedEvent → Bool}
    (hcolumn : ∀ k l, column (row k l) = l.countP q) (l : List ParsedEvent) (k : Int × ν) :
    ((group (fun r => some (day r)) (aggregate (minuteOf name) row l) k).map column).sum =
      (group (dayOf name) l k).countP q := by
  refine (sum_group_regroup hday hcolumn l k).trans ?_
  simp only [map_minuteOf, group, List.countP_filter]

theorem length_group_day (l : List ParsedEvent) (k : Int × ν) :
    (group (fun r => some (day r)) (aggregate (minuteOf name) row l) k).length =
      windowsOf (group (dayOf name) l k) := by
  refine (length_group_regroup hday l k).trans ?_
  simp only [map_minuteOf, length_groupKeys_minuteOf]

end Rows

end Windows

/-! ### The marts -/

/-- A row without the casts. -/
def pageRow (k : DailyKey) (windows : List PageViews) : DailyPageSummary :=
  ⟨k.1, k.2.1, k.2.2, (windows.map PageViews.views).sum, windows.length⟩

def campaignRow (k : Int × PyStr) (windows : List CampaignStats) : DailyCampaignSummary where
  day := k.1
  campaignId := k.2
  events := (windows.map CampaignStats.events).sum
  views := (windows.map CampaignStats.views).sum
  clicks := (windows.map CampaignStats.clicks).sum
  conversions := (windows.map CampaignStats.conversions).sum
  windowCount := windows.length

/-- The figures of the events of a day, page and device. -/
def pageFigures (k : DailyKey) (events : List ParsedEvent) : DailyPageSummary where
  day := k.1
  page := k.2.1
  device := k.2.2
  views := countType (lit "page_view") events
  windowCount := windowsOf events

/-- The figures of the events of a day and campaign. -/
def campaignFigures (k : Int × PyStr) (events : List ParsedEvent) : DailyCampaignSummary where
  day := k.1
  campaignId := k.2
  events := events.length
  views := countType (lit "page_view") events
  clicks := countType (lit "click") events
  conversions := countType (lit "purchase") events
  windowCount := windowsOf events

def pageName (e : ParsedEvent) : PyStr × PyStr := (e.page, e.device)

def pageFiguresByDay (l : List ParsedEvent) : List DailyPageSummary :=
  aggregate (dayOf pageName) pageFigures l

def campaignFiguresByDay (l : List ParsedEvent) : List DailyCampaignSummary :=
  aggregate (dayOf ParsedEvent.campaignId) campaignFigures l

theorem pageRow_perm {k : DailyKey} {l m : List PageViews} (h : l.Perm m) :
    pageRow k l = pageRow k m := by
  rw [pageRow, pageRow, (h.map _).sum_nat, h.length_eq]

theorem campaignRow_perm {k : Int × PyStr} {l m : List CampaignStats} (h : l.Perm m) :
    campaignRow k l = campaignRow k m := by
  simp only [campaignRow, (h.map _).sum_nat, h.length_eq]

section Marts

variable {spark : Spark} {l : List ParsedEvent}

theorem dailyPageSummaryKey_utc : dailyPageSummaryKey utc = fun w => some (utcDayKey w) := by
  funext w
  rw [dailyPageSummaryKey, castDate_utc]
  rfl

def campaignDay (w : CampaignStats) : Int × PyStr := (utcDay w.windowStart, w.campaignId)

theorem dailyCampaignSummaryKey_utc :
    dailyCampaignSummaryKey utc = fun w => some (campaignDay w) := by
  funext w
  rw [dailyCampaignSummaryKey, castDate_utc]
  rfl

theorem utcDayKey_row (k : PageViewsKey) (l : List ParsedEvent) :
    utcDayKey (pageViewsRow spark k l) = (utcDay k.1, k.2) := rfl

theorem campaignDay_row (k : CampaignKey) (l : List ParsedEvent) :
    campaignDay (campaignStatsRow spark k l) = (utcDay k.1, k.2) := rfl

/-- The windows of some events, by day, have the figures of the events. -/
theorem pageRow_group (k : DailyKey) :
    pageRow k (group (dailyPageSummaryKey utc) (pageViews1m spark l) k) =
      pageFigures k (group (dayOf pageName) l k) := by
  rw [dailyPageSummaryKey_utc]
  have hviews : ((group (fun w => some (utcDayKey w)) (pageViews1m spark l) k).map
      PageViews.views).sum = (group (dayOf pageName) l k).countP _ :=
    sum_group_day utcDayKey_row (fun _ events => countType_eq_countP _ events) l k
  have hlength : (group (fun w => some (utcDayKey w)) (pageViews1m spark l) k).length =
      windowsOf (group (dayOf pageName) l k) := length_group_day utcDayKey_row l k
  rw [pageRow, pageFigures, hviews, hlength, ← countType_eq_countP]

theorem campaignRow_group (k : Int × PyStr) :
    campaignRow k (group (dailyCampaignSummaryKey utc) (campaignStats1m spark l) k) =
      campaignFigures k (group (dayOf ParsedEvent.campaignId) l k) := by
  rw [dailyCampaignSummaryKey_utc]
  set windows := group (fun w => some (campaignDay w)) (campaignStats1m spark l) k
  have hevents : (windows.map CampaignStats.events).sum =
      (group (dayOf ParsedEvent.campaignId) l k).countP fun _ => true :=
    sum_group_day campaignDay_row (fun _ _ => List.countP_true.symm ▸ rfl) l k
  have hcolumn : ∀ {column : CampaignStats → Nat} {type : PyStr},
      (∀ k events, column (campaignStatsRow spark k events) = countType type events) →
      (windows.map column).sum = countType type (group (dayOf ParsedEvent.campaignId) l k) := by
    intro column type hcolumn
    rw [countType_eq_countP]
    exact sum_group_day campaignDay_row
      (fun k events => (hcolumn k events).trans (countType_eq_countP _ events)) l k
  have hlength : windows.length = windowsOf (group (dayOf ParsedEvent.campaignId) l k) :=
    length_group_day campaignDay_row l k
  rw [campaignRow, campaignFigures, hevents, hlength, List.countP_true, hcolumn fun _ _ => rfl,
    hcolumn fun _ _ => rfl, hcolumn fun _ _ => rfl]

/-! ### Casts -/

theorem dailyPageSummaryRow_eq {k : DailyKey} {windows : List PageViews}
    (h : (pageRow k windows).views < 2 ^ 63) :
    dailyPageSummaryRow k windows = some (pageRow k windows) := by
  have hviews : toBigint (windows.map PageViews.views).sum = some _ := toBigint_eq_some.mpr ⟨h, rfl⟩
  rw [dailyPageSummaryRow, hviews]
  rfl

theorem dailyCampaignSummaryRow_eq {k : Int × PyStr} {windows : List CampaignStats}
    (hevents : (campaignRow k windows).events < 2 ^ 63)
    (hviews : (campaignRow k windows).views < 2 ^ 63)
    (hclicks : (campaignRow k windows).clicks < 2 ^ 63)
    (hconversions : (campaignRow k windows).conversions < 2 ^ 63) :
    dailyCampaignSummaryRow k windows = some (campaignRow k windows) := by
  have h₁ : toBigint (windows.map CampaignStats.events).sum = some _ :=
    toBigint_eq_some.mpr ⟨hevents, rfl⟩
  have h₂ : toBigint (windows.map CampaignStats.views).sum = some _ :=
    toBigint_eq_some.mpr ⟨hviews, rfl⟩
  have h₃ : toBigint (windows.map CampaignStats.clicks).sum = some _ :=
    toBigint_eq_some.mpr ⟨hclicks, rfl⟩
  have h₄ : toBigint (windows.map CampaignStats.conversions).sum = some _ :=
    toBigint_eq_some.mpr ⟨hconversions, rfl⟩
  rw [dailyCampaignSummaryRow, h₁, h₂, h₃, h₄]
  rfl

theorem countType_le_length (name : PyStr) (events : List ParsedEvent) :
    countType name events ≤ events.length := by
  rw [countType_eq_countP]
  exact List.countP_le_length

theorem length_group_le {α κ : Type} [DecidableEq κ] (key : α → Option κ) (l : List α) (k : κ) :
    (group key l k).length ≤ l.length := List.length_filter_le ..

/-- Over the windows of fewer than `2 ^ 63` events no cast fails, and the mart has their figures. -/
theorem dailyPageSummary_perm {windows : List PageViews} (h : windows.Perm (pageViews1m spark l))
    (hfits : l.length < 2 ^ 63) : ∃ mart, dailyPageSummary utc windows = some mart ∧
      mart.Perm (pageFiguresByDay l) := by
  have hrow : ∀ k, pageRow k (group (dailyPageSummaryKey utc) windows k) =
      pageFigures k (group (dayOf pageName) l k) :=
    fun k => (pageRow_perm (h.filter _)).trans (pageRow_group k)
  have hcast : ∀ k, dailyPageSummaryRow k (group (dailyPageSummaryKey utc) windows k) =
      some (pageFigures k (group (dayOf pageName) l k)) := by
    intro k
    rw [← hrow]
    refine dailyPageSummaryRow_eq ?_
    rw [hrow]
    exact lt_of_le_of_lt ((countType_le_length _ _).trans (length_group_le ..)) hfits
  have hkeys : (groupKeys (dailyPageSummaryKey utc) windows).Perm (groupKeys (dayOf pageName) l) := by
    refine ((h.filterMap _).dedup).trans ?_
    rw [dailyPageSummaryKey_utc]
    exact groupKeys_day utcDayKey_row l
  have hstg : stgPageViews1m windows = windows := List.map_id _
  refine ⟨_, ?_, hkeys.map fun k => pageFigures k (group (dayOf pageName) l k)⟩
  rw [dailyPageSummary_eq, hstg, aggregate, List.mapM_map]
  exact mapM_eq_some_map fun k _ => hcast k

theorem dailyCampaignSummary_perm {windows : List CampaignStats}
    (h : windows.Perm (campaignStats1m spark l)) (hfits : l.length < 2 ^ 63) :
    ∃ mart, dailyCampaignSummary utc windows = some mart ∧ mart.Perm (campaignFiguresByDay l) := by
  have hrow : ∀ k, campaignRow k (group (dailyCampaignSummaryKey utc) windows k) =
      campaignFigures k (group (dayOf ParsedEvent.campaignId) l k) :=
    fun k => (campaignRow_perm (h.filter _)).trans (campaignRow_group k)
  have hcount : ∀ name k, countType name (group (dayOf ParsedEvent.campaignId) l k) < 2 ^ 63 :=
    fun name k => lt_of_le_of_lt ((countType_le_length _ _).trans (length_group_le ..)) hfits
  have hcast : ∀ k, dailyCampaignSummaryRow k (group (dailyCampaignSummaryKey utc) windows k) =
      some (campaignFigures k (group (dayOf ParsedEvent.campaignId) l k)) := by
    intro k
    rw [← hrow]
    refine dailyCampaignSummaryRow_eq ?_ ?_ ?_ ?_ <;> rw [hrow]
    · exact lt_of_le_of_lt (length_group_le ..) hfits
    · exact hcount _ _
    · exact hcount _ _
    · exact hcount _ _
  have hkeys : (groupKeys (dailyCampaignSummaryKey utc) windows).Perm
      (groupKeys (dayOf ParsedEvent.campaignId) l) := by
    refine ((h.filterMap _).dedup).trans ?_
    rw [dailyCampaignSummaryKey_utc]
    exact groupKeys_day campaignDay_row l
  have hstg : stgCampaignStats1m windows = windows := List.map_id _
  refine ⟨_, ?_, hkeys.map fun k => campaignFigures k (group (dayOf ParsedEvent.campaignId) l k)⟩
  rw [dailyCampaignSummary, hstg, aggregate, List.mapM_map]
  exact mapM_eq_some_map fun k _ => hcast k

end Marts

/-! ### While the job runs -/

/-- The mart of the pages, built over the table of a job, has the figures of the events that the table
shows, by day; together they are all page views. -/
def PageMartTells (events : List ParsedEvent)
    (job : Job ParsedEvent PageViewsKey pageViewsKeyColumns) : Prop :=
  ∃ l mart, Shows events job l ∧ dailyPageSummary utc (pageViewsWindows job.db) = some mart ∧
    mart.Perm (pageFiguresByDay l) ∧
    (mart.map DailyPageSummary.views).sum = countType (lit "page_view") (l.filter fun e => e.ts.isSome)

def CampaignMartTells (events : List ParsedEvent)
    (job : Job ParsedEvent CampaignKey campaignStatsKeyColumns) : Prop :=
  ∃ l mart, Shows events job l ∧ dailyCampaignSummary utc (campaignStatsWindows job.db) = some mart ∧
    mart.Perm (campaignFiguresByDay l) ∧
    (mart.map DailyCampaignSummary.views).sum =
      countType (lit "page_view") (l.filter fun e => e.ts.isSome)

theorem length_le_of_shows {α κ γ : Type} {keyColumns : List γ} {events l : List α}
    {job : Job α κ keyColumns} (h : Shows events job l) : l.length ≤ events.length := by
  rcases h with rfl | ⟨batch, rest, -, rfl⟩
  · rw [List.length_append]
    omega
  · rw [List.length_append]
    omega

section Runs

variable {spark : Spark} {events l : List ParsedEvent} {batches batches' : List (List ParsedEvent)}
  {pageViews : Job ParsedEvent PageViewsKey pageViewsKeyColumns}
  {campaigns : Job ParsedEvent CampaignKey campaignStatsKeyColumns}

theorem isSome_dayOf {ν : Type} (name : ParsedEvent → ν) (e : ParsedEvent) :
    (dayOf name e).isSome = e.ts.isSome := by
  rw [dayOf, Option.isSome_map]

theorem sum_views_pageFiguresByDay (l : List ParsedEvent) :
    ((pageFiguresByDay l).map DailyPageSummary.views).sum =
      countType (lit "page_view") (l.filter fun e => e.ts.isSome) := by
  have hcolumn : ∀ k events,
      (pageFigures k events).views = countType (lit "page_view") events := fun _ _ => rfl
  exact sum_aggregate (isSome_dayOf _) hcolumn l

theorem sum_views_campaignFiguresByDay (l : List ParsedEvent) :
    ((campaignFiguresByDay l).map DailyCampaignSummary.views).sum =
      countType (lit "page_view") (l.filter fun e => e.ts.isSome) := by
  have hcolumn : ∀ k events,
      (campaignFigures k events).views = countType (lit "page_view") events := fun _ _ => rfl
  exact sum_aggregate (isSome_dayOf _) hcolumn l

/-- At every moment of every run the marts, built in a session on UTC, have by day the figures of a
prefix of the events each. -/
theorem marts_of_reaches (h : BoundedDisorder events) (hfits : events.length < 2 ^ 63)
    (hbatches : batches.flatten = events) (hbatches' : batches'.flatten = events)
    (hreach : Reaches (pageViewsView spark) upsertPageViews batches pageViews)
    (hreach' : Reaches (campaignStatsView spark) upsertCampaignStats batches' campaigns) :
    PageMartTells events pageViews ∧ CampaignMartTells events campaigns := by
  obtain ⟨l, hshows, hholds⟩ := exists_shows mem_pageViewsColumns (List.cons_ne_nil _ _)
    (v := pageViewsView spark) h hbatches hreach
  obtain ⟨l', hshows', hholds'⟩ := exists_shows mem_campaignStatsColumns (List.cons_ne_nil _ _)
    (v := campaignStatsView spark) h hbatches' hreach'
  constructor
  · obtain ⟨mart, hmart, hperm⟩ := dailyPageSummary_perm (pageViewsWindows_perm hholds)
      ((length_le_of_shows hshows).trans_lt hfits)
    exact ⟨l, mart, hshows, hmart, hperm, (hperm.map _).sum_nat.trans (sum_views_pageFiguresByDay l)⟩
  · obtain ⟨mart, hmart, hperm⟩ := dailyCampaignSummary_perm (campaignStatsWindows_perm hholds')
      ((length_le_of_shows hshows').trans_lt hfits)
    exact ⟨l', mart, hshows', hmart, hperm,
      (hperm.map _).sum_nat.trans (sum_views_campaignFiguresByDay l')⟩

theorem marts_of_reaches_visits : ∃ pageViews campaigns, pageViews.pending = [] ∧
    campaigns.pending = [] ∧ PageMartTells ClickHouseRuns.visitEvents pageViews ∧
      CampaignMartTells ClickHouseRuns.visitEvents campaigns := by
  have h := ClickHouseRuns.boundedDisorder_visits
  obtain ⟨job, job', batches, batches', hbatches, hbatches', hreach, hreach', hpending, hpending'⟩ :=
    exists_completed_jobs
  exact ⟨job, job', hpending, hpending',
    marts_of_reaches h (by decide) hbatches hbatches' hreach hreach'⟩

end Runs

end Clickstream.Marts
