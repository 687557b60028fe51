import Clickstream.ClickHouseRuns
import Clickstream.Kit.Ranking
import Clickstream.Rollup

/-! The top lists of the API over the curated tables.  While the streaming job runs, crashes and replays
its micro-batches, a list ranks the events of a prefix of the topic. -/

namespace Clickstream.TopLists

open Python Kit Streaming PostgresSink Refinement Rollup

/-- The order of texts in the database; its collation tells any two texts apart. -/
structure Collation extends RankOrder PyStr where
  antisymm : ∀ a b, le a b = true → le b a = true → a = b

/-! ### `query_top_pages` -/

structure PageTotals where
  page : PyStr
  views : Nat
  users : Nat
  deriving DecidableEq

def pageTotalsRow (page : PyStr) (windows : List PageViews) : PageTotals where
  page := page
  views := (windows.map PageViews.views).sum
  users := (windows.map PageViews.users).sum

/-- `SELECT page, SUM(views), SUM(users) FROM curated.page_views_1m GROUP BY page` -/
def pageTotals (windows : List PageViews) : List PageTotals :=
  aggregate (fun w => some w.page) pageTotalsRow windows

/-- `ORDER BY views DESC, page` -/
def pageOrder (collation : Collation) : RankOrder PageTotals :=
  (RankOrder.descending fun r => r.views).thenBy (collation.comap PageTotals.page)

def queryTopPages (collation : Collation) (windows : List PageViews) (limit : Nat) : List PageTotals :=
  (pageOrder collation).top limit (pageTotals windows)

/-! ### `query_top_campaigns` -/

structure CampaignTotals where
  campaignId : PyStr
  events : Nat
  views : Nat
  clicks : Nat
  conversions : Nat
  deriving DecidableEq

def campaignTotalsRow (campaignId : PyStr) (windows : List CampaignStats) : CampaignTotals where
  campaignId := campaignId
  events := (windows.map CampaignStats.events).sum
  views := (windows.map CampaignStats.views).sum
  clicks := (windows.map CampaignStats.clicks).sum
  conversions := (windows.map CampaignStats.conversions).sum

def campaignTotals (windows : List CampaignStats) : List CampaignTotals :=
  aggregate (fun w => some w.campaignId) campaignTotalsRow windows

/-- `ORDER BY events DESC, campaign_id` -/
def campaignOrder (collation : Collation) : RankOrder CampaignTotals :=
  (RankOrder.descending fun r => r.events).thenBy (collation.comap CampaignTotals.campaignId)

def queryTopCampaigns (collation : Collation) (windows : List CampaignStats) (limit : Nat) :
    List CampaignTotals :=
  (campaignOrder collation).top limit (campaignTotals windows)

/-! ### `query_summary` -/

/-- `MAX` of a column; `none` is the `NULL` over no rows. -/
def maxTimestamp : List Int → Option Int
  | [] => none
  | t :: ts =>
    match maxTimestamp ts with
    | none => some t
    | some u => some (if t < u then u else t)

structure Summary where
  totalViews : Nat
  totalUsers : Nat
  pages : Nat
  latestWindow : Option Int
  campaigns : Nat
  deriving DecidableEq

def querySummary (pageViews : List PageViews) (campaignStats : List CampaignStats) : Summary where
  totalViews := (pageViews.map PageViews.views).sum
  totalUsers := (pageViews.map PageViews.users).sum
  pages := (pageViews.map PageViews.page).dedup.length
  latestWindow := maxTimestamp (pageViews.map PageViews.windowStart)
  campaigns := (campaignStats.map CampaignStats.campaignId).dedup.length

/-- The values of a row of `curated.campaign_stats_1m`. -/
def campaignStatsOfRow (r : Row CampaignStatsColumn) : Option CampaignStats :=
  match r .windowStart, r .campaignId, r .events, r .views, r .clicks, r .conversions, r .users with
  | .timestamp windowStart, .text campaignId, .bigint events, .bigint views, .bigint clicks,
    .bigint conversions, .bigint users =>
    some ⟨windowStart, campaignId, events, views, clicks, conversions, users⟩
  | _, _, _, _, _, _, _ => none

@[simp] theorem campaignStatsOfRow_toRow (w : CampaignStats) : campaignStatsOfRow w.toRow = some w := rfl

def pageViewsWindows (db : Database pageViewsKeyColumns) : List PageViews :=
  db.table.rows.filterMap pageViewsOfRow

def campaignStatsWindows (db : Database campaignStatsKeyColumns) : List CampaignStats :=
  db.table.rows.filterMap campaignStatsOfRow

/-! ### What the lists rank -/

/-- The names by the metric of what belongs to them, the first `limit` of them. -/
structure Ranks {ρ : Type} (collation : Collation) (metric : ρ → Nat) (names : List PyStr)
    (expected : PyStr → ρ) (limit : Nat) (answer : List ρ) : Prop where
  length : answer.length = min limit names.length
  rows : ∀ r ∈ answer, ∃ name ∈ names, r = expected name
  nodup : answer.Nodup
  order : ∀ name ∈ names, ∀ name' ∈ names, [expected name, expected name'].Sublist answer →
    metric (expected name') < metric (expected name) ∨
      metric (expected name) = metric (expected name') ∧ collation.le name name' = true
  top : ∀ name ∈ names, expected name ∉ answer → ∀ name' ∈ names, expected name' ∈ answer →
    metric (expected name) < metric (expected name') ∨
      metric (expected name') = metric (expected name) ∧ collation.le name' name = true

/-- The names of the events with a window. -/
def namesOf (name : ParsedEvent → PyStr) (l : List ParsedEvent) : List PyStr :=
  ((l.filter fun e => e.ts.isSome).map name).dedup

def eventsOf (name : ParsedEvent → PyStr) (l : List ParsedEvent) (n : PyStr) : List ParsedEvent :=
  l.filter fun e => e.ts.isSome && decide (name e = n)

/-- The page with its views in `l`, and with the users of all its windows and devices added up. -/
def expectedPage (spark : Spark) (l : List ParsedEvent) (page : PyStr) : PageTotals where
  page := page
  views := countType (lit "page_view") (eventsOf ParsedEvent.page l page)
  users := (((pageViews1m spark l).filter fun w => decide (w.page = page)).map PageViews.users).sum

def expectedCampaign (l : List ParsedEvent) (campaignId : PyStr) : CampaignTotals where
  campaignId := campaignId
  events := (eventsOf ParsedEvent.campaignId l campaignId).length
  views := countType (lit "page_view") (eventsOf ParsedEvent.campaignId l campaignId)
  clicks := countType (lit "click") (eventsOf ParsedEvent.campaignId l campaignId)
  conversions := countType (lit "purchase") (eventsOf ParsedEvent.campaignId l campaignId)

/-! ### The order of a list -/

section Order

variable {ρ : Type} (collation : Collation) (metric : ρ → Nat) (name : ρ → PyStr)

/-- `ORDER BY metric DESC, name` -/
theorem le_thenBy {a b : ρ} :
    ((RankOrder.descending fun r => (metric r : Int)).thenBy (collation.comap name)).le a b = true ↔
      metric b < metric a ∨ metric a = metric b ∧ collation.le (name a) (name b) = true := by
  show (decide ((metric b : Int) ≤ metric a) && (!decide ((metric a : Int) ≤ metric b) ||
    collation.le (name a) (name b))) = true ↔ _
  rw [Bool.and_eq_true, Bool.or_eq_true, Bool.not_eq_true', decide_eq_true_iff, decide_eq_false_iff_not]
  constructor
  · rintro ⟨hle, hlt | hname⟩
    · exact .inl (by omega)
    · by_cases hlt : metric b < metric a
      · exact .inl hlt
      · exact .inr ⟨by omega, hname⟩
  · rintro (hlt | ⟨heq, hname⟩)
    · exact ⟨by omega, .inl (by omega)⟩
    · exact ⟨by omega, .inr hname⟩

/-- Rows with names of their own are told apart. -/
theorem antisymmetric_thenBy {rows : List ρ} (hrows : (rows.map name).Nodup) :
    ((RankOrder.descending fun r => (metric r : Int)).thenBy (collation.comap name)).Antisymmetric
      rows := by
  intro a b ha hb hab hba
  rw [le_thenBy] at hab hba
  have hname : name a = name b := by
    rcases hab with hlt | ⟨heq, hle⟩
    · rcases hba with hlt' | ⟨heq', -⟩ <;> omega
    · rcases hba with hlt' | ⟨-, hle'⟩
      · omega
      · exact collation.antisymm _ _ hle hle'
  exact List.inj_on_of_nodup_map hrows ha hb hname

/-- The first rows of those expected for some names rank these names. -/
theorem ranks_top {names : List PyStr} (hnames : names.Nodup) {expected : PyStr → ρ}
    (hexpected : ∀ n, name (expected n) = n) {rows : List ρ} (hrows : rows.Perm (names.map expected))
    (limit : Nat) : Ranks collation metric names expected limit
      (((RankOrder.descending fun r => (metric r : Int)).thenBy (collation.comap name)).top limit
        rows) := by
  have hanswers := RankOrder.answers_top
    ((RankOrder.descending fun r => (metric r : Int)).thenBy (collation.comap name)) limit rows
  have hinjective : Function.Injective expected := by
    intro n n' h
    rw [← hexpected n, h, hexpected]
  have hmem : ∀ n ∈ names, expected n ∈ rows := fun n hn => hrows.mem_iff.mpr (List.mem_map_of_mem hn)
  have hsubperm := hanswers.subperm
  constructor
  · rw [hanswers.length, hrows.length_eq, List.length_map]
  · intro r hr
    obtain ⟨n, hn, rfl⟩ := List.mem_map.mp (hrows.mem_iff.mp (hsubperm.subset hr))
    exact ⟨n, hn, rfl⟩
  · obtain ⟨sorted, hsorted, hsublist⟩ := hsubperm
    exact hsorted.nodup_iff.mp ((hrows.nodup_iff.mpr (hnames.map hinjective)).sublist hsublist)
  · intro n hn n' hn' hsublist
    have hle := List.rel_of_pairwise_cons (hanswers.sorted.sublist hsublist) List.mem_cons_self
    rw [le_thenBy, hexpected, hexpected] at hle
    exact hle
  · intro n hn hout n' hn' hin
    have hle := hanswers.outranks hin (hmem n hn) hout
    rw [le_thenBy, hexpected, hexpected] at hle
    exact hle

/-- A smaller limit cuts the same list off earlier. -/
theorem top_take_of_perm {names : List PyStr} (hnames : names.Nodup) {expected : PyStr → ρ}
    (hexpected : ∀ n, name (expected n) = n) {rows : List ρ} (hrows : rows.Perm (names.map expected))
    {limit m : Nat} (hle : limit ≤ m) :
    ((RankOrder.descending fun r => (metric r : Int)).thenBy (collation.comap name)).top limit rows =
      (((RankOrder.descending fun r => (metric r : Int)).thenBy (collation.comap name)).top m
        rows).take limit := by
  have hmap : (rows.map name).Nodup := by
    rw [(hrows.map name).nodup_iff, List.map_map]
    have hid : name ∘ expected = id := funext hexpected
    rw [hid, List.map_id]
    exact hnames
  exact RankOrder.top_take (antisymmetric_thenBy collation metric name hmap) hle

end Order

/-! ### Totals -/

section Totals

variable {spark : Spark}

theorem filterMap_ts (name : ParsedEvent → PyStr) (l : List ParsedEvent) :
    l.filterMap (fun e => e.ts.map fun _ => name e) = (l.filter fun e => e.ts.isSome).map name := by
  induction l with
  | nil => rfl
  | cons e l ih =>
    rw [List.filterMap_cons, List.filter_cons, ih]
    cases e.ts <;> rfl

theorem groupKeys_ts (name : ParsedEvent → PyStr) (l : List ParsedEvent) :
    groupKeys (fun e => e.ts.map fun _ => name e) l = namesOf name l := by
  rw [groupKeys, filterMap_ts, namesOf]

theorem countP_eventsOf (name : ParsedEvent → PyStr) (q : ParsedEvent → Bool) (l : List ParsedEvent)
    (n : PyStr) : (l.countP fun e => q e && decide ((e.ts.map fun _ => name e) = some n)) =
      (eventsOf name l n).countP q := by
  rw [eventsOf, List.countP_filter]
  apply List.countP_congr
  intro e _
  cases e.ts <;> simp

theorem group_name {ρ : Type} (name : ρ → PyStr) (rows : List ρ) (n : PyStr) :
    group (fun r => some (name r)) rows n = rows.filter fun r => decide (name r = n) := by
  simp only [group, Option.some_inj]

theorem map_pageViewsKey (e : ParsedEvent) :
    ((pageViewsKey e).map fun k => k.2.1) = e.ts.map fun _ => e.page := by
  rw [pageViewsKey, Option.map_map]
  rfl

theorem map_campaignKey (e : ParsedEvent) :
    (campaignKey e).map Prod.snd = e.ts.map fun _ => e.campaignId := by
  rw [campaignKey, Option.map_map]
  rfl

theorem page_pageViewsRow (k : PageViewsKey) (events : List ParsedEvent) :
    (pageViewsRow spark k events).page = k.2.1 := rfl

theorem campaignId_campaignStatsRow (k : CampaignKey) (events : List ParsedEvent) :
    (campaignStatsRow spark k events).campaignId = k.2 := rfl

/-- A column of page views that counts events, summed over the windows of a page. -/
theorem sum_group_page {column : PageViews → Nat} {q : ParsedEvent → Bool}
    (hcolumn : ∀ k events, column (pageViewsRow spark k events) = events.countP q)
    (l : List ParsedEvent) (page : PyStr) :
    ((group (fun w => some w.page) (pageViews1m spark l) page).map column).sum =
      (eventsOf ParsedEvent.page l page).countP q := by
  refine (sum_group_regroup page_pageViewsRow hcolumn l page).trans ?_
  simp only [map_pageViewsKey, countP_eventsOf]

theorem sum_group_campaign {column : CampaignStats → Nat} {q : ParsedEvent → Bool}
    (hcolumn : ∀ k events, column (campaignStatsRow spark k events) = events.countP q)
    (l : List ParsedEvent) (campaignId : PyStr) :
    ((group (fun w => some w.campaignId) (campaignStats1m spark l) campaignId).map column).sum =
      (eventsOf ParsedEvent.campaignId l campaignId).countP q := by
  refine (sum_group_regroup campaignId_campaignStatsRow hcolumn l campaignId).trans ?_
  simp only [map_campaignKey, countP_eventsOf]

theorem groupKeys_page (spark : Spark) (l : List ParsedEvent) :
    (groupKeys (fun w => some w.page) (pageViews1m spark l)).Perm (namesOf ParsedEvent.page l) := by
  have hkeys : (groupKeys (fun w => some w.page) (pageViews1m spark l)).Perm
      (groupKeys (fun e => (pageViewsKey e).map fun k => k.2.1) l) :=
    groupKeys_regroup page_pageViewsRow l
  simpa only [map_pageViewsKey, groupKeys_ts] using hkeys

theorem groupKeys_campaign (spark : Spark) (l : List ParsedEvent) :
    (groupKeys (fun w => some w.campaignId) (campaignStats1m spark l)).Perm
      (namesOf ParsedEvent.campaignId l) := by
  have hkeys : (groupKeys (fun w => some w.campaignId) (campaignStats1m spark l)).Perm
      (groupKeys (fun e => (campaignKey e).map Prod.snd) l) :=
    groupKeys_regroup campaignId_campaignStatsRow l
  simpa only [map_campaignKey, groupKeys_ts] using hkeys

theorem pageTotals_perm (spark : Spark) (l : List ParsedEvent) :
    (pageTotals (pageViews1m spark l)).Perm
      ((namesOf ParsedEvent.page l).map (expectedPage spark l)) := by
  refine ((groupKeys_page spark l).map _).trans
    (List.Perm.of_eq (List.map_congr_left fun page _ => ?_))
  have hviews : ((group (fun w => some w.page) (pageViews1m spark l) page).map PageViews.views).sum = _ :=
    sum_group_page (fun _ events => countType_eq_countP _ events) l page
  rw [pageTotalsRow, expectedPage, hviews, ← countType_eq_countP, group_name]

theorem campaignTotals_perm (spark : Spark) (l : List ParsedEvent) :
    (campaignTotals (campaignStats1m spark l)).Perm
      ((namesOf ParsedEvent.campaignId l).map (expectedCampaign l)) := by
  refine ((groupKeys_campaign spark l).map _).trans
    (List.Perm.of_eq (List.map_congr_left fun campaignId _ => ?_))
  set windows := group (fun w => some w.campaignId) (campaignStats1m spark l) campaignId
  have hevents : (windows.map CampaignStats.events).sum = _ :=
    sum_group_campaign (q := fun _ => true) (fun _ _ => List.countP_true.symm ▸ rfl) l campaignId
  have hviews : (windows.map CampaignStats.views).sum = _ :=
    sum_group_campaign (fun _ events => countType_eq_countP _ events) l campaignId
  have hclicks : (windows.map CampaignStats.clicks).sum = _ :=
    sum_group_campaign (fun _ events => countType_eq_countP _ events) l campaignId
  have hconversions : (windows.map CampaignStats.conversions).sum = _ :=
    sum_group_campaign (fun _ events => countType_eq_countP _ events) l campaignId
  rw [campaignTotalsRow, expectedCampaign, hevents, hviews, hclicks, hconversions, List.countP_true,
    ← countType_eq_countP, ← countType_eq_countP, ← countType_eq_countP]

end Totals

/-! ### While the job runs -/

/-- The events whose view a job's table may show: those of its completed micro-batches, and maybe those
of the one at hand. -/
def Shows {α κ γ : Type} {keyColumns : List γ} (events : List α) (job : Job α κ keyColumns)
    (l : List α) : Prop :=
  l ++ job.pending.flatten = events ∨
    ∃ batch rest, job.pending = batch :: rest ∧ l ++ rest.flatten = events

theorem Shows.eq_of_completed {α κ γ : Type} {keyColumns : List γ} {events l : List α}
    {job : Job α κ keyColumns} (h : Shows events job l) (hpending : job.pending = []) : l = events := by
  rcases h with hl | ⟨batch, rest, hcons, -⟩
  · rwa [hpending, List.flatten_nil, List.append_nil] at hl
  · rw [hpending] at hcons
    cases hcons

theorem exists_shows {α κ γ : Type} [DecidableEq κ] [DecidableEq γ] {keyColumns columns : List γ}
    {v : WindowedView α κ (keyOf keyColumns)} {events : List α} (hcolumns : ∀ c, c ∈ columns)
    (hkeys : keyColumns ≠ []) (hdisorder : v.BoundedDisorder events) {batches : List (List α)}
    (hbatches : batches.flatten = events) {job : Job α κ keyColumns}
    (hreach : Reaches v (upsertBatch keyColumns columns) batches job) :
    ∃ l, Shows events job l ∧ v.Holds job.db.table l := by
  obtain ⟨l, hl, hevents⟩ := consumed_of_reaches hcolumns hkeys hdisorder hbatches hreach
  rcases hl.holds with hholds | ⟨batch, rest, hpending, hholds⟩
  · exact ⟨l, .inl hevents, hholds⟩
  · refine ⟨l ++ batch, .inr ⟨batch, rest, hpending, ?_⟩, hholds⟩
    rw [hpending, List.flatten_cons] at hevents
    rw [List.append_assoc]
    exact hevents

section Lists

variable {spark : Spark} {events l : List ParsedEvent} {batches : List (List ParsedEvent)}
  {pageViews : Job ParsedEvent PageViewsKey pageViewsKeyColumns}
  {campaigns : Job ParsedEvent CampaignKey campaignStatsKeyColumns}

theorem pageViewsWindows_perm {db : Database pageViewsKeyColumns}
    (h : (pageViewsView spark).Holds db.table l) :
    (pageViewsWindows db).Perm (pageViews1m spark l) := by
  have hrows := h.perm_rows.filterMap pageViewsOfRow
  rw [pageViewsView_rows, List.filterMap_map] at hrows
  exact hrows.trans (List.Perm.of_eq (List.filterMap_some ..))

theorem campaignStatsWindows_perm {db : Database campaignStatsKeyColumns}
    (h : (campaignStatsView spark).Holds db.table l) :
    (campaignStatsWindows db).Perm (campaignStats1m spark l) := by
  have hrows := h.perm_rows.filterMap campaignStatsOfRow
  rw [campaignStatsView_rows, List.filterMap_map] at hrows
  exact hrows.trans (List.Perm.of_eq (List.filterMap_some ..))

theorem pageTotals_congr {windows windows' : List PageViews} (h : windows.Perm windows') :
    (pageTotals windows).Perm (pageTotals windows') :=
  aggregate_perm h fun page a b hab => by
    rw [pageTotalsRow, pageTotalsRow, (hab.map _).sum_nat, (hab.map _).sum_nat]

theorem campaignTotals_congr {windows windows' : List CampaignStats} (h : windows.Perm windows') :
    (campaignTotals windows).Perm (campaignTotals windows') :=
  aggregate_perm h fun campaignId a b hab => by
    simp only [campaignTotalsRow, (hab.map _).sum_nat]

/-- The top pages rank the pages of the events that the table shows by their views, and a smaller limit
cuts the same list off earlier. -/
def TopPagesRank (spark : Spark) (events : List ParsedEvent)
    (job : Job ParsedEvent PageViewsKey pageViewsKeyColumns) : Prop :=
  ∃ l, Shows events job l ∧ ∀ collation limit,
    Ranks collation PageTotals.views (namesOf ParsedEvent.page l) (expectedPage spark l) limit
        (queryTopPages collation (pageViewsWindows job.db) limit) ∧
      ∀ m, limit ≤ m → queryTopPages collation (pageViewsWindows job.db) limit =
        (queryTopPages collation (pageViewsWindows job.db) m).take limit

def TopCampaignsRank (events : List ParsedEvent)
    (job : Job ParsedEvent CampaignKey campaignStatsKeyColumns) : Prop :=
  ∃ l, Shows events job l ∧ ∀ collation limit,
    Ranks collation CampaignTotals.events (namesOf ParsedEvent.campaignId l) (expectedCampaign l) limit
        (queryTopCampaigns collation (campaignStatsWindows job.db) limit) ∧
      ∀ m, limit ≤ m → queryTopCampaigns collation (campaignStatsWindows job.db) limit =
        (queryTopCampaigns collation (campaignStatsWindows job.db) m).take limit

theorem topPages_rank (h : BoundedDisorder events) (hbatches : batches.flatten = events)
    (hreach : Reaches (pageViewsView spark) upsertPageViews batches pageViews) :
    TopPagesRank spark events pageViews := by
  obtain ⟨l, hshows, hholds⟩ := exists_shows mem_pageViewsColumns (List.cons_ne_nil _ _)
    (v := pageViewsView spark) h hbatches hreach
  have hrows := (pageTotals_congr (pageViewsWindows_perm hholds)).trans (pageTotals_perm spark l)
  exact ⟨l, hshows, fun collation limit =>
    ⟨ranks_top collation _ _ (List.nodup_dedup _) (fun _ => rfl) hrows limit,
      fun m hle => top_take_of_perm collation _ _ (List.nodup_dedup _) (fun _ => rfl) hrows hle⟩⟩

theorem topCampaigns_rank (h : BoundedDisorder events) (hbatches : batches.flatten = events)
    (hreach : Reaches (campaignStatsView spark) upsertCampaignStats batches campaigns) :
    TopCampaignsRank events campaigns := by
  obtain ⟨l, hshows, hholds⟩ := exists_shows mem_campaignStatsColumns (List.cons_ne_nil _ _)
    (v := campaignStatsView spark) h hbatches hreach
  have hrows :=
    (campaignTotals_congr (campaignStatsWindows_perm hholds)).trans (campaignTotals_perm spark l)
  exact ⟨l, hshows, fun collation limit =>
    ⟨ranks_top collation _ _ (List.nodup_dedup _) (fun _ => rfl) hrows limit,
      fun m hle => top_take_of_perm collation _ _ (List.nodup_dedup _) (fun _ => rfl) hrows hle⟩⟩

/-- At every moment of every run the top lists rank the pages and the campaigns of a prefix of the events
each. -/
theorem topLists_of_reaches {batches' : List (List ParsedEvent)} (h : BoundedDisorder events)
    (hbatches : batches.flatten = events) (hbatches' : batches'.flatten = events)
    (hreach : Reaches (pageViewsView spark) upsertPageViews batches pageViews)
    (hreach' : Reaches (campaignStatsView spark) upsertCampaignStats batches' campaigns) :
    TopPagesRank spark events pageViews ∧ TopCampaignsRank events campaigns :=
  ⟨topPages_rank h hbatches hreach, topCampaigns_rank h hbatches' hreach'⟩

end Lists

/-! ### The summary -/

/-- The summary tells the events `l` of the one table and `l'` of the other: the page views, the pages and
the latest window, the campaigns; and it agrees with the lists when they are not cut off. -/
structure Summarizes (l l' : List ParsedEvent) (pageViews : List PageViews)
    (campaignStats : List CampaignStats) : Prop where
  totalViews : (querySummary pageViews campaignStats).totalViews =
    countType (lit "page_view") (l.filter fun e => e.ts.isSome)
  pages : (querySummary pageViews campaignStats).pages = (namesOf ParsedEvent.page l).length
  campaigns : (querySummary pageViews campaignStats).campaigns =
    (namesOf ParsedEvent.campaignId l').length
  empty : (querySummary pageViews campaignStats).latestWindow = none ↔ ∀ e ∈ l, e.ts = none
  latest : ∀ w, (querySummary pageViews campaignStats).latestWindow = some w →
    (∃ e ∈ l, e.ts.map windowStart = some w) ∧ ∀ e ∈ l, ∀ t, e.ts = some t → windowStart t ≤ w
  topPages : ∀ collation limit, (querySummary pageViews campaignStats).pages ≤ limit →
    ((queryTopPages collation pageViews limit).map PageTotals.views).sum =
        (querySummary pageViews campaignStats).totalViews ∧
      ((queryTopPages collation pageViews limit).map PageTotals.users).sum =
        (querySummary pageViews campaignStats).totalUsers
  topCampaigns : ∀ collation limit, (querySummary pageViews campaignStats).campaigns ≤ limit →
    ((queryTopCampaigns collation campaignStats limit).map CampaignTotals.views).sum =
      countType (lit "page_view") (l'.filter fun e => e.ts.isSome)

section Summary

theorem maxTimestamp_spec (ts : List Int) :
    (maxTimestamp ts = none ↔ ts = []) ∧
      ∀ t, maxTimestamp ts = some t → t ∈ ts ∧ ∀ u ∈ ts, u ≤ t := by
  induction ts with
  | nil => simp [maxTimestamp]
  | cons t ts ih =>
    obtain ⟨hnone, hsome⟩ := ih
    rw [maxTimestamp]
    cases hrest : maxTimestamp ts with
    | none =>
      rw [hnone.mp hrest]
      simp
    | some u =>
      obtain ⟨hmem, hle⟩ := hsome u hrest
      refine ⟨by simp, fun v hv => ?_⟩
      obtain rfl := Option.some.inj hv
      split
      · rename_i hlt
        exact ⟨List.mem_cons_of_mem _ hmem, List.forall_mem_cons.mpr ⟨hlt.le, hle⟩⟩
      · rename_i hlt
        exact ⟨List.mem_cons_self, List.forall_mem_cons.mpr
          ⟨le_refl t, fun v hv => (hle v hv).trans (not_lt.mp hlt)⟩⟩

variable {spark : Spark} {l l' : List ParsedEvent} {pageViews : List PageViews}
  {campaignStats : List CampaignStats}

theorem groupKeys_some {ρ : Type} (name : ρ → PyStr) (rows : List ρ) :
    groupKeys (fun r => some (name r)) rows = (rows.map name).dedup := by
  rw [groupKeys, List.filterMap_eq_map']

/-- Every window is that of an event, and every event has one. -/
theorem mem_windows {w : Int} : w ∈ (pageViews1m spark l).map PageViews.windowStart ↔
    ∃ e ∈ l, e.ts.map windowStart = some w := by
  simp only [List.mem_map, pageViews1m, mem_aggregate, mem_groupKeys]
  constructor
  · rintro ⟨_, ⟨k, ⟨e, he, hk⟩, rfl⟩, rfl⟩
    obtain ⟨t, ht, rfl⟩ := Option.map_eq_some_iff.mp hk
    exact ⟨e, he, by rw [ht]; rfl⟩
  · rintro ⟨e, he, hw⟩
    obtain ⟨t, ht, rfl⟩ := Option.map_eq_some_iff.mp hw
    exact ⟨_, ⟨_, ⟨e, he, by rw [pageViewsKey, ht]; rfl⟩, rfl⟩, rfl⟩

/-- A column that counts events, summed over all rows of an aggregate. -/
theorem sum_aggregate {κ ρ : Type} [DecidableEq κ] {key : ParsedEvent → Option κ}
    (hkey : ∀ e, (key e).isSome = e.ts.isSome) {row : κ → List ParsedEvent → ρ} {column : ρ → Nat}
    {name : PyStr} (hcolumn : ∀ k events, column (row k events) = countType name events)
    (l : List ParsedEvent) : ((aggregate key row l).map column).sum =
      countType name (l.filter fun e => e.ts.isSome) := by
  have hsum : (((aggregate key row l).filter fun _ => true).map column).sum =
      l.countP fun e => decide (e.eventType = name) && (key e).any fun _ => true :=
    sum_countP_aggregate (fun k events => (hcolumn k events).trans (countType_eq_countP name events))
      (fun _ _ => rfl) l
  rw [List.filter_true] at hsum
  rw [hsum, countType_eq_countP, List.countP_filter]
  apply List.countP_congr
  intro e _
  rw [← hkey]
  cases key e <;> simp

theorem isSome_pageViewsKey (e : ParsedEvent) : (pageViewsKey e).isSome = e.ts.isSome := by
  rw [pageViewsKey, Option.isSome_map]

theorem sum_views_pageViews1m (spark : Spark) (l : List ParsedEvent) :
    ((pageViews1m spark l).map PageViews.views).sum =
      countType (lit "page_view") (l.filter fun e => e.ts.isSome) := by
  have hcolumn : ∀ k events, (pageViewsRow spark k events).views = countType (lit "page_view") events :=
    fun _ _ => rfl
  exact sum_aggregate isSome_pageViewsKey hcolumn l

theorem sum_views_campaignStats1m (spark : Spark) (l : List ParsedEvent) :
    ((campaignStats1m spark l).map CampaignStats.views).sum =
      countType (lit "page_view") (l.filter fun e => e.ts.isSome) := by
  have hcolumn : ∀ k events,
      (campaignStatsRow spark k events).views = countType (lit "page_view") events := fun _ _ => rfl
  exact sum_aggregate isSome_campaignKey hcolumn l

/-- A list that is not cut off adds up to the totals of all windows. -/
theorem sum_top {ω ρ : Type} (order : RankOrder ρ) {name : ω → PyStr} {row : PyStr → List ω → ρ}
    {column : ρ → Nat} {f : ω → Nat} (hcolumn : ∀ n ws, column (row n ws) = (ws.map f).sum)
    (windows : List ω) {limit : Nat} (hlimit : (windows.map name).dedup.length ≤ limit) :
    ((order.top limit (aggregate (fun w => some (name w)) row windows)).map column).sum =
      (windows.map f).sum := by
  have hlength : (aggregate (fun w => some (name w)) row windows).length ≤ limit := by
    rw [aggregate, List.length_map, groupKeys_some]
    exact hlimit
  have hperm := (RankOrder.answers_top order limit _).perm_of_le hlength
  have hgroups : ((groupKeys (fun w => some (name w)) windows).map fun n =>
      ((group (fun w => some (name w)) windows n).map f).sum).sum = (windows.map f).sum :=
    sum_map_groupKeys (fun _ => rfl) f windows
  rw [(hperm.map column).sum_nat, aggregate, List.map_map, ← hgroups]
  congr 1
  exact List.map_congr_left fun n _ => hcolumn n _

theorem dedup_length_of_perm {ω : Type} {name : ω → PyStr} {windows windows' : List ω}
    {names : List PyStr} (h : windows.Perm windows')
    (hkeys : (groupKeys (fun w => some (name w)) windows').Perm names) :
    (windows.map name).dedup.length = names.length := by
  rw [((h.map name).dedup).length_eq, ← groupKeys_some, hkeys.length_eq]

theorem summarizes (hpv : pageViews.Perm (pageViews1m spark l))
    (hcs : campaignStats.Perm (campaignStats1m spark l')) :
    Summarizes l l' pageViews campaignStats where
  totalViews := (hpv.map _).sum_nat.trans (sum_views_pageViews1m spark l)
  pages := dedup_length_of_perm hpv (groupKeys_page spark l)
  campaigns := dedup_length_of_perm hcs (groupKeys_campaign spark l')
  empty := by
    have hnone := (maxTimestamp_spec (pageViews.map PageViews.windowStart)).1
    show maxTimestamp _ = none ↔ _
    rw [hnone, List.eq_nil_iff_forall_not_mem]
    simp only [(hpv.map PageViews.windowStart).mem_iff, mem_windows]
    constructor
    · intro h e he
      cases ht : e.ts with
      | none => rfl
      | some t => exact absurd ⟨e, he, by rw [ht]; rfl⟩ (h (windowStart t))
    · rintro h w ⟨e, he, hw⟩
      rw [h e he] at hw
      cases hw
  latest w hw := by
    obtain ⟨hmem, hle⟩ := (maxTimestamp_spec (pageViews.map PageViews.windowStart)).2 w hw
    refine ⟨mem_windows.mp ((hpv.map _).mem_iff.mp hmem), fun e he t ht => ?_⟩
    apply hle
    exact (hpv.map _).mem_iff.mpr (mem_windows.mpr ⟨e, he, by rw [ht]; rfl⟩)
  topPages collation limit hlimit :=
    ⟨sum_top (pageOrder collation) (fun _ _ => rfl) pageViews hlimit,
      sum_top (pageOrder collation) (fun _ _ => rfl) pageViews hlimit⟩
  topCampaigns collation limit hlimit := by
    refine (sum_top (campaignOrder collation) (fun _ _ => rfl) campaignStats hlimit).trans ?_
    exact (hcs.map _).sum_nat.trans (sum_views_campaignStats1m spark l')

end Summary

/-- What a summary tells while both queries run, and that the two tables count the same page views once
both runs are completed. -/
def SummaryTells (events : List ParsedEvent) (pageViews : Job ParsedEvent PageViewsKey pageViewsKeyColumns)
    (campaigns : Job ParsedEvent CampaignKey campaignStatsKeyColumns) : Prop :=
  (∃ l l', Shows events pageViews l ∧ Shows events campaigns l' ∧
    Summarizes l l' (pageViewsWindows pageViews.db) (campaignStatsWindows campaigns.db)) ∧
  (pageViews.pending = [] → campaigns.pending = [] →
    (querySummary (pageViewsWindows pageViews.db) (campaignStatsWindows campaigns.db)).totalViews =
      ((campaignStatsWindows campaigns.db).map CampaignStats.views).sum)

/-- The summary, read at any two moments of the runs, tells a prefix of the events for each table. -/
theorem summary_of_reaches {spark : Spark} {events : List ParsedEvent}
    {batches batches' : List (List ParsedEvent)}
    {pageViews : Job ParsedEvent PageViewsKey pageViewsKeyColumns}
    {campaigns : Job ParsedEvent CampaignKey campaignStatsKeyColumns} (h : BoundedDisorder events)
    (hbatches : batches.flatten = events) (hbatches' : batches'.flatten = events)
    (hreach : Reaches (pageViewsView spark) upsertPageViews batches pageViews)
    (hreach' : Reaches (campaignStatsView spark) upsertCampaignStats batches' campaigns) :
    SummaryTells events pageViews campaigns := by
  obtain ⟨l, hshows, hholds⟩ := exists_shows mem_pageViewsColumns (List.cons_ne_nil _ _)
    (v := pageViewsView spark) h hbatches hreach
  obtain ⟨l', hshows', hholds'⟩ := exists_shows mem_campaignStatsColumns (List.cons_ne_nil _ _)
    (v := campaignStatsView spark) h hbatches' hreach'
  have hpv := pageViewsWindows_perm hholds
  have hcs := campaignStatsWindows_perm hholds'
  refine ⟨⟨l, l', hshows, hshows', summarizes hpv hcs⟩, fun hpending hpending' => ?_⟩
  obtain rfl := hshows.eq_of_completed hpending
  obtain rfl := hshows'.eq_of_completed hpending'
  rw [(summarizes hpv hcs).totalViews, (hcs.map _).sum_nat, sum_views_campaignStats1m]

/-! ### Three page views -/

/-- Runs that both queries have completed. -/
theorem exists_completed_jobs : ∃ (pageViews : Job ParsedEvent PageViewsKey pageViewsKeyColumns)
    (campaigns : Job ParsedEvent CampaignKey campaignStatsKeyColumns)
    (batches batches' : List (List ParsedEvent)),
    batches.flatten = ClickHouseRuns.visitEvents ∧ batches'.flatten = ClickHouseRuns.visitEvents ∧
      Reaches (pageViewsView paddedSpark) upsertPageViews batches pageViews ∧
      Reaches (campaignStatsView paddedSpark) upsertCampaignStats batches' campaigns ∧
      pageViews.pending = [] ∧ campaigns.pending = [] := by
  obtain ⟨t, hdone⟩ := ClickHouseRuns.exists_completed_visits
  obtain ⟨batches, job, hbatches, hreach, hpending, -⟩ := hdone.pageViews
  obtain ⟨batches', job', hbatches', hreach', hpending', -⟩ := hdone.campaignStats
  exact ⟨job, job', batches, batches', hbatches, hbatches', hreach, hreach', hpending, hpending'⟩

theorem topLists_of_reaches_visits : ∃ pageViews campaigns, pageViews.pending = [] ∧
    campaigns.pending = [] ∧ TopPagesRank paddedSpark ClickHouseRuns.visitEvents pageViews ∧
      TopCampaignsRank ClickHouseRuns.visitEvents campaigns := by
  have h := ClickHouseRuns.boundedDisorder_visits
  obtain ⟨job, job', batches, batches', hbatches, hbatches', hreach, hreach', hpending, hpending'⟩ :=
    exists_completed_jobs
  exact ⟨job, job', hpending, hpending', topLists_of_reaches h hbatches hbatches' hreach hreach'⟩

theorem summary_of_reaches_visits : ∃ pageViews campaigns, pageViews.pending = [] ∧
    campaigns.pending = [] ∧ SummaryTells ClickHouseRuns.visitEvents pageViews campaigns := by
  have h := ClickHouseRuns.boundedDisorder_visits
  obtain ⟨job, job', batches, batches', hbatches, hbatches', hreach, hreach', hpending, hpending'⟩ :=
    exists_completed_jobs
  exact ⟨job, job', hpending, hpending', summary_of_reaches h hbatches hbatches' hreach hreach'⟩

end Clickstream.TopLists
