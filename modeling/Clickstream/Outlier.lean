import Clickstream.Accounting
import Clickstream.PostgresSink

/-! One message more.  Nothing ties the `ts` of an accepted message to the clock, and the watermark of a
query follows the largest `ts` it has read, so a message from the future closes the windows of the
messages behind it. -/

namespace Clickstream.Outlier

open Python Kit Parsing Streaming PostgresSink

/-- A cut of events into micro-batches with a place in it: the two parts of the micro-batch around the
place, and the micro-batches on both sides. -/
structure Cut where
  before : List (List ParsedEvent)
  left : List ParsedEvent
  right : List ParsedEvent
  after : List (List ParsedEvent)

def Cut.events (c : Cut) : List ParsedEvent :=
  c.before.flatten ++ (c.left ++ c.right) ++ c.after.flatten

def Cut.insert (c : Cut) (x : ParsedEvent) : List (List ParsedEvent) :=
  c.before ++ (c.left ++ x :: c.right) :: c.after

/-- No `ts` is more than 120 s behind an earlier one. -/
def InOrder (events : List ParsedEvent) : Prop :=
  events.Pairwise fun e e' => ∀ t t', e.ts = some t → e'.ts = some t' → t - watermarkDelay ≤ t'

/-- The two queries have consumed the micro-batches into the curated tables. -/
structure Consumed (spark : Spark) (batches : List (List ParsedEvent))
    (pageViews : Database pageViewsKeyColumns) (campaignStats : Database campaignStatsKeyColumns) :
    Prop where
  pageViews : ∃ out, (pageViewsView spark).Runs .initial batches out ∧
    Upserted pageViewsKeyColumns pageViewsColumns out ⟨.empty, []⟩ pageViews
  campaignStats : ∃ out, (campaignStatsView spark).Runs .initial batches out ∧
    Upserted campaignStatsKeyColumns campaignStatsColumns out ⟨.empty, []⟩ campaignStats

/-- The table is the view of the events that its query keeps; `events` are among them, each in a
group. -/
structure Counts {κ ρ π : Type} [DecidableEq κ] [DecidableEq π] {primaryKey : ρ → π}
    (v : WindowedView ParsedEvent κ primaryKey) (batches : List (List ParsedEvent))
    (events : List ParsedEvent) (t : Table primaryKey) : Prop where
  holds : v.Holds t (v.onTime none batches)
  kept : events.Sublist (v.onTime none batches)
  grouped : ∀ e ∈ events, (v.key e).isSome = true

/-- Both tables count every event of the cut with one more event in it. -/
structure StillCounted (spark : Spark) (c : Cut) (x : ParsedEvent)
    (pageViews : Database pageViewsKeyColumns) (campaignStats : Database campaignStatsKeyColumns) :
    Prop where
  pageViews : Counts (pageViewsView spark) (c.insert x) c.events pageViews.table
  campaignStats : Counts (campaignStatsView spark) (c.insert x) c.events campaignStats.table

/-- The watermark behind `x` leaves the windows of the events in later micro-batches open. -/
def Harmless (x : ParsedEvent) (later : List ParsedEvent) : Prop :=
  ∀ t, x.ts = some t → ∀ e ∈ later, ∀ t', e.ts = some t' →
    t - watermarkDelay < windowStart t' + windowLength

/-- The view groups by the one-minute windows of `ts`, with the watermark of the job. -/
structure ByMinute {κ ρ π : Type} {primaryKey : ρ → π} (v : WindowedView ParsedEvent κ primaryKey) :
    Prop where
  eventTime : v.eventTime = ParsedEvent.ts
  delay : v.delay = watermarkDelay
  windowEnd : ∀ e, (v.key e).map v.windowEnd = e.ts.map fun t => windowStart t + windowLength

theorem byMinute_pageViews (spark : Spark) : ByMinute (pageViewsView spark) where
  eventTime := rfl
  delay := rfl
  windowEnd _ := Option.map_map ..

theorem byMinute_campaignStats (spark : Spark) : ByMinute (campaignStatsView spark) where
  eventTime := rfl
  delay := rfl
  windowEnd _ := Option.map_map ..

namespace ByMinute

variable {κ ρ π : Type} [DecidableEq κ] [DecidableEq π] {primaryKey : ρ → π}
  {v : WindowedView ParsedEvent κ primaryKey} {c : Cut} {x : ParsedEvent}

omit [DecidableEq κ] [DecidableEq π] in
theorem closes_iff (h : ByMinute v) {e : ParsedEvent} :
    v.Closes x e ↔ ∃ t t', x.ts = some t ∧ e.ts = some t' ∧
      windowStart t' + windowLength ≤ t - watermarkDelay := by
  have hwindow := h.windowEnd e
  rw [WindowedView.Closes, h.eventTime, h.delay]
  constructor
  · rintro ⟨t, k, ht, hk, hle⟩
    rw [hk] at hwindow
    obtain ⟨t', ht', hend⟩ := Option.map_eq_some_iff.mp hwindow.symm
    exact ⟨t, t', ht, ht', hend ▸ hle⟩
  · rintro ⟨t, t', ht, ht', hle⟩
    rw [ht'] at hwindow
    obtain ⟨k, hk, hend⟩ := Option.map_eq_some_iff.mp hwindow
    exact ⟨t, k, ht, hk, hend ▸ hle⟩

omit [DecidableEq κ] [DecidableEq π] in
theorem harmless_iff (h : ByMinute v) {later : List ParsedEvent} :
    Harmless x later ↔ ∀ e ∈ later, ¬v.Closes x e := by
  simp only [h.closes_iff]
  constructor
  · rintro hx e he ⟨t, t', ht, ht', hle⟩
    have hlt := hx t ht e he t' ht'
    omega
  · intro hx t ht e he t' ht'
    by_contra hlt
    exact hx e he ⟨t, t', ht, ht', by omega⟩

omit [DecidableEq κ] [DecidableEq π] in
theorem isSome_key (h : ByMinute v) {e : ParsedEvent} (he : e.ts ≠ none) :
    (v.key e).isSome = true := by
  obtain ⟨t, ht⟩ := Option.ne_none_iff_exists'.mp he
  have hwindow := congrArg Option.isSome (h.windowEnd e)
  rwa [Option.isSome_map, Option.isSome_map, ht] at hwindow

/-- A query keeps the events around one more exactly when that one is harmless. -/
theorem counts_iff (h : ByMinute v) (horder : InOrder c.events) (hts : ∀ e ∈ c.events, e.ts ≠ none)
    {t : Table primaryKey} (ht : v.Holds t (v.onTime none (c.insert x))) :
    Counts v (c.insert x) c.events t ↔ Harmless x c.after.flatten := by
  have hdisorder : v.BoundedDisorder c.events := by
    rw [WindowedView.BoundedDisorder, h.eventTime, h.delay]
    exact horder
  rw [h.harmless_iff]
  constructor
  · intro hcounts
    refine WindowedView.not_closes_of_sublist_onTime ?_ hcounts.kept
    rw [h.delay]
    decide
  · intro hx
    exact ⟨ht, WindowedView.sublist_onTime_of_not_closes hdisorder hx,
      fun e he => h.isSome_key (hts e he)⟩

end ByMinute

section Consumed

variable {spark : Spark} {batches : List (List ParsedEvent)}
  {pageViews : Database pageViewsKeyColumns} {campaignStats : Database campaignStatsKeyColumns}

theorem Consumed.holds_pageViews (h : Consumed spark batches pageViews campaignStats) :
    (pageViewsView spark).Holds pageViews.table ((pageViewsView spark).onTime none batches) := by
  obtain ⟨out, hruns, hupserted⟩ := h.pageViews
  exact hupserted.holds mem_pageViewsColumns (List.cons_ne_nil _ _) hruns

theorem Consumed.holds_campaignStats (h : Consumed spark batches pageViews campaignStats) :
    (campaignStatsView spark).Holds campaignStats.table
      ((campaignStatsView spark).onTime none batches) := by
  obtain ⟨out, hruns, hupserted⟩ := h.campaignStats
  exact hupserted.holds mem_campaignStatsColumns (List.cons_ne_nil _ _) hruns

end Consumed

/-- The tables still count every event exactly when the watermark behind the added one leaves the windows
of the events in later micro-batches open. -/
theorem stillCounted_iff {py : Interpreter} {spark : Spark} {c : Cut} {x : ParsedEvent}
    {pageViews : Database pageViewsKeyColumns} {campaignStats : Database campaignStatsKeyColumns}
    (hparsed : ∀ e ∈ c.events, Parsed py spark e) (horder : InOrder c.events)
    (hconsumed : Consumed spark (c.insert x) pageViews campaignStats) :
    StillCounted spark c x pageViews campaignStats ↔ Harmless x c.after.flatten := by
  have hts : ∀ e ∈ c.events, e.ts ≠ none := fun e he => (hparsed e he).ts
  have hpageViews := (byMinute_pageViews spark).counts_iff horder hts hconsumed.holds_pageViews
  have hcampaignStats :=
    (byMinute_campaignStats spark).counts_iff horder hts hconsumed.holds_campaignStats
  exact ⟨fun h => hpageViews.mp h.pageViews,
    fun h => ⟨hpageViews.mpr h, hcampaignStats.mpr h⟩⟩

/-! ### A message of the year 9999 -/

theorem exists_consumed (spark : Spark) (batches : List (List ParsedEvent)) :
    ∃ pageViews campaignStats, Consumed spark batches pageViews campaignStats := by
  obtain ⟨pageViews, hpageViews⟩ := exists_runs_upserted mem_pageViewsColumns
    (List.cons_ne_nil _ _ : pageViewsKeyColumns ≠ []) (pageViewsView spark) batches
  obtain ⟨campaignStats, hcampaignStats⟩ := exists_runs_upserted mem_campaignStatsColumns
    (List.cons_ne_nil _ _ : campaignStatsKeyColumns ≠ []) (campaignStatsView spark) batches
  exact ⟨pageViews, campaignStats, hpageViews, hcampaignStats⟩

def sampleAt (ts : PyStr) : ParsedEvent := select paddedSpark (Schema.sample ts)

def today : ParsedEvent := sampleAt (lit "2026-08-27T15:00:00Z")

def endOfTime : ParsedEvent := sampleAt (lit "9999-12-31T23:59:59Z")

theorem parsed_today : Parsed cpython paddedSpark today :=
  parsed_sample (by decide +kernel) (scalar_lit _) (by decide +kernel)

theorem parsed_endOfTime : Parsed cpython paddedSpark endOfTime :=
  parsed_sample (by decide +kernel) (scalar_lit _) (by decide +kernel)

def aheadOfToday : Cut := ⟨[], [], [], [[today]]⟩

theorem parsed_aheadOfToday : ∀ e ∈ aheadOfToday.events, Parsed cpython paddedSpark e := by
  intro e he
  obtain rfl : e = today := List.mem_singleton.mp he
  exact parsed_today

theorem stillCounted_iff_today : ∃ pageViews campaignStats,
    Consumed paddedSpark (aheadOfToday.insert today) pageViews campaignStats ∧
      StillCounted paddedSpark aheadOfToday today pageViews campaignStats := by
  obtain ⟨pageViews, campaignStats, hconsumed⟩ :=
    exists_consumed paddedSpark (aheadOfToday.insert today)
  refine ⟨pageViews, campaignStats, hconsumed, (stillCounted_iff parsed_aheadOfToday
    (List.pairwise_singleton _ _) hconsumed).mpr ?_⟩
  intro t ht e he t' ht'
  obtain rfl : e = today := List.mem_singleton.mp he
  obtain rfl : t = t' := Option.some.inj (ht.symm.trans ht')
  have hlt := lt_windowStart_add t
  have hdelay : 0 ≤ watermarkDelay := by decide
  omega

/-- One message of the year 9999 has every later message dropped. -/
theorem not_stillCounted_always :
    ¬∀ (py : Interpreter) (spark : Spark) (c : Cut) (x : ParsedEvent)
      (pageViews : Database pageViewsKeyColumns) (campaignStats : Database campaignStatsKeyColumns),
      (∀ e ∈ c.events, Parsed py spark e) → InOrder c.events → Accepted py spark x →
        Consumed spark (c.insert x) pageViews campaignStats →
        StillCounted spark c x pageViews campaignStats := by
  intro h
  obtain ⟨pageViews, campaignStats, hconsumed⟩ :=
    exists_consumed paddedSpark (aheadOfToday.insert endOfTime)
  have hcounted := h cpython paddedSpark aheadOfToday endOfTime pageViews campaignStats
    parsed_aheadOfToday (List.pairwise_singleton _ _) parsed_endOfTime.accepted hconsumed
  have hkept : today ∈ (pageViewsView paddedSpark).onTime none (aheadOfToday.insert endOfTime) :=
    hcounted.pageViews.kept.subset (List.mem_singleton.mpr rfl)
  revert hkept
  decide +kernel

end Clickstream.Outlier
