import Clickstream.Accounting
import Clickstream.Kit.Distinct
import Clickstream.Rollup

/-! The totals of users: sums of the distinct counts of one-minute windows, in the API's summary and in
the rollup, against the distinct users of the events. -/

namespace Clickstream.DistinctUsers

open Python Kit Streaming PostgresSink Rollup

/-- Spark, when `approx_count_distinct` is exact. -/
def exactCounts (spark : Spark) : Spark := { spark with approxCountDistinct := Finset.card }

/-- `total_users` of `query_summary`: `COALESCE(SUM(users), 0)`. -/
def totalUsers (windows : List PageViews) : Nat := (windows.map PageViews.users).sum

def distinctUsers (events : List ParsedEvent) : Nat := (owners ParsedEvent.userId events).card

/-- The day, page and device to which the rollup counts an event. -/
def eventDayKey (session : TimeZone) (e : ParsedEvent) : Option DailyKey :=
  (pageViewsKey e).map fun k => (castDate session (atTimeZoneUtc k.1), k.2.1, k.2.2)

def eventsOf (session : TimeZone) (events : List ParsedEvent) (k : DailyKey) : List ParsedEvent :=
  events.filter fun e => decide (eventDayKey session e = some k)

/-- The users in the summary and in each row of `daily_summary` are no more than the distinct users. -/
structure TotalsDistinct (session : TimeZone) (events : List ParsedEvent) (s : Curated) : Prop where
  total : totalUsers s.windows ≤ distinctUsers events
  daily : ∀ table, s.dailySummary = some table → ∀ r ∈ table.rows,
    r.users ≤ distinctUsers (eventsOf session events r.key)

/-- The users are seen again, in a window, page and device other than their first, no more often than
there are users without a window; on one day, page and device none is in two windows. -/
structure SeenOnce (session : TimeZone) (events : List ParsedEvent) : Prop where
  total : furtherGroups pageViewsKey ParsedEvent.userId events ≤
    (ownersWithoutGroup pageViewsKey ParsedEvent.userId events).card
  daily : ∀ e ∈ events, ∀ e' ∈ events, e.userId = e'.userId →
    eventDayKey session e = eventDayKey session e' → pageViewsKey e = pageViewsKey e'

section Totals

variable {session : TimeZone} {spark : Spark} {events : List ParsedEvent} {s s' : Curated}

theorem totalUsers_pageViews1m (events : List ParsedEvent) :
    totalUsers (pageViews1m (exactCounts spark) events) =
      sumOwners pageViewsKey ParsedEvent.userId events := by
  rw [totalUsers, pageViews1m, aggregate, List.map_map]
  rfl

theorem totalUsers_perm {l m : List PageViews} (h : l.Perm m) : totalUsers l = totalUsers m :=
  (h.map _).sum_nat

/-- A table that holds the view of the events has the windows of the one-shot aggregation. -/
theorem windows_perm (hholds : (pageViewsView spark).Holds s.pageViews.table events) :
    s.windows.Perm (pageViews1m spark events) := by
  have hrows := hholds.perm_rows.filterMap pageViewsOfRow
  rw [pageViewsView_rows, List.filterMap_map] at hrows
  exact hrows.trans (.of_eq List.filterMap_some)

theorem totalUsers_windows
    (hholds : (pageViewsView (exactCounts spark)).Holds s.pageViews.table events) :
    totalUsers s.windows = sumOwners pageViewsKey ParsedEvent.userId events :=
  (totalUsers_perm (windows_perm hholds)).trans (totalUsers_pageViews1m events)

theorem filter_windows_perm (hholds : (pageViewsView spark).Holds s.pageViews.table events)
    (k : DailyKey) : (group (dailyView session).key s.windows k).Perm
      (pageViews1m spark (eventsOf session events k)) := by
  have hevents : eventsOf session events k = events.filter fun e => (pageViewsKey e).any fun k' =>
      decide ((castDate session (atTimeZoneUtc k'.1), k'.2.1, k'.2.2) = k) := by
    apply List.filter_congr
    intro e _
    rw [eventDayKey]
    cases pageViewsKey e <;> simp
  rw [hevents]
  refine ((windows_perm hholds).filter _).trans (aggregate_filter (fun k' l => ?_) events)
  rw [decide_eq_decide]
  exact Option.some_inj

theorem isSome_pageViewsKey {k : DailyKey} : ∀ e ∈ eventsOf session events k,
    (pageViewsKey e).isSome := by
  intro e he
  have hday := of_decide_eq_true (List.mem_filter.mp he).2
  rw [eventDayKey] at hday
  cases hkey : pageViewsKey e with
  | none => rw [hkey] at hday; cases hday
  | some k' => rfl

/-- The rows of the rollup: one for each day, page and device of an event, with the distinct users of
its windows added up. -/
theorem rollup_users (h : Reachable session s)
    (hholds : (pageViewsView (exactCounts spark)).Holds s.pageViews.table events)
    (hrollup : runDailyRollup session s = some s') : ∃ table, s' = ⟨s.pageViews, some table⟩ ∧
      (∀ e ∈ events, ∀ k, eventDayKey session e = some k → ∃ r ∈ table.rows, r.key = k) ∧
      ∀ r ∈ table.rows, r.users =
        sumOwners pageViewsKey ParsedEvent.userId (eventsOf session events r.key) := by
  obtain ⟨table, rfl, hdaily⟩ := h.invariant.holds hrollup
  refine ⟨table, rfl, ?_, ?_⟩
  · intro e he k hk
    have hmem : e ∈ eventsOf session events k := List.mem_filter.mpr ⟨he, decide_eq_true hk⟩
    obtain ⟨k', hk'⟩ := Option.isSome_iff_exists.mp (isSome_pageViewsKey e hmem)
    have hwindow : pageViewsRow (exactCounts spark) k' _ ∈ group (dailyView session).key s.windows k :=
      (filter_windows_perm hholds k).mem_iff.mpr
        (List.mem_map_of_mem (mem_groupKeys.mpr ⟨e, hmem, hk'⟩))
    refine ⟨_, hdaily.perm_rows.mem_iff.mpr (List.mem_map_of_mem (a := k) ?_), rfl⟩
    exact mem_groupKeys_iff_group_ne_nil.mpr (List.ne_nil_of_mem hwindow)
  · intro r hr
    obtain ⟨k, -, rfl⟩ := List.mem_map.mp (hdaily.perm_rows.mem_iff.mp hr)
    exact (totalUsers_perm (filter_windows_perm hholds k)).trans (totalUsers_pageViews1m _)

theorem sumOwners_eventsOf_le_iff {k : DailyKey} :
    sumOwners pageViewsKey ParsedEvent.userId (eventsOf session events k) ≤
        distinctUsers (eventsOf session events k) ↔
      ∀ e ∈ events, ∀ e' ∈ events, e.userId = e'.userId → eventDayKey session e = some k →
        eventDayKey session e' = some k → pageViewsKey e = pageViewsKey e' := by
  rw [distinctUsers, sumOwners_le_iff_of_isSome isSome_pageViewsKey]
  simp only [eventsOf, List.mem_filter, decide_eq_true_iff]
  constructor
  · intro h e he e' he' huser hk hk'
    exact h e ⟨he, hk⟩ e' ⟨he', hk'⟩ huser
  · intro h e he e' he' huser
    exact h e he.1 e' he'.1 huser he.2 he'.2

/-- The totals are within the distinct users exactly when users are not seen again. -/
theorem totalsDistinct_iff (h : Reachable session s)
    (hholds : (pageViewsView (exactCounts spark)).Holds s.pageViews.table events)
    (hrollup : runDailyRollup session s = some s') :
    TotalsDistinct session events s' ↔ SeenOnce session events := by
  obtain ⟨table, rfl, hrows, husers⟩ := rollup_users h hholds hrollup
  have htotal := totalUsers_windows hholds
  constructor
  · intro hdistinct
    have hle := hdistinct.total
    refine ⟨sumOwners_le_iff.mp (htotal ▸ hle), ?_⟩
    intro e he e' he' huser hday
    cases hk : eventDayKey session e with
    | none =>
      have hk' := hday.symm.trans hk
      rw [eventDayKey, Option.map_eq_none_iff] at hk hk'
      rw [hk, hk']
    | some k =>
      obtain ⟨r, hr, rfl⟩ := hrows e he k hk
      have hle := hdistinct.daily table rfl r hr
      rw [husers r hr] at hle
      exact sumOwners_eventsOf_le_iff.mp hle e he e' he' huser hk (hday.symm.trans hk)
  · intro honce
    refine ⟨htotal.trans_le (sumOwners_le_iff.mpr honce.total), ?_⟩
    intro table' htable r hr
    cases htable
    rw [husers r hr]
    refine sumOwners_eventsOf_le_iff.mpr fun e he e' he' huser hk hk' => ?_
    exact honce.daily e he e' he' huser (hk.trans hk'.symm)

end Totals

/-! ### Three users -/

/-- The tables after one micro-batch with the view of the events. -/
def curatedOf (spark : Spark) (events : List ParsedEvent) : Curated :=
  { Curated.empty with
    pageViews := Curated.empty.pageViews.overwrite ((pageViews1m spark events).map PageViews.toRow) }

theorem reachable_curatedOf (session : TimeZone) (spark : Spark) (events : List ParsedEvent) :
    Reachable session (curatedOf spark events) := by
  have hnodup := View.nodup_rows (v := (pageViewsView spark).toView) events
  rw [pageViewsView_rows] at hnodup
  obtain ⟨sts, hsts, hrun⟩ := runScript_upsertBatch mem_pageViewsColumns (List.cons_ne_nil _ _)
    hnodup Curated.empty.pageViews
  exact .single (.upsert hsts hrun)

theorem holds_curatedOf (spark : Spark) (events : List ParsedEvent) :
    (pageViewsView spark).Holds (curatedOf spark events).pageViews.table events := by
  have hholds := View.holds_foldl_put_rows (v := (pageViewsView spark).toView) (l := events)
    (t := .empty) fun r hr => nomatch hr
  rw [pageViewsView_rows] at hholds
  exact hholds

def pageViewAt (ts : PyStr) : ParsedEvent := select paddedSpark (Schema.sample ts)

def pageViewBy (userId page ts : String) : ParsedEvent :=
  select paddedSpark { Schema.sample (lit ts) with userId := lit userId, page := lit page }

/-- Three users, each in one window of one page, on two days. -/
def threeUsers : List ParsedEvent :=
  [pageViewBy "u-0001" "/home" "2026-08-27T23:59:00Z",
    pageViewBy "u-0002" "/home" "2026-08-27T23:59:10Z",
    pageViewBy "u-0001" "/home" "2026-08-27T23:59:30Z",
    pageViewBy "u-0003" "/cart" "2026-08-28T00:00:20Z"]

theorem seenOnce_threeUsers : SeenOnce utc threeUsers where
  total := by decide +kernel
  daily := by decide +kernel

theorem totalsDistinct_threeUsers : ∃ s',
    runDailyRollup utc (curatedOf (exactCounts paddedSpark) threeUsers) = some s' ∧
      totalUsers s'.windows = 3 ∧ TotalsDistinct utc threeUsers s' := by
  obtain ⟨s', hrollup⟩ : ∃ s', runDailyRollup utc (curatedOf (exactCounts paddedSpark) threeUsers) =
      some s' := ⟨_, runDailyRollup_eq_some.mpr ⟨by decide +kernel, rfl⟩⟩
  have hholds := holds_curatedOf (exactCounts paddedSpark) threeUsers
  have hiff := totalsDistinct_iff (reachable_curatedOf utc (exactCounts paddedSpark) _) hholds hrollup
  obtain ⟨-, rfl⟩ := runDailyRollup_eq_some.mp hrollup
  refine ⟨_, hrollup, ?_, hiff.mpr seenOnce_threeUsers⟩
  exact (totalUsers_windows hholds).trans (by decide +kernel)

/-- One user who views a page in two minutes counts twice in the summary and on the day. -/
theorem not_totalsDistinct_always :
    ¬∀ (session : TimeZone) (spark : Spark) (events : List ParsedEvent) (s s' : Curated),
      Reachable session s → (pageViewsView (exactCounts spark)).Holds s.pageViews.table events →
        runDailyRollup session s = some s' → TotalsDistinct session events s' := by
  intro h
  have hdistinct := h utc paddedSpark
    [pageViewAt (lit "2026-08-27T15:00:00Z"), pageViewAt (lit "2026-08-27T15:01:00Z")] _ _
    (reachable_curatedOf utc (exactCounts paddedSpark) _)
    (holds_curatedOf (exactCounts paddedSpark) _)
    (runDailyRollup_eq_some.mpr ⟨by decide +kernel, rfl⟩)
  have hle := (totalUsers_windows (holds_curatedOf (exactCounts paddedSpark) _)).symm.trans_le
    hdistinct.total
  revert hle
  decide +kernel

end Clickstream.DistinctUsers
