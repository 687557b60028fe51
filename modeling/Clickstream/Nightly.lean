import Clickstream.Marts

/-! The nightly rollup over a table that the streaming job writes at the same time.  Between two
transactions of one anything may happen to the other, and a rollup may fail and be tried again.  The
summary is that of a prefix of the events, which the table has left behind by at most what came in since
the last rollup. -/

namespace Clickstream.Nightly

open Python Kit Streaming PostgresSink Refinement Rollup TopLists Marts

/-- The page-view query with its table, and `curated.daily_summary`. -/
structure System where
  job : Job ParsedEvent PageViewsKey pageViewsKeyColumns
  dailySummary : Option (Table DailySummary.key)

def System.start (batches : List (List ParsedEvent)) : System := ⟨Job.start batches, none⟩

def System.curated (s : System) : Curated := ⟨s.job.db, s.dailySummary⟩

section System

variable (spark : Spark) (session : TimeZone)

/-- The query takes a step, or the DAG runs: its transaction is committed, or rolled back. -/
inductive Step : System → System → Prop
  | query {s : System} {job' : Job ParsedEvent PageViewsKey pageViewsKeyColumns}
      (h : Refinement.Step (pageViewsView spark) upsertPageViews s.job job') :
      Step s { s with job := job' }
  | rollup {s : System} {c : Curated} (h : runDailyRollup session s.curated = some c) :
      Step s { s with dailySummary := c.dailySummary }
  | rolledBack (s : System) : Step s s

def Reaches (batches : List (List ParsedEvent)) : System → Prop :=
  Relation.ReflTransGen (Step spark session) (System.start batches)

end System

/-! ### The summary of events -/

/-- The row of `daily_summary` that an event is counted in. -/
def sessionDay (session : TimeZone) (e : ParsedEvent) : Option DailyKey :=
  e.ts.map fun t => (castDate session (atTimeZoneUtc (windowStart t)), e.page, e.device)

/-- A user counts once in every window. -/
def dailyFigures (spark : Spark) (k : DailyKey) (events : List ParsedEvent) : DailySummary where
  day := k.1
  page := k.2.1
  device := k.2.2
  views := countType (lit "page_view") events
  users := ((pageViews1m spark events).map PageViews.users).sum

def dailySummaryOf (session : TimeZone) (spark : Spark) (events : List ParsedEvent) :
    List DailySummary :=
  aggregate (sessionDay session) (dailyFigures spark) events

section Summary

variable {session : TimeZone} {spark : Spark}

theorem dayKey_pageViewsRow (k : PageViewsKey) (events : List ParsedEvent) :
    dayKey session (pageViewsRow spark k events) =
      (castDate session (atTimeZoneUtc k.1), k.2.1, k.2.2) := rfl

theorem map_pageViewsKey (e : ParsedEvent) :
    ((pageViewsKey e).map fun k => (castDate session (atTimeZoneUtc k.1), k.2.1, k.2.2)) =
      sessionDay session e := by
  rw [pageViewsKey, Option.map_map, sessionDay]
  rfl

/-- The windows of a day are those of its events. -/
theorem group_pageViews1m (l : List ParsedEvent) (k : DailyKey) :
    (group (dailyView session).key (pageViews1m spark l) k).Perm
      (pageViews1m spark (group (sessionDay session) l k)) := by
  have hrows : (group (fun w => some (dayKey session w)) (pageViews1m spark l) k).Perm
      (aggregate pageViewsKey (pageViewsRow spark) (group (fun e => (pageViewsKey e).map fun k =>
        (castDate session (atTimeZoneUtc k.1), k.2.1, k.2.2)) l k)) :=
    group_regroup dayKey_pageViewsRow l k
  simp only [map_pageViewsKey] at hrows
  exact hrows

theorem dailyRow_group (l : List ParsedEvent) (k : DailyKey) :
    dailyRow k (group (dailyView session).key (pageViews1m spark l) k) =
      dailyFigures spark k (group (sessionDay session) l k) := by
  have hperm : (group (dailyView session).key (pageViews1m spark l) k).Perm
      (pageViews1m spark (group (sessionDay session) l k)) := group_pageViews1m l k
  have hts : (group (sessionDay session) l k).filter (fun e => e.ts.isSome) =
      group (sessionDay session) l k := by
    rw [List.filter_eq_self]
    intro e he
    obtain ⟨t, ht, -⟩ := Option.map_eq_some_iff.mp (mem_group.mp he).2
    rw [ht]
    rfl
  rw [dailyRow, dailyFigures, (hperm.map PageViews.views).sum_nat,
    (hperm.map PageViews.users).sum_nat, sum_views_pageViews1m, hts]

theorem dailyRow_perm {k : DailyKey} {l m : List PageViews} (h : l.Perm m) :
    dailyRow k l = dailyRow k m := by
  rw [dailyRow, dailyRow, (h.map _).sum_nat, (h.map _).sum_nat]

/-- The view of the windows by day summarises the events behind them. -/
theorem rows_dailyView {windows : List PageViews} {l : List ParsedEvent}
    (h : windows.Perm (pageViews1m spark l)) :
    ((dailyView session).rows windows).Perm (dailySummaryOf session spark l) := by
  have hkeys : (groupKeys (dailyView session).key (pageViews1m spark l)).Perm
      (groupKeys (sessionDay session) l) := by
    have hregroup : (groupKeys (fun w => some (dayKey session w)) (pageViews1m spark l)).Perm
        (groupKeys (fun e => (pageViewsKey e).map fun k =>
          (castDate session (atTimeZoneUtc k.1), k.2.1, k.2.2)) l) :=
      groupKeys_regroup dayKey_pageViewsRow l
    simp only [map_pageViewsKey] at hregroup
    exact hregroup
  have hrows : (dailyView session).rows (pageViews1m spark l) =
      (groupKeys (dailyView session).key (pageViews1m spark l)).map fun k =>
        dailyFigures spark k (group (sessionDay session) l k) :=
    List.map_congr_left fun k _ => dailyRow_group l k
  have hwindows : ((dailyView session).rows windows).Perm
      ((dailyView session).rows (pageViews1m spark l)) :=
    aggregate_perm h fun _ _ _ hperm => dailyRow_perm hperm
  rw [hrows] at hwindows
  exact hwindows.trans (hkeys.map _)

/-- Every row is there again with at least its views, and with at least its users when
`approx_count_distinct` is monotone. -/
def SummaryLe (spark : Spark) (daily daily' : List DailySummary) : Prop :=
  ∀ r ∈ daily, ∃ r' ∈ daily', r'.key = r.key ∧ r.views ≤ r'.views ∧
    (Monotone spark.approxCountDistinct → r.users ≤ r'.users)

theorem summaryLe_mono {l l' : List ParsedEvent} (h : l <+: l') :
    SummaryLe spark (dailySummaryOf session spark l) (dailySummaryOf session spark l') := by
  obtain ⟨m, rfl⟩ := h
  intro r hr
  obtain ⟨k, hk, rfl⟩ := mem_aggregate.mp hr
  have hrow : dailyFigures spark k (group (sessionDay session) (l ++ m) k) ∈
      dailySummaryOf session spark (l ++ m) :=
    mem_aggregate.mpr ⟨k, mem_groupKeys_append_left hk, rfl⟩
  rw [group_append] at hrow
  refine ⟨_, hrow, rfl, countType_le_append .., fun hmono => ?_⟩
  have husers : ∀ a b, ((pageViews1m spark a).map PageViews.users).sum ≤
      ((pageViews1m spark (a ++ b)).map PageViews.users).sum :=
    sum_aggregate_le_append fun _ a b => users_le_append hmono a b
  exact husers _ _

theorem SummaryLe.of_perm {daily daily' rows rows' : List DailySummary} (h : SummaryLe spark rows rows')
    (hrows : daily.Perm rows) (hrows' : daily'.Perm rows') : SummaryLe spark daily daily' := by
  intro r hr
  obtain ⟨r', hr', hle⟩ := h r (hrows.mem_iff.mp hr)
  exact ⟨r', hrows'.mem_iff.mpr hr', hle⟩

end Summary

/-! ### Steps -/

section Query

variable {α κ γ : Type} [DecidableEq κ] [DecidableEq γ] {keyColumns columns : List γ}
  {v : WindowedView α κ (keyOf keyColumns)} {events m : List α} {batches : List (List α)}
  {job job' : Job α κ keyColumns}

/-- After a step a table shows the same events, or more behind them. -/
theorem exists_shows_step (hcolumns : ∀ c, c ∈ columns) (hkeys : keyColumns ≠ [])
    (hdisorder : v.BoundedDisorder events) (hbatches : batches.flatten = events)
    (hreach : Refinement.Reaches v (upsertBatch keyColumns columns) batches job)
    (hstep : Refinement.Step v (upsertBatch keyColumns columns) job job')
    (hshows : Shows events job m) (hholds : v.Holds job.db.table m) :
    ∃ m', m <+: m' ∧ Shows events job' m' ∧ v.Holds job'.db.table m' := by
  obtain ⟨l, hl, hevents⟩ := consumed_of_reaches hcolumns hkeys hdisorder hbatches hreach
  -- What is shown is at most the consumed events and the micro-batch at hand.
  have hprefix : ∀ batch rest, job.pending = batch :: rest → m <+: l ++ batch := by
    intro batch rest hpending
    rw [hpending] at hevents
    rcases hshows with hm | ⟨batch', rest', hpending', hm⟩
    · rw [hpending] at hm
      rw [List.append_cancel_right (hm.trans hevents.symm)]
      exact List.prefix_append ..
    · obtain ⟨rfl, rfl⟩ := List.cons.inj (hpending.symm.trans hpending')
      rw [List.flatten_cons, ← List.append_assoc] at hevents
      rw [List.append_cancel_right (hm.trans hevents.symm)]
  cases hstep with
  | @crash batch rest sts s' n hpending hexec =>
    rw [hpending] at hevents
    obtain ⟨rows, hsts, htouched, -, -⟩ := hexec.perm_touched hdisorder hl.latest hl.tracks hevents
    have hnodup := (htouched.map (keyOf keyColumns)).nodup_iff.mpr (View.nodup_touched l batch)
    rcases leftBehind_upsertBatch hcolumns hkeys hnodup hsts n job.db with hleft | hleft
    · exact ⟨m, List.prefix_rfl, hshows, by rwa [hleft]⟩
    · refine ⟨l ++ batch, hprefix batch rest hpending, .inr ⟨batch, rest, hpending, ?_⟩, ?_⟩
      · rw [← hevents, List.flatten_cons, List.append_assoc]
      · rw [hleft]
        exact holds_overwrite hl hpending htouched
  | @finish batch rest sts s' session hpending hexec hrun =>
    rw [hpending] at hevents
    obtain ⟨rows, hsts, htouched, -, -⟩ := hexec.perm_touched hdisorder hl.latest hl.tracks hevents
    have hnodup := (htouched.map (keyOf keyColumns)).nodup_iff.mpr (View.nodup_touched l batch)
    have hcommitted := runScript_upsertBatch_eq hcolumns hkeys hsts job.db
    rw [if_pos hnodup] at hcommitted
    obtain rfl := Option.some.inj (hrun.symm.trans hcommitted)
    refine ⟨l ++ batch, hprefix batch rest hpending, .inl ?_, holds_overwrite hl hpending htouched⟩
    rw [← hevents, List.flatten_cons, List.append_assoc]

end Query

section Runs

variable {spark : Spark} {session : TimeZone} {events l m : List ParsedEvent}
  {batches : List (List ParsedEvent)} {s s' : System}

/-- The table shows `m`, and the summary, when there is one, is that of `l` in front of it. -/
structure Tells (spark : Spark) (session : TimeZone) (events m l : List ParsedEvent) (s : System) :
    Prop where
  shows : Shows events s.job m
  holds : (pageViewsView spark).Holds s.job.db.table m
  behind : l <+: m
  summary : ∀ daily, s.dailySummary = some daily →
    daily.rows.Perm (dailySummaryOf session spark l)

theorem reaches_job (h : Reaches spark session batches s) :
    Refinement.Reaches (pageViewsView spark) upsertPageViews batches s.job := by
  induction h with
  | refl => exact .refl
  | tail _ hstep ih =>
    cases hstep with
    | query h => exact ih.tail h
    | rollup h => exact ih
    | rolledBack => exact ih

theorem tells_start : Tells spark session batches.flatten [] [] (System.start batches) where
  shows := .inl rfl
  holds := View.holds_empty
  behind := List.prefix_rfl
  summary _ h := by cases h

/-- The windows of the day of a row of the summary are still in the table. -/
theorem Tells.invariant (h : Tells spark session events m l s) : Invariant session s.curated where
  typed r hr := by
    obtain ⟨k, -, rfl⟩ := mem_aggregate.mp (h.holds.perm_rows.mem_iff.mp hr)
    exact ⟨pageViewsRow spark k _, rfl⟩
  covered daily hdaily r hr := by
    obtain ⟨k, hk, rfl⟩ := mem_aggregate.mp ((h.summary daily hdaily).mem_iff.mp hr)
    obtain ⟨e, he, hkey⟩ := mem_groupKeys.mp hk
    obtain ⟨t, ht, rfl⟩ := Option.map_eq_some_iff.mp hkey
    have hwindow : pageViewsKey e = some (windowStart t, e.page, e.device) := by
      rw [pageViewsKey, ht]
      rfl
    have hmem := mem_groupKeys.mpr ⟨e, h.behind.subset he, hwindow⟩
    exact ⟨_, (pageViewsWindows_perm h.holds).mem_iff.mpr (mem_aggregate.mpr ⟨_, hmem, rfl⟩), rfl⟩

/-- A rollup that commits summarises what the table shows. -/
theorem Tells.rollup {c : Curated} (h : Tells spark session events m l s)
    (hrollup : runDailyRollup session s.curated = some c) : c.pageViews = s.job.db ∧
      ∃ daily, c.dailySummary = some daily ∧ daily.rows.Perm (dailySummaryOf session spark m) := by
  obtain ⟨daily, rfl, hholds⟩ := h.invariant.holds hrollup
  exact ⟨rfl, daily, rfl, hholds.perm_rows.trans (rows_dailyView (pageViewsWindows_perm h.holds))⟩

/-- Only the sums of users can be too large. -/
theorem Tells.commits_iff (h : Tells spark session events m l s) (hfits : events.length < 2 ^ 63) :
    (∃ c, runDailyRollup session s.curated = some c) ↔
      ∀ r ∈ dailySummaryOf session spark m, r.users < 2 ^ 63 := by
  have hrows : ((dailyView session).rows s.curated.windows).Perm (dailySummaryOf session spark m) :=
    rows_dailyView (pageViewsWindows_perm h.holds)
  have hviews : ∀ r ∈ dailySummaryOf session spark m, r.views < 2 ^ 63 := by
    intro r hr
    obtain ⟨k, -, rfl⟩ := mem_aggregate.mp hr
    have hcount := countType_le_length (lit "page_view") (group (sessionDay session) m k)
    have hgroup := length_group_le (sessionDay session) m k
    have hlength := length_le_of_shows h.shows
    show countType (lit "page_view") (group (sessionDay session) m k) < 2 ^ 63
    omega
  simp only [runDailyRollup_eq_some, exists_and_left, exists_eq, and_true]
  constructor
  · intro hall r hr
    exact (hall r (hrows.mem_iff.mpr hr)).2
  · intro hall r hr
    have hmem := hrows.mem_iff.mp hr
    exact ⟨hviews r hmem, hall r hmem⟩

theorem Step.tells (hdisorder : BoundedDisorder events) (hbatches : batches.flatten = events)
    (hreach : Reaches spark session batches s) (h : Tells spark session events m l s)
    (hstep : Step spark session s s') :
    ∃ m' l', m <+: m' ∧ l <+: l' ∧ Tells spark session events m' l' s' := by
  cases hstep with
  | query hquery =>
    have hview : (pageViewsView spark).BoundedDisorder events := hdisorder
    obtain ⟨m', hprefix, hshows, hholds⟩ := exists_shows_step mem_pageViewsColumns
      (List.cons_ne_nil _ _) hview hbatches (reaches_job hreach) hquery h.shows h.holds
    exact ⟨m', l, hprefix, List.prefix_rfl, hshows, hholds, h.behind.trans hprefix, h.summary⟩
  | rollup hrollup =>
    obtain ⟨-, daily, hdaily, hrows⟩ := h.rollup hrollup
    refine ⟨m, m, List.prefix_rfl, h.behind, h.shows, h.holds, List.prefix_rfl, ?_⟩
    intro daily' hdaily'
    obtain rfl := Option.some.inj (hdaily.symm.trans hdaily')
    exact hrows
  | rolledBack => exact ⟨m, l, List.prefix_rfl, List.prefix_rfl, h⟩

/-- A summary stays when it is there. -/
theorem isSome_dailySummary (hrun : Relation.ReflTransGen (Step spark session) s s')
    (h : s.dailySummary.isSome = true) : s'.dailySummary.isSome = true := by
  induction hrun with
  | refl => exact h
  | tail _ hstep ih =>
    cases hstep with
    | query => exact ih
    | rollup hrollup =>
      obtain ⟨-, rfl⟩ := runDailyRollup_eq_some.mp hrollup
      rfl
    | rolledBack => exact ih

theorem Tells.run (hdisorder : BoundedDisorder events) (hbatches : batches.flatten = events)
    (hreach : Reaches spark session batches s) (h : Tells spark session events m l s)
    (hrun : Relation.ReflTransGen (Step spark session) s s') :
    ∃ m' l', m <+: m' ∧ l <+: l' ∧ Tells spark session events m' l' s' := by
  induction hrun with
  | refl => exact ⟨m, l, List.prefix_rfl, List.prefix_rfl, h⟩
  | tail hrun hstep ih =>
    obtain ⟨m₁, l₁, hm, hl, hmiddle⟩ := ih
    obtain ⟨m₂, l₂, hm', hl', hlast⟩ := hstep.tells hdisorder hbatches (hreach.trans hrun) hmiddle
    exact ⟨m₂, l₂, hm.trans hm', hl.trans hl', hlast⟩

theorem exists_tells (hdisorder : BoundedDisorder events) (hbatches : batches.flatten = events)
    (h : Reaches spark session batches s) : ∃ m l, Tells spark session events m l s := by
  subst hbatches
  obtain ⟨m, l, -, -, htells⟩ := tells_start.run hdisorder rfl .refl h
  exact ⟨m, l, htells⟩

/-- At every moment of every run the summary is that of a prefix of the events which the table shows.  A
rollup commits unless a sum of users is too large, and leaves the summary of all the events that the table
shows; whatever happens afterwards, no row is lost and no figure goes down. -/
theorem nightly_of_reaches (hdisorder : BoundedDisorder events) (hfits : events.length < 2 ^ 63)
    (hbatches : batches.flatten = events) (h : Reaches spark session batches s) :
    ∃ m l, Tells spark session events m l s ∧
      (s.job.pending = [] → m = events) ∧
      ((∃ c, runDailyRollup session s.curated = some c) ↔
        ∀ r ∈ dailySummaryOf session spark m, r.users < 2 ^ 63) ∧
      (∀ c, runDailyRollup session s.curated = some c → ∃ daily, c.dailySummary = some daily ∧
        daily.rows.Perm (dailySummaryOf session spark m)) ∧
      ∀ s' daily, Relation.ReflTransGen (Step spark session) s s' → s.dailySummary = some daily →
        ∃ daily', s'.dailySummary = some daily' ∧ SummaryLe spark daily.rows daily'.rows := by
  obtain ⟨m, l, htells⟩ := exists_tells hdisorder hbatches h
  refine ⟨m, l, htells, htells.shows.eq_of_completed, htells.commits_iff hfits,
    fun c hrollup => (htells.rollup hrollup).2, ?_⟩
  intro s' daily hrun hdaily
  obtain ⟨daily', hdaily'⟩ := Option.isSome_iff_exists.mp
    (isSome_dailySummary hrun (Option.isSome_iff_exists.mpr ⟨daily, hdaily⟩))
  obtain ⟨_, l', -, hl, htells'⟩ := htells.run hdisorder hbatches h hrun
  exact ⟨daily', hdaily',
    (summaryLe_mono hl).of_perm (htells.summary daily hdaily) (htells'.summary daily' hdaily')⟩

theorem reaches_of_job {job : Job ParsedEvent PageViewsKey pageViewsKeyColumns}
    (h : Refinement.Reaches (pageViewsView spark) upsertPageViews batches job) :
    Reaches spark session batches ⟨job, none⟩ := by
  induction h with
  | refl => exact .refl
  | tail _ hstep ih => exact ih.tail (.query hstep)

/-- The rollup behind a run over three page views. -/
theorem nightly_of_reaches_visits : ∃ (s : System) (c : Curated) (daily : Table DailySummary.key),
    s.job.pending = [] ∧ runDailyRollup utc s.curated = some c ∧ c.dailySummary = some daily ∧
      daily.rows.Perm (dailySummaryOf utc paddedSpark ClickHouseRuns.visitEvents) := by
  have h := ClickHouseRuns.boundedDisorder_visits
  obtain ⟨job, -, batches, -, hbatches, -, hreach, -, hpending, -⟩ := exists_completed_jobs
  have hreaches : Reaches paddedSpark utc batches ⟨job, none⟩ := reaches_of_job hreach
  obtain ⟨m, l, -, hm, hcommits, hrollup, -⟩ := nightly_of_reaches h (by decide) hbatches hreaches
  obtain rfl := hm hpending
  obtain ⟨c, hc⟩ := hcommits.mpr (by decide +kernel)
  obtain ⟨daily, hdaily, hrows⟩ := hrollup c hc
  exact ⟨_, c, daily, hpending, hc, hdaily, hrows⟩

end Runs

end Clickstream.Nightly
