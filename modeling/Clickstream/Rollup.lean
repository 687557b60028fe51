import Clickstream.PostgresSink

/-! The nightly rollup of the one-minute windows into `curated.daily_summary`, and the dbt model of the
same figures.  A transaction reads one state of the tables and is one step. -/

namespace Clickstream.Rollup

open Python Kit Streaming PostgresSink

/-- The offset from UTC at each instant, in microseconds. -/
abbrev TimeZone := Int → Int

def utc : TimeZone := fun _ => 0

def dayLength : Int := 24 * 60 * 60 * second

/-- `timestamp AT TIME ZONE 'UTC'`: the instant at which a clock in UTC shows the timestamp. -/
def atTimeZoneUtc (timestamp : Int) : Int := timestamp

/-- `timestamptz::date` in a session with the time zone. A date is the number of its day from the start
of 1970. -/
def castDate (session : TimeZone) (instant : Int) : Int := (instant + session instant) / dayLength

/-- `numeric` as a `BIGINT`. -/
def toBigint (n : Nat) : Option Nat := if n < 2 ^ 63 then some n else none

abbrev DailyKey := Int × PyStr × PyStr

structure DailySummary where
  day : Int
  page : PyStr
  device : PyStr
  views : Nat
  users : Nat
  deriving DecidableEq

def DailySummary.key (r : DailySummary) : DailyKey := (r.day, r.page, r.device)

/-- The values of a row of `curated.page_views_1m`. -/
def pageViewsOfRow (r : Row PageViewsColumn) : Option PageViews :=
  match r .windowStart, r .page, r .device, r .views, r .users with
  | .timestamp windowStart, .text page, .text device, .bigint views, .bigint users =>
    some ⟨windowStart, page, device, views, users⟩
  | _, _, _, _, _ => none

@[simp] theorem pageViewsOfRow_toRow (w : PageViews) : pageViewsOfRow w.toRow = some w := rfl

/-- The curated tables; `daily_summary` is `none` until it is created. -/
structure Curated where
  pageViews : Database pageViewsKeyColumns
  dailySummary : Option (Table DailySummary.key)

def Curated.empty : Curated := ⟨⟨.empty, []⟩, none⟩

def Curated.windows (s : Curated) : List PageViews := s.pageViews.table.rows.filterMap pageViewsOfRow

/-! ### `DAILY_ROLLUP_SQL` -/

section Rollup

variable (session : TimeZone)

def dayKey (w : PageViews) : DailyKey :=
  (castDate session (atTimeZoneUtc w.windowStart), w.page, w.device)

def dailyRow (k : DailyKey) (windows : List PageViews) : DailySummary where
  day := k.1
  page := k.2.1
  device := k.2.2
  views := (windows.map PageViews.views).sum
  users := (windows.map PageViews.users).sum

def dailyView : View PageViews DailyKey DailySummary.key where
  key w := some (dayKey session w)
  row := dailyRow
  code := id
  code_injective := Function.injective_id
  primaryKey_row _ _ := rfl

/-- The row with its sums as `BIGINT`. -/
def storeRow (r : DailySummary) : Option DailySummary := do
  let views ← toBigint r.views
  let users ← toBigint r.users
  return { r with views := views, users := users }

def dailyMerge : Merge DailySummary.key where
  merge old new := { old with views := new.views, users := new.users }
  key_merge := id

def createDailySummary (s : Curated) : Curated :=
  { s with dailySummary := some (s.dailySummary.getD .empty) }

def insertDailySummary (s : Curated) : Option Curated := do
  let table ← s.dailySummary
  let rows ← ((dailyView session).rows s.windows).mapM storeRow
  return { s with dailySummary := some (rows.foldl (Table.upsert dailyMerge) table) }

/-- `run_daily_rollup`: what it commits; `none` when it raises and nothing is committed. -/
def runDailyRollup (s : Curated) : Option Curated := insertDailySummary session (createDailySummary s)

end Rollup

theorem toBigint_eq_some {n m : Nat} : toBigint n = some m ↔ n < 2 ^ 63 ∧ m = n := by
  rw [toBigint]
  split
  · rename_i h
    rw [Option.some_inj, eq_comm, and_iff_right h]
  · rename_i h
    exact iff_of_false nofun fun hm => h hm.1

theorem storeRow_eq_some {r r' : DailySummary} :
    storeRow r = some r' ↔ (r.views < 2 ^ 63 ∧ r.users < 2 ^ 63) ∧ r' = r := by
  simp only [storeRow, Option.bind_eq_bind, Option.bind_eq_some_iff, toBigint_eq_some,
    Option.pure_def, Option.some_inj]
  constructor
  · rintro ⟨views, ⟨hviews, rfl⟩, users, ⟨husers, rfl⟩, rfl⟩
    exact ⟨⟨hviews, husers⟩, rfl⟩
  · rintro ⟨⟨hviews, husers⟩, rfl⟩
    exact ⟨_, ⟨hviews, rfl⟩, _, ⟨husers, rfl⟩, rfl⟩

theorem mapM_storeRow {rows stored : List DailySummary} :
    rows.mapM storeRow = some stored ↔
      (∀ r ∈ rows, r.views < 2 ^ 63 ∧ r.users < 2 ^ 63) ∧ stored = rows := by
  induction rows generalizing stored with
  | nil => simp [eq_comm]
  | cons r rows ih =>
    simp only [List.mapM_cons, Option.bind_eq_bind, Option.bind_eq_some_iff, storeRow_eq_some, ih,
      Option.pure_def, Option.some_inj, List.forall_mem_cons]
    constructor
    · rintro ⟨_, ⟨hr, rfl⟩, _, ⟨hrows, rfl⟩, rfl⟩
      exact ⟨⟨hr, hrows⟩, rfl⟩
    · rintro ⟨⟨hr, hrows⟩, rfl⟩
      exact ⟨_, ⟨hr, rfl⟩, _, ⟨hrows, rfl⟩, rfl⟩

theorem upsert_dailyMerge : Table.upsert dailyMerge = Table.put := by
  apply Table.upsert_eq_put
  rintro ⟨day, page, device, views, users⟩ ⟨day', page', device', views', users'⟩ h
  obtain ⟨rfl, rfl, rfl⟩ : day = day' ∧ page = page' ∧ device = device' := by
    simpa [DailySummary.key] using h
  rfl

/-- What a rollup that commits has done. -/
theorem runDailyRollup_eq_some {session : TimeZone} {s s' : Curated} :
    runDailyRollup session s = some s' ↔
      (∀ r ∈ (dailyView session).rows s.windows, r.views < 2 ^ 63 ∧ r.users < 2 ^ 63) ∧
        s' = ⟨s.pageViews, some (((dailyView session).rows s.windows).foldl Table.put
          (s.dailySummary.getD .empty))⟩ := by
  rw [runDailyRollup, insertDailySummary, createDailySummary]
  simp only [Option.bind_eq_bind, Option.bind_some, Option.bind_eq_some_iff, Option.pure_def,
    Option.some_inj, upsert_dailyMerge]
  constructor
  · rintro ⟨rows, hrows, rfl⟩
    obtain ⟨hfits, rfl⟩ := mapM_storeRow.mp hrows
    exact ⟨hfits, rfl⟩
  · rintro ⟨hfits, rfl⟩
    exact ⟨_, mapM_storeRow.mpr ⟨hfits, rfl⟩, rfl⟩

/-! ### dbt -/

structure DailyPageSummary where
  day : Int
  page : PyStr
  device : PyStr
  views : Nat
  windowCount : Nat
  deriving DecidableEq

def stgPageViews1m (windows : List PageViews) : List PageViews :=
  windows.map fun w => ⟨w.windowStart, w.page, w.device, w.views, w.users⟩

def dailyPageSummaryRow (k : DailyKey) (windows : List PageViews) : Option DailyPageSummary := do
  let views ← toBigint (windows.map PageViews.views).sum
  return ⟨k.1, k.2.1, k.2.2, views, windows.length⟩

/-- `daily_page_summary`; `none` when a cast fails. -/
def dailyPageSummary (session : TimeZone) (windows : List PageViews) : Option (List DailyPageSummary) :=
  (aggregate (fun w => some (castDate session (atTimeZoneUtc w.windowStart), w.page, w.device))
    dailyPageSummaryRow (stgPageViews1m windows)).mapM id

/-- The columns that both summaries have. -/
def DailySummary.figures (r : DailySummary) : Int × PyStr × PyStr × Nat :=
  (r.day, r.page, r.device, r.views)

def DailyPageSummary.figures (r : DailyPageSummary) : Int × PyStr × PyStr × Nat :=
  (r.day, r.page, r.device, r.views)

theorem mapM_eq_some_map {α β : Type} {f : α → Option β} {g : α → β} {l : List α}
    (h : ∀ x ∈ l, f x = some (g x)) : l.mapM f = some (l.map g) := by
  induction l with
  | nil => rfl
  | cons x l ih =>
    rw [List.forall_mem_cons] at h
    rw [List.mapM_cons, h.1, ih h.2]
    rfl

/-- Where every sum of views is a `BIGINT`, the dbt model has the figures of the view by day. -/
theorem exists_dailyPageSummary {session : TimeZone} {windows : List PageViews}
    (hfits : ∀ r ∈ (dailyView session).rows windows, r.views < 2 ^ 63) :
    ∃ mart, dailyPageSummary session windows = some mart ∧
      mart.map DailyPageSummary.figures =
        ((dailyView session).rows windows).map DailySummary.figures := by
  have hstg : stgPageViews1m windows = windows := List.map_id _
  have hrow : ∀ k ∈ groupKeys (dailyView session).key windows,
      dailyPageSummaryRow k (group (dailyView session).key windows k) =
        some ⟨k.1, k.2.1, k.2.2, ((group (dailyView session).key windows k).map PageViews.views).sum,
          (group (dailyView session).key windows k).length⟩ := by
    intro k hk
    have hviews : toBigint ((group (dailyView session).key windows k).map PageViews.views).sum =
        some _ := toBigint_eq_some.mpr ⟨hfits _ (List.mem_map_of_mem hk), rfl⟩
    rw [dailyPageSummaryRow, hviews]
    rfl
  refine ⟨(groupKeys (dailyView session).key windows).map fun k => ⟨k.1, k.2.1, k.2.2,
    ((group (dailyView session).key windows k).map PageViews.views).sum,
    (group (dailyView session).key windows k).length⟩, ?_, ?_⟩
  · rw [dailyPageSummary, hstg, aggregate, List.mapM_map]
    exact mapM_eq_some_map hrow
  · rw [View.rows, aggregate, List.map_map, List.map_map]
    rfl

/-! ### Runs -/

/-- A transaction on the curated tables: a micro-batch that is committed, a rollup that is, or either
of them rolled back. -/
inductive Step (session : TimeZone) : Curated → Curated → Prop
  | upsert {s : Curated} {batch : List PageViews} {sts : List (Statement pageViewsKeyColumns)}
      {c : Session pageViewsKeyColumns} (hsts : upsertPageViews (batch.map PageViews.toRow) = .ok sts)
      (hrun : runScript sts (.connect s.pageViews) = some c) :
      Step session s { s with pageViews := c.committed }
  | rollup {s s' : Curated} (h : runDailyRollup session s = some s') : Step session s s'
  | rolledBack (s : Curated) : Step session s s

def Reachable (session : TimeZone) : Curated → Prop :=
  Relation.ReflTransGen (Step session) .empty

section Runs

variable {session : TimeZone} {s s' : Curated}

/-- The rows of `page_views_1m` are windows, and no row of `daily_summary` is without one. -/
structure Invariant (session : TimeZone) (s : Curated) : Prop where
  typed : ∀ r ∈ s.pageViews.table.rows, ∃ w : PageViews, w.toRow = r
  covered : ∀ daily, s.dailySummary = some daily → ∀ r ∈ daily.rows,
    ∃ w ∈ s.windows, dayKey session w = r.key

theorem mem_windows_of_toRow {w : PageViews} (h : w.toRow ∈ s.pageViews.table.rows) :
    w ∈ s.windows := List.mem_filterMap.mpr ⟨_, h, rfl⟩

theorem Invariant.toRow_windows (h : Invariant session s) :
    s.windows.map PageViews.toRow = s.pageViews.table.rows := by
  rw [Curated.windows, List.map_filterMap]
  conv_rhs => rw [← List.filterMap_some (l := s.pageViews.table.rows)]
  apply List.filterMap_congr
  intro r hr
  obtain ⟨w, rfl⟩ := h.typed r hr
  rfl

theorem mem_pageViews_of_mem_windows (h : Invariant session s) {w : PageViews} (hw : w ∈ s.windows) :
    w.toRow ∈ s.pageViews.table.rows := by
  rw [← h.toRow_windows]
  exact List.mem_map_of_mem hw

theorem dayKey_of_keyOf {w w' : PageViews}
    (h : keyOf pageViewsKeyColumns w.toRow = keyOf pageViewsKeyColumns w'.toRow) :
    dayKey session w = dayKey session w' := by
  obtain ⟨hwindow, hpage, hdevice⟩ : w.windowStart = w'.windowStart ∧ w.page = w'.page ∧
      w.device = w'.device := by
    simpa [keyOf, pageViewsKeyColumns, PageViews.toRow] using h
  rw [dayKey, dayKey, hwindow, hpage, hdevice]

theorem invariant_empty : Invariant session .empty where
  typed _ hr := by cases hr
  covered _ hdaily := by cases hdaily

/-- A micro-batch removes no key of `page_views_1m`. -/
theorem Invariant.overwrite (h : Invariant session s) (batch : List PageViews) :
    Invariant session
      { s with pageViews := s.pageViews.overwrite (batch.map PageViews.toRow) } where
  typed r hr := by
    rcases Table.mem_or_mem_of_mem_foldl_put hr with hnew | hold
    · obtain ⟨w, -, rfl⟩ := List.mem_map.mp hnew
      exact ⟨w, rfl⟩
    · exact h.typed r hold
  covered daily hdaily r hr := by
    obtain ⟨w, hw, hkey⟩ := h.covered daily hdaily r hr
    obtain ⟨row, hrow, hrowkey⟩ := Table.exists_mem_foldl_put (batch.map PageViews.toRow)
      (mem_pageViews_of_mem_windows h hw)
    obtain ⟨w', rfl⟩ : ∃ w' : PageViews, w'.toRow = row := by
      rcases Table.mem_or_mem_of_mem_foldl_put hrow with hnew | hold
      · obtain ⟨w', -, rfl⟩ := List.mem_map.mp hnew
        exact ⟨w', rfl⟩
      · exact h.typed row hold
    exact ⟨w', mem_windows_of_toRow hrow, (dayKey_of_keyOf hrowkey).trans hkey⟩

/-- After a rollup `daily_summary` holds the view of the windows by day. -/
theorem Invariant.holds (h : Invariant session s) (hrollup : runDailyRollup session s = some s') :
    ∃ daily, s' = ⟨s.pageViews, some daily⟩ ∧ (dailyView session).Holds daily s.windows := by
  obtain ⟨-, rfl⟩ := runDailyRollup_eq_some.mp hrollup
  refine ⟨_, rfl, View.holds_foldl_put_rows ?_⟩
  intro r hr
  cases hdaily : s.dailySummary with
  | none => rw [hdaily] at hr; cases hr
  | some daily =>
    rw [hdaily, Option.getD_some] at hr
    obtain ⟨w, hw, hkey⟩ := h.covered daily hdaily r hr
    exact ⟨_, mem_groupKeys.mpr ⟨w, hw, rfl⟩, hkey⟩

theorem Invariant.rollup (h : Invariant session s) (hrollup : runDailyRollup session s = some s') :
    Invariant session s' := by
  obtain ⟨daily, rfl, hholds⟩ := h.holds hrollup
  refine ⟨h.typed, ?_⟩
  intro daily' hdaily' r hr
  cases hdaily'
  obtain ⟨k, hk, rfl⟩ := List.mem_map.mp (hholds.perm_rows.mem_iff.mp hr)
  obtain ⟨w, hw, hkey⟩ := mem_groupKeys.mp hk
  exact ⟨w, hw, Option.some.inj hkey⟩

theorem Step.invariant (hstep : Step session s s') (h : Invariant session s) :
    Invariant session s' := by
  cases hstep with
  | upsert hsts hrun =>
    have hresult := (runScript_upsertBatch_eq mem_pageViewsColumns (List.cons_ne_nil _ _) hsts
      s.pageViews).symm.trans hrun
    split at hresult
    · cases hresult
      exact h.overwrite _
    · cases hresult
  | rollup hrollup => exact h.rollup hrollup
  | rolledBack => exact h

theorem Reachable.invariant (h : Reachable session s) : Invariant session s := by
  induction h with
  | refl => exact invariant_empty
  | tail _ hstep ih => exact hstep.invariant ih

end Runs

/-! ### Convergence -/

def utcDay (timestamp : Int) : Int := timestamp / dayLength

def utcDayKey (w : PageViews) : DailyKey := (utcDay w.windowStart, w.page, w.device)

/-- One row for each day in UTC, page and device of the windows, with the sum of their views. -/
structure Summarises (windows : List PageViews) (daily : List DailySummary) : Prop where
  distinct : (daily.map DailySummary.key).Nodup
  keys : ∀ k, k ∈ daily.map DailySummary.key ↔ k ∈ windows.map utcDayKey
  views : ∀ r ∈ daily,
    r.views = ((windows.filter fun w => decide (utcDayKey w = r.key)).map PageViews.views).sum

theorem dayKey_utc (w : PageViews) : dayKey utc w = utcDayKey w := by
  rw [dayKey, castDate, utc, atTimeZoneUtc, Int.add_zero]
  rfl

theorem group_utc (windows : List PageViews) (k : DailyKey) :
    group (dailyView utc).key windows k = windows.filter fun w => decide (utcDayKey w = k) := by
  apply List.filter_congr
  intro w _
  rw [← dayKey_utc, decide_eq_decide]
  exact Option.some_inj

theorem summarises_of_holds {windows : List PageViews} {daily : Table DailySummary.key}
    (h : (dailyView utc).Holds daily windows) : Summarises windows daily.rows where
  distinct := daily.distinct
  keys k := by
    have hkeys : ((dailyView utc).rows windows).map DailySummary.key =
        groupKeys (dailyView utc).key windows := by
      rw [View.rows, aggregate, List.map_map]
      exact List.map_id _
    rw [(h.perm_rows.map _).mem_iff, hkeys, mem_groupKeys, List.mem_map]
    simp only [dailyView, Option.some_inj, dayKey_utc]
  views r hr := by
    obtain ⟨k, -, rfl⟩ := List.mem_map.mp (h.perm_rows.mem_iff.mp hr)
    exact congrArg (fun l => (l.map PageViews.views).sum) (group_utc windows k)

/-- Right after a rollup, `daily_summary` summarises the windows by day in UTC and has the figures of
the dbt model, and another rollup leaves the tables as they are. -/
theorem rollup_converges {s s' : Curated} (h : Reachable utc s)
    (hrollup : runDailyRollup utc s = some s') :
    s'.windows.map PageViews.toRow = s'.pageViews.table.rows ∧
      (∃ daily, s'.dailySummary = some daily ∧ Summarises s'.windows daily.rows ∧
        ∃ mart, dailyPageSummary utc s'.windows = some mart ∧
          (daily.rows.map DailySummary.figures).Perm (mart.map DailyPageSummary.figures)) ∧
      runDailyRollup utc s' = some s' := by
  have hfits := (runDailyRollup_eq_some.mp hrollup).1
  obtain ⟨daily, rfl, hholds⟩ := h.invariant.holds hrollup
  refine ⟨h.invariant.toRow_windows, ⟨daily, rfl, summarises_of_holds hholds, ?_⟩, ?_⟩
  · obtain ⟨mart, hmart, hfigures⟩ := exists_dailyPageSummary fun r hr => (hfits r hr).1
    exact ⟨mart, hmart, hfigures ▸ hholds.perm_rows.map _⟩
  · refine runDailyRollup_eq_some.mpr ⟨hfits, ?_⟩
    have hsame : ((dailyView utc).rows s.windows).foldl Table.put daily = daily :=
      Table.foldl_put_of_subset fun r hr => hholds.perm_rows.mem_iff.mpr hr
    exact congrArg (fun t => (⟨s.pageViews, some t⟩ : Curated)) hsame.symm

/-! A micro-batch of two windows of one day and one of the next. -/

def sampleBatch : List PageViews :=
  [⟨0, lit "/home", lit "mobile", 3, 2⟩, ⟨60 * second, lit "/home", lit "mobile", 4, 1⟩,
    ⟨dayLength, lit "/home", lit "mobile", 5, 1⟩]

def sampleState : Curated :=
  { Curated.empty with
    pageViews := Curated.empty.pageViews.overwrite (sampleBatch.map PageViews.toRow) }

theorem reachable_sampleState : Reachable utc sampleState := by
  have hnodup : ((sampleBatch.map PageViews.toRow).map (keyOf pageViewsKeyColumns)).Nodup := by decide
  obtain ⟨sts, hsts, hrun⟩ := runScript_upsertBatch mem_pageViewsColumns (List.cons_ne_nil _ _)
    hnodup Curated.empty.pageViews
  exact .single (.upsert hsts hrun)

theorem rollup_converges_sample : ∃ s', runDailyRollup utc sampleState = some s' ∧
    (∃ daily, s'.dailySummary = some daily ∧ Summarises s'.windows daily.rows) ∧
    runDailyRollup utc s' = some s' := by
  obtain ⟨s', hs'⟩ : ∃ s', runDailyRollup utc sampleState = some s' :=
    ⟨_, runDailyRollup_eq_some.mpr ⟨by decide +kernel, rfl⟩⟩
  obtain ⟨-, ⟨daily, hdaily, hsummarises, -⟩, hagain⟩ := rollup_converges reachable_sampleState hs'
  exact ⟨s', hs', ⟨daily, hdaily, hsummarises⟩, hagain⟩

end Clickstream.Rollup
