import Clickstream.Rollup

/-! The days of the rollup and of the dbt models.  All three cast an instant to a date, which is the date
that the session's clock shows then. -/

namespace Clickstream.Rollup

open Python Kit Streaming PostgresSink

/-! ### `daily_campaign_summary` -/

structure DailyCampaignSummary where
  day : Int
  campaignId : PyStr
  events : Nat
  views : Nat
  clicks : Nat
  conversions : Nat
  windowCount : Nat
  deriving DecidableEq

def stgCampaignStats1m (windows : List CampaignStats) : List CampaignStats :=
  windows.map fun w =>
    ⟨w.windowStart, w.campaignId, w.events, w.views, w.clicks, w.conversions, w.users⟩

def dailyCampaignSummaryKey (session : TimeZone) (w : CampaignStats) : Option (Int × PyStr) :=
  some (castDate session (atTimeZoneUtc w.windowStart), w.campaignId)

def dailyCampaignSummaryRow (k : Int × PyStr) (windows : List CampaignStats) :
    Option DailyCampaignSummary := do
  let events ← toBigint (windows.map CampaignStats.events).sum
  let views ← toBigint (windows.map CampaignStats.views).sum
  let clicks ← toBigint (windows.map CampaignStats.clicks).sum
  let conversions ← toBigint (windows.map CampaignStats.conversions).sum
  return ⟨k.1, k.2, events, views, clicks, conversions, windows.length⟩

/-- `daily_campaign_summary`; `none` when a cast fails. -/
def dailyCampaignSummary (session : TimeZone) (windows : List CampaignStats) :
    Option (List DailyCampaignSummary) :=
  (aggregate (dailyCampaignSummaryKey session) dailyCampaignSummaryRow
    (stgCampaignStats1m windows)).mapM id

/-- What `daily_page_summary` groups by. -/
def dailyPageSummaryKey (session : TimeZone) (w : PageViews) : Option DailyKey :=
  some (castDate session (atTimeZoneUtc w.windowStart), w.page, w.device)

theorem dailyPageSummary_eq (session : TimeZone) (windows : List PageViews) :
    dailyPageSummary session windows = (aggregate (dailyPageSummaryKey session) dailyPageSummaryRow
      (stgPageViews1m windows)).mapM id := rfl

/-! ### Rows and groups -/

theorem mem_of_mapM_id {α : Type} {rows : List (Option α)} {out : List α}
    (h : rows.mapM id = some out) {r : α} (hr : r ∈ out) : some r ∈ rows := by
  induction rows generalizing out with
  | nil =>
    cases h
    cases hr
  | cons first rows ih =>
    simp only [List.mapM_cons, Option.bind_eq_bind, Option.bind_eq_some_iff, Option.pure_def,
      Option.some_inj] at h
    obtain ⟨x, hx, out', hout, rfl⟩ := h
    rcases List.mem_cons.mp hr with rfl | hr
    · rw [← show first = some r from hx]
      exact List.mem_cons_self
    · exact List.mem_cons_of_mem _ (ih hout hr)

/-- A row of a model is made from a group. -/
theorem exists_group {α κ ρ : Type} [DecidableEq κ] {key : α → Option κ}
    {row : κ → List α → Option ρ} {windows : List α} {rows : List ρ}
    (h : (aggregate key row windows).mapM id = some rows) {r : ρ} (hr : r ∈ rows) :
    ∃ k ∈ groupKeys key windows, row k (group key windows k) = some r :=
  List.mem_map.mp (mem_of_mapM_id h hr)

theorem day_dailyPageSummaryRow {k : DailyKey} {windows : List PageViews} {r : DailyPageSummary}
    (h : dailyPageSummaryRow k windows = some r) : r.day = k.1 := by
  simp only [dailyPageSummaryRow, Option.bind_eq_bind, Option.bind_eq_some_iff, Option.pure_def,
    Option.some_inj] at h
  obtain ⟨views, -, rfl⟩ := h
  rfl

theorem day_dailyCampaignSummaryRow {k : Int × PyStr} {windows : List CampaignStats}
    {r : DailyCampaignSummary} (h : dailyCampaignSummaryRow k windows = some r) : r.day = k.1 := by
  simp only [dailyCampaignSummaryRow, Option.bind_eq_bind, Option.bind_eq_some_iff, Option.pure_def,
    Option.some_inj] at h
  obtain ⟨events, -, views, -, clicks, -, conversions, -, rfl⟩ := h
  rfl

/-- The day of a row is that of the group it is made from. -/
theorem exists_group_dailyCampaignSummary {session : TimeZone} {windows : List CampaignStats}
    {rows : List DailyCampaignSummary} (h : dailyCampaignSummary session windows = some rows)
    {r : DailyCampaignSummary} (hr : r ∈ rows) :
    ∃ k ∈ groupKeys (dailyCampaignSummaryKey session) (stgCampaignStats1m windows), r.day = k.1 := by
  obtain ⟨k, hk, hrow⟩ := exists_group h hr
  exact ⟨k, hk, day_dailyCampaignSummaryRow hrow⟩

theorem exists_group_dailyPageSummary {session : TimeZone} {windows : List PageViews}
    {rows : List DailyPageSummary} (h : dailyPageSummary session windows = some rows)
    {r : DailyPageSummary} (hr : r ∈ rows) :
    ∃ k ∈ groupKeys (dailyPageSummaryKey session) (stgPageViews1m windows), r.day = k.1 := by
  rw [dailyPageSummary_eq] at h
  obtain ⟨k, hk, hrow⟩ := exists_group h hr
  exact ⟨k, hk, day_dailyPageSummaryRow hrow⟩

/-! ### Days -/

/-- Every window of a group starts on the day in UTC that the group has. -/
def AssignsUtcDay {α κ : Type} [DecidableEq κ] (key : α → Option κ) (day : κ → Int)
    (windowStart : α → Int) (windows : List α) : Prop :=
  ∀ k ∈ groupKeys key windows, ∀ w ∈ group key windows k, day k = utcDay (windowStart w)

/-- The clock of the session does not show another day than one in UTC: the time of day and the offset
add up to a time of the same day. -/
def SameDay (session : TimeZone) (timestamp : Int) : Prop :=
  0 ≤ timestamp % dayLength + session timestamp ∧ timestamp % dayLength + session timestamp < dayLength

theorem castDate_eq_utcDay_iff (session : TimeZone) (timestamp : Int) :
    castDate session (atTimeZoneUtc timestamp) = utcDay timestamp ↔ SameDay session timestamp := by
  have hlength : dayLength = 86400000000 := rfl
  rw [castDate, atTimeZoneUtc, utcDay, SameDay, hlength]
  omega

theorem assignsUtcDay_iff {session : TimeZone} {α κ : Type} [DecidableEq κ] {key : α → Option κ}
    {day : κ → Int} {windowStart : α → Int}
    (hkey : ∀ w, ∃ k, key w = some k ∧ day k = castDate session (atTimeZoneUtc (windowStart w)))
    (windows : List α) :
    AssignsUtcDay key day windowStart windows ↔ ∀ w ∈ windows, SameDay session (windowStart w) := by
  constructor
  · intro h w hw
    obtain ⟨k, hk, hday⟩ := hkey w
    rw [← castDate_eq_utcDay_iff, ← hday]
    exact h k (mem_groupKeys.mpr ⟨w, hw, hk⟩) w (mem_group.mpr ⟨hw, hk⟩)
  · intro h k _ w hmem
    obtain ⟨hw, hk⟩ := mem_group.mp hmem
    obtain ⟨k', hk', hday⟩ := hkey w
    rw [hk] at hk'
    cases hk'
    rw [hday]
    exact (castDate_eq_utcDay_iff session _).mpr (h w hw)

/-- The rollup and the dbt models count every window on the day in UTC on which it starts exactly when the
session's offset carries none of them over midnight. -/
theorem assignsUtcDays_iff (session : TimeZone) (windows : List PageViews)
    (campaigns : List CampaignStats) :
    (AssignsUtcDay (dailyView session).key Prod.fst PageViews.windowStart windows ∧
      AssignsUtcDay (dailyPageSummaryKey session) Prod.fst PageViews.windowStart
        (stgPageViews1m windows) ∧
      AssignsUtcDay (dailyCampaignSummaryKey session) Prod.fst CampaignStats.windowStart
        (stgCampaignStats1m campaigns)) ↔
      (∀ w ∈ windows, SameDay session w.windowStart) ∧
        ∀ w ∈ campaigns, SameDay session w.windowStart := by
  have hpages : stgPageViews1m windows = windows := List.map_id _
  have hcampaigns : stgCampaignStats1m campaigns = campaigns := List.map_id _
  have hrollup := @assignsUtcDay_iff session _ _ _ (dailyView session).key Prod.fst
    PageViews.windowStart (fun w => ⟨_, rfl, rfl⟩) windows
  have hpage := @assignsUtcDay_iff session _ _ _ (dailyPageSummaryKey session) Prod.fst
    PageViews.windowStart (fun w => ⟨_, rfl, rfl⟩) windows
  have hcampaign := @assignsUtcDay_iff session _ _ _ (dailyCampaignSummaryKey session) Prod.fst
    CampaignStats.windowStart (fun w => ⟨_, rfl, rfl⟩) campaigns
  rw [hpages, hcampaigns, hrollup, hpage, hcampaign, ← and_assoc, and_self]

/-- A window at midnight in a session on New York's summer time is counted on the day before. -/
theorem not_assignsUtcDays : ¬∀ (session : TimeZone) (windows : List PageViews)
    (campaigns : List CampaignStats),
    AssignsUtcDay (dailyView session).key Prod.fst PageViews.windowStart windows ∧
      AssignsUtcDay (dailyPageSummaryKey session) Prod.fst PageViews.windowStart
        (stgPageViews1m windows) ∧
      AssignsUtcDay (dailyCampaignSummaryKey session) Prod.fst CampaignStats.windowStart
        (stgCampaignStats1m campaigns) := by
  intro h
  let newYork : TimeZone := fun _ => -4 * 60 * 60 * second
  let midnight : PageViews := ⟨20692 * dayLength, lit "/home", lit "mobile", 3, 2⟩
  have hassigns := (h newYork [midnight] []).1
  have hday := hassigns (dayKey newYork midnight)
    (mem_groupKeys.mpr ⟨midnight, List.mem_singleton_self _, rfl⟩) midnight
    (mem_group.mpr ⟨List.mem_singleton_self _, rfl⟩)
  exact absurd hday (by decide)

end Clickstream.Rollup
