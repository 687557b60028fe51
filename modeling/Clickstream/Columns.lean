import Clickstream.Kit.Windowed
import Clickstream.Streaming

/-! The aggregates as database tables: their columns and keys, rows as values under columns, and both
as grouped views of the events over one-minute windows. -/

namespace Clickstream.Streaming

open Python Kit

inductive Value where
  | null
  | timestamp (t : Int)
  | text (s : PyStr)
  | bigint (n : Nat)
  deriving DecidableEq

abbrev Row (γ : Type) := γ → Value

/-- The values under the key columns. -/
def keyOf {γ : Type} (keyColumns : List γ) (r : Row γ) : List Value := keyColumns.map r

inductive PageViewsColumn where
  | windowStart
  | page
  | device
  | views
  | users
  deriving DecidableEq

inductive CampaignStatsColumn where
  | windowStart
  | campaignId
  | events
  | views
  | clicks
  | conversions
  | users
  deriving DecidableEq

def pageViewsKeyColumns : List PageViewsColumn := [.windowStart, .page, .device]

def campaignStatsKeyColumns : List CampaignStatsColumn := [.windowStart, .campaignId]

def pageViewsColumns : List PageViewsColumn := [.windowStart, .page, .device, .views, .users]

def campaignStatsColumns : List CampaignStatsColumn :=
  [.windowStart, .campaignId, .events, .views, .clicks, .conversions, .users]

def PageViews.toRow (r : PageViews) : Row PageViewsColumn
  | .windowStart => .timestamp r.windowStart
  | .page => .text r.page
  | .device => .text r.device
  | .views => .bigint r.views
  | .users => .bigint r.users

def CampaignStats.toRow (r : CampaignStats) : Row CampaignStatsColumn
  | .windowStart => .timestamp r.windowStart
  | .campaignId => .text r.campaignId
  | .events => .bigint r.events
  | .views => .bigint r.views
  | .clicks => .bigint r.clicks
  | .conversions => .bigint r.conversions
  | .users => .bigint r.users

theorem mem_pageViewsColumns (c : PageViewsColumn) : c ∈ pageViewsColumns := by
  cases c <;> decide

theorem mem_campaignStatsColumns (c : CampaignStatsColumn) : c ∈ campaignStatsColumns := by
  cases c <;> decide

/-! ### Views -/

def watermarkDelay : Int := watermarkSeconds * second

theorem lt_windowStart_add (t : Int) : t < windowStart t + windowLength := by
  have hlt : t % windowLength < windowLength := Int.emod_lt_of_pos t (by decide)
  rw [windowStart]
  omega

variable (spark : Spark)

def pageViewsView : WindowedView ParsedEvent PageViewsKey (keyOf pageViewsKeyColumns) where
  key := pageViewsKey
  row k events := (pageViewsRow spark k events).toRow
  code k := [.timestamp k.1, .text k.2.1, .text k.2.2]
  code_injective := by
    rintro ⟨w, p, d⟩ ⟨w', p', d'⟩ h
    simpa using h
  primaryKey_row _ _ := rfl
  eventTime := ParsedEvent.ts
  windowEnd k := k.1 + windowLength
  delay := watermarkDelay
  lt_windowEnd := by
    intro e k hk
    obtain ⟨t, ht, rfl⟩ := Option.map_eq_some_iff.mp hk
    exact ⟨t, ht, lt_windowStart_add t⟩

def campaignStatsView : WindowedView ParsedEvent CampaignKey (keyOf campaignStatsKeyColumns) where
  key := campaignKey
  row k events := (campaignStatsRow spark k events).toRow
  code k := [.timestamp k.1, .text k.2]
  code_injective := by
    rintro ⟨w, c⟩ ⟨w', c'⟩ h
    simpa using h
  primaryKey_row _ _ := rfl
  eventTime := ParsedEvent.ts
  windowEnd k := k.1 + windowLength
  delay := watermarkDelay
  lt_windowEnd := by
    intro e k hk
    obtain ⟨t, ht, rfl⟩ := Option.map_eq_some_iff.mp hk
    exact ⟨t, ht, lt_windowStart_add t⟩

/-- The view of page views is the one-shot aggregation. -/
theorem pageViewsView_rows (events : List ParsedEvent) :
    (pageViewsView spark).rows events = (pageViews1m spark events).map PageViews.toRow := by
  rw [pageViews1m, aggregate, List.map_map]
  rfl

theorem campaignStatsView_rows (events : List ParsedEvent) :
    (campaignStatsView spark).rows events =
      (campaignStats1m spark events).map CampaignStats.toRow := by
  rw [campaignStats1m, aggregate, List.map_map]
  rfl

/-- The two lists have the same row of page views for a group, or both have none. -/
structure SameRow (spark : Spark) (l m : List ParsedEvent) (k : PageViewsKey) : Prop where
  present : group pageViewsKey l k = [] ↔ group pageViewsKey m k = []
  views : countType (lit "page_view") (group pageViewsKey l k) =
    countType (lit "page_view") (group pageViewsKey m k)
  users : users spark (group pageViewsKey l k) = users spark (group pageViewsKey m k)

variable {spark}

theorem pageViewsView_row_eq_iff {k : PageViewsKey} {l m : List ParsedEvent} :
    (pageViewsView spark).row k l = (pageViewsView spark).row k m ↔
      countType (lit "page_view") l = countType (lit "page_view") m ∧
        users spark l = users spark m := by
  constructor
  · intro h
    have hviews : Value.bigint _ = .bigint _ := congrFun h .views
    have husers : Value.bigint _ = .bigint _ := congrFun h .users
    exact ⟨Value.bigint.inj hviews, Value.bigint.inj husers⟩
  · rintro ⟨hviews, husers⟩
    funext c
    cases c with
    | windowStart | page | device => rfl
    | views => exact congrArg Value.bigint hviews
    | users => exact congrArg Value.bigint husers

theorem viewRow_eq_iff {l m : List ParsedEvent} {k : PageViewsKey} :
    (pageViewsView spark).viewRow l k = (pageViewsView spark).viewRow m k ↔
      SameRow spark l m k := by
  have hrow : ∀ l, (pageViewsView spark).viewRow l k = if group pageViewsKey l k = [] then none
      else some ((pageViewsView spark).row k (group pageViewsKey l k)) := fun _ => rfl
  rw [hrow, hrow]
  constructor
  · intro h
    by_cases hl : group pageViewsKey l k = []
    · have hm : group pageViewsKey m k = [] := by
        by_contra hm
        rw [if_pos hl, if_neg hm] at h
        cases h
      exact ⟨iff_of_true hl hm, by rw [hl, hm], by rw [hl, hm]⟩
    · have hm : group pageViewsKey m k ≠ [] := by
        intro hm
        rw [if_neg hl, if_pos hm] at h
        cases h
      rw [if_neg hl, if_neg hm, Option.some_inj, pageViewsView_row_eq_iff] at h
      exact ⟨iff_of_false hl hm, h.1, h.2⟩
  · intro h
    by_cases hl : group pageViewsKey l k = []
    · rw [if_pos hl, if_pos (h.present.mp hl)]
    · rw [if_neg hl, if_neg (mt h.present.mpr hl), Option.some_inj, pageViewsView_row_eq_iff]
      exact ⟨h.views, h.users⟩

end Clickstream.Streaming
