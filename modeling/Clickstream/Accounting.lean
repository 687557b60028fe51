import Clickstream.Conservation

/-! The two aggregations as accounts of the same events.  A window starts at a multiple of its length,
before or after 1970, and within a window the rows of both aggregates add up to its events. -/

namespace Clickstream.Streaming

open Python Kit Parsing

/-- A row of `parse_events`: the message was accepted. -/
def Accepted (py : Interpreter) (spark : Spark) (e : ParsedEvent) : Prop :=
  ∃ text fields, parseEvent py text = .ok fields ∧ e = select spark fields

/-- A row of `parse_events` whose `ts` is not null. -/
structure Parsed (py : Interpreter) (spark : Spark) (e : ParsedEvent) : Prop where
  accepted : Accepted py spark e
  ts : e.ts ≠ none

/-- The events between `w` and `w + windowLength`. -/
def windowEvents (events : List ParsedEvent) (w : Int) : List ParsedEvent :=
  events.filter fun e => e.ts.any fun t => decide (w ≤ t ∧ t < w + windowLength)

def pageViewsOf (spark : Spark) (events : List ParsedEvent) (w : Int) : List PageViews :=
  (pageViews1m spark events).filter fun r => decide (r.windowStart = w)

def campaignStatsOf (spark : Spark) (events : List ParsedEvent) (w : Int) : List CampaignStats :=
  (campaignStats1m spark events).filter fun r => decide (r.windowStart = w)

/-- The aggregates account for the events: each event has one window and is counted in one row of each,
the rows of a window add up to its events, and neither depends on the order of the events. -/
structure Accounts (spark : Spark) (events : List ParsedEvent) : Prop where
  window : ∀ e ∈ events, ∃ t, e.ts = some t ∧
    ∀ w, windowLength ∣ w ∧ w ≤ t ∧ t < w + windowLength ↔ w = windowStart t
  counted : ∀ e ∈ events, CountedOnce spark events e
  pageViews : ∀ w, windowLength ∣ w → ((pageViewsOf spark events w).map PageViews.views).sum =
    countType (lit "page_view") (windowEvents events w)
  campaignViews : ∀ w, windowLength ∣ w →
    ((campaignStatsOf spark events w).map CampaignStats.views).sum =
      countType (lit "page_view") (windowEvents events w)
  campaignEvents : ∀ w, windowLength ∣ w →
    ((campaignStatsOf spark events w).map CampaignStats.events).sum = (windowEvents events w).length
  addToCart : ∀ r ∈ campaignStats1m spark events,
    (r.events : Int) - r.views - r.clicks - r.conversions =
      countType (lit "add_to_cart") (group campaignKey events r.key)
  pageViewsKeys : ((pageViews1m spark events).map PageViews.key).Nodup
  campaignKeys : ((campaignStats1m spark events).map CampaignStats.key).Nodup
  order : ∀ events', events'.Perm events →
    (pageViews1m spark events').Perm (pageViews1m spark events) ∧
      (campaignStats1m spark events').Perm (campaignStats1m spark events)

/-- A moment lies in one window, also before 1970, where the remainder is not negative either. -/
theorem mem_window_iff (t w : Int) :
    windowLength ∣ w ∧ w ≤ t ∧ t < w + windowLength ↔ w = windowStart t := by
  unfold windowStart windowLength windowMinutes second
  omega

theorem countType_eq_countP (name : PyStr) (events : List ParsedEvent) :
    countType name events = events.countP fun e => decide (e.eventType = name) := by
  induction events with
  | nil => rfl
  | cons e events ih =>
    rw [countType, List.map_cons, List.sum_cons, ← countType, ih, List.countP_cons]
    by_cases h : e.eventType = name
    · simp [h, Nat.add_comm]
    · simp [h]

/-- The four types are all there are. -/
theorem length_eq_countTypes {events : List ParsedEvent}
    (h : ∀ e ∈ events, e.eventType ∈ Schema.eventTypes) :
    events.length = countType (lit "page_view") events + countType (lit "click") events +
      countType (lit "purchase") events + countType (lit "add_to_cart") events := by
  induction events with
  | nil => rfl
  | cons e events ih =>
    have hlength := ih fun e' he' => h e' (List.mem_cons_of_mem _ he')
    have htype := h e List.mem_cons_self
    simp only [Schema.eventTypes, List.mem_cons, List.not_mem_nil, or_false] at htype
    have hcons : ∀ name, countType name (e :: events) =
        (if e.eventType = name then 1 else 0) + countType name events := fun _ => rfl
    rw [List.length_cons, hlength, hcons, hcons, hcons, hcons]
    rcases htype with htype | htype | htype | htype <;> rw [htype]
    · rw [if_pos rfl, if_neg (by decide), if_neg (by decide), if_neg (by decide)]
      omega
    · rw [if_neg (by decide), if_pos rfl, if_neg (by decide), if_neg (by decide)]
      omega
    · rw [if_neg (by decide), if_neg (by decide), if_neg (by decide), if_pos rfl]
      omega
    · rw [if_neg (by decide), if_neg (by decide), if_pos rfl, if_neg (by decide)]
      omega

section Windows

variable {spark : Spark} {events : List ParsedEvent} {w : Int}

/-- The events that a test selects in the groups of a window are those of the window. -/
theorem countP_window {κ : Type} {key : ParsedEvent → Option κ} {start : κ → Int}
    (hkey : ∀ e, (key e).map start = e.ts.map windowStart) (hw : windowLength ∣ w)
    (q : ParsedEvent → Bool) :
    (events.countP fun e => q e && (key e).any fun k => decide (start k = w)) =
      (windowEvents events w).countP q := by
  rw [windowEvents, List.countP_filter]
  apply List.countP_congr
  intro e _
  have hstart : ((key e).any fun k => decide (start k = w)) =
      e.ts.any fun t => decide (windowStart t = w) := by
    have hmap := congrArg (Option.any fun w' => decide (w' = w)) (hkey e)
    rwa [Option.any_map, Option.any_map] at hmap
  rw [hstart]
  cases e.ts with
  | none => simp
  | some t =>
    have hwindow : windowStart t = w ↔ w ≤ t ∧ t < w + windowLength :=
      ⟨fun h => ((mem_window_iff t w).mpr h.symm).2, fun h => ((mem_window_iff t w).mp ⟨hw, h⟩).symm⟩
    rw [Option.any_some, Option.any_some, decide_eq_decide.mpr hwindow]

theorem pageViewsKey_start (e : ParsedEvent) :
    (pageViewsKey e).map Prod.fst = e.ts.map windowStart := by
  rw [pageViewsKey, Option.map_map]
  rfl

theorem campaignKey_start (e : ParsedEvent) :
    (campaignKey e).map Prod.fst = e.ts.map windowStart := by
  rw [campaignKey, Option.map_map]
  rfl

theorem sum_pageViewsOf (hw : windowLength ∣ w) :
    ((pageViewsOf spark events w).map PageViews.views).sum =
      countType (lit "page_view") (windowEvents events w) := by
  rw [countType_eq_countP, ← countP_window pageViewsKey_start hw]
  refine sum_countP_aggregate (fun k l => ?_) (fun k l => ?_) events
  · exact countType_eq_countP _ l
  · rfl

theorem sum_campaignStatsOf {column : CampaignStats → Nat} {q : ParsedEvent → Bool}
    (hcolumn : ∀ k l, column (campaignStatsRow spark k l) = l.countP q) (hw : windowLength ∣ w) :
    ((campaignStatsOf spark events w).map column).sum = (windowEvents events w).countP q := by
  rw [← countP_window campaignKey_start hw]
  exact sum_countP_aggregate hcolumn (fun _ _ => rfl) events

theorem addToCart_campaignStats1m (h : ∀ e ∈ events, e.eventType ∈ Schema.eventTypes)
    {r : CampaignStats} (hr : r ∈ campaignStats1m spark events) :
    (r.events : Int) - r.views - r.clicks - r.conversions =
      countType (lit "add_to_cart") (group campaignKey events r.key) := by
  obtain ⟨k, -, rfl⟩ := mem_aggregate.mp hr
  have htypes : ∀ e ∈ group campaignKey events k, e.eventType ∈ Schema.eventTypes :=
    fun e he => h e (mem_group.mp he).1
  have hlength := length_eq_countTypes htypes
  rw [campaignStatsRow_key]
  simp only [campaignStatsRow]
  omega

end Windows

/-- Accepted events are accounted for in both aggregates. -/
theorem accounts_of_parsed (py : Interpreter) (spark : Spark) (events : List ParsedEvent)
    (h : ∀ e ∈ events, Parsed py spark e) : Accounts spark events where
  window e he := by
    obtain ⟨t, ht⟩ := Option.ne_none_iff_exists'.mp (h e he).ts
    exact ⟨t, ht, mem_window_iff t⟩
  counted e he := countedOnce he (h e he).ts
  pageViews _ hw := sum_pageViewsOf hw
  campaignViews _ hw := by
    rw [countType_eq_countP]
    exact sum_campaignStatsOf (fun _ l => countType_eq_countP _ l) hw
  campaignEvents _ hw := by
    rw [← List.countP_true]
    refine sum_campaignStatsOf (fun _ l => ?_) hw
    rw [List.countP_true]
    rfl
  addToCart r hr := by
    refine addToCart_campaignStats1m (fun e he => ?_) hr
    obtain ⟨text, fields, hparse, rfl⟩ := (h e he).accepted
    exact (parseEvent_valid hparse).eventType
  pageViewsKeys := by
    rw [map_key_pageViews1m]
    exact nodup_groupKeys _
  campaignKeys := by
    rw [map_key_campaignStats1m]
    exact nodup_groupKeys _
  order _ hperm := ⟨aggregate_perm hperm fun _ _ _ => pageViewsRow_perm,
    aggregate_perm hperm fun _ _ _ => campaignStatsRow_perm⟩

theorem parsed_sample {ts : PyStr} (h : (strptime ts Schema.tsFormat).isSome = true)
    (hscalar : Scalar ts) (hpadded : (paddedSpark.toTimestamp ts tsPattern).isSome = true) :
    Parsed cpython paddedSpark (select paddedSpark (Schema.sample ts)) where
  accepted := ⟨_, _, WireFormat.parseEvent_toJson cpython ⟨Schema.sample ts, Schema.valid_sample h⟩
    (Schema.scalarFields_sample hscalar), rfl⟩
  ts := Option.isSome_iff_ne_none.mp hpadded

/-- Two page views of the sample message, one of them before 1970. -/
theorem accounts_of_parsed_two : Accounts paddedSpark
    [select paddedSpark (Schema.sample (lit "2026-08-27T15:00:00Z")),
      select paddedSpark (Schema.sample (lit "1969-12-31T23:59:30Z"))] := by
  refine accounts_of_parsed cpython paddedSpark _ (List.forall_mem_cons.mpr ⟨?_,
    List.forall_mem_cons.mpr ⟨?_, fun _ h => by cases h⟩⟩)
  · exact parsed_sample (by decide +kernel) (scalar_lit _) (by decide +kernel)
  · exact parsed_sample (by decide +kernel) (scalar_lit _) (by decide +kernel)

end Clickstream.Streaming
