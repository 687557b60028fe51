import Clickstream.Kit.Grouping
import Clickstream.Parsing
import Mathlib.Data.Finset.Dedup

/-! The Spark job on a whole topic: raw messages become events or failures, and the events are
aggregated over one-minute windows.  A query that meets an exception of the parser fails. -/

namespace Clickstream.Streaming

open Python Kit Parsing

/-- The functions of Spark that the job calls. Timestamps are in microseconds from the start of
1970 in UTC. -/
structure Spark where
  toTimestamp : PyStr → PyStr → Option Int
  approxCountDistinct : Finset PyStr → Nat

/-- A row of `parse_events`. -/
structure ParsedEvent where
  eventId : PyStr
  userId : PyStr
  sessionId : PyStr
  eventType : PyStr
  page : PyStr
  device : PyStr
  region : PyStr
  campaignId : PyStr
  referrer : PyStr
  ts : Option Int
  deriving DecidableEq

def second : Int := 1000000

def windowMinutes : Int := 1

def watermarkSeconds : Int := 120

def tsPattern : PyStr := lit "yyyy-MM-dd'T'HH:mm:ss'Z'"

/-- The columns that `parse_events` selects from an event. -/
def select (spark : Spark) (e : Event) : ParsedEvent where
  eventId := e.eventId
  userId := e.userId
  sessionId := e.sessionId
  eventType := e.eventType
  page := e.page
  device := e.device
  region := e.region
  campaignId := e.campaignId
  referrer := e.referrer
  ts := spark.toTimestamp e.ts tsPattern

def parseEvents (py : Interpreter) (spark : Spark) (raw : List (Option PyStr)) :
    Except Exc (List ParsedEvent) := do
  let parsed ← raw.mapM (parseMessage py)
  return parsed.filterMap fun result => result.event.map (select spark)

def parseFailures (py : Interpreter) (raw : List (Option PyStr)) :
    Except Exc (List (Option PyStr)) := do
  let parsed ← raw.mapM (parseMessage py)
  return ((parsed.zip raw).filter fun p => p.1.error.isSome).map Prod.snd

/-! ### Aggregations -/

def windowLength : Int := windowMinutes * 60 * second

/-- `window.start` of `F.window`. -/
def windowStart (t : Int) : Int := t - t % windowLength

/-- `F.sum(F.when(event_type == name, 1).otherwise(0))`. -/
def countType (name : PyStr) (events : List ParsedEvent) : Nat :=
  (events.map fun e => if e.eventType = name then 1 else 0).sum

theorem countType_append (name : PyStr) (l m : List ParsedEvent) :
    countType name (l ++ m) = countType name l + countType name m := by
  rw [countType, List.map_append, List.sum_append_nat]
  rfl

theorem countType_perm {name : PyStr} {l m : List ParsedEvent} (h : l.Perm m) :
    countType name l = countType name m := (h.map _).sum_nat

def users (spark : Spark) (events : List ParsedEvent) : Nat :=
  spark.approxCountDistinct (events.map ParsedEvent.userId).toFinset

theorem users_congr {spark : Spark} {l m : List ParsedEvent} (h : ∀ e, e ∈ l ↔ e ∈ m) :
    users spark l = users spark m := by
  rw [users, users]
  congr 1
  ext user
  simp only [List.mem_toFinset, List.mem_map, h]

structure PageViews where
  windowStart : Int
  page : PyStr
  device : PyStr
  views : Nat
  users : Nat
  deriving DecidableEq

structure CampaignStats where
  windowStart : Int
  campaignId : PyStr
  events : Nat
  views : Nat
  clicks : Nat
  conversions : Nat
  users : Nat
  deriving DecidableEq

abbrev PageViewsKey := Int × PyStr × PyStr

abbrev CampaignKey := Int × PyStr

def PageViews.key (r : PageViews) : PageViewsKey := (r.windowStart, r.page, r.device)

def CampaignStats.key (r : CampaignStats) : CampaignKey := (r.windowStart, r.campaignId)

/-- The group of an event in `page_views_1m`; the window of a null `ts` is none. -/
def pageViewsKey (e : ParsedEvent) : Option PageViewsKey :=
  e.ts.map fun t => (windowStart t, e.page, e.device)

def campaignKey (e : ParsedEvent) : Option CampaignKey :=
  e.ts.map fun t => (windowStart t, e.campaignId)

section Rows

variable (spark : Spark)

def pageViewsRow (k : PageViewsKey) (events : List ParsedEvent) : PageViews where
  windowStart := k.1
  page := k.2.1
  device := k.2.2
  views := countType (lit "page_view") events
  users := users spark events

def campaignStatsRow (k : CampaignKey) (events : List ParsedEvent) : CampaignStats where
  windowStart := k.1
  campaignId := k.2
  events := events.length
  views := countType (lit "page_view") events
  clicks := countType (lit "click") events
  conversions := countType (lit "purchase") events
  users := users spark events

variable {spark} in
theorem pageViewsRow_perm {k : PageViewsKey} {l m : List ParsedEvent} (h : l.Perm m) :
    pageViewsRow spark k l = pageViewsRow spark k m := by
  rw [pageViewsRow, pageViewsRow, countType_perm h, users_congr fun _ => h.mem_iff]

variable {spark} in
theorem campaignStatsRow_perm {k : CampaignKey} {l m : List ParsedEvent} (h : l.Perm m) :
    campaignStatsRow spark k l = campaignStatsRow spark k m := by
  simp only [campaignStatsRow, h.length_eq, countType_perm h, users_congr fun _ => h.mem_iff]

def pageViews1m (events : List ParsedEvent) : List PageViews :=
  aggregate pageViewsKey (pageViewsRow spark) events

def campaignStats1m (events : List ParsedEvent) : List CampaignStats :=
  aggregate campaignKey (campaignStatsRow spark) events

@[simp] theorem campaignStatsRow_key (k : CampaignKey) (events : List ParsedEvent) :
    (campaignStatsRow spark k events).key = k := rfl

theorem map_key_pageViews1m (events : List ParsedEvent) :
    (pageViews1m spark events).map PageViews.key = groupKeys pageViewsKey events := by
  rw [pageViews1m, aggregate, List.map_map]
  exact List.map_id _

theorem map_key_campaignStats1m (events : List ParsedEvent) :
    (campaignStats1m spark events).map CampaignStats.key = groupKeys campaignKey events := by
  rw [campaignStats1m, aggregate, List.map_map]
  exact List.map_id _

theorem campaignStats1m_events {events : List ParsedEvent} {r : CampaignStats}
    (hr : r ∈ campaignStats1m spark events) :
    r.events = events.countP fun e => decide (campaignKey e = some r.key) := by
  obtain ⟨k, -, rfl⟩ := mem_aggregate.mp hr
  rw [campaignStatsRow_key, List.countP_eq_length_filter]
  rfl

/-- The rows of `campaign_stats_1m` count every event of a window once. -/
theorem sum_events_campaignStats1m (events : List ParsedEvent) :
    ((campaignStats1m spark events).map CampaignStats.events).sum =
      (events.filterMap campaignKey).length := by
  rw [← sum_length_group, campaignStats1m, aggregate, List.map_map]
  rfl

end Rows

theorem isSome_campaignKey (e : ParsedEvent) : (campaignKey e).isSome = e.ts.isSome := by
  rw [campaignKey, Option.isSome_map]

/-! ### What the parser makes of a topic -/

section Topic

variable {py : Interpreter} {spark : Spark} {raw : List (Option PyStr)}

/-- What `parse_message` returns, with nothing set when it raises. -/
def outcome (py : Interpreter) (m : Option PyStr) : ParsedMessage :=
  match parseMessage py m with
  | .ok result => result
  | .error _ => ⟨none, none⟩

/-- The row of a message that becomes an event. -/
def eventRow (py : Interpreter) (spark : Spark) (m : Option PyStr) : Option ParsedEvent :=
  (outcome py m).event.map (select spark)

def failed (py : Interpreter) (m : Option PyStr) : Bool := (outcome py m).error.isSome

theorem mapM_parseMessage {parsed : List ParsedMessage} :
    raw.mapM (parseMessage py) = .ok parsed ↔
      (∀ m ∈ raw, parseMessage py m = .ok (outcome py m)) ∧ parsed = raw.map (outcome py) := by
  induction raw generalizing parsed with
  | nil =>
    rw [List.mapM_nil, List.map_nil]
    exact ⟨fun h => ⟨nofun, (Except.ok.inj h).symm⟩, fun h => h.2 ▸ rfl⟩
  | cons m raw ih =>
    rw [List.mapM_cons, List.forall_mem_cons, List.map_cons, outcome]
    cases hm : parseMessage py m with
    | error exc => exact iff_of_false nofun fun h => nomatch h.1.1
    | ok r =>
      cases hraw : raw.mapM (parseMessage py) with
      | error exc =>
        apply iff_of_false nofun
        intro h
        rw [ih.mpr ⟨h.1.2, rfl⟩] at hraw
        cases hraw
      | ok rs =>
        obtain ⟨hrest, rfl⟩ := ih.mp hraw
        simp only [bind, Except.bind, pure, Except.pure, Except.ok.injEq]
        exact ⟨fun h => ⟨⟨trivial, hrest⟩, h.symm⟩, fun h => h.2.symm⟩

theorem parseEvents_ok {events : List ParsedEvent} :
    parseEvents py spark raw = .ok events ↔
      (∀ m ∈ raw, parseMessage py m = .ok (outcome py m)) ∧
        events = raw.filterMap (eventRow py spark) := by
  rw [parseEvents]
  constructor
  · intro h
    cases hparsed : raw.mapM (parseMessage py) with
    | error exc => rw [hparsed] at h; cases h
    | ok parsed =>
      rw [hparsed] at h
      cases h
      obtain ⟨hall, rfl⟩ := mapM_parseMessage.mp hparsed
      exact ⟨hall, List.filterMap_map⟩
  · rintro ⟨hall, rfl⟩
    rw [mapM_parseMessage.mpr ⟨hall, rfl⟩]
    exact congrArg Except.ok List.filterMap_map

theorem parseFailures_ok {failures : List (Option PyStr)} :
    parseFailures py raw = .ok failures ↔
      (∀ m ∈ raw, parseMessage py m = .ok (outcome py m)) ∧ failures = raw.filter (failed py) := by
  have hselect : (((raw.map (outcome py)).zip raw).filter fun p => p.1.error.isSome).map Prod.snd =
      raw.filter (failed py) := by
    rw [← List.map_prod_right_eq_zip, List.filter_map, List.map_map]
    exact List.map_id _
  rw [parseFailures]
  constructor
  · intro h
    cases hparsed : raw.mapM (parseMessage py) with
    | error exc => rw [hparsed] at h; cases h
    | ok parsed =>
      rw [hparsed] at h
      cases h
      obtain ⟨hall, rfl⟩ := mapM_parseMessage.mp hparsed
      exact ⟨hall, hselect⟩
  · rintro ⟨hall, rfl⟩
    rw [mapM_parseMessage.mpr ⟨hall, rfl⟩]
    exact congrArg Except.ok hselect

theorem parseMessage_exclusive {m : Option PyStr} {r : ParsedMessage}
    (h : parseMessage py m = .ok r) : r.event = none ↔ r.error ≠ none := by
  cases m with
  | none => cases h; simp
  | some text =>
    rw [parseMessage] at h
    split at h
    · cases h; simp
    · cases h; simp
    · cases h

end Topic

end Clickstream.Streaming
