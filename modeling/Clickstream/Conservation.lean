import Clickstream.Streaming
import Clickstream.WireFormat
import Mathlib.Data.Finset.Card

/-! Conservation from the raw topic to the aggregates: which messages end up either in the
dead-letter topic or in one row of each aggregate.  The parser reads a timestamp with `strptime`, the
job with `to_timestamp`, and a message that only the first reads is lost. -/

namespace Clickstream.Streaming

open Python Kit Parsing

/-- What the job relies on of `to_timestamp` with its pattern: it reads no timestamp whose fields
are not zero-padded ASCII digits, and it reads the moment of one whose fields are. -/
structure ToTimestampSpec (spark : Spark) : Prop where
  padded : ∀ {text : PyStr} {t : Int}, spark.toTimestamp text tsPattern = some t → Padded text
  reads : ∀ {text : PyStr} {moment : DateTime}, Padded text → paddedDateTime text = some moment →
    spark.toTimestamp text tsPattern = some (moment.epochSeconds * second)

/-- The event has a non-null `ts` and exactly one row of each aggregate counts it. -/
structure CountedOnce (spark : Spark) (events : List ParsedEvent) (e : ParsedEvent) : Prop where
  mem : e ∈ events
  ts : e.ts ≠ none
  pageViews :
    (pageViews1m spark events).countP (fun r => decide (pageViewsKey e = some r.key)) = 1
  campaignStats :
    (campaignStats1m spark events).countP (fun r => decide (campaignKey e = some r.key)) = 1

/-- Every message is a failure or an event that is counted once, a row counts the events of its key, and
the numbers of both add up. -/
structure Conserved (py : Interpreter) (spark : Spark) (raw : List (Option PyStr))
    (events : List ParsedEvent) (failures : List (Option PyStr)) : Prop where
  onePlace : ∀ m ∈ raw,
    Xor (m ∈ failures) (∃ e, eventRow py spark m = some e ∧ CountedOnce spark events e)
  counts : ∀ r ∈ campaignStats1m spark events,
    r.events = events.countP fun e => decide (campaignKey e = some r.key)
  total :
    failures.length + ((campaignStats1m spark events).map CampaignStats.events).sum = raw.length

/-- The message has a zero-padded `ts`, if it is a JSON object with all fields and valid values. -/
def PaddedIfValid (py : Interpreter) (m : Option PyStr) : Prop :=
  ∀ text pairs, m = some text → loads py text = .ok (.obj pairs) → missing pairs = [] →
    Valid vocabulary (coerce py pairs) → Padded (coerce py pairs).ts

theorem countedOnce {spark : Spark} {events : List ParsedEvent} {e : ParsedEvent} (he : e ∈ events)
    (hts : e.ts ≠ none) : CountedOnce spark events e := by
  obtain ⟨t, ht⟩ := Option.ne_none_iff_exists'.mp hts
  refine ⟨he, hts, ?_, ?_⟩
  · have hkey : pageViewsKey e = some (windowStart t, e.page, e.device) := by
      rw [pageViewsKey, ht]
      rfl
    rw [← countP_groupKeys he hkey, ← map_key_pageViews1m spark, List.countP_map]
    rfl
  · have hkey : campaignKey e = some (windowStart t, e.campaignId) := by
      rw [campaignKey, ht]
      rfl
    rw [← countP_groupKeys he hkey, ← map_key_campaignStats1m spark, List.countP_map]
    rfl

section Topic

variable {py : Interpreter} {spark : Spark} {raw : List (Option PyStr)}
  {events : List ParsedEvent} {failures : List (Option PyStr)}

theorem parseMessage_event {m : Option PyStr} {r : ParsedMessage} {e : Event}
    (hr : parseMessage py m = .ok r) (he : r.event = some e) :
    ∃ text, m = some text ∧ parseEvent py text = .ok e := by
  cases m with
  | none => cases hr; cases he
  | some text =>
    rw [parseMessage] at hr
    split at hr
    · rename_i event hparse
      cases hr
      cases he
      exact ⟨text, rfl, hparse⟩
    · cases hr; cases he
    · cases hr

theorem paddedIfValid_iff {m : Option PyStr} :
    PaddedIfValid py m ↔
      ∀ r e, parseMessage py m = .ok r → r.event = some e → Padded e.ts := by
  constructor
  · intro h r e hr he
    obtain ⟨text, rfl, hparse⟩ := parseMessage_event hr he
    obtain ⟨pairs, hloads, hmissing, rfl, hvalid⟩ := parseEvent_ok.mp hparse
    exact h text pairs rfl hloads hmissing hvalid
  · rintro h text pairs rfl hloads hmissing hvalid
    refine h ⟨some (coerce py pairs), none⟩ _ ?_ rfl
    rw [parseMessage, parseEvent_ok.mpr ⟨pairs, hloads, hmissing, rfl, hvalid⟩]

/-- The job reads the timestamp of an accepted event exactly when it is zero-padded. -/
theorem ts_select_ne_none_iff (spec : ToTimestampSpec spark) {e : Event}
    (hvalid : Valid vocabulary e) : (select spark e).ts ≠ none ↔ Padded e.ts := by
  constructor
  · intro hts
    obtain ⟨t, ht⟩ := Option.ne_none_iff_exists'.mp hts
    exact spec.padded ht
  · intro hpadded
    have hsome : (paddedDateTime e.ts).isSome = true := by
      rw [← strptime_padded hpadded]
      exact hvalid.ts
    obtain ⟨moment, hmoment⟩ := Option.isSome_iff_exists.mp hsome
    rw [show (select spark e).ts = _ from spec.reads hpadded hmoment]
    exact Option.some_ne_none _

theorem failed_eq_true_iff {m : Option PyStr} (hm : parseMessage py m = .ok (outcome py m)) :
    failed py m = true ↔ eventRow py spark m = none := by
  rw [failed, eventRow, Option.map_eq_none_iff, parseMessage_exclusive hm, Option.isSome_iff_ne_none]

theorem length_failures_add_events (hok : ∀ m ∈ raw, parseMessage py m = .ok (outcome py m)) :
    (raw.filter (failed py)).length + (raw.filterMap (eventRow py spark)).length = raw.length := by
  rw [List.length_eq_countP_add_countP (failed py) (l := raw), ← List.countP_eq_length_filter,
    List.length_filterMap_eq_countP]
  congr 1
  apply List.countP_congr
  intro m hm
  rw [decide_eq_true_iff, failed_eq_true_iff (hok m hm), Option.isSome_iff_ne_none]

theorem ts_ne_none_of_padded (spec : ToTimestampSpec spark)
    (hok : ∀ m ∈ raw, parseMessage py m = .ok (outcome py m)) (h : ∀ m ∈ raw, PaddedIfValid py m) :
    ∀ e ∈ raw.filterMap (eventRow py spark), e.ts ≠ none := by
  intro row hrow
  obtain ⟨m, hm, hmrow⟩ := List.mem_filterMap.mp hrow
  obtain ⟨e, he, rfl⟩ := Option.map_eq_some_iff.mp hmrow
  obtain ⟨text, -, hparse⟩ := parseMessage_event (hok m hm) he
  have hpadded := paddedIfValid_iff.mp (h m hm) _ e (hok m hm) he
  exact (ts_select_ne_none_iff spec (parseEvent_valid hparse)).mpr hpadded

theorem conserved_of_padded (spec : ToTimestampSpec spark)
    (hevents : parseEvents py spark raw = .ok events)
    (hfailures : parseFailures py raw = .ok failures) (h : ∀ m ∈ raw, PaddedIfValid py m) :
    Conserved py spark raw events failures := by
  obtain ⟨hok, rfl⟩ := parseEvents_ok.mp hevents
  obtain rfl := (parseFailures_ok.mp hfailures).2
  have hts := ts_ne_none_of_padded spec hok h
  constructor
  · intro m hm
    rw [List.mem_filter, failed_eq_true_iff (hok m hm)]
    cases hrow : eventRow py spark m with
    | none => exact .inl ⟨⟨hm, rfl⟩, by simp⟩
    | some e =>
      have he : e ∈ raw.filterMap (eventRow py spark) := List.mem_filterMap.mpr ⟨m, hm, hrow⟩
      exact .inr ⟨⟨e, rfl, countedOnce he (hts e he)⟩, by simp⟩
  · exact fun r hr => campaignStats1m_events spark hr
  · have hcounted : ((raw.filterMap (eventRow py spark)).filterMap campaignKey).length =
        (raw.filterMap (eventRow py spark)).length := by
      rw [List.length_filterMap_eq_countP, List.countP_eq_length]
      intro e he
      rw [isSome_campaignKey, Option.isSome_iff_ne_none]
      exact hts e he
    rw [sum_events_campaignStats1m, hcounted]
    exact length_failures_add_events hok

theorem padded_of_conserved (spec : ToTimestampSpec spark)
    (hevents : parseEvents py spark raw = .ok events)
    (hfailures : parseFailures py raw = .ok failures)
    (h : Conserved py spark raw events failures) : ∀ m ∈ raw, PaddedIfValid py m := by
  obtain ⟨hok, rfl⟩ := parseEvents_ok.mp hevents
  obtain rfl := (parseFailures_ok.mp hfailures).2
  refine fun m hm => paddedIfValid_iff.mpr fun r e hr he => ?_
  obtain ⟨text, -, hparse⟩ := parseMessage_event hr he
  obtain rfl : r = outcome py m := Except.ok.inj (hr.symm.trans (hok m hm))
  have hrow : eventRow py spark m = some (select spark e) := by
    rw [eventRow, he]
    rfl
  rcases h.onePlace m hm with ⟨hfailed, -⟩ | ⟨⟨row, hrow', hcounted⟩, -⟩
  · rw [List.mem_filter, failed_eq_true_iff (hok m hm), hrow] at hfailed
    cases hfailed.2
  · obtain rfl : select spark e = row := Option.some.inj (hrow.symm.trans hrow')
    exact (ts_select_ne_none_iff spec (parseEvent_valid hparse)).mp hcounted.ts

/-- The topic is conserved exactly when its valid messages have zero-padded timestamps. -/
theorem conserved_iff (spec : ToTimestampSpec spark)
    (hevents : parseEvents py spark raw = .ok events)
    (hfailures : parseFailures py raw = .ok failures) :
    Conserved py spark raw events failures ↔ ∀ m ∈ raw, PaddedIfValid py m :=
  ⟨padded_of_conserved spec hevents hfailures,
    conserved_of_padded spec hevents hfailures⟩

end Topic

/-! ### A conserved topic and a lost message -/

/-- A Spark that reads exactly the zero-padded timestamps and counts users exactly. -/
def paddedSpark : Spark where
  toTimestamp text _ :=
    if Padded text then (paddedDateTime text).map fun moment => moment.epochSeconds * second
    else none
  approxCountDistinct := Finset.card

theorem paddedSpark_spec : ToTimestampSpec paddedSpark where
  padded h := by
    by_contra hpadded
    rw [paddedSpark] at h
    simp only [if_neg hpadded] at h
    cases h
  reads hpadded hmoment := by
    rw [paddedSpark]
    simp only [if_pos hpadded, hmoment, Option.map_some]

/-- A page view of the sample user at a moment, in microseconds. -/
def pageView (t : Int) : ParsedEvent := { select paddedSpark (Schema.sample []) with ts := some t }

def sampleMessage (ts : PyStr) (h : (strptime ts Schema.tsFormat).isSome = true) : Option PyStr :=
  some (Schema.ClickEvent.toJson ⟨Schema.sample ts, Schema.valid_sample h⟩)

theorem parseMessage_sampleMessage (py : Interpreter) {ts : PyStr} (hscalar : Scalar ts)
    (h : (strptime ts Schema.tsFormat).isSome = true) :
    parseMessage py (sampleMessage ts h) = .ok ⟨some (Schema.sample ts), none⟩ := by
  rw [sampleMessage, parseMessage,
    WireFormat.parseEvent_toJson py _ (Schema.scalarFields_sample hscalar)]
  rfl

theorem outcome_eq {py : Interpreter} {m : Option PyStr} {r : ParsedMessage}
    (h : parseMessage py m = .ok r) : outcome py m = r := by
  rw [outcome, h]

theorem conserved_iff_sample :
    let raw := [none, sampleMessage (lit "2026-08-27T15:00:00Z") (by decide +kernel)]
    ∃ events failures, parseEvents cpython paddedSpark raw = .ok events ∧
      parseFailures cpython raw = .ok failures ∧
      Conserved cpython paddedSpark raw events failures := by
  intro raw
  have hnull : parseMessage cpython none = .ok ⟨none, some (lit "empty Kafka message")⟩ := rfl
  have hsample := parseMessage_sampleMessage cpython (scalar_lit "2026-08-27T15:00:00Z")
    (by decide +kernel)
  have hok : ∀ m ∈ raw, parseMessage cpython m = .ok (outcome cpython m) := by
    simp only [raw, List.forall_mem_cons, outcome_eq hnull, outcome_eq hsample]
    exact ⟨hnull, hsample, nofun⟩
  have hevents : parseEvents cpython paddedSpark _ = .ok _ := parseEvents_ok.mpr ⟨hok, rfl⟩
  have hfailures := parseFailures_ok.mpr ⟨hok, rfl⟩
  refine ⟨_, _, hevents, hfailures,
    (conserved_iff paddedSpark_spec hevents hfailures).mpr ?_⟩
  simp only [raw, List.forall_mem_cons, paddedIfValid_iff, hnull, hsample, Except.ok.injEq]
  refine ⟨fun r e hr he => ?_, fun r e hr he => ?_, nofun⟩
  · subst hr
    cases he
  · subst hr
    cases he
    decide

/-- The parser accepts a timestamp without padding, and the event is lost. -/
theorem not_conserved_always :
    ¬∀ (py : Interpreter) (spark : Spark), ToTimestampSpec spark →
      ∀ raw events failures, parseEvents py spark raw = .ok events →
        parseFailures py raw = .ok failures → Conserved py spark raw events failures := by
  intro h
  have hts : (strptime (lit "2026-8-27T15:0:0Z") Schema.tsFormat).isSome = true := by
    decide +kernel
  have hsample := parseMessage_sampleMessage cpython (scalar_lit "2026-8-27T15:0:0Z") hts
  have hok : ∀ m ∈ [sampleMessage (lit "2026-8-27T15:0:0Z") hts],
      parseMessage cpython m = .ok (outcome cpython m) := by
    simp only [List.forall_mem_cons, outcome_eq hsample]
    exact ⟨hsample, nofun⟩
  have hevents : parseEvents cpython paddedSpark _ = .ok _ := parseEvents_ok.mpr ⟨hok, rfl⟩
  have hfailures := parseFailures_ok.mpr ⟨hok, rfl⟩
  have hconserved := h cpython paddedSpark paddedSpark_spec _ _ _ hevents hfailures
  have hpadded := paddedIfValid_iff.mp (padded_of_conserved paddedSpark_spec hevents hfailures
    hconserved _ (List.mem_singleton.mpr rfl)) _ _ hsample rfl
  revert hpadded
  decide

end Clickstream.Streaming
