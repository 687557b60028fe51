import Clickstream.Accounting
import Clickstream.ClickHouseSink
import Clickstream.Python.Calendar

/-! The range of timestamps.  The parser accepts every moment of the years 1 to 9999, a `DateTime` column
of ClickHouse the unsigned 32-bit seconds since 1970, and the client fails the whole insert on any other
value. -/

namespace Clickstream.Storable

open Python Kit Parsing Streaming ClickHouseSink

/-- A whole second in the range of a `DateTime` column. -/
def WholeSecond (t : Int) : Prop := ∃ n, 0 ≤ n ∧ n < 2 ^ 32 ∧ t = n * second

/-- Both inserts store every row of the micro-batch, and its timestamps as they are. -/
structure Stored (spark : Spark) (batch : List ParsedEvent) : Prop where
  exact : ∀ e ∈ batch, ∃ t, e.ts = some t ∧ WholeSecond t ∧ WholeSecond (windowStart t)
  clicks : ∀ stored, insertClicks stored batch = some (stored ++ batch.map clicksRow)
  pageViews : ∀ drop s rows s', (pageViewsView spark).Emits drop s batch rows s' →
    ∀ stored, insertPageViews stored rows = some (stored ++ rows)

def startOfRange : DateTime := ⟨1970, 1, 1, 0, 0, 0, by decide, by decide, by decide, by decide,
  by decide, by decide⟩

/-- The first moment behind the range of a `DateTime` column. -/
def endOfRange : DateTime := ⟨2106, 2, 7, 6, 28, 16, by decide, by decide, by decide, by decide,
  by decide, by decide⟩

/-- From the year 1970 on and before 06:28:16 on the 7th of February 2106. -/
def InRange (moment : DateTime) : Prop := 1970 ≤ moment.year ∧ moment.fields < endOfRange.fields

theorem not_lt_startOfRange_iff {moment : DateTime} :
    ¬moment.fields < startOfRange.fields ↔ 1970 ≤ moment.year := by
  have hmonth := moment.month_range.1
  have hday := moment.day_range.1
  simp only [DateTime.fields, startOfRange, List.cons_lt_cons_iff, List.not_lt_nil, and_false,
    or_false]
  omega

theorem inRange_iff {moment : DateTime} :
    InRange moment ↔ 0 ≤ moment.epochSeconds ∧ moment.epochSeconds < 2 ^ 32 := by
  have hstart : startOfRange.epochSeconds = 0 := by decide
  have hend : endOfRange.epochSeconds = 2 ^ 32 := by decide
  rw [InRange, ← not_lt_startOfRange_iff, ← DateTime.epochSeconds_lt_iff,
    ← DateTime.epochSeconds_lt_iff, hstart, hend, Int.not_lt]

theorem isDateTime_of_wholeSecond {t : Int} (h : WholeSecond t) :
    isDateTime (.timestamp t) = true := by
  obtain ⟨n, hn, hlt, rfl⟩ := h
  rw [isDateTime, decide_eq_true_iff]
  unfold second
  omega

/-- A window starts on a whole second, not before 1970 when its events are not. -/
theorem wholeSecond_windowStart {t : Int} (h : WholeSecond t) : WholeSecond (windowStart t) := by
  obtain ⟨n, hn, hlt, rfl⟩ := h
  refine ⟨n - n % 60, by omega, by omega, ?_⟩
  unfold windowStart windowLength windowMinutes second
  omega

section Batch

variable {spark : Spark} {batch : List ParsedEvent}

theorem stored_of_exact
    (h : ∀ e ∈ batch, ∃ t, e.ts = some t ∧ WholeSecond t) : Stored spark batch where
  exact e he := by
    obtain ⟨t, ht, hwhole⟩ := h e he
    exact ⟨t, ht, hwhole, wholeSecond_windowStart hwhole⟩
  clicks stored := by
    refine insert_of_all (List.all_eq_true.mpr fun r hr => ?_)
    obtain ⟨e, he, rfl⟩ := List.mem_map.mp hr
    obtain ⟨t, ht, hwhole⟩ := h e he
    rw [clicksRow, ht]
    exact isDateTime_of_wholeSecond hwhole
  pageViews drop s rows s' hemits stored := by
    refine insert_of_all (List.all_eq_true.mpr fun r hr => ?_)
    obtain ⟨k, hk, rfl⟩ := List.mem_map.mp (hemits.rows.mem_iff.mp hr)
    obtain ⟨e, he, hkey⟩ := mem_groupKeys.mp hk
    obtain ⟨t, ht, hwhole⟩ := h e (List.mem_filter.mp he).1
    obtain ⟨t', ht', rfl⟩ := Option.map_eq_some_iff.mp hkey
    obtain rfl : t = t' := Option.some.inj (ht.symm.trans ht')
    exact isDateTime_of_wholeSecond (wholeSecond_windowStart hwhole)

end Batch

/-- The rows of accepted events, with a `ts` that Spark parses, are stored exactly when each `ts` lies
between 1970 and 06:28:16 on the 7th of February 2106. -/
theorem stored_iff {py : Interpreter} {spark : Spark} (spec : ToTimestampSpec spark)
    {messages : List Event} (haccepted : ∀ m ∈ messages, ∃ text, parseEvent py text = .ok m)
    (hts : ∀ m ∈ messages, (select spark m).ts ≠ none) :
    Stored spark (messages.map (select spark)) ↔
      ∀ m ∈ messages, ∀ moment, strptime m.ts Schema.tsFormat = some moment → InRange moment := by
  have hmoment : ∀ m ∈ messages, ∀ moment, strptime m.ts Schema.tsFormat = some moment →
      (select spark m).ts = some (moment.epochSeconds * second) := by
    intro m hm moment hmoment
    obtain ⟨text, hparse⟩ := haccepted m hm
    have hpadded := (ts_select_ne_none_iff spec (parseEvent_valid hparse)).mp (hts m hm)
    exact spec.reads hpadded ((strptime_padded hpadded).symm.trans hmoment)
  constructor
  · intro h m hm moment hm'
    obtain ⟨t, ht, ⟨n, hn, hlt, rfl⟩, -⟩ := h.exact _ (List.mem_map_of_mem hm)
    have hsame := Option.some.inj ((hmoment m hm moment hm').symm.trans ht)
    unfold second at hsame
    rw [inRange_iff]
    omega
  · intro h
    apply stored_of_exact
    intro e he
    obtain ⟨m, hm, rfl⟩ := List.mem_map.mp he
    obtain ⟨text, hparse⟩ := haccepted m hm
    obtain ⟨moment, hm'⟩ := Option.isSome_iff_exists.mp (parseEvent_valid hparse).ts
    obtain ⟨hstart, hend⟩ := inRange_iff.mp (h m hm moment hm')
    exact ⟨_, hmoment m hm moment hm', _, hstart, hend, rfl⟩

/-! ### The sample message -/

/-- A page view and another user's click in the first second of the range. -/
def twoMessages : List Event :=
  [Schema.sample (lit "2026-08-27T15:00:00Z"),
    { Schema.sample (lit "1970-01-01T00:00:00Z") with
      eventId := lit "00000000-0000-4000-8000-000000000002"
      eventType := lit "click"
      userId := lit "u-0002" }]

theorem stored_iff_twoMessages : Stored paddedSpark (twoMessages.map (select paddedSpark)) := by
  have hvalid : ∀ m ∈ twoMessages, checkFields cpython Schema.vocabulary m = .ok () := by
    decide +kernel
  have haccepted : ∀ m ∈ twoMessages, ∃ text, parseEvent cpython text = .ok m := by
    intro m hm
    refine WireFormat.exists_parseEvent (hvalid m hm) fun f => ?_
    simp only [twoMessages, List.mem_cons, List.not_mem_nil, or_false] at hm
    rcases hm with rfl | rfl <;> cases f <;> exact scalar_lit _
  have hseconds : (twoMessages.map fun m => (strptime m.ts Schema.tsFormat).map DateTime.epochSeconds) =
      [some 1787842800, some 0] := by decide +kernel
  refine (stored_iff paddedSpark_spec haccepted (by decide +kernel)).mpr fun m hm moment hmoment => ?_
  have hmem := List.mem_map_of_mem
    (f := fun m => (strptime m.ts Schema.tsFormat).map DateTime.epochSeconds) hm
  simp only [hseconds, hmoment, Option.map_some, List.mem_cons, Option.some_inj, List.not_mem_nil,
    or_false] at hmem
  rw [inRange_iff]
  omega

/-- An event of the last second of 1969 fails the insert of its micro-batch. -/
theorem not_stored_always :
    ¬∀ (py : Interpreter) (spark : Spark), ToTimestampSpec spark → ∀ messages : List Event,
      (∀ m ∈ messages, ∃ text, parseEvent py text = .ok m) →
        (∀ m ∈ messages, (select spark m).ts ≠ none) →
        Stored spark (messages.map (select spark)) := by
  intro h
  have hvalid : (strptime (lit "1969-12-31T23:59:59Z") Schema.tsFormat).isSome = true := by
    decide +kernel
  have haccepted : ∀ m ∈ [Schema.sample (lit "1969-12-31T23:59:59Z")],
      ∃ text, parseEvent cpython text = .ok m :=
    List.forall_mem_singleton.mpr ⟨_, WireFormat.parseEvent_toJson cpython
      ⟨_, Schema.valid_sample hvalid⟩ (Schema.scalarFields_sample (scalar_lit _))⟩
  have hstored := (h cpython paddedSpark paddedSpark_spec _ haccepted
    (List.forall_mem_singleton.mpr (by decide +kernel))).clicks []
  have hfails : (insertClicks [] ([Schema.sample (lit "1969-12-31T23:59:59Z")].map
      (select paddedSpark))).isNone = true := by decide +kernel
  rw [hstored] at hfails
  cases hfails

end Clickstream.Storable
