import Clickstream.ClickHouseRuns
import Clickstream.Kit.Delivery
import Clickstream.SimulatedTime

/-! The way of the simulated events through the partitions of the topic to the curated tables. -/

namespace Clickstream.Pipeline

open Python Schema Kit Simulator Streaming Refinement PostgresSink

/-! ### Messages of the simulator are valid -/

section Messages

variable {σ : Type} {py : Interpreter} {rng : Random σ} {rate : Nat} {hrate : 0 < rate}
variable {session : Session} {page : PyStr}

theorem scalar_append {s t : PyStr} (hs : Scalar s) (ht : Scalar t) : Scalar (s ++ t) :=
  List.forall_mem_append.mpr ⟨hs, ht⟩

theorem scalar_hex (width n : Nat) : Scalar (hex width n) := by
  intro c hc
  obtain ⟨v, hv, rfl⟩ := mem_hex hc
  interval_cases v <;> decide

theorem scalar_uuidText (n : Nat) : Scalar (uuidText n) := by
  intro c hc
  rcases mem_uuidText hc with rfl | hdigit
  · decide
  · exact scalar_hex 32 n c hdigit

theorem scalar_strftime (t : DateTime) : Scalar (strftime t tsFormat) := by
  have hz : strftime t tsFormat = t.isoformat ++ lit "Z" := strftime_eq_isoformat t
  rw [hz]
  exact scalar_append t.scalar_isoformat (scalar_lit _)

theorem scalar_intText {k : Nat} (hk : 0 < k) : Scalar (intText k) := by
  intro c hc
  have hdigit := isAsciiDigit_of_mem_intText (by omega : (0 : Int) < k) hc
  rw [isAsciiDigit, decide_eq_true_iff] at hdigit
  rw [Cp.isSurrogate, decide_eq_false_iff_not]
  omega

theorem scalar_visited (h : Visited page) : Scalar page := by
  obtain hother | ⟨k, hk, -, rfl⟩ := h
  · simp only [otherPages, List.mem_cons, List.not_mem_nil, or_false] at hother
    rcases hother with rfl | rfl | rfl | rfl | rfl | rfl <;> exact scalar_lit _
  · exact scalar_append (scalar_lit _) (scalar_intText (by omega))

/-- The identifiers that a session draws have no surrogates. -/
theorem returns_scalar_newSession (rng : Random σ) : Returns (newSession rng) fun start =>
    Scalar start.1.userId ∧ Scalar start.1.sessionId := by
  have huser : Returns (pickUser rng) Scalar := by
    rw [pickUser]
    exact .bind .any fun i _ => .pure (scalar_append (scalar_lit _) (scalar_decimal 4 _))
  rw [newSession]
  refine .bind huser fun userId huserId => .bind .any fun bits _ => ?_
  refine .bind .any fun device _ => .bind .any fun region _ => .bind .any fun campaign _ => ?_
  refine .bind .any fun referrer _ => .bind .any fun page _ => .bind .any fun length _ => .pure ?_
  refine ⟨huserId, scalar_append (scalar_lit _) fun c hc => ?_⟩
  exact scalar_hex 32 _ c (List.mem_of_mem_take hc)

theorem scalar_vocabulary {x : PyStr}
    (h : x ∈ eventTypes ∨ x ∈ devices ∨ x ∈ regions ∨ x ∈ campaignIds ∨ x ∈ referrers) :
    Scalar x := by
  have htypes : ∀ x ∈ eventTypes, Scalar x := by simp [eventTypes, scalar_lit]
  have hdevices : ∀ x ∈ devices, Scalar x := by simp [devices, scalar_lit]
  have hregions : ∀ x ∈ regions, Scalar x := by simp [regions, scalar_lit]
  have hcampaigns : ∀ x ∈ campaignIds, Scalar x := by
    intro x hx
    obtain ⟨k, ⟨hk, -⟩, rfl⟩ | rfl : (∃ k : Nat, (1 ≤ k ∧ k < 9) ∧ lit "c-" ++ intText k = x) ∨
        x = lit "organic" := by simpa [campaignIds] using hx
    · exact scalar_append (scalar_lit _) (scalar_intText hk)
    · exact scalar_lit _
  have hreferrers : ∀ x ∈ referrers, Scalar x := by simp [referrers, scalar_lit]
  rcases h with h | h | h | h | h
  · exact htypes x h
  · exact hdevices x h
  · exact hregions x h
  · exact hcampaigns x h
  · exact hreferrers x h

theorem scalarFields_eventAt (hsession : session.Wf)
    (hids : Scalar session.userId ∧ Scalar session.sessionId) (hpage : Visited page)
    {eventType : PyStr} (htype : eventType ∈ eventTypes) (bits : Fin (2 ^ 128)) (clock : Clock) :
    (eventAt session page eventType bits clock).ScalarFields := by
  intro f
  cases f with
  | eventId => exact scalar_uuidText _
  | eventType => exact scalar_vocabulary (.inl htype)
  | userId => exact hids.1
  | sessionId => exact hids.2
  | ts => exact scalar_strftime _
  | page => exact scalar_visited hpage
  | device => exact scalar_vocabulary (.inr (.inl hsession.device))
  | region => exact scalar_vocabulary (.inr (.inr (.inl hsession.region)))
  | campaignId => exact scalar_vocabulary (.inr (.inr (.inr (.inl hsession.campaignId))))
  | referrer => exact scalar_vocabulary (.inr (.inr (.inr (.inr hsession.referrer))))

variable (py rng hrate) in
theorem scalarFields_sessionEvents (hsession : session.Wf)
    (hids : Scalar session.userId ∧ Scalar session.sessionId) (n : Nat) (hpage : Visited page)
    (s : σ) (clock : Clock) :
    ∀ e ∈ (sessionEvents py rng hrate session n page s clock).events, e.fields.ScalarFields := by
  induction n generalizing page s clock with
  | zero => exact fun e he => absurd he List.not_mem_nil
  | succ n ih =>
    obtain ⟨htype, -, -⟩ := (returns_eventType rng hpage).value (rng.getrandbits 128 s).2
    obtain ⟨event, hmake⟩ := make_eventAt py hsession hpage htype (rng.getrandbits 128 s).1 clock
    have hevent : event.fields.ScalarFields := by
      rw [fields_of_make hmake]
      exact scalarFields_eventAt hsession hids hpage htype _ _
    rw [sessionEvents]
    simp only [hmake]
    split
    · exact List.forall_mem_singleton.mpr hevent
    · have hnext := (returns_nextPage rng hpage).value
        (pick rng (eventTypeWeights page) (rng.getrandbits 128 s).2).2
      exact List.forall_mem_cons.mpr ⟨hevent, ih hnext _ _⟩

variable (py rng hrate) in
/-- No text of a simulated event has surrogates. -/
theorem scalarFields_iterEvents (n : Nat) (s : σ) (clock : Clock) :
    ∀ e ∈ (iterEvents py rng hrate n s clock).events, e.fields.ScalarFields := by
  induction n generalizing s clock with
  | zero => exact fun e he => absurd he List.not_mem_nil
  | succ n ih =>
    obtain ⟨hsession, hpage⟩ := (returns_newSession rng).value s
    have hids := (returns_scalar_newSession rng).value s
    have hfirst := scalarFields_sessionEvents py rng hrate hsession hids
      (newSession rng s).1.2.2.val hpage (newSession rng s).2 clock
    rw [iterEvents]
    split
    · exact hfirst
    · exact List.forall_mem_append.mpr ⟨hfirst, ih _ _⟩

theorem scalarFields_generate {n : Nat} {s : σ} {clock : Clock} {events : List ClickEvent}
    (h : generate py rng hrate n s clock = .ok events) : ∀ e ∈ events, e.fields.ScalarFields := by
  have hall := scalarFields_iterEvents py rng hrate n s clock
  rw [generate] at h
  split at h
  · cases h
    exact fun e he => hall e (List.mem_of_mem_take he)
  · cases hresult : (iterEvents py rng hrate n s clock).result with
    | error stop => rw [hresult] at h; cases h
    | ok last =>
      rw [hresult] at h
      cases h
      exact hall

/-- The event behind `i` others shows the clock after them. -/
theorem getElem?_clocks {n i : Nat} {start : Clock} (hrange : (clocks hrate n start).length = n)
    (hi : i < n) : ∃ clock, clockAfter hrate i start = some clock ∧
      (clocks hrate n start)[i]? = some clock := by
  obtain ⟨k, rfl⟩ : ∃ k, n = i + (k + 1) := ⟨n - i - 1, by omega⟩
  cases hafter : clockAfter hrate i start with
  | none =>
    rw [clocks_add_of_none hafter] at hrange
    have hle : (clocks hrate i start).length ≤ i := length_clocks_le i start
    omega
  | some clock =>
    refine ⟨clock, rfl, ?_⟩
    rw [clocks_add hafter, List.getElem?_append_right (length_clocks_of_some hafter).le,
      length_clocks_of_some hafter, Nat.sub_self]
    rfl

/-- Spark reads the clock, less the microseconds. -/
theorem ts_select {n i : Nat} {s : σ} {start : Clock} {events : List ClickEvent} {spark : Spark}
    (spec : ToTimestampSpec spark) (hrange : (clocks hrate n start).length = n)
    (hgenerate : generate py rng hrate n s start = .ok events) {e : ClickEvent}
    (he : events[i]? = some e) : ∃ clock, clockAfter hrate i start = some clock ∧
      (select spark e.fields).ts = some (clock.moment.epochSeconds * second) := by
  obtain ⟨events', hgenerate', -, htimes⟩ := generate_spec py rng s hrange
  obtain rfl := Except.ok.inj (hgenerate.symm.trans hgenerate')
  have hlength := congrArg List.length htimes
  rw [List.length_map, List.length_map, hrange] at hlength
  have hi : i < n := hlength ▸ (List.getElem?_eq_some_iff.mp he).1
  obtain ⟨clock, hafter, hclock⟩ := getElem?_clocks hrange hi
  refine ⟨clock, hafter, ?_⟩
  have hts : some e.fields.ts = some (strftime clock.moment tsFormat) := by
    have hget := congrArg (·[i]?) htimes
    simpa [he, hclock] using hget
  rw [select, Option.some.inj hts]
  exact spec.reads (padded_strftime _) (paddedDateTime_strftime _)

/-- Two events whose numbers are close have timestamps that are close. -/
theorem ts_near {ahead i j : Nat} {start ci cj : Clock} (hi : clockAfter hrate i start = some ci)
    (hj : clockAfter hrate j start = some cj) (hij : i ≤ j + ahead)
    (hahead : (ahead * stepMicros rate : Nat) ≤ watermarkSeconds * second) :
    ci.moment.epochSeconds * second - watermarkSeconds * second ≤
      cj.moment.epochSeconds * second := by
  have hci := epochMicros_clockAfter hi
  have hcj := epochMicros_clockAfter hj
  have hsteps : i * stepMicros rate ≤ j * stepMicros rate + ahead * stepMicros rate := by
    rw [← Nat.add_mul]
    exact Nat.mul_le_mul_right _ hij
  have hmicros := cj.micros_lt
  rw [Clock.epochMicros] at hci hcj
  simp only [second, watermarkSeconds] at hahead ⊢
  zify at hsteps
  push_cast at hahead
  omega

end Messages

/-! ### The topic -/

section Topic

variable (spark : Spark) (events : List ClickEvent)

/-- The events with the numbers `order`, as far as there are such. -/
def produced (order : List Nat) : List ClickEvent := order.filterMap (events[·]?)

/-- The values of their messages. -/
def messages (order : List Nat) : List (Option PyStr) :=
  (produced events order).map fun e => some e.toJson

def rows (order : List Nat) : List ParsedEvent :=
  (produced events order).map fun e => select spark e.fields

/-- The key of a message. -/
def keyOfMessage (i : Nat) : Option PyStr := events[i]?.map fun e => e.fields.userId

/-- Behind the messages that arrived, in the order of their arrival: all of them are events, those of
each user in the order of production, and the tables are those of the events in the order of
production, which are all events when every message arrived. -/
structure Delivers (py : Interpreter) (order : List Nat) : Prop where
  parsed : parseEvents py spark (messages events order) = .ok (rows spark events order)
  failures : parseFailures py (messages events order) = .ok []
  perUser : ∀ user, (rows spark events order).filter (fun e => decide (e.userId = user)) =
    (rows spark events (arrived events.length order)).filter fun e => decide (e.userId = user)
  complete : order.length = events.length →
    rows spark events (arrived events.length order) = events.map fun e => select spark e.fields
  counted : ((campaignStats1m spark (rows spark events order)).map CampaignStats.events).sum =
    order.length
  pageViews : Refines (pageViewsView spark) upsertPageViews pageViewsCounts (rows spark events order)
    ((pageViews1m spark (rows spark events (arrived events.length order))).map PageViews.toRow)
  campaignStats : Refines (campaignStatsView spark) upsertCampaignStats campaignStatsCounts
    (rows spark events order)
    ((campaignStats1m spark (rows spark events (arrived events.length order))).map
      CampaignStats.toRow)

end Topic

section EndToEnd

variable {py : Interpreter} {spark : Spark} {events : List ClickEvent} {order : List Nat}

theorem parseMessage_toJson (py : Interpreter) {e : ClickEvent} (h : e.fields.ScalarFields) :
    Parsing.parseMessage py (some e.toJson) = .ok ⟨some e.fields, none⟩ := by
  rw [Parsing.parseMessage, WireFormat.parseEvent_toJson py e h]
  rfl

theorem outcome_toJson (py : Interpreter) {e : ClickEvent} (h : e.fields.ScalarFields) :
    outcome py (some e.toJson) = ⟨some e.fields, none⟩ := by
  rw [outcome, parseMessage_toJson py h]

variable (py spark) in
/-- The parser takes what the producer sent. -/
theorem parse_messages (hscalar : ∀ e ∈ events, e.fields.ScalarFields) (order : List Nat) :
    parseEvents py spark (messages events order) = .ok (rows spark events order) ∧
      parseFailures py (messages events order) = .ok [] := by
  have hproduced : ∀ e ∈ produced events order, e.fields.ScalarFields := by
    intro e he
    obtain ⟨i, -, hi⟩ := List.mem_filterMap.mp he
    exact hscalar e (List.mem_of_getElem? hi)
  have hall : ∀ m ∈ messages events order, Parsing.parseMessage py m = .ok (outcome py m) := by
    intro m hm
    obtain ⟨e, he, rfl⟩ := List.mem_map.mp hm
    rw [outcome_toJson py (hproduced e he), parseMessage_toJson py (hproduced e he)]
  refine ⟨parseEvents_ok.mpr ⟨hall, ?_⟩, parseFailures_ok.mpr ⟨hall, ?_⟩⟩
  · rw [messages, List.filterMap_map, rows, ← List.filterMap_eq_map]
    refine List.filterMap_congr fun e he => ?_
    simp [eventRow, outcome_toJson py (hproduced e he)]
  · refine (List.filter_eq_nil_iff.mpr fun m hm => ?_).symm
    obtain ⟨e, he, rfl⟩ := List.mem_map.mp hm
    simp [failed, outcome_toJson py (hproduced e he)]

theorem refines_perm {α κ γ : Type} [DecidableEq κ] [DecidableEq γ] {keyColumns : List γ}
    {v : WindowedView α κ (keyOf keyColumns)}
    {sink : List (Row γ) → Except Python.Exc (List (Statement keyColumns))} {counts : List γ}
    {l : List α} {expected expected' : List (Row γ)} (h : Refines v sink counts l expected)
    (hperm : expected.Perm expected') : Refines v sink counts l expected' where
  final batches hbatches job hreach hpending :=
    (h.final batches hbatches job hreach hpending).trans hperm
  progress := h.progress
  growth := h.growth

theorem rows_cons_none {i : Nat} (hi : events[i]? = none) :
    rows spark events (i :: order) = rows spark events order := by
  rw [rows, produced, List.filterMap_cons_none hi]
  rfl

theorem rows_cons_some {i : Nat} {e : ClickEvent} (hi : events[i]? = some e) :
    rows spark events (i :: order) = select spark e.fields :: rows spark events order := by
  rw [rows, produced, List.filterMap_cons_some hi]
  rfl

theorem filter_rows (user : PyStr) (order : List Nat) :
    (rows spark events order).filter (fun e => decide (e.userId = user)) =
      rows spark events (order.filter fun i => decide (keyOfMessage events i = some user)) := by
  induction order with
  | nil => rfl
  | cons i order ih =>
    cases hi : events[i]? with
    | none =>
      have hkey : keyOfMessage events i ≠ some user := by simp [keyOfMessage, hi]
      rw [rows_cons_none hi, ih, List.filter_cons_of_neg (by simpa using hkey)]
    | some e =>
      have hkey : keyOfMessage events i = some e.fields.userId := by simp [keyOfMessage, hi]
      have huser : (select spark e.fields).userId = e.fields.userId := rfl
      simp only [rows_cons_some hi, List.filter_cons, ih, hkey, huser, Option.some.injEq]
      split_ifs
      · rw [rows_cons_some hi]
      · rfl

/-- Events that arrive close to their turn are in bounded disorder. -/
theorem boundedDisorder_rows {σ : Type} {rng : Random σ} {rate : Nat} {hrate : 0 < rate}
    {n ahead : Nat} {s : σ} {start : Clock} (spec : ToTimestampSpec spark)
    (hrange : (clocks hrate n start).length = n)
    (hgenerate : generate py rng hrate n s start = .ok events)
    (hahead : (ahead * stepMicros rate : Nat) ≤ watermarkSeconds * second)
    (hnear : order.Pairwise fun i j => i ≤ j + ahead) :
    BoundedDisorder (rows spark events order) := by
  rw [BoundedDisorder, rows, List.pairwise_map, produced, List.pairwise_filterMap]
  refine hnear.imp fun {i j} hij e he e' he' t t' ht ht' => ?_
  obtain ⟨ci, hci, hti⟩ := ts_select spec hrange hgenerate he
  obtain ⟨cj, hcj, htj⟩ := ts_select spec hrange hgenerate he'
  obtain rfl := Option.some.inj (ht.symm.trans hti)
  obtain rfl := Option.some.inj (ht'.symm.trans htj)
  exact ts_near hci hcj hij hahead

theorem length_rows (horder : ∀ i ∈ order, i < events.length) :
    (rows spark events order).length = order.length := by
  rw [rows, List.length_map, produced]
  induction order with
  | nil => rfl
  | cons i order ih =>
    have hi := List.getElem?_eq_getElem (horder i List.mem_cons_self)
    rw [List.filterMap_cons_some hi, List.length_cons, List.length_cons,
      ih fun j hj => horder j (List.mem_cons_of_mem i hj)]

theorem produced_range (events : List ClickEvent) :
    produced events (List.range events.length) = events := by
  induction events using List.reverseRecOn with
  | nil => rfl
  | append_singleton events e ih =>
    have hinit : (List.range events.length).filterMap ((events ++ [e])[·]?) =
        produced events (List.range events.length) :=
      List.filterMap_congr fun i hi => List.getElem?_append_left (List.mem_range.mp hi)
    rw [produced, List.length_append, List.length_singleton, List.range_succ, List.filterMap_append,
      hinit, ih]
    simp

/-- Whatever the random numbers, the partitions and the way in which their messages mix, as long as
none overtakes others by more than the watermark: the job takes every message, none goes to the
dead-letter topic, and every run of the queries leaves the tables of the events in the order of
production. -/
theorem end_to_end {σ π : Type} (py : Interpreter) (rng : Random σ) {rate : Nat} (hrate : 0 < rate)
    (n : Nat) (s : σ) (start : Clock) (hrange : (clocks hrate n start).length = n)
    (spec : ToTimestampSpec spark) (partition : PyStr → π) {ahead : Nat}
    (hahead : (ahead * stepMicros rate : Nat) ≤ watermarkSeconds * second) :
    ∃ events, generate py rng hrate n s start = .ok events ∧ events.length = n ∧
      ∀ order, Delivery (fun i => (keyOfMessage events i).map partition) ahead n order →
        Delivers spark events py order := by
  obtain ⟨events, hgenerate, -, htimes⟩ := generate_spec py rng s hrange
  have hlength := congrArg List.length htimes
  rw [List.length_map, List.length_map, hrange] at hlength
  refine ⟨events, hgenerate, hlength, fun order horder => ?_⟩
  have hdisorder : BoundedDisorder (rows spark events order) :=
    boundedDisorder_rows spec hrange hgenerate hahead horder.near
  have hperm : (rows spark events order).Perm (rows spark events (arrived events.length order)) := by
    rw [hlength]
    exact (horder.perm_arrived.filterMap _).map _
  obtain ⟨hparsed, hfailures⟩ :=
    parse_messages py spark (scalarFields_generate hgenerate) order
  refine ⟨hparsed, hfailures, fun user => ?_, fun hall => ?_, ?_, ?_, ?_⟩
  · rw [filter_rows, filter_rows, hlength, horder.filter_key]
    intro i j hij
    rw [hij]
  · rw [hlength, horder.arrived_eq_range (hall.trans hlength), ← hlength, rows, produced_range]
  · have hcount : (rows spark events order).length = order.length :=
      length_rows (hlength ▸ horder.sent)
    rw [sum_events_campaignStats1m, ← hcount]
    refine List.filterMap_length_eq_length.mpr fun e he => ?_
    obtain ⟨event, hevent, rfl⟩ := List.mem_map.mp he
    obtain ⟨i, -, hi⟩ := List.mem_filterMap.mp hevent
    obtain ⟨clock, -, hts⟩ := ts_select spec hrange hgenerate hi
    rw [isSome_campaignKey, hts]
    rfl
  · have hrefines := refines (v := pageViewsView spark) mem_pageViewsColumns (List.cons_ne_nil _ _)
      hdisorder pageViewsRow_countsLe
    rw [pageViewsView_rows] at hrefines
    have htable : (pageViews1m spark (rows spark events order)).Perm
        (pageViews1m spark (rows spark events (arrived events.length order))) :=
      aggregate_perm hperm fun _ _ _ => pageViewsRow_perm
    exact refines_perm hrefines (htable.map _)
  · have hrefines := refines (v := campaignStatsView spark) mem_campaignStatsColumns
      (List.cons_ne_nil _ _) hdisorder campaignStatsRow_countsLe
    rw [campaignStatsView_rows] at hrefines
    have htable : (campaignStats1m spark (rows spark events order)).Perm
        (campaignStats1m spark (rows spark events (arrived events.length order))) :=
      aggregate_perm hperm fun _ _ _ => campaignStatsRow_perm
    exact refines_perm hrefines (htable.map _)

/-- Sessions of three events, whose choices are seven times the number of the draws before them. -/
def counting : Random Nat where
  init _ := 0
  getrandbits k i := (⟨7 * i % 2 ^ k, Nat.mod_lt _ (Nat.two_pow_pos k)⟩, i + 1)
  random i := (⟨5, by decide⟩, i + 1)
  randint a b h i := (⟨max a (min 3 b), by omega⟩, i + 1)
  choices weights h i := (⟨7 * i % weights.length, Nat.mod_lt _ (List.length_pos_iff.mpr h)⟩, i + 1)

/-- The year changes behind the second event. -/
def newYear : Clock :=
  ⟨(DateTime.make 2026 12 31 23 59 59).get (by decide), 980000, by decide⟩

def sixUsers : List PyStr :=
  [lit "u-0001", lit "u-0001", lit "u-0001", lit "u-0120", lit "u-0120", lit "u-0120"]

theorem users_counting {events : List ClickEvent}
    (h : generate cpython counting (Nat.succ_pos 99) 6 0 newYear = .ok events) :
    events.map (fun e => e.fields.userId) = sixUsers := by
  have husers : (generate cpython counting (Nat.succ_pos 99) 6 0 newYear).toOption.map
      (List.map fun e => e.fields.userId) = some sixUsers := by decide +kernel
  rw [h] at husers
  exact Option.some.inj husers

/-- The messages of two users come from two partitions, one by one. -/
theorem end_to_end_newYear : ∃ events,
    generate cpython counting (Nat.succ_pos 99) 6 0 newYear = .ok events ∧
      Delivers paddedSpark events cpython [0, 3, 1, 4, 2, 5] := by
  let partition (user : PyStr) : Nat := (user.getLast?.map Fin.val).getD 0 % 2
  obtain ⟨events, hgenerate, -, hall⟩ := end_to_end cpython counting (Nat.succ_pos 99) 6 0 newYear
    (by decide +kernel) paddedSpark_spec partition
    (by decide : ((12000 * stepMicros 100 : Nat) : Int) ≤ watermarkSeconds * second)
  have hkey : keyOfMessage events = fun i => sixUsers[i]? := by
    funext i
    rw [keyOfMessage, ← users_counting hgenerate, List.getElem?_map]
  refine ⟨events, hgenerate, hall _ ⟨by decide, by decide, ?_, by decide⟩⟩
  rw [hkey]
  decide +kernel

end EndToEnd

end Clickstream.Pipeline
