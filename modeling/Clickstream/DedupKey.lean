import Clickstream.Duplicates
import Clickstream.Python.UuidSpelling

/-! The deduplication key of `olap.clicks`: the parser checks that `event_id` denotes a UUID and passes
its spelling on, by which the table is ordered. -/

namespace Clickstream.DedupKey

open Python Kit Parsing Streaming ClickHouseSink

/-- The UUID that the `event_id` of a row denotes. -/
def rowUuid (r : Row ClicksColumn) : Option Nat :=
  match r .eventId with
  | .text s => uuid s
  | _ => none

def OneRowPerUuid (t : Table (keyOf clicksOrderBy)) : Prop :=
  ∀ id, t.rows.countP (fun r => decide (rowUuid r = some id)) ≤ 1

/-- `str(data["event_id"])` has one layout in both messages. -/
def SameLayout (py : Interpreter) (raw raw' : PyStr) : Prop :=
  ∀ pairs pairs', loads py raw = .ok (.obj pairs) → loads py raw' = .ok (.obj pairs') →
    layout (coerce py pairs).eventId = layout (coerce py pairs').eventId

/-! ### Messages -/

section Messages

variable {py : Interpreter} {raw raw' : PyStr} {e e' : Event}

theorem sameLayout_iff (h : parseEvent py raw = .ok e) (h' : parseEvent py raw' = .ok e') :
    SameLayout py raw raw' ↔ layout e.eventId = layout e'.eventId := by
  obtain ⟨pairs, hloads, -, rfl, -⟩ := parseEvent_ok.mp h
  obtain ⟨pairs', hloads', -, rfl, -⟩ := parseEvent_ok.mp h'
  constructor
  · intro hlayout
    exact hlayout pairs pairs' hloads hloads'
  · intro hlayout pairs₁ pairs₁' hloads₁ hloads₁'
    rw [hloads, Except.ok.injEq, Json.obj.injEq] at hloads₁
    rw [hloads', Except.ok.injEq, Json.obj.injEq] at hloads₁'
    rw [← hloads₁, ← hloads₁', hlayout]

theorem exists_uuid (h : parseEvent py raw = .ok e) : ∃ id, uuid e.eventId = some id :=
  Option.isSome_iff_exists.mp (parseEvent_valid h).eventId

theorem eventId_eq_iff (h : parseEvent py raw = .ok e) (h' : parseEvent py raw' = .ok e')
    (huuid : uuid e.eventId = uuid e'.eventId) :
    e.eventId = e'.eventId ↔ SameLayout py raw raw' := by
  rw [sameLayout_iff h h']
  constructor
  · intro heq
    rw [heq]
  · intro hlayout
    obtain ⟨id, hid⟩ := exists_uuid h
    exact eq_of_uuid hid (huuid.symm.trans hid) hlayout

/-- The rows of a micro-batch are those of its accepted messages. -/
theorem mem_parseEvents {spark : Spark} {messages : List (Option PyStr)} {events : List ParsedEvent}
    (hparse : parseEvents py spark messages = .ok events) {row : ParsedEvent} :
    row ∈ events ↔ ∃ raw e, some raw ∈ messages ∧ parseEvent py raw = .ok e ∧ select spark e = row := by
  obtain ⟨hok, rfl⟩ := parseEvents_ok.mp hparse
  rw [List.mem_filterMap]
  constructor
  · rintro ⟨m, hm, hrow⟩
    obtain ⟨e, he, rfl⟩ := Option.map_eq_some_iff.mp hrow
    obtain ⟨raw, rfl, hraw⟩ := parseMessage_event (hok m hm) he
    exact ⟨raw, e, hm, hraw, rfl⟩
  · rintro ⟨raw, e, hm, hraw, rfl⟩
    have hmessage : parseMessage py (some raw) = .ok ⟨some e, none⟩ := by rw [parseMessage, hraw]
    refine ⟨some raw, hm, ?_⟩
    rw [eventRow, outcome_eq hmessage]
    rfl

end Messages

/-! ### The table -/

theorem mem_keys_final {events : List ParsedEvent} {k : List Value} :
    k ∈ (final clicksOrderBy (events.map clicksRow)).rows.map (keyOf clicksOrderBy) ↔
      ∃ e ∈ events, k = [.text e.eventId] := by
  rw [final, Table.mem_keys_foldl_put, List.map_map, List.mem_map]
  apply exists_congr
  intro e
  rw [Function.comp_apply, Duplicates.clicksRow_key, eq_comm]

/-- The table holds one row for each spelling that occurs. -/
theorem oneRowPerUuid_iff {events : List ParsedEvent} :
    OneRowPerUuid (final clicksOrderBy (events.map clicksRow)) ↔
      ∀ e ∈ events, ∀ e' ∈ events, ∀ id, uuid e.eventId = some id → uuid e'.eventId = some id →
        e.eventId = e'.eventId := by
  have hkey : ∀ r : Row ClicksColumn, keyOf clicksOrderBy r = [r .eventId] := fun _ => rfl
  have hrowUuid : ∀ {r : Row ClicksColumn} {s}, keyOf clicksOrderBy r = [.text s] →
      rowUuid r = uuid s := by
    intro r s h
    rw [hkey, List.singleton_inj] at h
    rw [rowUuid, h]
  constructor
  · intro h e he e' he' id hid hid'
    obtain ⟨r, hr, hrkey⟩ := List.mem_map.mp (mem_keys_final.mpr ⟨e, he, rfl⟩)
    obtain ⟨r', hr', hrkey'⟩ := List.mem_map.mp (mem_keys_final.mpr ⟨e', he', rfl⟩)
    have hsame := Table.countP_le_one_iff.mp (h id) r hr r' hr'
      (decide_eq_true ((hrowUuid hrkey).trans hid)) (decide_eq_true ((hrowUuid hrkey').trans hid'))
    rwa [hrkey, hrkey', List.singleton_inj, Value.text.injEq] at hsame
  · intro h id
    rw [Table.countP_le_one_iff]
    intro r hr r' hr' hid hid'
    obtain ⟨e, he, hrkey⟩ := mem_keys_final.mp (List.mem_map_of_mem hr)
    obtain ⟨e', he', hrkey'⟩ := mem_keys_final.mp (List.mem_map_of_mem hr')
    have huuid := (hrowUuid hrkey).symm.trans (of_decide_eq_true hid)
    have huuid' := (hrowUuid hrkey').symm.trans (of_decide_eq_true hid')
    rw [hrkey, hrkey', h e he e' he' id huuid huuid']

/-! ### From the topic to the table -/

theorem mem_flatten_events {py : Interpreter} {spark : Spark} {batches : List (List (Option PyStr))}
    {events : List (List ParsedEvent)}
    (hparse : List.Forall₂ (fun messages rows => parseEvents py spark messages = .ok rows) batches
      events) {row : ParsedEvent} :
    row ∈ events.flatten ↔ ∃ raw e, some raw ∈ batches.flatten ∧ parseEvent py raw = .ok e ∧
      select spark e = row := by
  induction hparse with
  | nil => simp
  | cons h _ ih =>
    rw [List.flatten_cons, List.mem_append, mem_parseEvents h, ih, List.flatten_cons]
    simp only [List.mem_append, or_and_right, exists_or]

/-- Accepted messages of one UUID get one `event_id`, and make one row, when the spellings of the UUID
have one layout. -/
theorem eventId_canonical_iff (py : Interpreter) (spark : Spark) :
    (∀ raw raw' e e', parseEvent py raw = .ok e → parseEvent py raw' = .ok e' →
      uuid e.eventId = uuid e'.eventId → (e.eventId = e'.eventId ↔ SameLayout py raw raw')) ∧
    ∀ batches events stored,
      List.Forall₂ (fun messages rows => parseEvents py spark messages = .ok rows) batches events →
      events.foldlM insertClicks [] = some stored →
        (OneRowPerUuid (final clicksOrderBy stored) ↔
          ∀ raw raw' e e', some raw ∈ batches.flatten → some raw' ∈ batches.flatten →
            parseEvent py raw = .ok e → parseEvent py raw' = .ok e' →
              uuid e.eventId = uuid e'.eventId → SameLayout py raw raw') := by
  constructor
  · intro raw raw' e e' h h' huuid
    exact eventId_eq_iff h h' huuid
  · intro batches events stored hparse hstored
    rw [Duplicates.insertClicks_flatten hstored, List.nil_append, oneRowPerUuid_iff]
    constructor
    · intro hone raw raw' e e' hraw hraw' h h' huuid
      obtain ⟨id, hid⟩ := exists_uuid h
      apply (eventId_eq_iff h h' huuid).mp
      exact hone (select spark e) ((mem_flatten_events hparse).mpr ⟨raw, e, hraw, h, rfl⟩)
        (select spark e') ((mem_flatten_events hparse).mpr ⟨raw', e', hraw', h', rfl⟩) id hid
        (huuid.symm.trans hid)
    · intro hlayout row hrow row' hrow' id hid hid'
      obtain ⟨raw, e, hraw, h, rfl⟩ := (mem_flatten_events hparse).mp hrow
      obtain ⟨raw', e', hraw', h', rfl⟩ := (mem_flatten_events hparse).mp hrow'
      have huuid : uuid e.eventId = uuid e'.eventId := hid.trans hid'.symm
      exact (eventId_eq_iff h h' huuid).mpr (hlayout raw raw' e e' hraw hraw' h h' huuid)

/-- The event of the producer's tests with its UUID in upper case. -/
def upperCase : Event :=
  { Schema.sample (lit "2026-08-27T15:00:00Z") with
    eventId := lit "123E4567-E89B-42D3-A456-426614174000" }

theorem valid_upperCase : Valid Schema.vocabulary upperCase := by
  have h := Schema.valid_sample_base
  have huuid : (uuid upperCase.eventId).isSome = true := by decide +kernel
  exact ⟨h.eventType, h.device, h.region, h.campaignId, h.referrer, h.page, huuid, h.userId,
    h.sessionId, h.ts⟩

theorem not_eventId_canonical : ¬∀ py spark,
    (∀ raw raw' e e', parseEvent py raw = .ok e → parseEvent py raw' = .ok e' →
      uuid e.eventId = uuid e'.eventId → e.eventId = e'.eventId) ∧
    ∀ batches events stored,
      List.Forall₂ (fun messages rows => parseEvents py spark messages = .ok rows) batches events →
      events.foldlM insertClicks [] = some stored →
        OneRowPerUuid (final clicksOrderBy stored) := by
  intro h
  have hscalar : upperCase.ScalarFields := by
    intro f
    cases f <;> exact scalar_lit _
  have hlower := WireFormat.parseEvent_toJson cpython ⟨_, Schema.valid_sample_base⟩
    (Schema.scalarFields_sample (scalar_lit _))
  have hupper := WireFormat.parseEvent_toJson cpython ⟨upperCase, valid_upperCase⟩ hscalar
  have hequal := (h cpython paddedSpark).1 _ _ _ _ hlower hupper (by decide +kernel)
  revert hequal
  decide

end Clickstream.DedupKey
