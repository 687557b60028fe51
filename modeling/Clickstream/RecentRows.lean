import Clickstream.ClickHouseRuns
import Clickstream.Kit.Ranking

/-! The newest rows of the ClickHouse tables, as the API reads them with `FINAL`.  `ORDER BY` names one
column, so rows of the same time come in any order. -/

namespace Clickstream.RecentRows

open Python Kit Streaming ClickHouseSink Refinement ClickHouseRuns

def timestampOf : Value → Int
  | .timestamp t => t
  | _ => 0

/-- `SELECT columns FROM table FINAL ORDER BY time DESC LIMIT limit` may answer this. -/
def Newest {γ : Type} (time : γ) (columns : List γ) (limit : Nat) (rows : List (Row γ))
    (answer : List (List Value)) : Prop :=
  ∃ newest, (RankOrder.descending fun r : Row γ => timestampOf (r time)).Answers limit rows newest ∧
    answer = newest.map fun r => columns.map r

/-- The columns that `query_recent_events` selects; it leaves out `session_id`. -/
def recentEventsColumns : List ClicksColumn :=
  [.eventId, .eventType, .userId, .page, .device, .region, .campaignId, .referrer, .ts]

def timelineColumns : List PageViewsColumn := [.windowStart, .page, .device, .views, .users]

def QueryRecentEvents (limit : Nat) (log : List (Row ClicksColumn)) (answer : List (List Value)) :
    Prop := Newest .ts recentEventsColumns limit (final clicksOrderBy log).rows answer

def QueryTimeline (limit : Nat) (log : List (Row PageViewsColumn)) (answer : List (List Value)) :
    Prop := Newest .windowStart timelineColumns limit (final pageViewsOrderBy log).rows answer

/-- The last event with an `event_id`. -/
def lastEvent (l : List ParsedEvent) (id : PyStr) : Option ParsedEvent :=
  l.reverse.find? fun e => decide (e.eventId = id)

def selectRecent (e : ParsedEvent) : List Value := recentEventsColumns.map (clicksRow e)

/-- With `l` consumed and `batch` at hand: each event shown is the last with its `event_id` in a prefix
that reaches into `batch`, and none is older than what an `event_id` left out is read as. -/
structure NewestEvents (l batch : List ParsedEvent) (limit : Nat) (shown : List ParsedEvent) : Prop where
  length : shown.length ≤ limit
  nodup : (shown.map ParsedEvent.eventId).Nodup
  order : shown.Pairwise fun e e' => timestampOf (clicksRow e' .ts) ≤ timestampOf (clicksRow e .ts)
  last : ∀ e ∈ shown, ∃ m, m <+: batch ∧ lastEvent (l ++ m) e.eventId = some e
  omitted : ∀ e ∈ l, e.eventId ∉ shown.map ParsedEvent.eventId → shown.length = limit ∧
    ∃ m e', m <+: batch ∧ lastEvent (l ++ m) e.eventId = some e' ∧
      ∀ s ∈ shown, timestampOf (clicksRow e' .ts) ≤ timestampOf (clicksRow s .ts)

theorem exists_map_eq {α β : Type} {f : α → β} {p : α → Prop} {rows : List β}
    (h : ∀ r ∈ rows, ∃ e, f e = r ∧ p e) : ∃ l : List α, l.map f = rows ∧ ∀ e ∈ l, p e := by
  induction rows with
  | nil => exact ⟨[], rfl, fun e he => absurd he List.not_mem_nil⟩
  | cons r rows ih =>
    obtain ⟨⟨e, he, hp⟩, hrest⟩ := List.forall_mem_cons.mp h
    obtain ⟨l, rfl, hl⟩ := ih hrest
    exact ⟨e :: l, by rw [List.map_cons, he], List.forall_mem_cons.mpr ⟨hp, hl⟩⟩

section Clicks

variable {events l : List ParsedEvent} {job : ClicksJob}

/-- What a read finds under an `event_id`. -/
theorem read_clicks (h : clicksFeed.Consumed events l job) (id : PyStr) :
    ∃ m, m <+: job.pending.headD [] ∧ (final clicksOrderBy job.log).get [.text id] =
      (lastEvent (l ++ m) id).map clicksRow := by
  obtain ⟨m, hm, hread⟩ := h.reads [.text id]
  refine ⟨m, ?_, ?_⟩
  · rcases hm with rfl | ⟨batch, rest, hpending, hprefix⟩
    · exact List.nil_prefix
    · rw [hpending]
      exact hprefix
  · rw [get_final, hread]
    exact lastRow_clicks (l ++ m) id

/-- Every row that `FINAL` reads is that of the last event with its `event_id`. -/
theorem exists_event (h : clicksFeed.Consumed events l job) {r : Row ClicksColumn}
    (hr : r ∈ (final clicksOrderBy job.log).rows) : ∃ e, clicksRow e = r ∧
      ∃ m, m <+: job.pending.headD [] ∧ lastEvent (l ++ m) e.eventId = some e := by
  obtain ⟨m, -, hread⟩ := h.reads (keyOf clicksOrderBy r)
  have htarget := hread.symm.trans (mem_final.mp hr)
  obtain ⟨hmem, -⟩ := mem_of_lastRow htarget
  obtain ⟨e', -, rfl⟩ := List.mem_map.mp hmem
  obtain ⟨m', hm', hget⟩ := read_clicks h e'.eventId
  have hrow : (final clicksOrderBy job.log).get [.text e'.eventId] = some (clicksRow e') :=
    Table.get_eq_some_iff.mpr ⟨hr, rfl⟩
  obtain ⟨e, he, heq⟩ := Option.map_eq_some_iff.mp (hget.symm.trans hrow)
  have hid : e.eventId = e'.eventId := by
    have hkey := congrFun heq .eventId
    exact Value.text.inj hkey
  exact ⟨e, heq, m', hm', hid ▸ he⟩

theorem lastEvent_of_mem {e : ParsedEvent} (he : e ∈ l) (m : List ParsedEvent) :
    lastEvent (l ++ m) e.eventId ≠ none := by
  intro hnone
  have h := List.find?_eq_none.mp hnone e (List.mem_reverse.mpr (List.mem_append_left m he))
  simp at h

/-- The rows of an answer are those of the newest events. -/
theorem newestEvents (h : clicksFeed.Consumed events l job) {limit : Nat} {answer : List (List Value)}
    (hanswer : QueryRecentEvents limit job.log answer) : ∃ shown, answer = shown.map selectRecent ∧
      NewestEvents l (job.pending.headD []) limit shown := by
  obtain ⟨newest, hanswers, rfl⟩ := hanswer
  have hsub := hanswers.subperm
  obtain ⟨shown, rfl, hlast⟩ := exists_map_eq (f := clicksRow) fun r hr => exists_event h (hsub.subset hr)
  have hlength : (shown.map clicksRow).length = shown.length := List.length_map ..
  refine ⟨shown, by rw [List.map_map]; rfl, ?_, ?_, ?_, hlast, ?_⟩
  · rw [← hlength, hanswers.length]
    exact Nat.min_le_left ..
  · have hkeys : ((shown.map clicksRow).map (keyOf clicksOrderBy)).Nodup := by
      obtain ⟨sorted, hsorted, hsublist⟩ := hsub
      exact ((hsorted.map _).nodup_iff).mp ((Table.distinct _).sublist (hsublist.map _))
    rw [List.map_map] at hkeys
    refine List.Nodup.of_map (fun id => [Value.text id]) ?_
    rw [List.map_map]
    exact hkeys
  · have hsorted := hanswers.sorted
    rw [List.pairwise_map] at hsorted
    exact hsorted.imp fun hle => of_decide_eq_true hle
  · intro e he hout
    obtain ⟨m, hm, hread⟩ := read_clicks h e.eventId
    obtain ⟨e', he'⟩ := Option.ne_none_iff_exists'.mp (lastEvent_of_mem he m)
    rw [he'] at hread
    obtain ⟨hmem, hkey⟩ := Table.get_eq_some_iff.mp hread
    have hid : e'.eventId = e.eventId := Value.text.inj (List.cons.inj hkey).1
    have hnot : clicksRow e' ∉ shown.map clicksRow := by
      intro hin
      obtain ⟨s, hs, hrow⟩ := List.mem_map.mp hin
      have hs' : s.eventId = e'.eventId := Value.text.inj (congrFun hrow .eventId)
      exact hout (List.mem_map.mpr ⟨s, hs, hs'.trans hid⟩)
    refine ⟨?_, m, e', hm, he', fun s hs => ?_⟩
    · by_contra hne
      have hall := hanswers.length
      have hle : (final clicksOrderBy job.log).rows.length ≤ limit := by omega
      exact hnot ((hanswers.perm_of_le hle).mem_iff.mpr hmem)
    · exact of_decide_eq_true (hanswers.outranks (List.mem_map_of_mem hs) hmem hnot)

end Clicks

/-- Every answer of `query_recent_events` lists the newest of the events that the job has consumed. -/
def ListsNewest (events : List ParsedEvent) (job : ClicksJob) : Prop :=
  ∃ l, l ++ job.pending.flatten = events ∧ ∀ limit answer, QueryRecentEvents limit job.log answer →
    ∃ shown, answer = shown.map selectRecent ∧ NewestEvents l (job.pending.headD []) limit shown

/-- At every moment of every run the recent events are the newest of a prefix of the events, one for each
`event_id`. -/
theorem recentEvents_of_reaches {events : List ParsedEvent} {batches : List (List ParsedEvent)}
    (hbatches : batches.flatten = events) {job : ClicksJob} (hreach : ClicksReaches batches job) :
    ListsNewest events job := by
  obtain ⟨l, hl⟩ := consumed_of_feedReaches (lawful_rowFeed events) hbatches hreach
  exact ⟨l, hl.split, fun limit answer hanswer => newestEvents hl hanswer⟩

/-- The first visit's `event_id` is used once more. -/
def repeatedEvents : List ParsedEvent :=
  visitEvents ++ [select paddedSpark
    (visit "00000000-0000-4000-8000-000000000001" "/pricing" "c-1" "1970-01-01T00:02:00Z")]

theorem recentEvents_of_reaches_repeated :
    ∃ job : ClicksJob, job.pending = [] ∧ ListsNewest repeatedEvents job := by
  have hts : repeatedEvents.map ParsedEvent.ts =
      [70 * second, 100 * second, 10 * second, 120 * second].map some := by decide +kernel
  have hbatches : [repeatedEvents.take 2, repeatedEvents.drop 2].flatten = repeatedEvents := by
    rw [List.flatten_cons, List.flatten_singleton, List.take_append_drop]
  obtain ⟨job, hreach, hpending⟩ :=
    exists_completed_run (clicks_progress (inRange_of_times hts (by decide)) _ hbatches)
  exact ⟨job, hpending, recentEvents_of_reaches hbatches hreach⟩

/-- Behind completed runs the timeline may be answered as the same query over the curated table. -/
theorem queryTimeline_iff {spark : Spark} {events : List ParsedEvent} {t : Duplicates.FinalTables}
    (hdone : Completed spark events t) (h : BoundedDisorder events) (limit : Nat)
    (answer : List (List Value)) : QueryTimeline limit t.olapPageViews answer ↔
      Newest .windowStart timelineColumns limit t.pageViews.table.rows answer := by
  have hperm := (hdone.pageViews_perm h).trans (hdone.olapPageViews_perm h).symm
  constructor
  · rintro ⟨newest, hnewest, rfl⟩
    exact ⟨newest, hnewest.perm hperm.symm, rfl⟩
  · rintro ⟨newest, hnewest, rfl⟩
    exact ⟨newest, hnewest.perm hperm, rfl⟩

end Clickstream.RecentRows
