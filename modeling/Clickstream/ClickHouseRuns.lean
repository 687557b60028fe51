import Clickstream.Accounting
import Clickstream.Duplicates
import Clickstream.Kit.Feed
import Clickstream.Refinement

/-! The streaming job with its ClickHouse sink.  An insert may be cut off by a crash with a part of its
rows written, its micro-batch is executed again, and the server merges adjacent parts of a table
whenever it likes.  What `FINAL` reads is the view of the consumed events all the same. -/

namespace Clickstream.ClickHouseRuns

open Python Kit Streaming PostgresSink ClickHouseSink Refinement Duplicates

/-! ### The two queries -/

def pageViewsFeed (spark : Spark) :
    Feed ParsedEvent (QueryState ParsedEvent PageViewsKey) (keyOf pageViewsOrderBy) :=
  (pageViewsView spark).feed

def clicksFeed : Feed ParsedEvent Unit (keyOf clicksOrderBy) := rowFeed (keyOf clicksOrderBy) clicksRow

abbrev PageViewsJob := FeedJob ParsedEvent (QueryState ParsedEvent PageViewsKey) (Row PageViewsColumn)

abbrev ClicksJob := FeedJob ParsedEvent Unit (Row ClicksColumn)

/-- Rows whose `DateTime` column the client can write. -/
def fitsPageViews (r : Row PageViewsColumn) : Bool := isDateTime (r .windowStart)

def fitsClicks (r : Row ClicksColumn) : Bool := isDateTime (r .ts)

def PageViewsStep (spark : Spark) : PageViewsJob → PageViewsJob → Prop :=
  FeedStep (pageViewsFeed spark) fitsPageViews

def ClicksStep : ClicksJob → ClicksJob → Prop := FeedStep clicksFeed fitsClicks

def PageViewsReaches (spark : Spark) (batches : List (List ParsedEvent)) (job : PageViewsJob) : Prop :=
  FeedReaches (pageViewsFeed spark) fitsPageViews batches job

def ClicksReaches (batches : List (List ParsedEvent)) (job : ClicksJob) : Prop :=
  FeedReaches clicksFeed fitsClicks batches job

/-- The completed inserts of a job are those of `client.insert`. -/
theorem insertPageViews_log {stored rows : List (Row PageViewsColumn)} :
    insertPageViews stored rows = some (stored ++ rows) ↔ rows.all fitsPageViews = true := by
  rw [insertPageViews, ClickHouseSink.insert]
  split
  · rename_i h
    exact iff_of_true rfl h
  · rename_i h
    exact iff_of_false (fun heq => by cases heq) h

theorem insertClicks_log {stored : List (Row ClicksColumn)} {batch : List ParsedEvent} :
    insertClicks stored batch = some (stored ++ batch.map clicksRow) ↔
      (batch.map clicksRow).all fitsClicks = true := by
  rw [insertClicks, ClickHouseSink.insert]
  split
  · rename_i h
    exact iff_of_true rfl h
  · rename_i h
    exact iff_of_false (fun heq => by cases heq) h

/-! ### What `FINAL` reads -/

section Final

variable {γ : Type} [DecidableEq γ] {orderBy : List γ} {log log' : List (Row γ)}

omit [DecidableEq γ] in
theorem get_final (k : List Value) : (final orderBy log).get k = lastRow (keyOf orderBy) log k :=
  get_foldl_put_empty log k

omit [DecidableEq γ] in
theorem mem_final {r : Row γ} :
    r ∈ (final orderBy log).rows ↔ lastRow (keyOf orderBy) log (keyOf orderBy r) = some r := by
  rw [← get_final, Table.get_eq_some_iff]
  exact (and_iff_left rfl).symm

omit [DecidableEq γ] in
theorem final_perm (h : SameReads (keyOf orderBy) log log') :
    (final orderBy log).rows.Perm (final orderBy log').rows := by
  apply Table.perm_of_get_eq
  intro k
  rw [get_final, get_final, h k]

/-- The table has rows of `old` and `new` only, and one under every key of `old`. -/
structure ReadsBetween (t : Table (keyOf orderBy)) (old new : List (Row γ)) : Prop where
  sound : ∀ r ∈ t.rows, r ∈ old ∨ r ∈ new
  complete : ∀ r ∈ old, ∃ r' ∈ t.rows, keyOf orderBy r' = keyOf orderBy r

end Final

/-- A moment that a `DateTime` holds. -/
def InRange (t : Int) : Prop := 0 ≤ t ∧ t < 2 ^ 32 * second

instance (t : Int) : Decidable (InRange t) := inferInstanceAs (Decidable (_ ∧ _))

/-- Over every cut into micro-batches and every run with crashes, partial inserts and merges: a completed
run leaves the one-shot aggregation, every read lies between the view of the events in front of the
micro-batch at hand and that of the events with it, no count goes down, and if every window fits the
column, the next micro-batch can be completed. -/
structure PageViewsRefine (spark : Spark) (events : List ParsedEvent) : Prop where
  completed : ∀ batches, batches.flatten = events → ∀ job, PageViewsReaches spark batches job →
    job.pending = [] →
    (final pageViewsOrderBy job.log).rows.Perm ((pageViews1m spark events).map PageViews.toRow)
  between : ∀ batches, batches.flatten = events → ∀ job, PageViewsReaches spark batches job →
    ∃ l, l ++ job.pending.flatten = events ∧ ReadsBetween (final pageViewsOrderBy job.log)
      ((pageViews1m spark l).map PageViews.toRow)
      ((pageViews1m spark (l ++ job.pending.headD [])).map PageViews.toRow)
  growth : ∀ batches, batches.flatten = events → ∀ job job', PageViewsReaches spark batches job →
    PageViewsStep spark job job' → CountsGrow pageViewsCounts
      (final pageViewsOrderBy job.log) (final pageViewsOrderBy job'.log)
  progress : (∀ r ∈ pageViews1m spark events, InRange r.windowStart) → ∀ batches,
    batches.flatten = events → ∀ job, PageViewsReaches spark batches job → ∀ batch rest,
    job.pending = batch :: rest → ∃ job', PageViewsStep spark job job' ∧ job'.pending = rest

section PageViewsTable

variable {spark : Spark} {events : List ParsedEvent} {batches : List (List ParsedEvent)}

theorem lawful_pageViewsFeed (spark : Spark) (h : BoundedDisorder events) :
    (pageViewsFeed spark).Lawful events :=
  lawful_feed (v := pageViewsView spark) h

theorem perm_viewRows {log : List (Row PageViewsColumn)}
    (h : ∀ k, lastRow (keyOf pageViewsOrderBy) log k = (pageViewsFeed spark).target events k) :
    (final pageViewsOrderBy log).rows.Perm ((pageViewsView spark).rows events) := by
  refine Table.perm_of_get_eq (t := final pageViewsOrderBy log)
    (u := ⟨_, View.nodup_rows (v := (pageViewsView spark).toView) events⟩) fun k => ?_
  rw [get_final, h k, ← lastRow_rows]
  rfl

/-- The rows of a micro-batch are in windows of the events. -/
theorem fits_output (hrange : ∀ r ∈ pageViews1m spark events, InRange r.windowStart)
    (s : QueryState ParsedEvent PageViewsKey) {batch : List ParsedEvent}
    (hbatch : ∀ e ∈ batch, e ∈ events) :
    ((pageViewsView spark).output s batch).all fitsPageViews = true := by
  rw [List.all_eq_true]
  intro r hr
  obtain ⟨k, hk, rfl⟩ := List.mem_map.mp hr
  obtain ⟨e, he, hkey⟩ := mem_groupKeys.mp hk
  have hrow : pageViewsRow spark k (group pageViewsKey events k) ∈ pageViews1m spark events :=
    mem_aggregate.mpr ⟨k, mem_groupKeys.mpr ⟨e, hbatch e he, hkey⟩, rfl⟩
  have hin : InRange k.1 := hrange _ hrow
  exact decide_eq_true hin

/-- A read finds the row of a group behind the consumed events, or behind the micro-batch at hand. -/
theorem readsBetween {l : List ParsedEvent} {job : PageViewsJob}
    (hl : (pageViewsFeed spark).Consumed events l job) :
    ReadsBetween (final pageViewsOrderBy job.log) ((pageViewsView spark).rows l)
      ((pageViewsView spark).rows (l ++ job.pending.headD [])) := by
  have hreads := reads_or (v := pageViewsView spark) hl
  constructor
  · intro r hr
    rw [mem_final] at hr
    rcases hreads (keyOf pageViewsOrderBy r) with hread | hread
    · exact .inl (mem_of_lastRow (hread.symm.trans hr)).1
    · exact .inr (mem_of_lastRow (hread.symm.trans hr)).1
  · intro r hr
    have hexists : ∃ r',
        lastRow (keyOf pageViewsOrderBy) job.log (keyOf pageViewsOrderBy r) = some r' := by
      rcases hreads (keyOf pageViewsOrderBy r) with hread | hread
      · exact ⟨r, hread.trans (lastRow_viewRows hr)⟩
      · obtain ⟨r', hr'⟩ := exists_lastRow_append hr (job.pending.headD [])
        exact ⟨r', hread.trans hr'⟩
    obtain ⟨r', hr'⟩ := hexists
    have hkey := (mem_of_lastRow hr').2
    exact ⟨r', mem_final.mpr (hkey ▸ hr'), hkey⟩

theorem pageViews_progress (spark : Spark) (h : BoundedDisorder events)
    (hrange : ∀ r ∈ pageViews1m spark events, InRange r.windowStart)
    (batches : List (List ParsedEvent)) (hbatches : batches.flatten = events) (job : PageViewsJob)
    (hreach : PageViewsReaches spark batches job) (batch : List ParsedEvent)
    (rest : List (List ParsedEvent)) (hpending : job.pending = batch :: rest) :
    ∃ job', PageViewsStep spark job job' ∧ job'.pending = rest := by
  have hlaws := lawful_pageViewsFeed spark h
  obtain ⟨l, hl⟩ := consumed_of_feedReaches hlaws hbatches hreach
  have hemits := (pageViewsView spark).emits_output (fun _ => false) job.state batch
  have hkept : (batch.filter fun e => !(fun _ : ParsedEvent => false) e) = batch :=
    List.filter_eq_self.mpr fun _ _ => rfl
  rw [hkept] at hemits
  have hbatch : ∀ e ∈ batch, e ∈ events := by
    intro e he
    rw [← hl.split, hpending, List.flatten_cons]
    exact List.mem_append_right _ (List.mem_append_left _ he)
  refine ⟨_, .finish [(pageViewsView spark).output job.state batch] hpending
    ⟨fun _ => false, fun _ _ hfalse => Bool.noConfusion hfalse, hemits⟩ (List.flatten_singleton)
    (fits_output hrange job.state hbatch), rfl⟩

/-- `olap.page_views_1m` with `FINAL` refines the one-shot aggregation of page views. -/
theorem pageViews_refine (h : BoundedDisorder events) : PageViewsRefine spark events where
  completed batches hbatches job hreach hpending := by
    have hlaws := lawful_pageViewsFeed spark h
    rw [← pageViewsView_rows]
    exact perm_viewRows (lastRow_of_feedReaches hlaws hbatches hreach hpending)
  between batches hbatches job hreach := by
    have hlaws := lawful_pageViewsFeed spark h
    obtain ⟨l, hl⟩ := consumed_of_feedReaches hlaws hbatches hreach
    refine ⟨l, hl.split, ?_⟩
    rw [← pageViewsView_rows, ← pageViewsView_rows]
    exact readsBetween hl
  growth batches hbatches job job' hreach hstep := by
    have hlaws := lawful_pageViewsFeed spark h
    obtain ⟨l, hl⟩ := consumed_of_feedReaches hlaws hbatches hreach
    intro r hr
    rw [mem_final] at hr
    obtain ⟨k, a, b, rfl, hread⟩ := grows_of_feedStep (v := pageViewsView spark) h hl hstep hr
    refine ⟨(pageViewsView spark).row k (group pageViewsKey (a ++ b) k), mem_final.mpr hread, rfl, ?_⟩
    rw [group_append]
    exact pageViewsRow_countsLe k _ _
  progress hrange := pageViews_progress spark h hrange

end PageViewsTable

/-! ### `olap.clicks` -/

/-- Over every cut into micro-batches and every run with crashes, partial inserts and merges: a completed
run leaves one row for each `event_id`, that of the last event with it, a read finds the row of the
last event with its `event_id` in some prefix, and the next micro-batch can be completed. -/
structure ClicksRefine (events : List ParsedEvent) : Prop where
  completed : ∀ batches, batches.flatten = events → ∀ job, ClicksReaches batches job →
    job.pending = [] →
    (final clicksOrderBy job.log).rows.length = (events.map ParsedEvent.eventId).dedup.length ∧
      ∀ id, (final clicksOrderBy job.log).get [.text id] =
        (events.reverse.find? fun e => decide (e.eventId = id)).map clicksRow
  between : ∀ batches, batches.flatten = events → ∀ job, ClicksReaches batches job →
    ∃ l, l ++ job.pending.flatten = events ∧ ∀ id, ∃ m, m <+: job.pending.headD [] ∧
      (final clicksOrderBy job.log).get [.text id] =
        ((l ++ m).reverse.find? fun e => decide (e.eventId = id)).map clicksRow
  progress : (∀ e ∈ events, ∃ t, e.ts = some t ∧ InRange t) → ∀ batches, batches.flatten = events →
    ∀ job, ClicksReaches batches job → ∀ batch rest, job.pending = batch :: rest →
    ∃ job', ClicksStep job job' ∧ job'.pending = rest

section ClicksTable

variable {events : List ParsedEvent}

theorem lastRow_clicks (l : List ParsedEvent) (id : PyStr) :
    lastRow (keyOf clicksOrderBy) (l.map clicksRow) [.text id] =
      (l.reverse.find? fun e => decide (e.eventId = id)).map clicksRow := by
  rw [lastRow, ← List.map_reverse, List.find?_map]
  congr 2
  funext e
  have hkey : keyOf clicksOrderBy (clicksRow e) = [.text id] ↔ e.eventId = id := by
    show [Value.text e.eventId] = [.text id] ↔ e.eventId = id
    rw [List.cons.injEq, Value.text.injEq]
    exact and_iff_left rfl
  exact decide_eq_decide.mpr hkey

/-- `FINAL` reads one row for each `event_id`. -/
theorem clicks_keys (events : List ParsedEvent) :
    ((final clicksOrderBy (events.map clicksRow)).rows.map (keyOf clicksOrderBy)).Perm
      ((events.map ParsedEvent.eventId).dedup.map fun id => [Value.text id]) := by
  have hinjective : Function.Injective fun id : PyStr => [Value.text id] := by
    intro id id' h
    exact Value.text.inj (List.cons.inj h).1
  rw [List.perm_ext_iff_of_nodup (Table.distinct _) ((List.nodup_dedup _).map hinjective)]
  intro k
  rw [final, Table.mem_keys_foldl_put]
  simp only [List.mem_map, List.mem_dedup, exists_exists_and_eq_and]
  rfl

theorem clicks_progress (hrange : ∀ e ∈ events, ∃ t, e.ts = some t ∧ InRange t)
    (batches : List (List ParsedEvent)) (hbatches : batches.flatten = events) (job : ClicksJob)
    (hreach : ClicksReaches batches job) (batch : List ParsedEvent) (rest : List (List ParsedEvent))
    (hpending : job.pending = batch :: rest) : ∃ job', ClicksStep job job' ∧ job'.pending = rest := by
  have hlaws : clicksFeed.Lawful events := lawful_rowFeed events
  obtain ⟨l, hl⟩ := consumed_of_feedReaches hlaws hbatches hreach
  have hfits : (batch.map clicksRow).all fitsClicks = true := by
    rw [List.all_eq_true]
    intro r hr
    obtain ⟨e, he, rfl⟩ := List.mem_map.mp hr
    have hmem : e ∈ events := by
      rw [← hl.split, hpending, List.flatten_cons]
      exact List.mem_append_right _ (List.mem_append_left _ he)
    obtain ⟨t, ht, hin⟩ := hrange e hmem
    have hts : clicksRow e .ts = .timestamp t := by
      rw [clicksRow, ht]
      rfl
    rw [fitsClicks, hts]
    exact decide_eq_true hin
  exact ⟨⟨(), rest, job.parts ++ [batch.map clicksRow]⟩,
    .finish [batch.map clicksRow] hpending rfl List.flatten_singleton hfits, rfl⟩

/-- `olap.clicks` with `FINAL` keeps the last event of each `event_id`. -/
theorem clicks_refine (events : List ParsedEvent) : ClicksRefine events where
  completed batches hbatches job hreach hpending := by
    have hlaws : clicksFeed.Lawful events := lawful_rowFeed events
    have hread := lastRow_of_feedReaches hlaws hbatches hreach hpending
    have hperm : (final clicksOrderBy job.log).rows.Perm
        (final clicksOrderBy (events.map clicksRow)).rows := final_perm hread
    refine ⟨?_, fun id => ?_⟩
    · rw [hperm.length_eq, ← List.length_map (keyOf clicksOrderBy), (clicks_keys events).length_eq,
        List.length_map]
    · rw [get_final, hread]
      exact lastRow_clicks events id
  between batches hbatches job hreach := by
    have hlaws : clicksFeed.Lawful events := lawful_rowFeed events
    obtain ⟨l, hl⟩ := consumed_of_feedReaches hlaws hbatches hreach
    refine ⟨l, hl.split, fun id => ?_⟩
    obtain ⟨m, hm, hread⟩ := hl.reads [.text id]
    refine ⟨m, ?_, ?_⟩
    · rcases hm with rfl | ⟨batch, rest, hpending, hprefix⟩
      · exact List.nil_prefix
      · rw [hpending]
        exact hprefix
    · rw [get_final, hread]
      exact lastRow_clicks (l ++ m) id
  progress hrange := clicks_progress hrange

end ClicksTable

/-! ### The four tables -/

/-- `toStartOfMinute` -/
def toStartOfMinute : Value → Value
  | .timestamp t => .timestamp (windowStart t)
  | v => v

/-- The click is a page view of the window, page and device of the row. -/
def countedByPageViews (r : Row PageViewsColumn) (click : Row ClicksColumn) : Bool :=
  decide (click .eventType = .text (lit "page_view") ∧ toStartOfMinute (click .ts) = r .windowStart ∧
    click .page = r .page ∧ click .device = r .device)

def countedByCampaign (r : Row CampaignStatsColumn) (click : Row ClicksColumn) : Bool :=
  decide (toStartOfMinute (click .ts) = r .windowStart ∧ click .campaignId = r .campaignId)

/-- How many rows of `olap.clicks` of an event type the row of a campaign counts. -/
def campaignCount (eventType : PyStr) (r : Row CampaignStatsColumn) (clicks : List (Row ClicksColumn)) :
    Nat :=
  clicks.countP fun click => countedByCampaign r click && decide (click .eventType = .text eventType)

/-- The four queries have completed their runs over the same events, each in a cut of its own. -/
structure Completed (spark : Spark) (events : List ParsedEvent) (t : FinalTables) : Prop where
  pageViews : ∃ batches job, batches.flatten = events ∧
    Reaches (pageViewsView spark) upsertPageViews batches job ∧ job.pending = [] ∧ job.db = t.pageViews
  campaignStats : ∃ batches job, batches.flatten = events ∧
    Reaches (campaignStatsView spark) upsertCampaignStats batches job ∧ job.pending = [] ∧
      job.db = t.campaignStats
  olapPageViews : ∃ batches job, batches.flatten = events ∧ PageViewsReaches spark batches job ∧
    job.pending = [] ∧ job.log = t.olapPageViews
  clicks : ∃ batches job, batches.flatten = events ∧ ClicksReaches batches job ∧ job.pending = [] ∧
    job.log = t.clicks

/-- Both tables of page views have the same rows, and the aggregates count the rows of `olap.clicks`. -/
structure TablesAgree (t : FinalTables) : Prop where
  pageViews : t.pageViews.table.rows.Perm (final pageViewsOrderBy t.olapPageViews).rows
  views : ∀ r ∈ t.pageViews.table.rows,
    r .views = .bigint ((final clicksOrderBy t.clicks).rows.countP (countedByPageViews r))
  events : ∀ r ∈ t.campaignStats.table.rows,
    r .events = .bigint ((final clicksOrderBy t.clicks).rows.countP (countedByCampaign r))
  campaignViews : ∀ r ∈ t.campaignStats.table.rows,
    r .views = .bigint (campaignCount (lit "page_view") r (final clicksOrderBy t.clicks).rows)
  clicks : ∀ r ∈ t.campaignStats.table.rows,
    r .clicks = .bigint (campaignCount (lit "click") r (final clicksOrderBy t.clicks).rows)
  conversions : ∀ r ∈ t.campaignStats.table.rows,
    r .conversions = .bigint (campaignCount (lit "purchase") r (final clicksOrderBy t.clicks).rows)

section Agreement

variable {spark : Spark} {events : List ParsedEvent}

/-- Without a shared `event_id`, `FINAL` reads every event. -/
theorem final_clicks_perm (hunique : (events.map ParsedEvent.eventId).Nodup) :
    (final clicksOrderBy (events.map clicksRow)).rows.Perm (events.map clicksRow) := by
  have hkeys : ((events.map clicksRow).map (keyOf clicksOrderBy)).Nodup := by
    have hmap : (events.map clicksRow).map (keyOf clicksOrderBy) =
        (events.map ParsedEvent.eventId).map fun id => [Value.text id] := by
      rw [List.map_map, List.map_map]
      rfl
    rw [hmap]
    exact hunique.map fun id id' h => Value.text.inj (List.cons.inj h).1
  refine Table.perm_of_get_eq (u := ⟨_, hkeys⟩) fun k => ?_
  rw [get_final, ← lastRow_rows]

theorem countedByPageViews_clicksRow (k : PageViewsKey) (l : List ParsedEvent) (e : ParsedEvent) :
    countedByPageViews ((pageViewsRow spark k l).toRow) (clicksRow e) = true ↔
      e.eventType = lit "page_view" ∧ pageViewsKey e = some k := by
  obtain ⟨w, page, device⟩ := k
  rw [countedByPageViews, decide_eq_true_iff]
  cases hts : e.ts with
  | none => simp [clicksRow, hts, toStartOfMinute, PageViews.toRow, pageViewsKey]
  | some t => simp [clicksRow, hts, toStartOfMinute, PageViews.toRow, pageViewsRow, pageViewsKey]

theorem countedByCampaign_clicksRow (k : CampaignKey) (l : List ParsedEvent) (e : ParsedEvent) :
    countedByCampaign ((campaignStatsRow spark k l).toRow) (clicksRow e) = true ↔
      campaignKey e = some k := by
  obtain ⟨w, campaignId⟩ := k
  rw [countedByCampaign, decide_eq_true_iff]
  cases hts : e.ts with
  | none => simp [clicksRow, hts, toStartOfMinute, CampaignStats.toRow, campaignKey]
  | some t => simp [clicksRow, hts, toStartOfMinute, CampaignStats.toRow, campaignStatsRow, campaignKey]

theorem campaignCount_clicksRow (eventType : PyStr) (k : CampaignKey) (l : List ParsedEvent) :
    campaignCount eventType ((campaignStatsRow spark k l).toRow) (events.map clicksRow) =
      countType eventType (group campaignKey events k) := by
  rw [campaignCount, List.countP_map, countType_eq_countP, group, List.countP_filter]
  apply List.countP_congr
  intro e _
  rw [Function.comp_apply, Bool.and_eq_true, Bool.and_eq_true, countedByCampaign_clicksRow,
    decide_eq_true_iff, decide_eq_true_iff, decide_eq_true_iff, and_comm]
  exact and_congr_left fun _ => ⟨Value.text.inj, congrArg Value.text⟩

section Tables

variable {t : FinalTables} (hdone : Completed spark events t) (h : BoundedDisorder events)
include hdone h

theorem Completed.pageViews_perm : t.pageViews.table.rows.Perm ((pageViewsView spark).rows events) := by
  obtain ⟨batches, job, hbatches, hreach, hpending, hdb⟩ := hdone.pageViews
  have hrefines := refines (v := pageViewsView spark) mem_pageViewsColumns (List.cons_ne_nil _ _) h
    pageViewsRow_countsLe
  rw [← hdb]
  exact hrefines.final batches hbatches job hreach hpending

theorem Completed.campaignStats_perm :
    t.campaignStats.table.rows.Perm ((campaignStatsView spark).rows events) := by
  obtain ⟨batches, job, hbatches, hreach, hpending, hdb⟩ := hdone.campaignStats
  have hrefines := refines (v := campaignStatsView spark) mem_campaignStatsColumns (List.cons_ne_nil _ _)
    h campaignStatsRow_countsLe
  rw [← hdb]
  exact hrefines.final batches hbatches job hreach hpending

theorem Completed.olapPageViews_perm :
    (final pageViewsOrderBy t.olapPageViews).rows.Perm ((pageViewsView spark).rows events) := by
  obtain ⟨batches, job, hbatches, hreach, hpending, hlog⟩ := hdone.olapPageViews
  have hread := lastRow_of_feedReaches (lawful_pageViewsFeed spark h) hbatches hreach hpending
  rw [← hlog]
  exact perm_viewRows hread

end Tables

theorem Completed.clicks_perm {t : FinalTables} (hdone : Completed spark events t)
    (hunique : (events.map ParsedEvent.eventId).Nodup) :
    (final clicksOrderBy t.clicks).rows.Perm (events.map clicksRow) := by
  obtain ⟨batches, job, hbatches, hreach, hpending, hlog⟩ := hdone.clicks
  have hlaws : clicksFeed.Lawful events := lawful_rowFeed events
  have hread := lastRow_of_feedReaches hlaws hbatches hreach hpending
  rw [← hlog]
  exact (final_perm hread).trans (final_clicks_perm hunique)

theorem Completed.campaignCount_eq {t : FinalTables} (hdone : Completed spark events t)
    (hunique : (events.map ParsedEvent.eventId).Nodup) (eventType : PyStr) (k : CampaignKey)
    (l : List ParsedEvent) :
    campaignCount eventType ((campaignStatsRow spark k l).toRow) (final clicksOrderBy t.clicks).rows =
      countType eventType (group campaignKey events k) :=
  ((hdone.clicks_perm hunique).countP_eq _).trans (campaignCount_clicksRow eventType k l)

/-- Behind completed runs over the same events, with no `event_id` used twice, the tables of both
databases tell the same. -/
theorem tables_agree {t : FinalTables} (hdone : Completed spark events t) (h : BoundedDisorder events)
    (hunique : (events.map ParsedEvent.eventId).Nodup) : TablesAgree t where
  pageViews := (hdone.pageViews_perm h).trans (hdone.olapPageViews_perm h).symm
  views r hr := by
    obtain ⟨k, -, rfl⟩ := mem_aggregate.mp ((hdone.pageViews_perm h).mem_iff.mp hr)
    show Value.bigint (countType _ _) = _
    rw [(hdone.clicks_perm hunique).countP_eq, List.countP_map, countType_eq_countP, group,
      List.countP_filter]
    congr 1
    apply List.countP_congr
    intro e _
    refine Iff.trans ?_ (countedByPageViews_clicksRow k _ e).symm
    rw [Bool.and_eq_true, decide_eq_true_iff, decide_eq_true_iff]
    rfl
  events r hr := by
    obtain ⟨k, -, rfl⟩ := mem_aggregate.mp ((hdone.campaignStats_perm h).mem_iff.mp hr)
    show Value.bigint (List.length _) = _
    rw [(hdone.clicks_perm hunique).countP_eq, List.countP_map, group, ← List.countP_eq_length_filter]
    congr 1
    apply List.countP_congr
    intro e _
    refine Iff.trans ?_ (countedByCampaign_clicksRow k _ e).symm
    rw [decide_eq_true_iff]
    rfl
  campaignViews r hr := by
    obtain ⟨k, -, rfl⟩ := mem_aggregate.mp ((hdone.campaignStats_perm h).mem_iff.mp hr)
    have hcount := hdone.campaignCount_eq hunique (lit "page_view") k (group campaignKey events k)
    exact congrArg (fun n : Nat => Value.bigint n) hcount.symm
  clicks r hr := by
    obtain ⟨k, -, rfl⟩ := mem_aggregate.mp ((hdone.campaignStats_perm h).mem_iff.mp hr)
    have hcount := hdone.campaignCount_eq hunique (lit "click") k (group campaignKey events k)
    exact congrArg (fun n : Nat => Value.bigint n) hcount.symm
  conversions r hr := by
    obtain ⟨k, -, rfl⟩ := mem_aggregate.mp ((hdone.campaignStats_perm h).mem_iff.mp hr)
    have hcount := hdone.campaignCount_eq hunique (lit "purchase") k (group campaignKey events k)
    exact congrArg (fun n : Nat => Value.bigint n) hcount.symm

end Agreement

/-! ### Three page views -/

/-- Every cut of events in range can be completed by each of the queries. -/
theorem exists_completed {spark : Spark} {events : List ParsedEvent} (batches : List (List ParsedEvent))
    (hbatches : batches.flatten = events) (h : BoundedDisorder events)
    (hrange : ∀ e ∈ events, ∃ t, e.ts = some t ∧ InRange t)
    (hwindows : ∀ r ∈ pageViews1m spark events, InRange r.windowStart) :
    ∃ t, Completed spark events t := by
  have hpv := refines (v := pageViewsView spark) mem_pageViewsColumns (List.cons_ne_nil _ _) h
    pageViewsRow_countsLe
  have hcs := refines (v := campaignStatsView spark) mem_campaignStatsColumns (List.cons_ne_nil _ _) h
    campaignStatsRow_countsLe
  obtain ⟨pv, hpvRun, hpvDone⟩ := exists_completed_run (hpv.progress batches hbatches)
  obtain ⟨cs, hcsRun, hcsDone⟩ := exists_completed_run (hcs.progress batches hbatches)
  obtain ⟨olap, holapRun, holapDone⟩ :=
    exists_completed_run (pageViews_progress spark h hwindows batches hbatches)
  obtain ⟨clicks, hclicksRun, hclicksDone⟩ :=
    exists_completed_run (clicks_progress hrange batches hbatches)
  exact ⟨⟨pv.db, cs.db, olap.log, clicks.log⟩, ⟨batches, pv, hbatches, hpvRun, hpvDone, rfl⟩,
    ⟨batches, cs, hbatches, hcsRun, hcsDone, rfl⟩, ⟨batches, olap, hbatches, holapRun, holapDone, rfl⟩,
    ⟨batches, clicks, hbatches, hclicksRun, hclicksDone, rfl⟩⟩

/-- A page view of the sample user. -/
def visit (id page campaignId ts : String) : Event :=
  { Schema.sample (lit ts) with eventId := lit id, page := lit page, campaignId := lit campaignId }

/-- Page views of two pages and two campaigns; the last one is from the window before the others. -/
def visits : List Event :=
  [visit "00000000-0000-4000-8000-000000000001" "/home" "organic" "1970-01-01T00:01:10Z",
    visit "00000000-0000-4000-8000-000000000002" "/cart" "c-1" "1970-01-01T00:01:40Z",
    visit "00000000-0000-4000-8000-000000000003" "/home" "c-1" "1970-01-01T00:00:10Z"]

def visitEvents : List ParsedEvent := visits.map (select paddedSpark)

theorem visitEvents_ts : visitEvents.map ParsedEvent.ts =
    [70 * second, 100 * second, 10 * second].map some := by decide +kernel

theorem boundedDisorder_of_times {events : List ParsedEvent} {times : List Int}
    (hts : events.map ParsedEvent.ts = times.map some)
    (h : times.Pairwise fun t t' => t - watermarkDelay ≤ t') : BoundedDisorder events := by
  have hpairs : (events.map ParsedEvent.ts).Pairwise fun o o' => ∀ t t', o = some t → o' = some t' →
      t - watermarkDelay ≤ t' := by
    rw [hts, List.pairwise_map]
    refine h.imp fun hle t t' ht ht' => ?_
    cases ht
    cases ht'
    exact hle
  exact List.pairwise_map.mp hpairs

theorem boundedDisorder_visits : BoundedDisorder visitEvents :=
  boundedDisorder_of_times visitEvents_ts (by decide)

theorem inRange_of_times {events : List ParsedEvent} {times : List Int}
    (hts : events.map ParsedEvent.ts = times.map some) (h : ∀ t ∈ times, InRange t) :
    ∀ e ∈ events, ∃ t, e.ts = some t ∧ InRange t := by
  intro e he
  have hmem : e.ts ∈ events.map ParsedEvent.ts := List.mem_map_of_mem he
  rw [hts, List.mem_map] at hmem
  obtain ⟨t, ht, hsome⟩ := hmem
  exact ⟨t, hsome.symm, h t ht⟩

/-- The last page view is read in a micro-batch of its own. -/
theorem exists_completed_visits : ∃ t, Completed paddedSpark visitEvents t :=
  exists_completed [visitEvents.take 2, visitEvents.drop 2] rfl boundedDisorder_visits
    (inRange_of_times visitEvents_ts (by decide)) (by decide +kernel)

theorem pageViews_refine_visits :
    BoundedDisorder visitEvents ∧ PageViewsRefine paddedSpark visitEvents :=
  ⟨boundedDisorder_visits, pageViews_refine boundedDisorder_visits⟩

theorem tables_agree_visits : ∃ t, Completed paddedSpark visitEvents t ∧ TablesAgree t := by
  obtain ⟨t, hdone⟩ := exists_completed_visits
  exact ⟨t, hdone, tables_agree hdone boundedDisorder_visits (by decide +kernel)⟩

end Clickstream.ClickHouseRuns
