import Clickstream.ClickHouseSink
import Clickstream.Conservation
import Clickstream.PostgresSink

/-! Duplicate delivery.  Nothing between the topic and the aggregates looks at `event_id`, so every
copy of a message is counted; only `olap.clicks` keeps one row for an event. -/

namespace Clickstream.Duplicates

open Python Kit Parsing Streaming PostgresSink ClickHouseSink

/-- `raw'` delivers the messages of `raw` in their order, and some of them again: the copies in
`extra`. -/
structure Redelivers (raw raw' extra : List (Option PyStr)) : Prop where
  order : raw.Sublist raw'
  perm : raw'.Perm (raw ++ extra)
  copies : ∀ m ∈ extra, m ∈ raw

/-- What the four queries leave: two curated tables, and the rows inserted into two olap tables. -/
structure FinalTables where
  pageViews : Database pageViewsKeyColumns
  campaignStats : Database campaignStatsKeyColumns
  olapPageViews : List (Row PageViewsColumn)
  clicks : List (Row ClicksColumn)

/-- Every query has consumed the events in a cut of its own, with no event late. -/
structure Delivered (spark : Spark) (events : List ParsedEvent) (t : FinalTables) : Prop where
  pageViews : ∃ out, (pageViewsView spark).RunsOnTime events out ∧
    Upserted pageViewsKeyColumns pageViewsColumns out ⟨.empty, []⟩ t.pageViews
  campaignStats : ∃ out, (campaignStatsView spark).RunsOnTime events out ∧
    Upserted campaignStatsKeyColumns campaignStatsColumns out ⟨.empty, []⟩ t.campaignStats
  olapPageViews : ∃ out, (pageViewsView spark).RunsOnTime events out ∧
    out.foldlM insertPageViews [] = some t.olapPageViews
  clicks : ∃ batches : List (List ParsedEvent), batches.flatten = events ∧
    batches.foldlM insertClicks [] = some t.clicks

/-- The four tables have the same contents, where `FINAL` reads the olap tables. -/
structure SameContents (t t' : FinalTables) : Prop where
  pageViews : t.pageViews.table.rows.Perm t'.pageViews.table.rows
  campaignStats : t.campaignStats.table.rows.Perm t'.campaignStats.table.rows
  olapPageViews : (final pageViewsOrderBy t.olapPageViews).rows.Perm
    (final pageViewsOrderBy t'.olapPageViews).rows
  clicks : (final clicksOrderBy t.clicks).rows.Perm (final clicksOrderBy t'.clicks).rows

/-- The row with the page views among the copies counted in. -/
def addPageViews (copies : List ParsedEvent) (r : PageViews) : PageViews :=
  { r with views := r.views + countType (lit "page_view") (group pageViewsKey copies r.key) }

/-- The row with the copies of its group counted in. -/
def addCampaignStats (copies : List ParsedEvent) (r : CampaignStats) : CampaignStats :=
  { r with
    events := r.events + (group campaignKey copies r.key).length
    views := r.views + countType (lit "page_view") (group campaignKey copies r.key)
    clicks := r.clicks + countType (lit "click") (group campaignKey copies r.key)
    conversions := r.conversions + countType (lit "purchase") (group campaignKey copies r.key) }

/-- The tables `t'` are the tables `t` with each copy counted in its rows: the aggregates have the same
keys and the same numbers of users, and `olap.clicks` the same `event_id`s. -/
structure CopiesCounted (spark : Spark) (events copies : List ParsedEvent) (t t' : FinalTables) :
    Prop where
  pageViews : ∃ rows : List PageViews, t.pageViews.table.rows.Perm (rows.map PageViews.toRow) ∧
    t'.pageViews.table.rows.Perm ((rows.map (addPageViews copies)).map PageViews.toRow)
  campaignStats : ∃ rows : List CampaignStats,
    t.campaignStats.table.rows.Perm (rows.map CampaignStats.toRow) ∧
    t'.campaignStats.table.rows.Perm ((rows.map (addCampaignStats copies)).map CampaignStats.toRow)
  olapPageViews : ∃ rows : List PageViews,
    (final pageViewsOrderBy t.olapPageViews).rows.Perm (rows.map PageViews.toRow) ∧
    (final pageViewsOrderBy t'.olapPageViews).rows.Perm
      ((rows.map (addPageViews copies)).map PageViews.toRow)
  eventIds : ((final clicksOrderBy t.clicks).rows.map (keyOf clicksOrderBy)).Perm
    ((final clicksOrderBy t'.clicks).rows.map (keyOf clicksOrderBy))
  clicks : (∀ e ∈ events, ∀ e' ∈ events, e.eventId = e'.eventId → e = e') →
    (final clicksOrderBy t.clicks).rows.Perm (final clicksOrderBy t'.clicks).rows

/-! ### Aggregates -/

section Aggregates

variable {spark : Spark} {events events' copies : List ParsedEvent}

theorem users_append_group {κ : Type} [DecidableEq κ] {key : ParsedEvent → Option κ}
    (hcopies : ∀ e ∈ copies, e ∈ events) (k : κ) :
    users spark (group key events k ++ group key copies k) =
      users spark (group key events k) := by
  apply users_congr
  intro e
  simp only [List.mem_append, mem_group]
  constructor
  · rintro (h | h)
    · exact h
    · exact ⟨hcopies e h.1, h.2⟩
  · exact .inl

theorem pageViews1m_copies (spark : Spark) (hperm : events'.Perm (events ++ copies))
    (hcopies : ∀ e ∈ copies, e ∈ events) :
    (pageViews1m spark events').Perm ((pageViews1m spark events).map (addPageViews copies)) := by
  have hrows : (pageViews1m spark events).map (addPageViews copies) =
      (groupKeys pageViewsKey events).map fun k =>
        pageViewsRow spark k (group pageViewsKey events k ++ group pageViewsKey copies k) := by
    rw [pageViews1m, aggregate, List.map_map]
    apply List.map_congr_left
    intro k _
    simp only [Function.comp, addPageViews, pageViewsRow, PageViews.key, countType_append,
      users_append_group hcopies]
  rw [hrows]
  have hreorder : (pageViews1m spark events').Perm (pageViews1m spark (events ++ copies)) :=
    aggregate_perm hperm fun _ _ _ h => pageViewsRow_perm h
  exact hreorder.trans (aggregate_append_of_subset hcopies)

theorem campaignStats1m_copies (spark : Spark) (hperm : events'.Perm (events ++ copies))
    (hcopies : ∀ e ∈ copies, e ∈ events) :
    (campaignStats1m spark events').Perm
      ((campaignStats1m spark events).map (addCampaignStats copies)) := by
  have hrows : (campaignStats1m spark events).map (addCampaignStats copies) =
      (groupKeys campaignKey events).map fun k =>
        campaignStatsRow spark k (group campaignKey events k ++ group campaignKey copies k) := by
    rw [campaignStats1m, aggregate, List.map_map]
    apply List.map_congr_left
    intro k _
    simp only [Function.comp, addCampaignStats, campaignStatsRow, CampaignStats.key,
      countType_append, List.length_append, users_append_group hcopies]
  rw [hrows]
  have hreorder : (campaignStats1m spark events').Perm (campaignStats1m spark (events ++ copies)) :=
    aggregate_perm hperm fun _ _ _ h => campaignStatsRow_perm h
  exact hreorder.trans (aggregate_append_of_subset hcopies)

end Aggregates

/-! ### Tables -/

section Tables

variable {spark : Spark} {events events' : List ParsedEvent} {t t' : FinalTables}

theorem Delivered.holds_pageViews (h : Delivered spark events t) :
    (pageViewsView spark).Holds t.pageViews.table events := by
  obtain ⟨out, hruns, hupserted⟩ := h.pageViews
  rw [hupserted.table mem_pageViewsColumns (List.cons_ne_nil _ _) hruns.nodup]
  exact hruns.holds

theorem Delivered.holds_campaignStats (h : Delivered spark events t) :
    (campaignStatsView spark).Holds t.campaignStats.table events := by
  obtain ⟨out, hruns, hupserted⟩ := h.campaignStats
  rw [hupserted.table mem_campaignStatsColumns (List.cons_ne_nil _ _) hruns.nodup]
  exact hruns.holds

theorem Delivered.holds_olapPageViews (h : Delivered spark events t) :
    (pageViewsView spark).Holds (final pageViewsOrderBy t.olapPageViews) events := by
  obtain ⟨out, hruns, hinserted⟩ := h.olapPageViews
  rw [final_of_inserted hinserted]
  exact hruns.holds

theorem insertClicks_flatten {batches : List (List ParsedEvent)}
    {stored stored' : List (Row ClicksColumn)}
    (h : batches.foldlM insertClicks stored = some stored') :
    stored' = stored ++ batches.flatten.map clicksRow := by
  induction batches generalizing stored with
  | nil => cases h; simp
  | cons batch batches ih =>
    rw [List.foldlM_cons] at h
    obtain ⟨stored₁, h₁, hrest⟩ := Option.bind_eq_some_iff.mp h
    rw [insertClicks, ClickHouseSink.insert] at h₁
    split at h₁
    · cases h₁
      rw [ih hrest, List.flatten_cons, List.map_append, List.append_assoc]
    · cases h₁

theorem Delivered.clicks_eq (h : Delivered spark events t) : t.clicks = events.map clicksRow := by
  obtain ⟨batches, rfl, hstored⟩ := h.clicks
  rw [insertClicks_flatten hstored, List.nil_append]

theorem clicksRow_key (e : ParsedEvent) : keyOf clicksOrderBy (clicksRow e) = [.text e.eventId] := rfl

/-- `olap.clicks` has one row for every `event_id`. -/
theorem Delivered.eventIds_perm (h : Delivered spark events t) (h' : Delivered spark events' t')
    (hmem : ∀ e, e ∈ events ↔ e ∈ events') :
    ((final clicksOrderBy t.clicks).rows.map (keyOf clicksOrderBy)).Perm
      ((final clicksOrderBy t'.clicks).rows.map (keyOf clicksOrderBy)) := by
  rw [List.perm_ext_iff_of_nodup (final clicksOrderBy t.clicks).distinct
    (final clicksOrderBy t'.clicks).distinct]
  intro p
  rw [final, final, Table.mem_keys_foldl_put, Table.mem_keys_foldl_put, h.clicks_eq, h'.clicks_eq]
  simp only [List.mem_map, exists_exists_and_eq_and, hmem]

theorem Delivered.clicks_perm (h : Delivered spark events t) (h' : Delivered spark events' t')
    (hmem : ∀ e, e ∈ events ↔ e ∈ events')
    (hunique : ∀ e ∈ events, ∀ e' ∈ events, e.eventId = e'.eventId → e = e') :
    (final clicksOrderBy t.clicks).rows.Perm (final clicksOrderBy t'.clicks).rows := by
  apply Table.perm_of_get_eq
  intro p
  rw [final, final, h.clicks_eq, h'.clicks_eq]
  refine Table.get_foldl_put_eq (fun r => ?_) ?_ p
  · simp only [List.mem_map, hmem]
  · intro r hr r' hr' hkey
    obtain ⟨e, he, rfl⟩ := List.mem_map.mp hr
    obtain ⟨e', he', rfl⟩ := List.mem_map.mp hr'
    rw [clicksRow_key, clicksRow_key, List.cons.injEq, Value.text.injEq] at hkey
    rw [hunique e he e' he' hkey.1]

end Tables

/-- Every copy is counted: the aggregates keep their keys and numbers of users, their other counts
grow by the copies of each group, and `olap.clicks` holds the same events, unless different events
share an `event_id`. -/
theorem copies_counted {py : Interpreter} {spark : Spark} {raw raw' extra : List (Option PyStr)}
    {events events' : List ParsedEvent} {t t' : FinalTables} (hdup : Redelivers raw raw' extra)
    (hevents : parseEvents py spark raw = .ok events)
    (hevents' : parseEvents py spark raw' = .ok events') (ht : Delivered spark events t)
    (ht' : Delivered spark events' t') :
    CopiesCounted spark events (extra.filterMap (eventRow py spark)) t t' := by
  obtain ⟨-, rfl⟩ := parseEvents_ok.mp hevents
  obtain ⟨-, rfl⟩ := parseEvents_ok.mp hevents'
  set events := raw.filterMap (eventRow py spark) with hraw
  set copies := extra.filterMap (eventRow py spark) with hextra
  have hperm : (raw'.filterMap (eventRow py spark)).Perm (events ++ copies) := by
    rw [hraw, hextra, ← List.filterMap_append]
    exact hdup.perm.filterMap _
  have hcopies : ∀ e ∈ copies, e ∈ events := by
    intro e he
    obtain ⟨m, hm, hme⟩ := List.mem_filterMap.mp he
    exact List.mem_filterMap.mpr ⟨m, hdup.copies m hm, hme⟩
  have hmem : ∀ e, e ∈ events ↔ e ∈ raw'.filterMap (eventRow py spark) := by
    intro e
    rw [hperm.mem_iff, List.mem_append]
    exact ⟨.inl, fun h => h.elim id (hcopies e)⟩
  have hpv := pageViews1m_copies spark hperm hcopies
  have hcs := campaignStats1m_copies spark hperm hcopies
  have hpvRows := pageViewsView_rows spark
  have hcsRows := campaignStatsView_rows spark
  refine ⟨⟨pageViews1m spark events, ?_, ?_⟩, ⟨campaignStats1m spark events, ?_, ?_⟩,
    ⟨pageViews1m spark events, ?_, ?_⟩, ?_, fun hunique => ?_⟩
  · rw [← hpvRows]
    exact ht.holds_pageViews.perm_rows
  · apply (ht'.holds_pageViews.perm_rows).trans
    rw [hpvRows]
    exact hpv.map _
  · rw [← hcsRows]
    exact ht.holds_campaignStats.perm_rows
  · apply (ht'.holds_campaignStats.perm_rows).trans
    rw [hcsRows]
    exact hcs.map _
  · rw [← hpvRows]
    exact ht.holds_olapPageViews.perm_rows
  · apply (ht'.holds_olapPageViews.perm_rows).trans
    rw [hpvRows]
    exact hpv.map _
  · exact ht.eventIds_perm ht' hmem
  · exact ht.clicks_perm ht' hmem hunique

/-! ### One message delivered twice -/

theorem exists_delivered (spark : Spark) (events : List ParsedEvent)
    (hwindows : (((pageViewsView spark).output .initial events).all fun r =>
      isDateTime (r .windowStart)) = true)
    (hts : ((events.map clicksRow).all fun r => isDateTime (r .ts)) = true) :
    ∃ t, Delivered spark events t := by
  have hpv := (pageViewsView spark).runsOnTime_single events
  have hcs := (campaignStatsView spark).runsOnTime_single events
  obtain ⟨pv, hpv'⟩ := exists_upserted mem_pageViewsColumns (List.cons_ne_nil _ _) hpv.nodup
    (⟨.empty, []⟩ : Database pageViewsKeyColumns)
  obtain ⟨cs, hcs'⟩ := exists_upserted mem_campaignStatsColumns (List.cons_ne_nil _ _) hcs.nodup
    (⟨.empty, []⟩ : Database campaignStatsKeyColumns)
  refine ⟨⟨pv, cs, (pageViewsView spark).output .initial events, events.map clicksRow⟩,
    ⟨_, hpv, hpv'⟩, ⟨_, hcs, hcs'⟩, ⟨_, hpv, ?_⟩, ⟨[events], List.flatten_singleton, ?_⟩⟩
  · rw [List.foldlM_cons, insertPageViews, insert_of_all hwindows]
    rfl
  · rw [List.foldlM_cons, insertClicks, insert_of_all hts]
    rfl

def sampleRow : ParsedEvent := select paddedSpark (Schema.sample (lit "2026-08-27T15:00:00Z"))

theorem parseEvents_sample : ∃ m : Option PyStr,
    parseEvents cpython paddedSpark [m] = .ok [sampleRow] ∧
      parseEvents cpython paddedSpark [m, m] = .ok [sampleRow, sampleRow] ∧
      eventRow cpython paddedSpark m = some sampleRow := by
  have hsample := parseMessage_sampleMessage cpython (scalar_lit "2026-08-27T15:00:00Z")
    (by decide +kernel)
  have houtcome := outcome_eq hsample
  have hrow : eventRow cpython paddedSpark
      (sampleMessage (lit "2026-08-27T15:00:00Z") (by decide +kernel)) = some sampleRow := by
    rw [eventRow, houtcome]
    rfl
  refine ⟨_, parseEvents_ok.mpr ⟨?_, ?_⟩, parseEvents_ok.mpr ⟨?_, ?_⟩, hrow⟩
  · simpa [houtcome] using hsample
  · simp [hrow]
  · simpa [houtcome] using hsample
  · simp [hrow]

theorem delivered_sample : ∃ t t', Delivered paddedSpark [sampleRow] t ∧
    Delivered paddedSpark [sampleRow, sampleRow] t' := by
  obtain ⟨t, ht⟩ := exists_delivered paddedSpark [sampleRow] (by decide +kernel) (by decide +kernel)
  obtain ⟨t', ht'⟩ := exists_delivered paddedSpark [sampleRow, sampleRow] (by decide +kernel)
    (by decide +kernel)
  exact ⟨t, t', ht, ht'⟩

theorem redelivers_twice (m : Option PyStr) : Redelivers [m] [m, m] [m] where
  order := List.sublist_cons_self m [m]
  perm := List.Perm.refl _
  copies _ h := h

theorem copies_counted_sample : ∃ t t', Delivered paddedSpark [sampleRow] t ∧
    Delivered paddedSpark [sampleRow, sampleRow] t' ∧
    CopiesCounted paddedSpark [sampleRow] [sampleRow] t t' := by
  obtain ⟨m, hevents, hevents', hrow⟩ := parseEvents_sample
  obtain ⟨t, t', ht, ht'⟩ := delivered_sample
  have hcounted := copies_counted (redelivers_twice m) hevents hevents' ht ht'
  rw [List.filterMap_cons_some hrow, List.filterMap_nil] at hcounted
  exact ⟨t, t', ht, ht', hcounted⟩

/-- Delivered twice, one page view counts as two. -/
theorem not_duplicates_harmless :
    ¬∀ py spark raw raw' extra events events' t t', Redelivers raw raw' extra →
      parseEvents py spark raw = .ok events → parseEvents py spark raw' = .ok events' →
      Delivered spark events t → Delivered spark events' t' → SameContents t t' := by
  intro h
  obtain ⟨m, hevents, hevents', -⟩ := parseEvents_sample
  obtain ⟨t, t', ht, ht'⟩ := delivered_sample
  have hsame := h _ _ _ _ _ _ _ _ _ (redelivers_twice m) hevents hevents' ht ht'
  obtain ⟨k, hk⟩ : ∃ k, pageViewsKey sampleRow = some k :=
    Option.isSome_iff_exists.mp (by decide +kernel)
  have hrow := View.viewRow_eq_of_perm ht.holds_pageViews ht'.holds_pageViews hsame.pageViews k
  have hviews := (viewRow_eq_iff.mp hrow).views
  have htype : sampleRow.eventType = lit "page_view" := rfl
  simp [group, hk, countType, htype] at hviews

end Clickstream.Duplicates
