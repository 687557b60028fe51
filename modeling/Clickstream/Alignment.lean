import Clickstream.ClickHouseSink
import Clickstream.Conservation
import Clickstream.PostgresSink

/-! The two stores of page views, written by two queries that each cut the events into micro-batches
of their own.  Each query drops the events that are late by its own watermark, so the tables agree
exactly when the events that are on time for one and for the other make the same rows. -/

namespace Clickstream.Alignment

open Kit Streaming PostgresSink ClickHouseSink

/-- The two queries have consumed the same events, each in its own cut into micro-batches, and
left the table `pg` and the inserted rows `ch`. -/
structure BothConsumed (spark : Spark) (events : List ParsedEvent)
    (pgBatches chBatches : List (List ParsedEvent)) (pg : Database pageViewsKeyColumns)
    (ch : List (Row PageViewsColumn)) : Prop where
  pgCut : pgBatches.flatten = events
  chCut : chBatches.flatten = events
  pgRun : ∃ out, (pageViewsView spark).Runs .initial pgBatches out ∧
    Upserted pageViewsKeyColumns pageViewsColumns out ⟨.empty, []⟩ pg
  chRun : ∃ out, (pageViewsView spark).Runs .initial chBatches out ∧
    out.foldlM insertPageViews [] = some ch

def Aligned (pg : Database pageViewsKeyColumns) (ch : List (Row PageViewsColumn)) : Prop :=
  pg.table.rows.Perm (final pageViewsOrderBy ch).rows

section Consumed

variable {spark : Spark} {events : List ParsedEvent} {pgBatches chBatches : List (List ParsedEvent)}
  {pg : Database pageViewsKeyColumns} {ch : List (Row PageViewsColumn)}

theorem BothConsumed.holds_pg (h : BothConsumed spark events pgBatches chBatches pg ch) :
    (pageViewsView spark).Holds pg.table ((pageViewsView spark).onTime none pgBatches) := by
  obtain ⟨out, hruns, hupserted⟩ := h.pgRun
  exact hupserted.holds mem_pageViewsColumns (List.cons_ne_nil _ _) hruns

theorem BothConsumed.holds_ch (h : BothConsumed spark events pgBatches chBatches pg ch) :
    (pageViewsView spark).Holds (final pageViewsOrderBy ch)
      ((pageViewsView spark).onTime none chBatches) := by
  obtain ⟨out, hruns, hinserted⟩ := h.chRun
  rw [final_of_inserted hinserted]
  exact hruns.holds WindowedView.tracks_initial View.holds_empty

/-- The stores are aligned exactly when, in every group, the events on time for one query and those
on time for the other make the same row: none in both, or as many page views and the same
approximate number of users. -/
theorem aligned_iff (h : BothConsumed spark events pgBatches chBatches pg ch) :
    Aligned pg ch ↔ ∀ k, SameRow spark ((pageViewsView spark).onTime none pgBatches)
      ((pageViewsView spark).onTime none chBatches) k := by
  simp only [← viewRow_eq_iff]
  exact ⟨View.viewRow_eq_of_perm h.holds_pg h.holds_ch,
    View.perm_of_viewRow_eq h.holds_pg h.holds_ch⟩

theorem exists_bothConsumed (spark : Spark) (hpg : pgBatches.flatten = events)
    (hch : chBatches.flatten = events)
    (hstored : ((pageViewsView spark).runOut .initial chBatches).foldlM insertPageViews [] = some ch) :
    ∃ pg, BothConsumed spark events pgBatches chBatches pg ch := by
  obtain ⟨pg, hpgRun⟩ := exists_runs_upserted mem_pageViewsColumns
    (List.cons_ne_nil _ _ : pageViewsKeyColumns ≠ []) (pageViewsView spark) pgBatches
  exact ⟨pg, hpg, hch, hpgRun, ⟨_, WindowedView.runs_runOut _ _ _, hstored⟩⟩

end Consumed

/-! ### Two cuts of two events -/

theorem stored_of_all {rows : List (Row PageViewsColumn)}
    (h : (rows.all fun r => isDateTime (r .windowStart)) = true) :
    [rows].foldlM insertPageViews [] = some rows := by
  rw [List.foldlM_cons, insertPageViews, insert_of_all h]
  rfl

theorem aligned_in_order : ∃ pg ch,
    BothConsumed paddedSpark [pageView (10 * second), pageView (300 * second)]
      [[pageView (10 * second)], [pageView (300 * second)]]
      [[pageView (10 * second), pageView (300 * second)]] pg ch ∧ Aligned pg ch := by
  obtain ⟨pg, h⟩ : ∃ pg, BothConsumed paddedSpark
      [pageView (10 * second), pageView (300 * second)]
      [[pageView (10 * second)], [pageView (300 * second)]]
      [[pageView (10 * second), pageView (300 * second)]] pg _ :=
    exists_bothConsumed paddedSpark rfl rfl (stored_of_all (by decide +kernel))
  refine ⟨pg, _, h, (aligned_iff h).mpr fun k => ?_⟩
  have hsame : (pageViewsView paddedSpark).onTime none
      [[pageView (10 * second)], [pageView (300 * second)]] =
      (pageViewsView paddedSpark).onTime none
        [[pageView (10 * second), pageView (300 * second)]] := by decide +kernel
  rw [hsame]
  exact ⟨Iff.rfl, rfl, rfl⟩

/-- An event that arrives five minutes late counts when its query reads it in one micro-batch with the
event in front of it, and is dropped when the query reads them in two. -/
theorem not_aligned_always :
    ¬∀ spark events pgBatches chBatches pg ch, BothConsumed spark events pgBatches chBatches pg ch →
      Aligned pg ch := by
  intro hall
  obtain ⟨pg, h⟩ : ∃ pg, BothConsumed paddedSpark
      [pageView (300 * second), pageView (10 * second)]
      [[pageView (300 * second)], [pageView (10 * second)]]
      [[pageView (300 * second), pageView (10 * second)]] pg _ :=
    exists_bothConsumed paddedSpark rfl rfl (stored_of_all (by decide +kernel))
  have hrow := View.viewRow_eq_of_perm h.holds_pg h.holds_ch (hall _ _ _ _ _ _ h)
    (0, Python.lit "/home", Python.lit "mobile")
  have hpresent := (viewRow_eq_iff.mp hrow).present
  revert hpresent
  decide +kernel

end Clickstream.Alignment
