import Clickstream.Refinement

/-! Restarts with a fresh checkpoint.  A query that starts again has no state and re-reads what Kafka
retains of the topic, from the earliest offset on, while the curated table keeps its rows.  Each
micro-batch overwrites the rows of the groups that it adds to, whatever they held. -/

namespace Clickstream.Replay

open Kit Streaming PostgresSink Refinement Relation

section Job

variable {α κ γ : Type} [DecidableEq κ] [DecidableEq γ] {keyColumns columns : List γ}
  (v : WindowedView α κ (keyOf keyColumns))
  (sink : List (Row γ) → Except Python.Exc (List (Statement keyColumns)))

/-- The next micro-batch is executed, without the events that are late, and the job dies after `n`
of the statements for its rows or goes on to the micro-batch behind it. -/
inductive Step (job : Job α κ keyColumns) : Job α κ keyColumns → Prop
  | crash {batch rest rows sts s'} (n : Nat) (hpending : job.pending = batch :: rest)
      (hemits : v.Emits (fun e => decide (v.Late job.state.latest e)) job.state batch rows s')
      (hsts : sink rows = .ok sts) :
      Step job { job with db := leftBehind (sts.take n) (.connect job.db) }
  | finish {batch rest rows sts s' session} (hpending : job.pending = batch :: rest)
      (hemits : v.Emits (fun e => decide (v.Late job.state.latest e)) job.state batch rows s')
      (hsts : sink rows = .ok sts) (hrun : runScript sts (.connect job.db) = some session) :
      Step job ⟨s', rest, session.committed⟩

/-- The job starts again on a suffix of the topic, cut into micro-batches in some way. -/
def Restart (topic : List α) (job job' : Job α κ keyColumns) : Prop :=
  ∃ batches, batches.flatten <:+ topic ∧ job' = ⟨.initial, batches, job.db⟩

/-- The job is reached from empty tables by steps and restarts. -/
def Runs (topic : List α) (job : Job α κ keyColumns) : Prop :=
  ReflTransGen (fun a b => Step v sink a b ∨ Restart topic a b) ⟨.initial, [], ⟨.empty, []⟩⟩ job

/-- Whenever a micro-batch has an event on time in a group with a row in `t`, the events of the group
that have been re-read on time, this micro-batch included, count at least as much as the row. -/
def Covers (counts : List γ) (t : Table (keyOf keyColumns)) (batches : List (List α)) : Prop :=
  ∀ before batch after, batches = before ++ batch :: after →
    ∀ e ∈ batch, ¬v.Late (v.observe none before.flatten) e → ∀ k, v.key e = some k →
      ∀ r ∈ t.rows, keyOf keyColumns r = v.code k →
        CountsLe counts r (v.row k (group v.key (v.onTime none (before ++ [batch])) k))

/-- Restarts keep the counts of the table exactly when the re-read events cover its rows; so they do
through later restarts that cover the rows they find. -/
structure KeepsCounts (counts : List γ) (topic : List α) : Prop where
  exact : ∀ job restarted, Runs v sink topic job → Restart topic job restarted →
    ((∀ job', ReflTransGen (Step v sink) restarted job' →
        CountsGrow counts job.db.table job'.db.table) ↔
      Covers v counts job.db.table restarted.pending)
  chain : ∀ job restarted, Runs v sink topic job → Restart topic job restarted →
    Covers v counts job.db.table restarted.pending → ∀ job',
      ReflTransGen (fun a b => Step v sink a b ∨
        Restart topic a b ∧ Covers v counts a.db.table b.pending) restarted job' →
      CountsGrow counts job.db.table job'.db.table

/-! ### What a step does -/

variable {v} {counts : List γ} {topic : List α}

omit [DecidableEq γ] in
theorem nodup_emitted {drop : α → Bool} {s s' : QueryState α κ} {batch : List α} {rows : List (Row γ)}
    (h : v.Emits drop s batch rows s') : (rows.map (keyOf keyColumns)).Nodup :=
  (h.rows.map (keyOf keyColumns)).nodup_iff.mpr
    (View.nodup_map_code (fun k => v.primaryKey_row k _) (nodup_groupKeys _))

omit [DecidableEq γ] in
theorem emitted_row {drop : α → Bool} {s s' : QueryState α κ} {batch : List α} {rows : List (Row γ)}
    (h : v.Emits drop s batch rows s') {r : Row γ} (hr : r ∈ rows) : ∃ k l, v.row k l = r := by
  obtain ⟨k, -, hk⟩ := List.mem_map.mp (h.rows.mem_iff.mp hr)
  exact ⟨k, _, hk⟩

section Sink

variable (hcolumns : ∀ c, c ∈ columns) (hkeys : keyColumns ≠ [])
include hcolumns hkeys

/-- A step changes nothing, or overwrites the table with the rows of the next micro-batch, which then
is still to be completed or done. -/
theorem step_cases {job job' : Job α κ keyColumns}
    (h : Step v (upsertBatch keyColumns columns) job job') :
    ∃ batch rest rows s', job.pending = batch :: rest ∧
      v.Emits (fun e => decide (v.Late job.state.latest e)) job.state batch rows s' ∧
      (job' = job ∨ job' = { job with db := job.db.overwrite rows } ∨
        job' = ⟨s', rest, job.db.overwrite rows⟩) := by
  cases h with
  | @crash batch rest rows sts s' n hpending hemits hsts =>
    refine ⟨batch, rest, rows, s', hpending, hemits, ?_⟩
    rcases leftBehind_upsertBatch hcolumns hkeys (nodup_emitted hemits) hsts n job.db with h | h
    · rw [h]
      exact .inl rfl
    · rw [h]
      exact .inr (.inl rfl)
  | @finish batch rest rows sts s' session hpending hemits hsts hrun =>
    refine ⟨batch, rest, rows, s', hpending, hemits, .inr (.inr ?_)⟩
    obtain ⟨sts', hsts', hrun'⟩ :=
      runScript_upsertBatch hcolumns hkeys (nodup_emitted hemits) job.db
    obtain rfl := Except.ok.inj (hsts.symm.trans hsts')
    obtain rfl := Option.some.inj (hrun.symm.trans hrun')
    rfl

theorem exists_finish {job : Job α κ keyColumns} {batch : List α} {rest : List (List α)}
    (hpending : job.pending = batch :: rest) : ∃ rows s',
      v.Emits (fun e => decide (v.Late job.state.latest e)) job.state batch rows s' ∧
      Step v (upsertBatch keyColumns columns) job ⟨s', rest, job.db.overwrite rows⟩ := by
  have hemits := v.emits_output (fun e => decide (v.Late job.state.latest e)) job.state batch
  obtain ⟨sts, hsts, hrun⟩ := runScript_upsertBatch hcolumns hkeys (nodup_emitted hemits) job.db
  exact ⟨_, _, hemits, .finish hpending hemits hsts hrun⟩

/-! ### The rows of the table -/

omit [DecidableEq κ] [DecidableEq γ] hcolumns hkeys in
theorem mem_of_mem_overwrite {db : Database keyColumns} {rows : List (Row γ)} {r : Row γ}
    (hr : r ∈ (db.overwrite rows).table.rows) : r ∈ rows ∨ r ∈ db.table.rows := by
  have hget := Table.get_eq_some_iff.mpr ⟨hr, rfl⟩
  rw [Database.overwrite, Table.get_foldl_put_last, Option.or_eq_some_iff] at hget
  rcases hget with hnew | ⟨-, hold⟩
  · exact .inl (List.mem_reverse.mp (List.mem_of_find?_eq_some hnew))
  · exact .inr (Table.get_eq_some_iff.mp hold).1

omit [DecidableEq κ] [DecidableEq γ] hcolumns hkeys in
theorem mem_overwrite {rows : List (Row γ)} (hrows : (rows.map (keyOf keyColumns)).Nodup) {r : Row γ}
    (hr : r ∈ rows) (db : Database keyColumns) : r ∈ (db.overwrite rows).table.rows := by
  have hget := Table.get_foldl_put hrows db.table (keyOf keyColumns r)
  have hfind := Table.get_eq_some_iff (t := ⟨rows, hrows⟩).mpr ⟨hr, rfl⟩
  rw [Table.get] at hfind
  rw [hfind, Option.some_or] at hget
  exact (Table.get_eq_some_iff.mp hget).1

/-- Every row of the table is the row of a group. -/
theorem row_of_runs {job : Job α κ keyColumns}
    (h : Runs v (upsertBatch keyColumns columns) topic job) {r : Row γ} (hr : r ∈ job.db.table.rows) :
    ∃ k l, v.row k l = r := by
  induction h with
  | refl => cases hr
  | tail _ hstep ih =>
    rcases hstep with hstep | ⟨batches, -, rfl⟩
    · obtain ⟨batch, rest, rows, s', -, hemits, rfl | rfl | rfl⟩ := step_cases hcolumns hkeys hstep
      · exact ih hr
      all_goals
        rcases mem_of_mem_overwrite hr with hnew | hold
        · exact emitted_row hemits hnew
        · exact ih hold
    · exact ih hr

end Sink

/-! ### Counts -/

omit [DecidableEq κ] [DecidableEq γ] in
theorem countsLe_trans {r r' r'' : Row γ} (h : CountsLe counts r r') (h' : CountsLe counts r' r'') :
    CountsLe counts r r'' := by
  intro c hc
  obtain ⟨n, m, hn, hm, hle⟩ := h c hc
  obtain ⟨m', p, hm', hp, hle'⟩ := h' c hc
  obtain rfl : m = m' := Value.bigint.inj (hm.symm.trans hm')
  exact ⟨n, p, hn, hp, hle.trans hle'⟩

omit [DecidableEq κ] [DecidableEq γ] in
theorem countsGrow_trans {t u w : Table (keyOf keyColumns)} (h : CountsGrow counts t u)
    (h' : CountsGrow counts u w) : CountsGrow counts t w := by
  intro r hr
  obtain ⟨r', hr', hkey, hle⟩ := h r hr
  obtain ⟨r'', hr'', hkey', hle'⟩ := h' r' hr'
  exact ⟨r'', hr'', hkey'.trans hkey, countsLe_trans hle hle'⟩

omit [DecidableEq γ] in
/-- Rows that cover those of `t` may overwrite them. -/
theorem countsGrow_overwrite {t : Table (keyOf keyColumns)} {db : Database keyColumns}
    {l kept : List α} {rows : List (Row γ)} (hgrow : CountsGrow counts t db.table)
    (hrows : rows.Perm (v.touched l kept))
    (hcover : ∀ k ∈ groupKeys v.key kept, ∀ r ∈ t.rows, keyOf keyColumns r = v.code k →
      CountsLe counts r (v.row k (group v.key (l ++ kept) k))) :
    CountsGrow counts t (db.overwrite rows).table := by
  intro r hr
  have hnodup : (rows.map (keyOf keyColumns)).Nodup :=
    (hrows.map _).nodup_iff.mpr (View.nodup_touched l kept)
  have hget := Table.get_foldl_put hnodup db.table (keyOf keyColumns r)
  cases hfind : rows.find? fun s => decide (keyOf keyColumns s = keyOf keyColumns r) with
  | none =>
    obtain ⟨r', hr', hkey, hle⟩ := hgrow r hr
    rw [hfind, Option.none_or, Table.get_eq_some_iff.mpr ⟨hr', hkey⟩] at hget
    exact ⟨r', (Table.get_eq_some_iff.mp hget).1, hkey, hle⟩
  | some new =>
    have hkey := List.find?_some hfind
    rw [decide_eq_true_iff] at hkey
    obtain ⟨k, hk, rfl⟩ := List.mem_map.mp (hrows.mem_iff.mp (List.mem_of_find?_eq_some hfind))
    rw [hfind, Option.some_or] at hget
    refine ⟨_, (Table.get_eq_some_iff.mp hget).1, hkey, hcover k hk r hr ?_⟩
    rw [← hkey, v.primaryKey_row]

/-! ### What a restarted job keeps -/

variable (v counts) in
/-- The job has re-read some of the micro-batches, and no row of `t` has lost counts. -/
structure Reread (t : Table (keyOf keyColumns)) (batches : List (List α))
    (job : Job α κ keyColumns) : Prop where
  progress : ∃ before, batches = before ++ job.pending ∧
    job.state.latest = v.observe none before.flatten ∧ v.Tracks job.state (v.onTime none before)
  grown : CountsGrow counts t job.db.table

section Sink

variable (hcolumns : ∀ c, c ∈ columns) (hkeys : keyColumns ≠ [])
include hcolumns hkeys

theorem Reread.step {t : Table (keyOf keyColumns)} {batches : List (List α)}
    {job job' : Job α κ keyColumns} (h : Reread v counts t batches job)
    (hcovers : Covers v counts t batches)
    (hstep : Step v (upsertBatch keyColumns columns) job job') : Reread v counts t batches job' := by
  obtain ⟨before, hbatches, hlatest, htracks⟩ := h.progress
  obtain ⟨batch, rest, rows, s', hpending, hemits, hcases⟩ := step_cases hcolumns hkeys hstep
  obtain ⟨htouched, htracks'⟩ := WindowedView.emits_onTime hemits htracks
  have hcover : ∀ k ∈ groupKeys v.key (batch.filter fun e => !decide (v.Late job.state.latest e)),
      ∀ r ∈ t.rows, keyOf keyColumns r = v.code k → CountsLe counts r (v.row k (group v.key
        (v.onTime none before ++ batch.filter fun e => !decide (v.Late job.state.latest e)) k)) := by
    intro k hk r hr hcode
    obtain ⟨e, he, hkey⟩ := mem_groupKeys.mp hk
    rw [List.mem_filter, Bool.not_eq_true', decide_eq_false_iff_not, hlatest] at he
    rw [hpending] at hbatches
    rw [hlatest, ← WindowedView.onTime_concat]
    exact hcovers before batch rest hbatches e he.1 he.2 k hkey r hr hcode
  have hgrown := countsGrow_overwrite h.grown htouched hcover
  rcases hcases with rfl | rfl | rfl
  · exact h
  · exact ⟨h.progress, hgrown⟩
  · refine ⟨⟨before ++ [batch], ?_, ?_, ?_⟩, hgrown⟩
    · rw [hbatches, hpending, List.append_assoc, List.singleton_append]
    · rw [hemits.latest, hlatest, List.flatten_append, List.flatten_singleton,
        WindowedView.observe_append]
    · rw [WindowedView.onTime_concat, ← hlatest]
      exact htracks'

/-- A job can complete any micro-batches that lie ahead. -/
theorem exists_completed {before after : List (List α)} {job : Job α κ keyColumns} {l : List α}
    (hpending : job.pending = before ++ after) (htracks : v.Tracks job.state l) :
    ∃ job', ReflTransGen (Step v (upsertBatch keyColumns columns)) job job' ∧
      job'.pending = after ∧ job'.state.latest = v.observe job.state.latest before.flatten ∧
      v.Tracks job'.state (l ++ v.onTime job.state.latest before) := by
  induction before generalizing job l with
  | nil =>
    refine ⟨job, .refl, hpending, rfl, ?_⟩
    rwa [WindowedView.onTime, List.append_nil]
  | cons batch before ih =>
    obtain ⟨rows, s', hemits, hstep⟩ := exists_finish (v := v) hcolumns hkeys hpending
    obtain ⟨-, htracks'⟩ := WindowedView.emits_onTime hemits htracks
    have hahead : (⟨s', before ++ after, job.db.overwrite rows⟩ : Job α κ keyColumns).pending =
        before ++ after := rfl
    obtain ⟨job', hreach, hpending', hlatest, htracks''⟩ := ih hahead htracks'
    refine ⟨job', .head hstep hreach, hpending', ?_, ?_⟩
    · rw [hlatest, WindowedView.observe_flatten_cons, ← hemits.latest]
    · rw [WindowedView.onTime, ← List.append_assoc]
      rwa [hemits.latest] at htracks''

variable (hcounts : ∀ k l, CountsLe counts (v.row k l) (v.row k l))
include hcounts

theorem countsGrow_refl {job : Job α κ keyColumns}
    (hrun : Runs v (upsertBatch keyColumns columns) topic job) :
    CountsGrow counts job.db.table job.db.table := by
  intro r hr
  obtain ⟨k, l, rfl⟩ := row_of_runs hcolumns hkeys hrun hr
  exact ⟨_, hr, rfl, hcounts k l⟩

theorem reread_start {job restarted : Job α κ keyColumns}
    (hrun : Runs v (upsertBatch keyColumns columns) topic job) (h : Restart topic job restarted) :
    Reread v counts job.db.table restarted.pending restarted := by
  obtain ⟨batches, -, rfl⟩ := h
  exact ⟨⟨[], rfl, rfl, WindowedView.tracks_initial⟩, countsGrow_refl hcolumns hkeys hcounts hrun⟩

omit hcounts in
/-- When a restart keeps the counts in every run, the micro-batches cover the table: the row that one
of them writes is in the table once it is done. -/
theorem covers_of_countsGrow {job restarted : Job α κ keyColumns} (h : Restart topic job restarted)
    (hgrow : ∀ job', ReflTransGen (Step v (upsertBatch keyColumns columns)) restarted job' →
      CountsGrow counts job.db.table job'.db.table) :
    Covers v counts job.db.table restarted.pending := by
  obtain ⟨batches, -, rfl⟩ := h
  intro before batch after hbatches e he hlate k hkey r hr hcode
  obtain ⟨job₁, hreach, hpending, hlatest, htracks⟩ :=
    exists_completed (v := v) hcolumns hkeys hbatches WindowedView.tracks_initial
  rw [List.nil_append, show (QueryState.initial : QueryState α κ).latest = none from rfl] at *
  obtain ⟨rows, s', hemits, hstep⟩ := exists_finish (v := v) hcolumns hkeys hpending
  obtain ⟨htouched, -⟩ := WindowedView.emits_onTime hemits htracks
  obtain ⟨r', hr', hkey', hle⟩ := hgrow _ (hreach.tail hstep) r hr
  have hmem : k ∈ groupKeys v.key (batch.filter fun e => !decide (v.Late job₁.state.latest e)) := by
    refine mem_groupKeys.mpr ⟨e, ?_, hkey⟩
    rw [List.mem_filter, Bool.not_eq_true', decide_eq_false_iff_not, hlatest]
    exact ⟨he, hlate⟩
  -- the row of the group in the overwritten table is the one that the micro-batch wrote
  have hnew : v.row k (group v.key (v.onTime none (before ++ [batch])) k) ∈ rows := by
    rw [WindowedView.onTime_concat, ← hlatest]
    exact htouched.mem_iff.mpr (List.mem_map.mpr ⟨k, hmem, rfl⟩)
  have hnewGet := Table.get_eq_some_iff.mpr
    ⟨mem_overwrite (nodup_emitted hemits) hnew job₁.db, v.primaryKey_row k _⟩
  have hget := Table.get_eq_some_iff.mpr ⟨hr', hkey'.trans hcode⟩
  obtain rfl := Option.some.inj (hget.symm.trans hnewGet)
  exact hle

/-- Exactly the restarts that cover the table keep its counts. -/
theorem keepsCounts : KeepsCounts v (upsertBatch keyColumns columns) counts topic where
  exact job restarted hrun hrestart := by
    refine ⟨covers_of_countsGrow hcolumns hkeys hrestart, fun hcovers job' hreach => ?_⟩
    have hstart := reread_start hcolumns hkeys hcounts hrun hrestart
    suffices h : Reread v counts job.db.table restarted.pending job' from h.grown
    induction hreach with
    | refl => exact hstart
    | tail _ hstep ih => exact ih.step hcolumns hkeys hcovers hstep
  chain job restarted hrun hrestart hcovers job' hreach := by
    -- since the latest restart, from a table with at least the counts of the first one
    suffices h : Runs v (upsertBatch keyColumns columns) topic job' ∧ ∃ t batches,
        CountsGrow counts job.db.table t ∧ Covers v counts t batches ∧
          Reread v counts t batches job' by
      obtain ⟨-, t, batches, hgrow, -, hreread⟩ := h
      exact countsGrow_trans hgrow hreread.grown
    induction hreach with
    | refl =>
      exact ⟨hrun.tail (.inr hrestart), _, _, countsGrow_refl hcolumns hkeys hcounts hrun, hcovers,
        reread_start hcolumns hkeys hcounts hrun hrestart⟩
    | tail _ hstep ih =>
      obtain ⟨hrun', t, batches, hgrow, hcovers', hreread⟩ := ih
      rcases hstep with hstep | ⟨hagain, hcoversAgain⟩
      · exact ⟨hrun'.tail (.inl hstep), t, batches, hgrow, hcovers',
          hreread.step hcolumns hkeys hcovers' hstep⟩
      · exact ⟨hrun'.tail (.inr hagain), _, _, countsGrow_trans hgrow hreread.grown, hcoversAgain,
          reread_start hcolumns hkeys hcounts hrun' hagain⟩

end Sink

end Job

/-! ### The two tables -/

theorem countsLe_pageViews (spark : Spark) (k : PageViewsKey) (l : List ParsedEvent) :
    CountsLe (pageViewsCounts ++ [.users]) ((pageViewsView spark).row k l)
      ((pageViewsView spark).row k l) := by
  intro c hc
  simp only [pageViewsCounts, List.singleton_append, List.mem_cons, List.not_mem_nil, or_false] at hc
  rcases hc with rfl | rfl <;> exact ⟨_, _, rfl, rfl, le_refl _⟩

theorem countsLe_campaignStats (spark : Spark) (k : CampaignKey) (l : List ParsedEvent) :
    CountsLe (campaignStatsCounts ++ [.users]) ((campaignStatsView spark).row k l)
      ((campaignStatsView spark).row k l) := by
  intro c hc
  simp only [campaignStatsCounts, List.cons_append, List.nil_append, List.mem_cons,
    List.not_mem_nil, or_false] at hc
  rcases hc with rfl | rfl | rfl | rfl | rfl <;> exact ⟨_, _, rfl, rfl, le_refl _⟩

/-- A restart never lowers the counts of a curated table exactly when the events that it re-reads
cover the rows of the table. -/
theorem replay_keeps_counts_iff (spark : Spark) (topic : List ParsedEvent) :
    KeepsCounts (pageViewsView spark) upsertPageViews (pageViewsCounts ++ [.users]) topic ∧
      KeepsCounts (campaignStatsView spark) upsertCampaignStats (campaignStatsCounts ++ [.users])
        topic := by
  have hpageViews : pageViewsKeyColumns ≠ [] := List.cons_ne_nil _ _
  have hcampaignStats : campaignStatsKeyColumns ≠ [] := List.cons_ne_nil _ _
  exact ⟨keepsCounts mem_pageViewsColumns hpageViews (countsLe_pageViews spark),
    keepsCounts mem_campaignStatsColumns hcampaignStats (countsLe_campaignStats spark)⟩

/-- Two page views of one window are counted; Kafka expires the first of them, and the restarted job
overwrites the two by one. -/
theorem not_replay_keeps_counts :
    ¬∀ (spark : Spark) (topic : List ParsedEvent)
      (job restarted job' : Job ParsedEvent PageViewsKey pageViewsKeyColumns),
      Runs (pageViewsView spark) upsertPageViews topic job → Restart topic job restarted →
        ReflTransGen (Step (pageViewsView spark) upsertPageViews) restarted job' →
        CountsGrow pageViewsCounts job.db.table job'.db.table := by
  intro h
  have hkeys : pageViewsKeyColumns ≠ [] := List.cons_ne_nil _ _
  let first := pageView (5 * second)
  let last := pageView (10 * second)
  let k : PageViewsKey := (0, first.page, first.device)
  let started : Job ParsedEvent PageViewsKey pageViewsKeyColumns :=
    ⟨.initial, [[first, last]], ⟨.empty, []⟩⟩
  have hahead : started.pending = [first, last] :: [] := rfl
  obtain ⟨rows, s', hemits, hstep⟩ := exists_finish (v := pageViewsView paddedSpark)
    mem_pageViewsColumns hkeys hahead
  let job : Job ParsedEvent PageViewsKey pageViewsKeyColumns := ⟨s', [], started.db.overwrite rows⟩
  have hstart : Restart [first, last]
      (⟨.initial, [], ⟨.empty, []⟩⟩ : Job ParsedEvent PageViewsKey pageViewsKeyColumns) started :=
    ⟨[[first, last]], List.suffix_refl _, rfl⟩
  have hrun : Runs (pageViewsView paddedSpark) upsertPageViews [first, last] job :=
    (ReflTransGen.single (.inr hstart)).tail (.inl hstep)
  have hrestart : Restart [first, last] job ⟨.initial, [[last]], job.db⟩ :=
    ⟨[[last]], List.suffix_cons first [last], rfl⟩
  have hcovers := covers_of_countsGrow mem_pageViewsColumns hkeys hrestart
    (h paddedSpark [first, last] job _ · hrun hrestart)
  -- the stored row has two views, the re-read events of its group are one
  have hrow : (pageViewsView paddedSpark).row k [first, last] ∈ job.db.table.rows :=
    mem_overwrite (nodup_emitted hemits) (hemits.rows.mem_iff.mpr (List.mem_map.mpr
      ⟨k, by decide, congrArg ((pageViewsView paddedSpark).row k) (by decide)⟩)) _
  obtain ⟨n, n', hn, hn', hle⟩ := hcovers [] [last] [] rfl last (by decide) (by decide) k (by decide)
    _ hrow ((pageViewsView paddedSpark).primaryKey_row k _) .views (by decide)
  obtain rfl : 2 = n := Value.bigint.inj hn
  obtain rfl : 1 = n' := Value.bigint.inj hn'
  omega

end Clickstream.Replay
