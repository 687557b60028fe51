import Clickstream.Conservation
import Clickstream.PostgresSink
import Mathlib.Logic.Relation

/-! The streaming job with its PostgreSQL sink refines the one-shot aggregation.  A query consumes
its micro-batches one after the other; a crash in or after `upsert_batch` leaves the tables as a
transaction does and the micro-batch is executed again.  The table holds the view of the consumed
events, or already that of the micro-batch at hand. -/

namespace Clickstream.Refinement

open Kit Streaming PostgresSink

section Job

variable {α κ γ : Type} [DecidableEq κ] [DecidableEq γ] {keyColumns : List γ}

/-- A query and its tables: its state after the last completed micro-batch, and the micro-batches
that are still to be completed. -/
structure Job (α κ : Type) {γ : Type} (keyColumns : List γ) where
  state : QueryState α κ
  pending : List (List α)
  db : Database keyColumns

def Job.start (batches : List (List α)) : Job α κ keyColumns := ⟨.initial, batches, ⟨.empty, []⟩⟩

variable (v : WindowedView α κ (keyOf keyColumns))
  (sink : List (Row γ) → Except Python.Exc (List (Statement keyColumns)))

/-- Spark executes a micro-batch, where it may drop late events, and the sink sends the statements
for the rows it emits. -/
def Executes (s : QueryState α κ) (batch : List α) (sts : List (Statement keyColumns))
    (s' : QueryState α κ) : Prop :=
  ∃ drop rows, (∀ e ∈ batch, drop e = true → v.Late s.latest e) ∧
    v.Emits drop s batch rows s' ∧ sink rows = .ok sts

/-- The next micro-batch is executed and the job dies after `n` of its statements, or goes on to
the micro-batch behind it. -/
inductive Step (job : Job α κ keyColumns) : Job α κ keyColumns → Prop
  | crash {batch rest sts s'} (n : Nat) (hpending : job.pending = batch :: rest)
      (hexec : Executes v sink job.state batch sts s') :
      Step job { job with db := leftBehind (sts.take n) (.connect job.db) }
  | finish {batch rest sts s' session} (hpending : job.pending = batch :: rest)
      (hexec : Executes v sink job.state batch sts s')
      (hrun : runScript sts (.connect job.db) = some session) :
      Step job ⟨s', rest, session.committed⟩

def Reaches (batches : List (List α)) (job : Job α κ keyColumns) : Prop :=
  Relation.ReflTransGen (Step v sink) (Job.start batches) job

/-- The row has counts at least as large under the columns `counts`. -/
def CountsLe (counts : List γ) (r r' : Row γ) : Prop :=
  ∀ c ∈ counts, ∃ n n', r c = .bigint n ∧ r' c = .bigint n' ∧ n ≤ n'

/-- Every row of `t` has a row of `u` with the same key and counts at least as large. -/
def CountsGrow (counts : List γ) (t u : Table (keyOf keyColumns)) : Prop :=
  ∀ r ∈ t.rows, ∃ r' ∈ u.rows, keyOf keyColumns r' = keyOf keyColumns r ∧ CountsLe counts r r'

/-- Over every cut of `events` into micro-batches and every run with crashes: a completed run leaves
exactly the rows `expected`, the next micro-batch can always be completed, and no step lowers a
count. -/
structure Refines (counts : List γ) (events : List α) (expected : List (Row γ)) : Prop where
  final : ∀ batches, batches.flatten = events → ∀ job, Reaches v sink batches job →
    job.pending = [] → job.db.table.rows.Perm expected
  progress : ∀ batches, batches.flatten = events → ∀ job, Reaches v sink batches job →
    ∀ batch rest, job.pending = batch :: rest → ∃ job', Step v sink job job' ∧ job'.pending = rest
  growth : ∀ batches, batches.flatten = events → ∀ job job', Reaches v sink batches job →
    Step v sink job job' → CountsGrow counts job.db.table job'.db.table

/-! ### The invariant -/

/-- The state and the table of a job that has consumed `l`. -/
structure Consumed (l : List α) (job : Job α κ keyColumns) : Prop where
  latest : job.state.latest = v.observe none l
  tracks : v.Tracks job.state l
  holds : v.Holds job.db.table l ∨
    ∃ batch rest, job.pending = batch :: rest ∧ v.Holds job.db.table (l ++ batch)

variable {v} {columns : List γ} {events : List α} (hcolumns : ∀ c, c ∈ columns) (hkeys : keyColumns ≠ [])
  (hdisorder : v.BoundedDisorder events)

omit [DecidableEq γ] in
theorem consumed_start (batches : List (List α)) :
    Consumed v [] (Job.start batches : Job α κ keyColumns) where
  latest := rfl
  tracks := WindowedView.tracks_initial
  holds := .inl View.holds_empty

omit [DecidableEq γ] in
theorem countsGrow {counts : List γ}
    (hcounts : ∀ k l m, CountsLe counts (v.row k l) (v.row k (l ++ m)))
    {t u : Table (keyOf keyColumns)} {l m : List α} (ht : v.Holds t l) (hu : v.Holds u (l ++ m)) :
    CountsGrow counts t u := by
  intro r hr
  obtain ⟨k, hk, rfl⟩ := mem_aggregate.mp (ht.perm_rows.mem_iff.mp hr)
  have hmem : k ∈ groupKeys v.key (l ++ m) := mem_groupKeys_append_left hk
  refine ⟨v.row k (group v.key (l ++ m) k), ?_, ?_, ?_⟩
  · exact hu.perm_rows.mem_iff.mpr (mem_aggregate.mpr ⟨k, hmem, rfl⟩)
  · rw [v.primaryKey_row, v.primaryKey_row]
  · rw [group_append]
    exact hcounts k _ _

omit [DecidableEq γ] in
/-- Overwriting the table with the rows for a micro-batch makes it the view with that micro-batch,
also when it has been overwritten before. -/
theorem holds_overwrite {l batch : List α} {rest : List (List α)} {job : Job α κ keyColumns}
    (h : Consumed v l job) (hpending : job.pending = batch :: rest) {rows : List (Row γ)}
    (hrows : rows.Perm (v.touched l batch)) :
    v.Holds (job.db.overwrite rows).table (l ++ batch) := by
  refine View.Holds.foldl_put ?_ hrows
  rcases h.holds with hl | ⟨batch', rest', hpending', hl⟩
  · exact .inl hl
  · obtain ⟨rfl, -⟩ := List.cons.inj (hpending.symm.trans hpending')
    exact .inr hl

omit [DecidableEq γ] in
/-- When a micro-batch is in the table, it is behind what the table held before. -/
theorem Consumed.grows {l batch : List α} {rest : List (List α)} {job : Job α κ keyColumns}
    (h : Consumed v l job) (hpending : job.pending = batch :: rest) {t : Table (keyOf keyColumns)}
    (ht : v.Holds t (l ++ batch)) : ∃ a b, v.Holds job.db.table a ∧ v.Holds t (a ++ b) := by
  rcases h.holds with hl | ⟨batch', rest', hpending', hl⟩
  · exact ⟨l, batch, hl, ht⟩
  · obtain ⟨rfl, -⟩ := List.cons.inj (hpending.symm.trans hpending')
    exact ⟨l ++ batch, [], hl, by rwa [List.append_nil]⟩

include hdisorder

/-- Under bounded disorder the rows for a micro-batch are those of the groups it adds to. -/
theorem Executes.perm_touched {l batch : List α} {rest : List (List α)} {s s' : QueryState α κ}
    {sts : List (Statement keyColumns)} (hexec : Executes v (upsertBatch keyColumns columns) s batch sts s')
    (hlatest : s.latest = v.observe none l) (htracks : v.Tracks s l)
    (hevents : l ++ (batch :: rest).flatten = events) :
    ∃ rows, upsertBatch keyColumns columns rows = .ok sts ∧ rows.Perm (v.touched l batch) ∧
      s'.latest = v.observe none (l ++ batch) ∧ v.Tracks s' (l ++ batch) := by
  obtain ⟨drop, rows, hdrop, hemits, hsts⟩ := hexec
  have hopen : ∀ e ∈ batch, ¬v.Late s.latest e := by
    intro e he
    rw [hlatest]
    apply (hevents ▸ hdisorder).not_late
    rw [List.flatten_cons]
    exact List.mem_append_left _ he
  have hkept : (batch.filter fun e => !drop e) = batch := by
    rw [List.filter_eq_self]
    intro e he
    cases hd : drop e with
    | false => rfl
    | true => exact absurd (hdrop e he hd) (hopen e he)
  have htouched := hemits.perm_touched htracks fun e he _ => hopen e he
  have htracks' := hemits.tracks htracks
  rw [hkept] at htouched htracks'
  exact ⟨rows, hsts, htouched, by rw [hemits.latest, hlatest, WindowedView.observe_append],
    htracks'⟩

include hcolumns hkeys

/-- A step keeps the invariant, for the same or a longer consumed prefix, and turns the view in the
table into that of the same or a longer list. -/
theorem consumed_step {l : List α} {job job' : Job α κ keyColumns} (h : Consumed v l job)
    (hevents : l ++ job.pending.flatten = events) (hstep : Step v (upsertBatch keyColumns columns) job job') :
    (∃ l', Consumed v l' job' ∧ l' ++ job'.pending.flatten = events) ∧
      ∃ a b, v.Holds job.db.table a ∧ v.Holds job'.db.table (a ++ b) := by
  cases hstep with
  | @crash batch rest sts s' n hpending hexec =>
    rw [hpending] at hevents
    obtain ⟨rows, hsts, htouched, -, -⟩ :=
      hexec.perm_touched hdisorder h.latest h.tracks hevents
    have hnodup := (htouched.map (keyOf keyColumns)).nodup_iff.mpr (View.nodup_touched l batch)
    rcases leftBehind_upsertBatch hcolumns hkeys hnodup hsts n job.db with hleft | hleft
    · rw [hleft]
      refine ⟨⟨l, h, hpending ▸ hevents⟩, ?_⟩
      rcases h.holds with hl | ⟨_, _, _, hl⟩
      · exact ⟨l, [], hl, by rwa [List.append_nil]⟩
      · exact ⟨_, [], hl, by rwa [List.append_nil]⟩
    · have hnew := holds_overwrite h hpending htouched
      rw [hleft]
      exact ⟨⟨l, ⟨h.latest, h.tracks, .inr ⟨batch, rest, hpending, hnew⟩⟩, hpending ▸ hevents⟩,
        h.grows hpending hnew⟩
  | @finish batch rest sts s' session hpending hexec hrun =>
    rw [hpending] at hevents
    obtain ⟨rows, hsts, htouched, hlatest, htracks⟩ :=
      hexec.perm_touched hdisorder h.latest h.tracks hevents
    have hnodup := (htouched.map (keyOf keyColumns)).nodup_iff.mpr (View.nodup_touched l batch)
    obtain ⟨sts', hsts', hrun'⟩ := runScript_upsertBatch hcolumns hkeys hnodup job.db
    obtain rfl := Except.ok.inj (hsts.symm.trans hsts')
    obtain rfl := Option.some.inj (hrun.symm.trans hrun')
    have hnew := holds_overwrite h hpending htouched
    refine ⟨⟨l ++ batch, ⟨hlatest, htracks, .inl hnew⟩, ?_⟩, h.grows hpending hnew⟩
    rw [← hevents, List.flatten_cons, List.append_assoc]

/-- A reachable job has consumed a prefix of the events. -/
theorem consumed_of_reaches {batches : List (List α)} (hbatches : batches.flatten = events)
    {job : Job α κ keyColumns} (h : Reaches v (upsertBatch keyColumns columns) batches job) :
    ∃ l, Consumed v l job ∧ l ++ job.pending.flatten = events := by
  induction h with
  | refl => exact ⟨[], consumed_start batches, hbatches⟩
  | tail _ hstep ih =>
    obtain ⟨l, hl, hevents⟩ := ih
    exact (consumed_step hcolumns hkeys hdisorder hl hevents hstep).1

/-- A query under bounded disorder, with a sink that writes all columns of its table, refines its
view. -/
theorem refines {counts : List γ}
    (hcounts : ∀ k l m, CountsLe counts (v.row k l) (v.row k (l ++ m))) :
    Refines v (upsertBatch keyColumns columns) counts events (v.rows events) where
  final batches hbatches job hreach hpending := by
    obtain ⟨l, hl, hevents⟩ := consumed_of_reaches hcolumns hkeys hdisorder hbatches hreach
    rw [hpending, List.flatten_nil, List.append_nil] at hevents
    subst hevents
    rcases hl.holds with hholds | ⟨batch, rest, hcons, -⟩
    · exact hholds.perm_rows
    · rw [hpending] at hcons
      cases hcons
  progress batches hbatches job hreach batch rest hpending := by
    obtain ⟨l, hl, hevents⟩ := consumed_of_reaches hcolumns hkeys hdisorder hbatches hreach
    rw [hpending] at hevents
    have hemits := v.emits_output (fun _ => false) job.state batch
    obtain ⟨u, hsts, -⟩ := upsertBatch_ok hcolumns hkeys _
    have hexec : Executes v (upsertBatch keyColumns columns) job.state batch _ _ :=
      ⟨fun _ => false, _, (fun _ _ h => nomatch h), hemits, hsts⟩
    obtain ⟨rows', hsts', htouched, -, -⟩ :=
      hexec.perm_touched hdisorder hl.latest hl.tracks hevents
    have hnodup := (htouched.map (keyOf keyColumns)).nodup_iff.mpr (View.nodup_touched l batch)
    obtain ⟨sts, hsts'', hrun⟩ := runScript_upsertBatch hcolumns hkeys hnodup job.db
    obtain rfl := Except.ok.inj (hsts'.symm.trans hsts'')
    exact ⟨_, .finish hpending hexec hrun, rfl⟩
  growth batches hbatches job job' hreach hstep := by
    obtain ⟨l, hl, hevents⟩ := consumed_of_reaches hcolumns hkeys hdisorder hbatches hreach
    obtain ⟨-, a, b, ha, hb⟩ := consumed_step hcolumns hkeys hdisorder hl hevents hstep
    exact countsGrow hcounts ha hb

end Job

/-! ### The two tables -/

/-- The `ts` of each event is at least the largest one in front of it, less the watermark. -/
def BoundedDisorder (events : List ParsedEvent) : Prop :=
  events.Pairwise fun e e' => ∀ t t', e.ts = some t → e'.ts = some t' →
    t - watermarkSeconds * second ≤ t'

def pageViewsCounts : List PageViewsColumn := [.views]

def campaignStatsCounts : List CampaignStatsColumn := [.events, .views, .clicks, .conversions]

theorem countType_le_append (name : Python.PyStr) (l m : List ParsedEvent) :
    countType name l ≤ countType name (l ++ m) := by
  rw [countType_append]
  exact Nat.le_add_right ..

section Tables

variable {spark : Spark}

theorem users_le_append (hmono : Monotone spark.approxCountDistinct) (l m : List ParsedEvent) :
    users spark l ≤ users spark (l ++ m) := by
  apply hmono
  intro user hmem
  rw [List.mem_toFinset] at hmem ⊢
  rw [List.map_append]
  exact List.mem_append_left _ hmem

theorem pageViewsRow_countsLe (k : PageViewsKey) (l m : List ParsedEvent) :
    CountsLe pageViewsCounts ((pageViewsView spark).row k l)
      ((pageViewsView spark).row k (l ++ m)) := by
  intro c hc
  rw [List.mem_singleton.mp hc]
  exact ⟨_, _, rfl, rfl, countType_le_append ..⟩

theorem campaignStatsRow_countsLe (k : CampaignKey) (l m : List ParsedEvent) :
    CountsLe campaignStatsCounts ((campaignStatsView spark).row k l)
      ((campaignStatsView spark).row k (l ++ m)) := by
  intro c hc
  simp only [campaignStatsCounts, List.mem_cons, List.not_mem_nil, or_false] at hc
  rcases hc with rfl | rfl | rfl | rfl
  · exact ⟨_, _, rfl, rfl, (List.sublist_append_left l m).length_le⟩
  · exact ⟨_, _, rfl, rfl, countType_le_append ..⟩
  · exact ⟨_, _, rfl, rfl, countType_le_append ..⟩
  · exact ⟨_, _, rfl, rfl, countType_le_append ..⟩

theorem countsLe_append {γ : Type} {counts counts' : List γ} {r r' : Row γ}
    (h : CountsLe counts r r') (h' : CountsLe counts' r r') : CountsLe (counts ++ counts') r r' := by
  intro c hc
  rcases List.mem_append.mp hc with hc | hc
  · exact h c hc
  · exact h' c hc

/-- Over every cut into micro-batches, every crash and every replay the curated tables end as the
one-shot aggregations and their counts never go down; nor do the approximate user counts, when
`approx_count_distinct` is monotone. -/
theorem streaming_refines {events : List ParsedEvent} (h : BoundedDisorder events) :
    Refines (pageViewsView spark) upsertPageViews pageViewsCounts events
        ((pageViews1m spark events).map PageViews.toRow) ∧
      Refines (campaignStatsView spark) upsertCampaignStats campaignStatsCounts events
        ((campaignStats1m spark events).map CampaignStats.toRow) ∧
      (Monotone spark.approxCountDistinct →
        Refines (pageViewsView spark) upsertPageViews (pageViewsCounts ++ [.users]) events
            ((pageViews1m spark events).map PageViews.toRow) ∧
          Refines (campaignStatsView spark) upsertCampaignStats (campaignStatsCounts ++ [.users])
            events ((campaignStats1m spark events).map CampaignStats.toRow)) := by
  rw [← pageViewsView_rows, ← campaignStatsView_rows]
  have hpageViews : pageViewsKeyColumns ≠ [] := List.cons_ne_nil _ _
  have hcampaignStats : campaignStatsKeyColumns ≠ [] := List.cons_ne_nil _ _
  have h₁ : (pageViewsView spark).BoundedDisorder events := h
  have h₂ : (campaignStatsView spark).BoundedDisorder events := h
  refine ⟨refines mem_pageViewsColumns hpageViews h₁ pageViewsRow_countsLe,
    refines mem_campaignStatsColumns hcampaignStats h₂ campaignStatsRow_countsLe,
    fun hmono => ⟨?_, ?_⟩⟩
  · refine refines mem_pageViewsColumns hpageViews h₁ fun k l m =>
      countsLe_append (pageViewsRow_countsLe k l m) fun c hc => ?_
    rw [List.mem_singleton.mp hc]
    exact ⟨_, _, rfl, rfl, users_le_append hmono l m⟩
  · refine refines mem_campaignStatsColumns hcampaignStats h₂ fun k l m =>
      countsLe_append (campaignStatsRow_countsLe k l m) fun c hc => ?_
    rw [List.mem_singleton.mp hc]
    exact ⟨_, _, rfl, rfl, users_le_append hmono l m⟩

end Tables

theorem streaming_refines_two_events :
    Refines (pageViewsView paddedSpark) upsertPageViews (pageViewsCounts ++ [.users])
      [pageView (100 * second), pageView (10 * second)]
      ((pageViews1m paddedSpark [pageView (100 * second), pageView (10 * second)]).map
        PageViews.toRow) := by
  have hdisorder : BoundedDisorder [pageView (100 * second), pageView (10 * second)] := by
    apply List.pairwise_pair.mpr
    intro t t' ht ht'
    cases ht
    cases ht'
    decide
  exact ((streaming_refines hdisorder).2.2 fun _ _ => Finset.card_le_card).1

end Clickstream.Refinement
