import Clickstream.Kit.Lateness
import Clickstream.Refinement

/-! The streaming job on events in any order.  A micro-batch drops the events that are late when it
starts, so the cut decides what is lost; crashes and replays do not, and no cut loses an event whose
window is open for all events in front of it. -/

namespace Clickstream.LateData

open Kit Streaming PostgresSink Refinement

section Job

variable {α κ γ : Type} [DecidableEq κ] [DecidableEq γ] {keyColumns : List γ}
  (v : WindowedView α κ (keyOf keyColumns))
  (sink : List (Row γ) → Except Python.Exc (List (Statement keyColumns)))

/-- Spark executes a micro-batch and drops the late events. -/
def ExecutesExactly (s : QueryState α κ) (batch : List α) (sts : List (Statement keyColumns))
    (s' : QueryState α κ) : Prop :=
  ∃ rows, v.Emits (fun e => decide (v.Late s.latest e)) s batch rows s' ∧ sink rows = .ok sts

/-- A step of a job whose late events are dropped. -/
inductive ExactStep (job : Job α κ keyColumns) : Job α κ keyColumns → Prop
  | crash {batch rest sts s'} (n : Nat) (hpending : job.pending = batch :: rest)
      (hexec : ExecutesExactly v sink job.state batch sts s') :
      ExactStep job { job with db := leftBehind (sts.take n) (.connect job.db) }
  | finish {batch rest sts s' session} (hpending : job.pending = batch :: rest)
      (hexec : ExecutesExactly v sink job.state batch sts s')
      (hrun : runScript sts (.connect job.db) = some session) :
      ExactStep job ⟨s', rest, session.committed⟩

def ExactReaches (batches : List (List α)) (job : Job α κ keyColumns) : Prop :=
  Relation.ReflTransGen (ExactStep v sink) (Job.start batches) job

/-- The table that holds the view of `l`. -/
def tableOf (l : List α) : Table (keyOf keyColumns) := ⟨v.rows l, View.nodup_rows l⟩

/-- The table tells of `seen` what is on time, and maybe more: it holds the view of a list between the
punctual events and all of them, its counts are between theirs, and the row of a group without late
events is exact. -/
structure TellsOnTime (counts : List γ) (seen : List α) (t : Table (keyOf keyColumns)) : Prop where
  view : ∃ kept, (v.punctual seen).Sublist kept ∧ kept.Sublist seen ∧ v.Holds t kept
  atLeast : CountsGrow counts (tableOf v (v.punctual seen)) t
  atMost : CountsGrow counts t (tableOf v seen)
  exact : ∀ k, group v.key (v.punctual seen) k = group v.key seen k →
    t.get (v.code k) = v.viewRow seen k

/-- Over every cut of `events` and every run with crashes: the table tells what is on time in the events
in front of the micro-batch at hand, or in these and the micro-batch, in the end in all events and as the
cut alone decides; the next micro-batch can always be completed, and no step lowers a count. -/
structure Degrades (counts : List γ) (events : List α) : Prop where
  tells : ∀ batches, batches.flatten = events → ∀ job, ExactReaches v sink batches job →
    ∃ l seen, l ++ job.pending.flatten = events ∧ (seen = l ∨ seen = l ++ job.pending.headD []) ∧
      TellsOnTime v counts seen job.db.table
  final : ∀ batches, batches.flatten = events → ∀ job, ExactReaches v sink batches job →
    job.pending = [] → job.db.table.rows.Perm (v.rows (v.onTime none batches))
  progress : ∀ batches, batches.flatten = events → ∀ job, ExactReaches v sink batches job →
    ∀ batch rest, job.pending = batch :: rest → ∃ job', ExactStep v sink job job' ∧ job'.pending = rest
  growth : ∀ batches, batches.flatten = events → ∀ job job', ExactReaches v sink batches job →
    ExactStep v sink job job' → CountsGrow counts job.db.table job'.db.table

variable {v sink}

/-- Dropping all late events is a way of dropping some: such a run is a run of the job. -/
theorem reaches_of_exactReaches {batches : List (List α)} {job : Job α κ keyColumns}
    (h : ExactReaches v sink batches job) : Reaches v sink batches job := by
  have hexecutes : ∀ {s batch sts s'}, ExecutesExactly v sink s batch sts s' →
      Executes v sink s batch sts s' := by
    rintro s batch sts s' ⟨rows, hemits, hsts⟩
    exact ⟨_, rows, fun e _ he => of_decide_eq_true he, hemits, hsts⟩
  refine Relation.ReflTransGen.mono (fun job job' hstep => ?_) _ _ h
  cases hstep with
  | crash n hpending hexec => exact .crash n hpending (hexecutes hexec)
  | finish hpending hexec hrun => exact .finish hpending (hexecutes hexec) hrun

/-! ### The invariant -/

/-- The state and the table of a job that has consumed the micro-batches `before`. -/
structure ConsumedExactly (before : List (List α)) (job : Job α κ keyColumns) : Prop where
  latest : job.state.latest = v.observe none before.flatten
  tracks : v.Tracks job.state (v.onTime none before)
  holds : v.Holds job.db.table (v.onTime none before) ∨ ∃ batch rest, job.pending = batch :: rest ∧
    v.Holds job.db.table (v.onTime none (before ++ [batch]))

omit [DecidableEq γ] in
theorem consumedExactly_start (batches : List (List α)) :
    ConsumedExactly (v := v) [] (Job.start batches : Job α κ keyColumns) where
  latest := rfl
  tracks := WindowedView.tracks_initial
  holds := .inl View.holds_empty

omit [DecidableEq γ] in
/-- The rows for a micro-batch are those of the groups that its events on time add to. -/
theorem ExecutesExactly.perm_touched {s s' : QueryState α κ} {before : List (List α)}
    {batch : List α} {sts : List (Statement keyColumns)} (h : ExecutesExactly v sink s batch sts s')
    (hlatest : s.latest = v.observe none before.flatten) (htracks : v.Tracks s (v.onTime none before)) :
    ∃ kept rows, v.onTime none (before ++ [batch]) = v.onTime none before ++ kept ∧
      sink rows = .ok sts ∧ rows.Perm (v.touched (v.onTime none before) kept) ∧
      s'.latest = v.observe none (before ++ [batch]).flatten ∧
      v.Tracks s' (v.onTime none (before ++ [batch])) := by
  obtain ⟨rows, hemits, hsts⟩ := h
  obtain ⟨htouched, htracks'⟩ := WindowedView.emits_onTime hemits htracks
  have hontime := WindowedView.onTime_concat (v := v) none before batch
  rw [← hlatest] at hontime
  refine ⟨_, rows, hontime, hsts, htouched, ?_, hontime ▸ htracks'⟩
  rw [hemits.latest, hlatest, List.flatten_append, List.flatten_singleton,
    WindowedView.observe_append]

omit [DecidableEq γ] in
/-- Overwriting the table with the rows for a micro-batch adds its events on time. -/
theorem ConsumedExactly.overwrite {before : List (List α)} {batch kept : List α}
    {rest : List (List α)} {job : Job α κ keyColumns} (h : ConsumedExactly (v := v) before job)
    (hpending : job.pending = batch :: rest)
    (hkept : v.onTime none (before ++ [batch]) = v.onTime none before ++ kept) {rows : List (Row γ)}
    (hrows : rows.Perm (v.touched (v.onTime none before) kept)) :
    v.Holds (job.db.overwrite rows).table (v.onTime none (before ++ [batch])) ∧
      ∃ a b, v.Holds job.db.table a ∧ v.onTime none (before ++ [batch]) = a ++ b := by
  rcases h.holds with hl | ⟨batch', rest', hpending', hl⟩
  · refine ⟨?_, _, kept, hl, hkept⟩
    rw [hkept]
    exact View.Holds.foldl_put (.inl hl) hrows
  · obtain ⟨rfl, -⟩ := List.cons.inj (hpending.symm.trans hpending')
    refine ⟨?_, _, [], hl, (List.append_nil _).symm⟩
    rw [hkept] at hl ⊢
    exact View.Holds.foldl_put (.inr hl) hrows

variable {columns : List γ} (hcolumns : ∀ c, c ∈ columns) (hkeys : keyColumns ≠ [])
include hcolumns hkeys

/-- A step keeps the invariant, for the same micro-batches or one more, and turns the view in the
table into that of the same or a longer list. -/
theorem consumedExactly_step {before : List (List α)} {job job' : Job α κ keyColumns}
    (h : ConsumedExactly (v := v) before job)
    (hstep : ExactStep v (upsertBatch keyColumns columns) job job') :
    (∃ before', ConsumedExactly (v := v) before' job' ∧
      before' ++ job'.pending = before ++ job.pending) ∧
      ∃ a b, v.Holds job.db.table a ∧ v.Holds job'.db.table (a ++ b) := by
  cases hstep with
  | @crash batch rest sts s' n hpending hexec =>
    obtain ⟨kept, rows, hkept, hsts, htouched, -, -⟩ := hexec.perm_touched h.latest h.tracks
    have hnodup := (htouched.map (keyOf keyColumns)).nodup_iff.mpr (View.nodup_touched _ kept)
    obtain ⟨hnew, a, b, ha, hab⟩ := h.overwrite hpending hkept htouched
    rcases leftBehind_upsertBatch hcolumns hkeys hnodup hsts n job.db with hleft | hleft
    · rw [hleft]
      exact ⟨⟨before, h, rfl⟩, a, [], ha, by rwa [List.append_nil]⟩
    · rw [hleft]
      exact ⟨⟨before, ⟨h.latest, h.tracks, .inr ⟨batch, rest, hpending, hnew⟩⟩, rfl⟩, a, b, ha,
        hab ▸ hnew⟩
  | @finish batch rest sts s' session hpending hexec hrun =>
    obtain ⟨kept, rows, hkept, hsts, htouched, hlatest, htracks⟩ :=
      hexec.perm_touched h.latest h.tracks
    have hnodup := (htouched.map (keyOf keyColumns)).nodup_iff.mpr (View.nodup_touched _ kept)
    obtain ⟨sts', hsts', hrun'⟩ := runScript_upsertBatch hcolumns hkeys hnodup job.db
    obtain rfl := Except.ok.inj (hsts.symm.trans hsts')
    obtain rfl := Option.some.inj (hrun.symm.trans hrun')
    obtain ⟨hnew, a, b, ha, hab⟩ := h.overwrite hpending hkept htouched
    refine ⟨⟨before ++ [batch], ⟨hlatest, htracks, .inl hnew⟩, ?_⟩, a, b, ha, hab ▸ hnew⟩
    rw [hpending, List.append_assoc, List.singleton_append]

theorem consumedExactly_of_reaches {batches : List (List α)} {job : Job α κ keyColumns}
    (h : ExactReaches v (upsertBatch keyColumns columns) batches job) :
    ∃ before, ConsumedExactly (v := v) before job ∧ before ++ job.pending = batches := by
  induction h with
  | refl => exact ⟨[], consumedExactly_start batches, rfl⟩
  | tail _ hstep ih =>
    obtain ⟨before, hbefore, hbatches⟩ := ih
    obtain ⟨before', hbefore', hbatches'⟩ :=
      (consumedExactly_step hcolumns hkeys hbefore hstep).1
    exact ⟨before', hbefore', hbatches'.trans hbatches⟩

omit hcolumns hkeys

/-! ### What a table tells -/

omit [DecidableEq γ] in
theorem countsGrow_of_sublist {counts : List γ}
    (hcounts : ∀ k {l m}, l.Sublist m → CountsLe counts (v.row k l) (v.row k m))
    {t u : Table (keyOf keyColumns)} {l m : List α} (hlm : l.Sublist m) (ht : v.Holds t l)
    (hu : v.Holds u m) : CountsGrow counts t u := by
  intro r hr
  obtain ⟨k, hk, rfl⟩ := mem_aggregate.mp (ht.perm_rows.mem_iff.mp hr)
  obtain ⟨e, he, hkey⟩ := mem_groupKeys.mp hk
  have hmem : k ∈ groupKeys v.key m := mem_groupKeys.mpr ⟨e, hlm.subset he, hkey⟩
  refine ⟨v.row k (group v.key m k), ?_, ?_, hcounts k (group_sublist hlm k)⟩
  · exact hu.perm_rows.mem_iff.mpr (mem_aggregate.mpr ⟨k, hmem, rfl⟩)
  · rw [v.primaryKey_row, v.primaryKey_row]

omit [DecidableEq γ] in
theorem tellsOnTime {counts : List γ}
    (hcounts : ∀ k {l m}, l.Sublist m → CountsLe counts (v.row k l) (v.row k m))
    {t : Table (keyOf keyColumns)} {batches : List (List α)} (ht : v.Holds t (v.onTime none batches)) :
    TellsOnTime v counts batches.flatten t where
  view := ⟨_, WindowedView.punctual_sublist_onTime batches, WindowedView.onTime_sublist none batches, ht⟩
  atLeast := countsGrow_of_sublist hcounts (WindowedView.punctual_sublist_onTime batches)
    (View.holds_rows _) ht
  atMost := countsGrow_of_sublist hcounts (WindowedView.onTime_sublist none batches) ht
    (View.holds_rows _)
  exact k hk := by
    have hgroup : group v.key (v.onTime none batches) k = group v.key batches.flatten k :=
      group_eq_of_sublists (WindowedView.punctual_sublist_onTime batches)
        (WindowedView.onTime_sublist none batches) hk
    rw [ht.get_code, View.viewRow, View.viewRow, hgroup]

include hcolumns hkeys

/-- A query that drops late events, with a sink that writes all columns of its table, degrades. -/
theorem degrades {counts : List γ}
    (hcounts : ∀ k {l m}, l.Sublist m → CountsLe counts (v.row k l) (v.row k m)) (events : List α) :
    Degrades v (upsertBatch keyColumns columns) counts events where
  tells batches hbatches job hreach := by
    obtain ⟨before, h, hsplit⟩ := consumedExactly_of_reaches hcolumns hkeys hreach
    refine ⟨before.flatten, ?_⟩
    rw [← List.flatten_append, hsplit]
    rcases h.holds with hl | ⟨batch, rest, hpending, hl⟩
    · exact ⟨_, hbatches, .inl rfl, tellsOnTime hcounts hl⟩
    · refine ⟨_, hbatches, .inr ?_, tellsOnTime hcounts hl⟩
      rw [hpending, List.headD_cons, List.flatten_append, List.flatten_singleton]
  final batches hbatches job hreach hnil := by
    obtain ⟨before, h, hsplit⟩ := consumedExactly_of_reaches hcolumns hkeys hreach
    rw [hnil, List.append_nil] at hsplit
    subst hsplit
    rcases h.holds with hl | ⟨batch, rest, hpending, -⟩
    · exact hl.perm_rows
    · rw [hpending] at hnil
      cases hnil
  progress batches hbatches job hreach batch rest hpending := by
    obtain ⟨before, h, -⟩ := consumedExactly_of_reaches hcolumns hkeys hreach
    have hemits := v.emits_output (fun e => decide (v.Late job.state.latest e)) job.state batch
    obtain ⟨u, hsts, -⟩ := upsertBatch_ok hcolumns hkeys _
    have hexec : ExecutesExactly v (upsertBatch keyColumns columns) job.state batch _ _ :=
      ⟨_, hemits, hsts⟩
    obtain ⟨kept, rows, -, hsts', htouched, -, -⟩ := hexec.perm_touched h.latest h.tracks
    have hnodup := (htouched.map (keyOf keyColumns)).nodup_iff.mpr (View.nodup_touched _ kept)
    obtain ⟨sts, hsts'', hrun⟩ := runScript_upsertBatch hcolumns hkeys hnodup job.db
    obtain rfl := Except.ok.inj (hsts'.symm.trans hsts'')
    exact ⟨_, .finish hpending hexec hrun, rfl⟩
  growth batches hbatches job job' hreach hstep := by
    obtain ⟨before, h, -⟩ := consumedExactly_of_reaches hcolumns hkeys hreach
    obtain ⟨-, a, b, ha, hb⟩ := consumedExactly_step hcolumns hkeys h hstep
    exact countsGrow_of_sublist hcounts (List.sublist_append_left a b) ha hb

end Job

/-! ### The two tables -/

section Tables

variable {spark : Spark}

theorem countType_sublist (name : Python.PyStr) {l m : List ParsedEvent} (h : l.Sublist m) :
    countType name l ≤ countType name m := by
  obtain ⟨rest, hperm⟩ := h.exists_perm_append
  rw [countType_perm hperm]
  exact countType_le_append name l rest

theorem pageViewsRow_sublist (k : PageViewsKey) {l m : List ParsedEvent} (h : l.Sublist m) :
    CountsLe pageViewsCounts ((pageViewsView spark).row k l) ((pageViewsView spark).row k m) := by
  intro c hc
  rw [List.mem_singleton.mp hc]
  exact ⟨_, _, rfl, rfl, countType_sublist _ h⟩

theorem campaignStatsRow_sublist (k : CampaignKey) {l m : List ParsedEvent} (h : l.Sublist m) :
    CountsLe campaignStatsCounts ((campaignStatsView spark).row k l)
      ((campaignStatsView spark).row k m) := by
  intro c hc
  simp only [campaignStatsCounts, List.mem_cons, List.not_mem_nil, or_false] at hc
  rcases hc with rfl | rfl | rfl | rfl
  · exact ⟨_, _, rfl, rfl, h.length_le⟩
  · exact ⟨_, _, rfl, rfl, countType_sublist _ h⟩
  · exact ⟨_, _, rfl, rfl, countType_sublist _ h⟩
  · exact ⟨_, _, rfl, rfl, countType_sublist _ h⟩

/-- On events in any order both curated tables degrade; under bounded disorder nothing is lost. -/
theorem streaming_degrades (spark : Spark) (events : List ParsedEvent) :
    Degrades (pageViewsView spark) upsertPageViews pageViewsCounts events ∧
      Degrades (campaignStatsView spark) upsertCampaignStats campaignStatsCounts events ∧
      (BoundedDisorder events → (pageViewsView spark).punctual events = events ∧
        (campaignStatsView spark).punctual events = events) := by
  refine ⟨degrades mem_pageViewsColumns (List.cons_ne_nil _ _) pageViewsRow_sublist events,
    degrades mem_campaignStatsColumns (List.cons_ne_nil _ _) campaignStatsRow_sublist events,
    fun h => ?_⟩
  have h₁ : (pageViewsView spark).BoundedDisorder events := h
  have h₂ : (campaignStatsView spark).BoundedDisorder events := h
  exact ⟨WindowedView.punctual_eq_self h₁, WindowedView.punctual_eq_self h₂⟩

end Tables

end Clickstream.LateData
