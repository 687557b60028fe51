import Clickstream.TopLists
import Clickstream.Totality

/-! The queries of the streaming job on the raw topic: the two that keep the curated tables, and
`clicks_dlq`, which appends the failures to the dead-letter topic.  Each cuts the topic into
micro-batches of its own.  A write to Kafka may be repeated, and a message on which the parser raises
stops every query that reads it. -/

namespace Clickstream.DeadLetter

open Python Kit Parsing Streaming PostgresSink Refinement TopLists

/-! ### The queries -/

/-- A query over the raw topic, with its tables. -/
structure RawJob (κ : Type) {γ : Type} (keyColumns : List γ) where
  state : QueryState ParsedEvent κ
  pending : List (List (Option PyStr))
  db : Database keyColumns

section Curated

variable {κ γ : Type} [DecidableEq κ] [DecidableEq γ] {keyColumns : List γ}

def RawJob.start (batches : List (List (Option PyStr))) : RawJob κ keyColumns :=
  ⟨.initial, batches, ⟨.empty, []⟩⟩

/-- The next micro-batch is parsed and executed.  An execution in which the parser raises changes
nothing. -/
inductive RawStep (py : Interpreter) (spark : Spark)
    (v : WindowedView ParsedEvent κ (keyOf keyColumns))
    (sink : List (Row γ) → Except Exc (List (Statement keyColumns))) (job : RawJob κ keyColumns) :
    RawJob κ keyColumns → Prop
  | crash {batch rest events sts s'} (n : Nat) (hpending : job.pending = batch :: rest)
      (hparse : parseEvents py spark batch = .ok events)
      (hexec : Executes v sink job.state events sts s') :
      RawStep py spark v sink job { job with db := leftBehind (sts.take n) (.connect job.db) }
  | finish {batch rest events sts s' session} (hpending : job.pending = batch :: rest)
      (hparse : parseEvents py spark batch = .ok events)
      (hexec : Executes v sink job.state events sts s')
      (hrun : runScript sts (.connect job.db) = some session) :
      RawStep py spark v sink job ⟨s', rest, session.committed⟩

def RawReaches (py : Interpreter) (spark : Spark)
    (v : WindowedView ParsedEvent κ (keyOf keyColumns))
    (sink : List (Row γ) → Except Exc (List (Statement keyColumns)))
    (batches : List (List (Option PyStr))) (job : RawJob κ keyColumns) : Prop :=
  Relation.ReflTransGen (RawStep py spark v sink) (RawJob.start batches) job

end Curated

/-- The query `clicks_dlq`, and the values in the dead-letter topic. -/
structure DlqJob where
  pending : List (List (Option PyStr))
  topic : List (Option PyStr)

/-- A micro-batch of failures is written, each at least once, or some of them are before a crash. -/
inductive DlqStep (py : Interpreter) (job : DlqJob) : DlqJob → Prop
  | crash {batch rest} (written : List (Option PyStr)) (hpending : job.pending = batch :: rest)
      (hwritten : ∀ m ∈ written, m ∈ batch ∧ failed py m = true) :
      DlqStep py job { job with topic := job.topic ++ written }
  | finish {batch rest failures} (written : List (Option PyStr))
      (hpending : job.pending = batch :: rest) (hparse : parseFailures py batch = .ok failures)
      (hwritten : ∀ m ∈ written, m ∈ failures) (hall : failures.Subperm written) :
      DlqStep py job ⟨rest, job.topic ++ written⟩

def DlqReaches (py : Interpreter) (batches : List (List (Option PyStr))) (job : DlqJob) : Prop :=
  Relation.ReflTransGen (DlqStep py) ⟨batches, []⟩ job

/-! ### What becomes of the messages -/

/-- A message on which the parser raises. -/
def Poison (py : Interpreter) (m : Option PyStr) : Prop :=
  ∃ text, m = some text ∧ ¬WithinLimits py.recursionLimit text

/-- A valid message whose timestamp the job does not read. -/
def lost (py : Interpreter) (spark : Spark) (m : Option PyStr) : Bool :=
  (eventRow py spark m).any fun e => decide (e.ts = none)

/-- The dead-letter topic has the failures and nothing else; every other message has a row in each
table that counts it, unless its timestamp is lost; and the numbers add up. -/
structure Accounted (py : Interpreter) (spark : Spark) (raw dlq : List (Option PyStr))
    (pageViews : List PageViews) (campaigns : List CampaignStats) : Prop where
  deadLetters : ∀ m, m ∈ dlq ↔ m ∈ raw ∧ failed py m = true
  atLeastOnce : (raw.filter (failed py)).Subperm dlq
  counted : ∀ m ∈ raw, ∀ e, eventRow py spark m = some e → e.ts ≠ none →
    pageViews.countP (fun r => decide (pageViewsKey e = some r.key)) = 1 ∧
      campaigns.countP (fun r => decide (campaignKey e = some r.key)) = 1
  total : (raw.filter (failed py)).length + (campaigns.map CampaignStats.events).sum +
    raw.countP (lost py spark) = raw.length

/-- What holds of the three queries on a topic, in all their runs. -/
structure TopicAccounts (py : Interpreter) (spark : Spark) (raw : List (Option PyStr)) : Prop where
  safe : ∀ batches, batches.flatten = raw → ∀ job, DlqReaches py batches job →
    (∀ m ∈ job.topic, m ∈ raw ∧ failed py m = true) ∧
      ∃ consumed, consumed ++ job.pending.flatten = raw ∧
        (consumed.filter (failed py)).Subperm job.topic
  accounted : ∀ dlqBatches pageViewsBatches campaignBatches, dlqBatches.flatten = raw →
    pageViewsBatches.flatten = raw → campaignBatches.flatten = raw → ∀ dlq pageViews campaigns,
    DlqReaches py dlqBatches dlq →
    RawReaches py spark (pageViewsView spark) upsertPageViews pageViewsBatches pageViews →
    RawReaches py spark (campaignStatsView spark) upsertCampaignStats campaignBatches campaigns →
    dlq.pending = [] → pageViews.pending = [] → campaigns.pending = [] →
    Accounted py spark raw dlq.topic (pageViewsWindows pageViews.db)
      (campaignStatsWindows campaigns.db)
  dlqProgress : ∀ batches, batches.flatten = raw → ∀ job, DlqReaches py batches job →
    ∀ batch rest, job.pending = batch :: rest →
      ((∃ job', DlqStep py job job' ∧ job'.pending = rest) ↔ ∀ m ∈ batch, ¬Poison py m)
  pageViewsProgress : ∀ batches, batches.flatten = raw → ∀ job,
    RawReaches py spark (pageViewsView spark) upsertPageViews batches job →
    ∀ batch rest, job.pending = batch :: rest →
      ((∃ job', RawStep py spark (pageViewsView spark) upsertPageViews job job' ∧
        job'.pending = rest) ↔ ∀ m ∈ batch, ¬Poison py m)
  campaignProgress : ∀ batches, batches.flatten = raw → ∀ job,
    RawReaches py spark (campaignStatsView spark) upsertCampaignStats batches job →
    ∀ batch rest, job.pending = batch :: rest →
      ((∃ job', RawStep py spark (campaignStatsView spark) upsertCampaignStats job job' ∧
        job'.pending = rest) ↔ ∀ m ∈ batch, ¬Poison py m)

/-! ### Messages -/

section Messages

variable {py : Interpreter} {spark : Spark} {raw : List (Option PyStr)}

theorem not_poison_iff {m : Option PyStr} :
    ¬Poison py m ↔ parseMessage py m = .ok (outcome py m) := by
  have hreturns : ¬Poison py m ↔ Returns py m := by
    rw [returns_iff, Poison]
    push Not
    rfl
  rw [hreturns, outcome]
  constructor
  · rintro ⟨r, hr, -⟩
    rw [hr]
  · intro h
    exact ⟨_, h, parseMessage_exclusive h⟩

variable (spark) in
theorem parseEvents_isOk_iff :
    (∃ events, parseEvents py spark raw = .ok events) ↔ ∀ m ∈ raw, ¬Poison py m := by
  simp only [not_poison_iff]
  exact ⟨fun ⟨_, h⟩ => (parseEvents_ok.mp h).1, fun h => ⟨_, parseEvents_ok.mpr ⟨h, rfl⟩⟩⟩

theorem parseFailures_isOk_iff :
    (∃ failures, parseFailures py raw = .ok failures) ↔ ∀ m ∈ raw, ¬Poison py m := by
  simp only [not_poison_iff]
  exact ⟨fun ⟨_, h⟩ => (parseFailures_ok.mp h).1, fun h => ⟨_, parseFailures_ok.mpr ⟨h, rfl⟩⟩⟩

end Messages

/-! ### The dead-letter topic -/

section Dlq

variable {py : Interpreter} {raw : List (Option PyStr)} {batches : List (List (Option PyStr))}
  {job job' : DlqJob}

/-- The query has read `consumed`; the topic has its failures, and nothing but failures. -/
structure DlqConsumed (py : Interpreter) (raw consumed : List (Option PyStr)) (job : DlqJob) : Prop where
  split : consumed ++ job.pending.flatten = raw
  parsed : ∀ m ∈ consumed, parseMessage py m = .ok (outcome py m)
  written : (consumed.filter (failed py)).Subperm job.topic
  failures : ∀ m ∈ job.topic, m ∈ raw ∧ failed py m = true

theorem DlqConsumed.step {consumed : List (Option PyStr)} (h : DlqConsumed py raw consumed job)
    (hstep : DlqStep py job job') : ∃ consumed', DlqConsumed py raw consumed' job' := by
  cases hstep with
  | @crash batch rest written hpending hwritten =>
    refine ⟨consumed, h.split, h.parsed, h.written.trans (List.sublist_append_left _ _).subperm,
      fun m hm => ?_⟩
    rcases List.mem_append.mp hm with hm | hm
    · exact h.failures m hm
    · obtain ⟨hbatch, hfailed⟩ := hwritten m hm
      refine ⟨?_, hfailed⟩
      rw [← h.split, hpending]
      exact List.mem_append_right _ (List.mem_append_left _ hbatch)
  | @finish batch rest failures written hpending hparse hwritten hall =>
    obtain ⟨hparsed, rfl⟩ := parseFailures_ok.mp hparse
    have hsplit : (consumed ++ batch) ++ rest.flatten = raw := by
      rw [← h.split, hpending, List.flatten_cons, List.append_assoc]
    refine ⟨consumed ++ batch, hsplit, List.forall_mem_append.mpr ⟨h.parsed, hparsed⟩, ?_,
      fun m hm => ?_⟩
    · rw [List.filter_append]
      exact h.written.append hall
    · rcases List.mem_append.mp hm with hm | hm
      · exact h.failures m hm
      · obtain ⟨hbatch, hfailed⟩ := List.mem_filter.mp (hwritten m hm)
        refine ⟨?_, hfailed⟩
        rw [← hsplit]
        exact List.mem_append_left _ (List.mem_append_right _ hbatch)

theorem dlqConsumed_of_reaches (hbatches : batches.flatten = raw) (h : DlqReaches py batches job) :
    ∃ consumed, DlqConsumed py raw consumed job := by
  induction h with
  | refl =>
    exact ⟨[], hbatches, List.forall_mem_nil _, List.nil_subperm, List.forall_mem_nil _⟩
  | tail _ hstep ih =>
    obtain ⟨consumed, hconsumed⟩ := ih
    exact hconsumed.step hstep

/-- A micro-batch can be completed exactly when the parser raises on none of its messages. -/
theorem dlqProgress {batch : List (Option PyStr)} {rest : List (List (Option PyStr))}
    (hpending : job.pending = batch :: rest) :
    (∃ job', DlqStep py job job' ∧ job'.pending = rest) ↔ ∀ m ∈ batch, ¬Poison py m := by
  rw [← parseFailures_isOk_iff]
  constructor
  · rintro ⟨job', hstep, hrest⟩
    cases hstep with
    | crash written hpending' hwritten =>
      have hcons : rest = batch :: rest := hrest.symm.trans hpending
      exact absurd (congrArg List.length hcons) (by simp)
    | finish written hpending' hparse hwritten hall =>
      obtain ⟨rfl, -⟩ := List.cons.inj (hpending.symm.trans hpending')
      exact ⟨_, hparse⟩
  · rintro ⟨failures, hparse⟩
    exact ⟨_, .finish failures hpending hparse (fun m hm => hm) (List.Subperm.refl _), rfl⟩

end Dlq

/-! ### The curated tables -/

section Curated

variable {κ γ : Type} [DecidableEq κ] [DecidableEq γ] {keyColumns : List γ} {py : Interpreter}
  {spark : Spark} {v : WindowedView ParsedEvent κ (keyOf keyColumns)}
  {sink : List (Row γ) → Except Exc (List (Statement keyColumns))}
  {batches : List (List (Option PyStr))} {job job' : RawJob κ keyColumns}

/-- The query on the events that the messages become. -/
def RawJob.parsed (py : Interpreter) (spark : Spark) (job : RawJob κ keyColumns) :
    Job ParsedEvent κ keyColumns :=
  ⟨job.state, job.pending.map fun batch => batch.filterMap (eventRow py spark), job.db⟩

omit [DecidableEq κ] [DecidableEq γ] in
theorem pending_parsed {batch : List (Option PyStr)} {rest : List (List (Option PyStr))}
    (hpending : job.pending = batch :: rest) : (job.parsed py spark).pending =
      batch.filterMap (eventRow py spark) :: rest.map fun batch =>
        batch.filterMap (eventRow py spark) := by
  rw [RawJob.parsed, hpending, List.map_cons]

theorem step_parsed (h : RawStep py spark v sink job job') :
    Step v sink (job.parsed py spark) (job'.parsed py spark) := by
  cases h with
  | crash n hpending hparse hexec =>
    obtain ⟨-, rfl⟩ := parseEvents_ok.mp hparse
    exact .crash n (pending_parsed hpending) hexec
  | finish hpending hparse hexec hrun =>
    obtain ⟨-, rfl⟩ := parseEvents_ok.mp hparse
    exact .finish (pending_parsed hpending) hexec hrun

/-- A run over messages is one over the events that they become. -/
theorem reaches_parsed (h : RawReaches py spark v sink batches job) :
    Reaches v sink (batches.map fun batch => batch.filterMap (eventRow py spark))
      (job.parsed py spark) := by
  induction h with
  | refl => exact .refl
  | tail _ hstep ih => exact ih.tail (step_parsed hstep)

theorem flatten_map_filterMap {raw : List (Option PyStr)} (hbatches : batches.flatten = raw) :
    (batches.map fun batch => batch.filterMap (eventRow py spark)).flatten =
      raw.filterMap (eventRow py spark) := by
  rw [← hbatches, List.filterMap_flatten]

/-- Once a query over the topic is completed, its table has the view of the events. -/
theorem holds_of_completed {columns : List γ} (hcolumns : ∀ c, c ∈ columns) (hkeys : keyColumns ≠ [])
    {raw : List (Option PyStr)} (hdisorder : v.BoundedDisorder (raw.filterMap (eventRow py spark)))
    (hbatches : batches.flatten = raw)
    (h : RawReaches py spark v (upsertBatch keyColumns columns) batches job)
    (hpending : job.pending = []) : v.Holds job.db.table (raw.filterMap (eventRow py spark)) := by
  obtain ⟨l, hshows, hholds⟩ := exists_shows hcolumns hkeys hdisorder
    (flatten_map_filterMap hbatches) (reaches_parsed h)
  have hparsed : (job.parsed py spark).pending = [] := by rw [RawJob.parsed, hpending, List.map_nil]
  obtain rfl := hshows.eq_of_completed hparsed
  exact hholds

/-- A micro-batch can be completed exactly when the parser raises on none of its messages. -/
theorem rawProgress {columns : List γ} (hcolumns : ∀ c, c ∈ columns) (hkeys : keyColumns ≠ [])
    {raw : List (Option PyStr)} (hdisorder : v.BoundedDisorder (raw.filterMap (eventRow py spark)))
    (hbatches : batches.flatten = raw)
    (h : RawReaches py spark v (upsertBatch keyColumns columns) batches job)
    {batch : List (Option PyStr)} {rest : List (List (Option PyStr))}
    (hpending : job.pending = batch :: rest) :
    (∃ job', RawStep py spark v (upsertBatch keyColumns columns) job job' ∧ job'.pending = rest) ↔
      ∀ m ∈ batch, ¬Poison py m := by
  rw [← parseEvents_isOk_iff spark]
  constructor
  · rintro ⟨job', hstep, hrest⟩
    cases hstep with
    | crash n hpending' hparse hexec =>
      obtain ⟨rfl, -⟩ := List.cons.inj (hpending.symm.trans hpending')
      exact ⟨_, hparse⟩
    | finish hpending' hparse hexec hrun =>
      obtain ⟨rfl, -⟩ := List.cons.inj (hpending.symm.trans hpending')
      exact ⟨_, hparse⟩
  · rintro ⟨events, hparse⟩
    obtain ⟨-, rfl⟩ := parseEvents_ok.mp hparse
    have hrefines : Refines v (upsertBatch keyColumns columns) ([] : List γ) _ _ :=
      refines hcolumns hkeys hdisorder fun _ _ _ _ hc => absurd hc List.not_mem_nil
    obtain ⟨job', hstep, hrest⟩ := hrefines.progress _ (flatten_map_filterMap hbatches) _
      (reaches_parsed h) _ _ (pending_parsed hpending)
    cases hstep with
    | crash n hpending' hexec =>
      have hcons := hrest.symm.trans (pending_parsed hpending)
      exact absurd (congrArg List.length hcons) (by simp)
    | finish hpending' hexec hrun =>
      obtain ⟨rfl, -⟩ := List.cons.inj ((pending_parsed hpending).symm.trans hpending')
      exact ⟨_, .finish hpending hparse hexec hrun, rfl⟩

end Curated

/-! ### The topic -/

section Topic

variable {py : Interpreter} {spark : Spark} {raw : List (Option PyStr)}

/-- The failures, the events that are counted and those that are lost are all messages. -/
theorem total_messages (hok : ∀ m ∈ raw, parseMessage py m = .ok (outcome py m)) :
    (raw.filter (failed py)).length +
      ((raw.filterMap (eventRow py spark)).filterMap campaignKey).length +
        raw.countP (lost py spark) = raw.length := by
  have hevents : (raw.filter (failed py)).length + (raw.filterMap (eventRow py spark)).length =
      raw.length := length_failures_add_events hok
  rw [← hevents, Nat.add_assoc]
  congr 1
  have hlost : raw.countP (lost py spark) =
      (raw.filterMap (eventRow py spark)).countP fun e => decide (e.ts = none) := by
    rw [List.countP_filterMap]
    refine List.countP_congr fun m _ => ?_
    rw [lost]
    cases eventRow py spark m <;> rfl
  rw [hlost, List.length_filterMap_eq_countP,
    List.length_eq_countP_add_countP (fun e : ParsedEvent => (campaignKey e).isSome)]
  congr 1
  refine List.countP_congr fun e _ => ?_
  rw [isSome_campaignKey]
  cases e.ts <;> simp

theorem accounted {dlq : List (Option PyStr)} {pageViews : List PageViews}
    {campaigns : List CampaignStats} (hok : ∀ m ∈ raw, parseMessage py m = .ok (outcome py m))
    (hwritten : (raw.filter (failed py)).Subperm dlq)
    (hfailures : ∀ m ∈ dlq, m ∈ raw ∧ failed py m = true)
    (hpageViews : pageViews.Perm (pageViews1m spark (raw.filterMap (eventRow py spark))))
    (hcampaigns : campaigns.Perm (campaignStats1m spark (raw.filterMap (eventRow py spark)))) :
    Accounted py spark raw dlq pageViews campaigns where
  deadLetters m := ⟨hfailures m, fun ⟨hm, hfailed⟩ => hwritten.subset (List.mem_filter.mpr ⟨hm, hfailed⟩)⟩
  atLeastOnce := hwritten
  counted m hm e he hts := by
    have hmem : e ∈ raw.filterMap (eventRow py spark) := List.mem_filterMap.mpr ⟨m, hm, he⟩
    have hcounted : CountedOnce spark _ e := countedOnce hmem hts
    exact ⟨(hpageViews.countP_eq _).trans hcounted.pageViews,
      (hcampaigns.countP_eq _).trans hcounted.campaignStats⟩
  total := by
    rw [(hcampaigns.map _).sum_nat, sum_events_campaignStats1m]
    exact total_messages hok

end Topic

end Clickstream.DeadLetter
