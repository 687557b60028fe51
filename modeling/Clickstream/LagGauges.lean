import Clickstream.Python.Text

/-! The Kafka gauges of the API over runs of `lag_collector_loop`, while messages are produced, offsets
are committed and calls of the consumer fail.  The collector reads the end of a partition before it
reads the committed offset, and both may have moved on by the time it sets a gauge. -/

namespace Clickstream.LagGauges

open Python

structure TopicPartition where
  topic : PyStr
  partition : Nat
  deriving DecidableEq

/-! ### The collector -/

/-- What `committed` returns for a partition with a commit; only one of the two has an `offset`. -/
inductive Committed where
  | offsetAndMetadata (offset : Int)
  | int (n : Int)

def Committed.offset : Committed → Option Int
  | .offsetAndMetadata offset => some offset
  | .int _ => none

/-- What `partitions_for_topic` and `end_offsets` return; `none` when they raise. -/
structure OffsetReplies where
  partitions : Option (Option (List Nat))
  endOffsets : Option (Nat → Option Int)

/-- What a consumer returns to `_set_topic_end_offsets`, and then to `fetch_lag`. -/
structure Replies where
  first : OffsetReplies
  second : OffsetReplies
  committed : Nat → Option (Option Committed)

/-- The sorted partitions of a topic and their end offsets; none for an unknown or empty topic. -/
def OffsetReplies.read (r : OffsetReplies) : Option (List Nat × (Nat → Option Int)) := do
  match ← r.partitions with
  | none | some [] => return ([], fun _ => none)
  | some partitions => return (partitions.mergeSort (· ≤ ·), ← r.endOffsets)

/-- `fetch_lag`; `none` when a call raises, or a committed value has no `offset`. -/
def fetchLag (topic : PyStr) (replies : Replies) : Option (List (TopicPartition × Int)) := do
  let (partitions, endOffsets) ← replies.second.read
  let rows ← partitions.mapM fun partition => do
    match ← replies.committed partition, endOffsets partition with
    | some committed, some endOffset =>
      return some (⟨topic, partition⟩, max 0 (endOffset - (← committed.offset)))
    | _, _ => return none
  return rows.filterMap id

/-- What `_set_topic_end_offsets` sets. -/
def topicEndOffsets (topic : PyStr) (replies : Replies) : Option (List (TopicPartition × Int)) := do
  let (partitions, endOffsets) ← replies.first.read
  return partitions.filterMap fun partition =>
    (endOffsets partition).map fun endOffset => (⟨topic, partition⟩, endOffset)

/-- A gauge with the labels `topic` and `partition`. -/
abbrev Gauge := TopicPartition → Option Int

def Gauge.setAll (g : Gauge) (rows : List (TopicPartition × Int)) : Gauge :=
  rows.foldl (fun g row => Function.update g row.1 (some row.2)) g

structure Gauges where
  lag : Gauge
  endOffset : Gauge

def Gauges.initial : Gauges := ⟨fun _ => none, fun _ => none⟩

/-- `refresh_lag_gauges`: an exception for one topic leaves out the topics behind it. -/
def refreshLagGauges (g : Gauges) : List (PyStr × Replies) → Gauges
  | [] => g
  | (topic, replies) :: rest =>
    match topicEndOffsets topic replies with
    | none => g
    | some ends =>
      match fetchLag topic replies with
      | none => { g with endOffset := g.endOffset.setAll ends }
      | some rows => refreshLagGauges ⟨g.lag.setAll rows, g.endOffset.setAll ends⟩ rest

/-- The topics of `kafka_lag_topics`. -/
def lagTopics (setting : PyStr) : List PyStr :=
  ((setting.splitOn (chr ',')).filter fun topic => strip topic ≠ []).map strip

/-- The gauges behind some refreshes of `lag_collector_loop`. -/
def lagCollectorLoop (g : Gauges) (polls : List (List (PyStr × Replies))) : Gauges :=
  polls.foldl refreshLagGauges g

/-! ### Kafka -/

structure Kafka where
  endOffset : TopicPartition → Int
  committed : TopicPartition → Option Int

/-- Ends only grow, and no commit is beyond the end. -/
structure Growing (kafka : Nat → Kafka) : Prop where
  endOffset : ∀ tp {t u}, t ≤ u → (kafka t).endOffset tp ≤ (kafka u).endOffset tp
  committed : ∀ tp t c, (kafka t).committed tp = some c → c ≤ (kafka t).endOffset tp

/-- The replies with ends are those of moments between `t` and `u`, of another one for each partition. -/
def OffsetReplies.Between (kafka : Nat → Kafka) (topic : PyStr) (t u : Nat) (r : OffsetReplies) : Prop :=
  ∀ ends partition endOffset, r.endOffsets = some ends → ends partition = some endOffset →
    ∃ τ, t ≤ τ ∧ τ ≤ u ∧ endOffset = (kafka τ).endOffset ⟨topic, partition⟩

/-- Between `t` and `u` a topic is asked for its ends, for its ends again, and for its commits. -/
def Replies.Between (kafka : Nat → Kafka) (topic : PyStr) (t u : Nat) (r : Replies) : Prop :=
  ∃ t₁ t₂, t ≤ t₁ ∧ t₁ ≤ t₂ ∧ t₂ ≤ u ∧ r.first.Between kafka topic t t₁ ∧
    r.second.Between kafka topic t₁ t₂ ∧
    ∀ partition c offset, r.committed partition = some (some c) → c.offset = some offset →
      ∃ τ, t₂ ≤ τ ∧ τ ≤ u ∧ (kafka τ).committed ⟨topic, partition⟩ = some offset

/-- One topic after the other is asked between `t` and `u`. -/
inductive Asked (kafka : Nat → Kafka) : Nat → List (PyStr × Replies) → Nat → Prop
  | nil {t u} (h : t ≤ u) : Asked kafka t [] u
  | cons {t u v topic replies rest} (hreplies : replies.Between kafka topic t u)
      (hrest : Asked kafka u rest v) : Asked kafka t ((topic, replies) :: rest) v

/-- The loop goes round between `t` and `u`; a consumer that cannot be built asks for nothing. -/
inductive Looped (kafka : Nat → Kafka) (topics : List PyStr) :
    Nat → List (List (PyStr × Replies)) → Nat → Prop
  | nil {t u} (h : t ≤ u) : Looped kafka topics t [] u
  | cons {t u v poll polls} (htopics : poll.map Prod.fst <+: topics) (hpoll : Asked kafka t poll u)
      (hpolls : Looped kafka topics u polls v) : Looped kafka topics t (poll :: polls) v

/-! ### What the gauges tell -/

/-- The lag is that of an end at a moment and a commit at a later one, and the end is that of a moment,
both of the run. -/
structure Sound (kafka : Nat → Kafka) (topics : List PyStr) (t u : Nat) (g : Gauges) : Prop where
  lag : ∀ tp x, g.lag tp = some x → tp.topic ∈ topics ∧ ∃ t₁ t₂ c, t ≤ t₁ ∧ t₁ ≤ t₂ ∧ t₂ ≤ u ∧
    (kafka t₂).committed tp = some c ∧ x = max 0 ((kafka t₁).endOffset tp - c)
  endOffset : ∀ tp x, g.endOffset tp = some x → tp.topic ∈ topics ∧
    ∃ τ, t ≤ τ ∧ τ ≤ u ∧ x = (kafka τ).endOffset tp

/-- In the poll a topic in front of `topic` raises, and `topic` itself is not asked before it. -/
def Hides (poll : List (PyStr × Replies)) (topic : PyStr) : Prop :=
  ∃ before blocked replies after, poll = before ++ (blocked, replies) :: after ∧
    (topicEndOffsets blocked replies = none ∨ fetchLag blocked replies = none) ∧ topic ≠ blocked ∧
    ∀ p ∈ before, p.1 ≠ topic

/-- The client answers each commit with an `int`. -/
def Replies.AnswersInts (r : Replies) : Prop :=
  ∀ partition c, r.committed partition = some (some c) → ∃ n, c = .int n

/-- What the gauges tell behind `polls`, and behind `more` of them: no lag is larger than the true one at
the moment of its commit, and without messages in between it is the true one; a client that answers with
an `int` leaves the lag without samples; the ends are never ahead and never go back; and a topic behind
one that keeps raising keeps its samples. -/
structure Tells (kafka : Nat → Kafka) (topics : List PyStr) (t u : Nat)
    (polls more : List (List (PyStr × Replies))) : Prop where
  lag : ∀ tp x, (lagCollectorLoop .initial polls).lag tp = some x → tp.topic ∈ topics ∧
    ∃ t₁ t₂ c, t ≤ t₁ ∧ t₁ ≤ t₂ ∧ t₂ ≤ u ∧ (kafka t₂).committed tp = some c ∧
      0 ≤ x ∧ x ≤ (kafka t₂).endOffset tp - c ∧
      ((kafka t₁).endOffset tp = (kafka t₂).endOffset tp → x = (kafka t₂).endOffset tp - c)
  ints : (∀ poll ∈ polls, ∀ p ∈ poll, p.2.AnswersInts) →
    ∀ tp, (lagCollectorLoop .initial polls).lag tp = none
  endOffset : ∀ tp x, (lagCollectorLoop .initial polls).endOffset tp = some x → tp.topic ∈ topics ∧
    x ≤ (kafka u).endOffset tp ∧ ∃ τ, t ≤ τ ∧ τ ≤ u ∧ x = (kafka τ).endOffset tp
  grows : ∀ tp x, (lagCollectorLoop .initial polls).endOffset tp = some x →
    ∃ y, (lagCollectorLoop .initial (polls ++ more)).endOffset tp = some y ∧ x ≤ y
  hidden : ∀ tp, (∀ poll ∈ more, Hides poll tp.topic) →
    (lagCollectorLoop .initial (polls ++ more)).lag tp = (lagCollectorLoop .initial polls).lag tp ∧
      (lagCollectorLoop .initial (polls ++ more)).endOffset tp =
        (lagCollectorLoop .initial polls).endOffset tp

/-! ### Replies and rows -/

section Rows

variable {topic : PyStr} {replies : Replies} {rows : List (TopicPartition × Int)} {tp : TopicPartition}
  {x : Int} {g : Gauge}

theorem exists_of_mem_mapM {α β : Type} {f : α → Option β} {l : List α} {out : List β}
    (h : l.mapM f = some out) {y : β} (hy : y ∈ out) : ∃ a ∈ l, f a = some y := by
  induction l generalizing out with
  | nil =>
    cases h
    cases hy
  | cons a l ih =>
    rw [List.mapM_cons] at h
    obtain ⟨b, hb, h⟩ := Option.bind_eq_some_iff.mp h
    obtain ⟨rest, hrest, h⟩ := Option.bind_eq_some_iff.mp h
    cases h
    rcases List.mem_cons.mp hy with rfl | hy
    · exact ⟨a, List.mem_cons_self, hb⟩
    · obtain ⟨a', ha', hf⟩ := ih hrest hy
      exact ⟨a', List.mem_cons_of_mem _ ha', hf⟩

theorem endOffsets_of_read {r : OffsetReplies} {partitions : List Nat} {ends : Nat → Option Int}
    (h : r.read = some (partitions, ends)) {partition : Nat} (hp : partition ∈ partitions) :
    r.endOffsets = some ends := by
  rw [OffsetReplies.read] at h
  obtain ⟨reply, -, h⟩ := Option.bind_eq_some_iff.mp h
  split at h
  · cases h
    cases hp
  · cases h
    cases hp
  · obtain ⟨ends', hends, h⟩ := Option.bind_eq_some_iff.mp h
    cases h
    exact hends

theorem mem_topicEndOffsets (h : topicEndOffsets topic replies = some rows) (hrow : (tp, x) ∈ rows) :
    tp.topic = topic ∧ ∃ ends, replies.first.endOffsets = some ends ∧ ends tp.partition = some x := by
  rw [topicEndOffsets] at h
  obtain ⟨⟨partitions, ends⟩, hread, h⟩ := Option.bind_eq_some_iff.mp h
  cases h
  obtain ⟨partition, hp, hend⟩ := List.mem_filterMap.mp hrow
  obtain ⟨endOffset, hends, heq⟩ := Option.map_eq_some_iff.mp hend
  cases heq
  exact ⟨rfl, ends, endOffsets_of_read hread hp, hends⟩

/-- A row of `fetch_lag` is the difference of an end and of the offset of a commit. -/
theorem mem_fetchLag (h : fetchLag topic replies = some rows) (hrow : (tp, x) ∈ rows) :
    tp.topic = topic ∧ ∃ ends endOffset committed offset, replies.second.endOffsets = some ends ∧
      ends tp.partition = some endOffset ∧ replies.committed tp.partition = some (some committed) ∧
      committed.offset = some offset ∧ x = max 0 (endOffset - offset) := by
  rw [fetchLag] at h
  obtain ⟨⟨partitions, ends⟩, hread, h⟩ := Option.bind_eq_some_iff.mp h
  obtain ⟨found, hfound, h⟩ := Option.bind_eq_some_iff.mp h
  cases h
  obtain ⟨row, hrow, rfl⟩ := List.mem_filterMap.mp hrow
  obtain ⟨partition, hp, hlag⟩ := exists_of_mem_mapM hfound hrow
  obtain ⟨reply, hreply, hlag⟩ := Option.bind_eq_some_iff.mp hlag
  split at hlag
  · rename_i committed endOffset hend
    obtain ⟨offset, hoffset, hlag⟩ := Option.bind_eq_some_iff.mp hlag
    cases hlag
    exact ⟨rfl, ends, endOffset, committed, offset, endOffsets_of_read hread hp, hend, hreply, hoffset,
      rfl⟩
  · cases hlag

/-- An `int` has no `offset`: every partition with a commit makes `fetch_lag` raise. -/
theorem fetchLag_ints (hints : replies.AnswersInts) (h : fetchLag topic replies = some rows) :
    rows = [] := by
  rw [List.eq_nil_iff_forall_not_mem]
  rintro ⟨tp, x⟩ hrow
  obtain ⟨-, -, -, committed, offset, -, -, hreply, hoffset, -⟩ := mem_fetchLag h hrow
  obtain ⟨n, rfl⟩ := hints tp.partition committed hreply
  cases hoffset

theorem setAll_of_not_mem (h : ∀ row ∈ rows, row.1 ≠ tp) : g.setAll rows tp = g tp := by
  induction rows generalizing g with
  | nil => rfl
  | cons row rows ih =>
    rw [List.forall_mem_cons] at h
    rw [Gauge.setAll, List.foldl_cons, ← Gauge.setAll, ih h.2, Function.update_of_ne h.1.symm]

theorem setAll_cases (g : Gauge) (rows : List (TopicPartition × Int)) (tp : TopicPartition) :
    g.setAll rows tp = g tp ∨ ∃ x, (tp, x) ∈ rows ∧ g.setAll rows tp = some x := by
  induction rows generalizing g with
  | nil => exact .inl rfl
  | cons row rows ih =>
    rw [Gauge.setAll, List.foldl_cons, ← Gauge.setAll]
    rcases ih (Function.update g row.1 (some row.2)) with hsame | ⟨x, hx, hset⟩
    · by_cases htp : tp = row.1
      · subst htp
        exact .inr ⟨row.2, List.mem_cons_self, by rw [hsame, Function.update_self]⟩
      · exact .inl (by rw [hsame, Function.update_of_ne htp])
    · exact .inr ⟨x, List.mem_cons_of_mem _ hx, hset⟩

end Rows

/-! ### Runs -/

section Runs

variable {kafka : Nat → Kafka} {topics : List PyStr} {t u v : Nat} {g : Gauges}
  {poll : List (PyStr × Replies)} {polls more : List (List (PyStr × Replies))}

theorem Asked.le (h : Asked kafka t poll u) : t ≤ u := by
  induction h with
  | nil hle => exact hle
  | cons hreplies hrest ih =>
    obtain ⟨t₁, t₂, ht₁, ht₂, hu, -⟩ := hreplies
    omega

theorem Looped.le (h : Looped kafka topics t polls u) : t ≤ u := by
  induction h with
  | nil hle => exact hle
  | cons htopics hpoll hpolls ih => exact hpoll.le.trans ih

theorem Sound.mono (h : Sound kafka topics t u g) (hle : u ≤ v) : Sound kafka topics t v g where
  lag tp x hx := by
    obtain ⟨htopic, t₁, t₂, c, ht₁, ht₂, hu, hrest⟩ := h.lag tp x hx
    exact ⟨htopic, t₁, t₂, c, ht₁, ht₂, hu.trans hle, hrest⟩
  endOffset tp x hx := by
    obtain ⟨htopic, τ, hτ, hu, hrest⟩ := h.endOffset tp x hx
    exact ⟨htopic, τ, hτ, hu.trans hle, hrest⟩

theorem Sound.setEnds {topic : PyStr} {replies : Replies} {ends : List (TopicPartition × Int)}
    (h : Sound kafka topics t u g) (htopic : topic ∈ topics) (htu : t ≤ u)
    (hreplies : replies.Between kafka topic u v) (hends : topicEndOffsets topic replies = some ends) :
    Sound kafka topics t v { g with endOffset := g.endOffset.setAll ends } := by
  obtain ⟨t₁, t₂, ht₁, ht₂, hv, hfirst, -⟩ := hreplies
  refine ⟨(h.mono (by omega)).lag, fun tp x hx => ?_⟩
  rcases setAll_cases g.endOffset ends tp with hsame | ⟨y, hy, hset⟩
  · exact (h.mono (by omega)).endOffset tp x (hsame ▸ hx)
  · obtain rfl : y = x := Option.some.inj (hset.symm.trans hx)
    obtain ⟨rfl, f, hf, hend⟩ := mem_topicEndOffsets hends hy
    obtain ⟨τ, hτ, hτ₁, hvalue⟩ := hfirst f tp.partition y hf hend
    exact ⟨htopic, τ, by omega, by omega, hvalue⟩

theorem Sound.setLags {topic : PyStr} {replies : Replies} {rows : List (TopicPartition × Int)}
    (h : Sound kafka topics t v g) (htopic : topic ∈ topics) (htu : t ≤ u)
    (hreplies : replies.Between kafka topic u v) (hrows : fetchLag topic replies = some rows) :
    Sound kafka topics t v { g with lag := g.lag.setAll rows } := by
  obtain ⟨t₁, t₂, ht₁, ht₂, hv, -, hsecond, hcommitted⟩ := hreplies
  refine ⟨fun tp x hx => ?_, h.endOffset⟩
  rcases setAll_cases g.lag rows tp with hsame | ⟨y, hy, hset⟩
  · exact h.lag tp x (hsame ▸ hx)
  · obtain rfl : y = x := Option.some.inj (hset.symm.trans hx)
    obtain ⟨rfl, ends, endOffset, committed, offset, hends, hend, hreply, hoffset, rfl⟩ :=
      mem_fetchLag hrows hy
    obtain ⟨τ, hτ, hτ₂, rfl⟩ := hsecond ends tp.partition endOffset hends hend
    obtain ⟨σ, hσ, hσv, hcommit⟩ := hcommitted tp.partition committed offset hreply hoffset
    exact ⟨htopic, τ, σ, offset, by omega, by omega, hσv, hcommit, rfl⟩

theorem sound_refresh (h : Sound kafka topics t u g) (htu : t ≤ u) (hasked : Asked kafka u poll v)
    (htopics : ∀ p ∈ poll, p.1 ∈ topics) : Sound kafka topics t v (refreshLagGauges g poll) := by
  induction hasked generalizing g with
  | nil hle => exact h.mono hle
  | @cons u₀ u₁ v₀ topic replies rest hreplies hrest ih =>
    rw [List.forall_mem_cons] at htopics
    have hle : u₀ ≤ u₁ := (Asked.cons hreplies (.nil le_rfl)).le
    rw [refreshLagGauges]
    split
    · exact h.mono (hle.trans hrest.le)
    · rename_i ends hends
      have hset := h.setEnds htopics.1 htu hreplies hends
      split
      · exact hset.mono hrest.le
      · rename_i rows hrows
        exact ih (hset.setLags htopics.1 htu hreplies hrows) (htu.trans hle) htopics.2

theorem sound_loop (h : Sound kafka topics t u g) (htu : t ≤ u) (hloop : Looped kafka topics u polls v) :
    Sound kafka topics t v (lagCollectorLoop g polls) := by
  induction hloop generalizing g with
  | nil hle => exact h.mono hle
  | cons htopics hpoll hpolls ih =>
    refine ih (sound_refresh h htu hpoll fun p hp => ?_) (htu.trans hpoll.le)
    exact htopics.subset (List.mem_map_of_mem hp)

theorem endOffset_grows_refresh (hkafka : Growing kafka) {tp : TopicPartition} {x : Int}
    (hx : g.endOffset tp = some x) (hle : x ≤ (kafka u).endOffset tp) (hasked : Asked kafka u poll v) :
    ∃ y, (refreshLagGauges g poll).endOffset tp = some y ∧ x ≤ y ∧ y ≤ (kafka v).endOffset tp := by
  induction hasked generalizing g x with
  | nil huv => exact ⟨x, hx, le_rfl, hle.trans (hkafka.endOffset tp huv)⟩
  | @cons u₀ u₁ v₀ topic replies rest hreplies hrest ih =>
    have huv : u₀ ≤ v₀ := (Asked.cons hreplies hrest).le
    rw [refreshLagGauges]
    split
    · exact ⟨x, hx, le_rfl, hle.trans (hkafka.endOffset tp huv)⟩
    · rename_i ends hends
      have hset : ∃ y, g.endOffset.setAll ends tp = some y ∧ x ≤ y ∧ y ≤ (kafka u₁).endOffset tp := by
        rcases setAll_cases g.endOffset ends tp with hsame | ⟨y, hy, hset⟩
        · have hle₁ : u₀ ≤ u₁ := (Asked.cons hreplies (.nil le_rfl)).le
          exact ⟨x, hsame.trans hx, le_rfl, hle.trans (hkafka.endOffset tp hle₁)⟩
        · obtain ⟨t₁, t₂, ht₁, ht₂, hv, hfirst, -⟩ := hreplies
          obtain ⟨rfl, f, hf, hend⟩ := mem_topicEndOffsets hends hy
          obtain ⟨τ, hτ, hτ₁, rfl⟩ := hfirst f tp.partition y hf hend
          exact ⟨_, hset, hle.trans (hkafka.endOffset tp hτ), hkafka.endOffset tp (by omega)⟩
      obtain ⟨y, hy, hxy, hyu⟩ := hset
      split
      · exact ⟨y, hy, hxy, hyu.trans (hkafka.endOffset tp hrest.le)⟩
      · rename_i rows hrows
        obtain ⟨z, hz, hyz, hzv⟩ := ih (g := ⟨g.lag.setAll rows, g.endOffset.setAll ends⟩) hy hyu
        exact ⟨z, hz, hxy.trans hyz, hzv⟩

theorem endOffset_grows_loop (hkafka : Growing kafka) {tp : TopicPartition} {x : Int}
    (hx : g.endOffset tp = some x) (hle : x ≤ (kafka u).endOffset tp)
    (hloop : Looped kafka topics u polls v) :
    ∃ y, (lagCollectorLoop g polls).endOffset tp = some y ∧ x ≤ y := by
  induction hloop generalizing g x with
  | nil huv => exact ⟨x, hx, le_rfl⟩
  | cons htopics hpoll hpolls ih =>
    obtain ⟨y, hy, hxy, hyu⟩ := endOffset_grows_refresh hkafka hx hle hpoll
    obtain ⟨z, hz, hyz⟩ := ih hy hyu
    exact ⟨z, hz, hxy.trans hyz⟩

/-- The rows of a topic are about its partitions. -/
theorem setAll_endOffsets_other {topic : PyStr} {replies : Replies}
    {ends : List (TopicPartition × Int)} (h : topicEndOffsets topic replies = some ends)
    {tp : TopicPartition} (htp : tp.topic ≠ topic) (g : Gauge) : g.setAll ends tp = g tp :=
  setAll_of_not_mem fun _ hrow heq => htp (heq ▸ (mem_topicEndOffsets h hrow).1)

theorem setAll_lag_other {topic : PyStr} {replies : Replies} {rows : List (TopicPartition × Int)}
    (h : fetchLag topic replies = some rows) {tp : TopicPartition} (htp : tp.topic ≠ topic) (g : Gauge) :
    g.setAll rows tp = g tp :=
  setAll_of_not_mem fun _ hrow heq => htp (heq ▸ (mem_fetchLag h hrow).1)

theorem refresh_hidden {tp : TopicPartition} (h : Hides poll tp.topic) (g : Gauges) :
    (refreshLagGauges g poll).lag tp = g.lag tp ∧
      (refreshLagGauges g poll).endOffset tp = g.endOffset tp := by
  obtain ⟨before, blocked, replies, after, rfl, hraises, hblocked, hbefore⟩ := h
  induction before generalizing g with
  | nil =>
    rw [List.nil_append, refreshLagGauges]
    split
    · exact ⟨rfl, rfl⟩
    · rename_i ends hends
      have hlag : fetchLag blocked replies = none :=
        hraises.resolve_left fun hnone => by cases hends.symm.trans hnone
      rw [hlag]
      exact ⟨rfl, setAll_endOffsets_other hends hblocked _⟩
  | cons p before ih =>
    obtain ⟨topic, asked⟩ := p
    rw [List.forall_mem_cons] at hbefore
    rw [List.cons_append, refreshLagGauges]
    split
    · exact ⟨rfl, rfl⟩
    · rename_i ends hends
      have hends' := setAll_endOffsets_other hends hbefore.1.symm g.endOffset
      split
      · exact ⟨rfl, hends'⟩
      · rename_i rows hrows
        have hrest := ih ⟨g.lag.setAll rows, g.endOffset.setAll ends⟩ hbefore.2
        exact ⟨hrest.1.trans (setAll_lag_other hrows hbefore.1.symm _), hrest.2.trans hends'⟩

theorem loop_hidden {tp : TopicPartition} (h : ∀ poll ∈ polls, Hides poll tp.topic) (g : Gauges) :
    (lagCollectorLoop g polls).lag tp = g.lag tp ∧
      (lagCollectorLoop g polls).endOffset tp = g.endOffset tp := by
  induction polls generalizing g with
  | nil => exact ⟨rfl, rfl⟩
  | cons poll polls ih =>
    rw [List.forall_mem_cons] at h
    obtain ⟨hlag, hend⟩ := ih h.2 (refreshLagGauges g poll)
    obtain ⟨hlag', hend'⟩ := refresh_hidden h.1 g
    exact ⟨hlag.trans hlag', hend.trans hend'⟩

theorem refresh_ints (h : ∀ p ∈ poll, p.2.AnswersInts) (g : Gauges) :
    (refreshLagGauges g poll).lag = g.lag := by
  induction poll generalizing g with
  | nil => rfl
  | cons p rest ih =>
    obtain ⟨topic, replies⟩ := p
    rw [List.forall_mem_cons] at h
    rw [refreshLagGauges]
    split
    · rfl
    · split
      · rfl
      · rename_i rows hrows
        rw [ih h.2]
        obtain rfl := fetchLag_ints h.1 hrows
        rfl

theorem loop_ints (h : ∀ poll ∈ polls, ∀ p ∈ poll, p.2.AnswersInts) (g : Gauges) :
    (lagCollectorLoop g polls).lag = g.lag := by
  induction polls generalizing g with
  | nil => rfl
  | cons poll polls ih =>
    rw [List.forall_mem_cons] at h
    exact (ih h.2 (refreshLagGauges g poll)).trans (refresh_ints h.1 g)

theorem sound_initial : Sound kafka topics t t .initial where
  lag _ _ h := by cases h
  endOffset _ _ h := by cases h

/-- Whatever is produced and committed while the collector reads, and whichever calls raise. -/
theorem lag_gauges (hkafka : Growing kafka) (hloop : Looped kafka topics t polls u)
    (hmore : Looped kafka topics u more v) : Tells kafka topics t u polls more := by
  have hsound := sound_loop sound_initial le_rfl hloop
  have happend : lagCollectorLoop .initial (polls ++ more) =
      lagCollectorLoop (lagCollectorLoop .initial polls) more := List.foldl_append ..
  have hahead : ∀ {tp τ}, τ ≤ u → (kafka τ).endOffset tp ≤ (kafka u).endOffset tp :=
    fun hτ => hkafka.endOffset _ hτ
  constructor
  · intro tp x hx
    obtain ⟨htopic, t₁, t₂, c, ht₁, ht₂, hu, hcommit, rfl⟩ := hsound.lag tp x hx
    have hend := hkafka.endOffset tp ht₂
    have hc := hkafka.committed tp t₂ c hcommit
    exact ⟨htopic, t₁, t₂, c, ht₁, ht₂, hu, hcommit, by omega, by omega, fun hsame => by omega⟩
  · intro hints tp
    exact congrFun (loop_ints hints .initial) tp
  · intro tp x hx
    obtain ⟨htopic, τ, hτ, hu, rfl⟩ := hsound.endOffset tp x hx
    exact ⟨htopic, hahead hu, τ, hτ, hu, rfl⟩
  · intro tp x hx
    obtain ⟨-, τ, -, hu, rfl⟩ := hsound.endOffset tp x hx
    rw [happend]
    exact endOffset_grows_loop hkafka hx (hahead hu) hmore
  · intro tp hhidden
    rw [happend]
    exact loop_hidden hhidden _

end Runs

/-- Ten messages come in each partition between two moments, and the first seventy are committed. -/
def steadyKafka : Nat → Kafka := fun t => ⟨fun _ => 100 + 10 * t, fun _ => some 70⟩

/-- The replies at the moment `t`. -/
def steadyReplies (t : Nat) : Replies where
  first := ⟨some (some [0]), some fun _ => some (100 + 10 * t)⟩
  second := ⟨some (some [0]), some fun _ => some (100 + 10 * t)⟩
  committed _ := some (some (.int 70))

theorem steadyReplies_between (topic : PyStr) (t : Nat) :
    (steadyReplies t).Between steadyKafka topic t t := by
  have hends : ∀ ends partition endOffset, (steadyReplies t).first.endOffsets = some ends →
      ends partition = some endOffset →
      ∃ τ, t ≤ τ ∧ τ ≤ t ∧ endOffset = (steadyKafka τ).endOffset ⟨topic, partition⟩ := by
    intro ends partition endOffset hends hend
    cases hends
    cases hend
    exact ⟨t, le_rfl, le_rfl, rfl⟩
  refine ⟨t, t, le_rfl, le_rfl, le_rfl, hends, hends, fun partition c offset hc hoffset => ?_⟩
  cases hc
  cases hoffset

/-- The first topic raises in both polls: there are ends of that topic only, and no lag. -/
theorem lag_gauges_steady :
    let polls := [[(lit "clicks.raw", steadyReplies 0), (lit "clicks.dlq", steadyReplies 0)]]
    let more := [[(lit "clicks.raw", steadyReplies 1), (lit "clicks.dlq", steadyReplies 1)]]
    let behind := lagCollectorLoop .initial (polls ++ more)
    (behind.endOffset ⟨lit "clicks.raw", 0⟩ = some 110 ∧ behind.lag ⟨lit "clicks.raw", 0⟩ = none ∧
        behind.endOffset ⟨lit "clicks.dlq", 0⟩ = none) ∧
      Tells steadyKafka (lagTopics (lit "clicks.raw, clicks.dlq")) 0 1 polls more := by
  intro polls more behind
  have hkafka : Growing steadyKafka := by
    refine ⟨fun tp t u htu => ?_, fun tp t c hc => ?_⟩
    · show 100 + 10 * (t : Int) ≤ 100 + 10 * (u : Int)
      omega
    · cases hc
      show (70 : Int) ≤ 100 + 10 * (t : Int)
      omega
  have htopics : [lit "clicks.raw", lit "clicks.dlq"] <+: lagTopics (lit "clicks.raw, clicks.dlq") := by
    decide +kernel
  have hfirst : Looped steadyKafka (lagTopics (lit "clicks.raw, clicks.dlq")) 0 polls 1 :=
    .cons htopics (.cons (steadyReplies_between _ 0) (.cons (steadyReplies_between _ 0) (.nil le_rfl)))
      (.nil (Nat.zero_le 1))
  have hsecond : Looped steadyKafka (lagTopics (lit "clicks.raw, clicks.dlq")) 1 more 1 :=
    .cons htopics (.cons (steadyReplies_between _ 1) (.cons (steadyReplies_between _ 1) (.nil le_rfl)))
      (.nil le_rfl)
  exact ⟨by decide +kernel, lag_gauges hkafka hfirst hsecond⟩

end Clickstream.LagGauges
