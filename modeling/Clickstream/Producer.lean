import Clickstream.Schema
import Mathlib.Algebra.Order.Field.Rat

/-! The producer process: the run loop of the command line and the Kafka client that it feeds.  The
client hands every message to librdkafka, which reports it once, when `poll` or `flush` gives it the
chance.  A run meets the readings of a clock and a broker, whose choices are parameters of each
step; a run in which an operation raises does not return. -/

namespace Clickstream.Producer

open Python Schema

/-! ### The Kafka client -/

/-- `message.timeout.ms` of the client's options. -/
def messageTimeoutMs : Nat := 30000

def flushTimeout : Rat := 10

/-- A message in the hands of librdkafka: when its report is ready, and with which error. -/
structure Message where
  event : ClickEvent
  enqueued : Rat
  ready : Rat
  err : Option PyStr
  enqueued_le_ready : enqueued ≤ ready
  ready_le_timeout : ready ≤ enqueued + messageTimeoutMs / 1000

structure DeliveryTracker where
  delivered : Nat
  failed : Nat
  lastError : Option PyStr

def DeliveryTracker.onDelivery (tracker : DeliveryTracker) (m : Message) : DeliveryTracker :=
  match m.err with
  | some err => { tracker with failed := tracker.failed + 1, lastError := some err }
  | none => { tracker with delivered := tracker.delivered + 1 }

/-- A `ClickstreamProducer`: the messages without a report so far, and the tracker. -/
structure Client where
  outstanding : List Message
  tracker : DeliveryTracker

def Client.new : Client := ⟨[], ⟨0, 0, none⟩⟩

def Client.produce (client : Client) (m : Message) : Client :=
  { client with outstanding := client.outstanding ++ [m] }

/-- The callbacks of the messages that satisfy `p`. -/
def Client.serve (client : Client) (p : Message → Bool) : Client where
  outstanding := client.outstanding.filter fun m => !p m
  tracker := (client.outstanding.filter p).foldl DeliveryTracker.onDelivery client.tracker

/-- `flush(timeout)` at the moment `now`: the reports that are ready in time, and how many messages
are left. -/
def Client.flush (client : Client) (now timeout : Rat) : Client × Nat :=
  let served := client.serve fun m => decide (m.ready ≤ now + timeout)
  (served, served.outstanding.length)

/-- `close`, which drops the number of messages left. -/
def Client.close (client : Client) (now : Rat) : Client := (client.flush now flushTimeout).1

/-! ### The run loop -/

/-- A `ProducerConfig`, with the checks of `__post_init__`. -/
structure ProducerConfig where
  bootstrapServers : PyStr
  topic : PyStr
  rate : Nat
  durationSeconds : Option Nat
  maxEvents : Nat
  seed : Int
  lingerMs : Nat
  batchSize : Nat
  rate_pos : 0 < rate
  batchSize_pos : 0 < batchSize

def logInterval : Rat := 5

/-- The variables of the loop, and the latest moment the run has seen. -/
structure LoopState where
  now : Rat
  client : Client
  produced : Nat
  nextLog : Rat

/-- What one round of the loop meets: the clock where the deadline is checked, the message as
librdkafka takes it, the moment of the poll and the reports it serves, and the clock at the sleep, at
the check of the log interval and behind the log line. -/
structure Round where
  deadlineClock : Rat
  message : Message
  polled : Rat
  served : Message → Bool
  sleepClock : Rat
  logClock : Rat
  loggedClock : Rat

section Loop

variable (config : ProducerConfig) (start : Rat) (events : Nat → ClickEvent)

def deadline : Option Rat :=
  match config.durationSeconds with
  | none => none
  | some d => if d = 0 then none else some (start + d)

def breaks (produced : Nat) (clock : Rat) : Prop :=
  (config.maxEvents ≠ 0 ∧ config.maxEvents ≤ produced) ∨
    ∃ d, deadline config start = some d ∧ d ≤ clock

def sleepTime (produced : Nat) (clock : Rat) : Rat :=
  start + produced * (1 / config.rate) - clock

/-- The clock does not run backwards, a poll serves reports that are ready, and a sleep takes at least
its time. -/
structure Round.Legal (s : LoopState) (r : Round) : Prop where
  now_le : s.now ≤ r.deadlineClock
  event : r.message.event = events s.produced
  enqueued : r.deadlineClock ≤ r.message.enqueued
  polled : r.message.enqueued ≤ r.polled
  ready : ∀ m, r.served m = true → m.ready ≤ r.polled
  sleep : r.polled ≤ r.sleepClock
  slept : r.sleepClock ≤ r.logClock ∧
    r.sleepClock + sleepTime config start (s.produced + 1) r.sleepClock ≤ r.logClock
  logged : r.logClock ≤ r.loggedClock

def next (s : LoopState) (r : Round) : LoopState where
  now := r.loggedClock
  client := (s.client.produce r.message).serve r.served
  produced := s.produced + 1
  nextLog := if s.nextLog ≤ r.logClock then r.loggedClock + logInterval else s.nextLog

/-- The loop runs from one state to another and breaks there, at the reading `clock`. -/
inductive Loop : LoopState → LoopState → Rat → Prop
  | stop {s : LoopState} {clock : Rat} (hnow : s.now ≤ clock)
      (hbreaks : breaks config start s.produced clock) : Loop s s clock
  | round {s s' : LoopState} {clock : Rat} (r : Round)
      (hgoes : ¬breaks config start s.produced r.deadlineClock)
      (hlegal : r.Legal config start events s) (hloop : Loop (next s r) s' clock) : Loop s s' clock

def initial : LoopState := ⟨start, .new, 0, start + logInterval⟩

/-- `run` leaves its loop in the state `last` and calls `close` at `closedAt`. -/
def Runs (last : LoopState) (closedAt : Rat) : Prop :=
  ∃ start clock, Loop config start events (initial start) last clock ∧ clock ≤ closedAt

end Loop

/-! ### Accounting -/

/-- Every event is delivered, failed or outstanding. -/
def Accounted (s : LoopState) : Prop :=
  s.client.tracker.delivered + s.client.tracker.failed + s.client.outstanding.length = s.produced

theorem onDelivery_count (tracker : DeliveryTracker) (m : Message) :
    (tracker.onDelivery m).delivered + (tracker.onDelivery m).failed =
      tracker.delivered + tracker.failed + 1 := by
  unfold DeliveryTracker.onDelivery
  cases m.err with
  | none => simp only; omega
  | some err => simp only; omega

theorem foldl_onDelivery_count (ms : List Message) (tracker : DeliveryTracker) :
    (ms.foldl DeliveryTracker.onDelivery tracker).delivered +
        (ms.foldl DeliveryTracker.onDelivery tracker).failed =
      tracker.delivered + tracker.failed + ms.length := by
  induction ms generalizing tracker with
  | nil => rfl
  | cons m ms ih =>
    rw [List.foldl_cons, ih, onDelivery_count, List.length_cons]
    omega

/-- A report moves a message from the outstanding ones to the tracker. -/
theorem serve_count (client : Client) (p : Message → Bool) :
    (client.serve p).tracker.delivered + (client.serve p).tracker.failed +
        (client.serve p).outstanding.length =
      client.tracker.delivered + client.tracker.failed + client.outstanding.length := by
  have hsplit := List.length_eq_length_filter_add p (l := client.outstanding)
  rw [Client.serve, foldl_onDelivery_count]
  simp only
  omega

theorem accounted_next {s : LoopState} (h : Accounted s) (r : Round) : Accounted (next s r) := by
  have hserve := serve_count (s.client.produce r.message) r.served
  have hproduce : (s.client.produce r.message).outstanding.length =
      s.client.outstanding.length + 1 := by
    rw [Client.produce, List.length_append, List.length_singleton]
  have htracker : (s.client.produce r.message).tracker = s.client.tracker := rfl
  rw [hproduce, htracker] at hserve
  rw [Accounted] at h ⊢
  simp only [next]
  omega

theorem accounted_loop {config : ProducerConfig} {start : Rat} {events : Nat → ClickEvent}
    {s s' : LoopState} {clock : Rat} (hloop : Loop config start events s s' clock)
    (h : Accounted s) : Accounted s' := by
  induction hloop with
  | stop => exact h
  | round r _ _ _ ih => exact ih (accounted_next h r)

section Run

variable {config : ProducerConfig} {events : Nat → ClickEvent} {last : LoopState} {closedAt : Rat}

theorem Runs.accounted (h : Runs config events last closedAt) : Accounted last := by
  obtain ⟨start, clock, hloop, -⟩ := h
  exact accounted_loop hloop rfl

/-- When `run` returns, every event has had its report exactly when the reports outstanding at the
call of `close` are ready within the timeout of its flush. -/
theorem all_reported_iff (h : Runs config events last closedAt) :
    (last.client.close closedAt).tracker.delivered +
        (last.client.close closedAt).tracker.failed = last.produced ↔
      ∀ m ∈ last.client.outstanding, m.ready ≤ closedAt + flushTimeout := by
  have hserve : (last.client.close closedAt).tracker.delivered +
      (last.client.close closedAt).tracker.failed +
      (last.client.close closedAt).outstanding.length = last.produced :=
    (serve_count ..).trans h.accounted
  have hleft : (last.client.close closedAt).outstanding.length = 0 ↔
      ∀ m ∈ last.client.outstanding, m.ready ≤ closedAt + flushTimeout := by
    rw [List.length_eq_zero_iff, Client.close, Client.flush, Client.serve, List.filter_eq_nil_iff]
    simp
  rw [← hleft]
  constructor
  · intro hall
    omega
  · intro hnone
    omega

end Run

/-! ### A run of one event -/

def sampleEvent : ClickEvent := ⟨sample (lit "2026-08-27T15:00:00Z"), valid_sample_base⟩

def oneEvent : ProducerConfig where
  bootstrapServers := lit "localhost:9092"
  topic := lit "clicks.raw"
  rate := 1
  durationSeconds := none
  maxEvents := 1
  seed := 42
  lingerMs := 10
  batchSize := 65536
  rate_pos := by decide
  batchSize_pos := by decide

def oneMessage (ready : Rat) (h : 0 ≤ ready ∧ ready ≤ 30) : Message where
  event := sampleEvent
  enqueued := 0
  ready := ready
  err := none
  enqueued_le_ready := h.1
  ready_le_timeout := by
    have htimeout : (0 : Rat) + messageTimeoutMs / 1000 = 30 := by decide +kernel
    rw [htimeout]
    exact h.2

/-- The loop waits one second behind an event. -/
theorem legal_oneEvent {event : ClickEvent} {m : Message} (hevent : m.event = event)
    (henqueued : m.enqueued = 0) :
    Round.Legal oneEvent 0 (fun _ => event) (initial 0) ⟨0, m, 0, fun _ => false, 0, 1, 1⟩ where
  now_le := le_refl _
  event := hevent
  enqueued := henqueued.ge
  polled := henqueued.le
  ready := fun _ h => nomatch h
  sleep := le_refl _
  slept := by
    have hslept : (0 : Rat) ≤ 1 ∧ 0 + sleepTime oneEvent 0 (0 + 1) 0 ≤ 1 := by decide +kernel
    exact hslept
  logged := le_refl _

theorem goes_oneEvent : ¬breaks oneEvent 0 0 0 := by
  rintro (⟨-, h⟩ | ⟨d, h, -⟩)
  · exact Nat.not_succ_le_zero 0 h
  · cases h

/-- The loop breaks behind its event; nothing is served in it. -/
theorem runs_oneEvent (m : Message) (hevent : m.event = sampleEvent) (henqueued : m.enqueued = 0) :
    ∃ last, Runs oneEvent (fun _ => sampleEvent) last 1 ∧ last.client.outstanding = [m] ∧
      last.client.tracker = ⟨0, 0, none⟩ ∧ last.produced = 1 :=
  ⟨next (initial 0) ⟨0, m, 0, fun _ => false, 0, 1, 1⟩,
    ⟨0, 1, .round ⟨0, m, 0, fun _ => false, 0, 1, 1⟩ goes_oneEvent (legal_oneEvent hevent henqueued)
      (.stop (le_refl _) (.inl ⟨Nat.one_ne_zero, le_refl 1⟩)), le_refl _⟩, rfl, rfl, rfl⟩

theorem all_reported_iff_acknowledged : ∃ last,
    Runs oneEvent (fun _ => sampleEvent) last 1 ∧
      (last.client.close 1).tracker.delivered + (last.client.close 1).tracker.failed =
        last.produced := by
  obtain ⟨last, hruns, houtstanding, -, -⟩ :=
    runs_oneEvent (oneMessage 2 (by decide +kernel)) rfl rfl
  refine ⟨last, hruns, (all_reported_iff hruns).mpr fun m hm => ?_⟩
  rw [houtstanding, List.mem_singleton] at hm
  subst hm
  decide +kernel

/-- Acknowledged after twenty seconds, the event has no report when `run` returns. -/
theorem not_all_reported_always :
    ¬∀ config events last closedAt, Runs config events last closedAt →
      (last.client.close closedAt).tracker.delivered +
        (last.client.close closedAt).tracker.failed = last.produced := by
  intro h
  obtain ⟨last, hruns, houtstanding, htracker, hproduced⟩ :=
    runs_oneEvent (oneMessage 20 (by decide +kernel)) rfl rfl
  have hall := h _ _ _ _ hruns
  have hnone : ([oneMessage 20 (by decide +kernel)].filter fun m =>
      decide (m.ready ≤ 1 + flushTimeout)) = [] := by
    rw [List.filter_eq_nil_iff]
    intro m hm
    rw [List.mem_singleton] at hm
    subst hm
    decide +kernel
  rw [hproduced, Client.close, Client.flush, Client.serve, houtstanding, htracker] at hall
  simp only [hnone, List.foldl_nil] at hall
  cases hall

end Clickstream.Producer
