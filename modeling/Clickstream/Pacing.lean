import Clickstream.Producer
import Clickstream.Sessions

/-! The pace of the producer: what a run has handed to the client after any number of rounds, returned
or not, under any clock that does not run backwards. -/

namespace Clickstream.Producer

open Python Schema Simulator

variable {config : ProducerConfig} {start : Rat} {events : Nat → ClickEvent}

/-- The rounds of the loop from one state to another. -/
inductive Rounds (config : ProducerConfig) (start : Rat) (events : Nat → ClickEvent) :
    LoopState → List Round → LoopState → Prop
  | nil (s : LoopState) : Rounds config start events s [] s
  | cons {s s' : LoopState} {rounds : List Round} (r : Round)
      (hgoes : ¬breaks config start s.produced r.deadlineClock)
      (hlegal : r.Legal config start events s)
      (hrounds : Rounds config start events (next s r) rounds s') :
      Rounds config start events s (r :: rounds) s'

/-- A loop that breaks is rounds and then a break. -/
theorem loop_iff {s s' : LoopState} {clock : Rat} :
    Loop config start events s s' clock ↔ (∃ rounds, Rounds config start events s rounds s') ∧
      s'.now ≤ clock ∧ breaks config start s'.produced clock := by
  constructor
  · intro h
    induction h with
    | stop hnow hbreaks => exact ⟨⟨[], .nil _⟩, hnow, hbreaks⟩
    | round r hgoes hlegal _ ih =>
      obtain ⟨⟨rounds, hrounds⟩, hend⟩ := ih
      exact ⟨⟨r :: rounds, .cons r hgoes hlegal hrounds⟩, hend⟩
  · rintro ⟨⟨rounds, hrounds⟩, hnow, hbreaks⟩
    induction hrounds with
    | nil => exact .stop hnow hbreaks
    | cons r hgoes hlegal _ ih => exact .round r hgoes hlegal (ih hnow hbreaks)

/-- The event with the number `i` is due. -/
def due (config : ProducerConfig) (start : Rat) (i : Nat) : Rat := start + i * (1 / config.rate)

/-- A round ends when the next event is due. -/
theorem due_le_next {s : LoopState} {r : Round} (hlegal : r.Legal config start events s) :
    due config start (next s r).produced ≤ (next s r).now := by
  have hslept := hlegal.slept.2
  rw [sleepTime] at hslept
  have htarget : due config start (s.produced + 1) ≤ r.logClock := by
    rw [due]
    linarith
  exact htarget.trans hlegal.logged

/-- What holds in each round: its event is due, and neither the number of events nor the deadline
stops it. -/
theorem Rounds.get {s s' : LoopState} {rounds : List Round}
    (h : Rounds config start events s rounds s') (hdue : due config start s.produced ≤ s.now) :
    ∀ i r, rounds[i]? = some r → r.message.event = events (s.produced + i) ∧
      due config start (s.produced + i) ≤ r.deadlineClock ∧
      r.deadlineClock ≤ r.message.enqueued ∧
      ¬breaks config start (s.produced + i) r.deadlineClock := by
  induction h with
  | nil => exact fun i r hr => nomatch hr
  | @cons s s' rounds r hgoes hlegal _ ih =>
    intro i r' hr'
    cases i with
    | zero =>
      cases hr'
      exact ⟨hlegal.event, hdue.trans hlegal.now_le, hlegal.enqueued, hgoes⟩
    | succ i =>
      have hnext := ih (due_le_next hlegal) i r' hr'
      have hproduced : (next s r).produced + i = s.produced + (i + 1) := by
        show s.produced + 1 + i = s.produced + (i + 1)
        omega
      rwa [hproduced] at hnext

theorem Rounds.produced {s s' : LoopState} {rounds : List Round}
    (h : Rounds config start events s rounds s') : s'.produced = s.produced + rounds.length := by
  induction h with
  | nil => rfl
  | cons r _ _ _ ih =>
    rw [ih, List.length_cons]
    show _ + 1 + _ = _
    omega

theorem due_initial : due config start (initial start).produced ≤ (initial start).now := by
  show start + (0 : Nat) * (1 / (config.rate : Rat)) ≤ start
  simp

section Start

variable {rounds : List Round} {s : LoopState}
  (h : Rounds config start events (initial start) rounds s)
include h

theorem rounds_get {i : Nat} {r : Round} (hr : rounds[i]? = some r) :
    r.message.event = events i ∧ due config start i ≤ r.deadlineClock ∧
      r.deadlineClock ≤ r.message.enqueued ∧ ¬breaks config start i r.deadlineClock := by
  have hget := h.get due_initial i r hr
  rwa [show (initial start).produced + i = i from Nat.zero_add i] at hget

/-- The last event of the budget is the last one produced. -/
theorem length_le_maxEvents (hmax : config.maxEvents ≠ 0) : rounds.length ≤ config.maxEvents := by
  by_contra hlt
  obtain ⟨-, -, -, hgoes⟩ := rounds_get h (List.getElem?_eq_getElem (by omega : config.maxEvents < _))
  exact hgoes (.inl ⟨hmax, Nat.le_refl _⟩)

/-- An event is produced before the deadline and not before it is due. -/
theorem length_le_rate_mul {d : Nat} (hduration : config.durationSeconds = some d) (hd : d ≠ 0) :
    rounds.length ≤ config.rate * d := by
  cases hlength : rounds.length with
  | zero => exact Nat.zero_le _
  | succ n =>
    obtain ⟨-, hdue, -, hgoes⟩ := rounds_get h (List.getElem?_eq_getElem (by omega : n < _))
    have hdeadline : deadline config start = some (start + d) := by
      rw [deadline, hduration]
      exact if_neg hd
    have hbefore : due config start n < start + d :=
      hdue.trans_lt (not_le.mp fun hle => hgoes (.inr ⟨_, hdeadline, hle⟩))
    have hrate : (0 : Rat) < config.rate := Nat.cast_pos.mpr config.rate_pos
    have hlt : (n : Rat) < config.rate * d := by
      rw [due, mul_one_div, add_lt_add_iff_left, div_lt_iff₀ hrate] at hbefore
      linarith
    exact_mod_cast hlt

/-- Without a deadline the loop breaks at the end of the budget, and only there. -/
theorem breaks_iff (hmax : config.maxEvents ≠ 0)
    (hduration : config.durationSeconds = none ∨ config.durationSeconds = some 0) (clock : Rat) :
    breaks config start s.produced clock ↔ rounds.length = config.maxEvents := by
  have hdeadline : deadline config start = none := by
    rcases hduration with hnone | hzero
    · rw [deadline, hnone]
    · rw [deadline, hzero]
      exact if_pos rfl
  have hproduced : s.produced = rounds.length := h.produced.trans (Nat.zero_add _)
  have hle := length_le_maxEvents h hmax
  rw [breaks, hproduced, hdeadline]
  constructor
  · rintro (⟨-, hfull⟩ | ⟨d, hd, -⟩)
    · omega
    · cases hd
  · intro hfull
    exact .inl ⟨hmax, hfull.ge⟩

end Start

/-- The events that a simulator yields are those that it is asked for. -/
theorem firstEvents_eq_map {σ : Type} {py : Interpreter} {rng : Random σ} {rate : Nat}
    {hrate : 0 < rate} {seed : Int} {built : DateTime} {n : Nat}
    (h : ∀ i < n, (firstEvents py rng hrate seed built (i + 1))[i]? = some (events i)) :
    firstEvents py rng hrate seed built n = (List.range n).map events := by
  apply List.ext_getElem?
  intro i
  by_cases hi : i < n
  · obtain ⟨rest, hrest⟩ := firstEvents_prefix py rng hrate (Nat.succ_le_of_lt hi) seed built
    obtain ⟨hlt, -⟩ := List.getElem?_eq_some_iff.mp (h i hi)
    rw [← hrest, List.getElem?_append_left hlt, h i hi, List.getElem?_map,
      List.getElem?_range hi, Option.map_some]
  · have hlength : (firstEvents py rng hrate seed built n).length ≤ n := List.length_take_le _ _
    rw [List.getElem?_eq_none (by omega), List.getElem?_eq_none (by simpa using hi)]

/-- After any rounds the client has been handed the first events of the simulator, none before it is
due, and no more than the budget and the duration allow. -/
theorem run_bounds {σ : Type} (py : Interpreter) (rng : Random σ) (config : ProducerConfig)
    (built : DateTime) {start : Rat} {events : Nat → ClickEvent} {rounds : List Round} {s : LoopState}
    (hstream : ∀ i < rounds.length,
      (firstEvents py rng config.rate_pos config.seed built (i + 1))[i]? = some (events i))
    (h : Rounds config start events (initial start) rounds s) :
    (rounds.map fun r => r.message.event) =
        firstEvents py rng config.rate_pos config.seed built rounds.length ∧
      (∀ (i : Nat) (r : Round), rounds[i]? = some r →
        start + i / config.rate ≤ r.message.enqueued) ∧
      (config.maxEvents ≠ 0 → rounds.length ≤ config.maxEvents ∧
        ((config.durationSeconds = none ∨ config.durationSeconds = some 0) → ∀ clock,
          breaks config start s.produced clock ↔ rounds.length = config.maxEvents)) ∧
      ∀ d, config.durationSeconds = some d → d ≠ 0 → rounds.length ≤ config.rate * d := by
  refine ⟨?_, ?_, ?_, fun d hduration hd => length_le_rate_mul h hduration hd⟩
  · rw [firstEvents_eq_map hstream]
    apply List.ext_getElem?
    intro i
    rw [List.getElem?_map, List.getElem?_map]
    by_cases hi : i < rounds.length
    · obtain ⟨hevent, -⟩ := rounds_get h (List.getElem?_eq_getElem hi)
      rw [List.getElem?_eq_getElem hi, List.getElem?_range hi, Option.map_some, Option.map_some, hevent]
    · rw [List.getElem?_eq_none (by omega), List.getElem?_eq_none (by simpa using hi)]
      rfl
  · intro i r hr
    obtain ⟨-, hdue, henqueued, -⟩ := rounds_get h hr
    rw [due, mul_one_div] at hdue
    exact hdue.trans henqueued
  · intro hmax
    exact ⟨length_le_maxEvents h hmax, fun hduration clock => breaks_iff h hmax hduration clock⟩

/-- A run without a duration returns behind the last event of its budget. -/
theorem Runs.produced_eq {last : LoopState} {closedAt : Rat} (h : Runs config events last closedAt)
    (hmax : config.maxEvents ≠ 0)
    (hduration : config.durationSeconds = none ∨ config.durationSeconds = some 0) :
    last.produced = config.maxEvents := by
  obtain ⟨start, clock, hloop, -⟩ := h
  obtain ⟨⟨rounds, hrounds⟩, -, hbreaks⟩ := loop_iff.mp hloop
  rw [hrounds.produced]
  exact (Nat.zero_add _).trans ((breaks_iff hrounds hmax hduration clock).mp hbreaks)

/-! ### Two events in a second -/

def twoEvents : ProducerConfig :=
  { oneEvent with rate := 2, durationSeconds := some 1, maxEvents := 5, rate_pos := by decide }

def messageAt (event : ClickEvent) (t : Rat) : Message where
  event := event
  enqueued := t
  ready := t + 1
  err := none
  enqueued_le_ready := by linarith
  ready_le_timeout := by
    have htimeout : (messageTimeoutMs : Rat) / 1000 = 30 := by decide +kernel
    rw [htimeout]
    linarith

/-- A round that hands over its event at once and sleeps for half a second. -/
def roundAt (event : ClickEvent) (t : Rat) : Round :=
  ⟨t, messageAt event t, t, fun _ => false, t, t + 1 / 2, t + 1 / 2⟩

theorem legal_roundAt {s : LoopState} {t : Rat} (hnow : s.now = t) (ht : t = s.produced * (1 / 2)) :
    Round.Legal twoEvents 0 events s (roundAt (events s.produced) t) where
  now_le := hnow.le
  event := rfl
  enqueued := le_rfl
  polled := le_rfl
  ready := fun _ h => nomatch h
  sleep := le_rfl
  slept := by
    have htarget : sleepTime twoEvents 0 (s.produced + 1) t = 1 / 2 := by
      show 0 + ((s.produced + 1 : Nat) : Rat) * (1 / (2 : Nat)) - t = 1 / 2
      rw [ht]
      push_cast
      ring
    show t ≤ t + 1 / 2 ∧ t + sleepTime twoEvents 0 (s.produced + 1) t ≤ t + 1 / 2
    rw [htarget]
    exact ⟨by linarith, le_rfl⟩
  logged := le_rfl

theorem breaks_twoEvents (i : Nat) (clock : Rat) :
    breaks twoEvents 0 i clock ↔ 5 ≤ i ∨ 1 ≤ clock := by
  have hdeadline : deadline twoEvents 0 = some 1 := by decide +kernel
  have hmax : twoEvents.maxEvents = 5 := rfl
  rw [breaks, hdeadline, hmax]
  simp

def twoRounds (events : Nat → ClickEvent) : List Round :=
  [roundAt (events 0) 0, roundAt (events 1) (1 / 2)]

/-- The deadline ends the run behind the second event, within its budget. -/
theorem rounds_twoEvents (events : Nat → ClickEvent) : ∃ s,
    Rounds twoEvents 0 events (initial 0) (twoRounds events) s ∧
      breaks twoEvents 0 s.produced s.now := by
  let s₁ := next (initial 0) (roundAt (events 0) 0)
  have hnow₁ : s₁.now = 1 / 2 := zero_add _
  have hnow₂ : (next s₁ (roundAt (events 1) (1 / 2))).now = 1 := by
    show (1 / 2 : Rat) + 1 / 2 = 1
    norm_num
  have hfirst : ¬breaks twoEvents 0 0 0 := by
    rw [breaks_twoEvents]
    norm_num
  have hsecond : ¬breaks twoEvents 0 1 (1 / 2) := by
    rw [breaks_twoEvents]
    norm_num
  have hlegal : Round.Legal twoEvents 0 events (initial 0) (roundAt (events 0) 0) :=
    legal_roundAt rfl (by show (0 : Rat) = (0 : Nat) * (1 / 2); norm_num)
  have hlegal₁ : Round.Legal twoEvents 0 events s₁ (roundAt (events 1) (1 / 2)) :=
    legal_roundAt hnow₁ (by show (1 / 2 : Rat) = (1 : Nat) * (1 / 2); norm_num)
  refine ⟨_, .cons _ hfirst hlegal (.cons _ hsecond hlegal₁ (.nil _)), ?_⟩
  rw [hnow₂, breaks_twoEvents]
  exact .inr le_rfl

/-- The last second of a year, in which two events are due. -/
def lastSecond : DateTime := (DateTime.make 2027 12 31 23 59 59).get (by decide)

theorem exists_stream : ∃ events : Nat → ClickEvent, ∀ i < 2,
    (firstEvents cpython lowest twoEvents.rate_pos twoEvents.seed lastSecond (i + 1))[i]? =
      some (events i) := by
  let stream := firstEvents cpython lowest twoEvents.rate_pos twoEvents.seed lastSecond
  have htwo : (stream 2).length = 2 := length_firstEvents cpython lowest _ (by decide +kernel)
  refine ⟨fun i => (stream 2)[i]?.getD sampleEvent, fun i hi => ?_⟩
  have hlength : (stream (i + 1)).length = i + 1 := by
    obtain rfl | rfl : i = 0 ∨ i = 1 := by omega
    · exact length_firstEvents cpython lowest _ (length_clocks_one _ _)
    · exact htwo
  obtain ⟨rest, hrest⟩ := firstEvents_prefix cpython lowest twoEvents.rate_pos
    (Nat.succ_le_of_lt hi) twoEvents.seed lastSecond
  have happend : stream (i + 1) ++ rest = stream 2 := hrest
  have hget : (stream 2)[i]? = (stream (i + 1))[i]? := by
    rw [← happend, List.getElem?_append_left (by omega)]
  obtain ⟨event, hevent⟩ : ∃ event, (stream 2)[i]? = some event :=
    ⟨_, List.getElem?_eq_getElem (htwo.symm ▸ hi)⟩
  show (stream (i + 1))[i]? = some ((stream 2)[i]?.getD sampleEvent)
  rw [← hget, hevent, Option.getD_some]

theorem run_bounds_twoEvents : ∃ (events : Nat → ClickEvent) (s : LoopState),
    Rounds twoEvents 0 events (initial 0) (twoRounds events) s ∧
      breaks twoEvents 0 s.produced s.now ∧
      ((twoRounds events).map fun r => r.message.event) =
        firstEvents cpython lowest twoEvents.rate_pos twoEvents.seed lastSecond 2 ∧
      (∀ (i : Nat) (r : Round), (twoRounds events)[i]? = some r →
        0 + (i : Rat) / (2 : Nat) ≤ r.message.enqueued) ∧
      (twoRounds events).length ≤ 2 * 1 := by
  obtain ⟨events, hstream⟩ := exists_stream
  obtain ⟨s, hrounds, hbreaks⟩ := rounds_twoEvents events
  have hfirst : ∀ i < (twoRounds events).length, (firstEvents cpython lowest twoEvents.rate_pos
      twoEvents.seed lastSecond (i + 1))[i]? = some (events i) := hstream
  obtain ⟨hhanded, hdue, -, hduration⟩ := run_bounds cpython lowest twoEvents lastSecond hfirst hrounds
  exact ⟨events, s, hrounds, hbreaks, hhanded, hdue, hduration 1 rfl one_ne_zero⟩

end Clickstream.Producer
