import Clickstream.Freshness
import Clickstream.Streaming
import Clickstream.WireFormat

/-! The gauge over runs of `lag_collector_loop`, against the time since the last write to the curated
layer.  The loop keeps the gauge as it is when a refresh raises, and the windows it compares with the clock
start where the events say. -/

namespace Clickstream.Freshness

open Python Streaming

/-! ### Windows of accepted events -/

/-- The start of the window of an event. -/
def windowOf (moment : DateTime) : Clock where
  moment := { moment with second := 0, second_lt := Nat.succ_pos 59 }
  micros := 0
  micros_lt := Nat.succ_pos 999999

theorem epochMicros_windowOf (moment : DateTime) :
    (windowOf moment).epochMicros = windowStart (moment.epochSeconds * second) := by
  have hminute := moment.minute_lt
  have hsecond := moment.second_lt
  simp only [Clock.epochMicros, windowOf, DateTime.epochSeconds, DateTime.toordinal, windowStart,
    windowLength, windowMinutes, second]
  omega

/-- `_validate` accepts every moment as a `ts`, whatever the clock says. -/
theorem exists_accepted (py : Interpreter) (moment : DateTime) :
    ∃ text e, Parsing.parseEvent py text = .ok e ∧ strptime e.ts Schema.tsFormat = some moment := by
  have hread : strptime (strftime moment isoFormat) Schema.tsFormat = some moment :=
    strptime_strftime moment
  have hvalid : (strptime (strftime moment isoFormat) Schema.tsFormat).isSome = true := by
    rw [hread]
    rfl
  have hscalar : Scalar (strftime moment isoFormat) := by
    rw [strftime_eq_isoformat]
    exact List.forall_mem_append.mpr ⟨moment.scalar_isoformat, scalar_lit "Z"⟩
  exact ⟨_, _, WireFormat.parseEvent_toJson py ⟨_, Schema.valid_sample hvalid⟩
    (Schema.scalarFields_sample hscalar), hread⟩

/-! ### Runs -/

/-- The clock, the `window_start` of the rows of the table and the gauge; and of the past, the time of the
last upsert, and of the last refresh that set the gauge from a window, its time and that window. -/
structure State where
  now : Int
  windowStarts : List Clock
  gauge : Rat
  lastUpsert : Option Int
  refreshed : Option (Int × Clock)

/-- A process starts with the gauge at zero. -/
def State.start (now : Int) : State := ⟨now, [], 0, none, none⟩

inductive RefreshError where
  | operationalError
  | datetimeError (e : DatetimeError)

/-- `refresh_freshness_gauge`, when the database answers and when it does not. -/
def State.refresh (s : State) (answers : Bool) : Except RefreshError Rat :=
  if answers then (gaugeStaleness s.windowStarts s.now).mapError .datetimeError
  else .error .operationalError

/-- An iteration of `lag_collector_loop`: an exception of the refresh is logged.  The refresh of the lag
gauges in front of it has a handler of its own and does not touch this gauge. -/
def State.iterate (s : State) (answers : Bool) : State :=
  match s.refresh answers with
  | .ok value =>
    { s with gauge := value, refreshed := (maxWindowStart s.windowStarts).map fun latest => (s.now, latest) }
  | .error _ => s

/-- Time passes, an upsert writes the windows of accepted events, of one at least, and the loop goes round. -/
inductive Step where
  | pass (micros : Nat)
  | upsert (moment : DateTime) (moments : List DateTime)
  | iterate (answers : Bool)

def State.step (s : State) : Step → State
  | .pass micros => { s with now := s.now + micros }
  | .upsert moment moments => { s with
      windowStarts := s.windowStarts ++ (moment :: moments).map windowOf
      lastUpsert := some s.now }
  | .iterate answers => s.iterate answers

def State.exec (s : State) (run : List Step) : State := run.foldl State.step s

/-- `max(0, now - u - 60 s)` -/
def sinceUpsert (now u : Int) : Rat := max 0 (totalSeconds (now - u) - 60)

/-- The gauge does not understate how long the layer has gone without a write. -/
def State.Honest (s : State) : Prop := ∀ u, s.lastUpsert = some u → sinceUpsert s.now u ≤ s.gauge

/-- The gauge is honest after every iteration of the run. -/
def FailsClosed (start : Int) (run : List Step) : Prop :=
  ∀ before answers rest, run = before ++ .iterate answers :: rest →
    ((State.start start).exec (before ++ [.iterate answers])).Honest

/-- The database answers, and one minute after the latest window is still in year 9999. -/
def State.goesThrough (s : State) (answers : Bool) : Bool :=
  answers && (maxWindowStart s.windowStarts).all fun latest =>
    decide (latest.epochMicros + 60000000 ≤ maxMicros)

/-- What the gauge rests on after an iteration: its refresh if that goes through, else the last one that did,
and nothing when the table was empty then. -/
def State.basis (s : State) (answers : Bool) : Option (Int × Clock) :=
  if s.goesThrough answers then (maxWindowStart s.windowStarts).map fun latest => (s.now, latest)
  else s.refreshed

/-- The last upsert is at most one minute ago, or the latest window on which the gauge rests starts so long
before it as that refresh is ago. -/
def State.Covered (s : State) (answers : Bool) : Prop :=
  ∀ u, s.lastUpsert = some u → s.now ≤ u + 60000000 ∨
    ∃ time latest, s.basis answers = some (time, latest) ∧ s.now - time ≤ u - latest.epochMicros

/-- The gauge is what the last refresh behind it computed. -/
def State.Tracks (s : State) : Prop := s.gauge = s.refreshed.elim 0 fun p => behind p.2 p.1

section Step

variable {s : State} {answers : Bool}

theorem refresh_of_goesThrough (h : s.goesThrough answers = true) :
    s.refresh answers = .ok ((maxWindowStart s.windowStarts).elim 0 fun latest => behind latest s.now) := by
  rw [State.goesThrough, Bool.and_eq_true] at h
  rw [State.refresh, if_pos h.1]
  cases hlatest : maxWindowStart s.windowStarts with
  | none =>
    rw [gaugeStaleness, fetchLatestWindow, hlatest]
    rfl
  | some latest =>
    have hend := h.2
    rw [hlatest, Option.all_some, decide_eq_true_iff] at hend
    rw [gaugeStaleness_of_latest hlatest, if_pos hend]
    rfl

theorem refresh_of_not_goesThrough (h : ¬s.goesThrough answers = true) :
    ∃ e, s.refresh answers = .error e := by
  rw [State.goesThrough, Bool.and_eq_true, not_and_or] at h
  rw [State.refresh]
  split_ifs with hanswers
  · have hend := h.resolve_left (not_not_intro hanswers)
    cases hlatest : maxWindowStart s.windowStarts with
    | none =>
      rw [hlatest] at hend
      exact absurd rfl hend
    | some latest =>
      rw [hlatest, Option.all_some, decide_eq_true_iff] at hend
      rw [gaugeStaleness_of_latest hlatest, if_neg hend]
      exact ⟨_, rfl⟩
  · exact ⟨_, rfl⟩

theorem refreshed_iterate : (s.iterate answers).refreshed = s.basis answers := by
  by_cases h : s.goesThrough answers = true
  · rw [State.iterate, refresh_of_goesThrough h, State.basis, if_pos h]
  · obtain ⟨e, he⟩ := refresh_of_not_goesThrough h
    rw [State.iterate, he, State.basis, if_neg h]

theorem tracks_iterate (h : s.Tracks) : (s.iterate answers).Tracks := by
  by_cases hgoes : s.goesThrough answers = true
  · rw [State.Tracks, State.iterate, refresh_of_goesThrough hgoes]
    cases maxWindowStart s.windowStarts <;> rfl
  · obtain ⟨e, he⟩ := refresh_of_not_goesThrough hgoes
    rw [State.iterate, he]
    exact h

theorem tracks_step (h : s.Tracks) (step : Step) : (s.step step).Tracks := by
  cases step with
  | pass micros => exact h
  | upsert moment moments => exact h
  | iterate answers => exact tracks_iterate h

theorem tracks_exec (h : s.Tracks) (run : List Step) : (s.exec run).Tracks := by
  induction run generalizing s with
  | nil => exact h
  | cons step run ih => exact ih (tracks_step h step)

theorem tracks_start (now : Int) : (State.start now).Tracks := rfl

theorem now_iterate : (s.iterate answers).now = s.now := by
  rw [State.iterate]
  split <;> rfl

theorem lastUpsert_iterate : (s.iterate answers).lastUpsert = s.lastUpsert := by
  rw [State.iterate]
  split <;> rfl

theorem sinceUpsert_le_zero_iff {now u : Int} : sinceUpsert now u ≤ 0 ↔ now ≤ u + 60000000 := by
  have hzero : totalSeconds 0 = 0 := by simp [totalSeconds]
  rw [sinceUpsert, max_le_iff, and_iff_right le_rfl, totalSeconds_sub_sixty, ← hzero,
    totalSeconds_le_iff]
  omega

theorem sinceUpsert_le_iff {now u time : Int} {latest : Clock} :
    sinceUpsert now u ≤ behind latest time ↔
      now ≤ u + 60000000 ∨ now - time ≤ u - latest.epochMicros := by
  have hzero : (0 : Rat) ≤ 0 ∨ (0 : Rat) ≤ totalSeconds (time - latest.epochMicros) - 60 := .inl le_rfl
  have hage : totalSeconds (now - u) - 60 ≤ totalSeconds (time - latest.epochMicros) - 60 ↔
      now - time ≤ u - latest.epochMicros := by
    rw [sub_le_sub_iff_right, totalSeconds_le_iff]
    omega
  have hnow : totalSeconds (now - u) - 60 ≤ 0 ↔ now ≤ u + 60000000 := by
    rw [← sinceUpsert_le_zero_iff, sinceUpsert, max_le_iff, and_iff_right le_rfl]
  rw [sinceUpsert, behind, max_le_iff, le_max_iff, le_max_iff, and_iff_right hzero, hnow, hage]

/-- One iteration leaves the gauge honest exactly when it is covered. -/
theorem honest_iterate_iff (h : s.Tracks) : (s.iterate answers).Honest ↔ s.Covered answers := by
  have hgauge : (s.iterate answers).Tracks := tracks_iterate h
  rw [State.Tracks, refreshed_iterate] at hgauge
  apply forall_congr'
  intro u
  rw [lastUpsert_iterate, now_iterate, hgauge]
  apply imp_congr_right
  intro _
  cases s.basis answers with
  | none => simp [sinceUpsert_le_zero_iff]
  | some p =>
    obtain ⟨time, latest⟩ := p
    simp [sinceUpsert_le_iff]

/-- A refresh that goes through covers its iteration when no window of the table starts after the last
upsert. -/
theorem covered_iff_of_goesThrough (hgoes : s.goesThrough answers = true) (hne : s.windowStarts ≠ []) :
    s.Covered answers ↔ ∀ u, s.lastUpsert = some u →
      s.now ≤ u + 60000000 ∨ ∀ c ∈ s.windowStarts, c.epochMicros ≤ u := by
  obtain ⟨latest, hlatest⟩ := Option.ne_none_iff_exists'.mp (mt maxWindowStart_eq_none.mp hne)
  have hbasis : s.basis answers = some (s.now, latest) := by
    rw [State.basis, if_pos hgoes, hlatest]
    rfl
  refine forall_congr' fun u => imp_congr_right fun _ => or_congr_right ?_
  rw [hbasis]
  constructor
  · rintro ⟨time, latest', hsame, hle⟩ c hc
    obtain ⟨rfl, rfl⟩ := Prod.mk.inj (Option.some.inj hsame)
    have hc' := le_maxWindowStart hlatest c hc
    omega
  · intro h
    have hu := h latest (maxWindowStart_mem hlatest)
    exact ⟨s.now, latest, rfl, by omega⟩

end Step

/-- The gauge is honest after every iteration of a run exactly when each iteration is covered. -/
theorem failsClosed_iff (start : Int) (run : List Step) :
    FailsClosed start run ↔ ∀ before answers rest, run = before ++ .iterate answers :: rest →
      ((State.start start).exec before).Covered answers := by
  refine forall_congr' fun before => forall_congr' fun answers => forall_congr' fun rest => ?_
  refine imp_congr_right fun _ => ?_
  have htracks := tracks_exec (tracks_start start) before
  have hstep : (State.start start).exec (before ++ [.iterate answers]) =
      ((State.start start).exec before).iterate answers := by
    rw [State.exec, List.foldl_append]
    rfl
  rw [hstep]
  exact honest_iterate_iff htracks

/-- Thursday the 27th of August 2026, 15:00. -/
def afternoon : DateTime :=
  ⟨2026, 8, 27, 15, 0, 0, by decide, by decide, by decide, by decide, Nat.succ_pos 59, Nat.succ_pos 59⟩

/-- An upsert and a refresh at 15:00, then an hour without a write, and a refresh that raises. -/
def outage : List Step := [.upsert afternoon [], .iterate true, .pass 3600000000, .iterate false]

/-- After the hour the gauge still shows zero seconds. -/
theorem not_failsClosed_always : ¬∀ (start : Int) (run : List Step), FailsClosed start run := by
  intro h
  have hhonest := h (windowOf afternoon).epochMicros outage
    [.upsert afternoon [], .iterate true, .pass 3600000000] false [] rfl
  have hgauge := hhonest (windowOf afternoon).epochMicros (by decide +kernel)
  exact absurd hgauge (by decide +kernel)

end Clickstream.Freshness
