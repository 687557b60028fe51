import Clickstream.ProducerRuns
import Clickstream.Python.Datetime
import Clickstream.Sessions
import Mathlib.Algebra.Order.Field.Basic
import Mathlib.Tactic.FieldSimp

/-! The clock of the simulator: how far it is from the pace of the production after any number of
events, and what the moment at which a simulator is built has to do with its events. -/

namespace Clickstream.Simulator

open Python Schema

/-! ### Pace -/

section Pace

variable {rate : Nat} {hrate : 0 < rate} {start clock : Clock} {n : Nat}

theorem epochMicros_clockAfter (h : clockAfter hrate n start = some clock) :
    clock.epochMicros = start.epochMicros + n * stepMicros rate := by
  induction n generalizing start with
  | zero =>
    cases h
    simp
  | succ n ih =>
    obtain ⟨next, hnext, hrest⟩ := Option.bind_eq_some_iff.mp h
    rw [ih hrest, Clock.epochMicros_add hnext]
    push_cast
    ring

/-- The clock runs until it leaves year 9999. -/
theorem isSome_clockAfter_iff :
    (clockAfter hrate n start).isSome = true ↔ start.epochMicros + n * stepMicros rate ≤ maxMicros := by
  induction n generalizing start with
  | zero =>
    have hrange := start.epochMicros_range.2
    simpa [clockAfter] using hrange
  | succ n ih =>
    rw [clockAfter]
    cases htick : tick hrate start with
    | none =>
      have hlast := Clock.maxMicros_lt_of_add htick
      have hsteps : (stepMicros rate : Int) ≤ (n + 1 : Nat) * stepMicros rate :=
        le_mul_of_one_le_left (Int.natCast_nonneg _) (by omega)
      rw [Option.bind_none]
      simp only [Option.isSome_none, Bool.false_eq_true, false_iff]
      omega
    | some next =>
      have hnext := Clock.epochMicros_add htick
      have hsteps : ((n + 1 : Nat) : Int) * stepMicros rate = stepMicros rate + n * stepMicros rate := by
        push_cast
        ring
      rw [Option.bind_some, ih, hnext, hsteps, add_assoc]

/-- How far the clock is from the pace, in seconds, when `n` events have been generated. -/
def drift (rate n : Nat) (start clock : Clock) : Rat :=
  totalSeconds (clock.epochMicros - start.epochMicros) - n / rate

/-- By how much `rate` steps of the clock miss a second, in microseconds. -/
def stepError (rate : Nat) : Nat := min (1000000 % rate) (rate - 1000000 % rate)

theorem natAbs_stepError (hrate : 0 < rate) :
    ((rate * stepMicros rate : Nat) - 1000000 : Int).natAbs = stepError rate := by
  have hdivision := Nat.div_add_mod 1000000 rate
  have hlt := Nat.mod_lt 1000000 hrate
  rw [stepMicros, stepError]
  split
  · omega
  · rw [Nat.mul_succ]
    omega

/-- Every event adds the same error. -/
theorem abs_drift (h : clockAfter hrate n start = some clock) :
    |drift rate n start clock| = (n * stepError rate : Nat) / (1000000 * rate) := by
  have hrate' : (0 : Rat) < rate := Nat.cast_pos.mpr hrate
  have helapsed : clock.epochMicros - start.epochMicros = n * stepMicros rate := by
    rw [epochMicros_clockAfter h]
    ring
  have hdrift : drift rate n start clock =
      n * (((rate * stepMicros rate : Nat) - 1000000 : Int) : Rat) / (1000000 * rate) := by
    rw [drift, totalSeconds, helapsed]
    push_cast
    field_simp
  have herror : |(((rate * stepMicros rate : Nat) - 1000000 : Int) : Rat)| = stepError rate := by
    rw [← natAbs_stepError hrate, ← Int.cast_abs, Int.abs_eq_natAbs, Int.cast_natCast]
  rw [hdrift, abs_div, abs_mul, herror, Nat.abs_cast, abs_of_pos (by linarith), Nat.cast_mul]

/-- The event behind `n` others shows the clock after them. -/
theorem ts_generate {σ : Type} (py : Interpreter) (rng : Random σ) (s : σ)
    (h : clockAfter hrate n start = some clock) : ∃ events,
    generate py rng hrate (n + 1) s start = .ok events ∧
      (events.map fun e => e.fields.ts)[n]? = some (strftime clock.moment tsFormat) := by
  have hclocks : clocks hrate (n + 1) start = clocks hrate n start ++ clocks hrate 1 clock :=
    clocks_add h 1
  have hlength := length_clocks_of_some h
  have hone := length_clocks_one hrate clock
  obtain ⟨events, hgenerate, -, htimes⟩ := generate_spec py rng s (by
    rw [hclocks, List.length_append, hlength, hone] : (clocks hrate (n + 1) start).length = n + 1)
  refine ⟨events, hgenerate, ?_⟩
  rw [htimes, List.getElem?_map, hclocks, List.getElem?_append_right hlength.le, hlength, Nat.sub_self]
  rfl

/-- The clock after `n` events keeps the pace to within a second as long as the rounding of its steps
has not added up to a second. -/
theorem pace_iff {σ : Type} (py : Interpreter) (rng : Random σ) {rate : Nat} (hrate : 0 < rate)
    (s : σ) {start clock : Clock} {n : Nat} (h : clockAfter hrate n start = some clock) :
    (∃ events, generate py rng hrate (n + 1) s start = .ok events ∧
      (events.map fun e => e.fields.ts)[n]? = some (strftime clock.moment tsFormat)) ∧
    (|drift rate n start clock| < 1 ↔ n * stepError rate < 1000000 * rate) := by
  have hpos : (0 : Rat) < 1000000 * rate :=
    mul_pos (by norm_num) (Nat.cast_pos.mpr hrate)
  refine ⟨ts_generate py rng s h, ?_⟩
  rw [abs_drift h, div_lt_one hpos]
  exact_mod_cast Iff.rfl

end Pace

/-- Midnight of New Year. -/
def newYear : DateTime := (DateTime.make 2026 1 1 0 0 0).get (by decide)

def midnight : Clock := ⟨newYear, 0, Clock.zero_lt_second⟩

/-- At 100 events per second the steps are exact. -/
theorem pace_hundred : ∃ clock, clockAfter (Nat.succ_pos 99) 100 midnight = some clock ∧
    |drift 100 100 midnight clock| < 1 := by
  have hsome : (clockAfter (Nat.succ_pos 99) 100 midnight).isSome = true :=
    isSome_clockAfter_iff.mpr (by decide +kernel)
  obtain ⟨clock, hclock⟩ := Option.isSome_iff_exists.mp hsome
  exact ⟨clock, hclock, (pace_iff cpython lowest (Nat.succ_pos 99) () hclock).2.mpr (by decide)⟩

/-- At 3 events per second the clock has lost a second after three million events, eleven days. -/
theorem not_pace : ¬∀ (rate : Nat) (hrate : 0 < rate) (start clock : Clock) (n : Nat),
    clockAfter hrate n start = some clock → |drift rate n start clock| < 1 := by
  intro hpace
  have hsome : (clockAfter (Nat.succ_pos 2) 3000000 midnight).isSome = true :=
    isSome_clockAfter_iff.mpr (by decide +kernel)
  obtain ⟨clock, hclock⟩ := Option.isSome_iff_exists.mp hsome
  have hdrift := hpace 3 (Nat.succ_pos 2) midnight clock 3000000 hclock
  rw [abs_drift hclock, stepError] at hdrift
  norm_num at hdrift

/-! ### The stream of a seed -/

section Stream

variable {σ : Type} (rng : Random σ)

/-- An event without its time. -/
def untimed (e : Event) : Event := { e with ts := [] }

def untimedAt (session : Session) (page eventType : PyStr) (bits : Fin (2 ^ 128)) : Event where
  eventId := uuidText bits.val
  eventType := eventType
  userId := session.userId
  sessionId := session.sessionId
  ts := []
  page := page
  device := session.device
  region := session.region
  campaignId := session.campaignId
  referrer := session.referrer

/-- The events of a session as the random numbers alone determine them. -/
def sessionStream (session : Session) : Nat → PyStr → σ → List Event × σ
  | 0, _, s => ([], s)
  | n + 1, page, s =>
    let bits := rng.getrandbits 128 s
    let eventType := pick rng (eventTypeWeights page) bits.2
    let next := nextPage rng page eventType.2
    let rest := sessionStream session n next.1 next.2
    (untimedAt session page eventType.1 bits.1 :: rest.1, rest.2)

/-- The first `n` sessions. -/
def stream : Nat → σ → List Event
  | 0, _ => []
  | n + 1, s =>
    let start := newSession rng s
    let first := sessionStream rng start.1.1 start.1.2.2.val start.1.2.1 start.2
    first.1 ++ stream n first.2

variable {rng} {py : Interpreter} {rate : Nat} {hrate : 0 < rate}

def untimedEvents (events : List ClickEvent) : List Event := events.map fun e => untimed e.fields

/-- A session yields a beginning of its stream, and all of it unless it stops. -/
theorem sessionEvents_stream (py : Interpreter) (rng : Random σ) (hrate : 0 < rate)
    (session : Session) (n : Nat) (page : PyStr) (s : σ) (clock : Clock) :
    untimedEvents (sessionEvents py rng hrate session n page s clock).events <+:
      (sessionStream rng session n page s).1 ∧
    ∀ final, (sessionEvents py rng hrate session n page s clock).result = .ok final →
      untimedEvents (sessionEvents py rng hrate session n page s clock).events =
        (sessionStream rng session n page s).1 ∧
      final.1 = (sessionStream rng session n page s).2 := by
  induction n generalizing page s clock with
  | zero =>
    refine ⟨List.nil_prefix, fun final hfinal => ?_⟩
    cases hfinal
    exact ⟨rfl, rfl⟩
  | succ n ih =>
    rw [sessionEvents, sessionStream]
    cases hmake : ClickEvent.make py (eventAt session page
        (pick rng (eventTypeWeights page) (rng.getrandbits 128 s).2).1
        (rng.getrandbits 128 s).1 clock) with
    | error exc => exact ⟨List.nil_prefix, fun _ hfinal => by cases hfinal⟩
    | ok event =>
      have hevent : untimed event.fields = untimedAt session page
          (pick rng (eventTypeWeights page) (rng.getrandbits 128 s).2).1
          (rng.getrandbits 128 s).1 := by
        rw [fields_of_make hmake]
        rfl
      simp only
      cases hadd : clock.add (stepMicros rate) (stepMicros_le hrate) with
      | none =>
        refine ⟨?_, fun _ hfinal => by cases hfinal⟩
        rw [untimedEvents, List.map_singleton, hevent]
        exact List.prefix_append [_] _
      | some next =>
        obtain ⟨hpre, hall⟩ := ih
          (nextPage rng page (pick rng (eventTypeWeights page) (rng.getrandbits 128 s).2).2).1
          (nextPage rng page (pick rng (eventTypeWeights page) (rng.getrandbits 128 s).2).2).2 next
        simp only [untimedEvents, List.map_cons, hevent] at hpre hall ⊢
        refine ⟨List.cons_prefix_cons.mpr ⟨rfl, hpre⟩, fun final hfinal => ?_⟩
        obtain ⟨hevents, hstate⟩ := hall final hfinal
        exact ⟨congrArg _ hevents, hstate⟩

theorem iterEvents_stream (py : Interpreter) (rng : Random σ) (hrate : 0 < rate) (n : Nat) (s : σ)
    (clock : Clock) :
    untimedEvents (iterEvents py rng hrate n s clock).events <+: stream rng n s ∧
    ∀ final, (iterEvents py rng hrate n s clock).result = .ok final →
      untimedEvents (iterEvents py rng hrate n s clock).events = stream rng n s := by
  induction n generalizing s clock with
  | zero => exact ⟨List.nil_prefix, fun _ _ => rfl⟩
  | succ n ih =>
    obtain ⟨hpre, hall⟩ := sessionEvents_stream py rng hrate
      (newSession rng s).1.1 (newSession rng s).1.2.2.val (newSession rng s).1.2.1
      (newSession rng s).2 clock
    rw [iterEvents, stream]
    simp only
    split
    · exact ⟨hpre.trans (List.prefix_append _ _), fun _ hfinal => by cases hfinal⟩
    · rename_i s' clock' hresult
      obtain ⟨hevents, hstate⟩ := hall _ hresult
      obtain ⟨hrest, hrestAll⟩ := ih s' clock'
      simp only [untimedEvents, List.map_append] at hevents hrest hrestAll ⊢
      rw [hevents, ← show s' = _ from hstate]
      refine ⟨(List.prefix_append_right_inj _).mpr hrest, fun final hfinal => ?_⟩
      rw [hrestAll final hfinal]

/-- What `generate` returns depends on the clock in the times only. -/
theorem generate_stream {n : Nat} {s : σ} {clock : Clock} {events : List ClickEvent}
    (h : generate py rng hrate n s clock = .ok events) :
    untimedEvents events = (stream rng n s).take n := by
  obtain ⟨hpre, hall⟩ := iterEvents_stream py rng hrate n s clock
  rw [generate] at h
  split at h
  · cases h
    rename_i hlength
    have htake := hpre.take n
    have hmap : (untimedEvents (iterEvents py rng hrate n s clock).events).take n =
        untimedEvents ((iterEvents py rng hrate n s clock).events.take n) := List.map_take.symm
    rw [hmap] at htake
    apply htake.eq_of_length_le
    rw [untimedEvents, List.length_map, List.length_take, List.length_take]
    omega
  · rename_i hlength
    cases hresult : (iterEvents py rng hrate n s clock).result with
    | error stop => rw [hresult] at h; cases h
    | ok final =>
      rw [hresult] at h
      cases h
      rw [← hall final hresult, List.take_of_length_le]
      rw [untimedEvents, List.length_map]
      omega

end Stream

section Seeds

variable {σ : Type} (py : Interpreter) (rng : Random σ) {rate : Nat} (hrate : 0 < rate)

/-- `start_time or datetime.now(UTC).replace(microsecond=0)` -/
def initialClock (startTime : Option Clock) (now : Clock) : Clock :=
  startTime.getD ⟨now.moment, 0, Clock.zero_lt_second⟩

/-- `generate(n)` of a new simulator. -/
def simulate (seed : Int) (startTime : Option Clock) (now : Clock) (n : Nat) :
    Except Stop (List ClickEvent) :=
  generate py rng hrate n (rng.init seed) (initialClock startTime now)

/-- The `n`-th event would be behind year 9999. -/
def Overflows (rate n : Nat) (start : Clock) : Prop :=
  maxMicros < start.epochMicros + (n - 1 : Nat) * stepMicros rate

variable {hrate} {n : Nat} {start : Clock}

theorem length_clocks_iff : (clocks hrate n start).length = n ↔ ¬Overflows rate n start := by
  rw [Overflows, not_lt, ← @isSome_clockAfter_iff rate hrate]
  cases n with
  | zero => simp [clocks, clockAfter]
  | succ n =>
    show _ ↔ (clockAfter hrate n start).isSome = true
    cases hafter : clockAfter hrate n start with
    | none =>
      have hlength : (clocks hrate n start).length ≤ n := length_clocks_le n start
      rw [clocks_add_of_none hafter 1]
      simp only [Option.isSome_none, Bool.false_eq_true, iff_false]
      omega
    | some clock =>
      rw [clocks_add hafter 1, List.length_append, length_clocks_of_some hafter, length_clocks_one]
      exact iff_of_true rfl rfl

theorem generate_overflows (py : Interpreter) (rng : Random σ) (hrate : 0 < rate) (s : σ)
    (h : Overflows rate n start) : generate py rng hrate n s start = .error .overflow := by
  have hshort : (clocks hrate n start).length < n := by
    have hne : (clocks hrate n start).length ≠ n := fun hlength => length_clocks_iff.mp hlength h
    have hle : (clocks hrate n start).length ≤ n := length_clocks_le n start
    omega
  obtain ⟨⟨count, hcount, hemits⟩, -⟩ := iterEvents_spec py rng hrate n s start
  have hlength := hemits.length
  have htake : ((clocks hrate count start).take n).length = (clocks hrate n start).length :=
    congrArg _ (take_clocks hcount start)
  rw [List.length_take] at htake
  rw [generate, if_neg (by omega)]
  rcases hemits.ends with ⟨final, -, hafter⟩ | ⟨hresult, -⟩
  · rw [length_clocks_of_some hafter] at htake
    omega
  · rw [hresult]
    rfl

theorem generate_returns (py : Interpreter) (rng : Random σ) (hrate : 0 < rate) (s : σ)
    (h : ¬Overflows rate n start) : ∃ events, generate py rng hrate n s start = .ok events ∧
      events.map (fun e => e.fields.ts) =
        (clocks hrate n start).map fun c => strftime c.moment tsFormat := by
  obtain ⟨events, hgenerate, -, htimes⟩ := generate_spec py rng s (length_clocks_iff.mpr h)
  exact ⟨events, hgenerate, htimes⟩

/-- The first event of two equal streams shows the start of both. -/
theorem moment_eq_of_simulate {seed : Int} {now now' : Clock} (hn : n ≠ 0)
    (h : ¬Overflows rate n (initialClock none now))
    (heq : simulate py rng hrate seed none now n = simulate py rng hrate seed none now' n) :
    now.moment = now'.moment := by
  rw [simulate, simulate] at heq
  obtain ⟨events, hgenerate, htimes⟩ := generate_returns py rng hrate (rng.init seed) h
  have h' : ¬Overflows rate n (initialClock none now') := by
    intro hover
    rw [hgenerate, generate_overflows py rng hrate _ hover] at heq
    cases heq
  obtain ⟨events', hgenerate', htimes'⟩ := generate_returns py rng hrate (rng.init seed) h'
  rw [hgenerate, hgenerate', Except.ok.injEq] at heq
  subst heq
  obtain ⟨k, rfl⟩ : ∃ k, n = k + 1 := ⟨n - 1, by omega⟩
  have hfirst := htimes.symm.trans htimes'
  rw [clocks, clocks, List.map_cons, List.map_cons] at hfirst
  exact strftime_injective (List.cons.inj hfirst).1

/-- Two simulators of one seed that are built without a start time generate the same events exactly
when they are built in the same second, or neither generates any: no event is asked for, or both
clocks leave year 9999. -/
theorem simulate_eq_iff (py : Interpreter) (rng : Random σ) {rate : Nat} (hrate : 0 < rate)
    (seed : Int) (n : Nat) (now now' : Clock) :
    simulate py rng hrate seed none now n = simulate py rng hrate seed none now' n ↔
      n = 0 ∨ now.moment = now'.moment ∨
        Overflows rate n (initialClock none now) ∧ Overflows rate n (initialClock none now') := by
  constructor
  · intro heq
    by_cases hn : n = 0
    · exact .inl hn
    · by_cases h : Overflows rate n (initialClock none now)
      · by_cases h' : Overflows rate n (initialClock none now')
        · exact .inr (.inr ⟨h, h'⟩)
        · exact .inr (.inl (moment_eq_of_simulate py rng hn h' heq.symm).symm)
      · exact .inr (.inl (moment_eq_of_simulate py rng hn h heq))
  · rintro (rfl | hmoment | ⟨h, h'⟩)
    · rfl
    · rw [simulate, simulate, initialClock, initialClock, hmoment]
    · rw [simulate, simulate, generate_overflows py rng hrate _ h,
        generate_overflows py rng hrate _ h']

/-- Two simulators with the seed 42, built half a second apart in one second. -/
theorem simulate_eq_midnight :
    simulate cpython ProducerRuns.recorded (Nat.succ_pos 99) 42 none midnight 1 =
      simulate cpython ProducerRuns.recorded (Nat.succ_pos 99) 42 none
        ⟨newYear, 500000, by decide⟩ 1 :=
  (simulate_eq_iff cpython ProducerRuns.recorded (Nat.succ_pos 99) 42 1 midnight
    ⟨newYear, 500000, by decide⟩).mpr (.inr (.inl rfl))

/-- The moment at which a simulator is built reaches no field but `ts`. -/
theorem untimedEvents_simulate {seed : Int} {startTime startTime' : Option Clock} {now now' : Clock}
    {events events' : List ClickEvent}
    (h : simulate py rng hrate seed startTime now n = .ok events)
    (h' : simulate py rng hrate seed startTime' now' n = .ok events') :
    untimedEvents events = untimedEvents events' :=
  (generate_stream h).trans (generate_stream h').symm

end Seeds

/-- Two simulators with the seed 42, built five seconds apart. -/
theorem not_simulate_eq : ¬∀ (py : Interpreter) (σ : Type) (rng : Random σ) (rate : Nat)
    (hrate : 0 < rate) (seed : Int) (n : Nat) (now now' : Clock),
    simulate py rng hrate seed none now n = simulate py rng hrate seed none now' n := by
  intro h
  let later : Clock := ⟨{ newYear with second := 5, second_lt := by decide }, 0, by decide⟩
  have heq := h cpython Nat ProducerRuns.recorded 100 (Nat.succ_pos 99) 42 1 midnight later
  have hrange : ¬Overflows 100 1 (initialClock none midnight) := by
    rw [Overflows]
    decide +kernel
  have hmoment := moment_eq_of_simulate cpython ProducerRuns.recorded Nat.one_ne_zero hrange heq
  cases hmoment

end Clickstream.Simulator
