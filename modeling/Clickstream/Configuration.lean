import Clickstream.Producer
import Clickstream.Python.IntText
import Mathlib.Logic.Function.Basic

/-! The configuration of the producer process: defaults, environment variables and the flags of the
command line, which go over the environment.  The help text of a flag names the variable that it
stands for; this is what the two have in common. -/

namespace Clickstream.Configuration

open Python Producer

/-! ### The configuration -/

/-- The fields of a `ProducerConfig` that `__post_init__` has not checked. -/
structure Fields where
  bootstrapServers : PyStr
  topic : PyStr
  rate : Int
  durationSeconds : Option Int
  maxEvents : Int
  seed : Int
  lingerMs : Int
  batchSize : Int
  deriving DecidableEq

def defaultBootstrapServers : PyStr := lit "localhost:9092"

def defaultTopic : PyStr := lit "clicks.raw"

def defaultRate : Int := 100

def defaultDurationSeconds : Int := 600

def defaultMaxEvents : Int := 100000

def defaultSeed : Int := 42

/-- `ProducerConfig(...)` with the checks of `__post_init__`. -/
def postInit (f : Fields) : Except Exc ProducerConfig :=
  if hrate : f.rate ≤ 0 then .error (.valueError (lit "rate must be > 0"))
  else if ∃ d ∈ f.durationSeconds, d < 0 then
    .error (.valueError (lit "duration_seconds must be >= 0 or None"))
  else if f.maxEvents < 0 then .error (.valueError (lit "max_events must be >= 0"))
  else if f.lingerMs < 0 then .error (.valueError (lit "linger_ms must be >= 0"))
  else if hbatch : f.batchSize ≤ 0 then .error (.valueError (lit "batch_size must be > 0"))
  else .ok
    { bootstrapServers := f.bootstrapServers
      topic := f.topic
      rate := f.rate.toNat
      durationSeconds := f.durationSeconds.map Int.toNat
      maxEvents := f.maxEvents.toNat
      seed := f.seed
      lingerMs := f.lingerMs.toNat
      batchSize := f.batchSize.toNat
      rate_pos := by omega
      batchSize_pos := by omega }

/-- The fields of a configuration. -/
def fields (config : ProducerConfig) : Fields where
  bootstrapServers := config.bootstrapServers
  topic := config.topic
  rate := config.rate
  durationSeconds := config.durationSeconds.map Int.ofNat
  maxEvents := config.maxEvents
  seed := config.seed
  lingerMs := config.lingerMs
  batchSize := config.batchSize

/-- A configuration passes its own checks. -/
theorem postInit_fields (config : ProducerConfig) : postInit (fields config) = .ok config := by
  have hrate : 0 < (fields config).rate := Int.natCast_pos.mpr config.rate_pos
  have hbatch : 0 < (fields config).batchSize := Int.natCast_pos.mpr config.batchSize_pos
  have hmax : 0 ≤ (fields config).maxEvents := Int.natCast_nonneg _
  have hlinger : 0 ≤ (fields config).lingerMs := Int.natCast_nonneg _
  fun_cases postInit (fields config) with
  | case1 h => omega
  | case2 _ h =>
    obtain ⟨d, hd, hneg⟩ := h
    obtain ⟨n, -, rfl⟩ := Option.mem_map.mp hd
    exact absurd hneg (Int.not_lt.mpr (Int.natCast_nonneg n))
  | case3 _ _ h => omega
  | case4 _ _ _ h => omega
  | case5 _ _ _ _ h => omega
  | case6 =>
    have hback : (config.durationSeconds.map Int.ofNat).map Int.toNat = config.durationSeconds := by
      cases config.durationSeconds <;> rfl
    simp only [fields, hback, Int.toNat_natCast]

/-- What passes the checks is the configuration with these fields. -/
theorem fields_of_postInit {f : Fields} {config : ProducerConfig} (h : postInit f = .ok config) :
    fields config = f := by
  revert h
  fun_cases postInit f with
  | case1 | case2 | case3 | case4 | case5 => exact nofun
  | case6 hrate hduration hmax hlinger hbatch =>
    rintro ⟨⟩
    have hback : (f.durationSeconds.map Int.toNat).map Int.ofNat = f.durationSeconds := by
      cases hd : f.durationSeconds with
      | none => rfl
      | some d =>
        have hpos : 0 ≤ d := Int.not_lt.mp fun hneg => hduration ⟨d, hd, hneg⟩
        exact congrArg some (Int.toNat_of_nonneg hpos)
    rw [fields]
    simp only [hback]
    rw [Int.toNat_of_nonneg (by omega), Int.toNat_of_nonneg (by omega),
      Int.toNat_of_nonneg (by omega), Int.toNat_of_nonneg (by omega)]

theorem postInit_eq_ok_iff {f : Fields} {config : ProducerConfig} :
    postInit f = .ok config ↔ fields config = f := by
  constructor
  · exact fields_of_postInit
  · rintro rfl
    exact postInit_fields config

/-! ### Environment and flags -/

/-- `int(env.get(name, default))`. -/
def envInt (py : Interpreter) (env : PyStr → Option PyStr) (name : PyStr) (default : Int) :
    Except Exc Int :=
  match env name with
  | some s => int py s
  | none => .ok default

/-- The fields that `from_env` hands to the class. -/
def envFields (py : Interpreter) (env : PyStr → Option PyStr) : Except Exc Fields := do
  let durationRaw ← envInt py env (lit "PRODUCER_DURATION") defaultDurationSeconds
  let maxEventsRaw ← envInt py env (lit "PRODUCER_MAX_EVENTS") defaultMaxEvents
  let rate ← envInt py env (lit "PRODUCER_RATE") defaultRate
  let seed ← envInt py env (lit "PRODUCER_SEED") defaultSeed
  return {
    bootstrapServers := (env (lit "KAFKA_BOOTSTRAP_SERVERS")).getD defaultBootstrapServers
    topic := (env (lit "PRODUCER_TOPIC")).getD defaultTopic
    rate := rate
    durationSeconds := if durationRaw = 0 then none else some durationRaw
    maxEvents := if maxEventsRaw = 0 then 0 else maxEventsRaw
    seed := seed
    lingerMs := 10
    batchSize := 65536 }

def fromEnv (py : Interpreter) (env : PyStr → Option PyStr) : Except Exc ProducerConfig :=
  envFields py env >>= postInit

inductive Flag where
  | bootstrapServers
  | topic
  | rate
  | duration
  | maxEvents
  | seed
  deriving DecidableEq

/-- The variable that the help text of a flag names. -/
def Flag.envName : Flag → PyStr
  | .bootstrapServers => lit "KAFKA_BOOTSTRAP_SERVERS"
  | .topic => lit "PRODUCER_TOPIC"
  | .rate => lit "PRODUCER_RATE"
  | .duration => lit "PRODUCER_DURATION"
  | .maxEvents => lit "PRODUCER_MAX_EVENTS"
  | .seed => lit "PRODUCER_SEED"

/-- The namespace that the parser fills. -/
structure Args where
  bootstrapServers : Option PyStr
  topic : Option PyStr
  rate : Option Int
  duration : Option Int
  maxEvents : Option Int
  seed : Option Int
  deriving DecidableEq

/-- Why `main` does not reach `run`: the parser exits over the text of a flag, or an exception. -/
inductive Failure where
  | usage (flag : Flag) (text : PyStr)
  | raised (e : Exc)
  deriving DecidableEq

/-- `type=int` of a flag. -/
def intArgument (py : Interpreter) (flag : Flag) (text : PyStr) : Except Failure Int :=
  (int py text).mapError fun _ => .usage flag text

/-- One flag with its text. -/
def Args.store (py : Interpreter) (args : Args) : Flag × PyStr → Except Failure Args
  | (.bootstrapServers, text) => return { args with bootstrapServers := some text }
  | (.topic, text) => return { args with topic := some text }
  | (.rate, text) => return { args with rate := some (← intArgument py .rate text) }
  | (.duration, text) => return { args with duration := some (← intArgument py .duration text) }
  | (.maxEvents, text) => return { args with maxEvents := some (← intArgument py .maxEvents text) }
  | (.seed, text) => return { args with seed := some (← intArgument py .seed text) }

/-- `parse_args` on the flags in their order; a later one goes over an earlier one. -/
def parseArgs (py : Interpreter) (argv : List (Flag × PyStr)) : Except Failure Args :=
  argv.foldlM (Args.store py) ⟨none, none, none, none, none, none⟩

/-- The fields that `replace` hands to the class. -/
def override (args : Args) (f : Fields) : Fields :=
  { f with
    bootstrapServers := args.bootstrapServers.getD f.bootstrapServers
    topic := args.topic.getD f.topic
    rate := args.rate.getD f.rate
    durationSeconds := args.duration.or f.durationSeconds
    maxEvents := args.maxEvents.getD f.maxEvents
    seed := args.seed.getD f.seed }

/-- The configuration that `main` hands to `run`. -/
def mainConfig (py : Interpreter) (env : PyStr → Option PyStr) (argv : List (Flag × PyStr)) :
    Except Failure ProducerConfig := do
  let args ← parseArgs py argv
  let config ← (fromEnv py env).mapError .raised
  (postInit (override args (fields config))).mapError .raised

/-! ### Flags as variables -/

/-- The environment in which each flag is exported as its variable, one after the other. -/
def exported (argv : List (Flag × PyStr)) (env : PyStr → Option PyStr) : PyStr → Option PyStr :=
  argv.foldl (fun env p => Function.update env p.1.envName (some p.2)) env

/-- Zero is no limit. -/
def noZero {α : Type} [Zero α] [DecidableEq α] (limit : Option α) : Option α :=
  if limit = some 0 then none else limit

/-- How `from_env` stores a configuration without a limit of the duration. -/
def unlimited (config : ProducerConfig) : ProducerConfig :=
  { config with durationSeconds := noZero config.durationSeconds }

/-- A text variable is read as the value of its flag, if there is one, else as in `env`. -/
def TextReads (env' env : PyStr → Option PyStr) (flag : Flag) (value : Option PyStr) : Prop :=
  env' flag.envName = value.or (env flag.envName)

/-- The same of an integer variable, whatever its default. -/
def IntReads (py : Interpreter) (env' env : PyStr → Option PyStr) (flag : Flag) (value : Option Int) :
    Prop :=
  ∀ default, envInt py env' flag.envName default =
    (value.map .ok).getD (envInt py env flag.envName default)

/-- The environment `env'` reads as `env` with the flags over it. -/
structure Reads (py : Interpreter) (env' env : PyStr → Option PyStr) (args : Args) : Prop where
  bootstrapServers : TextReads env' env .bootstrapServers args.bootstrapServers
  topic : TextReads env' env .topic args.topic
  rate : IntReads py env' env .rate args.rate
  duration : IntReads py env' env .duration args.duration
  maxEvents : IntReads py env' env .maxEvents args.maxEvents
  seed : IntReads py env' env .seed args.seed

theorem envName_injective : Function.Injective Flag.envName := by
  intro f g h
  cases f <;> cases g <;> first | rfl | exact absurd h (by decide +kernel)

section Exported

variable {py : Interpreter} {env' env : PyStr → Option PyStr} {f g : Flag} {text : PyStr}

theorem textReads_stored :
    TextReads (Function.update env' f.envName (some text)) env f (some text) := by
  rw [TextReads, Function.update_self, Option.some_or]

theorem TextReads.update {value : Option PyStr} (h : TextReads env' env f value) (hne : f ≠ g) :
    TextReads (Function.update env' g.envName (some text)) env f value := by
  rw [TextReads, Function.update_of_ne (envName_injective.ne hne)]
  exact h

theorem intReads_stored {n : Int} (h : intArgument py f text = .ok n) :
    IntReads py (Function.update env' f.envName (some text)) env f (some n) := by
  intro default
  rw [envInt, Function.update_self]
  show int py text = .ok n
  unfold intArgument at h
  cases hint : int py text with
  | ok m =>
    rw [hint] at h
    cases h
    rfl
  | error e =>
    rw [hint] at h
    cases h

theorem IntReads.update {value : Option Int} (h : IntReads py env' env f value) (hne : f ≠ g) :
    IntReads py (Function.update env' g.envName (some text)) env f value := by
  intro default
  rw [envInt, Function.update_of_ne (envName_injective.ne hne)]
  exact h default

end Exported

theorem bind_eq_ok_iff {ε α β : Type} {x : Except ε α} {f : α → Except ε β} {b : β} :
    x >>= f = .ok b ↔ ∃ a, x = .ok a ∧ f a = .ok b := by
  cases x with
  | error e => exact ⟨nofun, nofun⟩
  | ok a => exact ⟨fun h => ⟨a, rfl, h⟩, by rintro ⟨_, ⟨⟩, h⟩; exact h⟩

theorem mapError_eq_ok_iff {ε ε' α : Type} {x : Except ε α} {f : ε → ε'} {a : α} :
    x.mapError f = .ok a ↔ x = .ok a := by
  cases x with
  | error e => exact ⟨nofun, nofun⟩
  | ok b => exact ⟨by rintro ⟨⟩; rfl, by rintro ⟨⟩; rfl⟩

/-- Exporting one more flag keeps what the environment reads as. -/
theorem Reads.store {py : Interpreter} {env' env : PyStr → Option PyStr} {args args' : Args}
    (h : Reads py env' env args) {flag : Flag} {text : PyStr}
    (hstore : args.store py (flag, text) = .ok args') :
    Reads py (Function.update env' flag.envName (some text)) env args' := by
  cases flag with
  | bootstrapServers =>
    cases hstore
    exact ⟨textReads_stored, h.topic.update (by decide), h.rate.update (by decide),
      h.duration.update (by decide), h.maxEvents.update (by decide), h.seed.update (by decide)⟩
  | topic =>
    cases hstore
    exact ⟨h.bootstrapServers.update (by decide), textReads_stored, h.rate.update (by decide),
      h.duration.update (by decide), h.maxEvents.update (by decide), h.seed.update (by decide)⟩
  | rate =>
    obtain ⟨n, hn, ⟨⟩⟩ := bind_eq_ok_iff.mp hstore
    exact ⟨h.bootstrapServers.update (by decide), h.topic.update (by decide), intReads_stored hn,
      h.duration.update (by decide), h.maxEvents.update (by decide), h.seed.update (by decide)⟩
  | duration =>
    obtain ⟨n, hn, ⟨⟩⟩ := bind_eq_ok_iff.mp hstore
    exact ⟨h.bootstrapServers.update (by decide), h.topic.update (by decide),
      h.rate.update (by decide), intReads_stored hn, h.maxEvents.update (by decide),
      h.seed.update (by decide)⟩
  | maxEvents =>
    obtain ⟨n, hn, ⟨⟩⟩ := bind_eq_ok_iff.mp hstore
    exact ⟨h.bootstrapServers.update (by decide), h.topic.update (by decide),
      h.rate.update (by decide), h.duration.update (by decide), intReads_stored hn,
      h.seed.update (by decide)⟩
  | seed =>
    obtain ⟨n, hn, ⟨⟩⟩ := bind_eq_ok_iff.mp hstore
    exact ⟨h.bootstrapServers.update (by decide), h.topic.update (by decide),
      h.rate.update (by decide), h.duration.update (by decide), h.maxEvents.update (by decide),
      intReads_stored hn⟩

theorem Reads.foldlM {py : Interpreter} {env : PyStr → Option PyStr} (argv : List (Flag × PyStr))
    {env' : PyStr → Option PyStr} {args args' : Args} (h : Reads py env' env args)
    (hfold : argv.foldlM (Args.store py) args = .ok args') :
    Reads py (exported argv env') env args' := by
  induction argv generalizing env' args with
  | nil =>
    cases hfold
    exact h
  | cons p argv ih =>
    rw [List.foldlM_cons] at hfold
    obtain ⟨next, hnext, hrest⟩ := bind_eq_ok_iff.mp hfold
    exact ih (h.store hnext) hrest

/-- The exported flags read as the flags that the parser stores, over the environment. -/
theorem reads_exported {py : Interpreter} {env : PyStr → Option PyStr} {argv : List (Flag × PyStr)}
    {args : Args} (h : parseArgs py argv = .ok args) : Reads py (exported argv env) env args := by
  have hnone : Reads py env env ⟨none, none, none, none, none, none⟩ :=
    ⟨rfl, rfl, fun _ => rfl, fun _ => rfl, fun _ => rfl, fun _ => rfl⟩
  exact hnone.foldlM argv h

/-! ### The configuration of the exported flags -/

/-- The same on fields. -/
def unlimitedFields (f : Fields) : Fields :=
  { f with durationSeconds := noZero f.durationSeconds }

theorem noZero_or (value : Option Int) (d : Int) :
    (if value.getD d = 0 then none else some (value.getD d)) =
      noZero (value.or (if d = 0 then none else some d)) := by
  cases value with
  | some n =>
    rw [Option.getD_some, Option.some_or, noZero]
    simp only [Option.some.injEq]
  | none =>
    rw [Option.getD_none, Option.none_or, noZero]
    split
    · rfl
    · rename_i hd
      rw [if_neg (mt Option.some.inj hd)]

theorem IntReads.ok {py : Interpreter} {env' env : PyStr → Option PyStr} {flag : Flag}
    {value : Option Int} (h : IntReads py env' env flag value) {default n : Int}
    (hn : envInt py env flag.envName default = .ok n) :
    envInt py env' flag.envName default = .ok (value.getD n) := by
  rw [h default, hn]
  cases value <;> rfl

/-- `from_env` builds the fields that `replace` builds from the flags, but for no limit of the
duration. -/
theorem envFields_of_reads {py : Interpreter} {env' env : PyStr → Option PyStr} {args : Args}
    (h : Reads py env' env args) {f : Fields} (hf : envFields py env = .ok f) :
    envFields py env' = .ok (unlimitedFields (override args f)) := by
  obtain ⟨d, hd, hf⟩ := bind_eq_ok_iff.mp hf
  obtain ⟨m, hm, hf⟩ := bind_eq_ok_iff.mp hf
  obtain ⟨r, hr, hf⟩ := bind_eq_ok_iff.mp hf
  obtain ⟨s, hs, ⟨⟩⟩ := bind_eq_ok_iff.mp hf
  have hd' : envInt py env' (lit "PRODUCER_DURATION") _ = _ := h.duration.ok hd
  have hm' : envInt py env' (lit "PRODUCER_MAX_EVENTS") _ = _ := h.maxEvents.ok hm
  have hr' : envInt py env' (lit "PRODUCER_RATE") _ = _ := h.rate.ok hr
  have hs' : envInt py env' (lit "PRODUCER_SEED") _ = _ := h.seed.ok hs
  have hservers : env' (lit "KAFKA_BOOTSTRAP_SERVERS") = _ := h.bootstrapServers
  have htopic : env' (lit "PRODUCER_TOPIC") = _ := h.topic
  have hzero (n : Int) : (if n = 0 then 0 else n) = n := by
    split
    · rename_i hn
      exact hn.symm
    · rfl
  rw [envFields, hd', hm', hr', hs', hservers, htopic]
  simp only [unlimitedFields, override, hzero, ← noZero_or, Option.getD_or]
  rfl

theorem lt_zero_noZero (limit : Option Int) : (∃ d ∈ noZero limit, d < 0) ↔ ∃ d ∈ limit, d < 0 := by
  unfold noZero
  split
  · rename_i hzero
    rw [hzero]
    simp
  · rfl

theorem noZero_map_toNat {limit : Option Int} (h : ¬∃ d ∈ limit, d < 0) :
    (noZero limit).map Int.toNat = noZero (limit.map Int.toNat) := by
  cases limit with
  | none => rfl
  | some d =>
    have hd : 0 ≤ d := Int.not_lt.mp fun hneg => h ⟨d, rfl, hneg⟩
    have hiff : d.toNat = 0 ↔ d = 0 := by omega
    rw [noZero, noZero, Option.map_some]
    simp only [Option.some.injEq, hiff]
    split <;> rfl

/-- The checks make no difference between zero and no limit. -/
theorem postInit_unlimitedFields (f : Fields) :
    postInit (unlimitedFields f) = (postInit f).map unlimited := by
  fun_cases postInit f with
  | case1 hrate =>
    simp only [postInit, unlimitedFields, hrate, ↓reduceDIte]
    rfl
  | case2 hrate hduration =>
    simp only [postInit, unlimitedFields, lt_zero_noZero, hrate, hduration, ↓reduceDIte, ↓reduceIte]
    rfl
  | case3 hrate hduration hmax =>
    simp only [postInit, unlimitedFields, lt_zero_noZero, hrate, hduration, hmax, ↓reduceDIte,
      ↓reduceIte]
    rfl
  | case4 hrate hduration hmax hlinger =>
    simp only [postInit, unlimitedFields, lt_zero_noZero, hrate, hduration, hmax, hlinger,
      ↓reduceDIte, ↓reduceIte]
    rfl
  | case5 hrate hduration hmax hlinger hbatch =>
    simp only [postInit, unlimitedFields, lt_zero_noZero, hrate, hduration, hmax, hlinger, hbatch,
      ↓reduceDIte, ↓reduceIte]
    rfl
  | case6 hrate hduration hmax hlinger hbatch =>
    simp only [postInit, unlimitedFields, lt_zero_noZero, hrate, hduration, hmax, hlinger, hbatch,
      ↓reduceDIte, ↓reduceIte, noZero_map_toNat hduration]
    rfl

/-- `replace` without a flag checks again what `__post_init__` has checked. -/
theorem mainConfig_nil (py : Interpreter) (env : PyStr → Option PyStr) :
    mainConfig py env [] = (fromEnv py env).mapError .raised := by
  rw [mainConfig]
  show ((fromEnv py env).mapError Failure.raised >>= fun config =>
    (postInit (fields config)).mapError Failure.raised) = _
  cases fromEnv py env with
  | error e => rfl
  | ok config =>
    show (postInit (fields config)).mapError Failure.raised = _
    rw [postInit_fields]

theorem mainConfig_eq {py : Interpreter} {env : PyStr → Option PyStr} {argv : List (Flag × PyStr)}
    {args : Args} {base : ProducerConfig} (hargs : parseArgs py argv = .ok args)
    (hbase : fromEnv py env = .ok base) :
    mainConfig py env argv = (postInit (override args (fields base))).mapError .raised := by
  rw [mainConfig, hargs, hbase]
  rfl

theorem deadline_unlimited (config : ProducerConfig) (start : Rat) :
    deadline (unlimited config) start = deadline config start := by
  unfold deadline unlimited noZero
  cases config.durationSeconds with
  | none => rfl
  | some d =>
    by_cases hd : d = 0
    · subst hd
      rfl
    · simp [hd]

theorem breaks_unlimited (config : ProducerConfig) (start : Rat) (produced : Nat) (clock : Rat) :
    breaks (unlimited config) start produced clock ↔ breaks config start produced clock := by
  rw [breaks, breaks, deadline_unlimited]
  rfl

theorem loop_unlimited {config : ProducerConfig} {start : Rat} {events : Nat → Schema.ClickEvent}
    {s s' : LoopState} {clock : Rat} :
    Loop (unlimited config) start events s s' clock ↔ Loop config start events s s' clock := by
  constructor
  · intro h
    induction h with
    | stop hnow hbreaks => exact .stop hnow ((breaks_unlimited ..).mp hbreaks)
    | round r hgoes hlegal _ ih =>
      exact .round r (fun hbreaks => hgoes ((breaks_unlimited ..).mpr hbreaks))
        ⟨hlegal.now_le, hlegal.event, hlegal.enqueued, hlegal.polled, hlegal.ready, hlegal.sleep,
          hlegal.slept, hlegal.logged⟩ ih
  · intro h
    induction h with
    | stop hnow hbreaks => exact .stop hnow ((breaks_unlimited ..).mpr hbreaks)
    | round r hgoes hlegal _ ih =>
      exact .round r (fun hbreaks => hgoes ((breaks_unlimited ..).mp hbreaks))
        ⟨hlegal.now_le, hlegal.event, hlegal.enqueued, hlegal.polled, hlegal.ready, hlegal.sleep,
          hlegal.slept, hlegal.logged⟩ ih

/-- A zero duration stops no run. -/
theorem runs_unlimited {config : ProducerConfig} {events : Nat → Schema.ClickEvent}
    {last : LoopState} {closedAt : Rat} :
    Runs (unlimited config) events last closedAt ↔ Runs config events last closedAt := by
  simp only [Runs, loop_unlimited]

/-- What a flag has in common with the variable that its help text names.  The process runs exactly
when the parser reads every flag and the environment by itself is valid, with the flags over the
environment over the defaults: no flag mends a bad variable.  In a valid environment the flags may as
well be exported: the same failures, and configurations with the same runs, although `from_env` stores
a duration of zero as none. -/
theorem flags_over_environment (py : Interpreter) (env : PyStr → Option PyStr)
    (argv : List (Flag × PyStr)) :
    (∀ config, mainConfig py env argv = .ok config ↔
      ∃ args base, parseArgs py argv = .ok args ∧ fromEnv py env = .ok base ∧
        fields config = override args (fields base)) ∧
    (∀ args base, parseArgs py argv = .ok args → fromEnv py env = .ok base →
      mainConfig py (exported argv env) [] = (mainConfig py env argv).map unlimited) ∧
    ∀ config events last closedAt,
      Runs (unlimited config) events last closedAt ↔ Runs config events last closedAt := by
  refine ⟨fun config => ⟨fun h => ?_, ?_⟩, fun args base hargs hbase => ?_, fun _ _ _ _ =>
    runs_unlimited⟩
  · obtain ⟨args, hargs, h⟩ := bind_eq_ok_iff.mp h
    obtain ⟨base, hbase, h⟩ := bind_eq_ok_iff.mp h
    exact ⟨args, base, hargs, mapError_eq_ok_iff.mp hbase,
      postInit_eq_ok_iff.mp (mapError_eq_ok_iff.mp h)⟩
  · rintro ⟨args, base, hargs, hbase, h⟩
    rw [mainConfig_eq hargs hbase, postInit_eq_ok_iff.mpr h]
    rfl
  · obtain ⟨f, hf, hpost⟩ := bind_eq_ok_iff.mp hbase
    have hexported : fromEnv py (exported argv env) =
        (postInit (override args f)).map unlimited := by
      rw [fromEnv, envFields_of_reads (reads_exported hargs) hf]
      exact postInit_unlimitedFields _
    rw [mainConfig_nil, hexported, mainConfig_eq hargs hbase, postInit_eq_ok_iff.mp hpost]
    cases postInit (override args f) <;> rfl

/-- An environment that sets the rate alone. -/
def rateThree (name : PyStr) : Option PyStr :=
  if name = Flag.rate.envName then some (lit "3") else none

/-- Two rates, and no limit of the duration. -/
def ratesAndZero : List (Flag × PyStr) :=
  [(.rate, lit "5"), (.duration, lit "0"), (.rate, lit "7")]

theorem flags_over_environment_rates : ∃ config,
    mainConfig cpython rateThree ratesAndZero = .ok config ∧ config.rate = 7 ∧
      config.durationSeconds = some 0 ∧
      mainConfig cpython (exported ratesAndZero rateThree) [] = .ok (unlimited config) := by
  have hargs : parseArgs cpython ratesAndZero = .ok ⟨none, none, some 7, some 0, none, none⟩ := by
    decide +kernel
  let base : ProducerConfig :=
    { oneEvent with rate := 3, durationSeconds := some 600, maxEvents := 100000, rate_pos := by decide }
  have hfields : envFields cpython rateThree = .ok (fields base) := by
    decide +kernel
  have hbase : fromEnv cpython rateThree = .ok base := by
    rw [fromEnv, hfields]
    exact postInit_fields base
  let config : ProducerConfig :=
    { base with rate := 7, durationSeconds := some 0, rate_pos := by decide }
  obtain ⟨hiff, hexported, -⟩ := flags_over_environment cpython rateThree ratesAndZero
  have hconfig : mainConfig cpython rateThree ratesAndZero = .ok config :=
    (hiff config).mpr ⟨_, base, hargs, hbase, rfl⟩
  refine ⟨config, hconfig, rfl, rfl, ?_⟩
  rw [hexported _ _ hargs hbase, hconfig]
  rfl

end Clickstream.Configuration
