import Clickstream.ClickHouseSink
import Clickstream.Conservation
import Clickstream.Sessions

/-! Several runs of the producer with one configuration.  Each builds a new simulator from the seed of
the configuration, so the runs draw the same identifiers, and ClickHouse keeps one row for each. -/

namespace Clickstream.ProducerRuns

open Python Kit Schema Producer Simulator Streaming ClickHouseSink

/-- A run: the clock when it builds its simulator, without its microseconds, and how many events it
produces before it ends. -/
structure Run where
  start : DateTime
  produced : Nat

/-- Two events with one identifier are equal in every field. -/
def DistinctIds (events : List ClickEvent) : Prop :=
  ∀ e ∈ events, ∀ e' ∈ events, e.fields.eventId = e'.fields.eventId → e.fields = e'.fields

/-- The row of `olap.clicks` for an event that went through the topic. -/
def clickRow (spark : Spark) (e : ClickEvent) : Row ClicksColumn := clicksRow (select spark e.fields)

/-- No two different events share an identifier, and after any deliveries of the events
`olap.clicks FINAL` holds the row of each event delivered. -/
structure NeverOverwrites (spark : Spark) (events : List ClickEvent) : Prop where
  distinct : DistinctIds events
  kept : ∀ delivered : List ClickEvent, (∀ e ∈ delivered, e ∈ events) → ∀ e ∈ delivered,
    (final clicksOrderBy (delivered.map (clickRow spark))).get [.text e.fields.eventId] =
      some (clickRow spark e)

theorem keyOf_clickRow (spark : Spark) (e : ClickEvent) :
    keyOf clicksOrderBy (clickRow spark e) = [.text e.fields.eventId] := rfl

/-- `FINAL` keeps the last row of an identifier, which is that of any event with it. -/
theorem neverOverwrites_of_distinctIds (spark : Spark) {events : List ClickEvent}
    (h : DistinctIds events) : NeverOverwrites spark events where
  distinct := h
  kept delivered hdelivered e he := by
    rw [final, Table.get_foldl_put_last, Table.get_empty, Option.or_none]
    cases hfind : (delivered.map (clickRow spark)).reverse.find?
        fun r => decide (keyOf clicksOrderBy r = [.text e.fields.eventId]) with
    | none =>
      have hmem := List.mem_reverse.mpr (List.mem_map_of_mem (f := clickRow spark) he)
      have hno := List.find?_eq_none.mp hfind _ hmem
      rw [keyOf_clickRow] at hno
      simp at hno
    | some r =>
      have hkey := List.find?_some hfind
      have hr := List.mem_reverse.mp (List.mem_of_find?_eq_some hfind)
      obtain ⟨e', he', rfl⟩ := List.mem_map.mp hr
      rw [decide_eq_true_iff, keyOf_clickRow, List.singleton_inj] at hkey
      have hfields := h e' (hdelivered e' he') e (hdelivered e he) (Value.text.inj hkey)
      rw [clickRow, clickRow, hfields]

section Runs

variable {σ : Type} (py : Interpreter) (rng : Random σ) (config : ProducerConfig)

/-- The events that a run produces. -/
def Run.events (r : Run) : List ClickEvent :=
  firstEvents py rng config.rate_pos config.seed r.start r.produced

def producedBy (runs : List Run) : List ClickEvent := runs.flatMap (Run.events py rng config)

variable {py rng config} {runs : List Run}

theorem mem_producedBy {e : ClickEvent} :
    e ∈ producedBy py rng config runs ↔ ∃ r ∈ runs, e ∈ r.events py rng config := List.mem_flatMap

theorem DistinctIds.subset {events events' : List ClickEvent} (h : DistinctIds events)
    (hsubset : ∀ e ∈ events', e ∈ events) : DistinctIds events' :=
  fun e he e' he' => h e (hsubset e he) e' (hsubset e' he')

/-- The first events of two runs have one identifier, so they have one time. -/
theorem start_eq_of_distinctIds (h : DistinctIds (producedBy py rng config runs)) {r r' : Run}
    (hr : r ∈ runs) (hr' : r' ∈ runs) (hne : r.events py rng config ≠ [])
    (hne' : r'.events py rng config ≠ []) : r.start = r'.start := by
  obtain ⟨id, hid⟩ := exists_first_eventId py rng config.rate_pos config.seed
  obtain ⟨e, rest, he⟩ := List.exists_cons_of_ne_nil hne
  obtain ⟨e', rest', he'⟩ := List.exists_cons_of_ne_nil hne'
  obtain ⟨hidE, htsE⟩ := hid _ _ e rest he
  obtain ⟨hidE', htsE'⟩ := hid _ _ e' rest' he'
  have hmem : e ∈ producedBy py rng config runs :=
    mem_producedBy.mpr ⟨r, hr, by rw [he]; exact List.mem_cons_self⟩
  have hmem' : e' ∈ producedBy py rng config runs :=
    mem_producedBy.mpr ⟨r', hr', by rw [he']; exact List.mem_cons_self⟩
  have hfields := h e hmem e' hmem' (hidE.trans hidE'.symm)
  apply strftime_injective
  rw [show isoFormat = tsFormat from rfl, ← htsE, ← htsE', hfields]

/-- Runs that start at one time produce the same events, one of them more than the other. -/
theorem distinctIds_of_start_eq {r r' : Run} (hstart : r.start = r'.start)
    (h : DistinctIds (r.events py rng config)) (h' : DistinctIds (r'.events py rng config))
    {e e' : ClickEvent} (he : e ∈ r.events py rng config) (he' : e' ∈ r'.events py rng config)
    (hid : e.fields.eventId = e'.fields.eventId) : e.fields = e'.fields := by
  rcases Nat.le_total r.produced r'.produced with hle | hle
  · have hprefix := firstEvents_prefix py rng config.rate_pos hle config.seed r'.start
    have hmem : e ∈ r'.events py rng config := by
      apply hprefix.subset
      rwa [Run.events, hstart] at he
    exact h' e hmem e' he' hid
  · have hprefix := firstEvents_prefix py rng config.rate_pos hle config.seed r.start
    have hmem : e' ∈ r.events py rng config := by
      apply hprefix.subset
      rwa [Run.events, ← hstart] at he'
    exact h e he e' hmem hid

/-- Runs never overwrite each other's events exactly when all that produce an event start in the same
second and no run by itself gives one identifier to different events. -/
theorem never_overwrites_iff (spark : Spark) (py : Interpreter) (rng : Random σ)
    (config : ProducerConfig) (runs : List Run) :
    NeverOverwrites spark (producedBy py rng config runs) ↔
      (∀ r ∈ runs, ∀ r' ∈ runs, r.events py rng config ≠ [] → r'.events py rng config ≠ [] →
        r.start = r'.start) ∧
      ∀ r ∈ runs, DistinctIds (r.events py rng config) := by
  constructor
  · intro h
    refine ⟨fun r hr r' hr' => start_eq_of_distinctIds h.distinct hr hr', fun r hr => ?_⟩
    exact h.distinct.subset fun e he => mem_producedBy.mpr ⟨r, hr, he⟩
  · rintro ⟨hstart, hdistinct⟩
    apply neverOverwrites_of_distinctIds
    intro e he e' he'
    obtain ⟨r, hr, her⟩ := mem_producedBy.mp he
    obtain ⟨r', hr', her'⟩ := mem_producedBy.mp he'
    have hsame := hstart r hr r' hr' (List.ne_nil_of_mem her) (List.ne_nil_of_mem her')
    exact distinctIds_of_start_eq hsame (hdistinct r hr) (hdistinct r' hr') her her'

end Runs

/-! ### The compose service -/

/-- The configuration of the `producer` service. -/
def composeConfig : ProducerConfig where
  bootstrapServers := lit "kafka:29092"
  topic := lit "clicks.raw"
  rate := 100
  durationSeconds := none
  maxEvents := 0
  seed := 42
  lingerMs := 10
  batchSize := 65536
  rate_pos := Nat.succ_pos 99
  batchSize_pos := Nat.succ_pos 65535

/-- `random.Random(42)` on the ten draws of the first event. -/
def recorded : Random Nat where
  init _ := 0
  getrandbits k i :=
    let bits := if i = 1 then 0x3eb13b9046685257bdd640fb06671ad1
      else 0x37f8a88b17fc695a07a0ca6e0822e8f3
    (⟨bits % 2 ^ k, Nat.mod_lt _ (Nat.two_pow_pos k)⟩, i + 1)
  random i := (⟨783075388467729, by decide⟩, i + 1)
  randint a b h i := (⟨max a (min 16 b), by omega⟩, i + 1)
  choices weights h i :=
    let index := [187, 0, 0, 2, 4, 4].getD i 0
    (⟨index % weights.length, Nat.mod_lt _ (List.length_pos_iff.mpr h)⟩, i + 1)

/-- The service restarts after five seconds and produces the identifier of its first event again. -/
theorem not_never_overwrites :
    ¬∀ (spark : Spark) (py : Interpreter) (σ : Type) (rng : Random σ) (config : ProducerConfig)
      (runs : List Run), (runs.map Run.start).Nodup →
        NeverOverwrites spark (producedBy py rng config runs) := by
  intro h
  let first : Run := ⟨⟨2026, 8, 27, 15, 0, 0, by decide, by decide, by decide, by decide, by decide,
    by decide⟩, 1⟩
  let second : Run := ⟨⟨2026, 8, 27, 15, 0, 5, by decide, by decide, by decide, by decide, by decide,
    by decide⟩, 1⟩
  have hproduced (r : Run) (hone : r.produced = 1) : r.events cpython recorded composeConfig ≠ [] := by
    rw [Run.events, hone]
    exact firstEvents_one_ne_nil cpython recorded composeConfig.rate_pos composeConfig.seed r.start
  have hnever := h paddedSpark cpython Nat recorded composeConfig [first, second] (by decide)
  have hfirst : first ∈ [first, second] := List.mem_cons_self
  have hsecond : second ∈ [first, second] := List.mem_cons_of_mem _ List.mem_cons_self
  have hstart := start_eq_of_distinctIds hnever.distinct hfirst hsecond
    (hproduced first rfl) (hproduced second rfl)
  cases hstart

end Clickstream.ProducerRuns
