import Clickstream.Freshness
import Clickstream.Serving

/-! The control-plane client on the summary that the API serves through its cache.  The summary may be
as old as the cache allows; but windows are never removed, so what the client calls fresh is fresh in
the table of the moment, and an alarm is one that the table of a moment ago gave. -/

namespace Clickstream.CachedFreshness

open Python Cache Freshness Serving

/-- What `query_summary` reads of the databases. -/
structure Source (δ : Type) where
  windowStarts : δ → List Clock
  totals : δ → Totals

/-- The body of an uncached summary. -/
def Source.body {δ : Type} (source : Source δ) (enc : Encoders) (d : δ) : Json :=
  summaryBody enc (source.totals d) (source.windowStarts d)

/-- The summary of the backend is `query_summary` of the source, or raises. -/
def Queries {δ : Type} (backend : Backend δ) (source : Source δ) : Prop :=
  ∀ d data, backend.query .summary d = some data →
    data = .dict (querySummary (source.totals d).totalViews (source.totals d).totalUsers
      (source.totals d).pages (maxWindowStart (source.windowStarts d)) (source.totals d).campaigns)

/-- The contents of the databases behind some events. -/
def lastDb {δ : Type} (db : δ) : List (Serving.Event δ × Option Response) → δ
  | [] => db
  | (.write d, _) :: done => lastDb d done
  | _ :: done => lastDb db done

/-- No write of the events removes a window. -/
def Grows {δ : Type} (source : Source δ) (db : δ) : List (Serving.Event δ × Option Response) → Prop
  | [] => True
  | (.write d, _) :: done => source.windowStarts db ⊆ source.windowStarts d ∧ Grows source d done
  | _ :: done => Grows source db done

/-- What a body of the summary tells the client: what the table of some moment of the run tells it,
for a hit one that a call stored within the time to live.  A client that finds it fresh agrees with the
Airflow check on the table as it is. -/
structure Reflects {δ : Type} (py : Interpreter) (enc : Encoders) (settings : Settings)
    (backend : Backend δ) (source : Source δ) (now₀ : Int) (db : δ)
    (done : List (Serving.Event δ × Option Response)) (s : State δ) (call : Call) (body : Json) :
    Prop where
  reads : ∃ before, before <+: done ∧
    (∀ now, runFreshness body now = runFreshness (source.body enc (lastDb db before)) now) ∧
    (call = .get .summary → ∃ stored s₁, before <+: stored ∧ stored <+: done ∧
      Run py enc settings backend (State.initial now₀ db) stored s₁ ∧
      s.now < s₁.now + settings.cacheTtlSeconds * 1000)
  fresh : ∀ now, runFreshness body now = .ok () → ¬AirflowStale (source.windowStarts s.db) now

section Monitor

variable {enc : Encoders} {totals : Totals} {windowStarts : List Clock} {now : Int}

theorem seconds_le_iff {d : Int} : Go.seconds d ≤ 180 ↔ d ≤ 180 * 1000000000 := by
  rw [Go.seconds, div_le_iff₀ (by norm_num)]
  exact_mod_cast Iff.rfl

/-- The client's arithmetic calls no window fresh that is more than four minutes old: where it
saturates or wraps around, the result is large. -/
theorem age_le_of_clientStaleSeconds {latest now : Int}
    (h : clientStaleSeconds latest now Go.minute ≤ 180) : now - latest ≤ 240 * 1000000000 := by
  rw [clientStaleSeconds_eq, seconds_le_iff] at h
  unfold Go.wrap64 Go.sub Go.minute Go.minDuration Go.maxDuration at h
  split_ifs at h <;> omega

theorem behind_le_iff {latest : Clock} :
    behind latest now ≤ maxStaleSeconds ↔ now - latest.epochMicros ≤ 240 * 1000000 := by
  rw [behind_eq, maxStaleSeconds, seconds_le_iff, Go.minute]
  omega

/-- The empty text of a summary without windows is no time. -/
theorem clientStale_of_none (h : maxWindowStart windowStarts = none) :
    ClientStale enc totals windowStarts now := by
  have hstaleness : clientStaleness (summaryBody enc totals windowStarts) now =
      .error (.parseLatestWindow []) := by
    rw [clientStaleness, fetchSummary_summaryBody, h]
    rfl
  rw [ClientStale, runFreshness, hstaleness]
  exact fun hok => by cases hok

/-- What the client finds fresh has a window at most four minutes old. -/
theorem exists_of_not_clientStale (h : ¬ClientStale enc totals windowStarts now) :
    ∃ latest ∈ windowStarts, now - latest.epochMicros ≤ 240 * 1000000 := by
  cases hlatest : maxWindowStart windowStarts with
  | none => exact absurd (clientStale_of_none hlatest) h
  | some latest =>
    rw [clientStale_of_latest (clientStaleness_of_latest hlatest), not_lt] at h
    have hage := age_le_of_clientStaleSeconds h
    exact ⟨latest, maxWindowStart_mem hlatest, by omega⟩

/-- A table with a window at most four minutes old passes the Airflow check. -/
theorem not_airflowStale_of_mem {c : Clock} (hc : c ∈ windowStarts)
    (hage : now - c.epochMicros ≤ 240 * 1000000) : ¬AirflowStale windowStarts now := by
  cases hlatest : maxWindowStart windowStarts with
  | none =>
    rw [maxWindowStart_eq_none.mp hlatest] at hc
    cases hc
  | some latest =>
    have hle : c.epochMicros ≤ latest.epochMicros := le_maxWindowStart hlatest c hc
    rw [airflowStale_of_latest hlatest, not_lt, behind_le_iff]
    omega

/-- `FetchSummary` reads `latest_window`, which Pydantic and `json.dumps` write alike. -/
theorem runFreshness_dumped (latest : Option Clock) :
    runFreshness ((Data.dict (querySummary totals.totalViews totals.totalUsers totals.pages latest
        totals.campaigns)).render (DbValue.dumped enc)) now =
      runFreshness ((Data.dict (querySummary totals.totalViews totals.totalUsers totals.pages latest
        totals.campaigns)).render (DbValue.toJson enc)) now := by
  cases latest <;> rfl

end Monitor

section Runs

variable {δ : Type} {py : Interpreter} {enc : Encoders} {settings : Settings} {backend : Backend δ}
  {source : Source δ} {db : δ} {done : List (Serving.Event δ × Option Response)} {s s' s₀ : State δ}
  {call : Call} {o : RateLimit.Outcome} {body : Json} {now₀ : Int}

theorem lastDb_append (db : δ) (done more : List (Serving.Event δ × Option Response)) :
    lastDb db (done ++ more) = lastDb (lastDb db done) more := by
  induction done generalizing db with
  | nil => rfl
  | cons p done ih =>
    obtain ⟨e, response⟩ := p
    cases e <;> exact ih _

theorem db_of_step {e : Serving.Event δ} {response : Option Response}
    (h : Step py enc settings backend s e response s') : s'.db = lastDb s.db [(e, response)] := by
  cases h <;> rfl

theorem db_of_run (h : Run py enc settings backend s₀ done s) : s.db = lastDb s₀.db done := by
  induction h with
  | start => rfl
  | step hrun hstep ih => rw [lastDb_append, ← ih, db_of_step hstep]

theorem Grows.behind {before more : List (Serving.Event δ × Option Response)}
    (h : Grows source db (before ++ more)) : Grows source (lastDb db before) more := by
  induction before generalizing db with
  | nil => exact h
  | cons p before ih =>
    obtain ⟨e, response⟩ := p
    cases e with
    | write d => exact ih h.2
    | tick | request | command | stop => exact ih h

theorem Grows.subset (h : Grows source db done) :
    source.windowStarts db ⊆ source.windowStarts (lastDb db done) := by
  induction done generalizing db with
  | nil => exact List.Subset.refl _
  | cons p done ih =>
    obtain ⟨e, response⟩ := p
    cases e with
    | write d => exact List.Subset.trans h.1 (ih h.2)
    | tick | request | command | stop => exact ih h

end Runs

/-- A database of windows, on which only the summary answers. -/
def windowsBackend : Backend (List Clock) where
  query
    | .summary, windowStarts => some (.dict (querySummary (.int 42) (.int 7) (.int 2)
        (maxWindowStart windowStarts) (.int 1)))
    | _, _ => none
  returns {route d data} h := by
    cases route with
    | summary =>
      cases h
      exact .summary ..
    | topPages limit | topCampaigns limit => cases h

def windowsSource : Source (List Clock) := ⟨id, fun _ => ⟨.int 42, .int 7, .int 2, .int 1⟩⟩

def firstMinute : Clock := ⟨(DateTime.make 2026 8 27 15 0 0).get (by decide), 0, Clock.zero_lt_second⟩

def secondMinute : Clock := ⟨(DateTime.make 2026 8 27 15 1 0).get (by decide), 0, Clock.zero_lt_second⟩

end Clickstream.CachedFreshness
