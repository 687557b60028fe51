import Clickstream.Cache
import Clickstream.RateLimit

/-! The cached endpoints of the API over one Redis.  A request passes the limiter, looks its answer up
in the cache, and on a miss queries the database and stores what it got.  Requests run concurrently;
between any two of their commands the clock moves, the database changes and other requests go on, and
every command may fail. -/

namespace Clickstream.Serving

open Python Cache

/-! ### Keys -/

/-- The endpoints behind the cache, with their `limit`. -/
inductive Route where
  | summary
  | topPages (limit : Nat)
  | topCampaigns (limit : Nat)
  deriving DecidableEq

def Route.endpoint : Route → Endpoint
  | .summary => .summary
  | .topPages _ => .topPages
  | .topCampaigns _ => .topCampaigns

def Route.cacheKey : Route → PyStr
  | .summary => lit "v1:summary"
  | .topPages limit => lit "v1:top:pages:" ++ natText limit
  | .topCampaigns limit => lit "v1:top:campaigns:" ++ natText limit

def limiterKey (client : PyStr) : PyStr := lit "ratelimit:" ++ client

theorem rateLimitKey_eq (forwarded host : Option PyStr) :
    RateLimit.rateLimitKey forwarded host = limiterKey (RateLimit.clientIp forwarded host) := rfl

theorem natText_injective : Function.Injective natText :=
  Function.LeftInverse.injective decimalNat_natText

/-- Texts that begin differently are different. -/
theorem append_ne_append {a b : PyStr} (hab : ¬a <+: b) (hba : ¬b <+: a) (rest rest' : PyStr) :
    a ++ rest ≠ b ++ rest' := fun h =>
  (List.prefix_or_prefix_of_prefix (List.prefix_append a rest) (h ▸ List.prefix_append b rest')).elim
    hab hba

theorem cacheKey_injective : Function.Injective Route.cacheKey := by
  have hpages : ∀ rest, lit "v1:summary" ≠ lit "v1:top:pages:" ++ rest := fun rest => by
    simpa using append_ne_append (by decide +kernel) (by decide +kernel) [] rest
  have hcampaigns : ∀ rest, lit "v1:summary" ≠ lit "v1:top:campaigns:" ++ rest := fun rest => by
    simpa using append_ne_append (by decide +kernel) (by decide +kernel) [] rest
  have hboth : ∀ rest rest', lit "v1:top:pages:" ++ rest ≠ lit "v1:top:campaigns:" ++ rest' :=
    append_ne_append (by decide +kernel) (by decide +kernel)
  intro a b h
  cases a with
  | summary =>
    cases b with
    | summary => rfl
    | topPages limit => exact absurd h (hpages _)
    | topCampaigns limit => exact absurd h (hcampaigns _)
  | topPages limit =>
    cases b with
    | summary => exact absurd h.symm (hpages _)
    | topPages limit' => rw [natText_injective (List.append_cancel_left h)]
    | topCampaigns limit' => exact absurd h (hboth _ _)
  | topCampaigns limit =>
    cases b with
    | summary => exact absurd h.symm (hcampaigns _)
    | topPages limit' => exact absurd h.symm (hboth _ _)
    | topCampaigns limit' => rw [natText_injective (List.append_cancel_left h)]

/-- A client cannot choose an address that makes its counter a cached answer. -/
theorem limiterKey_ne_cacheKey (client : PyStr) (route : Route) :
    limiterKey client ≠ route.cacheKey := by
  cases route with
  | summary =>
    simpa [limiterKey, Route.cacheKey] using
      append_ne_append (by decide +kernel : ¬lit "ratelimit:" <+: lit "v1:summary")
        (by decide +kernel) client []
  | topPages limit => exact append_ne_append (by decide +kernel) (by decide +kernel) _ _
  | topCampaigns limit => exact append_ne_append (by decide +kernel) (by decide +kernel) _ _

/-! ### Redis -/

/-- What a key holds; the texts are those of `json.dumps`, which are no integers. -/
inductive Stored where
  | count (n : Nat)
  | text (t : PyStr)
  deriving DecidableEq

structure Entry where
  value : Stored
  expiry : Option Int
  deriving DecidableEq

abbrev Keys := PyStr → Option Entry

/-- What a key holds at the moment `now`; an expired key is absent. -/
def live (keys : Keys) (now : Int) (key : PyStr) : Option Entry :=
  (keys key).filter fun entry =>
    match entry.expiry with
    | none => true
    | some t => decide (now < t)

/-- `GET` -/
def get (keys : Keys) (now : Int) (key : PyStr) : Option PyStr :=
  (live keys now key).map fun entry =>
    match entry.value with
    | .count n => natText n
    | .text t => t

/-- `INCR`: the reply and the keys, or an error when the key holds a text. -/
def incr (keys : Keys) (now : Int) (key : PyStr) : Option (Nat × Keys) :=
  match live keys now key with
  | none => some (1, Function.update keys key (some ⟨.count 1, none⟩))
  | some ⟨.count n, expiry⟩ => some (n + 1, Function.update keys key (some ⟨.count (n + 1), expiry⟩))
  | some ⟨.text _, _⟩ => none

/-- `EXPIRE`, with the time to live in milliseconds. -/
def expire (keys : Keys) (now : Int) (key : PyStr) (ttl : Int) : Keys :=
  match live keys now key with
  | none => keys
  | some entry => Function.update keys key (some { entry with expiry := some (now + ttl) })

/-- `SET` with `EX`, which a time to live that is not positive makes fail. -/
def set (keys : Keys) (now : Int) (key text : PyStr) (ttlSeconds : Int) : Keys :=
  if 0 < ttlSeconds then
    Function.update keys key (some ⟨.text text, some (now + ttlSeconds * 1000)⟩)
  else keys

/-! ### Requests -/

/-- What a request in progress does next. -/
inductive Call where
  | incr (client : PyStr) (route : Route)
  | expire (client : PyStr) (route : Route)
  | get (route : Route)
  | fetch (route : Route)
  | set (route : Route) (data : Data)

def Call.route : Call → Route
  | .incr _ route | .expire _ route | .get route | .fetch route | .set route _ => route

inductive Response where
  | tooManyRequests
  | unavailable
  | ok (body : Json)

/-- The query functions over the contents of the databases; `none` when one raises. -/
structure Backend (δ : Type) where
  query : Route → δ → Option Data
  returns : ∀ {route d data}, query route d = some data → Returns route.endpoint data

structure State (δ : Type) where
  now : Int
  keys : Keys
  db : δ
  calls : List Call

def State.initial {δ : Type} (now : Int) (db : δ) : State δ := ⟨now, fun _ => none, db, []⟩

inductive Event (δ : Type) where
  | tick (ms : Nat)
  | write (db : δ)
  | request (client : PyStr) (route : Route)
  | command (call : Call) (o : RateLimit.Outcome)
  | stop (call : Call)

/-- The settings that the API reads. -/
structure Settings where
  cacheTtlSeconds : Int
  rateLimitMaxRequests : Int
  rateLimitWindowSeconds : Int

section Api

variable {δ : Type} (py : Interpreter) (enc : Encoders) (settings : Settings) (backend : Backend δ)

/-- `rate_limit` behind the count: 429, or on to the endpoint. -/
def verdict (count : Nat) (route : Route) : List Call × Option Response :=
  if RateLimit.exceeded settings.rateLimitMaxRequests count then ([], some .tooManyRequests)
  else ([.get route], none)

/-- `set_json`: nothing is sent when `json.dumps` raises. -/
def store (keys : Keys) (now : Int) (route : Route) (data : Data) : Keys :=
  if Dumpable enc data then
    set keys now route.cacheKey (data.render (DbValue.dumped enc)).encode settings.cacheTtlSeconds
  else keys

/-- One command of a call: the keys behind it, how the call goes on, and its response when it ends.
The limiter fails open, and the cache counts as empty, when Redis does not answer. -/
def advance (s : State δ) : Call → RateLimit.Outcome → Keys × List Call × Option Response
  | .incr client route, .replied =>
    match incr s.keys s.now (limiterKey client) with
    | none => (s.keys, [.get route], none)
    | some (count, keys) =>
      if count = 1 then (keys, [.expire client route], none) else (keys, verdict settings count route)
  | .incr _ route, .failed => (s.keys, [.get route], none)
  | .incr client route, .lost =>
    (((incr s.keys s.now (limiterKey client)).map Prod.snd).getD s.keys, [.get route], none)
  | .expire client route, .replied =>
    (expire s.keys s.now (limiterKey client) (settings.rateLimitWindowSeconds * 1000),
      verdict settings 1 route)
  | .expire _ route, .failed => (s.keys, [.get route], none)
  | .expire client route, .lost =>
    (expire s.keys s.now (limiterKey client) (settings.rateLimitWindowSeconds * 1000),
      [.get route], none)
  | .get route, .replied =>
    match getJson py (get s.keys s.now route.cacheKey) with
    | some hit => (s.keys, [], some (.ok (route.endpoint.body hit)))
    | none => (s.keys, [.fetch route], none)
  | .get route, _ => (s.keys, [.fetch route], none)
  | .fetch route, .replied =>
    match backend.query route s.db with
    | some data => (s.keys, [.set route data], none)
    | none => (s.keys, [], some .unavailable)
  | .fetch _, _ => (s.keys, [], some .unavailable)
  | .set route data, .failed =>
    (s.keys, [], some (.ok (route.endpoint.body (data.render (DbValue.toJson enc)))))
  | .set route data, _ =>
    (store enc settings s.keys s.now route data, [],
      some (.ok (route.endpoint.body (data.render (DbValue.toJson enc)))))

/-- One event, with the response that it sends. -/
inductive Step (s : State δ) : Event δ → Option Response → State δ → Prop
  | tick (ms : Nat) : Step s (.tick ms) none { s with now := s.now + ms }
  | write (db : δ) : Step s (.write db) none { s with db := db }
  | request (client : PyStr) (route : Route) :
    Step s (.request client route) none { s with calls := .incr client route :: s.calls }
  | command {before after : List Call} {call : Call} (o : RateLimit.Outcome)
      (hcalls : s.calls = before ++ call :: after) :
    Step s (.command call o) (advance py enc settings backend s call o).2.2
      { s with
        keys := (advance py enc settings backend s call o).1
        calls := before ++ (advance py enc settings backend s call o).2.1 ++ after }
  | stop {before after : List Call} {call : Call} (hcalls : s.calls = before ++ call :: after) :
    Step s (.stop call) none { s with calls := before ++ after }

variable {py enc settings backend} in
theorem Step.single {s : State δ} {call : Call} (hcalls : s.calls = [call]) (o : RateLimit.Outcome) :
    Step py enc settings backend s (.command call o) (advance py enc settings backend s call o).2.2
      { s with
        keys := (advance py enc settings backend s call o).1
        calls := (advance py enc settings backend s call o).2.1 } := by
  have hstep : Step py enc settings backend s (.command call o) _ _ :=
    .command o (show s.calls = [] ++ call :: [] from hcalls)
  rwa [List.nil_append, List.append_nil] at hstep

/-- The events of a run in their order, with the responses. -/
inductive Run (s₀ : State δ) : List (Event δ × Option Response) → State δ → Prop
  | start : Run s₀ [] s₀
  | step {done s e response s'} (hrun : Run s₀ done s)
      (hstep : Step py enc settings backend s e response s') : Run s₀ (done ++ [(e, response)]) s'

end Api

/-! ### What the keys hold -/

section Lemmas

variable {keys : Keys} {now : Int} {key : PyStr}

/-- The counters are under the keys of the limiter and the texts under those of the cache. -/
structure Typed (keys : Keys) : Prop where
  count : ∀ {key n expiry}, keys key = some ⟨.count n, expiry⟩ → ∃ client, key = limiterKey client
  text : ∀ {key t expiry}, keys key = some ⟨.text t, expiry⟩ → ∃ route : Route, key = route.cacheKey

theorem Typed.not_text (h : Typed keys) (client : PyStr) (t : PyStr) (expiry : Option Int) :
    keys (limiterKey client) ≠ some ⟨.text t, expiry⟩ := by
  intro heq
  obtain ⟨route, hroute⟩ := h.text heq
  exact limiterKey_ne_cacheKey client route hroute

theorem Typed.not_count (h : Typed keys) (route : Route) (n : Nat) (expiry : Option Int) :
    keys route.cacheKey ≠ some ⟨.count n, expiry⟩ := by
  intro heq
  obtain ⟨client, hclient⟩ := h.count heq
  exact limiterKey_ne_cacheKey client route hclient.symm

theorem eq_of_live {entry : Entry} (h : live keys now key = some entry) :
    keys key = some entry ∧ ∀ t, entry.expiry = some t → now < t := by
  obtain ⟨hkeys, hfresh⟩ := Option.filter_eq_some_iff.mp h
  refine ⟨hkeys, fun t ht => ?_⟩
  simpa [ht] using hfresh

/-- An update that writes a count under a key of the limiter, or a text under one of the cache. -/
theorem Typed.update (h : Typed keys) {entry : Entry}
    (hcount : ∀ n, entry.value = .count n → ∃ client, key = limiterKey client)
    (htext : ∀ t, entry.value = .text t → ∃ route : Route, key = route.cacheKey) :
    Typed (Function.update keys key (some entry)) where
  count {key' n expiry} heq := by
    by_cases hkey : key' = key
    · subst hkey
      rw [Function.update_self, Option.some.injEq] at heq
      exact hcount n (by rw [heq])
    · rw [Function.update_of_ne hkey] at heq
      exact h.count heq
  text {key' t expiry} heq := by
    by_cases hkey : key' = key
    · subst hkey
      rw [Function.update_self, Option.some.injEq] at heq
      exact htext t (by rw [heq])
    · rw [Function.update_of_ne hkey] at heq
      exact h.text heq

def Entry.counter : Entry → Option RateLimit.Counter
  | ⟨.count n, expiry⟩ => some ⟨n, expiry⟩
  | ⟨.text _, _⟩ => none

/-- The counters among the keys. -/
def counters (keys : Keys) : RateLimit.Store PyStr := fun key => (keys key).bind Entry.counter

theorem live_counters :
    RateLimit.live (counters keys) now key = (live keys now key).bind Entry.counter := by
  simp only [RateLimit.live, counters, live]
  cases keys key with
  | none => rfl
  | some entry =>
    obtain ⟨value, expiry⟩ := entry
    cases value <;> cases expiry <;> simp [Option.filter, Entry.counter] <;> split_ifs <;> rfl

theorem counters_update_count {n : Nat} {expiry : Option Int} :
    counters (Function.update keys key (some ⟨.count n, expiry⟩)) =
      Function.update (counters keys) key (some ⟨n, expiry⟩) := by
  funext k
  by_cases hk : k = key
  · subst hk
    simp [counters, Entry.counter]
  · simp [counters, Function.update_of_ne hk]

theorem counters_update_text (h : ∀ n expiry, keys key ≠ some ⟨.count n, expiry⟩) {t : PyStr}
    {expiry : Option Int} :
    counters (Function.update keys key (some ⟨.text t, expiry⟩)) = counters keys := by
  funext k
  by_cases hk : k = key
  · subst hk
    cases hkey : keys k with
    | none => simp [counters, Entry.counter, hkey]
    | some entry =>
      obtain ⟨value, expiry'⟩ := entry
      cases value with
      | count n => exact absurd hkey (h n expiry')
      | text t' => simp [counters, Entry.counter, hkey]
  · simp [counters, Function.update_of_ne hk]

/-- `INCR` on a key without a text is the `INCR` of the limiter. -/
theorem incr_eq (now : Int) (h : ∀ t expiry, keys key ≠ some ⟨.text t, expiry⟩) :
    ∃ keys', incr keys now key = some (RateLimit.incrReply (counters keys) now key, keys') ∧
      counters keys' = RateLimit.incr (counters keys) now key ∧
      ∃ n expiry, keys' = Function.update keys key (some ⟨.count n, expiry⟩) := by
  have hcounter : RateLimit.live (counters keys) now key = (live keys now key).bind Entry.counter :=
    live_counters
  cases hlive : live keys now key with
  | none =>
    rw [hlive, Option.bind_none] at hcounter
    have hreply : RateLimit.incrReply (counters keys) now key = 1 := by
      rw [RateLimit.incrReply, hcounter]
    refine ⟨_, by rw [incr, hlive, hreply], ?_, 1, none, rfl⟩
    rw [counters_update_count, RateLimit.incr, hreply, hcounter, Option.bind_none]
  | some entry =>
    obtain ⟨value, expiry⟩ := entry
    cases value with
    | text t => exact absurd (eq_of_live hlive).1 (h t expiry)
    | count n =>
      rw [hlive, Option.bind_some, Entry.counter] at hcounter
      have hreply : RateLimit.incrReply (counters keys) now key = n + 1 := by
        rw [RateLimit.incrReply, hcounter]
      refine ⟨_, by rw [incr, hlive, hreply], ?_, n + 1, expiry, rfl⟩
      rw [counters_update_count, RateLimit.incr, hreply, hcounter, Option.bind_some]

theorem counters_expire (h : ∀ t expiry, keys key ≠ some ⟨.text t, expiry⟩) (ttl : Int) :
    counters (expire keys now key ttl) = RateLimit.expire (counters keys) now key ttl := by
  have hcounter : RateLimit.live (counters keys) now key = (live keys now key).bind Entry.counter :=
    live_counters
  cases hlive : live keys now key with
  | none =>
    rw [hlive, Option.bind_none] at hcounter
    rw [expire, hlive, RateLimit.expire, hcounter]
  | some entry =>
    obtain ⟨value, expiry⟩ := entry
    cases value with
    | text t => exact absurd (eq_of_live hlive).1 (h t expiry)
    | count n =>
      rw [hlive, Option.bind_some, Entry.counter] at hcounter
      simp only [expire, hlive, RateLimit.expire, hcounter]
      exact counters_update_count

end Lemmas

/-! ### Runs -/

section Runs

variable {δ : Type} {py : Interpreter} {enc : Encoders} {settings : Settings} {backend : Backend δ}
variable {s₀ s s' : State δ} {done : List (Event δ × Option Response)} {e : Event δ}
variable {response : Option Response} {route : Route} {data : Data}

/-- The database answered `data` to `route` at some moment of the run. -/
def Fetched (py : Interpreter) (enc : Encoders) (settings : Settings) (backend : Backend δ)
    (s₀ : State δ) (done : List (Event δ × Option Response)) (route : Route) (data : Data) : Prop :=
  ∃ before s, before <+: done ∧ Run py enc settings backend s₀ before s ∧
    backend.query route s.db = some data

/-- At the moment `t` of the run a call had `data` for `route` to store. -/
def Storing (py : Interpreter) (enc : Encoders) (settings : Settings) (backend : Backend δ)
    (s₀ : State δ) (done : List (Event δ × Option Response)) (route : Route) (data : Data)
    (t : Int) : Prop :=
  ∃ before s, before <+: done ∧ Run py enc settings backend s₀ before s ∧
    Call.set route data ∈ s.calls ∧ Fetched py enc settings backend s₀ before route data ∧ s.now = t

theorem Fetched.append (h : Fetched py enc settings backend s₀ done route data)
    (more : List (Event δ × Option Response)) :
    Fetched py enc settings backend s₀ (done ++ more) route data := by
  obtain ⟨before, s, hbefore, hrest⟩ := h
  exact ⟨before, s, hbefore.trans (List.prefix_append done more), hrest⟩

theorem Storing.append {t : Int} (h : Storing py enc settings backend s₀ done route data t)
    (more : List (Event δ × Option Response)) :
    Storing py enc settings backend s₀ (done ++ more) route data t := by
  obtain ⟨before, s, hbefore, hrest⟩ := h
  exact ⟨before, s, hbefore.trans (List.prefix_append done more), hrest⟩

/-- What holds behind every run: each text is the dump of data that a call stored for the route of its
key, and expires with the time to live. -/
structure Inv (py : Interpreter) (enc : Encoders) (settings : Settings) (backend : Backend δ)
    (s₀ : State δ) (done : List (Event δ × Option Response)) (s : State δ) : Prop where
  typed : Typed s.keys
  texts : ∀ {route : Route} {t expiry}, s.keys route.cacheKey = some ⟨.text t, expiry⟩ →
    ∃ data τ, Storing py enc settings backend s₀ done route data τ ∧ Dumpable enc data ∧
      t = (data.render (DbValue.dumped enc)).encode ∧
      expiry = some (τ + settings.cacheTtlSeconds * 1000)
  calls : ∀ {route data}, Call.set route data ∈ s.calls →
    Fetched py enc settings backend s₀ done route data

/-- `EXPIRE` on a key of the limiter changes nothing but the expiry of a count. -/
theorem expire_limiterKey (h : Typed s.keys) (client : PyStr) (ttl : Int) :
    expire s.keys s.now (limiterKey client) ttl = s.keys ∨
      ∃ n expiry, expire s.keys s.now (limiterKey client) ttl =
        Function.update s.keys (limiterKey client) (some ⟨.count n, expiry⟩) := by
  cases hlive : live s.keys s.now (limiterKey client) with
  | none => exact .inl (by rw [expire, hlive])
  | some entry =>
    obtain ⟨value, expiry⟩ := entry
    cases value with
    | text t => exact absurd (eq_of_live hlive).1 (h.not_text client t expiry)
    | count n => exact .inr ⟨n, some (s.now + ttl), by rw [expire, hlive]⟩

/-- `set_json` of a call. -/
theorem store_cases (enc : Encoders) (settings : Settings) (keys : Keys) (now : Int) (route : Route)
    (data : Data) :
    store enc settings keys now route data = keys ∨
      Dumpable enc data ∧ store enc settings keys now route data =
        Function.update keys route.cacheKey
          (some ⟨.text (data.render (DbValue.dumped enc)).encode,
            some (now + settings.cacheTtlSeconds * 1000)⟩) := by
  rw [store]
  split_ifs with hdumps
  · rw [set]
    split_ifs
    · exact .inr ⟨hdumps, rfl⟩
    · exact .inl rfl
  · exact .inl rfl

variable (py enc settings backend) in
/-- The keys behind a command, when those in front of it are in order. -/
theorem advance_keys (h : Typed s.keys) (call : Call) (o : RateLimit.Outcome) :
    let keys := (advance py enc settings backend s call o).1
    keys = s.keys ∨
      (∃ client n expiry,
        keys = Function.update s.keys (limiterKey client) (some ⟨.count n, expiry⟩)) ∨
      ∃ route data, call = .set route data ∧ Dumpable enc data ∧
        keys = Function.update s.keys route.cacheKey
          (some ⟨.text (data.render (DbValue.dumped enc)).encode,
            some (s.now + settings.cacheTtlSeconds * 1000)⟩) := by
  intro keys
  cases call with
  | incr client route =>
    obtain ⟨keys', hincr, -, n, expiry, hkeys⟩ := incr_eq s.now (h.not_text client)
    cases o with
    | failed => exact .inl rfl
    | replied =>
      refine .inr (.inl ⟨client, n, expiry, ?_⟩)
      simp only [keys, advance, hincr]
      split <;> exact hkeys
    | lost =>
      refine .inr (.inl ⟨client, n, expiry, ?_⟩)
      simp only [keys, advance, hincr, Option.map_some, Option.getD_some]
      exact hkeys
  | expire client route =>
    have hexpire := expire_limiterKey h client (settings.rateLimitWindowSeconds * 1000)
    cases o with
    | failed => exact .inl rfl
    | replied | lost =>
      refine hexpire.imp_right fun ⟨n, expiry, hkeys⟩ => .inl ⟨client, n, expiry, hkeys⟩
  | get route =>
    refine .inl ?_
    cases o with
    | failed | lost => rfl
    | replied =>
      simp only [keys, advance]
      split <;> rfl
  | fetch route =>
    refine .inl ?_
    cases o with
    | failed | lost => rfl
    | replied =>
      simp only [keys, advance]
      split <;> rfl
  | set route data =>
    have hstore := store_cases enc settings s.keys s.now route data
    cases o with
    | failed => exact .inl rfl
    | replied | lost =>
      exact hstore.imp_right fun ⟨hdumps, hkeys⟩ => .inr ⟨route, data, rfl, hdumps, hkeys⟩

/-- A call gets data to store from the database only. -/
theorem advance_calls {call : Call} {o : RateLimit.Outcome}
    (h : Call.set route data ∈ (advance py enc settings backend s call o).2.1) :
    backend.query route s.db = some data := by
  have hverdict : ∀ count route', Call.set route data ∉ (verdict settings count route').1 := by
    intro count route'
    rw [verdict]
    split <;> simp
  cases call with
  | incr client route' =>
    cases o with
    | failed | lost => simp [advance] at h
    | replied =>
      simp only [advance] at h
      split at h
      · simp at h
      · split at h
        · simp at h
        · exact absurd h (hverdict _ _)
  | expire client route' =>
    cases o with
    | failed | lost => simp [advance] at h
    | replied => exact absurd h (hverdict _ _)
  | get route' =>
    cases o with
    | failed | lost => simp [advance] at h
    | replied =>
      simp only [advance] at h
      split at h <;> simp at h
  | fetch route' =>
    cases o with
    | failed | lost => simp [advance] at h
    | replied =>
      simp only [advance] at h
      split at h
      · rename_i data' hquery
        obtain ⟨rfl, rfl⟩ : route = route' ∧ data = data' := by simpa using h
        exact hquery
      · simp at h
  | set route' data' =>
    cases o with
    | replied | failed | lost => simp [advance] at h

theorem inv_initial (now : Int) (db : δ) :
    Inv py enc settings backend (State.initial now db) [] (State.initial now db) where
  typed := { count := fun h => (by cases h), text := fun h => (by cases h) }
  texts h := by cases h
  calls h := by cases h

/-- Commands keep the keys in order. -/
theorem Typed.advance (h : Typed s.keys) (call : Call) (o : RateLimit.Outcome) :
    Typed (advance py enc settings backend s call o).1 := by
  obtain hkeys | ⟨client, n, expiry, hkeys⟩ | ⟨route, data, -, -, hkeys⟩ :=
    advance_keys py enc settings backend h call o
  · rwa [hkeys]
  · rw [hkeys]
    exact h.update (fun _ _ => ⟨client, rfl⟩) fun _ heq => by cases heq
  · rw [hkeys]
    exact h.update (fun _ heq => by cases heq) fun _ _ => ⟨route, rfl⟩

theorem Inv.step (h : Inv py enc settings backend s₀ done s)
    (hrun : Run py enc settings backend s₀ done s)
    (hstep : Step py enc settings backend s e response s') :
    Inv py enc settings backend s₀ (done ++ [(e, response)]) s' := by
  have htexts : ∀ {route : Route} {t expiry}, s.keys route.cacheKey = some ⟨.text t, expiry⟩ →
      ∃ data τ, Storing py enc settings backend s₀ (done ++ [(e, response)]) route data τ ∧
        Dumpable enc data ∧ t = (data.render (DbValue.dumped enc)).encode ∧
        expiry = some (τ + settings.cacheTtlSeconds * 1000) := by
    intro route t expiry hkey
    obtain ⟨data, τ, hstoring, hrest⟩ := h.texts hkey
    exact ⟨data, τ, hstoring.append _, hrest⟩
  have hcalls : ∀ {route data}, Call.set route data ∈ s.calls →
      Fetched py enc settings backend s₀ (done ++ [(e, response)]) route data :=
    fun hmem => (h.calls hmem).append _
  cases hstep with
  | tick ms => exact ⟨h.typed, htexts, hcalls⟩
  | write db => exact ⟨h.typed, htexts, hcalls⟩
  | request client route =>
    refine ⟨h.typed, htexts, fun hmem => ?_⟩
    obtain heq | hmem := List.mem_cons.mp hmem
    · cases heq
    · exact hcalls hmem
  | stop hsplit =>
    refine ⟨h.typed, htexts, fun hmem => hcalls ?_⟩
    rw [hsplit]
    simp only [List.mem_append, List.mem_cons] at hmem ⊢
    exact hmem.imp_right .inr
  | @command before after call o hsplit =>
    refine ⟨h.typed.advance call o, ?_, ?_⟩
    · intro route t expiry hkey
      change (advance py enc settings backend s call o).1 _ = _ at hkey
      obtain hkeys | ⟨client, n, expiry', hkeys⟩ | ⟨route', data, rfl, hdumps, hkeys⟩ :=
        advance_keys py enc settings backend h.typed call o
      · exact htexts (hkeys ▸ hkey)
      · rw [hkeys, Function.update_of_ne (limiterKey_ne_cacheKey client route).symm] at hkey
        exact htexts hkey
      · rw [hkeys] at hkey
        by_cases hroute : route.cacheKey = route'.cacheKey
        · obtain rfl := cacheKey_injective hroute
          rw [Function.update_self] at hkey
          have hmem : Call.set route data ∈ s.calls := by
            rw [hsplit]
            simp
          injections
          subst_vars
          exact ⟨data, s.now, ⟨done, s, List.prefix_append _ _, hrun, hmem, h.calls hmem, rfl⟩,
            hdumps, rfl, rfl⟩
        · rw [Function.update_of_ne hroute] at hkey
          exact htexts hkey
    · intro route data hmem
      simp only [List.mem_append] at hmem
      obtain (hmem | hmem) | hmem := hmem
      · exact hcalls (by rw [hsplit]; simp [hmem])
      · exact ⟨done, s, List.prefix_append _ _, hrun, advance_calls hmem⟩
      · exact hcalls (by rw [hsplit]; simp [hmem])

theorem inv_of_run {now : Int} {db : δ}
    (hrun : Run py enc settings backend (State.initial now db) done s) :
    Inv py enc settings backend (State.initial now db) done s := by
  induction hrun with
  | start => exact inv_initial now db
  | step hrun hstep ih => exact ih.step hrun hstep

/-! ### What is served -/

/-- An unexpired text under the key of a route is served. -/
theorem getJson_of_live (h : Inv py enc settings backend s₀ done s)
    (hdepth : 2 ≤ py.recursionLimit) {text : PyStr}
    (hget : get s.keys s.now route.cacheKey = some text) :
    ∃ data τ, Storing py enc settings backend s₀ done route data τ ∧ Dumpable enc data ∧
      s.now < τ + settings.cacheTtlSeconds * 1000 ∧
      getJson py (some text) = some (data.render (DbValue.dumped enc)) := by
  obtain ⟨⟨value, expiry⟩, hlive, hvalue⟩ := Option.map_eq_some_iff.mp hget
  obtain ⟨hkey, hfresh⟩ := eq_of_live hlive
  cases value with
  | count n => exact absurd hkey (h.typed.not_count route n expiry)
  | text t =>
    obtain ⟨data, τ, hstoring, hdumps, rfl, rfl⟩ := h.texts hkey
    obtain rfl : (data.render (DbValue.dumped enc)).encode = text := hvalue
    have hreturns : Returns route.endpoint data := by
      obtain ⟨-, -, -, -, -, ⟨-, s, -, -, hquery⟩, -⟩ := hstoring
      exact backend.returns hquery
    have hload := getJson_setJson hreturns hdumps hdepth none
    rw [setJson, if_pos hdumps] at hload
    exact ⟨data, τ, hstoring, hdumps, hfresh _ rfl, hload⟩

theorem verdict_ne_ok (count : Nat) (route : Route) (body : Json) :
    (verdict settings count route).2 ≠ some (.ok body) := by
  rw [verdict]
  split <;> simp

/-- A body comes from the text under the key, or from the data at hand. -/
theorem advance_ok {call : Call} {o : RateLimit.Outcome} {body : Json}
    (h : (advance py enc settings backend s call o).2.2 = some (.ok body)) :
    (∃ route data, call = .set route data ∧
      body = route.endpoint.body (data.render (DbValue.toJson enc))) ∨
    ∃ route hit, call = .get route ∧ o = .replied ∧
      getJson py (get s.keys s.now route.cacheKey) = some hit ∧ body = route.endpoint.body hit := by
  cases call with
  | incr client route =>
    cases o with
    | failed | lost => cases h
    | replied =>
      simp only [advance] at h
      split at h
      · cases h
      · split at h
        · cases h
        · exact absurd h (verdict_ne_ok _ _ _)
  | expire client route =>
    cases o with
    | failed | lost => cases h
    | replied => exact absurd h (verdict_ne_ok _ _ _)
  | get route =>
    cases o with
    | failed | lost => cases h
    | replied =>
      simp only [advance] at h
      split at h
      · rename_i hit hload
        cases h
        exact .inr ⟨route, hit, rfl, rfl, hload, rfl⟩
      · cases h
  | fetch route =>
    cases o with
    | failed | lost => cases h
    | replied =>
      simp only [advance] at h
      split at h <;> cases h
  | set route data =>
    cases o with
    | replied | failed | lost =>
      cases h
      exact .inl ⟨route, data, rfl, rfl⟩

/-- In every run each body is one of its route's own answers of the database: of this call, through
Pydantic, or of a call that stored it within the time to live, as `json.dumps` wrote it.  Requests of
other routes, clients and the limiter never show through. -/
theorem served {now : Int} {db : δ} {body : Json} (hdepth : 2 ≤ py.recursionLimit)
    (hrun : Run py enc settings backend (State.initial now db) done s)
    (hstep : Step py enc settings backend s e (some (.ok body)) s') :
    ∃ route data, Fetched py enc settings backend (State.initial now db) done route data ∧
      ((∃ o, e = .command (.set route data) o ∧
          body = route.endpoint.body (data.render (DbValue.toJson enc))) ∨
        e = .command (.get route) .replied ∧
          body = route.endpoint.body (data.render (DbValue.dumped enc)) ∧
          ∃ τ, Storing py enc settings backend (State.initial now db) done route data τ ∧
            s.now < τ + settings.cacheTtlSeconds * 1000) := by
  have hinv := inv_of_run hrun
  generalize hresponse : some (Response.ok body) = response at hstep
  cases hstep with
  | tick ms | write db | request client route | stop hsplit => cases hresponse
  | @command before after call o hsplit =>
    obtain ⟨route, data, rfl, rfl⟩ | ⟨route, hit, rfl, rfl, hload, rfl⟩ := advance_ok hresponse.symm
    · have hmem : Call.set route data ∈ s.calls := by
        rw [hsplit]
        simp
      exact ⟨route, data, hinv.calls hmem, .inl ⟨o, rfl, rfl⟩⟩
    · cases hget : get s.keys s.now route.cacheKey with
      | none =>
        rw [hget] at hload
        cases hload
      | some text =>
        obtain ⟨data, τ, hstoring, -, hfresh, hdumped⟩ := getJson_of_live hinv hdepth hget
        rw [hget, hdumped, Option.some.injEq] at hload
        obtain rfl := hload
        have hfetched : Fetched py enc settings backend (State.initial now db) done route data := by
          obtain ⟨before, -, ⟨more, rfl⟩, -, -, hfetched, -⟩ := hstoring
          exact hfetched.append more
        exact ⟨route, data, hfetched, .inr ⟨rfl, rfl, τ, hstoring, hfresh⟩⟩

end Runs

/-- A database without tables, on which only the summary answers. -/
def emptyBackend : Backend Unit where
  query
    | .summary, _ => some (.dict (querySummary (.int 0) (.int 0) (.int 0) none (.int 0)))
    | _, _ => none
  returns {route d data} h := by
    cases route with
    | summary =>
      cases h
      exact .summary ..
    | topPages limit | topCampaigns limit => cases h

def strictSettings : Settings := ⟨10, 0, 60⟩

/-- Two requests for the summary, with a limiter that does not answer; the second finds what the first
stored. -/
theorem served_summary :
    let data := Data.dict (querySummary (.int 0) (.int 0) (.int 0) none (.int 0))
    let body := data.render (DbValue.dumped integralEncoders)
    let s₀ : State Unit := State.initial 0 ()
    ∃ done s s', Run cpython integralEncoders strictSettings emptyBackend s₀ done s ∧
      Step cpython integralEncoders strictSettings emptyBackend s (.command (.get .summary) .replied)
        (some (.ok body)) s' ∧
      ∃ route stored,
        Fetched cpython integralEncoders strictSettings emptyBackend s₀ done route stored ∧
          body = route.endpoint.body (stored.render (DbValue.dumped integralEncoders)) := by
  intro data body s₀
  let keys := store integralEncoders strictSettings s₀.keys s₀.now .summary data
  have hdumps : Dumpable integralEncoders data := by decide +kernel
  have hkeys : keys = Function.update s₀.keys (Route.cacheKey .summary)
      (some ⟨.text body.encode, some 10000⟩) := by
    simp only [keys, store, if_pos hdumps]
    rfl
  have hget : get keys 0 (Route.cacheKey .summary) = some body.encode := by
    rw [hkeys, get, live, Function.update_self]
    rfl
  have hload : getJson cpython (some body.encode) = some body := by
    have h := getJson_setJson (.summary (.int 0) (.int 0) (.int 0) none (.int 0)) hdumps
      (by decide : 2 ≤ cpython.recursionLimit) none
    rwa [setJson, if_pos hdumps] at h
  have hask : ∀ keys, Step cpython integralEncoders strictSettings emptyBackend ⟨0, keys, (), []⟩
      (.request (lit "10.0.0.7") .summary) none ⟨0, keys, (), [.incr (lit "10.0.0.7") .summary]⟩ :=
    fun _ => .request _ _
  have hfirst := (Run.start : Run cpython integralEncoders strictSettings emptyBackend s₀ [] s₀)
    |>.step (hask _) |>.step (.single rfl .failed) |>.step (.single rfl .replied)
    |>.step (.single rfl .replied) |>.step (.single rfl .replied)
  have hsecond := hfirst |>.step (hask keys) |>.step (.single rfl .failed)
  have hhit : Step cpython integralEncoders strictSettings emptyBackend
      ⟨0, keys, (), [.get .summary]⟩ (.command (.get .summary) .replied) (some (.ok body))
      ⟨0, keys, (), []⟩ := by
    have hstep : Step cpython integralEncoders strictSettings emptyBackend
        ⟨0, keys, (), [.get .summary]⟩ _ _ _ := .single rfl .replied
    simp only [advance, hget, hload] at hstep
    exact hstep
  obtain ⟨route, stored, hfetched, ⟨o, heq, -⟩ | ⟨-, hbody, -⟩⟩ :=
    served (by decide : 2 ≤ cpython.recursionLimit) hsecond hhit
  · cases heq
  · exact ⟨_, _, _, hsecond, hhit, route, stored, hfetched, hbody⟩

/-! ### The limiter under the cache -/

/-- What the limiter does next in a call. -/
def Call.limiter : Call → Option (RateLimit.Call PyStr)
  | .incr client _ => some ⟨limiterKey client, .incr⟩
  | .expire client _ => some ⟨limiterKey client, .expire⟩
  | .get _ | .fetch _ | .set _ _ => none

/-- What an event is to the limiter alone. -/
def Event.limiter {δ : Type} : Event δ → Option (RateLimit.Event PyStr)
  | .tick ms => some (.tick ms)
  | .write _ => none
  | .request client _ => some (.request (limiterKey client))
  | .command call o =>
    call.limiter.map fun c =>
      match c.phase with
      | .incr => .incr c.key o
      | .expire => .expire c.key o
  | .stop call => call.limiter.map .stop

/-- The limiter alone is in the state of the API, but for the order of the calls. -/
structure Simulates {δ : Type} (t : RateLimit.State PyStr) (s : State δ) : Prop where
  now : t.now = s.now
  store : t.store = counters s.keys
  calls : t.calls.Perm (s.calls.filterMap Call.limiter)

section Limiter

variable {δ : Type} {py : Interpreter} {enc : Encoders} {settings : Settings} {backend : Backend δ}
variable {s₀ s s' : State δ} {done : List (Event δ × Option Response)} {e : Event δ}
variable {response : Option Response} {t : RateLimit.State PyStr}

/-- The calls of the limiter behind a command that puts `next` in the place of `call`. -/
theorem Simulates.replace (h : Simulates t s) {before after : List Call} {call : Call}
    (hcalls : s.calls = before ++ call :: after) {c : RateLimit.Call PyStr}
    (hcall : call.limiter = some c) (next : List Call) :
    c ∈ t.calls ∧ (next.filterMap Call.limiter ++ t.calls.erase c).Perm
      ((before ++ next ++ after).filterMap Call.limiter) := by
  have hperm := h.calls
  rw [hcalls, List.filterMap_append, List.filterMap_cons_some hcall] at hperm
  have hperm' : t.calls.Perm (c :: (before.filterMap Call.limiter ++ after.filterMap Call.limiter)) :=
    hperm.trans List.perm_middle
  refine ⟨hperm'.mem_iff.mpr List.mem_cons_self, ?_⟩
  have herase := (hperm'.erase c).trans (by rw [List.erase_cons_head])
  simp only [List.filterMap_append]
  refine (herase.append_left _).trans ?_
  rw [← List.append_assoc]
  exact List.perm_append_comm.append_right _

theorem verdict_limiter (settings : Settings) (count : Nat) (route : Route) :
    (verdict settings count route).1.filterMap Call.limiter = [] ∧
      ((verdict settings count route).2 = some .tooManyRequests ↔
        RateLimit.exceeded settings.rateLimitMaxRequests count = true) := by
  rw [verdict]
  split <;> simp_all [Call.limiter]

/-- `INCR` of a call, with the state that the limiter alone gets to. -/
theorem simulates_incr (h : Simulates t s) (htyped : Typed s.keys) {before after : List Call}
    {client : PyStr} {route : Route} (hcalls : s.calls = before ++ .incr client route :: after)
    (o : RateLimit.Outcome) :
    let out := advance py enc settings backend s (.incr client route) o
    ∃ t', RateLimit.step settings.rateLimitWindowSeconds t (.incr (limiterKey client) o) = some t' ∧
      Simulates t' { s with keys := out.1, calls := before ++ out.2.1 ++ after } ∧
      (out.2.2 = some .tooManyRequests ↔
        RateLimit.answer settings.rateLimitMaxRequests t (.incr (limiterKey client) o) =
          some true) := by
  intro out
  have hreplace := h.replace hcalls (c := ⟨limiterKey client, .incr⟩) rfl
  have hmem := (hreplace []).1
  have hreplyStore : RateLimit.incrReply t.store t.now (limiterKey client) =
      RateLimit.incrReply (counters s.keys) s.now (limiterKey client) := by
    rw [h.store, h.now]
  obtain ⟨keys', hincr, hkeys', -⟩ := incr_eq s.now (htyped.not_text client)
  rw [← hreplyStore] at hincr
  have hstore : RateLimit.incr t.store t.now (limiterKey client) = counters keys' := by
    rw [hkeys', h.store, h.now]
  cases o with
  | failed =>
    refine ⟨{ t with calls := t.calls.erase ⟨limiterKey client, .incr⟩ }, ?_,
      ⟨h.now, h.store, (hreplace [.get route]).2⟩, ?_⟩
    · simp [RateLimit.step, hmem]
    · simp [out, advance, RateLimit.answer]
  | lost =>
    have hout : out = (keys', [.get route], none) := by
      simp only [out, advance, hincr, Option.map_some, Option.getD_some]
    refine ⟨{ t with
      store := RateLimit.incr t.store t.now (limiterKey client)
      calls := t.calls.erase ⟨limiterKey client, .incr⟩ }, ?_, ⟨h.now, ?_, ?_⟩, ?_⟩
    · simp [RateLimit.step, hmem]
    · rw [hout]
      exact hstore
    · rw [hout]
      exact (hreplace [.get route]).2
    · simp [hout, RateLimit.answer]
  | replied =>
    by_cases hone : RateLimit.incrReply t.store t.now (limiterKey client) = 1
    · have hout : out = (keys', [.expire client route], none) := by
        simp only [out, advance, hincr, if_pos hone]
      refine ⟨{ t with
        store := RateLimit.incr t.store t.now (limiterKey client)
        calls := ⟨limiterKey client, .expire⟩ :: t.calls.erase ⟨limiterKey client, .incr⟩ }, ?_,
        ⟨h.now, ?_, ?_⟩, ?_⟩
      · simp [RateLimit.step, hmem, hone]
      · rw [hout]
        exact hstore
      · rw [hout]
        exact (hreplace [.expire client route]).2
      · simp [hout, RateLimit.answer, hone]
    · have hout : out = (keys', verdict settings
          (RateLimit.incrReply t.store t.now (limiterKey client)) route) := by
        simp only [out, advance, hincr, if_neg hone]
      obtain ⟨hnext, hresponse⟩ := verdict_limiter settings
        (RateLimit.incrReply t.store t.now (limiterKey client)) route
      refine ⟨{ t with
        store := RateLimit.incr t.store t.now (limiterKey client)
        calls := t.calls.erase ⟨limiterKey client, .incr⟩ }, ?_, ⟨h.now, ?_, ?_⟩, ?_⟩
      · simp [RateLimit.step, hmem, hone]
      · rw [hout]
        exact hstore
      · rw [hout]
        have hperm := (hreplace (verdict settings
          (RateLimit.incrReply t.store t.now (limiterKey client)) route).1).2
        rwa [hnext, List.nil_append] at hperm
      · rw [hout, hresponse]
        simp [RateLimit.answer, hone]

/-- `EXPIRE` of a call. -/
theorem simulates_expire (h : Simulates t s) (htyped : Typed s.keys) {before after : List Call}
    {client : PyStr} {route : Route} (hcalls : s.calls = before ++ .expire client route :: after)
    (o : RateLimit.Outcome) :
    let out := advance py enc settings backend s (.expire client route) o
    ∃ t', RateLimit.step settings.rateLimitWindowSeconds t (.expire (limiterKey client) o) = some t' ∧
      Simulates t' { s with keys := out.1, calls := before ++ out.2.1 ++ after } ∧
      (out.2.2 = some .tooManyRequests ↔
        RateLimit.answer settings.rateLimitMaxRequests t (.expire (limiterKey client) o) =
          some true) := by
  intro out
  have hreplace := h.replace hcalls (c := ⟨limiterKey client, .expire⟩) rfl
  have hmem := (hreplace []).1
  have hstore : RateLimit.expire t.store t.now (limiterKey client)
      (settings.rateLimitWindowSeconds * 1000) =
      counters (expire s.keys s.now (limiterKey client)
        (settings.rateLimitWindowSeconds * 1000)) := by
    rw [counters_expire (htyped.not_text client), h.store, h.now]
  cases o with
  | failed =>
    refine ⟨{ t with calls := t.calls.erase ⟨limiterKey client, .expire⟩ }, ?_,
      ⟨h.now, h.store, (hreplace [.get route]).2⟩, ?_⟩
    · simp [RateLimit.step, hmem]
    · simp [out, advance, RateLimit.answer]
  | lost =>
    refine ⟨{ t with
      store := RateLimit.expire t.store t.now (limiterKey client)
        (settings.rateLimitWindowSeconds * 1000)
      calls := t.calls.erase ⟨limiterKey client, .expire⟩ }, ?_,
      ⟨h.now, hstore, (hreplace [.get route]).2⟩, ?_⟩
    · simp [RateLimit.step, hmem]
    · simp [out, advance, RateLimit.answer]
  | replied =>
    obtain ⟨hnext, hresponse⟩ := verdict_limiter settings 1 route
    refine ⟨{ t with
      store := RateLimit.expire t.store t.now (limiterKey client)
        (settings.rateLimitWindowSeconds * 1000)
      calls := t.calls.erase ⟨limiterKey client, .expire⟩ }, ?_, ⟨h.now, hstore, ?_⟩, ?_⟩
    · simp [RateLimit.step, hmem]
    · have hperm := (hreplace (verdict settings 1 route).1).2
      rwa [hnext, List.nil_append] at hperm
    · simp only [out, advance, hresponse]
      simp [RateLimit.answer]

variable (py enc settings backend) in
/-- The commands of the cache and the queries are nothing to the limiter. -/
theorem advance_other (htyped : Typed s.keys) {call : Call} (hcall : call.limiter = none)
    (o : RateLimit.Outcome) :
    let out := advance py enc settings backend s call o
    counters out.1 = counters s.keys ∧ out.2.1.filterMap Call.limiter = [] ∧
      out.2.2 ≠ some .tooManyRequests := by
  intro out
  cases call with
  | incr client route | expire client route => cases hcall
  | get route =>
    cases o with
    | failed | lost => exact ⟨rfl, rfl, fun h => by cases h⟩
    | replied =>
      simp only [out, advance]
      split <;> exact ⟨rfl, rfl, fun h => by cases h⟩
  | fetch route =>
    cases o with
    | failed | lost => exact ⟨rfl, rfl, fun h => by cases h⟩
    | replied =>
      simp only [out, advance]
      split <;> exact ⟨rfl, rfl, fun h => by cases h⟩
  | set route data =>
    have hstore : counters (store enc settings s.keys s.now route data) = counters s.keys := by
      obtain hkeys | ⟨-, hkeys⟩ := store_cases enc settings s.keys s.now route data
      · rw [hkeys]
      · rw [hkeys]
        exact counters_update_text (htyped.not_count route)
    cases o with
    | failed => exact ⟨rfl, rfl, fun h => by cases h⟩
    | replied | lost => exact ⟨hstore, rfl, fun h => by cases h⟩

/-- One event is one event of the limiter alone, or none, with the same verdict. -/
theorem Simulates.step (h : Simulates t s) (htyped : Typed s.keys)
    (hstep : Step py enc settings backend s e response s') :
    ∃ t', RateLimit.run settings.rateLimitWindowSeconds t e.limiter.toList = some t' ∧
      Simulates t' s' ∧ (response = some .tooManyRequests ↔
        ∃ le ∈ e.limiter, RateLimit.answer settings.rateLimitMaxRequests t le = some true) := by
  cases hstep with
  | tick ms =>
    refine ⟨{ t with now := t.now + ms }, rfl, ⟨by simp [h.now], h.store, h.calls⟩, ?_⟩
    simp [Event.limiter, RateLimit.answer]
  | write db =>
    refine ⟨t, rfl, ⟨h.now, h.store, h.calls⟩, ?_⟩
    simp [Event.limiter]
  | request client route =>
    refine ⟨{ t with calls := ⟨limiterKey client, .incr⟩ :: t.calls }, rfl,
      ⟨h.now, h.store, h.calls.cons _⟩, ?_⟩
    simp [Event.limiter, RateLimit.answer]
  | @stop before after call hcalls =>
    cases hcall : call.limiter with
    | none =>
      refine ⟨t, by simp [Event.limiter, hcall, RateLimit.run], ⟨h.now, h.store, ?_⟩, ?_⟩
      · have hperm := h.calls
        rwa [hcalls, List.filterMap_append, List.filterMap_cons_none hcall, ← List.filterMap_append]
          at hperm
      · simp [Event.limiter, hcall]
    | some c =>
      obtain ⟨hmem, hperm⟩ := h.replace hcalls hcall []
      refine ⟨{ t with calls := t.calls.erase c }, ?_, ⟨h.now, h.store, by simpa using hperm⟩, ?_⟩
      · simp [Event.limiter, hcall, RateLimit.run, RateLimit.step, hmem]
      · simp [Event.limiter, hcall, RateLimit.answer]
  | @command before after call o hcalls =>
    cases hcall : call.limiter with
    | none =>
      obtain ⟨hcounters, hnext, hresponse⟩ := advance_other py enc settings backend htyped hcall o
      refine ⟨t, by simp [Event.limiter, hcall, RateLimit.run],
        ⟨h.now, h.store.trans hcounters.symm, ?_⟩, ?_⟩
      · have hperm := h.calls
        rw [hcalls] at hperm
        simpa [List.filterMap_append, hnext, hcall] using hperm
      · simp [hresponse, Event.limiter, hcall]
    | some c =>
      cases call with
      | incr client route =>
        obtain ⟨t', hstep, hsim, hverdict⟩ := simulates_incr h htyped hcalls o
        refine ⟨t', by simp [Event.limiter, Call.limiter, RateLimit.run, hstep], hsim, ?_⟩
        rw [hverdict]
        simp [Event.limiter, Call.limiter]
      | expire client route =>
        obtain ⟨t', hstep, hsim, hverdict⟩ := simulates_expire h htyped hcalls o
        refine ⟨t', by simp [Event.limiter, Call.limiter, RateLimit.run, hstep], hsim, ?_⟩
        rw [hverdict]
        simp [Event.limiter, Call.limiter]
      | get route | fetch route | set route data => cases hcall

def limiterEvents (done : List (Event δ × Option Response)) : List (RateLimit.Event PyStr) :=
  done.filterMap fun p => p.1.limiter

theorem simulates_of_run {now : Int} {db : δ}
    (hrun : Run py enc settings backend (State.initial now db) done s) :
    ∃ t, RateLimit.run settings.rateLimitWindowSeconds (RateLimit.State.initial now)
      (limiterEvents done) = some t ∧ Simulates t s := by
  induction hrun with
  | start => exact ⟨_, rfl, ⟨rfl, rfl, .nil⟩⟩
  | @step done s e response s' hrun hstep ih =>
    obtain ⟨t, ht, hsim⟩ := ih
    obtain ⟨t', ht', hsim', -⟩ := hsim.step (inv_of_run hrun).typed hstep
    refine ⟨t', ?_, hsim'⟩
    rw [limiterEvents, List.filterMap_append, RateLimit.run_append]
    change (RateLimit.run _ _ (limiterEvents done)).bind _ = _
    rw [ht, Option.bind_some]
    cases hlimiter : e.limiter <;> simpa [hlimiter] using ht'

/-- The cache does not show through to the limiter: in every run the requests are answered with 429 as
if the limiter had Redis to itself. -/
theorem limited {now : Int} {db : δ}
    (hrun : Run py enc settings backend (State.initial now db) done s)
    (hstep : Step py enc settings backend s e response s') :
    ∃ t, RateLimit.run settings.rateLimitWindowSeconds (RateLimit.State.initial now)
        (limiterEvents done) = some t ∧ Simulates t s ∧
      (response = some .tooManyRequests ↔
        ∃ le ∈ e.limiter, RateLimit.answer settings.rateLimitMaxRequests t le = some true) := by
  obtain ⟨t, ht, hsim⟩ := simulates_of_run hrun
  obtain ⟨-, -, -, hverdict⟩ := hsim.step (inv_of_run hrun).typed hstep
  exact ⟨t, ht, hsim, hverdict⟩

end Limiter

/-- A single request, which the limiter answers with 429. -/
theorem limited_strict :
    let client := lit "10.0.0.7"
    let s₀ : State Unit := State.initial 0 ()
    let s₁ : State Unit := { s₀ with calls := [.incr client .summary] }
    let s₂ : State Unit := { s₁ with
      keys := Function.update s₀.keys (limiterKey client) (some ⟨.count 1, none⟩)
      calls := [.expire client .summary] }
    ∃ s₃, Step cpython integralEncoders strictSettings emptyBackend s₂
        (.command (.expire client .summary) .replied) (some .tooManyRequests) s₃ ∧
      ∃ t, RateLimit.run 60 (RateLimit.State.initial 0)
          [.request (limiterKey client), .incr (limiterKey client) .replied] = some t ∧
        RateLimit.answer 0 t (.expire (limiterKey client) .replied) = some true := by
  intro client s₀ s₁ s₂
  have hrequest : Step cpython integralEncoders strictSettings emptyBackend s₀
      (.request client .summary) none s₁ := .request client .summary
  have hincr : Step cpython integralEncoders strictSettings emptyBackend s₁
      (.command (.incr client .summary) .replied) none s₂ :=
    .command .replied (show s₁.calls = [] ++ _ :: [] from rfl)
  have hexpire : Step cpython integralEncoders strictSettings emptyBackend s₂
      (.command (.expire client .summary) .replied) (some .tooManyRequests) _ :=
    .command .replied (show s₂.calls = [] ++ _ :: [] from rfl)
  obtain ⟨t, ht, -, hverdict⟩ := limited (.step (.step .start hrequest) hincr) hexpire
  obtain ⟨le, hle, hanswer⟩ := hverdict.mp rfl
  obtain rfl := Option.some.inj hle
  exact ⟨_, hexpire, t, ht, hanswer⟩

end Clickstream.Serving
