import Clickstream.Producer
import Clickstream.Python.Strftime

/-! The clickstream simulator.  A generator of random numbers, which its seed determines, decides
everything about the events but their time, which starts at the clock of the process. -/

namespace Clickstream.Simulator

open Python Schema Kit Kit.Regex

/-- `random.Random`: the seed determines the state, and the state what a method returns. `random`
returns a multiple of `2 ^ -53`, and `choices` an index into the weights. -/
structure Random (σ : Type) where
  init : Int → σ
  getrandbits : (k : Nat) → StateM σ (Fin (2 ^ k))
  random : StateM σ (Fin (2 ^ 53))
  randint : (a b : Nat) → a ≤ b → StateM σ {n : Nat // a ≤ n ∧ n ≤ b}
  choices : (weights : List Rat) → weights ≠ [] → StateM σ (Fin weights.length)

def userPoolSize : Nat := 5000

def productPoolSize : Nat := 200

def sessionMinEvents : Nat := 3

def sessionMaxEvents : Nat := 20

/-- A dict of weights. -/
structure Weights where
  entries : List (PyStr × Rat)
  ne_nil : entries.map Prod.snd ≠ []

def pageWeights : Weights where
  entries := [(lit "/home", 25), (lit "/search", 15), (lit "/product", 30), (lit "/cart", 10),
    (lit "/checkout", 5), (lit "/account", 8), (lit "/help", 7)]
  ne_nil := List.cons_ne_nil _ _

def deviceWeights : Weights where
  entries := [(lit "mobile", 55), (lit "desktop", 35), (lit "tablet", 10)]
  ne_nil := List.cons_ne_nil _ _

def regionWeights : Weights where
  entries := [(lit "us-west", 40), (lit "us-east", 20), (lit "eu-west", 15),
    (lit "ap-southeast", 10), (lit "eu-central", 10), (lit "sa-east", 5)]
  ne_nil := List.cons_ne_nil _ _

def campaignWeights : Weights where
  entries := (lit "organic", 40) ::
    (List.range' 1 8).map fun i => (lit "c-" ++ intText i, 15 / 2)
  ne_nil := List.cons_ne_nil _ _

def referrerWeights : Weights where
  entries := [(lit "google", 30), (lit "direct", 25), (lit "facebook", 15), (lit "email", 15),
    (lit "ads", 15)]
  ne_nil := List.cons_ne_nil _ _

def funnelNext : List (PyStr × PyStr) :=
  [(lit "/home", lit "/product"), (lit "/search", lit "/product"), (lit "/product", lit "/cart"),
    (lit "/cart", lit "/checkout"), (lit "/checkout", lit "/checkout"), (lit "/account", lit "/home"),
    (lit "/help", lit "/home")]

/-- The double nearest to `n / 100`, for `50 ≤ n < 100`, as a multiple of `2 ^ -53`. -/
def hundredths (n : Nat) : Nat := (n * 2 ^ 53 + 50) / 100

/-- `str(uuid.UUID(int=n))`. -/
def uuidText (n : Nat) : PyStr :=
  let digits := hex 32 n
  digits.take 8 ++ chr '-' :: (digits.drop 8).take 4 ++ chr '-' :: (digits.drop 12).take 4 ++
    chr '-' :: (digits.drop 16).take 4 ++ chr '-' :: digits.drop 20

/-! ### Draws -/

section Draws

variable {σ : Type} (rng : Random σ)

/-- `_pick`. -/
def pick (weights : Weights) : StateM σ PyStr := do
  let i ← rng.choices (weights.entries.map Prod.snd) weights.ne_nil
  return (weights.entries.get (i.cast (List.length_map ..))).1

def userWeights : List Rat := (List.range userPoolSize).map fun i => 1 / (i + 1 : Nat)

theorem userWeights_ne_nil : userWeights ≠ [] := by
  rw [Ne, ← List.length_eq_zero_iff, userWeights, List.length_map, List.length_range]
  decide

/-- `_pick_user`. -/
def pickUser : StateM σ PyStr := do
  let i ← rng.choices userWeights userWeights_ne_nil
  return lit "u-" ++ decimal 4 (i + 1)

/-- `_expand_page`. -/
def expandPage (page : PyStr) : StateM σ PyStr :=
  if page = lit "/product" then do
    let n ← rng.randint 1 productPoolSize (by decide)
    return lit "/product/" ++ intText n.val
  else return page

def pickAndExpandPage : StateM σ PyStr := do
  let page ← pick rng pageWeights
  expandPage rng page

/-- `_first_page`. -/
def firstPage : StateM σ PyStr := do
  let roll ← rng.random
  if roll.val < hundredths 70 then return lit "/home"
  else if roll.val < hundredths 90 then
    let n ← rng.randint 1 productPoolSize (by decide)
    return lit "/product/" ++ intText n.val
  else pickAndExpandPage rng

def pageCategory (page : PyStr) : PyStr :=
  if (productPageRe.matchStart page).isSome then lit "/product" else page

/-- `_next_page`. -/
def nextPage (current : PyStr) : StateM σ PyStr := do
  let roll ← rng.random
  if roll.val < hundredths 50 then return current
  else if roll.val < hundredths 85 then
    match funnelNext.lookup (pageCategory current) with
    | some next => expandPage rng next
    | none => pickAndExpandPage rng
  else pickAndExpandPage rng

/-- The weights of `_pick_event_type` on a page. -/
def eventTypeWeights (page : PyStr) : Weights where
  entries := (lit "page_view", 70) :: (lit "click", 25) ::
    ((if page ∈ [lit "/product", lit "/cart", lit "/checkout"] ∨
        (productPageRe.matchStart page).isSome then [(lit "add_to_cart", 3)] else []) ++
      if page = lit "/checkout" then [(lit "purchase", 2)] else [])
  ne_nil := List.cons_ne_nil _ _

/-- What the events of a session share. -/
structure Session where
  userId : PyStr
  sessionId : PyStr
  device : PyStr
  region : PyStr
  campaignId : PyStr
  referrer : PyStr

/-- A new session, its first page and its number of events. -/
def newSession :
    StateM σ (Session × PyStr × {n : Nat // sessionMinEvents ≤ n ∧ n ≤ sessionMaxEvents}) := do
  let userId ← pickUser rng
  let bits ← rng.getrandbits 128
  let device ← pick rng deviceWeights
  let region ← pick rng regionWeights
  let campaignId ← pick rng campaignWeights
  let referrer ← pick rng referrerWeights
  let page ← firstPage rng
  let length ← rng.randint sessionMinEvents sessionMaxEvents (by decide)
  return (⟨userId, lit "s-" ++ (hex 32 bits.val).take 12, device, region, campaignId, referrer⟩, page,
    length)

end Draws

/-! ### Events -/

/-- `timedelta(seconds=1.0 / rate)` in microseconds, rounded half to even. -/
def stepMicros (rate : Nat) : Nat :=
  let q := 1000000 / rate
  let r := 1000000 % rate
  if 2 * r < rate ∨ 2 * r = rate ∧ q % 2 = 0 then q else q + 1

theorem stepMicros_le {rate : Nat} (h : 0 < rate) : stepMicros rate ≤ 1000000 := by
  have hq : 1000000 / rate ≤ 1000000 := Nat.div_le_self ..
  simp only [stepMicros]
  split
  · exact hq
  · rename_i hround
    have hrate : rate ≠ 1 := by
      rintro rfl
      exact hround (.inl (by omega))
    have hhalf : 1000000 / rate ≤ 1000000 / 2 := Nat.div_le_div_left (by omega) (by decide)
    omega

/-- Why a generator stops: an event is not valid, or the clock leaves year 9999. -/
inductive Stop where
  | raised (exc : Exc)
  | overflow

/-- What a generator yields until it returns or raises. -/
structure Yields (α : Type) where
  events : List ClickEvent
  result : Except Stop α

section Events

variable {σ : Type} (py : Interpreter) (rng : Random σ) {rate : Nat} (hrate : 0 < rate)

def eventAt (session : Session) (page eventType : PyStr) (bits : Fin (2 ^ 128)) (clock : Clock) :
    Event where
  eventId := uuidText bits.val
  eventType := eventType
  userId := session.userId
  sessionId := session.sessionId
  ts := strftime clock.moment tsFormat
  page := page
  device := session.device
  region := session.region
  campaignId := session.campaignId
  referrer := session.referrer

/-- The rest of `_generate_session`, with `n` events to come. The clock moves on when the event
behind the last one is asked for. -/
def sessionEvents (session : Session) : Nat → PyStr → σ → Clock → Yields (σ × Clock)
  | 0, _, s, clock => ⟨[], .ok (s, clock)⟩
  | n + 1, page, s, clock =>
    let bits := rng.getrandbits 128 s
    let eventType := pick rng (eventTypeWeights page) bits.2
    match ClickEvent.make py (eventAt session page eventType.1 bits.1 clock) with
    | .error exc => ⟨[], .error (.raised exc)⟩
    | .ok event =>
      match clock.add (stepMicros rate) (stepMicros_le hrate) with
      | none => ⟨[event], .error .overflow⟩
      | some clock' =>
        let next := nextPage rng page eventType.2
        let rest := sessionEvents session n next.1 next.2 clock'
        ⟨event :: rest.events, rest.result⟩

/-- The first `n` sessions of `iter_events`. -/
def iterEvents : Nat → σ → Clock → Yields (σ × Clock)
  | 0, s, clock => ⟨[], .ok (s, clock)⟩
  | n + 1, s, clock =>
    let start := newSession rng s
    let first := sessionEvents py rng hrate start.1.1 start.1.2.2.val start.1.2.1 start.2 clock
    match first.result with
    | .error stop => ⟨first.events, .error stop⟩
    | .ok (s', clock') =>
      let rest := iterEvents n s' clock'
      ⟨first.events ++ rest.events, rest.result⟩

/-- The first `n` events of a simulator that is built at the moment `start`; no session is empty, so
`n` sessions have them. -/
def firstEvents (seed : Int) (start : DateTime) (n : Nat) : List ClickEvent :=
  (iterEvents py rng hrate n (rng.init seed) ⟨start, 0, by decide⟩).events.take n

variable {py} in
theorem fields_of_make {e : Event} {event : ClickEvent} (h : ClickEvent.make py e = .ok event) :
    event.fields = e := by
  rw [ClickEvent.make] at h
  split at h
  · cases h
    rfl
  · cases h

theorem iterEvents_prefix {m n : Nat} (h : m ≤ n) (s : σ) (clock : Clock) :
    (iterEvents py rng hrate m s clock).events <+: (iterEvents py rng hrate n s clock).events := by
  induction m generalizing n s clock with
  | zero => exact List.nil_prefix
  | succ m ih =>
    obtain ⟨n, rfl⟩ : ∃ k, n = k + 1 := ⟨n - 1, by omega⟩
    rw [iterEvents, iterEvents]
    split
    · exact List.prefix_refl _
    · exact (List.prefix_append_right_inj _).mpr (ih (by omega) _ _)

/-- A simulator that runs longer yields the same events first. -/
theorem firstEvents_prefix {m n : Nat} (h : m ≤ n) (seed : Int) (start : DateTime) :
    firstEvents py rng hrate seed start m <+: firstEvents py rng hrate seed start n := by
  have hprefix := iterEvents_prefix py rng hrate h (rng.init seed) ⟨start, 0, by decide⟩
  rw [firstEvents, firstEvents, List.prefix_take_iff]
  refine ⟨(List.take_prefix _ _).trans hprefix, ?_⟩
  exact (List.length_take_le _ _).trans h

/-- The first event of a session, unless it is not valid and the generator raises. -/
theorem sessionEvents_succ (session : Session) (n : Nat) (page : PyStr) (s : σ) (clock : Clock) :
    (∃ rest, (sessionEvents py rng hrate session (n + 1) page s clock).events.map ClickEvent.fields =
      eventAt session page (pick rng (eventTypeWeights page) (rng.getrandbits 128 s).2).1
        (rng.getrandbits 128 s).1 clock :: rest) ∨
    ∃ stop, sessionEvents py rng hrate session (n + 1) page s clock = ⟨[], .error stop⟩ := by
  rw [sessionEvents]
  cases hmake : ClickEvent.make py (eventAt session page
      (pick rng (eventTypeWeights page) (rng.getrandbits 128 s).2).1
      (rng.getrandbits 128 s).1 clock) with
  | error exc => exact .inr ⟨_, rfl⟩
  | ok event =>
    refine .inl ?_
    simp only
    rw [← fields_of_make hmake]
    split
    · exact ⟨[], rfl⟩
    · exact ⟨_, rfl⟩

/-- The identifier of the first event depends on the seed alone; its time is the start. -/
theorem exists_first_eventId (seed : Int) : ∃ id, ∀ start n e rest,
    firstEvents py rng hrate seed start n = e :: rest →
      e.fields.eventId = id ∧ e.fields.ts = strftime start tsFormat := by
  refine ⟨uuidText (rng.getrandbits 128 (newSession rng (rng.init seed)).2).1.val,
    fun start n e rest he => ?_⟩
  rw [firstEvents] at he
  cases n with
  | zero => cases he
  | succ n =>
    obtain ⟨k, hk⟩ : ∃ k, (newSession rng (rng.init seed)).1.2.2.val = k + 1 := by
      have hlength := (newSession rng (rng.init seed)).1.2.2.property.1
      exact ⟨_, (Nat.succ_pred_eq_of_pos (Nat.lt_of_lt_of_le (by decide) hlength)).symm⟩
    rw [iterEvents, hk] at he
    rcases sessionEvents_succ py rng hrate (newSession rng (rng.init seed)).1.1 k
      (newSession rng (rng.init seed)).1.2.1 (newSession rng (rng.init seed)).2 ⟨start, 0, by decide⟩
      with ⟨tail, hfirst⟩ | ⟨stop, hstop⟩
    · obtain ⟨event, events, hevents, hfields, -⟩ := List.map_eq_cons_iff.mp hfirst
      rw [hevents] at he
      have hhead : e = event := by
        split at he
        · exact (List.cons.inj he).1.symm
        · exact (List.cons.inj he).1.symm
      rw [hhead, hfields]
      exact ⟨rfl, rfl⟩
    · rw [hstop] at he
      cases he

end Events

end Clickstream.Simulator
