import Mathlib.Data.List.Basic
import Clickstream.Python.Text

/-! The fixed-window rate limiter over Redis.  A call counts itself with `INCR` and, when its key is
new, sets the expiry with a second command, `EXPIRE`.  Requests run concurrently, each command may fail
or lose its reply, and the process may stop between the two. -/

namespace Clickstream.RateLimit

open Python

/-! ### Redis -/

/-- A counter, and the moment from which on it is gone. -/
structure Counter where
  count : Nat
  expiry : Option Int
  deriving DecidableEq

abbrev Store (κ : Type) := κ → Option Counter

section Redis

variable {κ : Type} [DecidableEq κ]

/-- The counter of a key at the moment `now`; an expired key is absent. -/
def live (store : Store κ) (now : Int) (key : κ) : Option Counter :=
  (store key).filter fun c =>
    match c.expiry with
    | none => true
    | some t => decide (now < t)

def incrReply (store : Store κ) (now : Int) (key : κ) : Nat :=
  match live store now key with
  | none => 1
  | some c => c.count + 1

/-- `INCR`, which creates a key without expiry and keeps the expiry of one that exists. -/
def incr (store : Store κ) (now : Int) (key : κ) : Store κ :=
  Function.update store key (some ⟨incrReply store now key, (live store now key).bind Counter.expiry⟩)

/-- `EXPIRE`, with the time to live in milliseconds. -/
def expire (store : Store κ) (now : Int) (key : κ) (ttl : Int) : Store κ :=
  match live store now key with
  | none => store
  | some c => Function.update store key (some { c with expiry := some (now + ttl) })

end Redis

/-! ### Calls -/

/-- The command that a call of `rate_limit_exceeded` sends next. -/
inductive Phase where
  | incr
  | expire
  deriving DecidableEq

structure Call (κ : Type) where
  key : κ
  phase : Phase
  deriving DecidableEq

/-- How a command ends: with its reply, with an exception before it took effect, or with an exception
behind it. -/
inductive Outcome where
  | replied
  | failed
  | lost
  deriving DecidableEq

/-- The clock, the keys and the calls in progress. -/
structure State (κ : Type) where
  now : Int
  store : Store κ
  calls : List (Call κ)

inductive Event (κ : Type) where
  | tick (ms : Nat)
  | request (key : κ)
  | incr (key : κ) (o : Outcome)
  | expire (key : κ) (o : Outcome)
  | stop (call : Call κ)
  deriving DecidableEq

def State.initial {κ : Type} (now : Int) : State κ := ⟨now, fun _ => none, []⟩

section Limiter

variable {κ : Type} [DecidableEq κ] (maxRequests windowSeconds : Int)

def State.live (s : State κ) (key : κ) : Option Counter := RateLimit.live s.store s.now key

/-- `count > max_requests` -/
def exceeded (count : Nat) : Bool := decide (maxRequests < count)

/-- One event; `none` when there is no call in progress that it belongs to. -/
def step (s : State κ) : Event κ → Option (State κ)
  | .tick ms => some { s with now := s.now + ms }
  | .request key => some { s with calls := ⟨key, .incr⟩ :: s.calls }
  | .incr key o =>
    if ⟨key, .incr⟩ ∈ s.calls then
      let calls := s.calls.erase ⟨key, .incr⟩
      match o with
      | .replied => some { s with
          store := incr s.store s.now key
          calls := if incrReply s.store s.now key = 1 then ⟨key, .expire⟩ :: calls else calls }
      | .failed => some { s with calls := calls }
      | .lost => some { s with store := incr s.store s.now key, calls := calls }
    else none
  | .expire key o =>
    if ⟨key, .expire⟩ ∈ s.calls then
      let calls := s.calls.erase ⟨key, .expire⟩
      match o with
      | .failed => some { s with calls := calls }
      | _ => some { s with store := expire s.store s.now key (windowSeconds * 1000), calls := calls }
    else none
  | .stop call => if call ∈ s.calls then some { s with calls := s.calls.erase call } else none

/-- What the call of an event returns, when the event ends it: `true` is answered with 429. An
exception makes the limiter fail open. -/
def answer (s : State κ) : Event κ → Option Bool
  | .incr key .replied =>
    if incrReply s.store s.now key = 1 then none
    else some (exceeded maxRequests (incrReply s.store s.now key))
  | .expire _ .replied => some (exceeded maxRequests 1)
  | .incr _ _ | .expire _ _ => some false
  | .tick _ | .request _ | .stop _ => none

def run (s : State κ) : List (Event κ) → Option (State κ)
  | [] => some s
  | e :: es => (step windowSeconds s e).bind fun s' => run s' es

/-! ### The expiry of a key -/

/-- After an event that is not safe for a key the key has no expiry and none is on its way: `INCR`
created it and lost its reply, `EXPIRE` took no effect, or the process stopped in front of it. -/
def Safe (key : κ) (s : State κ) : Event κ → Prop
  | .incr k o => k = key → o = .lost → s.live key ≠ none
  | .expire k o => k = key → o ≠ .failed
  | .stop call => call ≠ ⟨key, .expire⟩
  | .tick _ | .request _ => True

instance (key : κ) (s : State κ) : (e : Event κ) → Decidable (Safe key s e)
  | .incr k o => inferInstanceAs (Decidable (k = key → o = .lost → s.live key ≠ none))
  | .expire k o => inferInstanceAs (Decidable (k = key → o ≠ .failed))
  | .stop call => inferInstanceAs (Decidable (call ≠ ⟨key, .expire⟩))
  | .tick _ | .request _ => isTrue trivial

def SafeRun (key : κ) (s : State κ) (events : List (Event κ)) : Prop :=
  ∀ before e after s', events = before ++ e :: after → run windowSeconds s before = some s' →
    Safe key s' e

def Expires (key : κ) (s : State κ) : Prop :=
  ∀ c, s.live key = some c → ∃ t, c.expiry = some t ∧ t ≤ s.now + windowSeconds * 1000

/-- When no `INCR` of the key comes for a window, the request behind it is not answered with 429. -/
def Recovers (key : κ) (s : State κ) : Prop :=
  ∀ quiet s', run windowSeconds s quiet = some s' → (∀ o, .incr key o ∉ quiet) →
    s.now + windowSeconds * 1000 ≤ s'.now →
    ∀ o, answer maxRequests s' (.incr key o) ≠ some true ∧
      answer maxRequests s' (.expire key o) ≠ some true

/-- The number of calls that have to set the expiry of a key. -/
def awaiting : Option Counter → Nat
  | some ⟨_, none⟩ => 1
  | _ => 0

/-- What safe events keep: one `EXPIRE` is on its way for a key without expiry and none for any other,
a key that exists has been counted, and no expiry is further away than a window. -/
structure Inv (key : κ) (s : State κ) : Prop where
  awaited : s.calls.count ⟨key, .expire⟩ = awaiting (s.live key)
  counted : ∀ c, s.live key = some c → 1 ≤ c.count
  near : ∀ c t, s.live key = some c → c.expiry = some t → t ≤ s.now + windowSeconds * 1000

end Limiter

section Lemmas

variable {κ : Type} {store : Store κ} {now now' : Int} {key k : κ} {c : Counter}

theorem live_eq_some :
    live store now key = some c ↔ store key = some c ∧ ∀ t, c.expiry = some t → now < t := by
  rw [live, Option.filter_eq_some_iff]
  cases c.expiry with
  | none => simp
  | some t => simp

theorem live_of_no_expiry (h : live store now key = some c) (hc : c.expiry = none) (now' : Int) :
    live store now' key = some c := by
  rw [live_eq_some] at h ⊢
  refine ⟨h.1, fun t ht => ?_⟩
  rw [hc] at ht
  cases ht

theorem live_of_le (hle : now ≤ now') (h : live store now' key = some c) :
    live store now key = some c := by
  rw [live_eq_some] at h ⊢
  exact ⟨h.1, fun t ht => lt_of_le_of_lt hle (h.2 t ht)⟩

theorem awaiting_some : awaiting (some c) = 0 ↔ ∃ t, c.expiry = some t := by
  obtain ⟨n, _ | t⟩ := c
  · simp [awaiting]
  · simp [awaiting]

variable [DecidableEq κ]

theorem live_update_ne (h : key ≠ k) (o : Option Counter) :
    live (Function.update store k o) now key = live store now key := by
  rw [live, Function.update_of_ne h, live]

theorem live_incr : live (incr store now key) now key =
    some ⟨incrReply store now key, (live store now key).bind Counter.expiry⟩ := by
  rw [live_eq_some]
  refine ⟨Function.update_self .., fun t ht => ?_⟩
  obtain ⟨c, hc, hexpiry⟩ := Option.bind_eq_some_iff.mp ht
  exact (live_eq_some.mp hc).2 t hexpiry

theorem live_incr_ne (h : key ≠ k) (store : Store κ) (now : Int) :
    live (incr store now k) now key = live store now key :=
  live_update_ne h _

theorem live_expire (h : live store now key = some c) {ttl : Int} {c' : Counter}
    (h' : live (expire store now key ttl) now key = some c') :
    c' = { c with expiry := some (now + ttl) } := by
  rw [live_eq_some] at h'
  simp only [expire, h, Function.update_self] at h'
  exact (Option.some.inj h'.1).symm

theorem live_expire_ne (h : key ≠ k) (store : Store κ) (now ttl : Int) :
    live (expire store now k ttl) now key = live store now key := by
  rw [expire]
  split
  · rfl
  · exact live_update_ne h _

theorem awaiting_expire (h : live store now key ≠ none) (ttl : Int) :
    awaiting (live (expire store now key ttl) now key) = 0 := by
  obtain ⟨c, hc⟩ := Option.ne_none_iff_exists'.mp h
  cases h' : live (expire store now key ttl) now key with
  | none => rfl
  | some c' =>
    rw [live_expire hc h']
    rfl

end Lemmas

section Invariant

variable {κ : Type} [DecidableEq κ] {windowSeconds : Int} {key : κ} {s s' : State κ}

/-! ### What a step does -/

omit [DecidableEq κ] in
theorem call_ne_of_phase (k key : κ) : (⟨k, .incr⟩ : Call κ) ≠ ⟨key, .expire⟩ := by
  intro h
  injection h with _ hphase
  cases hphase

omit [DecidableEq κ] in
theorem call_ne_of_key {k : κ} (h : k ≠ key) (p q : Phase) : (⟨k, p⟩ : Call κ) ≠ ⟨key, q⟩ := by
  intro heq
  injection heq with hkey
  exact h hkey

theorem count_erase_ne {call : Call κ} (h : call ≠ ⟨key, .expire⟩) (calls : List (Call κ)) :
    (calls.erase call).count ⟨key, .expire⟩ = calls.count ⟨key, .expire⟩ :=
  List.count_erase_of_ne h.symm

theorem step_incr {k : κ} {o : Outcome} (h : step windowSeconds s (.incr k o) = some s') :
    o = .replied ∧ s' = ⟨s.now, incr s.store s.now k,
        if incrReply s.store s.now k = 1 then ⟨k, .expire⟩ :: s.calls.erase ⟨k, .incr⟩
        else s.calls.erase ⟨k, .incr⟩⟩ ∨
      o = .failed ∧ s' = ⟨s.now, s.store, s.calls.erase ⟨k, .incr⟩⟩ ∨
      o = .lost ∧ s' = ⟨s.now, incr s.store s.now k, s.calls.erase ⟨k, .incr⟩⟩ := by
  simp only [step] at h
  split at h
  case isFalse => cases h
  case isTrue =>
    cases o with
    | replied => cases h; exact .inl ⟨rfl, rfl⟩
    | failed => cases h; exact .inr (.inl ⟨rfl, rfl⟩)
    | lost => cases h; exact .inr (.inr ⟨rfl, rfl⟩)

theorem step_expire {k : κ} {o : Outcome} (h : step windowSeconds s (.expire k o) = some s') :
    ⟨k, .expire⟩ ∈ s.calls ∧
      (o = .failed ∧ s' = ⟨s.now, s.store, s.calls.erase ⟨k, .expire⟩⟩ ∨
        o ≠ .failed ∧ s' = ⟨s.now, expire s.store s.now k (windowSeconds * 1000),
          s.calls.erase ⟨k, .expire⟩⟩) := by
  simp only [step] at h
  split at h
  case isFalse => cases h
  case isTrue hmem =>
    cases o with
    | replied => cases h; exact ⟨hmem, .inr ⟨nofun, rfl⟩⟩
    | failed => cases h; exact ⟨hmem, .inl ⟨rfl, rfl⟩⟩
    | lost => cases h; exact ⟨hmem, .inr ⟨nofun, rfl⟩⟩

theorem step_stop {call : Call κ} (h : step windowSeconds s (.stop call) = some s') :
    call ∈ s.calls ∧ s' = ⟨s.now, s.store, s.calls.erase call⟩ := by
  simp only [step] at h
  split at h
  case isFalse => cases h
  case isTrue hmem => cases h; exact ⟨hmem, rfl⟩

/-- The clock moves, or nothing about the key changes, unless the event is `INCR` or `EXPIRE` of the key
or stops its `EXPIRE`. -/
theorem step_frame {e : Event κ} (hstep : step windowSeconds s e = some s')
    (hincr : ∀ o, e ≠ .incr key o) (hexpire : ∀ o, e ≠ .expire key o)
    (hstop : e ≠ .stop ⟨key, .expire⟩) :
    (∃ ms : Nat, s' = { s with now := s.now + ms }) ∨
      s'.now = s.now ∧ s'.live key = s.live key ∧
        s'.calls.count ⟨key, .expire⟩ = s.calls.count ⟨key, .expire⟩ := by
  cases e with
  | tick ms =>
    cases hstep
    exact .inl ⟨ms, rfl⟩
  | request k =>
    cases hstep
    exact .inr ⟨rfl, rfl, List.count_cons_of_ne (call_ne_of_phase k key)⟩
  | incr k o =>
    have hk : k ≠ key := fun hk => hincr o (hk ▸ rfl)
    have hlive := live_incr_ne (Ne.symm hk) s.store s.now
    have herase := count_erase_ne (call_ne_of_phase k key) s.calls
    rcases step_incr hstep with ⟨-, rfl⟩ | ⟨-, rfl⟩ | ⟨-, rfl⟩
    · refine .inr ⟨rfl, hlive, ?_⟩
      simp only
      split
      · exact (List.count_cons_of_ne (call_ne_of_key hk _ _)).trans herase
      · exact herase
    · exact .inr ⟨rfl, rfl, herase⟩
    · exact .inr ⟨rfl, hlive, herase⟩
  | expire k o =>
    have hk : k ≠ key := fun hk => hexpire o (hk ▸ rfl)
    have hlive := live_expire_ne (Ne.symm hk) s.store s.now (windowSeconds * 1000)
    have herase := count_erase_ne (call_ne_of_key hk .expire .expire) s.calls
    obtain ⟨-, ⟨-, rfl⟩ | ⟨-, rfl⟩⟩ := step_expire hstep
    · exact .inr ⟨rfl, rfl, herase⟩
    · exact .inr ⟨rfl, hlive, herase⟩
  | stop call =>
    obtain ⟨-, rfl⟩ := step_stop hstep
    exact .inr ⟨rfl, rfl, count_erase_ne (fun h => hstop (h ▸ rfl)) s.calls⟩

/-! ### What safe events keep -/

theorem Inv.frame (h : Inv windowSeconds key s) (hnow : s.now ≤ s'.now)
    (hlive : s'.live key = s.live key)
    (hcalls : s'.calls.count ⟨key, .expire⟩ = s.calls.count ⟨key, .expire⟩) :
    Inv windowSeconds key s' where
  awaited := by rw [hcalls, hlive, h.awaited]
  counted := by rw [hlive]; exact h.counted
  near c t hc ht := by
    rw [hlive] at hc
    have hnear := h.near c t hc ht
    omega

theorem Inv.initial (now : Int) : Inv windowSeconds key (State.initial now) :=
  ⟨rfl, (fun _ h => nomatch h), (fun _ _ h => nomatch h)⟩

theorem Inv.tick (h : Inv windowSeconds key s) (ms : Nat) :
    Inv windowSeconds key { s with now := s.now + ms } := by
  have hle : s.now ≤ s.now + ms := by omega
  have hback : ∀ c, live s.store (s.now + ms) key = some c → s.live key = some c :=
    fun c hc => live_of_le hle hc
  refine ⟨?_, fun c hc => h.counted c (hback c hc), fun c t hc ht => ?_⟩
  · rw [h.awaited]
    cases hlive : s.live key with
    | none =>
      cases hlater : live s.store (s.now + ms) key with
      | none => exact congrArg awaiting hlater.symm
      | some c => rw [hback c hlater] at hlive; cases hlive
    | some c =>
      cases hc : c.expiry with
      | none => exact congrArg awaiting (live_of_no_expiry hlive hc _).symm
      | some t =>
        rw [awaiting_some.mpr ⟨t, hc⟩]
        cases hlater : live s.store (s.now + ms) key with
        | none => exact congrArg awaiting hlater.symm
        | some c' =>
          have hsame := (hback c' hlater).symm.trans hlive
          cases hsame
          exact (awaiting_some.mpr ⟨t, hc⟩).symm.trans (congrArg awaiting hlater.symm)
  · have hnear := h.near c t (hback c hc) ht
    show t ≤ s.now + ms + windowSeconds * 1000
    omega

theorem Inv.incr (h : Inv windowSeconds key s) {calls : List (Call κ)}
    (hcalls : calls.count ⟨key, .expire⟩ =
      s.calls.count ⟨key, .expire⟩ + if s.live key = none then 1 else 0) :
    Inv windowSeconds key { s with store := RateLimit.incr s.store s.now key, calls := calls } := by
  have hlive : (State.mk s.now (RateLimit.incr s.store s.now key) calls).live key =
      some ⟨incrReply s.store s.now key, (s.live key).bind Counter.expiry⟩ := live_incr
  cases hbefore : s.live key with
  | none =>
    rw [hbefore, if_pos rfl, h.awaited, hbefore] at hcalls
    rw [hbefore] at hlive
    refine ⟨?_, fun c hc => ?_, fun c t hc ht => ?_⟩
    · rw [hlive]; exact hcalls
    · rw [hlive] at hc
      cases hc
      rw [State.live] at hbefore
      simp [incrReply, hbefore]
    · rw [hlive] at hc
      cases hc
      cases ht
  | some c =>
    rw [hbefore, if_neg (Option.some_ne_none c), h.awaited, hbefore] at hcalls
    rw [hbefore] at hlive
    refine ⟨?_, fun c' hc => ?_, fun c' t hc ht => ?_⟩
    · rw [hlive]
      obtain ⟨n, _ | t⟩ := c
      · exact hcalls
      · exact hcalls
    · rw [hlive] at hc
      cases hc
      rw [State.live] at hbefore
      simp [incrReply, hbefore]
    · rw [hlive] at hc
      cases hc
      exact h.near c t hbefore ht

/-- An `EXPIRE` on its way is the only one, and the key has no expiry. -/
theorem Inv.pending (h : Inv windowSeconds key s) (hmem : ⟨key, .expire⟩ ∈ s.calls) :
    s.calls.count ⟨key, .expire⟩ = 1 ∧ ∃ c, s.live key = some c ∧ c.expiry = none := by
  have hcount := List.count_pos_iff.mpr hmem
  rw [h.awaited] at hcount ⊢
  cases hlive : s.live key with
  | none =>
    rw [hlive] at hcount
    cases hcount
  | some c =>
    obtain ⟨n, _ | t⟩ := c
    · exact ⟨rfl, _, rfl, rfl⟩
    · rw [hlive] at hcount
      cases hcount

theorem Inv.expire (h : Inv windowSeconds key s) (hmem : ⟨key, .expire⟩ ∈ s.calls) :
    Inv windowSeconds key { s with
      store := RateLimit.expire s.store s.now key (windowSeconds * 1000)
      calls := s.calls.erase ⟨key, .expire⟩ } := by
  obtain ⟨hone, c, hc, -⟩ := h.pending hmem
  refine ⟨?_, fun c' hc' => ?_, fun c' t hc' ht => ?_⟩
  · have hne : live s.store s.now key ≠ none := by
      rw [← State.live, hc]
      exact Option.some_ne_none c
    refine Eq.trans ?_ (awaiting_expire hne _).symm
    rw [List.count_erase_self, hone]
  · rw [live_expire hc hc']
    exact h.counted c hc
  · rw [live_expire hc hc'] at ht
    cases ht
    exact le_refl _

theorem Inv.step_incr (h : Inv windowSeconds key s) {o : Outcome}
    (hstep : RateLimit.step windowSeconds s (.incr key o) = some s')
    (hsafe : Safe key s (.incr key o)) : Inv windowSeconds key s' := by
  have herase := count_erase_ne (call_ne_of_phase key key) s.calls
  rcases RateLimit.step_incr hstep with ⟨-, rfl⟩ | ⟨-, rfl⟩ | ⟨rfl, rfl⟩
  · apply h.incr
    cases hlive : s.live key with
    | none =>
      rw [State.live] at hlive
      simp [incrReply, hlive, herase]
    | some c =>
      have hcounted := h.counted c hlive
      have hreply : c.count + 1 ≠ 1 := by omega
      rw [State.live] at hlive
      simp only [incrReply, hlive, if_neg hreply, herase]
      rfl
  · exact h.frame (le_refl _) rfl herase
  · apply h.incr
    rw [if_neg (hsafe rfl rfl)]
    exact herase

theorem Inv.step_expire (h : Inv windowSeconds key s) {o : Outcome}
    (hstep : RateLimit.step windowSeconds s (.expire key o) = some s')
    (hsafe : Safe key s (.expire key o)) : Inv windowSeconds key s' := by
  obtain ⟨hmem, ⟨hfailed, -⟩ | ⟨-, rfl⟩⟩ := RateLimit.step_expire hstep
  · exact absurd hfailed (hsafe rfl)
  · exact h.expire hmem

theorem Inv.step (h : Inv windowSeconds key s) {e : Event κ}
    (hstep : RateLimit.step windowSeconds s e = some s') (hsafe : Safe key s e) :
    Inv windowSeconds key s' := by
  by_cases hincr : ∃ o, e = .incr key o
  · obtain ⟨o, rfl⟩ := hincr
    exact h.step_incr hstep hsafe
  by_cases hexpire : ∃ o, e = .expire key o
  · obtain ⟨o, rfl⟩ := hexpire
    exact h.step_expire hstep hsafe
  have hstop : e ≠ .stop ⟨key, .expire⟩ := by
    rintro rfl
    exact hsafe rfl
  obtain ⟨ms, rfl⟩ | ⟨hnow, hlive, hcalls⟩ :=
    step_frame hstep (not_exists.mp hincr) (not_exists.mp hexpire) hstop
  · exact h.tick ms
  · exact h.frame hnow.ge hlive hcalls

theorem Inv.expires (h : Inv windowSeconds key s) (hcalls : ⟨key, .expire⟩ ∉ s.calls) :
    Expires windowSeconds key s := by
  intro c hc
  have hawaited := h.awaited
  rw [List.count_eq_zero.mpr hcalls, hc] at hawaited
  obtain ⟨t, ht⟩ := awaiting_some.mp hawaited.symm
  exact ⟨t, ht, h.near c t hc ht⟩

/-- An event that is not safe leaves the key without expiry for good. -/
theorem Inv.not_safe (h : Inv windowSeconds key s) {e : Event κ}
    (hstep : RateLimit.step windowSeconds s e = some s') (hsafe : ¬Safe key s e) :
    ⟨key, .expire⟩ ∉ s'.calls ∧ ∃ c, s'.live key = some c ∧ c.expiry = none := by
  -- an `EXPIRE` that was pending is gone, and the key has no expiry
  have hgone : ⟨key, .expire⟩ ∈ s.calls →
      ⟨key, .expire⟩ ∉ s.calls.erase ⟨key, .expire⟩ ∧ ∃ c, s.live key = some c ∧ c.expiry = none := by
    intro hmem
    obtain ⟨hone, hexpiry⟩ := h.pending hmem
    refine ⟨?_, hexpiry⟩
    rw [← List.count_eq_zero, List.count_erase_self, hone]
  cases e with
  | tick ms => exact absurd trivial hsafe
  | request k => exact absurd trivial hsafe
  | incr k o =>
    simp only [Safe, not_forall, ne_eq, not_not] at hsafe
    obtain ⟨rfl, rfl, hlive⟩ := hsafe
    obtain ⟨ho, -⟩ | ⟨ho, -⟩ | ⟨-, rfl⟩ := RateLimit.step_incr hstep
    · cases ho
    · cases ho
    · refine ⟨?_, _, live_incr, ?_⟩
      · rw [← List.count_eq_zero, count_erase_ne (call_ne_of_phase k _), h.awaited, hlive]
        rfl
      · rw [State.live] at hlive
        rw [hlive]
        rfl
  | expire k o =>
    simp only [Safe, not_forall, ne_eq, not_not] at hsafe
    obtain ⟨rfl, rfl⟩ := hsafe
    obtain ⟨hmem, ⟨-, rfl⟩ | ⟨ho, -⟩⟩ := RateLimit.step_expire hstep
    · exact hgone hmem
    · exact absurd rfl ho
  | stop call =>
    simp only [Safe, ne_eq, not_not] at hsafe
    subst hsafe
    obtain ⟨hmem, rfl⟩ := step_stop hstep
    exact hgone hmem

end Invariant

section Runs

variable {κ : Type} [DecidableEq κ] {maxRequests windowSeconds : Int} {key : κ} {s s' : State κ}
  {events : List (Event κ)}

theorem run_cons_eq_some {e : Event κ} :
    run windowSeconds s (e :: events) = some s' ↔
      ∃ m, step windowSeconds s e = some m ∧ run windowSeconds m events = some s' := by
  rw [run, Option.bind_eq_some_iff]

theorem run_append (events' : List (Event κ)) :
    run windowSeconds s (events ++ events') =
      (run windowSeconds s events).bind fun s' => run windowSeconds s' events' := by
  induction events generalizing s with
  | nil => rfl
  | cons e events ih =>
    rw [List.cons_append, run, run, Option.bind_assoc]
    exact congrArg _ (funext fun m => ih)

theorem safeRun_nil : SafeRun windowSeconds key s [] := by
  intro before e after t heq
  cases before <;> cases heq

theorem safeRun_cons {e : Event κ} (hstep : step windowSeconds s e = some s') :
    SafeRun windowSeconds key s (e :: events) ↔
      Safe key s e ∧ SafeRun windowSeconds key s' events := by
  constructor
  · intro h
    refine ⟨h [] e events s rfl rfl, fun before e' after t heq ht => ?_⟩
    refine h (e :: before) e' after t ?_ (run_cons_eq_some.mpr ⟨s', hstep, ht⟩)
    rw [heq, List.cons_append]
  · rintro ⟨hsafe, htail⟩ before e' after t heq ht
    cases before with
    | nil =>
      cases heq
      cases ht
      exact hsafe
    | cons e₀ before =>
      cases heq
      obtain ⟨m, hm, ht'⟩ := run_cons_eq_some.mp ht
      cases hstep.symm.trans hm
      exact htail before e' after t rfl ht'

theorem Inv.run (h : Inv windowSeconds key s) (hrun : RateLimit.run windowSeconds s events = some s')
    (hsafe : SafeRun windowSeconds key s events) : Inv windowSeconds key s' := by
  induction events generalizing s with
  | nil =>
    cases hrun
    exact h
  | cons e events ih =>
    obtain ⟨m, hstep, hrest⟩ := run_cons_eq_some.mp hrun
    obtain ⟨hhead, htail⟩ := (safeRun_cons hstep).mp hsafe
    exact ih (h.step hstep hhead) hrest htail

/-- A run whose reached states all have their expiries consists of safe events. -/
theorem Inv.safeRun (h : Inv windowSeconds key s) (hrun : RateLimit.run windowSeconds s events = some s')
    (hexpires : ∀ before m, before <+: events → RateLimit.run windowSeconds s before = some m →
      ⟨key, .expire⟩ ∉ m.calls → Expires windowSeconds key m) :
    SafeRun windowSeconds key s events := by
  induction events generalizing s with
  | nil => exact safeRun_nil
  | cons e events ih =>
    obtain ⟨m, hstep, hrest⟩ := run_cons_eq_some.mp hrun
    have hsafe : Safe key s e := by
      by_contra hunsafe
      obtain ⟨hcalls, c, hc, hexpiry⟩ := h.not_safe hstep hunsafe
      obtain ⟨t, ht, -⟩ := hexpires [e] m (List.prefix_append [e] events)
        (run_cons_eq_some.mpr ⟨m, hstep, rfl⟩) hcalls c hc
      rw [hexpiry] at ht
      cases ht
    refine (safeRun_cons hstep).mpr ⟨hsafe, ih (h.step hstep hsafe) hrest fun before t hprefix ht => ?_⟩
    exact hexpires (e :: before) t ((List.prefix_cons_inj e).mpr hprefix)
      (run_cons_eq_some.mpr ⟨m, hstep, ht⟩)

theorem step_quiet {e : Event κ} (hstep : step windowSeconds s e = some s')
    (hincr : ∀ o, e ≠ .incr key o) (hcalls : ⟨key, .expire⟩ ∉ s.calls) :
    ⟨key, .expire⟩ ∉ s'.calls ∧ ∀ c, s'.live key = some c → s.live key = some c := by
  have hexpire : ∀ o, e ≠ .expire key o := by
    rintro o rfl
    exact hcalls (step_expire hstep).1
  have hstop : e ≠ .stop ⟨key, .expire⟩ := by
    rintro rfl
    exact hcalls (step_stop hstep).1
  obtain ⟨ms, rfl⟩ | ⟨-, hlive, hcount⟩ := step_frame hstep hincr hexpire hstop
  · have hle : s.now ≤ s.now + ms := by omega
    exact ⟨hcalls, fun c hc => live_of_le hle hc⟩
  · rw [← List.count_eq_zero, hcount, List.count_eq_zero]
    exact ⟨hcalls, fun c hc => hlive.symm.trans hc⟩

theorem run_quiet (hrun : run windowSeconds s events = some s') (hincr : ∀ o, .incr key o ∉ events)
    (hcalls : ⟨key, .expire⟩ ∉ s.calls) :
    ∀ c, s'.live key = some c → s.live key = some c := by
  induction events generalizing s with
  | nil =>
    cases hrun
    exact fun c hc => hc
  | cons e events ih =>
    obtain ⟨m, hstep, hrest⟩ := run_cons_eq_some.mp hrun
    obtain ⟨hcalls', hback⟩ := step_quiet hstep
      (fun o he => hincr o (he ▸ List.mem_cons_self)) hcalls
    have hincr' : ∀ o, Event.incr key o ∉ events := fun o hmem => hincr o (List.mem_cons_of_mem e hmem)
    exact fun c hc => hback c (ih hrest hincr' hcalls' c hc)

theorem Expires.live_eq_none (h : Expires windowSeconds key s)
    (hrun : run windowSeconds s events = some s') (hincr : ∀ o, .incr key o ∉ events)
    (hcalls : ⟨key, .expire⟩ ∉ s.calls) (hwindow : s.now + windowSeconds * 1000 ≤ s'.now) :
    s'.live key = none := by
  by_contra hne
  obtain ⟨c, hc⟩ := Option.ne_none_iff_exists'.mp hne
  obtain ⟨t, ht, hnear⟩ := h c (run_quiet hrun hincr hcalls c hc)
  have hbefore := (live_eq_some.mp hc).2 t ht
  omega

theorem Expires.recovers (h : Expires windowSeconds key s) (hmax : 1 ≤ maxRequests)
    (hcalls : ⟨key, .expire⟩ ∉ s.calls) : Recovers maxRequests windowSeconds key s := by
  intro quiet s' hrun hincr hwindow o
  have hnone := h.live_eq_none hrun hincr hcalls hwindow
  rw [State.live] at hnone
  cases o with
  | replied => simp [answer, incrReply, hnone, exceeded, hmax]
  | failed => simp [answer]
  | lost => simp [answer]

/-- In a run from the start, every key has its expiry when no `EXPIRE` of it is on its way, exactly
when every event is safe for it; then a quiet window ends the rejection. -/
theorem recovers_iff {now : Int} (hrun : run windowSeconds (State.initial now) events = some s)
    (key : κ) :
    (SafeRun windowSeconds key (State.initial now) events ↔
      ∀ before m, before <+: events → run windowSeconds (State.initial now) before = some m →
        ⟨key, .expire⟩ ∉ m.calls → Expires windowSeconds key m) ∧
    (SafeRun windowSeconds key (State.initial now) events → 1 ≤ maxRequests →
      ⟨key, .expire⟩ ∉ s.calls → Recovers maxRequests windowSeconds key s) := by
  have hinitial : Inv windowSeconds key (State.initial now) := .initial now
  refine ⟨⟨fun hsafe before m hprefix hm => ?_, hinitial.safeRun hrun⟩, fun hsafe hmax hcalls => ?_⟩
  · obtain ⟨rest, rfl⟩ := hprefix
    refine (hinitial.run hm fun first e after t heq ht => ?_).expires
    refine hsafe first e (after ++ rest) t ?_ ht
    rw [heq, List.append_assoc, List.cons_append]
  · exact ((hinitial.run hrun hsafe).expires hcalls).recovers hmax hcalls

end Runs

/-! ### Clients -/

/-- The key's client: the first entry of `X-Forwarded-For`, else the host of the connection. -/
def clientIp (forwarded host : Option PyStr) : PyStr :=
  match forwarded with
  | some (c :: rest) => strip ((c :: rest).takeWhile (· ≠ chr ','))
  | _ => host.getD (lit "unknown")

def rateLimitKey (forwarded host : Option PyStr) : PyStr :=
  lit "ratelimit:" ++ clientIp forwarded host

def client : PyStr := rateLimitKey none (some (lit "10.0.0.1"))

theorem recovers_iff_two_requests : ∃ s,
    run 60 (State.initial 0) [.request client, .incr client .replied, .expire client .replied,
      .request client, .incr client .replied] = some s ∧ Recovers 1 60 client s := by
  have hrun : run 60 (State.initial 0) [.request client, .incr client .replied,
      .expire client .replied, .request client, .incr client .replied] = some _ := rfl
  refine ⟨_, hrun, (recovers_iff hrun client).2 ?_ (le_refl 1) (by decide)⟩
  refine (safeRun_cons rfl).mpr ⟨trivial, (safeRun_cons rfl).mpr ⟨by decide, ?_⟩⟩
  refine (safeRun_cons rfl).mpr ⟨by decide, (safeRun_cons rfl).mpr ⟨trivial, ?_⟩⟩
  exact (safeRun_cons rfl).mpr ⟨by decide, safeRun_nil⟩

/-- The process stops between `INCR` and `EXPIRE`: no call is in progress and the key has no expiry, and
a client that is rejected is rejected again when it has been quiet for a window. -/
theorem not_recovers_always :
    (¬∀ events s, run 60 (State.initial 0) events = some s → s.calls = [] → Expires 60 client s) ∧
    ¬∀ before s rejected quiet later s', run 60 (State.initial 0) before = some s →
      answer 1 s (.incr client .replied) = some true →
      step 60 s (.incr client .replied) = some rejected → rejected.calls = [] →
      run 60 rejected quiet = some later → .request client ∉ quiet →
      rejected.now + 60 * 1000 ≤ later.now → step 60 later (.request client) = some s' →
      answer 1 s' (.incr client .replied) ≠ some true := by
  constructor
  · intro h
    obtain ⟨t, ht, -⟩ := h [.request client, .incr client .replied, .stop ⟨client, .expire⟩] _ rfl
      (by decide) ⟨1, none⟩ (by decide)
    cases ht
  · intro h
    exact h [.request client, .incr client .replied, .stop ⟨client, .expire⟩, .request client] _ _
      [.tick 60000] _ _ rfl (by decide) rfl (by decide) rfl (by decide) (by decide) rfl (by decide)

end Clickstream.RateLimit
