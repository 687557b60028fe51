import Clickstream.RateLimit

/-! How strong the limiter is when every command of Redis succeeds.  A key lives at least a window from
its creation on, and in each life the first `max_requests` calls are admitted, so that an interval of the
length of a window, which meets at most two lives, has at most twice as many. -/

namespace Clickstream.RateLimit

section Admissions

variable {κ : Type} [DecidableEq κ] (maxRequests windowSeconds : Int)

/-- The key that the command of an event is about. -/
def Event.key : Event κ → Option κ
  | .incr k _ | .expire k _ => some k
  | .tick _ | .request _ | .stop _ => none

/-- The command of the event succeeds, and no process stops. -/
def Succeeds : Event κ → Prop
  | .incr _ o | .expire _ o => o = .replied
  | .stop _ => False
  | .tick _ | .request _ => True

instance : (e : Event κ) → Decidable (Succeeds e)
  | .incr _ o | .expire _ o => inferInstanceAs (Decidable (o = .replied))
  | .stop _ => isFalse id
  | .tick _ | .request _ => isTrue trivial

/-- The events of a run, each with the state in which it takes place. -/
def trace (s : State κ) : List (Event κ) → List (State κ × Event κ)
  | [] => []
  | e :: es => (s, e) :: match step windowSeconds s e with
    | some s' => trace s' es
    | none => []

/-- A call as Redis counts it: when, whether that created the key, and the reply. -/
structure Counted where
  time : Int
  created : Bool
  reply : Nat
  deriving DecidableEq

def counted (key : κ) : State κ × Event κ → Option Counted
  | (s, .incr k .replied) =>
    if k = key then some ⟨s.now, (s.live key).isNone, incrReply s.store s.now key⟩ else none
  | _ => none

/-- The calls of a run for the key, in the order in which Redis counts them. -/
def calls (key : κ) (s : State κ) (events : List (Event κ)) : List Counted :=
  (trace windowSeconds s events).filterMap (counted key)

/-- The call returns `false`: the one that created the key when its `EXPIRE` is done, any other at
once. -/
def Counted.admitted (c : Counted) : Bool := !exceeded maxRequests c.reply

/-- A call for the key returns `false`. -/
def admits (key : κ) (p : State κ × Event κ) : Bool :=
  decide (p.2.key = some key ∧ answer maxRequests p.1 p.2 = some false)

/-- In the half-open interval of the length of a window from `a` on, in milliseconds. -/
def Within (a t : Int) : Prop := a ≤ t ∧ t < a + windowSeconds * 1000

instance (a t : Int) : Decidable (Within windowSeconds a t) := inferInstanceAs (Decidable (_ ∧ _))

/-- The limiter is as strong as a fixed window: every call belongs to a life of the key, the first
`max_requests` calls of a life and no others are admitted, and no interval of the length of a window has
more than `2 * max_requests` admissions, by the time of counting or by the time of the answer. -/
structure FixedWindow (key : κ) (s : State κ) (events : List (Event κ)) : Prop where
  verdict : ∀ p ∈ trace windowSeconds s events, ∀ c ∈ counted key p,
    answer maxRequests p.1 p.2 = if c.created then none else some (!c.admitted maxRequests)
  first : ∀ c ∈ (calls windowSeconds key s events).head?, c.created = true
  lives : ∀ before c life after, calls windowSeconds key s events = before ++ c :: (life ++ after) →
    c.created = true → (∀ c' ∈ life, c'.created = false) →
    (c :: life).map (Counted.admitted maxRequests) =
      (List.range (life.length + 1)).map fun i => decide (i < maxRequests.toNat)
  counted : ∀ a, (calls windowSeconds key s events).countP
    (fun c => decide (Within windowSeconds a c.time) && c.admitted maxRequests) ≤ 2 * maxRequests.toNat
  answered : ∀ a, (trace windowSeconds s events).countP
    (fun p => decide (Within windowSeconds a p.1.now) && admits maxRequests key p) ≤
      2 * maxRequests.toNat

end Admissions

/-! ### What a successful step does to a key -/

section Step

variable {κ : Type} [DecidableEq κ] {windowSeconds : Int} {key : κ} {s s' : State κ} {e : Event κ}

/-- A step that is not about the key leaves its entry and its pending `EXPIRE` alone; `INCR` creates the
key or counts once more; `EXPIRE` finds the key without expiry and is done. -/
inductive KeyStep (windowSeconds : Int) (key : κ) (s : State κ) : Event κ → State κ → Prop
  | other {e : Event κ} {s' : State κ} (hkey : e.key ≠ some key) (hnow : s.now ≤ s'.now)
      (hlive : s'.live key = live s.store s'.now key)
      (hcalls : ⟨key, .expire⟩ ∈ s'.calls ↔ ⟨key, .expire⟩ ∈ s.calls) :
      KeyStep windowSeconds key s e s'
  | created {s' : State κ} (hlive : s.live key = none) (hnow : s'.now = s.now)
      (hlive' : s'.live key = some ⟨1, none⟩) (hcalls : ⟨key, .expire⟩ ∈ s'.calls) :
      KeyStep windowSeconds key s (.incr key .replied) s'
  | again {s' : State κ} {c : Counter} (hlive : s.live key = some c) (hcount : 1 ≤ c.count)
      (hnow : s'.now = s.now) (hlive' : s'.live key = some ⟨c.count + 1, c.expiry⟩)
      (hcalls : ⟨key, .expire⟩ ∈ s'.calls ↔ ⟨key, .expire⟩ ∈ s.calls) :
      KeyStep windowSeconds key s (.incr key .replied) s'
  | expired {s' : State κ} {c : Counter} (hcalls : ⟨key, .expire⟩ ∈ s.calls)
      (hcalls' : ⟨key, .expire⟩ ∉ s'.calls) (hlive : s.live key = some c) (hnow : s'.now = s.now)
      (hlive' : s'.store key = some { c with expiry := some (s.now + windowSeconds * 1000) }) :
      KeyStep windowSeconds key s (.expire key .replied) s'

omit [DecidableEq κ] in
theorem incrReply_of_absent (h : s.live key = none) : incrReply s.store s.now key = 1 := by
  rw [State.live] at h
  rw [incrReply, h]

omit [DecidableEq κ] in
theorem incrReply_of_live {c : Counter} (h : s.live key = some c) :
    incrReply s.store s.now key = c.count + 1 := by
  rw [State.live] at h
  rw [incrReply, h]

omit [DecidableEq κ] in
theorem safe_of_succeeds (h : Succeeds e) : Safe key s e := by
  cases e with
  | tick ms => trivial
  | request k => trivial
  | incr k o =>
    intro _ hlost
    rw [Succeeds] at h
    rw [h] at hlost
    cases hlost
  | expire k o =>
    intro _ hfailed
    rw [Succeeds] at h
    rw [h] at hfailed
    cases hfailed
  | stop call => exact h.elim

theorem keyStep_incr (hinv : Inv windowSeconds key s)
    (hstep : step windowSeconds s (.incr key .replied) = some s') :
    KeyStep windowSeconds key s (.incr key .replied) s' := by
  have herase : ⟨key, .expire⟩ ∈ s.calls.erase ⟨key, .incr⟩ ↔ ⟨key, .expire⟩ ∈ s.calls :=
    List.mem_erase_of_ne (call_ne_of_phase key key).symm
  obtain ⟨-, rfl⟩ | ⟨hfailed, -⟩ | ⟨hlost, -⟩ := step_incr hstep
  · cases hlive : s.live key with
    | none =>
      have hreply := incrReply_of_absent hlive
      have hlive' : live (incr s.store s.now key) s.now key = some ⟨1, none⟩ := by
        rw [live_incr, hreply, ← State.live, hlive]
        rfl
      refine .created hlive rfl hlive' ?_
      simp only [if_pos hreply, List.mem_cons_self]
    | some c =>
      have hcount := hinv.counted c hlive
      have hreply := incrReply_of_live hlive
      have hlive' : live (incr s.store s.now key) s.now key = some ⟨c.count + 1, c.expiry⟩ := by
        rw [live_incr, hreply, ← State.live, hlive]
        rfl
      refine .again hlive hcount rfl hlive' ?_
      have hother : incrReply s.store s.now key ≠ 1 := by omega
      simp only [if_neg hother, herase]
  · cases hfailed
  · cases hlost

theorem keyStep_expire (hinv : Inv windowSeconds key s)
    (hstep : step windowSeconds s (.expire key .replied) = some s') :
    KeyStep windowSeconds key s (.expire key .replied) s' := by
  obtain ⟨hmem, ⟨hfailed, -⟩ | ⟨-, rfl⟩⟩ := step_expire hstep
  · cases hfailed
  · obtain ⟨hone, c, hlive, -⟩ := hinv.pending hmem
    have hgone : ⟨key, .expire⟩ ∉ s.calls.erase ⟨key, .expire⟩ := by
      rw [← List.count_eq_zero, List.count_erase_self, hone]
    refine .expired hmem hgone hlive rfl ?_
    rw [State.live] at hlive
    simp only [expire, hlive, Function.update_self]

theorem keyStep (hinv : Inv windowSeconds key s) (hsucceeds : Succeeds e)
    (hstep : step windowSeconds s e = some s') : KeyStep windowSeconds key s e s' := by
  by_cases hkey : e.key = some key
  · cases e with
    | tick ms | request k | stop call => cases hkey
    | incr k o =>
      obtain rfl : k = key := Option.some.inj hkey
      obtain rfl : o = .replied := hsucceeds
      exact keyStep_incr hinv hstep
    | expire k o =>
      obtain rfl : k = key := Option.some.inj hkey
      obtain rfl : o = .replied := hsucceeds
      exact keyStep_expire hinv hstep
  · have hincr : ∀ o, e ≠ .incr key o := by
      rintro o rfl
      exact hkey rfl
    have hexpire : ∀ o, e ≠ .expire key o := by
      rintro o rfl
      exact hkey rfl
    have hstop : e ≠ .stop ⟨key, .expire⟩ := by
      rintro rfl
      exact hsucceeds
    obtain ⟨ms, rfl⟩ | ⟨hnow, hlive, hcount⟩ := step_frame hstep hincr hexpire hstop
    · have hle : s.now ≤ s.now + ms := by omega
      exact .other hkey hle rfl Iff.rfl
    · refine .other hkey hnow.ge ?_ ?_
      · rw [hlive, hnow]
        rfl
      · rw [← List.count_pos_iff, hcount, List.count_pos_iff]

end Step

section Runs

variable {κ : Type} [DecidableEq κ] {maxRequests windowSeconds : Int} {key : κ} {s s' : State κ}
  {e : Event κ} {events : List (Event κ)}

/-- A run, as it acts on a key. -/
inductive KeyRun (windowSeconds : Int) (key : κ) : State κ → List (Event κ) → Prop
  | done {s : State κ} (hinv : Inv windowSeconds key s) : KeyRun windowSeconds key s []
  | next {s s' : State κ} {e : Event κ} {events : List (Event κ)} (hinv : Inv windowSeconds key s)
      (hstep : step windowSeconds s e = some s') (hkey : KeyStep windowSeconds key s e s')
      (hrest : KeyRun windowSeconds key s' events) : KeyRun windowSeconds key s (e :: events)

theorem keyRun (hinv : Inv windowSeconds key s) (hrun : run windowSeconds s events = some s')
    (hsucceeds : ∀ e ∈ events, Succeeds e) : KeyRun windowSeconds key s events := by
  induction events generalizing s with
  | nil => exact .done hinv
  | cons e events ih =>
    obtain ⟨m, hstep, hrest⟩ := run_cons_eq_some.mp hrun
    obtain ⟨hhead, htail⟩ := List.forall_mem_cons.mp hsucceeds
    exact .next hinv hstep (keyStep hinv hhead hstep)
      (ih (hinv.step hstep (safe_of_succeeds hhead)) hrest htail)

theorem KeyRun.mem_trace (h : KeyRun windowSeconds key s events) {p : State κ × Event κ}
    (hp : p ∈ trace windowSeconds s events) : ∃ s', KeyStep windowSeconds key p.1 p.2 s' := by
  induction h with
  | done hinv => cases hp
  | next hinv hstep hkey hrest ih =>
    rw [trace, hstep] at hp
    rcases List.mem_cons.mp hp with rfl | hp
    · exact ⟨_, hkey⟩
    · exact ih hp

theorem trace_cons (hstep : step windowSeconds s e = some s') :
    trace windowSeconds s (e :: events) = (s, e) :: trace windowSeconds s' events := by
  rw [trace, hstep]

/-! ### Lives of a key -/

theorem counted_other (h : e.key ≠ some key) : counted key (s, e) = none := by
  cases e with
  | incr k o =>
    have hk : k ≠ key := fun hk => h (congrArg some hk)
    cases o with
    | replied => exact if_neg hk
    | failed => rfl
    | lost => rfl
  | tick ms | request k | expire k o | stop call => rfl

theorem calls_cons_none (hstep : step windowSeconds s e = some s') (h : counted key (s, e) = none) :
    calls windowSeconds key s (e :: events) = calls windowSeconds key s' events := by
  rw [calls, trace_cons hstep, List.filterMap_cons_none h, ← calls]

theorem calls_cons_incr (hstep : step windowSeconds s (.incr key .replied) = some s') :
    calls windowSeconds key s (.incr key .replied :: events) =
      ⟨s.now, (s.live key).isNone, incrReply s.store s.now key⟩ ::
        calls windowSeconds key s' events := by
  have hcounted : counted key (s, .incr key .replied) = some _ := if_pos rfl
  rw [calls, trace_cons hstep, List.filterMap_cons_some hcounted, ← calls]

/-- A call that finds the key is answered at once. -/
theorem verdict (h : KeyRun windowSeconds key s events) {p : State κ × Event κ}
    (hp : p ∈ trace windowSeconds s events) {c : Counted} (hc : counted key p = some c) :
    answer maxRequests p.1 p.2 = if c.created then none else some (!c.admitted maxRequests) := by
  obtain ⟨s', hkey⟩ := h.mem_trace hp
  obtain ⟨s, e⟩ := p
  cases hkey with
  | other hkey =>
    rw [counted_other hkey] at hc
    cases hc
  | created hlive =>
    obtain rfl := Option.some.inj ((if_pos rfl).symm.trans hc)
    simp [answer, incrReply_of_absent hlive, hlive]
  | again hlive hcount =>
    obtain rfl := Option.some.inj ((if_pos rfl).symm.trans hc)
    simp [answer, Counted.admitted, incrReply_of_live hlive, hlive, Nat.ne_of_gt hcount]
  | expired => cases hc

/-- Calls that do not create the key are counted on from where it stands. -/
theorem replies_of_live (h : KeyRun windowSeconds key s events) {life after : List Counted}
    (hcalls : calls windowSeconds key s events = life ++ after)
    (hlife : ∀ c ∈ life, c.created = false) (hne : life ≠ []) :
    ∃ c, s.live key = some c ∧
      life.map Counted.reply = List.range' (c.count + 1) life.length := by
  induction h generalizing life with
  | done hinv =>
    cases life with
    | nil => exact absurd rfl hne
    | cons c life => cases hcalls
  | @next s s' e events hinv hstep hkey hrest ih =>
    cases hkey with
    | other hkey hnow hlive hcalls' =>
      rw [calls_cons_none hstep (counted_other hkey)] at hcalls
      obtain ⟨c, hc, hreplies⟩ := ih hcalls hlife hne
      exact ⟨c, live_of_le hnow (hlive.symm.trans hc), hreplies⟩
    | created hlive hnow hlive' hcalls' =>
      rw [calls_cons_incr hstep] at hcalls
      cases life with
      | nil => exact absurd rfl hne
      | cons c life =>
        obtain ⟨rfl, -⟩ := List.cons.inj hcalls
        have hcreated := hlife _ List.mem_cons_self
        simp [hlive] at hcreated
    | @again _ c hlive hcount hnow hlive' hcalls' =>
      rw [calls_cons_incr hstep] at hcalls
      cases life with
      | nil => exact absurd rfl hne
      | cons c' life =>
        obtain ⟨rfl, hrest'⟩ := List.cons.inj hcalls
        have hreply : incrReply s.store s.now key = c.count + 1 := incrReply_of_live hlive
        refine ⟨c, hlive, ?_⟩
        rw [List.map_cons, List.length_cons, List.range'_succ, hreply]
        by_cases hempty : life = []
        · rw [hempty]
          rfl
        · obtain ⟨c', hc', hreplies⟩ :=
            ih hrest' (fun c' hc' => hlife c' (List.mem_cons_of_mem _ hc')) hempty
          obtain rfl := Option.some.inj (hlive'.symm.trans hc')
          rw [hreplies]
    | @expired _ c hmem hgone hlive hnow hlive' =>
      rw [calls_cons_none hstep rfl] at hcalls
      obtain ⟨c', hc', hreplies⟩ := ih hcalls hlife hne
      obtain rfl := Option.some.inj ((live_eq_some.mp hc').1.symm.trans hlive')
      exact ⟨c, hlive, hreplies⟩

/-- In each life the calls are counted from 1 on. -/
theorem replies_of_life (h : KeyRun windowSeconds key s events) {before life after : List Counted}
    {c : Counted} (hcalls : calls windowSeconds key s events = before ++ c :: (life ++ after))
    (hcreated : c.created = true) (hlife : ∀ c ∈ life, c.created = false) :
    (c :: life).map Counted.reply = List.range' 1 (life.length + 1) := by
  induction h generalizing before with
  | done hinv => cases before <;> cases hcalls
  | @next s s' e events hinv hstep hkey hrest ih =>
    cases hkey with
    | other hkey hnow hlive hcalls' =>
      rw [calls_cons_none hstep (counted_other hkey)] at hcalls
      exact ih hcalls
    | created hlive hnow hlive' hcalls' =>
      rw [calls_cons_incr hstep] at hcalls
      cases before with
      | nil =>
        obtain ⟨rfl, hrest'⟩ := List.cons.inj hcalls
        rw [List.map_cons, List.range'_succ, incrReply_of_absent hlive]
        by_cases hempty : life = []
        · rw [hempty]
          rfl
        · obtain ⟨c, hc, hreplies⟩ := replies_of_live hrest hrest' hlife hempty
          obtain rfl := Option.some.inj (hlive'.symm.trans hc)
          rw [hreplies]
      | cons b before => exact ih (List.cons.inj hcalls).2
    | again hlive hcount hnow hlive' hcalls' =>
      rw [calls_cons_incr hstep] at hcalls
      cases before with
      | nil =>
        obtain ⟨rfl, -⟩ := List.cons.inj hcalls
        simp [hlive] at hcreated
      | cons b before => exact ih (List.cons.inj hcalls).2
    | expired hmem hgone hlive hnow hlive' =>
      rw [calls_cons_none hstep rfl] at hcalls
      exact ih hcalls

theorem admitted_of_life (h : KeyRun windowSeconds key s events) {before life after : List Counted}
    {c : Counted} (hcalls : calls windowSeconds key s events = before ++ c :: (life ++ after))
    (hcreated : c.created = true) (hlife : ∀ c ∈ life, c.created = false) :
    (c :: life).map (Counted.admitted maxRequests) =
      (List.range (life.length + 1)).map fun i => decide (i < maxRequests.toNat) := by
  have hadmitted : Counted.admitted maxRequests =
      (fun n => !exceeded maxRequests n) ∘ Counted.reply := rfl
  rw [hadmitted, ← List.map_map, replies_of_life h hcalls hcreated hlife,
    List.range'_eq_map_range, List.map_map]
  apply List.map_congr_left
  intro i _
  simp only [Function.comp, exceeded, ← decide_not, decide_eq_decide]
  omega

theorem first_created (h : KeyRun windowSeconds key s events) (hlive : s.live key = none) :
    ∀ c ∈ (calls windowSeconds key s events).head?, c.created = true := by
  intro c hc
  obtain ⟨rest, hrest⟩ := List.head?_eq_some_iff.mp hc
  have hcalls : calls windowSeconds key s events = [c] ++ rest := hrest
  by_contra hcreated
  obtain ⟨c', hc', -⟩ := replies_of_live h hcalls
    (List.forall_mem_singleton.mpr (Bool.eq_false_iff.mpr hcreated)) (List.cons_ne_nil _ _)
  rw [hlive] at hc'
  cases hc'

/-! ### Intervals -/

/-- The key has lived since `b` and lives on for a window from then. -/
def LivesSince (windowSeconds : Int) (key : κ) (b : Int) (s : State κ) : Prop :=
  b ≤ s.now ∧ (s.now < b + windowSeconds * 1000 → ∃ c, s.live key = some c ∧
    ∀ t, c.expiry = some t → b + windowSeconds * 1000 ≤ t)

omit [DecidableEq κ] in
theorem LivesSince.step {b : Int} (h : LivesSince windowSeconds key b s)
    (hkey : KeyStep windowSeconds key s e s') : LivesSince windowSeconds key b s' := by
  obtain ⟨hb, hlives⟩ := h
  cases hkey with
  | other hkey hnow hlive hcalls =>
    refine ⟨by omega, fun hlt => ?_⟩
    obtain ⟨c, hc, hexpiry⟩ := hlives (by omega)
    refine ⟨c, hlive.trans (live_eq_some.mpr ⟨(live_eq_some.mp hc).1, fun t ht => ?_⟩), hexpiry⟩
    have hlater := hexpiry t ht
    omega
  | created hlive hnow hlive' hcalls =>
    refine ⟨by omega, fun hlt => ⟨_, hlive', fun t ht => ?_⟩⟩
    cases ht
  | again hlive hcount hnow hlive' hcalls =>
    refine ⟨by omega, fun hlt => ⟨_, hlive', fun t ht => ?_⟩⟩
    obtain ⟨c, hc, hexpiry⟩ := hlives (by omega)
    obtain rfl := Option.some.inj (hlive.symm.trans hc)
    exact hexpiry t ht
  | expired hmem hgone hlive hnow hlive' =>
    refine ⟨by omega, fun hlt => ⟨_, live_eq_some.mpr ⟨hlive', fun t ht => ?_⟩, fun t ht => ?_⟩⟩
    · obtain rfl := Option.some.inj ht
      omega
    · obtain rfl := Option.some.inj ht
      omega

omit [DecidableEq κ] in
/-- A call that finds no key creates it. -/
theorem KeyStep.of_absent (h : KeyStep windowSeconds key s (.incr key .replied) s')
    (hlive : s.live key = none) :
    s'.now = s.now ∧ s'.live key = some ⟨1, none⟩ ∧ ⟨key, .expire⟩ ∈ s'.calls := by
  cases h with
  | other hkey => exact absurd rfl hkey
  | created _ hnow hlive' hcalls => exact ⟨hnow, hlive', hcalls⟩
  | again hlive' =>
    rw [hlive] at hlive'
    cases hlive'

omit [DecidableEq κ] in
theorem livesSince_of_created (hkey : KeyStep windowSeconds key s (.incr key .replied) s')
    (hlive : s.live key = none) : LivesSince windowSeconds key s.now s' := by
  obtain ⟨hnow, hlive', -⟩ := hkey.of_absent hlive
  refine ⟨hnow.ge, fun _ => ⟨_, hlive', fun t ht => ?_⟩⟩
  cases ht

/-- What counts as an admission, `admission`, is paid from a budget that is never above `m`: the creation
of the key fills it up, nothing else adds to it. -/
structure Budget (windowSeconds : Int) (key : κ) (m : Nat) (admission : State κ × Event κ → Bool)
    (budget : State κ → Nat) : Prop where
  le : ∀ {s}, Inv windowSeconds key s → budget s ≤ m
  created : ∀ {s s'}, Inv windowSeconds key s →
    KeyStep windowSeconds key s (.incr key .replied) s' → s.live key = none →
    (admission (s, .incr key .replied)).toNat + budget s' ≤ m
  kept : ∀ {s e s'}, Inv windowSeconds key s → KeyStep windowSeconds key s e s' →
    (e = .incr key .replied → s.live key ≠ none) → (admission (s, e)).toNat + budget s' ≤ budget s

/-- The admissions of a run in the interval of the length of a window from `a` on. -/
def spent (windowSeconds a : Int) (admission : State κ × Event κ → Bool) (s : State κ)
    (events : List (Event κ)) : Nat :=
  (trace windowSeconds s events).countP
    fun p => decide (Within windowSeconds a p.1.now) && admission p

section Spent

variable {a : Int} {admission : State κ × Event κ → Bool} {budget : State κ → Nat} {m : Nat}

theorem spent_cons (hstep : step windowSeconds s e = some s') :
    spent windowSeconds a admission s (e :: events) = spent windowSeconds a admission s' events +
      if Within windowSeconds a s.now then (admission (s, e)).toNat else 0 := by
  rw [spent, trace_cons hstep, List.countP_cons, ← spent]
  by_cases hwithin : Within windowSeconds a s.now
  · cases hadmission : admission (s, e) <;> simp [hwithin]
  · simp [hwithin]

omit [DecidableEq κ] in
theorem KeyStep.now_le (h : KeyStep windowSeconds key s e s') : s.now ≤ s'.now := by
  cases h with
  | other _ hnow => exact hnow
  | created _ hnow => exact hnow.ge
  | again _ _ hnow => exact hnow.ge
  | expired _ _ _ hnow => exact hnow.ge

theorem spent_late (h : KeyRun windowSeconds key s events) (hlate : a + windowSeconds * 1000 ≤ s.now) :
    spent windowSeconds a admission s events = 0 := by
  induction h with
  | done hinv => rfl
  | next hinv hstep hkey hrest ih =>
    have hnow := hkey.now_le
    have hwithin : ¬Within windowSeconds a _ := fun hwithin => Int.not_lt.mpr hlate hwithin.2
    rw [spent_cons hstep, if_neg hwithin, ih (by omega)]

/-- After a creation inside the interval the rest is paid from the budget of that life. -/
theorem spent_le_of_livesSince (hbudget : Budget windowSeconds key m admission budget) {b : Int}
    (h : KeyRun windowSeconds key s events) (hab : a ≤ b) (hlives : LivesSince windowSeconds key b s) :
    spent windowSeconds a admission s events ≤ budget s := by
  induction h with
  | done hinv => exact Nat.zero_le _
  | @next s s' e events hinv hstep hkey hrest ih =>
    by_cases hlate : a + windowSeconds * 1000 ≤ s.now
    · rw [spent_late (.next hinv hstep hkey hrest) hlate]
      exact Nat.zero_le _
    · obtain ⟨c, hc, -⟩ := hlives.2 (by omega)
      have hkept := hbudget.kept hinv hkey fun _ => by
        rw [hc]
        exact Option.some_ne_none c
      have htail := ih (hlives.step hkey)
      rw [spent_cons hstep]
      split_ifs <;> omega

/-- Inside the interval a life may go on and one life may begin. -/
theorem spent_le_of_le (hbudget : Budget windowSeconds key m admission budget)
    (h : KeyRun windowSeconds key s events) (ha : a ≤ s.now) :
    spent windowSeconds a admission s events ≤ budget s + m := by
  induction h with
  | done hinv => exact Nat.zero_le _
  | @next s s' e events hinv hstep hkey hrest ih =>
    rw [spent_cons hstep]
    by_cases hcreates : e = .incr key .replied ∧ s.live key = none
    · obtain ⟨rfl, hlive⟩ := hcreates
      have hfilled := hbudget.created hinv hkey hlive
      have hlives := livesSince_of_created hkey hlive
      have htail := spent_le_of_livesSince hbudget hrest ha hlives
      split_ifs <;> omega
    · have hkept := hbudget.kept hinv hkey fun he hlive => hcreates ⟨he, hlive⟩
      have htail := ih (Int.le_trans ha hkey.now_le)
      split_ifs <;> omega

theorem spent_le (hbudget : Budget windowSeconds key m admission budget)
    (h : KeyRun windowSeconds key s events) : spent windowSeconds a admission s events ≤ 2 * m := by
  induction h with
  | done hinv => exact Nat.zero_le _
  | @next s s' e events hinv hstep hkey hrest ih =>
    by_cases ha : a ≤ s.now
    · have hbound := spent_le_of_le hbudget (.next hinv hstep hkey hrest) ha
      have hle := hbudget.le hinv
      omega
    · rw [spent_cons hstep, if_neg fun hwithin => ha hwithin.1]
      exact ih

end Spent

/-! ### Two times of admission -/

/-- How many more calls the life of the key admits. -/
def left (maxRequests : Int) (key : κ) (s : State κ) : Nat :=
  match s.live key with
  | none => 0
  | some c => maxRequests.toNat - c.count

omit [DecidableEq κ] in
theorem left_of_live {c : Counter} (h : s.live key = some c) :
    left maxRequests key s = maxRequests.toNat - c.count := by
  rw [left, h]

omit [DecidableEq κ] in
theorem left_le : left maxRequests key s ≤ maxRequests.toNat := by
  rw [left]
  split
  · exact Nat.zero_le _
  · exact Nat.sub_le _ _

omit [DecidableEq κ] in
/-- Time does not add to what is left. -/
theorem left_later (hnow : s.now ≤ s'.now) (hlive : s'.live key = live s.store s'.now key) :
    left maxRequests key s' ≤ left maxRequests key s := by
  cases hlater : s'.live key with
  | none =>
    rw [left, hlater]
    exact Nat.zero_le _
  | some c =>
    have hc : s.live key = some c := live_of_le hnow (hlive.symm.trans hlater)
    rw [left_of_live hlater, left_of_live hc]

omit [DecidableEq κ] in
theorem left_expired {c : Counter} {expiry : Option Int} (hlive : s.live key = some c)
    (hlive' : s'.store key = some { c with expiry := expiry }) :
    left maxRequests key s' ≤ left maxRequests key s := by
  cases hlater : s'.live key with
  | none =>
    rw [left, hlater]
    exact Nat.zero_le _
  | some c' =>
    obtain rfl := Option.some.inj ((live_eq_some.mp hlater).1.symm.trans hlive')
    rw [left_of_live hlater, left_of_live hlive]

/-- The call with the reply `n` uses up one of the admissions, if there is one left. -/
theorem toNat_not_exceeded {n : Nat} (hn : 1 ≤ n) :
    (!exceeded maxRequests n).toNat + (maxRequests.toNat - n) = maxRequests.toNat - (n - 1) := by
  rw [exceeded]
  by_cases h : maxRequests < n
  · rw [decide_eq_true h, Bool.not_true, Bool.toNat_false]
    omega
  · rw [decide_eq_false h, Bool.not_false, Bool.toNat_true]
    omega

theorem toNat_not_exceeded_one :
    (!exceeded maxRequests 1).toNat + (maxRequests.toNat - 1) = maxRequests.toNat :=
  toNat_not_exceeded (Nat.le_refl 1)

def countedAdmitted (maxRequests : Int) (key : κ) (p : State κ × Event κ) : Bool :=
  (counted key p).any (Counted.admitted maxRequests)

theorem countedAdmitted_incr : countedAdmitted maxRequests key (s, .incr key .replied) =
    !exceeded maxRequests (incrReply s.store s.now key) := by
  have hcounted : counted key (s, .incr key .replied) = some _ := if_pos rfl
  rw [countedAdmitted, hcounted]
  rfl

theorem time_counted {p : State κ × Event κ} {c : Counted} (h : counted key p = some c) :
    c.time = p.1.now := by
  obtain ⟨s, e⟩ := p
  by_cases hkey : e.key = some key
  · cases e with
    | tick ms | request k | stop call | expire k o => cases h
    | incr k o =>
      obtain rfl : k = key := Option.some.inj hkey
      cases o with
      | replied =>
        rw [counted, if_pos rfl] at h
        cases h
        rfl
      | failed | lost => cases h
  · rw [counted_other hkey] at h
    cases h

theorem countP_calls (a : Int) : (calls windowSeconds key s events).countP
    (fun c => decide (Within windowSeconds a c.time) && c.admitted maxRequests) =
      spent windowSeconds a (countedAdmitted maxRequests key) s events := by
  rw [calls, List.countP_filterMap, spent]
  apply List.countP_congr
  intro p _
  rw [countedAdmitted]
  cases h : counted key p with
  | none => simp
  | some c => simp [time_counted h]

/-- A call that Redis counts is paid when it is counted. -/
theorem budget_counted : Budget windowSeconds key maxRequests.toNat (countedAdmitted maxRequests key)
    (left maxRequests key) where
  le _ := left_le
  created hinv hkey hlive := by
    obtain ⟨-, hlive', -⟩ := hkey.of_absent hlive
    rw [countedAdmitted_incr, incrReply_of_absent hlive, left_of_live hlive', toNat_not_exceeded_one]
  kept hinv hkey hold := by
    cases hkey with
    | other hkey hnow hlive =>
      rw [countedAdmitted, counted_other hkey]
      have hle : left maxRequests key _ ≤ left maxRequests key _ := left_later hnow hlive
      simpa using hle
    | created hlive => exact absurd hlive (hold rfl)
    | again hlive hcount hnow hlive' =>
      rw [countedAdmitted_incr, incrReply_of_live hlive, left_of_live hlive, left_of_live hlive',
        toNat_not_exceeded (Nat.succ_pos _)]
      exact Nat.le_refl _
    | expired hmem hgone hlive hnow hlive' =>
      have hle : left maxRequests key _ ≤ left maxRequests key _ := left_expired hlive hlive'
      simpa [countedAdmitted, counted] using hle

/-- How many more calls will be answered with `false` in the life of the key: the one that has still to
send its `EXPIRE`, and those that Redis still admits. -/
def unanswered (maxRequests : Int) (key : κ) (s : State κ) : Nat :=
  (if 0 < s.calls.count ⟨key, .expire⟩ then (!exceeded maxRequests 1).toNat else 0) +
    left maxRequests key s

theorem admits_other (hkey : e.key ≠ some key) : admits maxRequests key (s, e) = false :=
  decide_eq_false fun h => hkey h.1

theorem admits_created (hlive : s.live key = none) :
    admits maxRequests key (s, .incr key .replied) = false := by
  apply decide_eq_false
  intro h
  have hanswer := h.2
  simp [answer, incrReply_of_absent hlive] at hanswer

theorem admits_again {c : Counter} (hlive : s.live key = some c) (hcount : 1 ≤ c.count) :
    admits maxRequests key (s, .incr key .replied) = !exceeded maxRequests (c.count + 1) := by
  have hreply : incrReply s.store s.now key ≠ 1 := by
    rw [incrReply_of_live hlive]
    omega
  simp [admits, Event.key, answer, incrReply_of_live hlive, Nat.ne_of_gt hcount]

theorem admits_expire :
    admits maxRequests key (s, .expire key .replied) = !exceeded maxRequests 1 := by
  simp [admits, Event.key, answer]

/-- A call is paid when it is answered. -/
theorem budget_answered : Budget windowSeconds key maxRequests.toNat (admits maxRequests key)
    (unanswered maxRequests key) where
  le {s} hinv := by
    rw [unanswered]
    split_ifs with hmem
    · obtain ⟨-, c, hc, -⟩ := hinv.pending (List.count_pos_iff.mp hmem)
      have hcount := hinv.counted c hc
      have hpaid : (!exceeded maxRequests 1).toNat + (maxRequests.toNat - 1) = maxRequests.toNat :=
        toNat_not_exceeded_one
      rw [left_of_live hc]
      omega
    · have hle : left maxRequests key s ≤ maxRequests.toNat := left_le
      omega
  created hinv hkey hlive := by
    obtain ⟨-, hlive', hcalls⟩ := hkey.of_absent hlive
    rw [admits_created hlive, unanswered, if_pos (List.count_pos_iff.mpr hcalls),
      left_of_live hlive', toNat_not_exceeded_one, Bool.toNat_false, Nat.zero_add]
  kept hinv hkey hold := by
    cases hkey with
    | other hkey hnow hlive hcalls =>
      have hle : left maxRequests key _ ≤ left maxRequests key _ := left_later hnow hlive
      rw [admits_other hkey, unanswered, unanswered]
      simpa [List.count_pos_iff, hcalls] using hle
    | created hlive => exact absurd hlive (hold rfl)
    | @again s' c hlive hcount hnow hlive' hcalls =>
      have hpaid : (!exceeded maxRequests (c.count + 1)).toNat +
          (maxRequests.toNat - (c.count + 1)) = maxRequests.toNat - c.count :=
        toNat_not_exceeded (Nat.succ_pos _)
      rw [admits_again hlive hcount, unanswered, unanswered, left_of_live hlive,
        left_of_live hlive']
      simp only [List.count_pos_iff, hcalls]
      omega
    | expired hmem hgone hlive hnow hlive' =>
      have hle : left maxRequests key _ ≤ left maxRequests key _ := left_expired hlive hlive'
      rw [admits_expire, unanswered, unanswered, if_neg (mt List.count_pos_iff.mp hgone),
        if_pos (List.count_pos_iff.mpr hmem)]
      omega

/-- With every command successful, the limiter is a fixed window, however the calls interleave. -/
theorem fixedWindow {now : Int} (hrun : run windowSeconds (State.initial now) events = some s)
    (hsucceeds : ∀ e ∈ events, Succeeds e) (key : κ) :
    FixedWindow maxRequests windowSeconds key (State.initial now) events := by
  have hinitial : Inv windowSeconds key (State.initial now) := .initial now
  have hkeyRun := keyRun hinitial hrun hsucceeds
  refine ⟨fun p hp c => verdict hkeyRun hp, first_created hkeyRun rfl, ?_, fun a => ?_,
    fun a => spent_le budget_answered hkeyRun⟩
  · intro before c life after hcalls hcreated hlife
    exact admitted_of_life hkeyRun hcalls hcreated hlife
  · rw [countP_calls]
    exact spent_le budget_counted hkeyRun

end Runs

/-- Of two calls at once with `max_requests = 1` the first is admitted, though the second comes between
its commands. -/
theorem fixedWindow_two_calls : FixedWindow 1 60 client (State.initial 0)
    [.request client, .request client, .incr client .replied, .incr client .replied, .tick 5000,
      .expire client .replied] :=
  fixedWindow rfl (by decide) client

end Clickstream.RateLimit
