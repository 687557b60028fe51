import Clickstream.Kit.Returns
import Clickstream.Pages
import Clickstream.Python.TextOrder
import Clickstream.Python.UuidSpelling
import Clickstream.Simulator
import Mathlib.Data.Nat.Digits.Lemmas

/-! What the simulator generates, whatever its random numbers: valid events in sessions, each a walk
over the pages, at the times of a clock that is moved on by one step an event. -/

namespace Clickstream.Simulator

open Python Schema Kit Kit.Regex Pages

/-- The pages that are no product pages. -/
def otherPages : List PyStr :=
  [lit "/home", lit "/search", lit "/cart", lit "/checkout", lit "/account", lit "/help"]

/-- A page that a session visits. -/
def Visited (page : PyStr) : Prop :=
  page ∈ otherPages ∨ ∃ k, 1 ≤ k ∧ k ≤ productPoolSize ∧ page = lit "/product/" ++ intText (k : Nat)

/-- An event of a session. -/
structure EventOf (session : Session) (e : Event) : Prop where
  userId : e.userId = session.userId
  sessionId : e.sessionId = session.sessionId
  device : e.device = session.device
  region : e.region = session.region
  campaignId : e.campaignId = session.campaignId
  referrer : e.referrer = session.referrer
  page : Visited e.page
  purchase : e.eventType = lit "purchase" → e.page = lit "/checkout"
  addToCart : e.eventType = lit "add_to_cart" → e.page = lit "/cart" ∨ e.page = lit "/checkout" ∨
    ∃ k, 1 ≤ k ∧ k ≤ productPoolSize ∧ e.page = lit "/product/" ++ intText (k : Nat)

/-- Sessions of 3 to 20 events one behind the other, the last of which may be cut short. -/
inductive Sessions : List ClickEvent → Prop
  | cut {session : Session} {events : List ClickEvent}
      (hevents : ∀ e ∈ events, EventOf session e.fields)
      (hmax : events.length ≤ sessionMaxEvents) : Sessions events
  | next {session : Session} {events rest : List ClickEvent}
      (hevents : ∀ e ∈ events, EventOf session e.fields)
      (hmin : sessionMinEvents ≤ events.length) (hmax : events.length ≤ sessionMaxEvents)
      (hrest : Sessions rest) : Sessions (events ++ rest)

section Clocks

variable {rate : Nat} (hrate : 0 < rate)

def tick (clock : Clock) : Option Clock := clock.add (stepMicros rate) (stepMicros_le hrate)

/-- The clock at each of the first `n` events, until it leaves year 9999. -/
def clocks : Nat → Clock → List Clock
  | 0, _ => []
  | n + 1, clock => clock :: (tick hrate clock).elim [] (clocks n)

/-- The clock behind `n` events. -/
def clockAfter : Nat → Clock → Option Clock
  | 0, clock => some clock
  | n + 1, clock => (tick hrate clock).bind (clockAfter n)

end Clocks

section Generate

variable {σ : Type} (py : Interpreter) (rng : Random σ) {rate : Nat} (hrate : 0 < rate)

/-- `generate(n)` of a simulator with the state `s` of its random numbers and the clock. No session is
empty, so `n` sessions have `n` events, unless the generator stops before. -/
def generate (n : Nat) (s : σ) (clock : Clock) : Except Stop (List ClickEvent) :=
  let yields := iterEvents py rng hrate n s clock
  if n ≤ yields.events.length then .ok (yields.events.take n)
  else yields.result.map fun _ => yields.events

end Generate

/-! ### Pages -/

theorem numeral_intText {k : Nat} (hk : 0 < k) : Numeral (intText (k : Nat)) := by
  have hpos : (0 : Int) < k := Int.natCast_pos.mpr hk
  have htext : intText (k : Nat) = (Nat.digits 10 k).reverse.map decimalDigit := intText_pos hpos
  have hne : Nat.digits 10 k ≠ [] := Nat.digits_ne_nil_iff_ne_zero.mpr (by omega)
  constructor
  · obtain ⟨front, d, hfront⟩ : ∃ front d, Nat.digits 10 k = front ++ [d] :=
      ⟨_, _, (List.dropLast_append_getLast hne).symm⟩
    have hd : d ≠ 0 := by
      have hlast := Nat.getLast_digit_ne_zero 10 (m := k) (by omega)
      simpa [hfront] using hlast
    have hlt : d < 10 := Nat.digits_lt_base (by decide) (by rw [hfront]; simp : d ∈ Nat.digits 10 k)
    refine ⟨decimalDigit d, (front.reverse).map decimalDigit, ?_, ?_⟩
    · rw [htext, hfront, List.reverse_append, List.reverse_singleton, List.singleton_append,
        List.map_cons]
    · show 0x31 ≤ 0x30 + d % 10 ∧ 0x30 + d % 10 ≤ 0x39
      omega
  · exact fun c hc => isAsciiDigit_of_mem_intText hpos hc

theorem isSome_matchStart_product {k : Nat} (hk : 0 < k) :
    (productPageRe.matchStart (lit "/product/" ++ intText (k : Nat))).isSome = true := by
  have hmatch := isSome_matchStart_of (numeral_intText hk) (.inl rfl)
  rwa [List.append_nil] at hmatch

theorem Visited.valid {page : PyStr} (h : Visited page) :
    page ∈ vocabulary.pages ∨ (vocabulary.productPage.matchStart page).isSome = true := by
  rcases h with hother | ⟨k, hk, -, rfl⟩
  · have hsubset : ∀ page ∈ otherPages, page ∈ vocabulary.pages := by decide
    exact .inl (hsubset page hother)
  · exact .inr (isSome_matchStart_product hk)

theorem not_matchStart_otherPages {page : PyStr} (h : page ∈ otherPages) :
    (productPageRe.matchStart page).isSome = false := by
  have hall : (otherPages.all fun page => !(productPageRe.matchStart page).isSome) = true := by
    decide +kernel
  simpa using List.all_eq_true.mp hall page h

section Draws

variable {σ : Type} (rng : Random σ)

theorem returns_pick (weights : Weights) :
    Returns (pick rng weights) fun x => x ∈ weights.entries.map Prod.fst :=
  .bind .any fun _ _ => .pure (List.mem_map_of_mem (List.get_mem _ _))

theorem returns_randint_page :
    Returns (do
      let n ← rng.randint 1 productPoolSize (by decide)
      return lit "/product/" ++ intText n.val) Visited :=
  .bind .any fun n _ => .pure (.inr ⟨n.val, n.property.1, n.property.2, rfl⟩)

theorem returns_expandPage {page : PyStr} (h : page ∈ pages) :
    Returns (expandPage rng page) Visited := by
  rw [expandPage]
  apply Returns.ite
  · intro _
    exact returns_randint_page rng
  · intro hpage
    have hother : ∀ page ∈ pages, page ≠ lit "/product" → page ∈ otherPages := by decide
    exact .pure (.inl (hother page h hpage))

theorem returns_pickAndExpandPage : Returns (pickAndExpandPage rng) Visited := by
  rw [pickAndExpandPage]
  apply Returns.bind (returns_pick rng pageWeights)
  intro page hpage
  have hpages : ∀ page ∈ pageWeights.entries.map Prod.fst, page ∈ pages := by decide
  exact returns_expandPage rng (hpages page hpage)

theorem returns_firstPage : Returns (firstPage rng) Visited := by
  rw [firstPage]
  apply Returns.bind .any
  intro roll _
  apply Returns.ite
  · intro _
    exact .pure (.inl List.mem_cons_self)
  · intro _
    exact .ite (fun _ => returns_randint_page rng) fun _ => returns_pickAndExpandPage rng

/-- The walk stays on the pages: on a page, along the funnel, or to a page drawn anew. -/
theorem returns_nextPage {current : PyStr} (h : Visited current) :
    Returns (nextPage rng current) Visited := by
  rw [nextPage]
  apply Returns.bind .any
  intro roll _
  apply Returns.ite
  · intro _
    exact .pure h
  · intro _
    apply Returns.ite
    · intro _
      split
      · rename_i next hnext
        have hfunnel : ∀ p ∈ funnelNext, p.2 ∈ pages := by decide
        obtain ⟨front, rest, hlist, -⟩ := List.lookup_eq_some_iff.mp hnext
        exact returns_expandPage rng (hfunnel (pageCategory current, next) (by rw [hlist]; simp))
      · exact returns_pickAndExpandPage rng
    · intro _
      exact returns_pickAndExpandPage rng

/-- What the events of a session share is valid. -/
structure Session.Wf (session : Session) : Prop where
  userId : startsWith (lit "u-") session.userId = true
  sessionId : startsWith (lit "s-") session.sessionId = true
  device : session.device ∈ devices
  region : session.region ∈ regions
  campaignId : session.campaignId ∈ campaignIds
  referrer : session.referrer ∈ referrers

theorem startsWith_append (w s : PyStr) : startsWith w (w ++ s) = true :=
  List.isPrefixOf_iff_prefix.mpr (List.prefix_append w s)

theorem returns_pickUser :
    Returns (pickUser rng) fun userId => startsWith (lit "u-") userId = true := by
  rw [pickUser]
  apply Returns.bind .any
  intro i _
  exact .pure (startsWith_append _ _)

theorem returns_newSession :
    Returns (newSession rng) fun start => start.1.Wf ∧ Visited start.2.1 := by
  have hdevices : ∀ x ∈ deviceWeights.entries.map Prod.fst, x ∈ devices := by decide
  have hregions : ∀ x ∈ regionWeights.entries.map Prod.fst, x ∈ regions := by decide
  have hcampaigns : ∀ x ∈ campaignWeights.entries.map Prod.fst, x ∈ campaignIds := by decide +kernel
  have hreferrers : ∀ x ∈ referrerWeights.entries.map Prod.fst, x ∈ referrers := by decide
  rw [newSession]
  refine .bind (returns_pickUser rng) fun userId huser => .bind .any fun bits _ => ?_
  refine .bind (returns_pick rng _) fun device hdevice => ?_
  refine .bind (returns_pick rng _) fun region hregion => ?_
  refine .bind (returns_pick rng _) fun campaign hcampaign => ?_
  refine .bind (returns_pick rng _) fun referrer hreferrer => ?_
  refine .bind (returns_firstPage rng) fun page hpage => .bind .any fun length _ => .pure ⟨?_, hpage⟩
  exact ⟨huser, startsWith_append _ _, hdevices _ hdevice, hregions _ hregion,
    hcampaigns _ hcampaign, hreferrers _ hreferrer⟩

theorem mem_eventTypeWeights {page x : PyStr}
    (h : x ∈ (eventTypeWeights page).entries.map Prod.fst) :
    x = lit "page_view" ∨ x = lit "click" ∨
      x = lit "add_to_cart" ∧ (page ∈ [lit "/product", lit "/cart", lit "/checkout"] ∨
        (productPageRe.matchStart page).isSome = true) ∨
      x = lit "purchase" ∧ page = lit "/checkout" := by
  simp only [eventTypeWeights, List.map_cons, List.map_append, List.mem_cons, List.mem_append] at h
  rcases h with h | h | h | h
  · exact .inl h
  · exact .inr (.inl h)
  · split at h
    · rename_i hpage
      exact .inr (.inr (.inl ⟨List.mem_singleton.mp h, by simpa using hpage⟩))
    · cases h
  · split at h
    · rename_i hpage
      exact .inr (.inr (.inr ⟨List.mem_singleton.mp h, hpage⟩))
    · cases h

/-- The pages with a cart, as the session visits them. -/
theorem Visited.cart {page : PyStr} (h : Visited page)
    (hcart : page ∈ [lit "/product", lit "/cart", lit "/checkout"] ∨
      (productPageRe.matchStart page).isSome = true) :
    page = lit "/cart" ∨ page = lit "/checkout" ∨
      ∃ k, 1 ≤ k ∧ k ≤ productPoolSize ∧ page = lit "/product/" ++ intText (k : Nat) := by
  rcases h with hother | hproduct
  · rw [not_matchStart_otherPages hother] at hcart
    have hnot : lit "/product" ∉ otherPages := by decide
    rcases hcart with hmem | hfalse
    · rw [List.mem_cons, List.mem_cons, List.mem_singleton] at hmem
      rcases hmem with rfl | hcart | hcheckout
      · exact absurd hother hnot
      · exact .inl hcart
      · exact .inr (.inl hcheckout)
    · cases hfalse
  · exact .inr (.inr hproduct)

/-- The event types of a page: carts are filled on three kinds of pages, and bought on one. -/
theorem returns_eventType {page : PyStr} (h : Visited page) :
    Returns (pick rng (eventTypeWeights page)) fun eventType => eventType ∈ eventTypes ∧
      (eventType = lit "purchase" → page = lit "/checkout") ∧
      (eventType = lit "add_to_cart" → page = lit "/cart" ∨ page = lit "/checkout" ∨
        ∃ k, 1 ≤ k ∧ k ≤ productPoolSize ∧ page = lit "/product/" ++ intText (k : Nat)) := by
  refine ⟨fun s => ?_⟩
  rcases mem_eventTypeWeights ((returns_pick rng (eventTypeWeights page)).value s) with
    htype | htype | ⟨htype, hcart⟩ | ⟨htype, hcheckout⟩
  · rw [htype]
    exact ⟨by decide, fun heq => absurd heq (by decide), fun heq => absurd heq (by decide)⟩
  · rw [htype]
    exact ⟨by decide, fun heq => absurd heq (by decide), fun heq => absurd heq (by decide)⟩
  · rw [htype]
    exact ⟨by decide, fun heq => absurd heq (by decide), fun _ => h.cart hcart⟩
  · rw [htype]
    exact ⟨by decide, fun _ => hcheckout, fun heq => absurd heq (by decide)⟩

end Draws

/-! ### Events -/

theorem mem_uuidText {n : Nat} {c : Cp} (h : c ∈ uuidText n) : c = chr '-' ∨ c ∈ hex 32 n := by
  simp only [uuidText, List.mem_append, List.mem_cons] at h
  have htake : ∀ {i j}, c ∈ ((hex 32 n).drop i).take j → c ∈ hex 32 n :=
    fun hc => List.mem_of_mem_drop (List.mem_of_mem_take hc)
  rcases h with (((h | h | h) | h | h) | h | h) | h | h
  · exact .inr (List.mem_of_mem_take h)
  · exact .inl h
  · exact .inr (htake h)
  · exact .inl h
  · exact .inr (htake h)
  · exact .inl h
  · exact .inr (htake h)
  · exact .inl h
  · exact .inr (List.mem_of_mem_drop h)

theorem filter_hyphen_uuidText (n : Nat) :
    (uuidText n).filter (fun c => decide (c ≠ chr '-')) = hex 32 n := by
  have hkeep : ∀ l : PyStr, l ⊆ hex 32 n → l.filter (fun c => decide (c ≠ chr '-')) = l := by
    intro l hl
    rw [List.filter_eq_self]
    exact fun c hc => decide_eq_true (plainDigit_of_mem_hex (hl hc)).hyphen
  have htake : ∀ i j, (((hex 32 n).drop i).take j).filter (fun c => decide (c ≠ chr '-')) =
      ((hex 32 n).drop i).take j :=
    fun i j => hkeep _ fun c hc => List.mem_of_mem_drop (List.mem_of_mem_take hc)
  have hjoin : ∀ i j, ((hex 32 n).drop i).take j ++ (hex 32 n).drop (i + j) = (hex 32 n).drop i := by
    intro i j
    rw [← List.drop_drop, List.take_append_drop]
  have hhyphen : ∀ l : PyStr, (chr '-' :: l).filter (fun c => decide (c ≠ chr '-')) =
      l.filter fun c => decide (c ≠ chr '-') := fun l => List.filter_cons_of_neg (by simp)
  simp only [uuidText, List.append_assoc, List.cons_append, List.filter_append, hhyphen, htake]
  rw [hkeep _ fun c hc => List.mem_of_mem_take hc, hkeep _ fun c hc => List.mem_of_mem_drop hc,
    hjoin 16 4, hjoin 12 4, hjoin 8 4, List.take_append_drop]

theorem uuidHex_uuidText (n : Nat) : uuidHex (uuidText n) = hex 32 n := by
  have hplain : ∀ c ∈ uuidText n, c ≠ chr 'u' ∧ ¬(c.val = 0x7B ∨ c.val = 0x7D) := by
    intro c hc
    rcases mem_uuidText hc with rfl | hdigit
    · decide
    · exact ⟨(plainDigit_of_mem_hex hdigit).letter.1, (plainDigit_of_mem_hex hdigit).brace⟩
  have hletter : chr 'u' ∉ uuidText n := fun hmem => (hplain _ hmem).1 rfl
  have hurn : remove (lit "urn:") (uuidText n) = uuidText n := remove_of_not_mem hletter
  have huuid : remove (lit "uuid:") (uuidText n) = uuidText n := remove_of_not_mem hletter
  rw [uuidHex, hurn, huuid, stripBy_of_forall fun c hc => decide_eq_false (hplain c hc).2]
  exact (remove_singleton _ _).trans (filter_hyphen_uuidText n)

section Events

variable {σ : Type} {py : Interpreter} {rng : Random σ} {rate : Nat} {hrate : 0 < rate}

theorem make_eventAt (py : Interpreter) {session : Session} (hsession : session.Wf) {page : PyStr}
    (hpage : Visited page) {eventType : PyStr} (htype : eventType ∈ eventTypes)
    (bits : Fin (2 ^ 128)) (clock : Clock) :
    ∃ event, ClickEvent.make py (eventAt session page eventType bits clock) = .ok event := by
  have huuid : uuid (uuidText bits.val) = some bits.val :=
    uuid_of_uuidHex (uuidHex_uuidText _) bits.isLt
  have hvalid : Valid vocabulary (eventAt session page eventType bits clock) := by
    refine ⟨htype, hsession.device, hsession.region, hsession.campaignId, hsession.referrer,
      hpage.valid, ?_, hsession.userId, hsession.sessionId, ?_⟩
    · exact Option.isSome_iff_exists.mpr ⟨_, huuid⟩
    · exact Option.isSome_iff_exists.mpr ⟨_, strptime_strftime clock.moment⟩
  exact ⟨_, ClickEvent.make_of_valid hvalid⟩

theorem clocks_add {m : Nat} {clock clock' : Clock} (h : clockAfter hrate m clock = some clock')
    (n : Nat) : clocks hrate (m + n) clock = clocks hrate m clock ++ clocks hrate n clock' := by
  induction m generalizing clock with
  | zero =>
    cases h
    rw [Nat.zero_add]
    rfl
  | succ m ih =>
    obtain ⟨next, hnext, hrest⟩ := Option.bind_eq_some_iff.mp h
    rw [Nat.succ_add, clocks, clocks, hnext, Option.elim_some, Option.elim_some, ih hrest,
      List.cons_append]

/-- A clock that has left year 9999 shows no further times. -/
theorem clocks_add_of_none {m : Nat} {clock : Clock} (h : clockAfter hrate m clock = none)
    (n : Nat) : clocks hrate (m + n) clock = clocks hrate m clock := by
  induction m generalizing clock with
  | zero => cases h
  | succ m ih =>
    rw [Nat.succ_add, clocks, clocks]
    rw [clockAfter] at h
    cases hnext : tick hrate clock with
    | none => rfl
    | some next =>
      rw [hnext, Option.bind_some] at h
      rw [Option.elim_some, Option.elim_some, ih h]

theorem clockAfter_add (m n : Nat) (clock : Clock) : clockAfter hrate (m + n) clock =
    (clockAfter hrate m clock).bind (clockAfter hrate n) := by
  induction m generalizing clock with
  | zero =>
    rw [Nat.zero_add]
    rfl
  | succ m ih =>
    rw [Nat.succ_add, clockAfter, clockAfter, Option.bind_assoc]
    exact congrArg _ (funext ih)

theorem take_clocks {m n : Nat} (h : m ≤ n) (clock : Clock) :
    (clocks hrate n clock).take m = clocks hrate m clock := by
  induction m generalizing n clock with
  | zero => rfl
  | succ m ih =>
    obtain ⟨n, rfl⟩ : ∃ k, n = k + 1 := ⟨n - 1, by omega⟩
    rw [clocks, clocks, List.take_succ_cons]
    cases tick hrate clock with
    | none => rw [Option.elim_none, Option.elim_none, List.take_nil]
    | some next => rw [Option.elim_some, Option.elim_some, ih (by omega)]

/-- A generator that is to yield `n` events yields them at the times of the clock, and stops before
only because the clock leaves year 9999. -/
structure Emits (hrate : 0 < rate) (n : Nat) (clock : Clock) (yields : Yields (σ × Clock)) :
    Prop where
  times : yields.events.map (fun e => e.fields.ts) =
    (clocks hrate n clock).map fun c => strftime c.moment tsFormat
  ends : (∃ final, yields.result = .ok final ∧ clockAfter hrate n clock = some final.2) ∨
    yields.result = .error .overflow ∧ clockAfter hrate n clock = none

theorem Emits.length {n : Nat} {clock : Clock} {yields : Yields (σ × Clock)}
    (h : Emits hrate n clock yields) : yields.events.length = (clocks hrate n clock).length := by
  have hlength := congrArg List.length h.times
  rwa [List.length_map, List.length_map] at hlength

theorem length_clocks_le (n : Nat) (clock : Clock) : (clocks hrate n clock).length ≤ n := by
  induction n generalizing clock with
  | zero => exact Nat.le_refl 0
  | succ n ih =>
    rw [clocks]
    cases tick hrate clock with
    | none => exact Nat.succ_le_succ (Nat.zero_le n)
    | some next => exact Nat.succ_le_succ (ih next)

theorem length_clocks_one (hrate : 0 < rate) (clock : Clock) : (clocks hrate 1 clock).length = 1 := by
  rw [clocks]
  cases tick hrate clock <;> rfl

theorem length_clocks_of_some {n : Nat} {clock clock' : Clock}
    (h : clockAfter hrate n clock = some clock') : (clocks hrate n clock).length = n := by
  induction n generalizing clock with
  | zero => rfl
  | succ n ih =>
    obtain ⟨next, hnext, hrest⟩ := Option.bind_eq_some_iff.mp h
    rw [clocks, hnext, Option.elim_some, List.length_cons, ih hrest]

/-- The rest of a session: its events are of the session, on a page it visits. -/
theorem sessionEvents_spec (py : Interpreter) (rng : Random σ) (hrate : 0 < rate)
    {session : Session} (hsession : session.Wf) (n : Nat) {page : PyStr} (hpage : Visited page)
    (s : σ) (clock : Clock) :
    Emits hrate n clock (sessionEvents py rng hrate session n page s clock) ∧
      ∀ e ∈ (sessionEvents py rng hrate session n page s clock).events, EventOf session e.fields := by
  induction n generalizing page s clock with
  | zero => exact ⟨⟨rfl, .inl ⟨_, rfl, rfl⟩⟩, fun _ he => nomatch he⟩
  | succ n ih =>
    obtain ⟨htype, hpurchase, hcart⟩ :=
      (returns_eventType rng hpage).value (rng.getrandbits 128 s).2
    obtain ⟨event, hmake⟩ := make_eventAt py hsession hpage htype
      (rng.getrandbits 128 s).1 clock
    have hfields := fields_of_make hmake
    have hevent : EventOf session event.fields := by
      rw [hfields]
      exact ⟨rfl, rfl, rfl, rfl, rfl, rfl, hpage, hpurchase, hcart⟩
    rw [sessionEvents]
    simp only [hmake]
    cases htick : tick hrate clock with
    | none =>
      have hadd : clock.add (stepMicros rate) (stepMicros_le hrate) = none := htick
      simp only [hadd]
      refine ⟨⟨?_, .inr ⟨rfl, ?_⟩⟩, List.forall_mem_singleton.mpr hevent⟩
      · rw [clocks, htick, List.map_singleton, hfields]
        rfl
      · rw [clockAfter, htick]
        rfl
    | some next =>
      have hadd : clock.add (stepMicros rate) (stepMicros_le hrate) = some next := htick
      simp only [hadd]
      have hnext := (returns_nextPage rng hpage).value
        (pick rng (eventTypeWeights page) (rng.getrandbits 128 s).2).2
      obtain ⟨hemits, hevents⟩ := ih hnext
        (nextPage rng page (pick rng (eventTypeWeights page) (rng.getrandbits 128 s).2).2).2 next
      refine ⟨⟨?_, ?_⟩, List.forall_mem_cons.mpr ⟨hevent, hevents⟩⟩
      · rw [clocks, htick, Option.elim_some, List.map_cons, List.map_cons, hemits.times, hfields]
        rfl
      · rw [clockAfter, htick, Option.bind_some]
        exact hemits.ends

theorem Sessions.take {l : List ClickEvent} (h : Sessions l) (n : Nat) : Sessions (l.take n) := by
  induction h generalizing n with
  | cut hevents hmax =>
    refine .cut (fun e he => hevents e (List.mem_of_mem_take he)) ?_
    exact (List.length_take_le' _ _).trans hmax
  | @next session events rest hevents hmin hmax hrest ih =>
    by_cases hn : n ≤ events.length
    · rw [List.take_append_of_le_length hn]
      refine .cut (fun e he => hevents e (List.mem_of_mem_take he)) ?_
      exact (List.length_take_le' _ _).trans hmax
    · obtain ⟨m, rfl⟩ : ∃ m, n = events.length + m := ⟨n - events.length, by omega⟩
      rw [List.take_length_add_append]
      exact .next hevents hmin hmax (ih m)

/-- The first `n` sessions have at least `n` events, since none is empty. -/
theorem iterEvents_spec (py : Interpreter) (rng : Random σ) (hrate : 0 < rate) (n : Nat) (s : σ)
    (clock : Clock) :
    (∃ count, n ≤ count ∧ Emits hrate count clock (iterEvents py rng hrate n s clock)) ∧
      Sessions (iterEvents py rng hrate n s clock).events := by
  induction n generalizing s clock with
  | zero =>
    refine ⟨⟨0, Nat.le_refl 0, rfl, .inl ⟨_, rfl, rfl⟩⟩, ?_⟩
    exact @Sessions.cut (newSession rng s).1.1 [] (fun _ he => nomatch he) (Nat.zero_le _)
  | succ n ih =>
    obtain ⟨hsession, hpage⟩ := (returns_newSession rng).value s
    obtain ⟨hmin, hmax⟩ := (newSession rng s).1.2.2.property
    obtain ⟨hfirst, hevents⟩ := sessionEvents_spec py rng hrate hsession
      (newSession rng s).1.2.2.val hpage (newSession rng s).2 clock
    have hlength := hfirst.length
    rw [iterEvents]
    rcases hfirst.ends with ⟨⟨s', clock'⟩, hresult, hafter⟩ | ⟨hresult, hafter⟩
    · simp only [hresult]
      obtain ⟨⟨count, hcount, hrest⟩, hsessions⟩ := ih s' clock'
      rw [length_clocks_of_some hafter] at hlength
      refine ⟨⟨(newSession rng s).1.2.2.val + count, ?_, ?_, ?_⟩, ?_⟩
      · unfold sessionMinEvents at hmin
        omega
      · rw [clocks_add hafter, List.map_append, List.map_append, hfirst.times, hrest.times]
      · rw [clockAfter_add, hafter, Option.bind_some]
        exact hrest.ends
      · exact .next hevents (hmin.trans_eq hlength.symm) (hlength.trans_le hmax) hsessions
    · simp only [hresult]
      refine ⟨⟨(newSession rng s).1.2.2.val + n, ?_, ?_, .inr ⟨rfl, ?_⟩⟩, ?_⟩
      · unfold sessionMinEvents at hmin
        omega
      · rw [clocks_add_of_none hafter, hfirst.times]
      · rw [clockAfter_add, hafter, Option.bind_none]
      · refine .cut hevents (hlength.trans_le ?_)
        exact (length_clocks_le _ _).trans hmax

/-- As long as the clock does not leave year 9999, `generate` returns what was asked for. -/
theorem generate_spec (py : Interpreter) (rng : Random σ) {n : Nat} (s : σ) {clock : Clock}
    (hrange : (clocks hrate n clock).length = n) :
    ∃ events, generate py rng hrate n s clock = .ok events ∧ Sessions events ∧
      events.map (fun e => e.fields.ts) =
        (clocks hrate n clock).map fun c => strftime c.moment tsFormat := by
  obtain ⟨⟨count, hcount, hemits⟩, hsessions⟩ :=
    iterEvents_spec py rng hrate n s clock
  have hlength : n ≤ (iterEvents py rng hrate n s clock).events.length := by
    rw [hemits.length, ← hrange, ← take_clocks hcount, List.length_take]
    exact Nat.min_le_right _ _
  refine ⟨_, if_pos hlength, hsessions.take n, ?_⟩
  rw [List.map_take, hemits.times, ← List.map_take, take_clocks hcount]

/-- What `generate` returns are the first events of the simulator. -/
theorem firstEvents_of_generate {n : Nat} (seed : Int) {start : DateTime} {events : List ClickEvent}
    (h : generate py rng hrate n (rng.init seed) ⟨start, 0, by decide⟩ = .ok events) :
    firstEvents py rng hrate seed start n = events := by
  rw [generate] at h
  split at h
  · exact Except.ok.inj h
  · rename_i hlength
    cases hresult : (iterEvents py rng hrate n (rng.init seed) ⟨start, 0, by decide⟩).result with
    | error stop => rw [hresult] at h; cases h
    | ok final =>
      rw [hresult] at h
      cases h
      exact List.take_of_length_le (by omega)

/-- Whatever the random numbers, `generate` returns valid events in sessions. -/
theorem generate_sessions (py : Interpreter) (rng : Random σ) (hrate : 0 < rate) (n : Nat) (s : σ)
    (clock : Clock) (hrange : (clocks hrate n clock).length = n) :
    ∃ events, generate py rng hrate n s clock = .ok events ∧ events.length = n ∧
      Sessions events := by
  obtain ⟨events, hgenerate, hsessions, htimes⟩ := generate_spec py rng s hrange
  have hlength := congrArg List.length htimes
  rw [List.length_map, List.length_map, hrange] at hlength
  exact ⟨events, hgenerate, hlength, hsessions⟩

theorem length_firstEvents (py : Interpreter) (rng : Random σ) {n : Nat} (seed : Int) {start : DateTime}
    (hrange : (clocks hrate n ⟨start, 0, by decide⟩).length = n) :
    (firstEvents py rng hrate seed start n).length = n := by
  obtain ⟨events, hgenerate, hlength, -⟩ := generate_sessions py rng hrate n (rng.init seed) _ hrange
  rw [firstEvents_of_generate seed hgenerate, hlength]

theorem firstEvents_one_ne_nil (py : Interpreter) (rng : Random σ) (hrate : 0 < rate) (seed : Int)
    (start : DateTime) : firstEvents py rng hrate seed start 1 ≠ [] := by
  have hlength := length_firstEvents py rng seed (length_clocks_one hrate ⟨start, 0, by decide⟩)
  exact List.ne_nil_of_length_eq_add_one hlength

/-! ### Timestamps -/

theorem fields_le_clocks (n : Nat) {clock : Clock} :
    ∀ c ∈ clocks hrate n clock, clock.moment.fields ≤ c.moment.fields := by
  induction n generalizing clock with
  | zero => exact fun _ hc => nomatch hc
  | succ n ih =>
    intro c hc
    rcases List.mem_cons.mp hc with rfl | hc
    · exact le_refl _
    · cases htick : tick hrate clock with
      | none => rw [htick] at hc; cases hc
      | some next =>
        rw [htick, Option.elim_some] at hc
        exact (Clock.fields_le_add htick).trans (ih c hc)

theorem pairwise_clocks (n : Nat) (clock : Clock) :
    (clocks hrate n clock).Pairwise fun c c' => c.moment.fields ≤ c'.moment.fields := by
  induction n generalizing clock with
  | zero => exact .nil
  | succ n ih =>
    rw [clocks]
    cases htick : tick hrate clock with
    | none => exact List.pairwise_singleton _ _
    | some next =>
      refine .cons (fun c hc => ?_) (ih next)
      exact (Clock.fields_le_add htick).trans (fields_le_clocks n c hc)

/-- The timestamps of the events do not decrease as strings, and the validator reads back the clock. -/
theorem generate_timestamps (py : Interpreter) (rng : Random σ) (hrate : 0 < rate) (n : Nat) (s : σ)
    (clock : Clock) (hrange : (clocks hrate n clock).length = n) :
    ∃ events, generate py rng hrate n s clock = .ok events ∧
      (events.map fun e => e.fields.ts).Pairwise (fun ts ts' => ts ≤ ts') ∧
      events.map (fun e => strptime e.fields.ts tsFormat) =
        (clocks hrate n clock).map fun c => some c.moment := by
  obtain ⟨events, hgenerate, -, htimes⟩ := generate_spec py rng s hrange
  refine ⟨events, hgenerate, ?_, ?_⟩
  · rw [htimes, List.pairwise_map]
    exact (pairwise_clocks n clock).imp DateTime.strftime_le
  · have hread := congrArg (List.map fun ts => strptime ts tsFormat) htimes
    rw [List.map_map, List.map_map] at hread
    exact hread.trans (List.map_congr_left fun c _ => strptime_strftime c.moment)

end Events

/-- Random numbers that are as low as they can be. -/
def lowest : Random Unit where
  init _ := ()
  getrandbits k s := (⟨0, Nat.two_pow_pos k⟩, s)
  random s := (⟨0, Nat.two_pow_pos 53⟩, s)
  randint a _ h s := (⟨a, Nat.le_refl a, h⟩, s)
  choices _ h s := (⟨0, List.length_pos_iff.mpr h⟩, s)

/-- Five events of which the year changes behind the second. -/
theorem exists_newYear : ∃ clock : Clock, clock.moment.year = 2026 ∧
    (clocks (Nat.succ_pos 99) 5 clock).length = 5 :=
  ⟨⟨⟨2026, 12, 31, 23, 59, 59, by decide, by decide, by decide, by decide, by decide, by decide⟩,
    980000, by decide⟩, rfl, by decide +kernel⟩

theorem generate_sessions_newYear : ∃ clock : Clock, clock.moment.year = 2026 ∧ ∃ events,
    generate cpython lowest (Nat.succ_pos 99) 5 () clock = .ok events ∧ events.length = 5 ∧
      Sessions events := by
  obtain ⟨clock, hyear, hrange⟩ := exists_newYear
  exact ⟨clock, hyear, generate_sessions cpython lowest (Nat.succ_pos 99) 5 () clock hrange⟩

theorem generate_timestamps_newYear : ∃ clock : Clock, clock.moment.year = 2026 ∧ ∃ events,
    generate cpython lowest (Nat.succ_pos 99) 5 () clock = .ok events ∧
      (events.map fun e => e.fields.ts).Pairwise (fun ts ts' => ts ≤ ts') := by
  obtain ⟨clock, hyear, hrange⟩ := exists_newYear
  obtain ⟨events, hgenerate, hordered, -⟩ :=
    generate_timestamps cpython lowest (Nat.succ_pos 99) 5 () clock hrange
  exact ⟨clock, hyear, events, hgenerate, hordered⟩

end Clickstream.Simulator
