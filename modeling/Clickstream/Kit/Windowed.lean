import Clickstream.Kit.View

/-! Incremental evaluation of a grouped view over time windows.  A query reads its input in batches
and keeps the values of each group; a watermark, `delay` behind the latest event time of earlier
batches, decides which windows are closed.  Values of a closed window may be dropped, and the query
may forget a group whose window is closed. -/

namespace Clickstream.Kit

/-- A grouped view whose groups belong to windows of time. -/
structure WindowedView (α κ : Type) {ρ π : Type} (primaryKey : ρ → π) extends
    View α κ primaryKey where
  eventTime : α → Option Int
  windowEnd : κ → Int
  delay : Int
  lt_windowEnd : ∀ {e k}, key e = some k → ∃ t, eventTime e = some t ∧ t < windowEnd k

/-- What a query keeps between batches. -/
structure QueryState (α κ : Type) where
  latest : Option Int
  groups : κ → List α

def QueryState.initial {α κ : Type} : QueryState α κ := ⟨none, fun _ => []⟩

namespace WindowedView

variable {α κ ρ π : Type} [DecidableEq κ] {primaryKey : ρ → π} (v : WindowedView α κ primaryKey)

def observe (latest : Option Int) (batch : List α) : Option Int :=
  batch.foldl (fun t e => max t (v.eventTime e)) latest

/-- The window ends at or before the watermark. -/
def Closed (latest : Option Int) (k : κ) : Prop := ∃ t, latest = some t ∧ v.windowEnd k ≤ t - v.delay

instance (latest : Option Int) (k : κ) : Decidable (v.Closed latest k) :=
  match latest with
  | none => isFalse fun ⟨_, h, _⟩ => nomatch h
  | some t =>
    if h : v.windowEnd k ≤ t - v.delay then isTrue ⟨t, rfl, h⟩
    else isFalse fun ⟨_, ht, hle⟩ => h (Option.some.inj ht ▸ hle)

def Late (latest : Option Int) (e : α) : Prop := ∃ k, v.key e = some k ∧ v.Closed latest k

instance (latest : Option Int) (e : α) : Decidable (v.Late latest e) :=
  match h : v.key e with
  | none => isFalse fun ⟨_, hk, _⟩ => nomatch h.symm.trans hk
  | some k => decidable_of_iff (v.Closed latest k)
      ⟨fun hc => ⟨k, h, hc⟩, fun ⟨_, hk, hc⟩ => Option.some.inj (h.symm.trans hk) ▸ hc⟩

/-- A row for each group that `kept` adds to, over all its values so far. -/
def output (s : QueryState α κ) (kept : List α) : List ρ :=
  (groupKeys v.key kept).map fun k => v.row k (s.groups k ++ group v.key kept k)

def advance (s : QueryState α κ) (batch kept : List α) : QueryState α κ :=
  ⟨v.observe s.latest batch, fun k => s.groups k ++ group v.key kept k⟩

/-- A query in state `s` reads a batch, drops the values that satisfy `drop`, emits `rows` and goes
on in state `s'`, where it may have forgotten groups whose window is closed. -/
structure Emits (drop : α → Bool) (s : QueryState α κ) (batch : List α) (rows : List ρ)
    (s' : QueryState α κ) : Prop where
  latest : s'.latest = v.observe s.latest batch
  groups : ∀ k,
    s'.groups k = s.groups k ++ group v.key (batch.filter fun e => !drop e) k ∨
      s'.groups k = [] ∧ v.Closed s'.latest k
  rows : rows.Perm (v.output s (batch.filter fun e => !drop e))

/-- The state holds the groups of `l`, but for closed windows. -/
def Tracks (s : QueryState α κ) (l : List α) : Prop :=
  ∀ k, s.groups k = group v.key l k ∨ v.Closed s.latest k

variable {v}

theorem tracks_initial : v.Tracks .initial [] := fun _ => .inl rfl

omit [DecidableEq κ] in
@[simp] theorem observe_append (latest : Option Int) (l m : List α) :
    v.observe latest (l ++ m) = v.observe (v.observe latest l) m := List.foldl_append ..

omit [DecidableEq κ] in
theorem le_observe {t : Int} (l : List α) :
    ∃ t', v.observe (some t) l = some t' ∧ t ≤ t' := by
  induction l generalizing t with
  | nil => exact ⟨t, rfl, Int.le_refl t⟩
  | cons e l ih =>
    rw [observe, List.foldl_cons, ← observe]
    cases v.eventTime e with
    | none => exact ih
    | some u =>
      obtain ⟨t', ht', hle⟩ := ih (t := max t u)
      exact ⟨t', ht', by omega⟩

omit [DecidableEq κ] in
theorem exists_of_observe {latest : Option Int} {l : List α} {t : Int}
    (h : v.observe latest l = some t) :
    latest = some t ∨ ∃ e ∈ l, v.eventTime e = some t := by
  induction l generalizing latest with
  | nil => exact .inl h
  | cons e l ih =>
    rw [observe, List.foldl_cons, ← observe] at h
    rcases ih h with hmax | ⟨e', he', ht⟩
    · cases latest with
      | none => exact .inr ⟨e, List.mem_cons_self, by simpa using hmax⟩
      | some u =>
        cases he : v.eventTime e with
        | none => exact .inl (by simpa [he] using hmax)
        | some w =>
          have hmax' : max u w = t := by simpa [he] using hmax
          by_cases hle : u ≤ w
          · obtain rfl : w = t := by omega
            exact .inr ⟨e, List.mem_cons_self, he⟩
          · obtain rfl : u = t := by omega
            exact .inl rfl
    · exact .inr ⟨e', List.mem_cons_of_mem _ he', ht⟩

omit [DecidableEq κ] in
theorem le_observe_of_mem {latest : Option Int} {l : List α} {e : α} {t : Int} (he : e ∈ l)
    (ht : v.eventTime e = some t) : ∃ t', v.observe latest l = some t' ∧ t ≤ t' := by
  obtain ⟨l₁, l₂, rfl⟩ := List.append_of_mem he
  rw [observe_append, observe, List.foldl_cons, ← observe, ht]
  cases v.observe latest l₁ with
  | none => exact le_observe l₂
  | some u =>
    obtain ⟨t', ht', hle⟩ := v.le_observe (t := max u t) l₂
    exact ⟨t', ht', by omega⟩

omit [DecidableEq κ] in
theorem Closed.observe {latest : Option Int} {k : κ} (h : v.Closed latest k) (batch : List α) :
    v.Closed (v.observe latest batch) k := by
  obtain ⟨t, rfl, hle⟩ := h
  obtain ⟨t', ht', htt'⟩ := v.le_observe (t := t) batch
  exact ⟨t', ht', by omega⟩

theorem emits_output (v : WindowedView α κ primaryKey) (drop : α → Bool) (s : QueryState α κ)
    (batch : List α) :
    v.Emits drop s batch (v.output s (batch.filter fun e => !drop e))
      (v.advance s batch (batch.filter fun e => !drop e)) :=
  ⟨rfl, fun _ => .inl rfl, List.Perm.refl _⟩

section Batch

variable {drop : α → Bool} {s s' : QueryState α κ} {batch : List α} {rows : List ρ} {l : List α}

/-- When no value kept is late, the rows are those of the groups that grew. -/
theorem Emits.perm_touched (h : v.Emits drop s batch rows s') (hl : v.Tracks s l)
    (hopen : ∀ e ∈ batch, drop e = false → ¬v.Late s.latest e) :
    rows.Perm (v.touched l (batch.filter fun e => !drop e)) := by
  refine h.rows.trans (List.Perm.of_eq ?_)
  apply List.map_congr_left
  intro k hk
  obtain ⟨e, he, hek⟩ := mem_groupKeys.mp hk
  rw [List.mem_filter, Bool.not_eq_true'] at he
  rcases hl k with hgroup | hclosed
  · rw [hgroup, group_append]
  · exact absurd ⟨k, hek, hclosed⟩ (hopen e he.1 he.2)

theorem Emits.tracks (h : v.Emits drop s batch rows s') (hl : v.Tracks s l) :
    v.Tracks s' (l ++ batch.filter fun e => !drop e) := by
  intro k
  rcases h.groups k with hgroup | ⟨-, hclosed⟩
  · rcases hl k with hk | hclosed
    · rw [hgroup, hk, group_append]
      exact .inl rfl
    · rw [h.latest]
      exact .inr (hclosed.observe batch)
  · exact .inr hclosed

end Batch

/-! ### Exact runs -/

/-- A query that drops exactly the late events emits the micro-batches `out` for its input. -/
inductive Runs (v : WindowedView α κ primaryKey) :
    QueryState α κ → List (List α) → List (List ρ) → Prop
  | done (s : QueryState α κ) : Runs v s [] []
  | next {s s' : QueryState α κ} {batch : List α} {batches : List (List α)} {rows : List ρ}
      {out : List (List ρ)} (hemits : v.Emits (fun e => decide (v.Late s.latest e)) s batch rows s')
      (hrest : Runs v s' batches out) : Runs v s (batch :: batches) (rows :: out)

/-- The events that are not late in the micro-batch in which they arrive. -/
def onTime (v : WindowedView α κ primaryKey) (latest : Option Int) : List (List α) → List α
  | [] => []
  | batch :: batches =>
    (batch.filter fun e => !decide (v.Late latest e)) ++ onTime v (v.observe latest batch) batches

omit [DecidableEq κ] in
@[simp] theorem observe_flatten_cons (latest : Option Int) (batch : List α) (batches : List (List α)) :
    v.observe latest (batch :: batches).flatten = v.observe (v.observe latest batch) batches.flatten := by
  rw [List.flatten_cons, observe_append]

omit [DecidableEq κ] in
theorem onTime_append (latest : Option Int) (before after : List (List α)) :
    v.onTime latest (before ++ after) =
      v.onTime latest before ++ v.onTime (v.observe latest before.flatten) after := by
  induction before generalizing latest with
  | nil => rfl
  | cons batch before ih =>
    rw [List.cons_append, onTime, onTime, ih, observe_flatten_cons, List.append_assoc]

omit [DecidableEq κ] in
theorem onTime_concat (latest : Option Int) (before : List (List α)) (batch : List α) :
    v.onTime latest (before ++ [batch]) = v.onTime latest before ++
      batch.filter fun e => !decide (v.Late (v.observe latest before.flatten) e) := by
  rw [onTime_append, onTime, onTime, List.append_nil]

/-- What one micro-batch does: its rows are those of the groups that the events on time add to. -/
theorem emits_onTime {s s' : QueryState α κ} {batch : List α} {rows : List ρ} {l : List α}
    (h : v.Emits (fun e => decide (v.Late s.latest e)) s batch rows s') (hl : v.Tracks s l) :
    rows.Perm (v.touched l (batch.filter fun e => !decide (v.Late s.latest e))) ∧
      v.Tracks s' (l ++ batch.filter fun e => !decide (v.Late s.latest e)) :=
  ⟨h.perm_touched hl fun _ _ he => of_decide_eq_false he, h.tracks hl⟩

theorem Runs.nodup {s : QueryState α κ} {batches : List (List α)} {out : List (List ρ)}
    (h : Runs v s batches out) {l : List α} (hl : v.Tracks s l) :
    ∀ rows ∈ out, (rows.map primaryKey).Nodup := by
  induction h generalizing l with
  | done s => exact nofun
  | next hemits hrest ih =>
    obtain ⟨htouched, htracks⟩ := emits_onTime hemits hl
    rw [List.forall_mem_cons]
    exact ⟨(htouched.map primaryKey).nodup_iff.mpr (View.nodup_touched _ _), ih htracks⟩

/-- A table that takes in what a query emits holds the view of the events on time. -/
theorem Runs.holds [DecidableEq π] {s : QueryState α κ} {batches : List (List α)} {out : List (List ρ)}
    (h : Runs v s batches out) {l : List α} (hl : v.Tracks s l) {t : Table primaryKey}
    (ht : v.Holds t l) : v.Holds (t.putAll out) (l ++ onTime v s.latest batches) := by
  induction h generalizing l t with
  | done s => rwa [onTime, List.append_nil]
  | next hemits hrest ih =>
    obtain ⟨htouched, htracks⟩ := emits_onTime hemits hl
    have hnext := ih htracks (View.Holds.foldl_put (.inl ht) htouched)
    rw [hemits.latest, List.append_assoc] at hnext
    exact hnext

def runOut (v : WindowedView α κ primaryKey) (s : QueryState α κ) :
    List (List α) → List (List ρ)
  | [] => []
  | batch :: batches =>
    let kept := batch.filter fun e => !decide (v.Late s.latest e)
    v.output s kept :: runOut v (v.advance s batch kept) batches

theorem runs_runOut (v : WindowedView α κ primaryKey) (s : QueryState α κ)
    (batches : List (List α)) : Runs v s batches (runOut v s batches) := by
  induction batches generalizing s with
  | nil => exact .done s
  | cons batch batches ih => exact .next (v.emits_output _ s batch) (ih _)

/-- A query emits `out` for `l`, in some cut into batches in which no value is late. -/
def RunsOnTime (v : WindowedView α κ primaryKey) (l : List α) (out : List (List ρ)) : Prop :=
  ∃ batches, batches.flatten = l ∧ v.onTime none batches = l ∧ v.Runs .initial batches out

theorem RunsOnTime.holds [DecidableEq π] {l : List α} {out : List (List ρ)}
    (h : v.RunsOnTime l out) : v.Holds (Table.empty.putAll out) l := by
  obtain ⟨batches, -, hontime, hruns⟩ := h
  have hholds := hruns.holds tracks_initial View.holds_empty
  rwa [List.nil_append, show (QueryState.initial : QueryState α κ).latest = none from rfl,
    hontime] at hholds

theorem RunsOnTime.nodup {l : List α} {out : List (List ρ)} (h : v.RunsOnTime l out) :
    ∀ rows ∈ out, (rows.map primaryKey).Nodup := by
  obtain ⟨batches, -, -, hruns⟩ := h
  exact hruns.nodup tracks_initial

theorem runsOnTime_single (v : WindowedView α κ primaryKey) (l : List α) :
    v.RunsOnTime l [v.output .initial l] := by
  have hkept : (l.filter fun e => !decide (v.Late none e)) = l := by
    rw [List.filter_eq_self]
    rintro e -
    rw [Bool.not_eq_true', decide_eq_false_iff_not]
    rintro ⟨_, _, _, hnone, _⟩
    cases hnone
  refine ⟨[l], List.flatten_singleton, ?_, ?_⟩
  · rw [onTime, onTime, hkept, List.append_nil]
  · have hruns := v.runs_runOut .initial [l]
    simp only [runOut] at hruns
    rwa [show (QueryState.initial : QueryState α κ).latest = none from rfl, hkept] at hruns

/-! ### Values that close windows -/

/-- The window of `e'` is closed once `e` has been read. -/
def Closes (v : WindowedView α κ primaryKey) (e e' : α) : Prop :=
  ∃ t k, v.eventTime e = some t ∧ v.key e' = some k ∧ v.windowEnd k ≤ t - v.delay

omit [DecidableEq κ] in
theorem not_closes_self (hdelay : 0 ≤ v.delay) (e : α) : ¬v.Closes e e := by
  rintro ⟨t, k, ht, hk, hle⟩
  obtain ⟨t', ht', hlt⟩ := v.lt_windowEnd hk
  rw [ht, Option.some_inj] at ht'
  omega

omit [DecidableEq κ] in
theorem late_observe_iff {l : List α} {e : α} :
    v.Late (v.observe none l) e ↔ ∃ e₀ ∈ l, v.Closes e₀ e := by
  constructor
  · rintro ⟨k, hk, t, ht, hle⟩
    rcases exists_of_observe ht with hnone | ⟨e₀, he₀, ht₀⟩
    · cases hnone
    · exact ⟨e₀, he₀, t, k, ht₀, hk, hle⟩
  · rintro ⟨e₀, he₀, t, k, ht₀, hk, hle⟩
    obtain ⟨t', ht', htt'⟩ : ∃ t', v.observe none l = some t' ∧ t ≤ t' :=
      le_observe_of_mem he₀ ht₀
    exact ⟨k, hk, t', ht', by omega⟩

omit [DecidableEq κ] in
theorem Late.observe {latest : Option Int} {e : α} (h : v.Late latest e) (batch : List α) :
    v.Late (v.observe latest batch) e := by
  obtain ⟨k, hk, hclosed⟩ := h
  exact ⟨k, hk, hclosed.observe batch⟩

omit [DecidableEq κ] in
theorem onTime_sublist (latest : Option Int) (batches : List (List α)) :
    (v.onTime latest batches).Sublist batches.flatten := by
  induction batches generalizing latest with
  | nil => exact List.Sublist.refl []
  | cons batch batches ih =>
    rw [onTime, List.flatten_cons]
    exact List.filter_sublist.append (ih _)

omit [DecidableEq κ] in
theorem not_late_of_mem_onTime {latest : Option Int} {batches : List (List α)} {e : α}
    (he : e ∈ v.onTime latest batches) : ¬v.Late latest e := by
  induction batches generalizing latest with
  | nil => cases he
  | cons batch batches ih =>
    rcases List.mem_append.mp he with hmem | hmem
    · have hkept := (List.mem_filter.mp hmem).2
      simpa using hkept
    · exact fun hlate => ih hmem (hlate.observe batch)

omit [DecidableEq κ] in
/-- Nothing is dropped when no value closes the window of a value in a later batch. -/
theorem onTime_eq_flatten {l : List α} {batches : List (List α)}
    (h : (l :: batches).Pairwise fun b b' => ∀ e ∈ b, ∀ e' ∈ b', ¬v.Closes e e') :
    v.onTime (v.observe none l) batches = batches.flatten := by
  induction batches generalizing l with
  | nil => rfl
  | cons batch batches ih =>
    obtain ⟨hl, hrest⟩ := List.pairwise_cons.mp h
    obtain ⟨hbatch, hbatches⟩ := List.pairwise_cons.mp hrest
    have hkept : (batch.filter fun e => !decide (v.Late (v.observe none l) e)) = batch := by
      rw [List.filter_eq_self]
      intro e' he'
      rw [Bool.not_eq_true', decide_eq_false_iff_not, late_observe_iff]
      rintro ⟨e, he, hcloses⟩
      exact hl batch List.mem_cons_self e he e' he' hcloses
    rw [onTime, hkept, List.flatten_cons, ← observe_append, ih]
    refine List.pairwise_cons.mpr ⟨fun later hlater e he => ?_, hbatches⟩
    rcases List.mem_append.mp he with he | he
    · exact hl later (List.mem_cons_of_mem _ hlater) e he
    · exact hbatch later hlater e he

/-! ### Bounded disorder -/

/-- No value is more than `delay` older than a value in front of it. -/
def BoundedDisorder (v : WindowedView α κ primaryKey) (l : List α) : Prop :=
  l.Pairwise fun e e' => ∀ t t', v.eventTime e = some t → v.eventTime e' = some t' →
    t - v.delay ≤ t'

omit [DecidableEq κ] in
theorem BoundedDisorder.pairwise {l : List α} (h : v.BoundedDisorder l) :
    l.Pairwise fun e e' => ¬v.Closes e e' := by
  refine List.Pairwise.imp ?_ h
  rintro e e' hbound ⟨t, k, ht, hk, hle⟩
  obtain ⟨t', ht', hlt⟩ := v.lt_windowEnd hk
  have hdelay := hbound t t' ht ht'
  omega

omit [DecidableEq κ] in
theorem BoundedDisorder.not_late {l : List α} {e : α} {rest : List α}
    (h : v.BoundedDisorder (l ++ rest)) (he : e ∈ rest) : ¬v.Late (v.observe none l) e := by
  rw [late_observe_iff]
  rintro ⟨e₀, he₀, hcloses⟩
  exact (List.pairwise_append.mp h.pairwise).2.2 e₀ he₀ e he hcloses

/-! ### One more value -/

section Insert

variable {before after : List (List α)} {left right : List α} {x : α}

omit [DecidableEq κ] in
/-- A value that closes no window of a later value drops none of the values around it. -/
theorem sublist_onTime_of_not_closes
    (h : v.BoundedDisorder (before.flatten ++ (left ++ right) ++ after.flatten))
    (hx : ∀ e ∈ after.flatten, ¬v.Closes x e) :
    (before.flatten ++ (left ++ right) ++ after.flatten).Sublist
      (v.onTime none (before ++ (left ++ x :: right) :: after)) := by
  obtain ⟨hfront, hafter, hacross⟩ := List.pairwise_append.mp h.pairwise
  obtain ⟨hbefore, -, hbatch⟩ := List.pairwise_append.mp hfront
  have hbeforeKept : v.onTime none before = before.flatten := by
    refine onTime_eq_flatten (l := []) (List.pairwise_cons.mpr ⟨?_, (List.pairwise_flatten.mp hbefore).2⟩)
    exact fun _ _ _ he => (List.not_mem_nil he).elim
  have hafterKept : v.onTime (v.observe none (before.flatten ++ (left ++ x :: right))) after =
      after.flatten := by
    refine onTime_eq_flatten (List.pairwise_cons.mpr ⟨?_, (List.pairwise_flatten.mp hafter).2⟩)
    intro batch hmem e he e' he'
    have hlater : e' ∈ after.flatten := List.mem_flatten.mpr ⟨batch, hmem, he'⟩
    rcases eq_or_ne e x with rfl | hne
    · exact hx e' hlater
    · have hearlier : e ∈ before.flatten ++ (left ++ right) := by
        simp only [List.mem_append, List.mem_cons, hne, false_or] at he ⊢
        exact he
      exact hacross e hearlier e' hlater
  -- `x` itself may be late
  have hbatchKept : (left ++ right).filter (fun e => !decide (v.Late (v.observe none before.flatten) e)) =
      left ++ right := by
    rw [List.filter_eq_self]
    intro e he
    rw [Bool.not_eq_true', decide_eq_false_iff_not, late_observe_iff]
    rintro ⟨e₀, he₀, hcloses⟩
    exact hbatch e₀ he₀ e he hcloses
  rw [onTime_append, onTime, hbeforeKept, ← observe_append, hafterKept, List.append_assoc]
  have hsublist : (left ++ right).Sublist (left ++ x :: right) :=
    (List.sublist_cons_self x right).append_left left
  refine ((List.Sublist.append_right ?_ _).append_left _)
  rw [← hbatchKept]
  exact hsublist.filter _

omit [DecidableEq κ] in
/-- A value that closes the window of a later value has it dropped. -/
theorem not_closes_of_sublist_onTime (hdelay : 0 ≤ v.delay)
    (h : (before.flatten ++ (left ++ right) ++ after.flatten).Sublist
      (v.onTime none (before ++ (left ++ x :: right) :: after))) :
    ∀ e ∈ after.flatten, ¬v.Closes x e := by
  intro e he hcloses
  classical
  -- the values whose window `x` closes: among the later ones none is kept
  let closed : α → Bool := fun e => decide (v.Closes x e)
  have hself : closed x = false := decide_eq_false (not_closes_self hdelay x)
  have hpos : 0 < after.flatten.countP closed :=
    List.countP_pos_iff.mpr ⟨e, he, decide_eq_true hcloses⟩
  have hlater : (v.onTime (v.observe none (before ++ [left ++ x :: right]).flatten) after).countP
      closed = 0 := by
    rw [List.countP_eq_zero]
    intro e' he' hclosed
    refine not_late_of_mem_onTime he' (late_observe_iff.mpr ⟨x, ?_, of_decide_eq_true hclosed⟩)
    simp
  have hfront : (v.onTime none (before ++ [left ++ x :: right])).countP closed ≤
      (before ++ [left ++ x :: right]).flatten.countP closed := (v.onTime_sublist none _).countP_le
  have hcount := h.countP_le (p := closed)
  rw [List.append_cons before, onTime_append] at hcount
  simp only [List.countP_append, hlater] at hcount
  simp only [List.flatten_append, List.flatten_singleton, List.countP_append, List.countP_cons,
    hself, Bool.false_eq_true, if_false] at hcount hfront
  omega

end Insert

end WindowedView

end Clickstream.Kit
