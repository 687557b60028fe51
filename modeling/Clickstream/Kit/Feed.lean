import Clickstream.Kit.Log
import Clickstream.Kit.Windowed
import Mathlib.Logic.Relation

/-! Queries that keep a log of rows up to date with the values they consume.  A batch may be executed
several times, the last time to its end, and parts of the log may be merged in between. -/

namespace Clickstream.Kit

section Feed

variable {α ρ κ σ : Type} [DecidableEq κ]

/-- A query that appends rows for one batch of values after the other. -/
structure Feed (α σ : Type) {ρ κ : Type} (key : ρ → κ) where
  initial : σ
  Emits : σ → List α → List ρ → σ → Prop
  /-- The state in which some values have been consumed. -/
  Tracks : σ → List α → Prop
  /-- What a read should find once some values are consumed. -/
  target : List α → κ → Option ρ
  /-- The parts of a batch that a read may find consumed while the batch is at hand. -/
  Cut : List α → List α → Prop

variable {key : ρ → κ} (feed : Feed α σ key)

/-- What the rows for a batch do to the reads, as long as the values are a prefix of `values`. -/
structure Feed.Lawful (values : List α) : Prop where
  initial : feed.Tracks feed.initial []
  target_nil : ∀ k, feed.target [] k = none
  cut_nil : ∀ batch, feed.Cut batch []
  cut_self : ∀ batch, feed.Cut batch batch
  tracks : ∀ {l batch rest s rows s'}, l ++ (batch ++ rest) = values → feed.Tracks s l →
    feed.Emits s batch rows s' → feed.Tracks s' (l ++ batch)
  whole : ∀ {l batch rest s rows s' k r}, l ++ (batch ++ rest) = values → feed.Tracks s l →
    feed.Emits s batch rows s' → lastRow key rows k = some r → feed.target (l ++ batch) k = some r
  written : ∀ {l batch rest s rows s' written k r}, l ++ (batch ++ rest) = values → feed.Tracks s l →
    feed.Emits s batch rows s' → written <+: rows → lastRow key written k = some r →
    ∃ m, feed.Cut batch m ∧ feed.target (l ++ m) k = some r
  untouched : ∀ {l batch rest s rows s' k m}, l ++ (batch ++ rest) = values → feed.Tracks s l →
    feed.Emits s batch rows s' → lastRow key rows k = none → feed.Cut batch m →
    feed.target (l ++ m) k = feed.target l k

/-- The query behind its last completed batch, the batches still to complete, and the stored parts. -/
structure FeedJob (α σ ρ : Type) where
  state : σ
  pending : List (List α)
  parts : List (List ρ)

def FeedJob.log (job : FeedJob α σ ρ) : List ρ := job.parts.flatten

/-- Parts are merged in the background, or the next batch is executed: the job dies after writing some
of its rows, or writes all of them and goes on. -/
inductive FeedStep (fits : ρ → Bool) (job : FeedJob α σ ρ) : FeedJob α σ ρ → Prop
  | merge {parts} (hmerge : Merges key job.parts parts) : FeedStep fits job { job with parts := parts }
  | crash {batch rest rows s'} (written : List (List ρ)) (hpending : job.pending = batch :: rest)
      (hemits : feed.Emits job.state batch rows s') (hwritten : written.flatten <+: rows)
      (hfits : written.flatten.all fits = true) :
      FeedStep fits job { job with parts := job.parts ++ written }
  | finish {batch rest rows s'} (written : List (List ρ)) (hpending : job.pending = batch :: rest)
      (hemits : feed.Emits job.state batch rows s') (hwritten : written.flatten = rows)
      (hfits : rows.all fits = true) : FeedStep fits job ⟨s', rest, job.parts ++ written⟩

def FeedReaches (fits : ρ → Bool) (batches : List (List α)) (job : FeedJob α σ ρ) : Prop :=
  Relation.ReflTransGen (FeedStep feed fits) ⟨feed.initial, batches, []⟩ job

/-- The job has consumed `l`; a read finds what it should behind `l` and a part of the next batch. -/
structure Feed.Consumed (values l : List α) (job : FeedJob α σ ρ) : Prop where
  tracks : feed.Tracks job.state l
  split : l ++ job.pending.flatten = values
  reads : ∀ k, ∃ m, (m = [] ∨ ∃ batch rest, job.pending = batch :: rest ∧ feed.Cut batch m) ∧
    lastRow key job.log k = feed.target (l ++ m) k

variable {feed} {fits : ρ → Bool} {values l : List α} {batches : List (List α)}
  {job job' : FeedJob α σ ρ}

theorem Feed.Consumed.start (hlaws : feed.Lawful values) (hbatches : batches.flatten = values) :
    feed.Consumed values [] ⟨feed.initial, batches, []⟩ where
  tracks := hlaws.initial
  split := hbatches
  reads k := ⟨[], .inl rfl, (hlaws.target_nil k).symm⟩

/-- What a read of one key finds while a batch is at hand. -/
theorem Feed.Consumed.cut (hlaws : feed.Lawful values) (h : feed.Consumed values l job)
    {batch : List α} {rest : List (List α)} (hpending : job.pending = batch :: rest) (k : κ) :
    ∃ m, feed.Cut batch m ∧ lastRow key job.log k = feed.target (l ++ m) k := by
  obtain ⟨m, rfl | ⟨batch', rest', hpending', hcut⟩, hread⟩ := h.reads k
  · exact ⟨[], hlaws.cut_nil batch, hread⟩
  · obtain ⟨rfl, -⟩ := List.cons.inj (hpending.symm.trans hpending')
    exact ⟨m, hcut, hread⟩

theorem Feed.Consumed.step (hlaws : feed.Lawful values) (h : feed.Consumed values l job)
    (hstep : FeedStep feed fits job job') : ∃ l', feed.Consumed values l' job' := by
  cases hstep with
  | @merge parts hmerge =>
    refine ⟨l, h.tracks, h.split, fun k => ?_⟩
    obtain ⟨m, hm, hread⟩ := h.reads k
    exact ⟨m, hm, (hmerge.sameReads k).symm.trans hread⟩
  | @crash batch rest rows s' written hpending hemits hwritten hfits =>
    have hsplit := h.split
    rw [hpending, List.flatten_cons] at hsplit
    refine ⟨l, h.tracks, h.split, fun k => ?_⟩
    have hlog : FeedJob.log { job with parts := job.parts ++ written } =
        job.log ++ written.flatten := List.flatten_append
    rw [hlog, lastRow_append]
    cases hlast : lastRow key written.flatten k with
    | none =>
      obtain ⟨m, hcut, hread⟩ := h.cut hlaws hpending k
      exact ⟨m, .inr ⟨batch, rest, hpending, hcut⟩, hread⟩
    | some r =>
      obtain ⟨m, hcut, htarget⟩ := hlaws.written hsplit h.tracks hemits hwritten hlast
      exact ⟨m, .inr ⟨batch, rest, hpending, hcut⟩, htarget.symm⟩
  | @finish batch rest rows s' written hpending hemits hwritten hfits =>
    have hsplit := h.split
    rw [hpending, List.flatten_cons] at hsplit
    refine ⟨l ++ batch, hlaws.tracks hsplit h.tracks hemits, ?_, fun k => ⟨[], .inl rfl, ?_⟩⟩
    · rw [List.append_assoc]
      exact hsplit
    · have hlog : FeedJob.log ⟨s', rest, job.parts ++ written⟩ = job.log ++ rows := by
        rw [FeedJob.log, List.flatten_append, hwritten]
        rfl
      rw [hlog, lastRow_append, List.append_nil]
      cases hlast : lastRow key rows k with
      | none =>
        -- the key is in no row of the batch, so no part of the batch changes what to find
        obtain ⟨m, hcut, hread⟩ := h.cut hlaws hpending k
        rw [Option.none_or, hread, hlaws.untouched hsplit h.tracks hemits hlast hcut,
          hlaws.untouched hsplit h.tracks hemits hlast (hlaws.cut_self batch)]
      | some r => exact (hlaws.whole hsplit h.tracks hemits hlast).symm

theorem consumed_of_feedReaches (hlaws : feed.Lawful values) (hbatches : batches.flatten = values)
    (h : FeedReaches feed fits batches job) : ∃ l, feed.Consumed values l job := by
  induction h with
  | refl => exact ⟨[], .start hlaws hbatches⟩
  | tail _ hstep ih =>
    obtain ⟨l, hl⟩ := ih
    exact hl.step hlaws hstep

/-- Once every batch is completed, a read finds what it should behind all the values. -/
theorem lastRow_of_feedReaches (hlaws : feed.Lawful values) (hbatches : batches.flatten = values)
    (h : FeedReaches feed fits batches job) (hpending : job.pending = []) (k : κ) :
    lastRow key job.log k = feed.target values k := by
  obtain ⟨l, hl⟩ := consumed_of_feedReaches hlaws hbatches h
  obtain ⟨m, rfl | ⟨batch, rest, hcons, -⟩, hread⟩ := hl.reads k
  · have hsplit := hl.split
    rw [hpending, List.flatten_nil] at hsplit
    rw [hread, hsplit]
  · rw [hpending] at hcons
    cases hcons

end Feed

/-! ### A row for each value -/

section Rows

variable {α ρ κ : Type} [DecidableEq κ] (key : ρ → κ) (row : α → ρ)

/-- Every value is appended as one row. -/
def rowFeed : Feed α Unit key where
  initial := ()
  Emits _ batch rows _ := rows = batch.map row
  Tracks _ _ := True
  target l := lastRow key (l.map row)
  Cut batch m := m <+: batch

variable {key row}

theorem lawful_rowFeed (values : List α) : (rowFeed key row).Lawful values where
  initial := trivial
  target_nil _ := rfl
  cut_nil batch := List.nil_prefix
  cut_self batch := List.prefix_rfl
  tracks _ _ _ := trivial
  whole := by
    rintro l batch rest s rows s' k r - - rfl hlast
    show lastRow key ((l ++ batch).map row) k = some r
    rw [List.map_append, lastRow_append, hlast, Option.some_or]
  written := by
    rintro l batch rest s rows s' written k r - - rfl hwritten hlast
    have htake := List.prefix_iff_eq_take.mp hwritten
    rw [← List.map_take] at htake
    refine ⟨batch.take written.length, List.take_prefix .., ?_⟩
    show lastRow key ((l ++ _).map row) k = some r
    rw [List.map_append, lastRow_append, ← htake, hlast, Option.some_or]
  untouched := by
    rintro l batch rest s rows s' k m - - rfl hlast hm
    have hnone : lastRow key (m.map row) k = none := by
      rw [lastRow_eq_none_iff] at hlast ⊢
      exact fun r hr => hlast r ((hm.sublist.map row).subset hr)
    show lastRow key ((l ++ m).map row) k = lastRow key (l.map row) k
    rw [List.map_append, lastRow_append, hnone, Option.none_or]

end Rows

/-! ### The rows of the groups that grew -/

section Windowed

variable {α κ ρ π : Type} [DecidableEq κ] [DecidableEq π] {primaryKey : ρ → π}
  (v : WindowedView α κ primaryKey)

/-- A batch, in which late values may be dropped, appends a row for each group that it adds to. -/
def WindowedView.feed : Feed α (QueryState α κ) primaryKey where
  initial := .initial
  Emits s batch rows s' :=
    ∃ drop, (∀ e ∈ batch, drop e = true → v.Late s.latest e) ∧ v.Emits drop s batch rows s'
  Tracks s l := s.latest = v.observe none l ∧ v.Tracks s l
  target l := lastRow primaryKey (v.rows l)
  Cut batch m := m = [] ∨ m = batch

variable {v} {values l batch rest : List α} {s s' : QueryState α κ} {rows : List ρ}

/-- Under bounded disorder no value is late. -/
theorem feed_emits_touched (hdisorder : v.BoundedDisorder values) (hsplit : l ++ (batch ++ rest) = values)
    (htracks : v.feed.Tracks s l) (hemits : v.feed.Emits s batch rows s') :
    rows.Perm (v.touched l batch) ∧ v.feed.Tracks s' (l ++ batch) := by
  obtain ⟨drop, hdrop, hemits⟩ := hemits
  obtain ⟨hlatest, htracks⟩ := htracks
  have hopen : ∀ e ∈ batch, ¬v.Late s.latest e := by
    intro e he
    rw [hlatest]
    exact (hsplit ▸ hdisorder).not_late (List.mem_append_left _ he)
  have hkept : (batch.filter fun e => !drop e) = batch := by
    rw [List.filter_eq_self]
    intro e he
    cases hd : drop e with
    | false => rfl
    | true => exact absurd (hdrop e he hd) (hopen e he)
  have htouched := hemits.perm_touched htracks fun e he _ => hopen e he
  have htracks' := hemits.tracks htracks
  rw [hkept] at htouched htracks'
  exact ⟨htouched, by rw [hemits.latest, hlatest, WindowedView.observe_append], htracks'⟩

/-- The row of a group behind `l` is found under its key. -/
theorem lastRow_viewRows {r : ρ} (h : r ∈ v.rows l) :
    lastRow primaryKey (v.rows l) (primaryKey r) = some r :=
  (lastRow_of_nodup (View.nodup_rows l)).mpr h

omit [DecidableEq π] in
theorem touched_subset_rows : v.touched l batch ⊆ v.rows (l ++ batch) := by
  intro r hr
  obtain ⟨k, hk, rfl⟩ := List.mem_map.mp hr
  exact mem_aggregate.mpr ⟨k, mem_groupKeys_append_right hk, rfl⟩

theorem lastRow_viewRows_append {p : π} (h : lastRow primaryKey (v.touched l batch) p = none) :
    lastRow primaryKey (v.rows (l ++ batch)) p = lastRow primaryKey (v.rows l) p := by
  have hget : ∀ m, lastRow primaryKey (v.rows m) p =
      (⟨v.rows m, View.nodup_rows m⟩ : Table primaryKey).get p :=
    fun m => lastRow_rows ⟨v.rows m, View.nodup_rows m⟩ p
  rw [hget, hget]
  by_cases hp : ∃ k, v.code k = p
  · obtain ⟨k, rfl⟩ := hp
    rw [(View.holds_rows _).get_code, (View.holds_rows _).get_code]
    apply View.viewRow_append_of_not_mem
    intro hk
    exact lastRow_eq_none_iff.mp h _ (List.mem_map_of_mem hk) (v.primaryKey_row k _)
  · have hother : ∀ k, v.code k ≠ p := fun k hk => hp ⟨k, hk⟩
    rw [(View.holds_rows _).get_other p hother, (View.holds_rows _).get_other p hother]

theorem lastRow_eq_none_of_perm {κ' : Type} [DecidableEq κ'] {key : ρ → κ'} {rows' : List ρ} {k : κ'}
    (hperm : rows.Perm rows') (h : lastRow key rows k = none) : lastRow key rows' k = none := by
  rw [lastRow_eq_none_iff] at h ⊢
  exact fun r hr => h r (hperm.mem_iff.mpr hr)

theorem target_of_mem (hdisorder : v.BoundedDisorder values) (hsplit : l ++ (batch ++ rest) = values)
    (htracks : v.feed.Tracks s l) (hemits : v.feed.Emits s batch rows s') {written : List ρ}
    (hwritten : written <+: rows) {p : π} {r : ρ} (hlast : lastRow primaryKey written p = some r) :
    v.feed.target (l ++ batch) p = some r := by
  obtain ⟨hr, rfl⟩ := mem_of_lastRow hlast
  obtain ⟨hperm, -⟩ := feed_emits_touched hdisorder hsplit htracks hemits
  exact lastRow_viewRows (touched_subset_rows (hperm.mem_iff.mp (hwritten.subset hr)))

theorem lawful_feed (hdisorder : v.BoundedDisorder values) : v.feed.Lawful values where
  initial := ⟨rfl, WindowedView.tracks_initial⟩
  target_nil _ := rfl
  cut_nil batch := .inl rfl
  cut_self batch := .inr rfl
  tracks hsplit htracks hemits := (feed_emits_touched hdisorder hsplit htracks hemits).2
  whole hsplit htracks hemits hlast :=
    target_of_mem hdisorder hsplit htracks hemits List.prefix_rfl hlast
  written hsplit htracks hemits hwritten hlast :=
    ⟨_, .inr rfl, target_of_mem hdisorder hsplit htracks hemits hwritten hlast⟩
  untouched := by
    rintro l batch rest s rows s' p m hsplit htracks hemits hlast (rfl | rfl)
    · rw [List.append_nil]
    · have hperm := (feed_emits_touched hdisorder hsplit htracks hemits).1
      exact lastRow_viewRows_append (lastRow_eq_none_of_perm hperm hlast)

/-- A read finds what it should behind the consumed values, or behind the next batch. -/
theorem reads_or {job : FeedJob α (QueryState α κ) ρ} (h : v.feed.Consumed values l job) (p : π) :
    lastRow primaryKey job.log p = lastRow primaryKey (v.rows l) p ∨
      lastRow primaryKey job.log p = lastRow primaryKey (v.rows (l ++ job.pending.headD [])) p := by
  obtain ⟨m, rfl | ⟨batch, rest, hpending, rfl | rfl⟩, hread⟩ := h.reads p
  · exact .inl (by rw [hread, List.append_nil]; rfl)
  · exact .inl (by rw [hread, List.append_nil]; rfl)
  · exact .inr (by rw [hread, hpending]; rfl)

/-- A group keeps its row when values are added. -/
theorem exists_lastRow_append {r : ρ} (h : r ∈ v.rows l) (m : List α) :
    ∃ r', lastRow primaryKey (v.rows (l ++ m)) (primaryKey r) = some r' := by
  obtain ⟨k, hk, rfl⟩ := mem_aggregate.mp h
  have hmem : v.row k (group v.key (l ++ m) k) ∈ v.rows (l ++ m) :=
    mem_aggregate.mpr ⟨k, mem_groupKeys_append_left hk, rfl⟩
  refine ⟨_, (congrArg (lastRow primaryKey _) ?_).trans (lastRow_viewRows hmem)⟩
  rw [v.primaryKey_row, v.primaryKey_row]

/-- A read that found the row of a group finds it again behind a step, or that of the group with more
values in it. -/
theorem grows_of_feedStep (hdisorder : v.BoundedDisorder values) {fits : ρ → Bool}
    {job job' : FeedJob α (QueryState α κ) ρ} (h : v.feed.Consumed values l job)
    (hstep : FeedStep v.feed fits job job') {p : π} {r : ρ}
    (hread : lastRow primaryKey job.log p = some r) :
    ∃ k a b, r = v.row k (group v.key a k) ∧
      lastRow primaryKey job'.log p = some (v.row k (group v.key (a ++ b) k)) := by
  have hlaws := lawful_feed hdisorder
  have hrow : ∀ {a : List α} {r : ρ}, v.feed.target a p = some r →
      ∃ k, v.code k = p ∧ r = v.row k (group v.key a k) := by
    intro a r hr
    obtain ⟨hmem, hkey⟩ := mem_of_lastRow hr
    obtain ⟨k, -, rfl⟩ := mem_aggregate.mp hmem
    exact ⟨k, (v.primaryKey_row k _).symm.trans hkey, rfl⟩
  have hsame : lastRow primaryKey job'.log p = lastRow primaryKey job.log p → ∃ k a b,
      r = v.row k (group v.key a k) ∧
        lastRow primaryKey job'.log p = some (v.row k (group v.key (a ++ b) k)) := by
    intro hlog
    obtain ⟨m, -, htarget⟩ := h.reads p
    obtain ⟨k, -, hk⟩ := hrow (htarget.symm.trans hread)
    refine ⟨k, l ++ m, [], hk, ?_⟩
    rw [List.append_nil, ← hk, hlog, hread]
  -- rows of the batch at hand are those of their groups behind it
  have hnew : ∀ {batch : List α} {rest : List (List α)} {rows : List ρ} {s'},
      job.pending = batch :: rest → v.feed.Emits job.state batch rows s' → ∀ written, written <+: rows →
      lastRow primaryKey job'.log p = (lastRow primaryKey written p).or (lastRow primaryKey job.log p) →
      ∃ k a b, r = v.row k (group v.key a k) ∧
        lastRow primaryKey job'.log p = some (v.row k (group v.key (a ++ b) k)) := by
    intro batch rest rows s' hpending hemits written hwritten hlog
    cases hlast : lastRow primaryKey written p with
    | none => exact hsame (by rw [hlog, hlast, Option.none_or])
    | some r' =>
      have hsplit := h.split
      rw [hpending, List.flatten_cons] at hsplit
      obtain ⟨m, hm, htarget⟩ := h.cut hlaws hpending p
      obtain ⟨k, hcode, hk⟩ := hrow (htarget.symm.trans hread)
      have hwhole := target_of_mem hdisorder hsplit h.tracks hemits hwritten hlast
      obtain ⟨k', hcode', hk'⟩ := hrow hwhole
      obtain rfl := v.code_injective (hcode.trans hcode'.symm)
      rw [hlast, Option.some_or, hk'] at hlog
      rcases hm with rfl | rfl
      · exact ⟨k, l, batch, by rw [hk, List.append_nil], hlog⟩
      · exact ⟨k, l ++ m, [], hk, by rw [List.append_nil]; exact hlog⟩
  cases hstep with
  | merge hmerge => exact hsame (hmerge.sameReads p).symm
  | crash written hpending hemits hwritten hfits =>
    refine hnew hpending hemits _ hwritten ?_
    rw [← lastRow_append]
    exact congrArg (lastRow primaryKey · p) List.flatten_append
  | finish written hpending hemits hwritten hfits =>
    refine hnew hpending hemits _ List.prefix_rfl ?_
    rw [← lastRow_append, ← hwritten]
    exact congrArg (lastRow primaryKey · p) List.flatten_append

end Windowed

/-! ### Completed runs -/

/-- A run can be completed when each of its batches can. -/
theorem exists_completed_run {σ β : Type} {Step : σ → σ → Prop} {pending : σ → List β} {start : σ}
    (hprogress : ∀ s, Relation.ReflTransGen Step start s → ∀ batch rest, pending s = batch :: rest →
      ∃ s', Step s s' ∧ pending s' = rest) :
    ∃ s, Relation.ReflTransGen Step start s ∧ pending s = [] := by
  have hrest : ∀ (batches : List β) s, Relation.ReflTransGen Step start s → pending s = batches →
      ∃ s', Relation.ReflTransGen Step start s' ∧ pending s' = [] := by
    intro batches
    induction batches with
    | nil => exact fun s hs hpending => ⟨s, hs, hpending⟩
    | cons batch rest ih =>
      intro s hs hpending
      obtain ⟨s', hstep, hpending'⟩ := hprogress s hs batch rest hpending
      exact ih s' (hs.tail hstep) hpending'
  exact hrest (pending start) start .refl rfl

end Clickstream.Kit
