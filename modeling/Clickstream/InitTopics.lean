import Clickstream.Kit.Table
import Clickstream.Python.Text
import Mathlib.Data.List.Lex
import Mathlib.Logic.Function.Basic
import Mathlib.Logic.Relation
import Mathlib.Order.Fin.Basic

/-! `init_topics.py`, run any number of times over one cluster, while the brokers take their time and
other clients create topics.  The first request for a topic decides what it is. -/

namespace Clickstream.InitTopics

open Python Kit

structure Topic where
  name : PyStr
  partitions : Nat
  deriving DecidableEq

/-- The topics on the brokers. -/
abbrev Cluster := Table Topic.name

/-- `TOPICS` -/
def topics : List Topic := [⟨lit "clicks.raw", 3⟩, ⟨lit "clicks.dlq", 3⟩]

def topicNames : List PyStr := topics.map Topic.name

def sorted (names : List PyStr) : List PyStr := names.mergeSort fun a b => decide (a ≤ b)

/-! ### A job -/

def verifyTopics (cluster : Cluster) : List PyStr :=
  topicNames.filter fun name => (cluster.get name).isSome

/-- What a job prints; it exits with 0, with 1 or with an exception. -/
inductive Outcome
  | ok (existing created : List PyStr)
  | error (missing : List PyStr)
  | raised

/-- The end of `main`. -/
def outcome (existing created : List PyStr) : Outcome :=
  let missing := topicNames.filter fun name => name ∉ existing
  if missing = [] then .ok (sorted existing) (sorted created) else .error missing

/-- Where a job is: in the loop over the futures, at the head of the loop until the deadline, not before
the moment `wake`, or in `list_topics`. -/
inductive Control
  | creating (futures created : List PyStr)
  | looping (deadline wake : Rat) (existing created : List PyStr)
  | listing (deadline : Rat) (created : List PyStr)
  | exited (o : Outcome)

/-- A job, with the requests that the brokers have not handled, those that they have granted, and the
clusters that `list_topics` has told it of, the last one first. -/
structure Job where
  requested : List Topic
  granted : List PyStr
  answers : List Cluster
  control : Control

/-- A job that has called `create_topics` of its client. -/
def Job.start : Job := ⟨topics, [], [], .creating topicNames []⟩

/-- What a job does at a moment, and what it has been told of. -/
inductive Job.Next (timeout now : Rat) (cluster : Cluster) (job : Job) : List Cluster → Control → Prop
  | refused (h : job.control = .creating topicNames []) :
      Next timeout now cluster job job.answers (.exited .raised)
  | result {name futures created} (h : job.control = .creating (name :: futures) created)
      (hgranted : name ∈ job.granted) :
      Next timeout now cluster job job.answers (.creating futures (created ++ [name]))
  | failed {name futures created} (h : job.control = .creating (name :: futures) created) :
      Next timeout now cluster job job.answers (.creating futures created)
  | loop {created} (h : job.control = .creating [] created) :
      Next timeout now cluster job job.answers (.looping (now + timeout) now [] created)
  | ask {deadline wake existing created} (h : job.control = .looping deadline wake existing created)
      (hwake : wake ≤ now) (hdeadline : now < deadline) :
      Next timeout now cluster job job.answers (.listing deadline created)
  | listed {deadline created} (h : job.control = .listing deadline created) :
      Next timeout now cluster job (cluster :: job.answers)
        (if (verifyTopics cluster).length = topics.length then
          .exited (outcome (verifyTopics cluster) created)
        else .looping deadline (now + 1) (verifyTopics cluster) created)
  | unlisted {deadline created} (h : job.control = .listing deadline created) :
      Next timeout now cluster job job.answers (.exited .raised)
  | ended {deadline wake existing created} (h : job.control = .looping deadline wake existing created)
      (hwake : wake ≤ now) (hdeadline : ¬now < deadline) :
      Next timeout now cluster job job.answers (.exited (outcome existing created))

/-! ### The cluster and its clients -/

structure State (ι : Type) where
  now : Rat
  cluster : Cluster
  jobs : ι → Option Job

section System

variable {ι : Type} [DecidableEq ι] (others : Topic → Prop) (timeout : Rat)

def State.set (s : State ι) (i : ι) (job : Job) : State ι :=
  { s with jobs := Function.update s.jobs i (some job) }

def State.initial (now : Rat) (cluster : Cluster) : State ι := ⟨now, cluster, fun _ => none⟩

/-- Time goes on, another client creates a topic, a job starts or goes on, or a broker handles a request
of a job, be it one that the job no longer waits for.  Nobody deletes a topic. -/
inductive Step : State ι → State ι → Prop
  | tick {s : State ι} {now : Rat} (h : s.now ≤ now) : Step s { s with now := now }
  | other {s : State ι} {t : Topic} (h : others t) : Step s { s with cluster := s.cluster.putNew t }
  | start {s : State ι} {i : ι} (h : s.jobs i = none) : Step s (s.set i .start)
  | next {s : State ι} {i : ι} {job : Job} {answers : List Cluster} {control : Control}
      (hjob : s.jobs i = some job) (h : job.Next timeout s.now s.cluster answers control) :
      Step s (s.set i { job with answers := answers, control := control })
  | broker {s : State ι} {i : ι} {job : Job} {t : Topic} (hjob : s.jobs i = some job)
      (h : t ∈ job.requested) :
      Step s { s.set i { job with
          requested := job.requested.erase t
          granted := if s.cluster.get t.name = none then t.name :: job.granted else job.granted } with
        cluster := s.cluster.putNew t }

def Steps : State ι → State ι → Prop := Relation.ReflTransGen (Step others timeout)

end System

/-! ### What holds in every run -/

def Control.created : Control → List PyStr
  | .creating _ created => created
  | .looping _ _ _ created => created
  | .listing _ created => created
  | .exited (.ok _ created) => created
  | .exited _ => []

/-- What `verify_topics` returned last, and nothing before its first call. -/
def lastFound : List Cluster → List PyStr
  | [] => []
  | cluster :: _ => verifyTopics cluster

/-- The created names of a job are granted, the existing ones are those of its last answer, and it does
not give up before the moment `limit`. -/
inductive Sound (limit now : Rat) (job : Job) : Prop
  | creating {futures created} (hcontrol : job.control = .creating futures created)
      (hcreated : created ⊆ job.granted) (hanswers : job.answers = [])
  | looping {deadline wake created}
      (hcontrol : job.control = .looping deadline wake (lastFound job.answers) created)
      (hcreated : created ⊆ job.granted) (hdeadline : limit ≤ deadline)
  | listing {deadline created} (hcontrol : job.control = .listing deadline created)
      (hcreated : created ⊆ job.granted) (hdeadline : limit ≤ deadline)
  | raised (hcontrol : job.control = .exited .raised)
  | ended {created} (hcontrol : job.control = .exited (outcome (lastFound job.answers) created))
      (hcreated : created ⊆ job.granted) (hlimit : limit ≤ now ∨ lastFound job.answers = topicNames)

section Control

variable {cluster : Cluster} {limit now now' : Rat} {job : Job}

theorem mem_sorted {names : List PyStr} {name : PyStr} : name ∈ sorted names ↔ name ∈ names :=
  List.mem_mergeSort

theorem created_outcome {existing created : List PyStr} {name : PyStr}
    (h : name ∈ (Control.exited (outcome existing created)).created) : name ∈ created := by
  rw [outcome] at h
  split at h
  · exact mem_sorted.mp h
  · cases h

theorem Sound.created (h : Sound limit now job) : job.control.created ⊆ job.granted := by
  cases h with
  | creating hcontrol hcreated => rwa [hcontrol]
  | looping hcontrol hcreated => rwa [hcontrol]
  | listing hcontrol hcreated => rwa [hcontrol]
  | raised hcontrol =>
    rw [hcontrol]
    exact List.nil_subset _
  | ended hcontrol hcreated =>
    rw [hcontrol]
    exact fun name hname => hcreated (created_outcome hname)

/-- Time goes on and brokers handle requests. -/
theorem Sound.mono (h : Sound limit now job) (hnow : now ≤ now') {requested : List Topic}
    {granted : List PyStr} (hgranted : job.granted ⊆ granted) :
    Sound limit now' { job with requested := requested, granted := granted } := by
  cases h with
  | creating hcontrol hcreated hanswers =>
    exact .creating hcontrol (List.Subset.trans hcreated hgranted) hanswers
  | looping hcontrol hcreated hdeadline =>
    exact .looping hcontrol (List.Subset.trans hcreated hgranted) hdeadline
  | listing hcontrol hcreated hdeadline =>
    exact .listing hcontrol (List.Subset.trans hcreated hgranted) hdeadline
  | raised hcontrol => exact .raised hcontrol
  | ended hcontrol hcreated hlimit =>
    exact .ended hcontrol (List.Subset.trans hcreated hgranted)
      (hlimit.imp_left fun hle => hle.trans hnow)

/-- `verify_topics` returns the names in the order of `TOPICS`. -/
theorem verifyTopics_eq_of_length (h : (verifyTopics cluster).length = topics.length) :
    verifyTopics cluster = topicNames := by
  have hlength : topicNames.length = topics.length := List.length_map _
  rw [verifyTopics] at h ⊢
  exact List.filter_eq_self.mpr (List.length_filter_eq_length_iff.mp (h.trans hlength.symm))

/-- What a job does keeps it sound. -/
theorem Job.Next.sound {timeout : Rat} {answers : List Cluster} {control : Control}
    (h : Sound limit now job) (hlimit : limit ≤ now + timeout)
    (hnext : job.Next timeout now cluster answers control) :
    Sound limit now { job with answers := answers, control := control } := by
  have hcreated := h.created
  cases hnext with
  | refused => exact .raised rfl
  | result hcontrol hgranted =>
    rw [hcontrol] at hcreated
    have hanswers : job.answers = [] := by
      cases h with
      | creating _ _ hanswers => exact hanswers
      | _ hcontrol' => cases hcontrol.symm.trans hcontrol'
    refine .creating rfl (fun name hname => ?_) hanswers
    rcases List.mem_append.mp hname with hold | hnew
    · exact hcreated hold
    · rw [List.mem_singleton.mp hnew]
      exact hgranted
  | failed hcontrol =>
    rw [hcontrol] at hcreated
    cases h with
    | creating _ _ hanswers => exact .creating rfl hcreated hanswers
    | _ hcontrol' => cases hcontrol.symm.trans hcontrol'
  | @loop created hcontrol =>
    rw [hcontrol] at hcreated
    have hanswers : job.answers = [] := by
      cases h with
      | creating _ _ hanswers => exact hanswers
      | _ hcontrol' => cases hcontrol.symm.trans hcontrol'
    have hfound : Control.looping (now + timeout) now [] created =
        .looping (now + timeout) now (lastFound job.answers) created := by
      rw [hanswers]
      rfl
    exact .looping hfound hcreated hlimit
  | ask hcontrol =>
    rw [hcontrol] at hcreated
    cases h with
    | looping hcontrol' _ hdeadline =>
      cases hcontrol.symm.trans hcontrol'
      exact .listing rfl hcreated hdeadline
    | _ hcontrol' => cases hcontrol.symm.trans hcontrol'
  | @listed deadline created hcontrol =>
    rw [hcontrol] at hcreated
    have hdeadline : limit ≤ deadline := by
      cases h with
      | listing hcontrol' _ hdeadline =>
        cases hcontrol.symm.trans hcontrol'
        exact hdeadline
      | _ hcontrol' => cases hcontrol.symm.trans hcontrol'
    split
    · rename_i hlength
      exact .ended rfl hcreated (.inr (verifyTopics_eq_of_length hlength))
    · exact .looping rfl hcreated hdeadline
  | unlisted => exact .raised rfl
  | ended hcontrol _ hdeadline =>
    cases h with
    | looping hcontrol' hcreated' hlimit' =>
      cases hcontrol.symm.trans hcontrol'
      exact .ended rfl hcreated' (.inl (hlimit'.trans (not_lt.mp hdeadline)))
    | _ hcontrol' => cases hcontrol.symm.trans hcontrol'

/-- The topics that a job reports as missing, by its last answer. -/
def missingFrom : List Cluster → List PyStr
  | [] => topicNames
  | cluster :: _ => topicNames.filter fun name => (cluster.get name).isNone

theorem filter_lastFound (answers : List Cluster) :
    (topicNames.filter fun name => name ∉ lastFound answers) = missingFrom answers := by
  cases answers with
  | nil => exact List.filter_eq_self.mpr fun name _ => by simp [lastFound]
  | cons cluster answers =>
    rw [missingFrom, lastFound, verifyTopics]
    refine List.filter_congr fun name hname => ?_
    cases hget : cluster.get name <;> simp [hname, hget]

theorem outcome_lastFound (answers : List Cluster) (created : List PyStr) :
    (missingFrom answers = [] ∧
      outcome (lastFound answers) created = .ok (sorted (lastFound answers)) (sorted created)) ∨
      (missingFrom answers ≠ [] ∧
        outcome (lastFound answers) created = .error (missingFrom answers)) := by
  rw [outcome, filter_lastFound]
  split
  · exact .inl ⟨‹_›, rfl⟩
  · exact .inr ⟨‹_›, rfl⟩

/-- Nothing is missing from an answer that has the topics, and such an answer is the last one. -/
theorem missingFrom_eq_nil {answers : List Cluster} (h : missingFrom answers = []) :
    ∃ cluster rest, answers = cluster :: rest ∧
      ∀ t ∈ topics, (cluster.get t.name).isSome = true := by
  cases answers with
  | nil => cases h
  | cons cluster rest =>
    refine ⟨cluster, rest, rfl, fun t ht => ?_⟩
    have hname := List.filter_eq_nil_iff.mp h t.name (List.mem_map_of_mem ht)
    simpa [Option.isSome_iff_ne_none] using hname

theorem lastFound_of_missingFrom {answers : List Cluster} (h : missingFrom answers = []) :
    lastFound answers = topicNames := by
  obtain ⟨cluster, rest, rfl, hthere⟩ := missingFrom_eq_nil h
  refine List.filter_eq_self.mpr fun name hname => ?_
  obtain ⟨t, ht, rfl⟩ := List.mem_map.mp hname
  exact hthere t ht

end Control

section Runs

variable {ι : Type} [DecidableEq ι] {others : Topic → Prop} {timeout : Rat} {cluster₀ : Cluster}
  {s s' s₀ : State ι} {i : ι}

theorem Step.extends (h : Step others timeout s s') : s.cluster.Extends s'.cluster := by
  cases h with
  | tick => exact .refl _
  | other => exact Table.extends_putNew _ _
  | start => exact .refl _
  | next => exact .refl _
  | broker => exact Table.extends_putNew _ _

theorem Steps.extends (h : Steps others timeout s s') : s.cluster.Extends s'.cluster := by
  induction h with
  | refl => exact .refl _
  | tail _ hstep ih => exact ih.trans hstep.extends

theorem Step.now_le (h : Step others timeout s s') : s.now ≤ s'.now := by
  cases h with
  | tick hle => exact hle
  | _ => exact le_rfl

theorem jobs_set {j : ι} {job job' : Job} (h : (s.set i job).jobs j = some job') :
    (j = i ∧ job' = job) ∨ s.jobs j = some job' := by
  have hjobs : (s.set i job).jobs j = Function.update s.jobs i (some job) j := rfl
  by_cases hj : j = i
  · subst hj
    rw [hjobs, Function.update_self, Option.some_inj] at h
    exact .inl ⟨rfl, h.symm⟩
  · rw [hjobs, Function.update_of_ne hj] at h
    exact .inr h

/-! ### Grants -/

/-- A granted name is on the cluster as one of the requests asked for it, and is granted to one job. -/
structure Invariant (others : Topic → Prop) (cluster₀ : Cluster) (s : State ι) : Prop where
  origin : ∀ name t, s.cluster.get name = some t → cluster₀.get name = some t ∨ t ∈ topics ∨ others t
  requested : ∀ i job, s.jobs i = some job → job.requested ⊆ topics
  granted : ∀ i job, s.jobs i = some job → ∀ name ∈ job.granted,
    ∃ t ∈ topics, s.cluster.get name = some t
  single : ∀ i job j job' name, s.jobs i = some job → s.jobs j = some job' → name ∈ job.granted →
    name ∈ job'.granted → i = j

omit [DecidableEq ι] in
theorem invariant_initial (now : Rat) :
    Invariant others cluster₀ (State.initial now cluster₀ : State ι) where
  origin _ _ h := .inl h
  requested _ _ h := by cases h
  granted _ _ h := by cases h
  single _ _ _ _ _ h := by cases h

omit [DecidableEq ι] in
/-- What is added to the cluster is asked for by a job or by another client. -/
theorem Invariant.putNew (h : Invariant others cluster₀ s) {t : Topic} (ht : t ∈ topics ∨ others t) :
    Invariant others cluster₀ { s with cluster := s.cluster.putNew t } where
  origin name t' hget := by
    rw [Table.get_putNew, Option.or_eq_some_iff] at hget
    rcases hget with hold | ⟨-, hnew⟩
    · exact h.origin name t' hold
    · split at hnew
      · cases hnew
        exact .inr ht
      · cases hnew
  requested := h.requested
  granted i job hjob name hname := by
    obtain ⟨t', ht', hget⟩ := h.granted i job hjob name hname
    exact ⟨t', ht', Table.extends_putNew _ _ _ _ hget⟩
  single := h.single

/-- A job without grants, or one that keeps its grants, may go on. -/
theorem Invariant.set (h : Invariant others cluster₀ s) {i : ι} {job : Job}
    (hrequested : job.requested ⊆ topics)
    (hgranted : ∀ name ∈ job.granted, ∃ old, s.jobs i = some old ∧ name ∈ old.granted) :
    Invariant others cluster₀ (s.set i job) where
  origin := h.origin
  requested j job' hjob' := by
    rcases jobs_set hjob' with ⟨rfl, rfl⟩ | hold
    · exact hrequested
    · exact h.requested j job' hold
  granted j job' hjob' name hname := by
    rcases jobs_set hjob' with ⟨rfl, rfl⟩ | hold
    · obtain ⟨old, hold, hmem⟩ := hgranted name hname
      exact h.granted j old hold name hmem
    · exact h.granted j job' hold name hname
  single j job₁ k job₂ name hjob₁ hjob₂ hname₁ hname₂ := by
    have hbefore : ∀ l job', (s.set i job).jobs l = some job' → name ∈ job'.granted →
        ∃ old, s.jobs l = some old ∧ name ∈ old.granted := by
      intro l job' hjob' hname
      rcases jobs_set hjob' with ⟨rfl, rfl⟩ | hold
      · exact hgranted name hname
      · exact ⟨job', hold, hname⟩
    obtain ⟨old₁, hold₁, hmem₁⟩ := hbefore j job₁ hjob₁ hname₁
    obtain ⟨old₂, hold₂, hmem₂⟩ := hbefore k job₂ hjob₂ hname₂
    exact h.single j old₁ k old₂ name hold₁ hold₂ hmem₁ hmem₂

/-- A request for a name that is not there is granted. -/
theorem Invariant.grant (h : Invariant others cluster₀ s) {i : ι} {job : Job} {t : Topic}
    {requested : List Topic} (hjob : s.jobs i = some job) (hrequested : requested ⊆ topics)
    (ht : t ∈ topics) (hget : s.cluster.get t.name = none) :
    Invariant others cluster₀
      { s.set i { job with requested := requested, granted := t.name :: job.granted } with
        cluster := s.cluster.putNew t } := by
  have hnew : (s.cluster.putNew t).get t.name = some t := by
    rw [Table.get_putNew, hget, Option.none_or, if_pos rfl]
  have hput := h.putNew (.inl ht)
  refine ⟨hput.origin, ?_, ?_, ?_⟩
  · intro j job' hjob'
    rcases jobs_set hjob' with ⟨rfl, rfl⟩ | hold
    · exact hrequested
    · exact h.requested j job' hold
  · intro j job' hjob' name hname
    rcases jobs_set hjob' with ⟨rfl, rfl⟩ | hold
    · rcases List.mem_cons.mp hname with rfl | hmem
      · exact ⟨t, ht, hnew⟩
      · exact hput.granted j job hjob name hmem
    · exact hput.granted j job' hold name hname
  · -- A name that is granted to another job is on the cluster already.
    have hother : ∀ j job', s.jobs j = some job' → t.name ∉ job'.granted := by
      intro j job' hjob' hmem
      obtain ⟨t', -, hget'⟩ := h.granted j job' hjob' _ hmem
      rw [hget] at hget'
      cases hget'
    have hmem : ∀ j job', (s.set i { job with
        requested := requested, granted := t.name :: job.granted }).jobs j = some job' →
        ∀ name ∈ job'.granted, (name = t.name ∧ j = i) ∨
          ∃ old, s.jobs j = some old ∧ name ∈ old.granted := by
      intro j job' hjob' name hname
      rcases jobs_set hjob' with ⟨rfl, rfl⟩ | hold
      · rcases List.mem_cons.mp hname with rfl | hmem
        · exact .inl ⟨rfl, rfl⟩
        · exact .inr ⟨job, hjob, hmem⟩
      · exact .inr ⟨job', hold, hname⟩
    intro j job₁ k job₂ name hjob₁ hjob₂ hname₁ hname₂
    rcases hmem j job₁ hjob₁ name hname₁ with ⟨rfl, rfl⟩ | ⟨old₁, hold₁, hmem₁⟩
    · rcases hmem k job₂ hjob₂ _ hname₂ with ⟨-, rfl⟩ | ⟨old₂, hold₂, hmem₂⟩
      · rfl
      · exact absurd hmem₂ (hother k old₂ hold₂)
    · rcases hmem k job₂ hjob₂ name hname₂ with ⟨rfl, rfl⟩ | ⟨old₂, hold₂, hmem₂⟩
      · exact absurd hmem₁ (hother j old₁ hold₁)
      · exact h.single j old₁ k old₂ name hold₁ hold₂ hmem₁ hmem₂

theorem Step.invariant (hstep : Step others timeout s s') (h : Invariant others cluster₀ s) :
    Invariant others cluster₀ s' := by
  cases hstep with
  | tick => exact ⟨h.origin, h.requested, h.granted, h.single⟩
  | other ht => exact h.putNew (.inr ht)
  | start => exact h.set (List.Subset.refl _) fun name hname => by cases hname
  | @next i job answers control hjob hnext =>
    exact h.set (h.requested i job hjob) fun name hname => ⟨job, hjob, hname⟩
  | @broker i job t hjob hrequest =>
    have ht := h.requested i job hjob hrequest
    have hrequested : job.requested.erase t ⊆ topics :=
      List.Subset.trans List.erase_subset (h.requested i job hjob)
    by_cases hget : s.cluster.get t.name = none
    · simp only [if_pos hget]
      exact h.grant hjob hrequested ht hget
    · simp only [if_neg hget]
      exact (h.putNew (.inl ht)).set hrequested fun name hname => ⟨job, hjob, hname⟩

theorem Steps.invariant (h : Steps others timeout s s') (hs : Invariant others cluster₀ s) :
    Invariant others cluster₀ s' := by
  induction h with
  | refl => exact hs
  | tail _ hstep ih => exact hstep.invariant ih

/-! ### From a moment on -/

/-- A job that has not been there at the moment `s₀`: what is granted to it was not on the cluster then,
and its answers are clusters of moments since. -/
structure Job.Since (timeout : Rat) (s₀ s : State ι) (job : Job) : Prop where
  granted : ∀ name ∈ job.granted, s₀.cluster.get name = none
  answers : ∀ c ∈ job.answers, s₀.cluster.Extends c ∧ c.Extends s.cluster
  sound : Sound (s₀.now + timeout) s.now job

structure Watched (timeout : Rat) (s₀ : State ι) (i : ι) (s : State ι) : Prop where
  kept : s₀.cluster.Extends s.cluster
  now : s₀.now ≤ s.now
  job : ∀ job, s.jobs i = some job → job.Since timeout s₀ s

omit [DecidableEq ι] in
theorem Job.Since.mono {job : Job} (h : job.Since timeout s₀ s) (hcluster : s.cluster.Extends s'.cluster)
    (hnow : s.now ≤ s'.now) : job.Since timeout s₀ s' where
  granted := h.granted
  answers c hc := ⟨(h.answers c hc).1, (h.answers c hc).2.trans hcluster⟩
  sound := h.sound.mono hnow (List.Subset.refl _)

omit [DecidableEq ι] in
theorem since_start : Job.start.Since timeout s₀ s where
  granted _ h := by cases h
  answers _ h := by cases h
  sound := .creating rfl (List.nil_subset _) rfl

omit [DecidableEq ι] in
theorem Job.Since.next {job : Job} {answers : List Cluster} {control : Control}
    (h : job.Since timeout s₀ s) (hs : Watched timeout s₀ i s)
    (hnext : job.Next timeout s.now s.cluster answers control) :
    Job.Since timeout s₀ s { job with answers := answers, control := control } where
  granted := h.granted
  answers c hc := by
    cases hnext with
    | listed =>
      rcases List.mem_cons.mp hc with rfl | hold
      · exact ⟨hs.kept, .refl _⟩
      · exact h.answers c hold
    | _ => exact h.answers c hc
  sound := hnext.sound h.sound (add_le_add_left hs.now timeout)

theorem Step.watched (hstep : Step others timeout s s') (h : Watched timeout s₀ i s) :
    Watched timeout s₀ i s' := by
  have hcluster := hstep.extends
  have hnow := hstep.now_le
  refine ⟨h.kept.trans hcluster, h.now.trans hnow, fun job hjob => ?_⟩
  cases hstep with
  | tick => exact (h.job job hjob).mono hcluster hnow
  | other => exact (h.job job hjob).mono hcluster hnow
  | start =>
    rcases jobs_set hjob with ⟨rfl, rfl⟩ | hold
    · exact since_start
    · exact (h.job job hold).mono hcluster hnow
  | next hjob' hnext =>
    rcases jobs_set hjob with ⟨rfl, rfl⟩ | hold
    · exact ((h.job _ hjob').next h hnext).mono hcluster hnow
    · exact (h.job job hold).mono hcluster hnow
  | @broker j job' t hjob' hrequest =>
    rcases jobs_set hjob with ⟨rfl, rfl⟩ | hold
    · have hold := (h.job _ hjob').mono hcluster hnow
      refine ⟨fun name hname => ?_, hold.answers, hold.sound.mono le_rfl ?_⟩
      · split at hname
        · rename_i hget
          rcases List.mem_cons.mp hname with rfl | hmem
          · rw [Option.eq_none_iff_forall_ne_some]
            intro t' hstart
            rw [h.kept _ _ hstart] at hget
            cases hget
          · exact hold.granted name hmem
        · exact hold.granted name hname
      · split
        · exact List.subset_cons_self ..
        · exact List.Subset.refl _
    · exact (h.job job hold).mono hcluster hnow

theorem Steps.watched (h : Steps others timeout s₀ s) (hs₀ : s₀.jobs i = none) :
    Watched timeout s₀ i s := by
  induction h with
  | refl => exact ⟨.refl _, le_rfl, fun job hjob => by cases hs₀.symm.trans hjob⟩
  | tail _ hstep ih => exact hstep.watched ih

/-- What a job tells that was started behind the moment `s₀`.  It lists as created what was not on the
cluster at `s₀`.  An exit with 0 has found the topics.  One with 1 comes `timeout` later at the earliest
and names what the last answer lacked, or all topics when there was no answer at all. -/
structure Tells (timeout : Rat) (s₀ s : State ι) (job : Job) : Prop where
  created : ∀ name ∈ job.control.created, s₀.cluster.get name = none
  answers : ∀ c ∈ job.answers, s₀.cluster.Extends c ∧ c.Extends s.cluster
  ok : ∀ existing created, job.control = .exited (.ok existing created) →
    existing = sorted topicNames ∧ ∀ t ∈ topics, (s.cluster.get t.name).isSome = true
  error : ∀ missing, job.control = .exited (.error missing) →
    missing ≠ [] ∧ s₀.now + timeout ≤ s.now ∧ missing = missingFrom job.answers
  idle : (∀ t ∈ topics, (s₀.cluster.get t.name).isSome = true) → job.control.created = [] ∧
    ∀ missing, job.control = .exited (.error missing) → job.answers = []

omit [DecidableEq ι] in
theorem Job.Since.error {job : Job} (h : job.Since timeout s₀ s) {missing : List PyStr}
    (hcontrol : job.control = .exited (.error missing)) :
    missing ≠ [] ∧ s₀.now + timeout ≤ s.now ∧ missing = missingFrom job.answers := by
  cases h.sound with
  | @ended created hcontrol' hcreated hlimit =>
    rcases outcome_lastFound job.answers created with ⟨hnil, hok⟩ | ⟨hne, herror⟩
    · rw [hcontrol', hok] at hcontrol
      cases hcontrol
    · rw [hcontrol', herror] at hcontrol
      cases hcontrol
      refine ⟨hne, hlimit.resolve_right fun hall => hne ?_, rfl⟩
      rw [← filter_lastFound, hall, List.filter_eq_nil_iff]
      exact fun name hname hnot => of_decide_eq_true hnot hname
  | _ hcontrol' => cases hcontrol.symm.trans hcontrol'

omit [DecidableEq ι] in
theorem Job.Since.ok {job : Job} (h : job.Since timeout s₀ s) {existing created : List PyStr}
    (hcontrol : job.control = .exited (.ok existing created)) :
    existing = sorted topicNames ∧ ∀ t ∈ topics, (s.cluster.get t.name).isSome = true := by
  cases h.sound with
  | @ended names hcontrol' hcreated hlimit =>
    rcases outcome_lastFound job.answers names with ⟨hnil, hok⟩ | ⟨hne, herror⟩
    · rw [hcontrol', hok] at hcontrol
      cases hcontrol
      obtain ⟨c, rest, hanswers, hthere⟩ := missingFrom_eq_nil hnil
      refine ⟨by rw [lastFound_of_missingFrom hnil], fun t ht => ?_⟩
      exact (h.answers c (hanswers ▸ List.mem_cons_self)).2.isSome (hthere t ht)
    · rw [hcontrol', herror] at hcontrol
      cases hcontrol
  | _ hcontrol' => cases hcontrol.symm.trans hcontrol'

omit [DecidableEq ι] in
theorem Job.Since.tells {job : Job} (h : job.Since timeout s₀ s)
    (hgranted : ∀ name ∈ job.granted, ∃ t ∈ topics, s.cluster.get name = some t) :
    Tells timeout s₀ s job where
  created name hname := h.granted name (h.sound.created hname)
  answers := h.answers
  ok _ _ := h.ok
  error _ := h.error
  idle hall := by
    constructor
    · rw [List.eq_nil_iff_forall_not_mem]
      intro name hname
      have hmem := h.sound.created hname
      obtain ⟨t, ht, hget⟩ := hgranted name hmem
      have hthere := hall t ht
      rw [(Table.get_eq_some_iff.mp hget).2, h.granted name hmem] at hthere
      cases hthere
    · intro missing hcontrol
      obtain ⟨hne, -, rfl⟩ := h.error hcontrol
      cases hanswers : job.answers with
      | nil => rfl
      | cons c rest =>
        rw [hanswers] at hne
        refine absurd (List.filter_eq_nil_iff.mpr fun name hname => ?_) hne
        obtain ⟨t, ht, rfl⟩ := List.mem_map.mp hname
        have hc := h.answers c (hanswers ▸ List.mem_cons_self)
        simpa [Option.isSome_iff_ne_none] using hc.1.isSome (hall t ht)

end Runs

/-! ### Two jobs -/

section Example

variable {ι : Type} [DecidableEq ι] {others : Topic → Prop} {timeout : Rat} {s₀ s : State ι} {i : ι}
  {job : Job}

theorem jobs_set_self (s : State ι) (i : ι) (job : Job) : (s.set i job).jobs i = some job :=
  Function.update_self ..

theorem jobs_set_of_ne (s : State ι) {i j : ι} (h : j ≠ i) (job : Job) :
    (s.set i job).jobs j = s.jobs j := Function.update_of_ne h ..

/-- A broker grants a request for a name that is not there. -/
theorem Steps.grant (h : Steps others timeout s₀ s) {t : Topic} (hjob : s.jobs i = some job)
    (ht : t ∈ job.requested) (hget : s.cluster.get t.name = none) :
    ∃ s', Steps others timeout s₀ s' ∧ s'.cluster = s.cluster.putNew t ∧
      (∀ j, j ≠ i → s'.jobs j = s.jobs j) ∧ s'.jobs i =
        some { job with requested := job.requested.erase t, granted := t.name :: job.granted } := by
  refine ⟨_, h.tail (.broker hjob ht), rfl, fun j hj => Function.update_of_ne hj .., ?_⟩
  refine (jobs_set_self ..).trans ?_
  rw [if_pos hget]

/-- A job goes on without an answer. -/
theorem Steps.go (h : Steps others timeout s₀ s) (hjob : s.jobs i = some job) {control : Control}
    (hnext : job.Next timeout s.now s.cluster job.answers control) :
    ∃ s', Steps others timeout s₀ s' ∧ s'.cluster = s.cluster ∧ s'.now = s.now ∧
      (∀ j, j ≠ i → s'.jobs j = s.jobs j) ∧ s'.jobs i = some { job with control := control } :=
  ⟨_, h.tail (.next hjob hnext), rfl, rfl, fun _ hj => Function.update_of_ne hj .., jobs_set_self ..⟩

/-- A job that is done with its futures asks once, on a cluster that has the topics. -/
theorem Steps.exit (h : Steps others timeout s₀ s) {created : List PyStr} (hjob : s.jobs i = some job)
    (hcontrol : job.control = .creating [] created) (htimeout : 0 < timeout)
    (hthere : verifyTopics s.cluster = topicNames) :
    ∃ s', Steps others timeout s₀ s' ∧ s'.cluster = s.cluster ∧ (∀ j, j ≠ i → s'.jobs j = s.jobs j) ∧
      s'.jobs i = some { job with
        answers := s.cluster :: job.answers
        control := .exited (.ok (sorted topicNames) (sorted created)) } := by
  obtain ⟨s₁, h₁, hcluster₁, hnow₁, hjobs₁, hjob₁⟩ := h.go hjob (.loop hcontrol)
  have hwake : s.now ≤ s₁.now := hnow₁.ge
  have hdeadline : s₁.now < s.now + timeout := by
    rw [hnow₁]
    exact lt_add_of_pos_right s.now htimeout
  obtain ⟨s₂, h₂, hcluster₂, -, hjobs₂, hjob₂⟩ := h₁.go hjob₁ (.ask rfl hwake hdeadline)
  have hlisted := h₂.tail (.next hjob₂ (.listed rfl))
  rw [hcluster₁] at hcluster₂
  have hlength : (verifyTopics s₂.cluster).length = topics.length := by
    rw [hcluster₂, hthere]
    rfl
  have hnil : (topicNames.filter fun name => name ∉ topicNames) = [] :=
    List.filter_eq_nil_iff.mpr fun name hname hnot => of_decide_eq_true hnot hname
  rw [if_pos hlength, hcluster₂, hthere, outcome, if_pos hnil] at hlisted
  refine ⟨_, hlisted, hcluster₂, fun j hj => ?_, jobs_set_self ..⟩
  rw [← hjobs₁ j hj, ← hjobs₂ j hj]
  exact Function.update_of_ne hj ..

end Example

end Clickstream.InitTopics
