import Clickstream.PostgresSink
import Mathlib.Logic.Relation

/-! Transactions of `upsert_batch` that run at the same time on one curated table and share its staging
table.  Each works on tables of its own, which its commit puts in place of the committed ones, so that
it is the lock that `TRUNCATE` takes on the staging table, and holds until the transaction ends, which
keeps one from undoing another.  Any of them may end in front of any statement, when the statement
fails or the process dies. -/

namespace Clickstream.Transactions

open Kit Streaming PostgresSink Relation

section Table

variable {γ : Type} [DecidableEq γ] {keyColumns columns : List γ}

/-- The modes of locks on the staging table: `TRUNCATE` excludes every other one, those of reading and
inserting go together. -/
inductive LockMode where
  | shared
  | exclusive
  deriving DecidableEq

def lockMode : Statement keyColumns → Option LockMode
  | .truncateStaging => some .exclusive
  | .insertStaging .. | .upsert _ => some .shared
  | .commit => none

/-- A transaction for the rows of a micro-batch: the statements to be sent, the lock that it holds on the
staging table, and what the statements sent have made of the tables that the first one found. -/
structure Txn (keyColumns : List γ) where
  rows : List (Row γ)
  rest : List (Statement keyColumns)
  lock : Option LockMode
  session : Option (Session keyColumns)

/-- The committed tables, the transactions in progress, and the batches committed so far. -/
structure State (keyColumns : List γ) where
  committed : Database keyColumns
  txns : Nat → Option (Txn keyColumns)
  log : List (List (Row γ))

def State.start (db : Database keyColumns) : State keyColumns := ⟨db, fun _ => none, []⟩

/-- No other transaction holds a lock that excludes this one; else the statement waits. -/
def State.Grants (s : State keyColumns) (t : Nat) (mode : LockMode) : Prop :=
  ∀ t' x held, t' ≠ t → s.txns t' = some x → x.lock = some held → mode = .shared ∧ held = .shared

/-- The stronger of a lock and the one that is already held. -/
def LockMode.stronger (mode : LockMode) : Option LockMode → LockMode
  | some .exclusive => .exclusive
  | _ => mode

/-- The transaction works on the tables that it has changed, or on those that it finds. -/
def Txn.connected (x : Txn keyColumns) (s : State keyColumns) : Session keyColumns :=
  x.session.getD (.connect s.committed)

inductive Step (columns : List γ) (s : State keyColumns) : State keyColumns → Prop
  | connect {t rows sts} (hfree : s.txns t = none) (hrows : (rows.map (keyOf keyColumns)).Nodup)
      (hsts : upsertBatch keyColumns columns rows = .ok sts) :
      Step columns s { s with txns := Function.update s.txns t (some ⟨rows, sts, none, none⟩) }
  | statement {t x st rest mode session} (htxn : s.txns t = some x) (hrest : x.rest = st :: rest)
      (hmode : lockMode st = some mode) (hgrants : s.Grants t mode)
      (hrun : execute (x.connected s) st = some session) :
      Step columns s { s with
        txns := Function.update s.txns t
          (some ⟨x.rows, rest, some (mode.stronger x.lock), some session⟩) }
  | commit {t x rest session} (htxn : s.txns t = some x) (hrest : x.rest = .commit :: rest)
      (hrun : execute (x.connected s) .commit = some session) :
      Step columns s ⟨session.committed, Function.update s.txns t none, s.log ++ [x.rows]⟩
  | abort {t x} (htxn : s.txns t = some x) :
      Step columns s { s with txns := Function.update s.txns t none }

def Reaches (columns : List γ) (db : Database keyColumns) (s : State keyColumns) : Prop :=
  ReflTransGen (Step columns) (.start db) s

/-- The table is the initial one overridden by the committed batches in their order, no other row has
changed, a transaction merges the rows of its own batch and no others, and no staged row is left. -/
structure Serialised (initial : Table (keyOf keyColumns)) (s : State keyColumns) : Prop where
  table : s.committed.table = initial.putAll s.log
  untouched : ∀ p, (∀ rows ∈ s.log, p ∉ rows.map (keyOf keyColumns)) →
    s.committed.table.get p = initial.get p
  isolated : ∀ t x u rest, s.txns t = some x → x.rest = .upsert u :: rest →
    ∃ session, x.session = some session ∧ session.working.staging = x.rows
  staging : s.committed.staging = []

/-- Every state that transactions reach from an empty staging table is serialised. -/
def Serialisable (keyColumns columns : List γ) : Prop :=
  ∀ (db : Database keyColumns) (s : State keyColumns), db.staging = [] → Reaches columns db s →
    Serialised db.table s

/-! ### Scripts -/

theorem eq_of_append_cons {α : Type} {P : α → Prop} {a b r r' : List α} {c c' : α}
    (h : a ++ c :: r = b ++ c' :: r') (hc : P c) (hb : ∀ x ∈ b, ¬P x) (hr : ∀ x ∈ r', ¬P x) :
    a = b ∧ c = c' ∧ r = r' := by
  rcases List.append_eq_append_iff.mp h with ⟨m, rfl, hm⟩ | ⟨m, rfl, hm⟩
  · cases m with
    | nil =>
      obtain ⟨rfl, rfl⟩ := List.cons.inj hm
      exact ⟨(List.append_nil a).symm, rfl, rfl⟩
    | cons x m =>
      obtain ⟨rfl, -⟩ := List.cons.inj hm
      exact absurd hc (hb c (by simp))
  · cases m with
    | nil =>
      obtain ⟨rfl, rfl⟩ := List.cons.inj hm
      exact ⟨List.append_nil b, rfl, rfl⟩
    | cons x m =>
      obtain ⟨-, rfl⟩ := List.cons.inj hm
      exact absurd hc (hr c (by simp))

omit [DecidableEq γ] in
theorem body_append_commit (u : Upsert keyColumns) (rows : List (Row γ)) :
    body columns u rows ++ [.commit] =
      (.truncateStaging :: rows.map (.insertStaging columns)) ++
        .upsert u :: [.truncateStaging, .commit] := by
  simp [body]

section Script

variable (hcolumns : ∀ c, c ∈ columns) (hkeys : keyColumns ≠ []) {rows : List (Row γ)}
  {sent rest : List (Statement keyColumns)} {st : Statement keyColumns}
  {committed : Database keyColumns} {session : Session keyColumns}
include hcolumns hkeys

/-- The first statement locks. -/
theorem first_of_script (hscript : upsertBatch keyColumns columns rows = .ok (st :: rest)) :
    st = .truncateStaging := by
  obtain ⟨u, hbatch, -⟩ := upsertBatch_ok hcolumns hkeys rows
  have hsts := Except.ok.inj (hscript.symm.trans hbatch)
  rw [body_append_commit, List.cons_append] at hsts
  exact (List.cons.inj hsts).1

/-- At its upsert a transaction sees its own rows staged. -/
theorem staging_of_script (committed : Database keyColumns) {u : Upsert keyColumns}
    (hscript : upsertBatch keyColumns columns rows = .ok (sent ++ .upsert u :: rest)) :
    ∃ session, runScript sent (.connect committed) = some session ∧ session.working.staging = rows := by
  obtain ⟨u', hbatch, -⟩ := upsertBatch_ok hcolumns hkeys rows
  have hsts := Except.ok.inj (hscript.symm.trans hbatch)
  rw [body_append_commit] at hsts
  obtain ⟨rfl, -, -⟩ := eq_of_append_cons (P := fun st => ∃ u, st = Statement.upsert u) hsts
    ⟨u, rfl⟩ (by simp) (by simp)
  rw [runScript, execute, Option.bind_some, runScript_inserts]
  exact ⟨_, rfl, List.nil_append _⟩

/-- At its commit a transaction has overwritten the tables that it found by its rows. -/
theorem working_of_script (hrows : (rows.map (keyOf keyColumns)).Nodup)
    (hscript : upsertBatch keyColumns columns rows = .ok (sent ++ .commit :: rest))
    (hrun : runScript sent (.connect committed) = some session) :
    sent ≠ [] ∧ session.working = committed.overwrite rows := by
  obtain ⟨u, hbatch, hput⟩ := upsertBatch_ok hcolumns hkeys rows
  have hsts := Except.ok.inj (hscript.symm.trans hbatch)
  obtain ⟨rfl, -, -⟩ := eq_of_append_cons (P := (· = Statement.commit)) hsts rfl
    (fun st hst heq => commit_not_mem_body columns u rows (heq ▸ hst)) (by simp)
  refine ⟨List.cons_ne_nil _ _, ?_⟩
  rw [body, List.cons_append, runScript, execute, Option.bind_some, runScript_append,
    runScript_inserts, Option.bind_some] at hrun
  simp only [Session.connect, List.nil_append, runScript, execute, if_pos hrows, hput,
    Option.bind_some, Option.some.injEq] at hrun
  rw [← hrun]
  rfl

/-- No statement of a transaction fails by itself. -/
theorem exists_execute (hrows : (rows.map (keyOf keyColumns)).Nodup)
    (hscript : upsertBatch keyColumns columns rows = .ok (sent ++ st :: rest))
    (hrun : runScript sent (.connect committed) = some session) :
    ∃ session', execute session st = some session' := by
  obtain ⟨sts, hsts, hall⟩ := runScript_upsertBatch hcolumns hkeys hrows committed
  obtain rfl := Except.ok.inj (hsts.symm.trans hscript)
  rw [runScript_append, hrun, Option.bind_some, runScript] at hall
  obtain ⟨session', hsession, -⟩ := Option.bind_eq_some_iff.mp hall
  exact ⟨session', hsession⟩

end Script

/-! ### The invariant -/

/-- What a transaction has executed, if anything, is a run of the beginning of its script on these
tables, under the exclusive lock. -/
def Txn.Executed (committed : Database keyColumns) (x : Txn keyColumns)
    (sent : List (Statement keyColumns)) : Prop :=
  match x.session with
  | none => sent = [] ∧ x.lock = none
  | some session => x.lock = some .exclusive ∧ runScript sent (.connect committed) = some session

/-- The statements sent and to be sent are those of `upsert_batch` for rows with distinct keys. -/
structure Txn.Legal (columns : List γ) (committed : Database keyColumns) (x : Txn keyColumns) :
    Prop where
  nodup : (x.rows.map (keyOf keyColumns)).Nodup
  script : ∃ sent, upsertBatch keyColumns columns x.rows = .ok (sent ++ x.rest) ∧
    x.Executed committed sent

/-- Every transaction that has begun holds the exclusive lock, and no two of them hold any, so each has
executed its statements on the tables that are committed now. -/
structure Inv (columns : List γ) (initial : Table (keyOf keyColumns)) (s : State keyColumns) :
    Prop where
  table : s.committed.table = initial.putAll s.log
  staging : s.committed.staging = []
  legal : ∀ t x, s.txns t = some x → x.Legal columns s.committed
  alone : ∀ t t' x x', s.txns t = some x → s.txns t' = some x' → x.lock ≠ none → x'.lock ≠ none →
    t' = t

variable {initial : Table (keyOf keyColumns)} {s s' : State keyColumns}

theorem inv_start {db : Database keyColumns} (h : db.staging = []) :
    Inv columns db.table (.start db) where
  table := rfl
  staging := h
  legal _ _ hx := by cases hx
  alone _ _ _ _ hx := by cases hx

omit [DecidableEq γ] in
/-- The facts about the transactions after one of them has changed. -/
theorem forall_update {P : Nat → Txn keyColumns → Prop} {t : Nat} {new : Option (Txn keyColumns)}
    (hother : ∀ t' x, t' ≠ t → s.txns t' = some x → P t' x) (hnew : ∀ x, new = some x → P t x) :
    ∀ t' x, Function.update s.txns t new t' = some x → P t' x := by
  intro t' x hx
  by_cases ht : t' = t
  · subst ht
    rw [Function.update_self] at hx
    exact hnew x hx
  · rw [Function.update_of_ne ht] at hx
    exact hother t' x ht hx

/-- The transaction that has changed is alone if it holds a lock. -/
theorem Inv.alone_update (h : Inv columns initial s) {t : Nat} {new : Option (Txn keyColumns)}
    (hnew : ∀ x, new = some x → x.lock ≠ none →
      ∀ t' x', t' ≠ t → s.txns t' = some x' → x'.lock = none) :
    ∀ t₁ t₂ x₁ x₂, Function.update s.txns t new t₁ = some x₁ →
      Function.update s.txns t new t₂ = some x₂ → x₁.lock ≠ none → x₂.lock ≠ none → t₂ = t₁ := by
  intro t₁ t₂ x₁ x₂ hx₁ hx₂ hlock₁ hlock₂
  by_cases ht₁ : t₁ = t
  · subst ht₁
    by_contra ht₂
    rw [Function.update_self] at hx₁
    rw [Function.update_of_ne ht₂] at hx₂
    exact hlock₂ (hnew x₁ hx₁ hlock₁ t₂ x₂ ht₂ hx₂)
  · rw [Function.update_of_ne ht₁] at hx₁
    by_cases ht₂ : t₂ = t
    · subst ht₂
      rw [Function.update_self] at hx₂
      exact absurd (hnew x₂ hx₂ hlock₂ t₁ x₁ ht₁ hx₁) hlock₁
    · rw [Function.update_of_ne ht₂] at hx₂
      exact h.alone t₁ t₂ x₁ x₂ hx₁ hx₂ hlock₁ hlock₂

/-- A transaction without a lock has not begun, so it may find other tables. -/
theorem Txn.Legal.of_unlocked {committed committed' : Database keyColumns} {x : Txn keyColumns}
    (h : x.Legal columns committed) (hlock : x.lock = none) : x.Legal columns committed' := by
  obtain ⟨sent, hscript, hexecuted⟩ := h.script
  refine ⟨h.nodup, sent, hscript, ?_⟩
  unfold Txn.Executed at hexecuted ⊢
  cases hsession : x.session with
  | none => rwa [hsession] at hexecuted
  | some session =>
    rw [hsession, hlock] at hexecuted
    cases hexecuted.1

/-- What a transaction works on is what its statements have made of the committed tables. -/
theorem Txn.Executed.run {x : Txn keyColumns} {sent : List (Statement keyColumns)}
    (h : x.Executed s.committed sent) :
    runScript sent (.connect s.committed) = some (x.connected s) := by
  unfold Txn.Executed at h
  unfold Txn.connected
  cases hsession : x.session with
  | none =>
    rw [hsession] at h
    rw [h.1]
    rfl
  | some session =>
    rw [hsession] at h
    exact h.2

/-- A transaction that has begun holds the exclusive lock. -/
theorem Txn.Executed.begun {x : Txn keyColumns} {committed : Database keyColumns}
    {sent : List (Statement keyColumns)} (h : x.Executed committed sent) (hsent : sent ≠ []) :
    x.lock = some .exclusive ∧ ∃ session, x.session = some session := by
  unfold Txn.Executed at h
  cases hsession : x.session with
  | none =>
    rw [hsession] at h
    exact absurd h.1 hsent
  | some session =>
    rw [hsession] at h
    exact ⟨h.1, session, rfl⟩

section Sink

variable (hcolumns : ∀ c, c ∈ columns) (hkeys : keyColumns ≠ [])
include hcolumns hkeys

/-- A statement is executed on the tables that are committed now, under the exclusive lock. -/
theorem Txn.Legal.statement {x : Txn keyColumns} {st : Statement keyColumns}
    {rest : List (Statement keyColumns)} {mode : LockMode} {session : Session keyColumns}
    (h : x.Legal columns s.committed) (hrest : x.rest = st :: rest) (hmode : lockMode st = some mode)
    (hrun : execute (x.connected s) st = some session) :
    (x.lock = none → mode = .exclusive) ∧
      Txn.Legal columns s.committed ⟨x.rows, rest, some (mode.stronger x.lock), some session⟩ := by
  obtain ⟨sent, hscript, hexecuted⟩ := h.script
  rw [hrest] at hscript
  have hnext : upsertBatch keyColumns columns x.rows = .ok ((sent ++ [st]) ++ rest) := by
    rw [hscript, List.append_assoc, List.singleton_append]
  have hsession : runScript (sent ++ [st]) (.connect s.committed) = some session := by
    rw [runScript_append, hexecuted.run, Option.bind_some, runScript]
    exact congrArg (Option.bind · (runScript [])) hrun
  by_cases hsent : sent = []
  · subst hsent
    obtain rfl := first_of_script hcolumns hkeys hscript
    cases hmode
    refine ⟨fun _ => rfl, h.nodup, _, hnext, ?_, hsession⟩
    unfold LockMode.stronger
    split <;> rfl
  · have hlock := (hexecuted.begun hsent).1
    refine ⟨fun hnone => ?_, h.nodup, _, hnext, by rw [hlock]; rfl, hsession⟩
    rw [hlock] at hnone
    cases hnone

/-- A commit puts the committed tables, overwritten by its rows, in their place. -/
theorem Txn.Legal.commit {x : Txn keyColumns} {rest : List (Statement keyColumns)}
    {session : Session keyColumns} (h : x.Legal columns s.committed) (hrest : x.rest = .commit :: rest)
    (hrun : execute (x.connected s) .commit = some session) :
    x.lock ≠ none ∧ session.committed = s.committed.overwrite x.rows := by
  obtain ⟨sent, hscript, hexecuted⟩ := h.script
  rw [hrest] at hscript
  obtain ⟨hsent, hworking⟩ := working_of_script hcolumns hkeys h.nodup hscript hexecuted.run
  cases hrun
  exact ⟨by rw [(hexecuted.begun hsent).1]; exact Option.some_ne_none _, hworking⟩

theorem Inv.step (h : Inv columns initial s) (hstep : Step columns s s') :
    Inv columns initial s' := by
  cases hstep with
  | @connect t rows sts hfree hrows hsts =>
    refine ⟨h.table, h.staging, forall_update (fun t' x _ => h.legal t' x) ?_, h.alone_update ?_⟩
    · intro x hx
      cases hx
      exact ⟨hrows, [], hsts, rfl, rfl⟩
    · intro x hx hlock
      cases hx
      exact absurd rfl hlock
  | @statement t x st rest mode session htxn hrest hmode hgrants hrun =>
    obtain ⟨hfirst, hlegal⟩ := (h.legal t x htxn).statement hcolumns hkeys hrest hmode hrun
    refine ⟨h.table, h.staging, forall_update (fun t' x _ => h.legal t' x) ?_, h.alone_update ?_⟩
    · intro x' hx'
      cases hx'
      exact hlegal
    · intro _ _ _ t' x' ht hx'
      by_contra hlock'
      by_cases hlock : x.lock = none
      · -- the first statement waits for the locks of the others
        obtain ⟨held, hheld⟩ := Option.ne_none_iff_exists'.mp hlock'
        have hshared := (hgrants t' x' held ht hx' hheld).1
        rw [hfirst hlock] at hshared
        cases hshared
      · exact ht (h.alone t t' x x' htxn hx' hlock hlock')
  | @commit t x rest session htxn hrest hrun =>
    obtain ⟨hlock, hcommitted⟩ := (h.legal t x htxn).commit hcolumns hkeys hrest hrun
    refine ⟨?_, ?_, forall_update (fun t' x' ht hx' => ?_) (fun _ hx => by cases hx),
      h.alone_update (fun _ hx => by cases hx)⟩
    · rw [hcommitted, Table.putAll, List.foldl_append, List.foldl_cons, List.foldl_nil,
        ← Table.putAll, ← h.table]
      rfl
    · rw [hcommitted]
      rfl
    · refine (h.legal t' x' hx').of_unlocked ?_
      by_contra hlock'
      exact ht (h.alone t t' x x' htxn hx' hlock hlock')
  | @abort t x htxn =>
    exact ⟨h.table, h.staging, forall_update (fun t' x _ => h.legal t' x) (fun _ hx => by cases hx),
      h.alone_update (fun _ hx => by cases hx)⟩

theorem inv_of_reaches {db : Database keyColumns} (hdb : db.staging = []) (h : Reaches columns db s) :
    Inv columns db.table s := by
  induction h with
  | refl => exact inv_start hdb
  | tail _ hstep ih => exact ih.step hcolumns hkeys hstep

omit [DecidableEq γ] hcolumns hkeys in
theorem get_putAll_of_not_mem {log : List (List (Row γ))} {p : List Value}
    (h : ∀ rows ∈ log, p ∉ rows.map (keyOf keyColumns)) (t : Table (keyOf keyColumns)) :
    (t.putAll log).get p = t.get p := by
  induction log generalizing t with
  | nil => rfl
  | cons rows log ih =>
    rw [List.forall_mem_cons] at h
    have hfind : rows.reverse.find? (fun r => decide (keyOf keyColumns r = p)) = none := by
      rw [List.find?_eq_none]
      intro r hr hkey
      rw [decide_eq_true_iff] at hkey
      exact h.1 (List.mem_map.mpr ⟨r, List.mem_reverse.mp hr, hkey⟩)
    apply (ih h.2 _).trans
    rw [Table.get_foldl_put_last, hfind, Option.none_or]

theorem Txn.Legal.staging {x : Txn keyColumns} {u : Upsert keyColumns}
    {rest : List (Statement keyColumns)} (h : x.Legal columns s.committed)
    (hrest : x.rest = .upsert u :: rest) :
    ∃ session, x.session = some session ∧ session.working.staging = x.rows := by
  obtain ⟨sent, hscript, hexecuted⟩ := h.script
  rw [hrest] at hscript
  have hsent : sent ≠ [] := by
    rintro rfl
    cases first_of_script hcolumns hkeys hscript
  obtain ⟨-, session, hsession⟩ := hexecuted.begun hsent
  obtain ⟨session', hrun, hstaging⟩ :=
    staging_of_script hcolumns hkeys s.committed hscript
  rw [hexecuted.run, Txn.connected, hsession] at hrun
  cases hrun
  exact ⟨session, hsession, hstaging⟩

theorem serialisable : Serialisable keyColumns columns := by
  intro db s hdb hreach
  have hinv := inv_of_reaches hcolumns hkeys hdb hreach
  refine ⟨hinv.table, fun p hp => ?_, fun t x u rest hx hrest => ?_, hinv.staging⟩
  · rw [hinv.table]
    exact get_putAll_of_not_mem hp db.table
  · exact (hinv.legal t x hx).staging hcolumns hkeys hrest

/-- A transaction that does not wait can send its next statement. -/
theorem exists_step {db : Database keyColumns} (hdb : db.staging = []) (hreach : Reaches columns db s)
    {t : Nat} {x : Txn keyColumns} {st : Statement keyColumns} {rest : List (Statement keyColumns)}
    (htxn : s.txns t = some x) (hrest : x.rest = st :: rest)
    (hgrants : ∀ mode ∈ lockMode st, s.Grants t mode) :
    ∃ s', Step columns s s' ∧
      (s'.log = s.log ++ [x.rows] ∨ ∃ x', s'.txns t = some x' ∧ x'.rest = rest) := by
  have hlegal := (inv_of_reaches hcolumns hkeys hdb hreach).legal t x htxn
  obtain ⟨sent, hscript, hexecuted⟩ := hlegal.script
  rw [hrest] at hscript
  obtain ⟨session, hrun⟩ := exists_execute hcolumns hkeys hlegal.nodup hscript hexecuted.run
  cases hmode : lockMode st with
  | some mode =>
    exact ⟨_, .statement htxn hrest hmode (hgrants mode hmode) hrun,
      .inr ⟨_, Function.update_self .., rfl⟩⟩
  | none =>
    cases st with
    | truncateStaging | insertStaging | upsert => cases hmode
    | commit => exact ⟨_, .commit htxn hrest hrun, .inl rfl⟩

end Sink

end Table

/-- Concurrent and failing upserts into a curated table are serialisable and atomic. -/
theorem upserts_serialisable :
    Serialisable pageViewsKeyColumns pageViewsColumns ∧
      Serialisable campaignStatsKeyColumns campaignStatsColumns :=
  ⟨serialisable mem_pageViewsColumns (List.cons_ne_nil _ _),
    serialisable mem_campaignStatsColumns (List.cons_ne_nil _ _)⟩

end Clickstream.Transactions
