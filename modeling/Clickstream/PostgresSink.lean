import Clickstream.Columns

/-! The PostgreSQL sink: the statements of `upsert_batch`, what each does to the curated table and
its staging table inside a transaction, and what a connection leaves behind when it dies. -/

namespace Clickstream.PostgresSink

open Python Kit Streaming

section Batch

variable {γ : Type} [DecidableEq γ]

/-- `INSERT INTO table SELECT columns FROM staging ON CONFLICT (keyColumns) DO UPDATE`, which sets
each update column to the value of the new row. The key columns are the primary key. -/
structure Upsert (keyColumns : List γ) where
  columns : List γ
  updateColumns : List γ
  disjoint : ∀ c ∈ updateColumns, c ∉ keyColumns

inductive Statement (keyColumns : List γ) where
  | truncateStaging
  | insertStaging (columns : List γ) (r : Row γ)
  | upsert (u : Upsert keyColumns)
  | commit

/-- `insert_sql`: the statement for the values of a row. -/
def insertSql {keyColumns : List γ} (columns : List γ) :
    Except Exc (Row γ → Statement keyColumns) :=
  if columns = [] then .error (.valueError (lit "columns must not be empty"))
  else .ok (.insertStaging columns)

def upsertSql (columns keyColumns : List γ) : Except Exc (Upsert keyColumns) :=
  if columns = [] then .error (.valueError (lit "columns must not be empty"))
  else if keyColumns = [] then .error (.valueError (lit "key_columns must not be empty"))
  else
    .ok ⟨columns, columns.filter fun column => decide (column ∉ keyColumns),
      fun _ hc => of_decide_eq_true (List.mem_filter.mp hc).2⟩

/-- `upsert_batch`: the statements it sends for the rows of a micro-batch. -/
def upsertBatch (keyColumns columns : List γ) (rows : List (Row γ)) :
    Except Exc (List (Statement keyColumns)) := do
  let inserts ← if rows.isEmpty then pure [] else (insertSql columns).map rows.map
  let u ← upsertSql columns keyColumns
  return .truncateStaging :: inserts ++ [.upsert u, .truncateStaging, .commit]

/-! ### Transactions -/

/-- A curated table and its staging table, which has no key. -/
structure Database (keyColumns : List γ) where
  table : Table (keyOf keyColumns)
  staging : List (Row γ)

/-- A connection: the committed tables, and the tables as its transaction has changed them. -/
structure Session (keyColumns : List γ) where
  committed : Database keyColumns
  working : Database keyColumns

variable {keyColumns : List γ}

def Session.connect (db : Database keyColumns) : Session keyColumns := ⟨db, db⟩

def Upsert.merge (u : Upsert keyColumns) : Merge (keyOf keyColumns) where
  merge old new := fun c => if c ∈ u.updateColumns then new c else old c
  key_merge := by
    intro old new h
    rw [← h]
    refine List.map_congr_left fun c hc => if_neg fun hupdate => ?_
    exact u.disjoint c hupdate hc

/-- One statement; `none` when it fails, as an upsert does that would change a row twice. -/
def execute (s : Session keyColumns) : Statement keyColumns → Option (Session keyColumns)
  | .truncateStaging => some { s with working := { s.working with staging := [] } }
  | .insertStaging _ r =>
    some { s with working := { s.working with staging := s.working.staging ++ [r] } }
  | .upsert u =>
    if (s.working.staging.map (keyOf keyColumns)).Nodup then
      some { s with working := { s.working with
        table := s.working.staging.foldl (Table.upsert u.merge) s.working.table } }
    else none
  | .commit => some { s with committed := s.working }

def runScript : List (Statement keyColumns) → Session keyColumns → Option (Session keyColumns)
  | [], s => some s
  | st :: sts, s => (execute s st).bind (runScript sts)

/-- The tables after a connection sent some statements and ended, by an error or by its death:
what it did not commit is rolled back. -/
def leftBehind : List (Statement keyColumns) → Session keyColumns → Database keyColumns
  | [], s => s.committed
  | st :: sts, s =>
    match execute s st with
    | some s' => leftBehind sts s'
    | none => s.committed

theorem leftBehind_of_no_commit {sts : List (Statement keyColumns)} (s : Session keyColumns)
    (h : .commit ∉ sts) : leftBehind sts s = s.committed := by
  induction sts generalizing s with
  | nil => rfl
  | cons st sts ih =>
    obtain ⟨hst, hsts⟩ := not_or.mp (mt List.mem_cons.mpr h)
    rw [leftBehind]
    cases st with
    | truncateStaging => exact ih _ hsts
    | insertStaging columns r => exact ih _ hsts
    | upsert u =>
      rw [execute]
      split
      · rename_i s' hs'
        split at hs'
        · cases hs'; exact ih _ hsts
        · cases hs'
      · rfl
    | commit => exact absurd rfl hst

theorem leftBehind_of_runScript {sts : List (Statement keyColumns)} {s s' : Session keyColumns}
    (h : runScript sts s = some s') : leftBehind sts s = s'.committed := by
  induction sts generalizing s with
  | nil => cases h; rfl
  | cons st sts ih =>
    obtain ⟨s₁, hs₁, hrest⟩ := Option.bind_eq_some_iff.mp h
    rw [leftBehind, hs₁]
    exact ih hrest

/-! ### A whole batch -/

def body (columns : List γ) (u : Upsert keyColumns) (rows : List (Row γ)) :
    List (Statement keyColumns) :=
  .truncateStaging :: rows.map (.insertStaging columns) ++ [.upsert u, .truncateStaging]

/-- The curated table overwritten by the rows, and no staged row. -/
def Database.overwrite (db : Database keyColumns) (rows : List (Row γ)) : Database keyColumns :=
  ⟨rows.foldl Table.put db.table, []⟩

omit [DecidableEq γ] in
theorem commit_not_mem_body (columns : List γ) (u : Upsert keyColumns) (rows : List (Row γ)) :
    Statement.commit ∉ body columns u rows := by
  simp [body]

theorem runScript_append (sts sts' : List (Statement keyColumns)) (s : Session keyColumns) :
    runScript (sts ++ sts') s = (runScript sts s).bind (runScript sts') := by
  induction sts generalizing s with
  | nil => rfl
  | cons st sts ih =>
    rw [List.cons_append, runScript, runScript, Option.bind_assoc]
    exact congrArg _ (funext ih)

theorem runScript_inserts (columns : List γ) (rows : List (Row γ)) (s : Session keyColumns) :
    runScript (rows.map (.insertStaging columns)) s =
      some { s with working := { s.working with staging := s.working.staging ++ rows } } := by
  induction rows generalizing s with
  | nil => simp [runScript]
  | cons r rows ih =>
    rw [List.map_cons, runScript, execute, Option.bind_some, ih]
    simp

section Table

variable {columns : List γ} (hcolumns : ∀ c, c ∈ columns) (hkeys : keyColumns ≠ [])
include hcolumns hkeys

omit [DecidableEq γ] in
theorem columns_ne_nil : columns ≠ [] := by
  obtain ⟨c, -⟩ := List.exists_mem_of_ne_nil _ hkeys
  exact List.ne_nil_of_mem (hcolumns c)

/-- The columns that are no key column are all updated, so the new row replaces the old one. -/
theorem upsertSql_ok : ∃ u : Upsert keyColumns, upsertSql columns keyColumns = .ok u ∧
    Table.upsert u.merge = Table.put := by
  have hne := columns_ne_nil hcolumns hkeys
  refine ⟨_, by rw [upsertSql, if_neg hne, if_neg hkeys], Table.upsert_eq_put ?_⟩
  intro old new h
  funext c
  by_cases hc : c ∈ keyColumns
  · have hupdate : c ∉ columns.filter fun column => decide (column ∉ keyColumns) := by
      simp [hc]
    exact (if_neg hupdate).trans (List.map_inj_left.mp h c hc)
  · have hupdate : c ∈ columns.filter fun column => decide (column ∉ keyColumns) := by
      simp [hc, hcolumns c]
    exact if_pos hupdate

theorem upsertBatch_ok (rows : List (Row γ)) : ∃ u : Upsert keyColumns,
    upsertBatch keyColumns columns rows = .ok (body columns u rows ++ [.commit]) ∧
      Table.upsert u.merge = Table.put := by
  obtain ⟨u, hu, hput⟩ := upsertSql_ok hcolumns hkeys
  refine ⟨u, ?_, hput⟩
  rw [upsertBatch, hu, insertSql, if_neg (columns_ne_nil hcolumns hkeys)]
  cases rows with
  | nil => rfl
  | cons r rows => simp [body, Except.map, bind, Except.bind, pure, Except.pure]

/-- Run to its end, a batch overwrites the table and commits, and fails when two of its rows have
the same key. -/
theorem runScript_upsertBatch_eq {rows : List (Row γ)} {sts : List (Statement keyColumns)}
    (hsts : upsertBatch keyColumns columns rows = .ok sts) (db : Database keyColumns) :
    runScript sts (.connect db) = if (rows.map (keyOf keyColumns)).Nodup then
      some ⟨db.overwrite rows, db.overwrite rows⟩ else none := by
  obtain ⟨u, hbatch, hput⟩ := upsertBatch_ok hcolumns hkeys rows
  obtain rfl := Except.ok.inj (hbatch.symm.trans hsts)
  rw [body, List.cons_append, List.cons_append, runScript, execute, Option.bind_some,
    List.append_assoc, runScript_append, runScript_inserts, Option.bind_some]
  simp only [Session.connect, List.nil_append, List.cons_append, runScript, execute]
  split
  · simp only [Option.bind_some, hput]
    rfl
  · rfl

theorem runScript_upsertBatch {rows : List (Row γ)} (hrows : (rows.map (keyOf keyColumns)).Nodup)
    (db : Database keyColumns) : ∃ sts, upsertBatch keyColumns columns rows = .ok sts ∧
      runScript sts (.connect db) = some ⟨db.overwrite rows, db.overwrite rows⟩ := by
  obtain ⟨u, hbatch, -⟩ := upsertBatch_ok hcolumns hkeys rows
  exact ⟨_, hbatch, by rw [runScript_upsertBatch_eq hcolumns hkeys hbatch, if_pos hrows]⟩

/-- A connection that dies somewhere in a batch leaves the tables as they were, or overwritten by
the whole batch. -/
theorem leftBehind_upsertBatch {rows : List (Row γ)} (hrows : (rows.map (keyOf keyColumns)).Nodup)
    {sts : List (Statement keyColumns)} (hsts : upsertBatch keyColumns columns rows = .ok sts)
    (n : Nat) (db : Database keyColumns) :
    leftBehind (sts.take n) (.connect db) = db ∨
      leftBehind (sts.take n) (.connect db) = db.overwrite rows := by
  obtain ⟨u, hbatch, -⟩ := upsertBatch_ok hcolumns hkeys rows
  obtain ⟨sts', hsts', hrun⟩ := runScript_upsertBatch hcolumns hkeys hrows db
  obtain rfl : sts' = sts := Except.ok.inj (hsts'.symm.trans hsts)
  by_cases hn : n < sts'.length
  · obtain rfl : body columns u rows ++ [.commit] = sts' := Except.ok.inj (hbatch.symm.trans hsts)
    rw [List.length_append, List.length_singleton] at hn
    rw [List.take_append_of_le_length (by omega)]
    exact .inl (leftBehind_of_no_commit _ fun h =>
      commit_not_mem_body columns u rows (List.mem_of_mem_take h))
  · rw [List.take_of_length_le (by omega)]
    exact .inr (leftBehind_of_runScript hrun)

/-- Every batch of `out` goes through `upsert_batch` and commits. -/
inductive Upserted (keyColumns columns : List γ) :
    List (List (Row γ)) → Database keyColumns → Database keyColumns → Prop
  | done (db : Database keyColumns) : Upserted keyColumns columns [] db db
  | next {rows : List (Row γ)} {out : List (List (Row γ))} {sts : List (Statement keyColumns)}
      {session : Session keyColumns} {db db' : Database keyColumns}
      (hsts : upsertBatch keyColumns columns rows = .ok sts)
      (hrun : runScript sts (.connect db) = some session)
      (hrest : Upserted keyColumns columns out session.committed db') :
      Upserted keyColumns columns (rows :: out) db db'

theorem Upserted.table {out : List (List (Row γ))} {db db' : Database keyColumns}
    (h : Upserted keyColumns columns out db db')
    (hnodup : ∀ rows ∈ out, (rows.map (keyOf keyColumns)).Nodup) :
    db'.table = db.table.putAll out := by
  induction h with
  | done db => rfl
  | @next rows out sts session db db' hsts hrun hrest ih =>
    rw [List.forall_mem_cons] at hnodup
    obtain ⟨sts', hsts', hrun'⟩ := runScript_upsertBatch hcolumns hkeys hnodup.1 db
    obtain rfl := Except.ok.inj (hsts.symm.trans hsts')
    obtain rfl := Option.some.inj (hrun.symm.trans hrun')
    exact ih hnodup.2

theorem exists_upserted {out : List (List (Row γ))}
    (hnodup : ∀ rows ∈ out, (rows.map (keyOf keyColumns)).Nodup) (db : Database keyColumns) :
    ∃ db', Upserted keyColumns columns out db db' := by
  induction out generalizing db with
  | nil => exact ⟨db, .done db⟩
  | cons rows out ih =>
    rw [List.forall_mem_cons] at hnodup
    obtain ⟨sts, hsts, hrun⟩ := runScript_upsertBatch hcolumns hkeys hnodup.1 db
    obtain ⟨db', hdb'⟩ := ih hnodup.2 (db.overwrite rows)
    exact ⟨db', .next hsts hrun hdb'⟩

section Query

variable {α κ : Type} [DecidableEq κ] {v : WindowedView α κ (keyOf keyColumns)}
  {batches : List (List α)}

/-- A table into which the output of a query was upserted holds the view of the events on time. -/
theorem Upserted.holds {out : List (List (Row γ))} {db : Database keyColumns}
    (h : Upserted keyColumns columns out ⟨.empty, []⟩ db) (hruns : v.Runs .initial batches out) :
    v.Holds db.table (v.onTime none batches) := by
  rw [h.table hcolumns hkeys (hruns.nodup WindowedView.tracks_initial)]
  exact hruns.holds WindowedView.tracks_initial View.holds_empty

theorem exists_runs_upserted (v : WindowedView α κ (keyOf keyColumns)) (batches : List (List α)) :
    ∃ db : Database keyColumns, ∃ out, v.Runs .initial batches out ∧
      Upserted keyColumns columns out ⟨.empty, []⟩ db := by
  have hruns := v.runs_runOut .initial batches
  obtain ⟨db, hdb⟩ := exists_upserted hcolumns hkeys (hruns.nodup WindowedView.tracks_initial)
    (⟨.empty, []⟩ : Database keyColumns)
  exact ⟨db, _, hruns, hdb⟩

end Query

end Table

end Batch

def upsertPageViews (batch : List (Row PageViewsColumn)) :
    Except Exc (List (Statement pageViewsKeyColumns)) :=
  upsertBatch pageViewsKeyColumns pageViewsColumns batch

def upsertCampaignStats (batch : List (Row CampaignStatsColumn)) :
    Except Exc (List (Statement campaignStatsKeyColumns)) :=
  upsertBatch campaignStatsKeyColumns campaignStatsColumns batch

end Clickstream.PostgresSink
