import Clickstream.DeltaLakehouse
import Mathlib.Data.List.GetD

/-! Runs of the Delta Lake demo, in any modes and over any samples, one after the other.  A write of a
table is one commit, and a run may be stopped between two commits.  Whatever the runs before did, a table
is what the last run that wrote it has left. -/

namespace Clickstream.Lakehouse

open Python Kit DeltaLakehouse

inductive Mode
  | all
  | write
  | merge
  | verify
  deriving DecidableEq

/-- The tables at `CLICKS_PATH` and `SUMMARY_PATH`. -/
structure Lake where
  clicks : Option (List Click)
  summary : Option (List SummaryRow)

def Lake.empty : Lake := ⟨none, none⟩

/-- Spark raises on a column that no line has, on a path without a table and on a source row that
matches two target rows; `main` raises on two merges that leave different numbers of rows. -/
inductive Failure
  | analysis
  | merge
  | notIdempotent

structure Result where
  sampleEvents : Nat
  clicksRowsInDelta : Nat
  summaryRows : Nat
  summaryRowsAfterMerge1 : Nat
  summaryRowsAfterMerge2 : Nat
  mergeIdempotent : Bool
  deriving DecidableEq

/-- The tables in the middle of a run, those that its commits replaced, and what it printed. -/
structure Run where
  lake : Lake
  replaced : List Lake
  printed : Option Result

def Run.start (lake : Lake) : Run := ⟨lake, [], none⟩

abbrev Job := ExceptT Failure (StateM Run)

def exec {α : Type} (job : Job α) (run : Run) : Except Failure α × Run := job.run.run run

def orRaise {α : Type} (failure : Failure) : Option α → Job α
  | some a => pure a
  | none => throw failure

def commit (update : Lake → Lake) : Job Unit :=
  modify fun run => { run with lake := update run.lake, replaced := run.lake :: run.replaced }

def writeClicks (clicks : List Click) : Job Unit := commit fun lake => { lake with clicks := some clicks }

def seedSummaryTable (summary : List SummaryRow) : Job Unit :=
  commit fun lake => { lake with summary := some summary }

def countClicks : Job Nat := do
  let clicks ← orRaise .analysis (← get).lake.clicks
  return clicks.length

def countSummary : Job Nat := do
  let summary ← orRaise .analysis (← get).lake.summary
  return summary.length

/-- `merge_summary` -/
def mergeSummaryTable (summary : List SummaryRow) : Job Nat := do
  let table ← orRaise .analysis (← get).lake.summary
  let merged ← orRaise .merge (mergeSummary table summary)
  commit fun lake => { lake with summary := some merged }
  countSummary

/-- `args.mode in ("all", "write")` -/
def Mode.writes (mode : Mode) : Bool := mode = .all || mode = .write

/-- `args.mode in ("all", "merge")` -/
def Mode.merges (mode : Mode) : Bool := mode = .all || mode = .merge

section Main

variable (spark : Spark)

def main (mode : Mode) (lines : List PyStr) : Job Unit := do
  let clicks ← orRaise .analysis (loadSample spark lines)
  if mode.writes then
    writeClicks clicks
  let summary := dailyPageSummary spark clicks
  let mut afterFirst := 0
  let mut afterSecond := 0
  if mode.merges then
    seedSummaryTable summary
    afterFirst ← mergeSummaryTable summary
    afterSecond ← mergeSummaryTable summary
  else
    if summary.length ≠ 0 then
      afterFirst ← countSummary
    afterSecond := afterFirst
  let mut storedClicks := clicks.length
  if mode = .all || mode = .verify || mode = .write then
    storedClicks ← countClicks
  let result : Result := ⟨clicks.length, storedClicks, summary.length, afterFirst, afterSecond,
    decide (afterFirst = afterSecond)⟩
  modify fun run => { run with printed := some result }
  if !result.mergeIdempotent then
    throw .notIdempotent

/-- `main` over the tables. -/
def execute (mode : Mode) (lines : List PyStr) (lake : Lake) : Except Failure Unit × Run :=
  exec (main spark mode lines) (.start lake)

end Main

/-! ### One run -/

section Exec

variable {α β : Type} {run : Run}

@[simp] theorem exec_pure (a : α) : exec (pure a) run = (.ok a, run) := rfl

@[simp] theorem exec_throw (failure : Failure) :
    exec (throw failure : Job α) run = (.error failure, run) := rfl

@[simp] theorem exec_get : exec get run = (.ok run, run) := rfl

@[simp] theorem exec_modify (f : Run → Run) : exec (modify f) run = (.ok ⟨⟩, f run) := rfl

@[simp] theorem exec_bind (job : Job α) (f : α → Job β) : exec (job >>= f) run =
    match exec job run with
    | (.ok a, run') => exec (f a) run'
    | (.error failure, run') => (.error failure, run') := by
  have hbind : exec (job >>= f) run =
      StateT.run (ExceptT.bindCont f (exec job run).1) (exec job run).2 := rfl
  rw [hbind]
  rcases exec job run with ⟨failure | a, run'⟩
  · rfl
  · rfl

end Exec

/-- The summary table behind `k` merges. -/
def merged (summary : List SummaryRow) (k : Nat) : List SummaryRow :=
  summary ++ (List.replicate k (nullRows summary)).flatten

section Modes

variable {spark : Spark} {lines : List PyStr} {clicks : List Click} {lake : Lake}

theorem mergeSummary_merged (clicks : List Click) (k : Nat) :
    mergeSummary (merged (dailyPageSummary spark clicks) k) (dailyPageSummary spark clicks) =
      some (merged (dailyPageSummary spark clicks) (k + 1)) := by
  have hkeys := nodup_dailyPageSummary spark clicks
  have hnext := afterMerges_eq hkeys (k + 1)
  rwa [afterMerges, afterMerges_eq hkeys k, Option.bind_some] at hnext

theorem length_merged (summary : List SummaryRow) (k : Nat) :
    (merged summary k).length = summary.length + k * (nullRows summary).length := by
  rw [merged, List.length_append, List.length_flatten, List.map_replicate, List.sum_replicate_nat]

theorem execute_none (mode : Mode) (h : loadSample spark lines = none) :
    execute spark mode lines lake = (.error .analysis, .start lake) := by
  rw [execute, main, h]
  rfl

theorem merged_zero (summary : List SummaryRow) : merged summary 0 = summary := List.append_nil _

/-- The rows that no merge matches make the difference. -/
theorem length_merged_eq_iff (summary : List SummaryRow) :
    (merged summary 1).length = (merged summary 2).length ↔ nullRows summary = [] := by
  rw [length_merged, length_merged, ← List.length_eq_zero_iff]
  omega

theorem exec_mergeSummaryTable {run : Run} {k : Nat}
    (h : run.lake.summary = some (merged (dailyPageSummary spark clicks) k)) :
    exec (mergeSummaryTable (dailyPageSummary spark clicks)) run =
      (.ok (merged (dailyPageSummary spark clicks) (k + 1)).length,
        { run with
          lake := { run.lake with summary := some (merged (dailyPageSummary spark clicks) (k + 1)) }
          replaced := run.lake :: run.replaced }) := by
  rw [mergeSummaryTable]
  simp [h, orRaise, mergeSummary_merged, commit, countSummary]

/-- What a run that seeds the summary table of the tables `seeded` leaves, reports and raises. -/
def mergedRun (spark : Spark) (clicks : List Click) (seeded : Lake) (replaced : List Lake) :
    Except Failure Unit × Run :=
  let summary := dailyPageSummary spark clicks
  let after (k : Nat) : Lake := { seeded with summary := some (merged summary k) }
  (if nullRows summary = [] then .ok ⟨⟩ else .error .notIdempotent,
    { lake := after 2
      replaced := [after 1, after 0] ++ replaced
      printed := some ⟨clicks.length, clicks.length, summary.length, (merged summary 1).length,
        (merged summary 2).length, decide (nullRows summary = [])⟩ })

theorem execute_all (h : loadSample spark lines = some clicks) :
    execute spark .all lines lake =
      mergedRun spark clicks ⟨some clicks, lake.summary⟩ [⟨some clicks, lake.summary⟩, lake] := by
  rw [execute, main, h]
  simp only [orRaise, Mode.writes, decide_true, reduceCtorEq, decide_false, Bool.or_false,
    ↓reduceIte, writeClicks, commit, Mode.merges, seedSummaryTable, countClicks, bind_pure_comp,
    Bool.not_eq_eq_eq_not, Bool.not_true, decide_eq_false_iff_not, ite_not, bind_assoc,
    bind_map_left, pure_bind, Run.start, exec_bind, exec_modify, exec_get]
  rw [exec_mergeSummaryTable (k := 0) (by rw [merged_zero])]
  simp only
  rw [exec_mergeSummaryTable (k := 1) rfl]
  simp only [Nat.reduceAdd, zero_add, exec_pure, length_merged_eq_iff, mergedRun, merged_zero,
    List.cons_append, List.nil_append]
  split <;> rfl

theorem execute_merge (h : loadSample spark lines = some clicks) :
    execute spark .merge lines lake = mergedRun spark clicks lake [lake] := by
  rw [execute, main, h]
  simp only [orRaise, Mode.writes, reduceCtorEq, decide_false, Bool.or_self, Bool.false_eq_true,
    ↓reduceIte, Mode.merges, decide_true, Bool.or_true, seedSummaryTable, commit,
    Bool.not_eq_eq_eq_not, Bool.not_true, decide_eq_false_iff_not, ite_not, pure_bind, Run.start,
    exec_bind, exec_modify]
  rw [exec_mergeSummaryTable (k := 0) (by rw [merged_zero])]
  simp only
  rw [exec_mergeSummaryTable (k := 1) rfl]
  simp only [zero_add, Nat.reduceAdd, length_merged_eq_iff, mergedRun, merged_zero,
    List.cons_append, List.nil_append]
  split <;> rfl

/-- What a run without merges reports: the rows of the summary table, unless the sample is empty. -/
def readRun (spark : Spark) (clicks : List Click) (lake : Lake) (replaced : List Lake) :
    Except Failure Unit × Run :=
  let summary := dailyPageSummary spark clicks
  let rows : Option Nat := if summary = [] then some 0 else lake.summary.map List.length
  match rows, lake.clicks with
  | some rows, some stored =>
    (.ok ⟨⟩, ⟨lake, replaced, some ⟨clicks.length, stored.length, summary.length, rows, rows, true⟩⟩)
  | _, _ => (.error .analysis, ⟨lake, replaced, none⟩)

theorem execute_write (h : loadSample spark lines = some clicks) :
    execute spark .write lines lake =
      readRun spark clicks ⟨some clicks, lake.summary⟩ [lake] := by
  rw [execute, main, h]
  simp only [orRaise, Mode.writes, reduceCtorEq, decide_false, decide_true, Bool.or_true,
    ↓reduceIte, writeClicks, commit, Mode.merges, Bool.or_self, Bool.false_eq_true, ne_eq,
    List.length_eq_zero_iff, countSummary, bind_pure_comp, countClicks, Bool.not_true, id_map',
    bind_assoc, bind_map_left, ite_not, pure_bind, Run.start, exec_bind, exec_modify]
  rw [readRun]
  by_cases hempty : dailyPageSummary spark clicks = []
  · simp [hempty]
  · cases hsummary : lake.summary with
    | none => simp [hempty]
    | some table => simp [hempty]

theorem execute_verify (h : loadSample spark lines = some clicks) :
    execute spark .verify lines lake = readRun spark clicks lake [] := by
  rw [execute, main, h]
  simp only [orRaise, Mode.writes, reduceCtorEq, decide_false, Bool.or_self, Bool.false_eq_true,
    ↓reduceIte, Mode.merges, ne_eq, List.length_eq_zero_iff, countSummary, bind_pure_comp,
    decide_true, Bool.or_true, Bool.or_false, countClicks, Bool.not_true, id_map', bind_assoc,
    bind_map_left, ite_not, pure_bind, Run.start]
  rw [readRun]
  by_cases hempty : dailyPageSummary spark clicks = []
  · cases hclicks : lake.clicks with
    | none => simp [hempty, hclicks]
    | some stored => simp [hempty, hclicks]
  · cases hsummary : lake.summary with
    | none => simp [hempty, hsummary]
    | some table =>
      cases hclicks : lake.clicks with
      | none => simp [hempty, hsummary, hclicks]
      | some stored => simp [hempty, hsummary, hclicks]

end Modes

/-! ### One run after the other -/

/-- A run that is stopped behind a number of commits, when it comes to so many. -/
structure Execution where
  mode : Mode
  lines : List PyStr
  commits : Nat

section History

variable (spark : Spark)

def Execution.leaves (e : Execution) (lake : Lake) : Lake :=
  let run := (execute spark e.mode e.lines lake).2
  (run.lake :: run.replaced).reverse.getD e.commits run.lake

def lakeAfter (history : List Execution) : Lake :=
  history.foldl (fun lake e => e.leaves spark lake) .empty

/-- The clicks that an execution writes. -/
def Execution.clicks (e : Execution) : Option (List Click) :=
  if e.mode.writes ∧ 1 ≤ e.commits then loadSample spark e.lines else none

/-- The number of commits up to that of `seed_summary_table`. -/
def Execution.seeded (e : Execution) : Nat := if e.mode.writes then 2 else 1

/-- The summary that an execution leaves. -/
def Execution.summary (e : Execution) : Option (List SummaryRow) :=
  if e.mode.merges ∧ e.seeded ≤ e.commits then
    (loadSample spark e.lines).map fun clicks =>
      merged (dailyPageSummary spark clicks) (min 2 (e.commits - e.seeded))
  else none

variable {spark} {lake : Lake}

theorem readRun_run (clicks : List Click) (replaced : List Lake) :
    (readRun spark clicks lake replaced).2.lake = lake ∧
      (readRun spark clicks lake replaced).2.replaced = replaced := by
  rw [readRun]
  split <;> exact ⟨rfl, rfl⟩

/-- An execution replaces the tables that it writes. -/
theorem leaves_eq (e : Execution) : e.leaves spark lake =
    ⟨(e.clicks spark).or lake.clicks, (e.summary spark).or lake.summary⟩ := by
  obtain ⟨mode, lines, commits⟩ := e
  rw [Execution.leaves, Execution.clicks, Execution.summary, Execution.seeded]
  cases hload : loadSample spark lines with
  | none => simp [execute_none _ hload, Run.start]
  | some clicks =>
    cases mode with
    | all =>
      simp only [execute_all hload, mergedRun, Mode.writes, Mode.merges]
      rcases commits with - | - | - | - | n <;> simp [merged_zero]
    | write =>
      simp only [execute_write hload, readRun_run, Mode.writes, Mode.merges]
      rcases commits with - | n <;> simp
    | merge =>
      simp only [execute_merge hload, mergedRun, Mode.writes, Mode.merges]
      rcases commits with - | - | - | n <;> simp [merged_zero]
    | verify => simp [execute_verify hload, readRun_run, Mode.writes, Mode.merges]

theorem lakeAfter_eq (history : List Execution) : lakeAfter spark history =
    ⟨(history.filterMap (Execution.clicks spark)).getLast?,
      (history.filterMap (Execution.summary spark)).getLast?⟩ := by
  induction history using List.reverseRecOn with
  | nil => rfl
  | append_singleton history e ih =>
    have hlast : lakeAfter spark (history ++ [e]) = e.leaves spark (lakeAfter spark history) := by
      rw [lakeAfter, List.foldl_append]
      rfl
    rw [hlast, leaves_eq, ih]
    simp only [List.filterMap_append, List.getLast?_append]
    cases hclicks : e.clicks spark <;> cases hsummary : e.summary spark <;> simp [hclicks, hsummary]

/-! ### What a run finds -/

/-- What a mode needs of the sample and of the tables that it finds. -/
structure Ready (mode : Mode) (clicks : List Click) (lake : Lake) : Prop where
  keyed : mode.merges = true → ∀ c ∈ clicks, c.ts ≠ none ∧ c.page ≠ none
  summary : mode.merges = false → clicks ≠ [] → lake.summary ≠ none
  clicks : mode = .verify → lake.clicks ≠ none

/-- The report of a run over the sample `clicks`: it counts the sample, its summary and the rows of the
tables as the run leaves them, except that a merge counts the sample for the clicks table, and that no
summary table is counted for an empty sample. -/
structure Counts (spark : Spark) (mode : Mode) (clicks : List Click) (lake : Lake) (result : Result) :
    Prop where
  sampleEvents : result.sampleEvents = clicks.length
  stored : mode ≠ .merge → lake.clicks.map List.length = some result.clicksRowsInDelta
  unread : mode = .merge → result.clicksRowsInDelta = clicks.length
  summaryRows : result.summaryRows = (dailyPageSummary spark clicks).length
  summary : clicks ≠ [] → lake.summary.map List.length = some result.summaryRowsAfterMerge2
  empty : clicks = [] → result.summaryRowsAfterMerge2 = 0
  merges : result.summaryRowsAfterMerge1 = result.summaryRowsAfterMerge2
  mergeIdempotent : result.mergeIdempotent = true

def Reports (spark : Spark) (mode : Mode) (lines : List PyStr) (run : Run) : Prop :=
  ∃ clicks result, loadSample spark lines = some clicks ∧ run.printed = some result ∧
    Counts spark mode clicks run.lake result

section Find

variable {clicks : List Click} {lines : List PyStr}

theorem dailyPageSummary_eq_nil : dailyPageSummary spark clicks = [] ↔ clicks = [] := by
  constructor
  · intro h
    rw [List.eq_nil_iff_forall_not_mem] at h ⊢
    intro c hc
    exact h _ (mem_aggregate.mpr ⟨_, mem_groupKeys.mpr ⟨c, hc, rfl⟩, rfl⟩)
  · rintro rfl
    rfl

variable (spark) in
theorem nullRows_dailyPageSummary : nullRows (dailyPageSummary spark clicks) = [] ↔
    ∀ c ∈ clicks, c.ts ≠ none ∧ c.page ≠ none := nullRows_eq_nil.trans (forall_dailyPageSummary spark _)

theorem mergedRun_ok (replaced : List Lake) : (mergedRun spark clicks lake replaced).1 = .ok ⟨⟩ ↔
    ∀ c ∈ clicks, c.ts ≠ none ∧ c.page ≠ none := by
  rw [← nullRows_dailyPageSummary spark, mergedRun]
  split <;> simp [*]

theorem readRun_ok (replaced : List Lake) : (readRun spark clicks lake replaced).1 = .ok ⟨⟩ ↔
    (clicks ≠ [] → lake.summary ≠ none) ∧ lake.clicks ≠ none := by
  rw [readRun]
  simp only [dailyPageSummary_eq_nil]
  by_cases hempty : clicks = [] <;> cases lake.summary <;> cases lake.clicks <;> simp [hempty]

theorem execute_ok_iff (mode : Mode) (lines : List PyStr) :
    (execute spark mode lines lake).1 = .ok ⟨⟩ ↔
      ∃ clicks, loadSample spark lines = some clicks ∧ Ready mode clicks lake := by
  cases hload : loadSample spark lines with
  | none => simp [execute_none mode hload]
  | some clicks =>
    simp only [Option.some_inj, exists_eq_left']
    cases mode with
    | all =>
      rw [execute_all hload, mergedRun_ok]
      exact ⟨fun h => ⟨fun _ => h, by simp [Mode.merges], by simp⟩, fun h => h.keyed rfl⟩
    | write =>
      rw [execute_write hload, readRun_ok]
      exact ⟨fun h => ⟨by simp [Mode.merges], fun _ => h.1, by simp⟩,
        fun h => ⟨h.summary rfl, by simp⟩⟩
    | merge =>
      rw [execute_merge hload, mergedRun_ok]
      exact ⟨fun h => ⟨fun _ => h, by simp [Mode.merges], by simp⟩, fun h => h.keyed rfl⟩
    | verify =>
      rw [execute_verify hload, readRun_ok]
      exact ⟨fun h => ⟨by simp [Mode.merges], fun _ => h.1, fun _ => h.2⟩,
        fun h => ⟨h.summary rfl, h.clicks rfl⟩⟩

theorem merged_nil (spark : Spark) (k : Nat) : merged (dailyPageSummary spark []) k = [] := by
  have hnil : dailyPageSummary spark [] = [] := rfl
  have hnull : nullRows [] = [] := rfl
  rw [hnil, merged, hnull, List.nil_append, List.flatten_eq_nil_iff]
  exact fun rows hrows => List.eq_of_mem_replicate hrows

theorem mergedRun_reports {mode : Mode} {replaced : List Lake}
    (hload : loadSample spark lines = some clicks) (hclicks : mode ≠ .merge → lake.clicks = some clicks)
    (h : (mergedRun spark clicks lake replaced).1 = .ok ⟨⟩) :
    Reports spark mode lines (mergedRun spark clicks lake replaced).2 := by
  rw [mergedRun_ok, ← nullRows_dailyPageSummary spark] at h
  refine ⟨clicks, _, hload, rfl, ?_⟩
  constructor
  case sampleEvents => rfl
  case stored =>
    intro hmode
    show lake.clicks.map List.length = some clicks.length
    rw [hclicks hmode, Option.map_some]
  case unread => exact fun _ => rfl
  case summaryRows => rfl
  case summary => exact fun _ => rfl
  case empty =>
    rintro rfl
    exact congrArg List.length (merged_nil spark 2)
  case merges => exact (length_merged_eq_iff _).mpr h
  case mergeIdempotent => exact decide_eq_true h

theorem readRun_reports {mode : Mode} {replaced : List Lake}
    (hload : loadSample spark lines = some clicks) (hmode : mode ≠ .merge)
    (h : (readRun spark clicks lake replaced).1 = .ok ⟨⟩) :
    Reports spark mode lines (readRun spark clicks lake replaced).2 := by
  obtain ⟨hsummary, hclicks⟩ := (readRun_ok replaced).mp h
  obtain ⟨stored, hstored⟩ := Option.ne_none_iff_exists'.mp hclicks
  by_cases hempty : clicks = []
  · refine ⟨clicks, ⟨clicks.length, stored.length, (dailyPageSummary spark clicks).length, 0, 0, true⟩,
      hload, ?_, ?_⟩
    · simp [readRun, dailyPageSummary_eq_nil, hempty, hstored]
    · rw [(readRun_run clicks replaced).1]
      exact ⟨rfl, fun _ => by rw [hstored, Option.map_some], fun heq => absurd heq hmode, rfl,
        fun hne => absurd hempty hne, fun _ => rfl, rfl, rfl⟩
  · obtain ⟨table, htable⟩ := Option.ne_none_iff_exists'.mp (hsummary hempty)
    refine ⟨clicks, ⟨clicks.length, stored.length, (dailyPageSummary spark clicks).length, table.length,
      table.length, true⟩, hload, ?_, ?_⟩
    · simp [readRun, dailyPageSummary_eq_nil, hempty, hstored, htable]
    · rw [(readRun_run clicks replaced).1]
      exact ⟨rfl, fun _ => by rw [hstored, Option.map_some], fun heq => absurd heq hmode, rfl,
        fun _ => by rw [htable, Option.map_some], fun heq => absurd heq hempty, rfl, rfl⟩

theorem execute_reports {mode : Mode} (h : (execute spark mode lines lake).1 = .ok ⟨⟩) :
    Reports spark mode lines (execute spark mode lines lake).2 := by
  obtain ⟨clicks, hload, -⟩ := (execute_ok_iff mode lines).mp h
  cases mode with
  | all =>
    rw [execute_all hload] at h ⊢
    exact mergedRun_reports hload (fun _ => rfl) h
  | write =>
    rw [execute_write hload] at h ⊢
    exact readRun_reports hload nofun h
  | merge =>
    rw [execute_merge hload] at h ⊢
    exact mergedRun_reports hload (fun hmode => absurd rfl hmode) h
  | verify =>
    rw [execute_verify hload] at h ⊢
    exact readRun_reports hload nofun h

end Find

theorem filter_keyed_merged (summary : List SummaryRow) (k : Nat) :
    (merged summary k).filter (fun r => decide (Keyed r)) =
      summary.filter fun r => decide (Keyed r) := by
  have hnull : (List.replicate k (nullRows summary)).flatten.filter (fun r => decide (Keyed r)) = [] := by
    rw [List.filter_eq_nil_iff]
    intro r hr
    obtain ⟨rows, hrows, hr⟩ := List.mem_flatten.mp hr
    rw [List.eq_of_mem_replicate hrows] at hr
    simpa using (List.mem_filter.mp hr).2
  rw [merged, List.filter_append, hnull, List.append_nil]

/-- A table is what the last execution that wrote it left, however the executions were stopped: under its
full keys the summary is that of one sample.  A run is successful exactly when the sample and the tables
are as its mode needs them, and then its report counts the rows of the tables. -/
theorem lakehouse_of_history (spark : Spark) (history : List Execution) :
    lakeAfter spark history = ⟨(history.filterMap (Execution.clicks spark)).getLast?,
      (history.filterMap (Execution.summary spark)).getLast?⟩ ∧
    (∀ table, (lakeAfter spark history).summary = some table → ∃ e ∈ history, ∃ clicks,
      loadSample spark e.lines = some clicks ∧ table.filter (fun r => decide (Keyed r)) =
        (dailyPageSummary spark clicks).filter fun r => decide (Keyed r)) ∧
    ∀ mode lines,
      ((execute spark mode lines (lakeAfter spark history)).1 = .ok ⟨⟩ ↔
        ∃ clicks, loadSample spark lines = some clicks ∧
          Ready mode clicks (lakeAfter spark history)) ∧
      ((execute spark mode lines (lakeAfter spark history)).1 = .ok ⟨⟩ →
        Reports spark mode lines (execute spark mode lines (lakeAfter spark history)).2) := by
  refine ⟨lakeAfter_eq history, ?_, fun mode lines => ⟨execute_ok_iff mode lines, execute_reports⟩⟩
  intro table htable
  rw [lakeAfter_eq] at htable
  obtain ⟨e, he, hsummary⟩ := List.mem_filterMap.mp (List.mem_of_getLast? htable)
  rw [Execution.summary] at hsummary
  split at hsummary
  · obtain ⟨clicks, hload, rfl⟩ := Option.map_eq_some_iff.mp hsummary
    exact ⟨e, he, clicks, hload, filter_keyed_merged ..⟩
  · cases hsummary

end History

end Clickstream.Lakehouse
