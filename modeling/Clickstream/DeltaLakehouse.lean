import Clickstream.Kit.Grouping
import Clickstream.Python.Json
import Clickstream.Python.Strftime

/-! The Delta Lake demo: the daily summary of a sample of JSON lines, and its `MERGE` into the table
that it made. -/

namespace Clickstream.DeltaLakehouse

open Python Kit

/-- The columns that `load_sample` reads of a line; one that the line does not have is `NULL`, and so
are all of a malformed line. -/
structure JsonRow where
  eventId : Option PyStr
  userId : Option PyStr
  page : Option PyStr
  device : Option PyStr
  ts : Option PyStr
  deriving DecidableEq

/-- The functions of Spark that the job calls, in a session with the time zone UTC. A column that no
line has is an `AnalysisException`. -/
structure Spark where
  readJson : List PyStr → Option (List JsonRow)
  toTimestamp : PyStr → PyStr → Option DateTime
  dateFormat : DateTime → PyStr → PyStr

structure Click where
  eventId : Option PyStr
  userId : Option PyStr
  page : Option PyStr
  device : Option PyStr
  ts : Option DateTime

structure SummaryRow where
  day : Option PyStr
  page : Option PyStr
  views : Nat
  deriving DecidableEq

def tsFormat : PyStr := lit "yyyy-MM-dd'T'HH:mm:ss'Z'"

section Job

variable (spark : Spark)

def loadSample (lines : List PyStr) : Option (List Click) :=
  (spark.readJson lines).map fun rows => rows.map fun r =>
    ⟨r.eventId, r.userId, r.page, r.device, r.ts.bind fun ts => spark.toTimestamp ts tsFormat⟩

def day (c : Click) : Option PyStr := c.ts.map fun t => spark.dateFormat t (lit "yyyy-MM-dd")

/-- `groupBy("day", "page")`, for which all `NULL`s are one value, and `count("*")`. -/
def dailyPageSummary (clicks : List Click) : List SummaryRow :=
  aggregate (fun c => some (day spark c, c.page)) (fun k group => ⟨k.1, k.2, group.length⟩) clicks

end Job

/-! ### SQL -/

/-- `a = b`, which is `NULL` when an operand is. -/
def sqlEq {α : Type} [DecidableEq α] (a b : Option α) : Option Bool :=
  match a, b with
  | some a, some b => some (decide (a = b))
  | _, _ => none

def sqlAnd : Option Bool → Option Bool → Option Bool
  | some false, _ => some false
  | _, some false => some false
  | some true, some true => some true
  | _, _ => none

/-- `t.day = s.day AND t.page = s.page` -/
def onCondition (t s : SummaryRow) : Bool :=
  sqlAnd (sqlEq t.day s.day) (sqlEq t.page s.page) == some true

/-- `MERGE INTO`: it fails when two source rows match one target row. -/
def mergeSummary (table summary : List SummaryRow) : Option (List SummaryRow) :=
  if table.any fun t => decide (1 < summary.countP (onCondition t)) then none
  else some
    ((table.map fun t => match summary.find? (onCondition t) with
      | some s => { t with views := s.views }
      | none => t) ++
      summary.filter fun s => !table.any fun t => onCondition t s)

/-- The summary table behind `seed_summary_table` and a number of calls of `merge_summary`. -/
def afterMerges (summary : List SummaryRow) : Nat → Option (List SummaryRow)
  | 0 => some summary
  | k + 1 => (afterMerges summary k).bind fun table => mergeSummary table summary

/-- `merge_idempotent` of `main`, which compares the numbers of rows behind two merges; `none` when a
merge fails. -/
def mergeIdempotent (summary : List SummaryRow) : Option Bool := do
  let afterFirst ← afterMerges summary 1
  let afterSecond ← afterMerges summary 2
  return afterFirst.length == afterSecond.length

/-! ### Merges of a summary into itself -/

theorem sqlEq_eq_true {α : Type} [DecidableEq α] {a b : Option α} :
    sqlEq a b = some true ↔ ∃ x, a = some x ∧ b = some x := by
  cases a with
  | none => simp [sqlEq]
  | some x =>
    cases b with
    | none => simp [sqlEq]
    | some y => simp [sqlEq, eq_comm]

theorem sqlAnd_eq_true {a b : Option Bool} :
    sqlAnd a b = some true ↔ a = some true ∧ b = some true := by
  rcases a with - | - | - <;> rcases b with - | - | - <;> simp [sqlAnd]

/-- A row without `NULL` in its key. -/
def Keyed (r : SummaryRow) : Prop := r.day ≠ none ∧ r.page ≠ none

instance (r : SummaryRow) : Decidable (Keyed r) := inferInstanceAs (Decidable (_ ∧ _))

theorem onCondition_iff {t s : SummaryRow} :
    onCondition t s = true ↔ Keyed s ∧ (t.day, t.page) = (s.day, s.page) := by
  rw [onCondition, beq_iff_eq, sqlAnd_eq_true, sqlEq_eq_true, sqlEq_eq_true, Prod.mk.injEq]
  constructor
  · rintro ⟨⟨d, htd, hsd⟩, p, htp, hsp⟩
    exact ⟨⟨by simp [hsd], by simp [hsp]⟩, htd.trans hsd.symm, htp.trans hsp.symm⟩
  · rintro ⟨⟨hd, hp⟩, htd, htp⟩
    obtain ⟨d, hsd⟩ := Option.ne_none_iff_exists'.mp hd
    obtain ⟨p, hsp⟩ := Option.ne_none_iff_exists'.mp hp
    exact ⟨⟨d, htd.trans hsd, hsd⟩, p, htp.trans hsp, hsp⟩

section Merges

variable {summary : List SummaryRow} (hkeys : (summary.map fun r => (r.day, r.page)).Nodup)

/-- The rows that no row matches. -/
def nullRows (summary : List SummaryRow) : List SummaryRow := summary.filter fun r => ¬Keyed r

include hkeys in
theorem eq_of_onCondition {t s : SummaryRow} (ht : t ∈ summary) (hs : s ∈ summary)
    (h : onCondition t s = true) : t = s :=
  List.inj_on_of_nodup_map hkeys ht hs (onCondition_iff.mp h).2

include hkeys in
/-- A summary matches each of its own rows at most once, so a merge of it does not fail and changes no
row that comes from it. -/
theorem mergeSummary_eq {table : List SummaryRow} (hsub : ∀ t ∈ table, t ∈ summary)
    (hsup : ∀ s ∈ summary, s ∈ table) :
    mergeSummary table summary = some (table ++ nullRows summary) := by
  have hfails : ¬(table.any fun t => decide (1 < summary.countP (onCondition t))) = true := by
    rw [List.any_eq_true]
    rintro ⟨t, ht, hlt⟩
    have hle : summary.countP (onCondition t) ≤ summary.count t := by
      apply List.countP_mono_left
      intro s hs hts
      exact beq_iff_eq.mpr (eq_of_onCondition hkeys (hsub t ht) hs hts).symm
    have hone : summary.count t ≤ 1 := List.nodup_iff_count_le_one.mp hkeys.of_map t
    have hlt := of_decide_eq_true hlt
    omega
  have hmatched : (table.map fun t => match summary.find? (onCondition t) with
      | some s => { t with views := s.views }
      | none => t) = table := by
    refine Eq.trans ?_ (List.map_id table)
    apply List.map_congr_left
    intro t ht
    cases hfind : summary.find? (onCondition t) with
    | none => rfl
    | some s =>
      have hs := List.mem_of_find?_eq_some hfind
      obtain rfl := eq_of_onCondition hkeys (hsub t ht) hs (List.find?_some hfind)
      rfl
  have hinserted : (summary.filter fun s => !table.any fun t => onCondition t s) =
      nullRows summary := by
    apply List.filter_congr
    intro s hs
    rw [Bool.eq_iff_iff, Bool.not_eq_true', decide_eq_true_iff, ← Bool.not_eq_true, List.any_eq_true]
    apply not_congr
    constructor
    · rintro ⟨t, -, hts⟩
      exact (onCondition_iff.mp hts).1
    · intro h
      exact ⟨s, hsup s hs, onCondition_iff.mpr ⟨h, rfl⟩⟩
  rw [mergeSummary, if_neg hfails, hmatched, hinserted]

include hkeys in
/-- Each merge adds the rows with `NULL` in their key once more. -/
theorem afterMerges_eq (k : Nat) : afterMerges summary k =
    some (summary ++ (List.replicate k (nullRows summary)).flatten) := by
  induction k with
  | zero => simp [afterMerges]
  | succ k ih =>
    rw [afterMerges, ih, Option.bind_some, mergeSummary_eq hkeys]
    · rw [List.replicate_succ', List.flatten_append, List.flatten_singleton, List.append_assoc]
    · intro t ht
      rcases List.mem_append.mp ht with ht | ht
      · exact ht
      · obtain ⟨rows, hrows, ht⟩ := List.mem_flatten.mp ht
        rw [List.eq_of_mem_replicate hrows] at ht
        exact List.mem_of_mem_filter ht
    · intro s hs
      exact List.mem_append_left _ hs

theorem nullRows_eq_nil : nullRows summary = [] ↔ ∀ r ∈ summary, Keyed r := by
  rw [nullRows, List.filter_eq_nil_iff]
  simp only [decide_eq_true_eq, not_not]

include hkeys in
/-- The table stays as it was seeded where every row has a key without `NULL`. -/
theorem afterMerges_perm_iff :
    (∀ k, ∃ table, afterMerges summary k = some table ∧ table.Perm summary) ↔
      ∀ r ∈ summary, Keyed r := by
  rw [← nullRows_eq_nil]
  constructor
  · intro h
    obtain ⟨table, htable, hperm⟩ := h 1
    rw [afterMerges_eq hkeys, Option.some_inj] at htable
    have hlength := hperm.length_eq
    simp only [← htable, List.length_append, List.replicate_one, List.flatten_singleton] at hlength
    apply List.eq_nil_of_length_eq_zero
    omega
  · intro h k
    exact ⟨_, afterMerges_eq hkeys k, by simp [h]⟩

include hkeys in
/-- Two merges leave as many rows as one does only where both leave the table as it was seeded. -/
theorem mergeIdempotent_iff : mergeIdempotent summary = some true ↔ ∀ r ∈ summary, Keyed r := by
  rw [← nullRows_eq_nil, mergeIdempotent, afterMerges_eq hkeys, afterMerges_eq hkeys]
  simp only [Option.bind_eq_bind, Option.bind_some, Option.pure_def, Option.some_inj, beq_iff_eq,
    List.length_append, List.replicate_succ, List.replicate_zero, List.flatten_cons, List.flatten_nil,
    List.length_nil, ← List.length_eq_zero_iff]
  omega

end Merges

/-! ### The summary of a sample -/

section Sample

variable (spark : Spark)

theorem nodup_dailyPageSummary (clicks : List Click) :
    ((dailyPageSummary spark clicks).map fun r => (r.day, r.page)).Nodup := by
  have hkeys : (groupKeys (fun c => some (day spark c, c.page)) clicks).Nodup := nodup_groupKeys clicks
  rw [dailyPageSummary, aggregate, List.map_map]
  simpa only [Function.comp_def, Prod.mk.eta, List.map_id'] using hkeys

theorem forall_dailyPageSummary (clicks : List Click) :
    (∀ r ∈ dailyPageSummary spark clicks, Keyed r) ↔ ∀ c ∈ clicks, c.ts ≠ none ∧ c.page ≠ none := by
  have hday : ∀ c : Click, day spark c = none ↔ c.ts = none := fun c => Option.map_eq_none_iff
  constructor
  · intro h c hc
    have hkeyed := h _ (mem_aggregate.mpr ⟨_, mem_groupKeys.mpr ⟨c, hc, rfl⟩, rfl⟩)
    exact ⟨fun hts => hkeyed.1 ((hday c).mpr hts), hkeyed.2⟩
  · intro h r hr
    obtain ⟨k, hk, rfl⟩ := mem_aggregate.mp hr
    obtain ⟨c, hc, hkey⟩ := mem_groupKeys.mp hk
    obtain rfl := Option.some_inj.mp hkey
    exact ⟨fun hnone => (h c hc).1 ((hday c).mp hnone), (h c hc).2⟩

/-- A merge of the summary into its own table is idempotent for the samples in which every line has a
page and a `ts` of the format. -/
theorem merges_idempotent_iff {lines : List PyStr} {rows : List JsonRow}
    (hread : spark.readJson lines = some rows) :
    (∀ k, ∃ clicks table, loadSample spark lines = some clicks ∧
      afterMerges (dailyPageSummary spark clicks) k = some table ∧
        table.Perm (dailyPageSummary spark clicks)) ↔
      ∀ r ∈ rows, (∃ ts, r.ts = some ts ∧ spark.toTimestamp ts tsFormat ≠ none) ∧ r.page ≠ none := by
  rw [loadSample, hread, Option.map_some]
  simp only [Option.some_inj, exists_and_left, exists_eq_left']
  rw [afterMerges_perm_iff (nodup_dailyPageSummary spark _), forall_dailyPageSummary,
    List.forall_mem_map]
  apply forall₂_congr
  intro r _
  cases r.ts <;> simp

end Sample

/-! ### A sample -/

def column (name : String) (members : List (PyStr × Json)) : Option PyStr :=
  match members.lookup (lit name) with
  | some (.str s) => some s
  | _ => none

def readRow (line : PyStr) : JsonRow :=
  match loads cpython line with
  | .ok (.obj members) => ⟨column "event_id" members, column "user_id" members, column "page" members,
      column "device" members, column "ts" members⟩
  | _ => ⟨none, none, none, none, none⟩

def allColumns (rows : List JsonRow) : Bool :=
  rows.any (·.eventId.isSome) && rows.any (·.userId.isSome) && rows.any (·.page.isSome) &&
    rows.any (·.device.isSome) && rows.any (·.ts.isSome)

/-- Spark on lines of string members. -/
def stringSpark : Spark where
  readJson lines := if allColumns (lines.map readRow) then some (lines.map readRow) else none
  toTimestamp ts _ := if Padded ts then paddedDateTime ts else none
  dateFormat t _ := strftime t (lit "%Y-%m-%d")

def clickLine (id user page ts : String) : PyStr :=
  dumps [(lit "event_id", lit id), (lit "user_id", lit user), (lit "page", lit page),
    (lit "device", lit "mobile"), (lit "ts", lit ts)]

def homeLine : PyStr := clickLine "e1" "u-0001" "/home" "2026-08-27T15:00:00Z"

/-- A line without a page. -/
def pagelessLine : PyStr := dumps [(lit "event_id", lit "e2"), (lit "user_id", lit "u-0001"),
  (lit "device", lit "mobile"), (lit "ts", lit "2026-08-27T15:00:00Z")]

/-- Clicks of two users on two pages and two days. -/
def sampleLines : List PyStr :=
  [homeLine, clickLine "e3" "u-0002" "/home" "2026-08-27T16:00:00Z",
    clickLine "e4" "u-0001" "/cart" "2026-08-27T15:00:30Z",
    clickLine "e5" "u-0001" "/home" "2026-08-28T09:00:00Z"]

theorem merges_idempotent_sampleLines :
    (loadSample stringSpark sampleLines).map (fun clicks =>
      (dailyPageSummary stringSpark clicks).length) = some 3 ∧
    ∀ k, ∃ clicks table, loadSample stringSpark sampleLines = some clicks ∧
      afterMerges (dailyPageSummary stringSpark clicks) k = some table ∧
        table.Perm (dailyPageSummary stringSpark clicks) := by
  have hread : stringSpark.readJson sampleLines = some (sampleLines.map readRow) := by decide +kernel
  exact ⟨by decide +kernel, (merges_idempotent_iff stringSpark hread).mpr (by decide +kernel)⟩

/-- The row of a click without a page is inserted once more by each merge. -/
theorem not_merges_idempotent : ¬∀ spark lines rows, Spark.readJson spark lines = some rows →
    ∀ k, ∃ clicks table, loadSample spark lines = some clicks ∧
      afterMerges (dailyPageSummary spark clicks) k = some table ∧
        table.Perm (dailyPageSummary spark clicks) := by
  intro h
  obtain ⟨rows, hread⟩ := Option.isSome_iff_exists.mp
    (show (stringSpark.readJson [homeLine, pagelessLine]).isSome = true by decide +kernel)
  obtain ⟨clicks, table, hclicks, htable, hperm⟩ := h stringSpark _ rows hread 1
  have hseeded : (loadSample stringSpark [homeLine, pagelessLine]).map
      (fun clicks => (dailyPageSummary stringSpark clicks).length) = some 2 := by decide +kernel
  have hmerged : ((loadSample stringSpark [homeLine, pagelessLine]).bind fun clicks =>
      afterMerges (dailyPageSummary stringSpark clicks) 1).map List.length = some 3 := by
    decide +kernel
  rw [hclicks, Option.map_some, Option.some_inj, ← hperm.length_eq] at hseeded
  rw [hclicks, Option.bind_some, htable, Option.map_some, Option.some_inj] at hmerged
  omega

end Clickstream.DeltaLakehouse
