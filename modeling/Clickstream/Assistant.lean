import Mathlib.Data.List.Infix
import Clickstream.Kit.Regex
import Clickstream.Python.Words

/-! The SQL of the assistant: the tables it may read, `sanitize_sql`, which checks the text of a language
model, and the endpoint that returns what it lets through. -/

namespace Clickstream.Assistant

open Python Kit Kit.Regex

def allowedTables : List PyStr :=
  [lit "curated.page_views_1m", lit "curated.campaign_stats_1m", lit "curated.daily_page_summary",
    lit "curated.daily_campaign_summary", lit "olap.clicks", lit "olap.page_views_1m"]

def forbiddenKeywords : List PyStr :=
  [lit "insert ", lit "update ", lit "delete ", lit "drop ", lit "alter ", lit "create ",
    lit "truncate ", lit "grant ", lit "copy ", lit "vacuum "]

/-- `w in s` -/
def contains (w s : PyStr) : Bool := s.tails.any w.isPrefixOf

section Sanitize

variable (py : Interpreter) (u : UnicodeTables)

/-- `\b` -/
def wordBoundary (behind ahead : PyStr) : Bool := behind.head?.any u.isWord != ahead.head?.any u.isWord

/-- `[a-z0-9_.]` -/
def tableChar (c : Cp) : Bool :=
  decide (0x61 ≤ c.val ∧ c.val ≤ 0x7A ∨ 0x30 ≤ c.val ∧ c.val ≤ 0x39 ∨ c = chr '_' ∨ c = chr '.')

def word (w : String) : Regex Cp Unit := letters (fun c d => decide (d = c)) (lit w)

def selectPattern : Regex Cp Unit := seqs [word "select", .look (wordBoundary u)]

def fromPattern : Regex Cp Unit :=
  seqs [.look (wordBoundary u), word "from", plus isSpace, .group () (plus tableChar)]

def stripped (sql : PyStr) : PyStr := strip ((strip sql).rdropWhile (· = chr ';'))

def lowered (sql : PyStr) : PyStr := collapse (lower u (stripped sql))

/-- An error is the text of a `ValueError`. -/
def sanitizeSql (sql : PyStr) : Except PyStr PyStr :=
  if (matchStart (selectPattern u) (lowered u sql)).isNone then
    .error (lit "only SELECT statements are allowed")
  else if chr ';' ∈ stripped sql then
    .error (lit "multi-statement SQL is not allowed")
  else if forbiddenKeywords.any fun keyword => contains keyword (lowered u sql) then
    .error (lit "statement contains a forbidden keyword")
  else if contains (lit "--") (lowered u sql) || contains (lit "/*") (lowered u sql) then
    .error (lit "comments are not allowed")
  else
    match (findAll (fromPattern u) () (lowered u sql)).find? (· ∉ allowedTables) with
    | some table => .error (lit "table " ++ reprStr py table ++ lit " is not allowlisted")
    | none => .ok (stripped sql)

/-! ### The endpoint -/

structure SQLRequest where
  question : PyStr
  table : PyStr
  limit : Nat
  limit_range : 1 ≤ limit ∧ limit ≤ 1000

structure HTTPException where
  statusCode : Nat
  detail : PyStr
  deriving DecidableEq

structure SQLResponse where
  sql : PyStr
  table : PyStr
  deriving DecidableEq

/-- `generate_sql`, with the language model's answer to a table and a question. -/
def generateSql (llm : PyStr → PyStr → PyStr) (req : SQLRequest) : Except HTTPException SQLResponse :=
  if req.table ∉ allowedTables then
    .error ⟨400, lit "table " ++ reprStr py req.table ++ lit " not allowlisted"⟩
  else
    match sanitizeSql py u (llm req.table req.question) with
    | .error text => .error ⟨400, text⟩
    | .ok sql => .ok ⟨sql, req.table⟩

/-- A text of a language model and the statement that `sanitize_sql` or the endpoint returns for it. -/
inductive Returned : PyStr → PyStr → Prop
  | sanitize {sql r : PyStr} (h : sanitizeSql py u sql = .ok r) : Returned sql r
  | endpoint {llm : PyStr → PyStr → PyStr} {req : SQLRequest} {resp : SQLResponse}
      (h : generateSql py u llm req = .ok resp) : Returned (llm req.table req.question) resp.sql

variable {py u}

/-- What `sanitize_sql` has checked when it returns. -/
structure Sanitized (sql : PyStr) : Prop where
  select : (matchStart (selectPattern u) (lowered u sql)).isSome
  single : chr ';' ∉ stripped sql
  keywords : ∀ keyword ∈ forbiddenKeywords, contains keyword (lowered u sql) = false
  comments : contains (lit "--") (lowered u sql) = false ∧ contains (lit "/*") (lowered u sql) = false
  tables : ∀ table ∈ findAll (fromPattern u) () (lowered u sql), table ∈ allowedTables

theorem sanitizeSql_eq_ok {sql r : PyStr} (h : sanitizeSql py u sql = .ok r) :
    r = stripped sql ∧ Sanitized (u := u) sql := by
  rw [sanitizeSql] at h
  split at h
  · cases h
  rename_i hselect
  split at h
  · cases h
  rename_i hsingle
  split at h
  · cases h
  rename_i hkeywords
  split at h
  · cases h
  rename_i hcomments
  split at h
  · cases h
  rename_i htables
  refine ⟨(Except.ok.inj h).symm, ⟨?_, hsingle, ?_, ?_, ?_⟩⟩
  · exact Option.isSome_iff_ne_none.mpr (by simpa using hselect)
  · simpa using hkeywords
  · simpa using hcomments
  · simpa using htables

theorem generateSql_eq_ok {llm : PyStr → PyStr → PyStr} {req : SQLRequest} {resp : SQLResponse}
    (h : generateSql py u llm req = .ok resp) :
    sanitizeSql py u (llm req.table req.question) = .ok resp.sql := by
  rw [generateSql] at h
  split at h
  · cases h
  split at h
  · cases h
  rename_i hsql
  cases h
  exact hsql

theorem Returned.sanitized {sql r : PyStr} (h : Returned py u sql r) :
    r = stripped sql ∧ Sanitized (u := u) sql := by
  cases h with
  | sanitize h => exact sanitizeSql_eq_ok h
  | endpoint h => exact sanitizeSql_eq_ok (generateSql_eq_ok h)

/-! ### The text that is checked -/

theorem head?_strip (s : PyStr) : ∀ c ∈ (strip s).head?, isSpace c = false := by
  intro c hc
  obtain ⟨rest, hrest⟩ := List.rdropWhile_prefix isSpace (s.dropWhile isSpace)
  refine head?_dropWhile s c ?_
  rw [← hrest, List.head?_append]
  rw [strip, stripBy] at hc
  rw [Option.mem_def.mp hc, Option.some_or]
  exact rfl

theorem Sanitized.starts {sql : PyStr} (h : Sanitized (u := u) sql) :
    ∃ v rest, stripped sql = v ++ rest ∧ v.map asciiLower = lit "select" := by
  have hletters : (lit "select").all fun c => c.val < 0x80 ∧ c ≠ chr 'i' ∧ c ≠ chr 'k' := rfl
  have hspaces : (lit "select").all (!isSpace ·) := rfl
  simp only [List.all_eq_true, decide_eq_true_eq, Bool.not_eq_true'] at hletters hspaces
  -- the pattern takes the word from the start of the normalised text
  have hprefix : lit "select" <+: lowered u sql := by
    obtain ⟨d, hd⟩ := Option.isSome_iff_exists.mp h.select
    have hmem := List.mem_of_mem_head? hd
    rw [selectPattern, run_seqs_cons] at hmem
    obtain ⟨e, he, -⟩ := List.mem_flatMap.mp hmem
    exact ⟨e.ahead, (mem_run_letters_eq he).1.symm⟩
  have hhead := head?_lower u (head?_strip _) (s := stripped sql)
  exact prefix_lowerFrom u (prefix_of_prefix_collapse hprefix hspaces hhead) hletters

theorem contains_iff {w s : PyStr} : contains w s = true ↔ w <:+: s := by
  rw [contains, List.any_eq_true]
  constructor
  · rintro ⟨t, ht, hw⟩
    exact (List.isPrefixOf_iff_prefix.mp hw).isInfix.trans ((List.mem_tails _ _).mp ht).isInfix
  · rintro ⟨before, after, rfl⟩
    refine ⟨w ++ after, (List.mem_tails _ _).mpr ⟨before, ?_⟩, ?_⟩
    · rw [List.append_assoc]
    · exact List.isPrefixOf_iff_prefix.mpr (List.prefix_append w after)

theorem contains_eq_false {w s : PyStr} (h : contains w s = false) : ¬w <:+: s := by
  rw [← contains_iff, h]
  exact Bool.false_ne_true

/-- A word of the statement is in the normalised text, in lower case. -/
theorem infix_lowered {w sql : PyStr} (h : w <:+: stripped sql) (hne : w ≠ [])
    (hw : ∀ c ∈ w, c.val < 0x80 ∧ isSpace c = false) : w.map asciiLower <:+: lowered u sql := by
  obtain ⟨before, after, htext⟩ := h
  rw [lowered, lower, ← htext, lowerFrom_append, lowerFrom_append,
    lowerFrom_ascii u fun c hc => (hw c hc).1]
  refine infix_collapse (fun c hc => ?_) (by simpa using hne) _ _
  obtain ⟨d, hd, rfl⟩ := List.mem_map.mp hc
  rw [isSpace_asciiLower, (hw d hd).2]

/-- The statement has no comments. -/
theorem Sanitized.no_comment {sql : PyStr} (h : Sanitized (u := u) sql) :
    ¬lit "--" <:+: stripped sql ∧ ¬lit "/*" <:+: stripped sql := by
  have hmarks : [lit "--", lit "/*"].all fun w => decide (w ≠ []) && decide (w.map asciiLower = w) &&
      w.all fun c => decide (c.val < 0x80) && !isSpace c := rfl
  simp only [List.all_cons, List.all_nil, Bool.and_true, Bool.and_eq_true, decide_eq_true_eq,
    List.all_eq_true, Bool.not_eq_true'] at hmarks
  obtain ⟨⟨⟨hdash, hdashlower⟩, hdashes⟩, ⟨hslash, hslashlower⟩, hslashes⟩ := hmarks
  constructor
  · intro hinfix
    have hlowered := infix_lowered (u := u) hinfix hdash hdashes
    rw [hdashlower] at hlowered
    exact contains_eq_false h.comments.1 hlowered
  · intro hinfix
    have hlowered := infix_lowered (u := u) hinfix hslash hslashes
    rw [hslashlower] at hlowered
    exact contains_eq_false h.comments.2 hlowered

end Sanitize

end Clickstream.Assistant
