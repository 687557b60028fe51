import Clickstream.Columns

/-! The ClickHouse sink: every micro-batch is appended to a `ReplacingMergeTree`, and a query with
`FINAL` keeps the last inserted row of each key. -/

namespace Clickstream.ClickHouseSink

open Kit Streaming

inductive ClicksColumn where
  | eventId
  | eventType
  | userId
  | sessionId
  | ts
  | page
  | device
  | region
  | campaignId
  | referrer
  deriving DecidableEq

def clicksRow (e : ParsedEvent) : Row ClicksColumn
  | .eventId => .text e.eventId
  | .eventType => .text e.eventType
  | .userId => .text e.userId
  | .sessionId => .text e.sessionId
  | .ts => (e.ts.map Value.timestamp).getD .null
  | .page => .text e.page
  | .device => .text e.device
  | .region => .text e.region
  | .campaignId => .text e.campaignId
  | .referrer => .text e.referrer

/-- `ORDER BY event_id` -/
def clicksOrderBy : List ClicksColumn := [.eventId]

/-- `ORDER BY (window_start, page, device)` -/
def pageViewsOrderBy : List PageViewsColumn := [.windowStart, .page, .device]

/-- A column of type `DateTime` holds unsigned 32-bit seconds. -/
def isDateTime : Value → Bool
  | .timestamp t => decide (0 ≤ t ∧ t < 2 ^ 32 * second)
  | _ => false

section Insert

variable {γ : Type}

/-- `client.insert`: the batch behind the rows inserted so far; the whole insert fails when a value
of the `DateTime` column does not fit. -/
def insert (dateTimeColumn : γ) (stored batch : List (Row γ)) : Option (List (Row γ)) :=
  if batch.all fun r => isDateTime (r dateTimeColumn) then some (stored ++ batch) else none

/-- What `FINAL` reads from the inserted rows. -/
def final (orderBy : List γ) (stored : List (Row γ)) : Table (keyOf orderBy) :=
  stored.foldl Table.put .empty

theorem final_of_inserted {dateTimeColumn : γ} {orderBy : List γ} {out : List (List (Row γ))}
    {stored stored' : List (Row γ)}
    (h : out.foldlM (insert dateTimeColumn) stored = some stored') :
    final orderBy stored' = (final orderBy stored).putAll out := by
  induction out generalizing stored with
  | nil => cases h; rfl
  | cons rows out ih =>
    rw [List.foldlM_cons] at h
    obtain ⟨stored₁, h₁, hrest⟩ := Option.bind_eq_some_iff.mp h
    rw [insert] at h₁
    split at h₁
    · cases h₁
      rw [ih hrest, final, List.foldl_append]
      rfl
    · cases h₁

theorem insert_of_all {dateTimeColumn : γ} {stored rows : List (Row γ)}
    (h : (rows.all fun r => isDateTime (r dateTimeColumn)) = true) :
    insert dateTimeColumn stored rows = some (stored ++ rows) := if_pos h

end Insert

def insertClicks (stored : List (Row ClicksColumn)) (batch : List ParsedEvent) :
    Option (List (Row ClicksColumn)) :=
  insert .ts stored (batch.map clicksRow)

def insertPageViews (stored batch : List (Row PageViewsColumn)) :
    Option (List (Row PageViewsColumn)) :=
  insert .windowStart stored batch

end Clickstream.ClickHouseSink
