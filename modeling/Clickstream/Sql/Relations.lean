import Clickstream.Sql.Lexical

/-! What a statement reads and writes, from its items: the tables named in `FROM` lists, behind `JOIN`
and `TABLE`, at every depth of parentheses, and the `INTO` clause of a `SELECT`. -/

namespace Clickstream.Sql

open Python

/-- The keyword, if the item is one: a single word without quotes. -/
def Item.word : Item → Option PyStr
  | .name first [] => if first.quoted then none else some (first.text.map asciiLower)
  | _ => none

def Item.isSpace : Item → Bool
  | .space _ => true
  | _ => false

def nextItem (items : List Item) : Option Item := items.find? fun i => !i.isSpace

def openParen : Item := .symbol (lit "(")

def closeParen : Item := .symbol (lit ")")

def openBracket : Item := .symbol (lit "[")

def closeBracket : Item := .symbol (lit "]")

def comma : Item := .symbol (lit ",")

def dot : Item := .symbol (lit ".")

def colon : Item := .symbol (lit ":")

/-! ### Words -/

/-- The set operations, behind which a query begins. -/
def setOperations : List PyStr := [lit "union", lit "intersect", lit "except"]

/-- The words that end a target list or a `FROM` list, with those of the set operations, `GROUP` and
`FOR`. -/
def clauseKeywords : List PyStr :=
  [lit "where", lit "having", lit "window", lit "order", lit "limit", lit "offset", lit "fetch"]

/-- The functions that are called without parentheses. -/
def bareFunctions : List PyStr :=
  [lit "current_catalog", lit "current_date", lit "current_role", lit "current_schema",
    lit "current_time", lit "current_timestamp", lit "current_user", lit "localtime",
    lit "localtimestamp", lit "session_user", lit "system_user", lit "user"]

/-- The words end in `IS DISTINCT` or `IS NOT DISTINCT`, so that `FROM` goes on with a comparison. -/
def comparing (words : List PyStr) : Bool :=
  [lit "distinct", lit "is"].isPrefixOf words ||
    [lit "distinct", lit "not", lit "is"].isPrefixOf words

/-! ### Scanning -/

/-- The clause that a level of parentheses is in: the target list of its first `SELECT` or of a later
one, a list of tables, or another. -/
inductive Clause where
  | targets (first : Bool)
  | tables
  | other
  deriving DecidableEq

/-- The place in a `WITH` list: in front of a definition, behind its name, behind `AS`, and behind its
query. -/
inductive Place where
  | ahead
  | head
  | body
  | tail
  deriving DecidableEq

/-- One level of parentheses or brackets: whether a `SELECT` has begun at it and whether a query may
begin here, its clause, whether the name of a table comes next, the place in its `WITH` list
(`RECURSIVE`), the name of the query that is being defined there and the names of those in scope. -/
structure Level where
  begun : Bool
  start : Bool
  clause : Clause
  expects : Bool
  withs : Option Place
  recursive : Bool
  pending : List PyStr
  names : List PyStr

/-- A level behind an opening parenthesis. In front of a table it holds a query or a joined table. -/
def Level.inner (expects : Bool) : Level :=
  ⟨false, true, if expects then .tables else .other, expects, none, false, [], []⟩

/-- The levels, the words without quotes directly before, nearest first, and whether a dot or a colon is:
a word behind `AS`, a dot or the colons of a cast is a label or a type and not one of them. -/
structure Scan where
  level : Level
  outer : List Level
  words : List PyStr
  marked : Bool

def Scan.start : Scan := ⟨.inner false, [], [], false⟩

def Scan.label (st : Scan) : Bool := st.marked || decide (st.words.head? = some (lit "as"))

/-- A name in front of this item is defined in a `WITH` list. -/
def defines (next : Option Item) : Bool :=
  decide (next = some openParen) || decide (next.bind Item.word = some (lit "as"))

/-- The names that a `WITH RECURSIVE` defines, from a place in its list on: its queries may use those
that are defined behind them. -/
def definitions : Nat → Place → List Item → List PyStr
  | _, _, [] => []
  | depth, place, item :: rest =>
    if item = openParen ∨ item = openBracket then
      match depth, place with
      | 0, .tail => []
      | 0, .body => definitions 1 .tail rest
      | _, _ => definitions (depth + 1) place rest
    else if item = closeParen ∨ item = closeBracket then
      match depth with
      | 0 => []
      | depth + 1 => definitions depth place rest
    else if depth ≠ 0 then definitions depth place rest
    else
      match place, item with
      | .ahead, .name first _ =>
        if defines (nextItem rest) then first.name :: definitions 0 .head rest
        else definitions 0 .tail rest
      | .head, .name _ _ =>
        definitions 0 (if item.word = some (lit "as") then .body else .head) rest
      | .tail, .name _ _ =>
        if item.word = some (lit "select") ∨ item.word = some (lit "table") ∨
            item.word = some (lit "values") then []
        else definitions 0 .tail rest
      | .tail, _ => definitions 0 (if item = comma then .ahead else .tail) rest
      | _, _ => definitions 0 place rest

/-- A query begins at the level, with the queries of its `WITH` list in scope. -/
def Level.begin (l : Level) (clause : Clause) (expects : Bool) : Level :=
  { l with
    begun := true
    start := false
    clause := clause
    expects := expects
    withs := none
    pending := []
    names := l.pending ++ l.names }

/-- The level behind a keyword, with the words before it and the items behind; `none` for a word that is
no keyword there. -/
def Level.keyword (l : Level) (words : List PyStr) (after : List Item) (w : PyStr) : Option Level :=
  let next := nextItem after
  let queryStarts := l.start || decide (l.withs = some .tail)
  if l.withs = some .ahead then
    if w = lit "recursive" ∧ defines next = false then
      some { l with recursive := true, names := definitions 0 .ahead after ++ l.names }
    else none
  else if w = lit "select" ∧ queryStarts then some (l.begin (.targets !l.begun) false)
  else if w = lit "values" ∧ queryStarts ∧ next = some openParen then some (l.begin .other false)
  else if w = lit "table" ∧ queryStarts then some (l.begin .other true)
  else if w = lit "with" ∧ l.start then
    some { l with start := false, withs := some .ahead, clause := .other, expects := false }
  else if w = lit "as" then
    some { l with start := false, withs := if l.withs = some .head then some .body else l.withs }
  else if w = lit "from" then
    match l.clause with
    | .targets _ =>
      if comparing words then some l else some { l with clause := .tables, expects := true }
    | .tables | .other => some l
  else if w = lit "join" ∧ l.clause = .tables ∧ l.expects = false then some { l with expects := true }
  else if w = lit "only" ∨ w = lit "lateral" then some { l with start := false }
  else if w ∈ setOperations then
    some { l with start := true, clause := .other, expects := false }
  else if (w = lit "all" ∨ w = lit "distinct") ∧ words.head?.any (· ∈ setOperations) then some l
  else if w ∈ clauseKeywords ∨ w = lit "group" ∧ next.bind Item.word = some (lit "by") ∨
      w = lit "for" ∧ next ≠ some openParen then
    some { l with start := false, clause := .other, expects := false }
  else if l.expects ∧ (w ∈ bareFunctions ∨
      w = lit "rows" ∧ next.bind Item.word = some (lit "from") ∨
      w = lit "collation" ∧ next.bind Item.word = some (lit "for")) then
    some { l with start := false, expects := false }
  else none

/-- The level behind any other name. In front of a definition of `WITH` it is that of the query. -/
def Level.pass (l : Level) (first : Part) (after : List Item) : Level :=
  if l.withs = some .ahead then
    if defines (nextItem after) then
      { l with withs := some .head, pending := if l.recursive then [] else [first.name] }
    else { l with withs := some .tail }
  else { l with start := false, expects := false }

/-- The level around parentheses that open here. -/
def Level.around (l : Level) : Level :=
  match l.withs with
  | some .body => { l with start := false, expects := false, withs := some .tail }
  | some .tail =>
    { l with start := false, expects := false, pending := [], names := l.pending ++ l.names }
  | _ => { l with start := false, expects := false }

/-- The level behind a comma. -/
def Level.comma (l : Level) : Level :=
  if l.withs = some .tail then
    { l with withs := some .ahead, pending := [], names := l.pending ++ l.names }
  else { l with start := false, expects := decide (l.clause = .tables) }

def Scan.step (st : Scan) (item : Item) (after : List Item) : Scan :=
  match item with
  | .space _ => st
  | .literal _ => ⟨{ st.level with start := false, expects := false }, st.outer, [], false⟩
  | .symbol _ =>
    if item = openParen then ⟨.inner st.level.expects, st.level.around :: st.outer, [], false⟩
    else if item = openBracket then ⟨.inner false, st.level.around :: st.outer, [], false⟩
    else if item = closeParen ∨ item = closeBracket then
      match st.outer with
      | [] => ⟨st.level, [], [], false⟩
      | level :: outer => ⟨level, outer, [], false⟩
    else if item = Sql.comma then ⟨st.level.comma, st.outer, [], false⟩
    else ⟨{ st.level with start := false }, st.outer, [], decide (item = dot ∨ item = colon)⟩
  | .name first _ =>
    if st.label then ⟨st.level, st.outer, [], false⟩
    else
      let level := (item.word.bind (st.level.keyword st.words after)).getD (st.level.pass first after)
      match item.word with
      | some w => ⟨level, st.outer, w :: st.words, false⟩
      | none => ⟨level, st.outer, [], false⟩

/-! ### Tables -/

def Scan.names (st : Scan) : List PyStr := st.level.names ++ st.outer.flatMap Level.names

/-- A name at this place is that of a table: no label, no keyword, no function and no query of a
`WITH`. -/
def Scan.reads (st : Scan) (first : Part) (more : List (PyStr × Part)) (after : List Item) : Bool :=
  st.level.expects && !st.label &&
    ((Item.name first more).word.bind (st.level.keyword st.words after)).isNone &&
    decide (nextItem after ≠ some openParen) && !decide (more = [] ∧ first.name ∈ st.names)

/-- A table that a statement reads, where it is named: the items before, nearest first, and behind. -/
structure Ref where
  before : List Item
  first : Part
  more : List (PyStr × Part)
  after : List Item

/-- The table named at an item, if there is one. -/
def Scan.refs (st : Scan) (before : List Item) (item : Item) (after : List Item) : List Ref :=
  match item with
  | .name first more =>
    if st.reads first more after then [⟨before, first, more, after⟩] else []
  | .space _ | .literal _ | .symbol _ => []

def refsFrom (st : Scan) (before : List Item) : List Item → List Ref
  | [] => []
  | item :: after =>
    st.refs before item after ++ refsFrom (st.step item after) (item :: before) after

def refs (s : PyStr) : List Ref := refsFrom .start [] (items s)

def Ref.identifiers (r : Ref) : List PyStr := r.first.identifier :: r.more.map fun q => q.2.identifier

def Ref.path (r : Ref) : List PyStr := r.first.name :: r.more.map fun q => q.2.name

def Ref.text (r : Ref) : PyStr := (Item.name r.first r.more).text

example : (refs (lit "SELECT collation for (x) AS as FROM t JOIN u ON ARRAY[x, y] = z, v, now()")).map
    Ref.path = [[lit "t"], [lit "u"], [lit "v"]] := by decide +kernel

theorem mem_scan_refs {st : Scan} {before after : List Item} {item : Item} {r : Ref}
    (h : r ∈ st.refs before item after) :
    item = .name r.first r.more ∧ r.before = before ∧ r.after = after := by
  cases item with
  | name first more =>
    rw [Scan.refs] at h
    split at h
    · rw [List.mem_singleton] at h
      subst h
      exact ⟨rfl, rfl, rfl⟩
    · cases h
  | space text => cases h
  | literal text => cases h
  | symbol text => cases h

/-- A table is named in the statement. -/
theorem mem_refsFrom {st : Scan} {before items : List Item} {r : Ref}
    (h : r ∈ refsFrom st before items) :
    before.reverse ++ items = r.before.reverse ++ .name r.first r.more :: r.after := by
  induction items generalizing st before with
  | nil => cases h
  | cons item after ih =>
    rcases List.mem_append.mp h with hhere | hlater
    · obtain ⟨hitem, hbefore, hafter⟩ := mem_scan_refs hhere
      rw [hitem, hbefore, hafter]
    · rw [← ih hlater, List.reverse_cons, List.append_assoc, List.singleton_append]

theorem text_of_mem_refs {s : PyStr} {r : Ref} (h : r ∈ refs s) :
    s = itemsText r.before.reverse ++ r.text ++ itemsText r.after := by
  have hitems := mem_refsFrom h
  rw [List.reverse_nil, List.nil_append] at hitems
  conv_lhs => rw [← itemsText_items s, hitems]
  simp [itemsText, Ref.text]

/-! ### Writing -/

/-- The item is the `INTO` of the first target list. -/
def Scan.into (st : Scan) (item : Item) : Bool :=
  st.outer.isEmpty && decide (st.level.clause = .targets true) && !st.label &&
    decide (item.word = some (lit "into"))

def intoFrom (st : Scan) : List Item → Bool
  | [] => false
  | item :: after => st.into item || intoFrom (st.step item after) after

/-- The statement is a `SELECT` with an `INTO` clause, which creates a table. -/
def selectsInto (s : PyStr) : Bool := intoFrom .start (items s)

example : selectsInto (lit "SELECT page AS as, views select INTO t FROM u") = true ∧
    selectsInto (lit "SELECT (c).into, page AS into FROM c") = false := by decide +kernel

def command (s : PyStr) : Option PyStr := (nextItem (items s)).bind Item.word

/-- The commands of PostgreSQL, less those that only read: `SELECT`, `SHOW`, `TABLE` and `VALUES`. A
`WITH` may hold commands that write. -/
def writingCommands : List PyStr :=
  [lit "abort", lit "alter", lit "analyze", lit "begin", lit "call", lit "checkpoint", lit "close",
    lit "cluster", lit "comment", lit "commit", lit "copy", lit "create", lit "deallocate",
    lit "declare", lit "delete", lit "discard", lit "do", lit "drop", lit "end", lit "execute",
    lit "explain", lit "fetch", lit "grant", lit "import", lit "insert", lit "listen", lit "load",
    lit "lock", lit "merge", lit "move", lit "notify", lit "prepare", lit "reassign", lit "refresh",
    lit "reindex", lit "release", lit "reset", lit "revoke", lit "rollback", lit "savepoint",
    lit "security", lit "set", lit "start", lit "truncate", lit "unlisten", lit "update",
    lit "vacuum", lit "with"]

structure ReadOnly (s : PyStr) : Prop where
  single : .symbol (lit ";") ∉ items s
  command : ∀ w, command s = some w → w ∉ writingCommands
  into : selectsInto s = false

end Clickstream.Sql
