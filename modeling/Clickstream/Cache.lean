import Clickstream.Python.Datetime
import Clickstream.Python.JsonEncoder

/-! The response cache of the API.  A miss serves what the database layer returned, through Pydantic; the
hit behind it serves what `json.loads` reads from the text that `set_json` stored. -/

namespace Clickstream.Cache

open Python

/-! ### Values -/

/-- A finite `decimal.Decimal`, by its `as_tuple`. -/
structure Decimal where
  negative : Bool
  coefficient : Nat
  exponent : Int
  deriving DecidableEq

/-- `value == value.to_integral_value()` -/
def Decimal.isIntegral (d : Decimal) : Bool :=
  decide (0 ≤ d.exponent ∨ d.coefficient % 10 ^ (-d.exponent).toNat = 0)

/-- `int(value)` -/
def Decimal.toInt (d : Decimal) : Int :=
  let n : Nat := d.coefficient * 10 ^ d.exponent.toNat / 10 ^ (-d.exponent).toNat
  if d.negative then -n else n

/-- What psycopg returns for a column; text of the database has no surrogates. -/
inductive DbValue where
  | none
  | int (n : Int)
  | str (s : PyStr) (h : Scalar s)
  | decimal (d : Decimal)

/-- The texts that code outside the repository makes of a `Decimal`: the JSON string of Pydantic, and the
`repr` of the nearest `float`, which the decoder reads back as a float. -/
structure Encoders where
  decimalText : Decimal → PyStr
  floatText : Decimal → PyStr
  floatLiteral : ∀ d, FloatLiteral (floatText d)

/-- Pydantic in JSON mode. -/
def DbValue.toJson (enc : Encoders) : DbValue → Json
  | .none => .null
  | .int n => .int n
  | .str s _ => .str s
  | .decimal d => .str (enc.decimalText d)

/-- `_json_default` of a `Decimal`. -/
def jsonDefault (enc : Encoders) (d : Decimal) : Json :=
  if d.isIntegral then .int d.toInt else .float (enc.floatText d)

/-- What `json.dumps` with `_json_default` encodes for a value. -/
def DbValue.dumped (enc : Encoders) : DbValue → Json
  | .none => .null
  | .int n => .int n
  | .str s _ => .str s
  | .decimal d => jsonDefault enc d

/-- The encoder writes an integer only within the digit limit. -/
def Writable : Json → Prop
  | .int n => (Nat.digits 10 n.natAbs).length ≤ maxStrDigits
  | _ => True

instance : (v : Json) → Decidable (Writable v)
  | .int n => inferInstanceAs (Decidable ((Nat.digits 10 n.natAbs).length ≤ maxStrDigits))
  | .null | .bool _ | .float _ | .str _ | .arr _ | .obj _ => isTrue trivial

/-! ### Queries -/

abbrev Dict := List (PyStr × DbValue)

/-- What a query function returns: a dict or a list of dicts. -/
inductive Data where
  | dict (d : Dict)
  | list (ds : List Dict)

def querySummary (totalViews totalUsers pages : DbValue) (latestWindow : Option Clock)
    (campaigns : DbValue) : Dict :=
  [(lit "total_views", totalViews), (lit "total_users", totalUsers), (lit "pages", pages),
    (lit "campaigns", campaigns), (lit "latest_window",
      match latestWindow with
      | some t => .str t.isoformat t.scalar_isoformat
      | none => .none)]

def queryTopPages (rows : List (DbValue × DbValue × DbValue)) : List Dict :=
  rows.map fun row => [(lit "page", row.1), (lit "views", row.2.1), (lit "users", row.2.2)]

def queryTopCampaigns (rows : List (DbValue × DbValue × DbValue × DbValue × DbValue)) : List Dict :=
  rows.map fun row => [(lit "campaign_id", row.1), (lit "events", row.2.1), (lit "views", row.2.2.1),
    (lit "clicks", row.2.2.2.1), (lit "conversions", row.2.2.2.2)]

/-- The endpoints that use the cache. -/
inductive Endpoint where
  | summary
  | topPages
  | topCampaigns
  deriving DecidableEq

/-- What the database layer can return to an endpoint. -/
inductive Returns : Endpoint → Data → Prop
  | summary (totalViews totalUsers pages : DbValue) (latestWindow : Option Clock)
      (campaigns : DbValue) :
      Returns .summary (.dict (querySummary totalViews totalUsers pages latestWindow campaigns))
  | topPages (rows : List (DbValue × DbValue × DbValue)) :
      Returns .topPages (.list (queryTopPages rows))
  | topCampaigns (rows : List (DbValue × DbValue × DbValue × DbValue × DbValue)) :
      Returns .topCampaigns (.list (queryTopCampaigns rows))

def Data.dicts : Data → List Dict
  | .dict d => [d]
  | .list ds => ds

def Data.values (data : Data) : List DbValue := data.dicts.flatMap fun d => d.map Prod.snd

/-- The JSON value of the data, with `f` for the values in it. -/
def Data.render (f : DbValue → Json) : Data → Json
  | .dict d => .obj (d.map fun p => (p.1, f p.2))
  | .list ds => .arr (ds.map fun d => .obj (d.map fun p => (p.1, f p.2)))

/-- The body of an endpoint around what `_cached` returns. -/
def Endpoint.body : Endpoint → Json → Json
  | .summary, v => v
  | .topPages, v => .obj [(lit "pages", v)]
  | .topCampaigns, v => .obj [(lit "campaigns", v)]

/-! ### The cache -/

section Cached

variable (py : Interpreter) (enc : Encoders)

/-- `get_json`: `None` without a text, and for one that does not load or is `null`. -/
def getJson (raw : Option PyStr) : Option Json :=
  match raw.map (loads py) with
  | some (.ok .null) | some (.error _) | none => none
  | some (.ok v) => some v

/-- `json.dumps` does not raise. -/
def Dumpable (data : Data) : Prop := ∀ v ∈ data.values, Writable (v.dumped enc)

instance (data : Data) : Decidable (Dumpable enc data) := List.decidableBAll _ _

/-- `set_json`: the text under the key; when `json.dumps` raises, it stays as it was. -/
def setJson (raw : Option PyStr) (data : Data) : Option PyStr :=
  if Dumpable enc data then some (data.render (DbValue.dumped enc)).encode else raw

/-- One request, with the text under its key and what the database would return: the body, and the text
under the key from then on. -/
def serve (e : Endpoint) (raw : Option PyStr) (data : Data) : Json × Option PyStr :=
  match getJson py raw with
  | some hit => (e.body hit, raw)
  | none => (e.body (data.render (DbValue.toJson enc)), setJson enc raw data)

/-- A hit behind a miss serves the body of the miss. -/
def Transparent (e : Endpoint) (data : Data) : Prop :=
  ∀ later, (getJson py (serve py enc e none data).2).isSome = true →
    (serve py enc e (serve py enc e none data).2 later).1 = (serve py enc e none data).1

end Cached

section Lemmas

variable {py : Interpreter} {enc : Encoders} {e : Endpoint} {data : Data}

theorem mem_values {v : DbValue} : v ∈ data.values ↔ ∃ d ∈ data.dicts, ∃ p ∈ d, p.2 = v := by
  simp only [Data.values, List.mem_flatMap, List.mem_map]

/-- The dicts of an endpoint have distinct keys without surrogates. -/
theorem Returns.keys (h : Returns e data) :
    ∀ d ∈ data.dicts, (d.map Prod.fst).Nodup ∧ ∀ p ∈ d, Scalar p.1 := by
  intro d hd
  cases h with
  | summary totalViews totalUsers pages latestWindow campaigns =>
    obtain rfl := List.mem_singleton.mp hd
    have hnodup : [lit "total_views", lit "total_users", lit "pages", lit "campaigns",
        lit "latest_window"].Nodup := by decide +kernel
    exact ⟨hnodup, by simp [querySummary, scalar_lit]⟩
  | topPages rows =>
    obtain ⟨row, -, rfl⟩ := List.mem_map.mp hd
    have hnodup : [lit "page", lit "views", lit "users"].Nodup := by decide +kernel
    exact ⟨hnodup, by simp [scalar_lit]⟩
  | topCampaigns rows =>
    obtain ⟨row, -, rfl⟩ := List.mem_map.mp hd
    have hnodup : [lit "campaign_id", lit "events", lit "views", lit "clicks",
        lit "conversions"].Nodup := by decide +kernel
    exact ⟨hnodup, by simp [scalar_lit]⟩

theorem readable_dumped {v : DbValue} (h : Writable (v.dumped enc)) (depth : Nat) :
    Readable depth (v.dumped enc) := by
  cases v with
  | none => exact .null
  | int n => exact .int h
  | str s hs => exact .str hs
  | decimal d =>
    rw [DbValue.dumped, jsonDefault] at h ⊢
    split at h
    · rename_i hintegral
      rw [if_pos hintegral]
      exact .int h
    · rename_i hintegral
      rw [if_neg hintegral]
      exact .float (enc.floatLiteral d)

theorem readable_dict {d : Dict} (hkeys : (d.map Prod.fst).Nodup) (hscalar : ∀ p ∈ d, Scalar p.1)
    (h : ∀ p ∈ d, Writable (p.2.dumped enc)) (depth : Nat) :
    Readable (depth + 1) (.obj (d.map fun p => (p.1, p.2.dumped enc))) := by
  refine .obj ?_ ?_ ?_
  · rwa [List.map_map]
  · intro p hp
    obtain ⟨q, hq, rfl⟩ := List.mem_map.mp hp
    exact hscalar q hq
  · intro p hp
    obtain ⟨q, hq, rfl⟩ := List.mem_map.mp hp
    exact readable_dumped (h q hq) depth

theorem readable_render (hreturns : Returns e data) (hdumps : Dumpable enc data) {depth : Nat}
    (hdepth : 2 ≤ depth) : Readable depth (data.render (DbValue.dumped enc)) := by
  obtain ⟨depth, rfl⟩ : ∃ n, depth = n + 2 := ⟨depth - 2, by omega⟩
  have hdict : ∀ d ∈ data.dicts, ∀ n,
      Readable (n + 1) (.obj (d.map fun p => (p.1, p.2.dumped enc))) := by
    intro d hd
    obtain ⟨hkeys, hscalar⟩ := hreturns.keys d hd
    exact readable_dict hkeys hscalar fun p hp => hdumps _ (mem_values.mpr ⟨d, hd, p, hp, rfl⟩)
  cases data with
  | dict d => exact hdict d List.mem_cons_self _
  | list ds =>
    refine .arr fun v hv => ?_
    obtain ⟨d, hd, rfl⟩ := List.mem_map.mp hv
    exact hdict d hd _

theorem getJson_setJson (hreturns : Returns e data) (hdumps : Dumpable enc data)
    (hdepth : 2 ≤ py.recursionLimit) (raw : Option PyStr) :
    getJson py (setJson enc raw data) = some (data.render (DbValue.dumped enc)) := by
  have hloads := loads_encode py (readable_render hreturns hdumps hdepth)
  rw [setJson, if_pos hdumps, getJson, Option.map_some, hloads]
  cases data <;> rfl

theorem body_inj {v w : Json} : e.body v = e.body w ↔ v = w := by
  cases e <;> simp [Endpoint.body]

theorem render_eq_iff {f g : DbValue → Json} :
    data.render f = data.render g ↔ ∀ v ∈ data.values, f v = g v := by
  have hdict : ∀ d : Dict, (d.map fun p => (p.1, f p.2)) = (d.map fun p => (p.1, g p.2)) ↔
      ∀ p ∈ d, f p.2 = g p.2 := by
    intro d
    rw [List.map_inj_left]
    simp
  cases data with
  | dict d =>
    rw [Data.render, Data.render, Json.obj.injEq, hdict]
    simp only [mem_values, Data.dicts]
    constructor
    · rintro h v ⟨d', hd, p, hp, rfl⟩
      obtain rfl := List.mem_singleton.mp hd
      exact h p hp
    · intro h p hp
      exact h p.2 ⟨d, List.mem_cons_self, p, hp, rfl⟩
  | list ds =>
    rw [Data.render, Data.render, Json.arr.injEq, List.map_inj_left]
    simp only [Json.obj.injEq, hdict, mem_values, Data.dicts]
    constructor
    · rintro h v ⟨d, hd, p, hp, rfl⟩
      exact h d hd p hp
    · intro h d hd p hp
      exact h p.2 ⟨d, hd, p, hp, rfl⟩

/-- Only a `Decimal` is written in two ways. -/
theorem dumped_eq_toJson_iff {v : DbValue} :
    v.dumped enc = v.toJson enc ↔ ∀ d, v ≠ .decimal d := by
  cases v with
  | none => simp [DbValue.dumped, DbValue.toJson]
  | int n => simp [DbValue.dumped, DbValue.toJson]
  | str s hs => simp [DbValue.dumped, DbValue.toJson]
  | decimal d =>
    simp only [DbValue.dumped, DbValue.toJson, jsonDefault]
    split_ifs <;> simp

theorem serve_miss :
    serve py enc e none data = (e.body (data.render (DbValue.toJson enc)), setJson enc none data) :=
  rfl

/-- Behind a result that `json.dumps` writes, the hit serves what it wrote. -/
theorem transparent_of_dumpable (hdepth : 2 ≤ py.recursionLimit) (hreturns : Returns e data)
    (hdumps : Dumpable enc data) :
    Transparent py enc e data ↔ ∀ v ∈ data.values, ∀ d, v ≠ .decimal d := by
  have hhit := getJson_setJson hreturns hdumps hdepth none
  have hserve : ∀ later, (serve py enc e (setJson enc none data) later).1 =
      e.body (data.render (DbValue.dumped enc)) := by
    intro later
    rw [serve, hhit]
  rw [Transparent, serve_miss]
  simp only [hserve, hhit, Option.isSome_some, body_inj, render_eq_iff, dumped_eq_toJson_iff]
  exact ⟨fun h => h data trivial, fun h _ _ => h⟩

end Lemmas

/-- The cache is transparent exactly when the result holds no `Decimal`, or a number so long that
`json.dumps` raises and nothing is cached. -/
theorem transparent_iff {py : Interpreter} (hdepth : 2 ≤ py.recursionLimit) (enc : Encoders)
    {e : Endpoint} {data : Data} (hreturns : Returns e data) :
    Transparent py enc e data ↔
      (∀ v ∈ data.values, ∀ d, v ≠ .decimal d) ∨ ¬Dumpable enc data := by
  by_cases hdumps : Dumpable enc data
  · rw [transparent_of_dumpable hdepth hreturns hdumps]
    refine ⟨.inl, fun h => h.resolve_right ?_⟩
    exact not_not_intro hdumps
  · have hnone : setJson enc none data = none := if_neg hdumps
    refine ⟨fun _ => .inr hdumps, fun _ later hhit => ?_⟩
    rw [serve_miss, hnone] at hhit
    cases hhit

/-- Encoders that agree with the real ones on integral values; the float text is a placeholder. -/
def integralEncoders : Encoders where
  decimalText d := intText d.toInt
  floatText _ := lit "NaN"
  floatLiteral _ _ _ _ := rfl

/-- Two pages whose counts the query layer returned as plain integers. -/
def integerRows : Data :=
  .list (queryTopPages [(.str (lit "/home") (scalar_lit "/home"), .int 348132, .int 1200),
    (.str (lit "/cart") (scalar_lit "/cart"), .int 512, .int 73)])

/-- The hit serves the rows of the miss. -/
theorem transparent_iff_integers : Dumpable integralEncoders integerRows ∧
    Transparent cpython integralEncoders .topPages integerRows := by
  have hdepth : 2 ≤ cpython.recursionLimit := by decide
  have hdumps : Dumpable integralEncoders integerRows := by decide +kernel
  refine ⟨hdumps, (transparent_iff hdepth integralEncoders (.topPages _)).mpr (.inl ?_)⟩
  rintro v hv d rfl
  obtain ⟨row, hrow, p, hp, hvalue⟩ := mem_values.mp hv
  obtain ⟨columns, hcolumns, rfl⟩ := List.mem_map.mp hrow
  simp only [List.mem_cons, List.not_mem_nil, or_false] at hcolumns hp
  rcases hcolumns with rfl | rfl <;> rcases hp with rfl | rfl | rfl <;> cases hvalue

/-- The page `/home` with 348132 views and 1200 users, as PostgreSQL sums them. -/
def homeRows : Data :=
  .list (queryTopPages [(.str (lit "/home") (scalar_lit "/home"), .decimal ⟨false, 348132, 0⟩,
    .decimal ⟨false, 1200, 0⟩)])

/-- The miss serves `"views": "348132"`, the hit behind it `"views": 348132`. -/
theorem decimal_not_transparent :
    ¬∀ e data, Returns e data → Transparent cpython integralEncoders e data := by
  intro h
  have hreturns : Returns .topPages homeRows := .topPages _
  have hdumps : Dumpable integralEncoders homeRows := by decide +kernel
  have hdepth : 2 ≤ cpython.recursionLimit := by decide
  refine (transparent_of_dumpable hdepth hreturns hdumps).mp (h _ _ hreturns)
    (.decimal ⟨false, 348132, 0⟩) ?_ _ rfl
  exact mem_values.mpr ⟨_, List.mem_cons_self, (lit "views", _), by simp, rfl⟩

end Clickstream.Cache
