import Clickstream.Kit.Regex
import Clickstream.Python.Strptime
import Clickstream.Python.Uuid

/-! Events on the wire: the ten fields, in the order in which both the producer and the Spark job
list them, and the ten checks that both packages make, over the vocabulary that each defines for
itself. -/

namespace Clickstream

open Python Kit

inductive Field where
  | eventId
  | eventType
  | userId
  | sessionId
  | ts
  | page
  | device
  | region
  | campaignId
  | referrer
  deriving DecidableEq

/-- The key of a field in JSON. -/
def Field.key : Field → PyStr
  | .eventId => lit "event_id"
  | .eventType => lit "event_type"
  | .userId => lit "user_id"
  | .sessionId => lit "session_id"
  | .ts => lit "ts"
  | .page => lit "page"
  | .device => lit "device"
  | .region => lit "region"
  | .campaignId => lit "campaign_id"
  | .referrer => lit "referrer"

structure Event where
  eventId : PyStr
  eventType : PyStr
  userId : PyStr
  sessionId : PyStr
  ts : PyStr
  page : PyStr
  device : PyStr
  region : PyStr
  campaignId : PyStr
  referrer : PyStr
  deriving DecidableEq

def Event.get (e : Event) : Field → PyStr
  | .eventId => e.eventId
  | .eventType => e.eventType
  | .userId => e.userId
  | .sessionId => e.sessionId
  | .ts => e.ts
  | .page => e.page
  | .device => e.device
  | .region => e.region
  | .campaignId => e.campaignId
  | .referrer => e.referrer

def Event.ofFields (value : Field → PyStr) : Event where
  eventId := value .eventId
  eventType := value .eventType
  userId := value .userId
  sessionId := value .sessionId
  ts := value .ts
  page := value .page
  device := value .device
  region := value .region
  campaignId := value .campaignId
  referrer := value .referrer

@[simp] theorem Event.ofFields_get (e : Event) : Event.ofFields e.get = e := rfl

def Event.ScalarFields (e : Event) : Prop := ∀ f, Scalar (e.get f)

/-! ### Validation -/

/-- The values that a package accepts. -/
structure Vocabulary where
  eventTypes : List PyStr
  pages : List PyStr
  devices : List PyStr
  regions : List PyStr
  campaignIds : List PyStr
  referrers : List PyStr
  productPage : Regex Cp Nat
  tsFormat : PyStr

def require (condition : Prop) [Decidable condition] (text : PyStr) : Except PyStr Unit :=
  if condition then .ok () else .error text

/-- `invalid <field>: <value>`, the text of a failed check. -/
def invalid (py : Interpreter) (e : Event) (f : Field) : PyStr :=
  lit "invalid " ++ f.key ++ lit ": " ++ reprStr py (e.get f)

/-- The ten checks, in their order; the text of the first that fails. -/
def checkFields (py : Interpreter) (v : Vocabulary) (e : Event) : Except PyStr Unit := do
  require (e.eventType ∈ v.eventTypes) (invalid py e .eventType)
  require (e.device ∈ v.devices) (invalid py e .device)
  require (e.region ∈ v.regions) (invalid py e .region)
  require (e.campaignId ∈ v.campaignIds) (invalid py e .campaignId)
  require (e.referrer ∈ v.referrers) (invalid py e .referrer)
  require (e.page ∈ v.pages ∨ (v.productPage.matchStart e.page).isSome) (invalid py e .page)
  require ((uuid e.eventId).isSome) (invalid py e .eventId)
  require (startsWith (lit "u-") e.userId) (invalid py e .userId)
  require (startsWith (lit "s-") e.sessionId) (invalid py e .sessionId)
  require ((strptime e.ts v.tsFormat).isSome) (invalid py e .ts)

structure Valid (v : Vocabulary) (e : Event) : Prop where
  eventType : e.eventType ∈ v.eventTypes
  device : e.device ∈ v.devices
  region : e.region ∈ v.regions
  campaignId : e.campaignId ∈ v.campaignIds
  referrer : e.referrer ∈ v.referrers
  page : e.page ∈ v.pages ∨ (v.productPage.matchStart e.page).isSome = true
  eventId : (uuid e.eventId).isSome = true
  userId : startsWith (lit "u-") e.userId = true
  sessionId : startsWith (lit "s-") e.sessionId = true
  ts : (strptime e.ts v.tsFormat).isSome = true

theorem require_bind_ok {condition : Prop} [Decidable condition] {text : PyStr}
    {next : Unit → Except PyStr Unit} :
    (require condition text >>= next) = .ok () ↔ condition ∧ next () = .ok () := by
  unfold require
  by_cases h : condition
  · simp [h, bind, Except.bind]
  · simp [h, bind, Except.bind]

theorem require_ok {condition : Prop} [Decidable condition] {text : PyStr} :
    require condition text = .ok () ↔ condition := by
  unfold require
  split <;> simp_all

theorem checkFields_ok (py : Interpreter) {v : Vocabulary} {e : Event} :
    checkFields py v e = .ok () ↔ Valid v e := by
  simp only [checkFields, require_bind_ok, require_ok]
  constructor
  · rintro ⟨h1, h2, h3, h4, h5, h6, h7, h8, h9, h10⟩
    exact ⟨h1, h2, h3, h4, h5, h6, h7, h8, h9, h10⟩
  · intro h
    exact ⟨h.eventType, h.device, h.region, h.campaignId, h.referrer, h.page, h.eventId, h.userId,
      h.sessionId, h.ts⟩

end Clickstream
