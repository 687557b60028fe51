import Clickstream.Event
import Clickstream.Python.Json

/-! The producer's events: validated on construction, encoded as compact JSON. -/

namespace Clickstream.Schema

open Python Kit Kit.Regex

def eventTypes : List PyStr :=
  [lit "page_view", lit "click", lit "add_to_cart", lit "purchase"]

def pages : List PyStr :=
  [lit "/home", lit "/search", lit "/product", lit "/cart", lit "/checkout", lit "/account",
    lit "/help"]

def devices : List PyStr := [lit "mobile", lit "desktop", lit "tablet"]

def regions : List PyStr :=
  [lit "us-west", lit "us-east", lit "eu-west", lit "ap-southeast", lit "eu-central", lit "sa-east"]

def campaignIds : List PyStr :=
  ((List.range' 1 8).map fun i => lit "c-" ++ intText i) ++ [lit "organic"]

def referrers : List PyStr :=
  [lit "google", lit "facebook", lit "email", lit "direct", lit "ads"]

/-- `^/product/([1-9][0-9]*)$`, where `$` also matches before a final newline. -/
def productPageRe : Regex Cp Nat :=
  seqs [.look fun behind _ => behind.isEmpty,
    letters (fun c d => decide (d = c)) (lit "/product/"),
    .group 1 (.seq (.one fun c => decide (0x31 ≤ c.val ∧ c.val ≤ 0x39)) (.star isAsciiDigit)),
    .look fun _ ahead => decide (ahead = [] ∨ ahead = [chr '\n'])]

def tsFormat : PyStr := lit "%Y-%m-%dT%H:%M:%SZ"

def vocabulary : Vocabulary where
  eventTypes := eventTypes
  pages := pages
  devices := devices
  regions := regions
  campaignIds := campaignIds
  referrers := referrers
  productPage := productPageRe
  tsFormat := tsFormat

/-- `_validate_event`. -/
def validateEvent (py : Interpreter) (e : Event) : Except Exc Unit :=
  (checkFields py vocabulary e).mapError .valueError

/-- A `ClickEvent`: its fields passed the checks of `__post_init__`. -/
structure ClickEvent where
  fields : Event
  valid : Valid vocabulary fields

/-- The constructor of `ClickEvent`. -/
def ClickEvent.make (py : Interpreter) (e : Event) : Except Exc ClickEvent :=
  match h : validateEvent py e with
  | .ok () => .ok ⟨e, by
      rw [validateEvent] at h
      cases hcheck : checkFields py vocabulary e with
      | ok u => exact (checkFields_ok py).mp hcheck
      | error text => rw [hcheck] at h; cases h⟩
  | .error exc => .error exc

/-- The fields in the order of the dataclass. -/
def fieldOrder : List Field :=
  [.eventId, .eventType, .userId, .sessionId, .ts, .page, .device, .region, .campaignId, .referrer]

def ClickEvent.toDict (e : ClickEvent) : Event := e.fields

/-- `json.dumps(self.to_dict(), separators=(",", ":"))`. -/
def ClickEvent.toJson (e : ClickEvent) : PyStr :=
  dumps (fieldOrder.map fun f => (f.key, e.toDict.get f))

/-- `from_dict` on a dict of the ten fields as strings, which `str` leaves as they are. -/
def ClickEvent.fromDict (py : Interpreter) (data : Event) : Except Exc ClickEvent :=
  ClickEvent.make py data

theorem validateEvent_ok (py : Interpreter) {e : Event} :
    validateEvent py e = .ok () ↔ Valid vocabulary e := by
  rw [validateEvent, ← checkFields_ok py]
  cases checkFields py vocabulary e <;> simp [Except.mapError]

theorem ClickEvent.make_of_valid {py : Interpreter} {e : Event} (h : Valid vocabulary e) :
    ClickEvent.make py e = .ok ⟨e, h⟩ := by
  have hok := (validateEvent_ok py).mpr h
  rw [ClickEvent.make]
  split
  · rfl
  · rename_i exc herror
    rw [hok] at herror
    cases herror

/-- The event of the producer's tests, at the moment `ts`. -/
def sample (ts : PyStr) : Event where
  eventId := lit "123e4567-e89b-42d3-a456-426614174000"
  eventType := lit "page_view"
  userId := lit "u-0001"
  sessionId := lit "s-abcdef123456"
  ts := ts
  page := lit "/home"
  device := lit "mobile"
  region := lit "us-west"
  campaignId := lit "organic"
  referrer := lit "google"

theorem valid_sample_base : Valid vocabulary (sample (lit "2026-08-27T15:00:00Z")) where
  eventType := by decide
  device := by decide
  region := by decide
  campaignId := by decide +kernel
  referrer := by decide
  page := .inl (by decide)
  eventId := by decide +kernel
  userId := by decide
  sessionId := by decide
  ts := by decide +kernel

theorem valid_sample {ts : PyStr} (h : (strptime ts tsFormat).isSome = true) :
    Valid vocabulary (sample ts) :=
  { valid_sample_base with ts := h }

theorem scalarFields_sample {ts : PyStr} (h : Scalar ts) : (sample ts).ScalarFields := by
  intro f
  cases f <;> first | exact scalar_lit _ | exact h

end Clickstream.Schema
