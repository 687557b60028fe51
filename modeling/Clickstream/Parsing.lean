import Clickstream.Event
import Clickstream.Python.Json

/-! The Spark job's parser of raw events: a JSON object with the ten fields, coerced to strings and
checked.  A raw message becomes an event or an error; exceptions other than `ParseError` pass
through. -/

namespace Clickstream.Parsing

open Python Kit Kit.Regex

def eventTypes : List PyStr :=
  [lit "page_view", lit "click", lit "add_to_cart", lit "purchase"]

def pages : List PyStr :=
  [lit "/home", lit "/search", lit "/product", lit "/cart", lit "/checkout", lit "/account",
    lit "/help"]

def devices : List PyStr := [lit "mobile", lit "desktop", lit "tablet"]

def regions : List PyStr :=
  [lit "us-west", lit "us-east", lit "eu-west", lit "ap-southeast", lit "eu-central", lit "sa-east"]

def campaignIds : List PyStr :=
  ((List.range' 1 8).map fun i => lit "c-" ++ intText i) ++ [lit "organic"]

def referrers : List PyStr :=
  [lit "google", lit "facebook", lit "email", lit "direct", lit "ads"]

def requiredFields : List Field :=
  [.eventId, .eventType, .userId, .sessionId, .ts, .page, .device, .region, .campaignId, .referrer]

def tsFormat : PyStr := lit "%Y-%m-%dT%H:%M:%SZ"

/-- `^/product/([1-9][0-9]*)$`, where `$` also matches before a final newline. -/
def productPageRe : Regex Cp Nat :=
  seqs [.look fun behind _ => behind.isEmpty,
    letters (fun c d => decide (d = c)) (lit "/product/"),
    .group 1 (.seq (.one fun c => decide (0x31 ≤ c.val ∧ c.val ≤ 0x39)) (.star isAsciiDigit)),
    .look fun _ ahead => decide (ahead = [] ∨ ahead = [chr '\n'])]

def vocabulary : Vocabulary where
  eventTypes := eventTypes
  pages := pages
  devices := devices
  regions := regions
  campaignIds := campaignIds
  referrers := referrers
  productPage := productPageRe
  tsFormat := tsFormat

section Parser

variable (py : Interpreter)

/-- `_validate`. -/
def validate (e : Event) : Except Exc Unit :=
  (checkFields py vocabulary e).mapError .parseError

def missing (data : List (PyStr × Json)) : List Field :=
  requiredFields.filter fun f => (data.lookup f.key).isNone

/-- The event of an object that has all fields: each value under `str`. -/
def coerce (data : List (PyStr × Json)) : Event :=
  .ofFields fun f => ((data.lookup f.key).getD .null).toStr py

/-- What `parse_event` makes of decoded JSON. -/
def eventOf : Json → Except Exc Event
  | .obj data =>
    if missing data ≠ [] then
      .error (.parseError (lit "missing fields: " ++
        (lit ", ").intercalate ((missing data).map Field.key)))
    else (validate py (coerce py data)).map fun _ => coerce py data
  | _ => .error (.parseError (lit "event must be a JSON object"))

def parseEvent (raw : PyStr) : Except Exc Event :=
  match loads py raw with
  | .error (.jsonDecodeError text) => .error (.parseError (lit "invalid JSON: " ++ text))
  | .error exc => .error exc
  | .ok data => eventOf py data

/-- The dict that `parse_message` returns. -/
structure ParsedMessage where
  event : Option Event
  error : Option PyStr
  deriving DecidableEq

def parseMessage (raw : Option PyStr) : Except Exc ParsedMessage :=
  match raw with
  | none => .ok ⟨none, some (lit "empty Kafka message")⟩
  | some raw =>
    match parseEvent py raw with
    | .ok event => .ok ⟨some event, none⟩
    | .error (.parseError text) => .ok ⟨none, some text⟩
    | .error exc => .error exc

variable {py}

theorem validate_ok {e : Event} : validate py e = .ok () ↔ Valid vocabulary e := by
  rw [validate, ← checkFields_ok py]
  cases checkFields py vocabulary e <;> simp [Except.mapError]

/-- What decoded JSON is turned into an event: an object with all fields and valid values. -/
theorem eventOf_ok {data : Json} {e : Event} :
    eventOf py data = .ok e ↔
      ∃ pairs, data = .obj pairs ∧ missing pairs = [] ∧ e = coerce py pairs ∧
        Valid vocabulary e := by
  constructor
  · intro h
    cases data with
    | obj pairs =>
      rw [eventOf] at h
      split at h
      · cases h
      · rename_i hmissing
        cases hvalid : validate py (coerce py pairs) with
        | error exc => rw [hvalid] at h; cases h
        | ok u =>
          rw [hvalid] at h
          cases h
          exact ⟨pairs, rfl, not_not.mp hmissing, rfl, validate_ok.mp hvalid⟩
    | null | bool | int | float | str | arr => cases h
  · rintro ⟨pairs, rfl, hmissing, rfl, hvalid⟩
    rw [eventOf, if_neg (not_not.mpr hmissing), validate_ok.mpr hvalid]
    rfl

theorem eventOf_error {data : Json} {exc : Exc} (h : eventOf py data = .error exc) :
    ∃ text, exc = .parseError text := by
  cases data with
  | obj pairs =>
    rw [eventOf, validate] at h
    split at h
    · cases h; exact ⟨_, rfl⟩
    · cases hcheck : checkFields py vocabulary (coerce py pairs) with
      | error text => rw [hcheck] at h; cases h; exact ⟨text, rfl⟩
      | ok u => rw [hcheck] at h; cases h
  | null | bool | int | float | str | arr => cases h; exact ⟨_, rfl⟩

theorem parseEvent_ok {raw : PyStr} {e : Event} :
    parseEvent py raw = .ok e ↔
      ∃ pairs, loads py raw = .ok (.obj pairs) ∧ missing pairs = [] ∧ e = coerce py pairs ∧
        Valid vocabulary e := by
  rw [parseEvent]
  constructor
  · intro h
    split at h
    · cases h
    · cases h
    · rename_i data hloads
      obtain ⟨pairs, rfl, hevent⟩ := eventOf_ok.mp h
      exact ⟨pairs, hloads, hevent⟩
  · rintro ⟨pairs, hloads, hevent⟩
    rw [hloads]
    exact eventOf_ok.mpr ⟨pairs, rfl, hevent⟩

theorem parseEvent_valid {raw : PyStr} {e : Event} (h : parseEvent py raw = .ok e) :
    Valid vocabulary e := by
  obtain ⟨_, _, _, _, hvalid⟩ := parseEvent_ok.mp h
  exact hvalid

end Parser

end Clickstream.Parsing
