import Clickstream.Parsing
import Clickstream.Schema
import Clickstream.Python.JsonRoundTrip

/-! The wire format between producer and Spark job: what the producer encodes the job decodes to the
same fields, and what the job accepts the producer can construct and encode again. -/

namespace Clickstream.WireFormat

open Python Schema Parsing

/-- The two validators accept the same values. -/
theorem vocabulary_eq : Parsing.vocabulary = Schema.vocabulary := rfl

theorem lookup_cons {α : Type} (k : PyStr) (m : PyStr × α) (d : List (PyStr × α)) :
    List.lookup k (m :: d) = if k = m.1 then some m.2 else d.lookup k := by
  rw [List.lookup_cons]
  by_cases h : k = m.1
  · rw [if_pos h, beq_iff_eq.mpr h]
  · rw [if_neg h, beq_eq_false_iff_ne.mpr h]

theorem lookup_dictSet {α : Type} (key k : PyStr) (v : α) (d : List (PyStr × α)) :
    (dictSet key v d).lookup k = if k = key then some v else d.lookup k := by
  induction d with
  | nil => exact lookup_cons k (key, v) []
  | cons m d ih =>
    rw [dictSet]
    by_cases hm : m.1 = key
    · subst hm
      simp only [↓reduceIte, lookup_cons]
      split <;> rfl
    · simp only [hm, ↓reduceIte, lookup_cons, ih]
      by_cases hk : k = m.1
      · subst hk
        simp only [hm, ↓reduceIte]
      · simp only [hk, ↓reduceIte]

theorem lookup_setMembers {ms : List (PyStr × PyStr)} (hkeys : (ms.map Prod.fst).Nodup)
    {k v : PyStr} (hmem : (k, v) ∈ ms) (d : List (PyStr × Json)) :
    (setMembers d ms).lookup k = some (.str v) := by
  have hskip : ∀ (ms : List (PyStr × PyStr)) (d : List (PyStr × Json)), k ∉ ms.map Prod.fst →
      (setMembers d ms).lookup k = d.lookup k := by
    intro ms
    induction ms with
    | nil => intro d _; rfl
    | cons m ms ih =>
      intro d hnot
      simp only [List.map_cons, List.mem_cons, not_or] at hnot
      rw [setMembers, List.foldl_cons, ← setMembers, ih _ hnot.2, lookup_dictSet, if_neg hnot.1]
  induction ms generalizing d with
  | nil => cases hmem
  | cons m ms ih =>
    rw [List.map_cons, List.nodup_cons] at hkeys
    rw [setMembers, List.foldl_cons, ← setMembers]
    rcases List.mem_cons.mp hmem with rfl | hmem
    · rw [hskip _ _ hkeys.1, lookup_dictSet, if_pos rfl]
    · exact ih hkeys.2 hmem _

theorem mem_fieldOrder (f : Field) : f ∈ fieldOrder := by cases f <;> decide

theorem fieldOrder_keys (e : Event) :
    ((fieldOrder.map fun f => (f.key, e.get f)).map Prod.fst).Nodup := by
  show (fieldOrder.map Field.key).Nodup
  decide

theorem scalar_key (f : Field) : Scalar f.key := by cases f <;> exact scalar_lit _

theorem lookup_members (e : Event) (f : Field) :
    (setMembers [] (fieldOrder.map fun f => (f.key, e.get f))).lookup f.key =
      some (.str (e.get f)) :=
  lookup_setMembers (fieldOrder_keys e) (List.mem_map.mpr ⟨f, mem_fieldOrder f, rfl⟩) []

/-- The Spark job decodes what the producer encodes. -/
theorem parseEvent_toJson (py : Interpreter) (e : ClickEvent) (hscalar : e.fields.ScalarFields) :
    parseEvent py e.toJson = .ok e.toDict := by
  have hloads : loads py e.toJson =
      .ok (.obj (setMembers [] (fieldOrder.map fun f => (f.key, e.fields.get f)))) := by
    refine loads_dumps py (List.cons_ne_nil _ _) fun m hm => ?_
    obtain ⟨f, -, rfl⟩ := List.mem_map.mp hm
    exact ⟨scalar_key f, hscalar f⟩
  have hcoerce : coerce py (setMembers [] (fieldOrder.map fun f => (f.key, e.fields.get f))) =
      e.fields := by
    rw [coerce]
    simp only [lookup_members, Option.getD_some, Json.toStr]
    exact e.fields.ofFields_get
  rw [parseEvent, hloads]
  refine eventOf_ok.mpr ⟨_, rfl, ?_, hcoerce.symm, e.valid⟩
  rw [missing, List.filter_eq_nil_iff]
  intro f _
  rw [lookup_members]
  simp

theorem exists_parseEvent {py : Interpreter} {e : Event}
    (h : checkFields py Schema.vocabulary e = .ok ()) (hscalar : e.ScalarFields) :
    ∃ text, parseEvent py text = .ok e :=
  ⟨_, parseEvent_toJson py ⟨e, (checkFields_ok py).mp h⟩ hscalar⟩

/-- The wire format round-trips in both directions. -/
theorem wire_format_round_trip (py : Interpreter) :
    (∀ e : ClickEvent, e.fields.ScalarFields → parseEvent py e.toJson = .ok e.toDict) ∧
      ∀ (raw : PyStr) (d : Event), parseEvent py raw = .ok d → d.ScalarFields →
        ∃ e, ClickEvent.fromDict py d = .ok e ∧ e.toDict = d ∧ parseEvent py e.toJson = .ok d := by
  refine ⟨parseEvent_toJson py, fun raw d hraw hscalar => ?_⟩
  have hvalid : Valid Schema.vocabulary d := vocabulary_eq ▸ parseEvent_valid hraw
  exact ⟨⟨d, hvalid⟩, ClickEvent.make_of_valid hvalid, rfl,
    parseEvent_toJson py ⟨d, hvalid⟩ hscalar⟩

theorem wire_format_round_trip_sample :
    ∃ e : ClickEvent, e.fields = sample (lit "2026-08-27T15:00:00Z") ∧
      e.fields.ScalarFields ∧ parseEvent cpython e.toJson = .ok e.toDict ∧
      ∃ e', ClickEvent.fromDict cpython e.toDict = .ok e' ∧ e'.toDict = e.toDict ∧
        parseEvent cpython e'.toJson = .ok e.toDict := by
  have hscalar : (sample (lit "2026-08-27T15:00:00Z")).ScalarFields :=
    scalarFields_sample (scalar_lit _)
  obtain ⟨encode, decode⟩ := wire_format_round_trip cpython
  have hparse := encode ⟨_, valid_sample_base⟩ hscalar
  exact ⟨⟨_, valid_sample_base⟩, rfl, hscalar, hparse, decode _ _ hparse hscalar⟩

end Clickstream.WireFormat
