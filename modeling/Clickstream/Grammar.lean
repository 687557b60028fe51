import Clickstream.Pages
import Clickstream.WireFormat

/-! The documented grammar of pages and timestamps, and the spellings beyond it that the parser lets
through. -/

namespace Clickstream.Grammar

open Python Kit Kit.Regex Parsing

/-- A named page, or `/product/` and a numeral. -/
def DocumentedPage (page : PyStr) : Prop := page ∈ pages ∨ Pages.IsProductPage page

/-- `YYYY-MM-DDTHH:MM:SSZ` in ASCII digits. -/
def isoClasses : List (Cp → Bool) :=
  let d := isAsciiDigit
  let is (c : Char) : Cp → Bool := fun x => decide (x = chr c)
  [d, d, d, d, is '-', d, d, is '-', d, d, is 'T', d, d, is ':', d, d, is ':', d, d, is 'Z']

/-- The fields of the timestamp are those of a `DateTime`: an existing date and time. -/
structure DocumentedTs (ts : PyStr) : Prop where
  shape : fits isoClasses ts = true
  moment : ∃ t, paddedDateTime ts = some t

/-- The checks of the fields other than `page` and `ts`. -/
structure OthersValid (e : Event) : Prop where
  eventType : e.eventType ∈ eventTypes
  device : e.device ∈ devices
  region : e.region ∈ regions
  campaignId : e.campaignId ∈ campaignIds
  referrer : e.referrer ∈ referrers
  eventId : (uuid e.eventId).isSome = true
  userId : startsWith (lit "u-") e.userId = true
  sessionId : startsWith (lit "s-") e.sessionId = true

/-! ### Timestamps -/

/-- The characters of the documented timestamps. -/
def isIsoChar (x : Cp) : Prop :=
  isAsciiDigit x = true ∨ x = chr '-' ∨ x = chr ':' ∨ x = chr 'T' ∨ x = chr 'Z'

/-- A timestamp of full length in the characters of the documented ones. -/
def PlainTs (ts : PyStr) : Prop := ts.length = 20 ∧ ∀ x ∈ ts, isIsoChar x

theorem padded_of_shape {ts : PyStr} (h : fits isoClasses ts = true) : Padded ts := by
  refine fits_mono ?_ h
  simp only [isoClasses, paddedClasses, List.forall₂_cons, decide_eq_true_eq, imp_self, implies_true,
    true_and]
  exact ⟨fun x hx => .inl hx, fun x hx => .inl hx, .nil⟩

theorem plainTs_of_shape {ts : PyStr} (h : fits isoClasses ts = true) : PlainTs ts := by
  refine ⟨length_of_fits h, forall_of_fits ?_ h⟩
  simp only [isoClasses, List.forall_mem_cons, decide_eq_true_eq]
  simp +contextual [isIsoChar]

theorem isAsciiDigit_of_isFieldChar {x : Cp} (hx : isIsoChar x) (h : isFieldChar x = true) :
    isAsciiDigit x = true := by
  rcases hx with hx | rfl | rfl | rfl | rfl
  · exact hx
  all_goals revert h; decide

/-- A letter of the format as the documented timestamps have it. -/
theorem eq_of_sameLetter {c : Char} (hc : c ∈ ['-', 'T', ':', 'Z']) {x : Cp} (hx : isIsoChar x)
    (h : sameLetter (chr c) x = true) : x = chr c := by
  simp only [List.mem_cons, List.not_mem_nil, or_false] at hc
  rcases hx with hx | rfl | rfl | rfl | rfl
  · rw [sameLetter_of_isAsciiDigit (by simpa using hc) hx] at h
    cases h
  all_goals rcases hc with rfl | rfl | rfl | rfl <;> revert h <;> decide

def fieldWidth (name : Char) : Nat := if name = 'Y' then 4 else 2

/-- A format of directives, each with the letter behind it. -/
def chain : List (Char × Char) → Regex Cp Cp
  | [] => .empty
  | (name, letter) :: fields =>
    .seq (directive (chr name)) (.seq (ignoreCase (chr letter)) (chain fields))

/-- The layout of the format in which every field has its full width. -/
def chainClasses : List (Char × Char) → List (Cp → Bool)
  | [] => []
  | (name, letter) :: fields =>
    List.replicate (fieldWidth name) isAsciiDigit ++
      (fun x => decide (x = chr letter)) :: chainClasses fields

def isoFields : List (Char × Char) :=
  [('Y', '-'), ('m', '-'), ('d', 'T'), ('H', ':'), ('M', ':'), ('S', 'Z')]

theorem compile_tsFormat : compile tsFormat = chain isoFields := rfl

theorem chainClasses_isoFields : chainClasses isoFields = isoClasses := rfl

theorem within_fieldWidth {name : Char} (hname : name ∈ ['Y', 'm', 'd', 'H', 'M', 'S']) :
    Within isFieldChar (fieldWidth name) (directive (chr name)) := by
  rcases List.mem_cons.mp hname with rfl | hname
  · exact within_year
  · have hwidth : fieldWidth name = 2 := by
      rw [fieldWidth, if_neg]
      rintro rfl
      simp at hname
    rw [hwidth]
    exact within_directive hname

/-- A text of plain characters that the format matches is no longer than its layout, and has that
layout if it is as long. -/
theorem fits_of_matches {fields : List (Char × Char)}
    (hfields : ∀ f ∈ fields, f.1 ∈ ['Y', 'm', 'd', 'H', 'M', 'S'] ∧ f.2 ∈ ['-', 'T', ':', 'Z'])
    {w : PyStr} (h : Matches (chain fields) w) (hplain : ∀ x ∈ w, isIsoChar x) :
    w.length ≤ (chainClasses fields).length ∧
      (w.length = (chainClasses fields).length → fits (chainClasses fields) w = true) := by
  induction fields generalizing w with
  | nil =>
    obtain rfl : w = [] := h
    exact ⟨Nat.le_refl 0, fun _ => rfl⟩
  | cons f fields ih =>
    obtain ⟨name, letter⟩ := f
    rw [List.forall_mem_cons] at hfields
    obtain ⟨⟨hname, hletter⟩, hfields⟩ := hfields
    obtain ⟨u, _, rfl, hu, _, v, rfl, ⟨x, hx, rfl⟩, hv⟩ := h
    obtain ⟨hwidth, hdigits⟩ := within_fieldWidth hname u hu
    simp only at hwidth
    obtain ⟨hplainu, hplainxv⟩ := List.forall_mem_append.mp hplain
    obtain ⟨hplainx, hplainv⟩ := List.forall_mem_cons.mp hplainxv
    obtain ⟨hle, hfits⟩ := ih hfields hv hplainv
    simp only [chainClasses, List.length_append, List.length_replicate, List.length_cons,
      List.length_nil]
    refine ⟨by omega, fun hlength => ?_⟩
    have hlengthu : u.length = fieldWidth name := by omega
    have hdigitu : fits (List.replicate (fieldWidth name) isAsciiDigit) u = true := by
      rw [← hlengthu]
      apply fits_replicate
      intro y hy
      exact isAsciiDigit_of_isFieldChar (hplainu y hy) (hdigits y hy)
    apply fits_append hdigitu
    apply fits_cons.mpr
    exact ⟨x, v, rfl, decide_eq_true (eq_of_sameLetter hletter hplainx hx), hfits (by omega)⟩

/-- The whole text is a word of the pattern of the format. -/
theorem matches_of_strptime {ts format : PyStr} (h : (strptime ts format).isSome = true) :
    Matches (compile format) ts := by
  obtain ⟨t, ht⟩ := Option.isSome_iff_exists.mp h
  rw [strptime] at ht
  split at ht
  · cases ht
  · rename_i c hc
    obtain ⟨w, hw, hts⟩ := exists_matches_of_mem_run (List.mem_of_mem_head? hc)
    split at ht
    · rename_i hahead
      rw [hahead, List.append_nil] at hts
      rwa [show ts = w from hts]
    · cases ht

/-- Among the timestamps that `strptime` accepts, the documented ones are the plain ones. -/
theorem documentedTs_iff {ts : PyStr} (h : (strptime ts tsFormat).isSome = true) :
    DocumentedTs ts ↔ PlainTs ts := by
  constructor
  · intro hdocumented
    exact plainTs_of_shape hdocumented.shape
  · rintro ⟨hlength, hplain⟩
    have hmatches := matches_of_strptime h
    rw [compile_tsFormat] at hmatches
    have hfits := (fits_of_matches (by decide) hmatches hplain).2
    rw [chainClasses_isoFields] at hfits
    have hshape := hfits hlength
    refine ⟨hshape, Option.isSome_iff_exists.mp ?_⟩
    rw [← strptime_padded (padded_of_shape hshape)]
    exact h

theorem strptime_of_documentedTs {ts : PyStr} (h : DocumentedTs ts) :
    (strptime ts tsFormat).isSome = true := by
  rw [show tsFormat = isoFormat from rfl, strptime_padded (padded_of_shape h.shape)]
  exact Option.isSome_iff_exists.mpr h.moment

/-! ### Pages -/

theorem getLast?_numeral {number : PyStr} (h : Pages.Numeral number) (w : PyStr) :
    (w ++ number).getLast? ≠ some (chr '\n') := by
  obtain ⟨c, rest, rfl, -⟩ := h.first
  rw [List.getLast?_append_of_ne_nil _ (List.cons_ne_nil c rest)]
  intro hlast
  have hdigit := h.digits _ (List.mem_of_getLast? hlast)
  revert hdigit
  decide

/-- Among the pages that the parser accepts, the documented ones do not end in a newline. -/
theorem documentedPage_iff {page : PyStr}
    (h : page ∈ pages ∨ (productPageRe.matchStart page).isSome = true) :
    DocumentedPage page ↔ page.getLast? ≠ some (chr '\n') := by
  constructor
  · rintro (hpage | ⟨number, hnumber, rfl⟩)
    · have hpages : ∀ page ∈ pages, page.getLast? ≠ some (chr '\n') := by decide
      exact hpages page hpage
    · exact getLast?_numeral hnumber _
  · intro hlast
    rcases h with hpage | hproduct
    · exact .inl hpage
    · obtain ⟨number, tail, hnumber, rfl | rfl, rfl⟩ := Pages.isSome_matchStart_iff.mp hproduct
      · rw [List.append_nil]
        exact .inr ⟨number, hnumber, rfl⟩
      · rw [← List.append_assoc, List.getLast?_concat] at hlast
        exact absurd rfl hlast

theorem productPage_of_documentedPage {page : PyStr} (h : DocumentedPage page) :
    page ∈ pages ∨ (productPageRe.matchStart page).isSome = true := by
  rcases h with hpage | ⟨number, hnumber, rfl⟩
  · exact .inl hpage
  · exact .inr (Pages.isSome_matchStart_iff.mpr
      ⟨number, [], hnumber, .inl rfl, by rw [List.append_nil]⟩)

/-! ### Messages -/

/-- The parser accepts the documented spellings of `page` and `ts`; whatever else it accepts ends the
page in a newline or has a `ts` that is not plain. -/
theorem parseEvent_documented_iff (py : Interpreter) (raw : PyStr) :
    ((∀ e, parseEvent py raw = .ok e → DocumentedPage e.page ∧ DocumentedTs e.ts) ∧
      ∀ pairs, loads py raw = .ok (.obj pairs) → missing pairs = [] →
        DocumentedPage (coerce py pairs).page → DocumentedTs (coerce py pairs).ts →
          OthersValid (coerce py pairs) → parseEvent py raw = .ok (coerce py pairs)) ↔
    ∀ pairs, loads py raw = .ok (.obj pairs) → missing pairs = [] →
      Valid vocabulary (coerce py pairs) →
        (coerce py pairs).page.getLast? ≠ some (chr '\n') ∧ PlainTs (coerce py pairs).ts := by
  constructor
  · rintro ⟨h, -⟩ pairs hloads hmissing hvalid
    obtain ⟨hpage, hts⟩ := h _ (parseEvent_ok.mpr ⟨pairs, hloads, hmissing, rfl, hvalid⟩)
    exact ⟨(documentedPage_iff hvalid.page).mp hpage, (documentedTs_iff hvalid.ts).mp hts⟩
  · intro h
    constructor
    · intro e he
      obtain ⟨pairs, hloads, hmissing, rfl, hvalid⟩ := parseEvent_ok.mp he
      obtain ⟨hpage, hts⟩ := h pairs hloads hmissing hvalid
      exact ⟨(documentedPage_iff hvalid.page).mpr hpage, (documentedTs_iff hvalid.ts).mpr hts⟩
    · intro pairs hloads hmissing hpage hts hothers
      refine parseEvent_ok.mpr ⟨pairs, hloads, hmissing, rfl, ?_⟩
      exact { hothers with
        page := productPage_of_documentedPage hpage
        ts := strptime_of_documentedTs hts }

/-- A product page with a newline behind it. -/
def phantom : Event := { Schema.sample (lit "2026-08-27T15:00:00Z") with page := lit "/product/42\n" }

theorem valid_phantom : Valid vocabulary phantom :=
  { Schema.valid_sample_base with page := .inr (by decide +kernel) }

theorem not_parseEvent_documented : ¬∀ py raw,
    (∀ e, parseEvent py raw = .ok e → DocumentedPage e.page ∧ DocumentedTs e.ts) ∧
      ∀ pairs, loads py raw = .ok (.obj pairs) → missing pairs = [] →
        DocumentedPage (coerce py pairs).page → DocumentedTs (coerce py pairs).ts →
          OthersValid (coerce py pairs) → parseEvent py raw = .ok (coerce py pairs) := by
  intro h
  have hscalar : phantom.ScalarFields := by
    intro f
    cases f <;> exact scalar_lit _
  have haccepted := WireFormat.parseEvent_toJson cpython ⟨phantom, valid_phantom⟩ hscalar
  obtain ⟨hpage, -⟩ := (h cpython _).1 phantom haccepted
  exact (documentedPage_iff valid_phantom.page).mp hpage (by decide)

end Clickstream.Grammar
