import Clickstream.Parsing
import Clickstream.Schema

/-! The pages that the validators let through: the named ones, and those that the pattern of product
pages matches. -/

namespace Clickstream.Pages

open Python Kit Kit.Regex

/-- A decimal numeral without a leading zero. -/
structure Numeral (s : PyStr) : Prop where
  first : ∃ c rest, s = c :: rest ∧ 0x31 ≤ c.val ∧ c.val ≤ 0x39
  digits : ∀ c ∈ s, isAsciiDigit c = true

/-- `/product/` with a numeral behind it. -/
def IsProductPage (page : PyStr) : Prop := ∃ number, Numeral number ∧ page = lit "/product/" ++ number

/-- The pattern behind its start anchor. -/
theorem matchStart_productPageRe (page : PyStr) : Parsing.productPageRe.matchStart page =
    ((run (letters (fun c d => decide (d = c)) (lit "/product/")) ⟨[], page, []⟩).flatMap
      (run (seqs [
        .group 1 (.seq (.one fun c => decide (0x31 ≤ c.val ∧ c.val ≤ 0x39)) (.star isAsciiDigit)),
        .look fun _ ahead => decide (ahead = [] ∨ ahead = [chr '\n'])]))).head? := by
  have hstart : run (.look fun behind _ => behind.isEmpty) (⟨[], page, []⟩ : Cursor Cp Nat) =
      [⟨[], page, []⟩] := rfl
  rw [matchStart, Parsing.productPageRe, run_seqs_cons, hstart, List.flatMap_singleton, run_seqs_cons]

theorem isSome_matchStart_of {number tail : PyStr} (hnumber : Numeral number)
    (htail : tail = [] ∨ tail = [chr '\n']) :
    (Parsing.productPageRe.matchStart (lit "/product/" ++ (number ++ tail))).isSome = true := by
  obtain ⟨⟨c, rest, rfl, hc⟩, hdigits⟩ := hnumber
  rw [List.forall_mem_cons] at hdigits
  have hstop : ∀ x ∈ tail.head?, isAsciiDigit x = false := by
    rcases htail with rfl | rfl
    · intro x hx
      cases hx
    · intro x hx
      cases hx
      decide
  have hspan : (spanRun isAsciiDigit ([] : List (Nat × PyStr))
      (c :: ((lit "/product/").reverse ++ [])) (rest ++ tail)).head? = some _ :=
    head?_spanRun hdigits.2 hstop
  rw [matchStart_productPageRe, run_letters_eq, List.flatMap_singleton, run_seqs_cons,
    flatMap_run_group, run_seq, List.cons_append, flatMap_run_one, if_pos (decide_eq_true hc), run_star,
    head?_flatMap hspan (b := ⟨_, tail, _⟩)]
  · rfl
  · rw [run_seqs_cons, run_look, if_pos (decide_eq_true htail)]
    rfl

theorem exists_of_isSome_matchStart {page : PyStr}
    (h : (Parsing.productPageRe.matchStart page).isSome = true) :
    ∃ number tail, Numeral number ∧ (tail = [] ∨ tail = [chr '\n']) ∧
      page = lit "/product/" ++ (number ++ tail) := by
  obtain ⟨d, hd⟩ := Option.isSome_iff_exists.mp h
  rw [matchStart_productPageRe] at hd
  obtain ⟨c₁, hletters, hmem⟩ := List.mem_flatMap.mp (List.mem_of_mem_head? hd)
  obtain ⟨hpage, -⟩ := mem_run_letters_eq hletters
  rw [run_seqs_cons, flatMap_run_group, List.mem_flatMap] at hmem
  obtain ⟨c₂, hnumber, hend⟩ := hmem
  obtain ⟨behind, ahead, groups⟩ := c₁
  simp only at hpage
  cases ahead with
  | nil => cases hnumber
  | cons c rest =>
    rw [run_seq, flatMap_run_one] at hnumber
    split at hnumber
    · rename_i hc
      obtain ⟨w, hw, hrest, -, -⟩ := mem_spanRun hnumber
      rw [run_seqs_cons, run_look] at hend
      split at hend
      · rename_i htail
        refine ⟨c :: w, c₂.ahead, ⟨⟨c, w, rfl, of_decide_eq_true hc⟩, ?_⟩, of_decide_eq_true htail, ?_⟩
        · refine List.forall_mem_cons.mpr ⟨?_, hw⟩
          have hrange := of_decide_eq_true hc
          rw [isAsciiDigit, decide_eq_true_iff]
          omega
        · rw [hpage, List.cons_append]
          exact congrArg (fun l => lit "/product/" ++ c :: l) hrest
      · cases hend
    · cases hnumber

/-- The pattern matches product pages, and those with a final newline. -/
theorem isSome_matchStart_iff {page : PyStr} :
    (Parsing.productPageRe.matchStart page).isSome = true ↔
      ∃ number tail, Numeral number ∧ (tail = [] ∨ tail = [chr '\n']) ∧
        page = lit "/product/" ++ (number ++ tail) := by
  refine ⟨exists_of_isSome_matchStart, ?_⟩
  rintro ⟨number, tail, hnumber, htail, rfl⟩
  exact isSome_matchStart_of hnumber htail

end Clickstream.Pages
