import Clickstream.Assistant
import Clickstream.Sql.Relations

/-! What `sanitize_sql` returns is one statement and no command that writes; it is read-only unless it is
a `SELECT` with an `INTO` clause, which is not checked. -/

namespace Clickstream.Assistant

open Python Sql

section

variable {py : Interpreter} {u : UnicodeTables} {sql : PyStr}

theorem isLetter_of_asciiLower {c : Cp} (h : Sql.isLetter (asciiLower c) = true) :
    Sql.isLetter c = true := by
  unfold asciiLower at h
  split at h
  · rename_i hupper
    simp only [Sql.isLetter, decide_eq_true_eq]
    exact .inl hupper
  · exact h

/-- The statement begins with a word that begins with `select`. -/
theorem Sanitized.command (h : Sanitized (u := u) sql) :
    ∀ w, command (stripped sql) = some w → lit "select" <+: w := by
  obtain ⟨v, rest, hsql, hv⟩ := h.starts
  have hletters : ∀ c ∈ v, Sql.isLetter c = true := by
    have hall : (lit "select").all Sql.isLetter := rfl
    rw [← hv, List.all_map, List.all_eq_true] at hall
    exact fun c hc => isLetter_of_asciiLower (hall c hc)
  have hlength : v.length = 6 := by
    rw [← List.length_map asciiLower, hv]
    rfl
  obtain ⟨c, d, v, rfl⟩ : ∃ c d v', v = c :: d :: v' := by
    match v with
    | c :: d :: v => exact ⟨c, d, v, rfl⟩
  obtain ⟨hc, hletters⟩ := List.forall_mem_cons.mp hletters
  have hhead : ∀ q, Sql.isLetter q = false → (d :: v ++ rest).head? ≠ some q := by
    intro q hq hd
    cases hd
    rw [hletters _ List.mem_cons_self] at hq
    cases hq
  obtain ⟨more, after, hitems⟩ := items_letter hc (hhead _ rfl) (hhead _ rfl)
  rw [List.takeWhile_append_of_pos fun x hx => by rw [isIdentCont, isIdentStart, hletters x hx]; rfl]
    at hitems
  intro w hw
  rw [Sql.command, hsql, List.cons_append, hitems] at hw
  change Item.word (.name _ more) = some w at hw
  cases more with
  | cons => cases hw
  | nil =>
    cases hw
    rw [← List.cons_append, List.map_append, hv]
    exact List.prefix_append _ _

theorem symbol_not_mem {c : Cp} {s : PyStr} (h : c ∉ s) : .symbol [c] ∉ items s := by
  intro hmem
  apply h
  rw [← itemsText_items s]
  exact List.mem_flatMap.mpr ⟨_, hmem, List.mem_singleton_self c⟩

end

/-! ### Statements -/

end Clickstream.Assistant
