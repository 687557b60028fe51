import Clickstream.Kit.Windowed

/-! What a windowed view loses to its watermark.  How much depends on the cut into batches, within
bounds that do not: a query that reads one value at a time keeps the least, and every other cut keeps
those values and maybe more. -/

namespace Clickstream.Kit

section Groups

variable {α κ : Type} [DecidableEq κ] {key : α → Option κ} {l m n : List α}

theorem group_sublist (h : l.Sublist m) (k : κ) : (group key l k).Sublist (group key m k) := h.filter _

/-- Between two lists with the same group every list has it. -/
theorem group_eq_of_sublists {k : κ} (hlm : l.Sublist m) (hmn : m.Sublist n)
    (h : group key l k = group key n k) : group key m k = group key n k := by
  have hlength : (group key l k).length ≤ (group key m k).length := (group_sublist hlm k).length_le
  rw [h] at hlength
  exact (group_sublist hmn k).eq_of_length_le hlength

end Groups

namespace WindowedView

variable {α κ ρ π : Type} [DecidableEq κ] {primaryKey : ρ → π} (v : WindowedView α κ primaryKey)

/-- The values that are on time when every value is a batch of its own. -/
def punctual (l : List α) : List α := v.onTime none (l.map fun e => [e])

variable {v} {latest : Option Int} {l m batch : List α} {e : α}

omit [DecidableEq κ] in
theorem observe_singletons (latest : Option Int) (l : List α) :
    v.observe latest (l.map fun e => [e]).flatten = v.observe latest l := by
  rw [← List.flatMap_def, List.flatMap_singleton']

omit [DecidableEq κ] in
theorem onTime_singletons_sublist (latest : Option Int) (batch : List α) :
    (v.onTime latest (batch.map fun e => [e])).Sublist
      (batch.filter fun e => !decide (v.Late latest e)) := by
  induction batch generalizing latest with
  | nil => exact List.Sublist.refl []
  | cons e batch ih =>
    have hrest : (batch.filter fun e' => !decide (v.Late (v.observe latest [e]) e')).Sublist
        (batch.filter fun e' => !decide (v.Late latest e')) := by
      refine List.monotone_filter_right batch fun e' he' => ?_
      rw [Bool.not_eq_true', decide_eq_false_iff_not] at he' ⊢
      exact fun hlate => he' (hlate.observe [e])
    rw [List.map_cons, onTime, show e :: batch = [e] ++ batch from rfl, List.filter_append]
    exact ((ih _).trans hrest).append_left _

omit [DecidableEq κ] in
/-- Whatever the cut, it keeps what a cut into single values keeps. -/
theorem onTime_singletons_flatten_sublist (latest : Option Int) (batches : List (List α)) :
    (v.onTime latest (batches.flatten.map fun e => [e])).Sublist (v.onTime latest batches) := by
  induction batches generalizing latest with
  | nil => exact List.Sublist.refl []
  | cons batch batches ih =>
    rw [List.flatten_cons, List.map_append, onTime_append, onTime, observe_singletons]
    exact (onTime_singletons_sublist latest batch).append (ih _)

omit [DecidableEq κ] in
theorem punctual_sublist_onTime (batches : List (List α)) :
    (v.punctual batches.flatten).Sublist (v.onTime none batches) :=
  onTime_singletons_flatten_sublist none batches

omit [DecidableEq κ] in
/-- A value is kept unless one in front of it closes its window. -/
theorem punctual_concat (l : List α) (e : α) :
    v.punctual (l ++ [e]) =
      v.punctual l ++ [e].filter fun e => !decide (v.Late (v.observe none l) e) := by
  rw [punctual, List.map_append, List.map_singleton, onTime_concat, observe_singletons, punctual]

omit [DecidableEq κ] in
/-- Under bounded disorder every cut keeps everything. -/
theorem punctual_eq_self (h : v.BoundedDisorder l) : v.punctual l = l := by
  induction l using List.reverseRecOn with
  | nil => rfl
  | append_singleton l e ih =>
    have hlate : ¬v.Late (v.observe none l) e := h.not_late (List.mem_singleton_self e)
    have hl : v.BoundedDisorder l := (List.pairwise_append.mp h).1
    rw [punctual_concat, ih hl, List.filter_singleton, decide_eq_false hlate]
    rfl

end WindowedView

end Clickstream.Kit
