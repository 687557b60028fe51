import Mathlib.Data.List.Sort

/-! Rows in an order, cut off behind a number of them: what `ORDER BY` and `LIMIT` promise.  Rows that the
order does not tell apart come in any order. -/

namespace Clickstream.Kit

/-- A total preorder that can be computed. -/
structure RankOrder (ρ : Type) where
  le : ρ → ρ → Bool
  trans : ∀ a b c, le a b = true → le b c = true → le a c = true
  total : ∀ a b, (le a b || le b a) = true

namespace RankOrder

variable {ρ σ : Type}

def comap (o : RankOrder σ) (f : ρ → σ) : RankOrder ρ where
  le a b := o.le (f a) (f b)
  trans _ _ _ := o.trans _ _ _
  total _ _ := o.total _ _

theorem descending_trans (f : ρ → Int) (a b c : ρ) (hab : decide (f b ≤ f a) = true)
    (hbc : decide (f c ≤ f b) = true) : decide (f c ≤ f a) = true := by
  rw [decide_eq_true_iff] at hab hbc ⊢
  omega

theorem descending_total (f : ρ → Int) (a b : ρ) :
    (decide (f b ≤ f a) || decide (f a ≤ f b)) = true := by
  rw [Bool.or_eq_true, decide_eq_true_iff, decide_eq_true_iff]
  omega

/-- The largest values first. -/
def descending (f : ρ → Int) : RankOrder ρ where
  le a b := decide (f b ≤ f a)
  trans := descending_trans f
  total := descending_total f

theorem thenBy_trans (o p : RankOrder ρ) (a b c : ρ) (hab : (o.le a b && (!o.le b a || p.le a b)) = true)
    (hbc : (o.le b c && (!o.le c b || p.le b c)) = true) :
    (o.le a c && (!o.le c a || p.le a c)) = true := by
  rw [Bool.and_eq_true, Bool.or_eq_true, Bool.not_eq_true'] at hab hbc ⊢
  refine ⟨o.trans a b c hab.1 hbc.1, ?_⟩
  by_cases hca : o.le c a = true
  · have hba : o.le b a = true := o.trans b c a hbc.1 hca
    have hcb : o.le c b = true := o.trans c a b hca hab.1
    rw [hba] at hab
    rw [hcb] at hbc
    exact .inr (p.trans a b c (hab.2.resolve_left (by simp)) (hbc.2.resolve_left (by simp)))
  · exact .inl (Bool.eq_false_iff.mpr hca)

theorem thenBy_total (o p : RankOrder ρ) (a b : ρ) : ((o.le a b && (!o.le b a || p.le a b)) ||
    (o.le b a && (!o.le a b || p.le b a))) = true := by
  have ho := o.total a b
  have hp := p.total a b
  revert ho hp
  cases o.le a b <;> cases o.le b a <;> cases p.le a b <;> cases p.le b a <;> decide

/-- Rows that the first order does not tell apart are in the second order. -/
def thenBy (o p : RankOrder ρ) : RankOrder ρ where
  le a b := o.le a b && (!o.le b a || p.le a b)
  trans := thenBy_trans o p
  total := thenBy_total o p

variable (o : RankOrder ρ)

/-- `ORDER BY o LIMIT n` may answer this. -/
def Answers (n : Nat) (rows answer : List ρ) : Prop :=
  ∃ ordered : List ρ, ordered.Perm rows ∧ ordered.Pairwise (fun a b => o.le a b = true) ∧
    answer = ordered.take n

/-- The first `n` rows in the order. -/
def top (n : Nat) (rows : List ρ) : List ρ := (rows.mergeSort o.le).take n

/-- The order tells rows apart. -/
def Antisymmetric (rows : List ρ) : Prop :=
  ∀ a b, a ∈ rows → b ∈ rows → o.le a b = true → o.le b a = true → a = b

variable {o} {n m : Nat} {rows rows' answer answer' : List ρ}

theorem answers_top (o : RankOrder ρ) (n : Nat) (rows : List ρ) : o.Answers n rows (o.top n rows) :=
  ⟨rows.mergeSort o.le, List.mergeSort_perm rows o.le, List.pairwise_mergeSort o.trans o.total rows, rfl⟩

theorem Answers.perm (h : o.Answers n rows answer) (hperm : rows.Perm rows') :
    o.Answers n rows' answer := by
  obtain ⟨ordered, hordered, hsorted, rfl⟩ := h
  exact ⟨ordered, hordered.trans hperm, hsorted, rfl⟩

theorem Answers.length (h : o.Answers n rows answer) : answer.length = min n rows.length := by
  obtain ⟨ordered, hordered, -, rfl⟩ := h
  rw [List.length_take, hordered.length_eq]

theorem Answers.subperm (h : o.Answers n rows answer) : answer.Subperm rows := by
  obtain ⟨ordered, hordered, -, rfl⟩ := h
  exact (List.take_sublist n ordered).subperm.trans hordered.subperm

theorem Answers.sorted (h : o.Answers n rows answer) :
    answer.Pairwise (fun a b => o.le a b = true) := by
  obtain ⟨ordered, -, hsorted, rfl⟩ := h
  exact hsorted.sublist (List.take_sublist n ordered)

/-- A row that is left out is behind every row of the answer. -/
theorem Answers.outranks (h : o.Answers n rows answer) {a r : ρ} (ha : a ∈ answer) (hr : r ∈ rows)
    (hout : r ∉ answer) : o.le a r = true := by
  obtain ⟨ordered, hordered, hsorted, rfl⟩ := h
  have hmem := hordered.mem_iff.mpr hr
  rw [← List.take_append_drop n ordered] at hmem hsorted
  have hdrop := (List.mem_append.mp hmem).resolve_left hout
  exact (List.pairwise_append.mp hsorted).2.2 a ha r hdrop

/-- Without a row left out, the answer holds all the rows. -/
theorem Answers.perm_of_le (h : o.Answers n rows answer) (hn : rows.length ≤ n) : answer.Perm rows := by
  obtain ⟨ordered, hordered, -, rfl⟩ := h
  rwa [List.take_of_length_le (hordered.length_eq ▸ hn)]

/-- When the order tells the rows apart, a smaller limit cuts the same answer off earlier. -/
theorem Answers.take (hanti : o.Antisymmetric rows) (h : o.Answers n rows answer)
    (h' : o.Answers m rows answer') (hle : n ≤ m) : answer = answer'.take n := by
  obtain ⟨ordered, hordered, hsorted, rfl⟩ := h
  obtain ⟨ordered', hordered', hsorted', rfl⟩ := h'
  have heq : ordered = ordered' := by
    refine List.Perm.eq_of_pairwise ?_ hsorted hsorted' (hordered.trans hordered'.symm)
    intro a b ha hb
    exact hanti a b (hordered.mem_iff.mp ha) (hordered'.mem_iff.mp hb)
  rw [heq, List.take_take, Nat.min_eq_left hle]

theorem Answers.unique (hanti : o.Antisymmetric rows) (h : o.Answers n rows answer)
    (h' : o.Answers n rows answer') : answer = answer' := by
  have hlength : answer'.length ≤ n := by
    rw [h'.length]
    exact Nat.min_le_left n rows.length
  rw [h.take hanti h' (Nat.le_refl n), List.take_of_length_le hlength]

theorem top_take (hanti : o.Antisymmetric rows) (hle : n ≤ m) : o.top n rows = (o.top m rows).take n :=
  (answers_top o n rows).take hanti (answers_top o m rows) hle

end RankOrder

end Clickstream.Kit
