import Mathlib.Data.List.DropRight
import Mathlib.Data.List.Forall2

/-! Texts that are alike place by place, and readers that drop characters of them.  Where the dropped
characters are the same in both texts, the texts can differ only in what is left. -/

namespace Clickstream.Kit

variable {σ : Type} {R : σ → σ → Prop}

/-- What is left of two texts is alike, and is the same only if the texts are. -/
structure Keeps (R : σ → σ → Prop) (s s' left left' : List σ) : Prop where
  alike : List.Forall₂ R left left'
  reflects : left = left' → s = s'

theorem Keeps.refl {s s' : List σ} (h : List.Forall₂ R s s') : Keeps R s s' s s' := ⟨h, fun e => e⟩

theorem Keeps.trans {s s' t t' u u' : List σ} (h : Keeps R s s' t t') (h' : Keeps R t t' u u') :
    Keeps R s s' u u' := ⟨h'.alike, fun e => h.reflects (h'.reflects e)⟩

theorem Keeps.cons {c c' : σ} {s s' t t' : List σ} (hc : R c c') (h : Keeps R s s' t t') :
    Keeps R (c :: s) (c' :: s') (c :: t) (c' :: t') := by
  refine ⟨.cons hc h.alike, fun e => ?_⟩
  rw [List.cons.injEq] at e
  rw [e.1, h.reflects e.2]

theorem Keeps.drop {s s' t t' : List σ} (c : σ) (h : Keeps R s s' t t') :
    Keeps R (c :: s) (c :: s') t t' := ⟨h.alike, fun e => congrArg (c :: ·) (h.reflects e)⟩

section Drop

variable {p : σ → Bool} (hfix : ∀ {c c'}, R c c' → p c = true ∨ p c' = true → c = c')
include hfix

theorem keeps_dropWhile {s s' : List σ} (h : List.Forall₂ R s s') :
    Keeps R s s' (s.dropWhile p) (s'.dropWhile p) := by
  induction h with
  | nil => exact .refl .nil
  | @cons c c' s s' hc hs ih =>
    by_cases hp : p c = true ∨ p c' = true
    · obtain rfl := hfix hc hp
      have hpc : p c = true := or_self_iff.mp hp
      rw [List.dropWhile_cons_of_pos hpc, List.dropWhile_cons_of_pos hpc]
      exact ih.drop c
    · obtain ⟨hpc, hpc'⟩ := not_or.mp hp
      rw [List.dropWhile_cons_of_neg hpc, List.dropWhile_cons_of_neg hpc']
      exact .refl (.cons hc hs)

theorem keeps_rdropWhile {s s' : List σ} (h : List.Forall₂ R s s') :
    Keeps R s s' (s.rdropWhile p) (s'.rdropWhile p) := by
  have hdrop := keeps_dropWhile hfix (List.rel_reverse h)
  refine ⟨List.rel_reverse hdrop.alike, fun e => ?_⟩
  exact List.reverse_injective (hdrop.reflects (List.reverse_injective e))

end Drop

/-- Where the relation is equality, so is its extension to texts. -/
theorem eq_of_forall₂ {P : σ → Prop} (hfix : ∀ {c c'}, R c c' → P c → c = c') {s s' : List σ}
    (h : List.Forall₂ R s s') (hs : ∀ c ∈ s, P c) : s = s' := by
  induction h with
  | nil => rfl
  | cons hc _ ih =>
    rw [List.forall_mem_cons] at hs
    rw [hfix hc hs.1, ih hs.2]

end Clickstream.Kit
