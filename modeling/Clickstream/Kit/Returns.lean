import Mathlib.Data.List.Basic

/-! What computations on a state return, whatever the state: a property of the values, with a rule for
each way to make a computation. -/

namespace Clickstream.Kit

variable {σ α β : Type}

structure Returns (m : StateM σ α) (P : α → Prop) : Prop where
  value : ∀ s, P (m s).1

namespace Returns

variable {m m' : StateM σ α} {f : α → StateM σ β} {P : α → Prop} {Q : β → Prop}

theorem pure {a : α} (h : P a) : Returns (Pure.pure a : StateM σ α) P := ⟨fun _ => h⟩

theorem bind (hm : Returns m P) (hf : ∀ a, P a → Returns (f a) Q) : Returns (m >>= f) Q :=
  ⟨fun s => (hf (m s).1 (hm.value s)).value (m s).2⟩

theorem any : Returns m fun _ => True := ⟨fun _ => trivial⟩

theorem ite {c : Prop} [Decidable c] (hm : c → Returns m P) (hm' : ¬c → Returns m' P) :
    Returns (if c then m else m') P := by
  split
  · rename_i h
    exact hm h
  · rename_i h
    exact hm' h

end Returns

end Clickstream.Kit
