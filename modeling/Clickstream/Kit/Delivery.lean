import Mathlib.Data.List.Perm.Subperm
import Mathlib.Data.List.Range

/-! What reaches the consumer of a partitioned log.  Messages are known by their numbers in the order
of sending; the log keeps the order within a partition and nothing else. -/

namespace Clickstream.Kit

variable {π κ : Type}

/-- The messages that arrived, in the order of their arrival: each once, none ahead of one of its
partition that was sent before it, nor of one that was sent more than `ahead` places before it. -/
structure Delivery (partition : Nat → π) (ahead n : Nat) (order : List Nat) : Prop where
  once : order.Nodup
  sent : ∀ i ∈ order, i < n
  inOrder : order.Pairwise fun i j => partition i = partition j → i < j
  near : order.Pairwise fun i j => i ≤ j + ahead

/-- The messages that arrived, in the order of sending. -/
def arrived (n : Nat) (order : List Nat) : List Nat :=
  (List.range n).filter fun i => decide (i ∈ order)

namespace Delivery

variable {partition : Nat → π} {ahead n : Nat} {order : List Nat}

theorem perm_arrived (h : Delivery partition ahead n order) : order.Perm (arrived n order) := by
  have hnodup : (arrived n order).Nodup := List.nodup_range.filter _
  refine (List.perm_ext_iff_of_nodup h.once hnodup).mpr fun i => ?_
  simp only [arrived, List.mem_filter, List.mem_range, decide_eq_true_iff]
  exact ⟨fun hi => ⟨h.sent i hi, hi⟩, And.right⟩

/-- Messages may arrive as they were sent. -/
theorem range (partition : Nat → π) (ahead n : Nat) : Delivery partition ahead n (List.range n) where
  once := List.nodup_range
  sent _ hi := List.mem_range.mp hi
  inOrder := by
    refine List.pairwise_lt_range.imp ?_
    intro i j hij _
    exact hij
  near := by
    refine List.pairwise_lt_range.imp ?_
    intro i j hij
    omega

/-- When every message arrived, none is missing. -/
theorem arrived_eq_range (h : Delivery partition ahead n order) (hall : order.length = n) :
    arrived n order = List.range n := by
  refine List.filter_eq_self.mpr fun i hi => ?_
  have hsubset : order ⊆ List.range n := fun j hj => List.mem_range.mpr (h.sent j hj)
  have hperm : order.Perm (List.range n) :=
    (List.subperm_of_subset h.once hsubset).perm_of_length_le (by rw [List.length_range, hall])
  exact decide_eq_true (hperm.mem_iff.mpr hi)

/-- Messages with one key, which is in one partition, arrive in the order of sending. -/
theorem filter_key [DecidableEq κ] (h : Delivery partition ahead n order) {key : Nat → κ}
    (hkey : ∀ i j, key i = key j → partition i = partition j) (k : κ) :
    order.filter (fun i => decide (key i = k)) =
      (arrived n order).filter fun i => decide (key i = k) := by
  have hsorted : (order.filter fun i => decide (key i = k)).Pairwise (· < ·) := by
    refine (h.inOrder.filter _).imp_of_mem fun {i j} hi hj hij => hij (hkey i j ?_)
    rw [of_decide_eq_true (List.mem_filter.mp hi).2, of_decide_eq_true (List.mem_filter.mp hj).2]
  have hsorted' : ((arrived n order).filter fun i => decide (key i = k)).Pairwise (· < ·) :=
    (List.pairwise_lt_range.filter _).filter _
  exact (h.perm_arrived.filter _).eq_of_pairwise
    (fun i j _ _ hij hji => absurd hij hji.asymm) hsorted hsorted'

end Delivery

end Clickstream.Kit
