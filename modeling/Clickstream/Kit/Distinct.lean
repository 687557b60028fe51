import Clickstream.Kit.Grouping
import Mathlib.Algebra.BigOperators.Group.Finset.Basic
import Mathlib.Algebra.Order.BigOperators.Group.Finset
import Mathlib.Combinatorics.Enumerative.DoubleCounting

/-! Distinct counts of the groups of a list.  Each value has an owner.  The distinct owners of the
groups add up to the groups of the distinct owners, so their sum is larger than the distinct owners
of the list by the further groups of the owners in several, less the owners in none. -/

namespace Clickstream.Kit

variable {α β κ : Type} [DecidableEq β] [DecidableEq κ] (key : α → Option κ) (owner : α → β)

def owners (l : List α) : Finset β := (l.map owner).toFinset

/-- The groups with a value of the owner. -/
def groupsOf (l : List α) (b : β) : Finset κ :=
  ((l.filter fun x => decide (owner x = b)).filterMap key).toFinset

/-- The groups of the owners, the first of each left out. -/
def furtherGroups (l : List α) : Nat := ∑ b ∈ owners owner l, ((groupsOf key owner l b).card - 1)

def ownersWithoutGroup (l : List α) : Finset β :=
  (owners owner l).filter fun b => (groupsOf key owner l b).card = 0

def sumOwners (l : List α) : Nat :=
  ((groupKeys key l).map fun k => (owners owner (group key l k)).card).sum

variable {key owner} {l : List α}

theorem mem_owners {b : β} : b ∈ owners owner l ↔ ∃ x ∈ l, owner x = b := by
  rw [owners, List.mem_toFinset, List.mem_map]

theorem mem_groupsOf {b : β} {k : κ} :
    k ∈ groupsOf key owner l b ↔ ∃ x ∈ l, owner x = b ∧ key x = some k := by
  simp only [groupsOf, List.mem_toFinset, List.mem_filterMap, List.mem_filter, decide_eq_true_iff,
    and_assoc]

/-- The pairs of a group and an owner in it, counted from both sides. -/
theorem sumOwners_eq_sum_card_groupsOf :
    sumOwners key owner l = ∑ b ∈ owners owner l, (groupsOf key owner l b).card := by
  have hgroups : ∀ k, owners owner (group key l k) =
      (owners owner l).bipartiteAbove (fun k b => k ∈ groupsOf key owner l b) k := by
    intro k
    ext b
    rw [Finset.mem_bipartiteAbove, mem_owners, mem_owners, mem_groupsOf]
    constructor
    · rintro ⟨x, hx, hb⟩
      obtain ⟨hxl, hk⟩ := mem_group.mp hx
      exact ⟨⟨x, hxl, hb⟩, x, hxl, hb, hk⟩
    · rintro ⟨-, x, hx, hb, hk⟩
      exact ⟨x, mem_group.mpr ⟨hx, hk⟩, hb⟩
  have howners : ∀ b, groupsOf key owner l b =
      (groupKeys key l).toFinset.bipartiteBelow (fun k b => k ∈ groupsOf key owner l b) b := by
    intro b
    ext k
    rw [Finset.mem_bipartiteBelow, List.mem_toFinset, mem_groupKeys]
    refine (and_iff_right_of_imp fun hk => ?_).symm
    obtain ⟨x, hx, -, hkey⟩ := mem_groupsOf.mp hk
    exact ⟨x, hx, hkey⟩
  calc sumOwners key owner l
      = ∑ k ∈ (groupKeys key l).toFinset, (owners owner (group key l k)).card :=
        (List.sum_toFinset _ (nodup_groupKeys l)).symm
    _ = ∑ k ∈ (groupKeys key l).toFinset,
          ((owners owner l).bipartiteAbove (fun k b => k ∈ groupsOf key owner l b) k).card :=
        Finset.sum_congr rfl fun k _ => congrArg Finset.card (hgroups k)
    _ = ∑ b ∈ owners owner l, ((groupKeys key l).toFinset.bipartiteBelow
          (fun k b => k ∈ groupsOf key owner l b) b).card :=
        Finset.sum_card_bipartiteAbove_eq_sum_card_bipartiteBelow _
    _ = ∑ b ∈ owners owner l, (groupsOf key owner l b).card :=
        Finset.sum_congr rfl fun b _ => congrArg Finset.card (howners b).symm

theorem sumOwners_add :
    sumOwners key owner l + (ownersWithoutGroup key owner l).card =
      furtherGroups key owner l + (owners owner l).card := by
  rw [sumOwners_eq_sum_card_groupsOf, ownersWithoutGroup, Finset.card_filter, furtherGroups,
    Finset.card_eq_sum_ones, ← Finset.sum_add_distrib, ← Finset.sum_add_distrib]
  apply Finset.sum_congr rfl
  intro b _
  split <;> omega

/-- The distinct counts of the groups add up to at most the distinct count of the list exactly when
the owners have no more further groups than there are owners without one. -/
theorem sumOwners_le_iff : sumOwners key owner l ≤ (owners owner l).card ↔
    furtherGroups key owner l ≤ (ownersWithoutGroup key owner l).card := by
  have hadd : sumOwners key owner l + (ownersWithoutGroup key owner l).card =
      furtherGroups key owner l + (owners owner l).card := sumOwners_add
  omega

theorem furtherGroups_eq_zero_iff : furtherGroups key owner l = 0 ↔
    ∀ x ∈ l, ∀ y ∈ l, owner x = owner y → ∀ k k', key x = some k → key y = some k' → k = k' := by
  rw [furtherGroups, Finset.sum_eq_zero_iff]
  simp only [Nat.sub_eq_zero_iff_le, Finset.card_le_one]
  constructor
  · intro h x hx y hy hxy k k' hk hk'
    exact h _ (mem_owners.mpr ⟨x, hx, rfl⟩) k (mem_groupsOf.mpr ⟨x, hx, rfl, hk⟩) k'
      (mem_groupsOf.mpr ⟨y, hy, hxy.symm, hk'⟩)
  · intro h b _ k hk k' hk'
    obtain ⟨x, hx, hxb, hxk⟩ := mem_groupsOf.mp hk
    obtain ⟨y, hy, hyb, hyk⟩ := mem_groupsOf.mp hk'
    exact h x hx y hy (hxb.trans hyb.symm) k k' hxk hyk

/-- Where every value has a group, it is exactly when no owner has two groups. -/
theorem sumOwners_le_iff_of_isSome (hsome : ∀ x ∈ l, (key x).isSome) :
    sumOwners key owner l ≤ (owners owner l).card ↔
      ∀ x ∈ l, ∀ y ∈ l, owner x = owner y → key x = key y := by
  have hnone : (ownersWithoutGroup key owner l).card = 0 := by
    rw [Finset.card_eq_zero, ownersWithoutGroup, Finset.filter_eq_empty_iff]
    intro b hb hzero
    obtain ⟨x, hx, hxb⟩ := mem_owners.mp hb
    obtain ⟨k, hk⟩ := Option.isSome_iff_exists.mp (hsome x hx)
    have hmem : k ∈ groupsOf key owner l b := mem_groupsOf.mpr ⟨x, hx, hxb, hk⟩
    rw [Finset.card_eq_zero.mp hzero] at hmem
    exact Finset.notMem_empty k hmem
  rw [sumOwners_le_iff, hnone, Nat.le_zero, furtherGroups_eq_zero_iff]
  constructor
  · intro h x hx y hy hxy
    obtain ⟨k, hk⟩ := Option.isSome_iff_exists.mp (hsome x hx)
    obtain ⟨k', hk'⟩ := Option.isSome_iff_exists.mp (hsome y hy)
    rw [hk, hk', h x hx y hy hxy k k' hk hk']
  · intro h x hx y hy hxy k k' hk hk'
    exact Option.some.inj (hk.symm.trans ((h x hx y hy hxy).trans hk'))

end Clickstream.Kit
