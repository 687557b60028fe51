import Clickstream.Kit.Grouping
import Clickstream.Kit.Table

/-! Tables that hold a grouped view of a list, and what keeps them so when the list grows: it is
enough to put the new rows of the groups that grew. -/

namespace Clickstream.Kit

/-- A grouped view: how values are grouped, and the row of a group, whose primary key tells the
groups apart. -/
structure View (α κ : Type) {ρ π : Type} (primaryKey : ρ → π) where
  key : α → Option κ
  row : κ → List α → ρ
  code : κ → π
  code_injective : code.Injective
  primaryKey_row : ∀ k l, primaryKey (row k l) = code k

namespace View

variable {α κ ρ π : Type} [DecidableEq κ] [DecidableEq π] {primaryKey : ρ → π}
  (v : View α κ primaryKey)

def rows (l : List α) : List ρ := aggregate v.key v.row l

def viewRow (l : List α) (k : κ) : Option ρ :=
  if group v.key l k = [] then none else some (v.row k (group v.key l k))

/-- The new rows of the groups that `m` adds to, behind `l`. -/
def touched (l m : List α) : List ρ :=
  (groupKeys v.key m).map fun k => v.row k (group v.key (l ++ m) k)

/-- The table holds the view of `l`. -/
structure Holds (t : Table primaryKey) (l : List α) : Prop where
  get_code : ∀ k, t.get (v.code k) = v.viewRow l k
  get_other : ∀ p, (∀ k, v.code k ≠ p) → t.get p = none

variable {v}

theorem find?_map_code {ks : List κ} {f : κ → ρ} (hf : ∀ k, primaryKey (f k) = v.code k) (k : κ) :
    (ks.map f).find? (fun r => decide (primaryKey r = v.code k)) =
      if k ∈ ks then some (f k) else none := by
  induction ks with
  | nil => rfl
  | cons k' ks ih =>
    rw [List.map_cons, List.find?_cons, hf, ih]
    by_cases h : k' = k
    · subst h
      simp
    · have hcode : v.code k' ≠ v.code k := fun e => h (v.code_injective e)
      simp [hcode, Ne.symm h]

omit [DecidableEq κ] in
theorem find?_map_code_other {ks : List κ} {f : κ → ρ}
    (hf : ∀ k, primaryKey (f k) = v.code k) {p : π} (hp : ∀ k, v.code k ≠ p) :
    (ks.map f).find? (fun r => decide (primaryKey r = p)) = none := by
  rw [List.find?_eq_none]
  intro r hr
  obtain ⟨k, -, rfl⟩ := List.mem_map.mp hr
  rw [hf, decide_eq_true_iff]
  exact hp k

omit [DecidableEq κ] [DecidableEq π] in
theorem nodup_map_code {ks : List κ} {f : κ → ρ} (hf : ∀ k, primaryKey (f k) = v.code k)
    (hks : ks.Nodup) : ((ks.map f).map primaryKey).Nodup := by
  have hmap : (ks.map f).map primaryKey = ks.map v.code := by
    rw [List.map_map]
    exact List.map_congr_left fun k _ => hf k
  rw [hmap]
  exact hks.map v.code_injective

omit [DecidableEq π] in
theorem nodup_rows (l : List α) : ((v.rows l).map primaryKey).Nodup :=
  nodup_map_code (fun k => v.primaryKey_row k _) (nodup_groupKeys l)

omit [DecidableEq π] in
theorem nodup_touched (l m : List α) : ((v.touched l m).map primaryKey).Nodup :=
  nodup_map_code (fun k => v.primaryKey_row k _) (nodup_groupKeys m)

omit [DecidableEq π] in
theorem viewRow_of_mem {l : List α} {k : κ} (h : k ∈ groupKeys v.key l) :
    v.viewRow l k = some (v.row k (group v.key l k)) :=
  if_neg (mem_groupKeys_iff_group_ne_nil.mp h)

omit [DecidableEq π] in
theorem viewRow_of_not_mem {l : List α} {k : κ} (h : k ∉ groupKeys v.key l) :
    v.viewRow l k = none := by
  rw [mem_groupKeys_iff_group_ne_nil, not_not] at h
  exact if_pos h

theorem holds_rows (l : List α) : v.Holds ⟨v.rows l, nodup_rows l⟩ l where
  get_code k := by
    refine (find?_map_code (fun k => v.primaryKey_row k _) k).trans ?_
    by_cases h : k ∈ groupKeys v.key l
    · rw [if_pos h, viewRow_of_mem h]
    · rw [if_neg h, viewRow_of_not_mem h]
  get_other p hp := find?_map_code_other (fun k => v.primaryKey_row k _) hp

theorem holds_empty : v.Holds Table.empty [] where
  get_code _ := rfl
  get_other _ _ := rfl

theorem perm_of_viewRow_eq {t u : Table primaryKey} {l m : List α} (ht : v.Holds t l)
    (hu : v.Holds u m) (h : ∀ k, v.viewRow l k = v.viewRow m k) : t.rows.Perm u.rows := by
  apply Table.perm_of_get_eq
  intro p
  by_cases hp : ∃ k, v.code k = p
  · obtain ⟨k, rfl⟩ := hp
    rw [ht.get_code, hu.get_code, h]
  · have hp' : ∀ k, v.code k ≠ p := fun k e => hp ⟨k, e⟩
    rw [ht.get_other p hp', hu.get_other p hp']

theorem viewRow_eq_of_perm {t u : Table primaryKey} {l m : List α} (ht : v.Holds t l)
    (hu : v.Holds u m) (h : t.rows.Perm u.rows) (k : κ) : v.viewRow l k = v.viewRow m k := by
  rw [← ht.get_code, ← hu.get_code, Table.get_eq_of_perm h]

theorem Holds.perm_rows {t : Table primaryKey} {l : List α} (h : v.Holds t l) :
    t.rows.Perm (v.rows l) := perm_of_viewRow_eq h (holds_rows l) fun _ => rfl

omit [DecidableEq π] in
theorem viewRow_append_of_not_mem {l m : List α} {k : κ} (h : k ∉ groupKeys v.key m) :
    v.viewRow (l ++ m) k = v.viewRow l k := by
  rw [mem_groupKeys_iff_group_ne_nil, not_not] at h
  rw [viewRow, viewRow, group_append, h, List.append_nil]

/-- Putting the rows of the groups that grew turns a view of `l` into one of `l ++ m`, and leaves a
table alone that holds the view of `l ++ m` already. -/
theorem Holds.foldl_put {t : Table primaryKey} {l m : List α} {rs : List ρ}
    (ht : v.Holds t l ∨ v.Holds t (l ++ m)) (hrs : rs.Perm (v.touched l m)) :
    v.Holds (rs.foldl Table.put t) (l ++ m) := by
  have hnodup : (rs.map primaryKey).Nodup := (hrs.map _).nodup_iff.mpr (nodup_touched l m)
  have hfind : ∀ p, (rs.foldl Table.put t).get p =
      ((v.touched l m).find? fun r => decide (primaryKey r = p)).or (t.get p) := by
    intro p
    rw [Table.get_foldl_put hnodup]
    congr 1
    exact Table.get_eq_of_perm (t := ⟨rs, hnodup⟩) (u := ⟨v.touched l m, nodup_touched l m⟩) hrs p
  constructor
  · intro k
    rw [hfind, touched, find?_map_code fun k => v.primaryKey_row k _]
    by_cases h : k ∈ groupKeys v.key m
    · rw [if_pos h, viewRow_of_mem (mem_groupKeys_append_right h), Option.some_or]
    · rw [if_neg h, Option.none_or, viewRow_append_of_not_mem h]
      rcases ht with ht | ht
      · exact ht.get_code k
      · rw [ht.get_code, viewRow_append_of_not_mem h]
  · intro p hp
    rw [hfind, touched, find?_map_code_other (fun k => v.primaryKey_row k _) hp, Option.none_or]
    rcases ht with ht | ht
    · exact ht.get_other p hp
    · exact ht.get_other p hp

/-- Putting all the rows of a view of `l` into a table with no other keys makes it hold the view. -/
theorem holds_foldl_put_rows {t : Table primaryKey} {l : List α}
    (ht : ∀ r ∈ t.rows, ∃ k ∈ groupKeys v.key l, v.code k = primaryKey r) :
    v.Holds ((v.rows l).foldl Table.put t) l := by
  have hget : ∀ p, ((v.rows l).foldl Table.put t).get p =
      (((⟨v.rows l, nodup_rows l⟩ : Table primaryKey).get p).or (t.get p)) :=
    fun p => Table.get_foldl_put (nodup_rows l) t p
  have hrows := holds_rows (v := v) l
  constructor
  · intro k
    rw [hget, hrows.get_code]
    by_cases hk : k ∈ groupKeys v.key l
    · rw [viewRow_of_mem hk, Option.some_or]
    · rw [viewRow_of_not_mem hk, Option.none_or, Table.get_eq_none_iff]
      intro r hr hcode
      obtain ⟨k', hk', hcode'⟩ := ht r hr
      rw [v.code_injective (hcode'.trans hcode)] at hk'
      exact hk hk'
  · intro p hp
    rw [hget, hrows.get_other p hp, Option.none_or, Table.get_eq_none_iff]
    intro r hr hcode
    obtain ⟨k, -, hk⟩ := ht r hr
    exact hp k (hk.trans hcode)

end View

end Clickstream.Kit
