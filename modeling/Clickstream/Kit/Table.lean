import Mathlib.Data.List.Nodup
import Mathlib.Data.List.Perm.Basic

/-! Tables under a primary key, and the writes that keep the key unique: an upsert merges a row into
the one that has its key, and a put replaces it. -/

namespace Clickstream.Kit

/-- Rows no two of which have the same key. -/
structure Table {ρ κ : Type} (key : ρ → κ) where
  rows : List ρ
  distinct : (rows.map key).Nodup

/-- How a new row changes an old one with the same key. -/
structure Merge {ρ κ : Type} (key : ρ → κ) where
  merge : ρ → ρ → ρ
  key_merge : ∀ {old new}, key old = key new → key (merge old new) = key new

namespace Table

variable {ρ κ : Type} [DecidableEq κ] {key : ρ → κ}

def empty : Table key := ⟨[], List.nodup_nil⟩

def get (t : Table key) (k : κ) : Option ρ := t.rows.find? fun r => decide (key r = k)

/-- The rows with `r` merged into the one that has its key, or added behind them. -/
def upsertRows (m : Merge key) (r : ρ) : List ρ → List ρ
  | [] => [r]
  | s :: rows => if key s = key r then m.merge s r :: rows else s :: upsertRows m r rows

theorem map_key_upsertRows (m : Merge key) (r : ρ) (rows : List ρ) :
    (upsertRows m r rows).map key =
      if key r ∈ rows.map key then rows.map key else rows.map key ++ [key r] := by
  induction rows with
  | nil => rfl
  | cons s rows ih =>
    rw [upsertRows]
    by_cases h : key s = key r
    · rw [if_pos h, List.map_cons, List.map_cons, m.key_merge h, h, if_pos List.mem_cons_self]
    · rw [if_neg h, List.map_cons, List.map_cons, ih]
      by_cases hmem : key r ∈ rows.map key
      · rw [if_pos hmem, if_pos (List.mem_cons_of_mem _ hmem)]
      · have hcons : key r ∉ key s :: rows.map key :=
          List.not_mem_cons_of_ne_of_not_mem (fun e => h e.symm) hmem
        rw [if_neg hmem, if_neg hcons, List.cons_append]

theorem find?_upsertRows (m : Merge key) (r : ρ) (rows : List ρ) (k : κ) :
    (upsertRows m r rows).find? (fun s => decide (key s = k)) =
      if key r = k then
        some (match rows.find? fun s => decide (key s = k) with
          | some s => m.merge s r
          | none => r)
      else rows.find? fun s => decide (key s = k) := by
  induction rows with
  | nil => by_cases h : key r = k <;> simp [upsertRows, h]
  | cons s rows ih =>
    rw [upsertRows]
    by_cases h : key s = key r
    · have hkey := m.key_merge h
      rw [if_pos h]
      by_cases hk : key r = k <;> simp [h, hk, hkey]
    · rw [if_neg h]
      by_cases hs : key s = k
      · have hr : key r ≠ k := fun e => h (hs.trans e.symm)
        simp [hs, hr]
      · simp [hs, ih]

def upsert (m : Merge key) (t : Table key) (r : ρ) : Table key where
  rows := upsertRows m r t.rows
  distinct := by
    rw [map_key_upsertRows]
    split
    · exact t.distinct
    · rename_i h
      exact List.nodup_append_comm.mp (List.nodup_cons.mpr ⟨h, t.distinct⟩)

def replace : Merge key where
  merge _ new := new
  key_merge _ := rfl

def put (t : Table key) (r : ρ) : Table key := t.upsert replace r

theorem upsert_eq_put {m : Merge key} (h : ∀ old new, key old = key new → m.merge old new = new) :
    upsert m = put := by
  have hrows : ∀ (r : ρ) (rows : List ρ),
      upsertRows m r rows = upsertRows (replace : Merge key) r rows := by
    intro r rows
    induction rows with
    | nil => rfl
    | cons s rows ih =>
      rw [upsertRows, upsertRows, ih]
      by_cases hkey : key s = key r
      · rw [if_pos hkey, if_pos hkey, h s r hkey]
        rfl
      · rw [if_neg hkey, if_neg hkey]
  funext t r
  simp only [put, upsert, hrows]

def putAll (t : Table key) (batches : List (List ρ)) : Table key :=
  batches.foldl (fun t rows => rows.foldl put t) t

@[simp] theorem get_empty (k : κ) : (empty : Table key).get k = none := rfl

theorem get_upsert (m : Merge key) (t : Table key) (r : ρ) (k : κ) :
    (t.upsert m r).get k =
      if key r = k then
        some (match t.get k with
          | some s => m.merge s r
          | none => r)
      else t.get k := find?_upsertRows m r t.rows k

theorem get_put (t : Table key) (r : ρ) (k : κ) :
    (t.put r).get k = if key r = k then some r else t.get k := by
  rw [put, get_upsert]
  cases t.get k <;> rfl

/-- The row is added unless its key has one. -/
def putNew (t : Table key) (r : ρ) : Table key := if (t.get (key r)).isSome then t else t.put r

theorem get_putNew (t : Table key) (r : ρ) (k : κ) :
    (t.putNew r).get k = (t.get k).or (if key r = k then some r else none) := by
  rw [putNew]
  by_cases h : (t.get (key r)).isSome = true
  · rw [if_pos h]
    split
    · rename_i hk
      rw [hk] at h
      obtain ⟨old, hold⟩ := Option.isSome_iff_exists.mp h
      rw [hold, Option.some_or]
    · rw [Option.or_none]
  · rw [if_neg h, get_put]
    split
    · rename_i hk
      rw [hk, Option.not_isSome_iff_eq_none] at h
      rw [h, Option.none_or]
    · rw [Option.or_none]

/-- The rows of `t` are in `u`. -/
def Extends (t u : Table key) : Prop := ∀ k r, t.get k = some r → u.get k = some r

theorem Extends.refl (t : Table key) : t.Extends t := fun _ _ h => h

theorem Extends.trans {t u v : Table key} (h : t.Extends u) (h' : u.Extends v) : t.Extends v :=
  fun k r hr => h' k r (h k r hr)

theorem extends_putNew (t : Table key) (r : ρ) : t.Extends (t.putNew r) := by
  intro k old h
  rw [get_putNew, h, Option.some_or]

theorem Extends.isSome {t u : Table key} (h : t.Extends u) {k : κ} (hk : (t.get k).isSome = true) :
    (u.get k).isSome = true := by
  obtain ⟨r, hr⟩ := Option.isSome_iff_exists.mp hk
  exact Option.isSome_iff_exists.mpr ⟨r, h k r hr⟩

theorem get_eq_some_iff {t : Table key} {k : κ} {r : ρ} :
    t.get k = some r ↔ r ∈ t.rows ∧ key r = k := by
  constructor
  · intro h
    have hkey := List.find?_some h
    exact ⟨List.mem_of_find?_eq_some h, decide_eq_true_iff.mp hkey⟩
  · rintro ⟨hmem, rfl⟩
    cases h : t.get (key r) with
    | none =>
      have hall := List.find?_eq_none.mp h r hmem
      simp at hall
    | some s =>
      have hs := List.mem_of_find?_eq_some h
      have hkey := List.find?_some h
      rw [List.inj_on_of_nodup_map t.distinct hs hmem (decide_eq_true_iff.mp hkey)]

theorem get_eq_none_iff {t : Table key} {k : κ} : t.get k = none ↔ ∀ r ∈ t.rows, key r ≠ k := by
  rw [get, List.find?_eq_none]
  simp only [decide_eq_true_eq]

theorem perm_of_get_eq {t u : Table key} (h : ∀ k, t.get k = u.get k) : t.rows.Perm u.rows := by
  apply (List.perm_ext_iff_of_nodup t.distinct.of_map u.distinct.of_map).mpr
  intro r
  have ht := get_eq_some_iff (t := t) (k := key r) (r := r)
  have hu := get_eq_some_iff (t := u) (k := key r) (r := r)
  rw [h] at ht
  simpa using ht.symm.trans hu

theorem get_eq_of_perm {t u : Table key} (h : t.rows.Perm u.rows) (k : κ) : t.get k = u.get k := by
  cases hu : u.get k with
  | none =>
    rw [get_eq_none_iff] at hu ⊢
    exact fun r hr => hu r (h.mem_iff.mp hr)
  | some r =>
    rw [get_eq_some_iff] at hu ⊢
    exact ⟨h.mem_iff.mpr hu.1, hu.2⟩

/-- After rows are put into a table, it holds the last of them under each of their keys and, under
the other keys, what it held before. -/
theorem get_foldl_put_last (rs : List ρ) (t : Table key) (k : κ) :
    (rs.foldl put t).get k = (rs.reverse.find? fun r => decide (key r = k)).or (t.get k) := by
  induction rs generalizing t with
  | nil => rfl
  | cons r rs ih =>
    rw [List.foldl_cons, ih, get_put, List.reverse_cons, List.find?_append, Option.or_assoc]
    by_cases hk : key r = k <;> simp [hk]

theorem get_foldl_put {rs : List ρ} (hrs : (rs.map key).Nodup) (t : Table key) (k : κ) :
    (rs.foldl put t).get k = (rs.find? fun r => decide (key r = k)).or (t.get k) := by
  have hreverse : (rs.reverse.map key).Nodup :=
    (rs.reverse_perm.map key).nodup_iff.mpr hrs
  rw [get_foldl_put_last]
  congr 1
  exact get_eq_of_perm (t := ⟨rs.reverse, hreverse⟩) (u := ⟨rs, hrs⟩) rs.reverse_perm k

/-- Rows with the same members make the same table, when no two of them differ under one key. -/
theorem get_foldl_put_eq {rs rs' : List ρ} (hmem : ∀ r, r ∈ rs ↔ r ∈ rs')
    (hkey : ∀ r ∈ rs, ∀ r' ∈ rs, key r = key r' → r = r') (k : κ) :
    (rs.foldl put (empty : Table key)).get k = (rs'.foldl put (empty : Table key)).get k := by
  rw [get_foldl_put_last, get_foldl_put_last, get_empty, Option.or_none, Option.or_none]
  cases h : rs.reverse.find? fun r => decide (key r = k) with
  | none =>
    rw [eq_comm, List.find?_eq_none]
    rw [List.find?_eq_none] at h
    intro r hr
    rw [List.mem_reverse, ← hmem, ← List.mem_reverse] at hr
    exact h r hr
  | some r =>
    have hr := List.mem_reverse.mp (List.mem_of_find?_eq_some h)
    have hrk := List.find?_some h
    rw [decide_eq_true_iff] at hrk
    cases h' : rs'.reverse.find? fun r => decide (key r = k) with
    | none =>
      have hno := List.find?_eq_none.mp h' r (List.mem_reverse.mpr ((hmem r).mp hr))
      simp [hrk] at hno
    | some r' =>
      have hr' := (hmem r').mpr (List.mem_reverse.mp (List.mem_of_find?_eq_some h'))
      have hrk' := List.find?_some h'
      rw [decide_eq_true_iff] at hrk'
      rw [hkey r hr r' hr' (hrk.trans hrk'.symm)]

theorem mem_keys_foldl_put {rs : List ρ} {k : κ} :
    k ∈ (rs.foldl put (empty : Table key)).rows.map key ↔ k ∈ rs.map key := by
  have hget : k ∈ (rs.foldl put (empty : Table key)).rows.map key ↔
      (rs.foldl put (empty : Table key)).get k ≠ none := by
    rw [Ne, get_eq_none_iff]
    simp
  rw [hget, get_foldl_put_last, get_empty, Option.or_none, Ne, List.find?_eq_none]
  simp

theorem mem_or_mem_of_mem_foldl_put {rs : List ρ} {t : Table key} {r : ρ}
    (h : r ∈ (rs.foldl put t).rows) : r ∈ rs ∨ r ∈ t.rows := by
  have hget := get_eq_some_iff.mpr ⟨h, rfl⟩
  rw [get_foldl_put_last, Option.or_eq_some_iff] at hget
  rcases hget with hfind | ⟨-, hold⟩
  · exact .inl (List.mem_reverse.mp (List.mem_of_find?_eq_some hfind))
  · exact .inr (get_eq_some_iff.mp hold).1

/-- No put removes a key. -/
theorem exists_mem_foldl_put (rs : List ρ) {t : Table key} {r : ρ} (h : r ∈ t.rows) :
    ∃ r' ∈ (rs.foldl put t).rows, key r' = key r := by
  have hget : (rs.foldl put t).get (key r) ≠ none := by
    rw [get_foldl_put_last, get_eq_some_iff.mpr ⟨h, rfl⟩, Option.or_some]
    exact Option.some_ne_none _
  obtain ⟨r', hr'⟩ := Option.ne_none_iff_exists'.mp hget
  exact ⟨r', get_eq_some_iff.mp hr'⟩

theorem put_of_mem {t : Table key} {r : ρ} (h : r ∈ t.rows) : t.put r = t := by
  have hrows : ∀ rows : List ρ, (rows.map key).Nodup → r ∈ rows →
      upsertRows (replace : Merge key) r rows = rows := by
    intro rows hrows hmem
    induction rows with
    | nil => cases hmem
    | cons s rows ih =>
      rw [List.map_cons, List.nodup_cons] at hrows
      rw [upsertRows]
      by_cases hkey : key s = key r
      · rcases List.mem_cons.mp hmem with rfl | hmem
        · rw [if_pos rfl]
          rfl
        · exact absurd (hkey ▸ List.mem_map_of_mem hmem) hrows.1
      · rcases List.mem_cons.mp hmem with rfl | hmem
        · exact absurd rfl hkey
        · rw [if_neg hkey, ih hrows.2 hmem]
  rw [put, upsert]
  simp only [hrows t.rows t.distinct h]

theorem foldl_put_of_subset {t : Table key} {rs : List ρ} (h : ∀ r ∈ rs, r ∈ t.rows) :
    rs.foldl put t = t := by
  induction rs with
  | nil => rfl
  | cons r rs ih =>
    rw [List.forall_mem_cons] at h
    rw [List.foldl_cons, put_of_mem h.1, ih h.2]

/-- A table holds at most one row of a kind when the rows of the kind have one key. -/
theorem countP_le_one_iff {t : Table key} {p : ρ → Bool} : t.rows.countP p ≤ 1 ↔
    ∀ r ∈ t.rows, ∀ r' ∈ t.rows, p r = true → p r' = true → key r = key r' := by
  rw [List.countP_eq_length_filter]
  constructor
  · intro h r hr r' hr' hp hp'
    have hmem := List.mem_filter.mpr ⟨hr, hp⟩
    have hmem' := List.mem_filter.mpr ⟨hr', hp'⟩
    match hrows : t.rows.filter p with
    | [] => rw [hrows] at hmem; cases hmem
    | [s] =>
      rw [hrows, List.mem_singleton] at hmem hmem'
      rw [hmem, hmem']
    | _ :: _ :: _ =>
      rw [hrows, List.length_cons, List.length_cons] at h
      omega
  · intro h
    cases hrows : t.rows.filter p with
    | nil => exact Nat.zero_le 1
    | cons s rest =>
      have hs : s ∈ t.rows ∧ p s = true := List.mem_filter.mp (hrows ▸ List.mem_cons_self)
      have hsub : t.rows.filter p ⊆ [s] := by
        intro r hr
        obtain ⟨hr, hp⟩ := List.mem_filter.mp hr
        rw [List.mem_singleton]
        exact List.inj_on_of_nodup_map t.distinct hr hs.1 (h r hr s hs.1 hp hs.2)
      rw [← hrows]
      exact (List.subperm_of_subset (t.distinct.of_map.filter p) hsub).length_le

end Table

end Clickstream.Kit
