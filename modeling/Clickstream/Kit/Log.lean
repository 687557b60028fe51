import Clickstream.Kit.Table

/-! Append-only logs of rows that are read by key: the last row written under a key is the one that
counts.  A log is stored in parts, and adjacent parts may be merged at any time into one that keeps the
last row of each key. -/

namespace Clickstream.Kit

section Log

variable {ρ κ : Type} [DecidableEq κ] (key : ρ → κ)

/-- The row that a read of the log finds under a key. -/
def lastRow (log : List ρ) (k : κ) : Option ρ := log.reverse.find? fun r => decide (key r = k)

/-- Every read of the logs finds the same row. -/
def SameReads (log log' : List ρ) : Prop := ∀ k, lastRow key log k = lastRow key log' k

/-- Some adjacent parts are merged into one. -/
inductive Merges : List (List ρ) → List (List ρ) → Prop
  | adjacent (before merged after : List (List ρ)) (part : List ρ)
      (hpart : part.Perm (merged.flatten.foldl Table.put (Table.empty : Table key)).rows) :
      Merges (before ++ merged ++ after) (before ++ part :: after)

variable {key} {log log' rows : List ρ} {k : κ} {r : ρ}

@[simp] theorem lastRow_nil : lastRow key [] k = none := rfl

theorem lastRow_append : lastRow key (log ++ rows) k = (lastRow key rows k).or (lastRow key log k) := by
  rw [lastRow, List.reverse_append, List.find?_append]
  rfl

theorem lastRow_eq_none_iff : lastRow key log k = none ↔ ∀ r ∈ log, key r ≠ k := by
  rw [lastRow, List.find?_eq_none]
  simp only [List.mem_reverse, decide_eq_true_eq]

theorem mem_of_lastRow (h : lastRow key log k = some r) : r ∈ log ∧ key r = k := by
  have hkey := List.find?_some h
  exact ⟨List.mem_reverse.mp (List.mem_of_find?_eq_some h), decide_eq_true_iff.mp hkey⟩

/-- Among rows with distinct keys every row is the last of its key. -/
theorem lastRow_of_nodup (hlog : (log.map key).Nodup) : lastRow key log (key r) = some r ↔ r ∈ log := by
  constructor
  · exact fun h => (mem_of_lastRow h).1
  · intro hr
    cases h : lastRow key log (key r) with
    | none => exact absurd rfl (lastRow_eq_none_iff.mp h r hr)
    | some s =>
      obtain ⟨hs, hkey⟩ := mem_of_lastRow h
      rw [List.inj_on_of_nodup_map hlog hs hr hkey]

theorem get_foldl_put_lastRow (rows : List ρ) (t : Table key) (k : κ) :
    (rows.foldl Table.put t).get k = (lastRow key rows k).or (t.get k) :=
  Table.get_foldl_put_last rows t k

theorem get_foldl_put_empty (rows : List ρ) (k : κ) :
    (rows.foldl Table.put (Table.empty : Table key)).get k = lastRow key rows k := by
  rw [get_foldl_put_lastRow, Table.get_empty, Option.or_none]

theorem lastRow_rows (t : Table key) (k : κ) : lastRow key t.rows k = t.get k := by
  cases h : t.get k with
  | none => exact lastRow_eq_none_iff.mpr (Table.get_eq_none_iff.mp h)
  | some r =>
    obtain ⟨hr, rfl⟩ := Table.get_eq_some_iff.mp h
    exact (lastRow_of_nodup t.distinct).mpr hr

theorem SameReads.append (h : SameReads key log log') (before after : List ρ) :
    SameReads key (before ++ log ++ after) (before ++ log' ++ after) := by
  intro k
  rw [lastRow_append, lastRow_append, h k, ← lastRow_append, ← lastRow_append]

/-- No merge changes what a read finds. -/
theorem Merges.sameReads {parts parts' : List (List ρ)} (h : Merges key parts parts') :
    SameReads key parts.flatten parts'.flatten := by
  obtain ⟨before, merged, after, part, hpart⟩ := h
  have hsame : SameReads key merged.flatten part := by
    intro k
    have hdistinct : (part.map key).Nodup := (hpart.map key).nodup_iff.mpr (Table.distinct _)
    rw [← get_foldl_put_empty, ← Table.get_eq_of_perm (t := ⟨part, hdistinct⟩) hpart]
    exact (lastRow_rows ⟨part, hdistinct⟩ k).symm
  simpa using hsame.append before.flatten after.flatten

end Log

end Clickstream.Kit
