import Krit.Lib.Table

/-!
# Sizes of the rows that a bound is about

A bound counts the rows of a table that satisfy a condition and adds up their sizes.
Writing a row under its key replaces one size, and rows that come from other rows of
the same size do not add any.
-/

namespace Table

variable {κ ρ : Type}

/-- The sizes of the rows that satisfy a condition. -/
def sizes (table : Table κ ρ) (condition : κ → ρ → Bool) (size : ρ → ℤ) : List ℤ :=
  (table.select condition).map fun entry => size entry.2

theorem sum_le_sum_of_sublist {first second : List ℤ} (hsublist : first.Sublist second)
    (hnonneg : ∀ size ∈ second, 0 ≤ size) : first.sum ≤ second.sum := by
  induction hsublist with
  | slnil => exact le_refl _
  | cons size hsublist ih =>
    rw [List.sum_cons]
    have hsize := hnonneg size List.mem_cons_self
    have hrest := ih fun other hother => hnonneg other (List.mem_cons_of_mem _ hother)
    omega
  | cons_cons size hsublist ih =>
    rw [List.sum_cons, List.sum_cons]
    have hrest := ih fun other hother => hnonneg other (List.mem_cons_of_mem _ hother)
    omega

theorem sum_le_sum_of_subperm {first second : List ℤ} (hsubperm : first.Subperm second)
    (hnonneg : ∀ size ∈ second, 0 ≤ size) : first.sum ≤ second.sum := by
  obtain ⟨middle, hperm, hsublist⟩ := hsubperm
  rw [← hperm.sum_eq]
  exact sum_le_sum_of_sublist hsublist hnonneg

variable [DecidableEq κ] {table before after : Table κ ρ} {condition : κ → ρ → Bool}
  {size : ρ → ℤ} {key : κ}

theorem mem_sizes_iff {value : ℤ} : value ∈ table.sizes condition size ↔
    ∃ key row, table.find key = some row ∧ condition key row = true ∧ size row = value := by
  unfold sizes
  rw [List.mem_map]
  constructor
  · rintro ⟨⟨key, row⟩, hmem, hsize⟩
    obtain ⟨hfind, hrow⟩ := mem_select_iff.mp hmem
    exact ⟨key, row, hfind, hrow, hsize⟩
  · rintro ⟨key, row, hfind, hrow, hsize⟩
    exact ⟨(key, row), mem_select_iff.mpr ⟨hfind, hrow⟩, hsize⟩

/-- Tables with the same rows under all keys differ in the order of their rows only. -/
theorem select_perm_of_find (hfind : before.find = after.find) :
    (before.select condition).Perm (after.select condition) := by
  refine (List.perm_ext_iff_of_nodup ((before.nodup.of_map _).filter _)
    ((after.nodup.of_map _).filter _)).mpr ?_
  rintro ⟨key, row⟩
  change (key, row) ∈ before.select condition ↔ (key, row) ∈ after.select condition
  rw [mem_select_iff, mem_select_iff, hfind]

theorem select_perm_cons {row : ρ} (hfind : table.find key = some row)
    (hrow : condition key row = true) :
    (table.select condition).Perm
      ((key, row) :: (table.delete fun other _ => other == key).select condition) := by
  have hperm := (rows_delete_perm hfind).filter fun entry => condition entry.1 entry.2
  rw [List.filter_cons_of_pos (by exact hrow)] at hperm
  exact hperm

variable (size) in
theorem sizes_perm_cons {row : ρ} (hfind : table.find key = some row)
    (hrow : condition key row = true) :
    (table.sizes condition size).Perm
      (size row :: (table.delete fun other _ => other == key).sizes condition size) :=
  (select_perm_cons hfind hrow).map fun entry : κ × ρ => size entry.2

variable (table size) in
/-- Writing a row puts its size in the place of that of the row under the same key. -/
theorem sizes_upsert_perm {row : ρ} (hrow : condition key row = true) :
    ((table.upsert key row fun _ => row).sizes condition size).Perm
      (size row :: (table.delete fun other _ => other == key).sizes condition size) := by
  have hfind : (table.upsert key row fun _ => row).find key = some row := by
    rw [find_upsert_const, Function.update_self]
  refine (sizes_perm_cons size hfind hrow).trans (List.Perm.cons _ ?_)
  refine List.Perm.map (fun entry : κ × ρ => size entry.2) (select_perm_of_find ?_)
  rw [find_delete_key, find_delete_key, find_upsert_const, Function.update_idem]

theorem sizes_delete_of_none (hfind : table.find key = none) :
    (table.delete fun other _ => other == key).sizes condition size =
      table.sizes condition size := by
  rw [delete_eq_self]
  intro other row hother
  rw [beq_eq_false_iff_ne]
  intro hsame
  rw [hsame, hfind] at hother
  cases hother

theorem sizes_insert_of_none {row : ρ} (hfind : table.find key = none)
    (hrow : condition key row = true) :
    (table.insert key row).sizes condition size = table.sizes condition size ++ [size row] := by
  unfold sizes select
  rw [rows_insert_of_none hfind, List.filter_append, List.filter_cons_of_pos (by exact hrow),
    List.filter_nil, List.map_append, List.map_singleton]

/-- Rows that come from rows of the same size under the same key have no other sizes. -/
theorem sizes_subperm (hfrom : ∀ key row, after.find key = some row → condition key row = true →
    ∃ old, before.find key = some old ∧ condition key old = true ∧ size old = size row) :
    (after.sizes condition size).Subperm (before.sizes condition size) := by
  have hkeyed : ∀ table : Table κ ρ, table.sizes condition size =
      ((table.select condition).map fun entry => (entry.1, size entry.2)).map Prod.snd := by
    intro table
    rw [List.map_map]
    rfl
  have hnodup : ((after.select condition).map fun entry => (entry.1, size entry.2)).Nodup := by
    have hkeys : (((after.select condition).map fun entry => (entry.1, size entry.2)).map
        Prod.fst).Nodup := by
      rw [List.map_map]
      exact after.nodup.sublist (List.filter_sublist.map _)
    exact hkeys.of_map _
  have hsubset : ((after.select condition).map fun entry => (entry.1, size entry.2)) ⊆
      (before.select condition).map fun entry => (entry.1, size entry.2) := by
    intro entry hentry
    obtain ⟨⟨key, row⟩, hmem, hpair⟩ := List.mem_map.mp hentry
    obtain ⟨hfind, hrow⟩ := mem_select_iff.mp hmem
    obtain ⟨old, hold, hin, hsize⟩ := hfrom key row hfind hrow
    rw [← hpair]
    refine List.mem_map.mpr ⟨(key, old), mem_select_iff.mpr ⟨hold, hin⟩, ?_⟩
    rw [hsize]
  obtain ⟨middle, hperm, hsublist⟩ := List.subperm_of_subset hnodup hsubset
  rw [hkeyed, hkeyed]
  exact ⟨middle.map Prod.snd, hperm.map _, hsublist.map _⟩

end Table
