import Krit.Lib.Table

/-!
# Keeping the newest rows of a table

A retention bound keeps, of the rows that it is about, those with the largest measure
and deletes the others.  A row is then lost only when the bound is filled with rows
that are at least as new.
-/

namespace Table

variable {κ ρ : Type}

/-- The rows that a bound is about, the newest first. -/
def newestFirst (table : Table κ ρ) (condition : κ → ρ → Bool) (measure : κ × ρ → ℤ) :
    List (κ × ρ) :=
  (table.select condition).mergeSort fun left right => decide (measure right ≤ measure left)

/-- The number of rows that a bound is about and that are no older than an instant. -/
def countFrom (table : Table κ ρ) (condition : κ → ρ → Bool) (measure : κ × ρ → ℤ)
    (instant : ℤ) : ℕ :=
  (table.select condition).countP fun entry => decide (instant ≤ measure entry)

section

variable {table : Table κ ρ} {condition : κ → ρ → Bool} {measure : κ × ρ → ℤ} {limit : ℕ}

theorem newestFirst_perm :
    (table.newestFirst condition measure).Perm (table.select condition) :=
  List.mergeSort_perm _ _

variable (table condition measure) in
theorem newestFirst_sorted : (table.newestFirst condition measure).Pairwise
    fun left right => measure right ≤ measure left := by
  have hsorted : (table.newestFirst condition measure).Pairwise fun left right =>
      decide (measure right ≤ measure left) = true := by
    refine List.pairwise_mergeSort ?_ ?_ _
    · intro first second third hfirst hsecond
      rw [decide_eq_true_eq] at hfirst hsecond ⊢
      exact hsecond.trans hfirst
    · intro first second
      rw [Bool.or_eq_true, decide_eq_true_eq, decide_eq_true_eq]
      exact le_total _ _
  refine hsorted.imp ?_
  intro left right hle
  exact decide_eq_true_eq.mp hle

variable (table condition measure) in
theorem newestFirst_nodup : (table.newestFirst condition measure).Nodup :=
  newestFirst_perm.nodup_iff.mpr ((table.nodup.of_map _).filter _)

/-- Everything beyond the bound is at most as new as everything within it. -/
theorem measure_le_of_mem {kept lost : κ × ρ}
    (hkept : kept ∈ (table.newestFirst condition measure).take limit)
    (hlost : lost ∈ (table.newestFirst condition measure).drop limit) :
    measure lost ≤ measure kept := by
  have hsorted := newestFirst_sorted table condition measure
  rw [← List.take_append_drop limit (table.newestFirst condition measure)] at hsorted
  exact (List.pairwise_append.mp hsorted).2.2 kept hkept lost hlost

/-- A change that neither moves rows out of the bound nor makes them older. -/
theorem countFrom_update {touched : κ → ρ → Bool} {change : ρ → ρ} {instant : ℤ}
    (hcondition : ∀ key row, condition key (change row) = condition key row)
    (hmeasure : ∀ key row, measure (key, change row) = measure (key, row)) :
    (table.update touched change).countFrom condition measure instant =
      table.countFrom condition measure instant := by
  unfold countFrom select update
  rw [List.countP_filter, List.countP_filter, List.countP_map]
  refine List.countP_congr ?_
  rintro ⟨key, row⟩ -
  by_cases htouched : touched key row = true
  · simp [htouched, hcondition, hmeasure]
  · simp [htouched]

end

variable [DecidableEq κ]

/-- `DELETE ... IN (SELECT ... ORDER BY ... DESC LIMIT -1 OFFSET limit)`. -/
def keepNewest (table : Table κ ρ) (condition : κ → ρ → Bool) (measure : κ × ρ → ℤ)
    (limit : ℕ) : Table κ ρ :=
  table.delete fun key row => condition key row &&
    (((table.newestFirst condition measure).drop limit).map Prod.fst).contains key

variable {table : Table κ ρ} {condition : κ → ρ → Bool} {measure : κ × ρ → ℤ} {limit : ℕ}

theorem find_keepNewest_of_not {key : κ} {row : ρ} (hfind : table.find key = some row)
    (hrow : condition key row = false) :
    (table.keepNewest condition measure limit).find key = some row := by
  unfold keepNewest
  rw [find_delete, hfind, Option.filter_some, hrow]
  simp

theorem find_of_keepNewest {key : κ} {row : ρ}
    (hfind : (table.keepNewest condition measure limit).find key = some row) :
    table.find key = some row := by
  unfold keepNewest at hfind
  rw [find_delete, Option.filter_eq_some_iff] at hfind
  exact hfind.1

/-- The rows that the bound is about and that are left are the newest ones. -/
theorem select_keepNewest_perm :
    ((table.keepNewest condition measure limit).select condition).Perm
      ((table.newestFirst condition measure).take limit) := by
  have hall := newestFirst_nodup table condition measure
  refine (List.perm_ext_iff_of_nodup ((Table.nodup _).of_map _ |>.filter _)
    (hall.sublist (List.take_sublist _ _))).mpr ?_
  rintro ⟨key, row⟩
  have hmem : (key, row) ∈ table.newestFirst condition measure ↔
      table.find key = some row ∧ condition key row = true := by
    rw [newestFirst_perm.mem_iff, mem_select_iff]
  have hsplit : (key, row) ∈ table.newestFirst condition measure ↔
      (key, row) ∈ (table.newestFirst condition measure).take limit ∨
        (key, row) ∈ (table.newestFirst condition measure).drop limit := by
    rw [← List.mem_append, List.take_append_drop]
  have hdisjoint : (key, row) ∈ (table.newestFirst condition measure).take limit →
      (key, row) ∉ (table.newestFirst condition measure).drop limit := by
    rw [← List.take_append_drop limit (table.newestFirst condition measure)] at hall
    intro htake hdrop
    exact (List.nodup_append.mp hall).2.2 _ htake _ hdrop rfl
  have hkey : table.find key = some row →
      (key ∈ ((table.newestFirst condition measure).drop limit).map Prod.fst ↔
        (key, row) ∈ (table.newestFirst condition measure).drop limit) := by
    intro hfind
    constructor
    · intro hin
      obtain ⟨⟨other, found⟩, hdrop, hsame⟩ := List.mem_map.mp hin
      simp only at hsame
      subst hsame
      have hfound := (List.drop_sublist _ _).subset hdrop
      rw [newestFirst_perm.mem_iff, mem_select_iff, hfind, Option.some.injEq] at hfound
      rw [hfound.1]
      exact hdrop
    · intro hin
      exact List.mem_map.mpr ⟨(key, row), hin, rfl⟩
  change (key, row) ∈ (table.keepNewest condition measure limit).select condition ↔ _
  rw [mem_select_iff]
  unfold keepNewest
  rw [find_delete, Option.filter_eq_some_iff]
  constructor
  · rintro ⟨⟨hfind, hkeep⟩, hrow⟩
    have hstays : key ∉ ((table.newestFirst condition measure).drop limit).map Prod.fst := by
      simpa [hrow] using hkeep
    rw [hkey hfind] at hstays
    rcases hsplit.mp (hmem.mpr ⟨hfind, hrow⟩) with htake | hdrop
    · exact htake
    · exact absurd hdrop hstays
  · intro htake
    obtain ⟨hfind, hrow⟩ := hmem.mp (hsplit.mpr (Or.inl htake))
    have hstays := hdisjoint htake
    rw [← hkey hfind] at hstays
    refine ⟨⟨hfind, ?_⟩, hrow⟩
    simpa [hrow] using hstays

theorem length_select_keepNewest_le :
    ((table.keepNewest condition measure limit).select condition).length ≤ limit := by
  rw [select_keepNewest_perm.length_eq]
  exact List.length_take_le _ _

theorem countFrom_keepNewest (instant : ℤ) :
    (table.keepNewest condition measure limit).countFrom condition measure instant =
      ((table.newestFirst condition measure).take limit).countP
        fun entry => decide (instant ≤ measure entry) :=
  select_keepNewest_perm.countP_eq _

/-- A bound that is full of rows from an instant on stays full of them. -/
theorem le_countFrom_keepNewest {instant : ℤ}
    (hfull : limit ≤ table.countFrom condition measure instant) :
    limit ≤ (table.keepNewest condition measure limit).countFrom condition measure instant := by
  rw [countFrom_keepNewest]
  have hcount : table.countFrom condition measure instant =
      (table.newestFirst condition measure).countP fun entry => decide (instant ≤ measure entry) :=
    (newestFirst_perm.countP_eq _).symm
  have hlength : limit ≤ (table.newestFirst condition measure).length := by
    have hle := List.countP_le_length
      (p := fun entry => decide (instant ≤ measure entry))
      (l := table.newestFirst condition measure)
    omega
  have htake : ((table.newestFirst condition measure).take limit).length = limit := by
    rw [List.length_take]
    omega
  by_cases hall : ∀ entry ∈ (table.newestFirst condition measure).take limit,
      decide (instant ≤ measure entry) = true
  · rw [List.countP_eq_length.mpr hall, htake]
  · -- An older row within the bound leaves only older rows beyond it.
    push Not at hall
    obtain ⟨old, hold, holder⟩ := hall
    rw [Ne, decide_eq_true_eq] at holder
    have hbeyond : ((table.newestFirst condition measure).drop limit).countP
        (fun entry => decide (instant ≤ measure entry)) = 0 := by
      rw [List.countP_eq_zero]
      intro lost hlost
      have hle := measure_le_of_mem hold hlost
      rw [decide_eq_true_eq]
      omega
    have hwhole : (table.newestFirst condition measure).countP
          (fun entry => decide (instant ≤ measure entry)) =
        ((table.newestFirst condition measure).take limit).countP
          (fun entry => decide (instant ≤ measure entry)) +
        ((table.newestFirst condition measure).drop limit).countP
          (fun entry => decide (instant ≤ measure entry)) := by
      rw [← List.countP_append, List.take_append_drop]
    omega

variable (measure limit) in
/-- A row is kept, or the bound is full of rows that are at least as new. -/
theorem find_keepNewest_or {key : κ} {row : ρ} (hfind : table.find key = some row)
    (hrow : condition key row = true) :
    (table.keepNewest condition measure limit).find key = some row ∨
      limit ≤ (table.keepNewest condition measure limit).countFrom condition measure
        (measure (key, row)) := by
  have hmem : (key, row) ∈ table.newestFirst condition measure :=
    newestFirst_perm.mem_iff.mpr (mem_select_iff.mpr ⟨hfind, hrow⟩)
  rw [← List.take_append_drop limit (table.newestFirst condition measure),
    List.mem_append] at hmem
  rcases hmem with htake | hdrop
  · left
    have hselect := select_keepNewest_perm.mem_iff.mpr htake
    exact (mem_select_iff.mp hselect).1
  · right
    rw [countFrom_keepNewest]
    have hnewer : ∀ entry ∈ (table.newestFirst condition measure).take limit,
        decide (measure (key, row) ≤ measure entry) = true := by
      intro entry hentry
      rw [decide_eq_true_eq]
      exact measure_le_of_mem hentry hdrop
    have hlength := List.length_pos_of_mem hdrop
    rw [List.length_drop] at hlength
    rw [List.countP_eq_length.mpr hnewer, List.length_take]
    omega

/-! ## Full bounds under other statements -/

theorem countFrom_insert_le {key : κ} {row : ρ} {instant : ℤ} :
    table.countFrom condition measure instant ≤
      (table.insert key row).countFrom condition measure instant := by
  cases hfind : table.find key with
  | some old => rw [find_insert_of_some hfind]
  | none =>
    unfold countFrom select
    rw [rows_insert_of_none hfind, List.filter_append, List.countP_append]
    omega

theorem countFrom_upsert_le {key : κ} {row : ρ} {change : ρ → ρ} {instant : ℤ}
    (hcondition : ∀ key row, condition key (change row) = condition key row)
    (hmeasure : ∀ key row, measure (key, change row) = measure (key, row)) :
    table.countFrom condition measure instant ≤
      (table.upsert key row change).countFrom condition measure instant := by
  unfold upsert
  cases table.find key with
  | some old => exact (countFrom_update hcondition hmeasure).ge
  | none => exact countFrom_insert_le

end Table
