import Krit.Lib.Keyed

/-!
# Tables with a primary key

A table is a list of rows under distinct keys, as a relational database keeps it.
Inserting never replaces a row, updating never changes a key, and every statement
is described by what is found afterwards under each key.
-/

/-- Rows under distinct keys. -/
structure Table (κ ρ : Type) where
  rows : List (κ × ρ)
  nodup : (rows.map Prod.fst).Nodup

namespace Table

variable {κ ρ : Type}

def empty : Table κ ρ := ⟨[], List.nodup_nil⟩

def keys (table : Table κ ρ) : List κ := table.rows.map Prod.fst

/-- `UPDATE`: changes the rows that satisfy a condition, and no key. -/
def update (table : Table κ ρ) (condition : κ → ρ → Bool) (change : ρ → ρ) : Table κ ρ where
  rows := table.rows.map fun entry =>
    (entry.1, if condition entry.1 entry.2 then change entry.2 else entry.2)
  nodup := by
    rw [List.map_map]
    exact table.nodup

/-- `DELETE`: removes the rows that satisfy a condition. -/
def delete (table : Table κ ρ) (condition : κ → ρ → Bool) : Table κ ρ where
  rows := table.rows.filter fun entry => !condition entry.1 entry.2
  nodup := table.nodup.sublist (List.filter_sublist.map Prod.fst)

/-- `SELECT`: the rows that satisfy a condition. -/
def select (table : Table κ ρ) (condition : κ → ρ → Bool) : List (κ × ρ) :=
  table.rows.filter fun entry => condition entry.1 entry.2

/-- `ORDER BY ... ASC LIMIT 1`: the first of the rows with the least measure. -/
def least (measure : κ × ρ → ℤ) : List (κ × ρ) → Option (κ × ρ)
  | [] => none
  | entry :: rest =>
      match least measure rest with
      | none => some entry
      | some found => if measure entry ≤ measure found then some entry else some found

theorem least_eq_none_iff {measure : κ × ρ → ℤ} {entries : List (κ × ρ)} :
    least measure entries = none ↔ entries = [] := by
  cases entries with
  | nil => simp [least]
  | cons entry rest =>
    rw [least]
    cases least measure rest with
    | none => simp
    | some found =>
      simp only []
      split <;> simp

/-- The least row is one of the rows, and no row has a smaller measure. -/
theorem least_spec {measure : κ × ρ → ℤ} {entries : List (κ × ρ)} {found : κ × ρ}
    (hleast : least measure entries = some found) :
    found ∈ entries ∧ ∀ entry ∈ entries, measure found ≤ measure entry := by
  induction entries generalizing found with
  | nil => cases hleast
  | cons first rest ih =>
    rw [least] at hleast
    cases hrest : least measure rest with
    | none =>
      rw [hrest, Option.some.injEq] at hleast
      subst hleast
      rw [least_eq_none_iff] at hrest
      subst hrest
      simp
    | some best =>
      rw [hrest] at hleast
      obtain ⟨hmem, hle⟩ := ih hrest
      by_cases hfirst : measure first ≤ measure best
      · simp only [if_pos hfirst, Option.some.injEq] at hleast
        subst hleast
        refine ⟨List.mem_cons_self, ?_⟩
        intro entry hentry
        rcases List.mem_cons.mp hentry with heq | hlater
        · rw [heq]
        · exact hfirst.trans (hle entry hlater)
      · simp only [if_neg hfirst, Option.some.injEq] at hleast
        subst hleast
        refine ⟨List.mem_cons_of_mem _ hmem, ?_⟩
        intro entry hentry
        rcases List.mem_cons.mp hentry with heq | hlater
        · rw [heq]
          omega
        · exact hle entry hlater

theorem keys_update (table : Table κ ρ) (condition : κ → ρ → Bool) (change : ρ → ρ) :
    (table.update condition change).keys = table.keys := by
  unfold keys update
  rw [List.map_map]
  rfl

variable [DecidableEq κ]

/-- The row under a key. -/
def find (table : Table κ ρ) (key : κ) : Option ρ := Keyed.find key table.rows

/-- `INSERT ... ON CONFLICT DO NOTHING`. -/
def insert (table : Table κ ρ) (key : κ) (row : ρ) : Table κ ρ :=
  if hkey : key ∈ table.rows.map Prod.fst then table
  else
    { rows := table.rows ++ [(key, row)]
      nodup := by
        rw [List.map_append, List.map_singleton]
        refine table.nodup.append (List.nodup_singleton key) ?_
        intro other hother hsame
        rw [List.mem_singleton] at hsame
        rw [hsame] at hother
        exact hkey hother }

/-- `INSERT ... ON CONFLICT DO UPDATE`: the change applies to a row that is there. -/
def upsert (table : Table κ ρ) (key : κ) (row : ρ) (change : ρ → ρ) : Table κ ρ :=
  match table.find key with
  | some _ => table.update (fun other _ => other == key) change
  | none => table.insert key row

theorem mem_rows_iff {table : Table κ ρ} {key : κ} {row : ρ} :
    (key, row) ∈ table.rows ↔ table.find key = some row :=
  ⟨Keyed.find_of_mem table.nodup, Keyed.mem_of_find⟩

theorem find_eq_none_iff {table : Table κ ρ} {key : κ} :
    table.find key = none ↔ key ∉ table.rows.map Prod.fst :=
  Keyed.find_eq_none_iff

theorem mem_select_iff {table : Table κ ρ} {condition : κ → ρ → Bool} {key : κ} {row : ρ} :
    (key, row) ∈ table.select condition ↔ table.find key = some row ∧ condition key row = true := by
  unfold select
  rw [List.mem_filter, mem_rows_iff]

@[simp] theorem find_empty (key : κ) : (empty : Table κ ρ).find key = none := rfl

theorem find_update (table : Table κ ρ) (condition : κ → ρ → Bool) (change : ρ → ρ) (key : κ) :
    (table.update condition change).find key =
      (table.find key).map fun row => if condition key row then change row else row :=
  Keyed.find_map_entry key (fun key row => if condition key row then change row else row)
    table.rows

theorem find_delete (table : Table κ ρ) (condition : κ → ρ → Bool) (key : κ) :
    (table.delete condition).find key = (table.find key).filter fun row => !condition key row := by
  cases hfind : table.find key with
  | none =>
    rw [find_eq_none_iff] at hfind
    rw [Option.filter_none, find_eq_none_iff]
    intro hmem
    exact hfind (List.filter_sublist.map Prod.fst |>.subset hmem)
  | some row =>
    have hrow := mem_rows_iff.mpr hfind
    by_cases hcondition : condition key row = true
    · have hnone : (table.delete condition).find key = none := by
        rw [find_eq_none_iff]
        intro hmem
        obtain ⟨⟨other, found⟩, hentry, hkey⟩ := List.mem_map.mp hmem
        unfold delete at hentry
        rw [List.mem_filter] at hentry
        obtain ⟨hstored, hkeep⟩ := hentry
        simp only at hkey
        subst hkey
        rw [mem_rows_iff, hfind, Option.some.injEq] at hstored
        subst hstored
        simp [hcondition] at hkeep
      rw [hnone, Option.filter_some, hcondition]
      rfl
    · have hsome : (table.delete condition).find key = some row := by
        rw [← mem_rows_iff]
        unfold delete
        rw [List.mem_filter]
        exact ⟨hrow, by simpa using hcondition⟩
      rw [hsome, Option.filter_some]
      simp [hcondition]

theorem find_insert_of_some {table : Table κ ρ} {key : κ} {old : ρ}
    (hfind : table.find key = some old) (row : ρ) : table.insert key row = table := by
  have hmem : key ∈ table.rows.map Prod.fst :=
    List.mem_map.mpr ⟨(key, old), mem_rows_iff.mpr hfind, rfl⟩
  unfold insert
  rw [dif_pos hmem]

theorem rows_insert_of_none {table : Table κ ρ} {key : κ} (hfind : table.find key = none)
    (row : ρ) : (table.insert key row).rows = table.rows ++ [(key, row)] := by
  rw [find_eq_none_iff] at hfind
  unfold insert
  rw [dif_neg hfind]

theorem find_insert_self {table : Table κ ρ} {key : κ} (hfind : table.find key = none) (row : ρ) :
    (table.insert key row).find key = some row := by
  rw [← mem_rows_iff, rows_insert_of_none hfind]
  exact List.mem_append_right _ (List.mem_singleton.mpr rfl)

theorem find_insert_of_ne {key other : κ} (hne : key ≠ other) (table : Table κ ρ) (row : ρ) :
    (table.insert key row).find other = table.find other := by
  cases hkey : table.find key with
  | some old => rw [find_insert_of_some hkey]
  | none =>
    cases hfind : table.find other with
    | none =>
      rw [find_eq_none_iff] at hfind ⊢
      rw [rows_insert_of_none hkey, List.map_append, List.mem_append, not_or]
      refine ⟨hfind, ?_⟩
      simpa using Ne.symm hne
    | some found =>
      rw [← mem_rows_iff, rows_insert_of_none hkey]
      exact List.mem_append_left _ (mem_rows_iff.mpr hfind)

theorem find_upsert_of_ne {key other : κ} (hne : key ≠ other) (table : Table κ ρ) (row : ρ)
    (change : ρ → ρ) : (table.upsert key row change).find other = table.find other := by
  unfold upsert
  cases table.find key with
  | some old =>
    simp only []
    rw [find_update]
    simp [Ne.symm hne]
  | none => exact find_insert_of_ne hne table row

theorem find_upsert_self (table : Table κ ρ) (key : κ) (row : ρ) (change : ρ → ρ) :
    (table.upsert key row change).find key = some ((table.find key).elim row change) := by
  unfold upsert
  cases hfind : table.find key with
  | some old =>
    simp only []
    rw [find_update, hfind]
    simp
  | none => exact find_insert_self hfind row

theorem mem_keys_iff {table : Table κ ρ} {key : κ} : key ∈ table.keys ↔ table.find key ≠ none := by
  rw [Ne, find_eq_none_iff, not_not]
  rfl

/-- Deleting one row takes its key away. -/
theorem keys_delete_perm {table : Table κ ρ} {condition : κ → ρ → Bool} {key : κ} {row : ρ}
    (hfind : table.find key = some row) (hrow : condition key row = true)
    (hothers : ∀ other found, condition other found = true → other = key) :
    table.keys.Perm (key :: (table.delete condition).keys) := by
  have hgone : key ∉ (table.delete condition).keys := by
    rw [mem_keys_iff, not_not, find_delete, hfind, Option.filter_some, hrow]
    rfl
  refine (List.perm_ext_iff_of_nodup table.nodup
    (List.nodup_cons.mpr ⟨hgone, (table.delete condition).nodup⟩)).mpr ?_
  intro other
  have hkey : other ∈ table.rows.map Prod.fst ↔ table.find other ≠ none := mem_keys_iff
  rw [List.mem_cons, hkey, mem_keys_iff, find_delete]
  by_cases hsame : other = key
  · simp [hsame, hfind]
  · cases hfound : table.find other with
    | none => simp [hsame]
    | some found =>
      have hkeep : condition other found = false := by
        rw [← Bool.not_eq_true]
        intro hcondition
        exact hsame (hothers other found hcondition)
      simp [hkeep]

/-- Deleting the row under a key takes that row away, and no other. -/
theorem rows_delete_perm {table : Table κ ρ} {key : κ} {row : ρ}
    (hfind : table.find key = some row) :
    table.rows.Perm ((key, row) :: (table.delete fun other _ => other == key).rows) := by
  have hgone : (key, row) ∉ (table.delete fun other _ => other == key).rows := by
    intro hmem
    have hkeep := (List.mem_filter.mp hmem).2
    simp at hkeep
  refine (List.perm_ext_iff_of_nodup (table.nodup.of_map _)
    (List.nodup_cons.mpr ⟨hgone, (table.nodup.of_map _).filter _⟩)).mpr ?_
  rintro ⟨other, found⟩
  unfold delete
  rw [List.mem_cons, List.mem_filter, mem_rows_iff]
  by_cases hsame : other = key
  · subst hsame
    simp [hfind, eq_comm]
  · simp [hsame]

theorem length_select_delete {table : Table κ ρ} {condition : κ → ρ → Bool} {key : κ} {row : ρ}
    (hfind : table.find key = some row) (hrow : condition key row = true) :
    (table.select condition).length =
      ((table.delete fun other _ => other == key).select condition).length + 1 := by
  have hperm := (rows_delete_perm hfind).filter fun entry => condition entry.1 entry.2
  have hlength := hperm.length_eq
  rw [List.filter_cons_of_pos (by exact hrow), List.length_cons] at hlength
  exact hlength

theorem keys_insert {table : Table κ ρ} {key : κ} (hfind : table.find key = none) (row : ρ) :
    (table.insert key row).keys = table.keys ++ [key] := by
  unfold keys
  rw [rows_insert_of_none hfind, List.map_append, List.map_singleton]

/-- At most one row can satisfy a condition that fixes the key. -/
theorem select_eq_nil_or_singleton (table : Table κ ρ) {condition : κ → ρ → Bool} {key : κ}
    (hothers : ∀ other found, condition other found = true → other = key) :
    (table.select condition = [] ∧ ∀ row, table.find key = some row → condition key row = false) ∨
      ∃ row, table.select condition = [(key, row)] ∧ table.find key = some row ∧
        condition key row = true := by
  have hnodup : (table.select condition).Nodup := (table.nodup.of_map _).filter _
  cases hselect : table.select condition with
  | nil =>
    refine Or.inl ⟨rfl, ?_⟩
    intro row hfind
    rw [← Bool.not_eq_true]
    intro hcondition
    have hmem := mem_select_iff.mpr ⟨hfind, hcondition⟩
    rw [hselect] at hmem
    cases hmem
  | cons entry rest =>
    right
    have hall : ∀ other ∈ table.select condition, ∃ row, other = (key, row) ∧
        table.find key = some row ∧ condition key row = true := by
      rintro ⟨other, row⟩ hmem
      obtain ⟨hfind, hcondition⟩ := mem_select_iff.mp hmem
      have hkey := hothers other row hcondition
      subst hkey
      exact ⟨row, rfl, hfind, hcondition⟩
    rw [hselect] at hall hnodup
    obtain ⟨row, hentry, hfind, hcondition⟩ := hall entry List.mem_cons_self
    refine ⟨row, ?_, hfind, hcondition⟩
    cases rest with
    | nil => rw [hentry]
    | cons second more =>
      obtain ⟨found, hsecond, hfound, -⟩ := hall second (by simp)
      rw [hfind, Option.some.injEq] at hfound
      rw [hentry, hsecond, hfound] at hnodup
      simp at hnodup

/-- Deleting nothing changes nothing. -/
theorem delete_eq_self {table : Table κ ρ} {condition : κ → ρ → Bool}
    (hnone : ∀ key row, table.find key = some row → condition key row = false) :
    table.delete condition = table := by
  have hrows : (table.delete condition).rows = table.rows := by
    refine List.filter_eq_self.mpr ?_
    rintro ⟨key, row⟩ hmem
    rw [hnone key row (mem_rows_iff.mp hmem)]
    rfl
  cases table
  unfold delete at hrows ⊢
  simp only [mk.injEq]
  exact hrows

/-- Writing a row under its key, whether or not there is one. -/
theorem find_upsert_const (table : Table κ ρ) (key : κ) (row : ρ) :
    (table.upsert key row fun _ => row).find = Function.update table.find key (some row) := by
  funext other
  by_cases hsame : key = other
  · subst hsame
    rw [find_upsert_self, Function.update_self]
    cases table.find key <;> rfl
  · rw [find_upsert_of_ne hsame, Function.update_of_ne (Ne.symm hsame)]

theorem find_delete_key [BEq κ] [LawfulBEq κ] (table : Table κ ρ) (key : κ) :
    (table.delete fun other _ => other == key).find = Function.update table.find key none := by
  funext other
  rw [find_delete]
  by_cases hsame : other = key
  · subst hsame
    rw [Function.update_self]
    simp
  · rw [Function.update_of_ne hsame]
    have hother : (other == key) = false := beq_eq_false_iff_ne.mpr hsame
    cases table.find other with
    | none => rfl
    | some found =>
      rw [Option.filter_some, hother]
      rfl

end Table
