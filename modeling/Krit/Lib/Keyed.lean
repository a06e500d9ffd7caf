import Mathlib.Tactic
import Mathlib.Data.List.Nodup
import Mathlib.Data.List.Sort
import Mathlib.Data.List.Lookmap

/-!
# Association lists

Lists of key-value pairs whose keys are distinct.  Two lists of one length, one
of whose entries all occur in the other, agree once they are ordered by key.
-/

namespace Keyed

variable {κ α β : Type}

/-- The first value stored under a key. -/
def find [DecidableEq κ] (key : κ) : List (κ × α) → Option α
  | [] => none
  | (name, value) :: rest => if name = key then some value else find key rest

section Find

variable [DecidableEq κ]

@[simp] theorem find_nil (key : κ) : find key ([] : List (κ × α)) = none := rfl

@[simp] theorem find_cons_self (key : κ) (value : α) (rest : List (κ × α)) :
    find key ((key, value) :: rest) = some value := by
  simp [find]

theorem find_cons_of_ne {key name : κ} (hne : name ≠ key) (value : α)
    (rest : List (κ × α)) :
    find key ((name, value) :: rest) = find key rest := by
  simp [find, hne]

theorem mem_of_find {key : κ} {value : α} {entries : List (κ × α)}
    (hfind : find key entries = some value) :
    (key, value) ∈ entries := by
  induction entries with
  | nil => simp at hfind
  | cons entry rest ih =>
      obtain ⟨name, stored⟩ := entry
      by_cases hname : name = key
      · subst hname
        rw [find_cons_self, Option.some.injEq] at hfind
        subst hfind
        exact List.mem_cons_self
      · rw [find_cons_of_ne hname] at hfind
        exact List.mem_cons_of_mem _ (ih hfind)

theorem find_eq_none_iff {key : κ} {entries : List (κ × α)} :
    find key entries = none ↔ key ∉ entries.map Prod.fst := by
  induction entries with
  | nil => simp
  | cons entry rest ih =>
      obtain ⟨name, stored⟩ := entry
      by_cases hname : name = key
      · simp [hname]
      · rw [find_cons_of_ne hname, ih]
        simp [Ne.symm hname]

theorem find_isSome_of_mem_keys {key : κ} {entries : List (κ × α)}
    (hkey : key ∈ entries.map Prod.fst) :
    ∃ value, find key entries = some value := by
  cases hfind : find key entries with
  | none => exact absurd hkey (find_eq_none_iff.mp hfind)
  | some value => exact ⟨value, rfl⟩

theorem find_of_mem {key : κ} {value : α} {entries : List (κ × α)}
    (hnodup : (entries.map Prod.fst).Nodup) (hmem : (key, value) ∈ entries) :
    find key entries = some value := by
  induction entries with
  | nil => simp at hmem
  | cons entry rest ih =>
      obtain ⟨name, stored⟩ := entry
      rw [List.map_cons, List.nodup_cons] at hnodup
      rcases List.mem_cons.mp hmem with heq | hrest
      · obtain ⟨rfl, rfl⟩ := Prod.mk.injEq .. ▸ heq
        exact find_cons_self _ _ _
      · have hne : name ≠ key := by
          rintro rfl
          exact hnodup.1 (List.mem_map.mpr ⟨(name, value), hrest, rfl⟩)
        rw [find_cons_of_ne hne]
        exact ih hnodup.2 hrest

/-- Changing the values, each with its key. -/
theorem find_map_entry (key : κ) (f : κ → α → β) (entries : List (κ × α)) :
    find key (entries.map fun entry => (entry.1, f entry.1 entry.2)) =
      (find key entries).map (f key) := by
  induction entries with
  | nil => rfl
  | cons entry rest ih =>
      obtain ⟨name, stored⟩ := entry
      by_cases hname : name = key
      · subst hname
        simp
      · simp only [List.map_cons, find_cons_of_ne hname, ih]

end Find

/-- A duplicate-free list whose members all occur in a list of the same length
has every member of that list. -/
theorem subset_of_nodup_of_length {keys names : List κ}
    (hnodup : keys.Nodup) (hsubset : keys ⊆ names)
    (hlength : keys.length = names.length) :
    names ⊆ keys := by
  classical
  exact (hnodup.subperm hsubset).perm_of_length_le hlength.ge |>.symm.subset

theorem forall₂_mem_right {r : α → β → Prop} {left : List α} {right : List β}
    (hrelated : List.Forall₂ r left right) {value : β} (hvalue : value ∈ right) :
    ∃ other ∈ left, r other value := by
  induction hrelated with
  | nil => simp at hvalue
  | @cons first second lefts rights hfirst _ ih =>
      rcases List.mem_cons.mp hvalue with rfl | hmem
      · exact ⟨first, List.mem_cons_self, hfirst⟩
      · obtain ⟨other, hother, hr⟩ := ih hmem
        exact ⟨other, List.mem_cons_of_mem _ hother, hr⟩

theorem forall₂_imp_mem {r s : α → β → Prop} {left : List α} {right : List β}
    (hrelated : List.Forall₂ r left right)
    (himp : ∀ first ∈ left, ∀ second, r first second → s first second) :
    List.Forall₂ s left right := by
  induction hrelated with
  | nil => exact .nil
  | cons hfirst _ ih =>
      exact .cons (himp _ List.mem_cons_self _ hfirst)
        (ih fun first hmem => himp first (List.mem_cons_of_mem _ hmem))

/-- In a duplicate-free list only one element contributes. -/
theorem map_eq_map_of_zip (f : α → β) {left right : List α}
    (hlength : left.length = right.length)
    (hall : ∀ pair ∈ left.zip right, f pair.1 = f pair.2) : left.map f = right.map f := by
  rw [← List.forall₂_eq_eq_eq, List.forall₂_map_left_iff, List.forall₂_map_right_iff]
  exact List.forall₂_iff_zip.mpr ⟨hlength, fun hpair => hall _ hpair⟩

theorem flatMap_eq_of_unique {contribute : α → List β} {elements : List α} {element : α}
    (hnodup : elements.Nodup) (helement : element ∈ elements)
    (hothers : ∀ other ∈ elements, other ≠ element → contribute other = []) :
    elements.flatMap contribute = contribute element := by
  induction elements with
  | nil => simp at helement
  | cons first rest ih =>
      rw [List.nodup_cons] at hnodup
      rw [List.flatMap_cons]
      by_cases heq : first = element
      · subst heq
        have hrest : rest.flatMap contribute = [] := by
          rw [List.flatMap_eq_nil_iff]
          intro other hother
          apply hothers other (List.mem_cons_of_mem _ hother)
          rintro rfl
          exact hnodup.1 hother
        rw [hrest, List.append_nil]
      · have hmem : element ∈ rest := by simpa [Ne.symm heq] using helement
        rw [hothers first List.mem_cons_self heq, List.nil_append]
        exact ih hnodup.2 hmem fun other hother =>
          hothers other (List.mem_cons_of_mem _ hother)

/-- An element whose key is unique splits its list in one way. -/
theorem split_unique {key : α → κ} {before after first last : List α} {element other : α}
    (hnodup : ((before ++ element :: after).map key).Nodup)
    (hsplit : before ++ element :: after = first ++ other :: last)
    (hkey : key element = key other) : after = last := by
  induction before generalizing first with
  | nil =>
    cases first with
    | nil =>
      rw [List.nil_append, List.nil_append, List.cons.injEq] at hsplit
      exact hsplit.2
    | cons head first =>
      rw [List.nil_append, List.cons_append, List.cons.injEq] at hsplit
      rw [List.nil_append, List.map_cons, List.nodup_cons, hsplit.2] at hnodup
      exact absurd (List.mem_map.mpr ⟨other, by simp, hkey.symm⟩) hnodup.1
  | cons head before ih =>
    rw [List.cons_append] at hsplit hnodup
    rw [List.map_cons, List.nodup_cons] at hnodup
    cases first with
    | nil =>
      rw [List.nil_append, List.cons.injEq] at hsplit
      have hmem : key head ∈ (before ++ element :: after).map key := by
        rw [hsplit.1, ← hkey]
        exact List.mem_map.mpr ⟨element, by simp, rfl⟩
      exact absurd hmem hnodup.1
    | cons _ first =>
      rw [List.cons_append, List.cons.injEq] at hsplit
      exact ih hnodup.2 hsplit.2

/-! ## Ordering by key -/

section ByKey

variable [LinearOrder κ]

/-- The entries in the order of their keys. -/
def sortByKey (entries : List (κ × α)) : List (κ × α) :=
  entries.insertionSort fun left right => left.1 ≤ right.1

theorem sortByKey_perm (entries : List (κ × α)) : (sortByKey entries).Perm entries :=
  List.perm_insertionSort _ entries

@[simp] theorem mem_sortByKey {entry : κ × α} {entries : List (κ × α)} :
    entry ∈ sortByKey entries ↔ entry ∈ entries :=
  (sortByKey_perm entries).mem_iff

theorem sortByKey_pairwise (entries : List (κ × α)) :
    (sortByKey entries).Pairwise fun left right => left.1 ≤ right.1 :=
  haveI : Std.Total fun left right : κ × α => left.1 ≤ right.1 :=
    ⟨fun left right => le_total left.1 right.1⟩
  haveI : IsTrans (κ × α) fun left right => left.1 ≤ right.1 :=
    ⟨fun _ _ _ => le_trans⟩
  List.pairwise_insertionSort _ entries

theorem sortByKey_of_pairwise {entries : List (κ × α)}
    (hsorted : entries.Pairwise fun left right => left.1 ≤ right.1) :
    sortByKey entries = entries :=
  hsorted.insertionSort_eq

@[simp] theorem sortByKey_sortByKey (entries : List (κ × α)) :
    sortByKey (sortByKey entries) = sortByKey entries :=
  sortByKey_of_pairwise (sortByKey_pairwise entries)

/-- Ordering by key commutes with a change of the values. -/
theorem sortByKey_map (f : α → β) (entries : List (κ × α)) :
    sortByKey (entries.map fun entry => (entry.1, f entry.2)) =
      (sortByKey entries).map fun entry => (entry.1, f entry.2) := by
  symm
  apply List.map_insertionSort
  intro left _ right _
  rfl

/-- Distinct keys leave one order: the entries decide it. -/
theorem sortByKey_eq_of_subset {left right : List (κ × α)}
    (hdistinct : (left.map Prod.fst).Nodup) (hsubset : left ⊆ right)
    (hlength : left.length = right.length) : sortByKey left = sortByKey right := by
  classical
  have hperm : left.Perm right :=
    (hdistinct.of_map.subperm hsubset).perm_of_length_le hlength.ge
  have hsorted : (sortByKey left).Perm (sortByKey right) :=
    (sortByKey_perm left).trans (hperm.trans (sortByKey_perm right).symm)
  refine hsorted.eq_of_pairwise ?_ (sortByKey_pairwise left) (sortByKey_pairwise right)
  intro first second hfirst hsecond hle hge
  have hsecond : second ∈ left := hperm.mem_iff.mpr (mem_sortByKey.mp hsecond)
  exact List.inj_on_of_nodup_map hdistinct (mem_sortByKey.mp hfirst) hsecond (le_antisymm hle hge)

end ByKey

end Keyed
