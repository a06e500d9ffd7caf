import Mathlib.Tactic
import Mathlib.Data.List.Perm.Basic

/-!
# Sums over ordered maps

The total of a weight over the entries of an ordered map, and how inserting and
erasing change it.  A total depends only on what the map holds under each key.
-/

namespace TreeTotal

open Std

variable {κ α : Type} [Ord κ] [TransOrd κ] [LawfulEqOrd κ]

def total (weight : κ → α → ℕ) (tree : TreeMap κ α) : ℕ :=
  (tree.toList.map fun entry => weight entry.1 entry.2).sum

theorem nodup_toList (tree : TreeMap κ α) : tree.toList.Nodup := by
  refine TreeMap.ordered_keys_toList.imp ?_
  intro left right hlt heq
  rw [heq, ReflOrd.compare_self] at hlt
  cases hlt

theorem perm_of_getElem_eq {left right : TreeMap κ α}
    (hsame : ∀ key : κ, left[key]? = right[key]?) :
    left.toList.Perm right.toList := by
  rw [List.perm_ext_iff_of_nodup (nodup_toList left) (nodup_toList right)]
  rintro ⟨key, value⟩
  rw [TreeMap.mem_toList_iff_getElem?_eq_some, TreeMap.mem_toList_iff_getElem?_eq_some, hsame]

theorem total_congr (weight : κ → α → ℕ) {left right : TreeMap κ α}
    (hsame : ∀ key : κ, left[key]? = right[key]?) : total weight left = total weight right :=
  ((perm_of_getElem_eq hsame).map _).sum_eq

theorem getElem?_insert_self (tree : TreeMap κ α) (key : κ) (value : α) :
    (tree.insert key value)[key]? = some value := by
  rw [TreeMap.getElem?_insert, if_pos ReflOrd.compare_self]

theorem getElem?_insert_of_ne (tree : TreeMap κ α) {key other : κ} (hne : key ≠ other)
    (value : α) : (tree.insert key value)[other]? = tree[other]? := by
  rw [TreeMap.getElem?_insert, if_neg (by simpa using hne)]

theorem getElem?_erase_self (tree : TreeMap κ α) (key : κ) : (tree.erase key)[key]? = none := by
  rw [TreeMap.getElem?_erase, if_pos ReflOrd.compare_self]

theorem getElem?_erase_of_ne (tree : TreeMap κ α) {key other : κ} (hne : key ≠ other) :
    (tree.erase key)[other]? = tree[other]? := by
  rw [TreeMap.getElem?_erase, if_neg (by simpa using hne)]

theorem total_erase (weight : κ → α → ℕ) {tree : TreeMap κ α} {key : κ} {value : α}
    (hvalue : tree[key]? = some value) :
    total weight tree = weight key value + total weight (tree.erase key) := by
  have hperm : tree.toList.Perm ((key, value) :: (tree.erase key).toList) := by
    have hnotMem : (key, value) ∉ (tree.erase key).toList := by
      rw [TreeMap.mem_toList_iff_getElem?_eq_some, getElem?_erase_self]
      simp
    rw [List.perm_ext_iff_of_nodup (nodup_toList tree)
      (List.nodup_cons.mpr ⟨hnotMem, nodup_toList _⟩)]
    rintro ⟨other, found⟩
    rw [List.mem_cons, TreeMap.mem_toList_iff_getElem?_eq_some,
      TreeMap.mem_toList_iff_getElem?_eq_some, Prod.mk.injEq]
    by_cases hkey : key = other
    · subst hkey
      rw [getElem?_erase_self, hvalue]
      simp [eq_comm]
    · rw [getElem?_erase_of_ne _ hkey]
      simp [Ne.symm hkey]
  unfold total
  rw [(hperm.map _).sum_eq, List.map_cons, List.sum_cons]

/-- Inserting adds the weight of the new value to what is left without its key. -/
theorem total_insert (weight : κ → α → ℕ) (tree : TreeMap κ α) (key : κ) (value : α) :
    total weight (tree.insert key value) = weight key value + total weight (tree.erase key) := by
  rw [total_erase weight (getElem?_insert_self tree key value)]
  congr 1
  apply total_congr
  intro other
  by_cases hkey : key = other
  · subst hkey
    rw [getElem?_erase_self, getElem?_erase_self]
  · rw [getElem?_erase_of_ne _ hkey, getElem?_erase_of_ne _ hkey, getElem?_insert_of_ne _ hkey]

theorem total_insert_new (weight : κ → α → ℕ) {tree : TreeMap κ α} {key : κ}
    (hnew : tree[key]? = none) (value : α) :
    total weight (tree.insert key value) = weight key value + total weight tree := by
  rw [total_insert]
  congr 1
  apply total_congr
  intro other
  by_cases hkey : key = other
  · subst hkey
    rw [getElem?_erase_self, hnew]
  · rw [getElem?_erase_of_ne _ hkey]

theorem total_insert_old (weight : κ → α → ℕ) {tree : TreeMap κ α} {key : κ} {old : α}
    (hold : tree[key]? = some old) (value : α) :
    total weight (tree.insert key value) + weight key old =
      total weight tree + weight key value := by
  rw [total_insert, total_erase weight hold]
  omega

theorem total_map {β : Type} (weight : κ → β → ℕ) (tree : TreeMap κ α) (f : κ → α → β)
    (hzero : ∀ key value, weight key (f key value) = 0) : total weight (tree.map f) = 0 := by
  unfold total
  rw [List.sum_eq_zero]
  intro number hnumber
  obtain ⟨⟨key, value⟩, hentry, hweight⟩ := List.mem_map.mp hnumber
  rw [TreeMap.mem_toList_iff_getElem?_eq_some, TreeMap.getElem?_map] at hentry
  obtain ⟨old, -, hold⟩ := Option.map_eq_some_iff.mp hentry
  rw [← hweight, ← hold]
  exact hzero key old

omit [TransOrd κ] [LawfulEqOrd κ] in
/-- Dropping entries does not increase a total. -/
theorem total_filter_le (weight : κ → α → ℕ) (tree : TreeMap κ α) (keep : κ → α → Bool) :
    total weight (tree.filter keep) ≤ total weight tree := by
  unfold total
  rw [TreeMap.toList_filter]
  refine List.Sublist.sum_le_sum (List.filter_sublist.map _) ?_
  intro number _
  exact Nat.zero_le number

/-- The weight of an entry is part of the total. -/
theorem weight_le_total (weight : κ → α → ℕ) {tree : TreeMap κ α} {key : κ} {value : α}
    (hvalue : tree[key]? = some value) : weight key value ≤ total weight tree := by
  rw [total_erase weight hvalue]
  omega

omit [TransOrd κ] [LawfulEqOrd κ] in
theorem total_one_eq_size (tree : TreeMap κ α) : total (fun _ _ => 1) tree = tree.size := by
  unfold total
  rw [← TreeMap.length_toList]
  simp

end TreeTotal
