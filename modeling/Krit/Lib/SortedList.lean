import Mathlib.Tactic
import Mathlib.Data.List.Sort

/-!
# Sorted lists as sets

Lists that are sorted, and those that are sorted and hold nothing twice.  A list of the
second kind is determined by its members.
-/

namespace SortedList

variable {α : Type} [LinearOrder α]

/-- The list in ascending order. -/
def sort (values : List α) : List α := values.insertionSort (· ≤ ·)

/-- Drops every value that equals the next one. -/
def dedup : List α → List α
  | first :: second :: rest =>
      if first = second then dedup (second :: rest) else first :: dedup (second :: rest)
  | values => values

/-- Whether every value is below the next one. -/
def sortedUnique : List α → Bool
  | first :: second :: rest => decide (first < second) && sortedUnique (second :: rest)
  | _ => true

@[simp] theorem mem_sort {values : List α} {value : α} : value ∈ sort values ↔ value ∈ values :=
  List.mem_insertionSort _

theorem sort_perm (values : List α) : (sort values).Perm values :=
  List.perm_insertionSort _ values

theorem pairwise_sort (values : List α) : (sort values).Pairwise (· ≤ ·) :=
  List.pairwise_insertionSort _ values

theorem pairwise_sort_of_nodup {values : List α} (hnodup : values.Nodup) :
    (sort values).Pairwise (· < ·) := by
  have hsorted := pairwise_sort values
  have hdistinct : (sort values).Nodup := (sort_perm values).nodup_iff.mpr hnodup
  refine List.Pairwise.imp ?_ (hsorted.and hdistinct)
  intro first second hboth
  exact lt_of_le_of_ne hboth.1 hboth.2

@[simp] theorem mem_dedup {values : List α} {value : α} :
    value ∈ dedup values ↔ value ∈ values := by
  induction values using dedup.induct with
  | case1 first rest ih =>
    rw [dedup, if_pos rfl, ih]
    simp
  | case2 first second rest hne ih =>
    rw [dedup, if_neg hne, List.mem_cons, ih, List.mem_cons (l := second :: rest)]
  | case3 values hshort =>
    rw [dedup]
    exact hshort

theorem pairwise_dedup {values : List α} (hsorted : values.Pairwise (· ≤ ·)) :
    (dedup values).Pairwise (· < ·) := by
  induction values using dedup.induct with
  | case1 first rest ih =>
    rw [dedup, if_pos rfl]
    exact ih (List.pairwise_cons.mp hsorted).2
  | case2 first second rest hne ih =>
    obtain ⟨hfirst, hrest⟩ := List.pairwise_cons.mp hsorted
    rw [dedup, if_neg hne]
    refine List.pairwise_cons.mpr ⟨?_, ih hrest⟩
    intro value hvalue
    rw [mem_dedup] at hvalue
    have hless : first < second := lt_of_le_of_ne (hfirst second (by simp)) hne
    rcases List.mem_cons.mp hvalue with heq | hlater
    · rw [heq]
      exact hless
    · exact hless.trans_le ((List.pairwise_cons.mp hrest).1 value hlater)
  | case3 values hshort =>
    rw [dedup]
    · match values, hshort with
      | [], _ => exact List.Pairwise.nil
      | [single], _ => exact List.pairwise_singleton _ _
      | first :: second :: rest, hshort => exact absurd rfl (hshort first second rest)
    · exact hshort

theorem sortedUnique_iff {values : List α} :
    sortedUnique values = true ↔ values.Pairwise (· < ·) := by
  induction values using sortedUnique.induct with
  | case1 first second rest ih =>
    rw [sortedUnique, Bool.and_eq_true, decide_eq_true_eq, ih]
    constructor
    · rintro ⟨hless, hrest⟩
      refine List.pairwise_cons.mpr ⟨?_, hrest⟩
      intro value hvalue
      rcases List.mem_cons.mp hvalue with heq | hlater
      · rw [heq]
        exact hless
      · exact hless.trans ((List.pairwise_cons.mp hrest).1 value hlater)
    · intro hsorted
      obtain ⟨hfirst, hrest⟩ := List.pairwise_cons.mp hsorted
      exact ⟨hfirst second (by simp), hrest⟩
  | case2 values hshort =>
    match values, hshort with
    | [], _ => simp [sortedUnique]
    | [single], _ => simp [sortedUnique]
    | first :: second :: rest, hshort => exact absurd rfl (hshort first second rest)

/-- Lists that are sorted without repetitions are equal if they have the same members. -/
theorem eq_of_mem_iff {left right : List α} (hleft : left.Pairwise (· < ·))
    (hright : right.Pairwise (· < ·)) (hmem : ∀ value, value ∈ left ↔ value ∈ right) :
    left = right := by
  have hleftNodup : left.Nodup := hleft.imp (fun hless => ne_of_lt hless)
  have hrightNodup : right.Nodup := hright.imp (fun hless => ne_of_lt hless)
  have hperm : left.Perm right := (List.perm_ext_iff_of_nodup hleftNodup hrightNodup).mpr hmem
  exact hperm.eq_of_pairwise' hleft hright

theorem sort_eq_self {values : List α} (hsorted : values.Pairwise (· < ·)) :
    sort values = values := by
  have hnodup : values.Nodup := hsorted.imp (fun hless => ne_of_lt hless)
  exact eq_of_mem_iff (pairwise_sort_of_nodup hnodup) hsorted (fun _ => mem_sort)

end SortedList
