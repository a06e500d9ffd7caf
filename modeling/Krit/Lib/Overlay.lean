import Mathlib.Tactic

/-!
# Overlays

Writes that are staged in an ordered map, over a base that is a function of the key.
Writing the entries of the map one after another into the base gives the overlay,
in whatever order the entries come.
-/

namespace Overlay

open Std

variable {κ α β : Type}

/-- The base with the entries written one after another. -/
def write [DecidableEq κ] (value : α → β) (base : κ → β) (entries : List (κ × α)) : κ → β :=
  entries.foldl (fun found entry => Function.update found entry.1 (value entry.2)) base

section List

variable [DecidableEq κ] {value : α → β} {base : κ → β} {entries : List (κ × α)}

theorem write_of_not_mem {key : κ} (hkey : key ∉ entries.map Prod.fst) :
    write value base entries key = base key := by
  unfold write
  induction entries generalizing base with
  | nil => rfl
  | cons entry rest ih =>
    rw [List.map_cons, List.mem_cons, not_or] at hkey
    rw [List.foldl_cons, ih hkey.2, Function.update_of_ne hkey.1]

theorem write_of_mem {key : κ} {found : α} (hnodup : (entries.map Prod.fst).Nodup)
    (hentry : (key, found) ∈ entries) : write value base entries key = value found := by
  unfold write
  induction entries generalizing base with
  | nil => cases hentry
  | cons entry rest ih =>
    rw [List.map_cons, List.nodup_cons] at hnodup
    rw [List.foldl_cons]
    rcases List.mem_cons.mp hentry with heq | hrest
    · rw [← heq] at hnodup ⊢
      have hlast : write value (Function.update base key (value found)) rest key =
          Function.update base key (value found) key := write_of_not_mem hnodup.1
      unfold write at hlast
      rw [hlast, Function.update_self]
    · exact ih hnodup.2 hrest

end List

section Tree

variable {cmp : κ → κ → Ordering} [TransCmp cmp] [LawfulEqCmp cmp]

theorem nodup_keys (tree : TreeMap κ α cmp) : (tree.toList.map Prod.fst).Nodup := by
  rw [List.nodup_map_iff_inj_on]
  · intro left hleft right hright hkey
    obtain ⟨key, found⟩ := left
    obtain ⟨other, value⟩ := right
    simp only at hkey
    subst hkey
    rw [TreeMap.mem_toList_iff_getElem?_eq_some] at hleft hright
    rw [hleft, Option.some.injEq] at hright
    rw [hright]
  · refine TreeMap.distinct_keys_toList.imp ?_
    intro left right hne heq
    rw [heq] at hne
    exact hne ReflCmp.compare_self

/-- The value that is staged under a key, or the one of the base. -/
theorem write_toList [DecidableEq κ] (value : α → β) (base : κ → β) (tree : TreeMap κ α cmp)
    (key : κ) : write value base tree.toList key = (tree[key]?).elim (base key) value := by
  cases hfind : tree[key]? with
  | some found =>
    exact write_of_mem (nodup_keys tree) (TreeMap.mem_toList_iff_getElem?_eq_some.mpr hfind)
  | none =>
    refine write_of_not_mem ?_
    intro hmem
    obtain ⟨⟨other, found⟩, hentry, hkey⟩ := List.mem_map.mp hmem
    simp only at hkey
    subst hkey
    rw [TreeMap.mem_toList_iff_getElem?_eq_some, hfind] at hentry
    cases hentry

/-- Staging a value under a key changes the overlay there and nowhere else. -/
theorem elim_insert [DecidableEq κ] (value : α → β) (base : κ → β) (tree : TreeMap κ α cmp)
    (key : κ) (entry : α) :
    (fun other => ((tree.insert key entry)[other]?).elim (base other) value) =
      Function.update (fun other => (tree[other]?).elim (base other) value) key (value entry) := by
  funext other
  by_cases hsame : other = key
  · subst hsame
    rw [Function.update_self, TreeMap.getElem?_insert_self, Option.elim_some]
  · have hne : ¬ cmp key other = .eq := fun heq => hsame (LawfulEqCmp.eq_of_compare heq).symm
    rw [Function.update_of_ne hsame, TreeMap.getElem?_insert, if_neg hne]

end Tree

end Overlay
