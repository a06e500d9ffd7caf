import Mathlib.Tactic

/-!
# Trimming a list from the front

Elements are dropped from the front of a list, one after another, until what is left is
accepted.  What is dropped is the shortest beginning whose removal is enough.
-/

namespace Trim

variable {α : Type} {accepts : List α → Prop} {all dropped : List α}

/-- The shortest beginning of a list without which the list is accepted. -/
def Shortest (accepts : List α → Prop) (all dropped : List α) : Prop :=
  ∃ rest, all = dropped ++ rest ∧ accepts rest ∧
    ∀ shorter more, all = shorter ++ more → shorter.length < dropped.length → ¬ accepts more

theorem shortest_nil (haccepts : accepts all) : Shortest accepts all [] := by
  refine ⟨all, rfl, haccepts, ?_⟩
  intro shorter more _ hlength
  exact absurd hlength (Nat.not_lt_zero _)

theorem Shortest.cons {first : α} (hrefused : ¬ accepts (first :: all))
    (hrest : Shortest accepts all dropped) :
    Shortest accepts (first :: all) (first :: dropped) := by
  obtain ⟨rest, hall, haccepts, hshortest⟩ := hrest
  refine ⟨rest, by rw [hall, List.cons_append], haccepts, ?_⟩
  intro shorter more hsplit hlength
  cases shorter with
  | nil =>
    rw [List.nil_append] at hsplit
    rw [← hsplit]
    exact hrefused
  | cons other shorter =>
    rw [List.cons_append, List.cons.injEq] at hsplit
    exact hshortest shorter more hsplit.2 (by simpa using hlength)

/-- Nothing is dropped from a list that is accepted. -/
theorem Shortest.eq_nil (hshortest : Shortest accepts all dropped) (haccepts : accepts all) :
    dropped = [] := by
  obtain ⟨rest, -, -, hminimal⟩ := hshortest
  cases dropped with
  | nil => rfl
  | cons first dropped => exact absurd haccepts (hminimal [] all rfl (Nat.succ_pos _))

/-- In an ordered list, what comes before a dropped element is dropped too. -/
theorem Shortest.mem_of_before {before : α → α → Prop}
    (hasymm : ∀ first second, before first second → ¬ before second first)
    (hordered : all.Pairwise before) (hshortest : Shortest accepts all dropped)
    {first second : α} (hfirst : first ∈ all) (hsecond : second ∈ dropped)
    (hbefore : before first second) : first ∈ dropped := by
  obtain ⟨rest, hall, -⟩ := hshortest
  rw [hall] at hfirst hordered
  rcases List.mem_append.mp hfirst with hdropped | hrest
  · exact hdropped
  · have hafter := (List.pairwise_append.mp hordered).2.2 second hsecond first hrest
    exact absurd hbefore (hasymm second first hafter)

end Trim
