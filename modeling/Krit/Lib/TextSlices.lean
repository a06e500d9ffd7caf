import Krit.Lib.Utf8Search

/-!
# Slices of a text

A slice between two byte positions, and the replacement of one.  Both panic when a position
is outside the text or inside a character, or when the slice would go backwards.
-/

namespace Utf8

/-- How a computation on texts ends early. -/
inductive Halt (ε : Type) where
  | failed (error : ε)
  | panicked
  deriving DecidableEq

def isBoundary (text : List Char) (index : ℕ) : Bool := (charsFrom text index).isSome

def slice {ε : Type} (text : List Char) (start stop : ℕ) : Except (Halt ε) (List Char) :=
  match charsFrom text start, charsFrom text stop with
  | some first, some rest =>
      if start ≤ stop then .ok (first.take (first.length - rest.length)) else .error .panicked
  | _, _ => .error .panicked

def replaceRange {ε : Type} (text : List Char) (start stop : ℕ) (new : List Char) :
    Except (Halt ε) (List Char) :=
  match charsFrom text start, charsFrom text stop with
  | some first, some rest =>
      if start ≤ stop then .ok (text.take (text.length - first.length) ++ new ++ rest)
      else .error .panicked
  | _, _ => .error .panicked

/-! ## Boundaries -/

theorem charsFrom_eq_some_iff {text rest : List Char} {index : ℕ} :
    charsFrom text index = some rest ↔ ∃ before, text = before ++ rest ∧ index = size before := by
  constructor
  · intro hrest
    induction text generalizing index with
    | nil =>
      cases index with
      | zero =>
        rw [charsFrom] at hrest
        exact ⟨[], Option.some.inj hrest, rfl⟩
      | succ index => cases hrest
    | cons char text ih =>
      cases index with
      | zero =>
        rw [charsFrom] at hrest
        exact ⟨[], Option.some.inj hrest, rfl⟩
      | succ index =>
        rw [charsFrom] at hrest
        split at hrest
        · obtain ⟨before, htext, hindex⟩ := ih hrest
          refine ⟨char :: before, by rw [htext, List.cons_append], ?_⟩
          rw [size_cons, ← hindex]
          omega
        · cases hrest
  · rintro ⟨before, rfl, rfl⟩
    exact charsFrom_size before rest

theorem isBoundary_iff {text : List Char} {index : ℕ} :
    isBoundary text index = true ↔
      ∃ before after, text = before ++ after ∧ index = size before := by
  unfold isBoundary
  rw [Option.isSome_iff_exists]
  constructor
  · rintro ⟨after, hafter⟩
    obtain ⟨before, hbefore⟩ := charsFrom_eq_some_iff.mp hafter
    exact ⟨before, after, hbefore⟩
  · rintro ⟨before, after, hbefore⟩
    exact ⟨after, charsFrom_eq_some_iff.mpr ⟨before, hbefore⟩⟩

theorem isBoundary_size (before after : List Char) :
    isBoundary (before ++ after) (size before) = true :=
  isBoundary_iff.mpr ⟨before, after, rfl, rfl⟩

theorem eq_nil_of_size {chars : List Char} (hsize : size chars = 0) : chars = [] := by
  cases chars with
  | nil => rfl
  | cons char rest =>
    have hpos := length_charBytes_pos char
    rw [size_cons] at hsize
    omega

/-- The shorter of two beginnings of a text is a beginning of the other. -/
theorem prefix_of_size_le {first second text : List Char} (hfirst : first <+: text)
    (hsecond : second <+: text) (hle : size first ≤ size second) : first <+: second := by
  rcases List.prefix_or_prefix_of_prefix hfirst hsecond with hprefix | ⟨more, hmore⟩
  · exact hprefix
  · rw [← hmore, size_append] at hle
    have hnil := @eq_nil_of_size more (by omega)
    rw [hnil, List.append_nil] at hmore
    rw [hmore]

/-- Two boundaries cut a text in three. -/
theorem between_boundaries {text : List Char} {start stop : ℕ}
    (hstart : isBoundary text start = true)
    (hstop : isBoundary text stop = true) (hle : start ≤ stop) :
    ∃ before middle after, text = before ++ middle ++ after ∧ start = size before ∧
      stop = size before + size middle := by
  obtain ⟨before, afterStart, htext, rfl⟩ := isBoundary_iff.mp hstart
  obtain ⟨upto, after, htext', rfl⟩ := isBoundary_iff.mp hstop
  have hbefore : before <+: text := ⟨afterStart, htext.symm⟩
  have hupto : upto <+: text := ⟨after, htext'.symm⟩
  obtain ⟨middle, rfl⟩ := prefix_of_size_le hbefore hupto hle
  exact ⟨before, middle, after, htext', rfl, size_append before middle⟩

/-- A later boundary cuts what follows an earlier one. -/
theorem split_rest {before rest : List Char} {stop : ℕ}
    (hstop : isBoundary (before ++ rest) stop = true) (hle : size before ≤ stop) :
    ∃ middle after, rest = middle ++ after ∧ stop = size before + size middle := by
  obtain ⟨upto, after, htext, rfl⟩ := isBoundary_iff.mp hstop
  obtain ⟨middle, rfl⟩ := prefix_of_size_le ⟨rest, rfl⟩ ⟨after, htext.symm⟩ hle
  rw [List.append_assoc, List.append_cancel_left_eq] at htext
  exact ⟨middle, after, htext, size_append before middle⟩

theorem size_le_of_isBoundary {text : List Char} {index : ℕ}
    (hindex : isBoundary text index = true) :
    index ≤ size text := by
  obtain ⟨before, after, rfl, rfl⟩ := isBoundary_iff.mp hindex
  rw [size_append]
  exact Nat.le_add_right _ _

/-! ## Slicing and replacing -/

theorem slice_append {ε : Type} (before middle after : List Char) :
    slice (before ++ middle ++ after) (size before) (size before + size middle) =
      (.ok middle : Except (Halt ε) (List Char)) := by
  have hfirst : charsFrom (before ++ middle ++ after) (size before) = some (middle ++ after) :=
    charsFrom_eq_some_iff.mpr ⟨before, List.append_assoc _ _ _, rfl⟩
  have hrest : charsFrom (before ++ middle ++ after) (size before + size middle) = some after :=
    charsFrom_eq_some_iff.mpr ⟨before ++ middle, rfl, (size_append before middle).symm⟩
  unfold slice
  rw [hfirst, hrest]
  dsimp only
  rw [if_pos (Nat.le_add_right _ _), List.length_append, Nat.add_sub_cancel]
  exact congrArg Except.ok List.take_left

theorem replaceRange_append {ε : Type} (before middle after new : List Char) :
    replaceRange (before ++ middle ++ after) (size before) (size before + size middle) new =
      (.ok (before ++ new ++ after) : Except (Halt ε) (List Char)) := by
  have hfirst : charsFrom (before ++ middle ++ after) (size before) = some (middle ++ after) :=
    charsFrom_eq_some_iff.mpr ⟨before, List.append_assoc _ _ _, rfl⟩
  have hrest : charsFrom (before ++ middle ++ after) (size before + size middle) = some after :=
    charsFrom_eq_some_iff.mpr ⟨before ++ middle, rfl, (size_append before middle).symm⟩
  unfold replaceRange
  rw [hfirst, hrest]
  dsimp only
  rw [if_pos (Nat.le_add_right _ _), List.append_assoc before middle, List.length_append,
    Nat.add_sub_cancel, List.take_left]

end Utf8
