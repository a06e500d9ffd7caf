import Krit.Lib.TextSlices
import Mathlib.Data.List.TakeWhile

/-!
# Places of a text in lines and UTF-16 units

A place is a line and the number of UTF-16 units before it on the line.  A line ends with a
line feed, or with a carriage return and a line feed; its content is what comes before.
-/

namespace Utf16

open Utf8

/-- The UTF-16 units of a character: two for one outside the basic plane. -/
def units (char : Char) : ℕ := if char.toNat < 0x10000 then 1 else 2

def length (chars : List Char) : ℕ := (chars.map units).sum

@[simp] theorem length_nil : length [] = 0 := rfl

theorem length_cons (char : Char) (rest : List Char) :
    length (char :: rest) = units char + length rest := by
  unfold length
  rw [List.map_cons, List.sum_cons]

theorem length_append (first second : List Char) :
    length (first ++ second) = length first + length second := by
  unfold length
  rw [List.map_append, List.sum_append]

theorem units_pos (char : Char) : 0 < units char := by
  unfold units
  split <;> decide

theorem count_le_length (target : Char) (chars : List Char) :
    chars.count target ≤ length chars := by
  induction chars with
  | nil => exact le_refl 0
  | cons char rest ih =>
    have hpos := units_pos char
    rw [length_cons, List.count_cons]
    split <;> omega

/-! ## Places -/

@[ext] structure Place where
  line : ℕ
  character : ℕ
  deriving DecidableEq, Repr

namespace Place

/-- Line first, then character. -/
def Before (first second : Place) : Prop :=
  first.line < second.line ∨ (first.line = second.line ∧ first.character < second.character)

theorem Before.trans {first second third : Place} (hfirst : first.Before second)
    (hsecond : second.Before third) : first.Before third := by
  unfold Before at *
  omega

def step (place : Place) (char : Char) : Place :=
  if char = '\n' then ⟨place.line + 1, 0⟩ else ⟨place.line, place.character + units char⟩

theorem before_step (place : Place) (char : Char) : place.Before (place.step char) := by
  have hpos := units_pos char
  unfold step Before
  split <;> dsimp only <;> omega

end Place

/-- The place behind a beginning of a text. -/
def place (before : List Char) : Place := before.foldl Place.step ⟨0, 0⟩

theorem place_append_singleton (before : List Char) (char : Char) :
    place (before ++ [char]) = (place before).step char := by
  unfold place
  rw [List.foldl_append]
  rfl

/-- A longer beginning of a text has a later place. -/
theorem place_before {before more : List Char} (hmore : more ≠ []) :
    (place before).Before (place (before ++ more)) := by
  induction more using List.reverseRecOn with
  | nil => exact absurd rfl hmore
  | append_singleton more char ih =>
    rw [← List.append_assoc, place_append_singleton]
    by_cases hnil : more = []
    · rw [hnil, List.append_nil]
      exact Place.before_step _ char
    · exact (ih hnil).trans (Place.before_step _ char)

theorem place_append {before more : List Char} (hmore : '\n' ∉ more) :
    place (before ++ more) = ⟨(place before).line, (place before).character + length more⟩ := by
  induction more using List.reverseRecOn with
  | nil => rw [List.append_nil, length_nil, Nat.add_zero]
  | append_singleton more char ih =>
    rw [List.mem_append, not_or, List.mem_singleton] at hmore
    rw [← List.append_assoc, place_append_singleton, ih hmore.1, Place.step,
      if_neg fun heq => hmore.2 heq.symm, length_append, length_cons, length_nil, Nat.add_zero,
      Nat.add_assoc]

theorem place_line (before : List Char) : (place before).line = before.count '\n' := by
  induction before using List.reverseRecOn with
  | nil => rfl
  | append_singleton before char ih =>
    rw [place_append_singleton, List.count_append, ← ih, Place.step, List.count_singleton]
    by_cases hend : char = '\n'
    · rw [if_pos hend, hend]
      rfl
    · rw [if_neg hend, if_neg (by simpa using hend)]
      rfl

/-- What comes before a place: the lines before it, and the beginning of its line. -/
theorem split_last_line (before : List Char) :
    ∃ head current, before = head ++ current ∧ '\n' ∉ current ∧
      place head = ⟨(place before).line, 0⟩ ∧ length current = (place before).character := by
  induction before using List.reverseRecOn with
  | nil => exact ⟨[], [], rfl, List.not_mem_nil, rfl, rfl⟩
  | append_singleton before char ih =>
    obtain ⟨head, current, hsplit, hcurrent, hhead, hlength⟩ := ih
    by_cases hend : char = '\n'
    · have hplace : place (before ++ [char]) = ⟨(place before).line + 1, 0⟩ := by
        rw [place_append_singleton, Place.step, if_pos hend]
      rw [hplace]
      exact ⟨before ++ [char], [], (List.append_nil _).symm, List.not_mem_nil, hplace, rfl⟩
    · have hplace : place (before ++ [char]) =
          ⟨(place before).line, (place before).character + units char⟩ := by
        rw [place_append_singleton, Place.step, if_neg hend]
      rw [hplace]
      refine ⟨head, current ++ [char], by rw [hsplit, List.append_assoc], ?_, hhead, ?_⟩
      · rw [List.mem_append, not_or, List.mem_singleton]
        exact ⟨hcurrent, fun heq => hend heq.symm⟩
      · rw [length_append, hlength, length_cons, length_nil, Nat.add_zero]

/-! ## Lines -/

/-- A line of a text: the text before it, its content, and the text from its end. -/
structure IsLine (text : List Char) (line : ℕ) (head content tail : List Char) : Prop where
  text_eq : text = head ++ content ++ tail
  place_head : place head = ⟨line, 0⟩
  not_mem : '\n' ∉ content
  ended : tail = [] ∨ (∃ after, tail = '\n' :: after ∧ content.getLast? ≠ some '\r') ∨
    ∃ after, tail = '\r' :: '\n' :: after

/-- A boundary between the two characters that end a line. -/
def SplitsLineEnd (before after : List Char) : Prop :=
  before.getLast? = some '\r' ∧ after.head? = some '\n'

/-- The beginning of a text up to a line, and the rest, give the line. -/
theorem exists_content {head rest : List Char} {line : ℕ} (hhead : place head = ⟨line, 0⟩) :
    ∃ content tail, rest = content ++ tail ∧ IsLine (head ++ rest) line head content tail := by
  have hsplit := (List.takeWhile_append_dropWhile (p := fun char => char != '\n') (l := rest)).symm
  have hnot : '\n' ∉ rest.takeWhile fun char => char != '\n' := by
    intro hmem
    have hne := List.mem_takeWhile_imp hmem
    simp at hne
  cases hdrop : rest.dropWhile fun char => char != '\n' with
  | nil =>
    rw [hdrop, List.append_nil] at hsplit
    refine ⟨rest, [], (List.append_nil _).symm, ?_, hhead, ?_, Or.inl rfl⟩
    · rw [List.append_nil]
    · rw [hsplit]
      exact hnot
  | cons char after =>
    have hend : char = '\n' := by
      have hhead := List.head?_dropWhile_not (fun char => char != '\n') rest
      rw [hdrop] at hhead
      simpa using hhead
    rw [hdrop, hend] at hsplit
    generalize hcontent : (rest.takeWhile fun char => char != '\n') = whole at hsplit hnot
    rcases List.eq_nil_or_concat whole with hnil | ⟨content, last, hconcat⟩
    · refine ⟨whole, '\n' :: after, hsplit, ?_, hhead, hnot, Or.inr (Or.inl ⟨after, rfl, ?_⟩)⟩
      · rw [hsplit, List.append_assoc]
      · rw [hnil]
        exact fun heq => (by cases heq)
    · by_cases hreturn : last = '\r'
      · have hrest : rest = content ++ '\r' :: '\n' :: after := by
          rw [hsplit, hconcat, hreturn]
          simp
        refine ⟨content, '\r' :: '\n' :: after, hrest, ?_, hhead, ?_, Or.inr (Or.inr ⟨after, rfl⟩)⟩
        · rw [hrest, List.append_assoc]
        · intro hmem
          refine hnot ?_
          rw [hconcat]
          simp [hmem]
      · refine ⟨whole, '\n' :: after, hsplit, ?_, hhead, hnot, Or.inr (Or.inl ⟨after, rfl, ?_⟩)⟩
        · rw [hsplit, List.append_assoc]
        · rw [hconcat]
          simpa using hreturn

/-- The beginning of a line before a boundary is a beginning of the line's content, unless
the boundary is inside the line's end. -/
theorem prefix_content {content tail current after : List Char}
    (hsplit : current ++ after = content ++ tail) (hcurrent : '\n' ∉ current)
    (hended : tail = [] ∨ (∃ after, tail = '\n' :: after ∧ content.getLast? ≠ some '\r') ∨
      ∃ after, tail = '\r' :: '\n' :: after)
    (hinside : ¬ (current.getLast? = some '\r' ∧ after.head? = some '\n')) :
    current <+: content := by
  have hfirst : current <+: content ++ tail := ⟨after, hsplit⟩
  have hsecond : content <+: content ++ tail := ⟨tail, rfl⟩
  rcases List.prefix_or_prefix_of_prefix hfirst hsecond with hprefix | ⟨more, hmore⟩
  · exact hprefix
  · cases more with
    | nil =>
      rw [List.append_nil] at hmore
      rw [hmore]
    | cons char more =>
      rw [← hmore, List.append_assoc, List.append_cancel_left_eq, List.cons_append] at hsplit
      rcases hended with htail | ⟨found, htail, -⟩ | ⟨found, htail⟩
      · rw [htail] at hsplit
        cases hsplit
      · rw [htail] at hsplit
        injection hsplit with hchar
        refine absurd ?_ hcurrent
        rw [← hmore, hchar]
        simp
      · rw [htail] at hsplit
        injection hsplit with hchar hrest
        cases more with
        | nil =>
          refine absurd ⟨?_, ?_⟩ hinside
          · rw [← hmore, hchar]
            simp
          · rw [List.nil_append] at hrest
            rw [hrest]
            rfl
        | cons next more =>
          injection hrest with hnext
          refine absurd ?_ hcurrent
          rw [← hmore, hnext]
          simp

end Utf16
