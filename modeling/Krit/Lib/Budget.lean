import Mathlib.Tactic

/-!
# Writing within a budget

A text is written piece by piece.  A piece is checked before it is written: the text with
the piece and some reserved room must fit a budget.  A piece may also be refused for reasons
of its own.  What has been written fits the budget at every time, and everything is written
if and only if nothing is refused and all of it fits.
-/

namespace Budget

section Pieces

variable (budget reserved : ℕ)

/-- A piece of text; `none` is refused. -/
abbrev Piece := Option String

def fits (buffer : String) (additional : ℕ) : Bool :=
  buffer.utf8ByteSize + additional + reserved ≤ budget

def push (buffer : String) (piece : Piece) : Option String := do
  let text ← piece
  if fits budget reserved buffer text.utf8ByteSize then some (buffer ++ text) else none

def write (buffer : String) (pieces : List Piece) : Option String :=
  pieces.foldlM (push budget reserved) buffer

@[simp] theorem write_nil (buffer : String) : write budget reserved buffer [] = some buffer := rfl

theorem write_append (buffer : String) (first second : List Piece) :
    write budget reserved buffer (first ++ second) =
      (write budget reserved buffer first).bind fun middle =>
        write budget reserved middle second :=
  List.foldlM_append

end Pieces

/-- The text of pieces that are not refused. -/
def text (pieces : List Piece) : String :=
  String.ofList (pieces.flatMap fun piece => (piece.getD "").toList)

@[simp] theorem text_nil : text [] = "" := rfl

theorem text_cons (piece : Piece) (rest : List Piece) :
    text (piece :: rest) = piece.getD "" ++ text rest := by
  unfold text
  rw [List.flatMap_cons, String.ofList_append, String.ofList_toList]

section Bounds

variable {budget reserved : ℕ}

theorem push_eq_some_iff {buffer later : String} {piece : Piece} :
    push budget reserved buffer piece = some later ↔
      ∃ text, piece = some text ∧ buffer.utf8ByteSize + text.utf8ByteSize + reserved ≤ budget ∧
        later = buffer ++ text := by
  unfold push fits
  cases piece with
  | none => simp
  | some text =>
    simp only [Option.bind_eq_bind, Option.bind_some, Option.some.injEq, exists_eq_left',
      decide_eq_true_eq]
    split_ifs with hfits
    · simp [hfits, eq_comm]
    · simp [hfits]

/-- Whatever has been written fits the budget with the reserved room. -/
theorem size_le_of_write {pieces : List Piece} {buffer later : String}
    (hwrite : write budget reserved buffer pieces = some later) (hpieces : pieces ≠ []) :
    later.utf8ByteSize + reserved ≤ budget := by
  induction pieces generalizing buffer with
  | nil => exact absurd rfl hpieces
  | cons piece rest ih =>
    unfold write at hwrite ih
    rw [List.foldlM_cons] at hwrite
    obtain ⟨middle, hpush, hrest⟩ := Option.bind_eq_some_iff.mp hwrite
    by_cases hnil : rest = []
    · rw [hnil] at hrest
      obtain ⟨added, -, hle, hmiddle⟩ := push_eq_some_iff.mp hpush
      rw [← Option.some.inj hrest, hmiddle, String.utf8ByteSize_append]
      exact hle
    · exact ih hrest hnil

/-- What is written is the text of the pieces, and none of them is refused. -/
theorem text_of_write {pieces : List Piece} {buffer later : String}
    (hwrite : write budget reserved buffer pieces = some later) :
    (∀ piece ∈ pieces, piece.isSome) ∧ later = buffer ++ text pieces := by
  induction pieces generalizing buffer with
  | nil =>
    rw [write_nil, Option.some.injEq] at hwrite
    rw [hwrite, text_nil, String.append_empty]
    exact ⟨fun piece hpiece => (by cases hpiece), rfl⟩
  | cons piece rest ih =>
    unfold write at hwrite ih
    rw [List.foldlM_cons] at hwrite
    obtain ⟨middle, hpush, hrest⟩ := Option.bind_eq_some_iff.mp hwrite
    obtain ⟨added, hsome, -, hmiddle⟩ := push_eq_some_iff.mp hpush
    obtain ⟨hnone, hlater⟩ := ih hrest
    refine ⟨List.forall_mem_cons.mpr ⟨by rw [hsome]; rfl, hnone⟩, ?_⟩
    rw [hlater, hmiddle, text_cons, hsome, Option.getD_some, String.append_assoc]

/-- What fits as a whole fits piece by piece. -/
theorem write_of_fits {pieces : List Piece} (hsome : ∀ piece ∈ pieces, piece.isSome)
    {buffer : String} (hle : (buffer ++ text pieces).utf8ByteSize + reserved ≤ budget) :
    write budget reserved buffer pieces = some (buffer ++ text pieces) := by
  induction pieces generalizing buffer with
  | nil => rw [write_nil, text_nil, String.append_empty]
  | cons piece rest ih =>
    obtain ⟨hpiece, hrest⟩ := List.forall_mem_cons.mp hsome
    obtain ⟨added, rfl⟩ := Option.isSome_iff_exists.mp hpiece
    rw [text_cons, Option.getD_some, ← String.append_assoc] at hle ⊢
    have hsize := hle
    rw [String.utf8ByteSize_append, String.utf8ByteSize_append] at hsize
    have hpush : push budget reserved buffer (some added) = some (buffer ++ added) :=
      push_eq_some_iff.mpr ⟨added, rfl, by omega, rfl⟩
    unfold write at ih ⊢
    rw [List.foldlM_cons, hpush]
    exact ih hrest hle

/-- Everything is written if and only if nothing is refused and all of it fits. -/
theorem write_eq_some_iff {pieces : List Piece} {buffer later : String} (hpieces : pieces ≠ []) :
    write budget reserved buffer pieces = some later ↔
      (∀ piece ∈ pieces, piece.isSome) ∧ later = buffer ++ text pieces ∧
        later.utf8ByteSize + reserved ≤ budget := by
  constructor
  · intro hwrite
    obtain ⟨hsome, hlater⟩ := text_of_write hwrite
    exact ⟨hsome, hlater, size_le_of_write hwrite hpieces⟩
  · rintro ⟨hsome, rfl, hle⟩
    exact write_of_fits hsome hle

end Bounds

end Budget
