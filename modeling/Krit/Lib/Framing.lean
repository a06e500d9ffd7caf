import Mathlib.Data.List.Flatten
import Mathlib.Tactic.Linarith

/-!
# Framed parts

A sequence of byte strings is written to a stream, each after its length in a fixed
number of bytes.  As long as the lengths fit, the stream determines the parts, whatever
they contain: framing needs neither separators nor the number of parts.
-/

namespace Framing

/-- The low bytes of a number, the lowest first. -/
def littleEndian : ℕ → ℕ → List UInt8
  | 0, _ => []
  | width + 1, number => UInt8.ofNat number :: littleEndian width (number / 256)

/-- A part after its length. -/
def frame (width : ℕ) (part : List UInt8) : List UInt8 := littleEndian width part.length ++ part

/-- A sequence of framed parts. -/
def frames (width : ℕ) (parts : List (List UInt8)) : List UInt8 := parts.flatMap (frame width)

@[simp] theorem length_littleEndian (width number : ℕ) :
    (littleEndian width number).length = width := by
  induction width generalizing number with
  | zero => rfl
  | succ width ih => rw [littleEndian, List.length_cons, ih]

theorem littleEndian_injective {width left right : ℕ} (hleft : left < 256 ^ width)
    (hright : right < 256 ^ width) (heq : littleEndian width left = littleEndian width right) :
    left = right := by
  induction width generalizing left right with
  | zero =>
    rw [pow_zero] at hleft hright
    omega
  | succ width ih =>
    rw [littleEndian, littleEndian, List.cons.injEq] at heq
    obtain ⟨hlow, hrest⟩ := heq
    have hbyte : left % 256 = right % 256 := by
      have hnat := congrArg UInt8.toNat hlow
      simpa using hnat
    rw [pow_succ] at hleft hright
    have hhigh := ih (by omega) (by omega) hrest
    omega

@[simp] theorem frames_nil (width : ℕ) : frames width [] = [] := rfl

@[simp] theorem frames_cons (width : ℕ) (part : List UInt8) (rest : List (List UInt8)) :
    frames width (part :: rest) = frame width part ++ frames width rest := rfl

theorem frames_append (width : ℕ) (first second : List (List UInt8)) :
    frames width (first ++ second) = frames width first ++ frames width second :=
  List.flatMap_append

/-- A framed part ends where its length says, so what follows it is determined. -/
theorem frame_append_injective {width : ℕ} {left right rest rest' : List UInt8}
    (hleft : left.length < 256 ^ width) (hright : right.length < 256 ^ width)
    (heq : frame width left ++ rest = frame width right ++ rest') :
    left = right ∧ rest = rest' := by
  unfold frame at heq
  rw [List.append_assoc, List.append_assoc] at heq
  have hprefix := List.append_inj heq (by rw [length_littleEndian, length_littleEndian])
  have hlength := littleEndian_injective hleft hright hprefix.1
  exact List.append_inj hprefix.2 hlength

/-- The stream of framed parts determines the parts. -/
theorem frames_injective {width : ℕ} (hwidth : 0 < width) {left right : List (List UInt8)}
    (hleft : ∀ part ∈ left, part.length < 256 ^ width)
    (hright : ∀ part ∈ right, part.length < 256 ^ width)
    (heq : frames width left = frames width right) : left = right := by
  have hnonempty : ∀ (part : List UInt8) (rest : List (List UInt8)),
      frames width (part :: rest) ≠ [] := by
    intro part rest hnil
    have hlength := congrArg List.length hnil
    rw [frames_cons, frame, List.length_append, List.length_append, length_littleEndian,
      List.length_nil] at hlength
    omega
  induction left generalizing right with
  | nil =>
    cases right with
    | nil => rfl
    | cons part rest => exact absurd heq.symm (hnonempty part rest)
  | cons part rest ih =>
    cases right with
    | nil => exact absurd heq (hnonempty part rest)
    | cons part' rest' =>
      rw [frames_cons, frames_cons] at heq
      obtain ⟨hpart, hstream⟩ := frame_append_injective (hleft part List.mem_cons_self)
        (hright part' List.mem_cons_self) heq
      have hrest := ih (fun other hmem => hleft other (List.mem_cons_of_mem _ hmem))
        (fun other hmem => hright other (List.mem_cons_of_mem _ hmem)) hstream
      rw [hpart, hrest]

end Framing
