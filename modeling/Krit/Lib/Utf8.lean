import Mathlib.Tactic
import Mathlib.Data.List.Basic

/-!
# UTF-8 byte sequences

The bytes of a text, the shapes the encoding of one character can have, and a
lenient reader.  The lenient reader takes a lead byte at its word: it uses the
low six bits of every byte that follows, whether or not that byte is a
continuation byte, and it knows the five- and six-byte forms.
-/

namespace Utf8

/-! ## Encoding -/

def charBytes (char : Char) : List ℕ :=
  (String.utf8EncodeChar char).map UInt8.toNat

-- `ByteArray.toList` counts up to the size; the induction is on what is left.
private theorem toList_loop (bytes : ByteArray) (left : ℕ) :
    ∀ (start : ℕ) (done : List UInt8), bytes.size - start = left →
      ByteArray.toList.loop bytes start done =
        done.reverse ++ bytes.data.toList.drop start := by
  induction left with
  | zero =>
    intro start done hleft
    have hend : ¬ start < bytes.size := by omega
    have hdrop : bytes.data.toList.drop start = [] := by
      apply List.drop_eq_nil_of_le
      rw [Array.length_toList]
      exact Nat.le_of_not_lt hend
    rw [ByteArray.toList.loop, if_neg hend, hdrop, List.append_nil]
  | succ left ih =>
    intro start done hleft
    have hstart : start < bytes.size := by omega
    have hlength : start < bytes.data.toList.length := by
      rw [Array.length_toList]
      exact hstart
    have hget : bytes.get! start = bytes.data.toList[start] := by
      simp [ByteArray.get!, hstart]
    rw [ByteArray.toList.loop, if_pos hstart, ih (start + 1) _ (by omega), hget,
      List.reverse_cons, List.append_assoc, List.drop_eq_getElem_cons hlength]
    rfl

theorem toList_eq_data (bytes : ByteArray) : bytes.toList = bytes.data.toList := by
  rw [ByteArray.toList, toList_loop bytes _ 0 [] rfl]
  rfl

theorem toList_utf8Encode (chars : List Char) :
    chars.utf8Encode.toList.map UInt8.toNat = chars.flatMap charBytes := by
  rw [toList_eq_data]
  unfold List.utf8Encode
  rw [List.toList_data_toByteArray, List.map_flatMap]
  rfl

/-- The bytes of a text are the bytes of its characters. -/
theorem toUTF8_toList (text : String) :
    text.toUTF8.toList.map UInt8.toNat = text.toList.flatMap charBytes := by
  rw [← toList_utf8Encode, String.utf8Encode_toList]
  rfl

theorem charBytes_of_ascii {char : Char} (hascii : char.toNat < 128) :
    charBytes char = [char.toNat] := by
  have hle : char.val.toNat ≤ 127 := Nat.le_of_lt_succ hascii
  have hmod : char.val.toNat % 256 = char.val.toNat := by omega
  unfold charBytes String.utf8EncodeChar
  rw [if_pos hle, List.map_singleton, UInt8.toNat_ofNat', hmod]
  rfl

def IsContinuation (byte : ℕ) : Prop := 0x80 ≤ byte ∧ byte < 0xC0

/-- The sequences that encode one character. -/
inductive Form : List ℕ → Prop
  | one {first : ℕ} (hfirst : first < 0x80) : Form [first]
  | two {first second : ℕ} (hlow : 0xC2 ≤ first) (hhigh : first < 0xE0)
      (hsecond : IsContinuation second) : Form [first, second]
  | three {first second third : ℕ} (hlow : 0xE0 ≤ first) (hhigh : first < 0xF0)
      (hsecond : IsContinuation second) (hthird : IsContinuation third)
      (hshort : first = 0xE0 → 0xA0 ≤ second) : Form [first, second, third]
  | four {first second third fourth : ℕ} (hlow : 0xF0 ≤ first) (hhigh : first < 0xF8)
      (hsecond : IsContinuation second) (hthird : IsContinuation third)
      (hfourth : IsContinuation fourth)
      (hshort : first = 0xF0 → 0x90 ≤ second) : Form [first, second, third, fourth]

theorem form_charBytes (char : Char) : Form (charBytes char) := by
  have hvalid : char.val.toNat < 0x110000 := by
    have hchar := char.valid
    simp only [UInt32.isValidChar, Nat.isValidChar] at hchar
    omega
  unfold charBytes String.utf8EncodeChar
  simp only []
  split
  · simp only [List.map_cons, List.map_nil, UInt8.toNat_ofNat']
    exact .one (by omega)
  · split
    · simp only [List.map_cons, List.map_nil, UInt8.toNat_ofNat']
      exact .two (by omega) (by omega) ⟨by omega, by omega⟩
    · split
      · simp only [List.map_cons, List.map_nil, UInt8.toNat_ofNat']
        exact .three (by omega) (by omega) ⟨by omega, by omega⟩ ⟨by omega, by omega⟩
          (by omega)
      · simp only [List.map_cons, List.map_nil, UInt8.toNat_ofNat']
        exact .four (by omega) (by omega) ⟨by omega, by omega⟩ ⟨by omega, by omega⟩
          ⟨by omega, by omega⟩ (by omega)

theorem Form.lt {bytes : List ℕ} (hform : Form bytes) : ∀ byte ∈ bytes, byte < 256 := by
  intro byte hbyte
  cases hform with
  | one hfirst => simp at hbyte; omega
  | two hlow hhigh hsecond =>
    simp only [IsContinuation] at hsecond
    simp at hbyte
    omega
  | three hlow hhigh hsecond hthird hshort =>
    simp only [IsContinuation] at hsecond hthird
    simp at hbyte
    omega
  | four hlow hhigh hsecond hthird hfourth hshort =>
    simp only [IsContinuation] at hsecond hthird hfourth
    simp at hbyte
    omega

/-! ## The lenient reader -/

/-- How many bytes a lead byte announces. -/
def sequenceLength (lead : ℕ) : Option ℕ :=
  if lead < 0xC0 then none
  else if lead < 0xE0 then some 2
  else if lead < 0xF0 then some 3
  else if lead < 0xF8 then some 4
  else if lead < 0xFC then some 5
  else if lead < 0xFE then some 6
  else none

/-- The multi-byte sequence at the head of the bytes, as its length and the code
point that its payload bits spell. -/
def lenientRead : List ℕ → Option (ℕ × ℕ)
  | [] => none
  | lead :: rest =>
      match sequenceLength lead with
      | none => none
      | some length =>
          if rest.length + 1 < length then none
          else
            some (length,
              (rest.take (length - 1)).foldl (fun code byte => code * 64 + byte % 64)
                (lead % 2 ^ (7 - length)))

/-- The length of the shortest form that holds a code point. -/
def shortestForm (code : ℕ) : ℕ :=
  if code < 0x80 then 1
  else if code < 0x800 then 2
  else if code < 0x10000 then 3
  else if code < 0x200000 then 4
  else if code < 0x4000000 then 5
  else 6

/-- What the payload of a lead byte and the byte after it must reach for the
sequence not to be overlong. -/
def leastPayload (length : ℕ) : ℕ :=
  match length with
  | 2 => 0x80
  | 3 => 0x20
  | 4 => 0x10
  | 5 => 0x08
  | _ => 0x04

theorem le_foldl_payload (bytes : List ℕ) (code : ℕ) :
    code * 64 ^ bytes.length ≤
      bytes.foldl (fun code byte => code * 64 + byte % 64) code := by
  induction bytes generalizing code with
  | nil => simp
  | cons byte rest ih =>
    calc
      code * 64 ^ (byte :: rest).length = code * 64 * 64 ^ rest.length := by
        simp only [List.length_cons, pow_succ]
        ring
      _ ≤ (code * 64 + byte % 64) * 64 ^ rest.length := by
        apply Nat.mul_le_mul_right
        omega
      _ ≤ _ := ih _

theorem sequenceLength_cases {lead length : ℕ} (hlength : sequenceLength lead = some length) :
    length = 2 ∨ length = 3 ∨ length = 4 ∨ length = 5 ∨ length = 6 := by
  unfold sequenceLength at hlength
  split_ifs at hlength <;> simp at hlength <;> omega

/-- A sequence whose first payload bits reach the least payload of its form is
read as a code point that fits no shorter form. -/
theorem lenientRead_shortest {lead next length code : ℕ} {rest : List ℕ}
    (hread : lenientRead (lead :: next :: rest) = some (length, code))
    (hleast : leastPayload length ≤ lead % 2 ^ (7 - length) * 64 + next % 64) :
    length ≤ shortestForm code := by
  simp only [lenientRead] at hread
  split at hread
  · cases hread
  · rename_i announced hannounced
    split at hread
    · cases hread
    · rename_i henough
      simp only [Option.some.injEq, Prod.mk.injEq] at hread
      have hlengthEq : announced = length := hread.1
      subst hlengthEq
      have hcode := hread.2
      have hcases := sequenceLength_cases hannounced
      have htwo : 2 ≤ announced := by omega
      have htake : (next :: rest).take (announced - 1) = next :: rest.take (announced - 2) := by
        obtain ⟨more, hmore⟩ : ∃ more, announced = more + 2 := ⟨announced - 2, by omega⟩
        subst hmore
        simp
      rw [htake, List.foldl_cons] at hcode
      have hle := le_foldl_payload (rest.take (announced - 2))
        (lead % 2 ^ (7 - announced) * 64 + next % 64)
      have htaken : (rest.take (announced - 2)).length = announced - 2 := by
        simp only [List.length_cons] at henough
        rw [List.length_take]
        omega
      rw [hcode, htaken] at hle
      have hreach : leastPayload announced * 64 ^ (announced - 2) ≤ code :=
        le_trans (Nat.mul_le_mul_right _ hleast) hle
      rcases hcases with rfl | rfl | rfl | rfl | rfl <;>
        simp only [leastPayload] at hreach <;> unfold shortestForm <;> split_ifs <;> omega

/-- Reading stops before the end of the bytes: a lead byte on its own announces
more than there is. -/
theorem lenientRead_singleton (lead : ℕ) : lenientRead [lead] = none := by
  simp only [lenientRead]
  split
  · rfl
  · rename_i length hlength
    have hcases := sequenceLength_cases hlength
    have hshort : ([] : List ℕ).length + 1 < length := by
      simp only [List.length_nil]
      omega
    rw [if_pos hshort]

theorem lenientRead_length {bytes : List ℕ} {length code : ℕ}
    (hread : lenientRead bytes = some (length, code)) : 2 ≤ length := by
  cases bytes with
  | nil => cases hread
  | cons lead rest =>
    simp only [lenientRead] at hread
    split at hread
    · cases hread
    · rename_i announced hannounced
      have hcases := sequenceLength_cases hannounced
      split at hread
      · cases hread
      · simp only [Option.some.injEq, Prod.mk.injEq] at hread
        omega

end Utf8
