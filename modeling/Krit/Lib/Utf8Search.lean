import Krit.Lib.Utf8

/-!
# Positions in UTF-8 bytes

A position in the bytes of a text that lies between two characters, what a search for an
ASCII byte finds from there, and which positions a slice of the text may start at.  Every
byte of a longer character is above the ASCII range, so bytes and characters are searched
alike.
-/

namespace Utf8

def encode (chars : List Char) : List ℕ := chars.flatMap charBytes

/-- The number of bytes of characters. -/
def size (chars : List Char) : ℕ := (encode chars).length

@[simp] theorem encode_nil : encode [] = [] := rfl

theorem encode_cons (char : Char) (rest : List Char) :
    encode (char :: rest) = charBytes char ++ encode rest := rfl

theorem encode_append (first second : List Char) :
    encode (first ++ second) = encode first ++ encode second := List.flatMap_append

@[simp] theorem size_nil : size [] = 0 := rfl

theorem size_append (first second : List Char) :
    size (first ++ second) = size first + size second := by
  unfold size
  rw [encode_append, List.length_append]

theorem size_cons (char : Char) (rest : List Char) :
    size (char :: rest) = (charBytes char).length + size rest := by
  unfold size
  rw [encode_cons, List.length_append]

theorem size_cons_ascii {char : Char} (hascii : char.toNat < 128) (rest : List Char) :
    size (char :: rest) = size rest + 1 := by
  rw [size_cons, charBytes_of_ascii hascii, List.length_singleton, Nat.add_comm]

theorem length_charBytes_pos (char : Char) : 0 < (charBytes char).length := by
  have hform := form_charBytes char
  generalize charBytes char = bytes at hform
  cases hform <;> simp

theorem length_le_size (chars : List Char) : chars.length ≤ size chars := by
  induction chars with
  | nil => exact le_refl 0
  | cons char rest ih =>
    have hpos := length_charBytes_pos char
    rw [size_cons, List.length_cons]
    omega

/-- The bytes of a character outside ASCII are all outside ASCII. -/
theorem le_of_mem_charBytes {char : Char} (hwide : ¬ char.toNat < 128) :
    ∀ byte ∈ charBytes char, 128 ≤ byte := by
  have hcode : ¬ char.val.toNat ≤ 127 := fun hle => hwide (Nat.lt_succ_of_le hle)
  intro byte hbyte
  unfold charBytes String.utf8EncodeChar at hbyte
  simp only [if_neg hcode] at hbyte
  split at hbyte
  · simp only [List.map_cons, List.map_nil, UInt8.toNat_ofNat', List.mem_cons,
      List.not_mem_nil, or_false] at hbyte
    omega
  · split at hbyte
    · simp only [List.map_cons, List.map_nil, UInt8.toNat_ofNat', List.mem_cons,
        List.not_mem_nil, or_false] at hbyte
      omega
    · simp only [List.map_cons, List.map_nil, UInt8.toNat_ofNat', List.mem_cons,
        List.not_mem_nil, or_false] at hbyte
      omega

/-- An ASCII byte begins the bytes exactly when its character begins the text. -/
theorem head?_encode {target : Char} (htarget : target.toNat < 128) (chars : List Char) :
    (encode chars).head? = some target.toNat ↔ chars.head? = some target := by
  cases chars with
  | nil => simp
  | cons char rest =>
    rw [encode_cons]
    by_cases hascii : char.toNat < 128
    · rw [charBytes_of_ascii hascii, List.singleton_append, List.head?_cons, List.head?_cons,
        Option.some.injEq, Option.some.injEq, Char.toNat_inj]
    · have hwide := le_of_mem_charBytes hascii
      have hpos := length_charBytes_pos char
      obtain ⟨first, more, hbytes⟩ := List.exists_cons_of_length_pos hpos
      have hfirst := hwide first (by rw [hbytes]; exact List.mem_cons_self)
      rw [hbytes, List.cons_append, List.head?_cons, List.head?_cons, Option.some.injEq,
        Option.some.injEq]
      constructor
      · intro heq
        omega
      · intro heq
        rw [heq] at hascii
        exact absurd htarget hascii

/-! ## Positions -/

/-- The bytes from a position between two characters. -/
theorem drop_encode (before rest : List Char) :
    (encode (before ++ rest)).drop (size before) = encode rest := by
  rw [encode_append]
  exact List.drop_left

theorem getElem?_encode (before rest : List Char) :
    (encode (before ++ rest))[size before]? = (encode rest).head? := by
  rw [← drop_encode before rest, List.head?_drop]

/-- The characters from a position, if it lies between two characters. -/
def charsFrom : List Char → ℕ → Option (List Char)
  | chars, 0 => some chars
  | [], _ + 1 => none
  | char :: rest, index + 1 =>
      if (charBytes char).length ≤ index + 1 then
        charsFrom rest (index + 1 - (charBytes char).length)
      else none

theorem charsFrom_size (before rest : List Char) :
    charsFrom (before ++ rest) (size before) = some rest := by
  induction before with
  | nil =>
    cases rest <;> rfl
  | cons char before ih =>
    have hpos := length_charBytes_pos char
    obtain ⟨index, hindex⟩ : ∃ index, size (char :: before) = index + 1 :=
      ⟨size (char :: before) - 1, by rw [size_cons]; omega⟩
    have hle : (charBytes char).length ≤ index + 1 := by
      rw [← hindex, size_cons]
      omega
    have hleft : index + 1 - (charBytes char).length = size before := by
      rw [← hindex, size_cons]
      omega
    rw [hindex, List.cons_append, charsFrom, if_pos hle, hleft, ih]

/-- The position at which the rest of a text begins. -/
def position (text rest : List Char) : ℕ := size text - size rest

@[simp] theorem position_self (text : List Char) : position text text = 0 := Nat.sub_self _

@[simp] theorem position_nil (text : List Char) : position text [] = size text := Nat.sub_zero _

theorem position_append (before rest : List Char) :
    position (before ++ rest) rest = size before := by
  unfold position
  rw [size_append, Nat.add_sub_cancel]

theorem size_le_of_suffix {text rest : List Char} (hsuffix : rest <:+ text) :
    size rest ≤ size text := by
  obtain ⟨before, rfl⟩ := hsuffix
  rw [size_append]
  exact Nat.le_add_left _ _

theorem position_le {text rest : List Char} : position text rest ≤ size text := Nat.sub_le _ _

/-- What a search passes over moves the position. -/
theorem position_of_append {text rest after passed : List Char} (hsuffix : rest <:+ text)
    (hpassed : rest = passed ++ after) :
    position text after = position text rest + size passed := by
  have hle := size_le_of_suffix hsuffix
  unfold position
  rw [hpassed, size_append] at hle ⊢
  omega

theorem drop_position {text rest : List Char} (hsuffix : rest <:+ text) :
    (encode text).drop (position text rest) = encode rest := by
  obtain ⟨before, rfl⟩ := hsuffix
  rw [position_append, drop_encode]

theorem getElem?_position {text rest : List Char} (hsuffix : rest <:+ text) :
    (encode text)[position text rest]? = (encode rest).head? := by
  obtain ⟨before, rfl⟩ := hsuffix
  rw [position_append, getElem?_encode]

theorem charsFrom_position {text rest : List Char} (hsuffix : rest <:+ text) :
    charsFrom text (position text rest) = some rest := by
  obtain ⟨before, rfl⟩ := hsuffix
  rw [position_append, charsFrom_size]

theorem position_cons_lt {text rest : List Char} {char : Char} (hsuffix : char :: rest <:+ text) :
    position text (char :: rest) < size text := by
  have hle := size_le_of_suffix hsuffix
  have hpos := length_charBytes_pos char
  unfold position
  rw [size_cons] at hle ⊢
  omega

/-- Which ASCII byte stands at a position. -/
theorem byte_position_iff {target : Char} (htarget : target.toNat < 128) {text rest : List Char}
    (hsuffix : rest <:+ text) :
    (encode text)[position text rest]? = some target.toNat ↔ rest.head? = some target := by
  rw [getElem?_position hsuffix, head?_encode htarget]

theorem position_of_cons {text rest : List Char} {char : Char} (hsuffix : char :: rest <:+ text)
    (hascii : char.toNat < 128) : position text rest = position text (char :: rest) + 1 := by
  have hpassed : char :: rest = [char] ++ rest := rfl
  rw [position_of_append hsuffix hpassed, size_cons_ascii hascii, size_nil]

/-! ## Finding a substring -/

/-- The position of the first place where a pattern begins. -/
def find (pattern : List Char) : List Char → Option ℕ
  | [] => if pattern.isEmpty then some 0 else none
  | char :: rest =>
      if pattern.isPrefixOf (char :: rest) then some 0
      else (find pattern rest).map (· + (charBytes char).length)

/-! ## Searching -/

/-- A search for an ASCII byte finds the first such character. -/
theorem findIdx?_encode {target : Char} (htarget : target.toNat < 128) (chars : List Char) :
    (encode chars).findIdx? (fun byte => byte == target.toNat) =
      if target ∈ chars then some (size (chars.takeWhile fun char => char != target))
      else none := by
  induction chars with
  | nil => rfl
  | cons char rest ih =>
    rw [encode_cons]
    by_cases hsame : char = target
    · rw [hsame, charBytes_of_ascii htarget, if_pos List.mem_cons_self]
      simp [List.findIdx?_cons]
    · have hnone : (charBytes char).findIdx? (fun byte => byte == target.toNat) = none := by
        rw [List.findIdx?_eq_none_iff]
        intro byte hbyte
        rw [beq_eq_false_iff_ne]
        by_cases hascii : char.toNat < 128
        · rw [charBytes_of_ascii hascii, List.mem_singleton] at hbyte
          rw [hbyte]
          exact fun heq => hsame (Char.toNat_inj.mp heq)
        · have hwide := le_of_mem_charBytes hascii byte hbyte
          omega
      have htake : (char :: rest).takeWhile (fun char => char != target) =
          char :: rest.takeWhile fun char => char != target := by
        rw [List.takeWhile_cons, if_pos (by simpa using hsame)]
      rw [List.findIdx?_append, hnone, Option.none_or, ih, htake]
      by_cases hmem : target ∈ rest
      · rw [if_pos hmem, if_pos (List.mem_cons_of_mem _ hmem), Option.map_some, size_cons,
          Nat.add_comm]
      · have hnot : target ∉ char :: rest := by
          rw [List.mem_cons, not_or]
          exact ⟨fun heq => hsame heq.symm, hmem⟩
        rw [if_neg hmem, if_neg hnot]
        rfl

/-- A text with a character is what comes before the first one, the character, and the rest. -/
theorem takeWhile_append_of_mem {target : Char} {chars : List Char} (hmem : target ∈ chars) :
    ∃ after, chars = chars.takeWhile (fun char => char != target) ++ target :: after ∧
      chars.dropWhile (fun char => char != target) = target :: after := by
  induction chars with
  | nil => cases hmem
  | cons char rest ih =>
    by_cases hsame : char = target
    · refine ⟨rest, ?_, ?_⟩
      · rw [List.takeWhile_cons, if_neg (by simp [hsame]), hsame, List.nil_append]
      · rw [List.dropWhile_cons, if_neg (by simp [hsame]), hsame]
    · have hrest : target ∈ rest := (List.mem_cons.mp hmem).resolve_left fun heq => hsame heq.symm
      obtain ⟨after, hsplit, hdrop⟩ := ih hrest
      refine ⟨after, ?_, ?_⟩
      · rw [List.takeWhile_cons, if_pos (by simpa using hsame), List.cons_append, ← hsplit]
      · rw [List.dropWhile_cons, if_pos (by simpa using hsame), hdrop]

end Utf8
