import Krit.JsonText

/-!
# The grammar of JSON texts

Which texts spell a JSON tree, without insignificant space, fractions, exponents and
surrogate pairs, none of which the writers here use.
-/

namespace Krit.Json

def IsHexDigit (char : Char) : Prop := char.isDigit = true ∨ ('a' ≤ char ∧ char ≤ 'f')

/-- A character of a string, itself or escaped. -/
inductive SpellsChar : Char → List Char → Prop
  | plain {char : Char} (hcontrol : 32 ≤ char.toNat) (hquote : char ≠ '"')
      (hslash : char ≠ '\\') : SpellsChar char [char]
  | short {mark char : Char} (hmark : unescape mark = some char) : SpellsChar char ['\\', mark]
  | code {first second third fourth : Char}
      (hhex : ∀ digit ∈ [first, second, third, fourth], IsHexDigit digit)
      (hscalar : 4096 * hexValue first + 256 * hexValue second + 16 * hexValue third +
        hexValue fourth < 0xd800) :
      SpellsChar (Char.ofNat (4096 * hexValue first + 256 * hexValue second +
        16 * hexValue third + hexValue fourth)) ['\\', 'u', first, second, third, fourth]

def SpellsString (value : String) (text : List Char) : Prop :=
  ∃ parts, List.Forall₂ SpellsChar value.toList parts ∧ text = '"' :: (parts.flatten ++ ['"'])

/-- Digits without a leading zero. -/
structure SpellsNatural (value : ℕ) (digits : List Char) : Prop where
  digits_ne_nil : digits ≠ []
  all_digits : ∀ digit ∈ digits, digit.isDigit = true
  no_leading_zero : digits.head? = some '0' → digits = ['0']
  value_eq : Nat.ofDigitChars 10 digits 0 = value

inductive Spells : Json → List Char → Prop
  | null : Spells .null ['n', 'u', 'l', 'l']
  | true : Spells (.bool true) ['t', 'r', 'u', 'e']
  | false : Spells (.bool false) ['f', 'a', 'l', 's', 'e']
  | posInt {value : ℕ} {digits : List Char} (hdigits : SpellsNatural value digits) :
      Spells (.number (.posInt value)) digits
  | negInt {value : ℕ} {digits : List Char} (hdigits : SpellsNatural value digits) :
      Spells (.number (.negInt (-value))) ('-' :: digits)
  | string {value : String} {text : List Char} (htext : SpellsString value text) :
      Spells (.string value) text
  | array {values : List Json} {write : Json → List Char}
      (hvalues : ∀ value ∈ values, Spells value (write value)) :
      Spells (.array values) ('[' :: joined ']' (values.map write))
  | object {entries : List (String × Json)} {name value : String × Json → List Char}
      (hnames : ∀ entry ∈ entries, SpellsString entry.1 (name entry))
      (hvalues : ∀ entry ∈ entries, Spells entry.2 (value entry)) :
      Spells (.object entries)
        ('\x7b' :: joined '\x7d' (entries.map fun entry => name entry ++ ':' :: value entry))

/-! ## What the writers spell -/

theorem head_toDigits_ne_zero {value : ℕ} (hpos : 0 < value) :
    (Nat.toDigits 10 value).head? ≠ some '0' := by
  induction value using Nat.strong_induction_on with
  | h value ih =>
    by_cases hsmall : value < 10
    · rw [Nat.toDigits_of_lt_base hsmall]
      have hdigit : ∀ digit < 10, 0 < digit → [Nat.digitChar digit].head? ≠ some '0' := by decide
      exact hdigit value hsmall hpos
    · have hbase : 10 ≤ value := Nat.not_lt.mp hsmall
      rw [Nat.toDigits_of_base_le (by decide) hbase]
      have hfirst := ih (value / 10) (by omega) (by omega)
      obtain ⟨first, more, hdigits, -⟩ := isDigit_first (value / 10)
      rw [hdigits] at hfirst ⊢
      exact hfirst

theorem spellsNatural_toDigits (value : ℕ) : SpellsNatural value (Nat.toDigits 10 value) where
  digits_ne_nil := Nat.toDigits_ne_nil
  all_digits := fun _ hdigit => Nat.isDigit_of_mem_toDigits (by decide) (by decide) hdigit
  no_leading_zero := by
    intro hzero
    rcases Nat.eq_zero_or_pos value with heq | hpos
    · rw [heq]
      rfl
    · exact absurd hzero (head_toDigits_ne_zero hpos)
  value_eq := Nat.ofDigitChars_ten_toDigits

theorem isHexDigit_hexLower : ∀ digit < 16, IsHexDigit (hexLower digit) := by
  intro digit hdigit
  unfold IsHexDigit
  interval_cases digit <;> decide

/-- The six-character escape of a control character. -/
theorem spellsChar_control {char : Char} (hcontrol : char.toNat < 32) :
    SpellsChar char
      ['\\', 'u', '0', '0', hexLower (char.toNat / 16), hexLower (char.toNat % 16)] := by
  have hhigh := hexValue_hexLower (char.toNat / 16) (by omega)
  have hlow := hexValue_hexLower (char.toNat % 16) (by omega)
  have hzero : hexValue '0' = 0 := by decide
  have hvalue : 4096 * hexValue '0' + 256 * hexValue '0' +
      16 * hexValue (hexLower (char.toNat / 16)) + hexValue (hexLower (char.toNat % 16)) =
      char.toNat := by
    rw [hhigh, hlow, hzero]
    omega
  have hspelled := @SpellsChar.code '0' '0' (hexLower (char.toNat / 16))
    (hexLower (char.toNat % 16)) (by
      intro digit hdigit
      rcases List.mem_cons.mp hdigit with rfl | hdigit
      · exact Or.inl (by decide)
      rcases List.mem_cons.mp hdigit with rfl | hdigit
      · exact Or.inl (by decide)
      rcases List.mem_cons.mp hdigit with rfl | hdigit
      · exact isHexDigit_hexLower _ (by omega)
      rw [List.mem_singleton.mp hdigit]
      exact isHexDigit_hexLower _ (by omega))
    (by rw [hvalue]; omega)
  rw [hvalue, Char.ofNat_toNat] at hspelled
  exact hspelled

/-- A writer that spells every character spells every string. -/
theorem spellsString_flatMap {spell : Char → List Char}
    (hspell : ∀ char, SpellsChar char (spell char))
    (value : String) :
    SpellsString value ('"' :: (value.toList.flatMap spell ++ ['"'])) := by
  refine ⟨value.toList.map spell, ?_, by rw [List.flatMap_def]⟩
  rw [List.forall₂_map_right_iff]
  exact List.forall₂_same.mpr fun char _ => hspell char

end Krit.Json
