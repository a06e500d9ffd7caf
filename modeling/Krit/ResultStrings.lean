import Krit.Database
import Krit.JsonText

/-!
# Strings in results

Three writers spell a string as a JSON literal: the encoder of query results, the encoder of
search results, and the language's `json_encode`.  The first two are written alike.  The
JSON library has short escapes for two more control characters than they have.
-/

namespace Krit

/-! ## Search results -/

namespace Search

/-- What is appended to the output for a character of a string. -/
def pushCharacter (output : String) (char : Char) : String :=
  if char = '"' then output ++ "\\\""
  else if char = '\\' then output ++ "\\\\"
  else if char = '\n' then output ++ "\\n"
  else if char = '\r' then output ++ "\\r"
  else if char = '\t' then output ++ "\\t"
  else if char.toNat < 0x20 then
    output ++ ("\\u" ++ String.ofList ((Nat.toDigits 16 char.toNat).leftpad 4 '0'))
  else output.push char

def pushJsonString (output value : String) : String :=
  value.toList.foldl pushCharacter (output.push '"') |>.push '"'

end Search

namespace Databases.RowEncoder

/-! ## Query results -/

/-- The literal of a string in a query result. -/
def literal (value : String) : String :=
  String.ofList ('"' :: (value.toList.flatMap (fun char => (characterText char).toList) ++ ['"']))

theorem pushLiteral_eq_ok {encoder later : RowEncoder} {text : String}
    (hpush : encoder.pushLiteral text = .ok later) :
    later = { encoder with buffer := encoder.buffer ++ text } := by
  unfold pushLiteral at hpush
  obtain ⟨-, -, hpure⟩ := Result.bind_eq_ok.mp hpush
  exact (Except.ok.inj hpure).symm

theorem foldlM_pushLiteral_eq_ok {chars : List Char} {encoder later : RowEncoder}
    (hpush : chars.foldlM (fun encoder char => encoder.pushLiteral (characterText char)) encoder =
      .ok later) :
    later = { encoder with
      buffer := encoder.buffer ++
        String.ofList (chars.flatMap fun char => (characterText char).toList) } := by
  induction chars generalizing encoder with
  | nil =>
    rw [← Except.ok.inj hpush]
    simp
  | cons char rest ih =>
    rw [List.foldlM_cons] at hpush
    obtain ⟨middle, hfirst, hrest⟩ := Result.bind_eq_ok.mp hpush
    rw [ih hrest, pushLiteral_eq_ok hfirst]
    simp only [RowEncoder.mk.injEq, and_true]
    rw [List.flatMap_cons, String.ofList_append, String.ofList_toList, String.append_assoc]

theorem pushJsonString_eq_ok {encoder later : RowEncoder} {value : String}
    (hpush : encoder.pushJsonString value = .ok later) :
    later = { encoder with buffer := encoder.buffer ++ literal value } := by
  unfold pushJsonString at hpush
  obtain ⟨opened, hopened, hpush⟩ := Result.bind_eq_ok.mp hpush
  obtain ⟨written, hwritten, hclosed⟩ := Result.bind_eq_ok.mp hpush
  rw [pushLiteral_eq_ok hclosed, foldlM_pushLiteral_eq_ok hwritten, pushLiteral_eq_ok hopened]
  simp only [RowEncoder.mk.injEq, and_true]
  rw [← String.toList_inj]
  simp [literal]

/-! ## The writers compared -/

theorem leftpad_hex : ∀ code < 32, (Nat.toDigits 16 code).leftpad 4 '0' =
    ['0', '0', hexLower (code / 16), hexLower (code % 16)] := by
  decide

theorem pushCharacter_eq (output : String) (char : Char) :
    Search.pushCharacter output char = output ++ characterText char := by
  unfold Search.pushCharacter characterText
  split_ifs with hquote hslash hline hreturn htab hcontrol
  · rfl
  · rfl
  · rfl
  · rfl
  · rfl
  · rw [leftpad_hex _ hcontrol, ← String.toList_inj]
    simp
  · rw [← String.toList_inj]
    simp

/-- The encoders of queries and of searches write the same literals. -/
theorem search_pushJsonString (output value : String) :
    Search.pushJsonString output value = output ++ literal value := by
  have hfold : ∀ (chars : List Char) (start : String),
      chars.foldl Search.pushCharacter start =
        start ++ String.ofList (chars.flatMap fun char => (characterText char).toList) := by
    intro chars
    induction chars with
    | nil =>
      intro start
      simp
    | cons char rest ih =>
      intro start
      rw [List.foldl_cons, ih, pushCharacter_eq, List.flatMap_cons, String.ofList_append,
        String.ofList_toList, String.append_assoc]
  unfold Search.pushJsonString
  rw [hfold, ← String.toList_inj]
  simp [literal]

/-- A backspace or a form feed, which the JSON library spells with two characters. -/
def ShortControl (char : Char) : Prop := char.toNat = 8 ∨ char.toNat = 12

theorem characterText_eq {char : Char} (hchar : ¬ ShortControl char) :
    (characterText char).toList = jsonEscape char := by
  unfold ShortControl at hchar
  rw [not_or] at hchar
  have hcode : ∀ {other : Char}, char.toNat = other.toNat ↔ char = other := by
    intro other
    exact ⟨fun heq => Char.toNat_inj.mp heq, fun heq => by rw [heq]⟩
  have htab : char.toNat = 9 ↔ char = '\t' := @hcode '\t'
  have hline : char.toNat = 10 ↔ char = '\n' := @hcode '\n'
  have hreturn : char.toNat = 13 ↔ char = '\r' := @hcode '\r'
  unfold characterText jsonEscape
  rw [if_neg hchar.1, if_neg hchar.2]
  simp only [htab, hline, hreturn]
  split_ifs with hquote hslash <;> simp_all

theorem ShortControl.eq_or_eq {char : Char} (hchar : ShortControl char) :
    char = Char.ofNat 8 ∨ char = Char.ofNat 12 := by
  rcases hchar with height | htwelve
  · rw [← height, Char.ofNat_toNat]
    exact Or.inl rfl
  · rw [← htwelve, Char.ofNat_toNat]
    exact Or.inr rfl

theorem characterText_of_short {char : Char} (hchar : ShortControl char) :
    (characterText char).toList =
      ['\\', 'u', '0', '0', hexLower (char.toNat / 16), hexLower (char.toNat % 16)] := by
  rcases hchar.eq_or_eq with rfl | rfl
  · decide
  · decide

theorem length_characterText_of_short {char : Char} (hchar : ShortControl char) :
    (jsonEscape char).length < (characterText char).toList.length := by
  rw [characterText_of_short hchar]
  rcases hchar.eq_or_eq with rfl | rfl
  · decide
  · decide

theorem length_escape_le (chars : List Char) :
    (chars.flatMap jsonEscape).length ≤
      (chars.flatMap fun char => (characterText char).toList).length := by
  induction chars with
  | nil => exact le_refl _
  | cons char rest ih =>
    rw [List.flatMap_cons, List.flatMap_cons, List.length_append, List.length_append]
    by_cases hchar : ShortControl char
    · have hlt := length_characterText_of_short hchar
      omega
    · rw [characterText_eq hchar]
      omega

/-- A longer spelling of one character makes the literal longer. -/
theorem length_escape_lt {chars : List Char} {char : Char} (hmem : char ∈ chars)
    (hchar : ShortControl char) :
    (chars.flatMap jsonEscape).length <
      (chars.flatMap fun char => (characterText char).toList).length := by
  obtain ⟨before, after, rfl⟩ := List.append_of_mem hmem
  have hbefore := length_escape_le before
  have hafter := length_escape_le after
  have hlt := length_characterText_of_short hchar
  simp only [List.flatMap_append, List.flatMap_cons, List.length_append]
  omega

theorem literal_eq_jsonString_iff (value : String) :
    literal value = jsonString value ↔ ∀ char ∈ value.toList, ¬ ShortControl char := by
  constructor
  · intro hsame char hmem hchar
    have hlt := length_escape_lt hmem hchar
    have hlength := congrArg (fun text : String => text.toList.length) hsame
    simp only [literal, jsonString, String.toList_ofList, List.length_cons, List.length_append]
      at hlength
    omega
  · intro hnone
    unfold literal jsonString
    rw [List.flatMap_congr fun char hmem => characterText_eq (hnone char hmem)]

end Databases.RowEncoder

open Databases

theorem jsonEncode_string {serde : SerdeJson}
    (hserde : ∀ text, serde.toString (.string text) = .ok (jsonString text)) (value : String)
    (span : Span) : jsonEncode serde (.string value) span = .ok (.string (jsonString value)) := by
  unfold jsonEncode
  rw [valueToJson]
  simp only [bind, Except.bind, hserde]

/-- With the documented escapes of the JSON library, the literals of a string in query and
search results are those of `json_encode` if and only if the string holds no backspace and
no form feed. -/
theorem result_strings_agree_iff (serde : SerdeJson)
    (hserde : ∀ text, serde.toString (.string text) = .ok (jsonString text)) (span : Span)
    (value : String) :
    ((∀ encoder later : RowEncoder, encoder.pushJsonString value = .ok later →
        ∃ literal, later.buffer = encoder.buffer ++ literal ∧
          jsonEncode serde (.string value) span = .ok (.string literal)) ∧
      ∀ output, ∃ literal, Search.pushJsonString output value = output ++ literal ∧
        jsonEncode serde (.string value) span = .ok (.string literal)) ↔
      ∀ char ∈ value.toList, ¬ (char.toNat = 8 ∨ char.toNat = 12) := by
  rw [jsonEncode_string hserde]
  have hiff := RowEncoder.literal_eq_jsonString_iff value
  constructor
  · rintro ⟨-, hsearch⟩
    obtain ⟨literal, hwritten, hencoded⟩ := hsearch ""
    rw [RowEncoder.search_pushJsonString, String.empty_append, String.empty_append] at hwritten
    rw [Except.ok.injEq, Value.string.injEq] at hencoded
    exact hiff.mp (by rw [hwritten, hencoded])
  · intro hnone
    have hsame := hiff.mpr hnone
    constructor
    · intro encoder later hpush
      refine ⟨jsonString value, ?_, rfl⟩
      rw [RowEncoder.pushJsonString_eq_ok hpush, hsame]
    · intro output
      exact ⟨jsonString value, by rw [RowEncoder.search_pushJsonString, hsame], rfl⟩

theorem result_strings_agree_iff_sample :
    ∃ literal, Search.pushJsonString "[" "a\"b" = "[" ++ literal ∧
      jsonEncode compactJson (.string "a\"b") ⟨0, 4⟩ = .ok (.string literal) :=
  ((result_strings_agree_iff compactJson (fun _ => rfl) ⟨0, 4⟩ "a\"b").mpr (by simp)).2 "["

/-- A backspace is written with six characters in a query and a search result, and with two
by `json_encode`. -/
theorem backspace_spelled_differently :
    (RowEncoder.mk "" 64 1 0 1 false 0).pushJsonString "\x08" =
        .ok (RowEncoder.mk "\"\\u0008\"" 64 1 0 1 false 0) ∧
      Search.pushJsonString "" "\x08" = "\"\\u0008\"" ∧
      jsonEncode compactJson (.string "\x08") ⟨0, 4⟩ = .ok (.string "\"\\b\"") ∧
      "\"\\u0008\"" ≠ "\"\\b\"" := by
  refine ⟨by decide +kernel, by decide +kernel, ?_, by decide +kernel⟩
  rw [jsonEncode_string fun _ => rfl]
  congr 2

end Krit
