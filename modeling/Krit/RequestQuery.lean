import Krit.RequestTarget

/-!
# Query strings

The query that is built from pairs of names and values can be sent, and it can be read
back: no escape and no unreserved byte is a delimiter.
-/

namespace Krit

open Utf8

/-- Whether a request query is one the host sends. -/
def isValidQuery (query : String) : Bool :=
  (stringBytes query).head? != some (ascii '?') &&
    !(stringBytes query).any fun byte =>
      isAsciiControl byte || byte == ascii ' ' || byte == ascii '#' || byte == ascii '\\'

/-- A piece of a query, split at its first `=`, with both halves decoded. -/
def decodePiece (piece : List ℕ) : List ℕ × List ℕ :=
  (percentDecode (piece.takeWhile (· ≠ ascii '=')),
    percentDecode ((piece.dropWhile (· ≠ ascii '=')).drop 1))

/-- The pieces of a query that is not empty. -/
def decodeQuery (query : List ℕ) : List (List ℕ × List ℕ) :=
  (query.splitOn (ascii '&')).map decodePiece

/-! ## One text -/

theorem stringBytes_injective : Function.Injective stringBytes := by
  intro left right hbytes
  have hlist : left.toUTF8.toList = right.toUTF8.toList := by
    refine List.map_injective_iff.mpr ?_ hbytes
    intro first second hsame
    exact UInt8.toNat_inj.mp hsame
  rw [toList_eq_data, toList_eq_data] at hlist
  have hdata : left.toUTF8.data = right.toUTF8.data := Array.toList_inj.mp hlist
  have hutf8 : left.toUTF8 = right.toUTF8 := ByteArray.ext hdata
  exact String.toByteArray_inj.mp hutf8

/-- Decoding undoes the encoding of every text. -/
theorem percentDecode_flatMap_encodeByte {bytes : List ℕ} (hbytes : ∀ byte ∈ bytes, byte < 256) :
    percentDecode (bytes.flatMap encodeByte) = bytes := by
  induction bytes with
  | nil => rfl
  | cons byte rest ih =>
    have hbyte : byte < 256 := hbytes byte List.mem_cons_self
    have hrest := ih (fun other hother => hbytes other (List.mem_cons_of_mem _ hother))
    rw [List.flatMap_cons]
    by_cases hunreserved : isUnreserved byte = true
    · have hencode : encodeByte byte = [byte] := if_pos hunreserved
      have hpercent := (isSeparatorOrControl_of_unreserved hunreserved).2
      rw [hencode, List.singleton_append, percentDecode_cons_of_ne hpercent, hrest]
    · have hencode : encodeByte byte =
          [ascii '%', (hexUpper (byte / 16)).toNat, (hexUpper (byte % 16)).toNat] :=
        if_neg hunreserved
      have hvalue : byte / 16 * 16 + byte % 16 = byte := by omega
      rw [hencode, List.cons_append, List.cons_append, List.cons_append, List.nil_append,
        percentDecode_escape (hexDigit_hexUpper _ (by omega)) (hexDigit_hexUpper _ (by omega)),
        hvalue, hrest]

theorem percentDecode_percentEncode (text : String) :
    percentDecode (stringBytes (percentEncode text)) = stringBytes text := by
  rw [stringBytes_percentEncode]
  exact percentDecode_flatMap_encodeByte (stringBytes_lt text)

/-- The bytes that a query is made of, apart from its delimiters. -/
theorem encoded_byte_no_delimiter : ∀ byte < 128,
    (isUnreserved byte = true ∨ byte = ascii '%') →
      byte ≠ ascii '&' ∧ byte ≠ ascii '=' ∧ byte ≠ ascii '?' ∧ byte ≠ ascii ' ' ∧
        byte ≠ ascii '#' ∧ byte ≠ ascii '\\' ∧ isAsciiControl byte = false := by
  decide

theorem mem_percentEncode_no_delimiter {text : String} {byte : ℕ}
    (hbyte : byte ∈ stringBytes (percentEncode text)) :
    byte ≠ ascii '&' ∧ byte ≠ ascii '=' ∧ byte ≠ ascii '?' ∧ byte ≠ ascii ' ' ∧
      byte ≠ ascii '#' ∧ byte ≠ ascii '\\' ∧ isAsciiControl byte = false := by
  rw [stringBytes_percentEncode] at hbyte
  obtain ⟨source, hsource, hmem⟩ := List.mem_flatMap.mp hbyte
  have hencoded := mem_encodeByte (stringBytes_lt text source hsource) hmem
  exact encoded_byte_no_delimiter byte hencoded.1 hencoded.2

/-! ## One pair -/

/-- The bytes of a pair in a query. -/
def pieceBytes (pair : String × String) : List ℕ :=
  stringBytes (percentEncode pair.1) ++ ascii '=' :: stringBytes (percentEncode pair.2)

theorem decodePiece_pieceBytes (pair : String × String) :
    decodePiece (pieceBytes pair) = (stringBytes pair.1, stringBytes pair.2) := by
  have hname : ∀ byte ∈ stringBytes (percentEncode pair.1), decide (byte ≠ ascii '=') = true := by
    intro byte hbyte
    simpa using (mem_percentEncode_no_delimiter hbyte).2.1
  have htake :
      (pieceBytes pair).takeWhile (· ≠ ascii '=') = stringBytes (percentEncode pair.1) := by
    rw [pieceBytes, List.takeWhile_append_of_pos hname, List.takeWhile_cons_of_neg (by simp),
      List.append_nil]
  have hdrop : (pieceBytes pair).dropWhile (· ≠ ascii '=') =
      ascii '=' :: stringBytes (percentEncode pair.2) := by
    rw [pieceBytes, List.dropWhile_append_of_pos hname, List.dropWhile_cons_of_neg (by simp)]
  rw [decodePiece, htake, hdrop, List.drop_one, List.tail_cons, percentDecode_percentEncode,
    percentDecode_percentEncode]

theorem mem_pieceBytes {pair : String × String} {byte : ℕ} (hbyte : byte ∈ pieceBytes pair) :
    byte ≠ ascii '&' ∧ byte ≠ ascii '?' ∧ byte ≠ ascii ' ' ∧ byte ≠ ascii '#' ∧
      byte ≠ ascii '\\' ∧ isAsciiControl byte = false := by
  rw [pieceBytes, List.mem_append, List.mem_cons] at hbyte
  rcases hbyte with hname | hequals | hvalue
  · have hplain := mem_percentEncode_no_delimiter hname
    exact ⟨hplain.1, hplain.2.2⟩
  · subst hequals
    decide
  · have hplain := mem_percentEncode_no_delimiter hvalue
    exact ⟨hplain.1, hplain.2.2⟩

/-! ## Whole queries -/

theorem stringBytes_intercalate (separator : String) (parts : List String) :
    stringBytes (separator.intercalate parts) =
      (stringBytes separator).intercalate (parts.map stringBytes) := by
  induction parts with
  | nil =>
    rw [String.intercalate_nil, List.map_nil, List.intercalate_nil]
    exact (stringBytes_eq_nil_iff "").mpr rfl
  | cons part rest ih =>
    cases rest with
    | nil => rw [String.intercalate_singleton, List.map_singleton, List.intercalate_singleton]
    | cons next more =>
      rw [String.intercalate_cons_cons, stringBytes_append, stringBytes_append, ih,
        List.map_cons, List.map_cons, List.map_cons, List.intercalate_cons_cons,
        List.append_assoc]

theorem stringBytes_encodeQuery (pairs : List (String × String)) :
    stringBytes (encodeQuery pairs) = [ascii '&'].intercalate (pairs.map pieceBytes) := by
  have hampersand : stringBytes "&" = [ascii '&'] := by decide +kernel
  have hequals : stringBytes "=" = [ascii '='] := by decide +kernel
  rw [encodeQuery, stringBytes_intercalate, hampersand, List.map_map]
  congr 1
  refine List.map_congr_left ?_
  intro pair _
  rw [Function.comp_apply, stringBytes_append, stringBytes_append, hequals, pieceBytes,
    List.append_assoc, List.singleton_append]

theorem mem_encodeQuery {pairs : List (String × String)} {byte : ℕ}
    (hbyte : byte ∈ stringBytes (encodeQuery pairs)) :
    byte ≠ ascii '?' ∧ byte ≠ ascii ' ' ∧ byte ≠ ascii '#' ∧ byte ≠ ascii '\\' ∧
      isAsciiControl byte = false := by
  rw [stringBytes_encodeQuery] at hbyte
  induction pairs with
  | nil => cases hbyte
  | cons pair rest ih =>
    cases rest with
    | nil =>
      rw [List.map_singleton, List.intercalate_singleton] at hbyte
      exact (mem_pieceBytes hbyte).2
    | cons next more =>
      rw [List.map_cons, List.map_cons, List.intercalate_cons_cons, List.mem_append,
        List.mem_append, List.mem_singleton] at hbyte
      rcases hbyte with (hpair | hampersand) | hrest
      · exact (mem_pieceBytes hpair).2
      · subst hampersand
        decide
      · exact ih hrest

theorem isValidQuery_encodeQuery (pairs : List (String × String)) :
    isValidQuery (encodeQuery pairs) = true := by
  rw [isValidQuery, Bool.and_eq_true]
  constructor
  · rw [bne_iff_ne]
    intro hhead
    exact (mem_encodeQuery (List.mem_of_head? hhead)).1 rfl
  · rw [Bool.not_eq_true', List.any_eq_false]
    intro byte hbyte
    obtain ⟨-, hspace, hhash, hbackslash, hcontrol⟩ := mem_encodeQuery hbyte
    simp [hspace, hhash, hbackslash, hcontrol]

theorem decodeQuery_encodeQuery {pairs : List (String × String)} (hpairs : pairs ≠ []) :
    decodeQuery (stringBytes (encodeQuery pairs)) =
      pairs.map fun pair => (stringBytes pair.1, stringBytes pair.2) := by
  have hdelimiter : ∀ piece ∈ pairs.map pieceBytes, ascii '&' ∉ piece := by
    intro piece hpiece hmem
    obtain ⟨pair, -, rfl⟩ := List.mem_map.mp hpiece
    exact (mem_pieceBytes hmem).1 rfl
  rw [decodeQuery, stringBytes_encodeQuery,
    List.splitOn_intercalate _ hdelimiter (by simpa using hpairs), List.map_map]
  refine List.map_congr_left ?_
  intro pair _
  exact decodePiece_pieceBytes pair

theorem encodeQuery_eq_empty_iff (pairs : List (String × String)) :
    encodeQuery pairs = "" ↔ pairs = [] := by
  rw [← stringBytes_eq_nil_iff, stringBytes_encodeQuery]
  constructor
  · intro hempty
    cases pairs with
    | nil => rfl
    | cons pair rest =>
      -- Even the pair of empty texts leaves its `=`.
      have hpiece : pieceBytes pair ≠ [] := by simp [pieceBytes]
      cases rest with
      | nil =>
        rw [List.map_singleton, List.intercalate_singleton] at hempty
        exact absurd hempty hpiece
      | cons next more =>
        rw [List.map_cons, List.map_cons, List.intercalate_cons_cons] at hempty
        simp [hpiece] at hempty
  · intro hpairs
    rw [hpairs]
    rfl

theorem encodeQuery_injective : Function.Injective encodeQuery := by
  intro left right hsame
  by_cases hleft : left = []
  · have hempty : encodeQuery right = "" := by
      rw [← hsame]
      exact (encodeQuery_eq_empty_iff left).mpr hleft
    rw [hleft, (encodeQuery_eq_empty_iff right).mp hempty]
  · have hright : right ≠ [] := by
      intro hempty
      apply hleft
      rw [← encodeQuery_eq_empty_iff, hsame]
      exact (encodeQuery_eq_empty_iff right).mpr hempty
    have hmap := decodeQuery_encodeQuery hleft
    rw [hsame, decodeQuery_encodeQuery hright] at hmap
    refine (List.map_injective_iff.mpr ?_ hmap).symm
    intro first second hbytes
    rw [Prod.mk.injEq] at hbytes
    exact Prod.ext (stringBytes_injective hbytes.1) (stringBytes_injective hbytes.2)

/-- A query is a lossless encoding of its pairs. -/
theorem encodeQuery_lossless :
    (∀ pairs : List (String × String),
      isValidQuery (encodeQuery pairs) = true ∧
        (encodeQuery pairs = "" ↔ pairs = []) ∧
        (encodeQuery pairs ≠ "" → decodeQuery (stringBytes (encodeQuery pairs)) =
          pairs.map fun pair => (stringBytes pair.1, stringBytes pair.2))) ∧
      ∀ left right : List (String × String),
        encodeQuery left = encodeQuery right → left = right := by
  refine ⟨?_, fun left right hsame => encodeQuery_injective hsame⟩
  intro pairs
  refine ⟨isValidQuery_encodeQuery pairs, encodeQuery_eq_empty_iff pairs, ?_⟩
  intro hsome
  apply decodeQuery_encodeQuery
  rw [ne_eq, ← encodeQuery_eq_empty_iff]
  exact hsome

end Krit
