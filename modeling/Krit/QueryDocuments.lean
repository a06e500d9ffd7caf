import Krit.JsonGrammar
import Krit.QueryResults

/-!
# What the documents of query results say

The pieces of a document spell the JSON tree of the columns and the rows, and a JSON reader
decodes the document to the same columns and rows.
-/

namespace Krit.Databases

open Budget Json

/-! ## The tree of a result -/

def ColumnValue.representable : ColumnValue → Bool
  | .null | .integer _ | .text (some _) => true
  | .text none | .real | .blob => false

/-- An integer of a column is a signed 64-bit integer. -/
def ColumnValue.Fits : ColumnValue → Prop
  | .integer value => i64Min ≤ value ∧ value ≤ i64Max
  | _ => True

def ColumnValue.toJson : ColumnValue → Json
  | .integer value => .number (.ofI64 value)
  | .text (some content) => .string content
  | .null | .text none | .real | .blob => .null

def resultTree (columns : List String) (rows : List (List ColumnValue)) : Json :=
  .object [("columns", .array (columns.map .string)),
    ("rows", .array (rows.map fun row => .array (row.map ColumnValue.toJson)))]

/-! ## The text of a document -/

/-- The text of a value in a row. -/
def scalarText : Json → List Char
  | .null => ['n', 'u', 'l', 'l']
  | .number value => printNumber value
  | .string value => (RowEncoder.literal value).toList
  | _ => []

def rowText : Json → List Char
  | .array values => '[' :: joined ']' (values.map scalarText)
  | _ => []

def tableText : Json → List Char
  | .array rows => '[' :: joined ']' (rows.map rowText)
  | _ => []

def entryText (entry : String × Json) : List Char :=
  printString entry.1 ++ ':' :: (if entry.1 = "columns" then rowText entry.2
    else tableText entry.2)

def treeText : Json → List Char
  | .object entries => '\x7b' :: joined '\x7d' (entries.map entryText)
  | _ => []

/-- The complete document of a result. -/
def document (columns : List String) (rows : List (List ColumnValue)) : String :=
  String.ofList (treeText (resultTree columns rows))

/-! ## The pieces spell the document -/

section Pieces

/-- Elements that a comma separates, up to a closing bracket. -/
theorem joined_cons_flatMap {α : Type} (close : Char) (write : α → List Char) (value : α)
    (rest : List α) :
    joined close ((value :: rest).map write) =
      write value ++ (rest.flatMap (fun other => ',' :: write other) ++ [close]) := by
  induction rest generalizing value with
  | nil => rfl
  | cons next more ih =>
    have hnext := ih next
    rw [List.map_cons] at hnext
    rw [List.map_cons, List.map_cons, joined, hnext, List.flatMap_cons]
    simp

theorem flatMap_zipIdx_succ {α : Type} (write : α → List Char) (values : List α) (start : ℕ) :
    (values.zipIdx (start + 1)).flatMap
        (fun value => (if 0 < value.2 then [','] else []) ++ write value.1) =
      values.flatMap fun value => ',' :: write value := by
  induction values generalizing start with
  | nil => rfl
  | cons value rest ih =>
    rw [List.zipIdx_cons, List.flatMap_cons, List.flatMap_cons, ih, if_pos (Nat.succ_pos _)]
    rfl

theorem flatMap_zipIdx_joined {α : Type} (close : Char) (write : α → List Char)
    (values : List α) :
    values.zipIdx.flatMap
        (fun value => (if 0 < value.2 then [','] else []) ++ write value.1) ++ [close] =
      joined close (values.map write) := by
  cases values with
  | nil => rfl
  | cons value rest =>
    rw [List.zipIdx_cons, List.flatMap_cons, flatMap_zipIdx_succ, joined_cons_flatMap,
      if_neg (lt_irrefl 0), List.nil_append, List.append_assoc]

/-- The characters of pieces. -/
def piecesText (pieces : List Piece) : List Char :=
  pieces.flatMap fun piece => (piece.getD "").toList

theorem text_eq_ofList (pieces : List Piece) : text pieces = String.ofList (piecesText pieces) :=
  rfl

@[simp] theorem piecesText_append (first second : List Piece) :
    piecesText (first ++ second) = piecesText first ++ piecesText second :=
  List.flatMap_append

theorem piecesText_flatMap {α : Type} (pieces : α → List Piece) (values : List α) :
    piecesText (values.flatMap pieces) = values.flatMap fun value => piecesText (pieces value) :=
  List.flatMap_assoc

@[simp] theorem piecesText_check (condition : Bool) :
    piecesText (RowEncoder.checkPieces condition) = [] := by
  cases condition <;> rfl

@[simp] theorem piecesText_comma (condition : Prop) [Decidable condition] :
    piecesText (RowEncoder.commaPieces condition) = if condition then [','] else [] := by
  unfold RowEncoder.commaPieces
  by_cases hcondition : condition
  · simp only [hcondition, decide_true, if_true]
    rfl
  · simp only [hcondition, decide_false, if_false, Bool.false_eq_true]
    rfl

theorem piecesText_string (value : String) :
    piecesText (RowEncoder.stringPieces value) = (RowEncoder.literal value).toList := by
  unfold piecesText RowEncoder.stringPieces RowEncoder.literal
  rw [String.toList_ofList, List.cons_append, List.flatMap_cons, List.flatMap_append,
    List.flatMap_map]
  rfl

theorem printNumber_ofI64 (value : ℤ) : printNumber (.ofI64 value) = (toString value).toList := by
  rw [Int.toString_eq_repr, Int.repr_eq_if]
  unfold JsonNumber.ofI64
  by_cases hnegative : value < 0
  · have hnatAbs : (-value).toNat = value.natAbs := by omega
    rw [if_pos hnegative, if_neg (by omega), printNumber, hnatAbs]
    simp
  · rw [if_neg hnegative, if_pos (by omega), printNumber, Nat.toList_repr]

theorem piecesText_value {value : ColumnValue} (hvalue : value.representable = true) :
    piecesText (RowEncoder.valuePieces value) = scalarText value.toJson := by
  cases value with
  | null => rfl
  | integer value =>
    rw [ColumnValue.toJson, scalarText, printNumber_ofI64]
    exact List.append_nil _
  | text value =>
    cases value with
    | none => cases hvalue
    | some content => exact piecesText_string content
  | real => cases hvalue
  | blob => cases hvalue

theorem piecesText_values {row : List ColumnValue}
    (hrow : ∀ value ∈ row, value.representable = true) :
    '[' :: (piecesText (RowEncoder.valuesPieces row 0) ++ [']']) =
      rowText (.array (row.map ColumnValue.toJson)) := by
  have hpieces : piecesText (RowEncoder.valuesPieces row 0) =
      row.zipIdx.flatMap fun value =>
        (if 0 < value.2 then [','] else []) ++ piecesText (RowEncoder.valuePieces value.1) := by
    unfold RowEncoder.valuesPieces
    rw [piecesText_flatMap]
    simp only [piecesText_append, piecesText_comma]
  have hvalues : row.map (fun value => piecesText (RowEncoder.valuePieces value)) =
      row.map fun value => scalarText value.toJson :=
    List.map_congr_left fun value hvalue => piecesText_value (hrow value hvalue)
  rw [hpieces, flatMap_zipIdx_joined ']' fun value => piecesText (RowEncoder.valuePieces value),
    hvalues, rowText, List.map_map]
  rfl

theorem piecesText_row (columns maxRows : ℕ) {row : List ColumnValue × ℕ}
    (hrow : ∀ value ∈ row.1, value.representable = true) :
    piecesText (RowEncoder.rowPieces columns maxRows row) =
      (if 0 < row.2 then [','] else []) ++ rowText (.array (row.1.map ColumnValue.toJson)) := by
  rw [← piecesText_values hrow]
  unfold RowEncoder.rowPieces
  simp only [piecesText_append, piecesText_check, piecesText_comma, List.nil_append]
  rfl

theorem piecesText_names (columns : List String) :
    '[' :: (piecesText (RowEncoder.namesPieces columns) ++ [']']) =
      rowText (.array (columns.map .string)) := by
  have hpieces : piecesText (RowEncoder.namesPieces columns) =
      columns.zipIdx.flatMap fun column =>
        (if 0 < column.2 then [','] else []) ++ (RowEncoder.literal column.1).toList := by
    unfold RowEncoder.namesPieces
    rw [piecesText_flatMap]
    simp only [piecesText_append, piecesText_comma, piecesText_string]
  rw [hpieces, flatMap_zipIdx_joined ']' fun column => (RowEncoder.literal column).toList, rowText,
    List.map_map]
  rfl

/-- What the encoder writes for representable values is the document without its end. -/
theorem text_documentPieces (columns : List String) {rows : List (List ColumnValue)}
    (maxRows : ℕ) (hrows : ∀ row ∈ rows, ∀ value ∈ row, value.representable = true) :
    text (RowEncoder.documentPieces columns rows maxRows) ++ "]\x7d" = document columns rows := by
  have hbody : piecesText (rows.zipIdx.flatMap (RowEncoder.rowPieces columns.length maxRows)) =
      rows.zipIdx.flatMap fun row =>
        (if 0 < row.2 then [','] else []) ++ rowText (.array (row.1.map ColumnValue.toJson)) := by
    rw [piecesText_flatMap]
    refine List.flatMap_congr ?_
    intro row hrow
    exact piecesText_row _ _ (hrows row.1 (List.fst_mem_of_mem_zipIdx hrow))
  have htable : piecesText (rows.zipIdx.flatMap (RowEncoder.rowPieces columns.length maxRows)) ++
      [']'] =
      joined ']' ((rows.map fun row => .array (row.map ColumnValue.toJson)).map rowText) := by
    rw [hbody, List.map_map]
    exact flatMap_zipIdx_joined ']'
      (fun row : List ColumnValue => rowText (.array (row.map ColumnValue.toJson))) rows
  have hnames := piecesText_names columns
  unfold RowEncoder.documentPieces document resultTree
  rw [text_eq_ofList, ← String.toList_inj, String.toList_append, String.toList_ofList,
    String.toList_ofList, treeText]
  have hne : "rows" ≠ "columns" := by decide
  simp only [piecesText_append, List.map_cons, List.map_nil, joined, entryText, if_true,
    if_neg hne, String.toList_ofList]
  rw [tableText, ← htable, ← hnames]
  simp [piecesText, printString, jsonEscape]

/-! ## When nothing is refused -/

theorem forall_mem_flatMap {α β : Type} {condition : β → Prop} {values : List α}
    {pieces : α → List β} :
    (∀ piece ∈ values.flatMap pieces, condition piece) ↔
      ∀ value ∈ values, ∀ piece ∈ pieces value, condition piece := by
  constructor
  · intro hall value hvalue piece hpiece
    exact hall piece (List.mem_flatMap.mpr ⟨value, hvalue, hpiece⟩)
  · intro hall piece hpiece
    obtain ⟨value, hvalue, hmem⟩ := List.mem_flatMap.mp hpiece
    exact hall value hvalue piece hmem

theorem forall_mem_zipIdx {α : Type} {condition : α → Prop} {values : List α} :
    (∀ value ∈ values.zipIdx, condition value.1) ↔ ∀ value ∈ values, condition value := by
  constructor
  · intro hall value hvalue
    obtain ⟨index, hindex, rfl⟩ := List.getElem_of_mem hvalue
    exact hall (values[index], index) (List.mk_mem_zipIdx_iff_getElem?.mpr (by simp))
  · intro hall value hvalue
    exact hall value.1 (List.fst_mem_of_mem_zipIdx hvalue)

theorem forall_snd_lt_iff {α : Type} {bound : ℕ} {values : List α} :
    (∀ value ∈ values.zipIdx, value.2 < bound) ↔ values.length ≤ bound := by
  constructor
  · intro hall
    by_contra hover
    have hindex : bound < values.length := Nat.lt_of_not_le hover
    have hlt := hall (values[bound], bound) (List.mk_mem_zipIdx_iff_getElem?.mpr (by simp))
    exact absurd hlt (lt_irrefl bound)
  · intro hle value hvalue
    have hlt := List.snd_lt_of_mem_zipIdx hvalue
    omega

theorem isSome_check {condition : Bool} :
    (∀ piece ∈ RowEncoder.checkPieces condition, piece.isSome) ↔ condition = true := by
  cases condition <;> simp [RowEncoder.checkPieces]

theorem isSome_comma (condition : Bool) :
    ∀ piece ∈ RowEncoder.commaPieces condition, piece.isSome := by
  cases condition <;> simp [RowEncoder.commaPieces]

theorem isSome_string (value : String) :
    ∀ piece ∈ RowEncoder.stringPieces value, piece.isSome := by
  intro piece hpiece
  unfold RowEncoder.stringPieces at hpiece
  simp only [List.mem_cons, List.mem_append, List.mem_map, List.mem_nil_iff, or_false,
    List.cons_append] at hpiece
  rcases hpiece with rfl | ⟨char, -, rfl⟩ | rfl
  · rfl
  · rfl
  · rfl

theorem isSome_value {value : ColumnValue} :
    (∀ piece ∈ RowEncoder.valuePieces value, piece.isSome) ↔ value.representable = true := by
  cases value with
  | null => simp [RowEncoder.valuePieces, ColumnValue.representable]
  | integer value => simp [RowEncoder.valuePieces, ColumnValue.representable]
  | text value =>
    cases value with
    | none => simp [RowEncoder.valuePieces, ColumnValue.representable]
    | some content => exact iff_of_true (isSome_string content) rfl
  | real => simp [RowEncoder.valuePieces, ColumnValue.representable]
  | blob => simp [RowEncoder.valuePieces, ColumnValue.representable]

/-- Nothing of the document is refused exactly for few enough rows with one representable
value for each column. -/
theorem isSome_documentPieces {columns : List String} {rows : List (List ColumnValue)}
    {maxRows : ℕ} :
    (∀ piece ∈ RowEncoder.documentPieces columns rows maxRows, piece.isSome) ↔
      rows.length ≤ maxRows ∧ ∀ row ∈ rows, row.length = columns.length ∧
        ∀ value ∈ row, value.representable = true := by
  have hnames : ∀ piece ∈ RowEncoder.namesPieces columns, piece.isSome := by
    refine forall_mem_flatMap.mpr ?_
    intro column _
    exact List.forall_mem_append.mpr ⟨isSome_comma _, isSome_string _⟩
  have hvalues : ∀ row : List ColumnValue,
      (∀ piece ∈ RowEncoder.valuesPieces row 0, piece.isSome) ↔
        ∀ value ∈ row, value.representable = true := by
    intro row
    have hindex := @forall_mem_zipIdx _ (fun value => value.representable = true) row
    unfold RowEncoder.valuesPieces
    rw [forall_mem_flatMap, ← hindex]
    refine forall₂_congr ?_
    intro value _
    rw [List.forall_mem_append, isSome_value]
    exact and_iff_right (isSome_comma _)
  have hrow : ∀ row : List ColumnValue × ℕ,
      (∀ piece ∈ RowEncoder.rowPieces columns.length maxRows row, piece.isSome) ↔
        row.2 < maxRows ∧ row.1.length = columns.length ∧
          ∀ value ∈ row.1, value.representable = true := by
    intro row
    unfold RowEncoder.rowPieces
    simp only [List.forall_mem_append, isSome_check, hvalues, List.forall_mem_singleton,
      Option.isSome_some, decide_eq_true_eq, and_true, true_and]
    have hcomma := isSome_comma (0 < row.2)
    tauto
  have hindex := @forall_mem_zipIdx _ (fun row => row.length = columns.length ∧
    ∀ value ∈ row, value.representable = true) rows
  unfold RowEncoder.documentPieces
  rw [List.forall_mem_append, forall_mem_flatMap, ← forall_snd_lt_iff, ← hindex]
  simp only [hrow, List.forall_mem_append, List.forall_mem_singleton, Option.isSome_some,
    true_and, and_true]
  rw [and_iff_right hnames]
  exact ⟨fun hall => ⟨fun row hmem => (hall row hmem).1, fun row hmem => (hall row hmem).2⟩,
    fun hall row hmem => ⟨hall.1 row hmem, hall.2 row hmem⟩⟩

end Pieces

/-! ## The document is JSON -/

section Grammar

theorem spellsChar_plain {char : Char} (hquote : char ≠ '"') (hslash : char ≠ '\\')
    (hcontrol : ¬ char.toNat < 32) : SpellsChar char [char] :=
  .plain (Nat.not_lt.mp hcontrol) hquote hslash

theorem spellsChar_jsonEscape (char : Char) : SpellsChar char (jsonEscape char) := by
  have hspelled : ∀ code, char.toNat = code → char = Char.ofNat code := by
    intro code heq
    rw [← heq, Char.ofNat_toNat]
  unfold jsonEscape
  split_ifs with hquote hslash hback htab hline hform hreturn hcontrol
  · rw [hquote]
    exact .short rfl
  · rw [hslash]
    exact .short rfl
  · rw [hspelled 8 hback]
    exact .short rfl
  · rw [hspelled 9 htab]
    exact .short rfl
  · rw [hspelled 10 hline]
    exact .short rfl
  · rw [hspelled 12 hform]
    exact .short rfl
  · rw [hspelled 13 hreturn]
    exact .short rfl
  · exact spellsChar_control hcontrol
  · exact spellsChar_plain hquote hslash hcontrol

theorem spellsChar_characterText (char : Char) :
    SpellsChar char (RowEncoder.characterText char).toList := by
  by_cases hchar : RowEncoder.ShortControl char
  · rw [RowEncoder.characterText_of_short hchar]
    refine spellsChar_control ?_
    rcases hchar with height | htwelve
    · omega
    · omega
  · rw [RowEncoder.characterText_eq hchar]
    exact spellsChar_jsonEscape char

theorem spells_literal (value : String) :
    Spells (.string value) (RowEncoder.literal value).toList := by
  unfold RowEncoder.literal
  rw [String.toList_ofList]
  exact .string (spellsString_flatMap spellsChar_characterText value)

theorem spells_scalar (value : ColumnValue) : Spells value.toJson (scalarText value.toJson) := by
  cases value with
  | null => exact .null
  | integer value =>
    rw [ColumnValue.toJson, scalarText]
    unfold JsonNumber.ofI64
    by_cases hnegative : value < 0
    · rw [if_pos hnegative, printNumber]
      have hspelled := @Spells.negInt value.natAbs _ (spellsNatural_toDigits value.natAbs)
      have habs : -(value.natAbs : ℤ) = value := by omega
      rw [habs] at hspelled
      exact hspelled
    · rw [if_neg hnegative, printNumber]
      exact .posInt (spellsNatural_toDigits _)
  | text value =>
    cases value with
    | none => exact .null
    | some content => exact spells_literal content
  | real => exact .null
  | blob => exact .null

/-- The document of a result is a JSON text that spells its tree. -/
theorem spells_document (columns : List String) (rows : List (List ColumnValue)) :
    Spells (resultTree columns rows) (document columns rows).toList := by
  have hcolumns :
      Spells (.array (columns.map .string)) (rowText (.array (columns.map .string))) := by
    refine .array ?_
    intro value hvalue
    obtain ⟨column, -, rfl⟩ := List.mem_map.mp hvalue
    exact spells_literal column
  have hrow : ∀ row : List ColumnValue, Spells (.array (row.map ColumnValue.toJson))
      (rowText (.array (row.map ColumnValue.toJson))) := by
    intro row
    refine .array ?_
    intro value hvalue
    obtain ⟨found, -, rfl⟩ := List.mem_map.mp hvalue
    exact spells_scalar found
  have hrows : Spells (.array (rows.map fun row => .array (row.map ColumnValue.toJson)))
      (tableText (.array (rows.map fun row => .array (row.map ColumnValue.toJson)))) := by
    refine .array ?_
    intro value hvalue
    obtain ⟨row, -, rfl⟩ := List.mem_map.mp hvalue
    exact hrow row
  unfold document resultTree
  rw [String.toList_ofList, treeText]
  refine .object ?_ ?_
  · intro entry _
    exact spellsString_flatMap spellsChar_jsonEscape entry.1
  · intro entry hentry
    rcases List.mem_cons.mp hentry with rfl | hlast
    · exact hcolumns
    · rw [List.mem_singleton.mp hlast]
      exact hrows

end Grammar

/-! ## Reading the document -/

section Reading

/-- The values of a row, when they are such. -/
def decodeValue : Json → Option ColumnValue
  | .null => some .null
  | .number value => value.asI64.map .integer
  | .string content => some (.text (some content))
  | _ => none

def decodeRow : Json → Option (List ColumnValue)
  | .array values => values.mapM decodeValue
  | _ => none

def decodeName : Json → Option String
  | .string name => some name
  | _ => none

def decodeTree : Json → Option (List String × List (List ColumnValue))
  | .object [("columns", .array names), ("rows", .array rows)] => do
      let columns ← names.mapM decodeName
      let rows ← rows.mapM decodeRow
      some (columns, rows)
  | _ => none

/-- The columns and rows that a JSON text holds. -/
def decodeDocument (content : String) : Option (List String × List (List ColumnValue)) :=
  match Json.read (serdeRecursionLimit - 1) content.toList with
  | some (json, []) => decodeTree json
  | _ => none

variable {rest : List Char} {levels : ℕ}

theorem readString_characterText (char : Char) (rest : List Char) :
    readString ((RowEncoder.characterText char).toList ++ rest) =
      (readString rest).map fun found => (char :: found.1, found.2) := by
  by_cases hchar : RowEncoder.ShortControl char
  · have hcontrol : char.toNat < 32 := by
      rcases hchar with height | htwelve
      · omega
      · omega
    have hhigh := hexValue_hexLower (char.toNat / 16) (by omega)
    have hlow := hexValue_hexLower (char.toNat % 16) (by omega)
    have hvalue : Char.ofNat (16 * (char.toNat / 16) + char.toNat % 16) = char := by
      rw [Nat.div_add_mod, Char.ofNat_toNat]
    have hzero : hexValue '0' = 0 := by decide
    rw [RowEncoder.characterText_of_short hchar]
    cases hrest : readString rest <;>
      simp [readString, hrest, hhigh, hlow, hzero, hvalue]
  · rw [RowEncoder.characterText_eq hchar, readString_jsonEscape]

theorem read_literal (value : String) :
    Json.read levels ((RowEncoder.literal value).toList ++ rest) = some (.string value, rest) := by
  have hbody : ∀ chars : List Char,
      readString (chars.flatMap (fun char => (RowEncoder.characterText char).toList) ++
        '"' :: rest) = some (chars, rest) := by
    intro chars
    induction chars with
    | nil => rfl
    | cons char more ih =>
      rw [List.flatMap_cons, List.append_assoc, readString_characterText, ih]
      rfl
  have hopen : (RowEncoder.literal value).toList ++ rest =
      '"' :: (value.toList.flatMap (fun char => (RowEncoder.characterText char).toList) ++
        '"' :: rest) := by
    simp [RowEncoder.literal]
  rw [hopen, read_scalar (by decide) (by decide), readScalar, hbody]
  simp

theorem integral_ofI64 {value : ℤ} (hvalue : i64Min ≤ value ∧ value ≤ i64Max) :
    (Json.number (.ofI64 value)).Integral := by
  unfold i64Max at hvalue
  unfold JsonNumber.ofI64
  by_cases hnegative : value < 0
  · rw [if_pos hnegative]
    exact .negInt ⟨hvalue.1, hnegative⟩
  · rw [if_neg hnegative]
    exact .posInt (by omega)

theorem read_value {value : ColumnValue} (hvalue : value.Fits) (hrest : NoDigit rest) :
    Json.read levels (scalarText value.toJson ++ rest) = some (value.toJson, rest) := by
  cases value with
  | null => exact read_print .null (Nat.zero_le _) hrest
  | integer value =>
    exact read_print (integral_ofI64 hvalue) (Nat.zero_le _) hrest
  | text value =>
    cases value with
    | none => exact read_print .null (Nat.zero_le _) hrest
    | some content => exact read_literal content
  | real => exact read_print .null (Nat.zero_le _) hrest
  | blob => exact read_print .null (Nat.zero_le _) hrest

theorem literal_opens (value : String) :
    ∃ first more, (RowEncoder.literal value).toList = first :: more ∧ first ≠ ']' := by
  unfold RowEncoder.literal
  rw [String.toList_ofList]
  exact ⟨_, _, rfl, by decide⟩

theorem scalar_opens {value : ColumnValue} (hvalue : value.Fits) :
    ∃ first more, scalarText value.toJson = first :: more ∧ first ≠ ']' := by
  cases value with
  | null => exact ⟨_, _, rfl, by decide⟩
  | integer value => exact print_opens (integral_ofI64 hvalue)
  | text value =>
    cases value with
    | none => exact ⟨_, _, rfl, by decide⟩
    | some content => exact literal_opens content
  | real => exact ⟨_, _, rfl, by decide⟩
  | blob => exact ⟨_, _, rfl, by decide⟩

/-- An array is read back if its elements are. -/
theorem read_array {values : List Json} {write : Json → List Char}
    (hitem : ∀ value ∈ values, ∀ after, NoDigit after →
      Json.read levels (write value ++ after) = some (value, after))
    (hopens : ∀ value ∈ values, ∃ first more, write value = first :: more ∧ first ≠ ']')
    (rest : List Char) :
    Json.read (levels + 1) ('[' :: joined ']' (values.map write) ++ rest) =
      some (.array values, rest) := by
  rw [List.cons_append, Json.read, readBody_joined (by decide) (by decide) hitem hopens rest]
  rfl

theorem readEntry_of {item : List Char → Option (Json × List Char)} {name : String} {value : Json}
    {content after : List Char} (hvalue : item (content ++ after) = some (value, after)) :
    readEntry item (printString name ++ ':' :: content ++ after) = some ((name, value), after) := by
  have hopen : printString name ++ ':' :: content ++ after =
      '"' :: (name.toList.flatMap jsonEscape ++ '"' :: ':' :: (content ++ after)) := by
    simp [printString]
  rw [hopen, readEntry, readString_flatMap]
  simp [hvalue]

/-- The reader finds the tree of a result in its document. -/
theorem read_document (columns : List String) {rows : List (List ColumnValue)}
    (hfits : ∀ row ∈ rows, ∀ value ∈ row, value.Fits) :
    Json.read (levels + 3) (document columns rows).toList =
      some (resultTree columns rows, []) := by
  have hcolumns : ∀ after, Json.read (levels + 1 + 1)
      (rowText (.array (columns.map .string)) ++ after) =
        some (.array (columns.map .string), after) := by
    refine read_array ?_ ?_
    · intro value hvalue after _
      obtain ⟨column, -, rfl⟩ := List.mem_map.mp hvalue
      exact read_literal column
    · intro value hvalue
      obtain ⟨column, -, rfl⟩ := List.mem_map.mp hvalue
      exact literal_opens column
  have hrow : ∀ row ∈ rows, ∀ after, Json.read (levels + 1)
      (rowText (.array (row.map ColumnValue.toJson)) ++ after) =
        some (.array (row.map ColumnValue.toJson), after) := by
    intro row hmem
    refine read_array ?_ ?_
    · intro value hvalue after hafter
      obtain ⟨found, hfound, rfl⟩ := List.mem_map.mp hvalue
      exact read_value (hfits row hmem found hfound) hafter
    · intro value hvalue
      obtain ⟨found, hfound, rfl⟩ := List.mem_map.mp hvalue
      exact scalar_opens (hfits row hmem found hfound)
  have hrows : ∀ after, Json.read (levels + 1 + 1)
      (tableText (.array (rows.map fun row => .array (row.map ColumnValue.toJson))) ++ after) =
        some (.array (rows.map fun row => .array (row.map ColumnValue.toJson)), after) := by
    refine read_array ?_ ?_
    · intro value hvalue after _
      obtain ⟨row, hmem, rfl⟩ := List.mem_map.mp hvalue
      exact hrow row hmem after
    · intro value hvalue
      obtain ⟨row, hmem, rfl⟩ := List.mem_map.mp hvalue
      exact ⟨'[', _, rfl, by decide⟩
  have hbody : readBody (readEntry (Json.read (levels + 2))) '\x7d'
      (joined '\x7d'
        ([("columns", .array (columns.map .string)),
          ("rows", .array (rows.map fun row => .array (row.map ColumnValue.toJson)))].map
            entryText) ++ []) =
      some ([("columns", .array (columns.map .string)),
        ("rows", .array (rows.map fun row => .array (row.map ColumnValue.toJson)))], []) := by
    refine readBody_joined (by decide) (by decide) ?_ ?_ []
    · intro entry hentry after _
      rcases List.mem_cons.mp hentry with rfl | hlast
      · exact readEntry_of (hcolumns after)
      · rw [List.mem_singleton.mp hlast]
        exact readEntry_of (hrows after)
    · intro entry _
      exact ⟨'"', _, rfl, by decide⟩
  rw [List.append_nil] at hbody
  unfold document resultTree
  rw [String.toList_ofList, treeText, Json.read, hbody]
  rfl

theorem mapM_map_eq {α β : Type} {write : α → Json} {decode : Json → Option β} {found : α → β}
    {values : List α} (hvalues : ∀ value ∈ values, decode (write value) = some (found value)) :
    (values.map write).mapM decode = some (values.map found) := by
  induction values with
  | nil => rfl
  | cons value rest ih =>
    have hrest := ih fun other hother => hvalues other (List.mem_cons_of_mem _ hother)
    rw [List.map_cons, List.mapM_cons, hvalues value List.mem_cons_self, hrest]
    rfl

theorem decodeValue_toJson {value : ColumnValue} (hfits : value.Fits)
    (hvalue : value.representable = true) : decodeValue value.toJson = some value := by
  cases value with
  | null => rfl
  | integer value =>
    rw [ColumnValue.toJson, decodeValue, JsonNumber.asI64_ofI64 hfits.2]
    rfl
  | text value =>
    cases value with
    | none => cases hvalue
    | some content => rfl
  | real => cases hvalue
  | blob => cases hvalue

/-- The document of representable values is decoded to the same columns and rows. -/
theorem decodeDocument_document (columns : List String) {rows : List (List ColumnValue)}
    (hfits : ∀ row ∈ rows, ∀ value ∈ row, value.Fits)
    (hrows : ∀ row ∈ rows, ∀ value ∈ row, value.representable = true) :
    decodeDocument (document columns rows) = some (columns, rows) := by
  have hread := @read_document (serdeRecursionLimit - 4) columns rows hfits
  have hlevels : serdeRecursionLimit - 4 + 3 = serdeRecursionLimit - 1 := rfl
  have hcolumns : (columns.map Json.string).mapM decodeName = some columns := by
    rw [mapM_map_eq (fun column _ => show decodeName (.string column) = some (id column) from rfl),
      List.map_id]
  have hdecoded : (rows.map fun row => Json.array (row.map ColumnValue.toJson)).mapM decodeRow =
      some rows := by
    have hrow : ∀ row ∈ rows, decodeRow (.array (row.map ColumnValue.toJson)) = some (id row) := by
      intro row hmem
      rw [decodeRow, mapM_map_eq fun value hvalue =>
        show decodeValue value.toJson = some (id value) from
          decodeValue_toJson (hfits row hmem value hvalue) (hrows row hmem value hvalue),
        List.map_id]
      rfl
    rw [mapM_map_eq hrow, List.map_id]
  unfold decodeDocument
  rw [← hlevels, hread]
  simp only [resultTree, decodeTree, hcolumns, hdecoded]
  rfl

end Reading

/-! ## The row loop of a query -/

/-- The loop over the indices of the columns encodes the first values of the row. -/
theorem foldlM_range_eq {columns : ℕ} {row : List ColumnValue} (hrow : columns ≤ row.length)
    (encoder : RowEncoder) :
    (List.range columns).foldlM
        (fun encoder index => do
          let value ← Result.ofOption (mapSqlite .other) row[index]?
          encoder.pushColumn value)
        encoder =
      (row.take columns).foldlM RowEncoder.pushColumn encoder := by
  induction columns generalizing encoder with
  | zero => rfl
  | succ columns ih =>
    have hindex : columns < row.length := hrow
    rw [List.range_succ, List.foldlM_append, ih hindex.le, List.take_add_one,
      List.getElem?_eq_getElem hindex, List.foldlM_append]
    congr 1
    funext filled
    rw [List.foldlM_cons, List.getElem?_eq_getElem hindex]
    rfl

/-- A row that is wide enough is encoded by its first values; the others are not read. -/
theorem pushRow_eq_encodeRow {columns : ℕ} {row : List ColumnValue} (hrow : columns ≤ row.length)
    (encoder : RowEncoder) :
    encoder.pushRow columns row = encoder.encodeRow (row.take columns) := by
  unfold RowEncoder.pushRow RowEncoder.encodeRow
  congr 1
  funext opened
  rw [foldlM_range_eq hrow opened]

/-- A row that is too narrow is refused after its last value. -/
theorem pushRow_of_narrow {columns : ℕ} {row : List ColumnValue} (hrow : row.length < columns)
    (encoder : RowEncoder) :
    encoder.pushRow columns row =
      (do
        let opened ← encoder.beginRow
        let _ ← row.foldlM RowEncoder.pushColumn opened
        throw (mapSqlite .other)) := by
  obtain ⟨missing, rfl⟩ := Nat.exists_eq_add_of_lt hrow
  unfold RowEncoder.pushRow
  congr 1
  funext opened
  rw [Nat.add_assoc, List.range_add, List.foldlM_append, foldlM_range_eq le_rfl,
    List.take_length, bind_assoc]
  congr 1
  funext filled
  -- the first index past the row
  rw [List.range_succ_eq_map, List.map_cons, List.foldlM_cons, Nat.add_zero,
    List.getElem?_eq_none le_rfl]
  rfl

/-! ## Acceptance -/

theorem documentPieces_ne_nil (columns : List String) (rows : List (List ColumnValue))
    (maxRows : ℕ) : RowEncoder.documentPieces columns rows maxRows ≠ [] :=
  List.cons_ne_nil _ _

theorem encode_eq_ok_iff {columns : List String} {rows : List (List ColumnValue)}
    {maxBytes maxRows : ℕ} {content : String} :
    RowEncoder.encode columns rows maxBytes maxRows = .ok content ↔
      content = document columns rows ∧ rows.length ≤ maxRows ∧
        (∀ row ∈ rows, row.length = columns.length ∧
          ∀ value ∈ row, value.representable = true) ∧
        (document columns rows).utf8ByteSize ≤ min maxBytes maxResultBytes := by
  have hrun := RowEncoder.toOption_encode columns rows maxBytes maxRows
  have hoption : RowEncoder.encode columns rows maxBytes maxRows = .ok content ↔
      (RowEncoder.encode columns rows maxBytes maxRows).toOption = some content := by
    cases RowEncoder.encode columns rows maxBytes maxRows with
    | ok found => simp [Except.toOption]
    | error failure => simp [Except.toOption]
  have hend : ∀ buffer : String, (buffer ++ "]\x7d").utf8ByteSize =
      buffer.utf8ByteSize + terminatorBytes := by
    intro buffer
    rw [String.utf8ByteSize_append]
    rfl
  rw [hoption, hrun, Option.map_eq_some_iff]
  simp only [write_eq_some_iff (documentPieces_ne_nil columns rows maxRows),
    isSome_documentPieces, String.empty_append]
  constructor
  · rintro ⟨buffer, ⟨⟨hlength, hrows⟩, hbuffer, hle⟩, rfl⟩
    have hdocument := text_documentPieces columns maxRows fun row hrow => (hrows row hrow).2
    rw [← hbuffer] at hdocument
    refine ⟨hdocument, hlength, hrows, ?_⟩
    rw [← hdocument, hend]
    exact hle
  · rintro ⟨rfl, hlength, hrows, hle⟩
    have hdocument := text_documentPieces columns maxRows fun row hrow => (hrows row hrow).2
    refine ⟨_, ⟨⟨hlength, hrows⟩, rfl, ?_⟩, hdocument⟩
    rw [← hend, hdocument]
    exact hle

/-- The encoder accepts exactly the representable results whose document fits, keeps its
buffer within the bound at every piece, and its documents are JSON texts that are decoded to
the same columns and rows; 64-bit integers are written in full.  The row loop of a query
encodes the declared number of values of a row and refuses a row that has fewer. -/
theorem query_results_exact (columns : List String) (rows : List (List ColumnValue))
    (maxBytes maxRows : ℕ) (hfits : ∀ row ∈ rows, ∀ value ∈ row, value.Fits) :
    ((∃ content, RowEncoder.encode columns rows maxBytes maxRows = .ok content) ↔
      rows.length ≤ maxRows ∧
        (∀ row ∈ rows, row.length = columns.length ∧
          ∀ value ∈ row, value.representable = true) ∧
        (document columns rows).utf8ByteSize ≤ min maxBytes maxResultBytes) ∧
    ((RowEncoder.encode columns rows maxBytes maxRows).toOption =
        (write (min maxBytes maxResultBytes) terminatorBytes ""
          (RowEncoder.documentPieces columns rows maxRows)).map (fun buffer => buffer ++ "]\x7d") ∧
      ∀ before after buffer, RowEncoder.documentPieces columns rows maxRows = before ++ after →
        write (min maxBytes maxResultBytes) terminatorBytes "" before = some buffer →
        buffer.utf8ByteSize ≤ min maxBytes maxResultBytes) ∧
    (∀ content, RowEncoder.encode columns rows maxBytes maxRows = .ok content →
      content = document columns rows ∧ Spells (resultTree columns rows) content.toList ∧
        decodeDocument content = some (columns, rows)) ∧
    (∀ row ∈ rows, ∀ value, .integer value ∈ row →
      (Digits.fromI64 value).asStr = toString value) ∧
    ∀ row ∈ rows, ∀ encoder : RowEncoder,
      (row.length = columns.length →
        encoder.pushRow columns.length row = encoder.encodeRow row) ∧
      (columns.length ≤ row.length →
        encoder.pushRow columns.length row = encoder.encodeRow (row.take columns.length)) ∧
      (row.length < columns.length →
        encoder.pushRow columns.length row =
          (do
            let opened ← encoder.beginRow
            let _ ← row.foldlM RowEncoder.pushColumn opened
            throw (mapSqlite .other))) := by
  refine ⟨?_, ⟨RowEncoder.toOption_encode columns rows maxBytes maxRows, ?_⟩, ?_, ?_, ?_⟩
  · constructor
    · rintro ⟨content, hencode⟩
      exact (encode_eq_ok_iff.mp hencode).2
    · intro haccepted
      exact ⟨_, encode_eq_ok_iff.mpr ⟨rfl, haccepted⟩⟩
  · intro before after buffer _ hwrite
    by_cases hnil : before = []
    · rw [hnil, write_nil, Option.some.injEq] at hwrite
      rw [← hwrite]
      exact Nat.zero_le _
    · have hle := size_le_of_write hwrite hnil
      omega
  · intro content hencode
    obtain ⟨rfl, -, hrows, -⟩ := encode_eq_ok_iff.mp hencode
    exact ⟨rfl, spells_document columns rows,
      decodeDocument_document columns hfits fun row hrow => (hrows row hrow).2⟩
  · intro row hrow value hvalue
    exact Digits.asStr_fromI64 (hfits row hrow _ hvalue)
  · intro row _ encoder
    refine ⟨?_, fun hwide => pushRow_eq_encodeRow hwide encoder,
      fun hnarrow => pushRow_of_narrow hnarrow encoder⟩
    intro hwidth
    rw [pushRow_eq_encodeRow hwidth.ge, ← hwidth, List.take_length]

theorem query_results_exact_sample :
    RowEncoder.encode ["id", "name"] [[.integer 1, .text (some "alice")], [.integer 2, .null]]
        1024 16 =
      .ok "\x7b\"columns\":[\"id\",\"name\"],\"rows\":[[1,\"alice\"],[2,null]]\x7d" ∧
    decodeDocument
        "\x7b\"columns\":[\"id\",\"name\"],\"rows\":[[1,\"alice\"],[2,null]]\x7d" =
      some (["id", "name"], [[.integer 1, .text (some "alice")], [.integer 2, .null]]) := by
  have hencode : RowEncoder.encode ["id", "name"]
      [[.integer 1, .text (some "alice")], [.integer 2, .null]] 1024 16 =
      .ok "\x7b\"columns\":[\"id\",\"name\"],\"rows\":[[1,\"alice\"],[2,null]]\x7d" := by
    decide +kernel
  refine ⟨hencode, ?_⟩
  have hexact := query_results_exact ["id", "name"]
    [[.integer 1, .text (some "alice")], [.integer 2, .null]] 1024 16 (by
      intro row hrow value hvalue
      rcases List.mem_cons.mp hrow with rfl | hrow
      · rcases List.mem_cons.mp hvalue with rfl | hvalue
        · exact ⟨by decide, by decide⟩
        · rw [List.mem_singleton.mp hvalue]
          trivial
      · rw [List.mem_singleton.mp hrow] at hvalue
        rcases List.mem_cons.mp hvalue with rfl | hvalue
        · exact ⟨by decide, by decide⟩
        · rw [List.mem_singleton.mp hvalue]
          trivial)
  exact (hexact.2.2.1 _ hencode).2.2

end Krit.Databases
