import Krit.Lib.Budget
import Krit.ResultStrings

/-!
# Documents of query results

The encoder of query results writes its document piece by piece and keeps room for the end
of it.  Its run over the rows of a query is a run of pieces within a budget, the pieces
spell one document, and a JSON reader decodes the document to the columns and rows.
-/

namespace Krit.Databases

open Budget

/-! ## The spelling of integers -/

/-- The digits of a number in a fixed buffer, and the bytes in use. -/
structure Digits where
  bytes : List Char
  fits : bytes.length ≤ 20

namespace Digits

def empty : Digits := ⟨[], Nat.zero_le _⟩

def push (digits : Digits) (byte : Char) : Digits :=
  if hroom : digits.bytes.length < 20 then
    ⟨digits.bytes ++ [byte], by rw [List.length_append]; exact hroom⟩
  else digits

/-- The digits of a magnitude, least significant first, in a buffer of some size. -/
def scratch : ℕ → ℕ → List Char
  | 0, _ => []
  | size + 1, magnitude =>
      Char.ofNat ('0'.toNat + magnitude % 10) ::
        (if magnitude / 10 = 0 then [] else scratch size (magnitude / 10))

def fromI64 (value : ℤ) : Digits :=
  let signed := if value < 0 then empty.push '-' else empty
  (scratch 20 value.natAbs).reverse.foldl push signed

def asStr (digits : Digits) : String := String.ofList digits.bytes

theorem scratch_eq {size magnitude : ℕ} (hsize : magnitude < 10 ^ size) (hpos : 0 < size) :
    (scratch size magnitude).reverse = Nat.toDigits 10 magnitude := by
  induction size generalizing magnitude with
  | zero => exact absurd hpos (lt_irrefl 0)
  | succ size ih =>
    have hdigit : ∀ digit < 10, Char.ofNat ('0'.toNat + digit) = digit.digitChar := by decide
    rw [scratch, hdigit _ (Nat.mod_lt _ (by decide)), List.reverse_cons]
    by_cases hsmall : magnitude < 10
    · rw [if_pos (Nat.div_eq_of_lt hsmall), Nat.mod_eq_of_lt hsmall,
        Nat.toDigits_of_lt_base hsmall]
      rfl
    · have hbase : 10 ≤ magnitude := Nat.not_lt.mp hsmall
      have hmore : magnitude / 10 ≠ 0 := by omega
      have hnext : magnitude / 10 < 10 ^ size := by
        rw [Nat.pow_succ] at hsize
        omega
      have hleft : 0 < size := by
        rcases Nat.eq_zero_or_pos size with hzero | hleft
        · rw [hzero] at hnext
          omega
        · exact hleft
      rw [if_neg hmore, ih hnext hleft, Nat.toDigits_of_base_le (by decide) hbase]

theorem bytes_foldl_push {digits : Digits} {bytes : List Char}
    (hroom : digits.bytes.length + bytes.length ≤ 20) :
    (bytes.foldl push digits).bytes = digits.bytes ++ bytes := by
  induction bytes generalizing digits with
  | nil => rw [List.foldl_nil, List.append_nil]
  | cons byte rest ih =>
    rw [List.length_cons] at hroom
    have hpush : (digits.push byte).bytes = digits.bytes ++ [byte] := by
      unfold push
      rw [dif_pos (by omega)]
    have hnext : (digits.push byte).bytes.length + rest.length ≤ 20 := by
      rw [hpush, List.length_append, List.length_singleton]
      omega
    rw [List.foldl_cons, ih hnext, hpush, List.append_assoc, List.singleton_append]

/-- Every 64-bit integer is written in full. -/
theorem asStr_fromI64 {value : ℤ} (hvalue : i64Min ≤ value ∧ value ≤ i64Max) :
    (fromI64 value).asStr = toString value := by
  have hmagnitude : value.natAbs < 10 ^ 19 := by
    unfold i64Min i64Max at hvalue
    omega
  have hdigits := scratch_eq (hmagnitude.trans (by decide : 10 ^ 19 < 10 ^ 20)) (by decide)
  have hlength : (Nat.toDigits 10 value.natAbs).length ≤ 19 :=
    (Nat.length_toDigits_le_iff (by decide) (by decide)).mpr hmagnitude
  unfold asStr fromI64
  rw [hdigits, Int.toString_eq_repr, Int.repr_eq_if]
  by_cases hnegative : value < 0
  · have hroom : (empty.push '-').bytes.length + (Nat.toDigits 10 value.natAbs).length ≤ 20 := by
      change 1 + _ ≤ 20
      omega
    simp only [if_pos hnegative]
    have hnatAbs : (-value).toNat = value.natAbs := by omega
    rw [bytes_foldl_push hroom, if_neg (by omega), hnatAbs, ← String.toList_inj]
    simp [empty, push]
  · have hroom : empty.bytes.length + (Nat.toDigits 10 value.natAbs).length ≤ 20 := by
      change 0 + _ ≤ 20
      omega
    have hnatAbs : value.toNat = value.natAbs := by omega
    simp only [if_neg hnegative]
    rw [bytes_foldl_push hroom, if_pos (by omega), hnatAbs, ← String.toList_inj]
    simp [empty]

end Digits

namespace RowEncoder

/-! ## The run of the encoder over the rows of a query -/

def encodeRow (encoder : RowEncoder) (row : List ColumnValue) :
    Except DatabaseError RowEncoder := do
  let encoder ← encoder.beginRow
  let encoder ← row.foldlM pushColumn encoder
  encoder.endRow

def encode (columns : List String) (rows : List (List ColumnValue)) (maxBytes maxRows : ℕ) :
    Except DatabaseError String := do
  let encoder ← RowEncoder.new columns maxBytes maxRows
  let encoder ← rows.foldlM encodeRow encoder
  encoder.finish

/-! ## The pieces of a document -/

/-- A check that refuses, or writes nothing. -/
def checkPieces (condition : Bool) : List Piece := if condition then [] else [none]

def commaPieces (condition : Bool) : List Piece := if condition then [some ","] else []

def stringPieces (value : String) : List Piece :=
  some "\"" :: (value.toList.map fun char => some (characterText char)) ++ [some "\""]

def valuePieces : ColumnValue → List Piece
  | .null => [some "null"]
  | .integer value => [some (toString value)]
  | .text (some text) => stringPieces text
  | .text none | .real | .blob => [none]

def valuesPieces (values : List ColumnValue) (start : ℕ) : List Piece :=
  (values.zipIdx start).flatMap fun value =>
    commaPieces (0 < value.2) ++ valuePieces value.1

def namesPieces (columns : List String) : List Piece :=
  columns.zipIdx.flatMap fun column => commaPieces (0 < column.2) ++ stringPieces column.1

def rowPieces (columns maxRows : ℕ) (row : List ColumnValue × ℕ) : List Piece :=
  checkPieces (row.2 < maxRows) ++ (commaPieces (0 < row.2) ++ ([some "["] ++
    (valuesPieces row.1 0 ++ (checkPieces (row.1.length = columns) ++ [some "]"]))))

/-- What the run of the encoder writes, up to the end of the document. -/
def documentPieces (columns : List String) (rows : List (List ColumnValue)) (maxRows : ℕ) :
    List Piece :=
  ([some "\x7b\"columns\":["] ++ (namesPieces columns ++ [some "],\"rows\":["])) ++
    rows.zipIdx.flatMap (rowPieces columns.length maxRows)

/-! ## The run of the encoder is a run of its pieces -/

/-- A step of the encoder writes pieces; what it leaves depends on the buffer only. -/
def Writes (encoder : RowEncoder) (pieces : List Piece) (after : String → RowEncoder)
    (result : Except DatabaseError RowEncoder) : Prop :=
  result.toOption = (write encoder.budget terminatorBytes encoder.buffer pieces).map after

/-- The encoder with another buffer. -/
def withBuffer (encoder : RowEncoder) (buffer : String) : RowEncoder := { encoder with buffer }

variable {encoder : RowEncoder} {middle after : String → RowEncoder}
  {first second pieces : List Piece}

theorem Writes.bind {result : Except DatabaseError RowEncoder}
    {next : RowEncoder → Except DatabaseError RowEncoder}
    (hfirst : Writes encoder first middle result)
    (hmiddle : ∀ buffer, (middle buffer).buffer = buffer ∧ (middle buffer).budget = encoder.budget)
    (hsecond : ∀ buffer, Writes (middle buffer) second after (next (middle buffer))) :
    Writes encoder (first ++ second) after (result >>= next) := by
  unfold Writes at hfirst ⊢
  rw [write_append]
  cases result with
  | error failure =>
    have hnone := Option.map_eq_none_iff.mp hfirst.symm
    rw [hnone]
    rfl
  | ok written =>
    obtain ⟨buffer, hbuffer, hwritten⟩ := Option.map_eq_some_iff.mp hfirst.symm
    have hnext := hsecond buffer
    unfold Writes at hnext
    rw [(hmiddle buffer).1, (hmiddle buffer).2, hwritten] at hnext
    rw [hbuffer, Option.bind_some]
    exact hnext

theorem writes_pure (encoder : RowEncoder) :
    Writes encoder [] encoder.withBuffer (pure encoder) := rfl

theorem writes_throw (encoder : RowEncoder) (after : String → RowEncoder)
    (failure : DatabaseError) : Writes encoder [none] after (throw failure) := rfl

/-- The budget of a document is a number that a word can hold, so lengths do not overflow. -/
theorem reserve_eq_ok_iff (hbudget : encoder.budget ≤ maxResultBytes) {additional : ℕ} :
    encoder.reserve additional = .ok () ↔
      encoder.buffer.utf8ByteSize + additional + terminatorBytes ≤ encoder.budget := by
  have hword : maxResultBytes < Machine.wordCount := by decide
  unfold reserve
  simp only [Result.bind_eq_ok, Result.ofOption_eq_ok, Result.ensure_eq_ok, decide_eq_true_eq,
    Option.bind_eq_some_iff, Machine.checkedAdd, Option.ite_none_right_eq_some,
    Option.some.injEq]
  constructor
  · rintro ⟨required, ⟨length, ⟨-, rfl⟩, -, rfl⟩, hle⟩
    exact hle
  · intro hle
    exact ⟨_, ⟨_, ⟨by omega, rfl⟩, by omega, rfl⟩, hle⟩

theorem writes_pushLiteral (hbudget : encoder.budget ≤ maxResultBytes) (text : String) :
    Writes encoder [some text] encoder.withBuffer (encoder.pushLiteral text) := by
  have hreserve := @reserve_eq_ok_iff encoder hbudget text.utf8ByteSize
  unfold Writes write push fits pushLiteral
  cases hchecked : encoder.reserve text.utf8ByteSize with
  | error failure =>
    rw [hchecked] at hreserve
    have hover : ¬ encoder.buffer.utf8ByteSize + text.utf8ByteSize + terminatorBytes ≤
        encoder.budget := fun hle => by cases hreserve.mpr hle
    simp [hover, bind, Except.bind, Except.toOption]
  | ok value =>
    have hle := hreserve.mp hchecked
    simp [hle, bind, Except.bind, pure, Except.pure, Except.toOption, withBuffer]

theorem writes_check (condition : Bool) (failure : DatabaseError)
    {result : Except DatabaseError RowEncoder} (hresult : Writes encoder pieces after result) :
    Writes encoder (checkPieces condition ++ pieces) after
      (Result.ensure condition failure >>= fun _ => result) := by
  cases condition with
  | true => exact hresult
  | false => rfl

theorem writes_comma (hbudget : encoder.budget ≤ maxResultBytes) (condition : Prop)
    [Decidable condition] {next : RowEncoder → Except DatabaseError RowEncoder}
    (hnext : ∀ buffer, Writes (encoder.withBuffer buffer) pieces after
      (next (encoder.withBuffer buffer))) :
    Writes encoder (commaPieces condition ++ pieces) after
      (if condition then encoder.pushLiteral "," >>= next else pure encoder >>= next) := by
  unfold commaPieces
  by_cases hcondition : condition
  · simp only [hcondition, decide_true, if_true]
    exact (writes_pushLiteral hbudget ",").bind (fun _ => ⟨rfl, rfl⟩) hnext
  · simp only [hcondition, decide_false, if_false]
    exact (writes_pure encoder).bind (fun _ => ⟨rfl, rfl⟩) hnext

theorem writes_characters (hbudget : encoder.budget ≤ maxResultBytes) (chars : List Char) :
    Writes encoder (chars.map fun char => some (characterText char)) encoder.withBuffer
      (chars.foldlM (fun encoder char => encoder.pushLiteral (characterText char)) encoder) := by
  induction chars generalizing encoder with
  | nil => exact writes_pure encoder
  | cons char rest ih =>
    rw [List.foldlM_cons, List.map_cons, ← List.singleton_append]
    refine (writes_pushLiteral hbudget _).bind (fun _ => ⟨rfl, rfl⟩) ?_
    intro buffer
    exact @ih (encoder.withBuffer buffer) hbudget

theorem writes_pushJsonString (hbudget : encoder.budget ≤ maxResultBytes) (value : String) :
    Writes encoder (stringPieces value) encoder.withBuffer (encoder.pushJsonString value) := by
  unfold stringPieces pushJsonString
  rw [List.cons_append, ← List.singleton_append]
  refine (writes_pushLiteral hbudget _).bind (fun _ => ⟨rfl, rfl⟩) ?_
  intro opened
  refine (@writes_characters (encoder.withBuffer opened) hbudget _).bind (fun _ => ⟨rfl, rfl⟩) ?_
  intro written
  exact @writes_pushLiteral (encoder.withBuffer written) hbudget "\""

/-- The encoder after a value, but for what the value has written. -/
def valueEnded (encoder : RowEncoder) : RowEncoder :=
  { encoder with valuesInRow := encoder.valuesInRow + 1 }

theorem writes_pushColumn (hbudget : encoder.budget ≤ maxResultBytes) (value : ColumnValue) :
    Writes encoder (commaPieces (0 < encoder.valuesInRow) ++ valuePieces value)
      encoder.valueEnded.withBuffer (encoder.pushColumn value) := by
  unfold pushColumn
  refine writes_comma hbudget (0 < encoder.valuesInRow) ?_
  intro buffer
  have hcounted : (encoder.valueEnded.withBuffer buffer).budget ≤ maxResultBytes := hbudget
  cases value with
  | null => exact writes_pushLiteral hcounted "null"
  | integer value => exact writes_pushLiteral hcounted (toString value)
  | text value =>
    cases value with
    | none => exact writes_throw _ _ _
    | some text => exact writes_pushJsonString hcounted text
  | real => exact writes_throw _ _ _
  | blob => exact writes_throw _ _ _

/-- The encoder after the values of a row, but for what they have written. -/
def valuesEnded (encoder : RowEncoder) (row : List ColumnValue) : RowEncoder :=
  { encoder with valuesInRow := encoder.valuesInRow + row.length }

theorem writes_values (hbudget : encoder.budget ≤ maxResultBytes) (row : List ColumnValue) :
    Writes encoder (valuesPieces row encoder.valuesInRow) (encoder.valuesEnded row).withBuffer
      (row.foldlM pushColumn encoder) := by
  induction row generalizing encoder with
  | nil => exact writes_pure encoder
  | cons value rest ih =>
    have hended : encoder.valuesEnded (value :: rest) = encoder.valueEnded.valuesEnded rest := by
      unfold valuesEnded valueEnded
      rw [List.length_cons, RowEncoder.mk.injEq]
      refine ⟨rfl, rfl, rfl, rfl, rfl, rfl, ?_⟩
      simp only []
      omega
    rw [List.foldlM_cons, hended]
    unfold valuesPieces at ih ⊢
    rw [List.zipIdx_cons, List.flatMap_cons]
    refine (writes_pushColumn hbudget value).bind (fun _ => ⟨rfl, rfl⟩) ?_
    intro buffer
    exact @ih (encoder.valueEnded.withBuffer buffer) hbudget

/-- The encoder after a row, but for what the row has written. -/
def rowEnded (encoder : RowEncoder) (row : List ColumnValue) : RowEncoder :=
  { encoder with rows := encoder.rows + 1, rowOpen := false, valuesInRow := row.length }

/-- The encoder after the opening of a row, but for what it has written. -/
def rowBegun (encoder : RowEncoder) : RowEncoder :=
  { encoder with rowOpen := true, valuesInRow := 0 }

theorem writes_beginRow (hbudget : encoder.budget ≤ maxResultBytes) :
    Writes encoder
      (checkPieces (encoder.rows < encoder.maxRows) ++
        (commaPieces (0 < encoder.rows) ++ [some "["]))
      encoder.rowBegun.withBuffer encoder.beginRow := by
  unfold beginRow
  refine writes_check _ _ (writes_comma hbudget (0 < encoder.rows) ?_)
  intro buffer
  rw [← List.append_nil [some "["]]
  refine (@writes_pushLiteral (encoder.withBuffer buffer) hbudget "[").bind
    (fun _ => ⟨rfl, rfl⟩) ?_
  intro opened
  rfl

theorem writes_endRow (hbudget : encoder.budget ≤ maxResultBytes) :
    Writes encoder (checkPieces (encoder.valuesInRow = encoder.columns) ++ [some "]"])
      { encoder with rowOpen := false, rows := encoder.rows + 1 }.withBuffer encoder.endRow := by
  unfold endRow
  refine writes_check _ _ ?_
  rw [← List.append_nil [some "]"]]
  refine (writes_pushLiteral hbudget "]").bind (fun _ => ⟨rfl, rfl⟩) ?_
  intro closed
  rfl

theorem writes_encodeRow (hbudget : encoder.budget ≤ maxResultBytes) (row : List ColumnValue) :
    Writes encoder (rowPieces encoder.columns encoder.maxRows (row, encoder.rows))
      (encoder.rowEnded row).withBuffer (encoder.encodeRow row) := by
  have hpieces : rowPieces encoder.columns encoder.maxRows (row, encoder.rows) =
      (checkPieces (encoder.rows < encoder.maxRows) ++
        (commaPieces (0 < encoder.rows) ++ [some "["])) ++
      (valuesPieces row 0 ++ (checkPieces (row.length = encoder.columns) ++ [some "]"])) := by
    simp only [rowPieces, List.append_assoc]
  have hcounted : 0 + row.length = row.length := Nat.zero_add _
  unfold encodeRow
  rw [hpieces]
  refine (writes_beginRow hbudget).bind (fun _ => ⟨rfl, rfl⟩) ?_
  intro begun
  refine (@writes_values (encoder.rowBegun.withBuffer begun) hbudget row).bind
    (fun _ => ⟨rfl, rfl⟩) ?_
  intro filled
  have hend := @writes_endRow
    (((encoder.rowBegun.withBuffer begun).valuesEnded row).withBuffer filled) hbudget
  unfold rowEnded
  rw [← hcounted]
  exact hend

/-- The encoder after rows, but for what they have written. -/
def rowsEnded (encoder : RowEncoder) (rows : List (List ColumnValue)) : RowEncoder :=
  rows.foldl rowEnded encoder

theorem withBuffer_rowsEnded (encoder : RowEncoder) (rows : List (List ColumnValue))
    (opened closed : String) :
    ((encoder.withBuffer opened).rowsEnded rows).withBuffer closed =
      (encoder.rowsEnded rows).withBuffer closed := by
  induction rows generalizing encoder with
  | nil => rfl
  | cons row rest ih => exact ih (encoder.rowEnded row)

theorem rowsEnded_spec (encoder : RowEncoder) (rows : List (List ColumnValue)) :
    (encoder.rowsEnded rows).budget = encoder.budget ∧
      (encoder.rowOpen = false → (encoder.rowsEnded rows).rowOpen = false) := by
  induction rows generalizing encoder with
  | nil => exact ⟨rfl, fun hclosed => hclosed⟩
  | cons row rest ih =>
    obtain ⟨hbudget, hclosed⟩ := ih (encoder.rowEnded row)
    exact ⟨hbudget, fun _ => hclosed rfl⟩

theorem writes_rows (hbudget : encoder.budget ≤ maxResultBytes) (rows : List (List ColumnValue)) :
    Writes encoder ((rows.zipIdx encoder.rows).flatMap (rowPieces encoder.columns encoder.maxRows))
      (encoder.rowsEnded rows).withBuffer (rows.foldlM encodeRow encoder) := by
  induction rows generalizing encoder with
  | nil => exact writes_pure encoder
  | cons row rest ih =>
    rw [List.foldlM_cons, List.zipIdx_cons, List.flatMap_cons]
    refine (writes_encodeRow hbudget row).bind (fun _ => ⟨rfl, rfl⟩) ?_
    intro buffer
    have hrest := @ih ((encoder.rowEnded row).withBuffer buffer) hbudget
    have hafter : (((encoder.rowEnded row).withBuffer buffer).rowsEnded rest).withBuffer =
        (encoder.rowsEnded (row :: rest)).withBuffer := by
      funext closed
      exact withBuffer_rowsEnded _ _ _ _
    rw [hafter] at hrest
    exact hrest

theorem writes_names (hbudget : encoder.budget ≤ maxResultBytes) (columns : List (String × ℕ)) :
    Writes encoder
      (columns.flatMap fun column => commaPieces (0 < column.2) ++ stringPieces column.1)
      encoder.withBuffer
      (columns.foldlM
        (fun encoder column => do
          let encoder ← if column.2 > 0 then encoder.pushLiteral "," else pure encoder
          encoder.pushJsonString column.1)
        encoder) := by
  induction columns generalizing encoder with
  | nil => exact writes_pure encoder
  | cons column rest ih =>
    rw [List.foldlM_cons, List.flatMap_cons]
    have hname : Writes encoder (commaPieces (0 < column.2) ++ stringPieces column.1)
        encoder.withBuffer (do
          let encoder ← if column.2 > 0 then encoder.pushLiteral "," else pure encoder
          encoder.pushJsonString column.1) := by
      refine writes_comma hbudget (0 < column.2) ?_
      intro buffer
      exact @writes_pushJsonString (encoder.withBuffer buffer) hbudget column.1
    refine hname.bind (fun _ => ⟨rfl, rfl⟩) ?_
    intro buffer
    exact @ih (encoder.withBuffer buffer) hbudget

/-- The encoder before any row, but for what it has written. -/
def begun (columns : List String) (maxBytes maxRows : ℕ) : RowEncoder :=
  { buffer := ""
    budget := min maxBytes maxResultBytes
    columns := columns.length
    rows := 0
    maxRows
    rowOpen := false
    valuesInRow := 0 }

theorem writes_new (columns : List String) (maxBytes maxRows : ℕ) :
    Writes (begun columns maxBytes maxRows)
      ([some "\x7b\"columns\":["] ++ (namesPieces columns ++ [some "],\"rows\":["]))
      (begun columns maxBytes maxRows).withBuffer (RowEncoder.new columns maxBytes maxRows) := by
  have hbudget : (begun columns maxBytes maxRows).budget ≤ maxResultBytes := Nat.min_le_right _ _
  unfold RowEncoder.new
  refine (writes_pushLiteral hbudget _).bind (fun _ => ⟨rfl, rfl⟩) ?_
  intro opened
  refine (@writes_names ((begun columns maxBytes maxRows).withBuffer opened) hbudget _).bind
    (fun _ => ⟨rfl, rfl⟩) ?_
  intro named
  exact @writes_pushLiteral ((begun columns maxBytes maxRows).withBuffer named) hbudget _

/-- The run of the encoder writes the pieces of the document, and ends it. -/
theorem toOption_encode (columns : List String) (rows : List (List ColumnValue))
    (maxBytes maxRows : ℕ) :
    (encode columns rows maxBytes maxRows).toOption =
      (write (min maxBytes maxResultBytes) terminatorBytes ""
        (documentPieces columns rows maxRows)).map fun buffer => buffer ++ "]\x7d" := by
  have hbudget : (begun columns maxBytes maxRows).budget ≤ maxResultBytes := Nat.min_le_right _ _
  have hrun : Writes (begun columns maxBytes maxRows) (documentPieces columns rows maxRows)
      ((begun columns maxBytes maxRows).rowsEnded rows).withBuffer
      (RowEncoder.new columns maxBytes maxRows >>= fun encoder =>
        rows.foldlM encodeRow encoder) := by
    unfold documentPieces
    refine (writes_new columns maxBytes maxRows).bind (fun _ => ⟨rfl, rfl⟩) ?_
    intro buffer
    have hrows := @writes_rows ((begun columns maxBytes maxRows).withBuffer buffer) hbudget rows
    have hafter : (((begun columns maxBytes maxRows).withBuffer buffer).rowsEnded rows).withBuffer =
        ((begun columns maxBytes maxRows).rowsEnded rows).withBuffer := by
      funext closed
      exact withBuffer_rowsEnded _ _ _ _
    rw [hafter] at hrows
    exact hrows
  have hclosed := (rowsEnded_spec (begun columns maxBytes maxRows) rows).2 rfl
  unfold Writes at hrun
  have hencode : encode columns rows maxBytes maxRows =
      (RowEncoder.new columns maxBytes maxRows >>= fun encoder =>
        rows.foldlM encodeRow encoder) >>= fun encoder => encoder.finish := by
    unfold encode
    rw [bind_assoc]
  rw [hencode]
  cases hresult : (RowEncoder.new columns maxBytes maxRows >>= fun encoder =>
      rows.foldlM encodeRow encoder) with
  | error failure =>
    rw [hresult] at hrun
    have hnone := Option.map_eq_none_iff.mp hrun.symm
    change none = Option.map _ (write (begun columns maxBytes maxRows).budget _
      (begun columns maxBytes maxRows).buffer _)
    rw [hnone]
    rfl
  | ok written =>
    rw [hresult] at hrun
    obtain ⟨buffer, hbuffer, hwritten⟩ := Option.map_eq_some_iff.mp hrun.symm
    change _ = Option.map _ (write (begun columns maxBytes maxRows).budget _
      (begun columns maxBytes maxRows).buffer _)
    rw [hbuffer, ← hwritten]
    change (finish (withBuffer _ buffer)).toOption = some (buffer ++ "]\x7d")
    unfold finish withBuffer
    rw [hclosed]
    rfl

end RowEncoder

end Krit.Databases
