import Krit.Matching
import Mathlib.Data.String.Basic

/-!
# JSON conversion and equality of values

`value_equal`, `json_encode` and `json_decode`.  Every value has a canonical form with the
fields of its records in the order of their names; equality is equality of canonical forms,
and decoding what was encoded yields the canonical form.
-/

namespace Krit

/-! ## JSON trees -/

/-- A number as the JSON reader keeps it. -/
inductive JsonNumber where
  | posInt (value : ℕ)
  | negInt (value : ℤ)
  | float (bits : UInt64)
deriving DecidableEq, Repr

namespace JsonNumber

def ofI64 (value : ℤ) : JsonNumber :=
  if value < 0 then .negInt value else .posInt value.toNat

def asI64 : JsonNumber → Option ℤ
  | .posInt value => if (value : ℤ) ≤ i64Max then some value else none
  | .negInt value => some value
  | .float _ => none

theorem asI64_ofI64 {value : ℤ} (hvalue : value ≤ i64Max) : (ofI64 value).asI64 = some value := by
  unfold ofI64
  split_ifs with hsign
  · rfl
  · have hnat : (value.toNat : ℤ) = value := Int.toNat_of_nonneg (by omega)
    rw [asI64, hnat, if_pos hvalue]

end JsonNumber

/-- A JSON tree; the entries of an object are those of its map, in the map's order. -/
inductive Json where
  | null
  | bool (value : Bool)
  | number (value : JsonNumber)
  | string (value : String)
  | array (values : List Json)
  | object (entries : List (String × Json))

namespace Json

def isNull : Json → Bool
  | .null => true
  | _ => false

/-- `Map::insert`: the map is ordered by name. -/
def insert (name : String) (value : Json) : List (String × Json) → List (String × Json)
  | [] => [(name, value)]
  | (other, old) :: rest =>
      if name = other then (name, value) :: rest
      else if name < other then (name, value) :: (other, old) :: rest
      else (other, old) :: insert name value rest

mutual

/-- How many arrays and objects nest in a tree. -/
def depth : Json → ℕ
  | .array values => 1 + depthOfAll values
  | .object entries => 1 + depthOfEntries entries
  | _ => 0

def depthOfAll : List Json → ℕ
  | [] => 0
  | value :: rest => max value.depth (depthOfAll rest)

def depthOfEntries : List (String × Json) → ℕ
  | [] => 0
  | (_, value) :: rest => max value.depth (depthOfEntries rest)

end

theorem depthOfAll_le {values : List Json} {bound : ℕ} :
    depthOfAll values ≤ bound ↔ ∀ value ∈ values, value.depth ≤ bound := by
  induction values with
  | nil => simp [depthOfAll]
  | cons value rest ih => simp [depthOfAll, ih]

theorem depthOfEntries_le {entries : List (String × Json)} {bound : ℕ} :
    depthOfEntries entries ≤ bound ↔ ∀ entry ∈ entries, entry.2.depth ≤ bound := by
  induction entries with
  | nil => simp [depthOfEntries]
  | cons entry rest ih => simp [depthOfEntries, ih]

/-- A tree whose numbers are integers of the JSON reader and whose maps are ordered: each
entry comes before those with greater names. -/
inductive Integral : Json → Prop
  | null : Integral .null
  | bool (value : Bool) : Integral (.bool value)
  | posInt {value : ℕ} (hvalue : value < 2 ^ 64) : Integral (.number (.posInt value))
  | negInt {value : ℤ} (hvalue : i64Min ≤ value ∧ value < 0) : Integral (.number (.negInt value))
  | string (value : String) : Integral (.string value)
  | array {values : List Json} (hvalues : ∀ value ∈ values, Integral value) :
      Integral (.array values)
  | object {entries : List (String × Json)}
      (hordered : entries.Pairwise fun left right => left.1 < right.1)
      (hentries : ∀ entry ∈ entries, Integral entry.2) : Integral (.object entries)

end Json

/-- The JSON reader and writer (`serde_json::from_str` and `serde_json::to_string`). -/
structure SerdeJson where
  toString : Json → Except String String
  fromStr : String → Except String Json

/-- The reader refuses what nests deeper. -/
def serdeRecursionLimit : ℕ := 128

/-- The reader parses what the writer printed, as long as it nests below its limit. -/
def SerdeJson.RoundTrips (serde : SerdeJson) : Prop :=
  ∀ json : Json, json.Integral → json.depth < serdeRecursionLimit →
    ∃ text, serde.toString json = .ok text ∧ serde.fromStr text = .ok json

/-! ## Fields in order -/

/-- The fields in the order of their names. -/
def sortFields {α : Type} (fields : List (String × α)) : List (String × α) :=
  fields.insertionSort fun left right => left.1 ≤ right.1

/-! ## Equality -/

mutual

def Value.containsFunction : Value → Bool
  | .function _ | .builtin _ => true
  | .list elements => Value.anyFunction elements
  | .record fields => Value.anyFieldFunction fields
  | .variant _ (some payload) => payload.containsFunction
  | _ => false

def Value.anyFunction : List Value → Bool
  | [] => false
  | value :: rest => value.containsFunction || Value.anyFunction rest

def Value.anyFieldFunction : List (String × Value) → Bool
  | [] => false
  | (_, value) :: rest => value.containsFunction || Value.anyFieldFunction rest

end

mutual

def valueEqual (left right : Value) (span : Span) : Except Diagnostic Bool :=
  if left.containsFunction || right.containsFunction then
    .error (.new .k4006 "functions cannot be compared" span)
  else
    match left, right with
    | .integer left, .integer right => .ok (left == right)
    | .boolean left, .boolean right => .ok (left == right)
    | .string left, .string right => .ok (left == right)
    | .unit, .unit => .ok true
    | .list left, .list right =>
        if left.length ≠ right.length then .ok false else elementsEqual left right span
    | .record left, .record right =>
        if left.length ≠ right.length then .ok false else fieldsEqual left right span
    | .variant leftName leftPayload, .variant rightName rightPayload =>
        if leftName ≠ rightName then .ok false
        else
          match leftPayload, rightPayload with
          | none, none => .ok true
          | some left, some right => valueEqual left right span
          | _, _ => .ok false
    | _, _ => .ok false

/-- The loop over the elements of both lists. -/
def elementsEqual : List Value → List Value → Span → Except Diagnostic Bool
  | left :: lefts, right :: rights, span => do
      if ← valueEqual left right span then elementsEqual lefts rights span else pure false
  | _, _, _ => .ok true

/-- The loop over the fields of the left record. -/
def fieldsEqual : List (String × Value) → List (String × Value) → Span → Except Diagnostic Bool
  | [], _, _ => .ok true
  | (name, left) :: lefts, rights, span =>
      match rights.find? (fun field => field.1 == name) with
      | none => .ok false
      | some (_, right) => do
          if ← valueEqual left right span then fieldsEqual lefts rights span else pure false

end

/-! ## Encoding -/

/-- The loop that converts the fields in order and inserts each into the map. -/
def insertFields : List (String × Json) → List (String × Except Diagnostic Json) →
    Except Diagnostic (List (String × Json))
  | object, [] => .ok object
  | object, (name, value) :: rest => do
      let value ← value
      insertFields (Json.insert name value object) rest

mutual

def valueToJson : Value → Span → Except Diagnostic Json
  | .integer value, _ => .ok (.number (.ofI64 value))
  | .boolean value, _ => .ok (.bool value)
  | .string value, _ => .ok (.string value)
  | .unit, _ => .ok .null
  | .list elements, span => (elementsToJson elements span).map .array
  | .record fields, span =>
      (insertFields [] (sortFields (fieldsToJson fields span))).map .object
  | .variant name none, _ => .ok (.object (Json.insert name.asStr .null []))
  | .variant name (some payload), span => do
      let payload ← valueToJson payload span
      pure (.object (Json.insert name.asStr payload []))
  | .function _, span | .builtin _, span =>
      .error (.new .k4008 "functions cannot be encoded as JSON" span)

def elementsToJson : List Value → Span → Except Diagnostic (List Json)
  | [], _ => .ok []
  | value :: rest, span => do
      let json ← valueToJson value span
      let more ← elementsToJson rest span
      pure (json :: more)

/-- The conversions of the fields, which run in the order of the names. -/
def fieldsToJson : List (String × Value) → Span → List (String × Except Diagnostic Json)
  | [], _ => []
  | (name, value) :: rest, span => (name, valueToJson value span) :: fieldsToJson rest span

end

def jsonEncode (serde : SerdeJson) (value : Value) (span : Span) : Except Diagnostic Value := do
  let json ← valueToJson value span
  match serde.toString json with
  | .ok text => .ok (.string text)
  | .error error => .error (.new .k4008 ("JSON encoding failed: " ++ error) span)

/-! ## Decoding -/

def depthLimitExceeded (span : Span) : Diagnostic :=
  .new .k4010
    ("value depth limit exceeded: lists, records, and variants may nest at most " ++
      toString maxValueDepth ++ " levels") span

def Value.recordValue (fields : List (String × Value)) (span : Span) : Except Diagnostic Value :=
  if (Value.record fields).depth > maxValueDepth then .error (depthLimitExceeded span)
  else .ok (.record fields)

def Value.variantValue (name : VariantName) (payload : Value) (span : Span) :
    Except Diagnostic Value :=
  if (Value.variant name (some payload)).depth > maxValueDepth then
    .error (depthLimitExceeded span)
  else .ok (.variant name (some payload))

/-- The tags of the variants. -/
def variantTag (tag : String) : Option VariantName :=
  if tag = "Some" then some .some
  else if tag = "None" then some .none
  else if tag = "Ok" then some .ok
  else if tag = "Err" then some .err
  else none

mutual

def jsonToValue : Json → Span → Except Diagnostic Value
  | .null, _ => .ok .unit
  | .bool value, _ => .ok (.boolean value)
  | .number value, span =>
      match value.asI64 with
      | some value => .ok (.integer value)
      | none => .error (.new .k4009 "JSON number is not a signed 64-bit integer" span)
  | .string value, _ => .ok (.string value)
  | .array values, span => do
      let elements ← jsonToElements values span
      Value.listValue elements span
  | .object [(tag, payload)], span =>
      -- an object with one entry is a variant if its name is a tag
      match variantTag tag with
      | some .none =>
          if payload.isNull then .ok (.variant .none none)
          else .error (.new .k4009 "the JSON `None` tag must contain null" span)
      | some name => do
          let payload ← jsonToValue payload span
          Value.variantValue name payload span
      | none => do
          let value ← jsonToValue payload span
          Value.recordValue (sortFields [(tag, value)]) span
  | .object entries, span => do
      let fields ← jsonToFields entries span
      Value.recordValue (sortFields fields) span

def jsonToElements : List Json → Span → Except Diagnostic (List Value)
  | [], _ => .ok []
  | json :: rest, span => do
      let value ← jsonToValue json span
      let more ← jsonToElements rest span
      pure (value :: more)

def jsonToFields : List (String × Json) → Span → Except Diagnostic (List (String × Value))
  | [], _ => .ok []
  | (name, json) :: rest, span => do
      let value ← jsonToValue json span
      let more ← jsonToFields rest span
      pure ((name, value) :: more)

end

def jsonDecode (serde : SerdeJson) (value : Value) (span : Span) : Except Diagnostic Value :=
  match value with
  | .string text =>
      match serde.fromStr text with
      | .ok json => jsonToValue json span
      | .error error => .error (.new .k4009 ("invalid JSON: " ++ error) span)
  | other => .error (.new .k4001 ("expected string, found " ++ other.kind) span)

end Krit
