import Krit.Basic

/-!
# Operators and the standard library on scalars

Checked 64-bit arithmetic, comparison, the percent-encoding builders behind
`url_path_segment` and `url_query`, the byte-wise string tests, and the text of
JSON strings.  The evaluator and Core share these definitions.
-/

namespace Krit

/-! ## Checked integers -/

def checkedAdd (left right : ℤ) : Option ℤ := i64TryFrom (left + right)

def checkedSub (left right : ℤ) : Option ℤ := i64TryFrom (left - right)

def checkedMul (left right : ℤ) : Option ℤ := i64TryFrom (left * right)

/-- Division truncates; the caller has excluded a zero divisor. -/
def checkedDiv (left right : ℤ) : Option ℤ := i64TryFrom (left.tdiv right)

/-- `checked_rem` overflows exactly where the division does. -/
def checkedRem (left right : ℤ) : Option ℤ :=
  if left = i64Min ∧ right = -1 then none else i64TryFrom (left.tmod right)

def checkedNeg (value : ℤ) : Option ℤ := i64TryFrom (-value)

/-- `K4005` where a checked operation has no result. -/
def orOverflow (result : Option ℤ) : Except ErrorCode ℤ :=
  match result with
  | some value => .ok value
  | none => .error .k4005

/-- The arithmetic operators on integers; the other operators have no integer
result. -/
def integerArithmetic (operator : BinaryOperator) (left right : ℤ) :
    Option (Except ErrorCode ℤ) :=
  match operator with
  | .add => some (orOverflow (checkedAdd left right))
  | .subtract => some (orOverflow (checkedSub left right))
  | .multiply => some (orOverflow (checkedMul left right))
  | .divide =>
      some (if right = 0 then .error .k4004 else orOverflow (checkedDiv left right))
  | .remainder =>
      some (if right = 0 then .error .k4004 else orOverflow (checkedRem left right))
  | _ => none

/-! ## Ordering -/

def stringBytes (text : String) : List ℕ :=
  text.toUTF8.toList.map UInt8.toNat

def compareInts (left right : ℤ) : Ordering :=
  if left < right then .lt else if left = right then .eq else .gt

/-- Strings order byte-lexicographically over their UTF-8 encoding. -/
def compareStrings (left right : String) : Ordering :=
  if stringBytes left < stringBytes right then .lt
  else if stringBytes left = stringBytes right then .eq
  else .gt

/-- The ordering operators; the other operators do not order. -/
def orderingResult (operator : BinaryOperator) (ordering : Ordering) : Option Bool :=
  match operator with
  | .less => some ordering.isLT
  | .lessEqual => some ordering.isLE
  | .greater => some ordering.isGT
  | .greaterEqual => some ordering.isGE
  | _ => none

/-! ## String tests -/

def stringContains (text part : String) : Bool :=
  (stringBytes text).tails.any fun rest => (stringBytes part).isPrefixOf rest

def stringStartsWith (text part : String) : Bool :=
  (stringBytes part).isPrefixOf (stringBytes text)

def stringEndsWith (text part : String) : Bool :=
  (stringBytes part).isSuffixOf (stringBytes text)

/-! ## Request targets -/

/-- The code of an ASCII character. -/
def ascii (char : Char) : ℕ := char.toNat

def isAsciiControl (byte : ℕ) : Bool := byte < 32 || byte == 127

def isAsciiWhitespace (byte : ℕ) : Bool :=
  byte == 32 || byte == 9 || byte == 10 || byte == 12 || byte == 13

def isHexDigit (byte : ℕ) : Bool :=
  (ascii '0' ≤ byte && byte ≤ ascii '9') || (ascii 'a' ≤ byte && byte ≤ ascii 'f') ||
    (ascii 'A' ≤ byte && byte ≤ ascii 'F')

/-- The RFC 3986 unreserved characters. -/
def isUnreserved (byte : ℕ) : Bool :=
  (ascii 'A' ≤ byte && byte ≤ ascii 'Z') || (ascii 'a' ≤ byte && byte ≤ ascii 'z') ||
    (ascii '0' ≤ byte && byte ≤ ascii '9') || byte == ascii '-' || byte == ascii '.' ||
    byte == ascii '_' || byte == ascii '~'

def hexUpper (digit : ℕ) : Char :=
  if digit < 10 then Char.ofNat (48 + digit) else Char.ofNat (55 + digit)

def percentEncode (text : String) : String :=
  String.ofList ((stringBytes text).flatMap fun byte =>
    if isUnreserved byte then [Char.ofNat byte]
    else ['%', hexUpper (byte / 16), hexUpper (byte % 16)])

inductive PathSegmentError where
  | empty
  | forbiddenByte
  | escapeLike
  | dotSegment
  deriving DecidableEq, Repr

def holdsEscape : List ℕ → Bool
  | first :: second :: rest =>
      (first == ascii '%' &&
        (isHexDigit second || second == ascii 'u' || second == ascii 'U')) ||
        holdsEscape (second :: rest)
  | _ => false

def trimAscii (bytes : List ℕ) : List ℕ :=
  ((bytes.dropWhile isAsciiWhitespace).reverse.dropWhile isAsciiWhitespace).reverse

def isDotSegment (decoded : List ℕ) : Bool :=
  let name := trimAscii (decoded.takeWhile fun byte =>
    !(byte == ascii ';' || byte == ascii '?' || byte == ascii '#'))
  name == [ascii '.'] || name == [ascii '.', ascii '.']

def PathSegmentError.check (text : String) : Option PathSegmentError :=
  let bytes := stringBytes text
  if bytes.isEmpty then some .empty
  else if bytes.any fun byte =>
      byte == ascii '/' || byte == ascii '\\' || isAsciiControl byte then
    some .forbiddenByte
  else if holdsEscape bytes then some .escapeLike
  else if isDotSegment bytes then some .dotSegment
  else none

def PathSegmentError.message : PathSegmentError → String
  | .empty => "path segment is empty"
  | .forbiddenByte =>
      "path segment contains `/`, `\\`, or an ASCII control character"
  | .escapeLike => "path segment contains `%` followed by a hex digit, `u`, or `U`"
  | .dotSegment => "path segment reads as `.` or `..`"

def encodePathSegment (text : String) : Except PathSegmentError String :=
  match PathSegmentError.check text with
  | some error => .error error
  | none => .ok (percentEncode text)

def encodeQuery (pairs : List (String × String)) : String :=
  String.intercalate "&"
    (pairs.map fun pair => percentEncode pair.1 ++ "=" ++ percentEncode pair.2)

/-! ## JSON text -/

def hexLower (digit : ℕ) : Char :=
  if digit < 10 then Char.ofNat (48 + digit) else Char.ofNat (87 + digit)

/-- The escapes of the JSON writer: the two-character ones, and the six-character
form for the other control characters. -/
def jsonEscape (char : Char) : List Char :=
  if char = '"' then ['\\', '"']
  else if char = '\\' then ['\\', '\\']
  else if char.toNat = 8 then ['\\', 'b']
  else if char.toNat = 9 then ['\\', 't']
  else if char.toNat = 10 then ['\\', 'n']
  else if char.toNat = 12 then ['\\', 'f']
  else if char.toNat = 13 then ['\\', 'r']
  else if char.toNat < 32 then
    ['\\', 'u', '0', '0', hexLower (char.toNat / 16), hexLower (char.toNat % 16)]
  else [char]

def jsonString (text : String) : String :=
  String.ofList ('"' :: (text.toList.flatMap jsonEscape ++ ['"']))

def jsonArray (elements : List String) : String :=
  "[" ++ String.intercalate "," elements ++ "]"

/-- An object; a brace of the text is written by its code. -/
def jsonObject (members : List (String × String)) : String :=
  "\x7b" ++ String.intercalate "," (members.map fun member =>
    jsonString member.1 ++ ":" ++ member.2) ++ "\x7d"

end Krit
