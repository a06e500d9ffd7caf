import Krit.Database
import Krit.Lib.SqlLexemes
import Krit.Lib.Utf8Search

/-!
# The scan of catalog SQL

Two checks keep a catalog entry to one statement of an allowed kind.  Both scan the bytes
of the text by hand.  A scan ends with a refusal, or in a panic when it indexes past the
end or slices inside a character.
-/

namespace Krit.Databases

open Utf8 Sql

/-- How a scan stops early. -/
inductive Stop where
  | refused (error : DatabaseError)
  | panicked
  deriving DecidableEq

abbrev Scan := Except Stop

namespace CatalogSql

def refuse {α : Type} (message : String) : Scan α := .error (.refused ⟨.catalog, message⟩)

def forbiddenKeywords : List (List Char) :=
  [['a', 'l', 't', 'e', 'r'], ['a', 'n', 'a', 'l', 'y', 'z', 'e'], ['a', 't', 't', 'a', 'c', 'h'],
    ['b', 'e', 'g', 'i', 'n'], ['c', 'o', 'm', 'm', 'i', 't'], ['c', 'r', 'e', 'a', 't', 'e'],
    ['d', 'e', 't', 'a', 'c', 'h'], ['d', 'r', 'o', 'p'], ['e', 'n', 'd'],
    ['p', 'r', 'a', 'g', 'm', 'a'], ['r', 'e', 'i', 'n', 'd', 'e', 'x'],
    ['r', 'e', 'l', 'e', 'a', 's', 'e'], ['r', 'o', 'l', 'l', 'b', 'a', 'c', 'k'],
    ['s', 'a', 'v', 'e', 'p', 'o', 'i', 'n', 't'], ['v', 'a', 'c', 'u', 'u', 'm']]

def allowedKeywords : List (List Char) :=
  [['s', 'e', 'l', 'e', 'c', 't'], ['w', 'i', 't', 'h'], ['i', 'n', 's', 'e', 'r', 't'],
    ['u', 'p', 'd', 'a', 't', 'e'], ['d', 'e', 'l', 'e', 't', 'e'],
    ['r', 'e', 'p', 'l', 'a', 'c', 'e']]

/-! ## Bytes and slices -/

/-- The slice of the bytes from an index to the end. -/
def bytesFrom (bytes : List ℕ) (index : ℕ) : Scan (List ℕ) :=
  if index ≤ bytes.length then .ok (bytes.drop index) else .error .panicked

/-- The slice of the text from an index to the end. -/
def strFrom (sql : List Char) (index : ℕ) : Scan (List Char) :=
  match charsFrom sql index with
  | some rest => .ok rest
  | none => .error .panicked

/-- The slice of the text between two indexes. -/
def strBetween (sql : List Char) (start index : ℕ) : Scan (List Char) := do
  let first ← strFrom sql start
  let rest ← strFrom sql index
  if start ≤ index then .ok (first.take (first.length - rest.length)) else .error .panicked

def isAsciiWhitespace (byte : ℕ) : Bool :=
  byte == 32 || byte == 9 || byte == 10 || byte == 12 || byte == 13

def isAsciiAlphabetic (byte : ℕ) : Bool := (65 ≤ byte && byte ≤ 90) || (97 ≤ byte && byte ≤ 122)

/-- The characters with the property White_Space. -/
def isWhitespace (char : Char) : Bool :=
  (9 ≤ char.toNat && char.toNat ≤ 13) || char.toNat == 0x20 || char.toNat == 0x85 ||
    char.toNat == 0xA0 || char.toNat == 0x1680 || (0x2000 ≤ char.toNat && char.toNat ≤ 0x200A) ||
    char.toNat == 0x2028 || char.toNat == 0x2029 || char.toNat == 0x202F ||
    char.toNat == 0x205F || char.toNat == 0x3000

def trim (text : List Char) : List Char :=
  ((text.dropWhile isWhitespace).reverse.dropWhile isWhitespace).reverse

/-- The index after the bytes that pass a test. -/
def advanceWhile (test : ℕ → Bool) (bytes : List ℕ) (index : ℕ) : ℕ :=
  if hindex : index < bytes.length then
    if test bytes[index] then advanceWhile test bytes (index + 1) else index
  else index
termination_by bytes.length - index

theorem le_advanceWhile (test : ℕ → Bool) (bytes : List ℕ) (index : ℕ) :
    index ≤ advanceWhile test bytes index := by
  induction index using advanceWhile.induct test bytes with
  | case1 index hindex htest ih =>
    rw [advanceWhile, dif_pos hindex, if_pos htest]
    omega
  | case2 index hindex htest =>
    rw [advanceWhile, dif_pos hindex, if_neg htest]
  | case3 index hindex =>
    rw [advanceWhile, dif_neg hindex]

/-- An index behind the one where an element of the text begins. -/
abbrev After (index : ℕ) := {next : ℕ // index < next}

/-- The end of the line comment at an index. -/
def lineEnd (bytes : List ℕ) (index : ℕ) (hindex : index < bytes.length) : Scan (After index) := do
  let rest ← bytesFrom bytes index
  match rest.findIdx? (fun byte => byte == '\n'.toNat) with
  | none => .ok ⟨bytes.length, hindex⟩
  | some position => .ok ⟨index + position + 1, Nat.lt_succ_of_le (Nat.le_add_right index position)⟩

/-- The end of the block comment at an index. -/
def blockEnd (sql : List Char) (index : ℕ) : Scan (After index) := do
  let rest ← strFrom sql (index + 2)
  match find ['*', '/'] rest with
  | none => refuse "catalog statement has an unterminated block comment"
  | some position => .ok ⟨index + (position + 4), by omega⟩

def bracketEnd (bytes : List ℕ) (index : ℕ) : Scan (After index) := do
  let rest ← bytesFrom bytes index
  match rest.findIdx? (fun byte => byte == ']'.toNat) with
  | none => refuse "catalog statement has an unterminated bracketed identifier"
  | some position => .ok ⟨index + (position + 1), by omega⟩

/-- The end of a quoted token, searched from a byte after its opening quote. -/
def quoteEnd (bytes : List ℕ) (quote index : ℕ) : Scan (After index) :=
  match bytesFrom bytes index with
  | .error stop => .error stop
  | .ok rest =>
      match rest.findIdx? (fun byte => byte == quote) with
      | none => refuse "catalog statement has an unterminated quoted literal"
      | some position =>
          if hdoubled : bytes[index + position + 1]? = some quote then do
            let next ← quoteEnd bytes quote (index + position + 1 + 1)
            .ok ⟨next, by have hnext := next.2; omega⟩
          else .ok ⟨index + position + 1, by omega⟩
termination_by bytes.length - index
decreasing_by
  obtain ⟨hlt, -⟩ := List.getElem?_eq_some_iff.mp hdoubled
  omega

/-! ## The leading keyword -/

theorem lt_of_byte {bytes : List ℕ} {index byte : ℕ} (hbyte : bytes[index]? = some byte) :
    index < bytes.length := (List.getElem?_eq_some_iff.mp hbyte).1

/-- Advances past whitespace and complete comments. -/
def skipIgnorable (sql : List Char) (start : ℕ) : Scan ℕ :=
  let index := advanceWhile isAsciiWhitespace (encode sql) start
  if hline : (encode sql)[index]? = some '-'.toNat ∧ (encode sql)[index + 1]? = some '-'.toNat then
    lineEnd (encode sql) index (lt_of_byte hline.1) >>= fun next => skipIgnorable sql next
  else if _hblock :
      (encode sql)[index]? = some '/'.toNat ∧ (encode sql)[index + 1]? = some '*'.toNat then
    blockEnd sql index >>= fun next => skipIgnorable sql next
  else .ok index
termination_by (encode sql).length - start
decreasing_by
  · have hle := le_advanceWhile isAsciiWhitespace (encode sql) start
    have hlt := lt_of_byte hline.1
    omega
  · have hle := le_advanceWhile isAsciiWhitespace (encode sql) start
    have hlt := lt_of_byte _hblock.1
    omega

/-- The first real token of the text, if it is a keyword. -/
def leadingKeyword (sql : List Char) : Scan (List Char) := do
  let start ← skipIgnorable sql 0
  let index := advanceWhile isAsciiAlphabetic (encode sql) start
  if index = start then
    refuse "catalog statement must start with SELECT, WITH, INSERT, UPDATE, DELETE, or REPLACE"
  else do
    let keyword ← strBetween sql start index
    .ok (keyword.map Char.toLower)

def rejectForbiddenKeyword (sql : List Char) : Scan Unit := do
  let leading ← leadingKeyword sql
  if leading ∈ forbiddenKeywords then
    refuse "catalog statement uses a forbidden leading SQL keyword"
  else if leading ∉ allowedKeywords then
    refuse "catalog statement must start with SELECT, WITH, INSERT, UPDATE, DELETE, or REPLACE"
  else .ok ()

/-! ## The separator -/

/-- The loop over the text, with the index of the separator found so far. -/
def scanSeparator (sql : List Char) (index : ℕ) (separator : Option ℕ) : Scan (Option ℕ) :=
  if hindex : index < (encode sql).length then
    let byte := (encode sql)[index]
    if byte = '\''.toNat ∨ byte = '"'.toNat ∨ byte = 96 then
      quoteEnd (encode sql) byte (index + 1) >>= fun next => scanSeparator sql next separator
    else if byte = '['.toNat then
      bracketEnd (encode sql) index >>= fun next => scanSeparator sql next separator
    else if byte = '-'.toNat ∧ (encode sql)[index + 1]? = some '-'.toNat then
      lineEnd (encode sql) index hindex >>= fun next => scanSeparator sql next separator
    else if byte = '/'.toNat ∧ (encode sql)[index + 1]? = some '*'.toNat then
      blockEnd sql index >>= fun next => scanSeparator sql next separator
    else if byte = ';'.toNat then
      if separator.isSome then
        refuse "catalog statement must contain exactly one SQL statement"
      else scanSeparator sql (index + 1) (some index)
    else scanSeparator sql (index + 1) separator
  else .ok separator
termination_by (encode sql).length - index
decreasing_by
  all_goals omega

def rejectTrailingStatement (sql : List Char) : Scan Unit := do
  match ← scanSeparator sql 0 none with
  | none => .ok ()
  | some separator => do
      let tail ← strFrom sql (separator + 1)
      if (trim tail).isEmpty then .ok ()
      else refuse "catalog statement must contain exactly one SQL statement"

end CatalogSql

end Krit.Databases
