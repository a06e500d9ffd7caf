import Krit.JsonValues
import Krit.Operators

/-!
# JSON text

A writer and a reader of JSON texts, as an instance of what `json_encode` and `json_decode`
assume: compact texts, integers only, and the recursion limit of the reader.
-/

namespace Krit

namespace Json

/-! ## Writing -/

/-- The texts of elements, up to the closing bracket. -/
def joined (close : Char) : List (List Char) → List Char
  | [] => [close]
  | [text] => text ++ [close]
  | text :: next :: rest => text ++ ',' :: joined close (next :: rest)

def printString (text : String) : List Char :=
  '"' :: (text.toList.flatMap jsonEscape ++ ['"'])

def printNumber : JsonNumber → List Char
  | .posInt value => Nat.toDigits 10 value
  | .negInt value => '-' :: Nat.toDigits 10 value.natAbs
  | .float _ => []

mutual

def print : Json → List Char
  | .null => ['n', 'u', 'l', 'l']
  | .bool true => ['t', 'r', 'u', 'e']
  | .bool false => ['f', 'a', 'l', 's', 'e']
  | .number value => printNumber value
  | .string value => printString value
  | .array values => '[' :: joined ']' (printAll values)
  | .object entries => '\x7b' :: joined '\x7d' (printEntries entries)

def printAll : List Json → List (List Char)
  | [] => []
  | value :: rest => print value :: printAll rest

def printEntries : List (String × Json) → List (List Char)
  | [] => []
  | (name, value) :: rest => (printString name ++ ':' :: print value) :: printEntries rest

end

theorem printAll_eq (values : List Json) : printAll values = values.map print := by
  induction values with
  | nil => rfl
  | cons value rest ih => rw [printAll, ih, List.map_cons]

theorem printEntries_eq (entries : List (String × Json)) :
    printEntries entries =
      entries.map fun entry => printString entry.1 ++ ':' :: print entry.2 := by
  induction entries with
  | nil => rfl
  | cons entry rest ih => rw [printEntries, ih, List.map_cons]

/-! ## Reading -/

def hexValue (char : Char) : ℕ :=
  if char.isDigit then char.toNat - 48 else char.toNat - 87

/-- The character that a two-character escape stands for. -/
def unescape (char : Char) : Option Char :=
  match char with
  | '"' => some '"'
  | '\\' => some '\\'
  | '/' => some '/'
  | 'b' => some (Char.ofNat 8)
  | 't' => some (Char.ofNat 9)
  | 'n' => some (Char.ofNat 10)
  | 'f' => some (Char.ofNat 12)
  | 'r' => some (Char.ofNat 13)
  | _ => none

/-- Reads a string after its opening quote. -/
def readString : List Char → Option (List Char × List Char)
  | [] => none
  | '"' :: rest => some ([], rest)
  | '\\' :: 'u' :: first :: second :: third :: fourth :: rest => do
      let (text, rest) ← readString rest
      let code := 4096 * hexValue first + 256 * hexValue second + 16 * hexValue third +
        hexValue fourth
      some (Char.ofNat code :: text, rest)
  | '\\' :: char :: rest => do
      let char ← unescape char
      let (text, rest) ← readString rest
      some (char :: text, rest)
  | char :: rest =>
      if char.toNat < 32 then none
      else do
        let (text, rest) ← readString rest
        some (char :: text, rest)

def readDigits (text : List Char) : Option (ℕ × List Char) :=
  match text.takeWhile Char.isDigit with
  | [] => none
  | digits => some (Nat.ofDigitChars 10 digits 0, text.dropWhile Char.isDigit)

/-- Reads elements that commas separate, up to the closing bracket. -/
def readMany {α : Type} (item : List Char → Option (α × List Char)) (close : Char) :
    ℕ → List Char → Option (List α × List Char)
  | 0, _ => none
  | fuel + 1, text => do
      let (value, rest) ← item text
      match rest with
      | [] => none
      | char :: rest =>
          if char = close then some ([value], rest)
          else if char = ',' then do
            let (values, rest) ← readMany item close fuel rest
            some (value :: values, rest)
          else none

def readEntry (item : List Char → Option (Json × List Char)) (text : List Char) :
    Option ((String × Json) × List Char) :=
  match text with
  | '"' :: rest => do
      let (name, rest) ← readString rest
      match rest with
      | ':' :: rest => do
          let (value, rest) ← item rest
          some ((String.ofList name, value), rest)
      | _ => none
  | _ => none

def readScalar (text : List Char) : Option (Json × List Char) :=
  match text with
  | 'n' :: 'u' :: 'l' :: 'l' :: rest => some (.null, rest)
  | 't' :: 'r' :: 'u' :: 'e' :: rest => some (.bool true, rest)
  | 'f' :: 'a' :: 'l' :: 's' :: 'e' :: rest => some (.bool false, rest)
  | '"' :: rest => do
      let (text, rest) ← readString rest
      some (.string (String.ofList text), rest)
  | '-' :: rest => do
      let (value, rest) ← readDigits rest
      some (.number (.negInt (-value)), rest)
  | text => do
      let (value, rest) ← readDigits text
      some (.number (.posInt value), rest)

/-- Reads elements after the opening bracket, or the closing one. -/
def readBody {α : Type} (item : List Char → Option (α × List Char)) (close : Char)
    (text : List Char) : Option (List α × List Char) :=
  if text.head? = some close then some ([], text.tail) else readMany item close text.length text

/-- Reads a tree; the number counts the arrays and objects that may still be opened. -/
def read : ℕ → List Char → Option (Json × List Char)
  | 0, text => readScalar text
  | levels + 1, text =>
      match text with
      | '[' :: rest => do
          let (values, rest) ← readBody (read levels) ']' rest
          some (.array values, rest)
      | '\x7b' :: rest => do
          let (entries, rest) ← readBody (readEntry (read levels)) '\x7d' rest
          some (.object entries, rest)
      | text => readScalar text

/-! ## Reading what was written -/

section RoundTrip

variable {rest : List Char}

/-- What follows a number. -/
def NoDigit (rest : List Char) : Prop := ∀ char, rest.head? = some char → char.isDigit = false

theorem hexValue_hexLower : ∀ digit < 16, hexValue (hexLower digit) = digit := by
  decide

theorem readString_jsonEscape (char : Char) (rest : List Char) :
    readString (jsonEscape char ++ rest) =
      (readString rest).map fun found => (char :: found.1, found.2) := by
  have hcode : ∀ code, char.toNat = code → char = Char.ofNat code := by
    intro code hchar
    rw [← hchar, Char.ofNat_toNat]
  unfold jsonEscape
  split_ifs with hquote hslash hback htab hline hform hreturn hcontrol
  · rw [hquote]
    cases hrest : readString rest <;> simp [readString, unescape, hrest]
  · rw [hslash]
    cases hrest : readString rest <;> simp [readString, unescape, hrest]
  · rw [hcode 8 hback]
    cases hrest : readString rest <;> simp [readString, unescape, hrest]
  · rw [hcode 9 htab]
    cases hrest : readString rest <;> simp [readString, unescape, hrest]
  · rw [hcode 10 hline]
    cases hrest : readString rest <;> simp [readString, unescape, hrest]
  · rw [hcode 12 hform]
    cases hrest : readString rest <;> simp [readString, unescape, hrest]
  · rw [hcode 13 hreturn]
    cases hrest : readString rest <;> simp [readString, unescape, hrest]
  · have hhigh := hexValue_hexLower (char.toNat / 16) (by omega)
    have hlow := hexValue_hexLower (char.toNat % 16) (by omega)
    have hchar : Char.ofNat (16 * (char.toNat / 16) + char.toNat % 16) = char := by
      rw [Nat.div_add_mod, Char.ofNat_toNat]
    have hzero : hexValue '0' = 0 := by decide
    cases hrest : readString rest <;>
      simp [readString, hrest, hhigh, hlow, hzero, hchar]
  · rw [List.cons_append, List.nil_append, readString]
    · rw [if_neg hcontrol]
      cases hrest : readString rest <;> simp
    · exact hquote
    · intro first second third fourth after hchar
      exact absurd hchar hslash
    · intro next after hchar
      exact absurd hchar hslash

theorem readString_flatMap (text rest : List Char) :
    readString (text.flatMap jsonEscape ++ '"' :: rest) = some (text, rest) := by
  induction text with
  | nil => rfl
  | cons char text ih =>
    rw [List.flatMap_cons, List.append_assoc, readString_jsonEscape, ih]
    rfl

theorem readDigits_toDigits (value : ℕ) (hrest : NoDigit rest) :
    readDigits (Nat.toDigits 10 value ++ rest) = some (value, rest) := by
  have hdigits : ∀ char ∈ Nat.toDigits 10 value, char.isDigit = true := by
    intro char hchar
    exact Nat.isDigit_of_mem_toDigits (by decide) (by decide) hchar
  have hnone : rest.takeWhile Char.isDigit = [] ∧ rest.dropWhile Char.isDigit = rest := by
    cases rest with
    | nil => exact ⟨rfl, rfl⟩
    | cons char more =>
      have hchar := hrest char rfl
      exact ⟨by simp [hchar], by simp [hchar]⟩
  have htake : (Nat.toDigits 10 value ++ rest).takeWhile Char.isDigit = Nat.toDigits 10 value := by
    rw [List.takeWhile_append_of_pos hdigits, hnone.1, List.append_nil]
  have hdrop : (Nat.toDigits 10 value ++ rest).dropWhile Char.isDigit = rest := by
    rw [List.dropWhile_append_of_pos hdigits, hnone.2]
  rw [readDigits, htake, hdrop]
  cases hall : Nat.toDigits 10 value with
  | nil => exact absurd hall Nat.toDigits_ne_nil
  | cons first others =>
    rw [← hall]
    simp [Nat.ofDigitChars_ten_toDigits]

/-- Elements that are read back one by one are read back together. -/
theorem readMany_joined {α : Type} {item : List Char → Option (α × List Char)}
    {write : α → List Char} {close : Char} (hclose : close ≠ ',') (hdigit : close.isDigit = false)
    {values : List α}
    (hitem : ∀ value ∈ values, ∀ after, NoDigit after →
      item (write value ++ after) = some (value, after)) :
    ∀ {fuel : ℕ}, values ≠ [] → values.length ≤ fuel →
      readMany item close fuel (joined close (values.map write) ++ rest) = some (values, rest) := by
  induction values with
  | nil =>
    intro fuel hne
    exact absurd rfl hne
  | cons value others ih =>
    intro fuel _ hfuel
    obtain ⟨less, rfl⟩ : ∃ less, fuel = less + 1 := ⟨fuel - 1, by simp at hfuel; omega⟩
    have hfirst := hitem value List.mem_cons_self
    cases others with
    | nil =>
      have hafter : NoDigit (close :: rest) := by
        intro char hchar
        cases hchar
        exact hdigit
      have hjoined : joined close ([value].map write) ++ rest = write value ++ close :: rest := by
        simp [joined]
      rw [hjoined, readMany, hfirst _ hafter]
      simp
    | cons next more =>
      have hafter : ∀ after, NoDigit (',' :: after) := by
        intro after char hchar
        cases hchar
        decide
      have hmore := ih (fun other hother => hitem other (List.mem_cons_of_mem _ hother))
        (List.cons_ne_nil _ _) (by simpa using hfuel)
      have hjoined : joined close ((value :: next :: more).map write) ++ rest =
          write value ++ ',' :: (joined close ((next :: more).map write) ++ rest) := by
        simp [joined]
      rw [hjoined, readMany, hfirst _ (hafter _)]
      rw [List.map_cons] at hmore
      simp [hclose.symm, hmore]

theorem noDigit_nil : NoDigit [] := by
  intro char hchar
  cases hchar

/-- An entry is read back if its value is. -/
theorem readEntry_print {item : List Char → Option (Json × List Char)} {entry : String × Json}
    {after : List Char} (hvalue : item (print entry.2 ++ after) = some (entry.2, after)) :
    readEntry item (printString entry.1 ++ ':' :: print entry.2 ++ after) =
      some (entry, after) := by
  obtain ⟨name, value⟩ := entry
  have htext : printString name ++ ':' :: print value ++ after =
      '"' :: (name.toList.flatMap jsonEscape ++ '"' :: ':' :: (print value ++ after)) := by
    simp [printString]
  rw [htext, readEntry, readString_flatMap]
  simp [hvalue]

theorem length_le_length_joined (close : Char) (texts : List (List Char)) :
    texts.length ≤ (joined close texts).length := by
  induction texts using joined.induct with
  | case1 => simp
  | case2 text => simp [joined]
  | case3 text next rest ih =>
    simp only [joined, List.length_append, List.length_cons] at ih ⊢
    omega

/-- The body of an array or object is read back. -/
theorem readBody_joined {α : Type} {item : List Char → Option (α × List Char)}
    {write : α → List Char} {close : Char} (hclose : close ≠ ',') (hdigit : close.isDigit = false)
    {values : List α}
    (hitem : ∀ value ∈ values, ∀ after, NoDigit after →
      item (write value ++ after) = some (value, after))
    (hopens : ∀ value ∈ values, ∃ first more, write value = first :: more ∧ first ≠ close)
    (rest : List Char) :
    readBody item close (joined close (values.map write) ++ rest) = some (values, rest) := by
  cases values with
  | nil => exact if_pos rfl
  | cons value others =>
    have hlength := length_le_length_joined close ((value :: others).map write)
    rw [List.length_map] at hlength
    have hfuel : (value :: others).length ≤
        (joined close ((value :: others).map write) ++ rest).length := by
      rw [List.length_append]
      omega
    have hhead : (joined close ((value :: others).map write) ++ rest).head? ≠ some close := by
      obtain ⟨first, more, hwrite, hne⟩ := hopens value List.mem_cons_self
      cases others with
      | nil => simp [joined, hwrite, hne]
      | cons next later => simp [joined, hwrite, hne]
    rw [readBody, if_neg hhead]
    exact readMany_joined hclose hdigit hitem (List.cons_ne_nil _ _) hfuel

theorem isDigit_first (value : ℕ) :
    ∃ first more, Nat.toDigits 10 value = first :: more ∧ first.isDigit = true := by
  obtain ⟨first, more, hdigits⟩ := List.exists_cons_of_ne_nil (@Nat.toDigits_ne_nil value 10)
  have hmem : first ∈ Nat.toDigits 10 value := by
    rw [hdigits]
    exact List.mem_cons_self
  exact ⟨first, more, hdigits, Nat.isDigit_of_mem_toDigits (by decide) (by decide) hmem⟩

/-- A tree does not begin like the end of an array. -/
theorem print_opens {json : Json} (hjson : json.Integral) :
    ∃ first more, print json = first :: more ∧ first ≠ ']' := by
  cases hjson with
  | null => exact ⟨_, _, rfl, by decide⟩
  | bool value => cases value <;> exact ⟨_, _, rfl, by decide⟩
  | posInt hvalue =>
    rename_i value
    obtain ⟨first, more, hdigits, hfirst⟩ := isDigit_first value
    refine ⟨first, more, hdigits, ?_⟩
    intro heq
    rw [heq] at hfirst
    exact absurd hfirst (by decide)
  | negInt hvalue => exact ⟨_, _, rfl, by decide⟩
  | string value => exact ⟨_, _, rfl, by decide⟩
  | array hvalues => exact ⟨_, _, rfl, by decide⟩
  | object hordered hentries => exact ⟨_, _, rfl, by decide⟩

/-- What does not open an array or an object is read as a scalar at every level. -/
theorem read_scalar {levels : ℕ} {first : Char} {more : List Char} (harray : first ≠ '[')
    (hobject : first ≠ '\x7b') : read levels (first :: more) = readScalar (first :: more) := by
  cases levels with
  | zero => rfl
  | succ levels =>
    rw [read]
    · intro rest heq
      exact absurd (List.cons.inj heq).1 harray
    · intro rest heq
      exact absurd (List.cons.inj heq).1 hobject

theorem readScalar_digits {first : Char} {more : List Char} (hfirst : first.isDigit = true) :
    readScalar (first :: more) = (do
      let (value, rest) ← readDigits (first :: more)
      some (.number (.posInt value), rest)) := by
  have hne : ∀ {other : Char}, other.isDigit = false → first ≠ other := by
    intro other hother heq
    rw [heq, hother] at hfirst
    cases hfirst
  unfold readScalar
  split
  · rename_i heq
    exact absurd (List.cons.inj heq).1 (hne (by decide))
  · rename_i heq
    exact absurd (List.cons.inj heq).1 (hne (by decide))
  · rename_i heq
    exact absurd (List.cons.inj heq).1 (hne (by decide))
  · rename_i heq
    exact absurd (List.cons.inj heq).1 (hne (by decide))
  · rename_i heq
    exact absurd (List.cons.inj heq).1 (hne (by decide))
  · rfl

/-- The reader reads what the writer wrote. -/
theorem read_print {json : Json} (hjson : json.Integral) :
    ∀ {levels : ℕ} {rest : List Char}, json.depth ≤ levels → NoDigit rest →
      read levels (print json ++ rest) = some (json, rest) := by
  induction hjson with
  | null =>
    intro levels rest _ _
    exact read_scalar (by decide) (by decide)
  | bool value =>
    intro levels rest _ _
    cases value <;> exact read_scalar (by decide) (by decide)
  | posInt hvalue =>
    rename_i value
    intro levels rest _ hrest
    have hread := readDigits_toDigits value hrest
    obtain ⟨first, more, hdigits, hfirst⟩ := isDigit_first value
    have hne : ∀ {other : Char}, other.isDigit = false → first ≠ other := by
      intro other hother heq
      rw [heq, hother] at hfirst
      cases hfirst
    rw [hdigits, List.cons_append] at hread
    rw [print, printNumber, hdigits, List.cons_append,
      read_scalar (hne (by decide)) (hne (by decide)), readScalar_digits hfirst, hread]
    rfl
  | negInt hvalue =>
    rename_i value
    intro levels rest _ hrest
    have hread := readDigits_toDigits value.natAbs hrest
    have habs : -(value.natAbs : ℤ) = value := by omega
    rw [print, printNumber, List.cons_append, read_scalar (by decide) (by decide), readScalar,
      hread]
    change some (number (.negInt (-(value.natAbs : ℤ))), rest) = _
    rw [habs]
  | string value =>
    intro levels rest _ _
    have htext : print (.string value) ++ rest =
        '"' :: (value.toList.flatMap jsonEscape ++ '"' :: rest) := by
      simp [print, printString]
    rw [htext, read_scalar (by decide) (by decide), readScalar, readString_flatMap]
    simp
  | array hvalues ih =>
    rename_i values
    intro levels rest hdepth _
    rw [depth] at hdepth
    obtain ⟨less, rfl⟩ : ∃ less, levels = less + 1 := ⟨levels - 1, by omega⟩
    have hbelow := depthOfAll_le.mp (show depthOfAll values ≤ less by omega)
    have hbody : readBody (read less) ']' (joined ']' (values.map print) ++ rest) =
        some (values, rest) := by
      refine readBody_joined (by decide) (by decide) ?_ ?_ rest
      · intro value hvalue after hafter
        exact ih value hvalue (hbelow value hvalue) hafter
      · intro value hvalue
        exact print_opens (hvalues value hvalue)
    rw [print, printAll_eq, List.cons_append, read, hbody]
    rfl
  | object hordered hentries ih =>
    rename_i entries
    intro levels rest hdepth _
    rw [depth] at hdepth
    obtain ⟨less, rfl⟩ : ∃ less, levels = less + 1 := ⟨levels - 1, by omega⟩
    have hbelow := depthOfEntries_le.mp (show depthOfEntries entries ≤ less by omega)
    have hbody : readBody (readEntry (read less)) '\x7d'
        (joined '\x7d' (entries.map fun entry => printString entry.1 ++ ':' :: print entry.2) ++
          rest) = some (entries, rest) := by
      refine readBody_joined (by decide) (by decide) ?_ ?_ rest
      · intro entry hentry after hafter
        exact readEntry_print (ih entry hentry (hbelow entry hentry) hafter)
      · intro entry hentry
        exact ⟨_, _, rfl, by decide⟩
    rw [print, printEntries_eq, List.cons_append, read, hbody]
    rfl

end RoundTrip

end Json

/-- The writer and the reader of this module. -/
def compactJson : SerdeJson where
  toString json := .ok (String.ofList json.print)
  fromStr text :=
    match Json.read (serdeRecursionLimit - 1) text.toList with
    | some (json, []) => .ok json
    | _ => .error "invalid JSON"

theorem compactJson_roundTrips : compactJson.RoundTrips := by
  intro json hjson hdepth
  have hlevels : json.depth ≤ serdeRecursionLimit - 1 := by omega
  have hread := Json.read_print hjson hlevels Json.noDigit_nil
  rw [List.append_nil] at hread
  refine ⟨String.ofList json.print, rfl, ?_⟩
  simp only [compactJson, String.toList_ofList, hread]

end Krit
