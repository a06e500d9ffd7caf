import Krit.Operators
import Krit.Lib.Utf8

/-!
# Request paths

The host's rule for request paths, `is_origin_form_path`, and the agreement of
`url_path_segment` with it.  A path is its UTF-8 bytes.  The rule decodes each
`/`-separated segment once and looks at the decoded bytes; `encode_path_segment`
looks at the text before it is encoded.

The last part is what the rule is for: a server that decodes an accepted path,
once or twice, or reads it with a lenient UTF-8 decoder, sees the same segments
and no dot segment.
-/

namespace Krit

open Utf8

/-! ## The path rule -/

def hexDigit (byte : ℕ) : Option ℕ :=
  if ascii '0' ≤ byte ∧ byte ≤ ascii '9' then some (byte - ascii '0')
  else if ascii 'a' ≤ byte ∧ byte ≤ ascii 'f' then some (byte - ascii 'a' + 10)
  else if ascii 'A' ≤ byte ∧ byte ≤ ascii 'F' then some (byte - ascii 'A' + 10)
  else none

/-- The bytes whose escapes the host refuses. -/
def isForbiddenEscape (byte : ℕ) : Bool :=
  byte == ascii '.' || byte == ascii '/' || byte == ascii '\\' || isAsciiControl byte

/-- Decodes a segment once; `none` is the source's `false`. -/
def decodeSegment : List ℕ → Option (List ℕ)
  | [] => some []
  | byte :: rest =>
      if byte ≠ ascii '%' then (decodeSegment rest).map (byte :: ·)
      else
        match rest with
        | high :: low :: rest =>
            match hexDigit high, hexDigit low with
            | some high, some low =>
                let byte := high * 16 + low
                if isForbiddenEscape byte then none
                else (decodeSegment rest).map (byte :: ·)
            | _, _ => none
        | _ => none

/-- Whether some two neighbouring bytes satisfy a test (`windows(2).any`). -/
def anyPair (test : ℕ → ℕ → Bool) : List ℕ → Bool
  | first :: second :: rest => test first second || anyPair test (second :: rest)
  | _ => false

/-- Whether a byte after a lead byte makes the sequence overlong. -/
def overlongPair (lead next : ℕ) : Bool :=
  let bits := next % 64
  if lead = 0xE0 then bits < 0x20
  else if lead = 0xF0 then bits < 0x10
  else if lead = 0xF8 then bits < 0x08
  else if lead = 0xFC then bits < 0x04
  else false

def holdsOverlongUtf8 (decoded : List ℕ) : Bool :=
  decoded.any (fun byte => byte == 0xC0 || byte == 0xC1) || anyPair overlongPair decoded

/-- The `/`-separated segments of a path. -/
def segments (path : List ℕ) : List (List ℕ) := path.splitOn (ascii '/')

/-- Whether one segment makes a path a traversal form. -/
def refusesSegment (segment : List ℕ) : Bool :=
  match decodeSegment segment with
  | none => true
  | some decoded => isDotSegment decoded || holdsEscape decoded || holdsOverlongUtf8 decoded

def hasTraversalForm (path : String) : Bool := (segments (stringBytes path)).any refusesSegment

def breaksShape (byte : ℕ) : Bool :=
  isAsciiControl byte || byte == ascii ' ' || byte == ascii '\\' || byte == ascii '?' ||
    byte == ascii '#'

def hasOriginFormShape (path : String) : Bool :=
  stringStartsWith path "/" && !stringStartsWith path "//" && !stringContains path "://" &&
    !(stringBytes path).any breaksShape

def isOriginFormPath (path : String) : Bool :=
  hasOriginFormShape path && !hasTraversalForm path

/-! ## Bytes of a text -/

theorem stringBytes_eq (text : String) : stringBytes text = text.toList.flatMap charBytes :=
  toUTF8_toList text

@[simp] theorem stringBytes_append (left right : String) :
    stringBytes (left ++ right) = stringBytes left ++ stringBytes right := by
  simp [stringBytes_eq]

theorem stringBytes_ofList_ascii {chars : List Char}
    (hascii : ∀ char ∈ chars, char.toNat < 128) :
    stringBytes (String.ofList chars) = chars.map Char.toNat := by
  rw [stringBytes_eq, String.toList_ofList]
  induction chars with
  | nil => rfl
  | cons char rest ih =>
    have hchar : charBytes char = [char.toNat] := charBytes_of_ascii (hascii char (by simp))
    have hrest := ih (fun other hother => hascii other (List.mem_cons_of_mem _ hother))
    rw [List.flatMap_cons, hchar, hrest]
    rfl

theorem stringBytes_lt (text : String) : ∀ byte ∈ stringBytes text, byte < 256 := by
  intro byte hbyte
  rw [stringBytes_eq, List.mem_flatMap] at hbyte
  obtain ⟨char, -, hchar⟩ := hbyte
  exact (form_charBytes char).lt byte hchar

theorem stringBytes_eq_nil_iff (text : String) : stringBytes text = [] ↔ text = "" := by
  rw [stringBytes_eq]
  constructor
  · intro hnil
    have hchars : text.toList = [] := by
      cases hlist : text.toList with
      | nil => rfl
      | cons char rest =>
        rw [hlist, List.flatMap_cons, List.append_eq_nil_iff] at hnil
        have hform := form_charBytes char
        rw [hnil.1] at hform
        cases hform
    exact String.toList_eq_nil_iff.mp hchars
  · intro hempty
    subst hempty
    rfl

@[simp] theorem stringBytes_slash : stringBytes "/" = [ascii '/'] := by decide +kernel

@[simp] theorem stringBytes_slashes : stringBytes "//" = [ascii '/', ascii '/'] := by
  decide +kernel

@[simp] theorem stringBytes_scheme :
    stringBytes "://" = [ascii ':', ascii '/', ascii '/'] := by decide +kernel

theorem stringContains_iff (text part : String) :
    stringContains text part = true ↔ stringBytes part <:+: stringBytes text := by
  unfold stringContains
  rw [List.any_eq_true, List.infix_iff_prefix_suffix]
  constructor
  · rintro ⟨rest, hrest, hhead⟩
    exact ⟨rest, List.isPrefixOf_iff_prefix.mp hhead, (List.mem_tails rest _).mp hrest⟩
  · rintro ⟨rest, hhead, htail⟩
    exact ⟨rest, (List.mem_tails rest _).mpr htail, List.isPrefixOf_iff_prefix.mpr hhead⟩

/-! ## Decoding -/

/-- Decodes every `%HH` once and leaves every other byte alone. -/
def percentDecode : List ℕ → List ℕ
  | [] => []
  | byte :: rest =>
      if byte ≠ ascii '%' then byte :: percentDecode rest
      else
        match rest with
        | high :: low :: rest =>
            match hexDigit high, hexDigit low with
            | some highBits, some lowBits => (highBits * 16 + lowBits) :: percentDecode rest
            | _, _ => byte :: percentDecode (high :: low :: rest)
        | rest => byte :: percentDecode rest

theorem percentDecode_cons_of_ne {byte : ℕ} (hbyte : byte ≠ ascii '%') (rest : List ℕ) :
    percentDecode (byte :: rest) = byte :: percentDecode rest := by
  rw [percentDecode.eq_def]
  simp only [ne_eq, hbyte, not_false_eq_true, if_true]

theorem percentDecode_escape {high low highBits lowBits : ℕ}
    (hhigh : hexDigit high = some highBits) (hlow : hexDigit low = some lowBits)
    (rest : List ℕ) :
    percentDecode (ascii '%' :: high :: low :: rest) =
      (highBits * 16 + lowBits) :: percentDecode rest := by
  rw [percentDecode, if_neg (by simp)]
  simp only [hhigh, hlow]

/-- How a segment that the host accepts is decoded: byte by byte, each byte raw
or the escape of a byte that the host allows to be escaped. -/
inductive Decodes : List ℕ → List ℕ → Prop
  | nil : Decodes [] []
  | raw {byte : ℕ} {rest tail : List ℕ} (hbyte : byte ≠ ascii '%')
      (hrest : Decodes rest tail) : Decodes (byte :: rest) (byte :: tail)
  | escape {high low highBits lowBits : ℕ} {rest tail : List ℕ}
      (hhigh : hexDigit high = some highBits) (hlow : hexDigit low = some lowBits)
      (hallowed : isForbiddenEscape (highBits * 16 + lowBits) = false)
      (hrest : Decodes rest tail) :
      Decodes (ascii '%' :: high :: low :: rest) ((highBits * 16 + lowBits) :: tail)

theorem decodes_of_decodeSegment {segment decoded : List ℕ}
    (hdecode : decodeSegment segment = some decoded) : Decodes segment decoded := by
  fun_induction decodeSegment segment generalizing decoded with
  | case1 =>
    cases hdecode
    exact .nil
  | case2 byte rest hbyte ih =>
    rw [Option.map_eq_some_iff] at hdecode
    obtain ⟨tail, htail, hdecoded⟩ := hdecode
    subst hdecoded
    exact .raw hbyte (ih htail)
  | case3 => cases hdecode
  | case4 byte hbyte high low rest highBits lowBits hlow hhigh value hallowed =>
    rename_i ih
    rw [Option.map_eq_some_iff] at hdecode
    obtain ⟨tail, htail, hdecoded⟩ := hdecode
    subst hdecoded
    have hpercent : byte = ascii '%' := by simpa using hbyte
    subst hpercent
    exact .escape hhigh hlow (by simpa using hallowed) (ih htail)
  | case5 => cases hdecode
  | case6 => cases hdecode

/-- A segment that the host decodes is decoded the same way in front of any
other bytes. -/
theorem Decodes.percentDecode_append {segment decoded : List ℕ}
    (hdecodes : Decodes segment decoded) (rest : List ℕ) :
    percentDecode (segment ++ rest) = decoded ++ percentDecode rest := by
  induction hdecodes with
  | nil => rfl
  | raw hbyte _ ih =>
    rw [List.cons_append, percentDecode_cons_of_ne hbyte, ih, List.cons_append]
  | escape hhigh hlow _ _ ih =>
    rw [List.cons_append, List.cons_append, List.cons_append,
      percentDecode_escape hhigh hlow, ih, List.cons_append]

theorem Decodes.percentDecode_eq {segment decoded : List ℕ}
    (hdecodes : Decodes segment decoded) : percentDecode segment = decoded := by
  have happend := hdecodes.percentDecode_append []
  rw [List.append_nil, percentDecode, List.append_nil] at happend
  exact happend

/-- A decoded byte is a raw byte of the segment or one whose escape is allowed. -/
theorem Decodes.mem {segment decoded : List ℕ} (hdecodes : Decodes segment decoded)
    {byte : ℕ} (hbyte : byte ∈ decoded) :
    byte ∈ segment ∨ isForbiddenEscape byte = false := by
  induction hdecodes with
  | nil => cases hbyte
  | raw _ _ ih =>
    rcases List.mem_cons.mp hbyte with hfirst | hrest
    · subst hfirst
      exact Or.inl List.mem_cons_self
    · rcases ih hrest with hraw | hallowed
      · exact Or.inl (List.mem_cons_of_mem _ hraw)
      · exact Or.inr hallowed
  | escape _ _ hallowed _ ih =>
    rcases List.mem_cons.mp hbyte with hfirst | hrest
    · subst hfirst
      exact Or.inr hallowed
    · rcases ih hrest with hraw | hother
      · exact Or.inl (by simp [hraw])
      · exact Or.inr hother

/-- What the host knows of a segment that it does not refuse. -/
structure SafeSegment (segment decoded : List ℕ) : Prop where
  decode : decodeSegment segment = some decoded
  notDot : isDotSegment decoded = false
  noEscape : holdsEscape decoded = false
  noOverlong : holdsOverlongUtf8 decoded = false

theorem refusesSegment_eq_false_iff (segment : List ℕ) :
    refusesSegment segment = false ↔ ∃ decoded, SafeSegment segment decoded := by
  unfold refusesSegment
  constructor
  · intro haccepted
    split at haccepted
    · cases haccepted
    · rename_i decoded hdecode
      simp only [Bool.or_eq_false_iff] at haccepted
      exact ⟨decoded, hdecode, haccepted.1.1, haccepted.1.2, haccepted.2⟩
  · rintro ⟨decoded, hsafe⟩
    simp only [hsafe.decode, hsafe.notDot, hsafe.noEscape, hsafe.noOverlong, Bool.or_self]

/-! ## Segments -/

theorem segments_join (path : List ℕ) : [ascii '/'].intercalate (segments path) = path :=
  List.intercalate_splitOn _

theorem segments_append_slash (left right : List ℕ) :
    segments (left ++ ascii '/' :: right) = segments left ++ segments right :=
  List.splitOn_append_cons_self left right

theorem segments_slash (path : List ℕ) :
    segments (ascii '/' :: path) = [] :: segments path := by
  have hsplit := segments_append_slash [] path
  exact hsplit

theorem segments_of_not_mem {path : List ℕ} (hslash : ascii '/' ∉ path) :
    segments path = [path] :=
  List.splitOn_eq_singleton hslash

theorem segments_cons_of_ne {byte : ℕ} (hbyte : byte ≠ ascii '/') (path : List ℕ) :
    segments (byte :: path) = (segments path).modifyHead (byte :: ·) := by
  unfold segments
  rw [List.splitOn_cons_eq_if_modifyHead, if_neg (by simpa using hbyte)]

theorem segments_ne_nil (path : List ℕ) : segments path ≠ [] :=
  List.splitOn_ne_nil _ path

theorem slash_not_mem_segment (path : List ℕ) :
    ∀ segment ∈ segments path, ascii '/' ∉ segment := by
  induction path with
  | nil =>
    intro segment hsegment
    have hnil : segments [] = [[]] := rfl
    rw [hnil, List.mem_singleton] at hsegment
    subst hsegment
    exact List.not_mem_nil
  | cons byte path ih =>
    intro segment hsegment
    by_cases hbyte : byte = ascii '/'
    · subst hbyte
      rw [segments_slash] at hsegment
      rcases List.mem_cons.mp hsegment with hfirst | hrest
      · subst hfirst
        exact List.not_mem_nil
      · exact ih segment hrest
    · rw [segments_cons_of_ne hbyte] at hsegment
      cases hsegments : segments path with
      | nil => exact absurd hsegments (segments_ne_nil path)
      | cons first rest =>
        rw [hsegments] at hsegment ih
        rw [List.modifyHead_cons] at hsegment
        rcases List.mem_cons.mp hsegment with hfirst | hother
        · subst hfirst
          intro hmem
          rcases List.mem_cons.mp hmem with hhead | htail
          · exact hbyte hhead.symm
          · exact ih first List.mem_cons_self htail
        · exact ih segment (List.mem_cons_of_mem _ hother)

theorem mem_intercalate {parts : List (List ℕ)} {part : List ℕ} (hpart : part ∈ parts)
    {byte : ℕ} (hbyte : byte ∈ part) : byte ∈ [ascii '/'].intercalate parts := by
  induction parts with
  | nil => cases hpart
  | cons first rest ih =>
    by_cases hrest : rest = []
    · subst hrest
      rw [List.mem_singleton] at hpart
      subst hpart
      rw [List.intercalate_singleton]
      exact hbyte
    · rw [List.intercalate_cons_of_ne_nil hrest]
      rcases List.mem_cons.mp hpart with hfirst | hother
      · subst hfirst
        simp [hbyte]
      · simp [ih hother]

theorem mem_of_mem_segment {path segment : List ℕ} (hsegment : segment ∈ segments path)
    {byte : ℕ} (hbyte : byte ∈ segment) : byte ∈ path := by
  have hmem := mem_intercalate hsegment hbyte
  rw [segments_join] at hmem
  exact hmem

theorem exists_segment_of_mem {path : List ℕ} {byte : ℕ} (hslash : byte ≠ ascii '/')
    (hbyte : byte ∈ path) : ∃ segment ∈ segments path, byte ∈ segment := by
  induction path with
  | nil => cases hbyte
  | cons first rest ih =>
    by_cases hfirst : first = ascii '/'
    · subst hfirst
      rw [segments_slash]
      rcases List.mem_cons.mp hbyte with hhead | htail
      · exact absurd hhead hslash
      · obtain ⟨segment, hsegment, hmem⟩ := ih htail
        exact ⟨segment, List.mem_cons_of_mem _ hsegment, hmem⟩
    · rw [segments_cons_of_ne hfirst]
      cases hsegments : segments rest with
      | nil => exact absurd hsegments (segments_ne_nil rest)
      | cons segment others =>
        rw [List.modifyHead_cons]
        rcases List.mem_cons.mp hbyte with hhead | htail
        · subst hhead
          exact ⟨byte :: segment, List.mem_cons_self, List.mem_cons_self⟩
        · obtain ⟨found, hfound, hmem⟩ := ih htail
          rw [hsegments] at hfound
          rcases List.mem_cons.mp hfound with hsame | hother
          · subst hsame
            exact ⟨first :: found, List.mem_cons_self, List.mem_cons_of_mem _ hmem⟩
          · exact ⟨found, List.mem_cons_of_mem _ hother, hmem⟩

theorem length_segments (path : List ℕ) :
    (segments path).length = path.count (ascii '/') + 1 := by
  induction path with
  | nil => rfl
  | cons byte path ih =>
    by_cases hbyte : byte = ascii '/'
    · subst hbyte
      rw [segments_slash, List.length_cons, ih, List.count_cons_self]
    · rw [segments_cons_of_ne hbyte, List.length_modifyHead, ih,
        List.count_cons_of_ne (fun heq => hbyte heq)]

theorem segments_intercalate {parts : List (List ℕ)}
    (hslash : ∀ part ∈ parts, ascii '/' ∉ part) (hne : parts ≠ []) :
    segments ([ascii '/'].intercalate parts) = parts :=
  List.splitOn_intercalate _ hslash hne

/-! ## Decoding a whole path -/

theorem percentDecode_percent_of_not_hex {rest : List ℕ}
    (hrest : ∀ next more, rest = next :: more → hexDigit next = none) :
    percentDecode (ascii '%' :: rest) = ascii '%' :: percentDecode rest := by
  rw [percentDecode.eq_def]
  simp only [ne_eq, not_true_eq_false, if_false]
  split
  · rename_i high low more
    have hhigh : hexDigit high = none := hrest high (low :: more) rfl
    simp only [hhigh]
  · rfl

theorem hexDigit_isSome (byte : ℕ) : (hexDigit byte).isSome = isHexDigit byte := by
  unfold hexDigit isHexDigit
  split_ifs <;> simp_all

theorem hexDigit_eq_none_of_not_hex {byte : ℕ} (hbyte : isHexDigit byte = false) :
    hexDigit byte = none := by
  rw [← hexDigit_isSome] at hbyte
  exact Option.not_isSome_iff_eq_none.mp (by simp [hbyte])

/-- Bytes that hold no escape are left alone by another decoding, whatever bytes
other than hex digits come next. -/
theorem percentDecode_append_of_noEscape {decoded rest : List ℕ}
    (hescape : holdsEscape decoded = false)
    (hrest : ∀ next more, rest = next :: more → hexDigit next = none) :
    percentDecode (decoded ++ rest) = decoded ++ percentDecode rest := by
  induction decoded with
  | nil => rfl
  | cons byte tail ih =>
    have htail : holdsEscape tail = false := by
      cases tail with
      | nil => rfl
      | cons next more =>
        simp only [holdsEscape, Bool.or_eq_false_iff] at hescape
        exact hescape.2
    by_cases hbyte : byte = ascii '%'
    · subst hbyte
      have hnext : ∀ next more, tail ++ rest = next :: more → hexDigit next = none := by
        intro next more heq
        cases tail with
        | nil => exact hrest next more heq
        | cons first others =>
          rw [List.cons_append, List.cons.injEq] at heq
          simp only [holdsEscape, Bool.or_eq_false_iff, Bool.and_eq_false_iff, beq_self_eq_true,
            Bool.true_eq_false, false_or] at hescape
          rw [← heq.1]
          exact hexDigit_eq_none_of_not_hex hescape.1.1.1
      rw [List.cons_append, percentDecode_percent_of_not_hex hnext, ih htail,
        List.cons_append]
    · rw [List.cons_append, percentDecode_cons_of_ne hbyte, ih htail, List.cons_append]

theorem percentDecode_slash (rest : List ℕ) :
    percentDecode (ascii '/' :: rest) = ascii '/' :: percentDecode rest :=
  percentDecode_cons_of_ne (by decide) rest

/-- Decoding a path of accepted segments decodes each segment on its own. -/
theorem percentDecode_intercalate {parts : List (List ℕ)}
    (hparts : ∀ part ∈ parts, Decodes part (percentDecode part)) :
    percentDecode ([ascii '/'].intercalate parts) =
      [ascii '/'].intercalate (parts.map percentDecode) := by
  induction parts with
  | nil => rfl
  | cons part rest ih =>
    have hpart : Decodes part (percentDecode part) := hparts part List.mem_cons_self
    by_cases hrest : rest = []
    · subst hrest
      rw [List.map_singleton, List.intercalate_singleton, List.intercalate_singleton]
    · have hih := ih (fun other hother => hparts other (List.mem_cons_of_mem _ hother))
      have hmap : rest.map percentDecode ≠ [] := by simpa using hrest
      rw [List.map_cons, List.intercalate_cons_of_ne_nil hrest,
        List.intercalate_cons_of_ne_nil hmap, List.append_assoc, List.append_assoc,
        hpart.percentDecode_append, List.singleton_append, percentDecode_slash, hih]
      rfl

/-- A path of segments that hold no escape is left alone by decoding. -/
theorem percentDecode_intercalate_of_noEscape {parts : List (List ℕ)}
    (hparts : ∀ part ∈ parts, holdsEscape part = false) :
    percentDecode ([ascii '/'].intercalate parts) = [ascii '/'].intercalate parts := by
  induction parts with
  | nil => rfl
  | cons part rest ih =>
    have hpart : holdsEscape part = false := hparts part List.mem_cons_self
    by_cases hrest : rest = []
    · subst hrest
      have hend : ∀ next more, ([] : List ℕ) = next :: more → hexDigit next = none := by
        intro next more heq
        cases heq
      have happend := percentDecode_append_of_noEscape hpart hend
      rw [List.append_nil, percentDecode, List.append_nil] at happend
      rw [List.intercalate_singleton, happend]
    · have hih := ih (fun other hother => hparts other (List.mem_cons_of_mem _ hother))
      have hslash : ∀ next more,
          ascii '/' :: [ascii '/'].intercalate rest = next :: more → hexDigit next = none := by
        intro next more heq
        rw [List.cons.injEq] at heq
        rw [← heq.1]
        decide
      rw [List.intercalate_cons_of_ne_nil hrest, List.append_assoc, List.singleton_append,
        percentDecode_append_of_noEscape hpart hslash, percentDecode_slash, hih]

/-! ## What an accepted path cannot do -/

/-- The part of a segment before its first `;`, `?` or `#`. -/
def cutSegment (decoded : List ℕ) : List ℕ :=
  decoded.takeWhile fun byte =>
    !(byte == ascii ';' || byte == ascii '?' || byte == ascii '#')

def trimSpaces (bytes : List ℕ) : List ℕ :=
  ((bytes.dropWhile (· == ascii ' ')).reverse.dropWhile (· == ascii ' ')).reverse

/-- The bytes that would change how a path is split or read. -/
def isSeparatorOrControl (byte : ℕ) : Bool :=
  byte == ascii '/' || byte == ascii '\\' || isAsciiControl byte

theorem isAsciiWhitespace_of_not_control {byte : ℕ} (hbyte : isAsciiControl byte = false) :
    isAsciiWhitespace byte = (byte == ascii ' ') := by
  have hspace : ascii ' ' = 32 := by decide
  simp only [isAsciiControl, Bool.or_eq_false_iff, decide_eq_false_iff_not, not_lt] at hbyte
  have h9 : (byte == 9) = false := by simp; omega
  have h10 : (byte == 10) = false := by simp; omega
  have h12 : (byte == 12) = false := by simp; omega
  have h13 : (byte == 13) = false := by simp; omega
  rw [hspace]
  simp only [isAsciiWhitespace, h9, h10, h12, h13, Bool.or_false]

theorem dropWhile_congr {bytes : List ℕ} {left right : ℕ → Bool}
    (hagree : ∀ byte ∈ bytes, left byte = right byte) :
    bytes.dropWhile left = bytes.dropWhile right := by
  induction bytes with
  | nil => rfl
  | cons byte rest ih =>
    have hrest := ih (fun other hother => hagree other (List.mem_cons_of_mem _ hother))
    rw [List.dropWhile_cons, List.dropWhile_cons, hagree byte List.mem_cons_self, hrest]

/-- Without control bytes, ASCII whitespace is the space alone. -/
theorem trimAscii_eq_trimSpaces {bytes : List ℕ}
    (hbytes : ∀ byte ∈ bytes, isAsciiControl byte = false) :
    trimAscii bytes = trimSpaces bytes := by
  have hagree : ∀ byte ∈ bytes, isAsciiWhitespace byte = (byte == ascii ' ') :=
    fun byte hbyte => isAsciiWhitespace_of_not_control (hbytes byte hbyte)
  have hleft := dropWhile_congr hagree
  unfold trimAscii trimSpaces
  rw [hleft]
  congr 1
  apply dropWhile_congr
  intro byte hbyte
  exact hagree byte ((List.dropWhile_sublist _).subset (List.mem_reverse.mp hbyte))

theorem anyPair_of_suffix {test : ℕ → ℕ → Bool} {bytes rest : List ℕ}
    (hbytes : anyPair test bytes = false) (hrest : rest <:+ bytes) :
    anyPair test rest = false := by
  induction bytes with
  | nil =>
    rw [List.suffix_nil] at hrest
    subst hrest
    rfl
  | cons byte more ih =>
    rcases List.suffix_cons_iff.mp hrest with hwhole | htail
    · subst hwhole
      exact hbytes
    · apply ih _ htail
      cases more with
      | nil => rfl
      | cons next others =>
        simp only [anyPair, Bool.or_eq_false_iff] at hbytes
        exact hbytes.2

/-- The pair test refuses exactly what leaves the payload too small. -/
theorem leastPayload_le {lead next length : ℕ} (hlength : sequenceLength lead = some length)
    (hlead : lead ≠ 0xC0 ∧ lead ≠ 0xC1) (hpair : overlongPair lead next = false) :
    leastPayload length ≤ lead % 2 ^ (7 - length) * 64 + next % 64 := by
  simp only [sequenceLength] at hlength
  simp only [overlongPair] at hpair
  split_ifs at hlength with h1 h2 h3 h4 h5 h6 <;> cases hlength <;>
    simp only [leastPayload] <;> norm_num <;> split_ifs at hpair <;> simp at hpair <;> omega

/-- Nothing in a segment that spells no overlong sequence is read as a code point
that fits a shorter form. -/
theorem lenientRead_of_noOverlong {decoded rest : List ℕ} {length code : ℕ}
    (hdecoded : holdsOverlongUtf8 decoded = false) (hrest : rest <:+ decoded)
    (hread : lenientRead rest = some (length, code)) : length ≤ shortestForm code := by
  simp only [holdsOverlongUtf8, Bool.or_eq_false_iff] at hdecoded
  cases rest with
  | nil => cases hread
  | cons lead more =>
    cases more with
    | nil =>
      rw [lenientRead_singleton] at hread
      cases hread
    | cons next others =>
      have hpairs := anyPair_of_suffix hdecoded.2 hrest
      simp only [anyPair, Bool.or_eq_false_iff] at hpairs
      have hmem : lead ∈ decoded := hrest.subset List.mem_cons_self
      have hlead : lead ≠ 0xC0 ∧ lead ≠ 0xC1 := by
        have hany := List.any_eq_false.mp hdecoded.1 lead hmem
        simpa using hany
      have hlength : sequenceLength lead = some length := by
        simp only [lenientRead] at hread
        split at hread
        · cases hread
        · rename_i announced hannounced
          split at hread
          · cases hread
          · simp only [Option.some.injEq, Prod.mk.injEq] at hread
            rw [hannounced, hread.1]
      exact lenientRead_shortest hread (leastPayload_le hlength hlead hpairs.1)

theorem code_not_ascii {length code : ℕ} (hlength : 2 ≤ length)
    (hshort : length ≤ shortestForm code) : 0x80 ≤ code := by
  unfold shortestForm at hshort
  split_ifs at hshort <;> omega

/-- The decoded segments of an accepted path. -/
theorem safeSegment_of_accepted {path : String} (haccepted : isOriginFormPath path = true) :
    ∀ segment ∈ segments (stringBytes path), SafeSegment segment (percentDecode segment) := by
  intro segment hsegment
  simp only [isOriginFormPath, hasTraversalForm, Bool.and_eq_true, Bool.not_eq_true'] at haccepted
  have hrefuses : refusesSegment segment = false := by
    have hany := List.any_eq_false.mp haccepted.2 segment hsegment
    simpa using hany
  obtain ⟨decoded, hsafe⟩ := (refusesSegment_eq_false_iff segment).mp hrefuses
  have hdecode : percentDecode segment = decoded :=
    (decodes_of_decodeSegment hsafe.decode).percentDecode_eq
  rw [hdecode]
  exact hsafe

theorem breaksShape_of_accepted {path : String} (haccepted : isOriginFormPath path = true) :
    ∀ byte ∈ stringBytes path, breaksShape byte = false := by
  intro byte hbyte
  simp only [isOriginFormPath, hasOriginFormShape, Bool.and_eq_true, Bool.not_eq_true'] at haccepted
  have hany := List.any_eq_false.mp haccepted.1.2 byte hbyte
  simpa using hany

/-- A decoded segment holds none of the bytes that would split it. -/
theorem not_separator_of_accepted {path : String} (haccepted : isOriginFormPath path = true)
    {segment : List ℕ} (hsegment : segment ∈ segments (stringBytes path)) :
    ∀ byte ∈ percentDecode segment, isSeparatorOrControl byte = false := by
  intro byte hbyte
  have hsafe := safeSegment_of_accepted haccepted segment hsegment
  rcases (decodes_of_decodeSegment hsafe.decode).mem hbyte with hraw | hallowed
  · have hshape := breaksShape_of_accepted haccepted byte (mem_of_mem_segment hsegment hraw)
    have hslash : byte ≠ ascii '/' := by
      intro heq
      subst heq
      exact slash_not_mem_segment _ segment hsegment hraw
    simp only [breaksShape, Bool.or_eq_false_iff, beq_eq_false_iff_ne] at hshape
    simp only [isSeparatorOrControl, Bool.or_eq_false_iff, beq_eq_false_iff_ne]
    exact ⟨⟨hslash, hshape.1.1.2⟩, hshape.1.1.1.1⟩
  · simp only [isForbiddenEscape, Bool.or_eq_false_iff] at hallowed
    simp only [isSeparatorOrControl, Bool.or_eq_false_iff]
    exact ⟨⟨hallowed.1.1.2, hallowed.1.2⟩, hallowed.2⟩

/-- The segments of an accepted path, decoded, are the segments of the decoded
path. -/
theorem segments_percentDecode {path : String} (haccepted : isOriginFormPath path = true) :
    segments (percentDecode (stringBytes path)) =
      (segments (stringBytes path)).map percentDecode := by
  have hdecodes : ∀ segment ∈ segments (stringBytes path),
      Decodes segment (percentDecode segment) := fun segment hsegment =>
    decodes_of_decodeSegment (safeSegment_of_accepted haccepted segment hsegment).decode
  have hjoin := percentDecode_intercalate hdecodes
  rw [segments_join] at hjoin
  rw [hjoin]
  apply segments_intercalate
  · intro part hpart hslash
    obtain ⟨segment, hsegment, hdecoded⟩ := List.mem_map.mp hpart
    subst hdecoded
    have hnot := not_separator_of_accepted haccepted hsegment _ hslash
    simp [isSeparatorOrControl] at hnot
  · simpa using segments_ne_nil (stringBytes path)

theorem percentDecode_twice {path : String} (haccepted : isOriginFormPath path = true) :
    percentDecode (percentDecode (stringBytes path)) = percentDecode (stringBytes path) := by
  have hescape : ∀ part ∈ segments (percentDecode (stringBytes path)),
      holdsEscape part = false := by
    intro part hpart
    rw [segments_percentDecode haccepted] at hpart
    obtain ⟨segment, hsegment, hdecoded⟩ := List.mem_map.mp hpart
    subst hdecoded
    exact (safeSegment_of_accepted haccepted segment hsegment).noEscape
  have htwice := percentDecode_intercalate_of_noEscape hescape
  rw [segments_join] at htwice
  exact htwice

theorem count_percentDecode {path : String} (haccepted : isOriginFormPath path = true)
    {byte : ℕ} (hbyte : isSeparatorOrControl byte = true) :
    (percentDecode (stringBytes path)).count byte = (stringBytes path).count byte := by
  by_cases hslash : byte = ascii '/'
  · subst hslash
    have honce := length_segments (percentDecode (stringBytes path))
    have hraw := length_segments (stringBytes path)
    rw [segments_percentDecode haccepted, List.length_map] at honce
    omega
  · have hraw : byte ∉ stringBytes path := by
      intro hmem
      have hshape := breaksShape_of_accepted haccepted byte hmem
      simp only [breaksShape, Bool.or_eq_false_iff] at hshape
      simp only [isSeparatorOrControl, Bool.or_eq_true, beq_iff_eq, hslash, false_or] at hbyte
      rcases hbyte with hback | hcontrol
      · simp [hback] at hshape
      · simp [hcontrol] at hshape
    have honce : byte ∉ percentDecode (stringBytes path) := by
      intro hmem
      obtain ⟨part, hpart, hmemPart⟩ := exists_segment_of_mem hslash hmem
      rw [segments_percentDecode haccepted] at hpart
      obtain ⟨segment, hsegment, hdecoded⟩ := List.mem_map.mp hpart
      subst hdecoded
      have hnot := not_separator_of_accepted haccepted hsegment byte hmemPart
      rw [hbyte] at hnot
      cases hnot
    rw [List.count_eq_zero_of_not_mem honce, List.count_eq_zero_of_not_mem hraw]

/-- A path the host accepts cannot traverse: decoding it once or twice keeps its
segments apart and brings in no separator or control byte, the second decoding
does nothing, no decoded segment reads as a dot segment, and a lenient UTF-8
reader finds no overlong sequence in one. -/
theorem isOriginFormPath_cannot_traverse (path : String)
    (haccepted : isOriginFormPath path = true) :
    let raw := stringBytes path
    let once := percentDecode raw
    let twice := percentDecode once
    ((segments once).length = (segments raw).length ∧
      (segments twice).length = (segments raw).length) ∧
    (∀ byte, isSeparatorOrControl byte = true →
      once.count byte = raw.count byte ∧ twice.count byte = raw.count byte) ∧
    twice = once ∧
    (∀ decoded ∈ segments once,
      trimSpaces (cutSegment decoded) ≠ [ascii '.'] ∧
      trimSpaces (cutSegment decoded) ≠ [ascii '.', ascii '.']) ∧
    (∀ decoded ∈ segments once, ∀ rest, rest <:+ decoded →
      ∀ length code, lenientRead rest = some (length, code) →
        length ≤ shortestForm code ∧
          code ≠ ascii '.' ∧ code ≠ ascii '/' ∧ code ≠ ascii '\\') := by
  intro raw once twice
  have htwice : twice = once := percentDecode_twice haccepted
  have hsegments : segments once = (segments raw).map percentDecode :=
    segments_percentDecode haccepted
  have hlength : (segments once).length = (segments raw).length := by
    rw [hsegments, List.length_map]
  have hsafe : ∀ decoded ∈ segments once, isDotSegment decoded = false ∧
      holdsOverlongUtf8 decoded = false ∧
      ∀ byte ∈ decoded, isSeparatorOrControl byte = false := by
    intro decoded hdecoded
    rw [hsegments] at hdecoded
    obtain ⟨segment, hsegment, heq⟩ := List.mem_map.mp hdecoded
    subst heq
    have hsegmentSafe := safeSegment_of_accepted haccepted segment hsegment
    exact ⟨hsegmentSafe.notDot, hsegmentSafe.noOverlong,
      not_separator_of_accepted haccepted hsegment⟩
  refine ⟨⟨hlength, by rw [htwice, hlength]⟩, ?_, htwice, ?_, ?_⟩
  · intro byte hbyte
    rw [htwice]
    exact ⟨count_percentDecode haccepted hbyte, count_percentDecode haccepted hbyte⟩
  · intro decoded hdecoded
    obtain ⟨hdot, -, hbytes⟩ := hsafe decoded hdecoded
    have hcontrol : ∀ byte ∈ cutSegment decoded, isAsciiControl byte = false := by
      intro byte hbyte
      have hnot := hbytes byte ((List.takeWhile_sublist _).subset hbyte)
      simp only [isSeparatorOrControl, Bool.or_eq_false_iff] at hnot
      exact hnot.2
    have htrim := trimAscii_eq_trimSpaces hcontrol
    simp only [isDotSegment, Bool.or_eq_false_iff, beq_eq_false_iff_ne] at hdot
    rw [← htrim]
    exact hdot
  · intro decoded hdecoded rest hrest length code hread
    obtain ⟨-, hoverlong, -⟩ := hsafe decoded hdecoded
    have hshort := lenientRead_of_noOverlong hoverlong hrest hread
    have hcode := code_not_ascii (lenientRead_length hread) hshort
    have hdot : ascii '.' < 0x80 := by decide
    have hslash : ascii '/' < 0x80 := by decide
    have hback : ascii '\\' < 0x80 := by decide
    exact ⟨hshort, by omega, by omega, by omega⟩

theorem isOriginFormPath_cannot_traverse_repos :
    isOriginFormPath "/repos/caf%C3%A9/100%25" = true ∧
      percentDecode (percentDecode (stringBytes "/repos/caf%C3%A9/100%25")) =
        percentDecode (stringBytes "/repos/caf%C3%A9/100%25") :=
  ⟨by decide +kernel,
    (isOriginFormPath_cannot_traverse "/repos/caf%C3%A9/100%25" (by decide +kernel)).2.2.1⟩

/-! ## Encoding -/

def encodeByte (byte : ℕ) : List ℕ :=
  if isUnreserved byte then [byte]
  else [ascii '%', (hexUpper (byte / 16)).toNat, (hexUpper (byte % 16)).toNat]

theorem isUnreserved_lt {byte : ℕ} (hbyte : isUnreserved byte = true) : byte < 128 := by
  by_contra hlarge
  have hdash : ascii '-' = 45 ∧ ascii '.' = 46 ∧ ascii '_' = 95 ∧ ascii '~' = 126 := by decide
  have hletters : ascii 'Z' = 90 ∧ ascii 'z' = 122 ∧ ascii '9' = 57 := by decide
  simp only [isUnreserved, Bool.or_eq_true, Bool.and_eq_true, decide_eq_true_eq,
    beq_iff_eq] at hbyte
  omega

theorem hexUpper_lt : ∀ digit < 16, (hexUpper digit).toNat < 128 := by decide

theorem hexDigit_hexUpper : ∀ digit < 16, hexDigit (hexUpper digit).toNat = some digit := by
  decide

theorem toNat_ofNat_of_ascii : ∀ byte < 128, (Char.ofNat byte).toNat = byte := by decide

theorem stringBytes_percentEncode (text : String) :
    stringBytes (percentEncode text) = (stringBytes text).flatMap encodeByte := by
  have hlt := stringBytes_lt text
  unfold percentEncode
  rw [stringBytes_ofList_ascii]
  · rw [List.map_flatMap]
    apply List.flatMap_congr
    intro byte hbyte
    unfold encodeByte
    split
    · rename_i hunreserved
      rw [List.map_singleton, toNat_ofNat_of_ascii byte (isUnreserved_lt hunreserved)]
    · rfl
  · intro char hchar
    obtain ⟨byte, hbyte, hmem⟩ := List.mem_flatMap.mp hchar
    have hbound := hlt byte hbyte
    split at hmem
    · rename_i hunreserved
      rw [List.mem_singleton] at hmem
      subst hmem
      rw [toNat_ofNat_of_ascii byte (isUnreserved_lt hunreserved)]
      exact isUnreserved_lt hunreserved
    · simp only [List.mem_cons, List.not_mem_nil, or_false] at hmem
      rcases hmem with hpercent | hhigh | hlow
      · subst hpercent
        decide
      · subst hhigh
        exact hexUpper_lt _ (by omega)
      · subst hlow
        exact hexUpper_lt _ (by omega)

/-- The bytes an encoding is made of. -/
theorem mem_encodeByte {byte out : ℕ} (hbyte : byte < 256) (hout : out ∈ encodeByte byte) :
    out < 128 ∧ (isUnreserved out = true ∨ out = ascii '%') := by
  have hhex : ∀ digit < 16, isUnreserved (hexUpper digit).toNat = true := by decide
  unfold encodeByte at hout
  split at hout
  · rename_i hunreserved
    rw [List.mem_singleton] at hout
    subst hout
    exact ⟨isUnreserved_lt hunreserved, Or.inl hunreserved⟩
  · simp only [List.mem_cons, List.not_mem_nil, or_false] at hout
    rcases hout with hpercent | hhigh | hlow
    · subst hpercent
      exact ⟨by decide, Or.inr rfl⟩
    · subst hhigh
      exact ⟨hexUpper_lt _ (by omega), Or.inl (hhex _ (by omega))⟩
    · subst hlow
      exact ⟨hexUpper_lt _ (by omega), Or.inl (hhex _ (by omega))⟩

theorem encoded_byte_plain : ∀ byte < 128, (isUnreserved byte = true ∨ byte = ascii '%') →
    byte ≠ ascii '/' ∧ byte ≠ ascii ':' ∧ breaksShape byte = false := by decide

theorem mem_percentEncode {text : String} {byte : ℕ}
    (hbyte : byte ∈ stringBytes (percentEncode text)) :
    byte ≠ ascii '/' ∧ byte ≠ ascii ':' ∧ breaksShape byte = false := by
  rw [stringBytes_percentEncode] at hbyte
  obtain ⟨source, hsource, hmem⟩ := List.mem_flatMap.mp hbyte
  have hencoded := mem_encodeByte (stringBytes_lt text source hsource) hmem
  exact encoded_byte_plain byte hencoded.1 hencoded.2

/-- The escapes the encoding writes are refused for the bytes that the text check
refuses. -/
theorem isForbiddenEscape_of_reserved {byte : ℕ} (hbyte : isUnreserved byte = false) :
    isForbiddenEscape byte = isSeparatorOrControl byte := by
  have hdot : (byte == ascii '.') = false := by
    rw [beq_eq_false_iff_ne]
    intro heq
    subst heq
    exact absurd hbyte (by decide)
  simp only [isForbiddenEscape, isSeparatorOrControl, hdot, Bool.false_or]

theorem isSeparatorOrControl_of_unreserved {byte : ℕ} (hbyte : isUnreserved byte = true) :
    isSeparatorOrControl byte = false ∧ byte ≠ ascii '%' := by
  have hall : ∀ byte < 128, isUnreserved byte = true →
      isSeparatorOrControl byte = false ∧ byte ≠ ascii '%' := by decide
  exact hall byte (isUnreserved_lt hbyte) hbyte

theorem decodeSegment_escape {high low highBits lowBits : ℕ}
    (hhigh : hexDigit high = some highBits) (hlow : hexDigit low = some lowBits)
    (rest : List ℕ) :
    decodeSegment (ascii '%' :: high :: low :: rest) =
      if isForbiddenEscape (highBits * 16 + lowBits) then none
      else (decodeSegment rest).map ((highBits * 16 + lowBits) :: ·) := by
  rw [decodeSegment.eq_def]
  simp only [ne_eq, not_true_eq_false, if_false, hhigh, hlow]

theorem decodeSegment_raw {byte : ℕ} (hbyte : byte ≠ ascii '%') (rest : List ℕ) :
    decodeSegment (byte :: rest) = (decodeSegment rest).map (byte :: ·) := by
  rw [decodeSegment.eq_def]
  simp only [ne_eq, hbyte, not_false_eq_true, if_true]

/-- Decoding undoes the encoding, or refuses a byte that the text check refuses. -/
theorem decodeSegment_encode {bytes : List ℕ} (hbytes : ∀ byte ∈ bytes, byte < 256) :
    decodeSegment (bytes.flatMap encodeByte) =
      if bytes.any isSeparatorOrControl then none else some bytes := by
  induction bytes with
  | nil => rfl
  | cons byte rest ih =>
    have hbyte : byte < 256 := hbytes byte List.mem_cons_self
    have hrest := ih (fun other hother => hbytes other (List.mem_cons_of_mem _ hother))
    rw [List.flatMap_cons, List.any_cons]
    by_cases hunreserved : isUnreserved byte = true
    · have hencode : encodeByte byte = [byte] := if_pos hunreserved
      obtain ⟨hplain, hpercent⟩ := isSeparatorOrControl_of_unreserved hunreserved
      rw [hencode, List.singleton_append, decodeSegment_raw hpercent, hrest, hplain,
        Bool.false_or]
      split <;> rfl
    · have hencode : encodeByte byte =
          [ascii '%', (hexUpper (byte / 16)).toNat, (hexUpper (byte % 16)).toNat] :=
        if_neg hunreserved
      have hvalue : byte / 16 * 16 + byte % 16 = byte := by omega
      rw [hencode, List.cons_append, List.cons_append, List.cons_append, List.nil_append,
        decodeSegment_escape (hexDigit_hexUpper _ (by omega)) (hexDigit_hexUpper _ (by omega)),
        hvalue, isForbiddenEscape_of_reserved (by simpa using hunreserved), hrest]
      cases hforbidden : isSeparatorOrControl byte with
      | true => simp
      | false =>
        simp only [Bool.false_eq_true, if_false, Bool.false_or]
        split <;> rfl

/-! ## The text of a segment spells no overlong sequence -/

theorem overlongPair_of_lt {lead : ℕ} (hlead : lead < 0xC0) (next : ℕ) :
    overlongPair lead next = false := by
  unfold overlongPair
  simp only []
  rw [if_neg (by omega), if_neg (by omega), if_neg (by omega), if_neg (by omega)]

theorem anyPair_overlong_cons {byte : ℕ} (hbyte : byte < 0xC0) (rest : List ℕ) :
    anyPair overlongPair (byte :: rest) = anyPair overlongPair rest := by
  cases rest with
  | nil => rfl
  | cons next more =>
    rw [anyPair, overlongPair_of_lt hbyte, Bool.false_or]

/-- The first two bytes of a character are no overlong pair, and every later byte
is too small to lead one. -/
theorem anyPair_overlong_form {bytes : List ℕ} (hform : Form bytes) (rest : List ℕ) :
    anyPair overlongPair (bytes ++ rest) = anyPair overlongPair rest := by
  cases hform with
  | one hfirst =>
    rw [List.singleton_append, anyPair_overlong_cons (by omega)]
  | @two first second hlow hhigh hsecond =>
    have hpair : overlongPair first second = false := by
      unfold overlongPair
      simp only []
      rw [if_neg (by omega), if_neg (by omega), if_neg (by omega), if_neg (by omega)]
    rw [List.cons_append, List.singleton_append, anyPair, hpair, Bool.false_or,
      anyPair_overlong_cons hsecond.2]
  | @three first second third hlow hhigh hsecond hthird hshort =>
    have hpair : overlongPair first second = false := by
      have hbounds := hsecond
      unfold IsContinuation at hbounds
      unfold overlongPair
      simp only []
      by_cases hfirst : first = 0xE0
      · have hlarge := hshort hfirst
        rw [if_pos hfirst, decide_eq_false_iff_not]
        omega
      · rw [if_neg hfirst, if_neg (by omega), if_neg (by omega), if_neg (by omega)]
    rw [List.cons_append, List.cons_append, List.singleton_append, anyPair, hpair,
      Bool.false_or, anyPair_overlong_cons hsecond.2, anyPair_overlong_cons hthird.2]
  | @four first second third fourth hlow hhigh hsecond hthird hfourth hshort =>
    have hpair : overlongPair first second = false := by
      have hbounds := hsecond
      unfold IsContinuation at hbounds
      unfold overlongPair
      simp only []
      by_cases hfirst : first = 0xF0
      · have hlarge := hshort hfirst
        rw [if_neg (by omega), if_pos hfirst, decide_eq_false_iff_not]
        omega
      · rw [if_neg (by omega), if_neg hfirst, if_neg (by omega), if_neg (by omega)]
    rw [List.cons_append, List.cons_append, List.cons_append, List.singleton_append, anyPair,
      hpair, Bool.false_or, anyPair_overlong_cons hsecond.2, anyPair_overlong_cons hthird.2,
      anyPair_overlong_cons hfourth.2]

theorem form_ne_overlong_lead {bytes : List ℕ} (hform : Form bytes) :
    ∀ byte ∈ bytes, byte ≠ 0xC0 ∧ byte ≠ 0xC1 := by
  intro byte hbyte
  cases hform with
  | one hfirst =>
    simp only [List.mem_singleton] at hbyte
    omega
  | two hlow hhigh hsecond =>
    simp only [IsContinuation] at hsecond
    simp only [List.mem_cons, List.not_mem_nil, or_false] at hbyte
    omega
  | three hlow hhigh hsecond hthird hshort =>
    simp only [IsContinuation] at hsecond hthird
    simp only [List.mem_cons, List.not_mem_nil, or_false] at hbyte
    omega
  | four hlow hhigh hsecond hthird hfourth hshort =>
    simp only [IsContinuation] at hsecond hthird hfourth
    simp only [List.mem_cons, List.not_mem_nil, or_false] at hbyte
    omega

theorem holdsOverlongUtf8_stringBytes (text : String) :
    holdsOverlongUtf8 (stringBytes text) = false := by
  rw [stringBytes_eq]
  simp only [holdsOverlongUtf8, Bool.or_eq_false_iff]
  constructor
  · rw [List.any_eq_false]
    intro byte hbyte
    obtain ⟨char, -, hmem⟩ := List.mem_flatMap.mp hbyte
    have hlead := form_ne_overlong_lead (form_charBytes char) byte hmem
    simp [hlead.1, hlead.2]
  · induction text.toList with
    | nil => rfl
    | cons char rest ih =>
      rw [List.flatMap_cons, anyPair_overlong_form (form_charBytes char), ih]

/-! ## Agreement -/

theorem PathSegmentError.check_eq_none_iff (text : String) :
    PathSegmentError.check text = none ↔
      stringBytes text ≠ [] ∧ (stringBytes text).any isSeparatorOrControl = false ∧
        holdsEscape (stringBytes text) = false ∧ isDotSegment (stringBytes text) = false := by
  unfold PathSegmentError.check
  simp only [List.isEmpty_iff]
  have hany : ((stringBytes text).any fun byte =>
      byte == ascii '/' || byte == ascii '\\' || isAsciiControl byte) =
        (stringBytes text).any isSeparatorOrControl := rfl
  rw [hany]
  split_ifs <;> simp_all

theorem refusesSegment_percentEncode (text : String) :
    refusesSegment (stringBytes (percentEncode text)) = false ↔
      (stringBytes text).any isSeparatorOrControl = false ∧
        holdsEscape (stringBytes text) = false ∧ isDotSegment (stringBytes text) = false := by
  have hdecode := decodeSegment_encode (stringBytes_lt text)
  rw [← stringBytes_percentEncode] at hdecode
  unfold refusesSegment
  rw [hdecode]
  cases hany : (stringBytes text).any isSeparatorOrControl with
  | true => simp
  | false =>
    have hoverlong := holdsOverlongUtf8_stringBytes text
    simp only [Bool.false_eq_true, if_false, hoverlong, Bool.or_false, Bool.or_eq_false_iff,
      true_and]
    exact And.comm

theorem hasOriginFormShape_iff (path : String) :
    hasOriginFormShape path = true ↔
      [ascii '/'] <+: stringBytes path ∧ ¬ [ascii '/', ascii '/'] <+: stringBytes path ∧
        ¬ [ascii ':', ascii '/', ascii '/'] <:+: stringBytes path ∧
        ∀ byte ∈ stringBytes path, breaksShape byte = false := by
  have hcontains : stringContains path "://" = false ↔
      ¬ [ascii ':', ascii '/', ascii '/'] <:+: stringBytes path := by
    rw [← stringBytes_scheme, ← stringContains_iff, Bool.not_eq_true]
  have hbytes : (stringBytes path).any breaksShape = false ↔
      ∀ byte ∈ stringBytes path, breaksShape byte = false := by
    rw [List.any_eq_false]
    simp
  have hslashes : stringStartsWith path "//" = false ↔
      ¬ [ascii '/', ascii '/'] <+: stringBytes path := by
    rw [stringStartsWith, stringBytes_slashes, ← List.isPrefixOf_iff_prefix, Bool.not_eq_true]
  have hslash : stringStartsWith path "/" = true ↔ [ascii '/'] <+: stringBytes path := by
    rw [stringStartsWith, stringBytes_slash, List.isPrefixOf_iff_prefix]
  simp only [hasOriginFormShape, Bool.and_eq_true, Bool.not_eq_true', hslash, hslashes,
    hcontains, hbytes, and_assoc]

/-- An encoded text after a slash always has the shape of a path. -/
theorem hasOriginFormShape_percentEncode (text : String) :
    hasOriginFormShape ("/" ++ percentEncode text) = true := by
  have hbytes : stringBytes ("/" ++ percentEncode text) =
      ascii '/' :: stringBytes (percentEncode text) := by
    rw [stringBytes_append, stringBytes_slash]
    rfl
  rw [hasOriginFormShape_iff, hbytes]
  refine ⟨by simp, ?_, ?_, ?_⟩
  · intro hslashes
    rw [List.cons_prefix_cons] at hslashes
    obtain ⟨more, hmore⟩ := hslashes.2
    have hmem : ascii '/' ∈ stringBytes (percentEncode text) := by
      rw [← hmore]
      simp
    exact (mem_percentEncode hmem).1 rfl
  · intro hscheme
    have hmem : ascii ':' ∈ ascii '/' :: stringBytes (percentEncode text) :=
      hscheme.subset List.mem_cons_self
    rcases List.mem_cons.mp hmem with hslash | hencoded
    · exact absurd hslash (by decide)
    · exact (mem_percentEncode hencoded).2.1 rfl
  · intro byte hbyte
    rcases List.mem_cons.mp hbyte with hslash | hencoded
    · subst hslash
      decide
    · exact (mem_percentEncode hencoded).2.2

theorem isOriginFormPath_percentEncode (text : String) :
    isOriginFormPath ("/" ++ percentEncode text) = true ↔
      refusesSegment (stringBytes (percentEncode text)) = false := by
  have hslash : ascii '/' ∉ stringBytes (percentEncode text) := by
    intro hmem
    exact (mem_percentEncode hmem).1 rfl
  have hsegments : segments (stringBytes ("/" ++ percentEncode text)) =
      [[], stringBytes (percentEncode text)] := by
    rw [stringBytes_append, stringBytes_slash, List.singleton_append, segments_slash,
      segments_of_not_mem hslash]
  have hempty : refusesSegment [] = false := by decide
  simp only [isOriginFormPath, hasOriginFormShape_percentEncode, Bool.true_and, hasTraversalForm,
    hsegments, List.any_cons, hempty, List.any_nil, Bool.or_false, Bool.false_or,
    Bool.not_eq_true']

-- `://` could only appear across the join: its colon ends the left path and both
-- slashes follow, or one slash ends the left path too.
theorem scheme_not_infix_append {left right : List ℕ}
    (hleft : ¬ [ascii ':', ascii '/', ascii '/'] <:+: left)
    (hright : ¬ [ascii ':', ascii '/', ascii '/'] <:+: right)
    (hend : ¬ [ascii '/'] <:+ left) (hslashes : ¬ [ascii '/', ascii '/'] <+: right) :
    ¬ [ascii ':', ascii '/', ascii '/'] <:+: left ++ right := by
  rintro ⟨before, after, hsplit⟩
  rw [List.append_assoc, List.append_eq_append_iff] at hsplit
  rcases hsplit with ⟨gap, hgap, hright'⟩ | ⟨gap, hgap, hright'⟩
  · cases gap with
    | nil =>
      rw [List.nil_append] at hright'
      exact hright ⟨[], after, by simpa using hright'⟩
    | cons first gap =>
      simp only [List.cons_append, List.nil_append, List.cons.injEq] at hright'
      obtain ⟨hcolon, hrest⟩ := hright'
      subst hcolon
      cases gap with
      | nil => exact hslashes ⟨after, hrest⟩
      | cons second gap =>
        rw [List.cons_append, List.cons.injEq] at hrest
        obtain ⟨hsecond, hrest⟩ := hrest
        subst hsecond
        cases gap with
        | nil => exact hend ⟨before ++ [ascii ':'], by simp [hgap]⟩
        | cons third gap =>
          rw [List.cons_append, List.cons.injEq] at hrest
          obtain ⟨hthird, -⟩ := hrest
          subst hthird
          exact hleft ⟨before, gap, by simp [hgap]⟩
  · exact hright ⟨gap, after, by simp [hright']⟩

/-- Two accepted paths join, unless the first ends in a slash. -/
theorem isOriginFormPath_join {path suffix : String}
    (hpath : isOriginFormPath path = true) (hend : stringEndsWith path "/" = false)
    (hsuffix : isOriginFormPath ("/" ++ suffix) = true) :
    isOriginFormPath (path ++ "/" ++ suffix) = true := by
  have hbytes : stringBytes (path ++ "/" ++ suffix) =
      stringBytes path ++ ascii '/' :: stringBytes suffix := by
    rw [stringBytes_append, stringBytes_append, stringBytes_slash, List.append_assoc]
    rfl
  have hsuffixBytes : stringBytes ("/" ++ suffix) = ascii '/' :: stringBytes suffix := by
    rw [stringBytes_append, stringBytes_slash]
    rfl
  have hlast : ¬ [ascii '/'] <:+ stringBytes path := by
    rw [stringEndsWith, stringBytes_slash] at hend
    intro hslash
    rw [List.isSuffixOf_iff_suffix.mpr hslash] at hend
    cases hend
  simp only [isOriginFormPath, Bool.and_eq_true, Bool.not_eq_true', hasTraversalForm]
    at hpath hsuffix ⊢
  rw [hasOriginFormShape_iff] at hpath hsuffix ⊢
  rw [hsuffixBytes] at hsuffix
  rw [hbytes]
  obtain ⟨⟨hslash, hslashes, hscheme, hplain⟩, hsafe⟩ := hpath
  obtain ⟨⟨-, hslashes', hscheme', hplain'⟩, hsafe'⟩ := hsuffix
  refine ⟨⟨hslash.trans (List.prefix_append _ _), ?_, ?_, ?_⟩, ?_⟩
  · -- the second byte of the joined path is the second byte of the first
    intro hdouble
    obtain ⟨more, hmore⟩ := hslash
    rw [← hmore, List.singleton_append, List.cons_append, List.cons_prefix_cons] at hdouble
    cases more with
    | nil => exact hlast ⟨[], by simpa using hmore⟩
    | cons second others =>
      have hsecond : ascii '/' = second := by
        rw [List.cons_append, List.cons_prefix_cons] at hdouble
        exact hdouble.2.1
      apply hslashes
      rw [← hmore, ← hsecond]
      exact ⟨others, rfl⟩
  · exact scheme_not_infix_append hscheme hscheme' hlast hslashes'
  · intro byte hbyte
    rcases List.mem_append.mp hbyte with hleft | hright
    · exact hplain byte hleft
    · exact hplain' byte hright
  · rw [segments_append_slash, List.any_append, hsafe, Bool.false_or]
    rw [segments_slash, List.any_cons, Bool.or_eq_false_iff] at hsafe'
    exact hsafe'.2

theorem not_endsWith_slash (front : String) {text : String} (hne : stringBytes text ≠ [])
    (hslash : ascii '/' ∉ stringBytes text) :
    stringEndsWith (front ++ text) "/" = false := by
  rw [stringEndsWith, Bool.eq_false_iff]
  intro hends
  rw [List.isSuffixOf_iff_suffix, stringBytes_append, stringBytes_slash] at hends
  obtain ⟨before, hbefore⟩ := hends
  obtain ⟨first, last, hlast⟩ := (List.eq_nil_or_concat _).resolve_left hne
  rw [List.concat_eq_append] at hlast
  rw [hlast, ← List.append_assoc] at hbefore
  have hsame : [ascii '/'] = [last] := List.append_inj_right' hbefore rfl
  apply hslash
  rw [hlast, ← hsame]
  simp

theorem encodePathSegment_eq_ok_iff (text encoded : String) :
    encodePathSegment text = .ok encoded ↔
      PathSegmentError.check text = none ∧ encoded = percentEncode text := by
  unfold encodePathSegment
  cases hcheck : PathSegmentError.check text with
  | some error => simp
  | none =>
    simp only [Except.ok.injEq, true_and]
    exact eq_comm

theorem check_eq_none_iff_accepted (text : String) :
    PathSegmentError.check text = none ↔
      text ≠ "" ∧ isOriginFormPath ("/" ++ percentEncode text) = true := by
  rw [PathSegmentError.check_eq_none_iff, isOriginFormPath_percentEncode,
    refusesSegment_percentEncode, ne_eq, stringBytes_eq_nil_iff]

/-- `url_path_segment` agrees with the host path rule: it accepts a text exactly
when the text is not empty and its encoding is an accepted segment; the encoding
decodes back to the text, and it can stand after, and between, accepted paths. -/
theorem encodePathSegment_agrees (text : String) :
    ((∃ encoded, encodePathSegment text = .ok encoded) ↔
      text ≠ "" ∧ isOriginFormPath ("/" ++ percentEncode text) = true) ∧
    ∀ encoded, encodePathSegment text = .ok encoded →
      percentDecode (stringBytes encoded) = stringBytes text ∧
      ∀ path, isOriginFormPath path = true → stringEndsWith path "/" = false →
        isOriginFormPath (path ++ "/" ++ encoded) = true ∧
        ∀ suffix, isOriginFormPath ("/" ++ suffix) = true →
          isOriginFormPath (path ++ "/" ++ encoded ++ "/" ++ suffix) = true := by
  constructor
  · rw [← check_eq_none_iff_accepted]
    constructor
    · rintro ⟨encoded, hencode⟩
      exact ((encodePathSegment_eq_ok_iff text encoded).mp hencode).1
    · intro hcheck
      exact ⟨percentEncode text, (encodePathSegment_eq_ok_iff text _).mpr ⟨hcheck, rfl⟩⟩
  · intro encoded hencode
    obtain ⟨hcheck, hencoded⟩ := (encodePathSegment_eq_ok_iff text encoded).mp hencode
    subst hencoded
    obtain ⟨hne, haccepted⟩ := (check_eq_none_iff_accepted text).mp hcheck
    obtain ⟨-, hany, -, -⟩ := (PathSegmentError.check_eq_none_iff text).mp hcheck
    have hdecode : decodeSegment (stringBytes (percentEncode text)) =
        some (stringBytes text) := by
      rw [stringBytes_percentEncode, decodeSegment_encode (stringBytes_lt text), hany]
      rfl
    refine ⟨(decodes_of_decodeSegment hdecode).percentDecode_eq, ?_⟩
    intro path hpath hend
    have hjoined := isOriginFormPath_join hpath hend haccepted
    refine ⟨hjoined, ?_⟩
    intro suffix hsuffix
    have hencodedNe : stringBytes (percentEncode text) ≠ [] := by
      intro hnil
      rw [hnil, decodeSegment, Option.some.injEq] at hdecode
      exact hne ((stringBytes_eq_nil_iff text).mp hdecode.symm)
    have hslash : ascii '/' ∉ stringBytes (percentEncode text) := by
      intro hmem
      exact (mem_percentEncode hmem).1 rfl
    exact isOriginFormPath_join hjoined (not_endsWith_slash _ hencodedNe hslash) hsuffix

end Krit
