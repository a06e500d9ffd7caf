import Krit.Errors
import Krit.Lib.TextPlaces

/-!
# Positions and byte offsets

The language server and the assistant convert between byte offsets of a source and the
positions of an editor, which are lines and UTF-16 units.  Each has an index of its own.
-/

namespace Krit

open Utf8 Utf16

/-- A position in the editor; both of its numbers have 32 bits. -/
abbrev TextPosition := Place

/-- A computation of the assistant on a text. -/
abbrev Assist := Except (Halt AssistError)

/-- A computation of the language server on a text. -/
abbrev Server := Except (Halt String)

/-! ## Lines -/

/-- The offsets behind the line feeds of bytes. -/
def lineStarts : ℕ → List ℕ → List ℕ
  | _, [] => []
  | index, byte :: bytes =>
      if byte = '\n'.toNat then (index + 1) :: lineStarts (index + 1) bytes
      else lineStarts (index + 1) bytes

def newStarts (text : List Char) : List ℕ := 0 :: lineStarts 0 (encode text)

/-- The offset where the content of a line ends. -/
def lineContentEnd (starts : List ℕ) (text : List Char) (line : ℕ) : ℕ :=
  match starts[line + 1]? with
  | none => size text
  | some stop =>
      if 0 < stop ∧ (encode text)[stop - 1]? = some '\n'.toNat then
        if 0 < stop - 1 ∧ (encode text)[stop - 1 - 1]? = some '\r'.toNat then stop - 1 - 1
        else stop - 1
      else stop

/-- The line and the units before an offset. -/
def positionAt {ε : Type} (starts : List ℕ) (text : List Char) (byte : ℕ) :
    Except (Halt ε) TextPosition :=
  let line := (starts.takeWhile fun start => start ≤ byte).length - 1
  match starts[line]? with
  | none => .error .panicked
  | some start => do
      let before ← slice text start byte
      .ok ⟨line % 2 ^ 32, length before % 2 ^ 32⟩

/-- What the walk over the characters of a line finds for a number of units. -/
inductive Found where
  | at (relative : ℕ)
  | split
  | past (utf16 : ℕ)
  deriving DecidableEq

def findUnits (target : ℕ) : ℕ → ℕ → List Char → Found
  | utf16, _, [] => .past utf16
  | utf16, relative, char :: rest =>
      if utf16 = target then .at relative
      else if target < utf16 + units char then .split
      else findUnits target (utf16 + units char) (relative + (charBytes char).length) rest

/-! ## The index of the language server -/

structure LineIndex where
  starts : List ℕ

namespace LineIndex

def new (text : List Char) : LineIndex := ⟨newStarts text⟩

/-- The last boundary up to an offset. -/
def floorBoundary (text : List Char) : ℕ → ℕ
  | 0 => 0
  | byte + 1 => if isBoundary text (byte + 1) then byte + 1 else floorBoundary text byte

def position (index : LineIndex) (text : List Char) (byte : ℕ) : Server TextPosition :=
  positionAt index.starts text (floorBoundary text (min byte (size text)))

def offset (index : LineIndex) (text : List Char) (position : TextPosition) : Server ℕ :=
  match index.starts[position.line]? with
  | none => .error (.failed ("line " ++ toString position.line ++ " is outside the document"))
  | some start => do
      let stop := lineContentEnd index.starts text position.line
      let content ← slice text start stop
      match findUnits position.character 0 0 content with
      | .at relative => .ok (start + relative)
      | .split => .error (.failed ("UTF-16 character " ++ toString position.character ++
          " splits a surrogate pair"))
      | .past _ => .ok stop

end LineIndex

/-! ## The index of the assistant -/

structure Utf16Index where
  starts : List ℕ

namespace Utf16Index

def new (source : List Char) : Utf16Index := ⟨newStarts source⟩

def position (index : Utf16Index) (source : List Char) (byte : ℕ) : Assist TextPosition :=
  positionAt index.starts source byte

def offset (index : Utf16Index) (source : List Char) (position : TextPosition) : Assist ℕ :=
  match index.starts[position.line]? with
  | none => .error (.failed (.context "selected range line is outside the source"))
  | some start => do
      let stop := lineContentEnd index.starts source position.line
      let content ← slice source start stop
      match findUnits position.character 0 0 content with
      | .at relative => .ok (start + relative)
      | .split => .error (.failed (.context "selected UTF-16 range splits a surrogate pair"))
      | .past utf16 =>
          if utf16 = position.character then .ok stop
          else .error (.failed (.context
            "selected UTF-16 character is outside the source line"))

end Utf16Index

/-! ## The starts of lines -/

theorem lineStarts_cons (index : ℕ) (char : Char) (rest : List Char) :
    lineStarts index (encode (char :: rest)) =
      if char = '\n' then (index + 1) :: lineStarts (index + 1) (encode rest)
      else lineStarts (index + (charBytes char).length) (encode rest) := by
  rw [encode_cons]
  by_cases hascii : char.toNat < 128
  · rw [charBytes_of_ascii hascii, List.singleton_append, lineStarts, List.length_singleton]
    have hsame : char.toNat = '\n'.toNat ↔ char = '\n' := Char.toNat_inj
    by_cases hend : char = '\n'
    · rw [if_pos (hsame.mpr hend), if_pos hend]
    · rw [if_neg (mt hsame.mp hend), if_neg hend]
  · have hwide := le_of_mem_charBytes hascii
    have hend : char ≠ '\n' := by
      rintro rfl
      exact hascii (by decide)
    rw [if_neg hend]
    generalize charBytes char = bytes at hwide
    induction bytes generalizing index with
    | nil => rfl
    | cons byte bytes ih =>
      have hbyte := hwide byte List.mem_cons_self
      have hne : byte ≠ '\n'.toNat := by
        intro heq
        rw [heq] at hbyte
        exact absurd hbyte (by decide)
      rw [List.cons_append, lineStarts, if_neg hne,
        ih (index + 1) fun byte hbyte => hwide byte (List.mem_cons_of_mem _ hbyte),
        List.length_cons, Nat.add_right_comm, Nat.add_assoc]

theorem lt_of_mem_lineStarts {index start : ℕ} {bytes : List ℕ}
    (hstart : start ∈ lineStarts index bytes) : index < start := by
  induction bytes generalizing index with
  | nil => cases hstart
  | cons byte bytes ih =>
    rw [lineStarts] at hstart
    split at hstart
    · rcases List.mem_cons.mp hstart with heq | hmore
      · omega
      · have hlt := ih hmore
        omega
    · have hlt := ih hstart
      omega

/-- The line starts up to a boundary are those of the lines before it. -/
theorem takeWhile_lineStarts (before after : List Char) (index : ℕ) :
    ((lineStarts index (encode (before ++ after))).takeWhile
      fun start => start ≤ index + size before).length = before.count '\n' := by
  induction before generalizing index with
  | nil =>
    have hnone : (lineStarts index (encode after)).takeWhile
        (fun start => start ≤ index + size []) = [] := by
      rw [List.takeWhile_eq_nil_iff]
      intro hpos
      have hlt := lt_of_mem_lineStarts (List.get_mem _ ⟨0, hpos⟩)
      rw [size_nil, Nat.add_zero, decide_eq_true_eq]
      omega
    rw [List.nil_append, hnone]
    rfl
  | cons char before ih =>
    rw [List.cons_append, lineStarts_cons, List.count_cons, size_cons]
    by_cases hend : char = '\n'
    · have hlength : (charBytes char).length = 1 := by
        rw [hend]
        rfl
      have hnext := ih (index + 1)
      rw [if_pos hend, hlength, List.takeWhile_cons, if_pos (by rw [decide_eq_true_eq]; omega),
        List.length_cons, if_pos (by simpa using hend), ← hnext]
      simp only [Nat.add_assoc, Nat.add_comm 1]
    · have hnext := ih (index + (charBytes char).length)
      rw [if_neg hend, if_neg (by simpa using hend), Nat.add_zero, ← hnext]
      simp only [Nat.add_assoc]

theorem getElem?_lineStarts (before after : List Char) (index : ℕ) :
    (lineStarts index (encode (before ++ '\n' :: after)))[before.count '\n']? =
      some (index + size before + 1) := by
  induction before generalizing index with
  | nil =>
    rw [List.nil_append, lineStarts_cons, if_pos rfl]
    rfl
  | cons char before ih =>
    rw [List.cons_append, lineStarts_cons, List.count_cons, size_cons]
    by_cases hend : char = '\n'
    · have hlength : (charBytes char).length = 1 := by
        rw [hend]
        rfl
      rw [if_pos hend, if_pos (by simpa using hend), List.getElem?_cons_succ, ih, hlength,
        ← Nat.add_assoc]
    · rw [if_neg hend, if_neg (by simpa using hend), Nat.add_zero, ih, ← Nat.add_assoc]

theorem lineStarts_getElem? {text : List Char} {index line start : ℕ}
    (hstart : (lineStarts index (encode text))[line]? = some start) :
    ∃ before after, text = before ++ '\n' :: after ∧ before.count '\n' = line ∧
      start = index + size before + 1 := by
  induction text generalizing index line with
  | nil => cases hstart
  | cons char text ih =>
    rw [lineStarts_cons] at hstart
    by_cases hend : char = '\n'
    · have hlength : (charBytes char).length = 1 := by
        rw [hend]
        rfl
      rw [if_pos hend] at hstart
      cases line with
      | zero =>
        rw [hend]
        exact ⟨[], text, rfl, rfl, (Option.some.inj hstart).symm⟩
      | succ line =>
        rw [List.getElem?_cons_succ] at hstart
        obtain ⟨before, after, htext, hcount, hoffset⟩ := ih hstart
        refine ⟨char :: before, after, by rw [htext, List.cons_append], ?_, ?_⟩
        · rw [List.count_cons, hcount, if_pos (by simpa using hend)]
        · rw [hoffset, size_cons, hlength]
          omega
    · rw [if_neg hend] at hstart
      obtain ⟨before, after, htext, hcount, hoffset⟩ := ih hstart
      refine ⟨char :: before, after, by rw [htext, List.cons_append], ?_, ?_⟩
      · rw [List.count_cons, hcount, if_neg (by simpa using hend), Nat.add_zero]
      · rw [hoffset, size_cons]
        omega

/-- Each line of a text has its start in the index. -/
theorem newStarts_head {head rest : List Char} {line : ℕ} (hhead : place head = ⟨line, 0⟩) :
    (newStarts (head ++ rest))[line]? = some (size head) := by
  rcases List.eq_nil_or_concat head with hnil | ⟨before, char, hconcat⟩
  · rw [hnil] at hhead ⊢
    injection hhead with hline
    rw [← hline]
    rfl
  · rw [hconcat, List.concat_eq_append] at hhead ⊢
    rw [place_append_singleton, Place.step] at hhead
    split at hhead
    · rename_i hend
      injection hhead with hline
      rw [place_line] at hline
      rw [hend, List.append_assoc, List.singleton_append, newStarts, ← hline,
        List.getElem?_cons_succ, getElem?_lineStarts, size_append, Nat.zero_add]
      rfl
    · injection hhead with hline hcharacter
      have hpos := units_pos char
      omega

/-- Each start of the index is that of a line. -/
theorem head_of_newStarts {text : List Char} {line start : ℕ}
    (hstart : (newStarts text)[line]? = some start) :
    ∃ head rest, text = head ++ rest ∧ place head = ⟨line, 0⟩ ∧ start = size head := by
  cases line with
  | zero => exact ⟨[], text, rfl, rfl, (Option.some.inj hstart).symm⟩
  | succ line =>
    rw [newStarts, List.getElem?_cons_succ] at hstart
    obtain ⟨before, after, htext, hcount, hoffset⟩ := lineStarts_getElem? hstart
    refine ⟨before ++ ['\n'], after, ?_, ?_, ?_⟩
    · rw [htext, List.append_assoc, List.singleton_append]
    · rw [place_append_singleton, Place.step, if_pos rfl, place_line, hcount]
    · rw [hoffset, size_append, Nat.zero_add]
      rfl

/-! ## Positions of boundaries -/

/-- The position of a boundary is its place, in numbers of 32 bits. -/
theorem positionAt_wrapped {ε : Type} (before after : List Char) :
    positionAt (newStarts (before ++ after)) (before ++ after) (size before) =
      (.ok ⟨(place before).line % 2 ^ 32, (place before).character % 2 ^ 32⟩ :
        Except (Halt ε) TextPosition) := by
  obtain ⟨head, current, hsplit, hcurrent, hhead, hlength⟩ := split_last_line before
  have hcount : ((newStarts (before ++ after)).takeWhile
      fun start => start ≤ size before).length - 1 = (place before).line := by
    have htake := takeWhile_lineStarts before after 0
    simp only [Nat.zero_add] at htake
    rw [newStarts, List.takeWhile_cons, if_pos (by simp), List.length_cons, htake, place_line,
      Nat.add_sub_cancel]
  have hstart : (newStarts (before ++ after))[(place before).line]? = some (size head) := by
    have htext : before ++ after = head ++ (current ++ after) := by
      rw [← List.append_assoc, ← hsplit]
    rw [htext]
    exact newStarts_head hhead
  have hslice : slice (before ++ after) (size head) (size before) =
      (.ok current : Except (Halt ε) (List Char)) := by
    rw [hsplit, size_append]
    exact slice_append head current after
  unfold positionAt
  simp only [hcount, hstart, hslice, bind, Except.bind]
  rw [hlength]

theorem positionAt_boundary {ε : Type} (before after : List Char)
    (hshort : length (before ++ after) < 2 ^ 32) :
    positionAt (newStarts (before ++ after)) (before ++ after) (size before) =
      (.ok (place before) : Except (Halt ε) TextPosition) := by
  have hline : (place before).line < 2 ^ 32 := by
    have hle := count_le_length '\n' before
    rw [length_append] at hshort
    rw [place_line]
    omega
  have hcharacter : (place before).character < 2 ^ 32 := by
    obtain ⟨head, current, hsplit, -, -, hlength⟩ := split_last_line before
    rw [length_append, hsplit, length_append] at hshort
    omega
  rw [positionAt_wrapped, Nat.mod_eq_of_lt hline, Nat.mod_eq_of_lt hcharacter]

theorem floorBoundary_boundary {text : List Char} {byte : ℕ}
    (hbyte : isBoundary text byte = true) :
    LineIndex.floorBoundary text (min byte (size text)) = byte := by
  rw [Nat.min_eq_left (size_le_of_isBoundary hbyte)]
  cases byte with
  | zero => rfl
  | succ byte => rw [LineIndex.floorBoundary, if_pos hbyte]

/-! ## The end of a line's content -/

/-- The byte before a boundary tells which ASCII character stands there. -/
theorem byte_before {before after : List Char} {target : Char} (htarget : target.toNat < 128)
    (hbefore : before ≠ []) :
    (encode (before ++ after))[size before - 1]? = some target.toNat ↔
      before.getLast? = some target := by
  obtain ⟨first, last, hconcat⟩ := (List.eq_nil_or_concat before).resolve_left hbefore
  have hpos := length_charBytes_pos last
  have hsize : size (first ++ [last]) - 1 = size first + ((charBytes last).length - 1) := by
    rw [size_append, size_cons, size_nil]
    omega
  have hget : (encode (first ++ [last] ++ after))[size first + ((charBytes last).length - 1)]? =
      some (charBytes last)[(charBytes last).length - 1] := by
    rw [← List.getElem?_drop, List.append_assoc, drop_encode, List.singleton_append, encode_cons,
      List.getElem?_append_left (by omega), List.getElem?_eq_getElem]
  rw [hconcat, List.concat_eq_append, hsize, hget, Option.some.injEq, List.getLast?_append,
    List.getLast?_singleton, Option.some_or, Option.some.injEq]
  by_cases hascii : last.toNat < 128
  · simp only [charBytes_of_ascii hascii, List.length_singleton, Nat.sub_self,
      List.getElem_cons_zero]
    exact Char.toNat_inj
  · have hwide := le_of_mem_charBytes hascii (charBytes last)[(charBytes last).length - 1]
      (List.getElem_mem _)
    constructor
    · intro heq
      rw [heq] at hwide
      omega
    · intro heq
      rw [heq] at hascii
      exact absurd htarget hascii

/-- The text before a line does not end with a carriage return. -/
theorem getLast?_head {head : List Char} {line : ℕ} (hhead : place head = ⟨line, 0⟩) :
    head.getLast? ≠ some '\r' := by
  intro hlast
  obtain ⟨before, hbefore⟩ := List.getLast?_eq_some_iff.mp hlast
  rw [hbefore, place_append_singleton, Place.step, if_neg (by decide)] at hhead
  injection hhead with hline hcharacter
  have hpos := units_pos '\r'
  omega

/-- The start of the line behind a line feed. -/
theorem newStarts_next {before after : List Char} {line : ℕ}
    (hbefore : (place before).line = line) :
    (newStarts (before ++ '\n' :: after))[line + 1]? = some (size before + 1) := by
  have hplace : place (before ++ ['\n']) = ⟨line + 1, 0⟩ := by
    rw [place_append_singleton, Place.step, if_pos rfl, hbefore]
  have hstart := @newStarts_head (before ++ ['\n']) after (line + 1) hplace
  rw [List.append_assoc, List.singleton_append, size_append] at hstart
  exact hstart

theorem lineContentEnd_of_isLine {text head content tail : List Char} {line : ℕ}
    (hline : IsLine text line head content tail) :
    lineContentEnd (newStarts text) text line = size (head ++ content) := by
  have hplace : (place (head ++ content)).line = line := by
    rw [place_append hline.not_mem, hline.place_head]
  have hlast : (head ++ content).getLast? = some '\r' → content.getLast? = some '\r' := by
    intro hlast
    rw [List.getLast?_append] at hlast
    cases hcontent : content.getLast? with
    | some last =>
      rw [hcontent] at hlast
      exact hlast
    | none =>
      rw [hcontent] at hlast
      exact absurd hlast (getLast?_head hline.place_head)
  unfold lineContentEnd
  rcases hline.ended with htail | ⟨after, htail, hreturn⟩ | ⟨after, htail⟩
  · have htext := hline.text_eq
    rw [htail, List.append_nil] at htext
    cases hnext : (newStarts text)[line + 1]? with
    | none => rw [htext]
    | some stop =>
      obtain ⟨next, rest, hsplit, hnextPlace, -⟩ := head_of_newStarts hnext
      have hcount : next.count '\n' = line + 1 := by
        rw [← place_line, hnextPlace]
      have htotal : text.count '\n' = line := by
        rw [htext, ← place_line, hplace]
      have hle : next.count '\n' ≤ text.count '\n' := by
        rw [hsplit, List.count_append]
        exact Nat.le_add_right _ _
      omega
  · have htext : text = (head ++ content) ++ '\n' :: after := by
      rw [hline.text_eq, htail]
    have hnext := @newStarts_next (head ++ content) after line hplace
    have hfeed : (encode text)[size (head ++ content) + 1 - 1]? = some '\n'.toNat := by
      rw [htext, Nat.add_sub_cancel, getElem?_encode, head?_encode (by decide)]
      rfl
    have hnot : ¬ (0 < size (head ++ content) + 1 - 1 ∧
        (encode text)[size (head ++ content) + 1 - 1 - 1]? = some '\r'.toNat) := by
      rintro ⟨hpos, hbyte⟩
      have hne : head ++ content ≠ [] := by
        intro hnil
        rw [hnil] at hpos
        exact absurd hpos (by decide)
      rw [htext, Nat.add_sub_cancel, byte_before (by decide) hne] at hbyte
      exact hreturn (hlast hbyte)
    rw [← htext] at hnext
    rw [hnext]
    simp only
    rw [if_pos ⟨Nat.succ_pos _, hfeed⟩, if_neg hnot, Nat.add_sub_cancel]
  · have htext : text = (head ++ content ++ ['\r']) ++ '\n' :: after := by
      rw [hline.text_eq, htail, List.append_assoc _ ['\r'], List.singleton_append]
    have hreturn : (place (head ++ content ++ ['\r'])).line = line := by
      rw [place_append (by decide), hplace]
    have hnext := @newStarts_next (head ++ content ++ ['\r']) after line hreturn
    have hsize : size (head ++ content ++ ['\r']) = size (head ++ content) + 1 := by
      rw [size_append]
      rfl
    have hfeed : (encode text)[size (head ++ content) + 1 + 1 - 1]? = some '\n'.toNat := by
      rw [htext, Nat.add_sub_cancel, ← hsize, getElem?_encode, head?_encode (by decide)]
      rfl
    have hbyte : (encode text)[size (head ++ content) + 1 + 1 - 1 - 1]? = some '\r'.toNat := by
      rw [htext, Nat.add_sub_cancel, Nat.add_sub_cancel, List.append_assoc _ ['\r'],
        getElem?_encode, head?_encode (by decide)]
      rfl
    rw [← htext, hsize] at hnext
    rw [hnext]
    simp only
    rw [if_pos ⟨Nat.succ_pos _, hfeed⟩, if_pos ⟨by omega, hbyte⟩]
    omega

/-! ## The walk over a line -/

theorem findUnits_append (target : ℕ) (before rest : List Char) (utf16 relative : ℕ)
    (hle : utf16 + length before ≤ target) :
    findUnits target utf16 relative (before ++ rest) =
      findUnits target (utf16 + length before) (relative + size before) rest := by
  induction before generalizing utf16 relative with
  | nil => rfl
  | cons char before ih =>
    have hpos := units_pos char
    rw [length_cons] at hle
    rw [List.cons_append, findUnits, if_neg (by omega), if_neg (by omega), ih _ _ (by omega),
      length_cons, size_cons, Nat.add_assoc, Nat.add_assoc]

/-- A number of units is past the content of a line, or reached at one of its characters. -/
theorem units_cases (target : ℕ) (content : List Char) :
    length content ≤ target ∨ ∃ before char after, content = before ++ char :: after ∧
      length before ≤ target ∧ target < length before + units char := by
  induction content generalizing target with
  | nil => exact Or.inl (Nat.zero_le _)
  | cons char content ih =>
    by_cases hlt : target < units char
    · exact Or.inr ⟨[], char, content, rfl, Nat.zero_le _,
        by rw [length_nil, Nat.zero_add]; exact hlt⟩
    · rcases ih (target - units char) with hpast | ⟨before, found, after, hsplit, hle, hfound⟩
      · rw [length_cons]
        exact Or.inl (by omega)
      · refine Or.inr ⟨char :: before, found, after, by rw [hsplit, List.cons_append], ?_, ?_⟩
        · rw [length_cons]
          omega
        · rw [length_cons]
          omega

theorem findUnits_past {target : ℕ} {content : List Char} (hpast : length content ≤ target) :
    findUnits target 0 0 content = .past (length content) := by
  have happend := findUnits_append target content [] 0 0 (by omega)
  rw [List.append_nil, Nat.zero_add] at happend
  rw [happend, findUnits]

theorem findUnits_at (before : List Char) (char : Char) (after : List Char) :
    findUnits (length before) 0 0 (before ++ char :: after) = .at (size before) := by
  rw [findUnits_append _ _ _ _ _ (by omega), Nat.zero_add, Nat.zero_add, findUnits, if_pos rfl]

theorem findUnits_split {target : ℕ} {before : List Char} {char : Char} (after : List Char)
    (hlow : length before < target) (hhigh : target < length before + units char) :
    findUnits target 0 0 (before ++ char :: after) = .split := by
  rw [findUnits_append _ _ _ _ _ (by omega), Nat.zero_add, Nat.zero_add, findUnits,
    if_neg (by omega), if_pos hhigh]

/-! ## Offsets -/

/-- A number of units that ends inside a surrogate pair of a line. -/
def SplitsPair (content : List Char) (character : ℕ) : Prop :=
  ∃ before char after, content = before ++ char :: after ∧ length before < character ∧
    character < length before + units char

variable {text head content tail : List Char} {line : ℕ}

theorem newStarts_of_isLine (hline : IsLine text line head content tail) :
    (newStarts text)[line]? = some (size head) := by
  rw [hline.text_eq, List.append_assoc]
  exact newStarts_head hline.place_head

theorem slice_of_isLine {ε : Type} (hline : IsLine text line head content tail) :
    slice text (size head) (lineContentEnd (newStarts text) text line) =
      (.ok content : Except (Halt ε) (List Char)) := by
  rw [lineContentEnd_of_isLine hline, size_append]
  conv_lhs => rw [hline.text_eq]
  exact slice_append head content tail

theorem server_offset_eq (hline : IsLine text line head content tail) (character : ℕ) :
    (LineIndex.new text).offset text ⟨line, character⟩ =
      match findUnits character 0 0 content with
      | .at relative => .ok (size head + relative)
      | .split => .error (.failed ("UTF-16 character " ++ toString character ++
          " splits a surrogate pair"))
      | .past _ => .ok (size (head ++ content)) := by
  unfold LineIndex.offset LineIndex.new
  simp only [newStarts_of_isLine hline, slice_of_isLine hline, bind, Except.bind]
  rw [lineContentEnd_of_isLine hline]

theorem assist_offset_eq (hline : IsLine text line head content tail) (character : ℕ) :
    (Utf16Index.new text).offset text ⟨line, character⟩ =
      match findUnits character 0 0 content with
      | .at relative => .ok (size head + relative)
      | .split => .error (.failed (.context "selected UTF-16 range splits a surrogate pair"))
      | .past utf16 =>
          if utf16 = character then .ok (size (head ++ content))
          else .error (.failed (.context
            "selected UTF-16 character is outside the source line")) := by
  unfold Utf16Index.offset Utf16Index.new
  simp only [newStarts_of_isLine hline, slice_of_isLine hline, bind, Except.bind]
  rw [lineContentEnd_of_isLine hline]

/-- A line whose start the index has. -/
theorem isLine_of_newStarts {start : ℕ} (hstart : (newStarts text)[line]? = some start) :
    ∃ head content tail, IsLine text line head content tail := by
  obtain ⟨head, rest, htext, hhead, -⟩ := head_of_newStarts hstart
  obtain ⟨content, tail, -, hline⟩ := @exists_content head rest line hhead
  rw [← htext] at hline
  exact ⟨head, content, tail, hline⟩

/-- Both indexes find a beginning of a line's content. -/
theorem offset_of_prefix (hline : IsLine text line head content tail) {current : List Char}
    (hcurrent : current <+: content) :
    (LineIndex.new text).offset text ⟨line, length current⟩ = .ok (size (head ++ current)) ∧
      (Utf16Index.new text).offset text ⟨line, length current⟩ =
        .ok (size (head ++ current)) := by
  obtain ⟨more, hmore⟩ := hcurrent
  rw [server_offset_eq hline, assist_offset_eq hline]
  cases more with
  | nil =>
    rw [List.append_nil] at hmore
    rw [hmore, findUnits_past (le_refl _)]
    simp only [if_true, and_self]
  | cons char more =>
    rw [← hmore, findUnits_at]
    dsimp only
    rw [size_append]
    exact ⟨rfl, rfl⟩

/-- A boundary that is not inside a line's end lies on the content of a line. -/
theorem isLine_of_boundary {before after : List Char} (htext : text = before ++ after)
    (hinside : ¬ SplitsLineEnd before after) :
    ∃ head content tail current, IsLine text (place before).line head content tail ∧
      current <+: content ∧ before = head ++ current ∧
        length current = (place before).character := by
  obtain ⟨head, current, hsplit, hcurrent, hhead, hlength⟩ := split_last_line before
  obtain ⟨content, tail, hrest, hline⟩ := @exists_content head (current ++ after) _ hhead
  have hwhole : head ++ (current ++ after) = text := by
    rw [htext, hsplit, List.append_assoc]
  rw [hwhole] at hline
  have hlast : ¬ (current.getLast? = some '\r' ∧ after.head? = some '\n') := by
    rintro ⟨hreturn, hfeed⟩
    refine hinside ⟨?_, hfeed⟩
    rw [hsplit, List.getLast?_append, hreturn]
    rfl
  exact ⟨head, content, tail, current, hline, prefix_content hrest hcurrent hline.ended hlast,
    hsplit, hlength⟩

/-- What either index returns lies on the content of the line. -/
theorem prefix_of_offset {position : TextPosition} {offset : ℕ}
    (hoffset : (LineIndex.new text).offset text position = .ok offset ∨
      (Utf16Index.new text).offset text position = .ok offset) :
    ∃ head content tail current, IsLine text position.line head content tail ∧
      current <+: content ∧ offset = size (head ++ current) := by
  obtain ⟨line, character⟩ := position
  have hstart : ∃ start, (newStarts text)[line]? = some start := by
    cases hstart : (newStarts text)[line]? with
    | some start => exact ⟨start, rfl⟩
    | none =>
      rcases hoffset with hoffset | hoffset
      · unfold LineIndex.offset LineIndex.new at hoffset
        simp only [hstart] at hoffset
        cases hoffset
      · unfold Utf16Index.offset Utf16Index.new at hoffset
        simp only [hstart] at hoffset
        cases hoffset
  obtain ⟨start, hstart⟩ := hstart
  obtain ⟨head, content, tail, hline⟩ := isLine_of_newStarts hstart
  rw [server_offset_eq hline, assist_offset_eq hline] at hoffset
  rcases units_cases character content with hpast | ⟨before, char, after, hsplit, hle, hlt⟩
  · rw [findUnits_past hpast] at hoffset
    refine ⟨head, content, tail, content, hline, List.prefix_refl _, ?_⟩
    rcases hoffset with hoffset | hoffset
    · injection hoffset with hoffset
      exact hoffset.symm
    · simp only at hoffset
      split at hoffset
      · injection hoffset with hoffset
        exact hoffset.symm
      · cases hoffset
  · refine ⟨head, content, tail, before, hline, ⟨char :: after, hsplit.symm⟩, ?_⟩
    rw [size_append]
    by_cases hsame : length before = character
    · rw [hsplit, ← hsame, findUnits_at] at hoffset
      rcases hoffset with hoffset | hoffset
      · injection hoffset with hoffset
        exact hoffset.symm
      · injection hoffset with hoffset
        exact hoffset.symm
    · rw [hsplit, findUnits_split after (by omega) hlt] at hoffset
      rcases hoffset with hoffset | hoffset
      · cases hoffset
      · cases hoffset

/-- The server finds every number of units that does not split a pair. -/
theorem server_offset_iff {position : TextPosition} :
    (∃ offset, (LineIndex.new text).offset text position = .ok offset) ↔
      ∃ head content tail, IsLine text position.line head content tail ∧
        ¬ SplitsPair content position.character := by
  obtain ⟨line, character⟩ := position
  constructor
  · rintro ⟨offset, hoffset⟩
    obtain ⟨head, content, tail, current, hline, -, -⟩ := prefix_of_offset (Or.inl hoffset)
    refine ⟨head, content, tail, hline, ?_⟩
    rintro ⟨before, char, after, hsplit, hlow, hhigh⟩
    rw [server_offset_eq hline, hsplit, findUnits_split after hlow hhigh] at hoffset
    cases hoffset
  · rintro ⟨head, content, tail, hline, hwhole⟩
    rw [server_offset_eq hline]
    rcases units_cases character content with hpast | ⟨before, char, after, hsplit, hle, hlt⟩
    · rw [findUnits_past hpast]
      exact ⟨_, rfl⟩
    · have hsame : length before = character := by
        by_contra hne
        exact hwhole ⟨before, char, after, hsplit, lt_of_le_of_ne hle hne, hlt⟩
      rw [hsplit, ← hsame, findUnits_at]
      exact ⟨_, rfl⟩

theorem server_offset_past (hline : IsLine text line head content tail) {character : ℕ}
    (hpast : length content ≤ character) :
    (LineIndex.new text).offset text ⟨line, character⟩ = .ok (size (head ++ content)) := by
  rw [server_offset_eq hline, findUnits_past hpast]

/-- A boundary on the content of a line is not inside the line's end. -/
theorem boundary_of_prefix (hline : IsLine text line head content tail) {current : List Char}
    (hcurrent : current <+: content) :
    ∃ after, text = head ++ current ++ after ∧ ¬ SplitsLineEnd (head ++ current) after ∧
      place (head ++ current) = ⟨line, length current⟩ := by
  obtain ⟨more, hmore⟩ := hcurrent
  have hnot : '\n' ∉ current ∧ '\n' ∉ more := by
    have hcontent := hline.not_mem
    rw [← hmore, List.mem_append, not_or] at hcontent
    exact hcontent
  refine ⟨more ++ tail, ?_, ?_, ?_⟩
  · rw [hline.text_eq, ← hmore]
    simp only [List.append_assoc]
  · rintro ⟨hreturn, hfeed⟩
    have hlast : current.getLast? = some '\r' := by
      rw [List.getLast?_append] at hreturn
      cases hcurrent : current.getLast? with
      | some last =>
        rw [hcurrent] at hreturn
        exact hreturn
      | none =>
        rw [hcurrent] at hreturn
        exact absurd hreturn (getLast?_head hline.place_head)
    cases more with
    | cons char more =>
      injection hfeed with hchar
      exact hnot.2 (hchar ▸ List.mem_cons_self)
    | nil =>
      rw [List.append_nil] at hmore
      rw [List.nil_append] at hfeed
      rcases hline.ended with htail | ⟨after, htail, hother⟩ | ⟨after, htail⟩
      · rw [htail] at hfeed
        cases hfeed
      · rw [← hmore] at hother
        exact hother hlast
      · rw [htail] at hfeed
        exact absurd (Option.some.inj hfeed) (by decide)
  · rw [place_append hnot.1, hline.place_head]
    simp only [Nat.zero_add]

/-- What the assistant finds is the boundary with the position. -/
theorem assist_offset_place {position : TextPosition} {offset : ℕ}
    (hoffset : (Utf16Index.new text).offset text position = .ok offset) :
    ∃ before after, text = before ++ after ∧ ¬ SplitsLineEnd before after ∧
      offset = size before ∧ place before = position := by
  obtain ⟨line, character⟩ := position
  obtain ⟨head, content, tail, -, hline, -, -⟩ := prefix_of_offset (Or.inr hoffset)
  rw [assist_offset_eq hline] at hoffset
  have hfound : ∃ current, current <+: content ∧ length current = character ∧
      offset = size (head ++ current) := by
    rcases units_cases character content with hpast | ⟨before, char, after, hsplit, hle, hlt⟩
    · rw [findUnits_past hpast] at hoffset
      dsimp only at hoffset
      split at hoffset
      · rename_i hsame
        injection hoffset with hoffset
        exact ⟨content, List.prefix_refl _, hsame, hoffset.symm⟩
      · cases hoffset
    · by_cases hsame : length before = character
      · rw [hsplit, ← hsame, findUnits_at] at hoffset
        injection hoffset with hoffset
        refine ⟨before, ⟨char :: after, hsplit.symm⟩, hsame, ?_⟩
        rw [size_append]
        exact hoffset.symm
      · rw [hsplit, findUnits_split after (lt_of_le_of_ne hle hsame) hlt] at hoffset
        cases hoffset
  obtain ⟨current, hcurrent, hlength, hsize⟩ := hfound
  obtain ⟨after, htext, hinside, hplace⟩ := boundary_of_prefix hline hcurrent
  rw [hlength] at hplace
  exact ⟨head ++ current, after, htext, hinside, hsize, hplace⟩

/-! ## The indexes are inverse -/

/-- An offset between the carriage return and the line feed that end a line. -/
def InsideLineEnd (text : List Char) (byte : ℕ) : Prop :=
  ∃ before after, text = before ++ after ∧ byte = size before ∧ SplitsLineEnd before after

theorem server_position_eq {before after : List Char} (htext : text = before ++ after)
    (hshort : length text < 2 ^ 32) :
    (LineIndex.new text).position text (size before) = .ok (place before) := by
  subst htext
  unfold LineIndex.position LineIndex.new
  rw [floorBoundary_boundary (isBoundary_size before after)]
  exact positionAt_boundary before after hshort

theorem assist_position_eq {before after : List Char} (htext : text = before ++ after)
    (hshort : length text < 2 ^ 32) :
    (Utf16Index.new text).position text (size before) = .ok (place before) := by
  subst htext
  exact positionAt_boundary before after hshort

theorem eq_of_size {first second text : List Char} (hfirst : first <+: text)
    (hsecond : second <+: text) (hsize : size first = size second) : first = second := by
  obtain ⟨more, hmore⟩ := prefix_of_size_le hfirst hsecond (le_of_eq hsize)
  rw [← hmore, size_append] at hsize
  have hnil := @eq_nil_of_size more (by omega)
  rw [hnil, List.append_nil] at hmore
  exact hmore

theorem positions_inverse {text : List Char} (hshort : length text < 2 ^ 32) :
    (∀ byte, isBoundary text byte = true → ∃ position,
      (LineIndex.new text).position text byte = .ok position ∧
        (Utf16Index.new text).position text byte = .ok position ∧
        (¬ InsideLineEnd text byte → (LineIndex.new text).offset text position = .ok byte ∧
          (Utf16Index.new text).offset text position = .ok byte)) ∧
    (∀ first second firstPosition secondPosition, isBoundary text first = true →
      isBoundary text second = true → first < second →
      (LineIndex.new text).position text first = .ok firstPosition →
      (LineIndex.new text).position text second = .ok secondPosition →
      firstPosition.Before secondPosition) ∧
    (∀ position offset, ((LineIndex.new text).offset text position = .ok offset ∨
        (Utf16Index.new text).offset text position = .ok offset) →
      isBoundary text offset = true ∧ ∃ head content tail current,
        IsLine text position.line head content tail ∧ current <+: content ∧
          offset = size (head ++ current)) ∧
    (∀ position, (∃ offset, (Utf16Index.new text).offset text position = .ok offset) ↔
      ∃ byte, isBoundary text byte = true ∧ ¬ InsideLineEnd text byte ∧
        (Utf16Index.new text).position text byte = .ok position) ∧
    (∀ position, (∃ offset, (LineIndex.new text).offset text position = .ok offset) ↔
      ∃ head content tail, IsLine text position.line head content tail ∧
        ¬ SplitsPair content position.character) ∧
    (∀ line head content tail character, IsLine text line head content tail →
      length content ≤ character →
      (LineIndex.new text).offset text ⟨line, character⟩ = .ok (size (head ++ content))) := by
  have hinverse : ∀ before after, text = before ++ after → ¬ SplitsLineEnd before after →
      (LineIndex.new text).offset text (place before) = .ok (size before) ∧
        (Utf16Index.new text).offset text (place before) = .ok (size before) := by
    intro before after htext hinside
    obtain ⟨head, content, tail, current, hline, hcurrent, hbefore, hlength⟩ :=
      isLine_of_boundary htext hinside
    have hfound := offset_of_prefix hline hcurrent
    rw [hlength, ← hbefore] at hfound
    exact hfound
  refine ⟨?_, ?_, ?_, ?_, fun position => server_offset_iff, ?_⟩
  · intro byte hbyte
    obtain ⟨before, after, htext, hsize⟩ := isBoundary_iff.mp hbyte
    rw [hsize]
    refine ⟨place before, server_position_eq htext hshort, assist_position_eq htext hshort,
      fun hinside => ?_⟩
    exact hinverse before after htext fun hsplits => hinside ⟨before, after, htext, rfl, hsplits⟩
  · intro first second firstPosition secondPosition hfirst hsecond hlt hleft hright
    obtain ⟨before, middle, after, htext, hbefore, hmiddle⟩ :=
      between_boundaries hfirst hsecond (le_of_lt hlt)
    have hnil : middle ≠ [] := by
      rintro rfl
      rw [size_nil] at hmiddle
      omega
    rw [hbefore, server_position_eq (htext.trans (List.append_assoc _ _ _)) hshort] at hleft
    rw [hmiddle, ← size_append, server_position_eq htext hshort] at hright
    injection hleft with hleft
    injection hright with hright
    rw [← hleft, ← hright]
    exact place_before hnil
  · intro position offset hoffset
    obtain ⟨head, content, tail, current, hline, hcurrent, hsize⟩ := prefix_of_offset hoffset
    obtain ⟨after, htext, -, -⟩ := boundary_of_prefix hline hcurrent
    exact ⟨isBoundary_iff.mpr ⟨head ++ current, after, htext, hsize⟩, head, content, tail, current,
      hline, hcurrent, hsize⟩
  · intro position
    constructor
    · rintro ⟨offset, hoffset⟩
      obtain ⟨before, after, htext, hinside, hsize, hplace⟩ := assist_offset_place hoffset
      refine ⟨offset, isBoundary_iff.mpr ⟨before, after, htext, hsize⟩, ?_, ?_⟩
      · rintro ⟨other, rest, hother, hbyte, hsplits⟩
        have hsame : before = other :=
          eq_of_size ⟨after, htext.symm⟩ ⟨rest, hother.symm⟩ (hsize.symm.trans hbyte)
        subst hsame
        rw [htext, List.append_cancel_left_eq] at hother
        rw [← hother] at hsplits
        exact hinside hsplits
      · rw [hsize, assist_position_eq htext hshort, hplace]
    · rintro ⟨byte, hbyte, hinside, hposition⟩
      obtain ⟨before, after, htext, hsize⟩ := isBoundary_iff.mp hbyte
      rw [hsize, assist_position_eq htext hshort] at hposition
      injection hposition with hposition
      have hfound := hinverse before after htext fun hsplits =>
        hinside ⟨before, after, htext, hsize, hsplits⟩
      rw [hposition] at hfound
      exact ⟨_, hfound.2⟩
  · intro line head content tail character hline hpast
    exact server_offset_past hline hpast

/-- A line with a character of two units, ended by a carriage return and a line feed. -/
theorem positions_inverse_sample :
    (LineIndex.new ['a', Char.ofNat 0x1F916, '\r', '\n', 'b']).position
        ['a', Char.ofNat 0x1F916, '\r', '\n', 'b'] 5 = .ok ⟨0, 3⟩ ∧
      (Utf16Index.new ['a', Char.ofNat 0x1F916, '\r', '\n', 'b']).offset
        ['a', Char.ofNat 0x1F916, '\r', '\n', 'b'] ⟨0, 3⟩ = .ok 5 := by
  have hinverse := @positions_inverse ['a', Char.ofNat 0x1F916, '\r', '\n', 'b'] (by decide)
  obtain ⟨position, hserver, -, hoffset⟩ := hinverse.1 5 (by decide)
  have hplace : (LineIndex.new ['a', Char.ofNat 0x1F916, '\r', '\n', 'b']).position
      ['a', Char.ofNat 0x1F916, '\r', '\n', 'b'] 5 = .ok ⟨0, 3⟩ := by
    decide +kernel
  rw [hplace] at hserver
  injection hserver with hsame
  subst hsame
  refine ⟨hplace, (hoffset ?_).2⟩
  rintro ⟨before, after, htext, hsize, hreturn, hfeed⟩
  have hbefore : ['a', Char.ofNat 0x1F916] = before :=
    eq_of_size ⟨['\r', '\n', 'b'], rfl⟩ ⟨after, htext.symm⟩ hsize
  subst hbefore
  revert hreturn
  decide

end Krit
