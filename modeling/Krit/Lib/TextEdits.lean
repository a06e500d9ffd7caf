import Krit.Lib.TextSlices

/-!
# Edits of a text

Edits name ranges of the original text.  Applied at once, each range gives way to its new
text, and an insertion stands before a replacement that starts where it is.  Edits in order
that do not overlap have the same effect when they are applied one after the other, the last
first.
-/

namespace Utf8

structure Edit where
  start : ℕ
  stop : ℕ
  newText : List Char
  deriving DecidableEq

namespace Edit

def isInsertion (edit : Edit) : Bool := edit.start == edit.stop

/-- The new texts at a position: those that are inserted, then those that replace a range. -/
def textsAt (edits : List Edit) (byte : ℕ) : List Char :=
  ((edits.filter fun edit => edit.start == byte && edit.isInsertion).flatMap newText) ++
    (edits.filter fun edit => edit.start == byte && !edit.isInsertion).flatMap newText

def replaces (edits : List Edit) (byte : ℕ) : Bool :=
  edits.any fun edit => decide (edit.start ≤ byte) && decide (byte < edit.stop)

/-- The text with every edit applied at once, from a position on. -/
def simultaneous (edits : List Edit) : ℕ → List Char → List Char
  | byte, [] => textsAt edits byte
  | byte, char :: rest =>
      textsAt edits byte ++ (if replaces edits byte then [] else [char]) ++
        simultaneous edits (byte + (charBytes char).length) rest

/-- The text with the edits applied one after the other, the last first. -/
def applyBackwards {ε : Type} (edits : List Edit) (text : List Char) :
    Except (Halt ε) (List Char) :=
  edits.reverse.foldlM (fun raw edit => replaceRange raw edit.start edit.stop edit.newText) text

/-- Edits in the order of their ranges, none of which overlap. -/
structure Ordered (edits : List Edit) : Prop where
  forward : ∀ edit ∈ edits, edit.start ≤ edit.stop
  apart : edits.Pairwise fun first second => first.stop ≤ second.start

/-- The edits name boundaries of a text. -/
def OnBoundaries (text : List Char) (edits : List Edit) : Prop :=
  ∀ edit ∈ edits, isBoundary text edit.start = true ∧ isBoundary text edit.stop = true

theorem Ordered.tail {edit : Edit} {edits : List Edit} (hordered : Ordered (edit :: edits)) :
    Ordered edits :=
  ⟨fun other hother => hordered.forward other (List.mem_cons_of_mem _ hother),
    hordered.apart.of_cons⟩

/-! ## One edit of all -/

/-- No edit has anything to do at a position before all of them. -/
theorem textsAt_before {edits : List Edit} {byte : ℕ}
    (hbefore : ∀ edit ∈ edits, byte < edit.start) :
    textsAt edits byte = [] := by
  have hnone : ∀ edit ∈ edits, (edit.start == byte) = false := by
    intro edit hedit
    have hlt := hbefore edit hedit
    rw [beq_eq_false_iff_ne]
    omega
  have hinserted : (edits.filter fun edit => edit.start == byte && edit.isInsertion) = [] := by
    rw [List.filter_eq_nil_iff]
    intro edit hedit
    rw [hnone edit hedit]
    exact Bool.false_ne_true
  have hreplaced : (edits.filter fun edit => edit.start == byte && !edit.isInsertion) = [] := by
    rw [List.filter_eq_nil_iff]
    intro edit hedit
    rw [hnone edit hedit]
    exact Bool.false_ne_true
  unfold textsAt
  rw [hinserted, hreplaced]
  rfl

theorem replaces_before {edits : List Edit} {byte : ℕ}
    (hbefore : ∀ edit ∈ edits, byte < edit.start) : replaces edits byte = false := by
  unfold replaces
  rw [List.any_eq_false]
  intro edit hedit
  have hlt := hbefore edit hedit
  simp only [Bool.and_eq_true, decide_eq_true_eq]
  omega

/-- Text before all edits stays. -/
theorem simultaneous_before {edits : List Edit} {chars : List Char} {byte : ℕ}
    (hbefore : ∀ edit ∈ edits, byte + size chars ≤ edit.start) (rest : List Char) :
    simultaneous edits byte (chars ++ rest) =
      chars ++ simultaneous edits (byte + size chars) rest := by
  induction chars generalizing byte with
  | nil => rfl
  | cons char chars ih =>
    have hpos := length_charBytes_pos char
    have hhere : ∀ edit ∈ edits, byte < edit.start := by
      intro edit hedit
      have hle := hbefore edit hedit
      rw [size_cons] at hle
      omega
    rw [List.cons_append, simultaneous, textsAt_before hhere, replaces_before hhere,
      if_neg Bool.false_ne_true, ih fun edit hedit => by
        have hle := hbefore edit hedit
        rw [size_cons] at hle
        omega]
    rw [size_cons, Nat.add_assoc]
    rfl

theorem simultaneous_nil (byte : ℕ) (chars : List Char) : simultaneous [] byte chars = chars := by
  induction chars generalizing byte with
  | nil => rfl
  | cons char chars ih =>
    rw [simultaneous, ih]
    rfl

/-- An edit that lies before a position has nothing to do from there on. -/
theorem simultaneous_behind {edit : Edit} {edits : List Edit} {byte : ℕ}
    (hstart : edit.start < byte) (hstop : edit.stop ≤ byte) (rest : List Char) :
    simultaneous (edit :: edits) byte rest = simultaneous edits byte rest := by
  have hne : ∀ byte, edit.start < byte → (edit.start == byte) = false := by
    intro byte hlt
    rw [beq_eq_false_iff_ne]
    omega
  have htexts : ∀ byte, edit.start < byte → textsAt (edit :: edits) byte = textsAt edits byte := by
    intro byte hlt
    unfold textsAt
    rw [List.filter_cons, List.filter_cons, hne byte hlt, Bool.false_and, Bool.false_and,
      if_neg Bool.false_ne_true, if_neg Bool.false_ne_true]
  have hreplaces : ∀ byte, edit.stop ≤ byte →
      replaces (edit :: edits) byte = replaces edits byte := by
    intro byte hle
    unfold replaces
    rw [List.any_cons, decide_eq_false (Nat.not_lt.mpr hle), Bool.and_false, Bool.false_or]
  induction rest generalizing byte with
  | nil => exact htexts byte hstart
  | cons char rest ih =>
    rw [simultaneous, simultaneous, htexts byte hstart, hreplaces byte hstop,
      ih (by omega) (by omega)]

/-- An insertion stands before everything else at its position. -/
theorem simultaneous_insertion {edit : Edit} {edits : List Edit}
    (hinsertion : edit.start = edit.stop) (rest : List Char) :
    simultaneous (edit :: edits) edit.start rest =
      edit.newText ++ simultaneous edits edit.start rest := by
  have htexts : textsAt (edit :: edits) edit.start = edit.newText ++ textsAt edits edit.start := by
    have hkind : edit.isInsertion = true := beq_iff_eq.mpr hinsertion
    unfold textsAt
    rw [List.filter_cons, List.filter_cons, hkind, beq_self_eq_true, Bool.true_and, if_pos rfl,
      Bool.not_true, Bool.and_false, if_neg Bool.false_ne_true, List.flatMap_cons,
      List.append_assoc]
  cases rest with
  | nil => exact htexts
  | cons char rest =>
    have hpos := length_charBytes_pos char
    have hreplaces : replaces (edit :: edits) edit.start = replaces edits edit.start := by
      unfold replaces
      rw [List.any_cons, decide_eq_false (Nat.not_lt.mpr (le_of_eq hinsertion.symm)),
        Bool.and_false, Bool.false_or]
    rw [simultaneous, simultaneous, htexts, hreplaces, simultaneous_behind (by omega) (by omega)]
    simp only [List.append_assoc]

/-- Nothing of a replaced range stays. -/
theorem simultaneous_inside {edit : Edit} {edits : List Edit} {chars : List Char} {byte : ℕ}
    (hstart : edit.start < byte) (hstop : byte + size chars = edit.stop)
    (hedits : ∀ other ∈ edits, edit.stop ≤ other.start) (rest : List Char) :
    simultaneous (edit :: edits) byte (chars ++ rest) =
      simultaneous edits (byte + size chars) rest := by
  induction chars generalizing byte with
  | nil =>
    rw [size_nil, Nat.add_zero] at hstop
    exact simultaneous_behind hstart (le_of_eq hstop.symm) rest
  | cons char chars ih =>
    have hpos := length_charBytes_pos char
    rw [size_cons] at hstop
    have htexts : textsAt (edit :: edits) byte = [] := by
      have hothers := @textsAt_before edits byte fun other hother => by
        have hle := hedits other hother
        omega
      have hne : (edit.start == byte) = false := by
        rw [beq_eq_false_iff_ne]
        omega
      rw [← hothers]
      unfold textsAt
      rw [List.filter_cons, List.filter_cons, hne, Bool.false_and, Bool.false_and,
        if_neg Bool.false_ne_true, if_neg Bool.false_ne_true]
    have hreplaces : replaces (edit :: edits) byte = true := by
      unfold replaces
      rw [List.any_cons, decide_eq_true (by omega), decide_eq_true (by omega)]
      rfl
    rw [List.cons_append, simultaneous, htexts, hreplaces, if_pos rfl, ih (by omega) (by omega),
      size_cons, Nat.add_assoc]
    rfl

/-- A replacement puts its text where its range was. -/
theorem simultaneous_replacement {edit : Edit} {edits : List Edit} {chars : List Char}
    (hnonempty : edit.start < edit.stop) (hstop : edit.start + size chars = edit.stop)
    (hedits : ∀ other ∈ edits, edit.stop ≤ other.start) (rest : List Char) :
    simultaneous (edit :: edits) edit.start (chars ++ rest) =
      edit.newText ++ simultaneous edits edit.stop rest := by
  cases chars with
  | nil =>
    rw [size_nil] at hstop
    omega
  | cons char chars =>
    have hpos := length_charBytes_pos char
    rw [size_cons] at hstop
    have htexts : textsAt (edit :: edits) edit.start = edit.newText := by
      have hothers := @textsAt_before edits edit.start fun other hother => by
        have hle := hedits other hother
        omega
      unfold textsAt at hothers ⊢
      obtain ⟨hinserted, hreplaced⟩ := List.append_eq_nil_iff.mp hothers
      have hkind : edit.isInsertion = false := by
        unfold isInsertion
        rw [beq_eq_false_iff_ne]
        omega
      rw [List.filter_cons, List.filter_cons, hkind, beq_self_eq_true, Bool.and_false,
        if_neg Bool.false_ne_true, Bool.not_false, Bool.and_self, if_pos rfl, hinserted,
        List.flatMap_cons, hreplaced, List.append_nil, List.nil_append]
    have hreplaces : replaces (edit :: edits) edit.start = true := by
      unfold replaces
      rw [List.any_cons, decide_eq_true (le_refl _), decide_eq_true hnonempty]
      rfl
    rw [List.cons_append, simultaneous, htexts, hreplaces, if_pos rfl,
      simultaneous_inside (by omega) (by omega) hedits, List.append_nil, Nat.add_assoc, hstop]

/-! ## All edits -/

theorem applyBackwards_cons {ε : Type} (edit : Edit) (edits : List Edit) (text : List Char) :
    (applyBackwards (edit :: edits) text : Except (Halt ε) (List Char)) =
      applyBackwards edits text >>= fun raw =>
        replaceRange raw edit.start edit.stop edit.newText := by
  unfold applyBackwards
  rw [List.reverse_cons, List.foldlM_append]
  simp

theorem replaceRange_boundaries {ε : Type} {text new raw : List Char} {start stop : ℕ}
    (hreplace : (replaceRange text start stop new : Except (Halt ε) (List Char)) = .ok raw) :
    isBoundary text start = true ∧ isBoundary text stop = true := by
  unfold replaceRange at hreplace
  unfold isBoundary
  split at hreplace
  · rename_i first rest hfirst hrest
    rw [hfirst, hrest]
    exact ⟨rfl, rfl⟩
  · cases hreplace

/-- Edits applied one after the other, the last first, are applied at once. -/
theorem applyBackwards_eq {ε : Type} {edits : List Edit} {before rest : List Char}
    (hordered : Ordered edits) (hboundaries : OnBoundaries (before ++ rest) edits)
    (hbefore : ∀ edit ∈ edits, size before ≤ edit.start) :
    (applyBackwards edits (before ++ rest) : Except (Halt ε) (List Char)) =
      .ok (before ++ simultaneous edits (size before) rest) := by
  induction edits generalizing before rest with
  | nil =>
    rw [simultaneous_nil]
    rfl
  | cons edit edits ih =>
    obtain ⟨hfirst, hlast⟩ := hboundaries edit List.mem_cons_self
    have hforward := hordered.forward edit List.mem_cons_self
    have hapart := (List.pairwise_cons.mp hordered.apart).1
    have hcursor := hbefore edit List.mem_cons_self
    obtain ⟨gap, after, hrest, hstart⟩ := split_rest hfirst hcursor
    rw [hrest, ← List.append_assoc] at hlast
    obtain ⟨range, later, hafter, hstop⟩ := split_rest hlast (by
      rw [size_append]
      omega)
    rw [size_append] at hstop
    have htext : before ++ rest = before ++ gap ++ range ++ later := by
      rw [hrest, hafter]
      simp only [List.append_assoc]
    have hsize : size (before ++ gap ++ range) = edit.stop := by
      rw [size_append, size_append, hstop]
    have hlater := @ih (before ++ gap ++ range) later hordered.tail
      (fun other hother => by
        rw [← htext]
        exact hboundaries other (List.mem_cons_of_mem _ hother))
      (fun other hother => by
        rw [hsize]
        exact hapart other hother)
    have hreplace : (replaceRange (before ++ gap ++ range ++ simultaneous edits edit.stop later)
        edit.start edit.stop edit.newText : Except (Halt ε) (List Char)) =
        .ok (before ++ gap ++ edit.newText ++ simultaneous edits edit.stop later) := by
      have happend := @replaceRange_append ε (before ++ gap) range
        (simultaneous edits edit.stop later) edit.newText
      have hrange : edit.start + size range = edit.stop := by omega
      rw [size_append, ← hstart, hrange] at happend
      exact happend
    rw [applyBackwards_cons, htext, hlater, hsize]
    change replaceRange _ _ _ _ = _
    rw [hreplace, hrest, simultaneous_before fun other hother => ?_, hafter, ← hstart]
    · by_cases hinsertion : edit.start = edit.stop
      · have hnil : range = [] := eq_nil_of_size (by omega)
        rw [hnil, List.nil_append, simultaneous_insertion hinsertion, hinsertion]
        simp only [List.append_assoc]
      · rw [simultaneous_replacement (by omega) (by omega) hapart]
        simp only [List.append_assoc]
    · rcases List.mem_cons.mp hother with heq | hmem
      · rw [heq]
        omega
      · have hle := hapart other hmem
        omega

/-- Text behind all edits stays. -/
theorem simultaneous_past {edits : List Edit} {byte : ℕ}
    (hpast : ∀ edit ∈ edits, edit.start < byte ∧ edit.stop ≤ byte) (rest : List Char) :
    simultaneous edits byte rest = rest := by
  induction edits with
  | nil => exact simultaneous_nil byte rest
  | cons edit edits ih =>
    obtain ⟨hstart, hstop⟩ := hpast edit List.mem_cons_self
    rw [simultaneous_behind hstart hstop]
    exact ih fun other hother => hpast other (List.mem_cons_of_mem _ hother)

/-- Whatever the edits make of a text up to a position behind them, the rest follows. -/
theorem simultaneous_suffix {edits : List Edit} {chars : List Char} {byte : ℕ}
    (hforward : ∀ edit ∈ edits, edit.start ≤ edit.stop)
    (hstop : ∀ edit ∈ edits, edit.stop ≤ byte + size chars) (rest : List Char) :
    ∃ edited, simultaneous edits byte (chars ++ rest) = edited ++ rest := by
  induction chars generalizing byte with
  | nil =>
    rw [List.nil_append]
    rw [size_nil, Nat.add_zero] at hstop
    cases rest with
    | nil => exact ⟨simultaneous edits byte [], (List.append_nil _).symm⟩
    | cons char rest =>
      have hpos := length_charBytes_pos char
      have hreplaces : replaces edits byte = false := by
        unfold replaces
        rw [List.any_eq_false]
        intro edit hedit
        have hle := hstop edit hedit
        simp only [Bool.and_eq_true, decide_eq_true_eq]
        omega
      refine ⟨textsAt edits byte, ?_⟩
      rw [simultaneous, hreplaces, if_neg Bool.false_ne_true,
        simultaneous_past fun edit hedit => ?_]
      · simp only [List.append_assoc, List.singleton_append]
      · have hle := hstop edit hedit
        have hforward := hforward edit hedit
        omega
  | cons char chars ih =>
    have hnext : ∀ edit ∈ edits, edit.stop ≤ byte + (charBytes char).length + size chars := by
      intro edit hedit
      have hle := hstop edit hedit
      rw [size_cons] at hle
      omega
    obtain ⟨edited, hedited⟩ := ih hnext
    rw [List.cons_append, simultaneous, hedited]
    exact ⟨_, (List.append_assoc _ _ _).symm⟩

/-- The bytes before every edit stay. -/
theorem prefix_simultaneous {edits : List Edit} {text : List Char} {first : ℕ}
    (hboundary : isBoundary text first = true) (hfirst : ∀ edit ∈ edits, first ≤ edit.start) :
    (encode text).take first <+: encode (simultaneous edits 0 text) := by
  obtain ⟨before, after, rfl, rfl⟩ := isBoundary_iff.mp hboundary
  have hbefore : ∀ edit ∈ edits, 0 + size before ≤ edit.start := by
    intro edit hedit
    rw [Nat.zero_add]
    exact hfirst edit hedit
  have htake : (encode (before ++ after)).take (size before) = encode before := by
    rw [encode_append]
    exact List.take_left
  rw [htake, simultaneous_before hbefore, encode_append]
  exact List.prefix_append _ _

/-- The bytes behind every edit stay. -/
theorem suffix_simultaneous {edits : List Edit} {text : List Char} {last : ℕ}
    (hforward : ∀ edit ∈ edits, edit.start ≤ edit.stop)
    (hboundary : isBoundary text last = true) (hlast : ∀ edit ∈ edits, edit.stop ≤ last) :
    (encode text).drop last <:+ encode (simultaneous edits 0 text) := by
  obtain ⟨before, after, rfl, rfl⟩ := isBoundary_iff.mp hboundary
  have hstop : ∀ edit ∈ edits, edit.stop ≤ 0 + size before := by
    intro edit hedit
    rw [Nat.zero_add]
    exact hlast edit hedit
  obtain ⟨edited, hedited⟩ := simultaneous_suffix hforward hstop after
  rw [hedited, drop_encode, encode_append]
  exact List.suffix_append _ _

/-- Each replacement is made between two boundaries of the text it is made in. -/
theorem applyBackwards_boundaries {ε : Type} {earlier later : List Edit} {edit : Edit}
    {text raw : List Char}
    (happly : (applyBackwards (earlier ++ edit :: later) text : Except (Halt ε) (List Char)) =
      .ok raw) :
    ∃ current, (applyBackwards later text : Except (Halt ε) (List Char)) = .ok current ∧
      isBoundary current edit.start = true ∧ isBoundary current edit.stop = true := by
  induction earlier generalizing raw with
  | nil =>
    rw [List.nil_append, applyBackwards_cons] at happly
    cases hlater : (applyBackwards later text : Except (Halt ε) (List Char)) with
    | error halt =>
      rw [hlater] at happly
      cases happly
    | ok current =>
      rw [hlater] at happly
      exact ⟨current, rfl, replaceRange_boundaries happly⟩
  | cons first earlier ih =>
    rw [List.cons_append, applyBackwards_cons] at happly
    cases hrest :
      (applyBackwards (earlier ++ edit :: later) text : Except (Halt ε) (List Char)) with
    | error halt =>
      rw [hrest] at happly
      cases happly
    | ok current => exact ih hrest

end Edit

end Utf8
