import Krit.Lib.TextEdits
import Krit.Redaction

/-!
# Proposed edits

A provider answers a request with edits of the selected source.  The assistant checks each
range against the source and the ranges against each other, and then replaces one range after
the other, the last first.
-/

namespace Krit

open Utf8 Utf8.Edit

structure DocumentPrecondition where
  path : String
  digest : String
  byteLength : ℕ
  deriving DecidableEq, Repr

structure RequestTarget where
  document : DocumentPrecondition
  selection : TextRange
  deriving DecidableEq, Repr

structure AssistRequest where
  requestId : String
  target : RequestTarget
  deriving DecidableEq, Repr

structure ResponseDocument where
  path : String
  baseDigest : String
  deriving DecidableEq, Repr

structure ProposedTextEdit where
  range : TextRange
  newText : List Char
  deriving DecidableEq, Repr

structure AssistResponse where
  schema : ℕ
  authoringProtocol : ℕ
  requestId : String
  document : ResponseDocument
  summary : List Char
  edits : List ProposedTextEdit
  deriving DecidableEq, Repr

def authoringProtocolVersion : ℕ := 1
def responseSchemaVersion : ℕ := 1
def maxEdits : ℕ := 64
def maxEditBytes : ℕ := 256 * 1024
def maxEditTextBytes : ℕ := 64 * 1024
def maxProviderSummaryBytes : ℕ := 4 * 1024
def maxSourceBytes : ℕ := 1024 * 1024

def proposalError (message : String) : Halt AssistError := .failed (.proposal message)

def candidateError (message : String) : Halt AssistError := .failed (.candidate message)

/-- A control character other than a line feed and a tab, or one that sets the direction of
the text. -/
def isTerminalControl (char : Char) : Bool :=
  ((char.toNat < 32 || (127 ≤ char.toNat && char.toNat < 160)) &&
    !(char == '\n' || char == '\t')) ||
  char.toNat == 0x061c || char.toNat == 0x200e || char.toNat == 0x200f ||
  (0x202a ≤ char.toNat && char.toNat ≤ 0x202e) || (0x2066 ≤ char.toNat && char.toNat ≤ 0x2069)

def validateTextRange (source : List Char) (range : TextRange) : Assist Unit := do
  if range.endByte < range.startByte ∨ size source < range.endByte ∨
      isBoundary source range.startByte = false ∨ isBoundary source range.endByte = false then
    .error (proposalError "edit contains an invalid UTF-8 byte range")
  else
    let expected ← (Utf16Index.new source).textRange source range.startByte range.endByte
    if expected ≠ range then
      .error (proposalError "edit byte and UTF-16 ranges do not identify the same text")
    else .ok ()

/-! ## The checks of a response -/

/-- The loop over the edits of a response: their bytes so far, and the range before. -/
structure EditScan where
  total : ℕ
  previous : Option TextRange

/-- Two insertions at one position. -/
def duplicateInsertion (previous range : TextRange) : Bool :=
  previous.startByte == previous.endByte && range.startByte == range.endByte &&
    previous.startByte == range.startByte

def checkOrder (previous : Option TextRange) (range : TextRange) : Assist Unit :=
  match previous with
  | none => .ok ()
  | some previous =>
      if range.startByte < previous.startByte ∨
          (range.startByte = previous.startByte ∧ range.endByte < previous.endByte) then
        .error (proposalError "provider edits must be sorted by source range")
      else if range.startByte < previous.endByte ∨ duplicateInsertion previous range = true then
        .error (proposalError "provider edits overlap or contain ambiguous insertions")
      else .ok ()

def scanEdit (request : AssistRequest) (source : List Char) (scan : EditScan)
    (edit : ProposedTextEdit) : Assist EditScan := do
  validateTextRange source edit.range
  if edit.range.startByte < request.target.selection.startByte ∨
      request.target.selection.endByte < edit.range.endByte then
    .error (proposalError "provider edit escapes the explicitly selected target range")
  else if maxEditTextBytes < size edit.newText ∨ edit.newText.contains '\x00' = true ∨
      edit.newText.any isTerminalControl = true then
    .error (proposalError ("one provider edit exceeds the " ++ toString maxEditTextBytes ++
      "-byte limit or contains terminal controls"))
  else
    let total := scan.total + size edit.newText
    if 2 ^ 64 ≤ total then .error (proposalError "provider edit byte count overflowed")
    else if maxEditBytes < total then
      .error (proposalError s!"provider edits exceed the {maxEditBytes}-byte limit")
    else
      checkOrder scan.previous edit.range
      .ok ⟨total, some edit.range⟩

def validateResponse (request : AssistRequest) (source : List Char) (response : AssistResponse) :
    Assist Unit := do
  if response.schema ≠ responseSchemaVersion ∨
      response.authoringProtocol ≠ authoringProtocolVersion then
    .error (proposalError "provider response uses an unsupported schema")
  else if response.requestId ≠ request.requestId ∨
      response.document.path ≠ request.target.document.path ∨
      response.document.baseDigest ≠ request.target.document.digest then
    .error (proposalError "provider response does not match the requested document precondition")
  else if maxProviderSummaryBytes < size response.summary ∨
      response.summary.any (fun char => char == '\n' || char == '\r' || char == '\t') = true ∨
      response.summary.any isTerminalControl = true then
    .error (proposalError ("provider summary exceeds the " ++ toString maxProviderSummaryBytes ++
      "-byte limit or contains terminal controls"))
  else if response.edits = [] ∨ maxEdits < response.edits.length then
    .error (proposalError s!"provider must return 1-{maxEdits} text edits")
  else
    let _ ← response.edits.foldlM (scanEdit request source) ⟨0, none⟩
    .ok ()

/-! ## The candidate -/

structure CompilerDiagnostic where
  code : String
  message : String
  deriving DecidableEq, Repr

/-- The compiler as the assistant calls it, on a named source. -/
structure Compiler (Program Analysis Core : Type) where
  formatSource : String → List Char → Except CompilerDiagnostic (List Char)
  parseSource : String → List Char → Except CompilerDiagnostic Program
  analyze : Program → Except CompilerDiagnostic Analysis
  lower : Program → Analysis → Except CompilerDiagnostic Core

structure CandidateSource where
  raw : List Char
  canonical : List Char
  deriving DecidableEq, Repr

/-- A stage of the compiler on the candidate. -/
def stage {α : Type} (name : String) (result : Except CompilerDiagnostic α) : Assist α :=
  result.mapError fun diagnostic =>
    candidateError s!"candidate {name} failed with {diagnostic.code}: {diagnostic.message}"

/-- The range of an edit in the source. -/
def ProposedTextEdit.edit (edit : ProposedTextEdit) : Edit :=
  ⟨edit.range.startByte, edit.range.endByte, edit.newText⟩

/-- The source with the edits made one after the other, the last first. -/
def rawSource (source : List Char) (edits : List ProposedTextEdit) : Assist (List Char) :=
  edits.reverse.foldlM (fun raw edit =>
    replaceRange raw edit.range.startByte edit.range.endByte edit.newText) source

def candidateSource {Program Analysis Core : Type} (compiler : Compiler Program Analysis Core)
    (fileName : Option String) (source : List Char) (edits : List ProposedTextEdit) :
    Assist CandidateSource := do
  let raw ← rawSource source edits
  if maxSourceBytes < size raw then
    .error (candidateError "candidate source exceeds the bounded source limit")
  else
    let sourceName := fileName.getD "<assist-candidate>"
    let canonical ← stage "formatting" (compiler.formatSource sourceName raw)
    if maxSourceBytes < size canonical then
      .error (candidateError "canonical candidate exceeds the bounded source limit")
    else
      let program ← stage "parsing" (compiler.parseSource sourceName canonical)
      let analysis ← stage "analysis" (compiler.analyze program)
      match compiler.lower program analysis with
      | .error _ => .error (candidateError "candidate Core verification failed")
      | .ok _ => .ok ⟨raw, canonical⟩

/-! ## Edits -/

section Accepted

variable {request : AssistRequest} {source : List Char}

theorem validateTextRange_ok {range : TextRange}
    (hrange : validateTextRange source range = .ok ()) :
    range.startByte ≤ range.endByte ∧ isBoundary source range.startByte = true ∧
      isBoundary source range.endByte = true := by
  unfold validateTextRange at hrange
  split at hrange
  · cases hrange
  · rename_i hbounds
    simp only [not_or, Nat.not_lt, Bool.not_eq_false] at hbounds
    exact ⟨hbounds.1, hbounds.2.2.1, hbounds.2.2.2⟩

theorem checkOrder_ok {previous : Option TextRange} {range : TextRange}
    (horder : checkOrder previous range = .ok ()) :
    ∀ before ∈ previous, before.endByte ≤ range.startByte := by
  intro before hbefore
  rw [Option.mem_def.mp hbefore, checkOrder] at horder
  split at horder
  · cases horder
  · split at horder
    · cases horder
    · rename_i hoverlap
      rw [not_or, Nat.not_lt] at hoverlap
      exact hoverlap.1

/-- An edit that the assistant accepts. -/
structure AcceptedRange (request : AssistRequest) (source : List Char)
    (range : TextRange) : Prop where
  forward : range.startByte ≤ range.endByte
  boundaries : isBoundary source range.startByte = true ∧ isBoundary source range.endByte = true
  first : request.target.selection.startByte ≤ range.startByte
  last : range.endByte ≤ request.target.selection.endByte

theorem scanEdit_ok {scan next : EditScan} {edit : ProposedTextEdit}
    (hscan : scanEdit request source scan edit = .ok next) :
    AcceptedRange request source edit.range ∧ next.previous = some edit.range ∧
      ∀ before ∈ scan.previous, before.endByte ≤ edit.range.startByte := by
  unfold scanEdit at hscan
  cases hrange : validateTextRange source edit.range with
  | error halt =>
    rw [hrange] at hscan
    cases hscan
  | ok _ =>
    simp only [hrange, bind, Except.bind] at hscan
    obtain ⟨hforward, hboundaries⟩ := validateTextRange_ok hrange
    split at hscan
    · cases hscan
    · rename_i hinside
      rw [not_or, Nat.not_lt, Nat.not_lt] at hinside
      split at hscan
      · cases hscan
      · split at hscan
        · cases hscan
        · split at hscan
          · cases hscan
          · cases horder : checkOrder scan.previous edit.range with
            | error halt =>
              rw [horder] at hscan
              cases hscan
            | ok _ =>
              rw [horder] at hscan
              cases hscan
              exact ⟨⟨hforward, hboundaries, hinside.1, hinside.2⟩, rfl, checkOrder_ok horder⟩

/-- The edits that the loop accepts are in order behind the range before. -/
theorem scan_edits {edits : List ProposedTextEdit} {scan final : EditScan}
    (hscan : edits.foldlM (scanEdit request source) scan = .ok final) :
    (∀ edit ∈ edits, AcceptedRange request source edit.range) ∧
      (∀ edit ∈ edits, ∀ before ∈ scan.previous, before.endByte ≤ edit.range.startByte) ∧
      edits.Pairwise fun first second => first.range.endByte ≤ second.range.startByte := by
  induction edits generalizing scan with
  | nil => exact ⟨fun _ h => (by cases h), fun _ h => (by cases h), List.Pairwise.nil⟩
  | cons edit edits ih =>
    rw [List.foldlM_cons] at hscan
    cases hstep : scanEdit request source scan edit with
    | error halt =>
      rw [hstep] at hscan
      cases hscan
    | ok next =>
      rw [hstep] at hscan
      obtain ⟨haccepted, hprevious, hbehind⟩ := scanEdit_ok hstep
      obtain ⟨hothers, hnext, hapart⟩ := ih hscan
      have hlater : ∀ other ∈ edits, edit.range.endByte ≤ other.range.startByte := by
        intro other hother
        exact hnext other hother edit.range hprevious
      refine ⟨?_, ?_, List.pairwise_cons.mpr ⟨hlater, hapart⟩⟩
      · intro other hother
        rcases List.mem_cons.mp hother with rfl | hmem
        · exact haccepted
        · exact hothers other hmem
      · intro other hother before hbefore
        have hfirst := hbehind before hbefore
        rcases List.mem_cons.mp hother with rfl | hmem
        · exact hfirst
        · have hforward := haccepted.forward
          have hle := hlater other hmem
          omega

theorem validateResponse_ok {response : AssistResponse}
    (hvalid : validateResponse request source response = .ok ()) :
    response.edits ≠ [] ∧ (∀ edit ∈ response.edits, AcceptedRange request source edit.range) ∧
      response.edits.Pairwise fun first second =>
        first.range.endByte ≤ second.range.startByte := by
  unfold validateResponse at hvalid
  split at hvalid
  · cases hvalid
  split at hvalid
  · cases hvalid
  split at hvalid
  · cases hvalid
  split at hvalid
  · cases hvalid
  · rename_i hcount
    rw [not_or] at hcount
    cases hscan : response.edits.foldlM (scanEdit request source) ⟨0, none⟩ with
    | error halt =>
      rw [hscan] at hvalid
      cases hvalid
    | ok final =>
      obtain ⟨haccepted, -, hapart⟩ := scan_edits hscan
      exact ⟨hcount.1, haccepted, hapart⟩

end Accepted

theorem rawSource_eq (source : List Char) (edits : List ProposedTextEdit) :
    rawSource source edits = applyBackwards (edits.map ProposedTextEdit.edit) source := by
  unfold rawSource applyBackwards
  rw [← List.map_reverse, List.foldlM_map]
  rfl

theorem candidateSource_raw {Program Analysis Core : Type}
    {compiler : Compiler Program Analysis Core} {fileName : Option String} {source : List Char}
    {edits : List ProposedTextEdit} {candidate : CandidateSource}
    (hcandidate : candidateSource compiler fileName source edits = .ok candidate) :
    rawSource source edits = .ok candidate.raw := by
  unfold candidateSource at hcandidate
  cases hraw : rawSource source edits with
  | error halt =>
    rw [hraw] at hcandidate
    cases hcandidate
  | ok raw =>
    simp only [hraw, bind, Except.bind] at hcandidate
    split at hcandidate
    · cases hcandidate
    · split at hcandidate
      · cases hcandidate
      · split at hcandidate
        · cases hcandidate
        · split at hcandidate
          · cases hcandidate
          · split at hcandidate
            · cases hcandidate
            · split at hcandidate
              · cases hcandidate
              · cases hcandidate
                rfl

/-- The raw text of an accepted response is the source with all of its edits made at once. -/
theorem proposed_edits_simultaneous {Program Analysis Core : Type}
    (compiler : Compiler Program Analysis Core) (fileName : Option String)
    (request : AssistRequest) (source : List Char) (response : AssistResponse)
    (hvalid : validateResponse request source response = .ok ()) :
    let edits := response.edits.map ProposedTextEdit.edit
    let raw := simultaneous edits 0 source
    rawSource source response.edits = .ok raw ∧
      (∀ candidate, candidateSource compiler fileName source response.edits = .ok candidate →
        candidate.raw = raw) ∧
      (encode source).take request.target.selection.startByte <+: encode raw ∧
      (encode source).drop request.target.selection.endByte <:+ encode raw ∧
      ∀ earlier edit later, response.edits = earlier ++ edit :: later →
        ∃ current, rawSource source later = .ok current ∧
          isBoundary current edit.range.startByte = true ∧
          isBoundary current edit.range.endByte = true := by
  obtain ⟨hnonempty, haccepted, hapart⟩ := validateResponse_ok hvalid
  intro edits raw
  have hedits : ∀ edit ∈ edits, ∃ proposed ∈ response.edits, proposed.edit = edit :=
    fun edit hedit => List.mem_map.mp hedit
  have hordered : Ordered edits := by
    refine ⟨fun edit hedit => ?_, List.pairwise_map.mpr hapart⟩
    obtain ⟨proposed, hproposed, rfl⟩ := hedits edit hedit
    exact (haccepted proposed hproposed).forward
  have hboundaries : OnBoundaries ([] ++ source) edits := by
    intro edit hedit
    obtain ⟨proposed, hproposed, rfl⟩ := hedits edit hedit
    exact (haccepted proposed hproposed).boundaries
  have hraw : rawSource source response.edits = .ok raw := by
    rw [rawSource_eq]
    exact applyBackwards_eq hordered hboundaries fun edit _ => Nat.zero_le _
  obtain ⟨edit, hedit⟩ := List.exists_mem_of_ne_nil _ hnonempty
  have hsome : edits.toFinset.Nonempty :=
    ⟨edit.edit, List.mem_toFinset.mpr (List.mem_map.mpr ⟨edit, hedit, rfl⟩)⟩
  refine ⟨hraw, fun candidate hcandidate => ?_, ?_, ?_, fun earlier edit later hsplit => ?_⟩
  · have hcandidateRaw := candidateSource_raw hcandidate
    rw [hraw] at hcandidateRaw
    exact (Except.ok.inj hcandidateRaw).symm
  · obtain ⟨first, hfirst, hleast⟩ := Finset.exists_min_image edits.toFinset Edit.start hsome
    have hmem := List.mem_toFinset.mp hfirst
    have hprefix := prefix_simultaneous (hboundaries first hmem).1 fun other hother =>
      hleast other (List.mem_toFinset.mpr hother)
    obtain ⟨proposed, hproposed, rfl⟩ := hedits first hmem
    have hselected := (haccepted proposed hproposed).first
    exact (List.take_prefix_take_left hselected).trans hprefix
  · obtain ⟨last, hlast, hgreatest⟩ := Finset.exists_max_image edits.toFinset Edit.stop hsome
    have hmem := List.mem_toFinset.mp hlast
    have hsuffix := suffix_simultaneous hordered.forward (hboundaries last hmem).2
      fun other hother => hgreatest other (List.mem_toFinset.mpr hother)
    obtain ⟨proposed, hproposed, rfl⟩ := hedits last hmem
    have hselected := (haccepted proposed hproposed).last
    exact (List.drop_suffix_drop_left _ hselected).trans hsuffix
  · rw [hsplit, rawSource_eq, List.map_append, List.map_cons] at hraw
    obtain ⟨current, hcurrent, hstart, hstop⟩ := applyBackwards_boundaries hraw
    rw [← rawSource_eq] at hcurrent
    exact ⟨current, hcurrent, hstart, hstop⟩

/-- Two insertions around a replacement, of which the first stands before its text. -/
theorem proposed_edits_simultaneous_sample :
    let response : AssistResponse := ⟨1, 1, "r", ⟨"a", "d"⟩, [],
      [⟨⟨1, 1, ⟨0, 1⟩, ⟨0, 1⟩⟩, ['x']⟩, ⟨⟨1, 2, ⟨0, 1⟩, ⟨0, 2⟩⟩, ['y', 'y']⟩,
        ⟨⟨2, 2, ⟨0, 2⟩, ⟨0, 2⟩⟩, ['z']⟩]⟩
    rawSource ['a', 'b', 'c'] response.edits = .ok ['a', 'x', 'y', 'y', 'z', 'c'] := by
  intro response
  have hvalid : validateResponse ⟨"r", ⟨⟨"a", "d", 3⟩, ⟨1, 2, ⟨0, 1⟩, ⟨0, 2⟩⟩⟩⟩ ['a', 'b', 'c']
      response = .ok () := by
    decide +kernel
  have hraw := (@proposed_edits_simultaneous Unit Unit Unit
    ⟨fun _ text => .ok text, fun _ _ => .ok (), fun _ => .ok (), fun _ _ => .ok ()⟩ none _ _ _
    hvalid).1
  exact hraw

end Krit
