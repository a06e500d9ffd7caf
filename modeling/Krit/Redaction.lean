import Krit.Lib.Intervals
import Krit.TextPositions

/-!
# Redacted slices

The assistant shows a slice of a source to a provider with its sensitive regions left out.
The regions are cut to the slice and merged, and a placeholder stands for each of the merged
ones.
-/

namespace Krit

open Utf8 Intervals

structure TextRange where
  startByte : ℕ
  endByte : ℕ
  start : TextPosition
  stop : TextPosition
  deriving DecidableEq, Repr

/-- A region of a source with its category. -/
structure SensitiveRegion where
  span : Intervals.Span
  category : String
  deriving DecidableEq, Repr

structure ContextRedaction where
  range : TextRange
  category : String
  replacement : String
  deriving DecidableEq, Repr

def Utf16Index.textRange (index : Utf16Index) (source : List Char) (start stop : ℕ) :
    Assist TextRange := do
  let first ← index.position source start
  let last ← index.position source stop
  .ok ⟨start, stop, first, last⟩

/-! ## Merging -/

/-- The order of the regions: by their starts, and the longest first. -/
def regionBefore (first second : SensitiveRegion) : Bool :=
  decide (first.span.start < second.span.start) ||
    (first.span.start == second.span.start && decide (second.span.stop ≤ first.span.stop))

/-- Takes a region into merged ones, of which the last comes first. -/
def mergeRegion (merged : List SensitiveRegion) (region : SensitiveRegion) :
    List SensitiveRegion :=
  match merged with
  | [] => [region]
  | last :: earlier =>
      if region.span.start ≤ last.span.stop then
        let stop := if last.span.stop < region.span.stop then region.span.stop else last.span.stop
        let category :=
          if last.category ≠ region.category ∧
              stop - last.span.start < region.span.stop - region.span.start then region.category
          else last.category
        ⟨⟨last.span.start, stop⟩, category⟩ :: earlier
      else region :: last :: earlier

def mergeSensitiveIntervals (intervals : List SensitiveRegion) : List SensitiveRegion :=
  ((intervals.mergeSort regionBefore).foldl mergeRegion []).reverse

/-! ## Redaction -/

/-- A region cut to the selection, if anything of it is left. -/
def clampRegion (selected : TextRange) (region : SensitiveRegion) : Option SensitiveRegion :=
  let start := max region.span.start selected.startByte
  let stop := min region.span.stop selected.endByte
  if start < stop then some ⟨⟨start, stop⟩, region.category⟩ else none

/-- The loop over the merged regions: where it is in the source, and what it has emitted. -/
structure Redacting where
  cursor : ℕ
  output : List Char
  redactions : List ContextRedaction

def emitRegion (source : List Char) (emitted : Redacting) (region : SensitiveRegion) :
    Assist Redacting := do
  let copied ← slice source emitted.cursor region.span.start
  let replacement := "<redacted:" ++ region.category ++ ">"
  let range ← (Utf16Index.new source).textRange source region.span.start region.span.stop
  .ok ⟨region.span.stop, emitted.output ++ copied ++ replacement.toList,
    emitted.redactions ++ [⟨range, region.category, replacement⟩]⟩

def redactSlice (sensitiveLiteralSpans : List Char → List SensitiveRegion) (source : List Char)
    (selected : TextRange) : Assist (List Char × List ContextRedaction) := do
  let overlaps := (sensitiveLiteralSpans source).filterMap (clampRegion selected)
  let emitted ← (mergeSensitiveIntervals overlaps).foldlM (emitRegion source)
    ⟨selected.startByte, [], []⟩
  let rest ← slice source emitted.cursor selected.endByte
  .ok (emitted.output ++ rest, emitted.redactions)

/-! ## The merged regions -/

theorem mergeRegion_span (merged : List SensitiveRegion) (region : SensitiveRegion) :
    (mergeRegion merged region).map SensitiveRegion.span =
      absorb (merged.map SensitiveRegion.span) region.span := by
  cases merged with
  | nil => rfl
  | cons last earlier =>
    rw [mergeRegion, List.map_cons, absorb]
    by_cases htouch : region.span.start ≤ last.span.stop
    · rw [if_pos htouch, if_pos htouch, List.map_cons]
      have hstop : (if last.span.stop < region.span.stop then region.span.stop
          else last.span.stop) = max last.span.stop region.span.stop := by
        split <;> omega
      rw [← hstop]
    · rw [if_neg htouch, if_neg htouch, List.map_cons, List.map_cons]

theorem foldl_mergeRegion_span (regions merged : List SensitiveRegion) :
    (regions.foldl mergeRegion merged).map SensitiveRegion.span =
      (regions.map SensitiveRegion.span).foldl absorb (merged.map SensitiveRegion.span) := by
  induction regions generalizing merged with
  | nil => rfl
  | cons region regions ih =>
    rw [List.foldl_cons, ih, mergeRegion_span, List.map_cons, List.foldl_cons]

theorem sorted_mergeSort (intervals : List SensitiveRegion) :
    (intervals.mergeSort regionBefore).Pairwise fun first second =>
      first.span.start ≤ second.span.start := by
  have htrans : ∀ first second third, regionBefore first second = true →
      regionBefore second third = true → regionBefore first third = true := by
    intro first second third hfirst hsecond
    simp only [regionBefore, Bool.or_eq_true, Bool.and_eq_true, decide_eq_true_eq,
      beq_iff_eq] at hfirst hsecond ⊢
    omega
  have htotal : ∀ first second,
      (regionBefore first second || regionBefore second first) = true := by
    intro first second
    simp only [regionBefore, Bool.or_eq_true, Bool.and_eq_true, decide_eq_true_eq, beq_iff_eq]
    omega
  refine (List.pairwise_mergeSort htrans htotal intervals).imp fun hbefore => ?_
  simp only [regionBefore, Bool.or_eq_true, Bool.and_eq_true, decide_eq_true_eq,
    beq_iff_eq] at hbefore
  omega

/-- Merging leaves separated regions that cover the same bytes. -/
theorem mergeSensitiveIntervals_spans {intervals : List SensitiveRegion}
    (hnonempty : ∀ region ∈ intervals, region.span.start < region.span.stop) :
    Separated ((mergeSensitiveIntervals intervals).map SensitiveRegion.span) ∧
      ∀ point, Covers ((mergeSensitiveIntervals intervals).map SensitiveRegion.span) point ↔
        Covers (intervals.map SensitiveRegion.span) point := by
  have hperm := List.mergeSort_perm intervals regionBefore
  have hsorted : ((intervals.mergeSort regionBefore).map SensitiveRegion.span).Pairwise
      fun first second => first.start ≤ second.start :=
    List.pairwise_map.mpr (sorted_mergeSort intervals)
  have hpositive : ∀ span ∈ (intervals.mergeSort regionBefore).map SensitiveRegion.span,
      span.start < span.stop := by
    intro span hspan
    obtain ⟨region, hregion, rfl⟩ := List.mem_map.mp hspan
    exact hnonempty region (hperm.mem_iff.mp hregion)
  obtain ⟨hseparated, hcovers⟩ := foldl_absorb (Merged.nil 0) hpositive hsorted
    fun span _ => Nat.zero_le _
  have hmap : (mergeSensitiveIntervals intervals).map SensitiveRegion.span =
      (((intervals.mergeSort regionBefore).map SensitiveRegion.span).foldl absorb []).reverse := by
    unfold mergeSensitiveIntervals
    rw [List.map_reverse, foldl_mergeRegion_span]
    rfl
  rw [hmap]
  refine ⟨hseparated, fun point => ?_⟩
  rw [hcovers]
  unfold Covers
  constructor
  · rintro (⟨span, hspan, -⟩ | ⟨span, hspan, hcontains⟩)
    · cases hspan
    · exact ⟨span, (hperm.map SensitiveRegion.span).mem_iff.mp hspan, hcontains⟩
  · rintro ⟨span, hspan, hcontains⟩
    exact Or.inr ⟨span, (hperm.map SensitiveRegion.span).mem_iff.mpr hspan, hcontains⟩

/-- What holds of the regions, and of every region made from the start of one, the end of one of
two and the category of one of these two, holds of the merged regions. -/
theorem mergeSensitiveIntervals_induct {intervals : List SensitiveRegion}
    {holds : SensitiveRegion → Prop} (hintervals : ∀ region ∈ intervals, holds region)
    (hmerge : ∀ last region, holds last → holds region → ∀ stop category,
      stop = region.span.stop ∨ stop = last.span.stop →
      category = region.category ∨ category = last.category →
        holds ⟨⟨last.span.start, stop⟩, category⟩) :
    ∀ region ∈ mergeSensitiveIntervals intervals, holds region := by
  have hfold : ∀ (regions merged : List SensitiveRegion), (∀ region ∈ merged, holds region) →
      (∀ region ∈ regions, holds region) → ∀ region ∈ regions.foldl mergeRegion merged,
        holds region := by
    intro regions
    induction regions with
    | nil => exact fun merged hmerged _ => hmerged
    | cons region regions ih =>
      intro merged hmerged hregions
      have hregion := hregions region List.mem_cons_self
      refine ih _ ?_ fun other hother => hregions other (List.mem_cons_of_mem _ hother)
      intro other hother
      cases merged with
      | nil =>
        rw [List.mem_singleton.mp hother]
        exact hregion
      | cons last earlier =>
        have hlast := hmerged last List.mem_cons_self
        rw [mergeRegion] at hother
        split at hother
        · rcases List.mem_cons.mp hother with heq | hmem
          · rw [heq]
            exact hmerge last region hlast hregion _ _ (ite_eq_or_eq _ _ _) (ite_eq_or_eq _ _ _)
          · exact hmerged other (List.mem_cons_of_mem _ hmem)
        · rcases List.mem_cons.mp hother with heq | hmem
          · rw [heq]
            exact hregion
          · exact hmerged other hmem
  have hperm := List.mergeSort_perm intervals regionBefore
  intro region hregion
  exact hfold _ [] (fun _ hmem => (by cases hmem))
    (fun other hother => hintervals other (hperm.mem_iff.mp hother)) region
    (List.mem_reverse.mp hregion)

/-- The category of a merged region is that of one of the regions. -/
theorem mem_mergeSensitiveIntervals {intervals : List SensitiveRegion} {region : SensitiveRegion}
    (hregion : region ∈ mergeSensitiveIntervals intervals) :
    ∃ original ∈ intervals, original.category = region.category := by
  refine @mergeSensitiveIntervals_induct intervals
    (fun merged => ∃ original ∈ intervals, original.category = merged.category)
    (fun original horiginal => ⟨original, horiginal, rfl⟩) ?_ region hregion
  intro last region hlast hregion stop category _ hcategory
  rcases hcategory with hown | hkept
  · rw [hown]
    exact hregion
  · rw [hkept]
    exact hlast

/-- The ends of a merged region are ends of the regions. -/
theorem mergeSensitiveIntervals_endpoints {intervals : List SensitiveRegion} {ends : ℕ → Prop}
    (hintervals : ∀ region ∈ intervals, ends region.span.start ∧ ends region.span.stop) :
    ∀ region ∈ mergeSensitiveIntervals intervals,
      ends region.span.start ∧ ends region.span.stop := by
  refine mergeSensitiveIntervals_induct hintervals ?_
  intro last region hlast hregion stop category hstop _
  refine ⟨hlast.1, ?_⟩
  rcases hstop with hown | hkept
  · rw [hown]
    exact hregion.2
  · rw [hkept]
    exact hlast.2

/-! ## What a provider may see -/

/-- A byte of the selection in one of the regions. -/
def Sensitive (regions : List SensitiveRegion) (selected : TextRange) (byte : ℕ) : Prop :=
  selected.startByte ≤ byte ∧ byte < selected.endByte ∧
    Covers (regions.map SensitiveRegion.span) byte

/-- The characters of a selection, from a byte on: those that are not sensitive, and what
stands for a run of sensitive ones where the run begins. -/
noncomputable def reveal (selected : TextRange) (sensitive : ℕ → Prop)
    (placeholder : ℕ → List Char) : ℕ → List Char → List Char
  | _, [] => []
  | byte, char :: rest =>
      open Classical in
      (if byte < selected.startByte ∨ selected.endByte ≤ byte then []
        else if ¬ sensitive byte then [char]
        else if ∃ before, before + 1 = byte ∧ sensitive before then []
        else placeholder byte) ++
      reveal selected sensitive placeholder (byte + (charBytes char).length) rest

section Reveal

variable {selected : TextRange} {sensitive : ℕ → Prop} {placeholder : ℕ → List Char}

theorem reveal_outside {chars : List Char} {byte : ℕ}
    (houtside : selected.endByte ≤ byte ∨ byte + size chars ≤ selected.startByte)
    (rest : List Char) :
    reveal selected sensitive placeholder byte (chars ++ rest) =
      reveal selected sensitive placeholder (byte + size chars) rest := by
  induction chars generalizing byte with
  | nil => rfl
  | cons char chars ih =>
    have hpos := length_charBytes_pos char
    rw [size_cons] at houtside
    rw [List.cons_append, reveal, if_pos (by omega), List.nil_append, ih (by omega), size_cons,
      Nat.add_assoc]

theorem reveal_plain {chars : List Char} {byte : ℕ} (hstart : selected.startByte ≤ byte)
    (hstop : byte + size chars ≤ selected.endByte)
    (hplain : ∀ point, byte ≤ point → point < byte + size chars → ¬ sensitive point)
    (rest : List Char) :
    reveal selected sensitive placeholder byte (chars ++ rest) =
      chars ++ reveal selected sensitive placeholder (byte + size chars) rest := by
  induction chars generalizing byte with
  | nil => rfl
  | cons char chars ih =>
    have hpos := length_charBytes_pos char
    rw [size_cons] at hstop hplain
    rw [List.cons_append, reveal, if_neg (by omega), if_pos (hplain byte (le_refl _) (by omega)),
      ih (by omega) (by omega) fun point hlow hhigh => hplain point (by omega) (by omega),
      size_cons, Nat.add_assoc]
    rfl

theorem reveal_hidden {chars : List Char} {byte : ℕ} (hstart : selected.startByte ≤ byte)
    (hstop : byte + size chars ≤ selected.endByte)
    (hhidden : ∀ point, byte ≤ point + 1 → point < byte + size chars → sensitive point)
    (rest : List Char) (hbyte : 0 < byte) :
    reveal selected sensitive placeholder byte (chars ++ rest) =
      reveal selected sensitive placeholder (byte + size chars) rest := by
  induction chars generalizing byte with
  | nil => rfl
  | cons char chars ih =>
    have hpos := length_charBytes_pos char
    rw [size_cons] at hstop hhidden
    have hhere : ¬ ¬ sensitive byte := not_not.mpr (hhidden byte (by omega) (by omega))
    have hbefore : ∃ before, before + 1 = byte ∧ sensitive before :=
      ⟨byte - 1, by omega, hhidden (byte - 1) (by omega) (by omega)⟩
    rw [List.cons_append, reveal, if_neg (by omega), if_neg hhere, if_pos hbefore,
      List.nil_append, ih (by omega) (by omega)
        (fun point hlow hhigh => hhidden point (by omega) (by omega)) (by omega),
      size_cons, Nat.add_assoc]

/-- One placeholder stands for a maximal run. -/
theorem reveal_run {chars : List Char} {byte : ℕ} (hnonempty : chars ≠ [])
    (hstart : selected.startByte ≤ byte) (hstop : byte + size chars ≤ selected.endByte)
    (hrun : IsRun sensitive ⟨byte, byte + size chars⟩) (rest : List Char) :
    reveal selected sensitive placeholder byte (chars ++ rest) =
      placeholder byte ++ reveal selected sensitive placeholder (byte + size chars) rest := by
  cases chars with
  | nil => exact absurd rfl hnonempty
  | cons char chars =>
    have hpos := length_charBytes_pos char
    rw [size_cons] at hstop hrun
    have hhere : ¬ ¬ sensitive byte :=
      not_not.mpr (hrun.inside byte ⟨le_refl _, by dsimp only; omega⟩)
    have hfirst : ¬ ∃ before, before + 1 = byte ∧ sensitive before := by
      rintro ⟨before, hbefore, hsensitive⟩
      exact hrun.before before hbefore hsensitive
    rw [List.cons_append, reveal, if_neg (by omega), if_neg hhere, if_neg hfirst,
      reveal_hidden (by omega) (by omega) _ rest (by omega), size_cons, Nat.add_assoc]
    intro point hlow hhigh
    exact hrun.inside point ⟨by dsimp only; omega, by dsimp only; omega⟩

end Reveal

/-! ## The slice -/

/-- The position of a boundary in numbers of 32 bits. -/
def IsPosition (source : List Char) (byte : ℕ) (position : TextPosition) : Prop :=
  ∃ before after, source = before ++ after ∧ byte = size before ∧
    position = ⟨(Utf16.place before).line % 2 ^ 32, (Utf16.place before).character % 2 ^ 32⟩

theorem textRange_boundaries {source : List Char} {start stop : ℕ}
    (hstart : isBoundary source start = true) (hstop : isBoundary source stop = true) :
    ∃ first last, (Utf16Index.new source).textRange source start stop =
        .ok ⟨start, stop, first, last⟩ ∧
      IsPosition source start first ∧ IsPosition source stop last := by
  obtain ⟨before, after, htext, hsize⟩ := isBoundary_iff.mp hstart
  obtain ⟨before', after', htext', hsize'⟩ := isBoundary_iff.mp hstop
  have hfirst : (Utf16Index.new source).position source start =
      .ok ⟨(Utf16.place before).line % 2 ^ 32, (Utf16.place before).character % 2 ^ 32⟩ := by
    rw [hsize, htext]
    exact positionAt_wrapped before after
  have hlast : (Utf16Index.new source).position source stop =
      .ok ⟨(Utf16.place before').line % 2 ^ 32, (Utf16.place before').character % 2 ^ 32⟩ := by
    rw [hsize', htext']
    exact positionAt_wrapped before' after'
  refine ⟨_, _, ?_, ⟨before, after, htext, hsize, rfl⟩, ⟨before', after', htext', hsize', rfl⟩⟩
  unfold Utf16Index.textRange
  rw [hfirst, hlast]
  rfl

/-- A redaction tells of a region. -/
structure Tells (source : List Char) (region : SensitiveRegion) (redaction : ContextRedaction) :
    Prop where
  startByte : redaction.range.startByte = region.span.start
  endByte : redaction.range.endByte = region.span.stop
  start : IsPosition source region.span.start redaction.range.start
  stop : IsPosition source region.span.stop redaction.range.stop
  category : redaction.category = region.category
  replacement : redaction.replacement = "<redacted:" ++ region.category ++ ">"

theorem emitRegion_eq {source before gap run after : List Char} {emitted : Redacting}
    {region : SensitiveRegion} (hsource : source = before ++ gap ++ run ++ after)
    (hcursor : emitted.cursor = size before)
    (hstart : region.span.start = size before + size gap)
    (hstop : region.span.stop = size before + size gap + size run) :
    ∃ redaction, Tells source region redaction ∧
      emitRegion source emitted region = .ok ⟨region.span.stop,
        emitted.output ++ gap ++ ("<redacted:" ++ region.category ++ ">").toList,
        emitted.redactions ++ [redaction]⟩ := by
  have hslice : slice source emitted.cursor region.span.start =
      (.ok gap : Assist (List Char)) := by
    rw [hcursor, hstart, hsource, List.append_assoc _ run]
    exact slice_append before gap (run ++ after)
  have hfirst : isBoundary source region.span.start = true := by
    rw [hstart, ← size_append]
    exact isBoundary_iff.mpr ⟨before ++ gap, run ++ after,
      by rw [hsource, List.append_assoc _ run], rfl⟩
  have hlast : isBoundary source region.span.stop = true := by
    rw [hstop, ← size_append, ← size_append]
    exact isBoundary_iff.mpr ⟨before ++ gap ++ run, after, hsource, rfl⟩
  obtain ⟨first, last, hrange, hfirst, hlast⟩ := textRange_boundaries hfirst hlast
  refine ⟨⟨⟨region.span.start, region.span.stop, first, last⟩, region.category,
    "<redacted:" ++ region.category ++ ">"⟩, ⟨rfl, rfl, hfirst, hlast, rfl, rfl⟩, ?_⟩
  unfold emitRegion
  simp only [hslice, hrange, bind, Except.bind]

/-- The loop copies what is not sensitive, and a placeholder for each region. -/
theorem emit_regions {source : List Char} {selected : TextRange} {sensitive : ℕ → Prop}
    {placeholder : ℕ → List Char} (hend : isBoundary source selected.endByte = true)
    {regions : List SensitiveRegion} {emitted : Redacting} {before rest : List Char}
    (hsource : source = before ++ rest) (hcursor : emitted.cursor = size before)
    (hlow : selected.startByte ≤ size before) (hhigh : size before ≤ selected.endByte)
    (hseparated : Separated (regions.map SensitiveRegion.span))
    (hregions : ∀ region ∈ regions, isBoundary source region.span.start = true ∧
      isBoundary source region.span.stop = true ∧ size before ≤ region.span.start ∧
      region.span.stop ≤ selected.endByte ∧ IsRun sensitive region.span ∧
      placeholder region.span.start = ("<redacted:" ++ region.category ++ ">").toList)
    (hcovers : ∀ point, size before ≤ point → sensitive point →
      Covers (regions.map SensitiveRegion.span) point) :
    ∃ final shown redactions,
      regions.foldlM (emitRegion source) emitted = .ok final ∧
      slice source final.cursor selected.endByte = (.ok shown : Assist (List Char)) ∧
      final.output ++ shown =
        emitted.output ++ reveal selected sensitive placeholder (size before) rest ∧
      final.redactions = emitted.redactions ++ redactions ∧
      List.Forall₂ (Tells source) regions redactions := by
  induction regions generalizing emitted before rest with
  | nil =>
    rw [hsource] at hend
    obtain ⟨shown, after, hrest, hstop⟩ := split_rest hend hhigh
    have hslice : slice source emitted.cursor selected.endByte =
        (.ok shown : Assist (List Char)) := by
      rw [hcursor, hstop, hsource, hrest, ← List.append_assoc]
      exact slice_append before shown after
    refine ⟨emitted, shown, [], rfl, hslice, ?_, (List.append_nil _).symm, List.Forall₂.nil⟩
    have hplain : ∀ point, size before ≤ point → point < size before + size shown →
        ¬ sensitive point := by
      intro point hpoint _ hsensitive
      obtain ⟨span, hspan, -⟩ := hcovers point hpoint hsensitive
      cases hspan
    have hafter := @reveal_outside selected sensitive placeholder after
      (size before + size shown) (Or.inl (by omega)) []
    rw [List.append_nil] at hafter
    rw [hrest, reveal_plain hlow (by omega) hplain, hafter, reveal, List.append_nil]
  | cons region regions ih =>
    obtain ⟨hfirst, hlast, hcursorLe, hinside, hrun, hplaceholder⟩ :=
      hregions region List.mem_cons_self
    have hnonempty := hrun.nonempty
    rw [hsource] at hfirst hlast
    obtain ⟨gap, after, hrest, hstart⟩ := split_rest hfirst hcursorLe
    rw [hrest, ← List.append_assoc] at hlast
    obtain ⟨run, later, hafter, hstop⟩ := split_rest hlast (by
      rw [size_append]
      omega)
    rw [size_append] at hstop
    have hwhole : source = before ++ gap ++ run ++ later := by
      rw [hsource, hrest, hafter]
      simp only [List.append_assoc]
    obtain ⟨redaction, htells, hemit⟩ := emitRegion_eq hwhole hcursor hstart hstop
    have hsize : size (before ++ gap ++ run) = region.span.stop := by
      rw [size_append, size_append, hstop]
    have hbefore := (List.pairwise_cons.mp hseparated.apart).1
    have hlater : ∀ other ∈ regions, region.span.stop < other.span.start :=
      fun other hother => hbefore other.span (List.mem_map_of_mem hother)
    obtain ⟨final, shown, redactions, hfold, hslice, houtput, hredactions, hmatch⟩ :=
      @ih ⟨region.span.stop,
        emitted.output ++ gap ++ ("<redacted:" ++ region.category ++ ">").toList,
        emitted.redactions ++ [redaction]⟩ (before ++ gap ++ run) later hwhole hsize.symm
        (by omega) (by omega) hseparated.tail
        (fun other hother => by
          obtain ⟨hfirst, hlast, -, hinside, hrun, hplaceholder⟩ :=
            hregions other (List.mem_cons_of_mem _ hother)
          have hlt := hlater other hother
          exact ⟨hfirst, hlast, by omega, hinside, hrun, hplaceholder⟩)
        (fun point hpoint hsensitive => by
          rcases covers_cons.mp (hcovers point (by omega) hsensitive) with hcontains | hmore
          · unfold Intervals.Span.Contains at hcontains
            omega
          · exact hmore)
    have hgap : ∀ point, size before ≤ point → point < size before + size gap →
        ¬ sensitive point := by
      intro point hlowPoint hhighPoint hsensitive
      rcases covers_cons.mp (hcovers point hlowPoint hsensitive) with hcontains | hmore
      · unfold Intervals.Span.Contains at hcontains
        omega
      · obtain ⟨span, hspan, hcontains⟩ := hmore
        obtain ⟨other, hother, rfl⟩ := List.mem_map.mp hspan
        have hlt := hlater other hother
        unfold Intervals.Span.Contains at hcontains
        omega
    have hspan : region.span = ⟨size before + size gap, size before + size gap + size run⟩ :=
      Intervals.Span.ext hstart hstop
    have hne : run ≠ [] := by
      rintro rfl
      rw [size_nil] at hstop
      omega
    refine ⟨final, shown, redaction :: redactions, ?_, hslice, ?_, ?_,
      List.Forall₂.cons htells hmatch⟩
    · rw [List.foldlM_cons, hemit]
      exact hfold
    · rw [houtput, hsize, hrest, hafter, reveal_plain hlow (by omega) hgap,
        reveal_run hne (by omega) (by omega) (hspan ▸ hrun), ← hstart, hplaceholder, hstart, hstop]
      simp only [List.append_assoc]
    · rw [hredactions, List.append_assoc]
      rfl

/-! ## The redacted slice -/

/-- What stands for the run that begins at a byte. -/
def placeholderAt (redactions : List ContextRedaction) (byte : ℕ) : List Char :=
  match redactions.find? fun redaction => redaction.range.startByte == byte with
  | some redaction => redaction.replacement.toList
  | none => []

/-- What stands for a region that begins at a byte. -/
def placeholderOf (regions : List SensitiveRegion) (byte : ℕ) : List Char :=
  match regions.find? fun region => region.span.start == byte with
  | some region => ("<redacted:" ++ region.category ++ ">").toList
  | none => []

theorem placeholderAt_eq {source : List Char} {regions : List SensitiveRegion}
    {redactions : List ContextRedaction}
    (hmatch : List.Forall₂ (Tells source) regions redactions) (byte : ℕ) :
    placeholderAt redactions byte = placeholderOf regions byte := by
  induction hmatch with
  | nil => rfl
  | @cons region redaction regions redactions htells _ ih =>
    unfold placeholderAt placeholderOf at ih ⊢
    rw [List.find?_cons, List.find?_cons, htells.startByte]
    cases hstart : region.span.start == byte with
    | true => exact congrArg String.toList htells.replacement
    | false => exact ih

theorem placeholderOf_mem {regions : List SensitiveRegion}
    (hseparated : Separated (regions.map SensitiveRegion.span)) {region : SensitiveRegion}
    (hregion : region ∈ regions) :
    placeholderOf regions region.span.start = ("<redacted:" ++ region.category ++ ">").toList := by
  induction regions with
  | nil => cases hregion
  | cons first regions ih =>
    unfold placeholderOf at ih ⊢
    rw [List.find?_cons]
    rcases List.mem_cons.mp hregion with heq | hmem
    · rw [heq, beq_self_eq_true]
    · have hfirst := hseparated.nonempty first.span List.mem_cons_self
      have hapart := (List.pairwise_cons.mp hseparated.apart).1 region.span
        (List.mem_map_of_mem hmem)
      have hne : (first.span.start == region.span.start) = false := by
        rw [beq_eq_false_iff_ne]
        omega
      rw [hne]
      exact ih hseparated.tail hmem

theorem clampRegion_eq_some {selected : TextRange} {region clamped : SensitiveRegion} :
    clampRegion selected region = some clamped ↔
      clamped = ⟨⟨max region.span.start selected.startByte,
        min region.span.stop selected.endByte⟩, region.category⟩ ∧
      max region.span.start selected.startByte < min region.span.stop selected.endByte := by
  unfold clampRegion
  dsimp only
  split
  · rename_i hlt
    rw [Option.some.injEq, eq_comm, and_iff_left hlt]
  · rename_i hnot
    exact ⟨fun heq => (by cases heq), fun h => absurd h.2 hnot⟩

/-- The cut regions cover the sensitive bytes of the selection. -/
theorem covers_clampRegion {regions : List SensitiveRegion} {selected : TextRange} (point : ℕ) :
    Sensitive regions selected point ↔
      Covers ((regions.filterMap (clampRegion selected)).map SensitiveRegion.span) point := by
  constructor
  · rintro ⟨hlow, hhigh, span, hspan, hcontains⟩
    obtain ⟨region, hregion, rfl⟩ := List.mem_map.mp hspan
    obtain ⟨hfirst, hlast⟩ := hcontains
    refine ⟨_, List.mem_map_of_mem (List.mem_filterMap.mpr ⟨region, hregion,
      clampRegion_eq_some.mpr ⟨rfl, by omega⟩⟩), ?_⟩
    unfold Intervals.Span.Contains
    dsimp only
    omega
  · rintro ⟨span, hspan, hcontains⟩
    obtain ⟨clamped, hclamped, rfl⟩ := List.mem_map.mp hspan
    obtain ⟨region, hregion, hclamp⟩ := List.mem_filterMap.mp hclamped
    obtain ⟨rfl, hlt⟩ := clampRegion_eq_some.mp hclamp
    unfold Intervals.Span.Contains at hcontains
    dsimp only at hcontains
    refine ⟨by omega, by omega, region.span, List.mem_map_of_mem hregion, ?_⟩
    unfold Intervals.Span.Contains
    omega

theorem spans_of_tells {source : List Char} {regions : List SensitiveRegion}
    {redactions : List ContextRedaction}
    (hmatch : List.Forall₂ (Tells source) regions redactions) :
    redactions.map (fun redaction =>
        (⟨redaction.range.startByte, redaction.range.endByte⟩ : Intervals.Span)) =
      regions.map SensitiveRegion.span := by
  induction hmatch with
  | nil => rfl
  | @cons region redaction regions redactions htells _ ih =>
    rw [List.map_cons, List.map_cons, ih, htells.startByte, htells.endByte]

theorem exists_region_of_tells {source : List Char} {regions : List SensitiveRegion}
    {redactions : List ContextRedaction}
    (hmatch : List.Forall₂ (Tells source) regions redactions) {redaction : ContextRedaction}
    (hredaction : redaction ∈ redactions) : ∃ region ∈ regions, Tells source region redaction := by
  induction hmatch with
  | nil => cases hredaction
  | @cons region first regions redactions htells _ ih =>
    rcases List.mem_cons.mp hredaction with heq | hmem
    · rw [heq]
      exact ⟨region, List.mem_cons_self, htells⟩
    · obtain ⟨other, hother, hothers⟩ := ih hmem
      exact ⟨other, List.mem_cons_of_mem _ hother, hothers⟩

/-- The slice shows exactly the bytes of the selection outside the regions, in order, with a
placeholder for each maximal run of them, and the redactions are these runs. -/
theorem redact_slice_exact (sensitiveLiteralSpans : List Char → List SensitiveRegion)
    (source : List Char) (selected : TextRange)
    (hregions : ∀ region ∈ sensitiveLiteralSpans source,
      isBoundary source region.span.start = true ∧ isBoundary source region.span.stop = true)
    (hstart : isBoundary source selected.startByte = true)
    (hend : isBoundary source selected.endByte = true)
    (hle : selected.startByte ≤ selected.endByte) :
    ∃ output redactions,
      redactSlice sensitiveLiteralSpans source selected = .ok (output, redactions) ∧
      output = reveal selected (Sensitive (sensitiveLiteralSpans source) selected)
        (placeholderAt redactions) 0 source ∧
      redactions.Pairwise (fun first second => first.range.endByte < second.range.startByte) ∧
      (∀ span : Intervals.Span, (∃ redaction ∈ redactions, redaction.range.startByte = span.start ∧
          redaction.range.endByte = span.stop) ↔
        IsRun (Sensitive (sensitiveLiteralSpans source) selected) span) ∧
      ∀ redaction ∈ redactions,
        IsPosition source redaction.range.startByte redaction.range.start ∧
        IsPosition source redaction.range.endByte redaction.range.stop ∧
        redaction.replacement = "<redacted:" ++ redaction.category ++ ">" ∧
        ∃ region ∈ sensitiveLiteralSpans source, region.category = redaction.category := by
  have hclamped : ∀ region ∈ (sensitiveLiteralSpans source).filterMap (clampRegion selected),
      region.span.start < region.span.stop ∧ (isBoundary source region.span.start = true ∧
        selected.startByte ≤ region.span.start) ∧ isBoundary source region.span.stop = true ∧
        region.span.stop ≤ selected.endByte ∧
        ∃ original ∈ sensitiveLiteralSpans source, original.category = region.category := by
    intro clamped hmem
    obtain ⟨region, hregion, hclamp⟩ := List.mem_filterMap.mp hmem
    obtain ⟨rfl, hlt⟩ := clampRegion_eq_some.mp hclamp
    obtain ⟨hfirst, hlast⟩ := hregions region hregion
    refine ⟨hlt, ⟨?_, le_max_right _ _⟩, ?_, min_le_right _ _, region, hregion, rfl⟩
    · rcases max_choice region.span.start selected.startByte with h | h
      · dsimp only
        rw [h]
        exact hfirst
      · dsimp only
        rw [h]
        exact hstart
    · rcases min_choice region.span.stop selected.endByte with h | h
      · dsimp only
        rw [h]
        exact hlast
      · dsimp only
        rw [h]
        exact hend
  obtain ⟨hseparated, hcovers⟩ := mergeSensitiveIntervals_spans fun region hregion =>
    (hclamped region hregion).1
  have hsensitive : ∀ point, Sensitive (sensitiveLiteralSpans source) selected point ↔
      Covers ((mergeSensitiveIntervals ((sensitiveLiteralSpans source).filterMap
        (clampRegion selected))).map SensitiveRegion.span) point := fun point =>
    (covers_clampRegion point).trans (hcovers point).symm
  have hruns := hseparated.mem_iff_isRun hsensitive
  have hends := @mergeSensitiveIntervals_endpoints _ (fun byte => isBoundary source byte = true)
    fun region hregion =>
      ⟨(hclamped region hregion).2.1.1, (hclamped region hregion).2.2.1⟩
  obtain ⟨before, rest, hsource, hsize⟩ := isBoundary_iff.mp hstart
  obtain ⟨final, shown, redactions, hfold, hslice, houtput, hredactions, hmatch⟩ :=
    @emit_regions source selected (Sensitive (sensitiveLiteralSpans source) selected)
      (placeholderOf (mergeSensitiveIntervals ((sensitiveLiteralSpans source).filterMap
        (clampRegion selected)))) hend _ ⟨selected.startByte, [], []⟩ before rest hsource hsize
      (le_of_eq hsize) (hsize ▸ hle) hseparated
      (fun region hregion => by
        obtain ⟨hfirst, hlast⟩ := hends region hregion
        have hrun := (hruns region.span).mp (List.mem_map_of_mem hregion)
        have hnonempty := hrun.nonempty
        have hlow := (hrun.inside region.span.start ⟨le_refl _, hnonempty⟩).1
        have hhigh := (hrun.inside (region.span.stop - 1) ⟨by omega, by omega⟩).2.1
        exact ⟨hfirst, hlast, hsize ▸ hlow, by omega, hrun, placeholderOf_mem hseparated hregion⟩)
      fun point _ hpoint => (hsensitive point).mp hpoint
  have hresult : redactSlice sensitiveLiteralSpans source selected =
      .ok (final.output ++ shown, final.redactions) := by
    unfold redactSlice
    simp only [hfold, hslice, bind, Except.bind]
  have hspans := spans_of_tells hmatch
  rw [List.nil_append] at hredactions
  rw [hredactions] at hresult
  refine ⟨final.output ++ shown, redactions, hresult, ?_, ?_, ?_, ?_⟩
  · have hplaceholder : placeholderAt redactions = placeholderOf (mergeSensitiveIntervals
        ((sensitiveLiteralSpans source).filterMap (clampRegion selected))) :=
      funext (placeholderAt_eq hmatch)
    have hbefore := @reveal_outside selected
      (Sensitive (sensitiveLiteralSpans source) selected) (placeholderAt redactions) before 0
      (Or.inr (by omega)) rest
    rw [Nat.zero_add] at hbefore
    rw [houtput, List.nil_append, ← hplaceholder, ← hbefore, ← hsource]
  · have hpairwise := hseparated.apart
    rw [← hspans, List.pairwise_map] at hpairwise
    exact hpairwise
  · intro span
    rw [← hruns, ← hspans, List.mem_map]
    constructor
    · rintro ⟨redaction, hredaction, hfirst, hlast⟩
      exact ⟨redaction, hredaction, Intervals.Span.ext hfirst hlast⟩
    · rintro ⟨redaction, hredaction, rfl⟩
      exact ⟨redaction, hredaction, rfl, rfl⟩
  · intro redaction hredaction
    obtain ⟨region, hregion, htells⟩ := exists_region_of_tells hmatch hredaction
    obtain ⟨clamped, hclampedMem, hcategory⟩ := mem_mergeSensitiveIntervals hregion
    obtain ⟨-, -, -, -, original, horiginal, hsame⟩ := hclamped clamped hclampedMem
    rw [htells.startByte, htells.endByte, htells.category]
    exact ⟨htells.start, htells.stop, htells.replacement, original, horiginal,
      hsame.trans hcategory⟩

/-- Two touching regions and one inside them, in a selection that cuts the first. -/
theorem redact_slice_exact_sample :
    ∃ output redactions,
      redactSlice (fun _ => [⟨⟨3, 4⟩, "cache-key"⟩, ⟨⟨0, 3⟩, "secret-like"⟩, ⟨⟨1, 2⟩, "cache-key"⟩])
        ['a', 'b', 'c', 'd', 'e'] ⟨1, 5, ⟨0, 1⟩, ⟨0, 5⟩⟩ = .ok (output, redactions) ∧
      IsRun (Sensitive [⟨⟨3, 4⟩, "cache-key"⟩, ⟨⟨0, 3⟩, "secret-like"⟩, ⟨⟨1, 2⟩, "cache-key"⟩]
        ⟨1, 5, ⟨0, 1⟩, ⟨0, 5⟩⟩) ⟨1, 4⟩ ∧
      ∃ redaction ∈ redactions, redaction.range.startByte = 1 ∧ redaction.range.endByte = 4 := by
  obtain ⟨output, redactions, hredact, -, -, hruns, -⟩ := redact_slice_exact
    (fun _ => [⟨⟨3, 4⟩, "cache-key"⟩, ⟨⟨0, 3⟩, "secret-like"⟩, ⟨⟨1, 2⟩, "cache-key"⟩])
    ['a', 'b', 'c', 'd', 'e'] ⟨1, 5, ⟨0, 1⟩, ⟨0, 5⟩⟩ (by decide) (by decide) (by decide) (by decide)
  have hrun : IsRun (Sensitive [⟨⟨3, 4⟩, "cache-key"⟩, ⟨⟨0, 3⟩, "secret-like"⟩,
      ⟨⟨1, 2⟩, "cache-key"⟩] ⟨1, 5, ⟨0, 1⟩, ⟨0, 5⟩⟩) ⟨1, 4⟩ := by
    refine ⟨by decide, fun point hpoint => ?_, fun point hpoint => ?_, ?_⟩
    · unfold Intervals.Span.Contains at hpoint
      unfold Sensitive Covers Intervals.Span.Contains
      dsimp only at hpoint ⊢
      simp
      omega
    · unfold Sensitive
      dsimp only at hpoint ⊢
      omega
    · rintro ⟨-, -, span, hspan, hcontains⟩
      unfold Intervals.Span.Contains at hcontains
      simp only [List.map_cons, List.map_nil, List.mem_cons, List.not_mem_nil, or_false] at hspan
      rcases hspan with rfl | rfl | rfl <;> dsimp only at hcontains <;> omega
  exact ⟨output, redactions, hredact, hrun, (hruns ⟨1, 4⟩).mpr hrun⟩

end Krit
