import Mathlib.Tactic

/-!
# Intervals of numbers and their maximal runs

Half-open intervals, the numbers they cover, and the maximal runs of covered numbers.
Intervals that come in the order of their starts are merged from left to right; what
results are the maximal runs.
-/

namespace Intervals

@[ext] structure Span where
  start : ℕ
  stop : ℕ
  deriving DecidableEq, Repr

namespace Span

def Contains (span : Span) (point : ℕ) : Prop := span.start ≤ point ∧ point < span.stop

end Span

/-- A point in one of the intervals. -/
def Covers (spans : List Span) (point : ℕ) : Prop := ∃ span ∈ spans, span.Contains point

theorem covers_cons {span : Span} {spans : List Span} {point : ℕ} :
    Covers (span :: spans) point ↔ span.Contains point ∨ Covers spans point := by
  unfold Covers
  rw [List.exists_mem_cons_iff]

/-- A maximal run of the points with a property. -/
structure IsRun (covered : ℕ → Prop) (span : Span) : Prop where
  nonempty : span.start < span.stop
  inside : ∀ point, span.Contains point → covered point
  before : ∀ point, point + 1 = span.start → ¬ covered point
  after : ¬ covered span.stop

/-- Intervals in order, with a gap between every two of them. -/
structure Separated (spans : List Span) : Prop where
  nonempty : ∀ span ∈ spans, span.start < span.stop
  apart : spans.Pairwise fun first second => first.stop < second.start

namespace Separated

theorem nil : Separated [] := ⟨fun _ hmem => (by cases hmem), List.Pairwise.nil⟩

theorem tail {span : Span} {spans : List Span} (hseparated : Separated (span :: spans)) :
    Separated spans :=
  ⟨fun other hother => hseparated.nonempty other (List.mem_cons_of_mem _ hother),
    hseparated.apart.of_cons⟩

/-- Two intervals are the same or have a gap between them. -/
theorem eq_or_apart {spans : List Span} (hseparated : Separated spans) {first second : Span}
    (hfirst : first ∈ spans) (hsecond : second ∈ spans) :
    first = second ∨ first.stop < second.start ∨ second.stop < first.start := by
  induction spans with
  | nil => cases hfirst
  | cons span spans ih =>
    have hapart := List.pairwise_cons.mp hseparated.apart
    rcases List.mem_cons.mp hfirst with hfirst | hfirst
    · rcases List.mem_cons.mp hsecond with hsecond | hsecond
      · exact Or.inl (hfirst.trans hsecond.symm)
      · rw [hfirst]
        exact Or.inr (Or.inl (hapart.1 second hsecond))
    · rcases List.mem_cons.mp hsecond with hsecond | hsecond
      · rw [hsecond]
        exact Or.inr (Or.inr (hapart.1 first hfirst))
      · exact ih hseparated.tail hfirst hsecond

/-- Separated intervals are exactly the maximal runs of what they cover. -/
theorem mem_iff_isRun {spans : List Span} (hseparated : Separated spans) {covered : ℕ → Prop}
    (hcovered : ∀ point, covered point ↔ Covers spans point) (span : Span) :
    span ∈ spans ↔ IsRun covered span := by
  constructor
  · intro hspan
    have hlt := hseparated.nonempty span hspan
    refine ⟨hlt, fun point hpoint => (hcovered point).mpr ⟨span, hspan, hpoint⟩, ?_, ?_⟩
    · intro point hpoint hcover
      obtain ⟨other, hother, hcontains⟩ := (hcovered point).mp hcover
      unfold Span.Contains at hcontains
      rcases hseparated.eq_or_apart hspan hother with heq | hapart | hapart
      · rw [heq] at hpoint
        omega
      · omega
      · omega
    · intro hcover
      obtain ⟨other, hother, hcontains⟩ := (hcovered _).mp hcover
      unfold Span.Contains at hcontains
      rcases hseparated.eq_or_apart hspan hother with heq | hapart | hapart
      · rw [heq] at hcontains
        omega
      · omega
      · omega
  · intro hrun
    have hstart : span.Contains span.start := ⟨le_refl _, hrun.nonempty⟩
    obtain ⟨other, hother, hcontains⟩ := (hcovered _).mp (hrun.inside _ hstart)
    obtain ⟨hlow, hhigh⟩ := hcontains
    -- Neither end of the run can be inside the interval that covers its start.
    have hsameStart : other.start = span.start := by
      by_contra hne
      obtain ⟨point, hpoint⟩ : ∃ point, point + 1 = span.start := ⟨span.start - 1, by omega⟩
      exact hrun.before point hpoint
        ((hcovered point).mpr ⟨other, hother, by unfold Span.Contains; omega⟩)
    have hstop : ¬ other.stop < span.stop := by
      intro hlt
      have hcover := (hcovered _).mp (hrun.inside other.stop (by unfold Span.Contains; omega))
      obtain ⟨next, hnext, hcontains⟩ := hcover
      unfold Span.Contains at hcontains
      have hnonempty := hseparated.nonempty next hnext
      rcases hseparated.eq_or_apart hother hnext with heq | hapart | hapart
      · rw [heq] at hcontains
        omega
      · omega
      · omega
    have hnotLonger : ¬ span.stop < other.stop := by
      intro hlt
      have hnonempty := hrun.nonempty
      exact hrun.after ((hcovered _).mpr ⟨other, hother, by unfold Span.Contains; omega⟩)
    have hsame : other = span := Span.ext hsameStart (by omega)
    rw [← hsame]
    exact hother

end Separated

/-! ## Merging -/

/-- Takes an interval into merged ones, of which the last comes first. -/
def absorb : List Span → Span → List Span
  | [], span => [span]
  | last :: merged, span =>
      if span.start ≤ last.stop then ⟨last.start, max last.stop span.stop⟩ :: merged
      else span :: last :: merged

/-- The merged intervals are separated, and the last starts at the given point at most. -/
structure Merged (merged : List Span) (start : ℕ) : Prop where
  separated : Separated merged.reverse
  sorted : ∀ last ∈ merged.head?, last.start ≤ start

theorem Merged.nil (start : ℕ) : Merged [] start :=
  ⟨Separated.nil, fun _ hlast => (by cases hlast)⟩

theorem covers_absorb {merged : List Span} {span : Span} (hmerged : Merged merged span.start)
    (point : ℕ) :
    Covers (absorb merged span) point ↔ Covers merged point ∨ span.Contains point := by
  cases merged with
  | nil =>
    rw [absorb, covers_cons, or_comm]
  | cons last merged =>
    have hstart := hmerged.sorted last rfl
    rw [absorb]
    split
    · rename_i htouch
      rw [covers_cons, covers_cons, or_right_comm]
      refine or_congr_left ?_
      unfold Span.Contains
      dsimp only
      omega
    · rw [covers_cons, or_comm]

theorem Merged.absorb {merged : List Span} {span : Span} (hmerged : Merged merged span.start)
    (hspan : span.start < span.stop) {next : ℕ} (hnext : span.start ≤ next) :
    Merged (absorb merged span) next := by
  cases merged with
  | nil =>
    refine ⟨⟨fun other hother => ?_, List.pairwise_singleton _ _⟩, fun last hlast => ?_⟩
    · rw [List.mem_singleton.mp hother]
      exact hspan
    · rw [← Option.some.inj hlast]
      exact hnext
  | cons last merged =>
    have hstart := hmerged.sorted last rfl
    have hreversed := hmerged.separated
    rw [List.reverse_cons] at hreversed
    have hlast := hreversed.nonempty last (List.mem_append_right _ (List.mem_singleton_self _))
    obtain ⟨hbefore, -, hapart⟩ := List.pairwise_append.mp hreversed.apart
    rw [Intervals.absorb]
    split
    · refine ⟨⟨?_, ?_⟩, fun found hfound => ?_⟩
      · rw [List.reverse_cons]
        intro other hother
        rcases List.mem_append.mp hother with hother | hother
        · exact hreversed.nonempty other (List.mem_append_left _ hother)
        · rw [List.mem_singleton.mp hother]
          dsimp only
          omega
      · rw [List.reverse_cons, List.pairwise_append]
        refine ⟨hbefore, List.pairwise_singleton _ _, fun first hfirst second hsecond => ?_⟩
        rw [List.mem_singleton.mp hsecond]
        exact hapart first hfirst last (List.mem_singleton_self _)
      · rw [← Option.some.inj hfound]
        exact le_trans hstart hnext
    · rename_i hgap
      refine ⟨⟨?_, ?_⟩, fun found hfound => ?_⟩
      · rw [List.reverse_cons, List.reverse_cons]
        intro other hother
        rcases List.mem_append.mp hother with hother | hother
        · exact hreversed.nonempty other hother
        · rw [List.mem_singleton.mp hother]
          exact hspan
      · rw [List.reverse_cons, List.reverse_cons, List.pairwise_append]
        refine ⟨hreversed.apart, List.pairwise_singleton _ _, fun first hfirst second hsecond => ?_⟩
        rw [List.mem_singleton.mp hsecond]
        rcases List.mem_append.mp hfirst with hfirst | hfirst
        · have hlt := hapart first hfirst last (List.mem_singleton_self _)
          omega
        · rw [List.mem_singleton.mp hfirst]
          omega
      · rw [← Option.some.inj hfound]
        exact hnext

/-- Intervals in the order of their starts are merged to separated ones that cover the same
points. -/
theorem foldl_absorb {spans merged : List Span} {start : ℕ} (hmerged : Merged merged start)
    (hnonempty : ∀ span ∈ spans, span.start < span.stop)
    (hsorted : spans.Pairwise fun first second => first.start ≤ second.start)
    (hstart : ∀ span ∈ spans, start ≤ span.start) :
    Separated (spans.foldl absorb merged).reverse ∧
      ∀ point, Covers (spans.foldl absorb merged).reverse point ↔
        Covers merged point ∨ Covers spans point := by
  induction spans generalizing merged start with
  | nil =>
    refine ⟨hmerged.separated, fun point => ?_⟩
    have hreverse : Covers merged.reverse point ↔ Covers merged point := by
      unfold Covers
      simp only [List.mem_reverse]
    rw [List.foldl_nil, hreverse]
    simp [Covers]
  | cons span spans ih =>
    obtain ⟨hfirst, hrest⟩ := List.pairwise_cons.mp hsorted
    have hhere : Merged merged span.start :=
      ⟨hmerged.separated, fun last hlast =>
        le_trans (hmerged.sorted last hlast) (hstart span List.mem_cons_self)⟩
    have hnext := hhere.absorb (hnonempty span List.mem_cons_self) (le_refl _)
    obtain ⟨hseparated, hcovers⟩ := ih hnext
      (fun other hother => hnonempty other (List.mem_cons_of_mem _ hother)) hrest hfirst
    refine ⟨hseparated, fun point => ?_⟩
    rw [List.foldl_cons, hcovers, covers_absorb hhere, covers_cons, or_assoc]

end Intervals
