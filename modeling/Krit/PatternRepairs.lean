import Krit.Matching

/-!
# Repair notes of the match checks

The paths that `missing` lists are exactly what the given paths leave over, so the arms
that a note asks for repair the match; and the remainder that is listed for an overlapping
arm is what the narrower arms leave over of it.
-/

namespace Krit

open Std PathCover

/-! ## Missing paths -/

theorem mem_missing_iff_gap {paths : List (List Constructor)}
    (hconsistent : Consistent Constructor.family paths) (candidate : List Constructor) :
    candidate ∈ missing paths ↔ Gap Constructor.family paths candidate :=
  mem_missing_iff hconsistent candidate

theorem Family.nodup_constructors (family : Family) : family.constructors.Nodup := by
  cases family <;> decide

/-- No path is listed twice. -/
theorem nodup_missing (paths : List (List Constructor)) : (missing paths).Nodup := by
  unfold missing
  rw [List.Perm.nodup_iff (List.mergeSort_perm _ _), List.nodup_flatMap]
  constructor
  · intro entry _
    refine List.Nodup.filter _ (List.Nodup.map ?_ entry.2.nodup_constructors)
    intro first second hsame
    exact List.singleton_inj.mp (List.append_cancel_left hsame)
  · have hkeys : (continuations paths).prefixes.toList.Pairwise
        fun left right => compare left.1 right.1 = .lt := TreeMap.ordered_keys_toList
    refine hkeys.imp ?_
    intro left right hless candidate hleft hright
    obtain ⟨first, -, hfirst⟩ := List.mem_map.mp (List.mem_filter.mp hleft).1
    obtain ⟨second, -, hsecond⟩ := List.mem_map.mp (List.mem_filter.mp hright).1
    have hkey : left.1 = right.1 := (List.append_inj' (hfirst.trans hsecond.symm) rfl).1
    rw [hkey, ReflOrd.compare_self] at hless
    cases hless

/-- The given paths and the missing ones partition the values. -/
theorem matching_append_missing {paths : List (List Constructor)} (hne : paths ≠ [])
    (hconsistent : Consistent Constructor.family paths) (hdisjoint : PathCover.Disjoint paths)
    {spine : List Constructor} (hconforms : Conforms Constructor.family paths spine) :
    matching (paths ++ missing paths) spine = 1 :=
  matching_append_gaps hne hdisjoint (nodup_missing paths) (mem_missing_iff_gap hconsistent)
    hconforms

/-! ## Arms for missing paths -/

/-- The pattern that requires a path and matches everything below it. -/
def patternOf (span : Span) : List Constructor → Pattern
  | [] => ⟨.wildcard, span⟩
  | .empty :: _ => ⟨.emptyList, span⟩
  | .cons :: _ => ⟨.cons ⟨.wildcard, span⟩ ⟨.wildcard, span⟩, span⟩
  | .none :: _ => ⟨.variant .none none, span⟩
  | .some :: rest => ⟨.variant .some (some (patternOf span rest)), span⟩
  | .ok :: rest => ⟨.variant .ok (some (patternOf span rest)), span⟩
  | .err :: rest => ⟨.variant .err (some (patternOf span rest)), span⟩

theorem Spinal.tail {constructor : Constructor} {rest : List Constructor}
    (hspinal : Spinal (constructor :: rest)) : Spinal rest := by
  intro other hother
  apply hspinal
  cases rest with
  | nil => cases hother
  | cons next more =>
    rw [List.dropLast_cons_cons]
    exact List.mem_cons_of_mem _ hother

theorem Spinal.last {constructor : Constructor} {rest : List Constructor}
    (hspinal : Spinal (constructor :: rest)) (hcarries : constructor.carries = false) :
    rest = [] := by
  cases rest with
  | nil => rfl
  | cons next more =>
    have hmem : constructor ∈ (constructor :: next :: more).dropLast := by simp
    rw [hspinal constructor hmem] at hcarries
    cases hcarries

theorem path_patternOf {own : List Constructor} (hspinal : Spinal own) (span : Span) :
    ∃ steps, path (patternOf span own) = .ok steps ∧ constructors steps = own := by
  induction own with
  | nil => exact ⟨[], rfl, rfl⟩
  | cons constructor rest ih =>
    obtain ⟨steps, hsteps, hrest⟩ := ih hspinal.tail
    cases constructor with
    | empty =>
      rw [hspinal.last rfl]
      exact ⟨[⟨.empty, span⟩], rfl, rfl⟩
    | cons =>
      rw [hspinal.last rfl]
      exact ⟨[⟨.cons, span⟩], rfl, rfl⟩
    | none =>
      rw [hspinal.last rfl]
      exact ⟨[⟨.none, span⟩], rfl, rfl⟩
    | some =>
      refine ⟨⟨.some, span⟩ :: steps, ?_, by rw [← hrest]; rfl⟩
      simp [patternOf, path, hsteps, Except.map, Constructor.fromVariant]
    | ok =>
      refine ⟨⟨.ok, span⟩ :: steps, ?_, by rw [← hrest]; rfl⟩
      simp [patternOf, path, hsteps, Except.map, Constructor.fromVariant]
    | err =>
      refine ⟨⟨.err, span⟩ :: steps, ?_, by rw [← hrest]; rfl⟩
      simp [patternOf, path, hsteps, Except.map, Constructor.fromVariant]

/-- A missing path leaves a path of the match at its last constructor. -/
theorem spinal_of_gap {paths : List (List Constructor)} (hspinal : ∀ path ∈ paths, Spinal path)
    {candidate : List Constructor} (hgap : Gap Constructor.family paths candidate) :
    Spinal candidate := by
  obtain ⟨position, constructor, rfl, ⟨path, hpath, other, hother, -⟩, -⟩ := hgap
  exact (hspinal path hpath).next hother

/-- One arm for each missing path. -/
theorem exists_missing_arms {arms : List MatchArm} (hparsed : ParsedArms arms)
    (hconsistent : Consistent Constructor.family (arms.map armPath)) (value : Expression)
    (span : Span) :
    ∃ added : List MatchArm,
      (∀ arm ∈ added, arm.value = value ∧ ∃ steps, path arm.pattern = .ok steps) ∧
        added.map armPath = missing (arms.map armPath) := by
  have hspinal : ∀ path ∈ arms.map armPath, Spinal path := by
    intro path hpath
    obtain ⟨arm, harm, rfl⟩ := List.mem_map.mp hpath
    exact (hparsed.armPath harm).2.1
  have hmissing : ∀ own ∈ missing (arms.map armPath), Spinal own := by
    intro own hown
    exact spinal_of_gap hspinal ((mem_missing_iff_gap hconsistent own).mp hown)
  refine ⟨(missing (arms.map armPath)).map fun own => ⟨patternOf span own, value, span⟩, ?_, ?_⟩
  · intro arm harm
    obtain ⟨own, hown, rfl⟩ := List.mem_map.mp harm
    obtain ⟨steps, hsteps, -⟩ := path_patternOf (hmissing own hown) span
    exact ⟨rfl, steps, hsteps⟩
  · rw [List.map_map]
    conv_rhs => rw [← List.map_id (missing (arms.map armPath))]
    refine List.map_congr_left ?_
    intro own hown
    obtain ⟨steps, hsteps, hconstructors⟩ := path_patternOf (hmissing own hown) span
    rw [Function.comp_apply, armPath, hsteps]
    exact hconstructors

/-- A pattern of the empty path matches every value. -/
theorem path_ne_nil_of_not_catchAll {pattern : Pattern} {steps : List Step}
    (hpath : path pattern = .ok steps) (hsteps : steps ≠ []) : pattern.isCatchAll = false := by
  obtain ⟨kind, span⟩ := pattern
  cases kind with
  | binder name =>
    rw [path] at hpath
    cases hpath
    exact absurd rfl hsteps
  | wildcard =>
    rw [path] at hpath
    cases hpath
    exact absurd rfl hsteps
  | _ => rfl

/-- The match with an arm for each missing path passes both checks, in any order. -/
theorem accepted_append_missing {arms added all : List MatchArm} (hparsed : ParsedArms arms)
    (hcatchAll : ∀ arm ∈ arms, arm.pattern.isCatchAll = false)
    (hconsistent : Consistent Constructor.family (arms.map armPath))
    (hdisjoint : PathCover.Disjoint (arms.map armPath))
    (hadded : ∀ arm ∈ added, ∃ steps, path arm.pattern = .ok steps)
    (hmissing : (added.map armPath).Perm (missing (arms.map armPath)))
    (hall : all.Perm (arms ++ added)) (subject : Option Family) (span : Span) :
    Accepted all subject span := by
  have hgaps : ∀ candidate, candidate ∈ added.map armPath ↔
      Gap Constructor.family (arms.map armPath) candidate := by
    intro candidate
    rw [hmissing.mem_iff, mem_missing_iff_gap hconsistent]
  have hgap : ∀ gap ∈ added.map armPath, Gap Constructor.family (arms.map armPath) gap :=
    fun gap => (hgaps gap).mp
  have hnodup : (added.map armPath).Nodup := hmissing.nodup_iff.mpr (nodup_missing _)
  have hpaths : ∀ arm ∈ all, ∃ steps, path arm.pattern = .ok steps := by
    intro arm harm
    rcases List.mem_append.mp (hall.subset harm) with hold | hnew
    · exact hparsed.path arm hold
    · exact hadded arm hnew
  have hmap : (all.map armPath).Perm (arms.map armPath ++ added.map armPath) := by
    rw [← List.map_append]
    exact hall.map armPath
  have hconsistentAll : Consistent Constructor.family (all.map armPath) :=
    (consistent_append_gaps hconsistent (List.Subset.refl _) hgap).subset hmap.subset
  constructor
  · refine (checkArms_eq_ok_iff _ subject hpaths).mpr ⟨?_, hconsistentAll, ?_⟩
    · intro arm harm
      rcases List.mem_append.mp (hall.subset harm) with hold | hnew
      · exact hcatchAll arm hold
      · obtain ⟨steps, hsteps⟩ := hadded arm hnew
        obtain ⟨position, constructor, hown, -⟩ := hgap _ (List.mem_map_of_mem hnew)
        refine path_ne_nil_of_not_catchAll hsteps ?_
        intro hnil
        rw [armPath, hsteps, hnil] at hown
        simp [constructors] at hown
    · refine (hmap.pairwise_iff ?_).mpr (disjoint_append_gaps hdisjoint hnodup hgap)
      intro left right hapart
      exact hapart.symm
  · refine (checkExhaustive_eq_ok_iff span hpaths hconsistentAll).mpr ?_
    intro own hown position constructor hnext other hfamily
    obtain ⟨continued, hcontinued, hbegins⟩ := complete_append_gaps hgaps own
      (hmap.subset hown) position constructor hnext other hfamily
    exact ⟨continued, hmap.symm.subset hcontinued, hbegins⟩

/-! ## Arms that overlap narrower ones -/

/-- The narrower paths are the proper extensions. -/
theorem ArmTable.Describes.mem_narrower {table : ArmTable} {paths : List (List Constructor)}
    (hdescribes : table.Describes paths) {own other : List Constructor} :
    other ∈ (table.narrower own).map Prod.fst ↔ other ∈ paths ∧ own ≠ other ∧ own <+: other := by
  unfold ArmTable.narrower
  simp only [List.mem_map, mem_takeWhile_extensions TreeMap.ordered_keys_toList]
  constructor
  · rintro ⟨⟨found, ending⟩, ⟨hentry, hne, hextends⟩, rfl⟩
    have hget := TreeMap.mem_toList_iff_getElem?_eq_some.mp hentry
    have hmem : found ∈ table.ends := TreeMap.isSome_getElem?_iff_mem.mp (by rw [hget]; rfl)
    exact ⟨(hdescribes.ends found).mp hmem, hne, hextends⟩
  · rintro ⟨hpath, hne, hextends⟩
    have hmem := (hdescribes.ends other).mpr hpath
    obtain ⟨ending, hending⟩ := Option.isSome_iff_exists.mp
      (TreeMap.isSome_getElem?_iff_mem.mpr hmem)
    exact ⟨(other, ending), ⟨TreeMap.mem_toList_iff_getElem?_eq_some.mpr hending, hne, hextends⟩,
      rfl⟩

theorem ArmTable.nodup_narrower (table : ArmTable) (own : List Constructor) :
    ((table.narrower own).map Prod.fst).Nodup := by
  have hkeys : table.ends.toList.Pairwise fun left right => compare left.1 right.1 = .lt :=
    TreeMap.ordered_keys_toList
  have hsublist : (table.narrower own).Sublist table.ends.toList :=
    (List.takeWhile_sublist _).trans List.filter_sublist
  refine List.Pairwise.map _ ?_ (hkeys.sublist hsublist)
  intro left right hless heq
  rw [heq, ReflOrd.compare_self] at hless
  cases hless

section Overlap

variable {earlier : List MatchArm} {arm : MatchArm} {table : ArmTable} {steps : List Step}

/-- What `check_arms` knows when it finds narrower arms: the earlier arms were added, none
of them ends on the path of the arm, and the families agree. -/
structure Overlapping (earlier : List MatchArm) (arm : MatchArm) (table : ArmTable)
    (steps : List Step) : Prop where
  parsed : ParsedArms (earlier ++ [arm])
  added : ArmTable.empty.addArms 0 earlier = .ok table
  named : arm.pattern.isCatchAll = false
  path : path arm.pattern = .ok steps
  depths : ∀ depth ∈ List.range ((constructors steps).length + 1),
    table.checkDepth arm steps depth = .ok ()
  narrower : table.narrower (constructors steps) ≠ []

theorem Overlapping.armPath (hoverlap : Overlapping earlier arm table steps) :
    armPath arm = constructors steps := by
  rw [Krit.armPath, hoverlap.path]

theorem Overlapping.describes (hoverlap : Overlapping earlier arm table steps) :
    table.Describes (namedPaths earlier) ∧
      Consistent Constructor.family (namedPaths earlier ++ [constructors steps]) ∧
      PathCover.Disjoint (namedPaths earlier) ∧
      ∀ other ∈ namedPaths earlier, ¬ other <+: constructors steps := by
  have hempty : Consistent Constructor.family [] := by
    intro left hleft
    cases hleft
  have hpaths : ∀ other ∈ earlier, ∃ steps, Krit.path other.pattern = .ok steps :=
    fun other hother => hoverlap.parsed.path other (List.mem_append_left _ hother)
  obtain ⟨hdescribes, hconsistent, hdisjoint⟩ :=
    ArmTable.empty_describes.of_addArms hempty List.Pairwise.nil hpaths hoverlap.added
  rw [List.nil_append] at hdescribes hconsistent hdisjoint
  obtain ⟨hnone, hfamilies⟩ :=
    (hdescribes.checkDepths_iff hconsistent arm steps).mp hoverlap.depths
  exact ⟨hdescribes, hfamilies, hdisjoint, hnone⟩

/-- The paths of the narrower arms, and what `check_arms` lists as the remainder. -/
def narrowerPaths (table : ArmTable) (own : List Constructor) : List (List Constructor) :=
  (table.narrower own).map Prod.fst

def remainder (table : ArmTable) (own : List Constructor) : List (List Constructor) :=
  (missing (narrowerPaths table own)).filter fun path => own.isPrefixOf path

theorem Overlapping.mem_narrowerPaths (hoverlap : Overlapping earlier arm table steps)
    {other : List Constructor} :
    other ∈ narrowerPaths table (constructors steps) ↔
      other ∈ namedPaths earlier ∧ constructors steps ≠ other ∧ constructors steps <+: other :=
  hoverlap.describes.1.mem_narrower

theorem Overlapping.narrowerPaths_facts (hoverlap : Overlapping earlier arm table steps) :
    narrowerPaths table (constructors steps) ≠ [] ∧
      Consistent Constructor.family (narrowerPaths table (constructors steps)) ∧
      PathCover.Disjoint (narrowerPaths table (constructors steps)) := by
  obtain ⟨-, hconsistent, hdisjoint, -⟩ := hoverlap.describes
  have hsubset : narrowerPaths table (constructors steps) ⊆ namedPaths earlier := by
    intro other hother
    exact (hoverlap.mem_narrowerPaths.mp hother).1
  refine ⟨by simpa [narrowerPaths] using hoverlap.narrower, ?_, ?_⟩
  · exact hconsistent.subset (List.Subset.trans hsubset (List.subset_append_left _ _))
  · refine List.Pairwise.imp_of_mem ?_ (table.nodup_narrower (constructors steps))
    intro left right hleft hright hne
    exact hdisjoint.apart (hsubset hleft) (hsubset hright) hne

/-- The arms before and the arm itself say more than the narrower ones. -/
theorem Overlapping.conforms (hoverlap : Overlapping earlier arm table steps) {value : Value}
    (hvalue : OfFamilies (earlier ++ [arm]) value) :
    Conforms Constructor.family (narrowerPaths table (constructors steps)) value.spine := by
  intro other hother
  obtain ⟨hnamed, -⟩ := hoverlap.mem_narrowerPaths.mp hother
  obtain ⟨before, hbefore, -, hpath⟩ := mem_namedPaths.mp hnamed
  refine hvalue.2 other ?_
  rw [← hpath]
  exact List.mem_map_of_mem (List.mem_append_left _ hbefore)

/-- The narrower paths and the remainder partition the values that the arm matches. -/
theorem Overlapping.partition (hoverlap : Overlapping earlier arm table steps) {value : Value}
    (hvalue : OfFamilies (earlier ++ [arm]) value) (span : Span) (environment : Environment) :
    matching (narrowerPaths table (constructors steps) ++ remainder table (constructors steps))
        value.spine =
      if arm.pattern.matchesValue value span environment then 1 else 0 := by
  obtain ⟨hne, hconsistent, hdisjoint⟩ := hoverlap.narrowerPaths_facts
  have hmatches := (hvalue.matches hoverlap.parsed span environment
    (List.mem_append_right _ (List.mem_singleton_self arm))).2
  rw [hoverlap.armPath] at hmatches
  rw [remainder, matching_remainder hne hdisjoint (nodup_missing _)
    (mem_missing_iff_gap hconsistent)
    (fun other hother => (hoverlap.mem_narrowerPaths.mp hother).2.2) (hoverlap.conforms hvalue)]
  by_cases hbegins : constructors steps <+: value.spine
  · rw [if_pos hbegins, if_pos (hmatches.mpr hbegins)]
  · rw [if_neg hbegins, if_neg (fun htrue => hbegins (hmatches.mp htrue))]

/-- A path of the remainder is a gap of the narrower ones below the arm. -/
theorem Overlapping.gap_of_remainder (hoverlap : Overlapping earlier arm table steps)
    {left : List Constructor} (hleft : left ∈ remainder table (constructors steps)) :
    Gap Constructor.family (narrowerPaths table (constructors steps)) left ∧
      constructors steps <+: left := by
  obtain ⟨-, hconsistent, -⟩ := hoverlap.narrowerPaths_facts
  obtain ⟨hmissing, hown⟩ := List.mem_filter.mp hleft
  exact ⟨(mem_missing_iff_gap hconsistent left).mp hmissing, List.isPrefixOf_iff_prefix.mp hown⟩

/-- No arm up to the overlapping one goes on where a path of the remainder ends. -/
theorem Overlapping.remainder_leaves (hoverlap : Overlapping earlier arm table steps)
    {left : List Constructor} (hleft : left ∈ remainder table (constructors steps))
    {other : List Constructor} (hother : other ∈ namedPaths earlier ++ [constructors steps]) :
    ¬ left <+: other := by
  obtain ⟨hgap, hown⟩ := hoverlap.gap_of_remainder hleft
  obtain ⟨-, -, -, -, hnone⟩ := hgap
  obtain ⟨hne, -, -⟩ := hoverlap.narrowerPaths_facts
  have hself : ¬ left <+: constructors steps := by
    intro hbegins
    obtain ⟨narrow, hnarrow⟩ := List.exists_mem_of_ne_nil _ hne
    exact hnone narrow hnarrow (hbegins.trans (hoverlap.mem_narrowerPaths.mp hnarrow).2.2)
  intro hbegins
  rcases List.mem_append.mp hother with hbefore | hlast
  · by_cases hsame : constructors steps = other
    · exact hself (hsame ▸ hbegins)
    · exact hnone other
        (hoverlap.mem_narrowerPaths.mpr ⟨hbefore, hsame, hown.trans hbegins⟩) hbegins
  · rw [List.mem_singleton] at hlast
    exact hself (hlast ▸ hbegins)

/-- The paths of the arms up to the overlapping one. -/
theorem Overlapping.listed (hoverlap : Overlapping earlier arm table steps)
    {other : List Constructor} (hother : other ∈ (earlier ++ [arm]).map Krit.armPath) :
    other = [] ∨ other ∈ namedPaths earlier ++ [constructors steps] := by
  obtain ⟨member, hmember, rfl⟩ := List.mem_map.mp hother
  rcases List.mem_append.mp hmember with hbefore | hlast
  · by_cases hcatchAll : member.pattern.isCatchAll = true
    · exact .inl ((hoverlap.parsed.armPath hmember).2.2.mpr hcatchAll)
    · refine .inr (List.mem_append_left _ (mem_namedPaths.mpr ⟨member, hbefore, ?_, rfl⟩))
      simpa using hcatchAll
  · rw [List.mem_singleton] at hlast
    rw [hlast, hoverlap.armPath]
    exact .inr (List.mem_append_right _ (List.mem_singleton_self _))

/-- The value with the constructors of a path of the remainder. -/
theorem Overlapping.ofFamilies_remainder (hoverlap : Overlapping earlier arm table steps)
    {left : List Constructor} (hleft : left ∈ remainder table (constructors steps)) :
    OfFamilies (earlier ++ [arm]) (valueOf left) ∧ (valueOf left).spine = left := by
  obtain ⟨-, hfamilies, -, -⟩ := hoverlap.describes
  obtain ⟨hgap, hown⟩ := hoverlap.gap_of_remainder hleft
  have harms : ∀ other ∈ narrowerPaths table (constructors steps),
      Spinal other ∧ other.length ≤ maxNestingDepth + 1 := by
    intro other hother
    obtain ⟨before, hbefore, -, hpath⟩ :=
      mem_namedPaths.mp (hoverlap.mem_narrowerPaths.mp hother).1
    have hfacts := hoverlap.parsed.armPath (List.mem_append_left _ hbefore)
    rw [hpath] at hfacts
    exact ⟨hfacts.2.1, hfacts.1⟩
  have hspinal := spinal_of_gap (fun other hother => (harms other hother).1) hgap
  have hlength : left.length ≤ maxValueDepth := by
    obtain ⟨position, constructor, rfl, ⟨path, hpath, other, hother, -⟩, -⟩ := hgap
    have hbound : maxNestingDepth + 1 ≤ maxValueDepth := by decide
    have hle := hother.length_le
    have hshort := (harms path hpath).2
    rw [List.length_append, List.length_singleton] at hle ⊢
    omega
  have hspine := spine_valueOf hspinal
  refine ⟨⟨built_valueOf hlength, ?_⟩, hspine⟩
  rw [hspine]
  -- the arms and the remainder agree on their families, and no arm goes on after it
  have hall : Consistent Constructor.family
      ((namedPaths earlier ++ [constructors steps]) ++ [left]) := by
    have hsubset : narrowerPaths table (constructors steps) ⊆
        namedPaths earlier ++ [constructors steps] := by
      intro other hother
      exact List.mem_append_left _ (hoverlap.mem_narrowerPaths.mp hother).1
    refine consistent_append_gaps hfamilies hsubset ?_
    intro gap hmem
    rw [List.mem_singleton] at hmem
    rw [hmem]
    exact hgap
  apply conforms_of_last
  · intro other hother hbegins
    rcases hoverlap.listed hother with hempty | hnamed
    · rw [hempty, List.prefix_nil] at hbegins
      rw [hbegins, hempty]
    · exact absurd hbegins (hoverlap.remainder_leaves hleft hnamed)
  · intro other hother position own next hnext hcontinues
    rcases hoverlap.listed hother with hempty | hnamed
    · rw [hempty, List.prefix_nil] at hcontinues
      simp at hcontinues
    · exact hall left (by simp) other (List.mem_append_left _ hnamed) position own next hnext
        hcontinues

/-- The remainder is empty exactly if the arm is unreachable. -/
theorem Overlapping.remainder_eq_nil_iff (hoverlap : Overlapping earlier arm table steps)
    (span : Span) (environment : Environment) :
    remainder table (constructors steps) = [] ↔
      ∀ value, OfFamilies (earlier ++ [arm]) value →
        arm.pattern.matchesValue value span environment = true →
          ∃ other ∈ earlier, other.pattern.isCatchAll = false ∧
            other.pattern.matchesValue value span environment = true := by
  have hmatches : ∀ {value : Value}, OfFamilies (earlier ++ [arm]) value →
      ∀ {other : MatchArm}, other ∈ earlier ++ [arm] →
        (other.pattern.matchesValue value span environment = true ↔
          Krit.armPath other <+: value.spine) :=
    fun hvalue => fun hother => (hvalue.matches hoverlap.parsed span environment hother).2
  constructor
  · intro hempty value hvalue harm
    have hone := hoverlap.partition hvalue span environment
    rw [hempty, List.append_nil, if_pos harm] at hone
    have hpositive : 0 < matching (narrowerPaths table (constructors steps)) value.spine := by
      omega
    obtain ⟨other, hother, hbegins⟩ := List.countP_pos_iff.mp hpositive
    obtain ⟨member, hmember, hnamed, rfl⟩ :=
      mem_namedPaths.mp (hoverlap.mem_narrowerPaths.mp hother).1
    refine ⟨member, hmember, hnamed, (hmatches hvalue (List.mem_append_left _ hmember)).mpr ?_⟩
    exact List.isPrefixOf_iff_prefix.mp hbegins
  · intro hunreachable
    rw [List.eq_nil_iff_forall_not_mem]
    intro left hleft
    obtain ⟨hvalue, hspine⟩ := hoverlap.ofFamilies_remainder hleft
    obtain ⟨hgap, hown⟩ := hoverlap.gap_of_remainder hleft
    obtain ⟨-, -, hdisjoint⟩ := hoverlap.narrowerPaths_facts
    obtain ⟨-, -, -, hnone⟩ := hoverlap.describes
    have harm : arm.pattern.matchesValue (valueOf left) span environment = true := by
      rw [hmatches hvalue (List.mem_append_right _ (List.mem_singleton_self arm)), hspine,
        hoverlap.armPath]
      exact hown
    obtain ⟨other, hother, hnamed, hbegins⟩ := hunreachable _ hvalue harm
    rw [hmatches hvalue (List.mem_append_left _ hother), hspine] at hbegins
    have hlisted : Krit.armPath other ∈ namedPaths earlier :=
      mem_namedPaths.mpr ⟨other, hother, hnamed, rfl⟩
    -- the earlier path and the arm's both begin the path of the remainder
    rcases le_total (Krit.armPath other).length (constructors steps).length with hle | hle
    · exact hnone _ hlisted (List.prefix_of_prefix_length_le hbegins hown hle)
    · have hextends := List.prefix_of_prefix_length_le hown hbegins hle
      have hproper : constructors steps ≠ Krit.armPath other := by
        intro heq
        exact hnone _ hlisted (heq ▸ List.prefix_refl _)
      have hnarrow := hoverlap.mem_narrowerPaths.mpr ⟨hlisted, hproper, hextends⟩
      exact (hgap.apart_path hdisjoint hnarrow).1 hbegins

/-! ## The notes -/

theorem ArmTable.addArms_append {rest arms : List MatchArm} :
    ∀ {table : ArmTable} {index : ℕ},
      table.addArms index (arms ++ rest) =
        table.addArms index arms >>= fun next => next.addArms (index + arms.length) rest := by
  induction arms with
  | nil =>
    intro table index
    rfl
  | cons arm more ih =>
    intro table index
    rw [List.cons_append, ArmTable.addArms, ArmTable.addArms, List.length_cons,
      show index + (more.length + 1) = index + 1 + more.length by omega]
    by_cases hcatchAll : arm.pattern.isCatchAll = true
    · rw [if_pos hcatchAll, if_pos hcatchAll]
      exact ih
    · rw [if_neg hcatchAll, if_neg hcatchAll, bind_assoc]
      refine bind_congr ?_
      intro next
      exact ih

/-- The arm is rejected with the note about the remainder, whatever arms come after it. -/
theorem Overlapping.checkArms (hoverlap : Overlapping earlier arm table steps)
    (later : List MatchArm) (subject : Option Family) :
    ∃ first, Krit.checkArms (earlier ++ arm :: later) subject =
      .error (ArmTable.overlapsNarrower arm first (narrowerPaths table (constructors steps))
        (constructors steps)) := by
  obtain ⟨first, hfirst⟩ : ∃ first,
      ArmTable.earliest (table.narrower (constructors steps)) = some first := by
    obtain ⟨entry, rest, hentries⟩ := List.exists_cons_of_ne_nil hoverlap.narrower
    rw [hentries]
    exact ⟨_, rfl⟩
  have hdepths : Result.forEach (table.checkDepth arm steps)
      (List.range ((constructors steps).length + 1)) = .ok () :=
    Result.forEach_eq_ok.mpr hoverlap.depths
  have hadd : ∀ index, table.addArm index arm =
      .error (ArmTable.overlapsNarrower arm first (narrowerPaths table (constructors steps))
        (constructors steps)) := by
    intro index
    unfold ArmTable.addArm
    rw [hoverlap.path]
    simp only [bind, Except.bind, hdepths, hfirst]
    rfl
  refine ⟨first, ?_⟩
  unfold Krit.checkArms
  rw [ArmTable.addArms_append, hoverlap.added]
  simp [bind, Except.bind, ArmTable.addArms, hoverlap.named, hadd]

end Overlap

/-- The notes are exact. The given paths and the missing ones partition the values, so that
arms that are not catch-alls pass both checks with an arm for each missing path; and where an
arm is rejected because of narrower ones, their paths and the remainder partition what it
matches, and the remainder is empty exactly if the arms before it that are not catch-alls
leave it no value. -/
theorem repair_notes_exact (subject : Option Family) (span : Span) (environment : Environment) :
    (∀ paths : List (List Constructor), paths ≠ [] → Consistent Constructor.family paths →
      PathCover.Disjoint paths → ∀ spine, Conforms Constructor.family paths spine →
        matching (paths ++ missing paths) spine = 1) ∧
    (∀ arms : List MatchArm, arms ≠ [] → ParsedArms arms →
      (∀ arm ∈ arms, arm.pattern.isCatchAll = false) →
      Consistent Constructor.family (arms.map armPath) →
      PathCover.Disjoint (arms.map armPath) →
        (∀ value : Expression, ∃ added : List MatchArm,
          (∀ arm ∈ added, arm.value = value ∧ ∃ steps, path arm.pattern = .ok steps) ∧
            added.map armPath = missing (arms.map armPath)) ∧
        ∀ added all : List MatchArm, (∀ arm ∈ added, ∃ steps, path arm.pattern = .ok steps) →
          (added.map armPath).Perm (missing (arms.map armPath)) → all.Perm (arms ++ added) →
            Accepted all subject span) ∧
    (∀ (earlier : List MatchArm) (arm : MatchArm) (table : ArmTable) (steps : List Step),
      Overlapping earlier arm table steps →
        (∀ later : List MatchArm, ∃ first, checkArms (earlier ++ arm :: later) subject =
          .error (ArmTable.overlapsNarrower arm first (narrowerPaths table (constructors steps))
            (constructors steps))) ∧
        (∀ value, OfFamilies (earlier ++ [arm]) value →
          matching (narrowerPaths table (constructors steps) ++
              remainder table (constructors steps)) value.spine =
            if arm.pattern.matchesValue value span environment then 1 else 0) ∧
        (remainder table (constructors steps) = [] ↔
          ∀ value, OfFamilies (earlier ++ [arm]) value →
            arm.pattern.matchesValue value span environment = true →
              ∃ other ∈ earlier, other.pattern.isCatchAll = false ∧
                other.pattern.matchesValue value span environment = true)) := by
  refine ⟨?_, ?_, ?_⟩
  · intro paths hne hconsistent hdisjoint spine hconforms
    exact matching_append_missing hne hconsistent hdisjoint hconforms
  · intro arms _ hparsed hcatchAll hconsistent hdisjoint
    refine ⟨fun value => exists_missing_arms hparsed hconsistent value span, ?_⟩
    intro added all hadded hmissing hall
    exact accepted_append_missing hparsed hcatchAll hconsistent hdisjoint hadded hmissing hall
      subject span
  · intro earlier arm table steps hoverlap
    exact ⟨fun later => hoverlap.checkArms later subject,
      fun value hvalue => hoverlap.partition hvalue span environment,
      hoverlap.remainder_eq_nil_iff span environment⟩

/-- `_ => (), Some(Ok(_)) => ()`. -/
def catchAllFirst : List MatchArm :=
  [⟨⟨.wildcard, ⟨10, 11⟩⟩, ⟨.unit, ⟨15, 17⟩⟩, ⟨10, 17⟩⟩,
    ⟨⟨.variant .some (some ⟨.variant .ok (some ⟨.wildcard, ⟨27, 28⟩⟩), ⟨24, 29⟩⟩), ⟨19, 30⟩⟩,
      ⟨.unit, ⟨34, 36⟩⟩, ⟨19, 36⟩⟩]

/-- `Some(_) => ()`. -/
def someArm : MatchArm :=
  ⟨⟨.variant .some (some ⟨.wildcard, ⟨43, 44⟩⟩), ⟨38, 45⟩⟩, ⟨.unit, ⟨49, 51⟩⟩, ⟨38, 51⟩⟩

theorem parsed_catchAllFirst : ParsedArms (catchAllFirst ++ [someArm]) := by
  intro arm harm
  simp only [catchAllFirst, someArm, List.cons_append, List.nil_append, List.mem_cons,
    List.not_mem_nil, or_false] at harm
  rcases harm with heq | heq | heq
  · subst heq
    exact .wildcard _ _
  · subst heq
    exact .variant _ rfl (.variant _ rfl (.wildcard _ _))
  · subst heq
    exact .variant _ rfl (.wildcard _ _)

theorem overlapping_catchAllFirst : ∃ table,
    Overlapping catchAllFirst someArm table [⟨.some, ⟨38, 45⟩⟩] ∧
      [.some, .err] ∈ remainder table (constructors [⟨.some, ⟨38, 45⟩⟩]) := by
  have hruns : (ArmTable.empty.addArms 0 catchAllFirst).toOption.map (fun table =>
      ((List.range 2).all (fun depth =>
          (table.checkDepth someArm [⟨.some, ⟨38, 45⟩⟩] depth).toBool),
        narrowerPaths table [.some])) =
      some (true, [[.some, .ok]]) := by
    decide +kernel
  cases hadded : ArmTable.empty.addArms 0 catchAllFirst with
  | error failure =>
    rw [hadded] at hruns
    cases hruns
  | ok table =>
    rw [hadded] at hruns
    simp only [Except.toOption, Option.map_some, Option.some.injEq, Prod.mk.injEq,
      List.all_eq_true] at hruns
    obtain ⟨hdepths, hnarrower⟩ := hruns
    have hoverlap : Overlapping catchAllFirst someArm table [⟨.some, ⟨38, 45⟩⟩] := by
      refine ⟨parsed_catchAllFirst, hadded, rfl, rfl, ?_, ?_⟩
      · intro depth hdepth
        exact Result.eq_ok_of_toBool (hdepths depth hdepth)
      · intro hnil
        have hnone : narrowerPaths table [.some] = [] := List.map_eq_nil_iff.mpr hnil
        rw [hnarrower] at hnone
        cases hnone
    have hconsistent : Consistent Constructor.family [[.some, .ok]] := by
      have hfacts := hoverlap.narrowerPaths_facts.2.1
      rw [show constructors [⟨.some, ⟨38, 45⟩⟩] = [.some] from rfl, hnarrower] at hfacts
      exact hfacts
    refine ⟨table, hoverlap, List.mem_filter.mpr ⟨?_, rfl⟩⟩
    rw [show constructors [⟨.some, ⟨38, 45⟩⟩] = [.some] from rfl, hnarrower,
      mem_missing_iff_gap hconsistent]
    refine ⟨[.some], .err, rfl, ⟨_, List.mem_singleton_self _, .ok, List.prefix_refl _, rfl⟩, ?_⟩
    intro other hother
    rw [List.mem_singleton.mp hother]
    decide

/-- `Some(_)` is reachable after `Some(Ok(_))`. -/
theorem repair_notes_exact_catchAllFirst :
    ∃ table, Overlapping catchAllFirst someArm table [⟨.some, ⟨38, 45⟩⟩] ∧
      ∃ value, OfFamilies (catchAllFirst ++ [someArm]) value ∧
        someArm.pattern.matchesValue value ⟨6, 7⟩ [] = true ∧
        ∀ other ∈ catchAllFirst, other.pattern.isCatchAll = false →
          other.pattern.matchesValue value ⟨6, 7⟩ [] = false := by
  obtain ⟨table, hoverlap, hremainder⟩ := overlapping_catchAllFirst
  refine ⟨table, hoverlap, ?_⟩
  obtain ⟨-, -, hempty⟩ := (repair_notes_exact none ⟨6, 7⟩ []).2.2 _ _ _ _ hoverlap
  by_contra hnone
  push Not at hnone
  rw [hempty.mpr] at hremainder
  · cases hremainder
  · intro value hvalue harm
    obtain ⟨other, hother, hnamed, hmatches⟩ := hnone value hvalue harm
    exact ⟨other, hother, hnamed, by simpa using hmatches⟩

/-- A catch-all arm does not count: alone it is not repaired by the missing arms, of which
there are none, and what comes after it is still told about a remainder. -/
theorem catchAll_not_counted :
    (Consistent Constructor.family [[]] ∧ PathCover.Disjoint ([[]] : List (List Constructor)) ∧
      (catchAllFirst.take 1).map armPath = [[]] ∧
      ∀ added : List MatchArm, added.map armPath = missing [[]] →
        checkArms (catchAllFirst.take 1 ++ added) none ≠ .ok ()) ∧
    ∃ table, Overlapping catchAllFirst someArm table [⟨.some, ⟨38, 45⟩⟩] ∧
      remainder table (constructors [⟨.some, ⟨38, 45⟩⟩]) ≠ [] ∧
      ∀ value span environment, ∃ other ∈ catchAllFirst,
        other.pattern.matchesValue value span environment = true := by
  refine ⟨⟨?_, List.pairwise_singleton _ _, rfl, ?_⟩, ?_⟩
  · intro left hleft right hright position first second hfirst
    rw [List.mem_singleton.mp hleft, List.prefix_nil] at hfirst
    simp at hfirst
  · intro added hadded
    have hmissing : missing [[]] = [] := by decide +kernel
    rw [hmissing, List.map_eq_nil_iff] at hadded
    rw [hadded]
    intro hok
    have hfails : (checkArms (catchAllFirst.take 1 ++ []) none).toBool = false := by
      decide +kernel
    rw [hok] at hfails
    cases hfails
  · obtain ⟨table, hoverlap, hremainder⟩ := overlapping_catchAllFirst
    refine ⟨table, hoverlap, List.ne_nil_of_mem hremainder, ?_⟩
    · intro value span environment
      exact ⟨_, List.mem_cons_self, rfl⟩

end Krit
