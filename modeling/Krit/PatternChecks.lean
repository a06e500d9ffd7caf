import Krit.Patterns

/-!
# What the match checks accept

The tables of `check_arms` and `missing` describe the paths they were built from.
With that, an arm is added exactly when the paths stay consistent and disjoint,
and nothing is missing exactly when they are complete.
-/

namespace Krit

open Std PathCover

/-! ## Missing paths -/

/-- What the maps of `missing` know of the paths noted so far: a path counts up to
its noted length. -/
structure Continuations.Describes (table : Continuations)
    (reached : List Constructor → Constructor → Prop) : Prop where
  sound : ∀ position family, table.prefixes[position]? = some family →
    ∃ constructor, reached position constructor ∧ constructor.family = family
  total : ∀ position constructor, reached position constructor → position ∈ table.prefixes
  continued : ∀ candidate, candidate ∈ table.continued ↔
    ∃ position constructor, reached position constructor ∧
      candidate = position ++ [constructor]

theorem Continuations.Describes.congr {table : Continuations}
    {reached other : List Constructor → Constructor → Prop}
    (hdescribes : table.Describes reached)
    (hsame : ∀ position constructor, reached position constructor ↔ other position constructor) :
    table.Describes other := by
  have heq : reached = other := by
    funext position constructor
    exact propext (hsame position constructor)
  rw [← heq]
  exact hdescribes

theorem Continuations.Describes.note {table : Continuations}
    {reached : List Constructor → Constructor → Prop} (hdescribes : table.Describes reached)
    (path : List Constructor) (length : ℕ) :
    (table.note path length).Describes fun position constructor =>
      reached position constructor ∨
        (path.take length = position ∧ path[length]? = some constructor) := by
  unfold Continuations.note
  cases hget : path[length]? with
  | none => exact hdescribes.congr (by simp)
  | some constructor =>
    have htake : path.take (length + 1) = path.take length ++ [constructor] := by
      rw [List.take_add_one, hget]
      rfl
    constructor
    · intro position family hfamily
      rw [TreeMap.getElem?_insertIfNew] at hfamily
      split at hfamily
      · rename_i hnew
        have heq : path.take length = position := LawfulEqCmp.eq_of_compare hnew.1
        rw [Option.some.injEq] at hfamily
        exact ⟨constructor, Or.inr ⟨heq, rfl⟩, hfamily⟩
      · obtain ⟨old, hreached, hold⟩ := hdescribes.sound position family hfamily
        exact ⟨old, Or.inl hreached, hold⟩
    · intro position own hreached
      rw [TreeMap.mem_insertIfNew]
      rcases hreached with hold | ⟨heq, -⟩
      · exact Or.inr (hdescribes.total position own hold)
      · exact Or.inl (heq ▸ ReflCmp.compare_self)
    · intro candidate
      rw [TreeSet.mem_insert, hdescribes.continued, htake, LawfulEqCmp.compare_eq_iff_eq]
      constructor
      · rintro (hnew | ⟨position, own, hreached, hcandidate⟩)
        · exact ⟨path.take length, constructor, Or.inr ⟨rfl, rfl⟩, hnew.symm⟩
        · exact ⟨position, own, Or.inl hreached, hcandidate⟩
      · rintro ⟨position, own, hold | ⟨heq, hown⟩, hcandidate⟩
        · exact Or.inr ⟨position, own, hold, hcandidate⟩
        · rw [Option.some.injEq] at hown
          subst hown heq
          exact Or.inl hcandidate.symm

theorem Continuations.Describes.notes {table : Continuations}
    {reached : List Constructor → Constructor → Prop} (hdescribes : table.Describes reached)
    (path : List Constructor) (lengths : List ℕ) :
    (lengths.foldl (fun table length => table.note path length) table).Describes
      fun position constructor => reached position constructor ∨
        ∃ length ∈ lengths, path.take length = position ∧ path[length]? = some constructor := by
  induction lengths generalizing table reached with
  | nil => exact hdescribes.congr (by simp)
  | cons length rest ih =>
    rw [List.foldl_cons]
    refine (ih (hdescribes.note path length)).congr ?_
    intro position constructor
    simp only [List.mem_cons, exists_eq_or_imp, or_assoc]

/-- Noting every length of a path notes each of its steps. -/
theorem exists_length_iff (path position : List Constructor) (constructor : Constructor) :
    (∃ length ∈ List.range path.length,
        path.take length = position ∧ path[length]? = some constructor) ↔
      position ++ [constructor] <+: path := by
  constructor
  · rintro ⟨length, -, htake, hget⟩
    rw [← htake]
    exact take_next hget
  · intro hnext
    have hlength : position.length < path.length := by
      have hle := hnext.length_le
      rw [List.length_append, List.length_singleton] at hle
      omega
    exact ⟨position.length, List.mem_range.mpr hlength, next_iff_getElem.mp hnext⟩

theorem Continuations.Describes.paths {table : Continuations}
    {reached : List Constructor → Constructor → Prop} (hdescribes : table.Describes reached)
    (paths : List (List Constructor)) :
    (paths.foldl (fun table path => (List.range path.length).foldl
        (fun table length => table.note path length) table) table).Describes
      fun position constructor => reached position constructor ∨
        ∃ path ∈ paths, position ++ [constructor] <+: path := by
  induction paths generalizing table reached with
  | nil => exact hdescribes.congr (by simp)
  | cons path rest ih =>
    rw [List.foldl_cons]
    refine (ih (hdescribes.notes path (List.range path.length))).congr ?_
    intro position constructor
    rw [exists_length_iff]
    simp only [List.mem_cons, exists_eq_or_imp, or_assoc]

theorem continuations_describes (paths : List (List Constructor)) :
    (continuations paths).Describes fun position constructor =>
      ∃ path ∈ paths, position ++ [constructor] <+: path := by
  have hempty : (Continuations.mk ∅ ∅).Describes fun _ _ => False := by
    constructor
    · intro position family hfamily
      simp at hfamily
    · intro position constructor hfalse
      exact hfalse.elim
    · intro candidate
      simp
  exact (hempty.paths paths).congr (by simp)

/-- A path is missing when its last constructor belongs to the family that continues
the others, and no given path goes that way. -/
theorem mem_missing_iff {paths : List (List Constructor)}
    (hconsistent : Consistent Constructor.family paths) (candidate : List Constructor) :
    candidate ∈ missing paths ↔
      ∃ position constructor, candidate = position ++ [constructor] ∧
        (∃ path ∈ paths, ∃ other, position ++ [other] <+: path ∧
          other.family = constructor.family) ∧
        ∀ path ∈ paths, ¬ candidate <+: path := by
  have hdescribes := continuations_describes paths
  have hcontinued : ∀ position constructor,
      (continuations paths).continued.contains (position ++ [constructor]) = false ↔
        ∀ path ∈ paths, ¬ position ++ [constructor] <+: path := by
    intro position constructor
    rw [Bool.eq_false_iff, ne_eq, TreeSet.contains_iff_mem, hdescribes.continued]
    constructor
    · intro hnone path hpath hbegins
      exact hnone ⟨position, constructor, ⟨path, hpath, hbegins⟩, rfl⟩
    · rintro hnone ⟨before, own, ⟨path, hpath, hbegins⟩, heq⟩
      rw [heq] at hnone
      exact hnone path hpath hbegins
  unfold missing
  simp only [List.mem_mergeSort, List.mem_flatMap, List.mem_filter, List.mem_map,
    Bool.not_eq_true']
  constructor
  · rintro ⟨⟨position, family⟩, hentry, ⟨constructor, hconstructor, hcandidate⟩, hmissing⟩
    rw [TreeMap.mem_toList_iff_getElem?_eq_some] at hentry
    obtain ⟨other, ⟨path, hpath, hbegins⟩, hother⟩ := hdescribes.sound position family hentry
    subst hcandidate
    refine ⟨position, constructor, rfl, ⟨path, hpath, other, hbegins, ?_⟩,
      (hcontinued position constructor).mp hmissing⟩
    rw [hother, (Family.mem_constructors family constructor).mp hconstructor]
  · rintro ⟨position, constructor, hcandidate, ⟨path, hpath, other, hbegins, hother⟩, hmissing⟩
    subst hcandidate
    have hmem := hdescribes.total position other ⟨path, hpath, hbegins⟩
    obtain ⟨family, hfamily⟩ := Option.isSome_iff_exists.mp
      (TreeMap.isSome_getElem?_iff_mem.mpr hmem)
    obtain ⟨noted, ⟨first, hfirst, hfirstBegins⟩, hnoted⟩ :=
      hdescribes.sound position family hfamily
    have hsame : constructor.family = family := by
      rw [← hother, ← hnoted]
      exact hconsistent path hpath first hfirst position other noted hbegins hfirstBegins
    exact ⟨(position, family), TreeMap.mem_toList_iff_getElem?_eq_some.mpr hfamily,
      ⟨constructor, (Family.mem_constructors family constructor).mpr hsame, rfl⟩,
      (hcontinued position constructor).mpr hmissing⟩

theorem missing_eq_nil_iff {paths : List (List Constructor)}
    (hconsistent : Consistent Constructor.family paths) :
    missing paths = [] ↔ Complete Constructor.family paths := by
  rw [List.eq_nil_iff_forall_not_mem]
  constructor
  · intro hnone path hpath position constructor hbegins other hfamily
    by_contra hmissing
    push Not at hmissing
    apply hnone (position ++ [other])
    rw [mem_missing_iff hconsistent]
    exact ⟨position, other, rfl, ⟨path, hpath, constructor, hbegins, hfamily.symm⟩, hmissing⟩
  · intro hcomplete candidate hcandidate
    rw [mem_missing_iff hconsistent] at hcandidate
    obtain ⟨position, constructor, heq, ⟨path, hpath, other, hbegins, hother⟩, hmissing⟩ :=
      hcandidate
    obtain ⟨continued, hcontinued, hgoes⟩ :=
      hcomplete path hpath position other hbegins constructor hother.symm
    rw [← heq] at hgoes
    exact hmissing continued hcontinued hgoes

/-! ## Arms -/

/-- The constructors of an arm's path. -/
def armPath (arm : MatchArm) : List Constructor :=
  match path arm.pattern with
  | .ok steps => constructors steps
  | .error _ => []

/-- What the tables of `check_arms` know of the paths of the earlier arms. -/
structure ArmTable.Describes (table : ArmTable) (paths : List (List Constructor)) : Prop where
  ends : ∀ key, key ∈ table.ends ↔ key ∈ paths
  sound : ∀ position family arm, table.families[position]? = some (family, arm) →
    ∃ path ∈ paths, ∃ constructor, position ++ [constructor] <+: path ∧
      constructor.family = family
  total : ∀ path ∈ paths, ∀ position constructor, position ++ [constructor] <+: path →
    position ∈ table.families

theorem ArmTable.empty_describes : ArmTable.empty.Describes [] := by
  constructor
  · intro key
    simp [ArmTable.empty]
  · intro position family arm hfamily
    simp [ArmTable.empty] at hfamily
  · intro path hpath
    cases hpath

/-- One step of `noteFamilies`. -/
def ArmTable.noteFamily (table : ArmTable) (arm : MatchArm) (own : List Constructor)
    (depth : ℕ) : ArmTable :=
  match own[depth]? with
  | none => table
  | some constructor =>
      { table with
        families := table.families.insertIfNew (own.take depth) (constructor.family, arm) }

theorem ArmTable.noteFamilies_eq (table : ArmTable) (arm : MatchArm) (own : List Constructor) :
    table.noteFamilies arm own =
      (List.range own.length).foldl (fun table depth => table.noteFamily arm own depth) table :=
  rfl

theorem ArmTable.noteFamily_sound {table : ArmTable} {arm : MatchArm} {own : List Constructor}
    {depth : ℕ} {position : List Constructor} {family : Family} {first : MatchArm}
    (hfamily : (table.noteFamily arm own depth).families[position]? = some (family, first)) :
    table.families[position]? = some (family, first) ∨
      ∃ constructor, position ++ [constructor] <+: own ∧ constructor.family = family := by
  unfold ArmTable.noteFamily at hfamily
  split at hfamily
  · exact Or.inl hfamily
  · rename_i constructor hget
    rw [TreeMap.getElem?_insertIfNew] at hfamily
    split at hfamily
    · rename_i hnew
      have heq : own.take depth = position := LawfulEqCmp.eq_of_compare hnew.1
      rw [Option.some.injEq, Prod.mk.injEq] at hfamily
      right
      exact ⟨constructor, heq ▸ take_next hget, hfamily.1⟩
    · exact Or.inl hfamily

theorem ArmTable.mem_noteFamily {table : ArmTable} {arm : MatchArm} {own : List Constructor}
    {depth : ℕ} {position : List Constructor} :
    position ∈ (table.noteFamily arm own depth).families ↔
      position ∈ table.families ∨ (depth < own.length ∧ own.take depth = position) := by
  unfold ArmTable.noteFamily
  split
  · rename_i hget
    have hge : own.length ≤ depth := List.getElem?_eq_none_iff.mp hget
    constructor
    · exact Or.inl
    · rintro (hold | hnew)
      · exact hold
      · omega
  · rename_i constructor hget
    have hlt : depth < own.length := (List.getElem?_eq_some_iff.mp hget).1
    rw [TreeMap.mem_insertIfNew, LawfulEqCmp.compare_eq_iff_eq]
    constructor
    · rintro (hnew | hold)
      · exact Or.inr ⟨hlt, hnew⟩
      · exact Or.inl hold
    · rintro (hold | hnew)
      · exact Or.inr hold
      · exact Or.inl hnew.2

theorem ArmTable.foldl_noteFamily_sound {arm : MatchArm} {own : List Constructor}
    {position : List Constructor} {family : Family} {first : MatchArm} (depths : List ℕ) :
    ∀ {table : ArmTable},
      (depths.foldl (fun table depth => table.noteFamily arm own depth) table).families[position]? =
        some (family, first) →
      table.families[position]? = some (family, first) ∨
        ∃ constructor, position ++ [constructor] <+: own ∧ constructor.family = family := by
  induction depths with
  | nil =>
    intro table hfamily
    exact Or.inl hfamily
  | cons depth rest ih =>
    intro table hfamily
    rcases ih hfamily with hnoted | hown
    · exact ArmTable.noteFamily_sound hnoted
    · exact Or.inr hown

theorem ArmTable.mem_foldl_noteFamily {arm : MatchArm} {own : List Constructor}
    {position : List Constructor} (depths : List ℕ) :
    ∀ {table : ArmTable},
      position ∈ (depths.foldl (fun table depth => table.noteFamily arm own depth) table).families ↔
        position ∈ table.families ∨
          ∃ depth ∈ depths, depth < own.length ∧ own.take depth = position := by
  induction depths with
  | nil => simp
  | cons depth rest ih =>
    intro table
    rw [List.foldl_cons, ih, ArmTable.mem_noteFamily]
    simp only [List.mem_cons, exists_eq_or_imp, or_assoc]

theorem ArmTable.foldl_noteFamily_ends {arm : MatchArm} {own : List Constructor}
    (depths : List ℕ) : ∀ {table : ArmTable},
      (depths.foldl (fun table depth => table.noteFamily arm own depth) table).ends =
        table.ends := by
  induction depths with
  | nil =>
    intro table
    rfl
  | cons depth rest ih =>
    intro table
    rw [List.foldl_cons, ih]
    unfold ArmTable.noteFamily
    split <;> rfl

/-- Recording an arm records its path. -/
theorem ArmTable.Describes.record {table : ArmTable} {paths : List (List Constructor)}
    (hdescribes : table.Describes paths) (arm : MatchArm) (own : List Constructor) (index : ℕ) :
    ({ table.noteFamilies arm own with
        ends := (table.noteFamilies arm own).ends.insert own (index, arm) } : ArmTable).Describes
      (paths ++ [own]) := by
  have hends : (table.noteFamilies arm own).ends = table.ends := by
    rw [ArmTable.noteFamilies_eq, ArmTable.foldl_noteFamily_ends]
  constructor
  · intro key
    rw [TreeMap.mem_insert, hends, hdescribes.ends, LawfulEqCmp.compare_eq_iff_eq,
      List.mem_append, List.mem_singleton, or_comm, eq_comm]
  · intro position family first hfamily
    rw [ArmTable.noteFamilies_eq] at hfamily
    rcases ArmTable.foldl_noteFamily_sound _ hfamily with hold | ⟨constructor, hown, heq⟩
    · obtain ⟨path, hpath, constructor, hbegins, heq⟩ :=
        hdescribes.sound position family first hold
      exact ⟨path, List.mem_append_left _ hpath, constructor, hbegins, heq⟩
    · exact ⟨own, by simp, constructor, hown, heq⟩
  · intro path hpath position constructor hbegins
    rw [ArmTable.noteFamilies_eq, ArmTable.mem_foldl_noteFamily]
    rcases List.mem_append.mp hpath with hold | hown
    · exact Or.inl (hdescribes.total path hold position constructor hbegins)
    · rw [List.mem_singleton] at hown
      subst hown
      obtain ⟨htake, hget⟩ := next_iff_getElem.mp hbegins
      have hlt : position.length < path.length := (List.getElem?_eq_some_iff.mp hget).1
      exact Or.inr ⟨position.length, List.mem_range.mpr hlt, hlt, htake⟩

theorem ArmTable.checkDepth_eq_ok_iff (table : ArmTable) (arm : MatchArm) (steps : List Step)
    (depth : ℕ) :
    table.checkDepth arm steps depth = .ok () ↔
      (constructors steps).take depth ∉ table.ends ∧
        ∀ constructor, (constructors steps)[depth]? = some constructor →
          ∀ family other, table.families[(constructors steps).take depth]? = some (family, other) →
            family = constructor.family := by
  have hget : (constructors steps)[depth]? = steps[depth]?.map Step.constructor := by
    rw [constructors, List.getElem?_map]
  unfold ArmTable.checkDepth
  simp only []
  cases hends : table.ends[(constructors steps).take depth]? with
  | some ending =>
    have hmem : (constructors steps).take depth ∈ table.ends :=
      TreeMap.mem_iff_isSome_getElem?.mpr (by rw [hends]; rfl)
    simp [hmem]
  | none =>
    have hmem : (constructors steps).take depth ∉ table.ends := by
      rw [TreeMap.mem_iff_isSome_getElem?, hends]
      simp
    rw [hget]
    cases hstep : steps[depth]? with
    | none => simp [hmem]
    | some step =>
      cases hfamilies : table.families[(constructors steps).take depth]? with
      | none => simp [hmem]
      | some found =>
        obtain ⟨family, other⟩ := found
        by_cases hsame : family = step.constructor.family
        · simp [hmem, hsame]
        · simp [hmem, hsame]

theorem ArmTable.earliest_eq_none_iff (entries : List (List Constructor × ℕ × MatchArm)) :
    ArmTable.earliest entries = none ↔ entries = [] := by
  cases entries with
  | nil => simp [ArmTable.earliest]
  | cons first rest => simp [ArmTable.earliest]

theorem ArmTable.Describes.narrower_eq_nil_iff {table : ArmTable}
    {paths : List (List Constructor)} (hdescribes : table.Describes paths)
    (own : List Constructor) :
    table.narrower own = [] ↔ ∀ path ∈ paths, own ≠ path → ¬ own <+: path := by
  unfold ArmTable.narrower
  rw [takeWhile_extensions_eq_nil_iff TreeMap.ordered_keys_toList]
  constructor
  · intro hnone path hpath
    have hmem := (hdescribes.ends path).mpr hpath
    obtain ⟨ending, hending⟩ := Option.isSome_iff_exists.mp
      (TreeMap.isSome_getElem?_iff_mem.mpr hmem)
    exact hnone (path, ending) (TreeMap.mem_toList_iff_getElem?_eq_some.mpr hending)
  · rintro hnone ⟨path, ending⟩ hentry
    have hget := TreeMap.mem_toList_iff_getElem?_eq_some.mp hentry
    have hmem : path ∈ table.ends :=
      TreeMap.isSome_getElem?_iff_mem.mp (by rw [hget]; rfl)
    exact hnone path ((hdescribes.ends path).mp hmem)

/-- No earlier path begins the new one, and the families agree with the earlier
ones. -/
theorem ArmTable.Describes.checkDepths_iff {table : ArmTable} {paths : List (List Constructor)}
    (hdescribes : table.Describes paths) (hconsistent : Consistent Constructor.family paths)
    (arm : MatchArm) (steps : List Step) :
    (∀ depth ∈ List.range ((constructors steps).length + 1),
        table.checkDepth arm steps depth = .ok ()) ↔
      (∀ path ∈ paths, ¬ path <+: constructors steps) ∧
        Consistent Constructor.family (paths ++ [constructors steps]) := by
  have hagree : (∀ path ∈ paths, ∀ position first second,
        position ++ [first] <+: path → position ++ [second] <+: constructors steps →
          first.family = second.family) →
      Consistent Constructor.family (paths ++ [constructors steps]) := by
    intro hnew left hleft right hright position first second hfirst hsecond
    rcases List.mem_append.mp hleft with hleft | hleft <;>
      rcases List.mem_append.mp hright with hright | hright
    · exact hconsistent left hleft right hright position first second hfirst hsecond
    · rw [List.mem_singleton] at hright
      subst hright
      exact hnew left hleft position first second hfirst hsecond
    · rw [List.mem_singleton] at hleft
      subst hleft
      exact (hnew right hright position second first hsecond hfirst).symm
    · rw [List.mem_singleton] at hleft hright
      subst hleft hright
      rw [next_unique hfirst hsecond]
  constructor
  · intro hchecks
    have hdepth : ∀ depth ≤ (constructors steps).length,
        (constructors steps).take depth ∉ table.ends ∧
          ∀ constructor, (constructors steps)[depth]? = some constructor →
            ∀ family other,
              table.families[(constructors steps).take depth]? = some (family, other) →
                family = constructor.family := by
      intro depth hle
      exact (ArmTable.checkDepth_eq_ok_iff table arm steps depth).mp
        (hchecks depth (List.mem_range.mpr (by omega)))
    constructor
    · intro path hpath hbegins
      have htake : (constructors steps).take path.length = path :=
        (List.prefix_iff_eq_take.mp hbegins).symm
      have hnot := (hdepth path.length hbegins.length_le).1
      rw [htake] at hnot
      exact hnot ((hdescribes.ends path).mpr hpath)
    · apply hagree
      intro path hpath position first second hfirst hsecond
      obtain ⟨htake, hget⟩ := next_iff_getElem.mp hsecond
      have hlt : position.length < (constructors steps).length :=
        (List.getElem?_eq_some_iff.mp hget).1
      have hmem := hdescribes.total path hpath position first hfirst
      obtain ⟨⟨family, other⟩, hfamily⟩ := Option.isSome_iff_exists.mp
        (TreeMap.isSome_getElem?_iff_mem.mpr hmem)
      have hown := (hdepth position.length hlt.le).2 second hget family other
        (by rw [htake]; exact hfamily)
      obtain ⟨noted, hnoted, constructor, hbegins, hsame⟩ :=
        hdescribes.sound position family other hfamily
      have hfirstSame := hconsistent path hpath noted hnoted position first constructor
        hfirst hbegins
      rw [hfirstSame, hsame, hown]
  · rintro ⟨hbegins, hall⟩ depth hmem
    rw [ArmTable.checkDepth_eq_ok_iff]
    constructor
    · intro hends
      exact hbegins _ ((hdescribes.ends _).mp hends) (List.take_prefix _ _)
    · intro constructor hget family other hfamily
      obtain ⟨noted, hnoted, first, hfirst, hsame⟩ := hdescribes.sound _ family other hfamily
      rw [← hsame]
      exact hall noted (List.mem_append_left _ hnoted) (constructors steps) (by simp) _ first
        constructor hfirst (take_next hget)

/-- An arm is added exactly when the paths stay consistent and disjoint. -/
theorem ArmTable.Describes.addArm {table : ArmTable} {paths : List (List Constructor)}
    (hdescribes : table.Describes paths) (hconsistent : Consistent Constructor.family paths)
    (hdisjoint : PathCover.Disjoint paths) {arm : MatchArm} {steps : List Step}
    (hpath : path arm.pattern = .ok steps) (index : ℕ) :
    (Consistent Constructor.family (paths ++ [constructors steps]) ∧
        PathCover.Disjoint (paths ++ [constructors steps]) ∧
        ∃ next, table.addArm index arm = .ok next ∧
          next.Describes (paths ++ [constructors steps])) ∨
      ((∀ next, table.addArm index arm ≠ .ok next) ∧
        ¬ (Consistent Constructor.family (paths ++ [constructors steps]) ∧
          PathCover.Disjoint (paths ++ [constructors steps]))) := by
  have hchecks := hdescribes.checkDepths_iff hconsistent arm steps
  have hnarrower := hdescribes.narrower_eq_nil_iff (constructors steps)
  have happart : PathCover.Disjoint (paths ++ [constructors steps]) ↔
      ∀ path ∈ paths, Apart path (constructors steps) := by
    unfold PathCover.Disjoint
    rw [List.pairwise_append]
    constructor
    · rintro ⟨-, -, hcross⟩ path hpath
      exact hcross path hpath (constructors steps) (by simp)
    · intro hcross
      refine ⟨hdisjoint, List.pairwise_singleton _ _, ?_⟩
      intro path hpath own hown
      rw [List.mem_singleton] at hown
      subst hown
      exact hcross path hpath
  unfold ArmTable.addArm
  rw [hpath]
  simp only [bind, Except.bind]
  by_cases hforEach : Result.forEach (table.checkDepth arm steps)
      (List.range ((constructors steps).length + 1)) = .ok ()
  · have hdepths := hchecks.mp (Result.forEach_eq_ok.mp hforEach)
    rw [hforEach]
    simp only []
    cases hearliest : ArmTable.earliest (table.narrower (constructors steps)) with
    | none =>
      left
      have hnone := hnarrower.mp ((ArmTable.earliest_eq_none_iff _).mp hearliest)
      refine ⟨hdepths.2, happart.mpr ?_, _, rfl, hdescribes.record arm _ index⟩
      intro path hpath
      refine ⟨hdepths.1 path hpath, ?_⟩
      have hne : constructors steps ≠ path := by
        intro heq
        apply hdepths.1 path hpath
        rw [heq]
      exact hnone path hpath hne
    | some first =>
      right
      refine ⟨by simp, ?_⟩
      rintro ⟨-, hall⟩
      have hsome : table.narrower (constructors steps) ≠ [] := by
        intro hnil
        rw [hnil] at hearliest
        cases hearliest
      apply hsome
      rw [hnarrower]
      intro path hpath _
      exact (happart.mp hall path hpath).2
  · right
    constructor
    · intro next hok
      cases hresult : Result.forEach (table.checkDepth arm steps)
          (List.range ((constructors steps).length + 1)) with
      | ok value => exact hforEach hresult
      | error failure =>
        rw [hresult] at hok
        cases hok
    · rintro ⟨hall, hapart⟩
      apply hforEach
      rw [Result.forEach_eq_ok]
      apply hchecks.mpr
      exact ⟨fun path hpath => (happart.mp hapart path hpath).1, hall⟩

/-- The paths of the arms that are not catch-alls. -/
def namedPaths (arms : List MatchArm) : List (List Constructor) :=
  (arms.filter fun arm => !arm.pattern.isCatchAll).map armPath

theorem mem_namedPaths {arms : List MatchArm} {own : List Constructor} :
    own ∈ namedPaths arms ↔
      ∃ arm ∈ arms, arm.pattern.isCatchAll = false ∧ armPath arm = own := by
  simp only [namedPaths, List.mem_map, List.mem_filter, Bool.not_eq_true', and_assoc]

theorem namedPaths_of_named {arms : List MatchArm}
    (hnamed : ∀ arm ∈ arms, arm.pattern.isCatchAll = false) :
    namedPaths arms = arms.map armPath := by
  unfold namedPaths
  rw [List.filter_eq_self.mpr]
  intro arm harm
  rw [hnamed arm harm]
  rfl

/-- Arms are added exactly when the paths of those that are not catch-alls stay consistent
and disjoint. -/
theorem ArmTable.Describes.addArms (arms : List MatchArm) :
    ∀ {table : ArmTable} {paths : List (List Constructor)} (index : ℕ),
      table.Describes paths → Consistent Constructor.family paths → PathCover.Disjoint paths →
      (∀ arm ∈ arms, ∃ steps, path arm.pattern = .ok steps) →
      (Consistent Constructor.family (paths ++ namedPaths arms) ∧
          PathCover.Disjoint (paths ++ namedPaths arms) ∧
          ∃ final, table.addArms index arms = .ok final ∧
            final.Describes (paths ++ namedPaths arms)) ∨
        ((∀ final, table.addArms index arms ≠ .ok final) ∧
          ¬ (Consistent Constructor.family (paths ++ namedPaths arms) ∧
            PathCover.Disjoint (paths ++ namedPaths arms))) := by
  -- the arms before are in the table; the induction is on the arms that are left
  induction arms with
  | nil =>
    intro table paths index hdescribes hconsistent hdisjoint _
    rw [show namedPaths [] = [] from rfl, List.append_nil]
    exact Or.inl ⟨hconsistent, hdisjoint, table, rfl, hdescribes⟩
  | cons arm rest ih =>
    intro table paths index hdescribes hconsistent hdisjoint harms
    have hrest : ∀ other ∈ rest, ∃ steps, path other.pattern = .ok steps :=
      fun other hother => harms other (List.mem_cons_of_mem _ hother)
    rw [ArmTable.addArms]
    by_cases hcatchAll : arm.pattern.isCatchAll = true
    · rw [if_pos hcatchAll]
      have hnamed : namedPaths (arm :: rest) = namedPaths rest := by
        simp [namedPaths, hcatchAll]
      rw [hnamed]
      exact ih (index + 1) hdescribes hconsistent hdisjoint hrest
    · rw [if_neg hcatchAll]
      obtain ⟨steps, hsteps⟩ := harms arm List.mem_cons_self
      have hown : armPath arm = constructors steps := by
        unfold armPath
        rw [hsteps]
      have hnamed : paths ++ namedPaths (arm :: rest) =
          (paths ++ [constructors steps]) ++ namedPaths rest := by
        simp [namedPaths, hcatchAll, hown]
      rw [hnamed]
      rcases hdescribes.addArm hconsistent hdisjoint hsteps index with
        ⟨hnewConsistent, hnewDisjoint, next, hnext, hnextDescribes⟩ | ⟨hfails, hnot⟩
      · rw [hnext]
        exact ih (index + 1) hnextDescribes hnewConsistent hnewDisjoint hrest
      · refine Or.inr ⟨?_, ?_⟩
        · intro final hfinal
          obtain ⟨next, hnext, -⟩ := Result.bind_eq_ok.mp hfinal
          exact hfails next hnext
        · rintro ⟨hall, hapart⟩
          exact hnot ⟨hall.subset (List.subset_append_left _ _),
            List.Pairwise.sublist (List.sublist_append_left _ _) hapart⟩

/-- What a table describes after arms were added. -/
theorem ArmTable.Describes.of_addArms {arms : List MatchArm} {table final : ArmTable}
    {paths : List (List Constructor)} {index : ℕ} (hdescribes : table.Describes paths)
    (hconsistent : Consistent Constructor.family paths) (hdisjoint : PathCover.Disjoint paths)
    (harms : ∀ arm ∈ arms, ∃ steps, path arm.pattern = .ok steps)
    (hadded : table.addArms index arms = .ok final) :
    final.Describes (paths ++ namedPaths arms) ∧
      Consistent Constructor.family (paths ++ namedPaths arms) ∧
      PathCover.Disjoint (paths ++ namedPaths arms) := by
  rcases hdescribes.addArms arms index hconsistent hdisjoint harms with
    ⟨hall, hapart, found, hfound, hfinal⟩ | ⟨hfails, -⟩
  · rw [hadded, Except.ok.injEq] at hfound
    subst hfound
    exact ⟨hfinal, hall, hapart⟩
  · exact absurd hadded (hfails final)

/-- A catch-all arm is always refused. -/
theorem checkArms_eq_ok_iff (arms : List MatchArm) (subject : Option Family)
    (harms : ∀ arm ∈ arms, ∃ steps, path arm.pattern = .ok steps) :
    checkArms arms subject = .ok () ↔
      (∀ arm ∈ arms, arm.pattern.isCatchAll = false) ∧
        Consistent Constructor.family (arms.map armPath) ∧
          PathCover.Disjoint (arms.map armPath) := by
  have hcatchAll : arms.find? (fun arm => arm.pattern.isCatchAll) = none ↔
      ∀ arm ∈ arms, arm.pattern.isCatchAll = false := by
    rw [List.find?_eq_none]
    simp
  have hempty : Consistent Constructor.family [] := by
    intro left hleft
    cases hleft
  have hloop : (∀ arm ∈ arms, arm.pattern.isCatchAll = false) →
      ((∃ final, ArmTable.empty.addArms 0 arms = .ok final) ↔
        Consistent Constructor.family (arms.map armPath) ∧
          PathCover.Disjoint (arms.map armPath)) := by
    intro hnone
    have hadded := ArmTable.empty_describes.addArms arms 0 hempty List.Pairwise.nil harms
    rw [List.nil_append, namedPaths_of_named hnone] at hadded
    rcases hadded with ⟨hall, hapart, final, hfinal, -⟩ | ⟨hfails, hnot⟩
    · exact ⟨fun _ => ⟨hall, hapart⟩, fun _ => ⟨final, hfinal⟩⟩
    · refine ⟨?_, fun hpaths => absurd hpaths hnot⟩
      rintro ⟨final, hfinal⟩
      exact absurd hfinal (hfails final)
  unfold checkArms
  rw [Result.bind_eq_ok]
  constructor
  · rintro ⟨table, htable, hrest⟩
    cases hfind : arms.find? (fun arm => arm.pattern.isCatchAll) with
    | some catchAll =>
      rw [hfind] at hrest
      cases hrest
    | none =>
      have hnone := hcatchAll.mp hfind
      exact ⟨hnone, (hloop hnone).mp ⟨table, htable⟩⟩
  · rintro ⟨hnone, hpaths⟩
    obtain ⟨table, htable⟩ := (hloop hnone).mpr hpaths
    refine ⟨table, htable, ?_⟩
    rw [hcatchAll.mpr hnone]
    rfl

theorem armPaths_eq_ok {arms : List MatchArm}
    (harms : ∀ arm ∈ arms, ∃ steps, path arm.pattern = .ok steps) :
    armPaths arms = .ok (arms.map armPath) := by
  induction arms with
  | nil => rfl
  | cons arm rest ih =>
    obtain ⟨steps, hsteps⟩ := harms arm List.mem_cons_self
    have hrest := ih (fun other hother => harms other (List.mem_cons_of_mem _ hother))
    unfold armPaths
    rw [hsteps, hrest, List.map_cons]
    unfold armPath
    rw [hsteps]
    rfl

theorem checkExhaustive_eq_ok_iff {arms : List MatchArm} (span : Span)
    (harms : ∀ arm ∈ arms, ∃ steps, path arm.pattern = .ok steps)
    (hconsistent : Consistent Constructor.family (arms.map armPath)) :
    checkExhaustive arms span = .ok () ↔ Complete Constructor.family (arms.map armPath) := by
  rw [← missing_eq_nil_iff hconsistent]
  unfold checkExhaustive
  rw [armPaths_eq_ok harms]
  simp only [bind, Except.bind]
  by_cases hmissing : missing (arms.map armPath) = []
  · simp [hmissing, pure, Except.pure]
  · simp [hmissing]

end Krit
