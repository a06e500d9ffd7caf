import Mathlib.Tactic
import Mathlib.Data.List.Infix
import Mathlib.Data.List.Pairwise

/-!
# Covering spines by paths

A path is a list of constructors from the outside in, and a path matches a spine
when it is an initial part of it.  Constructors come in families.  At every
position that a set of paths reaches, its paths continue with constructors of one
family; the spines that follow these families are each matched by exactly one
path if and only if no path begins another and every constructor of a family is
continued wherever one of them is.
-/

namespace PathCover

variable {α φ : Type}

/-- The paths continue each position they reach with constructors of one family. -/
def Consistent (family : α → φ) (paths : List (List α)) : Prop :=
  ∀ left ∈ paths, ∀ right ∈ paths, ∀ position first second,
    position ++ [first] <+: left → position ++ [second] <+: right →
      family first = family second

/-- Neither of two paths begins the other. -/
def Apart (left right : List α) : Prop := ¬ left <+: right ∧ ¬ right <+: left

def Disjoint (paths : List (List α)) : Prop := paths.Pairwise Apart

/-- Wherever a constructor continues a path, so does every constructor of its
family. -/
def Complete (family : α → φ) (paths : List (List α)) : Prop :=
  ∀ path ∈ paths, ∀ position constructor, position ++ [constructor] <+: path →
    ∀ other, family other = family constructor →
      ∃ continued ∈ paths, position ++ [other] <+: continued

/-- The spine follows the family of every position it shares with a path. -/
def Conforms (family : α → φ) (paths : List (List α)) (spine : List α) : Prop :=
  ∀ path ∈ paths, ∀ position constructor, position ++ [constructor] <+: path →
    position <+: spine →
      ∃ own, position ++ [own] <+: spine ∧ family own = family constructor

instance : Std.Symm (Apart : List α → List α → Prop) where
  symm _ _ hapart := ⟨hapart.2, hapart.1⟩

theorem Disjoint.apart {paths : List (List α)} (hdisjoint : Disjoint paths)
    {left right : List α} (hleft : left ∈ paths) (hright : right ∈ paths)
    (hne : left ≠ right) : Apart left right :=
  List.Pairwise.forall hdisjoint hleft hright hne

/-- A proper initial part has a next constructor. -/
theorem exists_next {position whole : List α} (hinitial : position <+: whole)
    (hne : position ≠ whole) : ∃ next, position ++ [next] <+: whole := by
  obtain ⟨rest, hrest⟩ := hinitial
  cases rest with
  | nil =>
    rw [List.append_nil] at hrest
    exact absurd hrest hne
  | cons next more =>
    refine ⟨next, more, ?_⟩
    rw [List.append_assoc]
    exact hrest

/-- Two continuations of one position inside one list are the same. -/
theorem next_unique {position whole : List α} {first second : α}
    (hfirst : position ++ [first] <+: whole) (hsecond : position ++ [second] <+: whole) :
    first = second := by
  have hlength : (position ++ [first]).length = (position ++ [second]).length := by simp
  have hsame : position ++ [first] = position ++ [second] :=
    List.prefix_of_prefix_length_le hfirst hsecond hlength.le |>.eq_of_length hlength
  simpa using hsame

theorem initial_of_next {position whole : List α} {next : α}
    (hnext : position ++ [next] <+: whole) : position <+: whole :=
  (List.prefix_append position [next]).trans hnext

theorem ne_of_next {position whole : List α} {next : α}
    (hnext : position ++ [next] <+: whole) : position ≠ whole := by
  intro heq
  have hlength := hnext.length_le
  rw [← heq, List.length_append] at hlength
  simp at hlength

theorem next_iff_getElem {position whole : List α} {next : α} :
    position ++ [next] <+: whole ↔
      whole.take position.length = position ∧ whole[position.length]? = some next := by
  constructor
  · rintro ⟨rest, hrest⟩
    subst hrest
    simp
  · rintro ⟨htake, hnext⟩
    refine ⟨whole.drop (position.length + 1), ?_⟩
    obtain ⟨hlength, hget⟩ := List.getElem?_eq_some_iff.mp hnext
    calc
      position ++ [next] ++ whole.drop (position.length + 1) =
          whole.take position.length ++ whole.drop position.length := by
        rw [htake, List.append_assoc, List.drop_eq_getElem_cons hlength, hget]
        rfl
      _ = whole := List.take_append_drop _ _

theorem take_next {whole : List α} {depth : ℕ} {next : α} (hnext : whole[depth]? = some next) :
    whole.take depth ++ [next] <+: whole := by
  obtain ⟨hdepth, -⟩ := List.getElem?_eq_some_iff.mp hnext
  rw [next_iff_getElem, List.length_take, min_eq_left hdepth.le]
  exact ⟨rfl, hnext⟩

/-- Fewer paths stay consistent. -/
theorem Consistent.subset {family : α → φ} {paths others : List (List α)}
    (hconsistent : Consistent family paths) (hsubset : others ⊆ paths) :
    Consistent family others := by
  intro left hleft right hright
  exact hconsistent left (hsubset hleft) right (hsubset hright)

/-! ## Order

In the lexicographic order, what extends a path comes right after it. -/

section Order

variable [Ord α] [Std.TransOrd α] [Std.LawfulEqOrd α]

omit [Std.TransOrd α] in
theorem compare_lt_of_extends {own longer : List α} (hextends : own <+: longer)
    (hne : own ≠ longer) : compare own longer = .lt := by
  induction own generalizing longer with
  | nil =>
    cases longer with
    | nil => exact absurd rfl hne
    | cons next rest => exact List.compare_nil_cons
  | cons first own ih =>
    obtain ⟨rest, hrest⟩ := hextends
    subst hrest
    have hne' : own ≠ own ++ rest := by
      intro heq
      apply hne
      rw [List.cons_append, ← heq]
    rw [List.cons_append, List.compare_cons_cons, Std.ReflOrd.compare_self,
      ih (List.prefix_append own rest) hne']
    rfl

theorem extends_of_between {own middle longer : List α} (hlow : compare own middle = .lt)
    (hhigh : (compare middle longer).isLE) (hextends : own <+: longer) : own <+: middle := by
  induction own generalizing middle longer with
  | nil => exact List.nil_prefix
  | cons first own ih =>
    obtain ⟨rest, hrest⟩ := hextends
    subst hrest
    cases middle with
    | nil =>
      rw [List.compare_cons_nil] at hlow
      cases hlow
    | cons next middle =>
      rw [List.compare_cons_cons] at hlow
      rw [List.cons_append, List.compare_cons_cons] at hhigh
      have hsame : first = next := by
        cases hcompare : compare first next with
        | eq => exact Std.LawfulEqCmp.eq_of_compare hcompare
        | lt =>
          rw [Std.OrientedCmp.gt_of_lt hcompare] at hhigh
          cases hhigh
        | gt =>
          rw [hcompare] at hlow
          cases hlow
      subst hsame
      rw [Std.ReflOrd.compare_self] at hlow hhigh
      rw [List.cons_prefix_cons]
      exact ⟨rfl, ih hlow hhigh (List.prefix_append own rest)⟩

/-- In a sorted list, the entries right after a path that extend it are all its proper
extensions. -/
theorem mem_takeWhile_extensions [DecidableEq α] {β : Type} {entries : List (List α × β)}
    (hsorted : entries.Pairwise fun left right => compare left.1 right.1 = .lt)
    {own : List α} {entry : List α × β} :
    entry ∈ (entries.filter fun entry => compare own entry.1 = .lt).takeWhile
        (fun entry => own.isPrefixOf entry.1) ↔
      entry ∈ entries ∧ own ≠ entry.1 ∧ own <+: entry.1 := by
  have hproper : compare own entry.1 = .lt → own ≠ entry.1 := by
    intro hlt heq
    rw [← heq, Std.ReflOrd.compare_self] at hlt
    cases hlt
  have hbounds : ∀ other ∈ entries.filter fun entry => compare own entry.1 = .lt,
      compare own other.1 = .lt := by
    intro other hother
    simpa using (List.mem_filter.mp hother).2
  have hmem : entry ∈ entries.filter (fun entry => compare own entry.1 = .lt) ↔
      entry ∈ entries ∧ compare own entry.1 = .lt := by
    simp
  have htaken : ∀ list : List (List α × β),
      list.Pairwise (fun left right => compare left.1 right.1 = .lt) →
      (∀ other ∈ list, compare own other.1 = .lt) →
      (entry ∈ list.takeWhile (fun entry => own.isPrefixOf entry.1) ↔
        entry ∈ list ∧ own <+: entry.1) := by
    intro list
    induction list with
    | nil => simp
    | cons first rest ih =>
      intro hordered habove
      obtain ⟨hfirst, hrest⟩ := List.pairwise_cons.mp hordered
      have htail := ih hrest (fun other hother => habove other (List.mem_cons_of_mem _ hother))
      by_cases hextends : own <+: first.1
      · rw [List.takeWhile_cons, if_pos (List.isPrefixOf_iff_prefix.mpr hextends), List.mem_cons,
          List.mem_cons, htail]
        constructor
        · rintro (heq | ⟨hin, hext⟩)
          · exact ⟨.inl heq, heq ▸ hextends⟩
          · exact ⟨.inr hin, hext⟩
        · rintro ⟨heq | hin, hext⟩
          · exact .inl heq
          · exact .inr ⟨hin, hext⟩
      · rw [List.takeWhile_cons, if_neg (by rw [List.isPrefixOf_iff_prefix]; exact hextends)]
        constructor
        · intro hnil
          cases hnil
        · rintro ⟨hin, hext⟩
          exfalso
          apply hextends
          rcases List.mem_cons.mp hin with heq | hlater
          · exact heq ▸ hext
          · have hlow := habove first List.mem_cons_self
            have hhigh : (compare first.1 entry.1).isLE := by
              rw [hfirst entry hlater]
              rfl
            exact extends_of_between hlow hhigh hext
  rw [htaken _ (hsorted.filter _) hbounds, hmem]
  constructor
  · rintro ⟨⟨hin, hlt⟩, hext⟩
    exact ⟨hin, hproper hlt, hext⟩
  · rintro ⟨hin, hne, hext⟩
    exact ⟨⟨hin, compare_lt_of_extends hext hne⟩, hext⟩

/-- In a sorted list, the entries right after a path that extend it are none only
if no entry properly extends it. -/
theorem takeWhile_extensions_eq_nil_iff [DecidableEq α] {β : Type} {entries : List (List α × β)}
    (hsorted : entries.Pairwise fun left right => compare left.1 right.1 = .lt)
    (own : List α) :
    (entries.filter fun entry => compare own entry.1 = .lt).takeWhile
        (fun entry => own.isPrefixOf entry.1) = [] ↔
      ∀ entry ∈ entries, own ≠ entry.1 → ¬ own <+: entry.1 := by
  rw [List.eq_nil_iff_forall_not_mem]
  simp only [mem_takeWhile_extensions hsorted, not_and]

end Order

/-! ## Coverage -/

section Coverage

variable {family : α → φ} {paths : List (List α)}

-- The induction is on what is left of the spine below the position.
theorem exists_path_from (hcomplete : Complete family paths) {spine : List α}
    (hconforms : Conforms family paths spine) (left : ℕ) :
    ∀ position, spine.length - position.length = left → position <+: spine →
      (∃ path ∈ paths, ∃ next, position ++ [next] <+: path) →
      ∃ path ∈ paths, path <+: spine := by
  induction left with
  | zero =>
    intro position hleft hposition hreached
    obtain ⟨path, hpath, next, hnext⟩ := hreached
    obtain ⟨own, hown, -⟩ := hconforms path hpath position next hnext hposition
    have hlength := hown.length_le
    rw [List.length_append, List.length_singleton] at hlength
    omega
  | succ left ih =>
    intro position hleft hposition hreached
    obtain ⟨path, hpath, next, hnext⟩ := hreached
    obtain ⟨own, hown, hfamily⟩ := hconforms path hpath position next hnext hposition
    obtain ⟨continued, hcontinued, hbegins⟩ :=
      hcomplete path hpath position next hnext own hfamily
    by_cases hends : position ++ [own] = continued
    · exact ⟨continued, hcontinued, hends ▸ hown⟩
    · obtain ⟨deeper, hdeeper⟩ := exists_next hbegins hends
      apply ih (position ++ [own]) _ hown ⟨continued, hcontinued, deeper, hdeeper⟩
      rw [List.length_append, List.length_singleton]
      omega

theorem exists_path (hne : paths ≠ []) (hempty : [] ∉ paths)
    (hcomplete : Complete family paths) {spine : List α}
    (hconforms : Conforms family paths spine) : ∃ path ∈ paths, path <+: spine := by
  obtain ⟨first, hfirst⟩ := List.exists_mem_of_ne_nil paths hne
  have hnonempty : [] ≠ first := by
    intro heq
    subst heq
    exact hempty hfirst
  obtain ⟨next, hnext⟩ := exists_next List.nil_prefix hnonempty
  exact exists_path_from hcomplete hconforms _ [] rfl List.nil_prefix
    ⟨first, hfirst, next, hnext⟩

variable [DecidableEq α]

/-- How many of the paths match a spine. -/
def matching (paths : List (List α)) (spine : List α) : ℕ :=
  paths.countP fun path => path.isPrefixOf spine

theorem matching_le_one (hdisjoint : Disjoint paths) (spine : List α) :
    matching paths spine ≤ 1 := by
  unfold matching
  rw [List.countP_eq_length_filter]
  by_contra hmany
  have hapart : (paths.filter fun path => path.isPrefixOf spine).Pairwise Apart :=
    List.Pairwise.filter _ hdisjoint
  cases hmatches : paths.filter (fun path => path.isPrefixOf spine) with
  | nil =>
    rw [hmatches] at hmany
    simp at hmany
  | cons first rest =>
    cases rest with
    | nil =>
      rw [hmatches] at hmany
      simp at hmany
    | cons second others =>
      have hmem : ∀ path ∈ first :: second :: others, path <+: spine := by
        intro path hpath
        rw [← hmatches] at hpath
        exact List.isPrefixOf_iff_prefix.mp (List.mem_filter.mp hpath).2
      have hfirst : first <+: spine := hmem first (by simp)
      have hsecond : second <+: spine := hmem second (by simp)
      rw [hmatches] at hapart
      have hpair : Apart first second :=
        (List.pairwise_cons.mp hapart).1 second List.mem_cons_self
      rcases le_total first.length second.length with hle | hle
      · exact hpair.1 (List.prefix_of_prefix_length_le hfirst hsecond hle)
      · exact hpair.2 (List.prefix_of_prefix_length_le hsecond hfirst hle)

/-- Disjoint complete paths match every conforming spine exactly once. -/
theorem matching_eq_one (hne : paths ≠ []) (hempty : [] ∉ paths)
    (hdisjoint : Disjoint paths) (hcomplete : Complete family paths) {spine : List α}
    (hconforms : Conforms family paths spine) : matching paths spine = 1 := by
  obtain ⟨path, hpath, hmatches⟩ := exists_path hne hempty hcomplete hconforms
  have hpositive : 0 < matching paths spine :=
    List.countP_pos_iff.mpr ⟨path, hpath, List.isPrefixOf_iff_prefix.mpr hmatches⟩
  have hle := matching_le_one hdisjoint spine
  omega

/-! ## The converse -/

/-- Some path extends a given one and is itself extended by no path. -/
theorem exists_longest {path : List α} (hpath : path ∈ paths) :
    ∃ longest ∈ paths, path <+: longest ∧
      ∀ other ∈ paths, longest <+: other → other = longest := by
  let extensions := paths.filter fun other => path.isPrefixOf other
  have hself : path ∈ extensions :=
    List.mem_filter.mpr ⟨hpath, List.isPrefixOf_iff_prefix.mpr (List.prefix_refl path)⟩
  obtain ⟨longest, hlongest, hmax⟩ :=
    extensions.toFinset.exists_max_image List.length ⟨path, List.mem_toFinset.mpr hself⟩
  rw [List.mem_toFinset, List.mem_filter] at hlongest
  have hextends := List.isPrefixOf_iff_prefix.mp hlongest.2
  refine ⟨longest, hlongest.1, hextends, ?_⟩
  intro other hother hlonger
  have hmem : other ∈ extensions.toFinset := by
    rw [List.mem_toFinset, List.mem_filter]
    exact ⟨hother, List.isPrefixOf_iff_prefix.mpr (hextends.trans hlonger)⟩
  have hle := hmax other hmem
  exact (hlonger.eq_of_length_le hle).symm

/-- A spine that ends where no path goes on conforms, if the paths do at every
position before. -/
theorem conforms_of_last {spine : List α}
    (hlast : ∀ path ∈ paths, spine <+: path → path = spine)
    (hown : ∀ path ∈ paths, ∀ position own constructor, position ++ [own] <+: spine →
      position ++ [constructor] <+: path → family own = family constructor) :
    Conforms family paths spine := by
  intro path hpath position constructor hcontinues hposition
  by_cases hwhole : position = spine
  · subst hwhole
    have heq := hlast path hpath (initial_of_next hcontinues)
    exact absurd heq.symm (ne_of_next hcontinues)
  · obtain ⟨own, hnext⟩ := exists_next hposition hwhole
    exact ⟨own, hnext, hown path hpath position own constructor hnext hcontinues⟩

theorem disjoint_of_matching (hconsistent : Consistent family paths)
    (hmatching : ∀ spine ∈ paths, Conforms family paths spine → matching paths spine = 1) :
    Disjoint paths := by
  unfold Disjoint
  rw [List.pairwise_iff_forall_sublist]
  intro left right hsublist
  -- a longest path above both would be matched by both
  have hclash : ∀ longer ∈ paths,
      (∀ spine, longer <+: spine → 2 ≤ matching paths spine) → False := by
    intro longer hlonger htwice
    obtain ⟨longest, hmem, hextends, hlast⟩ := exists_longest hlonger
    have hconforms : Conforms family paths longest := by
      apply conforms_of_last hlast
      intro path hpath position own constructor hown hcontinues
      exact hconsistent longest hmem path hpath position own constructor hown hcontinues
    have hone := hmatching longest hmem hconforms
    have htwo := htwice longest hextends
    omega
  have htwice : ∀ spine, left <+: spine → right <+: spine → 2 ≤ matching paths spine := by
    intro spine hleft hright
    have hpair :
        ([left, right] : List (List α)).countP (fun path => path.isPrefixOf spine) = 2 := by
      simp [hleft, hright]
    unfold matching
    rw [← hpair]
    exact hsublist.countP_le
  have hleft : left ∈ paths := hsublist.subset (by simp)
  have hright : right ∈ paths := hsublist.subset (by simp)
  constructor
  · intro hbegins
    exact hclash right hright
      fun spine hspine => htwice spine (hbegins.trans hspine) hspine
  · intro hbegins
    exact hclash left hleft
      fun spine hspine => htwice spine hspine (hbegins.trans hspine)

theorem complete_of_matching (hconsistent : Consistent family paths)
    (hdisjoint : Disjoint paths)
    (hmatching : ∀ path ∈ paths, ∀ position constructor other,
      position ++ [constructor] <+: path → family other = family constructor →
      Conforms family paths (position ++ [other]) →
        matching paths (position ++ [other]) = 1) :
    Complete family paths := by
  intro path hpath position constructor hcontinues other hfamily
  by_contra hmissing
  push Not at hmissing
  have hconforms : Conforms family paths (position ++ [other]) := by
    apply conforms_of_last
    · intro longer hlonger hbegins
      exact absurd hbegins (hmissing longer hlonger)
    · intro longer hlonger before own next hown hnext
      by_cases hbefore : before = position
      · subst hbefore
        have hsame : own = other := next_unique hown (List.prefix_refl _)
        rw [hsame, hfamily]
        exact hconsistent path hpath longer hlonger before constructor next hcontinues hnext
      · have hshort : before ++ [own] <+: position := by
          rcases List.prefix_concat_iff.mp hown with hwhole | hinside
          · have hsplit := List.append_inj' hwhole rfl
            exact absurd hsplit.1 hbefore
          · exact hinside
        exact hconsistent path hpath longer hlonger before own next
          (hshort.trans (initial_of_next hcontinues)) hnext
  have hone := hmatching path hpath position constructor other hcontinues hfamily hconforms
  have hpositive : 0 < matching paths (position ++ [other]) := by omega
  obtain ⟨found, hfound, hmatches⟩ := List.countP_pos_iff.mp hpositive
  rw [List.isPrefixOf_iff_prefix] at hmatches
  rcases List.prefix_concat_iff.mp hmatches with hwhole | hinside
  · exact hmissing found hfound (hwhole ▸ List.prefix_refl _)
  · have hbegins : found <+: path := hinside.trans (initial_of_next hcontinues)
    have hne : found ≠ path := by
      intro heq
      subst heq
      have hlength := hcontinues.length_le
      have hshort := hinside.length_le
      rw [List.length_append, List.length_singleton] at hlength
      omega
    exact (hdisjoint.apart hfound hpath hne).1 hbegins

end Coverage

/-! ## Gaps

What a set of paths leaves over, as the shortest paths that none of them goes. -/

section Gaps

variable {family : α → φ} {paths : List (List α)}

/-- A path that leaves the given ones at its last constructor, which belongs to the
family that continues them there. -/
def Gap (family : α → φ) (paths : List (List α)) (candidate : List α) : Prop :=
  ∃ position constructor, candidate = position ++ [constructor] ∧
    (∃ path ∈ paths, ∃ other, position ++ [other] <+: path ∧ family other = family constructor) ∧
    ∀ path ∈ paths, ¬ candidate <+: path

/-- Before its last constructor, a gap runs along a path. -/
theorem Gap.along {gap : List α} (hgap : Gap family paths gap) {part : List α}
    (hpart : part <+: gap) (hne : part ≠ gap) : ∃ path ∈ paths, part <+: path ∧ part ≠ path := by
  obtain ⟨position, constructor, rfl, ⟨path, hpath, other, hother, -⟩, -⟩ := hgap
  have hposition : part <+: position := (List.prefix_concat_iff.mp hpart).resolve_left hne
  refine ⟨path, hpath, hposition.trans (initial_of_next hother), ?_⟩
  intro heq
  have hlength := hother.length_le
  have hshort := hposition.length_le
  rw [List.length_append, List.length_singleton, ← heq] at hlength
  omega

/-- The constructors of a gap continue its positions with the families of the paths. -/
theorem Gap.family_eq {gap : List α} (hgap : Gap family paths gap) {position : List α}
    {constructor : α} (hnext : position ++ [constructor] <+: gap) :
    ∃ path ∈ paths, ∃ other, position ++ [other] <+: path ∧ family other = family constructor := by
  by_cases hwhole : position ++ [constructor] = gap
  · obtain ⟨before, last, hlast, hfamily, -⟩ := hgap
    rw [← hwhole] at hlast
    obtain ⟨hbefore, hsame⟩ := List.append_inj' hlast rfl
    rw [hbefore, List.singleton_inj.mp hsame]
    exact hfamily
  · obtain ⟨path, hpath, hbegins, -⟩ := hgap.along hnext hwhole
    exact ⟨path, hpath, constructor, hbegins, rfl⟩

theorem Gap.apart_path (hdisjoint : Disjoint paths) {gap path : List α}
    (hgap : Gap family paths gap) (hpath : path ∈ paths) : Apart path gap := by
  have hleaves : ∀ other ∈ paths, ¬ gap <+: other := by
    obtain ⟨-, -, -, -, hnone⟩ := hgap
    exact hnone
  refine ⟨?_, hleaves path hpath⟩
  intro hbegins
  have hne : path ≠ gap := by
    intro heq
    exact hleaves path hpath (heq ▸ List.prefix_refl _)
  obtain ⟨other, hother, hinside, hproper⟩ := hgap.along hbegins hne
  exact (hdisjoint.apart hpath hother hproper).1 hinside

theorem Gap.apart_gap {left right : List α} (hleft : Gap family paths left)
    (hright : Gap family paths right) (hne : left ≠ right) : Apart left right := by
  have hbegins : ∀ {first second : List α}, Gap family paths first → Gap family paths second →
      first ≠ second → ¬ first <+: second := by
    intro first second hfirst hsecond hother hinside
    obtain ⟨path, hpath, hpart, -⟩ := hsecond.along hinside hother
    obtain ⟨-, -, -, -, hnone⟩ := hfirst
    exact hnone path hpath hpart
  exact ⟨hbegins hleft hright hne, hbegins hright hleft hne.symm⟩

variable {gaps : List (List α)}

theorem disjoint_append_gaps (hdisjoint : Disjoint paths) (hnodup : gaps.Nodup)
    (hgaps : ∀ gap ∈ gaps, Gap family paths gap) : Disjoint (paths ++ gaps) := by
  refine List.pairwise_append.mpr ⟨hdisjoint, ?_, ?_⟩
  · refine List.Pairwise.imp_of_mem ?_ hnodup
    intro left right hleft hright hne
    exact (hgaps left hleft).apart_gap (hgaps right hright) hne
  · intro path hpath gap hgap
    exact (hgaps gap hgap).apart_path hdisjoint hpath

theorem consistent_append_gaps {others : List (List α)} (hconsistent : Consistent family others)
    (hsubset : paths ⊆ others) (hgaps : ∀ gap ∈ gaps, Gap family paths gap) :
    Consistent family (others ++ gaps) := by
  -- every continuation stands for one of the same family on a path
  have halong : ∀ path ∈ others ++ gaps, ∀ position constructor,
      position ++ [constructor] <+: path →
        ∃ other ∈ others, ∃ next, position ++ [next] <+: other ∧
          family next = family constructor := by
    intro path hpath position constructor hnext
    rcases List.mem_append.mp hpath with hgiven | hgap
    · exact ⟨path, hgiven, constructor, hnext, rfl⟩
    · obtain ⟨other, hother, next, hbegins, hfamily⟩ := (hgaps path hgap).family_eq hnext
      exact ⟨other, hsubset hother, next, hbegins, hfamily⟩
  intro left hleft right hright position first second hfirst hsecond
  obtain ⟨leftPath, hleftPath, leftNext, hleftNext, hleftFamily⟩ :=
    halong left hleft position first hfirst
  obtain ⟨rightPath, hrightPath, rightNext, hrightNext, hrightFamily⟩ :=
    halong right hright position second hsecond
  rw [← hleftFamily, ← hrightFamily]
  exact hconsistent leftPath hleftPath rightPath hrightPath position leftNext rightNext hleftNext
    hrightNext

theorem complete_append_gaps (hgaps : ∀ candidate, candidate ∈ gaps ↔ Gap family paths candidate) :
    Complete family (paths ++ gaps) := by
  have hgiven : ∀ path ∈ paths, ∀ position constructor, position ++ [constructor] <+: path →
      ∀ other, family other = family constructor →
        ∃ continued ∈ paths ++ gaps, position ++ [other] <+: continued := by
    intro path hpath position constructor hnext other hfamily
    by_cases hcontinued : ∃ continued ∈ paths, position ++ [other] <+: continued
    · obtain ⟨continued, hmem, hbegins⟩ := hcontinued
      exact ⟨continued, List.mem_append_left _ hmem, hbegins⟩
    · push Not at hcontinued
      refine ⟨position ++ [other], List.mem_append_right _ ((hgaps _).mpr ?_), List.prefix_refl _⟩
      exact ⟨position, other, rfl, ⟨path, hpath, constructor, hnext, hfamily.symm⟩, hcontinued⟩
  intro path hpath position constructor hnext other hfamily
  rcases List.mem_append.mp hpath with hmem | hmem
  · exact hgiven path hmem position constructor hnext other hfamily
  · obtain ⟨along, halong, own, hown, hsame⟩ := ((hgaps path).mp hmem).family_eq hnext
    exact hgiven along halong position own hown other (hfamily.trans hsame.symm)

theorem conforms_append_gaps (hgaps : ∀ gap ∈ gaps, Gap family paths gap) {spine : List α}
    (hconforms : Conforms family paths spine) : Conforms family (paths ++ gaps) spine := by
  intro path hpath position constructor hnext hposition
  rcases List.mem_append.mp hpath with hmem | hmem
  · exact hconforms path hmem position constructor hnext hposition
  · obtain ⟨along, halong, other, hother, hfamily⟩ := (hgaps path hmem).family_eq hnext
    obtain ⟨own, hown, hsame⟩ := hconforms along halong position other hother hposition
    exact ⟨own, hown, hsame.trans hfamily⟩

variable [DecidableEq α]

/-- Paths and their gaps match every conforming spine exactly once. -/
theorem matching_append_gaps (hne : paths ≠ []) (hdisjoint : Disjoint paths)
    (hnodup : gaps.Nodup) (hgaps : ∀ candidate, candidate ∈ gaps ↔ Gap family paths candidate)
    {spine : List α} (hconforms : Conforms family paths spine) :
    matching (paths ++ gaps) spine = 1 := by
  have hall : ∀ gap ∈ gaps, Gap family paths gap := fun gap => (hgaps gap).mp
  have hdisjointAll := disjoint_append_gaps hdisjoint hnodup hall
  by_cases hempty : [] ∈ paths
  · -- the empty path matches every spine
    have hpositive : 0 < matching (paths ++ gaps) spine :=
      List.countP_pos_iff.mpr ⟨[], List.mem_append_left _ hempty, by simp⟩
    have hle := matching_le_one hdisjointAll spine
    omega
  · refine matching_eq_one (by simp [hne]) ?_ hdisjointAll (complete_append_gaps hgaps)
      (conforms_append_gaps hall hconforms)
    intro hmem
    rcases List.mem_append.mp hmem with hpath | hgap
    · exact hempty hpath
    · obtain ⟨position, constructor, hnil, -⟩ := hall [] hgap
      simp at hnil

/-- Among the gaps of paths that all extend a path, those that extend it too are left over
of what it matches. -/
theorem matching_remainder (hne : paths ≠ []) (hdisjoint : Disjoint paths) (hnodup : gaps.Nodup)
    (hgaps : ∀ candidate, candidate ∈ gaps ↔ Gap family paths candidate) {own : List α}
    (hextend : ∀ path ∈ paths, own <+: path) {spine : List α}
    (hconforms : Conforms family paths spine) :
    matching (paths ++ gaps.filter fun gap => own.isPrefixOf gap) spine =
      if own <+: spine then 1 else 0 := by
  split_ifs with hown
  · rw [← matching_append_gaps hne hdisjoint hnodup hgaps hconforms]
    unfold matching
    rw [List.countP_append, List.countP_append, List.countP_filter]
    congr 1
    refine List.countP_congr ?_
    intro gap hgap
    rw [Bool.and_eq_true, List.isPrefixOf_iff_prefix, List.isPrefixOf_iff_prefix]
    constructor
    · intro hboth
      exact hboth.1
    · intro hbegins
      refine ⟨hbegins, ?_⟩
      rcases le_total own.length gap.length with hle | hle
      · exact List.prefix_of_prefix_length_le hown hbegins hle
      · -- a gap does not begin a path, so it does not begin what the paths extend
        obtain ⟨path, hpath⟩ := List.exists_mem_of_ne_nil paths hne
        obtain ⟨-, -, -, -, hnone⟩ := (hgaps gap).mp hgap
        have hinside := List.prefix_of_prefix_length_le hbegins hown hle
        exact absurd (hinside.trans (hextend path hpath)) (hnone path hpath)
  · unfold matching
    rw [List.countP_eq_zero]
    intro path hpath hbegins
    rw [List.isPrefixOf_iff_prefix] at hbegins
    apply hown
    rcases List.mem_append.mp hpath with hmem | hmem
    · exact (hextend path hmem).trans hbegins
    · exact (List.isPrefixOf_iff_prefix.mp (List.mem_filter.mp hmem).2).trans hbegins

end Gaps

end PathCover
