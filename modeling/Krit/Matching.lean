import Krit.PatternChecks

/-!
# Matching values against patterns

The evaluator's values, `match_pattern` and `select_match_arm`, and the exactness
of the match checks: accepted arms match every value of their families exactly
once, whatever their order.
-/

namespace Krit

open Std PathCover

/-! ## Values -/

mutual

/-- A value of the evaluator. -/
inductive Value where
  | integer (value : ℤ)
  | boolean (value : Bool)
  | string (value : String)
  | unit
  | list (elements : List Value)
  | record (fields : List (String × Value))
  | variant (name : VariantName) (payload : Option Value)
  | function (function : FunctionValue)
  | builtin (function : Builtin)

/-- A closure with the bindings it captured, innermost first. -/
structure FunctionValue where
  name : Option String
  parameters : List String
  body : Block
  environment : List (String × Value)

end

/-- Bindings, innermost first. -/
abbrev Environment := List (String × Value)

def Environment.extend (environment : Environment) (name : String) (value : Value) :
    Environment :=
  (name, value) :: environment

mutual

/-- How many lists, records and variants nest in a value. -/
def Value.depth : Value → ℕ
  | .list elements => 1 + Value.depthOfAll elements
  | .record fields => 1 + Value.depthOfFields fields
  | .variant _ none => 1
  | .variant _ (some payload) => 1 + payload.depth
  | _ => 0

def Value.depthOfAll : List Value → ℕ
  | [] => 0
  | value :: rest => max value.depth (Value.depthOfAll rest)

def Value.depthOfFields : List (String × Value) → ℕ
  | [] => 0
  | (_, value) :: rest => max value.depth (Value.depthOfFields rest)

end

/-- The values that the evaluator builds: `None` alone carries no payload, and
nothing nests beyond the limit. -/
inductive Value.Built : Value → Prop
  | integer (value : ℤ) : Built (.integer value)
  | boolean (value : Bool) : Built (.boolean value)
  | string (value : String) : Built (.string value)
  | unit : Built .unit
  | list {elements : List Value} (helements : ∀ element ∈ elements, Built element)
      (hdepth : (Value.list elements).depth ≤ maxValueDepth) : Built (.list elements)
  | record {fields : List (String × Value)} (hfields : ∀ field ∈ fields, Built field.2)
      (hdepth : (Value.record fields).depth ≤ maxValueDepth) : Built (.record fields)
  | none : Built (.variant .none none)
  | variant {name : VariantName} {payload : Value} (hname : name.hasPayload = true)
      (hpayload : Built payload)
      (hdepth : (Value.variant name (some payload)).depth ≤ maxValueDepth) :
      Built (.variant name (some payload))
  | function (function : FunctionValue) : Built (.function function)
  | builtin (function : Builtin) : Built (.builtin function)

def variantFamilyName : VariantFamily → String
  | .option => "option"
  | .result => "result"

def Value.kind : Value → String
  | .integer _ => "integer"
  | .boolean _ => "boolean"
  | .string _ => "string"
  | .unit => "unit"
  | .list _ => "list"
  | .record _ => "record"
  | .variant name _ => variantFamilyName name.family
  | .function _ | .builtin _ => "function"

/-- Builds a list value, or fails with `K4010` when it nests too deeply. -/
def Value.listValue (elements : List Value) (span : Span) : Except Diagnostic Value :=
  if (Value.list elements).depth > maxValueDepth then
    .error (.new .k4010
      ("value depth limit exceeded: lists, records, and variants may nest at most " ++
        toString maxValueDepth ++ " levels") span)
  else .ok (.list elements)

/-! ## Matching -/

/-- The name a name or `_` pattern binds. -/
def binderName (pattern : Pattern) : String :=
  match pattern.kind with
  | .binder name => name
  | _ => "_"

def expectedList (value : Value) (span : Span) : Diagnostic :=
  .new .k4001 ("expected list, found " ++ value.kind) span

def expectedFamily (family : VariantFamily) (found : String) (span : Span) : Diagnostic :=
  .new .k4001
    ("expected " ++ variantFamilyName family ++ " for variant match, found " ++ found) span

/-- The environment extended with the names of the pattern, or `none` when it does
not match; a value of another kind than the pattern's family is `K4001`. -/
def matchPattern (pattern : Pattern) (value : Value) (span : Span) (environment : Environment) :
    Except Diagnostic (Option Environment) :=
  match pattern with
  | ⟨.binder name, _⟩ => .ok (some (environment.extend name value))
  | ⟨.wildcard, _⟩ => .ok (some (environment.extend "_" value))
  | ⟨.emptyList, _⟩ =>
      match value with
      | .list [] => .ok (some environment)
      | .list _ => .ok none
      | _ => .error (expectedList value span)
  | ⟨.cons head tail, _⟩ =>
      match value with
      | .list (first :: rest) => do
          let rest ← Value.listValue rest span
          .ok (some ((environment.extend (binderName head) first).extend (binderName tail) rest))
      | .list [] => .ok none
      | _ => .error (expectedList value span)
  | ⟨.variant variant payload, _⟩ =>
      match value with
      | .variant name carried =>
          if name.family ≠ variant.family then
            .error (expectedFamily variant.family (variantFamilyName name.family) span)
          else if name ≠ variant then .ok none
          else
            match payload, carried with
            | some payload, some carried => matchPattern payload carried span environment
            | none, none => .ok (some environment)
            | _, _ =>
                .error (.new .k4001
                  ("`" ++ name.asStr ++ "` pattern has the wrong payload shape") span)
      | _ => .error (expectedFamily variant.family value.kind span)
termination_by structural pattern

/-- What `select_match_arm` says the subject is when no arm matches. -/
def Value.shape : Value → String
  | .variant name _ => "`" ++ name.asStr ++ "`"
  | .list [] => "an empty list"
  | .list _ => "a non-empty list"
  | value => value.kind

/-- The value of the first arm whose pattern matches, with the environment that
binds its names. -/
def selectMatchArm (subject : Value) (span : Span) (arms : List MatchArm)
    (environment : Environment) : Except Diagnostic (Expression × Environment) :=
  match arms with
  | [] => .error (.new .k4001 ("no match arm matches " ++ subject.shape) span)
  | arm :: rest => do
      match ← matchPattern arm.pattern subject span environment with
      | some bound => .ok (arm.value, bound)
      | none => selectMatchArm subject span rest environment

/-- Whether a pattern matches a value: `match_pattern` returns an environment. -/
def Pattern.matchesValue (pattern : Pattern) (value : Value) (span : Span)
    (environment : Environment) : Bool :=
  match matchPattern pattern value span environment with
  | .ok (some _) => true
  | _ => false

/-! ## The patterns of the parser -/

/-- The patterns that the parser builds with a number of nesting levels left: only
`None` binds nothing, and the parts of a list pattern are names or `_`. -/
inductive Pattern.ParserBuilt : ℕ → Pattern → Prop
  | binder (levels : ℕ) (name : String) (span : Span) : ParserBuilt levels ⟨.binder name, span⟩
  | wildcard (levels : ℕ) (span : Span) : ParserBuilt levels ⟨.wildcard, span⟩
  | emptyList (levels : ℕ) (span : Span) : ParserBuilt levels ⟨.emptyList, span⟩
  | cons (levels : ℕ) {head tail : Pattern} (span : Span) (hhead : head.isCatchAll = true)
      (htail : tail.isCatchAll = true) : ParserBuilt levels ⟨.cons head tail, span⟩
  | none (levels : ℕ) (span : Span) : ParserBuilt levels ⟨.variant .none none, span⟩
  | variant {levels : ℕ} {variant : VariantName} {payload : Pattern} (span : Span)
      (hvariant : variant.hasPayload = true) (hpayload : ParserBuilt levels payload) :
      ParserBuilt (levels + 1) ⟨.variant variant (some payload), span⟩

/-- The constructors of a value from the outside in, as far as patterns can see. -/
def Value.spine : Value → List Constructor
  | .list [] => [.empty]
  | .list (_ :: _) => [.cons]
  | .variant name none => [Constructor.fromVariant name]
  | .variant name (some payload) => Constructor.fromVariant name :: payload.spine
  | _ => []

/-! ## Paths of parsed patterns -/

/-- Whether values of the constructor carry a payload that patterns can see. -/
def Constructor.carries : Constructor → Bool
  | .some | .ok | .err => true
  | _ => false

theorem Constructor.carries_fromVariant (variant : VariantName) :
    (Constructor.fromVariant variant).carries = variant.hasPayload := by
  cases variant <;> rfl

theorem Constructor.fromVariant_injective {left right : VariantName}
    (heq : Constructor.fromVariant left = Constructor.fromVariant right) : left = right := by
  cases left <;> cases right <;> first | rfl | cases heq

/-- Only the last constructor may carry nothing. -/
def Spinal (constructors : List Constructor) : Prop :=
  ∀ constructor ∈ constructors.dropLast, constructor.carries = true

theorem Spinal.cons {constructor : Constructor} {rest : List Constructor}
    (hcarries : constructor.carries = true) (hrest : Spinal rest) :
    Spinal (constructor :: rest) := by
  intro other hother
  cases rest with
  | nil => cases hother
  | cons next more =>
    rw [List.dropLast_cons_cons] at hother
    rcases List.mem_cons.mp hother with hfirst | hlater
    · rw [hfirst]
      exact hcarries
    · exact hrest other hlater

theorem Spinal.next {position whole : List Constructor} {next other : Constructor}
    (hspinal : Spinal whole) (hnext : position ++ [next] <+: whole) :
    Spinal (position ++ [other]) := by
  intro constructor hconstructor
  rw [List.dropLast_concat] at hconstructor
  apply hspinal
  obtain ⟨rest, hrest⟩ := hnext
  rw [← hrest, List.append_assoc, List.dropLast_append_of_ne_nil (by simp)]
  exact List.mem_append_left _ hconstructor

/-- The path of a pattern of the parser: at most one constructor for each nesting
level and one more. -/
theorem Pattern.ParserBuilt.path {levels : ℕ} {pattern : Pattern}
    (hbuilt : pattern.ParserBuilt levels) :
    ∃ steps, Krit.path pattern = .ok steps ∧ (constructors steps).length ≤ levels + 1 ∧
      Spinal (constructors steps) ∧ (steps = [] ↔ pattern.isCatchAll = true) := by
  induction hbuilt with
  | binder levels name span => exact ⟨[], rfl, by simp [constructors], by simp [Spinal,
      constructors], by simp [Pattern.isCatchAll]⟩
  | wildcard levels span => exact ⟨[], rfl, by simp [constructors], by simp [Spinal,
      constructors], by simp [Pattern.isCatchAll]⟩
  | emptyList levels span => exact ⟨[⟨.empty, span⟩], rfl, by simp [constructors],
      by simp [Spinal, constructors], by simp [Pattern.isCatchAll]⟩
  | none levels span => exact ⟨[⟨.none, span⟩], rfl, by simp [constructors],
      by simp [Spinal, constructors], by simp [Pattern.isCatchAll]⟩
  | cons levels span hhead htail =>
    refine ⟨[⟨.cons, span⟩], ?_, by simp [constructors], by simp [Spinal, constructors],
      by simp [Pattern.isCatchAll]⟩
    simp [Krit.path, hhead, htail]
  | @variant levels variant payload span hvariant _ ih =>
    obtain ⟨steps, hsteps, hlength, hspinal, -⟩ := ih
    refine ⟨⟨Constructor.fromVariant variant, span⟩ :: steps, ?_, ?_, ?_,
      by simp [Pattern.isCatchAll]⟩
    · have hne : variant ≠ .none := by
        intro heq
        subst heq
        cases hvariant
      cases variant with
      | none => exact absurd rfl hne
      | some | ok | err => simp [Krit.path, hsteps, Except.map]
    · simp only [constructors, List.map_cons, List.length_cons] at hlength ⊢
      omega
    · exact Spinal.cons ((Constructor.carries_fromVariant variant).trans hvariant) hspinal

/-! ## A value for every spine -/

/-- A value with the given constructors and nothing below them. -/
def valueOf : List Constructor → Value
  | [] => .unit
  | .empty :: _ => .list []
  | .cons :: _ => .list [.unit]
  | .none :: _ => .variant .none none
  | .some :: rest => .variant .some (some (valueOf rest))
  | .ok :: rest => .variant .ok (some (valueOf rest))
  | .err :: rest => .variant .err (some (valueOf rest))

theorem spine_valueOf {constructors : List Constructor} (hspinal : Spinal constructors) :
    (valueOf constructors).spine = constructors := by
  induction constructors with
  | nil => rfl
  | cons constructor rest ih =>
    have hrest : Spinal rest := by
      intro other hother
      apply hspinal
      cases rest with
      | nil => cases hother
      | cons next more =>
        rw [List.dropLast_cons_cons]
        exact List.mem_cons_of_mem _ hother
    have hlast : constructor.carries = false → rest = [] := by
      intro hcarries
      cases rest with
      | nil => rfl
      | cons next more =>
        have hmem : constructor ∈ (constructor :: next :: more).dropLast := by simp
        rw [hspinal constructor hmem] at hcarries
        cases hcarries
    cases constructor with
    | some | ok | err => simp [valueOf, Value.spine, Constructor.fromVariant, ih hrest]
    | none | empty | cons =>
      rw [hlast rfl]
      rfl

theorem depth_valueOf (constructors : List Constructor) :
    (valueOf constructors).depth ≤ constructors.length := by
  induction constructors with
  | nil => simp [valueOf, Value.depth]
  | cons constructor rest ih =>
    cases constructor <;>
      simp only [valueOf, Value.depth, Value.depthOfAll, List.length_cons] <;> omega

theorem built_valueOf {constructors : List Constructor}
    (hlength : constructors.length ≤ maxValueDepth) : (valueOf constructors).Built := by
  induction constructors with
  | nil => exact .unit
  | cons constructor rest ih =>
    have hdepth := (depth_valueOf (constructor :: rest)).trans hlength
    have hrest : (valueOf rest).Built := ih (by
      rw [List.length_cons] at hlength
      omega)
    cases constructor with
    | some => exact .variant rfl hrest hdepth
    | ok => exact .variant rfl hrest hdepth
    | err => exact .variant rfl hrest hdepth
    | none => exact .none
    | empty => exact .list (by simp) hdepth
    | cons =>
      refine .list ?_ hdepth
      intro element helement
      rw [List.mem_singleton] at helement
      subst helement
      exact .unit

/-! ## Matching follows the path -/

/-- The spine follows the families of one path as far as they agree. -/
def Follows (own spine : List Constructor) : Prop :=
  ∀ position constructor, position ++ [constructor] <+: own → position <+: spine →
    ∃ other, position ++ [other] <+: spine ∧ other.family = constructor.family

theorem Follows.head {constructor : Constructor} {own spine : List Constructor}
    (hfollows : Follows (constructor :: own) spine) :
    ∃ other rest, spine = other :: rest ∧ other.family = constructor.family := by
  obtain ⟨other, ⟨rest, hrest⟩, hfamily⟩ :=
    hfollows [] constructor ⟨own, rfl⟩ List.nil_prefix
  exact ⟨other, rest, hrest.symm, hfamily⟩

theorem Follows.tail {constructor : Constructor} {own spine : List Constructor}
    (hfollows : Follows (constructor :: own) (constructor :: spine)) : Follows own spine := by
  intro position next hnext hposition
  obtain ⟨other, hother, hfamily⟩ := hfollows (constructor :: position) next
    (by simpa using hnext) (by simpa using hposition)
  exact ⟨other, by simpa using hother, hfamily⟩

theorem Value.spine_of_list {value : Value} {constructor : Constructor}
    {rest : List Constructor} (hspine : value.spine = constructor :: rest)
    (hfamily : constructor.family = .list) : ∃ elements, value = .list elements := by
  cases value with
  | list elements => exact ⟨elements, rfl⟩
  | variant name payload =>
    cases payload with
    | none | some payload =>
      simp only [Value.spine, List.cons.injEq] at hspine
      rw [← hspine.1] at hfamily
      cases name <;> cases hfamily
  | integer | boolean | string | unit | record | function | builtin =>
    simp [Value.spine] at hspine

/-- The variant family of a constructor family. -/
def VariantFamily.constructorFamily : VariantFamily → Family
  | .option => .option
  | .result => .result

theorem Constructor.family_fromVariant (variant : VariantName) :
    (Constructor.fromVariant variant).family = variant.family.constructorFamily := by
  cases variant <;> rfl

theorem Value.spine_of_variant {value : Value} {constructor : Constructor}
    {rest : List Constructor} {family : VariantFamily}
    (hspine : value.spine = constructor :: rest)
    (hfamily : constructor.family = family.constructorFamily) :
    ∃ name payload, value = .variant name payload ∧ name.family = family := by
  cases value with
  | list elements =>
    cases elements with
    | nil | cons first others =>
      simp only [Value.spine, List.cons.injEq] at hspine
      rw [← hspine.1] at hfamily
      cases family <;> cases hfamily
  | variant name payload =>
    refine ⟨name, payload, rfl, ?_⟩
    cases payload with
    | none | some payload =>
      simp only [Value.spine, List.cons.injEq] at hspine
      rw [← hspine.1, Constructor.family_fromVariant] at hfamily
      cases hname : name.family <;> cases family <;> rw [hname] at hfamily <;>
        first | rfl | cases hfamily
  | integer | boolean | string | unit | record | function | builtin =>
    simp [Value.spine] at hspine

/-- On a value that follows the families of its path, a pattern matches exactly when
the value starts with the path, and never fails. -/
theorem matchPattern_spec {levels : ℕ} {pattern : Pattern}
    (hbuilt : pattern.ParserBuilt levels) (span : Span) (environment : Environment) :
    ∀ {value : Value} {steps : List Step}, value.Built → path pattern = .ok steps →
      Follows (constructors steps) value.spine →
      (constructors steps <+: value.spine ∧
          ∃ bound, matchPattern pattern value span environment = .ok (some bound)) ∨
        (¬ constructors steps <+: value.spine ∧
          matchPattern pattern value span environment = .ok none) := by
  induction hbuilt with
  | binder levels name patternSpan =>
    intro value steps _ hpath _
    cases hpath
    exact Or.inl ⟨List.nil_prefix, _, rfl⟩
  | wildcard levels patternSpan =>
    intro value steps _ hpath _
    cases hpath
    exact Or.inl ⟨List.nil_prefix, _, rfl⟩
  | emptyList levels patternSpan =>
    intro value steps _ hpath hfollows
    cases hpath
    obtain ⟨other, rest, hspine, hfamily⟩ := hfollows.head
    obtain ⟨elements, helements⟩ := Value.spine_of_list hspine hfamily
    subst helements
    cases elements with
    | nil => exact Or.inl ⟨List.prefix_refl _, environment, rfl⟩
    | cons first others => exact Or.inr ⟨by simp [Value.spine, constructors], rfl⟩
  | @cons levels head tail patternSpan hhead htail =>
    intro value steps hvalue hpath hfollows
    simp only [path, hhead, htail, Bool.not_true, Bool.or_self, Bool.false_eq_true, if_false,
      Except.ok.injEq] at hpath
    subst hpath
    obtain ⟨other, rest, hspine, hfamily⟩ := hfollows.head
    obtain ⟨elements, helements⟩ := Value.spine_of_list hspine hfamily
    subst helements
    cases elements with
    | nil => exact Or.inr ⟨by simp [Value.spine, constructors], rfl⟩
    | cons first others =>
      left
      refine ⟨List.prefix_refl _, ?_⟩
      -- the tail nests no deeper than the list it came from
      have hdepth : (Value.list (first :: others)).depth ≤ maxValueDepth := by
        cases hvalue with
        | list _ hdepth => exact hdepth
      have htailDepth : ¬ (Value.list others).depth > maxValueDepth := by
        simp only [Value.depth, Value.depthOfAll] at hdepth ⊢
        omega
      have hrest : Value.listValue others span = .ok (.list others) := by
        unfold Value.listValue
        rw [if_neg htailDepth]
      refine ⟨(environment.extend (binderName head) first).extend (binderName tail)
        (.list others), ?_⟩
      simp only [matchPattern, hrest, bind, Except.bind]
  | none levels patternSpan =>
    intro value steps hvalue hpath hfollows
    cases hpath
    obtain ⟨other, rest, hspine, hfamily⟩ := hfollows.head
    obtain ⟨name, payload, hname, hfamilyName⟩ :=
      Value.spine_of_variant hspine
        (show other.family = VariantFamily.option.constructorFamily from hfamily)
    subst hname
    cases hvalue with
    | none => exact Or.inl ⟨List.prefix_refl _, environment, rfl⟩
    | variant hcarries _ _ =>
      right
      have hne : name ≠ .none := by
        intro heq
        subst heq
        cases hcarries
      cases name with
      | none => exact absurd rfl hne
      | some => exact ⟨by simp [Value.spine, constructors, Constructor.fromVariant], rfl⟩
      | ok | err => cases hfamilyName
  | @variant levels variant payload patternSpan hvariant hpayload ih =>
    intro value steps hvalue hpath hfollows
    obtain ⟨inner, hinner, -, -, -⟩ := hpayload.path
    have hsteps : steps = ⟨Constructor.fromVariant variant, patternSpan⟩ :: inner := by
      cases variant with
      | none => cases hvariant
      | some | ok | err =>
        simp only [path, hinner, Except.map, Except.ok.injEq] at hpath
        exact hpath.symm
    subst hsteps
    have hown : constructors (⟨Constructor.fromVariant variant, patternSpan⟩ :: inner) =
        Constructor.fromVariant variant :: constructors inner := rfl
    rw [hown] at hfollows ⊢
    obtain ⟨other, rest, hspine, hfamily⟩ := hfollows.head
    obtain ⟨name, carried, hname, hfamilyName⟩ :=
      Value.spine_of_variant hspine (hfamily.trans (Constructor.family_fromVariant variant))
    subst hname
    by_cases hsame : name = variant
    · subst hsame
      cases hvalue with
      | none => cases hvariant
      | @variant _ inside _ hinside _ =>
        have htail : Follows (constructors inner) inside.spine := hfollows.tail
        have hmatch : matchPattern ⟨.variant name (some payload), patternSpan⟩
            (.variant name (some inside)) span environment =
              matchPattern payload inside span environment := by
          rw [matchPattern, if_neg (by simp), if_neg (by simp)]
        rw [hmatch]
        have hspineCons : (Value.variant name (some inside)).spine =
            Constructor.fromVariant name :: inside.spine := rfl
        rw [hspineCons, List.cons_prefix_cons, eq_self, true_and]
        exact ih hinside hinner htail
    · right
      constructor
      · rw [hspine, List.cons_prefix_cons]
        rintro ⟨hhead, -⟩
        apply hsame
        cases carried with
        | none | some carried =>
          simp only [Value.spine, List.cons.injEq] at hspine
          exact Constructor.fromVariant_injective (hspine.1.trans hhead.symm)
      · rw [matchPattern.eq_def]
        simp only [ne_eq, hfamilyName, not_true_eq_false, if_false, hsame, not_false_eq_true,
          if_true]

/-! ## Selecting an arm -/

theorem selectMatchArm_of_match (value : Value) (span : Span) (environment : Environment)
    {arms : List MatchArm}
    (hruns : ∀ arm ∈ arms, ∃ found, matchPattern arm.pattern value span environment = .ok found)
    (hmatch : ∃ arm ∈ arms, arm.pattern.matchesValue value span environment = true) :
    ∃ arm ∈ arms, ∃ bound,
      matchPattern arm.pattern value span environment = .ok (some bound) ∧
        selectMatchArm value span arms environment = .ok (arm.value, bound) := by
  induction arms with
  | nil =>
    obtain ⟨arm, harm, -⟩ := hmatch
    cases harm
  | cons arm rest ih =>
    obtain ⟨found, hfound⟩ := hruns arm List.mem_cons_self
    cases found with
    | some bound =>
      refine ⟨arm, List.mem_cons_self, bound, hfound, ?_⟩
      simp only [selectMatchArm, hfound, bind, Except.bind]
    | none =>
      have hrest : ∃ other ∈ rest,
          other.pattern.matchesValue value span environment = true := by
        obtain ⟨other, hother, hmatches⟩ := hmatch
        rcases List.mem_cons.mp hother with heq | hlater
        · subst heq
          simp [Pattern.matchesValue, hfound] at hmatches
        · exact ⟨other, hlater, hmatches⟩
      obtain ⟨chosen, hchosen, bound, hbound, hselect⟩ :=
        ih (fun other hother => hruns other (List.mem_cons_of_mem _ hother)) hrest
      refine ⟨chosen, List.mem_cons_of_mem _ hchosen, bound, hbound, ?_⟩
      simp only [selectMatchArm, hfound, bind, Except.bind]
      exact hselect

/-- Where exactly one element of a list passes a test, any two that pass are the
same. -/
theorem eq_of_countP_eq_one {α : Type} {test : α → Bool} {elements : List α}
    (hone : elements.countP test = 1) {left right : α} (hleft : left ∈ elements)
    (hright : right ∈ elements) (hleftTest : test left = true)
    (hrightTest : test right = true) : left = right := by
  rw [List.countP_eq_length_filter, List.length_eq_one_iff] at hone
  obtain ⟨only, honly⟩ := hone
  have hleftMem : left ∈ elements.filter test := List.mem_filter.mpr ⟨hleft, hleftTest⟩
  have hrightMem : right ∈ elements.filter test := List.mem_filter.mpr ⟨hright, hrightTest⟩
  rw [honly, List.mem_singleton] at hleftMem hrightMem
  rw [hleftMem, hrightMem]

/-! ## Exactness -/

/-- The arms pass both checks of a match. -/
def Accepted (arms : List MatchArm) (subject : Option Family) (span : Span) : Prop :=
  checkArms arms subject = .ok () ∧ checkExhaustive arms span = .ok ()

/-- The arms are patterns that the parser builds. -/
def ParsedArms (arms : List MatchArm) : Prop :=
  ∀ arm ∈ arms, arm.pattern.ParserBuilt maxNestingDepth

/-- A value whose constructors belong to the families of the positions that the
arms reach. -/
def OfFamilies (arms : List MatchArm) (value : Value) : Prop :=
  value.Built ∧ Conforms Constructor.family (arms.map armPath) value.spine

/-- No arm matches every value, each position takes one family, and every value of
these families is matched by exactly one arm. -/
def Exact (arms : List MatchArm) (span : Span) (environment : Environment) : Prop :=
  (∀ arm ∈ arms, arm.pattern.isCatchAll = false) ∧
    Consistent Constructor.family (arms.map armPath) ∧
    ∀ value, OfFamilies arms value →
      arms.countP (fun arm => arm.pattern.matchesValue value span environment) = 1

section Exactness

variable {arms : List MatchArm}

theorem ParsedArms.path (hparsed : ParsedArms arms) :
    ∀ arm ∈ arms, ∃ steps, Krit.path arm.pattern = .ok steps := by
  intro arm harm
  obtain ⟨steps, hsteps, -⟩ := (hparsed arm harm).path
  exact ⟨steps, hsteps⟩

theorem ParsedArms.armPath {arm : MatchArm} (hparsed : ParsedArms arms) (harm : arm ∈ arms) :
    (armPath arm).length ≤ maxNestingDepth + 1 ∧ Spinal (armPath arm) ∧
      (armPath arm = [] ↔ arm.pattern.isCatchAll = true) := by
  obtain ⟨steps, hsteps, hlength, hspinal, hcatchAll⟩ := (hparsed arm harm).path
  have hown : Krit.armPath arm = constructors steps := by
    unfold Krit.armPath
    rw [hsteps]
  rw [hown, ← hcatchAll]
  exact ⟨hlength, hspinal, by simp [constructors]⟩

/-- On a value of the arms' families, no pattern fails, and each matches exactly
when the value starts with its path. -/
theorem OfFamilies.matches {value : Value} (hvalue : OfFamilies arms value)
    (hparsed : ParsedArms arms) (span : Span) (environment : Environment) {arm : MatchArm}
    (harm : arm ∈ arms) :
    (∃ found, matchPattern arm.pattern value span environment = .ok found) ∧
      (arm.pattern.matchesValue value span environment = true ↔
        armPath arm <+: value.spine) := by
  obtain ⟨steps, hsteps, -⟩ := (hparsed arm harm).path
  have hown : armPath arm = constructors steps := by
    unfold armPath
    rw [hsteps]
  have hfollows : Follows (constructors steps) value.spine := by
    intro position constructor hnext hposition
    exact hvalue.2 (armPath arm) (List.mem_map_of_mem harm) position constructor
      (hown ▸ hnext) hposition
  rw [hown]
  rcases matchPattern_spec (hparsed arm harm) span environment hvalue.1 hsteps hfollows with
    ⟨hbegins, bound, hmatch⟩ | ⟨hbegins, hmatch⟩
  · exact ⟨⟨_, hmatch⟩, by simp [Pattern.matchesValue, hmatch, hbegins]⟩
  · exact ⟨⟨_, hmatch⟩, by simp [Pattern.matchesValue, hmatch, hbegins]⟩

theorem OfFamilies.countP {value : Value} (hvalue : OfFamilies arms value)
    (hparsed : ParsedArms arms) (span : Span) (environment : Environment) :
    arms.countP (fun arm => arm.pattern.matchesValue value span environment) =
      matching (arms.map armPath) value.spine := by
  unfold matching
  rw [List.countP_map]
  apply List.countP_congr
  intro arm harm
  rw [(hvalue.matches hparsed span environment harm).2]
  exact List.isPrefixOf_iff_prefix.symm

/-- The two checks accept exactly the exact arm lists. -/
theorem accepted_iff_exact (hne : arms ≠ []) (hparsed : ParsedArms arms)
    (subject : Option Family) (span subjectSpan : Span) (environment : Environment) :
    Accepted arms subject span ↔ Exact arms subjectSpan environment := by
  have hpaths := hparsed.path
  have hempty : (∀ arm ∈ arms, arm.pattern.isCatchAll = false) → [] ∉ arms.map armPath := by
    intro hcatchAll hmem
    obtain ⟨arm, harm, heq⟩ := List.mem_map.mp hmem
    have htrue := (hparsed.armPath harm).2.2.mp heq
    rw [hcatchAll arm harm] at htrue
    cases htrue
  unfold Accepted Exact
  rw [checkArms_eq_ok_iff arms subject hpaths]
  constructor
  · rintro ⟨⟨hcatchAll, hconsistent, hdisjoint⟩, hexhaustive⟩
    rw [checkExhaustive_eq_ok_iff span hpaths hconsistent] at hexhaustive
    refine ⟨hcatchAll, hconsistent, ?_⟩
    intro value hvalue
    rw [hvalue.countP hparsed]
    exact matching_eq_one (by simpa using hne) (hempty hcatchAll) hdisjoint hexhaustive hvalue.2
  · rintro ⟨hcatchAll, hconsistent, hone⟩
    -- a spine that the paths lead to is the spine of a value
    have hspine : ∀ spine, Spinal spine → spine.length ≤ maxValueDepth →
        Conforms Constructor.family (arms.map armPath) spine →
          matching (arms.map armPath) spine = 1 := by
      intro spine hspinal hlength hconforms
      have hsame := spine_valueOf hspinal
      have hvalue : OfFamilies arms (valueOf spine) :=
        ⟨built_valueOf hlength, by rw [hsame]; exact hconforms⟩
      have hcount := hone (valueOf spine) hvalue
      rw [hvalue.countP hparsed, hsame] at hcount
      exact hcount
    have hbound : maxNestingDepth + 1 ≤ maxValueDepth := by decide
    have hdisjoint : PathCover.Disjoint (arms.map armPath) := by
      apply disjoint_of_matching hconsistent
      intro spine hmem hconforms
      obtain ⟨arm, harm, heq⟩ := List.mem_map.mp hmem
      obtain ⟨hlength, hspinal, -⟩ := hparsed.armPath harm
      rw [heq] at hlength hspinal
      exact hspine spine hspinal (hlength.trans hbound) hconforms
    refine ⟨⟨hcatchAll, hconsistent, hdisjoint⟩, ?_⟩
    rw [checkExhaustive_eq_ok_iff span hpaths hconsistent]
    apply complete_of_matching hconsistent hdisjoint
    intro path hmem position constructor other hnext _ hconforms
    obtain ⟨arm, harm, heq⟩ := List.mem_map.mp hmem
    obtain ⟨hlength, hspinal, -⟩ := hparsed.armPath harm
    rw [heq] at hlength hspinal
    have hle := hnext.length_le
    rw [List.length_append, List.length_singleton] at hle
    refine hspine _ (hspinal.next hnext) ?_ hconforms
    rw [List.length_append, List.length_singleton]
    omega

theorem Exact.perm {others : List MatchArm} {span : Span} {environment : Environment}
    (hexact : Exact arms span environment) (hperm : others.Perm arms) :
    Exact others span environment := by
  obtain ⟨hcatchAll, hconsistent, hone⟩ := hexact
  have hmapPerm : (others.map armPath).Perm (arms.map armPath) := hperm.map armPath
  refine ⟨fun arm harm => hcatchAll arm (hperm.subset harm),
    hconsistent.subset hmapPerm.subset, ?_⟩
  intro value hvalue
  rw [hperm.countP_eq]
  refine hone value ⟨hvalue.1, ?_⟩
  intro path hpath
  exact hvalue.2 path (hmapPerm.symm.subset hpath)

end Exactness

/-- Match checking is exact: arms of the parser are accepted if and only if they
match every value of their families exactly once; acceptance does not depend on
their order, and neither does the arm that a value of their families selects. -/
theorem match_checking_exact (arms : List MatchArm) (hne : arms ≠ [])
    (hparsed : ParsedArms arms) (subject : Option Family) (span subjectSpan : Span)
    (environment : Environment) :
    (Accepted arms subject span ↔ Exact arms subjectSpan environment) ∧
    (∀ others : List MatchArm, others.Perm arms →
      (Accepted others subject span ↔ Accepted arms subject span)) ∧
    (Accepted arms subject span → ∀ others : List MatchArm, others.Perm arms →
      ∀ value, OfFamilies arms value →
        ∃ arm ∈ arms, ∃ bound,
          matchPattern arm.pattern value subjectSpan environment = .ok (some bound) ∧
          selectMatchArm value subjectSpan arms environment = .ok (arm.value, bound) ∧
          selectMatchArm value subjectSpan others environment = .ok (arm.value, bound)) := by
  have hiff := accepted_iff_exact hne hparsed subject span subjectSpan environment
  have hothers : ∀ others : List MatchArm, others.Perm arms →
      others ≠ [] ∧ ParsedArms others := by
    intro others hperm
    refine ⟨?_, fun arm harm => hparsed arm (hperm.subset harm)⟩
    intro hnil
    subst hnil
    exact hne hperm.nil_eq.symm
  refine ⟨hiff, ?_, ?_⟩
  · intro others hperm
    obtain ⟨hothersNe, hothersParsed⟩ := hothers others hperm
    rw [hiff, accepted_iff_exact hothersNe hothersParsed subject span subjectSpan environment]
    exact ⟨fun hexact => hexact.perm hperm.symm, fun hexact => hexact.perm hperm⟩
  · intro haccepted others hperm value hvalue
    obtain ⟨-, -, hone⟩ := hiff.mp haccepted
    have hcount := hone value hvalue
    have hruns : ∀ arm ∈ arms, ∃ found,
        matchPattern arm.pattern value subjectSpan environment = .ok found :=
      fun arm harm => (hvalue.matches hparsed subjectSpan environment harm).1
    have hmatch : ∃ arm ∈ arms,
        arm.pattern.matchesValue value subjectSpan environment = true := by
      apply List.countP_pos_iff.mp
      omega
    obtain ⟨arm, harm, bound, hbound, hselect⟩ :=
      selectMatchArm_of_match value subjectSpan environment hruns hmatch
    obtain ⟨other, hother, otherBound, hotherBound, hotherSelect⟩ :=
      selectMatchArm_of_match value subjectSpan environment
        (fun arm harm => hruns arm (hperm.subset harm))
        (by
          obtain ⟨found, hfound, hmatches⟩ := hmatch
          exact ⟨found, hperm.symm.subset hfound, hmatches⟩)
    have hsame : arm = other := by
      apply eq_of_countP_eq_one hcount harm (hperm.subset hother)
      · simp [Pattern.matchesValue, hbound]
      · simp [Pattern.matchesValue, hotherBound]
    subst hsame
    rw [hbound, Except.ok.injEq, Option.some.injEq] at hotherBound
    subst hotherBound
    exact ⟨arm, harm, bound, hbound, hselect, hotherSelect⟩

/-- `None => (), Some(value) => ()`. -/
def optionArms : List MatchArm :=
  [⟨⟨.variant .none none, ⟨10, 14⟩⟩, ⟨.unit, ⟨18, 20⟩⟩, ⟨10, 20⟩⟩,
    ⟨⟨.variant .some (some ⟨.binder "value", ⟨27, 32⟩⟩), ⟨22, 33⟩⟩, ⟨.unit, ⟨37, 39⟩⟩,
      ⟨22, 39⟩⟩]

theorem match_checking_exact_option :
    Accepted optionArms none ⟨0, 41⟩ ∧ Exact optionArms ⟨6, 7⟩ [] := by
  have hparsed : ParsedArms optionArms := by
    intro arm harm
    rw [optionArms, List.mem_cons, List.mem_singleton] at harm
    rcases harm with heq | heq
    · subst heq
      exact .none _ _
    · subst heq
      exact .variant _ rfl (.binder _ _ _)
  have haccepted : Accepted optionArms none ⟨0, 41⟩ :=
    ⟨Result.eq_ok_of_toBool (by decide +kernel), Result.eq_ok_of_toBool (by decide +kernel)⟩
  exact ⟨haccepted,
    (match_checking_exact optionArms (by simp [optionArms]) hparsed none ⟨0, 41⟩ ⟨6, 7⟩ []).1.mp
      haccepted⟩

end Krit
