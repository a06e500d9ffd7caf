import Krit.Ast
import Krit.Lib.PathCover
import Krit.Lib.Result

/-!
# Which match arms may stand together

A pattern constrains a single path into the matched value, so it is described by
the constructors it requires from the outside in.  `check_arms` keeps two ordered
maps keyed by path while it walks the arms: where each earlier arm ends, and the
family that continues each of their proper initial parts.  `check_exhaustive`
lists the paths that are missing.

The main results say what the two checks accept: arms none of which matches every
value, whose paths are consistent and disjoint, and complete.
-/

namespace Krit

open Std PathCover

/-! ## Diagnostics -/

inductive DiagnosticCode where
  | k1003
  | k3005
  | k4001
  | k4006
  | k4008
  | k4009
  | k4010
  deriving DecidableEq, Repr

/-- An error diagnostic. -/
structure Diagnostic where
  code : DiagnosticCode
  message : String
  span : Span
  notes : List String
  deriving DecidableEq, Repr

namespace Diagnostic

def new (code : DiagnosticCode) (message : String) (span : Span) : Diagnostic :=
  { code, message, span, notes := [] }

def withNote (diagnostic : Diagnostic) (note : String) : Diagnostic :=
  { diagnostic with notes := diagnostic.notes ++ [note] }

end Diagnostic

/-! ## Constructors -/

/-- A variant or list constructor on a pattern's path, in its canonical order. -/
inductive Constructor where
  | some
  | none
  | ok
  | err
  | empty
  | cons
  deriving DecidableEq, Repr

/-- The built-in family of a constructor. -/
inductive Family where
  | option
  | result
  | list
  deriving DecidableEq, Repr

namespace Family

def constructors : Family → List Constructor
  | .option => [.some, .none]
  | .result => [.ok, .err]
  | .list => [.empty, .cons]

def described : Family → String
  | .option => "an `Option`"
  | .result => "a `Result`"
  | .list => "a `List`"

end Family

namespace Constructor

/-- The position in the declaration order, which is the derived order. -/
def rank : Constructor → ℕ
  | .some => 0
  | .none => 1
  | .ok => 2
  | .err => 3
  | .empty => 4
  | .cons => 5

instance : Ord Constructor := ⟨fun left right => compare left.rank right.rank⟩

instance : TransOrd Constructor where
  eq_swap := by
    intro left right
    cases left <;> cases right <;> rfl
  isLE_trans := by
    intro first second third
    cases first <;> cases second <;> cases third <;> decide

instance : LawfulEqOrd Constructor where
  compare_self := by
    intro constructor
    cases constructor <;> rfl
  eq_of_compare := by
    intro left right
    cases left <;> cases right <;> decide

def fromVariant : VariantName → Constructor
  | .some => .some
  | .none => .none
  | .ok => .ok
  | .err => .err

def family : Constructor → Family
  | .some | .none => .option
  | .ok | .err => .result
  | .empty | .cons => .list

/-- The constructor as a pattern that matches all of its values. -/
def openPattern : Constructor → String
  | .some => "Some(_)"
  | .none => "None"
  | .ok => "Ok(_)"
  | .err => "Err(_)"
  | .empty => "[]"
  | .cons => "[_, .._]"

def name : Constructor → String
  | .some => "Some"
  | .none => "None"
  | .ok => "Ok"
  | .err => "Err"
  | .empty => "[]"
  | .cons => "[_, .._]"

end Constructor

theorem Family.mem_constructors (family : Family) (constructor : Constructor) :
    constructor ∈ family.constructors ↔ constructor.family = family := by
  cases family <;> cases constructor <;> decide

/-! ## Paths -/

/-- A constructor of a path and the span of the pattern that requires it. -/
structure Step where
  constructor : Constructor
  span : Span
  deriving DecidableEq, Repr

def constructors (steps : List Step) : List Constructor := steps.map Step.constructor

/-- The path of a pattern, or `K1003` for a shape that the parser never builds. -/
def path : Pattern → Except Diagnostic (List Step)
  | ⟨.binder _, _⟩ | ⟨.wildcard, _⟩ => .ok []
  | ⟨.emptyList, span⟩ => .ok [⟨.empty, span⟩]
  | ⟨.cons head tail, span⟩ =>
      if !head.isCatchAll || !tail.isCatchAll then
        .error (.new .k1003 "the head and tail of a list pattern are names or `_`" span)
      else .ok [⟨.cons, span⟩]
  | ⟨.variant .none none, span⟩ => .ok [⟨.none, span⟩]
  | ⟨.variant .none (some _), span⟩ =>
      .error (.new .k1003 "`None` does not bind a value" span)
  | ⟨.variant variant (some payload), span⟩ =>
      (path payload).map (⟨Constructor.fromVariant variant, span⟩ :: ·)
  | ⟨.variant variant none, span⟩ =>
      .error (.new .k1003 ("`" ++ variant.asStr ++ "` must bind one value") span)
termination_by structural pattern => pattern

/-- The pattern in its canonical spelling. -/
def Pattern.render : Pattern → String
  | ⟨.binder name, _⟩ => name
  | ⟨.wildcard, _⟩ => "_"
  | ⟨.emptyList, _⟩ => "[]"
  | ⟨.cons head tail, _⟩ => "[" ++ head.render ++ ", .." ++ tail.render ++ "]"
  | ⟨.variant variant none, _⟩ => variant.asStr
  | ⟨.variant variant (some payload), _⟩ => variant.asStr ++ "(" ++ payload.render ++ ")"
termination_by structural pattern => pattern

/-- The sub-pattern at a number of steps down the path. -/
def subPattern : Pattern → ℕ → Pattern
  | ⟨.variant _ (some payload), _⟩, depth + 1 => subPattern payload depth
  | pattern, _ => pattern
termination_by structural pattern => pattern

/-- The pattern that requires the path and matches everything below it. -/
def renderPath (path : List Constructor) : String :=
  match path.getLast? with
  | none => "_"
  | some last =>
      String.join (path.dropLast.map fun constructor => constructor.name ++ "(") ++
        last.openPattern ++ String.join (path.dropLast.map fun _ => ")")

def quoted (text : String) : String := "`" ++ text ++ "`"

def quotedList (paths : List (List Constructor)) : String :=
  String.intercalate ", " (paths.map fun path => quoted (renderPath path))

def armList (paths : List (List Constructor)) : String :=
  let arms := paths.map fun path => quoted (renderPath path ++ " => ...")
  match arms.getLast? with
  | none => ""
  | some last =>
      if arms.dropLast = [] then last
      else String.intercalate ", " arms.dropLast ++ " and " ++ last

/-! ## Missing paths -/

/-- The maps that `missing` builds: the family that continues each proper initial
part of a path, and the initial parts that some path continues. -/
structure Continuations where
  prefixes : TreeMap (List Constructor) Family
  continued : TreeSet (List Constructor)

/-- One step of a path: the constructors before it, and itself. -/
def Continuations.note (table : Continuations) (path : List Constructor) (length : ℕ) :
    Continuations :=
  match path[length]? with
  | none => table
  | some constructor =>
      { prefixes := table.prefixes.insertIfNew (path.take length) constructor.family
        continued := table.continued.insert (path.take (length + 1)) }

def continuations (paths : List (List Constructor)) : Continuations :=
  paths.foldl
    (fun table path => (List.range path.length).foldl (fun table length => table.note path length)
      table)
    { prefixes := ∅, continued := ∅ }

/-- The paths missing from a consistent set of disjoint paths: at each proper
initial part, each constructor of its family that continues no path. -/
def missing (paths : List (List Constructor)) : List (List Constructor) :=
  let table := continuations paths
  let found := table.prefixes.toList.flatMap fun entry =>
    (entry.2.constructors.map fun constructor => entry.1 ++ [constructor]).filter
      fun candidate => !table.continued.contains candidate
  found.mergeSort fun left right => (compare left right).isLE

/-! ## Arms against each other -/

/-- What `check_arms` remembers of the earlier arms. -/
structure ArmTable where
  /-- Where each arm's path ends, with the arm's position. -/
  ends : TreeMap (List Constructor) (ℕ × MatchArm)
  /-- The family that continues each proper initial part, with the first arm. -/
  families : TreeMap (List Constructor) (Family × MatchArm)

namespace ArmTable

def empty : ArmTable := { ends := ∅, families := ∅ }

def duplicateArm (arm other : MatchArm) : Diagnostic :=
  (Diagnostic.new .k1003
    ("duplicate match arm: " ++ quoted arm.pattern.render ++
      " matches exactly what the earlier arm " ++ quoted other.pattern.render ++ " matches")
    arm.pattern.span).withNote "remove one of the two arms"

def unreachableArm (arm other : MatchArm) : Diagnostic :=
  (Diagnostic.new .k1003
    ("unreachable match arm: the earlier arm " ++ quoted other.pattern.render ++
      " already matches every value " ++ quoted arm.pattern.render ++ " matches")
    arm.pattern.span).withNote "remove this arm"

def otherFamily (arm other : MatchArm) (depth : ℕ) (step : Step) (family : Family) : Diagnostic :=
  (Diagnostic.new .k1003
    (quoted (subPattern arm.pattern depth).render ++ " is " ++
      step.constructor.family.described ++ " pattern, but the earlier arm " ++
      quoted other.pattern.render ++ " matches " ++ family.described ++ " value here")
    step.span).withNote
      ("each position of a match takes the patterns of one family: `Some` and `None`, `Ok` " ++
        "and `Err`, or `[]` and `[head, ..tail]`")

/-- The checks of one depth: no earlier arm ends here, and the earlier arms that go
on do so with the same family. -/
def checkDepth (table : ArmTable) (arm : MatchArm) (steps : List Step) (depth : ℕ) :
    Except Diagnostic Unit :=
  let own := constructors steps
  match table.ends[own.take depth]? with
  | some (_, other) =>
      .error (if depth = own.length then duplicateArm arm other else unreachableArm arm other)
  | none =>
      match steps[depth]? with
      | none => .ok ()
      | some step =>
          match table.families[own.take depth]? with
          | some (family, other) =>
              if family ≠ step.constructor.family then
                .error (otherFamily arm other depth step family)
              else .ok ()
          | none => .ok ()

/-- The earlier arms whose paths extend the given one: the entries after it, as
long as they do. -/
def narrower (table : ArmTable) (own : List Constructor) :
    List (List Constructor × ℕ × MatchArm) :=
  (table.ends.toList.filter fun entry => compare own entry.1 = .lt).takeWhile
    fun entry => own.isPrefixOf entry.1

/-- The entry of the earliest arm (`min_by_key`). -/
def earliest : List (List Constructor × ℕ × MatchArm) → Option MatchArm
  | [] => none
  | first :: rest =>
      some (rest.foldl (fun best entry => if entry.2.1 < best.2.1 then entry else best) first).2.2

def overlapsNarrower (arm first : MatchArm) (paths : List (List Constructor))
    (own : List Constructor) : Diagnostic :=
  let remainder := (missing paths).filter fun path => own.isPrefixOf path
  if remainder = [] then
    (Diagnostic.new .k1003
      ("unreachable match arm: earlier arms already match every value " ++
        quoted arm.pattern.render ++ " matches")
      arm.pattern.span).withNote "remove this arm"
  else
    (Diagnostic.new .k1003
      ("match arm " ++ quoted arm.pattern.render ++ " overlaps the earlier arm " ++
        quoted first.pattern.render ++ ": arms may not overlap")
      arm.pattern.span).withNote
        ("name each remaining outcome instead: replace " ++
          quoted (arm.pattern.render ++ " => ...") ++ " with " ++ armList remainder)

def noteFamilies (table : ArmTable) (arm : MatchArm) (own : List Constructor) : ArmTable :=
  (List.range own.length).foldl
    (fun table depth =>
      match own[depth]? with
      | none => table
      | some constructor =>
          { table with
            families := table.families.insertIfNew (own.take depth) (constructor.family, arm) })
    table

/-- Checks an arm that is not a catch-all against the earlier ones. -/
def addArm (table : ArmTable) (index : ℕ) (arm : MatchArm) : Except Diagnostic ArmTable := do
  let steps ← path arm.pattern
  let own := constructors steps
  Result.forEach (table.checkDepth arm steps) (List.range (own.length + 1))
  let overlapping := table.narrower own
  match earliest overlapping with
  | some first => throw (overlapsNarrower arm first (overlapping.map Prod.fst) own)
  | none =>
      let noted := table.noteFamilies arm own
      pure { noted with ends := noted.ends.insert own (index, arm) }

/-- The loop over the arms. -/
def addArms (table : ArmTable) (index : ℕ) : List MatchArm → Except Diagnostic ArmTable
  | [] => .ok table
  | arm :: rest =>
      if arm.pattern.isCatchAll then addArms table (index + 1) rest
      else do
        let table ← table.addArm index arm
        addArms table (index + 1) rest

end ArmTable

/-- The error for a catch-all arm, which names the outcomes it stands for. -/
def catchAllArm (catchAll : MatchArm) (named : List (List Constructor))
    (subject : Option Family) : Diagnostic :=
  let remainder :=
    if named = [] then
      subject.map fun family => family.constructors.map fun constructor => [constructor]
    else some (missing named)
  let note :=
    match remainder with
    | some [] =>
        "name every outcome: the other arms already do, so remove " ++
          quoted (catchAll.pattern.render ++ " => ...")
    | some remainder =>
        "name every outcome: replace " ++ quoted (catchAll.pattern.render ++ " => ...") ++
          " with " ++ armList remainder
    | none =>
        "name every outcome with its own arm, such as `Some(value)` and `None`, `Ok(value)` " ++
          "and `Err(error)`, or `[]` and `[head, ..tail]`"
  let what :=
    match catchAll.pattern.kind with
    | .wildcard => "`_`"
    | _ => "the name " ++ quoted catchAll.pattern.render
  (Diagnostic.new .k3005
    ("a match arm cannot match every value: " ++ what ++
      " would stand for outcomes it does not name")
    catchAll.pattern.span).withNote note

/-- Within the arms that are not catch-alls, one family at each position and no
overlap; and then no catch-all arm. -/
def checkArms (arms : List MatchArm) (subject : Option Family) : Except Diagnostic Unit := do
  let table ← ArmTable.empty.addArms 0 arms
  match arms.find? (fun arm => arm.pattern.isCatchAll) with
  | none => pure ()
  | some catchAll => throw (catchAllArm catchAll table.ends.keys subject)

def armPaths : List MatchArm → Except Diagnostic (List (List Constructor))
  | [] => .ok []
  | arm :: rest => do
      let steps ← path arm.pattern
      let paths ← armPaths rest
      pure (constructors steps :: paths)

def checkExhaustive (arms : List MatchArm) (span : Span) : Except Diagnostic Unit := do
  let paths ← armPaths arms
  let missing := missing paths
  if missing = [] then pure ()
  else
    throw ((Diagnostic.new .k3005
      ("non-exhaustive match; missing: " ++ quotedList missing) span).withNote
        ("add an arm for each missing pattern: " ++ armList missing))

end Krit
