import Krit.CoreCollection
import Krit.CoreTyping

/-!
# Verified Core is type-safe

A run of a verified function on arguments and captures of its declared types
never meets a fault, every block yields a value of the block's type, and every
exit returns a value of the enclosing function's result type; module
initialization never exits.

The verifier lets two things pass that a run can stumble over.  Some blocks may
declare parameters that nothing supplies: a function body, the block of a block
operation, the branches of an `if` and the empty arm of a list match;
`CoreModule.plainBlocks` says that none of these declares any.  And a record
type that names a field twice is taken for one that names two fields;
`CoreModule.distinctFields` says that no value and no block has such a type.
-/

namespace Krit

open Interp Result

/-! ## Blocks that receive no values -/

mutual

/-- Blocks that are entered without values declare no parameters, at any depth. -/
def CoreBlock.plainBlocks : CoreBlock → Bool
  | ⟨_, _, operations, _, _, _, _, _⟩ => operationsPlain operations

def operationsPlain : List CoreOperation → Bool
  | [] => true
  | ⟨_, _, _, _, _, kind⟩ :: rest => kind.plainBlocks && operationsPlain rest

def OperationKind.plainBlocks : OperationKind → Bool
  | .block block => block.parameters.isEmpty && block.plainBlocks
  | .if _ consequent alternative =>
      consequent.parameters.isEmpty && consequent.plainBlocks &&
        (alternative.parameters.isEmpty && alternative.plainBlocks)
  | .matchList _ empty _ _ cons =>
      empty.parameters.isEmpty && empty.plainBlocks && cons.plainBlocks
  | .matchVariant _ _ arms => armsPlain arms
  | _ => true

def armsPlain : List VariantArmBlock → Bool
  | [] => true
  | ⟨_, _, block⟩ :: rest => block.plainBlocks && armsPlain rest

end

def CoreModule.plainBlocks (target : CoreModule) : Bool :=
  target.functions.all fun function =>
    function.body.parameters.isEmpty && function.body.plainBlocks

/-! ## Types whose fields are distinct -/

mutual

/-- The result types that the blocks nested in a block declare. -/
def CoreBlock.blockTypes : CoreBlock → List Ty
  | ⟨_, _, operations, _, ty, _, _, _⟩ => ty :: operationsBlockTypes operations

def operationsBlockTypes : List CoreOperation → List Ty
  | [] => []
  | ⟨_, _, _, _, _, kind⟩ :: rest => kind.blockTypes ++ operationsBlockTypes rest

def OperationKind.blockTypes : OperationKind → List Ty
  | .block block => block.blockTypes
  | .if _ consequent alternative => consequent.blockTypes ++ alternative.blockTypes
  | .matchList _ empty _ _ cons => empty.blockTypes ++ cons.blockTypes
  | .matchVariant _ _ arms => armsBlockTypes arms
  | _ => []

def armsBlockTypes : List VariantArmBlock → List Ty
  | [] => []
  | ⟨_, _, block⟩ :: rest => block.blockTypes ++ armsBlockTypes rest

end

/-- The types of the values and of the blocks of a function. -/
def CoreFunction.types (function : CoreFunction) : List Ty :=
  function.definitions.map Prod.snd ++ function.body.blockTypes

def CoreModule.distinctFields (target : CoreModule) : Bool :=
  target.functions.all fun function => function.types.all Ty.distinctFields

theorem CoreModule.distinctFields_iff {target : CoreModule} :
    target.distinctFields = true ↔
      ∀ function ∈ target.functions, ∀ ty ∈ function.types, ty.distinctFields = true := by
  simp [CoreModule.distinctFields]

/-! ## Admissible instances -/

mutual

/-- The operations of a block, at any depth. -/
def CoreBlock.nested : CoreBlock → List CoreOperation
  | ⟨_, _, operations, _, _, _, _, _⟩ => operationsNested operations

def operationsNested : List CoreOperation → List CoreOperation
  | [] => []
  | ⟨result, ty, effects, requirements, source, kind⟩ :: rest =>
      ⟨result, ty, effects, requirements, source, kind⟩ ::
        (kind.nested ++ operationsNested rest)

def OperationKind.nested : OperationKind → List CoreOperation
  | .block block => block.nested
  | .if _ consequent alternative => consequent.nested ++ alternative.nested
  | .matchList _ empty _ _ cons => empty.nested ++ cons.nested
  | .matchVariant _ _ arms => armsNested arms
  | _ => []

def armsNested : List VariantArmBlock → List CoreOperation
  | [] => []
  | ⟨_, _, block⟩ :: rest => block.nested ++ armsNested rest

end

def CoreModule.operations (target : CoreModule) : List CoreOperation :=
  target.functions.flatMap fun function => function.body.nested

def CoreModule.definitions (target : CoreModule) : List (ValueId × Ty) :=
  target.functions.flatMap CoreFunction.definitions

/-- What the verifier asks of the left operand's type, asked of an instance. -/
def operandAdmissible (operator : BinaryOperator) (ty : Ty) : Bool :=
  match operator with
  | .add | .less | .lessEqual | .greater | .greaterEqual =>
      Verifier.verifyBinary.isOperandType ty
  | .equal | .notEqual => typeContainsNoFunction ty
  | _ => true

/-- The instances of a module's residual variables at which its operators still
pass the verifier's check of their operand types. -/
structure CoreModule.Admissible (target : CoreModule) (assign : ℕ → Ty) : Prop where
  operands : ∀ operation ∈ target.operations, ∀ left operator right,
    operation.kind = .binary left operator right →
      ∀ ty, (left, ty) ∈ target.definitions →
        operandAdmissible operator (ty.subst assign) = true
  builtins : ∀ operation ∈ target.operations, ∀ builtin,
    operation.kind = .builtin builtin → builtinAdmissible assign builtin operation.ty

/-- The host answers with values of the declared result type. -/
def HostTyped (target : CoreModule) (assign : ℕ → Ty) (host : CoreHost) : Prop :=
  ∀ events builtin parameters returnType effects requirements arguments answer,
    verifyBuiltinType builtin
        (.function parameters returnType effects requirements) = .ok () →
      host events builtin (.function parameters returnType effects requirements) arguments =
          .ok answer →
        HasType target assign answer (returnType.instantiate assign)

/-- What holds of an event: yielded and exited values have their declared types,
and module initialization does not exit. -/
def EventTyped (target : CoreModule) (assign : ℕ → Ty) : CoreEvent → Prop
  | .yield _ ty value => HasType target assign value (ty.instantiate assign)
  | .exit id value =>
      id ≠ 0 ∧ ∃ function, target.functions[id]? = some function ∧
        HasType target assign value (function.signature.result.instantiate assign)
  | .print _ _ | .host _ _ _ => True

def EventsTyped (target : CoreModule) (assign : ℕ → Ty) (events : List CoreEvent) : Prop :=
  ∀ event ∈ events, EventTyped target assign event

/-- The postcondition of runs inside a body whose exits satisfy `exits`. -/
def corePost (target : CoreModule) (assign : ℕ → Ty) (exits : CoreValue → Prop) :
    Run.Post (List CoreEvent) CoreValue CoreError :=
  ⟨EventsTyped target assign, exits, fun _ => True⟩

/-! ## Checks of the verifier -/

namespace Verifier

variable {self : Verifier} {value : ValueId} {available : List ValueId} {user : String}
variable {result : ValueId} {ty expected : Ty} {effects required : EffectSet} {done : Unit}

@[simp] theorem requireAvailable_eq_ok :
    requireAvailable value available user = .ok done ↔ value ∈ available := by
  simp [requireAvailable]

@[simp] theorem expectType_eq_ok :
    expectType result ty expected = .ok done ↔ ty.typeEquivalent expected = true := by
  simp [expectType]

@[simp] theorem valueType_eq_ok :
    self.valueType value = .ok ty ↔ Keyed.find value self.valueTypes = some ty := by
  simp [valueType]

@[simp] theorem expectValueType_eq_ok :
    self.expectValueType value expected = .ok done ↔
      ∃ actual, Keyed.find value self.valueTypes = some actual ∧
        actual.typeEquivalent expected = true := by
  simp [expectValueType]

theorem function_ok {id : FunctionId} {function : CoreFunction}
    (hfunction : self.function id = .ok function) :
    self.target.functions[id]? = some function := by
  unfold Verifier.function at hfunction
  split at hfunction
  · rename_i found hfound
    split at hfunction
    · simp only [pure_eq_ok] at hfunction
      rw [hfound, hfunction]
    · simp at hfunction
  · simp at hfunction

end Verifier

/-! ## Typed environments -/

section Safety

variable {target : CoreModule} {assign : ℕ → Ty} {verifier : Verifier} {host : CoreHost}
variable {call : CoreCall} {exits : CoreValue → Prop}

/-- The value under a number has the type that the table gives the number. -/
def ValueTyped (target : CoreModule) (assign : ℕ → Ty) (verifier : Verifier) (id : ValueId)
    (value : CoreValue) : Prop :=
  ∃ ty, Keyed.find id verifier.valueTypes = some ty ∧
    HasType target assign value (ty.instantiate assign)

def EnvironmentTyped (target : CoreModule) (assign : ℕ → Ty) (verifier : Verifier)
    (environment : CoreEnvironment) (available : List ValueId) : Prop :=
  ∀ id ∈ available, ∃ value, environment id = some value ∧
    ValueTyped target assign verifier id value

theorem EnvironmentTyped.mono {environment : CoreEnvironment} {available fewer : List ValueId}
    (htyped : EnvironmentTyped target assign verifier environment available)
    (hsubset : fewer ⊆ available) :
    EnvironmentTyped target assign verifier environment fewer :=
  fun id hid => htyped id (hsubset hid)

theorem EnvironmentTyped.update {environment : CoreEnvironment} {available : List ValueId}
    (htyped : EnvironmentTyped target assign verifier environment available)
    {id : ValueId} {value : CoreValue} (hvalue : ValueTyped target assign verifier id value) :
    EnvironmentTyped target assign verifier (Function.update environment id (some value))
      (id :: available) := by
  intro other hother
  by_cases heq : other = id
  · subst heq
    exact ⟨value, by simp, hvalue⟩
  · have hmem : other ∈ available := by
      simpa [heq] using hother
    obtain ⟨stored, hstored, htype⟩ := htyped other hmem
    exact ⟨stored, by simpa [heq] using hstored, htype⟩

theorem EnvironmentTyped.bind {entries : List (ValueId × Ty)} :
    ∀ {environment : CoreEnvironment} {available : List ValueId} {arguments : List CoreValue},
      EnvironmentTyped target assign verifier environment available →
        (∀ entry ∈ entries, Keyed.find entry.1 verifier.valueTypes = some entry.2) →
          HasTypes target assign arguments (entries.map fun entry => entry.2.instantiate assign) →
            EnvironmentTyped target assign verifier
              (environment.bind (entries.map Prod.fst) arguments)
              (entries.map Prod.fst ++ available) := by
  induction entries with
  | nil =>
      intro environment available arguments htyped _ _
      simpa [CoreEnvironment.bind] using htyped
  | cons entry rest ih =>
      intro environment available arguments htyped hentries harguments
      cases arguments with
      | nil => simp [HasTypes] at harguments
      | cons value values =>
          simp only [List.map_cons, HasTypes] at harguments
          have hvalue : ValueTyped target assign verifier entry.1 value :=
            ⟨entry.2, hentries entry List.mem_cons_self, harguments.1⟩
          have hrest := ih (htyped.update hvalue)
            (fun other hother => hentries other (List.mem_cons_of_mem _ hother)) harguments.2
          refine hrest.mono ?_
          intro id hid
          simp only [List.map_cons, List.cons_append, List.mem_cons, List.mem_append] at hid ⊢
          tauto

theorem EnvironmentTyped.bindParameters {environment : CoreEnvironment}
    {available : List ValueId} {parameters : List BlockParameter} {arguments : List CoreValue}
    (htyped : EnvironmentTyped target assign verifier environment available)
    (htable : ∀ parameter ∈ parameters,
      Keyed.find parameter.value verifier.valueTypes = some parameter.ty)
    (harguments : HasTypes target assign arguments
      (parameters.map fun parameter => parameter.ty.instantiate assign)) :
    EnvironmentTyped target assign verifier
      (environment.bind (parameters.map (·.value)) arguments)
      (parameters.map (·.value) ++ available) := by
  have hentries : ∀ entry ∈ parameters.map fun parameter => (parameter.value, parameter.ty),
      Keyed.find entry.1 verifier.valueTypes = some entry.2 := by
    intro entry hentry
    obtain ⟨parameter, hparameter, rfl⟩ := List.mem_map.mp hentry
    exact htable parameter hparameter
  have hbound := htyped.bind hentries (by simpa [Function.comp_def] using harguments)
  simpa [Function.comp_def] using hbound

/-- The facts about a verified module that every step of the proof uses. -/
structure SafetyContext (target : CoreModule) (assign : ℕ → Ty) (verifier : Verifier)
    (host : CoreHost) : Prop where
  verified : target.Verified verifier
  distinct : target.distinctFields = true
  hostTyped : HostTyped target assign host

theorem SafetyContext.table_distinct (hcontext : SafetyContext target assign verifier host)
    {id : ValueId} {ty : Ty} (hfind : Keyed.find id verifier.valueTypes = some ty) :
    ty.distinctFields = true := by
  obtain ⟨function, hfunction, hentry⟩ :=
    hcontext.verified.defined _ (Keyed.mem_of_find hfind)
  apply CoreModule.distinctFields_iff.mp hcontext.distinct function hfunction
  exact List.mem_append_left _ (List.mem_map_of_mem hentry)

/-- Two types that the verifier compared have one instance. -/
theorem SafetyContext.instantiate_eq (hcontext : SafetyContext target assign verifier host)
    {id : ValueId} {actual expected : Ty}
    (hfind : Keyed.find id verifier.valueTypes = some actual)
    (hequivalent : actual.typeEquivalent expected = true) :
    actual.instantiate assign = expected.instantiate assign :=
  Ty.instantiate_eq_of_typeEquivalent assign (.inl (hcontext.table_distinct hfind)) hequivalent

theorem ValueTyped.instantiate_of_equivalent (hcontext : SafetyContext target assign verifier host)
    {id : ValueId} {value : CoreValue} {actual expected : Ty}
    (hvalue : ValueTyped target assign verifier id value)
    (hfind : Keyed.find id verifier.valueTypes = some actual)
    (hequivalent : actual.typeEquivalent expected = true) :
    HasType target assign value (expected.instantiate assign) := by
  obtain ⟨ty, hty, htype⟩ := hvalue
  obtain rfl : ty = actual := by
    rw [hfind] at hty
    exact (Option.some.inj hty).symm
  rw [← hcontext.instantiate_eq hfind hequivalent]
  exact htype

/-! ## Reading operands -/

theorem read_ensures {environment : CoreEnvironment} {available : List ValueId} {id : ValueId}
    (htyped : EnvironmentTyped target assign verifier environment available)
    (hid : id ∈ available) :
    Run.Ensures (corePost target assign exits) (ValueTyped target assign verifier id)
      (CoreRun.read environment id) := by
  obtain ⟨value, hvalue, htype⟩ := htyped id hid
  apply (Run.ensures_ofOption hvalue).mono
  rintro _ rfl
  exact htype

theorem readAll_ensures {environment : CoreEnvironment} {available : List ValueId}
    (htyped : EnvironmentTyped target assign verifier environment available) {ids : List ValueId}
    (hids : ∀ id ∈ ids, id ∈ available) :
    Run.Ensures (corePost target assign exits)
      (fun values => List.Forall₂ (ValueTyped target assign verifier) ids values)
      (CoreRun.readAll environment ids) := by
  induction ids with
  | nil => exact Run.ensures_pure .nil
  | cons id rest ih =>
      apply Run.ensures_bind (read_ensures htyped (hids id List.mem_cons_self))
      intro value hvalue
      apply Run.ensures_bind (ih fun other hother => hids other (List.mem_cons_of_mem _ hother))
      intro values hvalues
      exact Run.ensures_pure (.cons hvalue hvalues)

theorem log_ensures {event : CoreEvent} (hevent : EventTyped target assign event) :
    Run.Ensures (corePost target assign exits) (fun _ => True) (CoreRun.log event) := by
  apply Run.ensures_modify
  intro events hevents other hother
  rcases List.mem_append.mp hother with hmem | hmem
  · exact hevents other hmem
  · obtain rfl : other = event := by simpa using hmem
    exact hevent

/-! ## Operators -/

theorem integerResult_ensures {span : Option Span} {result : Except ErrorCode ℤ} :
    Run.Ensures (corePost target assign exits) (HasType target assign · .int)
      (CoreRun.integerResult span result) := by
  unfold CoreRun.integerResult
  split
  · exact Run.ensures_pure (by simp [HasType])
  · exact Run.ensures_fail trivial

theorem evalLiteral_ensures {frame : CoreFrame} {result : ValueId} {span : Option Span}
    {literal : ValueLiteral} :
    Run.Ensures (corePost target assign exits)
      (HasType target assign · ((Verifier.literalType literal).instantiate assign))
      (evalLiteral frame result span literal) := by
  cases literal with
  | integer value =>
      simp only [evalLiteral]
      split
      · exact Run.ensures_pure (by simp [HasType, Verifier.literalType])
      · exact integerResult_ensures
  | boolean value => exact Run.ensures_pure (by simp [HasType, Verifier.literalType])
  | string value => exact Run.ensures_pure (by simp [HasType, Verifier.literalType])

theorem applyUnary_ensures {operator : UnaryOperator} {span : Option Span}
    {operand : CoreValue}
    (hoperand : HasType target assign operand
      ((Verifier.unaryType operator).instantiate assign)) :
    Run.Ensures (corePost target assign exits)
      (HasType target assign · ((Verifier.unaryType operator).instantiate assign))
      (applyUnary operator span operand) := by
  cases operator with
  | not =>
      obtain ⟨truth, rfl⟩ := hoperand.bool_inv
      exact Run.ensures_pure (by simp [HasType, Verifier.unaryType])
  | negate =>
      obtain ⟨number, rfl⟩ := hoperand.int_inv
      exact integerResult_ensures

theorem applyEquality_ensures {negate : Bool} {left right : CoreValue}
    (hleft : left.isData = true) (hright : right.isData = true) :
    Run.Ensures (corePost target assign exits) (HasType target assign · .bool)
      (applyEquality negate left right) := by
  unfold applyEquality
  rw [hleft, hright]
  exact Run.ensures_pure (by simp [HasType])

theorem applyOrdering_ensures {operator : BinaryOperator} {ordering : Ordering}
    (hoperator : operator = .less ∨ operator = .lessEqual ∨ operator = .greater ∨
      operator = .greaterEqual) :
    Run.Ensures (corePost target assign exits) (HasType target assign · .bool)
      (applyOrdering operator ordering) := by
  unfold applyOrdering
  rcases hoperator with rfl | rfl | rfl | rfl <;>
    exact Run.ensures_pure (by simp [HasType])

theorem applyArithmetic_ensures {operator : BinaryOperator} {span : Option Span}
    {left right : CoreValue}
    (hoperator : operator = .add ∨ operator = .subtract ∨ operator = .multiply ∨
      operator = .divide ∨ operator = .remainder)
    (hleft : HasType target assign left .int) (hright : HasType target assign right .int) :
    Run.Ensures (corePost target assign exits) (HasType target assign · .int)
      (applyBinary operator span left right) := by
  obtain ⟨leftNumber, rfl⟩ := hleft.int_inv
  obtain ⟨rightNumber, rfl⟩ := hright.int_inv
  rcases hoperator with rfl | rfl | rfl | rfl | rfl <;> exact integerResult_ensures

theorem applyConcat_ensures {span : Option Span} {left right : CoreValue}
    (hleft : HasType target assign left .string)
    (hright : HasType target assign right .string) :
    Run.Ensures (corePost target assign exits) (HasType target assign · .string)
      (applyBinary .add span left right) := by
  obtain ⟨leftText, rfl⟩ := hleft.string_inv
  obtain ⟨rightText, rfl⟩ := hright.string_inv
  exact Run.ensures_pure (by simp [HasType])

theorem applyComparison_ensures {operator : BinaryOperator} {span : Option Span}
    {left right : CoreValue}
    (hoperator : operator = .less ∨ operator = .lessEqual ∨ operator = .greater ∨
      operator = .greaterEqual)
    (htypes : (HasType target assign left .int ∧ HasType target assign right .int) ∨
      (HasType target assign left .string ∧ HasType target assign right .string)) :
    Run.Ensures (corePost target assign exits) (HasType target assign · .bool)
      (applyBinary operator span left right) := by
  rcases htypes with ⟨hleft, hright⟩ | ⟨hleft, hright⟩
  · obtain ⟨leftNumber, rfl⟩ := hleft.int_inv
    obtain ⟨rightNumber, rfl⟩ := hright.int_inv
    have hordering := hoperator
    rcases hoperator with rfl | rfl | rfl | rfl <;> exact applyOrdering_ensures hordering
  · obtain ⟨leftText, rfl⟩ := hleft.string_inv
    obtain ⟨rightText, rfl⟩ := hright.string_inv
    have hordering := hoperator
    rcases hoperator with rfl | rfl | rfl | rfl <;> exact applyOrdering_ensures hordering

/-- No value inhabits a residual variable. -/
theorem HasType.not_variable {value : CoreValue} {id : ℕ} :
    ¬ HasType target assign value (.typeVariable id) := by
  intro htype
  have hdata := htype.not_function (by simp)
  cases value with
  | closure id captures => exact absurd rfl (hdata.1 id captures)
  | builtin builtin declared => exact absurd rfl (hdata.2 builtin declared)
  | variant name payload => cases name <;> cases payload <;> simp [HasType] at htype
  | _ => simp [HasType] at htype

/-- A value at an operand type is an integer or a string. -/
theorem HasType.operand {value : CoreValue} {ty : Ty}
    (hoperand : Verifier.verifyBinary.isOperandType (ty.subst assign) = true)
    (htype : HasType target assign value (ty.instantiate assign)) :
    ty.instantiate assign = .int ∨ ty.instantiate assign = .string := by
  unfold Ty.instantiate at htype ⊢
  cases hsubst : ty.subst assign with
  | int => exact .inl rfl
  | string => exact .inr rfl
  | typeVariable id =>
      rw [hsubst] at htype
      exact absurd htype HasType.not_variable
  | _ => rw [hsubst] at hoperand; simp [Verifier.verifyBinary.isOperandType] at hoperand

/-! ## Built-ins -/

theorem applyHost_ensures (hhost : HostTyped target assign host) {builtin : Builtin}
    {parameters : List Ty} {returnType : Ty} {effects : EffectSet}
    {requirements : RequirementSet} {span : Option Span} {arguments : List CoreValue}
    (hverify : verifyBuiltinType builtin
      (.function parameters returnType effects requirements) = .ok ()) :
    Run.Ensures (corePost target assign exits)
      (HasType target assign · (returnType.instantiate assign))
      (applyHost host builtin (.function parameters returnType effects requirements) span
        arguments) := by
  unfold applyHost
  apply Run.ensures_bind Run.ensures_get
  intro events hevents
  split
  · rename_i answer hanswer
    apply Run.ensures_bind (log_ensures (by simp [EventTyped]))
    intro _ _
    exact Run.ensures_pure (hhost _ _ _ _ _ _ _ _ hverify hanswer)
  · exact Run.ensures_fail trivial

theorem hasTypes_singleton {arguments : List CoreValue} {ty : Ty}
    (harguments : HasTypes target assign arguments [ty]) :
    ∃ value, arguments = [value] ∧ HasType target assign value ty := by
  rw [hasTypes_iff] at harguments
  cases harguments with
  | cons hvalue hrest =>
      cases hrest with
      | nil => exact ⟨_, rfl, hvalue⟩

theorem hasTypes_pair {arguments : List CoreValue} {first second : Ty}
    (harguments : HasTypes target assign arguments [first, second]) :
    ∃ left right, arguments = [left, right] ∧ HasType target assign left first ∧
      HasType target assign right second := by
  rw [hasTypes_iff] at harguments
  cases harguments with
  | cons hleft hrest =>
      cases hrest with
      | cons hright hnil =>
          cases hnil with
          | nil => exact ⟨_, _, rfl, hleft, hright⟩

theorem queryPairs_isSome {entries : List CoreValue}
    (hentries : ∀ value ∈ entries, HasType target assign value Ty.nameValueRecord) :
    ∃ pairs, queryPairs entries = some pairs := by
  induction entries with
  | nil => exact ⟨[], rfl⟩
  | cons entry rest ih =>
      obtain ⟨pairs, hpairs⟩ :=
        ih fun value hvalue => hentries value (List.mem_cons_of_mem _ hvalue)
      have hentry := hentries entry List.mem_cons_self
      obtain ⟨fields, name, rfl, hname, hnameType⟩ :=
        hentry.record_field (List.mem_cons_self (a := ("name", Ty.string)))
      obtain ⟨_, value, heq, hvalue, hvalueType⟩ :=
        hentry.record_field
          (List.mem_cons_of_mem _ (List.mem_cons_self (a := ("value", Ty.string))))
      obtain rfl := CoreValue.record.inj heq
      obtain ⟨nameText, rfl⟩ := hnameType.string_inv
      obtain ⟨valueText, rfl⟩ := hvalueType.string_inv
      simp [queryPairs, hname, hvalue, hpairs]

/-- The parameters of a pure built-in, at its instance. -/
theorem verifyPureBuiltin_instantiate (assign : ℕ → Ty) {builtin : Builtin}
    {parameters expected : List Ty} {returnType result : Ty} {effects : EffectSet}
    {requirements : RequirementSet}
    (hverify : verifyPureBuiltin builtin
      (.function parameters returnType effects requirements) expected result = .ok ())
    (hexpected : ∀ ty ∈ expected, ty.recordless = true) (hresult : result.recordless = true) :
    parameters.map (Ty.instantiate assign) = expected.map (Ty.instantiate assign) ∧
      returnType.instantiate assign = result.instantiate assign := by
  obtain ⟨actual, actualReturn, _, _, heq, hlength, hall, hreturn⟩ :=
    verifyPureBuiltin_ok hverify
  obtain ⟨rfl, rfl, -, -⟩ := Ty.function.inj heq
  have hparameters := Keyed.map_eq_map_of_zip (Ty.instantiate assign) hlength
    fun pair hpair => Ty.instantiate_eq_of_typeEquivalent assign
      (.inr (hexpected _ (List.of_mem_zip hpair).2)) (hall pair hpair)
  exact ⟨hparameters, Ty.instantiate_eq_of_typeEquivalent assign (.inr hresult) hreturn⟩

theorem applyConstructor_ensures {builtin : Builtin} {variant : VariantName}
    {family : VariantFamily} {firstPayload : Bool} {parameters : List Ty} {returnType : Ty}
    {effects : EffectSet} {requirements : RequirementSet} {span : Option Span}
    {arguments : List CoreValue} {ty : Ty}
    (hverify : verifyConstructorFunction
      (.function parameters returnType effects requirements) family firstPayload = .ok ())
    (hvariant : (variant = .some ∧ family = .option) ∨
      (variant = .ok ∧ family = .result ∧ firstPayload = true) ∨
      (variant = .err ∧ family = .result ∧ firstPayload = false))
    (harguments : HasTypes target assign arguments (parameters.map (Ty.instantiate assign)))
    (happly : ∀ value, applyBuiltin host builtin ty span [value] =
      pure (.variant variant (some value))) :
    Run.Ensures (corePost target assign exits)
      (HasType target assign · (returnType.instantiate assign))
      (applyBuiltin host builtin ty span arguments) := by
  obtain ⟨parameter, actualReturn, _, _, heq, hreturn⟩ := verifyConstructorFunction_ok hverify
  obtain ⟨rfl, rfl, -, -⟩ := Ty.function.inj heq
  obtain ⟨value, rfl, hvalue⟩ := hasTypes_singleton harguments
  rw [happly value]
  apply Run.ensures_pure
  split at hreturn
  · obtain rfl := hreturn
    rcases hvariant with ⟨rfl, -⟩ | ⟨-, hfamily, -⟩ | ⟨-, hfamily, -⟩
    · simpa [HasType] using hvalue
    · cases hfamily
    · cases hfamily
  · rcases hvariant with ⟨-, hfamily⟩ | ⟨rfl, -, rfl⟩ | ⟨rfl, -, rfl⟩
    · cases hfamily
    · simp only [if_true] at hreturn
      subst hreturn
      simpa [HasType] using hvalue
    · simp only [Bool.false_eq_true, if_false] at hreturn
      subst hreturn
      simpa [HasType] using hvalue
  · exact hreturn.elim

theorem applyStringTest_ensures {test : String → String → Bool} {builtin : Builtin}
    {span : Option Span} {arguments : List CoreValue} {ty : Ty}
    (harguments : HasTypes target assign arguments [.string, .string])
    (happly : ∀ text part, applyBuiltin host builtin ty span [.string text, .string part] =
      pure (.boolean (test text part))) :
    Run.Ensures (corePost target assign exits) (HasType target assign · .bool)
      (applyBuiltin host builtin ty span arguments) := by
  obtain ⟨left, right, rfl, hleft, hright⟩ := hasTypes_pair harguments
  obtain ⟨text, rfl⟩ := hleft.string_inv
  obtain ⟨part, rfl⟩ := hright.string_inv
  rw [happly text part]
  exact Run.ensures_pure (by simp [HasType])

/-- A built-in applied to arguments of its declared parameter types returns a
value of its declared result type. -/
theorem applyBuiltin_ensures (hhost : HostTyped target assign host) {builtin : Builtin}
    {parameters : List Ty} {returnType : Ty} {effects : EffectSet}
    {requirements : RequirementSet} {span : Option Span} {arguments : List CoreValue}
    (hverify : verifyBuiltinType builtin
      (.function parameters returnType effects requirements) = .ok ())
    (hadmissible : builtinAdmissible assign builtin
      (.function parameters returnType effects requirements))
    (harguments : HasTypes target assign arguments (parameters.map (Ty.instantiate assign))) :
    Run.Ensures (corePost target assign exits)
      (HasType target assign · (returnType.instantiate assign))
      (applyBuiltin host builtin (.function parameters returnType effects requirements) span
        arguments) := by
  have hanswer : Run.Ensures (corePost target assign exits)
      (HasType target assign · (returnType.instantiate assign))
      (applyHost host builtin (.function parameters returnType effects requirements) span
        arguments) :=
    applyHost_ensures hhost hverify
  cases builtin
  all_goals simp only [verifyBuiltinType] at hverify
  case none => simp at hverify
  case some =>
    exact applyConstructor_ensures hverify (.inl ⟨rfl, rfl⟩) harguments fun _ => rfl
  case ok =>
    exact applyConstructor_ensures hverify (.inr (.inl ⟨rfl, rfl, rfl⟩)) harguments fun _ => rfl
  case err =>
    exact applyConstructor_ensures hverify (.inr (.inr ⟨rfl, rfl, rfl⟩)) harguments fun _ => rfl
  case print | println =>
    simp only [ensure_eq_ok] at hverify
    split at hverify
    · simp only [Bool.and_eq_true, decide_eq_true_eq] at hverify
      obtain ⟨⟨rfl, -⟩, -⟩ := hverify
      obtain ⟨value, rfl, -⟩ := hasTypes_singleton harguments
      apply Run.ensures_bind (log_ensures (by simp [EventTyped]))
      intro _ _
      exact Run.ensures_pure (by simp [HasType])
    · simp at hverify
  case jsonEncode =>
    simp only [ensure_eq_ok] at hverify
    split at hverify
    · rename_i parameter
      simp only [Bool.and_eq_true, decide_eq_true_eq] at hverify
      obtain ⟨rfl, -⟩ := hverify
      obtain ⟨value, rfl, hvalue⟩ := hasTypes_singleton harguments
      have hencodable : typeContainsNoFunction (parameter.instantiate assign) = true := by
        unfold Ty.instantiate
        rw [typeContainsNoFunction_normalize]
        exact hadmissible rfl _ _ _ _ rfl parameter List.mem_cons_self
      obtain ⟨text, htext⟩ :=
        CoreValue.jsonText_isSome value (HasType.isData value _ hencodable hvalue)
      apply Run.ensures_bind (Run.ensures_ofOption htext)
      intro _ _
      exact Run.ensures_pure (by simp [HasType])
    · simp at hverify
  case intToString =>
    obtain ⟨hparameters, hreturn⟩ :=
      verifyPureBuiltin_instantiate assign hverify (by decide) rfl
    rw [hparameters] at harguments
    rw [hreturn]
    obtain ⟨value, rfl, hvalue⟩ := hasTypes_singleton harguments
    obtain ⟨number, rfl⟩ := hvalue.int_inv
    exact Run.ensures_pure (by simp [HasType])
  case urlPathSegment =>
    obtain ⟨hparameters, hreturn⟩ :=
      verifyPureBuiltin_instantiate assign hverify (by decide) rfl
    rw [hparameters] at harguments
    rw [hreturn]
    obtain ⟨value, rfl, hvalue⟩ := hasTypes_singleton harguments
    obtain ⟨text, rfl⟩ := hvalue.string_inv
    simp only [applyBuiltin]
    split <;> exact Run.ensures_pure (by simp [HasType])
  case urlQuery =>
    obtain ⟨hparameters, hreturn⟩ :=
      verifyPureBuiltin_instantiate assign hverify (by decide) rfl
    rw [hparameters] at harguments
    rw [hreturn]
    obtain ⟨value, rfl, hvalue⟩ := hasTypes_singleton harguments
    obtain ⟨entries, rfl, hentries⟩ := hvalue.list_inv
    obtain ⟨pairs, hpairs⟩ := queryPairs_isSome hentries
    apply Run.ensures_bind (Run.ensures_ofOption hpairs)
    intro _ _
    exact Run.ensures_pure (by simp [HasType])
  case stringByteLen =>
    obtain ⟨hparameters, hreturn⟩ :=
      verifyPureBuiltin_instantiate assign hverify (by decide) rfl
    rw [hparameters] at harguments
    rw [hreturn]
    obtain ⟨value, rfl, hvalue⟩ := hasTypes_singleton harguments
    obtain ⟨text, rfl⟩ := hvalue.string_inv
    exact integerResult_ensures
  case stringIsEmpty =>
    obtain ⟨hparameters, hreturn⟩ :=
      verifyPureBuiltin_instantiate assign hverify (by decide) rfl
    rw [hparameters] at harguments
    rw [hreturn]
    obtain ⟨value, rfl, hvalue⟩ := hasTypes_singleton harguments
    obtain ⟨text, rfl⟩ := hvalue.string_inv
    exact Run.ensures_pure (by simp [HasType])
  case stringContains | stringStartsWith | stringEndsWith =>
    obtain ⟨hparameters, hreturn⟩ :=
      verifyPureBuiltin_instantiate assign hverify (by decide) rfl
    rw [hparameters] at harguments
    rw [hreturn]
    exact applyStringTest_ensures harguments fun _ _ => rfl
  all_goals exact hanswer

/-! ## Calls -/

/-- A call handler that keeps the signatures of the module's functions. -/
def CallTyped (target : CoreModule) (assign : ℕ → Ty) (call : CoreCall) : Prop :=
  ∀ id function captures arguments exits, target.functions[id]? = some function →
    HasTypes target assign captures
        (function.captures.map fun capture => capture.ty.instantiate assign) →
      HasTypes target assign arguments
          (function.signature.parameters.map (Ty.instantiate assign)) →
        Run.Ensures (corePost target assign exits)
          (HasType target assign · (function.signature.result.instantiate assign))
          (call id captures arguments)

theorem applyCall_ensures (hhost : HostTyped target assign host)
    (hcall : CallTyped target assign call) {span : Option Span} {callee : CoreValue}
    {arguments : List CoreValue} {parameters : List Ty} {returnType : Ty}
    {effects : EffectSet} {requirements : RequirementSet}
    (hcallee : HasType target assign callee
      (.function parameters returnType effects requirements))
    (harguments : HasTypes target assign arguments parameters) :
    Run.Ensures (corePost target assign exits) (HasType target assign · returnType)
      (applyCall host call span callee arguments) := by
  rcases hcallee.function_inv with
    ⟨id, captures, function, rfl, hfunction, rfl, rfl, hcaptures⟩ |
    ⟨builtin, actual, actualReturn, _, _, rfl, hverify, hadmissible, rfl, rfl⟩
  · exact hcall id function captures arguments exits hfunction hcaptures harguments
  · exact applyBuiltin_ensures hhost hverify hadmissible harguments

/-! ## Records -/

theorem recordFieldType_instantiate (assign : ℕ → Ty) {ty expected : Ty} {name : String}
    (hfield : recordFieldType ty name = some expected) :
    ∃ types, ty.instantiate assign = .record types ∧
      (name, expected.instantiate assign) ∈ types := by
  unfold recordFieldType at hfield
  split at hfield
  · rename_i fields
    refine ⟨_, Ty.instantiate_record assign fields, ?_⟩
    rw [Keyed.mem_sortByKey]
    exact List.mem_map.mpr ⟨(name, expected), Keyed.mem_of_find hfield, rfl⟩
  all_goals first
    | cases hfield
    | (split at hfield <;> cases hfield <;> exact ⟨_, rfl, by simp⟩)

theorem verifyRecordOperand_ok {result : ValueId} {recordTypes : List (String × Ty)}
    {available : List ValueId} {fields : List (String × ValueId)} :
    ∀ {seen : List String},
      verifier.verifyRecordOperand result recordTypes available seen fields = .ok () →
        (∀ field ∈ fields, field.2 ∈ available ∧
          ∃ expected, Keyed.find field.1 recordTypes = some expected ∧
            ∃ actual, Keyed.find field.2 verifier.valueTypes = some actual ∧
              actual.typeEquivalent expected = true) ∧
        (fields.map Prod.fst).Nodup ∧ ∀ field ∈ fields, field.1 ∉ seen := by
  induction fields with
  | nil => simp
  | cons field rest ih =>
      intro seen hverify
      obtain ⟨name, value⟩ := field
      simp only [Verifier.verifyRecordOperand, bind_eq_ok, Verifier.requireAvailable_eq_ok,
        ensure_eq_ok, decide_eq_true_eq, ofOption_eq_ok, Verifier.expectValueType_eq_ok]
        at hverify
      obtain ⟨_, havailable, _, hseen, expected, hexpected, _, hactual, hrest⟩ := hverify
      obtain ⟨hfields, hnodup, hfresh⟩ := ih hrest
      refine ⟨?_, ?_, ?_⟩
      · intro field hfield
        rcases List.mem_cons.mp hfield with rfl | hmem
        · exact ⟨havailable, expected, hexpected, hactual⟩
        · exact hfields field hmem
      · rw [List.map_cons, List.nodup_cons]
        refine ⟨?_, hnodup⟩
        intro hmem
        obtain ⟨other, hother, hname⟩ := List.mem_map.mp hmem
        exact hfresh other hother (by simp [hname])
      · intro field hfield
        rcases List.mem_cons.mp hfield with rfl | hmem
        · exact hseen
        · exact fun hmem' => hfresh field hmem (List.mem_cons_of_mem _ hmem')

/-- The record built from typed operands has the declared record type. -/
theorem hasType_record (hcontext : SafetyContext target assign verifier host)
    {fields : List (String × ValueId)} {recordTypes : List (String × Ty)}
    {values : List CoreValue} (hdistinct : (recordTypes.map Prod.fst).Nodup)
    (hlength : fields.length = recordTypes.length)
    (hfields : ∀ field ∈ fields, ∃ expected,
      Keyed.find field.1 recordTypes = some expected ∧
        ∃ actual, Keyed.find field.2 verifier.valueTypes = some actual ∧
          actual.typeEquivalent expected = true)
    (hnodup : (fields.map Prod.fst).Nodup)
    (hvalues : List.Forall₂ (ValueTyped target assign verifier) (fields.map Prod.snd) values) :
    HasType target assign (.record ((fields.map Prod.fst).zip values))
      (Ty.instantiate assign (.record recordTypes)) := by
  have hvaluesLength : values.length = fields.length := by
    simpa using hvalues.length_eq.symm
  rw [Ty.instantiate_record]
  simp only [HasType, Ty.record.injEq]
  refine ⟨_, rfl, ?_, ?_⟩
  · rw [hasTypeFields_iff]
    rintro ⟨name, value⟩ hmem
    obtain ⟨index, hindex, hget⟩ := List.getElem_of_mem hmem
    simp only [List.getElem_zip, List.getElem_map, Prod.mk.injEq] at hget
    obtain ⟨rfl, rfl⟩ := hget
    have hbound : index < fields.length := by
      simp only [List.length_zip, List.length_map] at hindex
      omega
    have hfieldMem := List.getElem_mem hbound
    obtain ⟨expected, hexpected, actual, hactual, hequivalent⟩ := hfields _ hfieldMem
    have hexpectedMem := Keyed.mem_of_find hexpected
    have htyped : ValueTyped target assign verifier fields[index].2 values[index] := by
      have := (List.forall₂_iff_get.mp hvalues).2 index (by simpa using hbound)
        (by omega)
      simpa using this
    refine ⟨?_, ?_⟩
    · have hentry : (fields[index].1, expected.instantiate assign) ∈
          recordTypes.map fun field => (field.1, field.2.instantiate assign) :=
        List.mem_map.mpr ⟨_, hexpectedMem, rfl⟩
      exact List.mem_map.mpr ⟨_, Keyed.mem_sortByKey.mpr hentry, rfl⟩
    · intro entry hentry hname
      obtain ⟨field, hfield, rfl⟩ := List.mem_map.mp (Keyed.mem_sortByKey.mp hentry)
      have hsame : field.2 = expected := by
        have hfind : Keyed.find field.1 recordTypes = some field.2 :=
          Keyed.find_of_mem hdistinct hfield
        simp only at hname
        rw [hname, hexpected] at hfind
        exact (Option.some.inj hfind).symm
      subst hsame
      exact htyped.instantiate_of_equivalent hcontext hactual hequivalent
  · intro entry hentry
    obtain ⟨field, hfield, rfl⟩ := List.mem_map.mp (Keyed.mem_sortByKey.mp hentry)
    have hsubset : recordTypes.map Prod.fst ⊆ fields.map Prod.fst := by
      apply Keyed.subset_of_nodup_of_length hnodup
      · intro name hname
        obtain ⟨operand, hoperand, rfl⟩ := List.mem_map.mp hname
        obtain ⟨expected, hexpected, -⟩ := hfields operand hoperand
        exact List.mem_map.mpr ⟨_, Keyed.mem_of_find hexpected, rfl⟩
      · simpa using hlength
    have hkeys : (((fields.map Prod.fst).zip values).map Prod.fst) = fields.map Prod.fst :=
      List.map_fst_zip (by simp [hvaluesLength])
    rw [hkeys]
    exact hsubset (List.mem_map.mpr ⟨field, hfield, rfl⟩)

/-! ## Operations without blocks -/

theorem hasTypes_of_forall₂ {ids : List ValueId} {values : List CoreValue} {types : List Ty}
    (hcontext : SafetyContext target assign verifier host)
    (hvalues : List.Forall₂ (ValueTyped target assign verifier) ids values)
    (hlength : types.length = ids.length)
    (hall : ∀ pair ∈ ids.zip types, ∃ actual,
      Keyed.find pair.1 verifier.valueTypes = some actual ∧
        actual.typeEquivalent pair.2 = true) :
    HasTypes target assign values (types.map (Ty.instantiate assign)) := by
  induction hvalues generalizing types with
  | nil =>
      obtain rfl : types = [] := by simpa using hlength
      simp [HasTypes]
  | @cons id value ids values hvalue _ ih =>
      cases types with
      | nil => simp at hlength
      | cons ty rest =>
          simp only [List.map_cons, HasTypes]
          obtain ⟨actual, hactual, hequivalent⟩ := hall (id, ty) (by simp)
          refine ⟨hvalue.instantiate_of_equivalent hcontext hactual hequivalent, ?_⟩
          exact ih (by simpa using hlength) fun pair hpair => hall pair (by simp [hpair])

theorem verifyVariantType_ok {variant : VariantName} {payload : Option ValueId} {ty : Ty}
    (hverify : verifier.verifyVariantType variant payload ty = .ok ()) :
    (payload = none ∧ variant = .none ∧ ∃ element, ty = .option element) ∨
      ∃ value expected, payload = some value ∧
        Keyed.find value verifier.valueTypes = some expected ∧
        ((variant = .some ∧ ty = .option expected) ∨
          (variant = .ok ∧ ∃ error, ty = .result expected error) ∨
          (variant = .err ∧ ∃ success, ty = .result success expected)) := by
  simp only [Verifier.verifyVariantType, bind_eq_ok] at hverify
  obtain ⟨found, hexpected, hpayload⟩ := hverify
  split at hpayload
  · left
    unfold Verifier.expectedPayload at hexpected
    split at hexpected <;> simp at hexpected
    exact ⟨rfl, rfl, _, rfl⟩
  · right
    rename_i expected value
    simp only [bind_eq_ok, ofOption_eq_ok, ensure_eq_ok, decide_eq_true_eq] at hpayload
    obtain ⟨actual, hactual, rfl⟩ := hpayload
    refine ⟨value, actual, rfl, hactual, ?_⟩
    unfold Verifier.expectedPayload at hexpected
    split at hexpected <;> simp at hexpected <;> subst hexpected <;> simp
  · simp at hpayload

theorem evalVariant_ensures {frame : CoreFrame} {environment : CoreEnvironment}
    {available : List ValueId} {result : ValueId} {ty : Ty} {span : Option Span}
    {variant : VariantName} {payload : Option ValueId}
    (htyped : EnvironmentTyped target assign verifier environment available)
    (havailable : ∀ value ∈ payload, value ∈ available)
    (hverify : verifier.verifyVariantType variant payload ty = .ok ()) :
    Run.Ensures (corePost target assign exits)
      (HasType target assign · (ty.instantiate assign))
      (evalKind host call frame environment result ty span (.variant variant payload)) := by
  rcases verifyVariantType_ok hverify with
    ⟨rfl, rfl, element, rfl⟩ | ⟨value, expected, rfl, hfind, hvariant⟩
  · exact Run.ensures_pure (by simp [HasType])
  · apply Run.ensures_bind (read_ensures htyped (havailable value rfl))
    rintro stored ⟨_, hactual, hstored⟩
    obtain rfl := Option.some.inj (hactual.symm.trans hfind)
    rcases hvariant with ⟨rfl, rfl⟩ | ⟨rfl, error, rfl⟩ | ⟨rfl, success, rfl⟩
    · exact Run.ensures_pure (by simpa [HasType] using hstored)
    · exact Run.ensures_pure (by simpa [HasType] using hstored)
    · exact Run.ensures_pure (by simpa [HasType] using hstored)

theorem exists_zip_right {ids : List ValueId} {types : List Ty}
    (hlength : types.length = ids.length) {id : ValueId} (hid : id ∈ ids) :
    ∃ ty, (id, ty) ∈ ids.zip types := by
  obtain ⟨index, hindex, rfl⟩ := List.getElem_of_mem hid
  have hbound : index < types.length := hlength ▸ hindex
  refine ⟨types[index], List.mem_iff_getElem.mpr ⟨index, ?_, ?_⟩⟩
  · simp only [List.length_zip]
    omega
  · simp

theorem evalClosure_ensures (hcontext : SafetyContext target assign verifier host)
    {frame : CoreFrame} {environment : CoreEnvironment} {available : List ValueId}
    {bindings : List (BindingId × ValueId)} {result : ValueId} {ty : Ty} {span : Option Span}
    {closure : ClosureId} {id : FunctionId} {function : CoreFunction}
    {captures : List CaptureArgument}
    (htyped : EnvironmentTyped target assign verifier environment available)
    (hfunction : target.functions[id]? = some function)
    (hlength : captures.length = function.captures.length)
    (hcaptures : ∀ pair ∈ captures.zip function.captures,
      verifier.verifyCapture result id available bindings pair = .ok ()) :
    Run.Ensures (corePost target assign exits)
      (HasType target assign · ((functionType function.signature).instantiate assign))
      (evalKind host call frame environment result ty span
        (.closure closure id captures)) := by
  have hverified : ∀ pair ∈ captures.zip function.captures, pair.1.value ∈ available ∧
      ∃ actual, Keyed.find pair.1.value verifier.valueTypes = some actual ∧
        actual.typeEquivalent pair.2.ty = true := by
    intro pair hpair
    have hpairOk := hcaptures pair hpair
    simp only [Verifier.verifyCapture, bind_eq_ok, Verifier.requireAvailable_eq_ok,
      Verifier.expectValueType_eq_ok] at hpairOk
    obtain ⟨_, -, _, -, _, havailable, hactual⟩ := hpairOk
    exact ⟨havailable, hactual⟩
  have hzip : (captures.map (·.value)).zip (function.captures.map (·.ty)) =
      (captures.zip function.captures).map fun pair => (pair.1.value, pair.2.ty) := by
    rw [List.zip_map]
    rfl
  have hmapLength : (function.captures.map (·.ty)).length = (captures.map (·.value)).length := by
    simp [hlength]
  apply Run.ensures_bind (readAll_ensures htyped fun value hvalue => by
    obtain ⟨ty, hpair⟩ := exists_zip_right hmapLength hvalue
    rw [hzip] at hpair
    obtain ⟨original, horiginal, heq⟩ := List.mem_map.mp hpair
    obtain ⟨rfl, -⟩ := Prod.mk.inj heq
    exact (hverified original horiginal).1)
  intro values hvalues
  apply Run.ensures_pure
  refine ⟨function, hfunction, rfl, ?_⟩
  have hcaptured := hasTypes_of_forall₂ hcontext hvalues hmapLength (by
    intro pair hpair
    rw [hzip] at hpair
    obtain ⟨original, horiginal, rfl⟩ := List.mem_map.mp hpair
    exact (hverified original horiginal).2)
  simpa [Function.comp_def] using hcaptured

theorem evalBinary_ensures (hcontext : SafetyContext target assign verifier host)
    {frame : CoreFrame} {environment : CoreEnvironment} {available : List ValueId}
    {result left right : ValueId} {ty : Ty} {span : Option Span} {operator : BinaryOperator}
    (htyped : EnvironmentTyped target assign verifier environment available)
    (hleft : left ∈ available) (hright : right ∈ available)
    (hadmissible : ∀ ty, Keyed.find left verifier.valueTypes = some ty →
      operandAdmissible operator (ty.subst assign) = true)
    (hverify : verifier.verifyBinary result ty left operator right = .ok ()) :
    Run.Ensures (corePost target assign exits)
      (HasType target assign · (ty.instantiate assign))
      (evalKind host call frame environment result ty span (.binary left operator right)) := by
  simp only [Verifier.verifyBinary, bind_eq_ok, Verifier.valueType_eq_ok] at hverify
  obtain ⟨leftType, hleftType, rightType, hrightType, hverify⟩ := hverify
  have hoperand := hadmissible leftType hleftType
  apply Run.ensures_bind (read_ensures htyped hleft)
  rintro leftValue ⟨_, hleftFind, hleftValue⟩
  obtain rfl := Option.some.inj (hleftFind.symm.trans hleftType)
  apply Run.ensures_bind (read_ensures htyped hright)
  rintro rightValue ⟨_, hrightFind, hrightValue⟩
  obtain rfl := Option.some.inj (hrightFind.symm.trans hrightType)
  cases operator with
  | add =>
      simp only [ensure_eq_ok, Bool.and_eq_true, decide_eq_true_eq] at hverify
      obtain ⟨⟨rfl, -⟩, rfl⟩ := hverify
      rcases HasType.operand hoperand hleftValue with hty | hty
      · rw [hty] at hleftValue hrightValue ⊢
        exact applyArithmetic_ensures (.inl rfl) hleftValue hrightValue
      · rw [hty] at hleftValue hrightValue ⊢
        exact applyConcat_ensures hleftValue hrightValue
  | subtract | multiply | divide | remainder =>
      simp only [ensure_eq_ok, Bool.and_eq_true, decide_eq_true_eq] at hverify
      obtain ⟨⟨rfl, rfl⟩, rfl⟩ := hverify
      exact applyArithmetic_ensures (by simp) hleftValue hrightValue
  | equal | notEqual =>
      simp only [ensure_eq_ok, Bool.and_eq_true, decide_eq_true_eq] at hverify
      obtain ⟨⟨hequivalent, -⟩, rfl⟩ := hverify
      have hdata : typeContainsNoFunction (Ty.instantiate assign _) = true :=
        (typeContainsNoFunction_normalize _).trans hoperand
      have hinstance := hcontext.instantiate_eq hleftType hequivalent
      rw [← hinstance] at hrightValue
      exact applyEquality_ensures (HasType.isData _ _ hdata hleftValue)
        (HasType.isData _ _ hdata hrightValue)
  | less | lessEqual | greater | greaterEqual =>
      simp only [ensure_eq_ok, Bool.and_eq_true, decide_eq_true_eq] at hverify
      obtain ⟨⟨rfl, -⟩, rfl⟩ := hverify
      apply applyComparison_ensures (by simp)
      rcases HasType.operand hoperand hleftValue with hty | hty
      · rw [hty] at hleftValue hrightValue
        exact .inl ⟨hleftValue, hrightValue⟩
      · rw [hty] at hleftValue hrightValue
        exact .inr ⟨hleftValue, hrightValue⟩
  | and | or => simp at hverify

/-! ## Blocks -/

/-- What the induction over a block's syntax carries along: the table knows its
definitions, the types of its blocks name no field twice, and its operators are
admissible. -/
structure BlockFacts (assign : ℕ → Ty) (verifier : Verifier)
    (definitions : List (ValueId × Ty)) (types : List Ty) (operations : List CoreOperation) :
    Prop where
  table : ∀ entry ∈ definitions, Keyed.find entry.1 verifier.valueTypes = some entry.2
  types : ∀ ty ∈ types, ty.distinctFields = true
  operands : ∀ operation ∈ operations, ∀ left operator right,
    operation.kind = .binary left operator right →
      ∀ ty, Keyed.find left verifier.valueTypes = some ty →
        operandAdmissible operator (ty.subst assign) = true
  builtins : ∀ operation ∈ operations, ∀ builtin,
    operation.kind = .builtin builtin → builtinAdmissible assign builtin operation.ty

theorem BlockFacts.mono {definitions fewerDefinitions : List (ValueId × Ty)}
    {types fewerTypes : List Ty} {operations fewerOperations : List CoreOperation}
    (hfacts : BlockFacts assign verifier definitions types operations)
    (hdefinitions : fewerDefinitions ⊆ definitions) (htypes : fewerTypes ⊆ types)
    (hoperations : fewerOperations ⊆ operations) :
    BlockFacts assign verifier fewerDefinitions fewerTypes fewerOperations where
  table := fun entry hentry => hfacts.table entry (hdefinitions hentry)
  types := fun ty hty => hfacts.types ty (htypes hty)
  operands := fun operation hoperation => hfacts.operands operation (hoperations hoperation)
  builtins := fun operation hoperation => hfacts.builtins operation (hoperations hoperation)

abbrev CoreBlock.Facts (assign : ℕ → Ty) (verifier : Verifier) (block : CoreBlock) : Prop :=
  BlockFacts assign verifier block.definitions block.blockTypes block.nested

/-- A block's type, where the verifier compared it with another. -/
theorem CoreBlock.Facts.instantiate_eq {block : CoreBlock} {expected : Ty}
    (hfacts : block.Facts assign verifier)
    (hequivalent : block.ty.typeEquivalent expected = true) :
    block.ty.instantiate assign = expected.instantiate assign := by
  obtain ⟨_, _, _, _, ty, _, _, _⟩ := block
  exact Ty.instantiate_eq_of_typeEquivalent assign
    (.inl (hfacts.types ty (by simp [CoreBlock.blockTypes]))) hequivalent

/-- Exits leave a function other than module initialization with its result. -/
def FrameExits (target : CoreModule) (frame : CoreFrame) (exit : Option Ty) : Prop :=
  ∀ ty, exit = some ty → frame.function ≠ 0 ∧ ∃ function,
    target.functions[frame.function]? = some function ∧ function.signature.result = ty

def exitsAt (target : CoreModule) (assign : ℕ → Ty) (exit : Option Ty) (value : CoreValue) :
    Prop :=
  ∃ ty, exit = some ty ∧ HasType target assign value (ty.instantiate assign)

/-- A payload of the expected shape and type. -/
def PayloadMatches (target : CoreModule) (assign : ℕ → Ty) :
    Option Ty → Option CoreValue → Prop
  | some ty, some value => HasType target assign value (ty.instantiate assign)
  | none, none => True
  | _, _ => False

/-- The payload of a variant value, as the payload table of its family has it. -/
def PayloadTyped (target : CoreModule) (assign : ℕ → Ty)
    (payloads : List (VariantName × Option Ty)) (name : VariantName)
    (payload : Option CoreValue) : Prop :=
  ∀ expected, Keyed.find name payloads = some expected →
    PayloadMatches target assign expected payload

theorem variantPayloadTypes_ok {ty : Ty} {family : VariantFamily}
    {payloads : List (VariantName × Option Ty)} {value : CoreValue}
    (hpayloads : Verifier.variantPayloadTypes ty family = .ok payloads)
    (htype : HasType target assign value (ty.instantiate assign)) :
    payloads.length = 2 ∧ ∃ name payload, value = .variant name payload ∧
      name.family = family ∧ name ∈ payloads.map Prod.fst ∧
      PayloadTyped target assign payloads name payload := by
  unfold Verifier.variantPayloadTypes at hpayloads
  split at hpayloads
  · simp only [pure_eq_ok] at hpayloads
    subst hpayloads
    refine ⟨rfl, ?_⟩
    rw [Ty.instantiate_option] at htype
    rcases htype.option_inv with rfl | ⟨payload, rfl, hpayload⟩
    · exact ⟨_, _, rfl, rfl, by simp, by simp [PayloadTyped, PayloadMatches, Keyed.find]⟩
    · exact ⟨_, _, rfl, rfl, by simp,
        by simpa [PayloadTyped, PayloadMatches, Keyed.find] using hpayload⟩
  · simp only [pure_eq_ok] at hpayloads
    subst hpayloads
    refine ⟨rfl, ?_⟩
    rw [Ty.instantiate_result] at htype
    rcases htype.result_inv with ⟨payload, rfl, hpayload⟩ | ⟨payload, rfl, hpayload⟩
    · exact ⟨_, _, rfl, rfl, by simp,
        by simpa [PayloadTyped, PayloadMatches, Keyed.find] using hpayload⟩
    · exact ⟨_, _, rfl, rfl, by simp,
        by simpa [PayloadTyped, PayloadMatches, Keyed.find] using hpayload⟩
  · simp at hpayloads

theorem verifyArms_ok {available : List ValueId} {bindings : List (BindingId × ValueId)}
    {exit : Option Ty} {result : ValueId} {ty : Ty}
    {payloads : List (VariantName × Option Ty)} {arms : List VariantArmBlock} :
    ∀ {seen : List VariantName},
      verifier.verifyArms available bindings exit result ty payloads seen arms = .ok () →
        (arms.map (·.variant)).Nodup ∧ (∀ arm ∈ arms, arm.variant ∉ seen) ∧
          ∀ arm ∈ arms, arm.variant ∈ payloads.map Prod.fst := by
  induction arms with
  | nil => simp
  | cons arm rest ih =>
      intro seen hverify
      obtain ⟨variant, binding, block⟩ := arm
      simp only [Verifier.verifyArms, bind_eq_ok, ensure_eq_ok, decide_eq_true_eq,
        ofOption_eq_ok] at hverify
      obtain ⟨_, hseen, expected, hexpected, _, -, _, -, _, -, hrest⟩ := hverify
      obtain ⟨hnodup, hfresh, hmem⟩ := ih hrest
      refine ⟨?_, ?_, ?_⟩
      · rw [List.map_cons, List.nodup_cons]
        refine ⟨?_, hnodup⟩
        intro hvariant
        obtain ⟨other, hother, heq⟩ := List.mem_map.mp hvariant
        exact hfresh other hother (by simp [heq])
      · intro other hother
        rcases List.mem_cons.mp hother with rfl | hrestMem
        · exact hseen
        · exact fun hin => hfresh other hrestMem (List.mem_cons_of_mem _ hin)
      · intro other hother
        rcases List.mem_cons.mp hother with rfl | hrestMem
        · exact List.mem_map.mpr ⟨_, Keyed.mem_of_find hexpected, rfl⟩
        · exact hmem other hrestMem

/-- An arm of a two-armed match is taken with its payload bound. -/
theorem verifyArmBinding_ok {result : ValueId} {expected : Option Ty}
    {binding : Option MatchBindingId} {parameters : List BlockParameter}
    {payload : Option CoreValue}
    (hverify : Verifier.verifyArmBinding result expected binding parameters = .ok ())
    (hpayload : PayloadMatches target assign expected payload) :
    HasTypes target assign payload.toList
      (parameters.map fun parameter => parameter.ty.instantiate assign) := by
  unfold Verifier.verifyArmBinding at hverify
  split at hverify
  · rename_i expected binding
    cases payload with
    | none => exact hpayload.elim
    | some value =>
        simp only [ensure_eq_ok] at hverify
        split at hverify
        · simp only [Bool.and_eq_true, decide_eq_true_eq] at hverify
          obtain ⟨-, rfl⟩ := hverify
          simpa [HasTypes, PayloadMatches] using hpayload
        · simp at hverify
  · cases payload with
    | none =>
        simp only [ensure_eq_ok, List.isEmpty_iff] at hverify
        simp [hverify, HasTypes]
    | some value => exact hpayload.elim
  · simp at hverify

theorem consBindingMatches_typed {head tail : MatchBindingId} {element subject : Ty}
    {parameters : List BlockParameter} {first : CoreValue} {rest : List CoreValue}
    (hmatches : Verifier.consBindingMatches head tail element subject parameters = true)
    (hsubject : subject = .list element)
    (hvalues : ∀ value ∈ first :: rest,
      HasType target assign value (element.instantiate assign)) :
    HasTypes target assign [first, .list rest]
      (parameters.map fun parameter => parameter.ty.instantiate assign) := by
  unfold Verifier.consBindingMatches at hmatches
  split at hmatches
  · simp only [Bool.and_eq_true, decide_eq_true_eq] at hmatches
    obtain ⟨⟨-, rfl⟩, rfl⟩ := hmatches
    simp only [List.map_cons, List.map_nil, HasTypes, and_true]
    refine ⟨hvalues first List.mem_cons_self, ?_⟩
    rw [hsubject]
    simp only [Ty.instantiate_list, HasType]
    refine ⟨_, rfl, hasTypeList_iff.mpr fun value hvalue => ?_⟩
    exact hvalues value (List.mem_cons_of_mem _ hvalue)
  · simp at hmatches

section Obligations

variable (target assign verifier host call) (frame : CoreFrame) (exit : Option Ty)

/-- A verified block, entered on a typed environment with values for its
parameters, yields a value of its type. -/
def BlockEnsures (block : CoreBlock) : Prop :=
  ∀ ⦃environment : CoreEnvironment⦄ ⦃incoming : List ValueId⦄
    ⦃bindings : List (BindingId × ValueId)⦄ ⦃arguments : List CoreValue⦄,
  block.Facts assign verifier → block.plainBlocks = true →
    verifier.verifyBlock incoming bindings exit block = .ok () →
      EnvironmentTyped target assign verifier environment incoming →
        HasTypes target assign arguments
            (block.parameters.map fun parameter => parameter.ty.instantiate assign) →
          Run.Ensures (corePost target assign (exitsAt target assign exit))
            (HasType target assign · (block.ty.instantiate assign))
            (evalBlock host call frame environment arguments block)

/-- A verified operation of the given kind computes a value of its type. -/
def KindEnsures (kind : OperationKind) : Prop :=
  ∀ ⦃environment : CoreEnvironment⦄ ⦃available : List ValueId⦄
    ⦃bindings : List (BindingId × ValueId)⦄ ⦃result : ValueId⦄ ⦃ty : Ty⦄
    ⦃effects : EffectSet⦄ ⦃requirements : RequirementSet⦄ ⦃source : Option Span⦄,
  BlockFacts assign verifier kind.definitions kind.blockTypes
      (⟨result, ty, effects, requirements, source, kind⟩ :: kind.nested) →
    kind.plainBlocks = true → Keyed.find result verifier.valueTypes = some ty →
      verifier.verifyKind available bindings exit result ty effects kind = .ok () →
        EnvironmentTyped target assign verifier environment available →
          Run.Ensures (corePost target assign (exitsAt target assign exit))
            (HasType target assign · (ty.instantiate assign))
            (evalKind host call frame environment result ty source kind)

/-- Verified arms, entered with a variant that one of them takes, yield a value
of the type of their match. -/
def ArmsEnsures (arms : List VariantArmBlock) : Prop :=
  ∀ ⦃environment : CoreEnvironment⦄ ⦃available : List ValueId⦄
    ⦃bindings : List (BindingId × ValueId)⦄ ⦃result : ValueId⦄ ⦃ty : Ty⦄
    ⦃payloads : List (VariantName × Option Ty)⦄ ⦃seen : List VariantName⦄
    ⦃name : VariantName⦄ ⦃payload : Option CoreValue⦄,
  BlockFacts assign verifier (armsDefinitions arms) (armsBlockTypes arms) (armsNested arms) →
    armsPlain arms = true →
      verifier.verifyArms available bindings exit result ty payloads seen arms = .ok () →
        EnvironmentTyped target assign verifier environment available →
          PayloadTyped target assign payloads name payload →
            name ∈ arms.map (·.variant) →
              Run.Ensures (corePost target assign (exitsAt target assign exit))
                (HasType target assign · (ty.instantiate assign))
                (evalArms host call frame environment name payload arms)

end Obligations

section Kinds

attribute [local grind =] Verifier.verifyKind evalKind OperationKind.plainBlocks
  OperationKind.definitions OperationKind.blockTypes OperationKind.nested

variable {frame : CoreFrame} {exit : Option Ty}

theorem evalLiteral_kindEnsures (hcontext : SafetyContext target assign verifier host)
    (literal : ValueLiteral) :
    KindEnsures target assign verifier host call frame exit (.literal literal) := by
  intro environment available bindings result ty effects requirements source hfacts hplain
    hfind hverify htyped
  simp only [Verifier.verifyKind, bind_eq_ok, Verifier.expectType_eq_ok] at hverify
  obtain ⟨_, hequivalent, -⟩ := hverify
  rw [hcontext.instantiate_eq hfind hequivalent]
  exact evalLiteral_ensures

theorem evalUnit_kindEnsures (hcontext : SafetyContext target assign verifier host) :
    KindEnsures target assign verifier host call frame exit .unit := by
  intro environment available bindings result ty effects requirements source hfacts hplain
    hfind hverify htyped
  simp only [Verifier.verifyKind, bind_eq_ok, Verifier.expectType_eq_ok] at hverify
  obtain ⟨_, hequivalent, -⟩ := hverify
  rw [hcontext.instantiate_eq hfind hequivalent]
  exact Run.ensures_pure (by simp [HasType])

theorem evalBuiltin_kindEnsures (builtin : Builtin) :
    KindEnsures target assign verifier host call frame exit (.builtin builtin) := by
  intro environment available bindings result ty effects requirements source hfacts hplain
    hfind hverify htyped
  simp only [Verifier.verifyKind, bind_eq_ok] at hverify
  obtain ⟨_, hbuiltin, -⟩ := hverify
  have hadmissible := hfacts.builtins _ List.mem_cons_self builtin rfl
  exact Run.ensures_pure ⟨hbuiltin, hadmissible, rfl⟩

theorem evalVariant_kindEnsures (variant : VariantName) (payload : Option ValueId) :
    KindEnsures target assign verifier host call frame exit (.variant variant payload) := by
  intro environment available bindings result ty effects requirements source hfacts hplain
    hfind hverify htyped
  simp only [Verifier.verifyKind] at hverify
  cases payload with
  | none =>
      simp only [bind_eq_ok] at hverify
      obtain ⟨_, hvariant, -⟩ := hverify
      exact evalVariant_ensures htyped (by simp) hvariant
  | some payload =>
      simp only [bind_eq_ok, Verifier.requireAvailable_eq_ok] at hverify
      obtain ⟨_, havailable, _, -, _, -, _, hvariant, -⟩ := hverify
      apply evalVariant_ensures htyped _ hvariant
      rintro _ ⟨⟩
      exact havailable

theorem evalList_kindEnsures (hcontext : SafetyContext target assign verifier host)
    (elements : List ValueId) :
    KindEnsures target assign verifier host call frame exit (.list elements) := by
  intro environment available bindings result ty effects requirements source hfacts hplain
    hfind hverify htyped
  simp only [Verifier.verifyKind] at hverify
  split at hverify
  · rename_i element
    simp only [bind_eq_ok, forEach_eq_ok, Verifier.requireAvailable_eq_ok,
      Verifier.expectValueType_eq_ok] at hverify
    obtain ⟨_, helements, -⟩ := hverify
    apply Run.ensures_bind (readAll_ensures htyped fun id hid => by
      obtain ⟨_, havailable, -⟩ := helements id hid
      exact havailable)
    intro values hvalues
    apply Run.ensures_pure
    simp only [Ty.instantiate_list, HasType]
    refine ⟨_, rfl, hasTypeList_iff.mpr fun value hvalue => ?_⟩
    obtain ⟨id, hid, hidTyped⟩ := Keyed.forall₂_mem_right hvalues hvalue
    obtain ⟨_, -, _, -, _, -, actual, hactual, hequivalent⟩ := helements id hid
    exact hidTyped.instantiate_of_equivalent hcontext hactual hequivalent
  · simp at hverify

theorem evalRecord_kindEnsures (hcontext : SafetyContext target assign verifier host)
    (fields : List (String × ValueId)) :
    KindEnsures target assign verifier host call frame exit (.record fields) := by
  intro environment available bindings result ty effects requirements source hfacts hplain
    hfind hverify htyped
  simp only [Verifier.verifyKind] at hverify
  split at hverify
  · rename_i recordTypes
    simp only [bind_eq_ok, ensure_eq_ok, beq_iff_eq] at hverify
    obtain ⟨_, -, _, hlength, _, hoperands, -⟩ := hverify
    obtain ⟨hfields, hnodup, -⟩ := verifyRecordOperand_ok hoperands
    have hdistinct := hcontext.table_distinct hfind
    simp only [Ty.distinctFields, Bool.and_eq_true, decide_eq_true_eq] at hdistinct
    apply Run.ensures_bind (readAll_ensures htyped fun id hid => by
      obtain ⟨field, hfield, rfl⟩ := List.mem_map.mp hid
      exact (hfields field hfield).1)
    intro values hvalues
    exact Run.ensures_pure (hasType_record hcontext hdistinct.1 hlength
      (fun field hfield => (hfields field hfield).2) hnodup hvalues)
  · simp at hverify

theorem evalField_kindEnsures (hcontext : SafetyContext target assign verifier host)
    (value : ValueId) (field : String) :
    KindEnsures target assign verifier host call frame exit (.field value field) := by
  intro environment available bindings result ty effects requirements source hfacts hplain
    hfind hverify htyped
  simp only [Verifier.verifyKind, bind_eq_ok, Verifier.requireAvailable_eq_ok,
    Verifier.valueType_eq_ok, ofOption_eq_ok, Verifier.expectType_eq_ok] at hverify
  obtain ⟨_, havailable, actual, hactual, expected, hexpected, _, hequivalent, -⟩ := hverify
  apply Run.ensures_bind (read_ensures htyped havailable)
  rintro stored ⟨_, hstoredType, hstored⟩
  obtain rfl := Option.some.inj (hstoredType.symm.trans hactual)
  obtain ⟨types, htypes, hentry⟩ := recordFieldType_instantiate assign hexpected
  rw [htypes] at hstored
  obtain ⟨fields, found, rfl, hfound, hfoundType⟩ := hstored.record_field hentry
  rw [hcontext.instantiate_eq hfind hequivalent]
  apply (Run.ensures_ofOption hfound).mono
  rintro _ rfl
  exact hfoundType

theorem evalBlock_kindEnsures (hcontext : SafetyContext target assign verifier host)
    {block : CoreBlock}
    (hblockEnsures : BlockEnsures target assign verifier host call frame exit block) :
    KindEnsures target assign verifier host call frame exit (.block block) := by
  intro environment available bindings result ty effects requirements source hfacts hplain
    hfind hverify htyped
  simp only [Verifier.verifyKind, bind_eq_ok, Verifier.expectType_eq_ok] at hverify
  obtain ⟨_, hblock, _, hequivalent, -⟩ := hverify
  simp only [OperationKind.plainBlocks, Bool.and_eq_true, List.isEmpty_iff] at hplain
  have hblockFacts : block.Facts assign verifier :=
    hfacts.mono (by simp [OperationKind.definitions]) (by simp [OperationKind.blockTypes])
      (by simp [OperationKind.nested])
  rw [hcontext.instantiate_eq hfind hequivalent]
  exact hblockEnsures hblockFacts hplain.2 hblock htyped (by simp [hplain.1, HasTypes])

theorem evalClosure_kindEnsures (hcontext : SafetyContext target assign verifier host)
    (closure : ClosureId) (function : FunctionId) (captures : List CaptureArgument) :
    KindEnsures target assign verifier host call frame exit
      (.closure closure function captures) := by
  intro environment available bindings result ty effects requirements source hfacts hplain
    hfind hverify htyped
  simp only [Verifier.verifyKind, bind_eq_ok, Verifier.expectType_eq_ok, ensure_eq_ok,
    beq_iff_eq, forEach_eq_ok] at hverify
  obtain ⟨closed, hclosed, _, hequivalent, _, hlength, _, hcaptures, -⟩ := hverify
  have hfunction : target.functions[function]? = some closed := by
    rw [← hcontext.verified.collected]
    exact Verifier.function_ok hclosed
  rw [hcontext.instantiate_eq hfind hequivalent]
  exact evalClosure_ensures hcontext htyped hfunction hlength hcaptures

theorem evalCall_kindEnsures (hcontext : SafetyContext target assign verifier host)
    (hcall : CallTyped target assign call) (callee : ValueId) (arguments : List ValueId) :
    KindEnsures target assign verifier host call frame exit (.call callee arguments) := by
  intro environment available bindings result ty effects requirements source hfacts hplain
    hfind hverify htyped
  simp only [Verifier.verifyKind, bind_eq_ok, Verifier.requireAvailable_eq_ok,
    Verifier.valueType_eq_ok] at hverify
  obtain ⟨_, hcallee, calleeType, hcalleeType, hverify⟩ := hverify
  split at hverify
  · rename_i parameters returnType latent needed
    simp only [bind_eq_ok, ensure_eq_ok, beq_iff_eq, forEach_eq_ok,
      Verifier.requireAvailable_eq_ok, Verifier.expectValueType_eq_ok,
      Verifier.expectType_eq_ok] at hverify
    obtain ⟨_, hlength, _, harguments, _, hequivalent, -⟩ := hverify
    rw [hcontext.instantiate_eq hfind hequivalent]
    apply Run.ensures_bind (read_ensures htyped hcallee)
    rintro calleeValue ⟨_, hcalleeFind, hcalleeValue⟩
    obtain rfl := Option.some.inj (hcalleeFind.symm.trans hcalleeType)
    apply Run.ensures_bind (readAll_ensures htyped fun id hid => by
      obtain ⟨ty, hpair⟩ := exists_zip_right hlength hid
      obtain ⟨_, havailable, -⟩ := harguments _ hpair
      exact havailable)
    intro values hvalues
    rw [Ty.instantiate_function] at hcalleeValue
    apply applyCall_ensures hcontext.hostTyped hcall hcalleeValue
    apply hasTypes_of_forall₂ hcontext hvalues hlength
    intro pair hpair
    obtain ⟨_, -, hactual⟩ := harguments pair hpair
    exact hactual
  · simp at hverify

theorem evalIf_kindEnsures (hcontext : SafetyContext target assign verifier host)
    (condition : ValueId) {consequent alternative : CoreBlock}
    (hconsequentEnsures :
      BlockEnsures target assign verifier host call frame exit consequent)
    (halternativeEnsures :
      BlockEnsures target assign verifier host call frame exit alternative) :
    KindEnsures target assign verifier host call frame exit
      (.if condition consequent alternative) := by
  intro environment available bindings result ty effects requirements source hfacts hplain
    hfind hverify htyped
  simp only [Verifier.verifyKind, bind_eq_ok, Verifier.requireAvailable_eq_ok,
    Verifier.expectValueType_eq_ok, ensure_eq_ok, Bool.and_eq_true] at hverify
  obtain ⟨_, havailable, _, ⟨actual, hactual, hcondition⟩, _, hconsequent, _, halternative,
    _, ⟨hbranches, hequivalent⟩, -⟩ := hverify
  simp only [OperationKind.plainBlocks, Bool.and_eq_true, List.isEmpty_iff] at hplain
  have hconsequentFacts : consequent.Facts assign verifier :=
    hfacts.mono (by simp [OperationKind.definitions]) (by simp [OperationKind.blockTypes])
      (by simp [OperationKind.nested])
  have halternativeFacts : alternative.Facts assign verifier :=
    hfacts.mono (by simp [OperationKind.definitions]) (by simp [OperationKind.blockTypes])
      (by simp [OperationKind.nested])
  apply Run.ensures_bind (read_ensures htyped havailable)
  intro stored hstored
  obtain ⟨truth, rfl⟩ :=
    (hstored.instantiate_of_equivalent hcontext hactual hcondition).bool_inv
  rw [← hconsequentFacts.instantiate_eq hequivalent]
  cases truth with
  | true =>
      exact hconsequentEnsures hconsequentFacts hplain.1.2 hconsequent htyped
        (by simp [hplain.1.1, HasTypes])
  | false =>
      rw [hconsequentFacts.instantiate_eq hbranches]
      exact halternativeEnsures halternativeFacts hplain.2.2 halternative htyped
        (by simp [hplain.2.1, HasTypes])

theorem evalMatchList_kindEnsures (subject : ValueId) (head tail : MatchBindingId)
    {empty cons : CoreBlock}
    (hemptyEnsures : BlockEnsures target assign verifier host call frame exit empty)
    (hconsEnsures : BlockEnsures target assign verifier host call frame exit cons) :
    KindEnsures target assign verifier host call frame exit
      (.matchList subject empty head tail cons) := by
  intro environment available bindings result ty effects requirements source hfacts hplain
    hfind hverify htyped
  simp only [Verifier.verifyKind, bind_eq_ok, Verifier.requireAvailable_eq_ok,
    Verifier.valueType_eq_ok] at hverify
  obtain ⟨_, havailable, subjectType, hsubjectType, hverify⟩ := hverify
  split at hverify
  · rename_i element
    simp only [bind_eq_ok, ensure_eq_ok, Bool.and_eq_true] at hverify
    obtain ⟨_, hempty, _, hcons, _, ⟨harms, hequivalent⟩, _, hbinding, -⟩ := hverify
    simp only [OperationKind.plainBlocks, Bool.and_eq_true, List.isEmpty_iff] at hplain
    have hemptyFacts : empty.Facts assign verifier :=
      hfacts.mono (by simp [OperationKind.definitions])
        (by simp [OperationKind.blockTypes]) (by simp [OperationKind.nested])
    have hconsFacts : cons.Facts assign verifier :=
      hfacts.mono (by simp [OperationKind.definitions])
        (by simp [OperationKind.blockTypes]) (by simp [OperationKind.nested])
    apply Run.ensures_bind (read_ensures htyped havailable)
    rintro stored ⟨_, hstoredType, hstored⟩
    obtain rfl := Option.some.inj (hstoredType.symm.trans hsubjectType)
    rw [Ty.instantiate_list] at hstored
    obtain ⟨elements, rfl, helements⟩ := hstored.list_inv
    rw [← hemptyFacts.instantiate_eq hequivalent]
    cases elements with
    | nil =>
        exact hemptyEnsures hemptyFacts hplain.1.2 hempty htyped
          (by simp [hplain.1.1, HasTypes])
    | cons first rest =>
        rw [hemptyFacts.instantiate_eq harms]
        exact hconsEnsures hconsFacts hplain.2 hcons htyped
          (consBindingMatches_typed hbinding rfl helements)
  · simp at hverify

theorem evalMatchVariant_kindEnsures (subject : ValueId) (family : VariantFamily)
    {arms : List VariantArmBlock}
    (harmsEnsures : ArmsEnsures target assign verifier host call frame exit arms) :
    KindEnsures target assign verifier host call frame exit
      (.matchVariant subject family arms) := by
  intro environment available bindings result ty effects requirements source hfacts hplain
    hfind hverify htyped
  simp only [Verifier.verifyKind, bind_eq_ok, Verifier.requireAvailable_eq_ok,
    Verifier.valueType_eq_ok, ensure_eq_ok, beq_iff_eq] at hverify
  obtain ⟨_, havailable, subjectType, hsubjectType, payloads, hpayloads, _, hcount, _, harms,
    -⟩ := hverify
  apply Run.ensures_bind (read_ensures htyped havailable)
  rintro stored ⟨_, hstoredType, hstored⟩
  obtain rfl := Option.some.inj (hstoredType.symm.trans hsubjectType)
  obtain ⟨hlength, name, payload, rfl, hfamily, hname, hpayload⟩ :=
    variantPayloadTypes_ok hpayloads hstored
  obtain ⟨hnodup, -, hvariants⟩ := verifyArms_ok harms
  have hcovered : payloads.map Prod.fst ⊆ arms.map (·.variant) := by
    apply Keyed.subset_of_nodup_of_length hnodup
    · intro variant hvariant
      obtain ⟨arm, harm, rfl⟩ := List.mem_map.mp hvariant
      exact hvariants arm harm
    · simp [hcount, hlength]
  have harmFacts : BlockFacts assign verifier (armsDefinitions arms) (armsBlockTypes arms)
      (armsNested arms) :=
    hfacts.mono (by simp [OperationKind.definitions]) (by simp [OperationKind.blockTypes])
      (by simp [OperationKind.nested])
  simp only [hfamily, if_true]
  exact harmsEnsures harmFacts hplain harms htyped hpayload (hcovered hname)

theorem evalUnary_kindEnsures (hcontext : SafetyContext target assign verifier host)
    (operator : UnaryOperator) (operand : ValueId) :
    KindEnsures target assign verifier host call frame exit (.unary operator operand) := by
  intro environment available bindings result ty effects requirements source hfacts hplain
    hfind hverify htyped
  simp only [Verifier.verifyKind, bind_eq_ok, Verifier.requireAvailable_eq_ok,
    Verifier.expectValueType_eq_ok, Verifier.expectType_eq_ok] at hverify
  obtain ⟨_, havailable, _, ⟨actual, hactual, hoperand⟩, _, hequivalent, -⟩ := hverify
  rw [hcontext.instantiate_eq hfind hequivalent]
  apply Run.ensures_bind (read_ensures htyped havailable)
  intro stored hstored
  exact applyUnary_ensures (hstored.instantiate_of_equivalent hcontext hactual hoperand)

theorem evalBinary_kindEnsures (hcontext : SafetyContext target assign verifier host)
    (left : ValueId) (operator : BinaryOperator) (right : ValueId) :
    KindEnsures target assign verifier host call frame exit (.binary left operator right) := by
  intro environment available bindings result ty effects requirements source hfacts hplain
    hfind hverify htyped
  simp only [Verifier.verifyKind, bind_eq_ok, Verifier.requireAvailable_eq_ok] at hverify
  obtain ⟨_, hleft, _, hright, _, hbinary, -⟩ := hverify
  exact evalBinary_ensures hcontext htyped hleft hright
    (hfacts.operands _ List.mem_cons_self left operator right rfl) hbinary

theorem evalBind_kindEnsures (hcontext : SafetyContext target assign verifier host)
    (binding : BindingId) (value : ValueId) :
    KindEnsures target assign verifier host call frame exit (.bind binding value) := by
  intro environment available bindings result ty effects requirements source hfacts hplain
    hfind hverify htyped
  simp only [Verifier.verifyKind, bind_eq_ok, Verifier.requireAvailable_eq_ok,
    Verifier.expectType_eq_ok] at hverify
  obtain ⟨_, havailable, _, -, _, -, _, -, _, -, _, hequivalent, -⟩ := hverify
  rw [hcontext.instantiate_eq hfind hequivalent]
  apply Run.ensures_bind (read_ensures htyped havailable)
  intro _ _
  exact Run.ensures_pure (by simp [HasType])

theorem evalDiscard_kindEnsures (hcontext : SafetyContext target assign verifier host)
    (value : ValueId) :
    KindEnsures target assign verifier host call frame exit (.discard value) := by
  intro environment available bindings result ty effects requirements source hfacts hplain
    hfind hverify htyped
  simp only [Verifier.verifyKind, bind_eq_ok, Verifier.requireAvailable_eq_ok,
    Verifier.expectType_eq_ok] at hverify
  obtain ⟨_, havailable, _, hequivalent, -⟩ := hverify
  rw [hcontext.instantiate_eq hfind hequivalent]
  apply Run.ensures_bind (read_ensures htyped havailable)
  intro _ _
  exact Run.ensures_pure (by simp [HasType])

theorem evalExit_kindEnsures (hcontext : SafetyContext target assign verifier host)
    (hframe : FrameExits target frame exit) (value : ValueId) :
    KindEnsures target assign verifier host call frame exit (.exit value) := by
  intro environment available bindings result ty effects requirements source hfacts hplain
    hfind hverify htyped
  simp only [Verifier.verifyKind, bind_eq_ok, Verifier.requireAvailable_eq_ok,
    ofOption_eq_ok, Verifier.expectValueType_eq_ok] at hverify
  obtain ⟨_, havailable, expected, hexpected, _, ⟨actual, hactual, hequivalent⟩, -⟩ := hverify
  obtain ⟨hinitial, function, hfunction, hresult⟩ := hframe expected hexpected
  subst hresult
  apply Run.ensures_bind (read_ensures htyped havailable)
  intro stored hstored
  have htype := hstored.instantiate_of_equivalent hcontext hactual hequivalent
  have hevent : EventTyped target assign (.exit frame.function stored) :=
    ⟨hinitial, function, hfunction, htype⟩
  apply Run.ensures_bind (log_ensures hevent)
  intro _ _
  exact Run.ensures_exit ⟨_, hexpected, htype⟩

end Kinds

mutual

theorem evalBlock_ensures (hcontext : SafetyContext target assign verifier host)
    (hcall : CallTyped target assign call) {frame : CoreFrame} {exit : Option Ty}
    (hframe : FrameExits target frame exit) : (block : CoreBlock) →
    BlockEnsures target assign verifier host call frame exit block
  | ⟨id, parameters, operations, result, ty, effects, requirements, source⟩ => by
      intro environment incoming bindings arguments hfacts hplain hverify htyped harguments
      simp only [Verifier.verifyBlock, bind_eq_ok, Verifier.requireAvailable_eq_ok,
        Verifier.expectValueType_eq_ok] at hverify
      obtain ⟨inner, -, _, hoperations, _, hresult, _, ⟨actual, hactual, hequivalent⟩, -⟩ :=
        hverify
      have hbound : EnvironmentTyped target assign verifier
          (environment.bind (parameters.map (·.value)) arguments)
          (parameters.map (·.value) ++ incoming) :=
        htyped.bindParameters
          (fun parameter hparameter => hfacts.table (parameter.value, parameter.ty)
            (by simpa [CoreBlock.definitions] using .inl ⟨parameter, hparameter, rfl, rfl⟩))
          harguments
      have hoperationFacts : BlockFacts assign verifier (operationsDefinitions operations)
          (operationsBlockTypes operations) (operationsNested operations) :=
        hfacts.mono (by simp [CoreBlock.definitions]) (by simp [CoreBlock.blockTypes])
          (by simp [CoreBlock.nested])
      apply Run.ensures_bind (evalOperations_ensures hcontext hcall hframe operations
        hoperationFacts hplain hoperations hbound)
      intro finalEnvironment hfinal
      apply Run.ensures_bind (read_ensures hfinal hresult)
      intro value hvalue
      have htype : HasType target assign value (ty.instantiate assign) :=
        hvalue.instantiate_of_equivalent hcontext hactual hequivalent
      have hyield : EventTyped target assign (.yield id ty value) := htype
      apply Run.ensures_bind (log_ensures hyield)
      intro _ _
      exact Run.ensures_pure htype

theorem evalOperations_ensures (hcontext : SafetyContext target assign verifier host)
    (hcall : CallTyped target assign call) {frame : CoreFrame} {exit : Option Ty}
    (hframe : FrameExits target frame exit) : (operations : List CoreOperation) →
    ∀ ⦃id : BlockId⦄ ⦃blockResult : ValueId⦄ ⦃environment : CoreEnvironment⦄
      ⦃available : List ValueId⦄ ⦃bindings : List (BindingId × ValueId)⦄,
    BlockFacts assign verifier (operationsDefinitions operations)
        (operationsBlockTypes operations) (operationsNested operations) →
      operationsPlain operations = true →
        verifier.verifyOperations id blockResult available bindings exit operations = .ok () →
          EnvironmentTyped target assign verifier environment available →
            Run.Ensures (corePost target assign (exitsAt target assign exit))
              (fun environment => EnvironmentTyped target assign verifier environment
                (operations.map (·.result) ++ available))
              (evalOperations host call frame environment operations)
  | [] => by
      intro id blockResult environment available bindings _ _ _ htyped
      exact Run.ensures_pure (by simpa using htyped)
  | ⟨result, ty, effects, requirements, source, kind⟩ :: rest => by
      intro id blockResult environment available bindings hfacts hplain hverify htyped
      simp only [Verifier.verifyOperations, Verifier.verifyOperation, bind_eq_ok] at hverify
      obtain ⟨_, ⟨_, hkind, -⟩, _, -, inner, -, hrest⟩ := hverify
      simp only [operationsPlain, Bool.and_eq_true] at hplain
      have hfind : Keyed.find result verifier.valueTypes = some ty :=
        hfacts.table (result, ty) (by simp [operationsDefinitions, CoreOperation.definitions])
      have hkindFacts : BlockFacts assign verifier kind.definitions kind.blockTypes
          (⟨result, ty, effects, requirements, source, kind⟩ :: kind.nested) :=
        hfacts.mono
          (by intro entry hentry
              simp [operationsDefinitions, CoreOperation.definitions, hentry])
          (by intro other hother
              simp [operationsBlockTypes, hother])
          (by intro operation hoperation
              simp only [operationsNested, List.mem_cons, List.mem_append] at hoperation ⊢
              tauto)
      have hrestFacts : BlockFacts assign verifier (operationsDefinitions rest)
          (operationsBlockTypes rest) (operationsNested rest) :=
        hfacts.mono
          (by intro entry hentry
              simp [operationsDefinitions, hentry])
          (by intro other hother
              simp [operationsBlockTypes, hother])
          (by intro operation hoperation
              simp [operationsNested, hoperation])
      apply Run.ensures_bind (evalKind_ensures hcontext hcall hframe kind hkindFacts hplain.1
        hfind hkind htyped)
      intro value hvalue
      have hdefined : ValueTyped target assign verifier result value := ⟨ty, hfind, hvalue⟩
      apply (evalOperations_ensures hcontext hcall hframe rest hrestFacts hplain.2 hrest
        (htyped.update hdefined)).mono
      intro finalEnvironment hfinal
      refine hfinal.mono ?_
      intro other hother
      simp only [List.map_cons, List.cons_append, List.mem_cons, List.mem_append] at hother ⊢
      tauto

theorem evalKind_ensures (hcontext : SafetyContext target assign verifier host)
    (hcall : CallTyped target assign call) {frame : CoreFrame} {exit : Option Ty}
    (hframe : FrameExits target frame exit) : (kind : OperationKind) →
    KindEnsures target assign verifier host call frame exit kind
  | .literal literal => evalLiteral_kindEnsures hcontext literal
  | .unit => evalUnit_kindEnsures hcontext
  | .builtin builtin => evalBuiltin_kindEnsures builtin
  | .variant variant payload => evalVariant_kindEnsures variant payload
  | .list elements => evalList_kindEnsures hcontext elements
  | .record fields => evalRecord_kindEnsures hcontext fields
  | .field value field => evalField_kindEnsures hcontext value field
  | .block block => evalBlock_kindEnsures hcontext (evalBlock_ensures hcontext hcall hframe block)
  | .closure closure function captures =>
      evalClosure_kindEnsures hcontext closure function captures
  | .call callee arguments => evalCall_kindEnsures hcontext hcall callee arguments
  | .if condition consequent alternative =>
      evalIf_kindEnsures hcontext condition
        (evalBlock_ensures hcontext hcall hframe consequent)
        (evalBlock_ensures hcontext hcall hframe alternative)
  | .matchList subject empty head tail cons =>
      evalMatchList_kindEnsures subject head tail
        (evalBlock_ensures hcontext hcall hframe empty)
        (evalBlock_ensures hcontext hcall hframe cons)
  | .matchVariant subject family arms =>
      evalMatchVariant_kindEnsures subject family
        (evalArms_ensures hcontext hcall hframe arms)
  | .unary operator operand => evalUnary_kindEnsures hcontext operator operand
  | .binary left operator right => evalBinary_kindEnsures hcontext left operator right
  | .bind binding value => evalBind_kindEnsures hcontext binding value
  | .discard value => evalDiscard_kindEnsures hcontext value
  | .exit value => evalExit_kindEnsures hcontext hframe value

theorem evalArms_ensures (hcontext : SafetyContext target assign verifier host)
    (hcall : CallTyped target assign call) {frame : CoreFrame} {exit : Option Ty}
    (hframe : FrameExits target frame exit) : (arms : List VariantArmBlock) →
    ArmsEnsures target assign verifier host call frame exit arms
  | [] => by
      intro environment available bindings result ty payloads seen name payload _ _ _ _ _ hname
      simp at hname
  | ⟨variant, binding, block⟩ :: rest => by
      intro environment available bindings result ty payloads seen name payload hfacts hplain
        hverify htyped hpayload hname
      simp only [Verifier.verifyArms, bind_eq_ok, ensure_eq_ok, decide_eq_true_eq,
        ofOption_eq_ok] at hverify
      obtain ⟨_, -, expected, hexpected, _, hbinding, _, hblock, _, hequivalent, hrest⟩ := hverify
      simp only [armsPlain, Bool.and_eq_true] at hplain
      have hblockFacts : block.Facts assign verifier :=
        hfacts.mono
          (by intro entry hentry
              simp [armsDefinitions, hentry])
          (by intro other hother
              simp [armsBlockTypes, hother])
          (by intro operation hoperation
              simp [armsNested, hoperation])
      have hrestFacts : BlockFacts assign verifier (armsDefinitions rest) (armsBlockTypes rest)
          (armsNested rest) :=
        hfacts.mono
          (by intro entry hentry
              simp [armsDefinitions, hentry])
          (by intro other hother
              simp [armsBlockTypes, hother])
          (by intro operation hoperation
              simp [armsNested, hoperation])
      simp only [evalArms]
      split
      · rename_i hvariant
        subst hvariant
        rw [← hblockFacts.instantiate_eq hequivalent]
        exact evalBlock_ensures hcontext hcall hframe block hblockFacts hplain.1 hblock htyped
          (verifyArmBinding_ok hbinding (hpayload expected hexpected))
      · rename_i hvariant
        have hremaining : name ∈ rest.map (·.variant) := by
          rcases List.mem_cons.mp hname with heq | hmem
          · exact absurd heq.symm hvariant
          · exact hmem
        exact evalArms_ensures hcontext hcall hframe rest hrestFacts hplain.2 hrest
          htyped hpayload hremaining

end

/-! ## Functions -/

theorem CoreModule.body_facts (hcontext : SafetyContext target assign verifier host)
    (hadmissible : target.Admissible assign) {function : CoreFunction}
    (hfunction : function ∈ target.functions) : function.body.Facts assign verifier where
  table := fun entry hentry => hcontext.verified.table function hfunction entry
    (by simp [CoreFunction.definitions, hentry])
  types := fun ty hty => CoreModule.distinctFields_iff.mp hcontext.distinct function hfunction ty
    (by simp [CoreFunction.types, hty])
  operands := by
    intro operation hoperation left operator right hkind ty hfind
    apply hadmissible.operands operation _ left operator right hkind ty
    · obtain ⟨owner, howner, hentry⟩ := hcontext.verified.defined _ (Keyed.mem_of_find hfind)
      exact List.mem_flatMap.mpr ⟨owner, howner, hentry⟩
    · exact List.mem_flatMap.mpr ⟨function, hfunction, hoperation⟩
  builtins := fun operation hoperation builtin hkind =>
    hadmissible.builtins operation (List.mem_flatMap.mpr ⟨function, hfunction, hoperation⟩)
      builtin hkind

theorem CoreFunction.environment_typed (hcontext : SafetyContext target assign verifier host)
    {id : FunctionId} {function : CoreFunction} {captures arguments : List CoreValue}
    (hfunction : target.functions[id]? = some function)
    (hcaptures : HasTypes target assign captures
      (function.captures.map fun capture => capture.ty.instantiate assign))
    (harguments : HasTypes target assign arguments
      (function.signature.parameters.map (Ty.instantiate assign))) :
    EnvironmentTyped target assign verifier (function.environment captures arguments)
      (function.recursive.toList.map (·.value) ++ (function.captures.map (·.value) ++
        function.parameters.map (·.value))) := by
  have hmem : function ∈ target.functions := List.mem_of_getElem? hfunction
  have hboundary := hcontext.verified.boundary function hmem
  have htable := hcontext.verified.table function hmem
  have hempty : EnvironmentTyped target assign verifier (fun _ => none) [] := by
    simp [EnvironmentTyped]
  have hparameters := hempty.bind
    (fun entry hentry => htable entry (List.mem_append_left _
      (List.mem_append_left _ (List.mem_append_left _ hentry))))
    (by rw [← hboundary.parameters] at harguments
        simpa [Function.comp_def] using harguments)
  have hcaptured := hparameters.bind
    (fun entry hentry => htable entry (List.mem_append_left _
      (List.mem_append_left _ (List.mem_append_right _ hentry))))
    (by simpa [Function.comp_def] using hcaptures)
  cases hrecursive : function.recursive with
  | none => simpa [CoreFunction.environment, hrecursive, CoreEnvironment.bind,
      Function.comp_def] using hcaptured
  | some recursive =>
      have hself : HasType target assign (.closure function.id captures)
          (recursive.ty.instantiate assign) := by
        rw [hboundary.recursive recursive (by simp [hrecursive])]
        refine ⟨function, ?_, rfl, hcaptures⟩
        rw [hcontext.verified.ids id function hfunction]
        exact hfunction
      have hentry : Keyed.find recursive.value verifier.valueTypes = some recursive.ty :=
        htable (recursive.value, recursive.ty) (by simp [CoreFunction.definitions, hrecursive])
      have hbound := hcaptured.update ⟨recursive.ty, hentry, hself⟩
      simpa [CoreFunction.environment, hrecursive, CoreEnvironment.bind,
        Function.comp_def] using hbound

theorem HasTypes.length_eq {values : List CoreValue} {types : List Ty}
    (htypes : HasTypes target assign values types) : values.length = types.length :=
  (hasTypes_iff.mp htypes).length_eq

/-- One call: a verified function, run with typed calls below it, is itself a
typed call. -/
theorem CoreFunction.run_ensures (hcontext : SafetyContext target assign verifier host)
    (hplain : target.plainBlocks = true) (hadmissible : target.Admissible assign)
    (hcall : CallTyped target assign call) {id : FunctionId} {function : CoreFunction}
    {captures arguments : List CoreValue}
    (hfunction : target.functions[id]? = some function)
    (hcaptures : HasTypes target assign captures
      (function.captures.map fun capture => capture.ty.instantiate assign))
    (harguments : HasTypes target assign arguments
      (function.signature.parameters.map (Ty.instantiate assign))) :
    Run.Ensures (corePost target assign exits)
      (HasType target assign · (function.signature.result.instantiate assign))
      (function.run host call captures arguments) := by
  have hmem : function ∈ target.functions := List.mem_of_getElem? hfunction
  have hid : function.id = id := hcontext.verified.ids id function hfunction
  have hfacts := target.body_facts hcontext hadmissible hmem
  have hbody := hcontext.verified.bodies function hmem
  simp only [Verifier.verifyFunction, bind_eq_ok, ensure_eq_ok] at hbody
  obtain ⟨_, -, _, -, _, hequivalent, _, -, _, -, bindings, -, hblock⟩ := hbody
  have hbodyPlain := List.all_eq_true.mp hplain function hmem
  simp only [Bool.and_eq_true, List.isEmpty_iff] at hbodyPlain
  have hframe : FrameExits target ⟨function.id, function.body.negated⟩
      (if some function.id = verifier.target.entrypoints.head?.map (·.function) then none
        else some function.signature.result) := by
    intro ty hty
    rw [hcontext.verified.collected, hcontext.verified.initial] at hty
    split at hty
    · simp at hty
    · rename_i hinitial
      refine ⟨fun hzero => hinitial (congrArg some hzero), function, ?_, Option.some.inj hty⟩
      rw [hid]
      exact hfunction
  have harity : function.parameters.length = arguments.length := by
    have hparameters := (hcontext.verified.boundary function hmem).parameters
    have hlength := harguments.length_eq
    rw [← hparameters] at hlength
    simpa using hlength.symm
  have henvironment := function.environment_typed hcontext hfunction hcaptures harguments
  have hrun := evalBlock_ensures hcontext hcall hframe function.body hfacts hbodyPlain.2 hblock
    (henvironment.mono (by simp))
    (by rw [hbodyPlain.1]; simp [HasTypes] : HasTypes target assign [] _)
  rw [hfacts.instantiate_eq hequivalent] at hrun
  unfold CoreFunction.run
  rw [if_pos harity]
  refine Run.ensures_catchExit hrun rfl ?_ ?_
  · rintro value ⟨ty, hty, htype⟩
    obtain ⟨-, exiting, hexiting, rfl⟩ := hframe ty hty
    rw [hid, hfunction] at hexiting
    obtain rfl := Option.some.inj hexiting
    exact htype
  · intro failure _
    trivial

/-- Runs with any bound on nested calls are typed calls. -/
theorem CoreModule.runFunction_callTyped (hcontext : SafetyContext target assign verifier host)
    (hplain : target.plainBlocks = true) (hadmissible : target.Admissible assign) (fuel : ℕ) :
    CallTyped target assign (target.runFunction host fuel) := by
  induction fuel with
  | zero =>
      intro id function captures arguments exits _ _ _
      exact Run.ensures_exhausted
  | succ fuel ih =>
      intro id function captures arguments exits hfunction hcaptures harguments
      simp only [CoreModule.runFunction, hfunction]
      exact function.run_ensures hcontext hplain hadmissible ih hfunction hcaptures harguments

end Safety

/-- A run of a function of a verified module, on captures and arguments of its
declared types and with any bound on nested calls, does not fault; the value it
returns, the values its blocks yield and the values it exits with have their
declared types, and module initialization does not exit. -/
theorem verified_core_safe (target : CoreModule) (assign : ℕ → Ty) (host : CoreHost)
    (hverify : target.verify = .ok ()) (hplain : target.plainBlocks = true)
    (hdistinct : target.distinctFields = true) (hadmissible : target.Admissible assign)
    (hhost : HostTyped target assign host)
    (fuel : ℕ) (id : FunctionId) (function : CoreFunction)
    (captures arguments : List CoreValue)
    (hfunction : target.functions[id]? = some function)
    (hcaptures : HasTypes target assign captures
      (function.captures.map fun capture => capture.ty.instantiate assign))
    (harguments : HasTypes target assign arguments
      (function.signature.parameters.map (Ty.instantiate assign))) :
    Run.Ensures (corePost target assign fun _ => False)
      (HasType target assign · (function.signature.result.instantiate assign))
      (target.runFunction host fuel id captures arguments) := by
  obtain ⟨verifier, hverified⟩ := target.verified_of_verify hverify
  exact target.runFunction_callTyped ⟨hverified, hdistinct, hhost⟩ hplain hadmissible fuel id
    function captures arguments _ hfunction hcaptures harguments

/-- The kinds whose check leaves residual variables no room. -/
def OperationKind.instanceFree : OperationKind → Bool
  | .binary _ _ _ | .builtin .jsonEncode => false
  | _ => true

/-- Without binary operators and `json_encode`, every instance is admissible. -/
theorem CoreModule.admissible_of_instanceFree {target : CoreModule} (assign : ℕ → Ty)
    (hfree : (target.operations.all fun operation => operation.kind.instanceFree) = true) :
    target.Admissible assign := by
  rw [List.all_eq_true] at hfree
  constructor
  · intro operation hoperation left operator right hkind
    have hoperationFree := hfree operation hoperation
    simp [hkind, OperationKind.instanceFree] at hoperationFree
  · rintro operation hoperation builtin hkind rfl
    have hoperationFree := hfree operation hoperation
    simp [hkind, OperationKind.instanceFree] at hoperationFree

/-- Reads the configured region, matches on the answer, builds a header from it
and calls a function that reads the header's name. -/
def regionModule : CoreModule where
  entrypoints := [⟨.moduleInit, 0⟩]
  bindings :=
    [⟨0, .match, .string, none, none, false⟩, ⟨1, .match, .string, none, none, false⟩,
      ⟨2, .parameter, .httpHeader, none, none, false⟩]
  functions :=
    [{ id := 0
       debugName := none
       source := none
       signature := ⟨[], .unit, {.configRead}, {⟨.configRead, "region"⟩}⟩
       parameters := []
       captures := []
       recursive := none
       body :=
        ⟨0, [],
          [⟨0, .function [.httpHeader] .string ∅ ∅, ∅, ∅, none, .closure 0 1 []⟩,
            ⟨1, .function [.string] (.result .string .string) {.configRead} ∅, ∅, ∅, none,
              .builtin .configString⟩,
            ⟨2, .string, ∅, ∅, none, .literal (.string "region")⟩,
            ⟨3, .result .string .string, {.configRead}, {⟨.configRead, "region"⟩}, none,
              .call 1 [2]⟩,
            ⟨4, .string, ∅, ∅, none,
              .matchVariant 3 .result
                [⟨.ok, some 0, ⟨1, [⟨0, 0, 5, .string, none⟩], [], 5, .string, ∅, ∅, none⟩⟩,
                  ⟨.err, some 1, ⟨2, [⟨1, 1, 6, .string, none⟩], [], 6, .string, ∅, ∅, none⟩⟩]⟩,
            ⟨7, .record [("name", .string), ("value", .string)], ∅, ∅, none,
              .record [("value", 4), ("name", 2)]⟩,
            ⟨8, .string, ∅, ∅, none, .call 0 [7]⟩,
            ⟨9, .unit, ∅, ∅, none, .discard 8⟩],
          9, .unit, {.configRead}, {⟨.configRead, "region"⟩}, none⟩ },
      { id := 1
        debugName := none
        source := none
        signature := ⟨[.httpHeader], .string, ∅, ∅⟩
        parameters := [⟨0, 2, 10, .httpHeader, none, none⟩]
        captures := []
        recursive := none
        body :=
          ⟨3, [], [⟨11, .string, ∅, ∅, none, .field 10 "name"⟩], 11, .string, ∅, ∅, none⟩ }]

/-- A host that has a region configured, and nothing else. -/
def regionHost : CoreHost := fun _ builtin _ _ =>
  if builtin = .configString then .ok (.variant .ok (some (.string "eu-north"))) else .error .k5003

theorem regionHost_typed (target : CoreModule) (assign : ℕ → Ty) :
    HostTyped target assign regionHost := by
  intro events builtin parameters returnType effects requirements arguments answer hverify hanswer
  unfold regionHost at hanswer
  split at hanswer
  · rename_i hbuiltin
    subst hbuiltin
    rw [verifyBuiltinType] at hverify
    obtain ⟨_, _, heq⟩ := verifyHostBuiltin_ok hverify
    obtain ⟨-, rfl, -, -⟩ := Ty.function.inj heq
    obtain rfl := Except.ok.inj hanswer
    simp [HasType]
  · cases hanswer

theorem verified_core_safe_region :
    Run.Ensures (corePost regionModule (fun _ => .unit) fun _ => False)
        (HasType regionModule (fun _ => .unit) · .unit)
        (regionModule.runFunction regionHost 2 0 [] []) ∧
      (regionModule.runFunction regionHost 2 0 [] [] []).1 = .done .unit := by
  refine ⟨verified_core_safe regionModule (fun _ => .unit) regionHost
    (eq_ok_of_toBool (by decide +kernel)) rfl rfl
    (regionModule.admissible_of_instanceFree _ rfl) (regionHost_typed _ _) 2 0 _ [] [] rfl
    trivial trivial, ?_⟩
  rfl

/-- A host that refuses every call. -/
def refusingHost : CoreHost := fun _ _ _ _ => .error .k5003

theorem refusingHost_typed (target : CoreModule) (assign : ℕ → Ty) :
    HostTyped target assign refusingHost := by
  intro events builtin parameters returnType effects requirements arguments answer _ hanswer
  simp [refusingHost] at hanswer

/-- Module initialization runs `if true` and takes a branch that declares its
result as a parameter, which an `if` never supplies. -/
def strayParameterModule : CoreModule where
  entrypoints := [⟨.moduleInit, 0⟩]
  bindings := [⟨0, .match, .unit, none, none, false⟩]
  functions :=
    [{ id := 0
       debugName := none
       source := none
       signature := ⟨[], .unit, ∅, ∅⟩
       parameters := []
       captures := []
       recursive := none
       body :=
        ⟨0, [],
          [⟨0, .bool, ∅, ∅, none, .literal (.boolean true)⟩,
            ⟨1, .unit, ∅, ∅, none,
              .if 0 ⟨1, [⟨0, 0, 2, .unit, none⟩], [], 2, .unit, ∅, ∅, none⟩
                ⟨2, [], [⟨3, .unit, ∅, ∅, none, .unit⟩], 3, .unit, ∅, ∅, none⟩⟩],
          1, .unit, ∅, ∅, none⟩ }]

/-- A function whose parameter names one field twice hands it on as a record of
two fields, and reads the field that it lacks. -/
def repeatedFieldModule : CoreModule where
  entrypoints := [⟨.moduleInit, 0⟩]
  bindings :=
    [⟨0, .parameter, .record [("name", .string), ("name", .string)], none, none, false⟩]
  functions :=
    [{ id := 0
       debugName := none
       source := none
       signature := ⟨[], .unit, ∅, ∅⟩
       parameters := []
       captures := []
       recursive := none
       body := ⟨0, [], [⟨0, .unit, ∅, ∅, none, .unit⟩], 0, .unit, ∅, ∅, none⟩ },
      { id := 1
        debugName := none
        source := none
        signature := ⟨[.record [("name", .string), ("name", .string)]], .string, ∅, ∅⟩
        parameters :=
          [⟨0, 0, 1, .record [("name", .string), ("name", .string)], none, none⟩]
        captures := []
        recursive := none
        body :=
          ⟨1, [],
            [⟨2, .record [("name", .string), ("status", .string)], ∅, ∅, none,
                .block ⟨2, [], [], 1, .record [("name", .string), ("status", .string)], ∅, ∅,
                  none⟩⟩,
              ⟨3, .string, ∅, ∅, none, .field 2 "status"⟩],
            3, .string, ∅, ∅, none⟩ }]

/-- The two modules pass verification, each meets one half of the condition, and
each faults on arguments of its declared types: one reads a value before anything
has produced it, the other a field that the record does not have. -/
theorem stray_parameter_and_repeated_field_fault :
    (strayParameterModule.verify = .ok () ∧ strayParameterModule.distinctFields = true ∧
      strayParameterModule.Admissible (fun _ => .unit) ∧
      HostTyped strayParameterModule (fun _ => .unit) refusingHost ∧
      strayParameterModule.runFunction refusingHost 1 0 [] [] [] =
        (.fault (.unavailable 2), [])) ∧
    repeatedFieldModule.verify = .ok () ∧ repeatedFieldModule.plainBlocks = true ∧
      repeatedFieldModule.Admissible (fun _ => .unit) ∧
      HostTyped repeatedFieldModule (fun _ => .unit) refusingHost ∧
      HasTypes repeatedFieldModule (fun _ => .unit)
        [.record [("name", .string "a"), ("name", .string "b")]]
        ([.record [("name", .string), ("name", .string)]].map (Ty.instantiate fun _ => .unit)) ∧
      ∃ events, repeatedFieldModule.runFunction refusingHost 1 1 []
        [.record [("name", .string "a"), ("name", .string "b")]] [] =
          (.fault (.missingField "status"), events) := by
  refine ⟨⟨eq_ok_of_toBool (by decide +kernel), rfl,
    strayParameterModule.admissible_of_instanceFree _ rfl, refusingHost_typed _ _, ?_⟩,
    eq_ok_of_toBool (by decide +kernel), rfl,
    repeatedFieldModule.admissible_of_instanceFree _ rfl, refusingHost_typed _ _, ?_, ?_⟩
  · simp [strayParameterModule, CoreModule.runFunction, CoreFunction.run,
      Run.catchExit, evalBlock, evalOperations, evalOperation, evalKind, evalLiteral,
      Run.bind_apply, CoreFunction.environment, CoreEnvironment.bind,
      CoreRun.read, Run.ofOption, Run.fault, Run.pure]
  · rw [hasTypes_iff, List.map_singleton, Ty.instantiate_record, List.forall₂_cons]
    refine ⟨⟨_, rfl, ?_, ?_⟩, .nil⟩
    · rw [hasTypeFields_iff]
      simp [HasType]
    · simp
  · exact ⟨_, rfl⟩

end Krit
