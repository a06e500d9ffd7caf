import Krit.ScalarLayout
import Krit.CoreSafety
import Krit.Lib.Simulation

/-!
# Scalar code simulates Core

The code of an operation, run on locals that store the available values of a
Core environment, does what the operation does: it prints the same values, and
leaves the operation's value stored, exits with it, or traps where the operation
fails.  The simulation goes by induction over blocks, with calls related by
hypothesis; functions then tie the knot on the bound of nested calls.
-/

namespace Krit

open Interp Result Wasm CoreRun

/-! ## The relation between runs -/

/-- What a run has printed, in order. -/
def printedValues (events : List CoreEvent) : List (Bool × CoreValue) :=
  events.filterMap fun event =>
    match event with
    | .print newline value => some (newline, value)
    | _ => none

/-- A failure of the program and the trap that reports it. -/
def TrapMatches (error : CoreError) (trap : Trap) : Prop :=
  (error.code = .k4005 ∧ trap = .integerOverflow) ∨
    (error.code = .k4004 ∧ trap = .integerDivisionByZero)

/-- Printed values agree; the relation on exits depends on the function. -/
def scalarSimulation (exits : CoreValue → List Wasm.Value → Prop) (leftLimit rightLimit : Prop) :
    Simulation (List CoreEvent) (List (Bool × CoreValue)) CoreValue (List Wasm.Value) CoreError
      Trap :=
  ⟨fun events printed => printedValues events = printed, exits, TrapMatches, leftLimit,
    rightLimit⟩

section Simulation

variable {exits : CoreValue → List Wasm.Value → Prop} {leftLimit rightLimit : Prop}

theorem log_simulates {event : CoreEvent} {β : Type} {value : β}
    (hevent : ∀ newline printed, event ≠ .print newline printed) :
    Run.Simulates (scalarSimulation exits leftLimit rightLimit) (fun _ other => other = value)
      (CoreRun.log event) (pure value : Wasm.Run (List (Bool × CoreValue)) β) := by
  refine Run.simulates_modify_left ?_ ?_
  · rfl
  intro events printed hprinted
  have hkept : printedValues (events ++ [event]) = printedValues events := by
    cases event with
    | print newline value => exact absurd rfl (hevent newline value)
    | host _ _ _ | yield _ _ _ | exit _ _ => simp [printedValues]
  exact hkept.trans hprinted

/-- A right side that goes on after its call without an effect. -/
theorem simulates_bind_pure_right {α β γ : Type} {values : α → β → Prop}
    {results : α → γ → Prop} {left : CoreRun α}
    {right : Wasm.Run (List (Bool × CoreValue)) β}
    {next : β → Wasm.Run (List (Bool × CoreValue)) γ}
    (hrun : Run.Simulates (scalarSimulation exits leftLimit rightLimit) values left right)
    (hnext : ∀ value value', values value value' →
      ∃ result, next value' = pure result ∧ results value result) :
    Run.Simulates (scalarSimulation exits leftLimit rightLimit) results left (right >>= next) := by
  rw [← Run.bind_pure left]
  apply Run.simulates_bind hrun
  intro value value' hvalue
  obtain ⟨result, hresult, hvalues⟩ := hnext value value' hvalue
  rw [hresult]
  exact Run.simulates_pure hvalues

/-- A checked integer result and the end of its sequence. -/
theorem integerResult_simulates {span : Option Span} {result : Except ErrorCode ℤ}
    {locals : List Wasm.Value} {destination : ℕ} {values : CoreValue → Frame → Prop}
    (hcodes : ∀ code, result = .error code → code = .k4005 ∨ code = .k4004)
    (hvalues : ∀ value, result = .ok value →
      values (.integer value) ⟨locals.set destination (.i64 (word value)), []⟩) :
    Run.Simulates (scalarSimulation exits leftLimit rightLimit) values
      (integerResult span result) (storeChecked locals destination result) := by
  cases result with
  | ok value => exact Run.simulates_pure (hvalues value rfl)
  | error code =>
      apply Run.simulates_fail
      rcases hcodes code rfl with rfl | rfl
      · exact .inl ⟨rfl, rfl⟩
      · exact .inr ⟨rfl, rfl⟩

end Simulation

theorem orOverflow_error {result : Option ℤ} {code : ErrorCode}
    (herror : orOverflow result = .error code) : code = .k4005 := by
  cases result <;> simp [orOverflow] at herror
  exact herror.symm

theorem orOverflow_ok {value result : ℤ}
    (hok : orOverflow (i64TryFrom value) = .ok result) : result = value ∧ InI64 value := by
  cases htry : i64TryFrom value with
  | none => simp [htry, orOverflow] at hok
  | some other =>
      simp only [htry, orOverflow, Except.ok.injEq] at hok
      subst hok
      exact inI64_of_i64TryFrom htry

theorem integerArithmetic_error {operator : BinaryOperator} {left right : ℤ}
    {code : ErrorCode} (harithmetic : integerArithmetic operator left right = some (.error code)) :
    code = .k4005 ∨ code = .k4004 := by
  cases operator <;> simp only [integerArithmetic, Option.some.injEq, reduceCtorEq] at harithmetic
  case add | subtract | multiply => exact .inl (orOverflow_error harithmetic)
  case divide | remainder =>
    split at harithmetic
    · exact .inr (Except.error.inj harithmetic).symm
    · exact .inl (orOverflow_error harithmetic)

theorem integerArithmetic_ok {operator : BinaryOperator} {left right value : ℤ}
    (harithmetic : integerArithmetic operator left right = some (.ok value)) : InI64 value := by
  have hchecked : ∀ {result : ℤ}, orOverflow (i64TryFrom result) = .ok value → InI64 value := by
    intro result hok
    obtain ⟨rfl, hrange⟩ := orOverflow_ok hok
    exact hrange
  cases operator <;> simp only [integerArithmetic, Option.some.injEq, reduceCtorEq] at harithmetic
  case add | subtract | multiply => exact hchecked harithmetic
  case divide =>
    split at harithmetic
    · cases harithmetic
    · exact hchecked harithmetic
  case remainder =>
    split at harithmetic
    · cases harithmetic
    · unfold checkedRem at harithmetic
      split at harithmetic
      · cases harithmetic
      · exact hchecked harithmetic

/-! ## What is known about code -/

mutual

/-- No block declares parameters, at any depth. -/
def CoreBlock.parameterless : CoreBlock → Bool
  | ⟨_, parameters, operations, _, _, _, _, _⟩ =>
      parameters.isEmpty && operationsParameterless operations

def operationsParameterless : List CoreOperation → Bool
  | [] => true
  | ⟨_, _, _, _, _, kind⟩ :: rest => kind.parameterless && operationsParameterless rest

def OperationKind.parameterless : OperationKind → Bool
  | .block block => block.parameterless
  | .if _ consequent alternative => consequent.parameterless && alternative.parameterless
  | _ => true

end

section Dead

variable (live : LiveFunctions)

mutual

/-- The values of closures over eliminated functions. -/
def CoreBlock.deadResults : CoreBlock → List ValueId
  | ⟨_, _, operations, _, _, _, _, _⟩ => operationsDeadResults operations

def operationsDeadResults : List CoreOperation → List ValueId
  | [] => []
  | ⟨result, _, _, _, _, kind⟩ :: rest =>
      (if live.isDeadClosure kind then [result] else []) ++
        (kind.deadResults ++ operationsDeadResults rest)

def OperationKind.deadResults : OperationKind → List ValueId
  | .block block => block.deadResults
  | .if _ consequent alternative => consequent.deadResults ++ alternative.deadResults
  | .matchList _ empty _ _ cons => empty.deadResults ++ cons.deadResults
  | .matchVariant _ _ arms => armsDeadResults arms
  | _ => []

def armsDeadResults : List VariantArmBlock → List ValueId
  | [] => []
  | ⟨_, _, block⟩ :: rest => block.deadResults ++ armsDeadResults rest

end

end Dead

/-- What the simulation knows about a piece of code. -/
structure CodeFacts (verifier : Verifier) (context : FunctionContext) (frame : CoreFrame)
    (definitions : List (ValueId × Ty)) (dead : List ValueId) (uses : List (ValueId × Bool))
    (operations : List CoreOperation) : Prop where
  table : ∀ entry ∈ definitions, Keyed.find entry.1 verifier.valueTypes = some entry.2
  distinct : (definitions.map Prod.fst).Nodup
  dead : ∀ id ∈ dead, Keyed.find id context.valueTypes = none
  uses : ∀ use ∈ uses, use.2 = false → use.1 ∉ context.shared.minimumLiteralOperands
  minimum : ∀ operation ∈ operations,
    operation.result ∈ context.shared.minimumLiteralOperands →
      operation.kind = .literal (.integer (i64Max + 1)) ∧ operation.result ∈ frame.negated

theorem CodeFacts.mono {verifier : Verifier} {context : FunctionContext} {frame : CoreFrame}
    {definitions fewerDefinitions : List (ValueId × Ty)} {dead fewerDead : List ValueId}
    {uses fewerUses : List (ValueId × Bool)}
    {operations fewerOperations : List CoreOperation}
    (hfacts : CodeFacts verifier context frame definitions dead uses operations)
    (hdefinitions : fewerDefinitions.Sublist definitions) (hdead : fewerDead ⊆ dead)
    (huses : fewerUses ⊆ uses) (hoperations : fewerOperations ⊆ operations) :
    CodeFacts verifier context frame fewerDefinitions fewerDead fewerUses fewerOperations where
  table := fun entry hentry => hfacts.table entry (hdefinitions.subset hentry)
  distinct := hfacts.distinct.sublist (hdefinitions.map _)
  dead := fun id hid => hfacts.dead id (hdead hid)
  uses := fun use huse => hfacts.uses use (huses huse)
  minimum := fun operation hoperation => hfacts.minimum operation (hoperations hoperation)

abbrev CoreBlock.Code (verifier : Verifier) (context : FunctionContext) (frame : CoreFrame)
    (block : CoreBlock) : Prop :=
  CodeFacts verifier context frame block.definitions (block.deadResults context.shared.live)
    block.uses block.nested

/-- What the emitted module provides to the code of a function. -/
structure MachineFacts (target : CoreModule) (shared : EncodeContext) (machine : Wasm.Module)
    (importCount : ℕ) : Prop where
  types : ∀ signature index, shared.signatureIndex signature = .ok index →
    machine.types[index]? = some signature
  functions : ∀ id function signature, target.functions[id]? = some function →
    shared.live.contains id = true →
      typeSignature function.signature.parameters function.signature.result = .ok signature →
        machine.table[id]? = some (importCount + id) ∧
          machine.functionType (importCount + id) = some signature
  wrappers : ∀ flavor slot, Keyed.find flavor shared.builtinSlots = some slot →
    machine.table[slot]? = some (importCount + slot) ∧
      machine.functionType (importCount + slot) = some flavor.signature

/-- Calls of live functions, and of print wrappers, simulate. -/
structure CallSimulates (target : CoreModule) (shared : EncodeContext) (importCount : ℕ)
    (leftLimit rightLimit : Prop) (host : CoreHost) (call : CoreCall)
    (invoke : Invoke (List (Bool × CoreValue))) : Prop where
  functions : ∀ exits id function captures arguments words,
    target.functions[id]? = some function → shared.live.contains id = true →
      CapturesHeld function captures →
        RepresentsAll target shared.live shared.builtinSlots function.signature.parameters
            arguments words →
          Run.Simulates (scalarSimulation exits leftLimit rightLimit)
            (Represents target shared.live shared.builtinSlots function.signature.result)
            (call id captures arguments) (invoke (importCount + id) words)
  wrappers : ∀ exits span builtin argument effects requirements flavor slot value words,
    BuiltinFlavor.fromOperation builtin
        (.function [argument] .unit effects requirements) = .ok flavor →
      Keyed.find flavor shared.builtinSlots = some slot →
        Represents target shared.live shared.builtinSlots argument value words →
          Run.Simulates (scalarSimulation exits leftLimit rightLimit)
            (Represents target shared.live shared.builtinSlots .unit)
            (applyBuiltin host builtin (.function [argument] .unit effects requirements) span
              [value])
            (invoke (importCount + slot) words)

/-- The printing built-ins with a flavor take one scalar and return unit. -/
theorem fromOperation_shape {builtin : Builtin} {ty : Ty} {flavor : BuiltinFlavor}
    (hflavor : BuiltinFlavor.fromOperation builtin ty = .ok flavor)
    (hverify : verifyBuiltinType builtin ty = .ok ()) :
    ∃ argument effects requirements, ty = .function [argument] .unit effects requirements := by
  unfold BuiltinFlavor.fromOperation at hflavor
  split at hflavor
  · split at hflavor
    · simp [Emit.fail] at hflavor
    · rename_i argument rest
      have hprint : builtin = .print ∨ builtin = .println := by
        cases builtin <;> cases argument <;> simp [Emit.fail] at hflavor ⊢
      rcases hprint with rfl | rfl
      all_goals
        simp only [verifyBuiltinType, ensure_eq_ok] at hverify
        cases rest with
        | nil =>
            simp only [Bool.and_eq_true, decide_eq_true_eq] at hverify
            obtain ⟨⟨rfl, -⟩, -⟩ := hverify
            exact ⟨_, _, _, rfl⟩
        | cons second others => simp at hverify
  · simp [Emit.fail] at hflavor

theorem fromOperation_signature {builtin : Builtin} {argument : Ty} {effects : EffectSet}
    {requirements : RequirementSet} {flavor : BuiltinFlavor}
    (hflavor : BuiltinFlavor.fromOperation builtin
      (.function [argument] .unit effects requirements) = .ok flavor) :
    typeSignature [argument] .unit = .ok flavor.signature := by
  cases builtin <;> cases argument <;> simp [BuiltinFlavor.fromOperation, Emit.fail] at hflavor
  all_goals
    subst hflavor
    rfl

section Code

variable {target : CoreModule} {verifier : Verifier} {context : FunctionContext}
variable {frame : CoreFrame} {machine : Wasm.Module} {importCount size : ℕ} {host : CoreHost}
variable {call : CoreCall} {invoke : Invoke (List (Bool × CoreValue))}
variable {leftLimit rightLimit : Prop} {resultType : Ty}

/-- A value of the environment is stored; units are known even where the compiler
does not know the value. -/
structure Held (target : CoreModule) (verifier : Verifier) (context : FunctionContext)
    (locals : List Wasm.Value) (id : ValueId) (value : CoreValue) : Prop where
  stored : Stored target context.shared.live context.shared.builtinSlots context locals id value
  unit : Keyed.find id verifier.valueTypes = some .unit → value = .unit

/-- Available values are in the environment and stored in the locals. -/
def EnvironmentStored (target : CoreModule) (verifier : Verifier) (context : FunctionContext)
    (environment : CoreEnvironment) (available : List ValueId) (locals : List Wasm.Value) : Prop :=
  ∀ id ∈ available, ∃ value, environment id = some value ∧
    Held target verifier context locals id value

/-- The facts that hold throughout the body of a function. -/
structure BodyContext (target : CoreModule) (verifier : Verifier) (context : FunctionContext)
    (machine : Wasm.Module) (importCount size : ℕ) (leftLimit rightLimit : Prop)
    (host : CoreHost) (call : CoreCall) (invoke : Invoke (List (Bool × CoreValue))) :
    Prop where
  verified : target.Verified verifier
  distinct : context.Distinct size
  types : ∀ id ty, Keyed.find id context.valueTypes = some ty →
    Keyed.find id verifier.valueTypes = some ty
  machine : MachineFacts target context.shared machine importCount
  calls : CallSimulates target context.shared importCount leftLimit rightLimit host call invoke

/-- The end of a piece of code: a value is stored, and only the values `written`
may have changed. -/
def Done (target : CoreModule) (verifier : Verifier) (context : FunctionContext)
    (id : ValueId) (written : List ValueId) (locals : List Wasm.Value) (value : CoreValue)
    (after : Frame) : Prop :=
  after.stack = [] ∧ Held target verifier context after.locals id value ∧
    Unchanged context written locals after.locals

section Operations

variable {environment : CoreEnvironment} {available : List ValueId} {locals : List Wasm.Value}
variable {result id : ValueId} {ty : Ty} {value : CoreValue} {words : List Wasm.Value}
variable {exits : CoreValue → List Wasm.Value → Prop} {written : List ValueId}

theorem EnvironmentStored.mono {fewer : List ValueId}
    (hstored : EnvironmentStored target verifier context environment available locals)
    (hfewer : fewer ⊆ available) :
    EnvironmentStored target verifier context environment fewer locals :=
  fun id hid => hstored id (hfewer hid)

theorem EnvironmentStored.unchanged {after : List Wasm.Value}
    (hstored : EnvironmentStored target verifier context environment available locals)
    (hunchanged : Unchanged context written locals after)
    (happart : ∀ id ∈ available, id ∉ written) :
    EnvironmentStored target verifier context environment available after := by
  intro id hid
  obtain ⟨value, hvalue, hheld⟩ := hstored id hid
  exact ⟨value, hvalue, hheld.stored.unchanged hunchanged (happart id hid), hheld.unit⟩

theorem EnvironmentStored.insert
    (hstored : EnvironmentStored target verifier context environment available locals)
    (hheld : Held target verifier context locals id value) :
    EnvironmentStored target verifier context (Function.update environment id (some value))
      (id :: available) locals := by
  intro other hother
  by_cases heq : other = id
  · subst heq
    exact ⟨value, by simp, hheld⟩
  · have hmem : other ∈ available := by simpa [heq] using hother
    obtain ⟨stored, hvalue, hotherHeld⟩ := hstored other hmem
    exact ⟨stored, by simpa [heq] using hvalue, hotherHeld⟩

theorem EnvironmentStored.update {after : Frame}
    (hstored : EnvironmentStored target verifier context environment available locals)
    (hdone : Done target verifier context result written locals value after)
    (happart : ∀ id ∈ available, id ∉ written) :
    EnvironmentStored target verifier context (Function.update environment result (some value))
      (result :: available) after.locals :=
  (hstored.unchanged hdone.2.2 happart).insert hdone.2.1

theorem EnvironmentStored.bind {ids : List ValueId} {values : List CoreValue}
    (hstored : EnvironmentStored target verifier context environment available locals)
    (hheld : List.Forall₂ (Held target verifier context locals) ids values) :
    EnvironmentStored target verifier context (environment.bind ids values) (ids ++ available)
      locals := by
  induction hheld generalizing environment available with
  | nil => simpa [CoreEnvironment.bind] using hstored
  | cons hfirst _ ih =>
      apply (ih (hstored.insert hfirst)).mono
      intro id hid
      simp only [List.cons_append, List.mem_cons, List.mem_append] at hid ⊢
      tauto

theorem EnvironmentStored.read_eq
    (hstored : EnvironmentStored target verifier context environment available locals)
    (hid : id ∈ available) :
    ∃ value, CoreRun.read environment id = pure value ∧
      Held target verifier context locals id value := by
  obtain ⟨value, hvalue, hheld⟩ := hstored id hid
  exact ⟨value, by simp [CoreRun.read, hvalue], hheld⟩

/-- The type under which the compiler knows a value is the verified one. -/
theorem BodyContext.type_eq
    (hbody : BodyContext target verifier context machine importCount size leftLimit rightLimit
      host call invoke)
    (htype : Keyed.find id verifier.valueTypes = some ty) {actual : Ty}
    (hactual : Keyed.find id context.valueTypes = some actual) : actual = ty := by
  have hverified := hbody.types id actual hactual
  rw [htype] at hverified
  exact (Option.some.inj hverified).symm

/-- An operand that is loaded: its words are those of its declared type. -/
theorem EnvironmentStored.load
    (hbody : BodyContext target verifier context machine importCount size leftLimit rightLimit
      host call invoke)
    (hstored : EnvironmentStored target verifier context environment available locals)
    (hid : id ∈ available) (hminimum : id ∉ context.shared.minimumLiteralOperands)
    (htype : Keyed.find id verifier.valueTypes = some ty)
    {code : List Instr} (hload : context.loadValue id = .ok code) :
    ∃ value words, CoreRun.read environment id = pure value ∧
      Represents target context.shared.live context.shared.builtinSlots ty value words ∧
      ∀ stack, execAll machine invoke ⟨locals, stack⟩ code = pure ⟨locals, words ++ stack⟩ := by
  obtain ⟨value, hread, hheld⟩ := hstored.read_eq hid
  obtain ⟨actual, words, hactual, hrepresents, -, hexec⟩ :=
    loadValue_exec machine invoke hload hheld.stored hminimum
  rw [hbody.type_eq htype hactual] at hrepresents
  exact ⟨value, words, hread, hrepresents, hexec⟩

/-- A represented value that is stored is held. -/
theorem Held.of_represents
    (hbody : BodyContext target verifier context machine importCount size leftLimit rightLimit
      host call invoke)
    (htype : Keyed.find id verifier.valueTypes = some ty)
    (hminimum : id ∉ context.shared.minimumLiteralOperands)
    (hrepresents : Represents target context.shared.live context.shared.builtinSlots ty value
      words)
    (hlocals : ∀ entry ∈ words, ∀ index, Keyed.find id context.locals = some index →
      locals[index]? = some entry) :
    Held target verifier context locals id value where
  stored := by
    rw [Stored, if_neg hminimum]
    intro actual hactual
    rw [hbody.type_eq htype hactual]
    exact ⟨words, hrepresents, hlocals⟩
  unit := by
    intro hunit
    rw [htype, Option.some.injEq] at hunit
    subst hunit
    cases value <;> simp only [Represents] at hrepresents
    rfl

/-- Storing the value of an operation ends it. -/
theorem Done.of_store
    (hbody : BodyContext target verifier context machine importCount size leftLimit rightLimit
      host call invoke)
    (hsize : locals.length = size)
    (htype : Keyed.find result verifier.valueTypes = some ty)
    (hminimum : result ∉ context.shared.minimumLiteralOperands)
    {store : List Instr} (hstore : context.storeValue result = .ok store)
    (hrepresents : Represents target context.shared.live context.shared.builtinSlots ty value
      words) :
    ∃ after, execAll machine invoke ⟨locals, words⟩ store = pure ⟨after, []⟩ ∧
      Done target verifier context result [result] locals value ⟨after, []⟩ := by
  obtain ⟨after, hexec, hunchanged, hheld⟩ :=
    storeValue_exec machine invoke hstore hbody.distinct hsize
      (fun actual hactual => hbody.type_eq htype hactual ▸ hrepresents)
  exact ⟨after, by simpa using hexec [], rfl,
    Held.of_represents hbody htype hminimum hrepresents hheld, hunchanged⟩

theorem Done.mono {more : List ValueId} {after : Frame}
    (hdone : Done target verifier context id written locals value after) (hmore : written ⊆ more) :
    Done target verifier context id more locals value after :=
  ⟨hdone.1, hdone.2.1, hdone.2.2.mono hmore⟩

/-- A value that is computed without an effect, pushed and stored. -/
theorem push_store_simulates
    (hbody : BodyContext target verifier context machine importCount size leftLimit rightLimit
      host call invoke)
    (hsize : locals.length = size)
    (htype : Keyed.find result verifier.valueTypes = some ty)
    (hminimum : result ∉ context.shared.minimumLiteralOperands)
    {push store : List Instr} (hstore : context.storeValue result = .ok store)
    (hpush : execAll machine invoke ⟨locals, []⟩ push = pure ⟨locals, words⟩)
    (hrepresents : Represents target context.shared.live context.shared.builtinSlots ty value
      words) :
    Run.Simulates (scalarSimulation exits leftLimit rightLimit)
      (Done target verifier context result [result] locals) (pure value : CoreRun CoreValue)
      (execAll machine invoke ⟨locals, []⟩ (push ++ store)) := by
  obtain ⟨after, hexec, hdone⟩ :=
    Done.of_store hbody hsize htype hminimum hstore hrepresents
  rw [execAll_append, hpush, Run.pure_bind, hexec]
  exact Run.simulates_pure hdone

/-- A value that takes no word ends its operation as it stands. -/
theorem unit_simulates
    (hbody : BodyContext target verifier context machine importCount size leftLimit rightLimit
      host call invoke)
    (htype : Keyed.find result verifier.valueTypes = some .unit)
    (hminimum : result ∉ context.shared.minimumLiteralOperands) :
    Run.Simulates (scalarSimulation exits leftLimit rightLimit)
      (Done target verifier context result [result] locals) (pure .unit : CoreRun CoreValue)
      (execAll machine invoke ⟨locals, []⟩ []) := by
  rw [execAll_nil]
  apply Run.simulates_pure
  have hunit : Represents target context.shared.live context.shared.builtinSlots .unit .unit
      [] := rfl
  exact ⟨rfl, Held.of_represents hbody htype hminimum hunit (by simp), Unchanged.refl _⟩

/-! ### Literals and function values -/

theorem slotWord_toNat {slot : ℕ} (hslot : slot < 2 ^ 31) :
    (BitVec.ofNat 32 slot).toNat = slot := by
  simp only [BitVec.toNat_ofNat]
  omega

theorem exec_slotConst (slot : ℕ) :
    execAll machine invoke ⟨locals, []⟩ [i32Const slot] =
      pure ⟨locals, [.i32 (BitVec.ofNat 32 slot)]⟩ := by
  simp only [i32Const, execAll_cons, exec_const, execAll_nil, Run.pure_bind]

section Leaves

variable
  (hbody : BodyContext target verifier context machine importCount size leftLimit rightLimit
    host call invoke)
  (hsize : locals.length = size)

include hbody hsize

theorem integerLiteral_simulates {number : ℤ} {span : Option Span} {code : List Instr}
    (htype : Keyed.find result verifier.valueTypes = some .int)
    (hminimum : result ∈ context.shared.minimumLiteralOperands →
      number = i64Max + 1 ∧ result ∈ frame.negated)
    (hencode : context.encodeKind result ty span (.literal (.integer number)) = .ok code) :
    Run.Simulates (scalarSimulation exits leftLimit rightLimit)
      (Done target verifier context result [result] locals)
      (evalLiteral frame result span (.integer number))
      (execAll machine invoke ⟨locals, []⟩ code) := by
  simp only [FunctionContext.encodeKind] at hencode
  split at hencode
  · -- the negated literal has no word: its local holds zero, which nothing loads
    rename_i hmem
    simp only [bind_eq_ok, pure_eq_ok] at hencode
    obtain ⟨store, hstore, rfl⟩ := hencode
    obtain ⟨rfl, hnegated⟩ := hminimum hmem
    have hzero : Represents target context.shared.live context.shared.builtinSlots .int
        (.integer 0) [.i64 (word 0)] := ⟨inI64_zero, rfl⟩
    obtain ⟨after, hexec, hunchanged, -⟩ :=
      storeValue_exec machine invoke hstore hbody.distinct hsize
        (fun actual hactual => hbody.type_eq htype hactual ▸ hzero)
    have hrun : execAll machine invoke ⟨locals, []⟩ ([i64Const 0] ++ store) =
        pure ⟨after, []⟩ := by
      rw [execAll_append]
      simpa [i64Const, word] using hexec []
    rw [hrun]
    simp only [evalLiteral, if_pos hnegated]
    apply Run.simulates_pure
    refine ⟨rfl, ⟨?_, ?_⟩, hunchanged⟩
    · rw [Stored, if_pos hmem]
    · intro hunit
      simp [htype] at hunit
  · rename_i hmem
    simp only [bind_eq_ok, ofOption_eq_ok, pure_eq_ok] at hencode
    obtain ⟨value, hvalue, store, hstore, rfl⟩ := hencode
    obtain ⟨rfl, hrange⟩ := inI64_of_i64TryFrom hvalue
    have heval : evalLiteral frame result span (.integer value) = pure (.integer value) := by
      simp [evalLiteral, hvalue, orOverflow, integerResult]
    rw [heval]
    have hpush : execAll machine invoke ⟨locals, []⟩ [i64Const value] =
        pure ⟨locals, [.i64 (word value)]⟩ := by
      simp [i64Const, word]
    exact push_store_simulates hbody hsize htype hmem hstore hpush ⟨hrange, rfl⟩

theorem booleanLiteral_simulates {truth : Bool} {span : Option Span} {code : List Instr}
    (htype : Keyed.find result verifier.valueTypes = some .bool)
    (hminimum : result ∉ context.shared.minimumLiteralOperands)
    (hencode : context.encodeKind result ty span (.literal (.boolean truth)) = .ok code) :
    Run.Simulates (scalarSimulation exits leftLimit rightLimit)
      (Done target verifier context result [result] locals)
      (pure (.boolean truth) : CoreRun CoreValue)
      (execAll machine invoke ⟨locals, []⟩ code) := by
  simp only [FunctionContext.encodeKind, bind_eq_ok, pure_eq_ok] at hencode
  obtain ⟨store, hstore, rfl⟩ := hencode
  have hpush : execAll machine invoke ⟨locals, []⟩ [i32Const (if truth then 1 else 0)] =
      pure ⟨locals, [bool32 truth]⟩ := by
    cases truth <;> simp [i32Const, bool32]
  exact push_store_simulates hbody hsize htype hminimum hstore hpush
    (show Represents _ _ _ .bool (.boolean truth) [bool32 truth] from rfl)

theorem builtin_simulates {builtin : Builtin} {span : Option Span} {code : List Instr}
    (htype : Keyed.find result verifier.valueTypes = some ty)
    (hminimum : result ∉ context.shared.minimumLiteralOperands)
    (hverify : verifyBuiltinType builtin ty = .ok ())
    (hencode : context.encodeKind result ty span (.builtin builtin) = .ok code) :
    Run.Simulates (scalarSimulation exits leftLimit rightLimit)
      (Done target verifier context result [result] locals)
      (pure (.builtin builtin ty) : CoreRun CoreValue)
      (execAll machine invoke ⟨locals, []⟩ code) := by
  simp only [FunctionContext.encodeKind, bind_eq_ok, pure_eq_ok, ofOption_eq_ok, slotConst,
    ensure_eq_ok, decide_eq_true_eq] at hencode
  obtain ⟨flavor, hflavor, slot, hslot, constant, ⟨_, hbound, rfl⟩, store, hstore, rfl⟩ := hencode
  obtain ⟨argument, effects, requirements, rfl⟩ := fromOperation_shape hflavor hverify
  exact push_store_simulates hbody hsize htype hminimum hstore (exec_slotConst slot)
    (show Represents _ _ _ _ (.builtin builtin _) _ from
      ⟨flavor, slot, argument, effects, requirements, rfl, hflavor, hslot, rfl, hbound, rfl⟩)

theorem closure_simulates {closure : ClosureId} {id : FunctionId} {function : CoreFunction}
    {captures : List CaptureArgument} {values : List CoreValue} {span : Option Span}
    {code : List Instr}
    (htype : Keyed.find result verifier.valueTypes = some ty)
    (hminimum : result ∉ context.shared.minimumLiteralOperands)
    (hfunction : target.functions[id]? = some function)
    (hlive : context.shared.live.contains id = true)
    (hvalues : CapturesHeld function values)
    (houtline : ty.outline = (functionType function.signature).outline)
    (hencode : context.encodeKind result ty span (.closure closure id captures) = .ok code) :
    Run.Simulates (scalarSimulation exits leftLimit rightLimit)
      (Done target verifier context result [result] locals)
      (pure (.closure id values) : CoreRun CoreValue)
      (execAll machine invoke ⟨locals, []⟩ code) := by
  simp only [FunctionContext.encodeKind, bind_eq_ok, pure_eq_ok, slotConst, ensure_eq_ok,
    decide_eq_true_eq] at hencode
  obtain ⟨constant, ⟨_, hbound, rfl⟩, store, hstore, rfl⟩ := hencode
  obtain ⟨parameters, returnType, rfl, -, -⟩ := Ty.outline_eq_function houtline
  exact push_store_simulates hbody hsize htype hminimum hstore (exec_slotConst id)
    (show Represents _ _ _ _ (.closure id values) _ from
      ⟨function, hfunction, hlive, hvalues, houtline.symm, hbound, rfl⟩)

end Leaves

/-! ### Operators -/

section Operators

variable
  (hbody : BodyContext target verifier context machine importCount size leftLimit rightLimit
    host call invoke)

include hbody

/-- A value of a type with a layout is loaded from its local. -/
theorem BodyContext.loadValue_scalar {scalar : ValType} {code : List Instr}
    (htype : Keyed.find id verifier.valueTypes = some ty)
    (hscalar : scalarLayout ty = .ok (some scalar)) (hload : context.loadValue id = .ok code) :
    ∃ index, Keyed.find id context.locals = some index ∧ code = [.localGet index] := by
  simp only [FunctionContext.loadValue, FunctionContext.valueType, bind_eq_ok,
    ofOption_eq_ok] at hload
  obtain ⟨actual, hactual, layout, hlayout, hcode⟩ := hload
  rw [hbody.type_eq htype hactual, hscalar, Except.ok.injEq] at hlayout
  subst hlayout
  simp only [FunctionContext.localIndex, bind_eq_ok, ofOption_eq_ok, pure_eq_ok] at hcode
  obtain ⟨index, hindex, rfl⟩ := hcode
  exact ⟨index, hindex, rfl⟩

theorem BodyContext.storeValue_scalar {scalar : ValType} {code : List Instr}
    (htype : Keyed.find id verifier.valueTypes = some ty)
    (hscalar : scalarLayout ty = .ok (some scalar)) (hstore : context.storeValue id = .ok code) :
    ∃ index, Keyed.find id context.locals = some index ∧ code = [.localSet index] := by
  simp only [FunctionContext.storeValue, FunctionContext.valueType, bind_eq_ok,
    ofOption_eq_ok] at hstore
  obtain ⟨actual, hactual, layout, hlayout, hcode⟩ := hstore
  rw [hbody.type_eq htype hactual, hscalar, Except.ok.injEq] at hlayout
  subst hlayout
  simp only [FunctionContext.localIndex, bind_eq_ok, ofOption_eq_ok, pure_eq_ok] at hcode
  obtain ⟨index, hindex, rfl⟩ := hcode
  exact ⟨index, hindex, rfl⟩

/-- An integer operand: its local holds its word. -/
theorem EnvironmentStored.integer
    (hstored : EnvironmentStored target verifier context environment available locals)
    (hid : id ∈ available) (hminimum : id ∉ context.shared.minimumLiteralOperands)
    (htype : Keyed.find id verifier.valueTypes = some .int) {code : List Instr}
    (hload : context.loadValue id = .ok code) :
    ∃ number index, CoreRun.read environment id = pure (.integer number) ∧ InI64 number ∧
      Keyed.find id context.locals = some index ∧ code = [.localGet index] ∧
      locals[index]? = some (.i64 (word number)) := by
  obtain ⟨index, hindex, rfl⟩ := hbody.loadValue_scalar htype rfl hload
  obtain ⟨value, hread, hheld⟩ := hstored.read_eq hid
  obtain ⟨actual, hactual⟩ : ∃ actual, Keyed.find id context.valueTypes = some actual := by
    simp only [FunctionContext.loadValue, FunctionContext.valueType, bind_eq_ok,
      ofOption_eq_ok] at hload
    obtain ⟨actual, hactual, -⟩ := hload
    exact ⟨actual, hactual⟩
  have hstoredWords := hheld.stored
  rw [Stored, if_neg hminimum] at hstoredWords
  obtain ⟨words, hrepresents, hlocals⟩ := hstoredWords actual hactual
  rw [hbody.type_eq htype hactual] at hrepresents
  cases value <;> simp only [Represents] at hrepresents
  obtain ⟨hrange, rfl⟩ := hrepresents
  exact ⟨_, index, hread, hrange, hindex, rfl, hlocals _ (List.mem_singleton.mpr rfl) index hindex⟩

/-- The end of a sequence that writes the local of its result. -/
theorem Done.of_set (hsize : locals.length = size)
    (htype : Keyed.find result verifier.valueTypes = some ty)
    (hminimum : result ∉ context.shared.minimumLiteralOperands) {index : ℕ} {entry : Wasm.Value}
    (hindex : Keyed.find result context.locals = some index)
    (hrepresents : Represents target context.shared.live context.shared.builtinSlots ty value
      [entry]) :
    Done target verifier context result [result] locals value ⟨locals.set index entry, []⟩ := by
  have hbound : index < locals.length :=
    hsize ▸ hbody.distinct.bound _ (Keyed.mem_of_find hindex)
  refine ⟨rfl, Held.of_represents hbody htype hminimum hrepresents ?_, by simp, ?_⟩
  · intro stored hmem position hposition
    rw [hindex, Option.some.injEq] at hposition
    subst hposition
    rw [List.mem_singleton.mp hmem]
    exact List.getElem?_set_self hbound
  · intro other hother position hposition
    apply List.getElem?_set_ne
    rintro rfl
    exact hother (List.mem_singleton.mpr (hbody.distinct.value_eq hposition hindex))

theorem BodyContext.operands {left right : ValueId} {leftNumber rightNumber : ℤ}
    {leftLocal rightLocal destination : ℕ}
    (hsize : locals.length = size)
    (hleft : left ≠ result) (hright : right ≠ result)
    (hleftLocal : Keyed.find left context.locals = some leftLocal)
    (hrightLocal : Keyed.find right context.locals = some rightLocal)
    (hdestination : Keyed.find result context.locals = some destination)
    (hleftStored : locals[leftLocal]? = some (.i64 (word leftNumber)))
    (hrightStored : locals[rightLocal]? = some (.i64 (word rightNumber)))
    (hleftRange : InI64 leftNumber) (hrightRange : InI64 rightNumber) :
    Operands locals leftLocal rightLocal destination leftNumber rightNumber where
  leftStored := hleftStored
  rightStored := hrightStored
  destinationBound := hsize ▸ hbody.distinct.bound _ (Keyed.mem_of_find hdestination)
  leftApart := by
    rintro rfl
    exact hleft (hbody.distinct.value_eq hleftLocal hdestination)
  rightApart := by
    rintro rfl
    exact hright (hbody.distinct.value_eq hrightLocal hdestination)
  leftRange := hleftRange
  rightRange := hrightRange

/-- Checked arithmetic and the orderings. -/
theorem arithmetic_simulates {operator : BinaryOperator} {left right : ValueId}
    {span : Option Span} {leftCode rightCode resultCode store : List Instr}
    (hsize : locals.length = size)
    (hstored : EnvironmentStored target verifier context environment available locals)
    (hleft : left ∈ available) (hright : right ∈ available) (hfresh : result ∉ available)
    (hleftMinimum : left ∉ context.shared.minimumLiteralOperands)
    (hrightMinimum : right ∉ context.shared.minimumLiteralOperands)
    (hminimum : result ∉ context.shared.minimumLiteralOperands)
    (hleftType : Keyed.find left verifier.valueTypes = some .int)
    (hrightType : Keyed.find right verifier.valueTypes = some .int)
    (htype : Keyed.find result verifier.valueTypes = some ty)
    (hoperator : (ty = .int ∧ ∀ first second,
        ∃ outcome, integerArithmetic operator first second = some outcome) ∨
      (ty = .bool ∧ (∀ first second, integerArithmetic operator first second = none) ∧
        ∀ ordering, ∃ outcome, orderingResult operator ordering = some outcome))
    (hequality : operator ≠ .equal ∧ operator ≠ .notEqual)
    (hleftLoad : context.loadValue left = .ok leftCode)
    (hrightLoad : context.loadValue right = .ok rightCode)
    (hresultLoad : context.loadValue result = .ok resultCode)
    (hstore : context.storeValue result = .ok store) :
    Run.Simulates (scalarSimulation exits leftLimit rightLimit)
      (Done target verifier context result [result] locals)
      (CoreRun.read environment left >>= fun first =>
        CoreRun.read environment right >>= fun second => applyBinary operator span first second)
      (execAll machine invoke ⟨locals, []⟩
        (FunctionContext.arithmeticCode operator leftCode rightCode resultCode store)) := by
  obtain ⟨leftNumber, leftLocal, hleftRead, hleftRange, hleftLocal, rfl, hleftStored⟩ :=
    hstored.integer hbody hleft hleftMinimum hleftType hleftLoad
  obtain ⟨rightNumber, rightLocal, hrightRead, hrightRange, hrightLocal, rfl, hrightStored⟩ :=
    hstored.integer hbody hright hrightMinimum hrightType hrightLoad
  have hscalar : ∃ scalar, scalarLayout ty = .ok (some scalar) := by
    rcases hoperator with ⟨rfl, -⟩ | ⟨rfl, -⟩
    · exact ⟨_, rfl⟩
    · exact ⟨_, rfl⟩
  obtain ⟨scalar, hscalar⟩ := hscalar
  obtain ⟨destination, hdestination, rfl⟩ := hbody.loadValue_scalar htype hscalar hresultLoad
  obtain ⟨storeLocal, hstoreLocal, rfl⟩ := hbody.storeValue_scalar htype hscalar hstore
  obtain rfl : destination = storeLocal :=
    Option.some.inj (hdestination.symm.trans hstoreLocal)
  have hleftApart : left ≠ result := by
    rintro rfl
    exact hfresh hleft
  have hrightApart : right ≠ result := by
    rintro rfl
    exact hfresh hright
  have hoperands : Operands locals leftLocal rightLocal destination leftNumber rightNumber :=
    hbody.operands hsize hleftApart hrightApart hleftLocal hrightLocal hdestination hleftStored
      hrightStored hleftRange hrightRange
  rw [hleftRead, hrightRead, Run.pure_bind, Run.pure_bind]
  have happly : applyBinary operator span (.integer leftNumber) (.integer rightNumber) =
      (integerArithmetic operator leftNumber rightNumber).elim
        (applyOrdering operator (compareInts leftNumber rightNumber)) (integerResult span) := by
    cases operator
    case equal => exact absurd rfl hequality.1
    case notEqual => exact absurd rfl hequality.2
    all_goals rfl
  rw [happly]
  rcases hoperator with ⟨rfl, harithmetic⟩ | ⟨rfl, harithmetic, hordering⟩
  · obtain ⟨outcome, houtcome⟩ := harithmetic leftNumber rightNumber
    rw [houtcome, Option.elim_some, execAll_arithmeticCode hoperands houtcome]
    apply integerResult_simulates
    · rintro code rfl
      exact integerArithmetic_error houtcome
    · rintro number rfl
      exact Done.of_set hbody hsize htype hminimum hdestination
        ⟨integerArithmetic_ok houtcome, rfl⟩
  · obtain ⟨outcome, houtcome⟩ := hordering (compareInts leftNumber rightNumber)
    rw [harithmetic, Option.elim_none, execAll_orderingCode hoperands houtcome]
    simp only [applyOrdering, houtcome]
    apply Run.simulates_pure
    exact Done.of_set hbody hsize htype hminimum hdestination rfl

theorem negate_simulates {operand : ValueId} {span : Option Span} {code : List Instr}
    (hsize : locals.length = size)
    (hstored : EnvironmentStored target verifier context environment available locals)
    (hoperand : operand ∈ available) (hfresh : result ∉ available)
    (hminimum : result ∉ context.shared.minimumLiteralOperands)
    (hoperandType : Keyed.find operand verifier.valueTypes = some .int)
    (htype : Keyed.find result verifier.valueTypes = some .int)
    (hencode : context.encodeUnary result .negate operand = .ok code) :
    Run.Simulates (scalarSimulation exits leftLimit rightLimit)
      (Done target verifier context result [result] locals)
      (CoreRun.read environment operand >>= applyUnary .negate span)
      (execAll machine invoke ⟨locals, []⟩ code) := by
  simp only [FunctionContext.encodeUnary] at hencode
  split at hencode
  · -- the negated literal is known to be `i64::MAX + 1`
    rename_i hmem
    simp only [bind_eq_ok, pure_eq_ok] at hencode
    obtain ⟨store, hstore, rfl⟩ := hencode
    obtain ⟨value, hread, hheld⟩ := hstored.read_eq hoperand
    have hliteral := hheld.stored
    rw [Stored, if_pos hmem] at hliteral
    subst hliteral
    have hpush : execAll machine invoke ⟨locals, []⟩ [i64Const i64Min] =
        pure ⟨locals, [.i64 (word i64Min)]⟩ := by
      simp [i64Const, word]
    have hnegate : applyUnary .negate span (.integer (i64Max + 1)) =
        pure (.integer i64Min) := rfl
    rw [hread, Run.pure_bind, hnegate]
    exact push_store_simulates hbody hsize htype hminimum hstore hpush ⟨inI64_i64Min, rfl⟩
  · rename_i hmem
    simp only [bind_eq_ok, pure_eq_ok] at hencode
    obtain ⟨load, hload, store, hstore, rfl⟩ := hencode
    obtain ⟨number, operandLocal, hread, hrange, hlocal, rfl, hheld⟩ :=
      hstored.integer hbody hoperand hmem hoperandType hload
    obtain ⟨destination, hdestination, rfl⟩ := hbody.storeValue_scalar htype rfl hstore
    have hapart : operand ≠ result := by
      rintro rfl
      exact hfresh hoperand
    have hoperands : Operands locals operandLocal operandLocal destination number number :=
      hbody.operands hsize hapart hapart hlocal hlocal hdestination hheld hheld hrange hrange
    rw [hread, Run.pure_bind, execAll_negateCode hoperands]
    apply integerResult_simulates
    · intro code herror
      exact .inl (orOverflow_error herror)
    · intro value hvalue
      obtain ⟨rfl, hrange⟩ := orOverflow_ok hvalue
      exact Done.of_set hbody hsize htype hminimum hdestination ⟨hrange, rfl⟩

theorem not_simulates {operand : ValueId} {span : Option Span} {code : List Instr}
    (hsize : locals.length = size)
    (hstored : EnvironmentStored target verifier context environment available locals)
    (hoperand : operand ∈ available)
    (hoperandMinimum : operand ∉ context.shared.minimumLiteralOperands)
    (hminimum : result ∉ context.shared.minimumLiteralOperands)
    (hoperandType : Keyed.find operand verifier.valueTypes = some .bool)
    (htype : Keyed.find result verifier.valueTypes = some .bool)
    (hencode : context.encodeUnary result .not operand = .ok code) :
    Run.Simulates (scalarSimulation exits leftLimit rightLimit)
      (Done target verifier context result [result] locals)
      (CoreRun.read environment operand >>= applyUnary .not span)
      (execAll machine invoke ⟨locals, []⟩ code) := by
  simp only [FunctionContext.encodeUnary, bind_eq_ok, pure_eq_ok] at hencode
  obtain ⟨load, hload, store, hstore, rfl⟩ := hencode
  obtain ⟨value, words, hread, hrepresents, hexec⟩ :=
    hstored.load hbody hoperand hoperandMinimum hoperandType hload
  cases value <;> simp only [Represents] at hrepresents
  rename_i truth
  subst hrepresents
  have hpush : execAll machine invoke ⟨locals, []⟩ (load ++ [.numeric .i32Eqz]) =
      pure ⟨locals, [bool32 !truth]⟩ := by
    rw [execAll_append, hexec []]
    cases truth <;> simp [exec_numeric, Numeric.apply, bool32]
  rw [hread, Run.pure_bind]
  exact push_store_simulates hbody hsize htype hminimum hstore hpush
    (show Represents _ _ _ .bool (.boolean !truth) [bool32 !truth] from rfl)

/-- The comparison of two operands whose words are on the stack. -/
theorem equalityWords_simulates {left right : ValueId} {equal : Bool}
    {leftValue rightValue : CoreValue} {comparison : List Instr} {store : List Instr}
    (hsize : locals.length = size)
    (hminimum : result ∉ context.shared.minimumLiteralOperands)
    (htype : Keyed.find result verifier.valueTypes = some .bool)
    (hleftRead : CoreRun.read environment left = pure leftValue)
    (hrightRead : CoreRun.read environment right = pure rightValue)
    (hdata : leftValue.isData = true ∧ rightValue.isData = true)
    (hpush : execAll machine invoke ⟨locals, []⟩ comparison =
      pure ⟨locals, [bool32 (leftValue.dataEqual rightValue != !equal)]⟩)
    (hstore : context.storeValue result = .ok store) :
    Run.Simulates (scalarSimulation exits leftLimit rightLimit)
      (Done target verifier context result [result] locals)
      (CoreRun.read environment left >>= fun first =>
        CoreRun.read environment right >>= fun second => applyEquality (!equal) first second)
      (execAll machine invoke ⟨locals, []⟩ (comparison ++ store)) := by
  rw [hleftRead, hrightRead, Run.pure_bind, Run.pure_bind]
  simp only [applyEquality, hdata.1, hdata.2, Bool.and_self, if_true]
  exact push_store_simulates hbody hsize htype hminimum hstore hpush
    (show Represents _ _ _ .bool (.boolean _) [bool32 _] from rfl)

theorem equality_simulates {left right : ValueId} {equal : Bool} {code : List Instr}
    {leftType rightType : Ty}
    (hsize : locals.length = size)
    (hstored : EnvironmentStored target verifier context environment available locals)
    (hleft : left ∈ available) (hright : right ∈ available)
    (hleftMinimum : left ∉ context.shared.minimumLiteralOperands)
    (hrightMinimum : right ∉ context.shared.minimumLiteralOperands)
    (hminimum : result ∉ context.shared.minimumLiteralOperands)
    (hleftType : Keyed.find left verifier.valueTypes = some leftType)
    (hrightType : Keyed.find right verifier.valueTypes = some rightType)
    (htype : Keyed.find result verifier.valueTypes = some .bool)
    (houtline : rightType.outline = leftType.outline)
    (hdata : typeContainsNoFunction leftType = true)
    (hencode : context.encodeEquality result left right equal = .ok code) :
    Run.Simulates (scalarSimulation exits leftLimit rightLimit)
      (Done target verifier context result [result] locals)
      (CoreRun.read environment left >>= fun first =>
        CoreRun.read environment right >>= fun second => applyEquality (!equal) first second)
      (execAll machine invoke ⟨locals, []⟩ code) := by
  simp only [FunctionContext.encodeEquality, FunctionContext.valueType, bind_eq_ok,
    ofOption_eq_ok] at hencode
  obtain ⟨actual, hactual, hencode⟩ := hencode
  obtain rfl := hbody.type_eq hleftType hactual
  split at hencode
  · obtain rfl := Ty.outline_eq_int.mp houtline
    simp only [bind_eq_ok, pure_eq_ok] at hencode
    obtain ⟨leftCode, hleftLoad, rightCode, hrightLoad, store, hstore, rfl⟩ := hencode
    obtain ⟨leftValue, leftWords, hleftRead, hleftWords, hleftExec⟩ :=
      hstored.load hbody hleft hleftMinimum hleftType hleftLoad
    obtain ⟨rightValue, rightWords, hrightRead, hrightWords, hrightExec⟩ :=
      hstored.load hbody hright hrightMinimum hrightType hrightLoad
    cases leftValue <;> simp only [Represents] at hleftWords
    cases rightValue <;> simp only [Represents] at hrightWords
    rename_i leftNumber rightNumber
    obtain ⟨hleftRange, rfl⟩ := hleftWords
    obtain ⟨hrightRange, rfl⟩ := hrightWords
    have hequal : (word leftNumber == word rightNumber) = (leftNumber == rightNumber) := by
      rw [Bool.eq_iff_iff, beq_iff_eq, beq_iff_eq]
      exact word_inj hleftRange hrightRange
    apply equalityWords_simulates hbody hsize hminimum htype hleftRead hrightRead ⟨rfl, rfl⟩ _
      hstore
    rw [execAll_append, execAll_append, hleftExec [], Run.pure_bind, hrightExec, Run.pure_bind]
    cases equal <;> simp [exec_numeric, Numeric.apply, CoreValue.dataEqual, hequal, bne]
  · obtain rfl := Ty.outline_eq_bool.mp houtline
    simp only [bind_eq_ok, pure_eq_ok] at hencode
    obtain ⟨leftCode, hleftLoad, rightCode, hrightLoad, store, hstore, rfl⟩ := hencode
    obtain ⟨leftValue, leftWords, hleftRead, hleftWords, hleftExec⟩ :=
      hstored.load hbody hleft hleftMinimum hleftType hleftLoad
    obtain ⟨rightValue, rightWords, hrightRead, hrightWords, hrightExec⟩ :=
      hstored.load hbody hright hrightMinimum hrightType hrightLoad
    cases leftValue <;> simp only [Represents] at hleftWords
    cases rightValue <;> simp only [Represents] at hrightWords
    rename_i leftTruth rightTruth
    subst hleftWords hrightWords
    apply equalityWords_simulates hbody hsize hminimum htype hleftRead hrightRead ⟨rfl, rfl⟩ _
      hstore
    rw [execAll_append, execAll_append, hleftExec [], Run.pure_bind, hrightExec, Run.pure_bind]
    cases equal <;> cases leftTruth <;> cases rightTruth <;>
      simp [exec_numeric, Numeric.apply, CoreValue.dataEqual, bool32]
  · simp [typeContainsNoFunction] at hdata
  · -- units take no word, so nothing is loaded
    obtain rfl := Ty.outline_eq_unit.mp houtline
    simp only [bind_eq_ok, pure_eq_ok] at hencode
    obtain ⟨store, hstore, rfl⟩ := hencode
    obtain ⟨leftValue, hleftRead, hleftHeld⟩ := hstored.read_eq hleft
    obtain ⟨rightValue, hrightRead, hrightHeld⟩ := hstored.read_eq hright
    obtain rfl := hleftHeld.unit hleftType
    obtain rfl := hrightHeld.unit hrightType
    apply equalityWords_simulates hbody hsize hminimum htype hleftRead hrightRead ⟨rfl, rfl⟩ _
      hstore
    cases equal <;> simp [i32Const, CoreValue.dataEqual, bool32]
  · simp [Emit.fail] at hencode

/-- A binary operator of the verified operand types. -/
theorem binary_simulates {operator : BinaryOperator} {left right : ValueId}
    {span : Option Span} {code : List Instr}
    (hsize : locals.length = size)
    (hstored : EnvironmentStored target verifier context environment available locals)
    (hleft : left ∈ available) (hright : right ∈ available) (hfresh : result ∉ available)
    (hleftMinimum : left ∉ context.shared.minimumLiteralOperands)
    (hrightMinimum : right ∉ context.shared.minimumLiteralOperands)
    (hminimum : result ∉ context.shared.minimumLiteralOperands)
    (htype : Keyed.find result verifier.valueTypes = some ty)
    (hverify : verifier.verifyBinary result ty left operator right = .ok ())
    (hencode : context.encodeBinary result left operator right = .ok code) :
    Run.Simulates (scalarSimulation exits leftLimit rightLimit)
      (Done target verifier context result [result] locals)
      (CoreRun.read environment left >>= fun first =>
        CoreRun.read environment right >>= fun second => applyBinary operator span first second)
      (execAll machine invoke ⟨locals, []⟩ code) := by
  simp only [Verifier.verifyBinary, bind_eq_ok, Verifier.valueType_eq_ok] at hverify
  obtain ⟨leftType, hleftType, rightType, hrightType, hverify⟩ := hverify
  -- an operand that has been loaded has a layout
  have hlayout : ∀ {load}, context.loadValue left = .ok load →
      Verifier.verifyBinary.isOperandType leftType = true → leftType = .int := by
    intro load hload hoperand
    simp only [FunctionContext.loadValue, FunctionContext.valueType, bind_eq_ok,
      ofOption_eq_ok] at hload
    obtain ⟨actual, hactual, layout, hlayout, -⟩ := hload
    rw [hbody.type_eq hleftType hactual] at hlayout
    cases leftType <;>
      simp_all [Verifier.verifyBinary.isOperandType, scalarLayout, Emit.fail]
  cases operator with
  | add =>
      simp only [ensure_eq_ok, Bool.and_eq_true, decide_eq_true_eq] at hverify
      obtain ⟨⟨rfl, hoperand⟩, rfl⟩ := hverify
      simp only [FunctionContext.encodeBinary, bind_eq_ok, pure_eq_ok] at hencode
      obtain ⟨_, hleftLoad, _, hrightLoad, _, hresultLoad, _, hstore, rfl⟩ := hencode
      obtain rfl := hlayout hleftLoad hoperand
      exact arithmetic_simulates hbody hsize hstored hleft hright hfresh hleftMinimum
        hrightMinimum hminimum hleftType hrightType htype (.inl ⟨rfl, fun _ _ => ⟨_, rfl⟩⟩)
        (by simp) hleftLoad hrightLoad hresultLoad hstore
  | subtract | multiply | divide | remainder =>
      simp only [ensure_eq_ok, Bool.and_eq_true, decide_eq_true_eq] at hverify
      obtain ⟨⟨rfl, rfl⟩, rfl⟩ := hverify
      simp only [FunctionContext.encodeBinary, bind_eq_ok, pure_eq_ok] at hencode
      obtain ⟨_, hleftLoad, _, hrightLoad, _, hresultLoad, _, hstore, rfl⟩ := hencode
      exact arithmetic_simulates hbody hsize hstored hleft hright hfresh hleftMinimum
        hrightMinimum hminimum hleftType hrightType htype (.inl ⟨rfl, fun _ _ => ⟨_, rfl⟩⟩)
        (by simp) hleftLoad hrightLoad hresultLoad hstore
  | equal =>
      simp only [ensure_eq_ok, Bool.and_eq_true, decide_eq_true_eq] at hverify
      obtain ⟨⟨hequivalent, hdata⟩, rfl⟩ := hverify
      have houtline := Ty.typeEquivalent_outline hequivalent
      simp only [FunctionContext.encodeBinary] at hencode
      simpa only [applyBinary, Bool.not_true] using equality_simulates hbody hsize hstored hleft
        hright hleftMinimum hrightMinimum hminimum hleftType hrightType htype houtline.symm hdata
        hencode
  | notEqual =>
      simp only [ensure_eq_ok, Bool.and_eq_true, decide_eq_true_eq] at hverify
      obtain ⟨⟨hequivalent, hdata⟩, rfl⟩ := hverify
      have houtline := Ty.typeEquivalent_outline hequivalent
      simp only [FunctionContext.encodeBinary] at hencode
      simpa only [applyBinary, Bool.not_false] using equality_simulates hbody hsize hstored
        hleft hright hleftMinimum hrightMinimum hminimum hleftType hrightType htype houtline.symm
        hdata hencode
  | less | lessEqual | greater | greaterEqual =>
      simp only [ensure_eq_ok, Bool.and_eq_true, decide_eq_true_eq] at hverify
      obtain ⟨⟨rfl, hoperand⟩, rfl⟩ := hverify
      simp only [FunctionContext.encodeBinary, bind_eq_ok, pure_eq_ok] at hencode
      obtain ⟨_, hleftLoad, _, hrightLoad, _, hresultLoad, _, hstore, rfl⟩ := hencode
      obtain rfl := hlayout hleftLoad hoperand
      apply arithmetic_simulates hbody hsize hstored hleft hright hfresh hleftMinimum
        hrightMinimum hminimum hleftType hrightType htype
        (.inr ⟨rfl, fun _ _ => by simp [integerArithmetic], fun _ => by simp [orderingResult]⟩)
        (by simp) hleftLoad hrightLoad hresultLoad hstore
  | and | or => simp at hverify

end Operators

/-! ### Calls and exits -/

section Calls

variable
  (hbody : BodyContext target verifier context machine importCount size leftLimit rightLimit
    host call invoke)

include hbody

/-- Arguments are pushed from left to right, so the stack has them reversed. -/
theorem EnvironmentStored.loadAll
    (hstored : EnvironmentStored target verifier context environment available locals)
    {ids : List ValueId} {types : List Ty} {code : List Instr}
    (hlength : types.length = ids.length)
    (hids : ∀ pair ∈ ids.zip types, pair.1 ∈ available ∧
      pair.1 ∉ context.shared.minimumLiteralOperands ∧
      ∃ actual, Keyed.find pair.1 verifier.valueTypes = some actual ∧
        actual.outline = pair.2.outline)
    (hloads : context.loadValues ids = .ok code) :
    ∃ values words, CoreRun.readAll environment ids = pure values ∧
      RepresentsAll target context.shared.live context.shared.builtinSlots types values words ∧
      ∀ stack, execAll machine invoke ⟨locals, stack⟩ code =
        pure ⟨locals, words.reverse ++ stack⟩ := by
  induction ids generalizing types code with
  | nil =>
      obtain rfl : types = [] := by simpa using hlength
      simp only [FunctionContext.loadValues, pure_eq_ok] at hloads
      subst hloads
      exact ⟨[], [], rfl, rfl, by simp⟩
  | cons id rest ih =>
      cases types with
      | nil => simp at hlength
      | cons ty types =>
          simp only [FunctionContext.loadValues, bind_eq_ok, pure_eq_ok] at hloads
          obtain ⟨load, hload, loads, hrest, rfl⟩ := hloads
          obtain ⟨havailable, hminimum, actual, hactual, houtline⟩ := hids (id, ty) (by simp)
          obtain ⟨value, first, hread, hfirst, hexec⟩ :=
            hstored.load hbody havailable hminimum hactual hload
          obtain ⟨values, words, hreadAll, hwords, hexecAll⟩ :=
            ih (by simpa using hlength) (fun pair hpair => hids pair (by simp [hpair])) hrest
          refine ⟨value :: values, first ++ words, ?_, ?_, ?_⟩
          · simp [CoreRun.readAll, hread, hreadAll]
          · exact ⟨first, words, rfl, hfirst.congr houtline, hwords⟩
          · intro stack
            rw [execAll_append, hexec, Run.pure_bind, hexecAll, List.reverse_append,
              hfirst.reverse, List.append_assoc]

/-- A call through the table: the callee's slot holds a function with the
expected signature, which the callee's calls simulate. -/
theorem callIndirect_simulates {callee : CoreValue} {arguments : List CoreValue}
    {parameters : List Ty} {returnType : Ty} {effects : EffectSet}
    {requirements : RequirementSet} {signature : FuncType} {index : ℕ} {span : Option Span}
    {calleeWords : List Wasm.Value}
    (hcallee : Represents target context.shared.live context.shared.builtinSlots
      (.function parameters returnType effects requirements) callee calleeWords)
    (harguments : RepresentsAll target context.shared.live context.shared.builtinSlots
      parameters arguments words)
    (hsignature : typeSignature parameters returnType = .ok signature)
    (hindex : context.shared.signatureIndex signature = .ok index) :
    Run.Simulates (scalarSimulation exits leftLimit rightLimit)
      (fun value frame => frame.locals = locals ∧
        Represents target context.shared.live context.shared.builtinSlots returnType value
          frame.stack)
      (applyCall host call span callee arguments)
      (exec machine invoke ⟨locals, calleeWords ++ words.reverse⟩ (.callIndirect index)) := by
  have hmachineType := hbody.machine.types signature index hindex
  have hcount : words.length = signature.params.length := by
    simp only [typeSignature, bind_eq_ok, pure_eq_ok] at hsignature
    obtain ⟨params, hparams, _, -, rfl⟩ := hsignature
    exact harguments.length hparams
  cases callee <;> simp only [Represents] at hcallee
  case closure id captures =>
    obtain ⟨function, hfunction, hlive, hcaptures, houtline, hbound, rfl⟩ := hcallee
    simp only [functionType, Ty.outline, Ty.outlineList_eq_map, Ty.function.injEq] at houtline
    obtain ⟨hparameters, hresult, -, -⟩ := houtline
    obtain ⟨htable, htype⟩ := hbody.machine.functions id function signature hfunction hlive
      (typeSignature_congr hparameters.symm hresult.symm hsignature)
    have htable' : machine.table[(BitVec.ofNat 32 id).toNat]? = some (importCount + id) := by
      rw [slotWord_toNat hbound]
      exact htable
    rw [List.singleton_append, exec_callIndirect hmachineType htable' htype hcount]
    apply simulates_bind_pure_right
      (hbody.calls.functions exits id function captures arguments words hfunction hlive hcaptures
        (harguments.congr hparameters.symm))
    intro value results hresults
    exact ⟨_, rfl, rfl, hresults.reverse.symm ▸ hresults.congr hresult⟩
  case builtin builtin declared =>
    obtain ⟨flavor, slot, argument, actual, needed, rfl, hflavor, hslot, houtline, hbound, rfl⟩ :=
      hcallee
    simp only [Ty.outline, Ty.outlineList_eq_map, Ty.function.injEq] at houtline
    obtain ⟨hparameters, hresult, -, -⟩ := houtline
    have hflavorSignature : signature = flavor.signature := by
      have hactual : typeSignature [argument] .unit = .ok signature :=
        typeSignature_congr (by simpa using hparameters.symm) hresult.symm hsignature
      rw [fromOperation_signature hflavor, Except.ok.injEq] at hactual
      exact hactual.symm
    obtain ⟨htable, htype⟩ := hbody.machine.wrappers flavor slot hslot
    rw [← hflavorSignature] at htype
    have harguments' : RepresentsAll target context.shared.live context.shared.builtinSlots
        [argument] _ _ := harguments.congr (by simpa using hparameters.symm)
    obtain ⟨value, rfl, hvalue⟩ := harguments'.singleton
    have htable' : machine.table[(BitVec.ofNat 32 slot).toNat]? = some (importCount + slot) := by
      rw [slotWord_toNat hbound]
      exact htable
    rw [List.singleton_append, exec_callIndirect hmachineType htable' htype hcount]
    apply simulates_bind_pure_right
      (hbody.calls.wrappers exits span builtin argument actual needed flavor slot value words
        hflavor hslot hvalue)
    intro value results hresults
    exact ⟨_, rfl, rfl, hresults.reverse.symm ▸ hresults.congr hresult⟩

/-- The result of a nested block is copied to the value of its operation. -/
theorem blockResult_simulates {inner : ValueId} {innerType : Ty} {run : CoreRun CoreValue}
    {code load store : List Instr} (hsize : locals.length = size)
    (hrun : Run.Simulates (scalarSimulation exits leftLimit rightLimit)
      (Done target verifier context inner written locals) run
      (execAll machine invoke ⟨locals, []⟩ code))
    (hinnerType : Keyed.find inner verifier.valueTypes = some innerType)
    (hinnerMinimum : inner ∉ context.shared.minimumLiteralOperands)
    (htype : Keyed.find result verifier.valueTypes = some ty)
    (hminimum : result ∉ context.shared.minimumLiteralOperands)
    (houtline : innerType.outline = ty.outline)
    (hload : context.loadValue inner = .ok load)
    (hstore : context.storeValue result = .ok store) :
    Run.Simulates (scalarSimulation exits leftLimit rightLimit)
      (Done target verifier context result (result :: written) locals) run
      (execAll machine invoke ⟨locals, []⟩ (code ++ load ++ store)) := by
  rw [List.append_assoc, execAll_append]
  apply simulates_bind_pure_right hrun
  rintro value ⟨middle, stack⟩ ⟨hstack, hheld, hunchanged⟩
  dsimp only at hstack hheld hunchanged
  subst hstack
  obtain ⟨actual, words, hactual, hrepresents, -, hexec⟩ :=
    loadValue_exec machine invoke hload hheld.stored hinnerMinimum
  rw [hbody.type_eq hinnerType hactual] at hrepresents
  have hmiddle : middle.length = size := hunchanged.length.trans hsize
  obtain ⟨after, hafter, hdone⟩ :=
    Done.of_store hbody hmiddle htype hminimum hstore (hrepresents.congr houtline)
  refine ⟨⟨after, []⟩, ?_, rfl, hdone.2.1, ?_⟩
  · rw [execAll_append, hexec [], Run.pure_bind, List.append_nil]
    exact hafter
  · exact hunchanged.trans hdone.2.2 (by simp) (by simp)

end Calls

/-- Making a closure reads its captures, whether or not code is emitted for it. -/
theorem EnvironmentStored.captures
    (hstored : EnvironmentStored target verifier context environment available locals)
    {bindings : List (BindingId × ValueId)} {function : CoreFunction} {functionId : FunctionId}
    {captures : List CaptureArgument}
    (hlength : captures.length = function.captures.length)
    (hcaptures : ∀ pair ∈ captures.zip function.captures,
      verifier.verifyCapture result functionId available bindings pair = .ok ()) :
    ∃ values, CoreRun.readAll environment (captures.map (·.value)) = pure values ∧
      CapturesHeld function values := by
  unfold CapturesHeld
  generalize function.captures = declared at hlength hcaptures ⊢
  induction captures generalizing declared with
  | nil =>
      obtain rfl : declared = [] := by simpa using hlength.symm
      exact ⟨[], rfl, .nil⟩
  | cons capture rest ih =>
      cases declared with
      | nil => simp at hlength
      | cons first others =>
          have hpair := hcaptures (capture, first) (by simp)
          simp only [Verifier.verifyCapture, bind_eq_ok, Verifier.requireAvailable_eq_ok,
            Verifier.expectValueType_eq_ok] at hpair
          obtain ⟨_, -, _, -, _, havailable, actual, hactual, hequivalent⟩ := hpair
          obtain ⟨value, hread, hheld⟩ := hstored.read_eq havailable
          obtain ⟨values, hreadAll, hall⟩ := ih others (by simpa using hlength)
            fun pair hpair => hcaptures pair (by simp [hpair])
          refine ⟨value :: values, by simp [CoreRun.readAll, hread, hreadAll], .cons ?_ hall⟩
          intro hunit
          apply hheld.unit
          have houtline := Ty.typeEquivalent_outline hequivalent
          rw [hunit] at houtline
          rw [hactual, Ty.outline_eq_unit.mp houtline]

end Operations

end Code

end Krit
