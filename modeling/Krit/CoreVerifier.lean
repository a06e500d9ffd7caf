import Krit.CoreSyntax
import Krit.Lib.Result
import Mathlib.Data.List.Sort

/-!
# The Core verifier

`CoreModule.verify` makes two passes.  The first collects every value, block,
parameter, capture, closure and match binding of the module and refuses
duplicates; the second checks every function body against the collected value
types: availability of operands, types, effects and capability requirements of
every operation, and the place of every exit.

The verifier's ordered sets and maps are lists here: an insertion that would
meet an existing entry fails, so no list holds a key twice.
-/

namespace Krit

open Result

/-- A message of the verifier is text around the types and sets it displays. -/
inductive MessagePart where
  | text (text : String)
  | ty (ty : Ty)
  | effects (effects : EffectSet)
  | requirements (requirements : RequirementSet)

structure IrError where
  message : List MessagePart

def IrError.new (message : String) : IrError :=
  ⟨[.text message]⟩

def maxCoreBlockDepth : ℕ := 8192

def unionAll {α : Type} [DecidableEq α] (sets : List (Finset α)) : Finset α :=
  sets.foldr (· ∪ ·) ∅

mutual

def typeContainsNoFunction : Ty → Bool
  | .function _ _ _ _ => false
  | .list element | .option element => typeContainsNoFunction element
  | .record fields => fieldsContainNoFunction fields
  | .result value error => typeContainsNoFunction value && typeContainsNoFunction error
  | .int | .bool | .string | .unit | .httpHeader | .httpRequest | .httpResponse
  | .logField | .queueJob | .scheduleEvent | .typeVariable _ => true
  | .databaseTransaction | .secret => false

def fieldsContainNoFunction : List (String × Ty) → Bool
  | [] => true
  | (_, ty) :: rest => typeContainsNoFunction ty && fieldsContainNoFunction rest

end

mutual

def typeContainsSecret : Ty → Bool
  | .secret => true
  | .list element | .option element => typeContainsSecret element
  | .record fields => fieldsContainSecret fields
  | .result value error => typeContainsSecret value || typeContainsSecret error
  | .function parameters returnType _ _ =>
      listContainsSecret parameters || typeContainsSecret returnType
  | .int | .bool | .string | .unit | .httpHeader | .httpRequest | .httpResponse
  | .logField | .queueJob | .scheduleEvent | .databaseTransaction | .typeVariable _ => false

def fieldsContainSecret : List (String × Ty) → Bool
  | [] => false
  | (_, ty) :: rest => typeContainsSecret ty || fieldsContainSecret rest

def listContainsSecret : List Ty → Bool
  | [] => false
  | ty :: rest => typeContainsSecret ty || listContainsSecret rest

end

def recordFieldType (ty : Ty) (name : String) : Option Ty :=
  match ty with
  | .record fields => Keyed.find name fields
  | .httpHeader | .logField =>
      match name with
      | "name" | "value" => some .string
      | _ => none
  | .httpRequest =>
      match name with
      | "method" | "path" | "query" | "body" => some .string
      | "headers" => some (.list .httpHeader)
      | _ => none
  | .httpResponse =>
      match name with
      | "status" => some .int
      | "headers" => some (.list .httpHeader)
      | "body" => some .string
      | _ => none
  | .queueJob =>
      match name with
      | "queue" | "id" | "body" => some .string
      | "attempt" | "maxAttempts" => some .int
      | _ => none
  | .scheduleEvent =>
      match name with
      | "schedule" | "id" => some .string
      | "scheduledAtMillis" | "firedAtMillis" | "attempt" | "maxAttempts" => some .int
      | _ => none
  | _ => none

/-! ## Built-in signatures -/

def verifyHostBuiltin (builtin : Builtin) (ty : Ty) (parameters : List Ty) (result : Ty)
    (effect : Option Effect) : Except IrError Unit :=
  match ty with
  | .function actual returnType effects _ =>
      ensure
        (decide (actual = parameters) && decide (returnType = result) &&
          match effect with
          | some effect => decide (effect ∈ effects)
          | none => true)
        (.new (builtin.asStr ++ " has invalid signature"))
  | _ => throw (.new (builtin.asStr ++ " has non-function type"))

/-- A standard-library function has exactly these parameters and this result, up
to the contract records.  Its effect set is not checked. -/
def verifyPureBuiltin (builtin : Builtin) (ty : Ty) (parameters : List Ty) (result : Ty) :
    Except IrError Unit :=
  match ty with
  | .function actual returnType _ _ =>
      ensure
        (actual.length == parameters.length &&
          (actual.zip parameters).all (fun pair => pair.1.typeEquivalent pair.2) &&
          returnType.typeEquivalent result)
        (.new (builtin.asStr ++ " has invalid signature"))
  | _ => throw (.new (builtin.asStr ++ " has non-function type"))

def verifyConstructorFunction (ty : Ty) (family : VariantFamily) (firstPayload : Bool) :
    Except IrError Unit :=
  match ty with
  | .function [parameter] returnType _ _ => do
      let approvedBearer :=
        decide (family = .option) && firstPayload && decide (parameter = .secret)
      ensure (!(typeContainsSecret parameter && !approvedBearer))
        (.new "opaque Secret cannot be placed in a constructed variant")
      let valid :=
        match family, returnType with
        | .option, .option element => decide (element = parameter)
        | .result, .result value error =>
            if firstPayload then decide (value = parameter) else decide (error = parameter)
        | _, _ => false
      ensure valid (.new "constructor has invalid variant signature")
  | .function _ _ _ _ => throw (.new "constructor has invalid function boundary")
  | _ => throw (.new "constructor has non-function type")

def verifyBuiltinType (builtin : Builtin) (ty : Ty) : Except IrError Unit :=
  match builtin with
  | .none => throw (.new "None must lower as a variant value, not a builtin function")
  | .aiInvoke =>
      verifyHostBuiltin builtin ty [.string, .string] (.result .string .string)
        (some .aiInvoke)
  | .queuePublish =>
      verifyHostBuiltin builtin ty [.string, .string] (.result .string .string)
        (some .queuePublish)
  | .cacheGet =>
      verifyHostBuiltin builtin ty [.string, .string] (.result (.option .string) .string)
        (some .cacheRead)
  | .cachePut =>
      verifyHostBuiltin builtin ty [.string, .string, .string, .int] (.result .unit .string)
        (some .cacheWrite)
  | .cacheDelete =>
      verifyHostBuiltin builtin ty [.string, .string] (.result .unit .string)
        (some .cacheWrite)
  | .searchQuery =>
      verifyHostBuiltin builtin ty [.string, .string, .int] (.result .string .string)
        (some .searchQuery)
  | .vectorSearch =>
      verifyHostBuiltin builtin ty [.string, .string, .int] (.result .string .string)
        (some .searchVector)
  | .objectGet =>
      verifyHostBuiltin builtin ty [.string, .string] (.result (.option .string) .string)
        (some .objectRead)
  | .objectPut =>
      verifyHostBuiltin builtin ty [.string, .string, .string] (.result .unit .string)
        (some .objectWrite)
  | .objectDelete =>
      verifyHostBuiltin builtin ty [.string, .string] (.result .unit .string)
        (some .objectWrite)
  | .databaseBeginRead =>
      verifyHostBuiltin builtin ty [.string] (.result .databaseTransaction .string)
        (some .databaseRead)
  | .databaseBeginWrite =>
      verifyHostBuiltin builtin ty [.string] (.result .databaseTransaction .string)
        (some .databaseWrite)
  | .databaseQuery =>
      verifyHostBuiltin builtin ty [.databaseTransaction, .string, .list .string]
        (.result .string .string) none
  | .databaseExecute =>
      verifyHostBuiltin builtin ty [.databaseTransaction, .string, .list .string]
        (.result .int .string) none
  | .databaseCommit | .databaseRollback =>
      verifyHostBuiltin builtin ty [.databaseTransaction] (.result .unit .string) none
  | .print | .println =>
      match ty with
      | .function parameters returnType effects _ =>
          ensure
            (match parameters with
              | [parameter] =>
                  decide (returnType = .unit) && decide (Effect.ioStdout ∈ effects) &&
                    !typeContainsSecret parameter
              | _ => false)
            (.new (builtin.asStr ++ " has invalid signature"))
      | _ => throw (.new (builtin.asStr ++ " has non-function type"))
  | .intToString => verifyPureBuiltin builtin ty [.int] .string
  | .urlPathSegment => verifyPureBuiltin builtin ty [.string] (.result .string .string)
  | .urlQuery => verifyPureBuiltin builtin ty [.list .httpHeader] .string
  | .stringByteLen => verifyPureBuiltin builtin ty [.string] .int
  | .stringIsEmpty => verifyPureBuiltin builtin ty [.string] .bool
  | .stringContains | .stringStartsWith | .stringEndsWith =>
      verifyPureBuiltin builtin ty [.string, .string] .bool
  | .some => verifyConstructorFunction ty .option true
  | .ok => verifyConstructorFunction ty .result true
  | .err => verifyConstructorFunction ty .result false
  | .jsonEncode =>
      match ty with
      | .function parameters returnType _ _ =>
          ensure
            (match parameters with
              | [parameter] =>
                  decide (returnType = .string) && typeContainsNoFunction parameter
              | _ => false)
            (.new "json_encode has invalid signature")
      | _ => throw (.new "json_encode has non-function type")
  | .jsonDecode =>
      match ty with
      | .function parameters returnType _ _ =>
          ensure (decide (parameters = [.string]) && typeContainsNoFunction returnType)
            (.new "json_decode has invalid signature")
      | _ => throw (.new "json_decode has non-function type")
  | .configString =>
      verifyHostBuiltin builtin ty [.string] (.result .string .string) (some .configRead)
  | .secret =>
      verifyHostBuiltin builtin ty [.string] (.result .secret .string) (some .secretRead)
  | .httpRequest =>
      verifyHostBuiltin builtin ty [.string, .httpRequest, .option .secret]
        (.result .httpResponse .string) (some .httpRequest)
  | .logInfo | .logError =>
      verifyHostBuiltin builtin ty [.string, .list .logField] (.result .unit .string)
        (some .observeLog)
  | .stateGet | .checkpointGet =>
      verifyHostBuiltin builtin ty [.string, .string] (.result (.option .string) .string)
        (some .stateTransaction)
  | .statePut | .checkpointPut =>
      verifyHostBuiltin builtin ty [.string, .string, .string] (.result .unit .string)
        (some .stateTransaction)
  | .stateDelete =>
      verifyHostBuiltin builtin ty [.string, .string] (.result .unit .string)
        (some .stateTransaction)
  | .replayHttp =>
      verifyHostBuiltin builtin ty [.string, .string, .string, .httpRequest]
        (.result .httpResponse .string) (some .stateTransaction)
  | .replayAi =>
      verifyHostBuiltin builtin ty [.string, .string, .string, .string]
        (.result .string .string) (some .stateTransaction)

/-! ## Collection -/

structure Verifier where
  target : CoreModule
  valueTypes : List (ValueId × Ty)
  builtinValues : List (ValueId × Builtin)
  stringLiterals : List (ValueId × String)
  blockIds : List BlockId
  parameterIds : List ParameterId
  captureIds : List CaptureId
  closureIds : List ClosureId
  matchBindingIds : List MatchBindingId

namespace Verifier

def new (target : CoreModule) : Verifier :=
  ⟨target, [], [], [], [], [], [], [], []⟩

def insertUnique (ids : List ℕ) (id : ℕ) (kind shown : String) :
    Except IrError (List ℕ) :=
  if id ∈ ids then throw (.new s!"duplicate {kind} ID {shown}{id}") else pure (id :: ids)

def insertValue (self : Verifier) (id : ValueId) (ty : Ty) : Except IrError Verifier :=
  match Keyed.find id self.valueTypes with
  | some _ => throw (.new s!"duplicate value ID v{id}")
  | none => pure { self with valueTypes := (id, ty) :: self.valueTypes }

def binding (self : Verifier) (id : BindingId) : Except IrError CoreBinding :=
  match self.target.bindings[id]? with
  | some binding =>
      if binding.id = id then pure binding
      else throw (.new s!"binding b{id} is out of range")
  | none => throw (.new s!"binding b{id} is out of range")

def bindingTypeMatches (self : Verifier) (id : BindingId) (ty : Ty) :
    Except IrError Unit := do
  let binding ← self.binding id
  ensure (binding.ty.typeEquivalent ty)
    ⟨[.text s!"binding b{id} type `", .ty binding.ty,
      .text "` does not match boundary type `", .ty ty, .text "`"]⟩

def expectBindingKind (self : Verifier) (id : BindingId) (expected : BindingKind) :
    Except IrError Unit := do
  let binding ← self.binding id
  ensure (decide (binding.kind = expected))
    (.new (s!"binding b{id} has kind " ++ binding.kind.asStr ++ ", expected " ++
      expected.asStr))

def function (self : Verifier) (id : FunctionId) : Except IrError CoreFunction :=
  match self.target.functions[id]? with
  | some function =>
      if function.id = id then pure function
      else throw (.new s!"function f{id} is out of range")
  | none => throw (.new s!"function f{id} is out of range")

def collectBlockParameters (self : Verifier) : List BlockParameter → Except IrError Verifier
  | [] => pure self
  | parameter :: rest => do
      let matchBindingIds ←
        insertUnique self.matchBindingIds parameter.matchBinding "match binding" "m"
      let self ←
        { self with matchBindingIds := matchBindingIds }.insertValue parameter.value parameter.ty
      self.bindingTypeMatches parameter.binding parameter.ty
      self.expectBindingKind parameter.binding .match
      self.collectBlockParameters rest

/-- Notes the operations that later checks look up by value: built-ins and
string literals. -/
def noteOperation (self : Verifier) (result : ValueId) : OperationKind → Verifier
  | .builtin builtin => { self with builtinValues := (result, builtin) :: self.builtinValues }
  | .literal (.string value) =>
      { self with stringLiterals := (result, value) :: self.stringLiterals }
  | _ => self

mutual

def collectBlock (self : Verifier) : CoreBlock → Except IrError Verifier
  | ⟨id, parameters, operations, _, _, _, _, _⟩ => do
      let blockIds ← insertUnique self.blockIds id "block" "bb"
      let self ← { self with blockIds := blockIds }.collectBlockParameters parameters
      self.collectOperations operations

def collectOperations (self : Verifier) : List CoreOperation → Except IrError Verifier
  | [] => pure self
  | operation :: rest => do
      let self ← self.collectOperation operation
      self.collectOperations rest

def collectOperation (self : Verifier) : CoreOperation → Except IrError Verifier
  | ⟨result, ty, _, _, _, kind⟩ => do
      let self ← self.insertValue result ty
      (self.noteOperation result kind).collectKind kind

def collectKind (self : Verifier) : OperationKind → Except IrError Verifier
  | .block block => self.collectBlock block
  | .closure closure _ _ => do
      let closureIds ← insertUnique self.closureIds closure "closure" "cl"
      pure { self with closureIds := closureIds }
  | .if _ consequent alternative => do
      let self ← self.collectBlock consequent
      self.collectBlock alternative
  | .matchList _ empty _ _ cons => do
      let self ← self.collectBlock empty
      self.collectBlock cons
  | .matchVariant _ _ arms => self.collectArms arms
  | _ => pure self

def collectArms (self : Verifier) : List VariantArmBlock → Except IrError Verifier
  | [] => pure self
  | ⟨_, _, block⟩ :: rest => do
      let self ← self.collectBlock block
      self.collectArms rest

end

def collectParameters (self : Verifier) (id : FunctionId) :
    List (CoreParameter × Ty) → Except IrError Verifier
  | [] => pure self
  | (parameter, signatureType) :: rest => do
      let parameterIds ← insertUnique self.parameterIds parameter.id "parameter" "p"
      let self ←
        { self with parameterIds := parameterIds }.insertValue parameter.value parameter.ty
      ensure (decide (parameter.ty = signatureType))
        (.new s!"f{id} has a parameter type inconsistent with its signature")
      self.bindingTypeMatches parameter.binding parameter.ty
      self.expectBindingKind parameter.binding .parameter
      self.collectParameters id rest

def collectCaptures (self : Verifier) : List CoreCapture → Except IrError Verifier
  | [] => pure self
  | capture :: rest => do
      let captureIds ← insertUnique self.captureIds capture.id "capture" "c"
      let self ← { self with captureIds := captureIds }.insertValue capture.value capture.ty
      self.bindingTypeMatches capture.binding capture.ty
      self.collectCaptures rest

def collectRecursive (self : Verifier) (function : CoreFunction) : Except IrError Verifier :=
  match function.recursive with
  | none => pure self
  | some recursive => do
      let id := function.id
      let self ← self.insertValue recursive.value recursive.ty
      self.bindingTypeMatches recursive.binding recursive.ty
      let binding ← self.binding recursive.binding
      ensure binding.kind.isFunction
        (.new (s!"f{id} recursive binding has invalid kind " ++ binding.kind.asStr))
      ensure (decide (recursive.ty = functionType function.signature))
        (.new s!"f{id} recursive value has an inconsistent type")
      pure self

def collectFunction (self : Verifier) (function : CoreFunction) :
    Except IrError Verifier := do
  let id := function.id
  ensure (function.parameters.length == function.signature.parameters.length)
    (.new s!"f{id} parameter count does not match its signature")
  let self ←
    self.collectParameters id (function.parameters.zip function.signature.parameters)
  let self ← self.collectCaptures function.captures
  let self ← self.collectRecursive function
  self.collectBlock function.body

def collectFunctions (self : Verifier) (index : ℕ) :
    List CoreFunction → Except IrError Verifier
  | [] => pure self
  | function :: rest => do
      ensure (function.id == index) (.new "function IDs are not contiguous")
      let self ← self.collectFunction function
      self.collectFunctions (index + 1) rest

/-! ## Checks -/

def valueType (self : Verifier) (value : ValueId) : Except IrError Ty :=
  ofOption (.new s!"value v{value} is out of range") (Keyed.find value self.valueTypes)

def expectValueType (self : Verifier) (value : ValueId) (expected : Ty) :
    Except IrError Unit := do
  let actual ← self.valueType value
  ensure (actual.typeEquivalent expected)
    ⟨[.text s!"value v{value} has type `", .ty actual, .text "`, expected `",
      .ty expected, .text "`"]⟩

def requireAvailable (value : ValueId) (available : List ValueId) (user : String) :
    Except IrError Unit :=
  ensure (decide (value ∈ available)) (.new (user ++ s!" uses unavailable value v{value}"))

def expectType (result : ValueId) (ty expected : Ty) : Except IrError Unit :=
  ensure (ty.typeEquivalent expected)
    ⟨[.text s!"v{result} has type `", .ty ty, .text "`, expected `", .ty expected,
      .text "`"]⟩

def expectEffects (result : ValueId) (effects expected : EffectSet) : Except IrError Unit :=
  ensure (decide (effects = expected))
    ⟨[.text s!"v{result} has effects ", .effects effects, .text ", expected ",
      .effects expected]⟩

def requireEffects (result : ValueId) (effects required : EffectSet) : Except IrError Unit :=
  ensure (decide (required ⊆ effects))
    ⟨[.text s!"v{result} effects ", .effects effects, .text " do not cover ",
      .effects required]⟩

def expectRequirements (result : ValueId) (requirements expected : RequirementSet) :
    Except IrError Unit :=
  ensure (decide (requirements = expected))
    ⟨[.text s!"v{result} has capability requirements ", .requirements requirements,
      .text ", expected ", .requirements expected]⟩

def requireRequirements (result : ValueId) (requirements required : RequirementSet) :
    Except IrError Unit :=
  ensure (decide (required ⊆ requirements))
    ⟨[.text s!"v{result} capability requirements ", .requirements requirements,
      .text " do not cover ", .requirements required]⟩

def expectedPayload (variant : VariantName) (ty : Ty) : Except IrError (Option Ty) :=
  match variant, ty with
  | .some, .option element => pure (some element)
  | .none, .option _ => pure none
  | .ok, .result value _ => pure (some value)
  | .err, .result _ error => pure (some error)
  | _, _ => throw (.new "variant operation has invalid result type")

def verifyVariantType (self : Verifier) (variant : VariantName) (payload : Option ValueId)
    (ty : Ty) : Except IrError Unit := do
  let expected ← expectedPayload variant ty
  match expected, payload with
  | none, none => pure ()
  | some expected, some value => do
      let actual ←
        ofOption (.new s!"variant payload v{value} is out of range")
          (Keyed.find value self.valueTypes)
      ensure (decide (actual = expected)) (.new "variant payload type is inconsistent")
  | _, _ => throw (.new "variant payload shape is inconsistent")

/-- The payload type of each variant of a family, at a subject type. -/
def variantPayloadTypes (ty : Ty) (family : VariantFamily) :
    Except IrError (List (VariantName × Option Ty)) :=
  match family, ty with
  | .option, .option element => pure [(.some, some element), (.none, none)]
  | .result, .result value error => pure [(.ok, some value), (.err, some error)]
  | _, _ => throw (.new "variant match family does not match subject type")

def verifyBinary (self : Verifier) (result : ValueId) (ty : Ty) (left : ValueId)
    (operator : BinaryOperator) (right : ValueId) : Except IrError Unit := do
  let leftType ← self.valueType left
  let rightType ← self.valueType right
  match operator with
  | .add =>
      ensure (decide (leftType = rightType) && isOperandType leftType && decide (ty = leftType))
        (.new s!"v{result} has invalid addition types")
  | .subtract | .multiply | .divide | .remainder =>
      ensure (decide (leftType = .int) && decide (rightType = .int) && decide (ty = .int))
        (.new s!"v{result} has invalid arithmetic types")
  | .equal | .notEqual =>
      ensure (leftType.typeEquivalent rightType && typeContainsNoFunction leftType &&
        decide (ty = .bool)) (.new s!"v{result} has invalid equality types")
  | .less | .lessEqual | .greater | .greaterEqual =>
      ensure (decide (leftType = rightType) && isOperandType leftType && decide (ty = .bool))
        (.new s!"v{result} has invalid comparison types")
  | .and | .or =>
      throw (.new "short-circuit boolean operators must lower as explicit branches")
where
  isOperandType : Ty → Bool
    | .int | .string | .typeVariable _ => true
    | _ => false

def hostResource (self : Verifier) (result : ValueId) (arguments : List ValueId)
    (index : ℕ) : Except IrError String := do
  let argument ←
    ofOption (.new s!"v{result} host call has too few arguments") arguments[index]?
  ofOption (.new s!"v{result} host call resource is not a string literal")
    (Keyed.find argument self.stringLiterals)

def builtinDirectRequirements (self : Verifier) (result : ValueId) (builtin : Builtin)
    (arguments : List ValueId) : Except IrError (List CapabilityRequirement) :=
  let first (capability : Effect) : Except IrError (List CapabilityRequirement) := do
    let resource ← self.hostResource result arguments 0
    pure [⟨capability, resource⟩]
  let replay (capability : Effect) : Except IrError (List CapabilityRequirement) := do
    let store ← self.hostResource result arguments 0
    let resource ← self.hostResource result arguments 2
    pure [⟨.stateTransaction, store⟩, ⟨capability, resource⟩]
  match builtin with
  | .aiInvoke => first .aiInvoke
  | .configString => first .configRead
  | .secret => first .secretRead
  | .httpRequest => first .httpRequest
  | .stateGet | .statePut | .stateDelete | .checkpointGet | .checkpointPut =>
      first .stateTransaction
  | .replayHttp => replay .httpRequest
  | .replayAi => replay .aiInvoke
  | .queuePublish => first .queuePublish
  | .objectGet => first .objectRead
  | .objectPut | .objectDelete => first .objectWrite
  | .databaseBeginRead => first .databaseRead
  | .databaseBeginWrite => first .databaseWrite
  | .cacheGet => first .cacheRead
  | .cachePut | .cacheDelete => first .cacheWrite
  | .searchQuery => first .searchQuery
  | .vectorSearch => first .searchVector
  | .databaseQuery | .databaseExecute | .databaseCommit | .databaseRollback
  | .print | .println | .some | .none | .ok | .err | .jsonEncode | .jsonDecode
  | .logInfo | .logError | .intToString | .urlPathSegment | .urlQuery | .stringByteLen
  | .stringIsEmpty | .stringContains | .stringStartsWith | .stringEndsWith => pure []

def verifyOperationRequirements (self : Verifier) (result : ValueId)
    (requirements : RequirementSet) : OperationKind → Except IrError Unit
  | .block block => requireRequirements result requirements block.requirements
  | .call callee arguments => do
      match ← self.valueType callee with
      | .function _ _ _ latent => do
          let direct ←
            match Keyed.find callee self.builtinValues with
            | some builtin => self.builtinDirectRequirements result builtin arguments
            | none => pure []
          requireRequirements result requirements (latent ∪ direct.toFinset)
      | _ => throw (.new s!"v{result} call target is not a function")
  | .if _ consequent alternative =>
      requireRequirements result requirements
        (consequent.requirements ∪ alternative.requirements)
  | .matchList _ empty _ _ cons =>
      requireRequirements result requirements (empty.requirements ∪ cons.requirements)
  | .matchVariant _ _ arms =>
      requireRequirements result requirements
        (unionAll (arms.map fun arm => arm.block.requirements))
  | _ => expectRequirements result requirements ∅

/-- Adds a binding that must not be in scope yet. -/
def insertBinding (bindings : List (BindingId × ValueId)) (binding : BindingId)
    (value : ValueId) (message : String) : Except IrError (List (BindingId × ValueId)) :=
  match Keyed.find binding bindings with
  | some _ => throw (.new message)
  | none => pure ((binding, value) :: bindings)

def insertBindings (message : String) :
    List (BindingId × ValueId) → List (BindingId × ValueId) →
      Except IrError (List (BindingId × ValueId))
  | bindings, [] => pure bindings
  | bindings, (binding, value) :: rest => do
      let bindings ← insertBinding bindings binding value message
      insertBindings message bindings rest

/-- A `Bind` operation brings its binding into scope. -/
def bindOperation (id : BlockId) (bindings : List (BindingId × ValueId)) :
    OperationKind → Except IrError (List (BindingId × ValueId))
  | .bind binding value =>
      insertBinding bindings binding value
        s!"bb{id} defines binding b{binding} more than once"
  | _ => pure bindings

def verifyRecordOperand (self : Verifier) (result : ValueId)
    (recordTypes : List (String × Ty)) (available : List ValueId) :
    List String → List (String × ValueId) → Except IrError Unit
  | _, [] => pure ()
  | seen, (name, value) :: rest => do
      requireAvailable value available s!"v{result}"
      ensure (decide (name ∉ seen))
        (.new s!"v{result} contains duplicate record field `{name}`")
      let expected ←
        ofOption (.new s!"v{result} field `{name}` is absent from its record type")
          (Keyed.find name recordTypes)
      self.expectValueType value expected
      self.verifyRecordOperand result recordTypes available (name :: seen) rest

def verifyCapture (self : Verifier) (result : ValueId) (function : FunctionId)
    (available : List ValueId) (bindings : List (BindingId × ValueId))
    (pair : CaptureArgument × CoreCapture) : Except IrError Unit := do
  let capture := pair.1.capture
  let binding := pair.1.binding
  ensure (decide (capture = pair.2.id) && decide (binding = pair.2.binding))
    (.new s!"v{result} closure capture identities do not match f{function}")
  ensure (decide (Keyed.find binding bindings = some pair.1.value))
    (.new s!"v{result} closure capture c{capture} is not defined by binding b{binding}")
  requireAvailable pair.1.value available s!"v{result}"
  self.expectValueType pair.1.value pair.2.ty

def literalType : ValueLiteral → Ty
  | .integer _ => .int
  | .boolean _ => .bool
  | .string _ => .string

def unaryType : UnaryOperator → Ty
  | .not => .bool
  | .negate => .int

/-- The block parameters of an arm bind exactly its payload. -/
def verifyArmBinding (result : ValueId) (expected : Option Ty)
    (binding : Option MatchBindingId) (parameters : List BlockParameter) :
    Except IrError Unit :=
  match expected, binding with
  | some expected, some binding =>
      ensure
        (match parameters with
          | [parameter] =>
              decide (parameter.matchBinding = binding) && decide (parameter.ty = expected)
          | _ => false)
        (.new s!"v{result} variant payload binding is inconsistent")
  | none, none =>
      ensure parameters.isEmpty (.new s!"v{result} variant arm binding shape is inconsistent")
  | _, _ => throw (.new s!"v{result} variant arm binding shape is inconsistent")

/-- Whether the block parameters of the non-empty arm of a list match bind its
head and its tail. -/
def consBindingMatches (head tail : MatchBindingId) (element subject : Ty) :
    List BlockParameter → Bool
  | [first, second] =>
      decide (first.matchBinding = head) && decide (second.matchBinding = tail) &&
        decide (first.ty = element) && decide (second.ty = subject)
  | _ => false

def isExit : OperationKind → Bool
  | .exit _ => true
  | _ => false

mutual

def verifyBlock (self : Verifier) (incoming : List ValueId)
    (incomingBindings : List (BindingId × ValueId)) (exit : Option Ty) :
    CoreBlock → Except IrError Unit
  | ⟨id, parameters, operations, result, ty, effects, requirements, _⟩ => do
      let available := parameters.map (·.value) ++ incoming
      let bindings ←
        insertBindings s!"bb{id} match binding conflicts with an available binding"
          incomingBindings
          (parameters.map fun parameter => (parameter.binding, parameter.value))
      self.verifyOperations id result available bindings exit operations
      let defined := operations.map (·.result) ++ available
      requireAvailable result defined s!"bb{id}"
      self.expectValueType result ty
      let required := unionAll (operations.map (·.effects))
      ensure (decide (required ⊆ effects))
        ⟨[.text s!"bb{id} effect summary ", .effects effects, .text " does not cover ",
          .effects required]⟩
      let required := unionAll (operations.map (·.requirements))
      ensure (decide (required ⊆ requirements))
        ⟨[.text s!"bb{id} capability requirement summary ", .requirements requirements,
          .text " does not cover ", .requirements required]⟩

def verifyOperations (self : Verifier) (id : BlockId) (blockResult : ValueId)
    (available : List ValueId) (bindings : List (BindingId × ValueId)) (exit : Option Ty) :
    List CoreOperation → Except IrError Unit
  | [] => pure ()
  | operation :: rest => do
      self.verifyOperation available bindings exit operation
      let result := operation.result
      ensure
        (!isExit operation.kind || rest.isEmpty && decide (blockResult = operation.result))
        (.new s!"bb{id} exit v{result} is not the last operation and the result of its block")
      let bindings ← bindOperation id bindings operation.kind
      self.verifyOperations id blockResult (operation.result :: available) bindings exit rest

def verifyOperation (self : Verifier) (available : List ValueId)
    (bindings : List (BindingId × ValueId)) (exit : Option Ty) :
    CoreOperation → Except IrError Unit
  | ⟨result, ty, effects, requirements, _, kind⟩ => do
      self.verifyKind available bindings exit result ty effects kind
      self.verifyOperationRequirements result requirements kind

def verifyKind (self : Verifier) (available : List ValueId)
    (bindings : List (BindingId × ValueId)) (exit : Option Ty) (result : ValueId) (ty : Ty)
    (effects : EffectSet) : OperationKind → Except IrError Unit
  | .literal literal => do
      expectType result ty (literalType literal)
      expectEffects result effects ∅
  | .unit => do
      expectType result ty .unit
      expectEffects result effects ∅
  | .builtin builtin => do
      verifyBuiltinType builtin ty
      expectEffects result effects ∅
  | .variant variant payload => do
      match payload with
      | some payload => do
          requireAvailable payload available s!"v{result}"
          let payloadType ← self.valueType payload
          let approvedBearer :=
            decide (variant = .some) && decide (ty = .option .secret) &&
              decide (payloadType = .secret)
          ensure (!(typeContainsSecret payloadType && !approvedBearer))
            (.new "opaque Secret cannot be placed in a variant")
      | none => pure ()
      self.verifyVariantType variant payload ty
      expectEffects result effects ∅
  | .list elements => do
      match ty with
      | .list elementType => do
          forEach (fun element => do
            requireAvailable element available s!"v{result}"
            let actual ← self.valueType element
            ensure (!typeContainsSecret actual)
              (.new "opaque Secret cannot be placed in a list")
            self.expectValueType element elementType) elements
          expectEffects result effects ∅
      | _ => throw (.new s!"v{result} list operation has non-list type")
  | .record fields => do
      match ty with
      | .record recordTypes => do
          ensure (recordTypes.all fun field => !typeContainsSecret field.2)
            (.new "opaque Secret cannot be placed in a record")
          ensure (fields.length == recordTypes.length)
            (.new s!"v{result} record field count does not match its type")
          self.verifyRecordOperand result recordTypes available [] fields
          expectEffects result effects ∅
      | _ => throw (.new s!"v{result} record operation has non-record type")
  | .field value field => do
      requireAvailable value available s!"v{result}"
      let actual ← self.valueType value
      let expected ←
        ofOption (.new s!"v{result} accesses missing field `{field}`")
          (recordFieldType actual field)
      expectType result ty expected
      expectEffects result effects ∅
  | .block block => do
      self.verifyBlock available bindings exit block
      expectType result ty block.ty
      requireEffects result effects block.effects
  | .closure _ function captures => do
      let target ← self.function function
      expectType result ty (functionType target.signature)
      ensure (captures.length == target.captures.length)
        (.new s!"v{result} closure capture count does not match f{function}")
      forEach (self.verifyCapture result function available bindings)
        (captures.zip target.captures)
      expectEffects result effects ∅
  | .call callee arguments => do
      requireAvailable callee available s!"v{result}"
      match ← self.valueType callee with
      | .function parameters returnType latent _ => do
          ensure (parameters.length == arguments.length)
            (.new s!"v{result} call arity does not match its signature")
          forEach (fun pair => do
            requireAvailable pair.1 available s!"v{result}"
            self.expectValueType pair.1 pair.2) (arguments.zip parameters)
          expectType result ty returnType
          requireEffects result effects latent
      | _ => throw (.new s!"v{result} call target is not a function")
  | .if condition consequent alternative => do
      requireAvailable condition available s!"v{result}"
      self.expectValueType condition .bool
      self.verifyBlock available bindings exit consequent
      self.verifyBlock available bindings exit alternative
      ensure
        (consequent.ty.typeEquivalent alternative.ty && consequent.ty.typeEquivalent ty)
        (.new s!"v{result} if branch result types are inconsistent")
      requireEffects result effects (consequent.effects ∪ alternative.effects)
  | .matchList subject empty head tail cons => do
      requireAvailable subject available s!"v{result}"
      let subjectType ← self.valueType subject
      match subjectType with
      | .list element => do
          self.verifyBlock available bindings exit empty
          self.verifyBlock available bindings exit cons
          ensure (empty.ty.typeEquivalent cons.ty && empty.ty.typeEquivalent ty)
            (.new s!"v{result} list match arm types are inconsistent")
          ensure (consBindingMatches head tail element subjectType cons.parameters)
            (.new s!"v{result} list match bindings are inconsistent")
          requireEffects result effects (empty.effects ∪ cons.effects)
      | _ => throw (.new s!"v{result} list match subject is not a list")
  | .matchVariant subject family arms => do
      requireAvailable subject available s!"v{result}"
      let payloads ← variantPayloadTypes (← self.valueType subject) family
      ensure (arms.length == 2) (.new s!"v{result} variant match must contain two arms")
      self.verifyArms available bindings exit result ty payloads [] arms
      requireEffects result effects (unionAll (arms.map fun arm => arm.block.effects))
  | .unary operator operand => do
      requireAvailable operand available s!"v{result}"
      self.expectValueType operand (unaryType operator)
      expectType result ty (unaryType operator)
      expectEffects result effects ∅
  | .binary left operator right => do
      requireAvailable left available s!"v{result}"
      requireAvailable right available s!"v{result}"
      self.verifyBinary result ty left operator right
      expectEffects result effects ∅
  | .bind binding value => do
      requireAvailable value available s!"v{result}"
      self.bindingTypeMatches binding (← self.valueType value)
      let declared ← self.binding binding
      ensure (declared.kind.isFunction || decide (declared.kind = .let))
        (.new s!"v{result} binds non-declaration b{binding}")
      expectType result ty .unit
      expectEffects result effects ∅
  | .discard value => do
      requireAvailable value available s!"v{result}"
      expectType result ty .unit
      expectEffects result effects ∅
  | .exit value => do
      requireAvailable value available s!"v{result}"
      let expected ← ofOption (.new s!"v{result} exits module initialization") exit
      self.expectValueType value expected
      expectEffects result effects ∅

def verifyArms (self : Verifier) (available : List ValueId)
    (bindings : List (BindingId × ValueId)) (exit : Option Ty) (result : ValueId) (ty : Ty)
    (payloads : List (VariantName × Option Ty)) :
    List VariantName → List VariantArmBlock → Except IrError Unit
  | _, [] => pure ()
  | seen, ⟨variant, binding, block⟩ :: rest => do
      ensure (decide (variant ∉ seen)) (.new s!"v{result} has duplicate variant arms")
      let expected ←
        ofOption (.new s!"v{result} variant arm does not belong to its family")
          (Keyed.find variant payloads)
      verifyArmBinding result expected binding block.parameters
      self.verifyBlock available bindings exit block
      ensure (block.ty.typeEquivalent ty)
        (.new s!"v{result} variant arm result type is inconsistent")
      self.verifyArms available bindings exit result ty payloads (variant :: seen) rest

end

def verifyFunction (self : Verifier) (function : CoreFunction) : Except IrError Unit := do
  let id := function.id
  ensure (decide (function.body.effects ⊆ function.signature.effects))
    (.new s!"f{id} effect summary is not conservative")
  ensure (decide (function.body.requirements ⊆ function.signature.requirements))
    (.new s!"f{id} capability requirement summary is not conservative")
  ensure (function.body.ty.typeEquivalent function.signature.result)
    (.new s!"f{id} body result type does not match its signature")
  let available :=
    function.recursive.toList.map (·.value) ++ function.captures.map (·.value) ++
      function.parameters.map (·.value)
  let bindings ←
    insertBindings s!"f{id} contains duplicate parameter bindings" []
      (function.parameters.map fun parameter => (parameter.binding, parameter.value))
  let bindings ←
    insertBindings s!"f{id} contains duplicate capture bindings" bindings
      (function.captures.map fun capture => (capture.binding, capture.value))
  let bindings ←
    insertBindings s!"f{id} recursive binding conflicts with another boundary" bindings
      (function.recursive.toList.map fun recursive => (recursive.binding, recursive.value))
  let initial := self.target.entrypoints.head?.map (·.function)
  let exit := if some id = initial then none else some function.signature.result
  self.verifyBlock available bindings exit function.body

def verifyContiguous (kind : String) (ids : List ℕ) : Except IrError Unit :=
  ensure
    ((ids.insertionSort (· ≤ ·)).zipIdx.all fun entry => entry.1 == entry.2)
    (.new (kind ++ " IDs are not contiguous"))

end Verifier

mutual

/-- How deeply blocks nest, counting the block itself as one. -/
def CoreBlock.depth : CoreBlock → ℕ
  | ⟨_, _, operations, _, _, _, _, _⟩ => operationsDepth operations + 1

def operationsDepth : List CoreOperation → ℕ
  | [] => 0
  | ⟨_, _, _, _, _, kind⟩ :: rest => max kind.depth (operationsDepth rest)

def OperationKind.depth : OperationKind → ℕ
  | .block block => block.depth
  | .if _ consequent alternative => max consequent.depth alternative.depth
  | .matchList _ empty _ _ cons => max empty.depth cons.depth
  | .matchVariant _ _ arms => armsDepth arms
  | _ => 0

def armsDepth : List VariantArmBlock → ℕ
  | [] => 0
  | ⟨_, _, block⟩ :: rest => max block.depth (armsDepth rest)

end

namespace CoreModule

/-- The nesting depth of the most deeply nested block of any function. -/
def deepestBlock (self : CoreModule) : ℕ :=
  (self.functions.map fun function => function.body.depth).foldr max 0

def verifyContiguousBindings (self : CoreModule) : Except IrError Unit :=
  ensure (self.bindings.zipIdx.all fun entry => entry.1.id == entry.2)
    (.new "binding IDs are not contiguous")

def verifyEntrypoints (self : CoreModule) : Except IrError Unit := do
  ensure
    (match self.entrypoints with
      | [] => false
      | first :: _ =>
          decide (self.entrypoints.length ≤ 2) && decide (first.kind = .moduleInit) &&
            decide (first.function = 0) && decide (first.function < self.functions.length))
    (.new "invalid module-init entrypoint identity")
  ensure
    (match self.entrypoints[1]? with
      | none => true
      | some exported =>
          exported.kind.isExported && decide (exported.function ≠ 0) &&
            match self.functions[exported.function]? with
            | some function => (function.debugName.getD "") != ""
            | none => false)
    (.new "invalid exported entrypoint identity")

def verifyInitialBoundary (self : CoreModule) : Except IrError Unit :=
  ensure
    (match self.functions[0]? with
      | some entrypoint =>
          entrypoint.parameters.isEmpty && entrypoint.captures.isEmpty &&
            entrypoint.recursive.isNone && decide (entrypoint.signature.result = .unit)
      | none => false)
    (.new "invalid module-init entrypoint boundary")

/-- The parameter and result of an exported entrypoint. -/
def exportedBoundary : EntrypointKind → Except IrError (Ty × Ty)
  | .webhook => pure (.httpRequest, .httpResponse)
  | .queueConsumer => pure (.queueJob, .result .string .string)
  | .scheduleHandler => pure (.scheduleEvent, .result .string .string)
  | .moduleInit => throw (.new "invalid exported entrypoint kind")

def verifyExportedBoundary (self : CoreModule) (verifier : Verifier) :
    Except IrError Unit :=
  match self.entrypoints[1]? with
  | none => pure ()
  | some exported => do
      let function ← verifier.function exported.function
      let boundary ← exportedBoundary exported.kind
      ensure
        (decide (function.signature.parameters = [boundary.1]) &&
          decide (function.signature.result = boundary.2))
        (.new "invalid exported entrypoint boundary")

def verify (self : CoreModule) : Except IrError Unit := do
  let depth := self.deepestBlock
  ensure (decide (depth ≤ maxCoreBlockDepth))
    (.new s!"nesting depth limit exceeded: Core blocks nest {depth} levels, more than 8192")
  self.verifyContiguousBindings
  self.verifyEntrypoints
  let verifier ← (Verifier.new self).collectFunctions 0 self.functions
  Verifier.verifyContiguous "block" verifier.blockIds
  Verifier.verifyContiguous "value" (verifier.valueTypes.map Prod.fst)
  Verifier.verifyContiguous "parameter" verifier.parameterIds
  Verifier.verifyContiguous "capture" verifier.captureIds
  Verifier.verifyContiguous "closure" verifier.closureIds
  Verifier.verifyContiguous "match binding" verifier.matchBindingIds
  self.verifyInitialBoundary
  self.verifyExportedBoundary verifier
  forEach verifier.verifyFunction self.functions

end CoreModule

end Krit
