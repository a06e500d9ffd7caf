import Krit.CoreVerifier
import Krit.CoreSemantics

/-!
# What the WebAssembly backend supports

`checkModule` verifies a module, selects the program kind and its entrypoint,
drops the functions that nothing live uses, and reports every live construct
that has no lowering.  Module programs lower to scalars (policy 1); webhook,
queue and schedule entrypoints lower to the bounded webhook ABI (policy 2).
-/

namespace Krit

open Result

inductive BuildErrorKind where
  | residualType
  | unsupportedSemantics
  | invalidCore
  | invalidArtifact
  deriving DecidableEq, Repr

structure BuildError where
  kind : BuildErrorKind
  message : List MessagePart
  span : Option Span

namespace BuildError

def residual (message : List MessagePart) (span : Option Span) : BuildError :=
  ⟨.residualType, message, span⟩

def unsupported (message : List MessagePart) (span : Option Span) : BuildError :=
  ⟨.unsupportedSemantics, message, span⟩

def invalidCore (message : String) : BuildError :=
  ⟨.invalidCore, [.text message], none⟩

def artifact (message : String) : BuildError :=
  ⟨.invalidArtifact, [.text message], none⟩

def code (error : BuildError) : String :=
  match error.kind with
  | .residualType => "K7001"
  | .unsupportedSemantics | .invalidCore => "K7002"
  | .invalidArtifact => "K7003"

/-- Attaches `span` when the error names no source location yet. -/
def orSpan (error : BuildError) (span : Option Span) : BuildError :=
  { error with span := error.span.orElse fun _ => span }

/-- Located errors come first, by span and then by code. -/
def precedes (left right : BuildError) : Bool :=
  match left.span, right.span with
  | some leftSpan, some rightSpan =>
      leftSpan.start < rightSpan.start ||
        (leftSpan.start == rightSpan.start &&
          (leftSpan.stop < rightSpan.stop ||
            (leftSpan.stop == rightSpan.stop && decide (left.code ≤ right.code))))
  | some _, none => true
  | none, some _ => false
  | none, none => decide (left.code ≤ right.code)

/-- Keeps the first error of each code at each start of a span. -/
def firstPerPosition : List (ℕ × String) → List BuildError → List BuildError
  | _, [] => []
  | seen, error :: rest =>
      match error.span with
      | none => error :: firstPerPosition seen rest
      | some span =>
          if (span.start, error.code) ∈ seen then firstPerPosition seen rest
          else error :: firstPerPosition ((span.start, error.code) :: seen) rest

def normalize (errors : List BuildError) : List BuildError :=
  firstPerPosition [] (errors.insertionSort fun left right => left.precedes right)

end BuildError

/-! ## Dead-function elimination -/

/-- Module initialization is the first entrypoint. -/
def CoreModule.entrypoint (self : CoreModule) : FunctionId :=
  (self.entrypoints.head?.map (·.function)).getD 0

structure LiveFunctions where
  functions : List FunctionId

mutual

def collectClosureValues (closures : List (ValueId × FunctionId)) :
    CoreBlock → List (ValueId × FunctionId)
  | ⟨_, _, operations, _, _, _, _, _⟩ => collectClosureOperations closures operations

def collectClosureOperations (closures : List (ValueId × FunctionId)) :
    List CoreOperation → List (ValueId × FunctionId)
  | [] => closures
  | ⟨result, _, _, _, _, kind⟩ :: rest =>
      collectClosureOperations (collectClosureKind closures result kind) rest

def collectClosureKind (closures : List (ValueId × FunctionId)) (result : ValueId) :
    OperationKind → List (ValueId × FunctionId)
  | .closure _ function _ => (result, function) :: closures
  | .block block => collectClosureValues closures block
  | .if _ consequent alternative =>
      collectClosureValues (collectClosureValues closures consequent) alternative
  | .matchList _ empty _ _ cons =>
      collectClosureValues (collectClosureValues closures empty) cons
  | .matchVariant _ _ arms => collectClosureArms closures arms
  | _ => closures

def collectClosureArms (closures : List (ValueId × FunctionId)) :
    List VariantArmBlock → List (ValueId × FunctionId)
  | [] => closures
  | ⟨_, _, block⟩ :: rest => collectClosureArms (collectClosureValues closures block) rest

end

section BoundFunctions

variable (closures : List (ValueId × FunctionId))

mutual

/-- The bindings that name a closure, each with its function. -/
def collectBoundFunctions (bound : List (BindingId × FunctionId)) :
    CoreBlock → List (BindingId × FunctionId)
  | ⟨_, _, operations, _, _, _, _, _⟩ => collectBoundOperations bound operations

def collectBoundOperations (bound : List (BindingId × FunctionId)) :
    List CoreOperation → List (BindingId × FunctionId)
  | [] => bound
  | ⟨_, _, _, _, _, kind⟩ :: rest => collectBoundOperations (collectBoundKind bound kind) rest

def collectBoundKind (bound : List (BindingId × FunctionId)) :
    OperationKind → List (BindingId × FunctionId)
  | .bind binding value =>
      match Keyed.find value closures with
      | some function => (binding, function) :: bound
      | none => bound
  | .block block => collectBoundFunctions bound block
  | .if _ consequent alternative =>
      collectBoundFunctions (collectBoundFunctions bound consequent) alternative
  | .matchList _ empty _ _ cons =>
      collectBoundFunctions (collectBoundFunctions bound empty) cons
  | .matchVariant _ _ arms => collectBoundArms bound arms
  | _ => bound

def collectBoundArms (bound : List (BindingId × FunctionId)) :
    List VariantArmBlock → List (BindingId × FunctionId)
  | [] => bound
  | ⟨_, _, block⟩ :: rest => collectBoundArms (collectBoundFunctions bound block) rest

end

end BoundFunctions

/-- The operands whose closure an operation uses; binding and discarding a
closure, and capturing it, are not uses. -/
def OperationKind.marked : OperationKind → List ValueId
  | .literal _ | .unit | .builtin _ | .closure _ _ _ | .bind _ _ | .discard _ | .block _ => []
  | .variant _ payload => payload.toList
  | .list elements => elements
  | .record fields => fields.map Prod.snd
  | .field value _ | .exit value => [value]
  | .call callee arguments => callee :: arguments
  | .if condition _ _ => [condition]
  | .matchList subject _ _ _ _ | .matchVariant subject _ _ => [subject]
  | .unary _ operand => [operand]
  | .binary left _ right => [left, right]

mutual

/-- The values a block marks as used: its operations' operands and its result,
then those of its nested blocks. -/
def CoreBlock.markedValues : CoreBlock → List ValueId
  | ⟨_, _, operations, result, _, _, _, _⟩ =>
      operationsMarked operations ++ [result] ++ operationsNestedMarked operations

def operationsMarked : List CoreOperation → List ValueId
  | [] => []
  | ⟨_, _, _, _, _, kind⟩ :: rest => kind.marked ++ operationsMarked rest

def operationsNestedMarked : List CoreOperation → List ValueId
  | [] => []
  | ⟨_, _, _, _, _, kind⟩ :: rest => kind.nestedMarked ++ operationsNestedMarked rest

def OperationKind.nestedMarked : OperationKind → List ValueId
  | .block block => block.markedValues
  | .if _ consequent alternative => consequent.markedValues ++ alternative.markedValues
  | .matchList _ empty _ _ cons => empty.markedValues ++ cons.markedValues
  | .matchVariant _ _ arms => armsMarked arms
  | _ => []

def armsMarked : List VariantArmBlock → List ValueId
  | [] => []
  | ⟨_, _, block⟩ :: rest => block.markedValues ++ armsMarked rest

end

def collectUsedFunctions (closures : List (ValueId × FunctionId)) (block : CoreBlock) :
    List FunctionId :=
  block.markedValues.filterMap fun value => Keyed.find value closures

namespace LiveFunctions

def contains (self : LiveFunctions) (function : FunctionId) : Bool :=
  decide (function ∈ self.functions)

/-- Whether an operation creates a closure over an eliminated function. -/
def isDeadClosure (self : LiveFunctions) : OperationKind → Bool
  | .closure _ function _ => !self.contains function
  | _ => false

/-- The functions that a live function makes live. -/
def successors (target : CoreModule) (closures : List (ValueId × FunctionId))
    (bound : List (BindingId × FunctionId)) (id : FunctionId) : List FunctionId :=
  match target.functions[id]? with
  | some function =>
      function.captures.filterMap (fun capture => Keyed.find capture.binding bound) ++
        collectUsedFunctions closures function.body
  | none => []

/-- The worklist loop.  The work left is bounded by the pending functions and
the successors of the functions that are not live yet. -/
def visit (next : FunctionId → List FunctionId) :
    ℕ → List FunctionId → List FunctionId → List FunctionId
  | 0, functions, _ => functions
  | _ + 1, functions, [] => functions
  | fuel + 1, functions, id :: pending =>
      if id ∈ functions then visit next fuel functions pending
      else visit next fuel (id :: functions) ((next id).reverse ++ pending)

def compute (target : CoreModule) (entrypoint : FunctionId) : LiveFunctions :=
  let closures :=
    target.functions.foldl (fun closures function => collectClosureValues closures function.body) []
  let bound :=
    target.functions.foldl (fun bound function =>
      collectBoundFunctions closures
        (match function.recursive with
          | some recursive => (recursive.binding, function.id) :: bound
          | none => bound) function.body) []
  let next := successors target closures bound
  let work :=
    ((List.range target.functions.length).map fun id => (next id).length).sum + 3
  ⟨visit next work [] [entrypoint, target.entrypoint]⟩

/-- The live functions, in the order of the module. -/
def inModule (self : LiveFunctions) (target : CoreModule) : List CoreFunction :=
  target.functions.filter fun function => self.contains function.id

end LiveFunctions

/-! ## Types with a layout -/

mutual

/-- Whether a type still contains an inference variable. -/
def containsResidual : Ty → Bool
  | .typeVariable _ => true
  | .list element | .option element => containsResidual element
  | .record fields => fieldsContainResidual fields
  | .result value error => containsResidual value || containsResidual error
  | .function parameters returnType _ _ =>
      listContainsResidual parameters || containsResidual returnType
  | .int | .bool | .string | .unit | .httpHeader | .httpRequest | .httpResponse
  | .logField | .queueJob | .scheduleEvent | .databaseTransaction | .secret => false

def fieldsContainResidual : List (String × Ty) → Bool
  | [] => false
  | (_, ty) :: rest => containsResidual ty || fieldsContainResidual rest

def listContainsResidual : List Ty → Bool
  | [] => false
  | ty :: rest => containsResidual ty || listContainsResidual rest

end

mutual

/-- Comparison with an expected field type.  The expected types are contracts,
scalars and lists of contracts, so the fuel bounds only how far the other side
is opened before the expected one has decided. -/
def webhookTypeEquivalent : ℕ → Ty → Ty → Bool
  | 0, left, right => decide (left = right)
  | fuel + 1, left, right =>
      decide (left = right) ||
        (isHttpHeaderWithin fuel left && isHttpHeaderWithin fuel right) ||
        (isHttpRequestWithin fuel left && isHttpRequestWithin fuel right) ||
        (isHttpResponseWithin fuel left && isHttpResponseWithin fuel right) ||
        (isLogFieldWithin fuel left && isLogFieldWithin fuel right) ||
        match left, right with
        | .list left, .list right => webhookTypeEquivalent fuel left right
        | _, _ => false

def recordFieldsMatch (fuel : ℕ) (fields expected : List (String × Ty)) : Bool :=
  fields.length == expected.length &&
    expected.all fun entry =>
      match Keyed.find entry.1 fields with
      | some ty => webhookTypeEquivalent fuel ty entry.2
      | none => false

def isLogFieldWithin (fuel : ℕ) : Ty → Bool
  | .logField => true
  | .record fields => recordFieldsMatch fuel fields [("name", .string), ("value", .string)]
  | _ => false

def isHttpHeaderWithin (fuel : ℕ) : Ty → Bool
  | .httpHeader => true
  | .record fields => recordFieldsMatch fuel fields [("name", .string), ("value", .string)]
  | _ => false

def isHttpRequestWithin (fuel : ℕ) : Ty → Bool
  | .httpRequest => true
  | .record fields =>
      recordFieldsMatch fuel fields
        [("method", .string), ("path", .string), ("query", .string),
          ("headers", .list .httpHeader), ("body", .string)]
  | _ => false

def isHttpResponseWithin (fuel : ℕ) : Ty → Bool
  | .httpResponse => true
  | .record fields =>
      recordFieldsMatch fuel fields
        [("status", .int), ("headers", .list .httpHeader), ("body", .string)]
  | _ => false

end

/-- Enough to open a list of headers in a field of a request. -/
def contractFuel : ℕ := 4

def isHttpHeader : Ty → Bool := isHttpHeaderWithin contractFuel

def isHttpRequest : Ty → Bool := isHttpRequestWithin contractFuel

def isHttpResponse : Ty → Bool := isHttpResponseWithin contractFuel

def isLogField : Ty → Bool := isLogFieldWithin contractFuel

def isStringList : Ty → Bool
  | .list element => decide (element = .string)
  | _ => false

def isHeaderList : Ty → Bool
  | .list element => isHttpHeader element
  | _ => false

def isLogFieldList : Ty → Bool
  | .list element => isLogField element
  | _ => false

def isHttpContractType (ty : Ty) : Bool :=
  isHttpHeader ty || isHttpRequest ty || isHttpResponse ty

mutual

def isSupportedWebhookType : Ty → Bool
  | .int | .bool | .string | .unit | .httpHeader | .httpRequest | .httpResponse | .logField
  | .queueJob | .scheduleEvent | .databaseTransaction | .secret => true
  | .list element =>
      isHeaderList (.list element) || isLogFieldList (.list element) ||
        isStringList (.list element)
  | .record fields => isHttpContractType (.record fields) || isLogField (.record fields)
  | .option element => decide (element = .secret) || decide (element = .string)
  | .result value error =>
      decide (error = .string) &&
        (decide (value ∈ [Ty.unit, .int, .string, .secret, .httpResponse, .databaseTransaction,
          .option .string]))
  | .function parameters returnType _ _ =>
      areSupportedWebhookTypes parameters && isSupportedWebhookType returnType
  | .typeVariable _ => false

def areSupportedWebhookTypes : List Ty → Bool
  | [] => true
  | ty :: rest => isSupportedWebhookType ty && areSupportedWebhookTypes rest

end

def policyName (webhook : Bool) : String :=
  if webhook then "the bounded webhook ABI (WebAssembly policy 2)" else "WebAssembly policy 1"

def unsupportedLayout (layout : String) (span : Option Span) (webhook : Bool) : BuildError :=
  .unsupported [.text (layout ++ " has no concrete guest layout in " ++ policyName webhook)] span

/-- The name of a type without a layout, in messages. -/
def layoutName : Ty → String
  | .string => "String"
  | .httpHeader => "HttpHeader"
  | .httpRequest => "HttpRequest"
  | .httpResponse => "HttpResponse"
  | .logField => "LogField"
  | .queueJob => "QueueJob"
  | .scheduleEvent => "ScheduleEvent"
  | .databaseTransaction => "DatabaseTransaction"
  | .secret => "Secret"
  | .list _ => "List"
  | .record _ => "Record"
  | .option _ => "Option"
  | .result _ _ => "Result"
  | .int => "Int"
  | .bool => "Bool"
  | .unit => "Unit"
  | .function _ _ _ _ => "Function"
  | .typeVariable _ => "variable"

mutual

/-- Checks that a type has a concrete layout.  A type met again by address is
not visited twice in the source, which changes no result. -/
def checkTypeInner (span : Option Span) (webhook : Bool) : Ty → Except BuildError Unit
  | .int | .bool | .unit => pure ()
  | .function parameters returnType _ _ => do
      checkTypesInner span webhook parameters
      checkTypeInner span webhook returnType
  | .typeVariable _ =>
      throw (.residual
        [.text "WebAssembly layout requires specialization of a parametric type"] span)
  | .list element =>
      ensure (webhook && isSupportedWebhookType (.list element))
        (unsupportedLayout (layoutName (.list element)) span webhook)
  | .record fields =>
      ensure (webhook && isSupportedWebhookType (.record fields))
        (unsupportedLayout (layoutName (.record fields)) span webhook)
  | .option element =>
      ensure (webhook && isSupportedWebhookType (.option element))
        (unsupportedLayout (layoutName (.option element)) span webhook)
  | .result value error =>
      ensure (webhook && isSupportedWebhookType (.result value error))
        (unsupportedLayout (layoutName (.result value error)) span webhook)
  | ty => ensure webhook (unsupportedLayout (layoutName ty) span webhook)

def checkTypesInner (span : Option Span) (webhook : Bool) : List Ty → Except BuildError Unit
  | [] => pure ()
  | ty :: rest => do
      checkTypeInner span webhook ty
      checkTypesInner span webhook rest

end

def checkType (ty : Ty) (span : Option Span) (webhook : Bool) : Except BuildError Unit :=
  if containsResidual ty then pure () else checkTypeInner span webhook ty

/-- The exact signature that a built-in of fixed type is lowered at. -/
def loweredSignature : Builtin → Option (List Ty × Ty)
  | .aiInvoke | .queuePublish => some ([.string, .string], .result .string .string)
  | .some => some ([.secret], .option .secret)
  | .configString | .urlPathSegment => some ([.string], .result .string .string)
  | .secret => some ([.string], .result .secret .string)
  | .httpRequest =>
      some ([.string, .httpRequest, .option .secret], .result .httpResponse .string)
  | .logInfo | .logError => some ([.string, .list .logField], .result .unit .string)
  | .stateGet | .checkpointGet | .objectGet | .cacheGet =>
      some ([.string, .string], .result (.option .string) .string)
  | .statePut | .checkpointPut | .objectPut =>
      some ([.string, .string, .string], .result .unit .string)
  | .stateDelete | .objectDelete | .cacheDelete =>
      some ([.string, .string], .result .unit .string)
  | .replayHttp =>
      some ([.string, .string, .string, .httpRequest], .result .httpResponse .string)
  | .replayAi => some ([.string, .string, .string, .string], .result .string .string)
  | .cachePut => some ([.string, .string, .string, .int], .result .unit .string)
  | .searchQuery | .vectorSearch => some ([.string, .string, .int], .result .string .string)
  | .databaseBeginRead | .databaseBeginWrite =>
      some ([.string], .result .databaseTransaction .string)
  | .databaseQuery =>
      some ([.databaseTransaction, .string, .list .string], .result .string .string)
  | .databaseExecute =>
      some ([.databaseTransaction, .string, .list .string], .result .int .string)
  | .databaseCommit | .databaseRollback =>
      some ([.databaseTransaction], .result .unit .string)
  | .jsonDecode => some ([.string], .string)
  | .intToString => some ([.int], .string)
  | .stringByteLen => some ([.string], .int)
  | .stringIsEmpty => some ([.string], .bool)
  | .stringContains | .stringStartsWith | .stringEndsWith =>
      some ([.string, .string], .bool)
  | .print | .println | .none | .ok | .err | .jsonEncode | .urlQuery => none

def isPrint : Builtin → Bool
  | .print | .println => true
  | _ => false

def isPrintable : Ty → Bool
  | .int | .bool | .unit => true
  | _ => false

def checkPrint (parameters : List Ty) (returnType : Ty) (span : Option Span)
    (webhook : Bool) : Except BuildError Unit :=
  match parameters with
  | [parameter] => do
      ensure (decide (returnType = .unit))
        (.unsupported [.text "stdout built-in has an unsupported function signature"] span)
      ensure (isPrintable parameter)
        (.unsupported [.text "cannot print `", .ty parameter,
          .text ("` in " ++ policyName webhook)] span)
  | _ =>
      throw (.unsupported [.text "stdout built-in has an unsupported function signature"] span)

def hasWebhookLowering (builtin : Builtin) (parameters : List Ty) (returnType : Ty) : Bool :=
  match builtin, parameters with
  | .ok, [_] | .err, [_] => isSupportedWebhookType returnType
  | .urlQuery, [parameter] =>
      (isHeaderList parameter || isLogFieldList parameter) && decide (returnType = .string)
  | builtin, parameters => decide (loweredSignature builtin = some (parameters, returnType))

def checkBuiltin (builtin : Builtin) (ty : Ty) (span : Option Span) (webhook : Bool) :
    Except BuildError Unit :=
  if !webhook && !isPrint builtin then
    throw (.unsupported
      [.text ("built-in `" ++ builtin.asStr ++ "` has no WebAssembly policy 1 lowering")] span)
  else
    match ty with
    | .function parameters returnType _ _ =>
        if isPrint builtin then checkPrint parameters returnType span webhook
        else
          ensure (hasWebhookLowering builtin parameters returnType)
            (.unsupported
              [.text ("built-in `" ++ builtin.asStr ++
                "` has no bounded webhook ABI lowering for `"), .ty ty, .text "`"] span)
    | _ => throw (.unsupported [.text "built-in has a non-function layout"] span)

def operatorSymbol : BinaryOperator → String
  | .add => "+"
  | .subtract => "-"
  | .multiply => "*"
  | .divide => "/"
  | .remainder => "%"
  | .equal => "=="
  | .notEqual => "!="
  | .less => "<"
  | .lessEqual => "<="
  | .greater => ">"
  | .greaterEqual => ">="
  | .and => "&&"
  | .or => "||"

/-- Concatenation, equality and ordering of strings go to guest helpers. -/
def hasStringHelper : BinaryOperator → Bool
  | .add | .equal | .notEqual | .less | .lessEqual | .greater | .greaterEqual => true
  | .subtract | .multiply | .divide | .remainder | .and | .or => false

/-- Why a binary operator has no lowering. -/
def unsupportedBinary (operator : BinaryOperator) (operand : Option Ty) (webhook : Bool) :
    Option (List MessagePart) :=
  let shown : MessagePart :=
    match operand with
    | some ty => .ty ty
    | none => .text "unknown"
  if operator = .and ∨ operator = .or then
    some [.text "short-circuit operators must be lowered to Core conditionals"]
  else if !webhook then none
  else if (operand.map containsResidual).getD false then none
  else if operand = some .string ∧ hasStringHelper operator = true then none
  else if operator = .equal ∨ operator = .notEqual then
    match operand with
    | some .int | some .bool | some .unit | some (.function _ _ _ _) => none
    | _ => some [.text ("composite equality is outside " ++ policyName webhook)]
  else if operand = some .int then none
  else
    some [.text ("operator `" ++ operatorSymbol operator ++ "` has no lowering for `"), shown,
      .text ("` operands in " ++ policyName webhook)]

/-! ## The checks of a module -/

mutual

/-- The types of the values that a block defines, as emission sees them. -/
def collectBlockValueTypes (types : List (ValueId × Ty)) : CoreBlock → List (ValueId × Ty)
  | ⟨_, parameters, operations, _, _, _, _, _⟩ =>
      collectOperationValueTypes
        (parameters.foldl (fun types parameter => (parameter.value, parameter.ty) :: types)
          types) operations

def collectOperationValueTypes (types : List (ValueId × Ty)) :
    List CoreOperation → List (ValueId × Ty)
  | [] => types
  | ⟨result, ty, _, _, _, kind⟩ :: rest =>
      collectOperationValueTypes (collectKindValueTypes ((result, ty) :: types) kind) rest

def collectKindValueTypes (types : List (ValueId × Ty)) : OperationKind → List (ValueId × Ty)
  | .block block => collectBlockValueTypes types block
  | .if _ consequent alternative =>
      collectBlockValueTypes (collectBlockValueTypes types consequent) alternative
  | .matchList _ empty _ _ cons =>
      collectBlockValueTypes (collectBlockValueTypes types empty) cons
  | .matchVariant _ _ arms => collectArmValueTypes types arms
  | _ => types

def collectArmValueTypes (types : List (ValueId × Ty)) :
    List VariantArmBlock → List (ValueId × Ty)
  | [] => types
  | ⟨_, _, block⟩ :: rest => collectArmValueTypes (collectBlockValueTypes types block) rest

end

def functionValueTypes (function : CoreFunction) : List (ValueId × Ty) :=
  let parameters :=
    function.parameters.foldl (fun types parameter => (parameter.value, parameter.ty) :: types) []
  let captures :=
    function.captures.foldl (fun types capture => (capture.value, capture.ty) :: types) parameters
  let named :=
    function.recursive.toList.foldl
      (fun types recursive => (recursive.value, recursive.ty) :: types) captures
  collectBlockValueTypes named function.body

/-- What an accepting check contributes to the findings: nothing. -/
def report (result : Except BuildError Unit) : List BuildError :=
  match result with
  | .ok _ => []
  | .error error => [error]

/-- The span of a parameter, or of the function. -/
def parameterSpan (function : CoreFunction) (index : ℕ) : Option Span :=
  (function.parameters[index]?.bind (·.source)).orElse fun _ => function.source

/-- Closures that can be called without their captures: bound in module
initialization, and capturing only such closures. -/
def staticFunctionBindings (target : CoreModule) : List (BindingId × FunctionId) :=
  match target.functions[target.entrypoint]? with
  | some function => (function.body.operations.foldl step ([], [])).2
  | none => []
where
  step (state : List (ValueId × FunctionId × List BindingId) × List (BindingId × FunctionId))
      (operation : CoreOperation) :
      List (ValueId × FunctionId × List BindingId) × List (BindingId × FunctionId) :=
    match operation.kind with
    | .closure _ function captures =>
        ((operation.result, function, captures.map (·.binding)) :: state.1, state.2)
    | .bind binding value =>
        match Keyed.find value state.1 with
        | some (function, captures) =>
            if captures.all fun capture => (Keyed.find capture state.2).isSome then
              (state.1, (binding, function) :: state.2)
            else state
        | none => state
    | _ => state

structure SupportChecker where
  minimumLiteralOperands : List ValueId
  webhook : Bool
  staticFunctions : List (BindingId × FunctionId)
  live : LiveFunctions

/-- Operations whose own residual type does not stop the check of their blocks. -/
def OperationKind.hasBlocks : OperationKind → Bool
  | .block _ | .if _ _ _ | .matchList _ _ _ _ _ | .matchVariant _ _ _ => true
  | _ => false

def OperationKind.isClosure : OperationKind → Bool
  | .closure _ _ _ => true
  | _ => false

namespace SupportChecker

variable (self : SupportChecker)

def checkType (ty : Ty) (span : Option Span) : List BuildError :=
  report (Krit.checkType ty span self.webhook)

def dataCaptures (bindings : List BindingId) (span : Option Span) : List BuildError :=
  if bindings.all fun binding => (Keyed.find binding self.staticFunctions).isSome then []
  else
    [.unsupported [.text ("data captures are not supported by " ++ policyName self.webhook)] span]

/-- The checks of an operation apart from its nested blocks and its type. -/
def checkLeaf (result : ValueId) (ty : Ty) (types : List (ValueId × Ty)) (span : Option Span) :
    OperationKind → List BuildError
  | .literal (.integer value) =>
      if (i64TryFrom value).isNone && !decide (result ∈ self.minimumLiteralOperands) then
        [.unsupported
          [.text "integer literal is outside the concrete i64 WebAssembly layout"] span]
      else []
  | .literal (.boolean _) | .unit | .bind _ _ | .discard _ | .call _ _ | .exit _
  | .unary _ _ | .block _ | .if _ _ _ => []
  | .literal (.string _) =>
      if self.webhook then [] else [unsupportedLayout "String" span self.webhook]
  | .builtin builtin => report (checkBuiltin builtin ty span self.webhook)
  | .closure _ _ captures => self.dataCaptures (captures.map (·.binding)) span
  | .binary left operator _ =>
      match unsupportedBinary operator (Keyed.find left types) self.webhook with
      | some message => [.unsupported message span]
      | none => []
  | .variant _ _ =>
      if self.webhook then []
      else
        [.unsupported
          [.text "Option and Result layouts are not supported by WebAssembly policy 1"] span]
  | .list _ =>
      if self.webhook && (isHeaderList ty || isLogFieldList ty || isStringList ty) then []
      else [unsupportedLayout "List" span self.webhook]
  | .matchList _ _ _ _ _ =>
      [.unsupported [.text ("list matching is outside " ++ policyName self.webhook)] span]
  | .record _ =>
      if self.webhook && (isHttpContractType ty || isLogField ty) then []
      else [unsupportedLayout "Record" span self.webhook]
  | .field _ _ =>
      if self.webhook &&
          (isHttpContractType ty || isLogField ty || isSupportedWebhookType ty) then []
      else [unsupportedLayout "Record" span self.webhook]
  | .matchVariant _ _ _ =>
      if self.webhook then []
      else
        [.unsupported
          [.text "Option and Result matching is not supported by WebAssembly policy 1"] span]

/-- The match binders of a block: policy 1 has none. -/
def checkParameters (parameters : List BlockParameter) (span : Option Span) : List BuildError :=
  (if !self.webhook && !parameters.isEmpty then
      [.unsupported
        [.text "match block parameters are not supported by WebAssembly policy 1"] span]
    else []) ++
    parameters.flatMap fun parameter => self.checkType parameter.ty span

/-- The findings of an operation, given those of its nested blocks.  A residual
type is left to the residual pass. -/
def checkOperation (types : List (ValueId × Ty)) (span : Option Span) (result : ValueId)
    (ty : Ty) (kind : OperationKind) (nested : List BuildError) : List BuildError :=
  if containsResidual ty && !kind.hasBlocks then []
  else
    self.checkLeaf result ty types span kind ++ nested ++
      (if kind.isClosure then [] else self.checkType ty span)

mutual

def checkBlock (types : List (ValueId × Ty)) (fallback : Option Span) :
    CoreBlock → List BuildError
  | ⟨_, parameters, operations, _, ty, _, _, source⟩ =>
      let span := source.orElse fun _ => fallback
      self.checkParameters parameters span ++ self.checkType ty span ++
        checkOperations types span operations

/-- Checks a block without its match binders, which an unsupported match does
not report a second time. -/
def checkBlockBody (types : List (ValueId × Ty)) (fallback : Option Span) :
    CoreBlock → List BuildError
  | ⟨_, _, operations, _, ty, _, _, source⟩ =>
      let span := source.orElse fun _ => fallback
      self.checkType ty span ++ checkOperations types span operations

def checkOperations (types : List (ValueId × Ty)) (fallback : Option Span) :
    List CoreOperation → List BuildError
  | [] => []
  | ⟨result, ty, _, _, source, kind⟩ :: rest =>
      let span := source.orElse fun _ => fallback
      (if self.live.isDeadClosure kind then []
        else self.checkOperation types span result ty kind (checkNested types span kind)) ++
        checkOperations types fallback rest

def checkNested (types : List (ValueId × Ty)) (span : Option Span) :
    OperationKind → List BuildError
  | .block block => checkBlock types span block
  | .if _ consequent alternative =>
      checkBlock types span consequent ++ checkBlock types span alternative
  | .matchList _ empty _ _ cons =>
      checkBlockBody types span empty ++ checkBlockBody types span cons
  | .matchVariant _ _ arms => checkArms types span arms
  | _ => []

def checkArms (types : List (ValueId × Ty)) (span : Option Span) :
    List VariantArmBlock → List BuildError
  | [] => []
  | ⟨_, _, block⟩ :: rest =>
      (if self.webhook then checkBlock types span block else checkBlockBody types span block) ++
        checkArms types span rest

end

def checkFunction (function : CoreFunction) : List BuildError :=
  self.dataCaptures (function.captures.map (·.binding)) function.source ++
    (function.signature.parameters.zipIdx.flatMap fun entry =>
      self.checkType entry.1 (parameterSpan function entry.2)) ++
    (function.parameters.zipIdx.flatMap fun entry =>
      self.checkType entry.1.ty (parameterSpan function entry.2)) ++
    self.checkType function.signature.result function.source ++
    self.checkBlock (functionValueTypes function) function.source function.body

end SupportChecker

/-! ## Residual types -/

def pushResidual (ty : Ty) (span : Option Span) : List BuildError :=
  if containsResidual ty then
    [.residual [.text "WebAssembly layout requires a concrete type, found parametric `", .ty ty,
      .text "`"] span]
  else []

section Residual

variable (live : LiveFunctions)

mutual

def collectResidualBlock (fallback : Option Span) : CoreBlock → List BuildError
  | ⟨_, parameters, operations, _, ty, _, _, source⟩ =>
      let span := source.orElse fun _ => fallback
      (parameters.flatMap fun parameter => pushResidual parameter.ty span) ++
        pushResidual ty span ++ collectResidualOperations span operations

def collectResidualOperations (fallback : Option Span) : List CoreOperation → List BuildError
  | [] => []
  | ⟨_, ty, _, _, source, kind⟩ :: rest =>
      let span := source.orElse fun _ => fallback
      (if live.isDeadClosure kind then []
        else
          (if kind.isClosure then [] else pushResidual ty span) ++
            collectResidualKind span kind) ++
        collectResidualOperations fallback rest

def collectResidualKind (span : Option Span) : OperationKind → List BuildError
  | .block block => collectResidualBlock span block
  | .if _ consequent alternative =>
      collectResidualBlock span consequent ++ collectResidualBlock span alternative
  | .matchList _ empty _ _ cons =>
      collectResidualBlock span empty ++ collectResidualBlock span cons
  | .matchVariant _ _ arms => collectResidualArms span arms
  | _ => []

def collectResidualArms (span : Option Span) : List VariantArmBlock → List BuildError
  | [] => []
  | ⟨_, _, block⟩ :: rest => collectResidualBlock span block ++ collectResidualArms span rest

end

def collectResidualFunction (function : CoreFunction) : List BuildError :=
  (function.signature.parameters.zipIdx.flatMap fun entry =>
      pushResidual entry.1 (parameterSpan function entry.2)) ++
    (function.parameters.zipIdx.flatMap fun entry =>
      pushResidual entry.1.ty (parameterSpan function entry.2)) ++
    pushResidual function.signature.result function.source ++
    collectResidualBlock live function.source function.body

end Residual

/-! ## The literal whose negation is the least integer -/

mutual

def collectMinimumLiterals : CoreBlock → List ValueId
  | ⟨_, _, operations, _, _, _, _, _⟩ => collectMinimumOperations operations

def collectMinimumOperations : List CoreOperation → List ValueId
  | [] => []
  | ⟨result, _, _, _, _, kind⟩ :: rest =>
      collectMinimumKind result kind ++ collectMinimumOperations rest

def collectMinimumKind (result : ValueId) : OperationKind → List ValueId
  | .literal (.integer value) => if value = i64Max + 1 then [result] else []
  | .block block => collectMinimumLiterals block
  | .if _ consequent alternative =>
      collectMinimumLiterals consequent ++ collectMinimumLiterals alternative
  | .matchList _ empty _ _ cons => collectMinimumLiterals empty ++ collectMinimumLiterals cons
  | .matchVariant _ _ arms => collectMinimumArms arms
  | _ => []

def collectMinimumArms : List VariantArmBlock → List ValueId
  | [] => []
  | ⟨_, _, block⟩ :: rest => collectMinimumLiterals block ++ collectMinimumArms rest

end

/-- The literals `i64::MAX + 1` whose only use in live code is one negation. -/
def minimumLiteralOperands (target : CoreModule) (live : LiveFunctions) : List ValueId :=
  let functions := live.inModule target
  let uses := functions.flatMap fun function => function.body.uses
  (functions.flatMap fun function => collectMinimumLiterals function.body).filter fun value =>
    uses.filter (fun entry => entry.1 == value) == [(value, true)]

/-! ## Built-ins that stay direct calls -/

inductive RestrictedUse where
  | directCall
  | httpBearer
  | other
  deriving DecidableEq, Repr

def isSecretOption : Ty → Bool
  | .option element => decide (element = .secret)
  | _ => false

/-- An operation of live code: its result, type and kind, and its span. -/
structure LocatedOperation where
  result : ValueId
  ty : Ty
  kind : OperationKind
  span : Option Span

mutual

/-- The operations of a block at any depth, with the spans that findings use. -/
def locatedBlock (fallback : Option Span) : CoreBlock → List LocatedOperation
  | ⟨_, _, operations, _, _, _, _, source⟩ =>
      locatedOperations (source.orElse fun _ => fallback) operations

def locatedOperations (fallback : Option Span) : List CoreOperation → List LocatedOperation
  | [] => []
  | ⟨result, ty, _, _, source, kind⟩ :: rest =>
      let span := source.orElse fun _ => fallback
      ⟨result, ty, kind, span⟩ :: (locatedKind span kind ++ locatedOperations fallback rest)

def locatedKind (span : Option Span) : OperationKind → List LocatedOperation
  | .block block => locatedBlock span block
  | .if _ consequent alternative => locatedBlock span consequent ++ locatedBlock span alternative
  | .matchList _ empty _ _ cons => locatedBlock span empty ++ locatedBlock span cons
  | .matchVariant _ _ arms => locatedArms span arms
  | _ => []

def locatedArms (span : Option Span) : List VariantArmBlock → List LocatedOperation
  | [] => []
  | ⟨_, _, block⟩ :: rest => locatedBlock span block ++ locatedArms span rest

end

section RestrictedUses

variable (live : LiveFunctions) (builtins : List (ValueId × Builtin))

def callUses (callee : ValueId) (arguments : List ValueId) : List (ValueId × RestrictedUse) :=
  (callee, .directCall) ::
    arguments.zipIdx.map fun entry =>
      (entry.1,
        if Keyed.find callee builtins = some .httpRequest ∧ entry.2 = 2 then .httpBearer
        else .other)

mutual

def collectRestrictedUses : CoreBlock → List (ValueId × RestrictedUse)
  | ⟨_, _, operations, result, _, _, _, _⟩ =>
      collectRestrictedOperations operations ++ [(result, .other)]

def collectRestrictedOperations : List CoreOperation → List (ValueId × RestrictedUse)
  | [] => []
  | ⟨_, _, _, _, _, kind⟩ :: rest =>
      (if live.isDeadClosure kind then [] else collectRestrictedKind kind) ++
        collectRestrictedOperations rest

def collectRestrictedKind : OperationKind → List (ValueId × RestrictedUse)
  | .literal _ | .unit | .builtin _ => []
  | .call callee arguments => callUses builtins callee arguments
  | .variant _ payload => payload.toList.map (·, .other)
  | .list elements => elements.map (·, .other)
  | .record fields => fields.map fun field => (field.2, .other)
  | .field value _ | .bind _ value | .discard value | .exit value => [(value, .other)]
  | .block block => collectRestrictedUses block
  | .closure _ _ captures => captures.map fun capture => (capture.value, .other)
  | .if condition consequent alternative =>
      (condition, .other) ::
        (collectRestrictedUses consequent ++ collectRestrictedUses alternative)
  | .matchList subject empty _ _ cons =>
      (subject, .other) :: (collectRestrictedUses empty ++ collectRestrictedUses cons)
  | .matchVariant subject _ arms => (subject, .other) :: collectRestrictedArms arms
  | .unary _ operand => [(operand, .other)]
  | .binary left _ right => [(left, .other), (right, .other)]

def collectRestrictedArms : List VariantArmBlock → List (ValueId × RestrictedUse)
  | [] => []
  | ⟨_, _, block⟩ :: rest => collectRestrictedUses block ++ collectRestrictedArms rest

end

end RestrictedUses

/-- Built-ins other than printing are called directly, and a bearer option is
consumed directly by `http_request`. -/
def checkRestrictedUses (target : CoreModule) (live : LiveFunctions) : List BuildError :=
  let functions := live.inModule target
  let operations := functions.flatMap fun function => locatedBlock function.source function.body
  let builtins := operations.filterMap fun operation =>
    match operation.kind with
    | .builtin builtin => some (operation.result, builtin, operation.span)
    | _ => none
  let optionSecrets := operations.filterMap fun operation =>
    if isSecretOption operation.ty then some (operation.result, operation.span) else none
  let uses := functions.flatMap fun function =>
    collectRestrictedUses live (builtins.map fun entry => (entry.1, entry.2.1)) function.body
  let usesOf (value : ValueId) := (uses.filter fun entry => entry.1 == value).map Prod.snd
  (builtins.flatMap fun entry =>
      let valueUses := usesOf entry.1
      if isPrint entry.2.1 then []
      else if valueUses.isEmpty || valueUses.any (· != .directCall) then
        [.unsupported
          [.text ("built-in `" ++ entry.2.1.asStr ++
            "` must remain a direct call in the bounded webhook ABI")] entry.2.2]
      else []) ++
    optionSecrets.flatMap fun entry =>
      if usesOf entry.1 = [.httpBearer] then []
      else
        [.unsupported [.text "Option<Secret> must be consumed directly by `http_request`"]
          entry.2]

/-! ## Checking a module -/

inductive ProgramKind where
  | module
  | webhook
  | job
  | schedule
  deriving DecidableEq, Repr

structure CheckedModule where
  kind : ProgramKind
  entrypoint : FunctionId
  /-- The effects of the selected entrypoint. -/
  effects : EffectSet
  minimumLiteralOperands : List ValueId
  live : LiveFunctions

mutual

/-- The span of the first operation with an effect. -/
def firstEffectBlockSpan : CoreBlock → Option Span
  | ⟨_, _, operations, _, _, _, _, source⟩ =>
      (firstEffectOperationSpan source operations).orElse fun _ => source

def firstEffectOperationSpan (blockSource : Option Span) : List CoreOperation → Option Span
  | [] => none
  | ⟨_, _, effects, _, source, kind⟩ :: rest =>
      if effects ≠ ∅ then source.orElse fun _ => blockSource
      else (firstEffectKindSpan kind).orElse fun _ => firstEffectOperationSpan blockSource rest

def firstEffectKindSpan : OperationKind → Option Span
  | .block block => firstEffectBlockSpan block
  | .if _ consequent alternative =>
      (firstEffectBlockSpan consequent).orElse fun _ => firstEffectBlockSpan alternative
  | .matchList _ empty _ _ cons =>
      (firstEffectBlockSpan empty).orElse fun _ => firstEffectBlockSpan cons
  | .matchVariant _ _ arms => firstEffectArmSpan arms
  | _ => none

def firstEffectArmSpan : List VariantArmBlock → Option Span
  | [] => none
  | ⟨_, _, block⟩ :: rest =>
      (firstEffectBlockSpan block).orElse fun _ => firstEffectArmSpan rest

end

/-- The program kind and the function it runs. -/
def selectProgram (target : CoreModule) : Except BuildError (ProgramKind × FunctionId) :=
  match target.entrypoints.find? fun entrypoint => entrypoint.kind.isExported with
  | some entrypoint =>
      match entrypoint.kind with
      | .webhook => pure (.webhook, entrypoint.function)
      | .queueConsumer => pure (.job, entrypoint.function)
      | .scheduleHandler => pure (.schedule, entrypoint.function)
      | .moduleInit =>
          throw (.invalidCore "module initialization is not an exported entrypoint")
  | none => pure (.module, target.entrypoint)

/-- Every live construct that has no lowering for the selected kind. -/
def moduleFindings (target : CoreModule) (kind : ProgramKind) (live : LiveFunctions)
    (minimum : List ValueId) : List BuildError :=
  let webhook := decide (kind ≠ .module)
  let initial := target.functions[target.entrypoint]?
  let checker : SupportChecker := ⟨minimum, webhook, staticFunctionBindings target, live⟩
  (if webhook && !((initial.map fun function => decide (function.signature.effects = ∅)).getD
        true) then
      [.unsupported
        [.text "entrypoint components cannot contain effectful module-initialization statements"]
        (initial.bind fun function => firstEffectBlockSpan function.body)]
    else []) ++
    (live.inModule target).flatMap (collectResidualFunction live) ++
    (live.inModule target).flatMap checker.checkFunction ++
    (if webhook then checkRestrictedUses target live else [])

def checkModule (target : CoreModule) : Except (List BuildError) CheckedModule := do
  match target.verify with
  | .error error =>
      throw [⟨.invalidCore, .text "Core verification failed: " :: error.message, none⟩]
  | .ok _ => pure ()
  let (kind, entrypoint) ←
    match selectProgram target with
    | .ok selected => pure selected
    | .error error => throw [error]
  let live := LiveFunctions.compute target entrypoint
  let minimum := minimumLiteralOperands target live
  match moduleFindings target kind live minimum with
  | [] =>
      let effects :=
        (target.functions[entrypoint]?.map fun function => function.signature.effects).getD ∅
      pure ⟨kind, entrypoint, effects, minimum, live⟩
  | findings => throw (BuildError.normalize findings)

end Krit
