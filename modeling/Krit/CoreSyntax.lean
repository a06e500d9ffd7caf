import Krit.Types

/-!
# Core modules

Core is the typed intermediate form between analysis and the WebAssembly
backend.  A module is a table of functions; a function body is a block; a block
is a list of operations, each of which defines one value, and names one value
as its result.  Values are numbered over the whole module.
-/

namespace Krit

abbrev BindingId := ℕ
abbrev FunctionId := ℕ
abbrev BlockId := ℕ
abbrev ValueId := ℕ
abbrev ParameterId := ℕ
abbrev CaptureId := ℕ
abbrev ClosureId := ℕ
abbrev MatchBindingId := ℕ

inductive EntrypointKind where
  | moduleInit
  | webhook
  | queueConsumer
  | scheduleHandler
  deriving DecidableEq, Repr

def EntrypointKind.isExported : EntrypointKind → Bool
  | .moduleInit => false
  | _ => true

structure CoreEntrypoint where
  kind : EntrypointKind
  function : FunctionId
  deriving DecidableEq, Repr

inductive BindingKind where
  | let
  | function
  | webhook
  | queueConsumer
  | scheduleHandler
  | parameter
  | match
  deriving DecidableEq, Repr

def BindingKind.asStr : BindingKind → String
  | .let => "let"
  | .function => "function"
  | .webhook => "webhook"
  | .queueConsumer => "queue"
  | .scheduleHandler => "schedule"
  | .parameter => "parameter"
  | .match => "match"

/-- The kinds that a declaration statement introduces. -/
def BindingKind.isFunction : BindingKind → Bool
  | .function | .webhook | .queueConsumer | .scheduleHandler => true
  | _ => false

structure CoreBinding where
  id : BindingId
  kind : BindingKind
  ty : Ty
  debugName : Option String
  source : Option Span
  topLevel : Bool

structure FunctionSignature where
  parameters : List Ty
  result : Ty
  effects : EffectSet
  requirements : RequirementSet

def functionType (signature : FunctionSignature) : Ty :=
  .function signature.parameters signature.result signature.effects signature.requirements

structure CoreParameter where
  id : ParameterId
  binding : BindingId
  value : ValueId
  ty : Ty
  debugName : Option String
  source : Option Span

structure CoreCapture where
  id : CaptureId
  binding : BindingId
  value : ValueId
  ty : Ty
  debugName : Option String

structure RecursiveBinding where
  binding : BindingId
  value : ValueId
  ty : Ty

structure BlockParameter where
  matchBinding : MatchBindingId
  binding : BindingId
  value : ValueId
  ty : Ty
  debugName : Option String

structure CaptureArgument where
  capture : CaptureId
  binding : BindingId
  value : ValueId
  deriving DecidableEq, Repr

mutual

structure CoreBlock where
  id : BlockId
  parameters : List BlockParameter
  operations : List CoreOperation
  result : ValueId
  ty : Ty
  effects : EffectSet
  requirements : RequirementSet
  source : Option Span

structure CoreOperation where
  result : ValueId
  ty : Ty
  effects : EffectSet
  requirements : RequirementSet
  source : Option Span
  kind : OperationKind

inductive OperationKind where
  | literal (literal : ValueLiteral)
  | unit
  | builtin (builtin : Builtin)
  | variant (variant : VariantName) (payload : Option ValueId)
  | list (elements : List ValueId)
  | record (fields : List (String × ValueId))
  | field (value : ValueId) (field : String)
  | block (block : CoreBlock)
  | closure (closure : ClosureId) (function : FunctionId) (captures : List CaptureArgument)
  | call (callee : ValueId) (arguments : List ValueId)
  | if (condition : ValueId) (consequent alternative : CoreBlock)
  | matchList (subject : ValueId) (empty : CoreBlock) (head tail : MatchBindingId)
      (cons : CoreBlock)
  | matchVariant (subject : ValueId) (family : VariantFamily) (arms : List VariantArmBlock)
  | unary (operator : UnaryOperator) (operand : ValueId)
  | binary (left : ValueId) (operator : BinaryOperator) (right : ValueId)
  | bind (binding : BindingId) (value : ValueId)
  | discard (value : ValueId)
  /-- Returns `value` from the enclosing function immediately. -/
  | exit (value : ValueId)

structure VariantArmBlock where
  variant : VariantName
  binding : Option MatchBindingId
  block : CoreBlock

end

structure CoreFunction where
  id : FunctionId
  debugName : Option String
  source : Option Span
  signature : FunctionSignature
  parameters : List CoreParameter
  captures : List CoreCapture
  recursive : Option RecursiveBinding
  body : CoreBlock

mutual

/-- The values that a block defines, with their types, in the order of the
text. -/
def CoreBlock.definitions : CoreBlock → List (ValueId × Ty)
  | ⟨_, parameters, operations, _, _, _, _, _⟩ =>
      parameters.map (fun parameter => (parameter.value, parameter.ty)) ++
        operationsDefinitions operations

def operationsDefinitions : List CoreOperation → List (ValueId × Ty)
  | [] => []
  | operation :: rest => operation.definitions ++ operationsDefinitions rest

def CoreOperation.definitions : CoreOperation → List (ValueId × Ty)
  | ⟨result, ty, _, _, _, kind⟩ => (result, ty) :: kind.definitions

def OperationKind.definitions : OperationKind → List (ValueId × Ty)
  | .block block => block.definitions
  | .if _ consequent alternative => consequent.definitions ++ alternative.definitions
  | .matchList _ empty _ _ cons => empty.definitions ++ cons.definitions
  | .matchVariant _ _ arms => armsDefinitions arms
  | _ => []

def armsDefinitions : List VariantArmBlock → List (ValueId × Ty)
  | [] => []
  | ⟨_, _, block⟩ :: rest => block.definitions ++ armsDefinitions rest

end

structure CoreModule where
  entrypoints : List CoreEntrypoint
  bindings : List CoreBinding
  functions : List CoreFunction

end Krit
