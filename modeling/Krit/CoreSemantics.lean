import Krit.CoreSyntax
import Krit.Operators
import Krit.Lib.Run

/-!
# Running Core

The left-to-right meaning of Core operations.  A run threads the list of events
it has caused: printed values, host calls, the value every block yields and the
value every exit returns.  Blocks are run structurally over their syntax; calls
go through a handler, and `runFunction` ties the knot with one unit of fuel for
each nested call.

Whatever the operations cannot do (use a value that was not produced, take a
field of something that is not a record, call something that is not a function)
is a `CoreFault`, never an error of the program.
-/

namespace Krit

open Interp

inductive CoreValue where
  | integer (value : ℤ)
  | boolean (value : Bool)
  | string (value : String)
  | unit
  | list (elements : List CoreValue)
  | record (fields : List (String × CoreValue))
  | variant (name : VariantName) (payload : Option CoreValue)
  | closure (function : FunctionId) (captures : List CoreValue)
  | builtin (builtin : Builtin) (ty : Ty)
  | secret (handle : ℕ)
  | transaction (handle : ℕ)
  deriving Inhabited

namespace CoreValue

mutual

/-- Functions and opaque handles can be neither compared nor encoded. -/
def isData : CoreValue → Bool
  | .integer _ | .boolean _ | .string _ | .unit => true
  | .list elements => isDataList elements
  | .record fields => isDataFields fields
  | .variant _ none => true
  | .variant _ (some payload) => isData payload
  | .closure _ _ | .builtin _ _ | .secret _ | .transaction _ => false

def isDataList : List CoreValue → Bool
  | [] => true
  | element :: rest => isData element && isDataList rest

def isDataFields : List (String × CoreValue) → Bool
  | [] => true
  | (_, value) :: rest => isData value && isDataFields rest

end

mutual

/-- Equality of data; records are compared by field name. -/
def dataEqual : CoreValue → CoreValue → Bool
  | .integer left, .integer right => left == right
  | .boolean left, .boolean right => left == right
  | .string left, .string right => left == right
  | .unit, .unit => true
  | .list left, .list right => dataEqualList left right
  | .record left, .record right =>
      left.length == right.length && dataEqualFields left right
  | .variant leftName none, .variant rightName none => decide (leftName = rightName)
  | .variant leftName (some left), .variant rightName (some right) =>
      decide (leftName = rightName) && dataEqual left right
  | _, _ => false

def dataEqualList : List CoreValue → List CoreValue → Bool
  | [], [] => true
  | left :: leftRest, right :: rightRest =>
      dataEqual left right && dataEqualList leftRest rightRest
  | _, _ => false

def dataEqualFields : List (String × CoreValue) → List (String × CoreValue) → Bool
  | [], _ => true
  | (name, left) :: rest, fields =>
      (match Keyed.find name fields with
        | some right => dataEqual left right
        | none => false) && dataEqualFields rest fields

end

mutual

/-- The JSON text of data, with object members in the order of their names. -/
def jsonText : CoreValue → Option String
  | .integer value => some (toString value)
  | .boolean value => some (if value then "true" else "false")
  | .string value => some (jsonString value)
  | .unit => some "null"
  | .list elements => (jsonTexts elements).map jsonArray
  | .record fields =>
      (jsonMembers fields).map fun members =>
        jsonObject (members.insertionSort fun left right => left.1 ≤ right.1)
  | .variant name none => some (jsonObject [(name.asStr, "null")])
  | .variant name (some payload) =>
      (jsonText payload).map fun text => jsonObject [(name.asStr, text)]
  | .closure _ _ | .builtin _ _ | .secret _ | .transaction _ => none

def jsonTexts : List CoreValue → Option (List String)
  | [] => some []
  | element :: rest => do
      let text ← jsonText element
      let texts ← jsonTexts rest
      pure (text :: texts)

def jsonMembers : List (String × CoreValue) → Option (List (String × String))
  | [] => some []
  | (name, value) :: rest => do
      let text ← jsonText value
      let members ← jsonMembers rest
      pure ((name, text) :: members)

end

end CoreValue

/-- What an operation cannot be applied to. -/
inductive CoreFault where
  | unavailable (value : ValueId)
  | operandKind
  | notRecord
  | missingField (field : String)
  | notCallable
  | arity
  | outsideFamily
  | noFunction (function : FunctionId)
  deriving DecidableEq, Repr

inductive CoreEvent where
  | print (newline : Bool) (value : CoreValue)
  | host (builtin : Builtin) (arguments : List CoreValue) (answer : CoreValue)
  | yield (block : BlockId) (ty : Ty) (value : CoreValue)
  | exit (function : FunctionId) (value : CoreValue)

/-- A failure of the program: its code, and the span of the operation. -/
structure CoreError where
  code : ErrorCode
  span : Option Span
  deriving DecidableEq, Repr

abbrev CoreRun := Run (List CoreEvent) CoreValue CoreError CoreFault

/-- The host answers a call of a host built-in, or of `json_decode`, at its
declared type, from everything that has happened so far. -/
abbrev CoreHost :=
  List CoreEvent → Builtin → Ty → List CoreValue → Except ErrorCode CoreValue

abbrev CoreEnvironment := ValueId → Option CoreValue

def CoreEnvironment.bind (environment : CoreEnvironment) :
    List ValueId → List CoreValue → CoreEnvironment
  | id :: ids, value :: values =>
      CoreEnvironment.bind (Function.update environment id (some value)) ids values
  | _, _ => environment

/-- The function being run, and the literals it uses once, in a negation. -/
structure CoreFrame where
  function : FunctionId
  negated : List ValueId

mutual

/-- The operands of a block, each with whether the use is a negation. -/
def CoreBlock.uses : CoreBlock → List (ValueId × Bool)
  | ⟨_, _, operations, result, _, _, _, _⟩ => operationsUses operations ++ [(result, false)]

def operationsUses : List CoreOperation → List (ValueId × Bool)
  | [] => []
  | ⟨_, _, _, _, _, kind⟩ :: rest => kind.uses ++ operationsUses rest

def OperationKind.uses : OperationKind → List (ValueId × Bool)
  | .literal _ | .unit | .builtin _ => []
  | .variant _ payload => payload.toList.map (·, false)
  | .list elements => elements.map (·, false)
  | .record fields => fields.map fun field => (field.2, false)
  | .field value _ | .bind _ value | .discard value | .exit value => [(value, false)]
  | .block block => block.uses
  | .closure _ _ captures => captures.map fun capture => (capture.value, false)
  | .call callee arguments => (callee, false) :: arguments.map (·, false)
  | .if condition consequent alternative =>
      (condition, false) :: (consequent.uses ++ alternative.uses)
  | .matchList subject empty _ _ cons => (subject, false) :: (empty.uses ++ cons.uses)
  | .matchVariant subject _ arms => (subject, false) :: armsUses arms
  | .unary operator operand => [(operand, decide (operator = .negate))]
  | .binary left _ right => [(left, false), (right, false)]

def armsUses : List VariantArmBlock → List (ValueId × Bool)
  | [] => []
  | ⟨_, _, block⟩ :: rest => block.uses ++ armsUses rest

end

/-- The values whose only use is one negation. -/
def CoreBlock.negated (block : CoreBlock) : List ValueId :=
  (block.uses.filter fun entry =>
    block.uses.filter (fun other => other.1 == entry.1) == [(entry.1, true)]).map Prod.fst

namespace CoreRun

def log (event : CoreEvent) : CoreRun Unit :=
  Run.modify (· ++ [event])

def read (environment : CoreEnvironment) (id : ValueId) : CoreRun CoreValue :=
  Run.ofOption (.unavailable id) (environment id)

def readAll (environment : CoreEnvironment) : List ValueId → CoreRun (List CoreValue)
  | [] => pure []
  | id :: rest => do
      let value ← read environment id
      let values ← readAll environment rest
      pure (value :: values)

def integerResult (span : Option Span) (result : Except ErrorCode ℤ) : CoreRun CoreValue :=
  match result with
  | .ok value => pure (.integer value)
  | .error code => Run.fail ⟨code, span⟩

end CoreRun

open CoreRun

/-- An integer literal outside `i64` fails, unless its only use is a negation. -/
def evalLiteral (frame : CoreFrame) (result : ValueId) (span : Option Span) :
    ValueLiteral → CoreRun CoreValue
  | .integer value =>
      if result ∈ frame.negated then pure (.integer value)
      else integerResult span (orOverflow (i64TryFrom value))
  | .boolean value => pure (.boolean value)
  | .string value => pure (.string value)

def applyUnary (operator : UnaryOperator) (span : Option Span) (operand : CoreValue) :
    CoreRun CoreValue :=
  match operator, operand with
  | .not, .boolean value => pure (.boolean !value)
  | .negate, .integer value => integerResult span (orOverflow (checkedNeg value))
  | _, _ => Run.fault .operandKind

def applyEquality (negate : Bool) (left right : CoreValue) : CoreRun CoreValue :=
  if left.isData && right.isData then pure (.boolean (left.dataEqual right != negate))
  else Run.fault .operandKind

def applyOrdering (operator : BinaryOperator) (ordering : Ordering) : CoreRun CoreValue :=
  match orderingResult operator ordering with
  | some value => pure (.boolean value)
  | none => Run.fault .operandKind

def applyBinary (operator : BinaryOperator) (span : Option Span) (left right : CoreValue) :
    CoreRun CoreValue :=
  match operator with
  | .equal => applyEquality false left right
  | .notEqual => applyEquality true left right
  | operator =>
      match left, right with
      | .integer left, .integer right =>
          match integerArithmetic operator left right with
          | some result => integerResult span result
          | none => applyOrdering operator (compareInts left right)
      | .string left, .string right =>
          if operator = .add then pure (.string (left ++ right))
          else applyOrdering operator (compareStrings left right)
      | _, _ => Run.fault .operandKind

/-- The pairs of `url_query`, from a list of name/value records. -/
def queryPairs : List CoreValue → Option (List (String × String))
  | [] => some []
  | .record fields :: rest =>
      match Keyed.find "name" fields, Keyed.find "value" fields, queryPairs rest with
      | some (.string name), some (.string value), some pairs => some ((name, value) :: pairs)
      | _, _, _ => none
  | _ :: _ => none

def applyHost (host : CoreHost) (builtin : Builtin) (ty : Ty) (span : Option Span)
    (arguments : List CoreValue) : CoreRun CoreValue := do
  let events ← Run.get
  match host events builtin ty arguments with
  | .ok answer => do
      log (.host builtin arguments answer)
      pure answer
  | .error code => Run.fail ⟨code, span⟩

def applyBuiltin (host : CoreHost) (builtin : Builtin) (ty : Ty) (span : Option Span)
    (arguments : List CoreValue) : CoreRun CoreValue :=
  match builtin, arguments with
  | .print, [value] => do
      log (.print false value)
      pure .unit
  | .println, [value] => do
      log (.print true value)
      pure .unit
  | .some, [value] => pure (.variant .some (some value))
  | .ok, [value] => pure (.variant .ok (some value))
  | .err, [value] => pure (.variant .err (some value))
  | .jsonEncode, [value] => do
      let text ← Run.ofOption .operandKind value.jsonText
      pure (.string text)
  | .intToString, [.integer value] => pure (.string (toString value))
  | .urlPathSegment, [.string text] =>
      match encodePathSegment text with
      | .ok segment => pure (.variant .ok (some (.string segment)))
      | .error error => pure (.variant .err (some (.string error.message)))
  | .urlQuery, [.list entries] => do
      let pairs ← Run.ofOption .operandKind (queryPairs entries)
      pure (.string (encodeQuery pairs))
  | .stringByteLen, [.string text] =>
      integerResult span (orOverflow (i64TryFrom (stringBytes text).length))
  | .stringIsEmpty, [.string text] => pure (.boolean (stringBytes text).isEmpty)
  | .stringContains, [.string text, .string part] =>
      pure (.boolean (stringContains text part))
  | .stringStartsWith, [.string text, .string part] =>
      pure (.boolean (stringStartsWith text part))
  | .stringEndsWith, [.string text, .string part] =>
      pure (.boolean (stringEndsWith text part))
  | .print, _ | .println, _ | .some, _ | .none, _ | .ok, _ | .err, _ | .jsonEncode, _
  | .intToString, _ | .urlPathSegment, _ | .urlQuery, _ | .stringByteLen, _
  | .stringIsEmpty, _ | .stringContains, _ | .stringStartsWith, _ | .stringEndsWith, _ =>
      Run.fault .operandKind
  | builtin, arguments => applyHost host builtin ty span arguments

/-- Runs a closure of a function with its captures on arguments. -/
abbrev CoreCall := FunctionId → List CoreValue → List CoreValue → CoreRun CoreValue

def applyCall (host : CoreHost) (call : CoreCall) (span : Option Span) (callee : CoreValue)
    (arguments : List CoreValue) : CoreRun CoreValue :=
  match callee with
  | .closure function captures => call function captures arguments
  | .builtin builtin ty => applyBuiltin host builtin ty span arguments
  | _ => Run.fault .notCallable

section Evaluation

variable (host : CoreHost) (call : CoreCall) (frame : CoreFrame)

mutual

/-- Runs a block on the values of its parameters. -/
def evalBlock (environment : CoreEnvironment) (arguments : List CoreValue) :
    CoreBlock → CoreRun CoreValue
  | ⟨id, parameters, operations, result, ty, _, _, _⟩ => do
      let environment ←
        evalOperations (environment.bind (parameters.map (·.value)) arguments) operations
      let value ← read environment result
      log (.yield id ty value)
      pure value

def evalOperations (environment : CoreEnvironment) :
    List CoreOperation → CoreRun CoreEnvironment
  | [] => pure environment
  | operation :: rest => do
      let value ← evalOperation environment operation
      evalOperations (Function.update environment operation.result (some value)) rest

def evalOperation (environment : CoreEnvironment) : CoreOperation → CoreRun CoreValue
  | ⟨result, ty, _, _, source, kind⟩ => evalKind environment result ty source kind

def evalKind (environment : CoreEnvironment) (result : ValueId) (ty : Ty)
    (span : Option Span) : OperationKind → CoreRun CoreValue
  | .literal literal => evalLiteral frame result span literal
  | .unit => pure .unit
  | .builtin builtin => pure (.builtin builtin ty)
  | .variant variant none => pure (.variant variant none)
  | .variant variant (some payload) => do
      let value ← read environment payload
      pure (.variant variant (some value))
  | .list elements => do
      let values ← readAll environment elements
      pure (.list values)
  | .record fields => do
      let values ← readAll environment (fields.map Prod.snd)
      pure (.record ((fields.map Prod.fst).zip values))
  | .field value field => do
      match ← read environment value with
      | .record fields => Run.ofOption (.missingField field) (Keyed.find field fields)
      | _ => Run.fault .notRecord
  | .block block => evalBlock environment [] block
  | .closure _ function captures => do
      let values ← readAll environment (captures.map (·.value))
      pure (.closure function values)
  | .call callee arguments => do
      let callee ← read environment callee
      let values ← readAll environment arguments
      applyCall host call span callee values
  | .if condition consequent alternative => do
      match ← read environment condition with
      | .boolean true => evalBlock environment [] consequent
      | .boolean false => evalBlock environment [] alternative
      | _ => Run.fault .operandKind
  | .matchList subject empty _ _ cons => do
      match ← read environment subject with
      | .list [] => evalBlock environment [] empty
      | .list (head :: tail) => evalBlock environment [head, .list tail] cons
      | _ => Run.fault .outsideFamily
  | .matchVariant subject family arms => do
      match ← read environment subject with
      | .variant name payload =>
          if name.family = family then evalArms environment name payload arms
          else Run.fault .outsideFamily
      | _ => Run.fault .outsideFamily
  | .unary operator operand => do
      let value ← read environment operand
      applyUnary operator span value
  | .binary left operator right => do
      let left ← read environment left
      let right ← read environment right
      applyBinary operator span left right
  | .bind _ value => do
      let _ ← read environment value
      pure .unit
  | .discard value => do
      let _ ← read environment value
      pure .unit
  | .exit value => do
      let value ← read environment value
      log (.exit frame.function value)
      Run.exit value

def evalArms (environment : CoreEnvironment) (name : VariantName)
    (payload : Option CoreValue) : List VariantArmBlock → CoreRun CoreValue
  | [] => Run.fault .outsideFamily
  | ⟨variant, _, block⟩ :: rest =>
      if variant = name then evalBlock environment payload.toList block
      else evalArms environment name payload rest

end

end Evaluation

/-- The environment in which a function body starts: its arguments, its
captures and the function itself. -/
def CoreFunction.environment (function : CoreFunction) (captures arguments : List CoreValue) :
    CoreEnvironment :=
  ((CoreEnvironment.bind (fun _ => none) (function.parameters.map (·.value)) arguments).bind
    (function.captures.map (·.value)) captures).bind
    (function.recursive.toList.map (·.value)) [.closure function.id captures]

/-- Runs a function body; an exit inside it is its result. -/
def CoreFunction.run (host : CoreHost) (call : CoreCall) (function : CoreFunction)
    (captures arguments : List CoreValue) : CoreRun CoreValue :=
  if function.parameters.length = arguments.length then
    Run.catchExit
      (evalBlock host call ⟨function.id, function.body.negated⟩
        (function.environment captures arguments) [] function.body)
  else Run.fault .arity

/-- Calls a function of the module with a bound on nested calls. -/
def CoreModule.runFunction (self : CoreModule) (host : CoreHost) : ℕ → CoreCall
  | 0, _, _, _ => Run.exhausted
  | fuel + 1, id, captures, arguments =>
      match self.functions[id]? with
      | some function => function.run host (self.runFunction host fuel) captures arguments
      | none => Run.fault (.noFunction id)

end Krit
