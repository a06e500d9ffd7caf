import Krit.Support
import Krit.Lib.Wasm

/-!
# The scalar compiler

Module programs lower to one WebAssembly function per Core function: integers
are `i64` locals, booleans and function values are `i32` locals, and unit values
have no local.  A function value is a table slot; the slots after the Core
functions hold one wrapper for each kind of printed argument.  Functions that
nothing live uses keep their slot and trap.

Overflow is detected after the fact on the wrapped result, and reported by a
division that cannot succeed.
-/

namespace Krit

open Result Wasm

/-- Emission fails with a diagnostic, or by indexing a table at a missing key. -/
inductive EmitFailure where
  | error (error : BuildError)
  | missingKey (table : String)

abbrev Emit := Except EmitFailure

namespace Emit

def fail {α : Type} (error : BuildError) : Emit α :=
  .error (.error error)

/-- `map_err` with `or_span`. -/
def orSpan {α : Type} (span : Option Span) : Emit α → Emit α
  | .error (.error error) => .error (.error (error.orSpan span))
  | result => result

/-- A number that has to fit an unsigned index. -/
def u32 (value : ℕ) (message : String) : Emit ℕ :=
  ensure (decide (value < 2 ^ 32)) (.error (.artifact message)) >>= fun _ => pure value

end Emit

/-! ## Layouts and signatures -/

/-- The WebAssembly type of a scalar; unit values have none. -/
def scalarLayout : Ty → Emit (Option ValType)
  | .int => pure (some .i64)
  | .bool | .function _ _ _ _ => pure (some .i32)
  | .unit => pure none
  | ty =>
      Emit.fail (.unsupported
        [.text "type `", .ty ty, .text "` has no scalar WebAssembly policy 1 layout"] none)

def scalarLayouts : List Ty → Emit (List ValType)
  | [] => pure []
  | ty :: rest => do
      let layout ← scalarLayout ty
      let layouts ← scalarLayouts rest
      pure (layout.toList ++ layouts)

def typeSignature (parameters : List Ty) (result : Ty) : Emit FuncType := do
  let params ← scalarLayouts parameters
  let layout ← scalarLayout result
  pure ⟨params, layout.toList⟩

/-- The signature of a lowered function, or of the stub of an eliminated one. -/
def functionSignature (live : LiveFunctions) (function : CoreFunction) : Emit FuncType :=
  if live.contains function.id then
    Emit.orSpan function.source
      (typeSignature function.signature.parameters function.signature.result)
  else pure ⟨[], []⟩

def scalarRank : ValType → ℕ
  | .i32 => 0
  | .i64 => 1

/-- The order of signatures in the type section. -/
def signatureBefore (left right : FuncType) : Bool :=
  decide (left.params.map scalarRank < right.params.map scalarRank) ||
    (decide (left.params = right.params) &&
      decide (left.results.map scalarRank < right.results.map scalarRank))

/-- Inserts into an ordered set. -/
def insertSignature (signature : FuncType) : List FuncType → List FuncType
  | [] => [signature]
  | other :: rest =>
      if signature = other then other :: rest
      else if signatureBefore signature other then signature :: other :: rest
      else other :: insertSignature signature rest

/-! ## Printing -/

inductive BuiltinFlavor where
  | printInt
  | printBool
  | printUnit
  | printlnInt
  | printlnBool
  | printlnUnit
  deriving DecidableEq, Repr

namespace BuiltinFlavor

/-- In the order of the source's enumeration. -/
def all : List BuiltinFlavor :=
  [.printInt, .printBool, .printUnit, .printlnInt, .printlnBool, .printlnUnit]

def fromOperation (builtin : Builtin) (ty : Ty) : Emit BuiltinFlavor :=
  match ty with
  | .function parameters _ _ _ =>
      match parameters with
      | [] =>
          Emit.fail (.unsupported [.text "stdout built-in has no argument layout"] none)
      | argument :: _ =>
          match builtin, argument with
          | .print, .int => pure .printInt
          | .print, .bool => pure .printBool
          | .print, .unit => pure .printUnit
          | .println, .int => pure .printlnInt
          | .println, .bool => pure .printlnBool
          | .println, .unit => pure .printlnUnit
          | _, _ =>
              Emit.fail (.unsupported
                [.text "stdout built-in argument has no WebAssembly policy 1 lowering"] none)
  | _ =>
      Emit.fail (.unsupported [.text "stdout built-in has a non-function layout"] none)

def signature : BuiltinFlavor → FuncType
  | .printInt | .printlnInt => ⟨[.i64], []⟩
  | .printBool | .printlnBool => ⟨[.i32], []⟩
  | .printUnit | .printlnUnit => ⟨[], []⟩

def importName : BuiltinFlavor → String
  | .printInt | .printlnInt => "write-int"
  | .printBool | .printlnBool => "write-bool"
  | .printUnit | .printlnUnit => "write-unit"

def newline : BuiltinFlavor → Bool
  | .printInt | .printBool | .printUnit => false
  | .printlnInt | .printlnBool | .printlnUnit => true

def hasValue : BuiltinFlavor → Bool
  | .printUnit | .printlnUnit => false
  | _ => true

end BuiltinFlavor

mutual

def collectBlockBuiltins : CoreBlock → Emit (List BuiltinFlavor)
  | ⟨_, _, operations, _, _, _, _, _⟩ => collectOperationBuiltins operations

def collectOperationBuiltins : List CoreOperation → Emit (List BuiltinFlavor)
  | [] => pure []
  | ⟨_, ty, _, _, source, kind⟩ :: rest => do
      let flavors ← collectKindBuiltins ty source kind
      let others ← collectOperationBuiltins rest
      pure (flavors ++ others)

def collectKindBuiltins (ty : Ty) (source : Option Span) :
    OperationKind → Emit (List BuiltinFlavor)
  | .builtin builtin => do
      let flavor ← Emit.orSpan source (BuiltinFlavor.fromOperation builtin ty)
      pure [flavor]
  | .block block => collectBlockBuiltins block
  | .if _ consequent alternative => do
      let flavors ← collectBlockBuiltins consequent
      let others ← collectBlockBuiltins alternative
      pure (flavors ++ others)
  | .matchList _ empty _ _ cons => do
      let flavors ← collectBlockBuiltins empty
      let others ← collectBlockBuiltins cons
      pure (flavors ++ others)
  | .matchVariant _ _ arms => collectArmBuiltins arms
  | _ => pure []

def collectArmBuiltins : List VariantArmBlock → Emit (List BuiltinFlavor)
  | [] => pure []
  | ⟨_, _, block⟩ :: rest => do
      let flavors ← collectBlockBuiltins block
      let others ← collectArmBuiltins rest
      pure (flavors ++ others)

end

def collectFunctionBuiltins : List CoreFunction → Emit (List BuiltinFlavor)
  | [] => pure []
  | function :: rest => do
      let flavors ← collectBlockBuiltins function.body
      let others ← collectFunctionBuiltins rest
      pure (flavors ++ others)

/-- The flavors in live code, in order and without repetition. -/
def collectBuiltinFlavors (target : CoreModule) (live : LiveFunctions) :
    Emit (List BuiltinFlavor) := do
  let flavors ← collectFunctionBuiltins (live.inModule target)
  pure (BuiltinFlavor.all.filter fun flavor => decide (flavor ∈ flavors))

/-! ## Contracts -/

structure WitFunction where
  «from» : String
  name : String
  signature : FuncType

/-- The world of a module program, as the core module sees it. -/
structure WitContract where
  imports : List WitFunction
  entryExport : String
  postEntryExport : String
  entrySignature : FuncType
  postEntrySignature : FuncType

/-- The names that the WIT tooling gives to imports and exports. -/
structure WitNames where
  stdoutModule : String
  entryExport : String
  postEntryExport : String

/-- The imported functions of the `stdout` interface. -/
def stdoutImports (names : WitNames) : List WitFunction :=
  [⟨names.stdoutModule, "write-int", ⟨[.i64, .i32], []⟩⟩,
    ⟨names.stdoutModule, "write-bool", ⟨[.i32, .i32], []⟩⟩,
    ⟨names.stdoutModule, "write-unit", ⟨[.i32], []⟩⟩]

/-- A module program lives in the world without imports, or in the one that
imports `stdout`. -/
def loadModuleContract (names : WitNames) (effects : EffectSet) : Emit WitContract :=
  if effects = ∅ then
    pure ⟨[], names.entryExport, names.postEntryExport, ⟨[], []⟩, ⟨[], []⟩⟩
  else if effects = {.ioStdout} then
    pure ⟨stdoutImports names, names.entryExport, names.postEntryExport, ⟨[], []⟩, ⟨[], []⟩⟩
  else
    Emit.fail (.artifact
      "checked module effects do not map to a WebAssembly policy 1 WIT world")

/-! ## Functions -/

structure EncodeContext where
  signatures : List FuncType
  builtinSlots : List (BuiltinFlavor × ℕ)
  minimumLiteralOperands : List ValueId
  live : LiveFunctions

/-- The index of a signature in the type section. -/
def EncodeContext.signatureIndex (self : EncodeContext) (signature : FuncType) : Emit ℕ :=
  ofOption (.missingKey "signature_indices") (self.signatures.findIdx? (· = signature))

structure FunctionContext where
  shared : EncodeContext
  locals : List (ValueId × ℕ)
  valueTypes : List (ValueId × Ty)

/-- The locals found so far, after the parameters. -/
structure LocalTable where
  locals : List (ValueId × ℕ)
  valueTypes : List (ValueId × Ty)
  declarations : List ValType

def pushLocal (parameterCount : ℕ) (table : LocalTable) (value : ValueId) (ty : Ty) :
    Emit LocalTable := do
  match ← scalarLayout ty with
  | none => pure { table with valueTypes := (value, ty) :: table.valueTypes }
  | some scalar => do
      let count ← Emit.u32 table.declarations.length "too many WebAssembly locals"
      match Keyed.find value table.locals with
      | some _ => Emit.fail (.invalidCore s!"duplicate Core value v{value}")
      | none =>
          pure ⟨(value, parameterCount + count) :: table.locals,
            (value, ty) :: table.valueTypes, table.declarations ++ [scalar]⟩

def pushParameters (parameterCount : ℕ) (table : LocalTable) :
    List BlockParameter → Emit LocalTable
  | [] => pure table
  | parameter :: rest => do
      let table ← pushLocal parameterCount table parameter.value parameter.ty
      pushParameters parameterCount table rest

section CollectLocals

variable (live : LiveFunctions) (parameterCount : ℕ)

mutual

def collectBlockLocals (table : LocalTable) : CoreBlock → Emit LocalTable
  | ⟨_, parameters, operations, _, _, _, _, _⟩ => do
      let table ← pushParameters parameterCount table parameters
      collectOperationLocals table operations

def collectOperationLocals (table : LocalTable) : List CoreOperation → Emit LocalTable
  | [] => pure table
  | ⟨result, ty, _, _, source, kind⟩ :: rest =>
      if live.isDeadClosure kind then collectOperationLocals table rest
      else do
        let table ← Emit.orSpan source (pushLocal parameterCount table result ty)
        let table ← collectKindLocals table kind
        collectOperationLocals table rest

def collectKindLocals (table : LocalTable) : OperationKind → Emit LocalTable
  | .block block => collectBlockLocals table block
  | .if _ consequent alternative => do
      let table ← collectBlockLocals table consequent
      collectBlockLocals table alternative
  | .matchList _ empty _ _ cons => do
      let table ← collectBlockLocals table empty
      collectBlockLocals table cons
  | .matchVariant _ _ arms => collectArmLocals table arms
  | _ => pure table

def collectArmLocals (table : LocalTable) : List VariantArmBlock → Emit LocalTable
  | [] => pure table
  | ⟨_, _, block⟩ :: rest => do
      let table ← collectBlockLocals table block
      collectArmLocals table rest

end

end CollectLocals

namespace FunctionContext

variable (self : FunctionContext)

def valueType (value : ValueId) : Emit Ty :=
  ofOption (.error (.invalidCore s!"missing type for v{value}"))
    (Keyed.find value self.valueTypes)

def localIndex (value : ValueId) : Emit ℕ :=
  ofOption (.error (.invalidCore s!"missing local for v{value}"))
    (Keyed.find value self.locals)

def loadValue (value : ValueId) : Emit (List Instr) := do
  let ty ← self.valueType value
  match ← scalarLayout ty with
  | some _ => do
      let index ← self.localIndex value
      pure [.localGet index]
  | none => pure []

def storeValue (value : ValueId) : Emit (List Instr) := do
  let ty ← self.valueType value
  match ← scalarLayout ty with
  | some _ => do
      let index ← self.localIndex value
      pure [.localSet index]
  | none => pure []

def loadValues : List ValueId → Emit (List Instr)
  | [] => pure []
  | value :: rest => do
      let code ← self.loadValue value
      let codes ← loadValues rest
      pure (code ++ codes)

end FunctionContext

def i64Const (value : ℤ) : Instr := .const (.i64 (BitVec.ofInt 64 value))

def i32Const (value : ℕ) : Instr := .const (.i32 (BitVec.ofNat 32 value))

/-- A table slot as an `i32` constant. -/
def slotConst (slot : ℕ) : Emit Instr := do
  ensure (decide (slot < 2 ^ 31)) (.error (.artifact "function table slot exceeds i32"))
  pure (i32Const slot)

/-- Traps with an integer overflow when the condition on the stack holds. -/
def trapIntegerOverflowIf : Instr :=
  .cond [i64Const i64Min, i64Const (-1), .numeric .i64DivS, .drop] []

/-! The checked sequences, over the code that loads and stores their operands. -/

def addCode (left right result store : List Instr) : List Instr :=
  left ++ right ++ [.numeric .i64Add] ++ store ++ left ++ result ++ [.numeric .i64Xor] ++
    right ++ result ++ [.numeric .i64Xor, .numeric .i64And, i64Const 0, .numeric .i64LtS,
      trapIntegerOverflowIf]

def subtractCode (left right result store : List Instr) : List Instr :=
  left ++ right ++ [.numeric .i64Sub] ++ store ++ left ++ right ++ [.numeric .i64Xor] ++
    left ++ result ++ [.numeric .i64Xor, .numeric .i64And, i64Const 0, .numeric .i64LtS,
      trapIntegerOverflowIf]

def multiplyCode (left right result store : List Instr) : List Instr :=
  left ++ right ++ [.numeric .i64Mul] ++ store ++ right ++ [.numeric .i64Eqz,
    .cond [] (result ++ right ++ [.numeric .i64DivS] ++ left ++
      [.numeric .i64Ne, trapIntegerOverflowIf])]

def divideCode (left right store : List Instr) : List Instr :=
  left ++ right ++ [.numeric .i64DivS] ++ store

def remainderCode (left right store : List Instr) : List Instr :=
  left ++ [i64Const i64Min, .numeric .i64Eq] ++ right ++ [i64Const (-1), .numeric .i64Eq,
    .numeric .i32And, trapIntegerOverflowIf] ++ left ++ right ++ [.numeric .i64RemS] ++ store

def negateCode (operand store : List Instr) : List Instr :=
  operand ++ [i64Const i64Min, .numeric .i64Eq, trapIntegerOverflowIf, i64Const 0] ++ operand ++
    [.numeric .i64Sub] ++ store

def comparisonCode (operation : Numeric) (left right store : List Instr) : List Instr :=
  left ++ right ++ [.numeric operation] ++ store

namespace FunctionContext

variable (self : FunctionContext)

def encodeUnary (result : ValueId) (operator : UnaryOperator) (operand : ValueId) :
    Emit (List Instr) :=
  match operator with
  | .not => do
      let load ← self.loadValue operand
      let store ← self.storeValue result
      pure (load ++ [.numeric .i32Eqz] ++ store)
  | .negate =>
      if operand ∈ self.shared.minimumLiteralOperands then do
        let store ← self.storeValue result
        pure ([i64Const i64Min] ++ store)
      else do
        let load ← self.loadValue operand
        let store ← self.storeValue result
        pure (negateCode load store)

/-- Equality compares by the layout of the left operand. -/
def encodeEquality (result left right : ValueId) (equal : Bool) : Emit (List Instr) := do
  match ← self.valueType left with
  | .int => do
      let loadLeft ← self.loadValue left
      let loadRight ← self.loadValue right
      let store ← self.storeValue result
      pure (loadLeft ++ loadRight ++ [.numeric (if equal then .i64Eq else .i64Ne)] ++ store)
  | .bool | .function _ _ _ _ => do
      let loadLeft ← self.loadValue left
      let loadRight ← self.loadValue right
      let store ← self.storeValue result
      pure (loadLeft ++ loadRight ++ [.numeric (if equal then .i32Eq else .i32Ne)] ++ store)
  | .unit => do
      let store ← self.storeValue result
      pure ([i32Const (if equal then 1 else 0)] ++ store)
  | _ =>
      Emit.fail (.unsupported
        [.text "equality operand has no WebAssembly policy 1 lowering"] none)

/-- The code of an arithmetic or ordering operator, over its loads and its store;
the other operators are encoded elsewhere. -/
def arithmeticCode (operator : BinaryOperator) (left right result store : List Instr) :
    List Instr :=
  match operator with
  | .add => addCode left right result store
  | .subtract => subtractCode left right result store
  | .multiply => multiplyCode left right result store
  | .divide => divideCode left right store
  | .remainder => remainderCode left right store
  | .less => comparisonCode .i64LtS left right store
  | .lessEqual => comparisonCode .i64LeS left right store
  | .greater => comparisonCode .i64GtS left right store
  | .greaterEqual => comparisonCode .i64GeS left right store
  | .equal | .notEqual | .and | .or => []

def encodeBinary (result left : ValueId) (operator : BinaryOperator) (right : ValueId) :
    Emit (List Instr) :=
  match operator with
  | .equal => self.encodeEquality result left right true
  | .notEqual => self.encodeEquality result left right false
  | .and | .or =>
      Emit.fail (.unsupported
        [.text "short-circuit operator was not lowered to a Core conditional"] none)
  | operator => do
      let loadLeft ← self.loadValue left
      let loadRight ← self.loadValue right
      let loadResult ← self.loadValue result
      let store ← self.storeValue result
      pure (arithmeticCode operator loadLeft loadRight loadResult store)

mutual

/-- The operations of a block; its result is loaded by whoever uses it. -/
def encodeBlock : CoreBlock → Emit (List Instr)
  | ⟨_, _, operations, _, _, _, _, _⟩ => encodeOperations operations

def encodeOperations : List CoreOperation → Emit (List Instr)
  | [] => pure []
  | ⟨result, ty, _, _, source, kind⟩ :: rest =>
      if self.shared.live.isDeadClosure kind then encodeOperations rest
      else do
        let code ← Emit.orSpan source (encodeKind result ty source kind)
        let codes ← encodeOperations rest
        pure (code ++ codes)

def encodeKind (result : ValueId) (ty : Ty) (source : Option Span) :
    OperationKind → Emit (List Instr)
  | .literal (.integer value) =>
      if result ∈ self.shared.minimumLiteralOperands then do
        let store ← self.storeValue result
        pure ([i64Const 0] ++ store)
      else do
        let value ← ofOption (.error (.unsupported
            [.text "integer literal is outside the concrete i64 WebAssembly layout"] source))
          (i64TryFrom value)
        let store ← self.storeValue result
        pure ([i64Const value] ++ store)
  | .literal (.boolean value) => do
      let store ← self.storeValue result
      pure ([i32Const (if value then 1 else 0)] ++ store)
  | .unit | .bind _ _ | .discard _ => pure []
  | .exit value => do
      let load ← self.loadValue value
      pure (load ++ [.ret])
  | .builtin builtin => do
      let flavor ← BuiltinFlavor.fromOperation builtin ty
      let slot ← ofOption (.missingKey "builtin_slots")
        (Keyed.find flavor self.shared.builtinSlots)
      let constant ← slotConst slot
      let store ← self.storeValue result
      pure ([constant] ++ store)
  | .closure _ function _ => do
      let constant ← slotConst function
      let store ← self.storeValue result
      pure ([constant] ++ store)
  | .call callee arguments => do
      match ← self.valueType callee with
      | .function parameters returnType _ _ => do
          let loads ← self.loadValues arguments
          let load ← self.loadValue callee
          let signature ← typeSignature parameters returnType
          let index ← self.shared.signatureIndex signature
          let store ← self.storeValue result
          pure (loads ++ load ++ [.callIndirect index] ++ store)
      | _ => Emit.fail (.invalidCore s!"call target v{callee} is not a function")
  | .block block => do
      let code ← encodeBlock block
      let load ← self.loadValue block.result
      let store ← self.storeValue result
      pure (code ++ load ++ store)
  | .if condition consequent alternative => do
      let load ← self.loadValue condition
      let consequentCode ← encodeBlock consequent
      let consequentLoad ← self.loadValue consequent.result
      let store ← self.storeValue result
      let alternativeCode ← encodeBlock alternative
      let alternativeLoad ← self.loadValue alternative.result
      pure (load ++ [.cond (consequentCode ++ consequentLoad ++ store)
        (alternativeCode ++ alternativeLoad ++ store)])
  | .unary operator operand => self.encodeUnary result operator operand
  | .binary left operator right => self.encodeBinary result left operator right
  | .literal (.string _) | .variant _ _ | .list _ | .record _ | .field _ _
  | .matchList _ _ _ _ _ | .matchVariant _ _ _ =>
      Emit.fail (.unsupported
        [.text "operation passed WebAssembly support checking without a lowering"] source)

end

end FunctionContext

/-- Parameters take the first locals. -/
def parameterLocals : ℕ → LocalTable → List CoreParameter → Emit (ℕ × LocalTable)
  | next, table, [] => pure (next, table)
  | next, table, parameter :: rest => do
      let table := { table with
        valueTypes := (parameter.value, parameter.ty) :: table.valueTypes }
      match ← scalarLayout parameter.ty with
      | some _ =>
          parameterLocals (next + 1)
            { table with locals := (parameter.value, next) :: table.locals } rest
      | none => parameterLocals next table rest

def recursiveLocal (parameterCount : ℕ) (table : LocalTable) (function : CoreFunction) :
    Emit LocalTable :=
  match function.recursive with
  | some recursive => pushLocal parameterCount table recursive.value recursive.ty
  | none => pure table

/-- A function that names itself starts by storing its own slot. -/
def recursiveCode (context : FunctionContext) (function : CoreFunction) : Emit (List Instr) :=
  match function.recursive with
  | some recursive => do
      let constant ← slotConst function.id
      let store ← context.storeValue recursive.value
      pure ([constant] ++ store)
  | none => pure []

def encodeFunction (shared : EncodeContext) (type : ℕ) (function : CoreFunction) :
    Emit Wasm.Function := do
  let (parameterCount, table) ← parameterLocals 0 ⟨[], [], []⟩ function.parameters
  let table ← recursiveLocal parameterCount table function
  let table ← collectBlockLocals shared.live parameterCount table function.body
  let context : FunctionContext := ⟨shared, table.locals, table.valueTypes⟩
  let start ← recursiveCode context function
  let code ← context.encodeBlock function.body
  let load ← context.loadValue function.body.result
  pure ⟨type, table.declarations, start ++ code ++ load⟩

/-- The body of an eliminated function. -/
def eliminatedFunction (type : ℕ) : Wasm.Function :=
  ⟨type, [], [.unreachable]⟩

def encodeBuiltinWrapper (contract : WitContract) (type : ℕ) (flavor : BuiltinFlavor) :
    Emit Wasm.Function := do
  let index ← ofOption (.error (.artifact "stdout WIT import is missing"))
    (contract.imports.findIdx? (·.name = flavor.importName))
  pure ⟨type, [],
    (if flavor.hasValue then [.localGet 0] else []) ++
      [i32Const (if flavor.newline then 1 else 0), .call index]⟩

/-! ## Modules -/

def functionSignatures (live : LiveFunctions) : List CoreFunction → Emit (List FuncType)
  | [] => pure []
  | function :: rest => do
      let signature ← functionSignature live function
      let signatures ← functionSignatures live rest
      pure (signature :: signatures)

def encodeImports (shared : EncodeContext) : List WitFunction → Emit (List Wasm.Import)
  | [] => pure []
  | function :: rest => do
      let type ← shared.signatureIndex function.signature
      let imports ← encodeImports shared rest
      pure (⟨function.from, function.name, type⟩ :: imports)

def encodeFunctions (shared : EncodeContext) : List CoreFunction → Emit (List Wasm.Function)
  | [] => pure []
  | function :: rest => do
      let signature ← functionSignature shared.live function
      let type ← shared.signatureIndex signature
      let encoded ←
        if shared.live.contains function.id then
          Emit.orSpan function.source (encodeFunction shared type function)
        else pure (eliminatedFunction type)
      let functions ← encodeFunctions shared rest
      pure (encoded :: functions)

def encodeWrappers (shared : EncodeContext) (contract : WitContract) :
    List BuiltinFlavor → Emit (List Wasm.Function)
  | [] => pure []
  | flavor :: rest => do
      let type ← shared.signatureIndex flavor.signature
      let encoded ← encodeBuiltinWrapper contract type flavor
      let wrappers ← encodeWrappers shared contract rest
      pure (encoded :: wrappers)

/-- Every signature that the module declares. -/
def moduleSignatures (contract : WitContract) (functions : List FuncType)
    (flavors : List BuiltinFlavor) : List FuncType :=
  (contract.imports.map (·.signature) ++ functions ++ flavors.map BuiltinFlavor.signature ++
    [contract.entrySignature, contract.postEntrySignature]).foldl
      (fun signatures signature => insertSignature signature signatures) []

/-- The core module of a module program. -/
def encodeCore (target : CoreModule) (entrypoint : FunctionId) (contract : WitContract)
    (minimumLiteralOperands : List ValueId) (live : LiveFunctions) : Emit Wasm.Module := do
  let flavors ← collectBuiltinFlavors target live
  let base ← Emit.u32 target.functions.length "too many Core functions"
  let signatures ← functionSignatures live target.functions
  let shared : EncodeContext :=
    ⟨moduleSignatures contract signatures flavors,
      flavors.zipIdx.map fun entry => (entry.1, base + entry.2), minimumLiteralOperands, live⟩
  let imports ← encodeImports shared contract.imports
  let tableSize ← Emit.u32 (target.functions.length + flavors.length)
    "WebAssembly function table is too large"
  let functions ← encodeFunctions shared target.functions
  let wrappers ← encodeWrappers shared contract flavors
  let post ← shared.signatureIndex contract.postEntrySignature
  pure
    { types := shared.signatures
      imports := imports
      functions := functions ++ wrappers ++ [⟨post, [], []⟩]
      table := (List.range tableSize).map fun slot => imports.length + slot
      exports :=
        [(contract.entryExport, imports.length + entrypoint),
          (contract.postEntryExport, imports.length + tableSize)] }

end Krit
