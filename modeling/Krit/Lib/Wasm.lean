import Krit.Lib.Run
import Mathlib.Data.BitVec

/-!
# A structured WebAssembly machine

The part of core WebAssembly that straight-line and branching integer code
uses: two integer types, locals, structured conditionals, direct and indirect
calls through one table, and traps.  Instructions are run structurally; calls
go through a handler, and `Module.invoke` ties the knot with one unit of fuel
for each nested call.

The operand stack is a list with its top first.  What validation excludes (a
missing operand, an operand of the wrong type, an index out of range) is a
`Fault`; what a valid module can do at run time is a `Trap`.
-/

namespace Wasm

open Interp

inductive ValType where
  | i32
  | i64
  deriving DecidableEq, Repr

inductive Value where
  | i32 (bits : BitVec 32)
  | i64 (bits : BitVec 64)
  deriving DecidableEq, Repr

/-- The value of a declared local before anything is stored in it. -/
def ValType.zero : ValType → Value
  | .i32 => .i32 0
  | .i64 => .i64 0

structure FuncType where
  params : List ValType
  results : List ValType
  deriving DecidableEq, Repr

inductive Numeric where
  | i64Add
  | i64Sub
  | i64Mul
  | i64DivS
  | i64RemS
  | i64Xor
  | i64And
  | i64Eq
  | i64Ne
  | i64LtS
  | i64LeS
  | i64GtS
  | i64GeS
  | i64Eqz
  | i32Eq
  | i32Ne
  | i32And
  | i32Eqz
  deriving DecidableEq, Repr

inductive Instr where
  | const (value : Value)
  | numeric (operation : Numeric)
  | localGet (index : ℕ)
  | localSet (index : ℕ)
  | drop
  /-- A conditional without operands and results. -/
  | cond (consequent alternative : List Instr)
  | ret
  | call (function : ℕ)
  | callIndirect (type : ℕ)
  | unreachable

inductive Trap where
  | unreachable
  | integerOverflow
  | integerDivisionByZero
  | tableOutOfBounds
  | badSignature
  deriving DecidableEq, Repr

inductive Fault where
  | operands
  | local (index : ℕ)
  | function (index : ℕ)
  | type (index : ℕ)
  | missing («export» : String)
  deriving DecidableEq, Repr

def bool32 (condition : Bool) : Value :=
  .i32 (if condition then 1 else 0)

/-- Signed division traps on a zero divisor and where the quotient does not fit. -/
def divS (left right : BitVec 64) : Except Trap (BitVec 64) :=
  if right = 0 then .error .integerDivisionByZero
  else if left = BitVec.intMin 64 ∧ right = -1 then .error .integerOverflow
  else .ok (left.sdiv right)

/-- Signed remainder traps on a zero divisor only. -/
def remS (left right : BitVec 64) : Except Trap (BitVec 64) :=
  if right = 0 then .error .integerDivisionByZero else .ok (left.srem right)

/-- Applies an operation to the top of the stack; `none` where the operands are
missing or of the wrong type. -/
def Numeric.apply : Numeric → List Value → Option (Except Trap Value × List Value)
  | .i64Add, .i64 right :: .i64 left :: rest => some (.ok (.i64 (left + right)), rest)
  | .i64Sub, .i64 right :: .i64 left :: rest => some (.ok (.i64 (left - right)), rest)
  | .i64Mul, .i64 right :: .i64 left :: rest => some (.ok (.i64 (left * right)), rest)
  | .i64DivS, .i64 right :: .i64 left :: rest => some ((divS left right).map .i64, rest)
  | .i64RemS, .i64 right :: .i64 left :: rest => some ((remS left right).map .i64, rest)
  | .i64Xor, .i64 right :: .i64 left :: rest => some (.ok (.i64 (left ^^^ right)), rest)
  | .i64And, .i64 right :: .i64 left :: rest => some (.ok (.i64 (left &&& right)), rest)
  | .i64Eq, .i64 right :: .i64 left :: rest => some (.ok (bool32 (left == right)), rest)
  | .i64Ne, .i64 right :: .i64 left :: rest => some (.ok (bool32 (left != right)), rest)
  | .i64LtS, .i64 right :: .i64 left :: rest => some (.ok (bool32 (left.slt right)), rest)
  | .i64LeS, .i64 right :: .i64 left :: rest => some (.ok (bool32 (left.sle right)), rest)
  | .i64GtS, .i64 right :: .i64 left :: rest => some (.ok (bool32 (right.slt left)), rest)
  | .i64GeS, .i64 right :: .i64 left :: rest => some (.ok (bool32 (right.sle left)), rest)
  | .i64Eqz, .i64 operand :: rest => some (.ok (bool32 (operand == 0)), rest)
  | .i32Eq, .i32 right :: .i32 left :: rest => some (.ok (bool32 (left == right)), rest)
  | .i32Ne, .i32 right :: .i32 left :: rest => some (.ok (bool32 (left != right)), rest)
  | .i32And, .i32 right :: .i32 left :: rest => some (.ok (.i32 (left &&& right)), rest)
  | .i32Eqz, .i32 operand :: rest => some (.ok (bool32 (operand == 0)), rest)
  | _, _ => none

structure Function where
  type : ℕ
  locals : List ValType
  body : List Instr

structure Import where
  «from» : String
  name : String
  type : ℕ
  deriving DecidableEq, Repr

/-- Functions are numbered with the imports first. -/
structure Module where
  types : List FuncType
  imports : List Import
  functions : List Function
  table : List ℕ
  exports : List (String × ℕ)

structure Frame where
  locals : List Value
  stack : List Value
  deriving DecidableEq, Repr

section Execution

variable {σ : Type}

/-- Runs over host states `σ`; an exit carries the stack of a `return`. -/
abbrev Run (σ : Type) := Interp.Run σ (List Value) Trap Fault

abbrev Invoke (σ : Type) := ℕ → List Value → Run σ (List Value)

def Module.functionType (self : Module) (index : ℕ) : Option FuncType := do
  let type ←
    match self.imports[index]? with
    | some entry => some entry.type
    | none => (self.functions[index - self.imports.length]?).map (·.type)
  self.types[type]?

/-- Passes the top of the stack as arguments and pushes the results. -/
def callFunction (invoke : Invoke σ) (type : FuncType) (function : ℕ) (frame : Frame) :
    Run σ Frame :=
  if type.params.length ≤ frame.stack.length then do
    let results ← invoke function (frame.stack.take type.params.length).reverse
    pure ⟨frame.locals, results.reverse ++ frame.stack.drop type.params.length⟩
  else Run.fault .operands

/-- The function in a table slot, which must have the expected type. -/
def Module.indirect (self : Module) (type : FuncType) (slot : BitVec 32) : Run σ ℕ :=
  match self.table[slot.toNat]? with
  | none => Run.fail .tableOutOfBounds
  | some function =>
      if self.functionType function = some type then pure function
      else Run.fail .badSignature

mutual

def exec (machine : Module) (invoke : Invoke σ) (frame : Frame) : Instr → Run σ Frame
  | .const value => pure ⟨frame.locals, value :: frame.stack⟩
  | .numeric operation =>
      match operation.apply frame.stack with
      | some (result, rest) => do
          let value ← Run.ofExcept result
          pure ⟨frame.locals, value :: rest⟩
      | none => Run.fault .operands
  | .localGet index => do
      let value ← Run.ofOption (.local index) frame.locals[index]?
      pure ⟨frame.locals, value :: frame.stack⟩
  | .localSet index =>
      match frame.stack with
      | value :: rest =>
          if index < frame.locals.length then pure ⟨frame.locals.set index value, rest⟩
          else Run.fault (.local index)
      | [] => Run.fault .operands
  | .drop =>
      match frame.stack with
      | _ :: rest => pure ⟨frame.locals, rest⟩
      | [] => Run.fault .operands
  | .cond consequent alternative =>
      match frame.stack with
      | .i32 condition :: rest => do
          let inner ←
            if condition ≠ 0 then execAll machine invoke ⟨frame.locals, []⟩ consequent
            else execAll machine invoke ⟨frame.locals, []⟩ alternative
          pure ⟨inner.locals, inner.stack ++ rest⟩
      | _ => Run.fault .operands
  | .ret => Run.exit frame.stack
  | .call function => do
      let type ← Run.ofOption (.function function) (machine.functionType function)
      callFunction invoke type function frame
  | .callIndirect index =>
      match frame.stack with
      | .i32 slot :: rest => do
          let type ← Run.ofOption (.type index) machine.types[index]?
          let function ← machine.indirect type slot
          callFunction invoke type function ⟨frame.locals, rest⟩
      | _ => Run.fault .operands
  | .unreachable => Run.fail .unreachable

def execAll (machine : Module) (invoke : Invoke σ) (frame : Frame) :
    List Instr → Run σ Frame
  | [] => pure frame
  | instruction :: rest => do
      let frame ← exec machine invoke frame instruction
      execAll machine invoke frame rest

end

attribute [local grind =] exec execAll

section Steps

variable {machine : Module} {invoke : Invoke σ} {locals stack rest : List Value}

@[simp] theorem execAll_nil (frame : Frame) :
    execAll machine invoke frame [] = pure frame := by
  simp only [execAll]

@[simp] theorem execAll_cons (frame : Frame) (instruction : Instr) (code : List Instr) :
    execAll machine invoke frame (instruction :: code) =
      exec machine invoke frame instruction >>= fun frame => execAll machine invoke frame code := by
  simp only [execAll]

theorem execAll_append (frame : Frame) (first second : List Instr) :
    execAll machine invoke frame (first ++ second) =
      execAll machine invoke frame first >>= fun frame =>
        execAll machine invoke frame second := by
  induction first generalizing frame with
  | nil => simp
  | cons instruction code ih =>
      simp only [List.cons_append, execAll_cons, Interp.Run.bind_assoc]
      congr 1
      funext next
      exact ih next

@[simp] theorem exec_const (frame : Frame) (value : Value) :
    exec machine invoke frame (.const value) = pure ⟨frame.locals, value :: frame.stack⟩ := by
  simp only [exec]

theorem exec_localGet {index : ℕ} {value : Value} (hlocal : locals[index]? = some value) :
    exec machine invoke ⟨locals, stack⟩ (.localGet index) = pure ⟨locals, value :: stack⟩ := by
  simp only [exec, hlocal, Interp.Run.ofOption_some, Interp.Run.pure_bind]

theorem exec_localSet {index : ℕ} {value : Value} (hindex : index < locals.length) :
    exec machine invoke ⟨locals, value :: stack⟩ (.localSet index) =
      pure ⟨locals.set index value, stack⟩ := by
  simp only [exec, if_pos hindex]

theorem exec_numeric (operation : Numeric) :
    exec machine invoke ⟨locals, stack⟩ (.numeric operation) =
      match operation.apply stack with
      | some (result, rest) =>
          Interp.Run.ofExcept result >>= fun value => pure ⟨locals, value :: rest⟩
      | none => Interp.Run.fault .operands := by
  simp only [exec]

theorem exec_cond_of_ne {condition : BitVec 32} {consequent alternative : List Instr}
    (hcondition : condition ≠ 0) :
    exec machine invoke ⟨locals, .i32 condition :: stack⟩ (.cond consequent alternative) =
      execAll machine invoke ⟨locals, []⟩ consequent >>= fun inner =>
        pure ⟨inner.locals, inner.stack ++ stack⟩ := by
  simp only [exec, if_pos hcondition]

theorem exec_cond_zero {consequent alternative : List Instr} :
    exec machine invoke ⟨locals, .i32 0 :: stack⟩ (.cond consequent alternative) =
      execAll machine invoke ⟨locals, []⟩ alternative >>= fun inner =>
        pure ⟨inner.locals, inner.stack ++ stack⟩ := by
  simp [exec]

theorem exec_cond_bool {condition : Bool} {consequent alternative : List Instr} :
    exec machine invoke ⟨locals, bool32 condition :: stack⟩ (.cond consequent alternative) =
      (if condition then execAll machine invoke ⟨locals, []⟩ consequent
        else execAll machine invoke ⟨locals, []⟩ alternative) >>= fun inner =>
          pure ⟨inner.locals, inner.stack ++ stack⟩ := by
  cases condition with
  | false => exact exec_cond_zero
  | true => exact exec_cond_of_ne (by decide)

/-- A direct call; its arguments were pushed in order and are the whole stack. -/
theorem exec_call {function : ℕ} {type : FuncType} {arguments : List Value}
    (htype : machine.functionType function = some type)
    (harguments : arguments.length = type.params.length) :
    exec machine invoke ⟨locals, arguments.reverse⟩ (.call function) =
      invoke function arguments >>= fun results => pure ⟨locals, results.reverse⟩ := by
  have htake : arguments.reverse.take type.params.length = arguments.reverse :=
    List.take_of_length_le (by simp [harguments])
  have hdrop : arguments.reverse.drop type.params.length = [] :=
    List.drop_eq_nil_of_le (by simp [harguments])
  simp [exec, htype, callFunction, htake, hdrop, harguments]

/-- An indirect call of a function with the expected type; its arguments were
pushed in order. -/
theorem exec_callIndirect {index function : ℕ} {slot : BitVec 32} {type : FuncType}
    {arguments : List Value} (htype : machine.types[index]? = some type)
    (htable : machine.table[slot.toNat]? = some function)
    (hfunction : machine.functionType function = some type)
    (harguments : arguments.length = type.params.length) :
    exec machine invoke ⟨locals, .i32 slot :: arguments.reverse⟩ (.callIndirect index) =
      invoke function arguments >>= fun results => pure ⟨locals, results.reverse⟩ := by
  have htake : arguments.reverse.take type.params.length = arguments.reverse :=
    List.take_of_length_le (by simp [harguments])
  have hdrop : arguments.reverse.drop type.params.length = [] :=
    List.drop_eq_nil_of_le (by simp [harguments])
  simp [exec, htype, Module.indirect, htable, hfunction, callFunction, htake, hdrop, harguments]

end Steps

/-- The results of a body: the top of its stack, or of the stack it returned. -/
def runBody (machine : Module) (invoke : Invoke σ) (function : Function)
    (type : FuncType) (arguments : List Value) : Run σ (List Value) := do
  let stack ← Run.catchExit (do
    let frame ←
      execAll machine invoke ⟨arguments ++ function.locals.map ValType.zero, []⟩ function.body
    pure frame.stack)
  if type.results.length ≤ stack.length then pure (stack.take type.results.length).reverse
  else Run.fault .operands

/-- What an import does to the host, and what it answers. -/
abbrev Host (σ : Type) := Import → List Value → Run σ (List Value)

/-- Calls a function of the module with a bound on nested calls. -/
def Module.invoke (self : Module) (host : Host σ) : ℕ → Invoke σ
  | 0, _, _ => Run.exhausted
  | fuel + 1, index, arguments =>
      match self.imports[index]? with
      | some entry => host entry arguments
      | none =>
          match self.functions[index - self.imports.length]? with
          | some function => do
              let type ← Run.ofOption (.type function.type) self.types[function.type]?
              runBody self (self.invoke host fuel) function type arguments
          | none => Run.fault (.function index)

/-- Calls an exported function. -/
def Module.callExport (self : Module) (host : Host σ) (fuel : ℕ) (name : String)
    (arguments : List Value) : Run σ (List Value) :=
  match self.exports.lookup name with
  | some index => self.invoke host fuel index arguments
  | none => Run.fault (.missing name)

end Execution

end Wasm
