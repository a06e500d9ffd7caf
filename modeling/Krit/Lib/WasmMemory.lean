import Mathlib.Data.BitVec
import Mathlib.Logic.Function.Basic

/-!
# A WebAssembly machine with a memory

The part of core WebAssembly that integer code with loads and stores of bytes uses: 32-bit
words, locals, globals, one growing memory, structured control with branches, and traps.  A
trap keeps the store as it is then.  Loops have fuel for each of their rounds.
-/

namespace WasmMemory

abbrev Word := BitVec 32

def pageSize : ℕ := 65536

/-- What the functions of an instance share. -/
structure Store where
  pages : ℕ
  bytes : ℕ → UInt8
  globals : List Word

namespace Store

/-- The bytes of the memory. -/
def size (store : Store) : ℕ := store.pages * pageSize

def write (store : Store) (address : ℕ) (byte : UInt8) : Store :=
  { store with bytes := Function.update store.bytes address byte }

/-- The store with more pages, which hold zeros. -/
def grown (store : Store) (pages : ℕ) : Store :=
  { store with
    pages := store.pages + pages
    bytes := fun address => if address < store.size then store.bytes address else 0 }

end Store

inductive Operator where
  | add
  | sub
  | mul
  | and
  | shrU
  | eq
  | ltU
  | gtU
  | geU
  deriving DecidableEq, Repr

/-- The instructions.  A conditional and a block name how many values they leave. -/
inductive Instr where
  | const (value : Word)
  | operator (operator : Operator)
  | eqz
  | localGet (index : ℕ)
  | localSet (index : ℕ)
  | localTee (index : ℕ)
  | globalGet (index : ℕ)
  | globalSet (index : ℕ)
  | memorySize
  | memoryGrow
  | load8U (offset : ℕ)
  | store8 (offset : ℕ)
  | unreachable
  | cond (results : ℕ) (consequent alternative : List Instr)
  | block (results : ℕ) (body : List Instr)
  | loop (body : List Instr)
  | br (depth : ℕ)
  | brIf (depth : ℕ)

/-- Whether the memory may grow, which is for the host to say within the limit of the
memory's type. -/
structure Limits where
  maximum : ℕ
  grants : ℕ → ℕ → Bool

/-- The memory may grow by some pages. -/
def Limits.allows (limits : Limits) (pages more : ℕ) : Prop :=
  pages + more ≤ limits.maximum ∧ limits.grants pages more = true

instance (limits : Limits) (pages more : ℕ) : Decidable (limits.allows pages more) :=
  inferInstanceAs (Decidable (_ ∧ _))

structure State where
  store : Store
  locals : List Word
  stack : List Word

inductive Outcome where
  | done (state : State)
  | branch (depth : ℕ) (state : State)
  | trap (store : Store)
  | invalid
  | exhausted

def Outcome.andThen (outcome : Outcome) (next : State → Outcome) : Outcome :=
  match outcome with
  | .done state => next state
  | other => other

def word (condition : Bool) : Word := if condition then 1 else 0

def Operator.apply (left right : Word) : Operator → Word
  | .add => left + right
  | .sub => left - right
  | .mul => left * right
  | .and => left &&& right
  | .shrU => left >>> (right.toNat % 32)
  | .eq => word (left == right)
  | .ltU => word (left.ult right)
  | .gtU => word (right.ult left)
  | .geU => word (right.ule left)

def State.push (state : State) (value : Word) : State :=
  { state with stack := value :: state.stack }

/-- Goes on after a block that leaves some values: above what lay below the block. -/
def leave (results : ℕ) (rest : List Word) (inner : State) : State :=
  { inner with stack := inner.stack.take results ++ rest }

/-- What a block makes of its body. -/
def labelled (results : ℕ) (rest : List Word) : Outcome → Outcome
  | .done inner => .done (leave results rest inner)
  | .branch 0 inner => .done (leave results rest inner)
  | .branch (depth + 1) inner => .branch depth inner
  | other => other

/-- The rounds of a loop: a branch to the loop begins the next one. -/
def rounds (body : State → Outcome) (rest : List Word) : ℕ → State → Outcome
  | 0, _ => .exhausted
  | fuel + 1, state =>
      match body state with
      | .done inner => .done { inner with stack := inner.stack ++ rest }
      | .branch 0 inner => rounds body rest fuel { inner with stack := [] }
      | .branch (depth + 1) inner => .branch depth inner
      | other => other

mutual

def exec (limits : Limits) (fuel : ℕ) (state : State) : Instr → Outcome
  | .const value => .done (state.push value)
  | .operator operator =>
      match state.stack with
      | right :: left :: rest => .done { state with stack := operator.apply left right :: rest }
      | _ => .invalid
  | .eqz =>
      match state.stack with
      | value :: rest => .done { state with stack := word (value == 0) :: rest }
      | _ => .invalid
  | .localGet index =>
      match state.locals[index]? with
      | some value => .done (state.push value)
      | none => .invalid
  | .localSet index =>
      match state.stack with
      | value :: rest =>
          if index < state.locals.length then
            .done { state with locals := state.locals.set index value, stack := rest }
          else .invalid
      | _ => .invalid
  | .localTee index =>
      match state.stack with
      | value :: _ =>
          if index < state.locals.length then
            .done { state with locals := state.locals.set index value }
          else .invalid
      | _ => .invalid
  | .globalGet index =>
      match state.store.globals[index]? with
      | some value => .done (state.push value)
      | none => .invalid
  | .globalSet index =>
      match state.stack with
      | value :: rest =>
          if index < state.store.globals.length then
            .done { state with
              store := { state.store with globals := state.store.globals.set index value }
              stack := rest }
          else .invalid
      | _ => .invalid
  | .memorySize => .done (state.push (BitVec.ofNat 32 state.store.pages))
  | .memoryGrow =>
      match state.stack with
      | pages :: rest =>
          if limits.allows state.store.pages pages.toNat then
            .done { state with
              store := state.store.grown pages.toNat
              stack := BitVec.ofNat 32 state.store.pages :: rest }
          else .done { state with stack := -1 :: rest }
      | _ => .invalid
  | .load8U offset =>
      match state.stack with
      | base :: rest =>
          if base.toNat + offset < state.store.size then
            .done { state with
              stack := BitVec.ofNat 32 (state.store.bytes (base.toNat + offset)).toNat :: rest }
          else .trap state.store
      | _ => .invalid
  | .store8 offset =>
      match state.stack with
      | value :: base :: rest =>
          if base.toNat + offset < state.store.size then
            .done { state with
              store := state.store.write (base.toNat + offset) (UInt8.ofNat value.toNat)
              stack := rest }
          else .trap state.store
      | _ => .invalid
  | .unreachable => .trap state.store
  | .cond results consequent alternative =>
      match state.stack with
      | condition :: rest =>
          labelled results rest
            (if condition ≠ 0 then execAll limits fuel { state with stack := [] } consequent
              else execAll limits fuel { state with stack := [] } alternative)
      | _ => .invalid
  | .block results body =>
      labelled results state.stack (execAll limits fuel { state with stack := [] } body)
  | .loop body =>
      rounds (fun inner => execAll limits fuel inner body) state.stack fuel
        { state with stack := [] }
  | .br depth => .branch depth state
  | .brIf depth =>
      match state.stack with
      | condition :: rest =>
          if condition ≠ 0 then .branch depth { state with stack := rest }
          else .done { state with stack := rest }
      | _ => .invalid

def execAll (limits : Limits) (fuel : ℕ) (state : State) : List Instr → Outcome
  | [] => .done state
  | instruction :: rest =>
      (exec limits fuel state instruction).andThen fun next => execAll limits fuel next rest

end

/-- How a call ends. -/
inductive Call where
  | returned (store : Store) (results : List Word)
  | trapped (store : Store)
  | invalid
  | exhausted

structure Function where
  locals : ℕ
  results : ℕ
  body : List Instr

def Function.call (function : Function) (limits : Limits) (fuel : ℕ) (store : Store)
    (arguments : List Word) : Call :=
  match labelled function.results []
      (execAll limits fuel ⟨store, arguments ++ List.replicate function.locals 0, []⟩
        function.body) with
  | .done final => .returned final.store final.stack
  | .trap store => .trapped store
  | .exhausted => .exhausted
  | _ => .invalid

/-! ## Steps -/

@[simp] theorem andThen_done (state : State) (next : State → Outcome) :
    (Outcome.done state).andThen next = next state := rfl

@[simp] theorem andThen_trap (store : Store) (next : State → Outcome) :
    (Outcome.trap store).andThen next = .trap store := rfl

@[simp] theorem labelled_done (results : ℕ) (rest : List Word) (inner : State) :
    labelled results rest (.done inner) = .done (leave results rest inner) := rfl

theorem andThen_assoc (outcome : Outcome) (next last : State → Outcome) :
    (outcome.andThen next).andThen last =
      outcome.andThen fun state => (next state).andThen last := by
  cases outcome with
  | done state => rfl
  | branch depth state => rfl
  | trap store => rfl
  | invalid => rfl
  | exhausted => rfl

section Steps

attribute [local simp] exec execAll

variable {limits : Limits} {fuel : ℕ} {store : Store} {locals stack : List Word}
  {rest : List Instr}

@[simp] theorem execAll_nil (state : State) : execAll limits fuel state [] = .done state := by
  rw [execAll]

theorem execAll_append (state : State) (first second : List Instr) :
    execAll limits fuel state (first ++ second) =
      (execAll limits fuel state first).andThen fun next => execAll limits fuel next second := by
  induction first generalizing state with
  | nil =>
    rw [List.nil_append, execAll_nil]
    rfl
  | cons instruction first ih =>
    rw [List.cons_append, execAll, execAll, andThen_assoc]
    congr 1
    funext next
    exact ih next

@[simp] theorem execAll_const (value : Word) :
    execAll limits fuel ⟨store, locals, stack⟩ (.const value :: rest) =
      execAll limits fuel ⟨store, locals, value :: stack⟩ rest := by
  rw [execAll, exec]
  rfl

@[simp] theorem execAll_operator (operator : Operator) (left right : Word) :
    execAll limits fuel ⟨store, locals, right :: left :: stack⟩ (.operator operator :: rest) =
      execAll limits fuel ⟨store, locals, operator.apply left right :: stack⟩ rest := by
  rw [execAll, exec]
  rfl

@[simp] theorem execAll_eqz (value : Word) :
    execAll limits fuel ⟨store, locals, value :: stack⟩ (.eqz :: rest) =
      execAll limits fuel ⟨store, locals, word (value == 0) :: stack⟩ rest := by
  rw [execAll, exec]
  rfl

@[simp] theorem execAll_localGet (index : ℕ) :
    execAll limits fuel ⟨store, locals, stack⟩ (.localGet index :: rest) =
      match locals[index]? with
      | some value => execAll limits fuel ⟨store, locals, value :: stack⟩ rest
      | none => .invalid := by
  rw [execAll, exec]
  dsimp only
  cases locals[index]? with
  | none => rfl
  | some value => rfl

@[simp] theorem execAll_localSet (index : ℕ) (value : Word) :
    execAll limits fuel ⟨store, locals, value :: stack⟩ (.localSet index :: rest) =
      if index < locals.length then
        execAll limits fuel ⟨store, locals.set index value, stack⟩ rest
      else .invalid := by
  rw [execAll, exec]
  dsimp only
  by_cases hindex : index < locals.length
  · rw [if_pos hindex, if_pos hindex]
    rfl
  · rw [if_neg hindex, if_neg hindex]
    rfl

@[simp] theorem execAll_localTee (index : ℕ) (value : Word) :
    execAll limits fuel ⟨store, locals, value :: stack⟩ (.localTee index :: rest) =
      if index < locals.length then
        execAll limits fuel ⟨store, locals.set index value, value :: stack⟩ rest
      else .invalid := by
  rw [execAll, exec]
  dsimp only
  by_cases hindex : index < locals.length
  · rw [if_pos hindex, if_pos hindex]
    rfl
  · rw [if_neg hindex, if_neg hindex]
    rfl

@[simp] theorem execAll_globalGet (index : ℕ) :
    execAll limits fuel ⟨store, locals, stack⟩ (.globalGet index :: rest) =
      match store.globals[index]? with
      | some value => execAll limits fuel ⟨store, locals, value :: stack⟩ rest
      | none => .invalid := by
  rw [execAll, exec]
  dsimp only
  cases store.globals[index]? with
  | none => rfl
  | some value => rfl

@[simp] theorem execAll_globalSet (index : ℕ) (value : Word) :
    execAll limits fuel ⟨store, locals, value :: stack⟩ (.globalSet index :: rest) =
      if index < store.globals.length then
        execAll limits fuel
          ⟨{ store with globals := store.globals.set index value }, locals, stack⟩ rest
      else .invalid := by
  rw [execAll, exec]
  dsimp only
  by_cases hindex : index < store.globals.length
  · rw [if_pos hindex, if_pos hindex]
    rfl
  · rw [if_neg hindex, if_neg hindex]
    rfl

@[simp] theorem execAll_memorySize :
    execAll limits fuel ⟨store, locals, stack⟩ (.memorySize :: rest) =
      execAll limits fuel ⟨store, locals, BitVec.ofNat 32 store.pages :: stack⟩ rest := by
  rw [execAll, exec]
  rfl

@[simp] theorem execAll_memoryGrow (pages : Word) :
    execAll limits fuel ⟨store, locals, pages :: stack⟩ (.memoryGrow :: rest) =
      if limits.allows store.pages pages.toNat then
        execAll limits fuel
          ⟨store.grown pages.toNat, locals, BitVec.ofNat 32 store.pages :: stack⟩ rest
      else execAll limits fuel ⟨store, locals, -1 :: stack⟩ rest := by
  rw [execAll, exec]
  dsimp only
  by_cases hallowed : limits.allows store.pages pages.toNat
  · rw [if_pos hallowed, if_pos hallowed]
    rfl
  · rw [if_neg hallowed, if_neg hallowed]
    rfl

@[simp] theorem execAll_load8U (offset : ℕ) (base : Word) :
    execAll limits fuel ⟨store, locals, base :: stack⟩ (.load8U offset :: rest) =
      if base.toNat + offset < store.size then
        execAll limits fuel ⟨store, locals,
          BitVec.ofNat 32 (store.bytes (base.toNat + offset)).toNat :: stack⟩ rest
      else .trap store := by
  rw [execAll, exec]
  dsimp only
  by_cases hinside : base.toNat + offset < store.size
  · rw [if_pos hinside, if_pos hinside]
    rfl
  · rw [if_neg hinside, if_neg hinside]
    rfl

@[simp] theorem execAll_store8 (offset : ℕ) (base value : Word) :
    execAll limits fuel ⟨store, locals, value :: base :: stack⟩ (.store8 offset :: rest) =
      if base.toNat + offset < store.size then
        execAll limits fuel
          ⟨store.write (base.toNat + offset) (UInt8.ofNat value.toNat), locals, stack⟩ rest
      else .trap store := by
  rw [execAll, exec]
  dsimp only
  by_cases hinside : base.toNat + offset < store.size
  · rw [if_pos hinside, if_pos hinside]
    rfl
  · rw [if_neg hinside, if_neg hinside]
    rfl

theorem word_ne_zero (condition : Bool) : word condition ≠ 0 ↔ condition = true := by
  cases condition with
  | false => decide
  | true => decide

/-- A conditional on a comparison. -/
theorem execAll_cond (condition : Bool) (results : ℕ) (consequent alternative : List Instr) :
    execAll limits fuel ⟨store, locals, word condition :: stack⟩
        (.cond results consequent alternative :: rest) =
      (labelled results stack
        (if condition = true then execAll limits fuel ⟨store, locals, []⟩ consequent
          else execAll limits fuel ⟨store, locals, []⟩ alternative)).andThen
        fun next => execAll limits fuel next rest := by
  rw [execAll, exec]
  simp only [word_ne_zero]

/-- A check that traps when a condition holds. -/
@[simp] theorem execAll_trapIf (condition : Bool) :
    execAll limits fuel ⟨store, locals, word condition :: stack⟩
        (.cond 0 [.unreachable] [] :: rest) =
      if condition = true then .trap store
      else execAll limits fuel ⟨store, locals, stack⟩ rest := by
  rw [execAll_cond]
  cases condition with
  | true =>
    rw [if_pos rfl, if_pos rfl, execAll, exec]
    rfl
  | false =>
    rw [if_neg Bool.false_ne_true, if_neg Bool.false_ne_true, execAll_nil]
    rfl

/-- A check that traps unless a condition holds. -/
@[simp] theorem execAll_trapUnless (condition : Bool) :
    execAll limits fuel ⟨store, locals, word condition :: stack⟩
        (.cond 0 [] [.unreachable] :: rest) =
      if condition = true then execAll limits fuel ⟨store, locals, stack⟩ rest
      else .trap store := by
  rw [execAll_cond]
  cases condition with
  | true =>
    rw [if_pos rfl, if_pos rfl, execAll_nil]
    rfl
  | false =>
    rw [if_neg Bool.false_ne_true, if_neg Bool.false_ne_true, execAll, exec]
    rfl

@[simp] theorem andThen_self (outcome : Outcome) :
    (outcome.andThen fun next => .done next) = outcome := by
  cases outcome with
  | done state => rfl
  | branch depth state => rfl
  | trap store => rfl
  | invalid => rfl
  | exhausted => rfl

theorem execAll_block (results : ℕ) (body : List Instr) :
    execAll limits fuel ⟨store, locals, stack⟩ (.block results body :: rest) =
      (labelled results stack (execAll limits fuel ⟨store, locals, []⟩ body)).andThen
        fun next => execAll limits fuel next rest := by
  rw [execAll, exec]

theorem execAll_loop (body : List Instr) :
    execAll limits fuel ⟨store, locals, stack⟩ (.loop body :: rest) =
      (rounds (fun inner => execAll limits fuel inner body) stack fuel
        ⟨store, locals, []⟩).andThen fun next => execAll limits fuel next rest := by
  rw [execAll, exec]

@[simp] theorem execAll_br (depth : ℕ) (state : State) :
    execAll limits fuel state (.br depth :: rest) = .branch depth state := by
  rw [execAll, exec]
  rfl

@[simp] theorem execAll_brIf (condition : Bool) (depth : ℕ) :
    execAll limits fuel ⟨store, locals, word condition :: stack⟩ (.brIf depth :: rest) =
      if condition = true then .branch depth ⟨store, locals, stack⟩
      else execAll limits fuel ⟨store, locals, stack⟩ rest := by
  rw [execAll, exec]
  simp only [word_ne_zero]
  cases condition with
  | true => rfl
  | false => rfl

end Steps

end WasmMemory
