import Krit.ScalarSimulation

/-!
# The code of a function body

The simulation of a function body, by induction over its blocks: values that are
available stay stored, because every value has its own local and is defined
once.  A closure over an eliminated function is made by the Core run only; its
value has no local, and no code uses it.
-/

namespace Krit

open Interp Result Wasm CoreRun

theorem Emit.orSpan_eq_ok {α : Type} {span : Option Span} {result : Emit α} {value : α} :
    Emit.orSpan span result = .ok value ↔ result = .ok value := by
  cases result with
  | ok other => simp [Emit.orSpan]
  | error failure => cases failure <;> simp [Emit.orSpan]

section Body

variable {target : CoreModule} {verifier : Verifier} {context : FunctionContext}
variable {frame : CoreFrame} {machine : Wasm.Module} {importCount size : ℕ} {host : CoreHost}
variable {call : CoreCall} {invoke : Invoke (List (Bool × CoreValue))}
variable {leftLimit rightLimit : Prop} {exits : CoreValue → List Wasm.Value → Prop}
variable {exit : Option Ty}

theorem CoreBlock.Code.result_notMinimum {block : CoreBlock}
    (hfacts : block.Code verifier context frame) :
    block.result ∉ context.shared.minimumLiteralOperands := by
  obtain ⟨_, _, _, result, _, _, _, _⟩ := block
  exact hfacts.uses (result, false) (by simp [CoreBlock.uses]) rfl

/-- Only a literal can be the literal whose negation is the least integer. -/
theorem CodeFacts.result_notMinimum {definitions : List (ValueId × Ty)} {dead : List ValueId}
    {uses : List (ValueId × Bool)} {operations : List CoreOperation} {operation : CoreOperation}
    (hfacts : CodeFacts verifier context frame definitions dead uses (operation :: operations))
    (hkind : operation.kind ≠ .literal (.integer (i64Max + 1))) :
    operation.result ∉ context.shared.minimumLiteralOperands :=
  fun hmem => hkind (hfacts.minimum operation List.mem_cons_self hmem).1

/-- The type of a block's result is the block's, up to records. -/
theorem verifyBlock_result {block : CoreBlock} {incoming : List ValueId}
    {bindings : List (BindingId × ValueId)}
    (hverify : verifier.verifyBlock incoming bindings exit block = .ok ()) :
    ∃ ty, Keyed.find block.result verifier.valueTypes = some ty ∧
      ty.outline = block.ty.outline := by
  obtain ⟨_, _, _, _, _, _, _, _⟩ := block
  simp only [Verifier.verifyBlock, bind_eq_ok, Verifier.expectValueType_eq_ok] at hverify
  obtain ⟨_, -, _, -, _, -, _, ⟨actual, hactual, hequivalent⟩, -⟩ := hverify
  exact ⟨actual, hactual, Ty.typeEquivalent_outline hequivalent⟩

/-- The end of a list of operations. -/
def OperationsDone (target : CoreModule) (verifier : Verifier) (context : FunctionContext)
    (available written : List ValueId) (locals : List Wasm.Value) (environment : CoreEnvironment)
    (after : Frame) : Prop :=
  after.stack = [] ∧
    EnvironmentStored target verifier context environment available after.locals ∧
    Unchanged context written locals after.locals

/-- What an exit leaves on the stack. -/
def ExitsRepresented (target : CoreModule) (context : FunctionContext) (exit : Option Ty)
    (exits : CoreValue → List Wasm.Value → Prop) : Prop :=
  ∀ ty value words, exit = some ty →
    Represents target context.shared.live context.shared.builtinSlots ty value words →
      exits value words

/-- A closure over an eliminated function is a value that no code knows. -/
theorem deadClosure_held (host : CoreHost) (call : CoreCall) {kind : OperationKind}
    {environment : CoreEnvironment} {available : List ValueId}
    {bindings : List (BindingId × ValueId)} {result : ValueId} {ty : Ty} {effects : EffectSet}
    {requirements : RequirementSet} {source : Option Span} {locals : List Wasm.Value}
    (hfacts : CodeFacts verifier context frame ((result, ty) :: kind.definitions)
      (kind.deadResults context.shared.live) kind.uses
      (⟨result, ty, effects, requirements, source, kind⟩ :: kind.nested))
    (hdead : context.shared.live.isDeadClosure kind = true)
    (hverify : verifier.verifyKind available bindings exit result ty effects kind = .ok ())
    (hstored : EnvironmentStored target verifier context environment available locals)
    (hunknown : ∀ id, id = result → Keyed.find id context.valueTypes = none) :
    ∃ value, evalKind host call frame environment result ty source kind = pure value ∧
      Held target verifier context locals result value := by
  cases kind <;> simp only [LiveFunctions.isDeadClosure, reduceCtorEq] at hdead
  case closure closure id captures =>
    simp only [Verifier.verifyKind, bind_eq_ok, Verifier.expectType_eq_ok, ensure_eq_ok,
      beq_iff_eq, forEach_eq_ok] at hverify
    obtain ⟨closed, hclosed, _, hequivalent, _, hlength, _, hcaptures, -⟩ := hverify
    obtain ⟨values, hvalues, -⟩ := hstored.captures hlength hcaptures
    have hfind : Keyed.find result verifier.valueTypes = some ty :=
      hfacts.table (result, ty) List.mem_cons_self
    have hminimum : result ∉ context.shared.minimumLiteralOperands := by
      intro hmem
      have hliteral := (hfacts.minimum _ List.mem_cons_self hmem).1
      simp at hliteral
    refine ⟨.closure id values, by simp [evalKind, hvalues], ⟨?_, ?_⟩⟩
    · rw [Stored, if_neg hminimum]
      intro actual hactual
      rw [hunknown result rfl] at hactual
      cases hactual
    · intro hunit
      rw [hfind, Option.some.injEq] at hunit
      subst hunit
      have houtline := Ty.typeEquivalent_outline hequivalent
      simp [functionType, Ty.outline] at houtline

/-! ## Obligations -/

section Obligations

variable (target verifier context frame machine size host call invoke leftLimit rightLimit exits
  exit)

/-- The code of a verified block, entered with the available values stored,
simulates the block. -/
def BlockSimulates (block : CoreBlock) : Prop :=
  ∀ ⦃environment : CoreEnvironment⦄ ⦃incoming : List ValueId⦄
    ⦃bindings : List (BindingId × ValueId)⦄ ⦃locals : List Wasm.Value⦄ ⦃code : List Instr⦄,
  block.Code verifier context frame → block.parameterless = true →
    verifier.verifyBlock incoming bindings exit block = .ok () →
      context.encodeBlock block = .ok code →
        EnvironmentStored target verifier context environment incoming locals →
          locals.length = size →
            (∀ id ∈ incoming, id ∉ block.definitions.map Prod.fst) →
              Run.Simulates (scalarSimulation exits leftLimit rightLimit)
                (Done target verifier context block.result (block.definitions.map Prod.fst)
                  locals)
                (evalBlock host call frame environment [] block)
                (execAll machine invoke ⟨locals, []⟩ code)

/-- The code of verified operations simulates them. -/
def OperationsSimulate (operations : List CoreOperation) : Prop :=
  ∀ ⦃id : BlockId⦄ ⦃blockResult : ValueId⦄ ⦃environment : CoreEnvironment⦄
    ⦃available : List ValueId⦄ ⦃bindings : List (BindingId × ValueId)⦄
    ⦃locals : List Wasm.Value⦄ ⦃code : List Instr⦄,
  CodeFacts verifier context frame (operationsDefinitions operations)
      (operationsDeadResults context.shared.live operations) (operationsUses operations)
      (operationsNested operations) →
    operationsParameterless operations = true →
      verifier.verifyOperations id blockResult available bindings exit operations = .ok () →
        context.encodeOperations operations = .ok code →
          EnvironmentStored target verifier context environment available locals →
            locals.length = size →
              (∀ id ∈ available, id ∉ (operationsDefinitions operations).map Prod.fst) →
                Run.Simulates (scalarSimulation exits leftLimit rightLimit)
                  (OperationsDone target verifier context
                    (operations.map (·.result) ++ available)
                    ((operationsDefinitions operations).map Prod.fst) locals)
                  (evalOperations host call frame environment operations)
                  (execAll machine invoke ⟨locals, []⟩ code)

/-- The code of a verified operation of the given kind simulates it. -/
def KindSimulates (kind : OperationKind) : Prop :=
  ∀ ⦃environment : CoreEnvironment⦄ ⦃available : List ValueId⦄
    ⦃bindings : List (BindingId × ValueId)⦄ ⦃result : ValueId⦄ ⦃ty : Ty⦄
    ⦃effects : EffectSet⦄ ⦃requirements : RequirementSet⦄ ⦃source : Option Span⦄
    ⦃locals : List Wasm.Value⦄ ⦃code : List Instr⦄,
  CodeFacts verifier context frame ((result, ty) :: kind.definitions)
      (kind.deadResults context.shared.live) kind.uses
      (⟨result, ty, effects, requirements, source, kind⟩ :: kind.nested) →
    kind.parameterless = true → context.shared.live.isDeadClosure kind = false →
      verifier.verifyKind available bindings exit result ty effects kind = .ok () →
        context.encodeKind result ty source kind = .ok code →
          EnvironmentStored target verifier context environment available locals →
            locals.length = size →
              (∀ id ∈ available, id ∉ result :: kind.definitions.map Prod.fst) →
                Run.Simulates (scalarSimulation exits leftLimit rightLimit)
                  (Done target verifier context result
                    (result :: kind.definitions.map Prod.fst) locals)
                  (evalKind host call frame environment result ty source kind)
                  (execAll machine invoke ⟨locals, []⟩ code)

end Obligations

/-! ## One lemma for each kind of operation -/

section Kinds

attribute [local grind =] Verifier.verifyKind FunctionContext.encodeKind OperationKind.uses
  OperationKind.definitions OperationKind.deadResults OperationKind.nested

theorem integerLiteral_kindSimulates
    (hbody : BodyContext target verifier context machine importCount size leftLimit rightLimit
      host call invoke) (number : ℤ) :
    KindSimulates target verifier context frame machine size host call invoke leftLimit
      rightLimit exits exit (.literal (.integer number)) := by
  intro environment available bindings result ty effects requirements source locals code
    hfacts _ _ hverify hencode hstored hsize _
  have hfind := hfacts.table (result, ty) List.mem_cons_self
  simp only [Verifier.verifyKind, bind_eq_ok, Verifier.expectType_eq_ok] at hverify
  obtain ⟨_, hequivalent, -⟩ := hverify
  obtain rfl := Ty.outline_eq_int.mp (Ty.typeEquivalent_outline hequivalent)
  apply integerLiteral_simulates hbody hsize hfind _ hencode
  intro hmem
  simpa using hfacts.minimum _ List.mem_cons_self hmem

theorem booleanLiteral_kindSimulates
    (hbody : BodyContext target verifier context machine importCount size leftLimit rightLimit
      host call invoke) (truth : Bool) :
    KindSimulates target verifier context frame machine size host call invoke leftLimit
      rightLimit exits exit (.literal (.boolean truth)) := by
  intro environment available bindings result ty effects requirements source locals code
    hfacts _ _ hverify hencode hstored hsize _
  have hfind := hfacts.table (result, ty) List.mem_cons_self
  simp only [Verifier.verifyKind, bind_eq_ok, Verifier.expectType_eq_ok] at hverify
  obtain ⟨_, hequivalent, -⟩ := hverify
  obtain rfl := Ty.outline_eq_bool.mp (Ty.typeEquivalent_outline hequivalent)
  exact booleanLiteral_simulates hbody hsize hfind (hfacts.result_notMinimum (by simp))
    hencode

theorem unit_kindSimulates
    (hbody : BodyContext target verifier context machine importCount size leftLimit rightLimit
      host call invoke) :
    KindSimulates target verifier context frame machine size host call invoke leftLimit
      rightLimit exits exit .unit := by
  intro environment available bindings result ty effects requirements source locals code
    hfacts _ _ hverify hencode hstored hsize _
  have hfind := hfacts.table (result, ty) List.mem_cons_self
  simp only [Verifier.verifyKind, bind_eq_ok, Verifier.expectType_eq_ok] at hverify
  obtain ⟨_, hequivalent, -⟩ := hverify
  obtain rfl := Ty.outline_eq_unit.mp (Ty.typeEquivalent_outline hequivalent)
  simp only [FunctionContext.encodeKind, pure_eq_ok] at hencode
  subst hencode
  exact unit_simulates hbody hfind (hfacts.result_notMinimum (by simp))

theorem builtin_kindSimulates
    (hbody : BodyContext target verifier context machine importCount size leftLimit rightLimit
      host call invoke) (builtin : Builtin) :
    KindSimulates target verifier context frame machine size host call invoke leftLimit
      rightLimit exits exit (.builtin builtin) := by
  intro environment available bindings result ty effects requirements source locals code
    hfacts _ _ hverify hencode hstored hsize _
  have hfind := hfacts.table (result, ty) List.mem_cons_self
  simp only [Verifier.verifyKind, bind_eq_ok] at hverify
  obtain ⟨_, hbuiltin, -⟩ := hverify
  exact builtin_simulates hbody hsize hfind (hfacts.result_notMinimum (by simp)) hbuiltin
    hencode

theorem closure_kindSimulates
    (hbody : BodyContext target verifier context machine importCount size leftLimit rightLimit
      host call invoke) (closure : ClosureId)
    (id : FunctionId) (captures : List CaptureArgument) :
    KindSimulates target verifier context frame machine size host call invoke leftLimit
      rightLimit exits exit (.closure closure id captures) := by
  intro environment available bindings result ty effects requirements source locals code
    hfacts _ hlive hverify hencode hstored hsize _
  have hfind := hfacts.table (result, ty) List.mem_cons_self
  simp only [Verifier.verifyKind, bind_eq_ok, Verifier.expectType_eq_ok, ensure_eq_ok,
    beq_iff_eq, forEach_eq_ok] at hverify
  obtain ⟨closed, hclosed, _, hequivalent, _, hlength, _, hcaptures, -⟩ := hverify
  have hfunction : target.functions[id]? = some closed := by
    rw [← hbody.verified.collected]
    exact Verifier.function_ok hclosed
  obtain ⟨values, hvalues, hheld⟩ := hstored.captures hlength hcaptures
  have houtline := Ty.typeEquivalent_outline hequivalent
  simp only [evalKind, hvalues, Run.pure_bind]
  apply closure_simulates hbody hsize hfind (hfacts.result_notMinimum (by simp)) hfunction
    _ hheld houtline hencode
  simpa [LiveFunctions.isDeadClosure] using hlive

theorem bind_kindSimulates
    (hbody : BodyContext target verifier context machine importCount size leftLimit rightLimit
      host call invoke) (binding : BindingId)
    (value : ValueId) :
    KindSimulates target verifier context frame machine size host call invoke leftLimit
      rightLimit exits exit (.bind binding value) := by
  intro environment available bindings result ty effects requirements source locals code
    hfacts _ _ hverify hencode hstored hsize _
  have hfind := hfacts.table (result, ty) List.mem_cons_self
  simp only [Verifier.verifyKind, bind_eq_ok, Verifier.requireAvailable_eq_ok,
    Verifier.expectType_eq_ok] at hverify
  obtain ⟨_, havailable, _, -, _, -, _, -, _, -, _, hequivalent, -⟩ := hverify
  obtain rfl := Ty.outline_eq_unit.mp (Ty.typeEquivalent_outline hequivalent)
  simp only [FunctionContext.encodeKind, pure_eq_ok] at hencode
  subst hencode
  obtain ⟨stored, hread, -⟩ := hstored.read_eq havailable
  simp only [evalKind, hread, Run.pure_bind]
  exact unit_simulates hbody hfind (hfacts.result_notMinimum (by simp))

theorem discard_kindSimulates
    (hbody : BodyContext target verifier context machine importCount size leftLimit rightLimit
      host call invoke) (value : ValueId) :
    KindSimulates target verifier context frame machine size host call invoke leftLimit
      rightLimit exits exit (.discard value) := by
  intro environment available bindings result ty effects requirements source locals code
    hfacts _ _ hverify hencode hstored hsize _
  have hfind := hfacts.table (result, ty) List.mem_cons_self
  simp only [Verifier.verifyKind, bind_eq_ok, Verifier.requireAvailable_eq_ok,
    Verifier.expectType_eq_ok] at hverify
  obtain ⟨_, havailable, _, hequivalent, -⟩ := hverify
  obtain rfl := Ty.outline_eq_unit.mp (Ty.typeEquivalent_outline hequivalent)
  simp only [FunctionContext.encodeKind, pure_eq_ok] at hencode
  subst hencode
  obtain ⟨stored, hread, -⟩ := hstored.read_eq havailable
  simp only [evalKind, hread, Run.pure_bind]
  exact unit_simulates hbody hfind (hfacts.result_notMinimum (by simp))

theorem exit_kindSimulates
    (hbody : BodyContext target verifier context machine importCount size leftLimit rightLimit
      host call invoke)
    (hexits : ExitsRepresented target context exit exits) (value : ValueId) :
    KindSimulates target verifier context frame machine size host call invoke leftLimit
      rightLimit exits exit (.exit value) := by
  intro environment available bindings result ty effects requirements source locals code
    hfacts _ _ hverify hencode hstored hsize _
  simp only [Verifier.verifyKind, bind_eq_ok, Verifier.requireAvailable_eq_ok,
    ofOption_eq_ok, Verifier.expectValueType_eq_ok] at hverify
  obtain ⟨_, havailable, expected, hexpected, _, ⟨actual, hactual, hequivalent⟩, -⟩ := hverify
  simp only [FunctionContext.encodeKind, bind_eq_ok, pure_eq_ok] at hencode
  obtain ⟨load, hload, rfl⟩ := hencode
  have hminimum := hfacts.uses (value, false) (by simp [OperationKind.uses]) rfl
  obtain ⟨stored, words, hread, hrepresents, hexec⟩ :=
    hstored.load hbody havailable hminimum hactual hload
  have houtline := Ty.typeEquivalent_outline hequivalent
  have hexit : execAll machine invoke ⟨locals, []⟩ (load ++ [.ret]) =
      (pure () : Wasm.Run _ Unit) >>= fun _ => Run.exit words := by
    rw [execAll_append, hexec [], Run.pure_bind, Run.pure_bind]
    simp only [execAll_cons, exec, List.append_nil]
    rfl
  simp only [evalKind, hread, Run.pure_bind]
  rw [hexit]
  apply Run.simulates_bind (log_simulates (by simp))
  intro _ _ _
  exact Run.simulates_exit (hexits expected stored words hexpected
    (hrepresents.congr houtline))

theorem call_kindSimulates
    (hbody : BodyContext target verifier context machine importCount size leftLimit rightLimit
      host call invoke) (callee : ValueId)
    (arguments : List ValueId) :
    KindSimulates target verifier context frame machine size host call invoke leftLimit
      rightLimit exits exit (.call callee arguments) := by
  intro environment available bindings result ty effects requirements source locals code
    hfacts _ _ hverify hencode hstored hsize _
  have hfind := hfacts.table (result, ty) List.mem_cons_self
  simp only [Verifier.verifyKind, bind_eq_ok, Verifier.requireAvailable_eq_ok,
    Verifier.valueType_eq_ok] at hverify
  obtain ⟨_, hcallee, calleeType, hcalleeType, hverify⟩ := hverify
  split at hverify
  · rename_i parameters returnType latent needed
    simp only [bind_eq_ok, ensure_eq_ok, beq_iff_eq, forEach_eq_ok,
      Verifier.requireAvailable_eq_ok, Verifier.expectValueType_eq_ok,
      Verifier.expectType_eq_ok] at hverify
    obtain ⟨_, hlength, _, harguments, _, hequivalent, -⟩ := hverify
    simp only [FunctionContext.encodeKind, FunctionContext.valueType, bind_eq_ok,
      ofOption_eq_ok] at hencode
    obtain ⟨actual, hactual, hencode⟩ := hencode
    obtain rfl := hbody.type_eq hcalleeType hactual
    simp only [bind_eq_ok, pure_eq_ok] at hencode
    obtain ⟨loads, hloads, load, hload, signature, hsignature, index, hindex, store, hstore,
      rfl⟩ := hencode
    have hcalleeMinimum := hfacts.uses (callee, false) (by simp [OperationKind.uses]) rfl
    obtain ⟨calleeValue, calleeWords, hcalleeRead, hcalleeWords, hcalleeExec⟩ :=
      hstored.load hbody hcallee hcalleeMinimum hcalleeType hload
    obtain ⟨values, words, hreadAll, hwords, hexecAll⟩ :=
      hstored.loadAll hbody hlength (by
        intro pair hpair
        obtain ⟨_, havailable, other, hother, hotherEquivalent⟩ := harguments pair hpair
        have hargument := (List.of_mem_zip hpair).1
        refine ⟨havailable, ?_, other, hother, Ty.typeEquivalent_outline hotherEquivalent⟩
        exact hfacts.uses (pair.1, false) (by simp [OperationKind.uses, hargument]) rfl)
        hloads
    simp only [evalKind, hcalleeRead, hreadAll, Run.pure_bind]
    rw [execAll_append, execAll_append, execAll_append, hexecAll [], Run.pure_bind,
      List.append_nil, hcalleeExec, Run.pure_bind, execAll_cons, Run.bind_assoc]
    apply simulates_bind_pure_right
      (callIndirect_simulates hbody hcalleeWords hwords hsignature hindex)
    rintro value ⟨after, stack⟩ ⟨hlocals, hresult⟩
    dsimp only at hlocals hresult
    subst hlocals
    have houtline := Ty.typeEquivalent_outline hequivalent
    obtain ⟨final, hfinal, hdone⟩ := Done.of_store hbody hsize hfind
      (hfacts.result_notMinimum (by simp)) hstore (hresult.congr houtline.symm)
    exact ⟨⟨final, []⟩, by simpa using hfinal, hdone⟩
  · simp at hverify

theorem block_kindSimulates
    (hbody : BodyContext target verifier context machine importCount size leftLimit rightLimit
      host call invoke)
    {block : CoreBlock}
    (hblockSimulates : BlockSimulates target verifier context frame machine size host call invoke
      leftLimit
      rightLimit exits exit block) :
    KindSimulates target verifier context frame machine size host call invoke leftLimit
      rightLimit exits exit (.block block) := by
  intro environment available bindings result ty effects requirements source locals code
    hfacts hparameterless _ hverify hencode hstored hsize hapart
  have hfind := hfacts.table (result, ty) List.mem_cons_self
  simp only [Verifier.verifyKind, bind_eq_ok, Verifier.expectType_eq_ok] at hverify
  obtain ⟨_, hblock, _, hequivalent, -⟩ := hverify
  simp only [FunctionContext.encodeKind, bind_eq_ok, pure_eq_ok] at hencode
  obtain ⟨blockCode, hblockCode, load, hload, store, hstore, rfl⟩ := hencode
  have hblockFacts : block.Code verifier context frame :=
    hfacts.mono (by simp [OperationKind.definitions])
      (by simp [OperationKind.deadResults]) (by simp [OperationKind.uses])
      (by simp [OperationKind.nested])
  obtain ⟨innerType, hinnerType, hinnerOutline⟩ :=
    verifyBlock_result hblock
  have houtline := Ty.typeEquivalent_outline hequivalent
  have hrun := hblockSimulates hblockFacts hparameterless hblock hblockCode hstored hsize
    (fun id hid hmem => hapart id hid (List.mem_cons_of_mem _ hmem))
  exact blockResult_simulates hbody hsize hrun hinnerType hblockFacts.result_notMinimum hfind
    (hfacts.result_notMinimum (by simp)) (hinnerOutline.trans houtline.symm) hload hstore

/-- A branch of an `if`, with the copy of its result. -/
theorem branch_simulates
    (hbody : BodyContext target verifier context machine importCount size leftLimit rightLimit
      host call invoke)
    {branch : CoreBlock} {environment : CoreEnvironment} {available : List ValueId}
    {bindings : List (BindingId × ValueId)} {result : ValueId} {ty : Ty}
    {locals : List Wasm.Value} {branchCode load store : List Instr}
    {definitions : List (ValueId × Ty)}
    (hbranchSimulates : BlockSimulates target verifier context frame machine size host call
      invoke leftLimit rightLimit exits exit branch)
    (hbranchFacts : branch.Code verifier context frame)
    (hparameterless : branch.parameterless = true)
    (hbranch : verifier.verifyBlock available bindings exit branch = .ok ())
    (hbranchCode : context.encodeBlock branch = .ok branchCode)
    (hstored : EnvironmentStored target verifier context environment available locals)
    (hsize : locals.length = size)
    (hapart : ∀ id ∈ available, id ∉ result :: definitions.map Prod.fst)
    (hdefinitions : branch.definitions ⊆ definitions)
    (hfind : Keyed.find result verifier.valueTypes = some ty)
    (hminimum : result ∉ context.shared.minimumLiteralOperands)
    (houtline : branch.ty.outline = ty.outline)
    (hload : context.loadValue branch.result = .ok load)
    (hstore : context.storeValue result = .ok store) :
    Run.Simulates (scalarSimulation exits leftLimit rightLimit)
      (Done target verifier context result (result :: definitions.map Prod.fst) locals)
      (evalBlock host call frame environment [] branch)
      (execAll machine invoke ⟨locals, []⟩ (branchCode ++ load ++ store) >>= fun after =>
        (pure ⟨after.locals, after.stack ++ []⟩ : Wasm.Run (List (Bool × CoreValue)) Frame) >>=
          fun frame => execAll machine invoke frame []) := by
  have hsubset : branch.definitions.map Prod.fst ⊆ definitions.map Prod.fst :=
    List.map_subset _ hdefinitions
  obtain ⟨innerType, hinnerType, hinnerOutline⟩ := verifyBlock_result hbranch
  have hrun := hbranchSimulates hbranchFacts hparameterless hbranch hbranchCode hstored hsize
    fun id hid hmem => hapart id hid (List.mem_cons_of_mem _ (hsubset hmem))
  apply simulates_bind_pure_right (blockResult_simulates hbody hsize hrun hinnerType
    hbranchFacts.result_notMinimum hfind hminimum (hinnerOutline.trans houtline) hload hstore)
  intro value after hdone
  exact ⟨after, by simp, hdone.mono (List.cons_subset_cons _ hsubset)⟩

theorem if_kindSimulates
    (hbody : BodyContext target verifier context machine importCount size leftLimit rightLimit
      host call invoke) (condition : ValueId)
    {consequent alternative : CoreBlock}
    (hconsequentSimulates : BlockSimulates target verifier context frame machine size host call
      invoke leftLimit rightLimit exits exit consequent)
    (halternativeSimulates : BlockSimulates target verifier context frame machine size host call
      invoke leftLimit rightLimit exits exit alternative) :
    KindSimulates target verifier context frame machine size host call invoke leftLimit
      rightLimit exits exit (.if condition consequent alternative) := by
  intro environment available bindings result ty effects requirements source locals code
    hfacts hparameterless _ hverify hencode hstored hsize hapart
  have hfind := hfacts.table (result, ty) List.mem_cons_self
  simp only [Verifier.verifyKind, bind_eq_ok, Verifier.requireAvailable_eq_ok,
    Verifier.expectValueType_eq_ok, ensure_eq_ok, Bool.and_eq_true] at hverify
  obtain ⟨_, havailable, _, ⟨actual, hactual, hcondition⟩, _, hconsequent, _, halternative,
    _, ⟨hbranches, hequivalent⟩, -⟩ := hverify
  simp only [OperationKind.parameterless, Bool.and_eq_true] at hparameterless
  simp only [FunctionContext.encodeKind, bind_eq_ok, pure_eq_ok] at hencode
  obtain ⟨load, hload, consequentCode, hconsequentCode, consequentLoad, hconsequentLoad,
    store, hstore, alternativeCode, halternativeCode, alternativeLoad, halternativeLoad,
    rfl⟩ := hencode
  have hconsequentFacts : consequent.Code verifier context frame :=
    hfacts.mono (by simp [OperationKind.definitions])
      (by simp [OperationKind.deadResults])
      (by intro use huse
          simp [OperationKind.uses, huse])
      (by intro operation hoperation
          simp [OperationKind.nested, hoperation])
  have halternativeFacts : alternative.Code verifier context frame :=
    hfacts.mono (by simp [OperationKind.definitions])
      (by simp [OperationKind.deadResults])
      (by intro use huse
          simp [OperationKind.uses, huse])
      (by intro operation hoperation
          simp [OperationKind.nested, hoperation])
  have hconsequentOutline := Ty.typeEquivalent_outline hequivalent
  have halternativeOutline := Ty.typeEquivalent_outline hbranches
  have hminimum := hfacts.uses (condition, false) (by simp [OperationKind.uses]) rfl
  obtain rfl := Ty.outline_eq_bool.mp (Ty.typeEquivalent_outline hcondition)
  obtain ⟨stored, words, hread, hrepresents, hexec⟩ :=
    hstored.load hbody havailable hminimum hactual hload
  cases stored <;> simp only [Represents] at hrepresents
  rename_i truth
  subst hrepresents
  simp only [evalKind, hread, Run.pure_bind]
  rw [execAll_append, hexec [], Run.pure_bind, List.append_nil, execAll_cons,
    exec_cond_bool, Run.bind_assoc]
  have hresultMinimum : result ∉ context.shared.minimumLiteralOperands :=
    hfacts.result_notMinimum (by simp)
  cases truth with
  | true =>
      exact branch_simulates hbody hconsequentSimulates hconsequentFacts hparameterless.1
        hconsequent hconsequentCode hstored hsize hapart (by simp [OperationKind.definitions])
        hfind hresultMinimum hconsequentOutline hconsequentLoad hstore
  | false =>
      exact branch_simulates hbody halternativeSimulates halternativeFacts hparameterless.2
        halternative halternativeCode hstored hsize hapart
        (by simp [OperationKind.definitions]) hfind hresultMinimum
        (halternativeOutline.symm.trans hconsequentOutline) halternativeLoad hstore

theorem unary_kindSimulates
    (hbody : BodyContext target verifier context machine importCount size leftLimit rightLimit
      host call invoke) (operator : UnaryOperator)
    (operand : ValueId) :
    KindSimulates target verifier context frame machine size host call invoke leftLimit
      rightLimit exits exit (.unary operator operand) := by
  intro environment available bindings result ty effects requirements source locals code
    hfacts _ _ hverify hencode hstored hsize hapart
  have hfind := hfacts.table (result, ty) List.mem_cons_self
  have hresultMinimum : result ∉ context.shared.minimumLiteralOperands :=
    hfacts.result_notMinimum (by simp)
  have hfresh : result ∉ available := fun hmem => hapart result hmem List.mem_cons_self
  simp only [Verifier.verifyKind, bind_eq_ok, Verifier.requireAvailable_eq_ok,
    Verifier.expectValueType_eq_ok, Verifier.expectType_eq_ok] at hverify
  obtain ⟨_, havailable, _, ⟨actual, hactual, hoperand⟩, _, hequivalent, -⟩ := hverify
  simp only [FunctionContext.encodeKind] at hencode
  cases operator with
  | not =>
      obtain rfl := Ty.outline_eq_bool.mp (Ty.typeEquivalent_outline hoperand)
      obtain rfl := Ty.outline_eq_bool.mp (Ty.typeEquivalent_outline hequivalent)
      have hminimum := hfacts.uses (operand, false) (by simp [OperationKind.uses]) rfl
      exact not_simulates hbody hsize hstored havailable hminimum hresultMinimum hactual
        hfind hencode
  | negate =>
      obtain rfl := Ty.outline_eq_int.mp (Ty.typeEquivalent_outline hoperand)
      obtain rfl := Ty.outline_eq_int.mp (Ty.typeEquivalent_outline hequivalent)
      exact negate_simulates hbody hsize hstored havailable hfresh hresultMinimum hactual
        hfind hencode

theorem binary_kindSimulates
    (hbody : BodyContext target verifier context machine importCount size leftLimit rightLimit
      host call invoke) (left : ValueId)
    (operator : BinaryOperator) (right : ValueId) :
    KindSimulates target verifier context frame machine size host call invoke leftLimit
      rightLimit exits exit (.binary left operator right) := by
  intro environment available bindings result ty effects requirements source locals code
    hfacts _ _ hverify hencode hstored hsize hapart
  have hfind := hfacts.table (result, ty) List.mem_cons_self
  have hresultMinimum : result ∉ context.shared.minimumLiteralOperands :=
    hfacts.result_notMinimum (by simp)
  have hfresh : result ∉ available := fun hmem => hapart result hmem List.mem_cons_self
  simp only [Verifier.verifyKind, bind_eq_ok, Verifier.requireAvailable_eq_ok] at hverify
  obtain ⟨_, hleft, _, hright, _, hbinary, -⟩ := hverify
  have hleftMinimum := hfacts.uses (left, false) (by simp [OperationKind.uses]) rfl
  have hrightMinimum := hfacts.uses (right, false) (by simp [OperationKind.uses]) rfl
  simp only [FunctionContext.encodeKind] at hencode
  exact binary_simulates hbody hsize hstored hleft hright hfresh hleftMinimum hrightMinimum
    hresultMinimum hfind hbinary hencode

end Kinds

/-! ## Lists of operations -/

section Operations

variable {result : ValueId} {ty : Ty} {effects : EffectSet} {requirements : RequirementSet}
variable {source : Option Span} {kind : OperationKind} {rest : List CoreOperation}

theorem CodeFacts.first
    (hfacts : CodeFacts verifier context frame
      (operationsDefinitions (⟨result, ty, effects, requirements, source, kind⟩ :: rest))
      (operationsDeadResults context.shared.live
        (⟨result, ty, effects, requirements, source, kind⟩ :: rest))
      (operationsUses (⟨result, ty, effects, requirements, source, kind⟩ :: rest))
      (operationsNested (⟨result, ty, effects, requirements, source, kind⟩ :: rest))) :
    CodeFacts verifier context frame ((result, ty) :: kind.definitions)
      (kind.deadResults context.shared.live) kind.uses
      (⟨result, ty, effects, requirements, source, kind⟩ :: kind.nested) :=
  hfacts.mono
    (by simp [operationsDefinitions, CoreOperation.definitions])
    (by simp [operationsDeadResults])
    (by simp [operationsUses])
    (by intro operation hoperation
        simp only [operationsNested, List.mem_cons, List.mem_append] at hoperation ⊢
        tauto)

theorem CodeFacts.remaining
    (hfacts : CodeFacts verifier context frame
      (operationsDefinitions (⟨result, ty, effects, requirements, source, kind⟩ :: rest))
      (operationsDeadResults context.shared.live
        (⟨result, ty, effects, requirements, source, kind⟩ :: rest))
      (operationsUses (⟨result, ty, effects, requirements, source, kind⟩ :: rest))
      (operationsNested (⟨result, ty, effects, requirements, source, kind⟩ :: rest))) :
    CodeFacts verifier context frame (operationsDefinitions rest)
      (operationsDeadResults context.shared.live rest) (operationsUses rest)
      (operationsNested rest) :=
  hfacts.mono
    (by simp [operationsDefinitions])
    (by simp [operationsDeadResults])
    (by simp [operationsUses])
    (by intro operation hoperation
        simp [operationsNested, hoperation])

theorem operationsDefinitions_cons_fst :
    (operationsDefinitions (⟨result, ty, effects, requirements, source, kind⟩ :: rest)).map
        Prod.fst =
      (result :: kind.definitions.map Prod.fst) ++ (operationsDefinitions rest).map Prod.fst := by
  simp [operationsDefinitions, CoreOperation.definitions]

/-- Once an operation is done, the rest runs on from the frame that holds its value. -/
theorem rest_simulates {environment : CoreEnvironment} {available : List ValueId}
    {bindings : List (BindingId × ValueId)} {locals : List Wasm.Value} {id : BlockId}
    {blockResult : ValueId} {value : CoreValue} {after : Frame} {codes : List Instr}
    (hrestSimulates : OperationsSimulate target verifier context frame machine size host call
      invoke leftLimit rightLimit exits exit rest)
    (hfacts : CodeFacts verifier context frame
      (operationsDefinitions (⟨result, ty, effects, requirements, source, kind⟩ :: rest))
      (operationsDeadResults context.shared.live
        (⟨result, ty, effects, requirements, source, kind⟩ :: rest))
      (operationsUses (⟨result, ty, effects, requirements, source, kind⟩ :: rest))
      (operationsNested (⟨result, ty, effects, requirements, source, kind⟩ :: rest)))
    (hparameterless : operationsParameterless rest = true)
    (hrest : verifier.verifyOperations id blockResult (result :: available) bindings exit rest =
      .ok ())
    (hcodes : context.encodeOperations rest = .ok codes)
    (hstored : EnvironmentStored target verifier context environment available locals)
    (hsize : locals.length = size)
    (hapart : ∀ id ∈ available, id ∉ (operationsDefinitions
      (⟨result, ty, effects, requirements, source, kind⟩ :: rest)).map Prod.fst)
    (hdone : Done target verifier context result (result :: kind.definitions.map Prod.fst) locals
      value after) :
    Run.Simulates (scalarSimulation exits leftLimit rightLimit)
      (OperationsDone target verifier context
        ((⟨result, ty, effects, requirements, source, kind⟩ :: rest :
          List CoreOperation).map (·.result) ++ available)
        ((operationsDefinitions (⟨result, ty, effects, requirements, source, kind⟩ :: rest)).map
          Prod.fst) locals)
      (evalOperations host call frame (Function.update environment result (some value)) rest)
      (execAll machine invoke after codes) := by
  obtain ⟨afterLocals, stack⟩ := after
  obtain ⟨hstack, hheld, hunchanged⟩ := hdone
  dsimp only at hstack hheld hunchanged
  subst hstack
  rw [operationsDefinitions_cons_fst] at hapart ⊢
  have hdistinct := hfacts.distinct
  rw [operationsDefinitions_cons_fst, List.nodup_append] at hdistinct
  have hrestApart : ∀ id ∈ result :: available,
      id ∉ (operationsDefinitions rest).map Prod.fst := by
    intro other hother hin
    rcases List.mem_cons.mp hother with rfl | hmem
    · exact hdistinct.2.2 other List.mem_cons_self other hin rfl
    · exact hapart other hmem (List.mem_append_right _ hin)
  have hdone : Done target verifier context result (result :: kind.definitions.map Prod.fst)
      locals value ⟨afterLocals, []⟩ := ⟨rfl, hheld, hunchanged⟩
  have hupdated := hstored.update hdone
    fun other hother hin => hapart other hother (List.mem_append_left _ hin)
  apply (hrestSimulates hfacts.remaining hparameterless hrest hcodes hupdated
    (hunchanged.length.trans hsize) hrestApart).mono
  rintro finalEnvironment final ⟨hfinalStack, hfinal, hfinalUnchanged⟩
  refine ⟨hfinalStack, hfinal.mono ?_, ?_⟩
  · intro other hother
    simp only [List.map_cons, List.cons_append, List.mem_cons, List.mem_append] at hother ⊢
    tauto
  · exact hunchanged.trans hfinalUnchanged (List.subset_append_left _ _)
      (List.subset_append_right _ _)

end Operations

mutual

theorem evalBlock_simulates
    (hbody : BodyContext target verifier context machine importCount size leftLimit rightLimit
      host call invoke)
    (hexits : ExitsRepresented target context exit exits) : (block : CoreBlock) →
    BlockSimulates target verifier context frame machine size host call invoke leftLimit
      rightLimit exits exit block
  | ⟨id, parameters, operations, result, ty, effects, requirements, source⟩ => by
      intro environment incoming bindings locals code hfacts hparameterless hverify hencode
        hstored hsize hapart
      simp only [CoreBlock.parameterless, Bool.and_eq_true, List.isEmpty_iff] at hparameterless
      obtain ⟨rfl, hoperationsParameterless⟩ := hparameterless
      simp only [Verifier.verifyBlock, bind_eq_ok, Verifier.requireAvailable_eq_ok] at hverify
      obtain ⟨inner, -, _, hoperations, _, hresult, -⟩ := hverify
      simp only [FunctionContext.encodeBlock] at hencode
      simp only [CoreBlock.definitions, List.map_nil, List.nil_append] at hapart
      have hoperationFacts : CodeFacts verifier context frame (operationsDefinitions operations)
          (operationsDeadResults context.shared.live operations) (operationsUses operations)
          (operationsNested operations) :=
        hfacts.mono (by simp [CoreBlock.definitions]) (by simp [CoreBlock.deadResults])
          (by simp [CoreBlock.uses]) (by simp [CoreBlock.nested])
      rw [← Run.bind_pure (execAll machine invoke ⟨locals, []⟩ code)]
      apply Run.simulates_bind (evalOperations_simulates hbody hexits operations
        hoperationFacts hoperationsParameterless hoperations hencode
        (by simpa [CoreEnvironment.bind] using hstored) hsize (by simpa using hapart))
      rintro finalEnvironment after ⟨hstack, hfinal, hunchanged⟩
      obtain ⟨value, hread, hheld⟩ := hfinal.read_eq hresult
      rw [hread, Run.pure_bind, ← Run.pure_bind after pure]
      apply Run.simulates_bind (log_simulates (by simp))
      rintro _ _ rfl
      apply Run.simulates_pure
      exact ⟨hstack, hheld, by simpa [CoreBlock.definitions] using hunchanged⟩

theorem evalOperations_simulates
    (hbody : BodyContext target verifier context machine importCount size leftLimit rightLimit
      host call invoke)
    (hexits : ExitsRepresented target context exit exits) : (operations : List CoreOperation) →
    OperationsSimulate target verifier context frame machine size host call invoke leftLimit
      rightLimit exits exit operations
  | [] => by
      intro id blockResult environment available bindings locals code _ _ _ hencode hstored _ _
      simp only [FunctionContext.encodeOperations, pure_eq_ok] at hencode
      subst hencode
      rw [execAll_nil]
      exact Run.simulates_pure ⟨rfl, by simpa using hstored, Unchanged.refl _⟩
  | ⟨result, ty, effects, requirements, source, kind⟩ :: rest => by
      intro id blockResult environment available bindings locals code hfacts hparameterless
        hverify hencode hstored hsize hapart
      simp only [Verifier.verifyOperations, Verifier.verifyOperation, bind_eq_ok] at hverify
      obtain ⟨_, ⟨_, hkind, -⟩, _, -, inner, -, hrest⟩ := hverify
      simp only [operationsParameterless, Bool.and_eq_true] at hparameterless
      have hrestSimulates := evalOperations_simulates hbody hexits rest
      simp only [FunctionContext.encodeOperations] at hencode
      split at hencode
      · -- a closure over an eliminated function is made by the Core run only
        rename_i hdead
        obtain ⟨value, hvalue, hheld⟩ :=
          deadClosure_held host call hfacts.first hdead hkind hstored
            (fun other hother => hfacts.dead other (by simp [operationsDeadResults, hdead, hother]))
        simp only [evalOperations, evalOperation, hvalue, Run.pure_bind]
        exact rest_simulates hrestSimulates hfacts hparameterless.2 hrest hencode hstored hsize
          hapart ⟨rfl, hheld, Unchanged.refl _⟩
      · rename_i hlive
        simp only [bind_eq_ok, Emit.orSpan_eq_ok, pure_eq_ok] at hencode
        obtain ⟨first, hfirst, codes, hcodes, rfl⟩ := hencode
        rw [execAll_append]
        apply Run.simulates_bind (evalKind_simulates hbody hexits kind hfacts.first
          hparameterless.1 (by simpa using hlive) hkind hfirst hstored hsize
          (fun other hother hmem => hapart other hother (by
            rw [operationsDefinitions_cons_fst]
            exact List.mem_append_left _ hmem)))
        intro value after hdone
        exact rest_simulates hrestSimulates hfacts hparameterless.2 hrest hcodes hstored hsize
          hapart hdone

theorem evalKind_simulates
    (hbody : BodyContext target verifier context machine importCount size leftLimit rightLimit
      host call invoke)
    (hexits : ExitsRepresented target context exit exits) : (kind : OperationKind) →
    KindSimulates target verifier context frame machine size host call invoke leftLimit
      rightLimit exits exit kind
  | .literal (.integer number) => integerLiteral_kindSimulates hbody number
  | .literal (.boolean truth) => booleanLiteral_kindSimulates hbody truth
  | .unit => unit_kindSimulates hbody
  | .builtin builtin => builtin_kindSimulates hbody builtin
  | .closure closure id captures => closure_kindSimulates hbody closure id captures
  | .bind binding value => bind_kindSimulates hbody binding value
  | .discard value => discard_kindSimulates hbody value
  | .exit value => exit_kindSimulates hbody hexits value
  | .call callee arguments => call_kindSimulates hbody callee arguments
  | .block block => block_kindSimulates hbody (evalBlock_simulates hbody hexits block)
  | .if condition consequent alternative =>
      if_kindSimulates hbody condition (evalBlock_simulates hbody hexits consequent)
        (evalBlock_simulates hbody hexits alternative)
  | .unary operator operand => unary_kindSimulates hbody operator operand
  | .binary left operator right => binary_kindSimulates hbody left operator right
  -- the scalar compiler refuses every other kind
  | .literal (.string _) | .variant _ _ | .list _ | .record _ | .field _ _
  | .matchList _ _ _ _ _ | .matchVariant _ _ _ => by
      intro environment available bindings result ty effects requirements source locals code
        _ _ _ _ hencode
      simp [FunctionContext.encodeKind, Emit.fail] at hencode

end

end Body

end Krit
