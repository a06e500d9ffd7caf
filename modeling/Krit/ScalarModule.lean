import Krit.ScalarFunction

/-!
# Module programs compile to what they mean

The emitted module of an accepted module program: its table holds the Core
functions in order, then the print wrappers; a live function has the signature of
its type, and a wrapper prints its argument.  By induction on the bound of nested
calls, running the exported entry does what module initialization does.
-/

namespace Krit

open Interp Result Wasm CoreRun

/-- The imports append what they are given to the printed values. -/
def stdoutHost : Wasm.Host (List (Bool × CoreValue)) := fun entry arguments =>
  let write (newline : BitVec 32) (value : CoreValue) :
      Wasm.Run (List (Bool × CoreValue)) (List Wasm.Value) := do
    Run.modify (· ++ [(newline != 0, value)])
    pure []
  match entry.name, arguments with
  | "write-int", [.i64 value, .i32 newline] => write newline (.integer value.toInt)
  | "write-bool", [.i32 value, .i32 newline] => write newline (.boolean (value != 0))
  | "write-unit", [.i32 newline] => write newline .unit
  | _, _ => Run.fault .operands

/-! ## What acceptance establishes -/

section Parameterless

variable {checker : SupportChecker} {types : List (ValueId × Ty)}

theorem checkParameters_nil (hchecker : checker.webhook = false)
    {parameters : List BlockParameter} {span : Option Span}
    (hcheck : checker.checkParameters parameters span = []) : parameters = [] := by
  cases parameters with
  | nil => rfl
  | cons parameter rest => simp [SupportChecker.checkParameters, hchecker] at hcheck

mutual

/-- The blocks that the check of a module program accepts declare no parameters. -/
theorem checkBlock_parameterless (hchecker : checker.webhook = false) : (block : CoreBlock) →
    ∀ ⦃span : Option Span⦄, checker.checkBlock types span block = [] →
      block.parameterless = true
  | ⟨_, parameters, operations, _, _, _, _, source⟩ => by
      intro span hcheck
      simp only [SupportChecker.checkBlock, List.append_eq_nil_iff] at hcheck
      obtain ⟨⟨hparameters, -⟩, hoperations⟩ := hcheck
      obtain rfl := checkParameters_nil hchecker hparameters
      simpa [CoreBlock.parameterless] using
        checkOperations_parameterless hchecker operations hoperations

theorem checkOperations_parameterless (hchecker : checker.webhook = false) :
    (operations : List CoreOperation) →
    ∀ ⦃span : Option Span⦄, checker.checkOperations types span operations = [] →
      operationsParameterless operations = true
  | [] => by
      intro span _
      rfl
  | ⟨result, ty, _, _, source, kind⟩ :: rest => by
      intro span hcheck
      simp only [SupportChecker.checkOperations, List.append_eq_nil_iff] at hcheck
      simp only [operationsParameterless, Bool.and_eq_true]
      refine ⟨?_, checkOperations_parameterless hchecker rest hcheck.2⟩
      by_cases hblocks : kind.hasBlocks = true
      · have hlive : checker.live.isDeadClosure kind = false := by
          cases kind <;> simp_all [OperationKind.hasBlocks, LiveFunctions.isDeadClosure]
        have hoperation := hcheck.1
        simp only [hlive, Bool.false_eq_true, if_false, SupportChecker.checkOperation, hblocks,
          Bool.not_true, Bool.and_false, List.append_eq_nil_iff] at hoperation
        exact checkNested_parameterless hchecker kind hoperation.1.2
      · cases kind <;> simp_all [OperationKind.hasBlocks, OperationKind.parameterless]

theorem checkNested_parameterless (hchecker : checker.webhook = false) :
    (kind : OperationKind) →
    ∀ ⦃span : Option Span⦄, checker.checkNested types span kind = [] →
      kind.parameterless = true
  | .block block => by
      intro span hcheck
      exact checkBlock_parameterless hchecker block hcheck
  | .if _ consequent alternative => by
      intro span hcheck
      simp only [SupportChecker.checkNested, List.append_eq_nil_iff] at hcheck
      simp only [OperationKind.parameterless, Bool.and_eq_true]
      exact ⟨checkBlock_parameterless hchecker consequent hcheck.1,
        checkBlock_parameterless hchecker alternative hcheck.2⟩
  | .literal _ | .unit | .builtin _ | .variant _ _ | .list _ | .record _ | .field _ _
  | .closure _ _ _ | .call _ _ | .matchList _ _ _ _ _ | .matchVariant _ _ _ | .unary _ _
  | .binary _ _ _ | .bind _ _ | .discard _ | .exit _ => by
      intro span _
      rfl

end

end Parameterless

theorem LiveFunctions.visit_subset {next : FunctionId → List FunctionId} {fuel : ℕ}
    {functions pending : List FunctionId} : functions ⊆ LiveFunctions.visit next fuel functions
      pending := by
  induction fuel generalizing functions pending with
  | zero => simp [LiveFunctions.visit]
  | succ fuel ih =>
      cases pending with
      | nil => simp [LiveFunctions.visit]
      | cons id pending =>
          simp only [LiveFunctions.visit]
          split
          · exact ih
          · intro other hother
            exact ih (List.mem_cons_of_mem _ hother)

theorem LiveFunctions.contains_entrypoint (target : CoreModule) (entrypoint : FunctionId) :
    (LiveFunctions.compute target entrypoint).contains entrypoint = true := by
  simp only [LiveFunctions.contains, decide_eq_true_eq, LiveFunctions.compute,
    LiveFunctions.visit, List.not_mem_nil, if_false]
  exact LiveFunctions.visit_subset List.mem_cons_self

/-- What the emitted code relies on, once a module program has been accepted. -/
structure AcceptedModule (target : CoreModule) (verifier : Verifier) (checked : CheckedModule) :
    Prop where
  verified : target.Verified verifier
  entrypoint : checked.entrypoint = 0
  entryLive : checked.live.contains 0 = true
  minimum : checked.minimumLiteralOperands = minimumLiteralOperands target checked.live
  parameterless : ∀ function ∈ target.functions,
    checked.live.contains function.id = true → function.body.parameterless = true

theorem checkModule_accepted {target : CoreModule} {checked : CheckedModule}
    (hcheck : checkModule target = .ok checked) (hkind : checked.kind = .module) :
    ∃ verifier, AcceptedModule target verifier checked := by
  simp only [checkModule] at hcheck
  split at hcheck
  · simp at hcheck
  rename_i _ hverify
  obtain ⟨verifier, hverified⟩ := target.verified_of_verify hverify
  split at hcheck
  · rename_i selected hselected
    obtain ⟨kind, entrypoint⟩ := selected
    simp only [bind_eq_ok, pure_eq_ok] at hcheck
    obtain ⟨_, rfl, hfindings⟩ := hcheck
    split at hfindings
    · rename_i hnone
      simp only [pure_eq_ok] at hfindings
      subst hfindings
      dsimp only at hkind
      subst hkind
      have hentry : entrypoint = target.entrypoint := by
        unfold selectProgram at hselected
        split at hselected
        · split at hselected <;> simp at hselected
        · simp only [pure_eq_ok, Prod.mk.injEq] at hselected
          exact hselected.2.symm
      have hzero : target.entrypoint = 0 := by
        simp [CoreModule.entrypoint, hverified.initial]
      refine ⟨verifier, hverified, hentry.trans hzero, ?_, rfl, ?_⟩
      · have hlive := LiveFunctions.contains_entrypoint target entrypoint
        rw [hentry, hzero] at hlive
        rw [hentry, hzero]
        exact hlive
      · intro function hfunction hlive
        simp only [moduleFindings, List.append_eq_nil_iff] at hnone
        obtain ⟨⟨-, hfunctions⟩, -⟩ := hnone
        have hchecked := List.flatMap_eq_nil_iff.mp hfunctions function
          (LiveFunctions.mem_inModule.mpr ⟨hfunction, hlive⟩)
        simp only [SupportChecker.checkFunction, List.append_eq_nil_iff] at hchecked
        exact checkBlock_parameterless (by simp) function.body hchecked.2
    · simp at hfindings
  · simp at hcheck

/-! ## The emitted module -/

/-- The parts of the emitted module. -/
structure Emitted (target : CoreModule) (entrypoint : FunctionId) (contract : WitContract)
    (shared : EncodeContext) (machine : Wasm.Module) (flavors : List BuiltinFlavor)
    (lowered wrapped : List Wasm.Function) : Prop where
  distinct : flavors.Nodup
  slots : shared.builtinSlots =
    flavors.zipIdx.map fun entry => (entry.1, target.functions.length + entry.2)
  types : machine.types = shared.signatures
  imports : encodeImports shared contract.imports = .ok machine.imports
  functions : encodeFunctions shared target.functions = .ok lowered
  wrappers : encodeWrappers shared contract flavors = .ok wrapped
  code : ∃ last, machine.functions = lowered ++ wrapped ++ [last]
  table : machine.table = (List.range (target.functions.length + flavors.length)).map
    fun slot => machine.imports.length + slot
  entry : machine.exports.lookup contract.entryExport =
    some (machine.imports.length + entrypoint)

theorem encodeCore_emitted {target : CoreModule} {entrypoint : FunctionId}
    {contract : WitContract} {minimum : List ValueId} {live : LiveFunctions}
    {machine : Wasm.Module}
    (hencode : encodeCore target entrypoint contract minimum live = .ok machine) :
    ∃ shared flavors lowered wrapped, shared.live = live ∧
      shared.minimumLiteralOperands = minimum ∧
      Emitted target entrypoint contract shared machine flavors lowered wrapped := by
  simp only [encodeCore, bind_eq_ok, pure_eq_ok, Emit.u32] at hencode
  obtain ⟨flavors, hflavors, base, ⟨_, -, rfl⟩, signatures, -, imports, himports, tableSize,
    ⟨_, -, rfl⟩, lowered, hlowered, wrapped, hwrapped, post, -, rfl⟩ := hencode
  have hdistinct : flavors.Nodup := by
    simp only [collectBuiltinFlavors, bind_eq_ok, pure_eq_ok] at hflavors
    obtain ⟨found, -, rfl⟩ := hflavors
    exact List.Nodup.filter _ (by decide)
  exact ⟨_, flavors, lowered, wrapped, rfl, rfl, hdistinct, rfl, rfl, himports, hlowered, hwrapped,
    ⟨_, rfl⟩, rfl, by simp⟩

section Emission

variable {target : CoreModule} {contract : WitContract} {shared : EncodeContext}

theorem signatureIndex_get {signature : FuncType} {index : ℕ}
    (hindex : shared.signatureIndex signature = .ok index) :
    shared.signatures[index]? = some signature := by
  simp only [EncodeContext.signatureIndex, ofOption_eq_ok, List.findIdx?_eq_some_iff_getElem,
    decide_eq_true_eq] at hindex
  obtain ⟨hbound, hfound, -⟩ := hindex
  rw [List.getElem?_eq_getElem hbound, hfound]

/-- The lowered functions stand in the order of the module. -/
theorem encodeFunctions_get {functions : List CoreFunction} :
    ∀ {lowered : List Wasm.Function}, encodeFunctions shared functions = .ok lowered →
      lowered.length = functions.length ∧
        ∀ (id : ℕ) (function : CoreFunction), functions[id]? = some function →
          ∃ encoded signature,
          lowered[id]? = some encoded ∧
            functionSignature shared.live function = .ok signature ∧
            shared.signatureIndex signature = .ok encoded.type ∧
            (shared.live.contains function.id = true →
              encodeFunction shared encoded.type function = .ok encoded) := by
  induction functions with
  | nil =>
      intro lowered hencode
      simp only [encodeFunctions, pure_eq_ok] at hencode
      subst hencode
      simp
  | cons function rest ih =>
      intro lowered hencode
      simp only [encodeFunctions, bind_eq_ok] at hencode
      obtain ⟨signature, hsignature, type, htype, hencode⟩ := hencode
      obtain ⟨encoded, others, hencoded, hothers, rfl⟩ : ∃ encoded others,
          (if shared.live.contains function.id then
              Emit.orSpan function.source (encodeFunction shared type function)
            else pure (eliminatedFunction type)) = .ok encoded ∧
            encodeFunctions shared rest = .ok others ∧ lowered = encoded :: others := by
        split at hencode
        · rename_i hlive
          simp only [bind_eq_ok, pure_eq_ok] at hencode
          obtain ⟨encoded, hencoded, others, hothers, rfl⟩ := hencode
          exact ⟨encoded, others, by rw [if_pos hlive]; exact hencoded, hothers, rfl⟩
        · rename_i hlive
          simp only [bind_eq_ok, pure_eq_ok] at hencode
          obtain ⟨encoded, hencoded, others, hothers, rfl⟩ := hencode
          exact ⟨encoded, others, by rw [if_neg hlive, hencoded]; rfl, hothers, rfl⟩
      obtain ⟨hlength, hget⟩ := ih hothers
      refine ⟨by simp [hlength], ?_⟩
      intro id candidate hcandidate
      cases id with
      | zero =>
          simp only [List.getElem?_cons_zero, Option.some.injEq] at hcandidate
          subst hcandidate
          have htypeOf : encoded.type = type := by
            split at hencoded
            · rw [Emit.orSpan_eq_ok] at hencoded
              obtain ⟨_, _, _, _, _, _, _, hcode⟩ := encodeFunction_code hencoded
              rw [hcode.encoded]
            · simp only [pure_eq_ok] at hencoded
              rw [← hencoded]
              rfl
          refine ⟨encoded, signature, rfl, hsignature, htypeOf ▸ htype, ?_⟩
          intro hlive
          rw [if_pos hlive, Emit.orSpan_eq_ok] at hencoded
          rw [htypeOf]
          exact hencoded
      | succ id =>
          simp only [List.getElem?_cons_succ] at hcandidate ⊢
          exact hget id candidate hcandidate

theorem encodeWrappers_get {flavors : List BuiltinFlavor} :
    ∀ {wrapped : List Wasm.Function}, encodeWrappers shared contract flavors = .ok wrapped →
      wrapped.length = flavors.length ∧
        ∀ (index : ℕ) (flavor : BuiltinFlavor), flavors[index]? = some flavor →
          ∃ encoded type,
          wrapped[index]? = some encoded ∧
            shared.signatureIndex flavor.signature = .ok type ∧ encoded.type = type ∧
            encodeBuiltinWrapper contract type flavor = .ok encoded := by
  induction flavors with
  | nil =>
      intro wrapped hencode
      simp only [encodeWrappers, pure_eq_ok] at hencode
      subst hencode
      simp
  | cons flavor rest ih =>
      intro wrapped hencode
      simp only [encodeWrappers, bind_eq_ok, pure_eq_ok] at hencode
      obtain ⟨type, htype, encoded, hencoded, others, hothers, rfl⟩ := hencode
      obtain ⟨hlength, hget⟩ := ih hothers
      refine ⟨by simp [hlength], ?_⟩
      intro index candidate hcandidate
      cases index with
      | zero =>
          simp only [List.getElem?_cons_zero, Option.some.injEq] at hcandidate
          subst hcandidate
          have htypeOf : encoded.type = type := by
            simp only [encodeBuiltinWrapper, bind_eq_ok, pure_eq_ok] at hencoded
            obtain ⟨_, -, rfl⟩ := hencoded
            rfl
          exact ⟨encoded, type, rfl, htype, htypeOf, hencoded⟩
      | succ index =>
          simp only [List.getElem?_cons_succ] at hcandidate ⊢
          exact hget index candidate hcandidate

/-- The imports stand in the order of the contract, under its names. -/
theorem encodeImports_get {functions : List WitFunction} :
    ∀ {imports : List Wasm.Import}, encodeImports shared functions = .ok imports →
      imports.length = functions.length ∧
        ∀ (index : ℕ) (function : WitFunction), functions[index]? = some function →
          ∃ entry : Wasm.Import,
          imports[index]? = some entry ∧ entry.name = function.name ∧
            shared.signatureIndex function.signature = .ok entry.type := by
  induction functions with
  | nil =>
      intro imports hencode
      simp only [encodeImports, pure_eq_ok] at hencode
      subst hencode
      simp
  | cons function rest ih =>
      intro imports hencode
      simp only [encodeImports, bind_eq_ok, pure_eq_ok] at hencode
      obtain ⟨type, htype, others, hothers, rfl⟩ := hencode
      obtain ⟨hlength, hget⟩ := ih hothers
      refine ⟨by simp [hlength], ?_⟩
      intro index candidate hcandidate
      cases index with
      | zero =>
          simp only [List.getElem?_cons_zero, Option.some.injEq] at hcandidate
          subst hcandidate
          exact ⟨_, rfl, rfl, htype⟩
      | succ index =>
          simp only [List.getElem?_cons_succ] at hcandidate ⊢
          exact hget index candidate hcandidate

end Emission

/-! ## Slots -/

section Slots

variable {target : CoreModule} {entrypoint : FunctionId} {contract : WitContract}
variable {shared : EncodeContext} {machine : Wasm.Module} {flavors : List BuiltinFlavor}
variable {lowered wrapped : List Wasm.Function}

/-- The type of a function of the module, after the imports. -/
theorem functionType_get {index : ℕ} {encoded : Wasm.Function}
    (hencoded : machine.functions[index]? = some encoded) :
    machine.functionType (machine.imports.length + index) = machine.types[encoded.type]? := by
  simp [Wasm.Module.functionType, hencoded]

theorem Emitted.lowered_get
    (hemitted : Emitted target entrypoint contract shared machine flavors lowered wrapped)
    {id : FunctionId} {function : CoreFunction}
    (hfunction : target.functions[id]? = some function) : ∃ encoded signature,
      machine.functions[id]? = some encoded ∧
        functionSignature shared.live function = .ok signature ∧
        machine.types[encoded.type]? = some signature ∧
        (shared.live.contains function.id = true →
          encodeFunction shared encoded.type function = .ok encoded) := by
  obtain ⟨hlength, hget⟩ := encodeFunctions_get hemitted.functions
  obtain ⟨encoded, signature, hencoded, hsignature, htype, hcode⟩ := hget id function hfunction
  obtain ⟨last, hcodes⟩ := hemitted.code
  refine ⟨encoded, signature, ?_, hsignature, ?_, hcode⟩
  · have hbound : id < lowered.length := (List.getElem?_eq_some_iff.mp hencoded).1
    rw [hcodes, List.append_assoc, List.getElem?_append_left hbound]
    exact hencoded
  · rw [hemitted.types]
    exact signatureIndex_get htype

theorem Emitted.wrapper_get
    (hemitted : Emitted target entrypoint contract shared machine flavors lowered wrapped)
    {flavor : BuiltinFlavor} {slot : ℕ}
    (hslot : Keyed.find flavor shared.builtinSlots = some slot) : ∃ encoded,
      slot < target.functions.length + flavors.length ∧
        machine.functions[slot]? = some encoded ∧
        machine.types[encoded.type]? = some flavor.signature ∧
        encodeBuiltinWrapper contract encoded.type flavor = .ok encoded := by
  obtain ⟨hloweredLength, -⟩ := encodeFunctions_get hemitted.functions
  obtain ⟨hwrappedLength, hget⟩ := encodeWrappers_get hemitted.wrappers
  have hmem := Keyed.mem_of_find hslot
  rw [hemitted.slots] at hmem
  obtain ⟨⟨found, index⟩, hfound, heq⟩ := List.mem_map.mp hmem
  obtain ⟨rfl, rfl⟩ := Prod.mk.inj heq
  have hflavor : flavors[index]? = some found := List.mem_zipIdx_iff_getElem?.mp hfound
  obtain ⟨encoded, type, hencoded, htype, rfl, hwrapper⟩ := hget index found hflavor
  obtain ⟨last, hcodes⟩ := hemitted.code
  have hbound : index < flavors.length := (List.getElem?_eq_some_iff.mp hflavor).1
  refine ⟨encoded, by dsimp only; omega, ?_, ?_, hwrapper⟩
  · rw [hcodes, List.append_assoc, List.getElem?_append_right (by dsimp only; omega),
      List.getElem?_append_left (by dsimp only; omega)]
    have hindex : target.functions.length + index - lowered.length = index := by omega
    rw [hindex]
    exact hencoded
  · rw [hemitted.types]
    exact signatureIndex_get htype

theorem Emitted.table_get
    (hemitted : Emitted target entrypoint contract shared machine flavors lowered wrapped)
    {slot : ℕ} (hslot : slot < target.functions.length + flavors.length) :
    machine.table[slot]? = some (machine.imports.length + slot) := by
  simp [hemitted.table, hslot]

theorem Emitted.machine_facts
    (hemitted : Emitted target entrypoint contract shared machine flavors lowered wrapped)
    {verifier : Verifier} (hverified : target.Verified verifier) :
    MachineFacts target shared machine machine.imports.length where
  types := by
    intro signature index hindex
    rw [hemitted.types]
    exact signatureIndex_get hindex
  functions := by
    intro id function signature hfunction hlive hsignature
    have hid := hverified.ids id function hfunction
    obtain ⟨encoded, actual, hencoded, hactual, htype, -⟩ := hemitted.lowered_get hfunction
    have hbound : id < target.functions.length := (List.getElem?_eq_some_iff.mp hfunction).1
    rw [functionSignature, hid, if_pos hlive, Emit.orSpan_eq_ok, hsignature,
      Except.ok.injEq] at hactual
    subst hactual
    exact ⟨hemitted.table_get (Nat.lt_add_right _ hbound),
      (functionType_get hencoded).trans htype⟩
  wrappers := by
    intro flavor slot hslot
    obtain ⟨encoded, hbound, hencoded, htype, -⟩ := hemitted.wrapper_get hslot
    exact ⟨hemitted.table_get hbound, (functionType_get hencoded).trans htype⟩

end Slots

/-! ## Printing -/

section Printing

variable {target : CoreModule} {shared : EncodeContext} {machine : Wasm.Module}
variable {leftLimit rightLimit : Prop} {exits : CoreValue → List Wasm.Value → Prop}
variable {contract : WitContract}

/-- The imported function of a flavor also takes whether to end the line. -/
theorem stdout_import {names : WitNames} {effects : EffectSet}
    (hcontract : loadModuleContract names effects = .ok contract) {flavor : BuiltinFlavor}
    {index : ℕ}
    (hindex : contract.imports.findIdx? (·.name = flavor.importName) = some index) :
    ∃ function, contract.imports[index]? = some function ∧
      function.name = flavor.importName ∧
      function.signature = ⟨flavor.signature.params ++ [.i32], []⟩ := by
  have himports : contract.imports = [] ∨ contract.imports = stdoutImports names := by
    unfold loadModuleContract at hcontract
    split at hcontract
    · simp only [pure_eq_ok] at hcontract
      exact .inl (hcontract ▸ rfl)
    · split at hcontract
      · simp only [pure_eq_ok] at hcontract
        exact .inr (hcontract ▸ rfl)
      · simp [Emit.fail] at hcontract
  rcases himports with himports | himports
  · simp [himports] at hindex
  · rw [himports] at hindex ⊢
    cases flavor <;>
      simp [stdoutImports, BuiltinFlavor.importName, List.findIdx?_cons] at hindex <;>
      subst hindex <;>
      exact ⟨_, rfl, rfl, rfl⟩

theorem printedValues_print {events : List CoreEvent} {newline : Bool} {value : CoreValue} :
    printedValues (events ++ [.print newline value]) =
      printedValues events ++ [(newline, value)] := by
  simp [printedValues]

/-- An import prints the value whose words it is given. -/
theorem print_simulates {host : CoreHost} {span : Option Span} {builtin : Builtin}
    {argument : Ty} {effects : EffectSet} {requirements : RequirementSet}
    {flavor : BuiltinFlavor} {value : CoreValue} {words : List Wasm.Value} {entry : Wasm.Import}
    (hflavor : BuiltinFlavor.fromOperation builtin
      (.function [argument] .unit effects requirements) = .ok flavor)
    (hvalue : Represents target shared.live shared.builtinSlots argument value words)
    (hentry : entry.name = flavor.importName) :
    Run.Simulates (scalarSimulation exits leftLimit rightLimit)
      (fun answer results => answer = .unit ∧ results = [])
      (applyBuiltin host builtin (.function [argument] .unit effects requirements) span [value])
      (stdoutHost entry (words ++ [.i32 (if flavor.newline then 1 else 0)])) := by
  have hprint : ∀ {newline : Bool} {word : BitVec 32} {printed : CoreValue},
      (word != 0) = newline → Run.Simulates (scalarSimulation exits leftLimit rightLimit)
        (fun answer results => answer = .unit ∧ results = [])
        (CoreRun.log (.print newline printed) >>= fun _ => pure CoreValue.unit)
        ((Run.modify (· ++ [(word != 0, printed)]) >>= fun _ => pure []) :
          Wasm.Run (List (Bool × CoreValue)) (List Wasm.Value)) := by
    rintro newline word printed rfl events state hstates
    refine .inr (.inr ⟨⟨rfl, rfl⟩, ?_⟩)
    have hbefore : printedValues events = state := hstates
    exact printedValues_print.trans (by rw [hbefore])
  cases builtin <;> cases argument <;>
    simp only [BuiltinFlavor.fromOperation, Emit.fail, pure_eq_ok, reduceCtorEq] at hflavor
  all_goals
    subst hflavor
    cases value <;> simp only [Represents] at hvalue
  case print.int.integer | println.int.integer =>
    obtain ⟨hrange, rfl⟩ := hvalue
    simp only [stdoutHost, hentry, BuiltinFlavor.importName, List.cons_append, List.nil_append,
      toInt_word hrange]
    exact hprint (by simp [BuiltinFlavor.newline])
  case print.bool.boolean truth | println.bool.boolean truth =>
    subst hvalue
    have htruth : (((if truth then 1 else 0) : BitVec 32) != 0) = truth := by
      cases truth <;> rfl
    simp only [stdoutHost, hentry, BuiltinFlavor.importName, List.cons_append, List.nil_append,
      bool32, htruth]
    exact hprint (by simp [BuiltinFlavor.newline])
  case print.unit.unit | println.unit.unit =>
    subst hvalue
    simp only [stdoutHost, hentry, BuiltinFlavor.importName, List.nil_append]
    exact hprint (by simp [BuiltinFlavor.newline])

end Printing

/-! ## Calls -/

section Calls

variable {target : CoreModule} {verifier : Verifier} {checked : CheckedModule}
variable {contract : WitContract} {shared : EncodeContext} {machine : Wasm.Module}
variable {flavors : List BuiltinFlavor} {lowered wrapped : List Wasm.Function}
variable {leftLimit rightLimit : Prop} {exits : CoreValue → List Wasm.Value → Prop}
variable {host : CoreHost} {entrypoint : FunctionId} {names : WitNames} {effects : EffectSet}

/-- The words of the argument of a flavor, and the code that loads them. -/
theorem BuiltinFlavor.load_exec {builtin : Builtin} {argument : Ty} {effects : EffectSet}
    {requirements : RequirementSet} {flavor : BuiltinFlavor} {value : CoreValue}
    {words : List Wasm.Value} {invoke : Invoke (List (Bool × CoreValue))}
    (hflavor : BuiltinFlavor.fromOperation builtin
      (.function [argument] .unit effects requirements) = .ok flavor)
    (hvalue : Represents target shared.live shared.builtinSlots argument value words) :
    words.length = flavor.signature.params.length ∧
      execAll machine invoke ⟨words, []⟩ (if flavor.hasValue then [.localGet 0] else []) =
        pure ⟨words, words.reverse⟩ := by
  cases builtin <;> cases argument <;>
    simp only [BuiltinFlavor.fromOperation, Emit.fail, pure_eq_ok, reduceCtorEq] at hflavor
  all_goals
    subst hflavor
    cases value <;> simp only [Represents] at hvalue
  case print.int.integer | println.int.integer =>
    obtain ⟨-, rfl⟩ := hvalue
    refine ⟨rfl, ?_⟩
    simp [BuiltinFlavor.hasValue, exec_localGet]
  case print.bool.boolean | println.bool.boolean =>
    subst hvalue
    refine ⟨rfl, ?_⟩
    simp [BuiltinFlavor.hasValue, exec_localGet]
  case print.unit.unit | println.unit.unit =>
    subst hvalue
    refine ⟨rfl, ?_⟩
    simp [BuiltinFlavor.hasValue]

/-- A wrapper prints its argument; the nested call of the import needs fuel of its
own. -/
theorem wrapper_simulates
    (hcontract : loadModuleContract names effects = .ok contract)
    (hemitted : Emitted target entrypoint contract shared machine flavors lowered wrapped)
    {fuel : ℕ} (hfuel : rightLimit ∨ 2 ≤ fuel) {span : Option Span} {builtin : Builtin}
    {argument : Ty} {effects : EffectSet} {requirements : RequirementSet}
    {flavor : BuiltinFlavor} {slot : ℕ} {value : CoreValue} {words : List Wasm.Value}
    (hflavor : BuiltinFlavor.fromOperation builtin
      (.function [argument] .unit effects requirements) = .ok flavor)
    (hslot : Keyed.find flavor shared.builtinSlots = some slot)
    (hvalue : Represents target shared.live shared.builtinSlots argument value words) :
    Run.Simulates (scalarSimulation exits leftLimit rightLimit)
      (Represents target shared.live shared.builtinSlots .unit)
      (applyBuiltin host builtin (.function [argument] .unit effects requirements) span [value])
      (machine.invoke stdoutHost fuel (machine.imports.length + slot) words) := by
  cases fuel with
  | zero =>
      have hlimit : rightLimit := hfuel.resolve_right (by omega)
      exact Run.simulates_exhausted_right hlimit
  | succ fuel =>
      obtain ⟨encoded, -, hencoded, htype, hwrapper⟩ := hemitted.wrapper_get hslot
      simp only [encodeBuiltinWrapper, bind_eq_ok, ofOption_eq_ok, pure_eq_ok] at hwrapper
      obtain ⟨index, hindex, hcode⟩ := hwrapper
      obtain ⟨function, hfunction, hname, hsignature⟩ := stdout_import hcontract hindex
      obtain ⟨-, himports⟩ := encodeImports_get hemitted.imports
      obtain ⟨entry, hentry, hentryName, hentryType⟩ := himports index function hfunction
      have hinvoke : machine.invoke stdoutHost (fuel + 1) (machine.imports.length + slot) words =
          runBody machine (machine.invoke stdoutHost fuel) encoded flavor.signature words := by
        simp [Wasm.Module.invoke, hencoded, htype]
      obtain ⟨hlength, hload⟩ : _ ∧ execAll machine (machine.invoke stdoutHost fuel) ⟨words, []⟩
          (if flavor.hasValue then [.localGet 0] else []) = _ :=
        BuiltinFlavor.load_exec hflavor hvalue
      have himportType : machine.functionType index =
          some ⟨flavor.signature.params ++ [.i32], []⟩ := by
        simp only [Wasm.Module.functionType, hentry, Option.bind_eq_bind, Option.bind_some]
        rw [hemitted.types, signatureIndex_get hentryType, hsignature]
      have hbody : runBody machine (machine.invoke stdoutHost fuel) encoded flavor.signature
          words = (Run.catchExit (machine.invoke stdoutHost fuel index
            (words ++ [.i32 (if flavor.newline then 1 else 0)]) >>= fun results =>
              pure results.reverse) >>= fun _ => pure []) := by
        have hcall : exec machine (machine.invoke stdoutHost fuel)
            ⟨words, (words ++ [Wasm.Value.i32 (if flavor.newline then 1 else 0)]).reverse⟩
              (.call index) = _ := exec_call himportType (by simp [hlength])
        rw [List.reverse_append, List.reverse_singleton, List.singleton_append] at hcall
        have hresults : flavor.signature.results = [] := by
          cases flavor <;> rfl
        have hword : BitVec.ofNat 32 (if flavor.newline then 1 else 0) =
            if flavor.newline then 1 else 0 := by
          cases flavor.newline <;> rfl
        rw [← hcode]
        simp only [runBody, List.map_nil, List.append_nil, execAll_append, hload, execAll_cons,
          i32Const, exec_const, Run.pure_bind, hword, hcall, execAll_nil, Run.bind_assoc, hresults,
          List.length_nil, Nat.zero_le, if_true, List.take_zero, List.reverse_nil]
      rw [hinvoke, hbody]
      cases fuel with
      | zero =>
          have hlimit : rightLimit := hfuel.resolve_right (by omega)
          exact Run.simulates_exhausted_right hlimit
      | succ fuel =>
          have hhost : machine.invoke stdoutHost (fuel + 1) index
              (words ++ [.i32 (if flavor.newline then 1 else 0)]) =
                stdoutHost entry (words ++ [.i32 (if flavor.newline then 1 else 0)]) := by
            simp [Wasm.Module.invoke, hentry]
          rw [hhost]
          -- the import does not exit, so the body of the wrapper has nothing to catch
          have hcaught : Run.Simulates
              (scalarSimulation (fun _ _ => False) leftLimit rightLimit)
              (fun answer _ => answer = .unit)
              (applyBuiltin host builtin (.function [argument] .unit effects requirements) span
                [value])
              (Run.catchExit (stdoutHost entry
                (words ++ [.i32 (if flavor.newline then 1 else 0)]) >>= fun results =>
                  pure results.reverse)) := by
            apply Run.simulates_catchExit_right
            · apply simulates_bind_pure_right
                (print_simulates hflavor hvalue (hentryName.trans hname))
              intro answer results hresults
              exact ⟨results.reverse, rfl, hresults.1⟩
            · intro _ _ hfalse
              exact hfalse
          have houter : Run.Simulates (scalarSimulation exits leftLimit rightLimit) _ _ _ :=
            hcaught.of_no_exits rfl rfl id id fun _ _ => id
          apply simulates_bind_pure_right houter
          intro answer results hanswer
          exact ⟨[], rfl, by rw [hanswer]; rfl⟩

/-- Calls simulate under any two bounds that allow for it: a side that may not run
out of fuel has enough of it. -/
theorem calls_simulate
    (hcontract : loadModuleContract names effects = .ok contract)
    (hemitted : Emitted target entrypoint contract shared machine flavors lowered wrapped)
    (haccepted : AcceptedModule target verifier checked) (hlive : shared.live = checked.live)
    (hminimum : shared.minimumLiteralOperands = checked.minimumLiteralOperands)
    {fuel bound : ℕ} (hleft : leftLimit ∨ bound ≤ fuel) (hright : rightLimit ∨ fuel + 2 ≤ bound) :
    CallSimulates target shared machine.imports.length leftLimit rightLimit host
      (target.runFunction host fuel) (machine.invoke stdoutHost bound) := by
  induction fuel generalizing bound with
  | zero =>
      constructor
      · intro exits id function captures arguments words hfunction hcontains hcaptures hwords
        by_cases hlimit : leftLimit
        · exact Run.simulates_exhausted_left hlimit
        · have hbound : bound = 0 := Nat.le_zero.mp (hleft.resolve_left hlimit)
          subst hbound
          exact Run.simulates_exhausted_right (hright.resolve_right (by omega))
      · intro exits span builtin argument effects requirements flavor slot value words hflavor
          hslot hvalue
        exact wrapper_simulates hcontract hemitted (hright.imp_right (by omega)) hflavor hslot
          hvalue
  | succ fuel ih =>
      constructor
      · intro exits id function captures arguments words hfunction hcontains hcaptures hwords
        cases bound with
        | zero => exact Run.simulates_exhausted_right (hright.resolve_right (by omega))
        | succ bound =>
            have hfewer : leftLimit ∨ bound ≤ fuel := hleft.imp_right (by omega)
            have hcalls := ih hfewer (hright.imp_right (by omega))
            have hid := haccepted.verified.ids id function hfunction
            obtain ⟨encoded, signature, hencoded, hsignature, htype, hencode⟩ :=
              hemitted.lowered_get hfunction
            rw [functionSignature, hid, if_pos hcontains, Emit.orSpan_eq_ok] at hsignature
            rw [hid] at hencode
            have hparameterless := haccepted.parameterless function
              (List.mem_of_getElem? hfunction) (by rw [hid, ← hlive]; exact hcontains)
            have hinvoke : machine.invoke stdoutHost (bound + 1) (machine.imports.length + id)
                words = runBody machine (machine.invoke stdoutHost bound) encoded signature
                  words := by
              simp [Wasm.Module.invoke, hencoded, htype]
            have hrun : target.runFunction host (fuel + 1) id captures arguments =
                function.run host (target.runFunction host fuel) captures arguments := by
              simp [CoreModule.runFunction, hfunction]
            rw [hinvoke, hrun]
            exact run_simulates haccepted.verified
              (by rw [hminimum, hlive]; exact haccepted.minimum)
              (hemitted.machine_facts haccepted.verified) hcalls hfunction hcontains
              hparameterless (hencode hcontains) hsignature hcaptures hwords
      · intro exits span builtin argument effects requirements flavor slot value words hflavor
          hslot hvalue
        exact wrapper_simulates hcontract hemitted (hright.imp_right (by omega)) hflavor hslot
          hvalue

end Calls

/-! ## Module programs -/

/-- Module initialization, with a bound on nested calls. -/
def CoreModule.runInit (self : CoreModule) (host : CoreHost) (fuel : ℕ) : CoreRun CoreValue :=
  self.runFunction host fuel self.entrypoint [] []

/-- Initialization and the exported entry stopped in the same way, after the same
output. -/
def SameStop (core : Outcome CoreValue CoreError CoreFault CoreValue × List CoreEvent)
    (wasm : Outcome (List Wasm.Value) Trap Fault (List Wasm.Value) × List (Bool × CoreValue)) :
    Prop :=
  (core.1 = .done .unit ∧ wasm.1 = .done [] ∨
    ∃ error trap, core.1 = .error error ∧ wasm.1 = .error trap ∧ TrapMatches error trap) ∧
      wasm.2 = printedValues core.2

section Program

variable {target : CoreModule} {checked : CheckedModule} {contract : WitContract}
variable {machine : Wasm.Module} {names : WitNames} {leftLimit rightLimit : Prop}

/-- From empty outputs, initialization and the exported entry stop in the same way
unless one of them meets a bound that it may meet. -/
theorem runInit_simulates (hcheck : checkModule target = .ok checked)
    (hkind : checked.kind = .module)
    (hcontract : loadModuleContract names checked.effects = .ok contract)
    (hencode : encodeCore target checked.entrypoint contract checked.minimumLiteralOperands
      checked.live = .ok machine) (host : CoreHost) {fuel bound : ℕ}
    (hleft : leftLimit ∨ bound ≤ fuel) (hright : rightLimit ∨ fuel + 2 ≤ bound) :
    ((target.runInit host fuel []).1 = .exhausted ∧ leftLimit) ∨
      ((machine.callExport stdoutHost bound contract.entryExport [] []).1 = .exhausted ∧
        rightLimit) ∨
      SameStop (target.runInit host fuel [])
        (machine.callExport stdoutHost bound contract.entryExport [] []) := by
  obtain ⟨verifier, haccepted⟩ := checkModule_accepted hcheck hkind
  obtain ⟨shared, flavors, lowered, wrapped, hlive, hminimum, hemitted⟩ :=
    encodeCore_emitted hencode
  obtain ⟨function, hfunction, hparameters, hcaptures, hresult⟩ := haccepted.verified.entry
  have hcalls : CallSimulates target shared machine.imports.length leftLimit rightLimit host
      (target.runFunction host fuel) (machine.invoke stdoutHost bound) :=
    calls_simulate hcontract hemitted haccepted hlive hminimum hleft hright
  have hzero : target.entrypoint = 0 := by
    simp [CoreModule.entrypoint, haccepted.verified.initial]
  have hexport : machine.callExport stdoutHost bound contract.entryExport [] =
      machine.invoke stdoutHost bound (machine.imports.length + 0) [] := by
    simp [Wasm.Module.callExport, hemitted.entry, haccepted.entrypoint]
  have hsignature : function.signature.parameters = [] := by
    have hmem : function ∈ target.functions := List.mem_of_getElem? hfunction
    rw [← (haccepted.verified.boundary function hmem).parameters, hparameters]
    rfl
  have hrun := hcalls.functions (fun _ _ => False) 0 function [] [] [] hfunction
    (by rw [hlive]; exact haccepted.entryLive) (by simp [CapturesHeld, hcaptures])
    (by simp [hsignature, RepresentsAll]) [] [] rfl
  rw [hresult] at hrun
  simp only [CoreModule.runInit, hzero, hexport]
  refine hrun.imp_right (Or.imp_right ?_)
  intro hrelated
  rcases hcore : target.runFunction host fuel 0 [] [] [] with ⟨outcome, events⟩
  rcases hwasm : machine.invoke stdoutHost bound (machine.imports.length + 0) [] [] with
    ⟨outcome', printed⟩
  rw [hcore, hwasm] at hrelated
  cases outcome <;> cases outcome' <;> simp only [Simulation.Related] at hrelated
  case done.done value results =>
    obtain ⟨hunit, hprinted⟩ := hrelated
    cases value <;> simp only [Represents] at hunit
    subst hunit
    exact ⟨.inl ⟨rfl, rfl⟩, hprinted.symm⟩
  case exit.exit => exact hrelated.1.elim
  case error.error error trap =>
    exact ⟨.inr ⟨error, trap, rfl, rfl, hrelated.1⟩, hrelated.2.symm⟩

/-- Scalar compilation preserves meaning.  Two runs that both end by themselves end
alike after the same output; where one side ends, the other ends within a bound
that is at most two calls deeper.  No run traps on the signature of an indirect
call, and the emitted arithmetic is checked integer arithmetic. -/
theorem encodeCore_preserves_meaning (hcheck : checkModule target = .ok checked)
    (hkind : checked.kind = .module)
    (hcontract : loadModuleContract names checked.effects = .ok contract)
    (hencode : encodeCore target checked.entrypoint contract checked.minimumLiteralOperands
      checked.live = .ok machine) (host : CoreHost) :
    let core := fun fuel => target.runInit host fuel []
    let wasm := fun fuel => machine.callExport stdoutHost fuel contract.entryExport [] []
    (∀ fuel bound, (core fuel).1 ≠ .exhausted → (wasm bound).1 ≠ .exhausted →
      SameStop (core fuel) (wasm bound)) ∧
    (∀ fuel, (core fuel).1 ≠ .exhausted → (wasm (fuel + 2)).1 ≠ .exhausted) ∧
    (∀ bound, (wasm bound).1 ≠ .exhausted → (core bound).1 ≠ .exhausted) ∧
    (∀ bound, (wasm bound).1 ≠ .error .badSignature) ∧
    (∀ (invoke : Invoke (List (Bool × CoreValue))) operator left right result locals leftLocal
        rightLocal destination,
      Operands locals leftLocal rightLocal destination left right →
        integerArithmetic operator left right = some result →
          execAll machine invoke ⟨locals, []⟩
            (FunctionContext.arithmeticCode operator [.localGet leftLocal]
              [.localGet rightLocal] [.localGet destination] [.localSet destination]) =
            storeChecked locals destination result) ∧
    ∀ (invoke : Invoke (List (Bool × CoreValue))) value locals operandLocal destination,
      Operands locals operandLocal operandLocal destination value value →
        execAll machine invoke ⟨locals, []⟩
          (negateCode [.localGet operandLocal] [.localSet destination]) =
          storeChecked locals destination (orOverflow (checkedNeg value)) := by
  intro core wasm
  have hsame : ∀ fuel bound, (core fuel).1 ≠ .exhausted → (wasm bound).1 ≠ .exhausted →
      SameStop (core fuel) (wasm bound) := by
    intro fuel bound hcore hwasm
    have hmatch := runInit_simulates hcheck hkind hcontract hencode host
      (.inl trivial : True ∨ bound ≤ fuel) (.inl trivial : True ∨ fuel + 2 ≤ bound)
    rcases hmatch with hlimit | hlimit | hstop
    · exact absurd hlimit.1 hcore
    · exact absurd hlimit.1 hwasm
    · exact hstop
  have hends : ∀ {fuel bound}, SameStop (core fuel) (wasm bound) →
      (core fuel).1 ≠ .exhausted ∧ (wasm bound).1 ≠ .exhausted := by
    rintro fuel bound ⟨⟨hcore, hwasm⟩ | ⟨_, _, hcore, hwasm, -⟩, -⟩
    · exact ⟨by simp [hcore], by simp [hwasm]⟩
    · exact ⟨by simp [hcore], by simp [hwasm]⟩
  have hback : ∀ bound, (wasm bound).1 ≠ .exhausted → (core bound).1 ≠ .exhausted := by
    intro bound hwasm
    have hmatch := runInit_simulates hcheck hkind hcontract hencode host
      (.inr le_rfl : False ∨ bound ≤ bound) (.inl trivial : True ∨ bound + 2 ≤ bound)
    rcases hmatch with hlimit | hlimit | hstop
    · exact hlimit.2.elim
    · exact absurd hlimit.1 hwasm
    · exact (hends hstop).1
  refine ⟨hsame, ?_, hback, ?_, fun _ _ _ _ _ _ _ _ _ => execAll_arithmeticCode,
    fun _ _ _ _ _ => execAll_negateCode⟩
  · intro fuel hcore
    have hmatch := runInit_simulates hcheck hkind hcontract hencode host
      (.inl trivial : True ∨ fuel + 2 ≤ fuel) (.inr le_rfl : False ∨ fuel + 2 ≤ fuel + 2)
    rcases hmatch with hlimit | hlimit | hstop
    · exact absurd hlimit.1 hcore
    · exact hlimit.2.elim
    · exact (hends hstop).2
  · intro bound hbad
    have hwasm : (wasm bound).1 ≠ .exhausted := by simp [hbad]
    obtain ⟨⟨-, hdone⟩ | ⟨error, trap, -, htrap, hmatches⟩, -⟩ :=
      hsame bound bound (hback bound hwasm) hwasm
    · rw [hbad] at hdone
      cases hdone
    · rw [hbad] at htrap
      cases htrap
      rcases hmatches with ⟨-, hfalse⟩ | ⟨-, hfalse⟩ <;> cases hfalse

end Program

/-- Checking selects a module program, and emission succeeds. -/
def buildsModule (names : WitNames) (target : CoreModule) : Bool :=
  match checkModule target with
  | .ok checked =>
      match loadModuleContract names checked.effects with
      | .ok contract =>
          decide (checked.kind = .module) &&
            (encodeCore target checked.entrypoint contract checked.minimumLiteralOperands
              checked.live).toBool
      | .error _ => false
  | .error _ => false

theorem buildsModule_parts {names : WitNames} {target : CoreModule}
    (hbuilds : buildsModule names target = true) :
    ∃ checked contract machine, checkModule target = .ok checked ∧ checked.kind = .module ∧
      loadModuleContract names checked.effects = .ok contract ∧
      encodeCore target checked.entrypoint contract checked.minimumLiteralOperands
        checked.live = .ok machine := by
  unfold buildsModule at hbuilds
  split at hbuilds
  · rename_i checked hcheck
    split at hbuilds
    · rename_i contract hcontract
      simp only [Bool.and_eq_true, decide_eq_true_eq] at hbuilds
      obtain ⟨hkind, hencode⟩ := hbuilds
      cases hmachine : encodeCore target checked.entrypoint contract
          checked.minimumLiteralOperands checked.live with
      | ok machine => exact ⟨checked, contract, machine, hcheck, hkind, hcontract, hmachine⟩
      | error failure =>
          rw [hmachine] at hencode
          cases hencode
    · cases hbuilds
  · cases hbuilds

/-- Prints the sum of two literals. -/
def sumModule : CoreModule where
  entrypoints := [⟨.moduleInit, 0⟩]
  bindings := []
  functions :=
    [{ id := 0
       debugName := none
       source := none
       signature := ⟨[], .unit, {.ioStdout}, ∅⟩
       parameters := []
       captures := []
       recursive := none
       body :=
         ⟨0, [],
          [⟨0, .function [.int] .unit {.ioStdout} ∅, ∅, ∅, none, .builtin .println⟩,
            ⟨1, .int, ∅, ∅, none, .literal (.integer 40)⟩,
            ⟨2, .int, ∅, ∅, none, .literal (.integer 2)⟩,
            ⟨3, .int, ∅, ∅, none, .binary 1 .add 2⟩,
            ⟨4, .unit, {.ioStdout}, ∅, none, .call 0 [3]⟩],
          4, .unit, {.ioStdout}, ∅, none⟩ }]

theorem sumModule_runInit : sumModule.runInit refusingHost 1 [] =
    (.done .unit, [.print true (.integer 42), .yield 0 .unit .unit]) := by
  simp [sumModule, CoreModule.runInit, CoreModule.entrypoint, CoreModule.runFunction,
    CoreFunction.run, Run.catchExit, evalBlock, evalOperations, evalOperation, evalKind,
    evalLiteral, Run.bind_apply, CoreFunction.environment, CoreEnvironment.bind, CoreRun.read,
    Run.ofOption, Run.pure_apply, Run.pure, applyBinary, integerResult, orOverflow, i64TryFrom,
    i64Min, i64Max, readAll, integerArithmetic, checkedAdd, applyCall, applyBuiltin, CoreRun.log,
    Run.modify]

/-- The emitted module of the sum prints it. -/
theorem encodeCore_preserves_meaning_sum : ∃ checked contract machine,
    checkModule sumModule = .ok checked ∧ checked.kind = .module ∧
      encodeCore sumModule checked.entrypoint contract checked.minimumLiteralOperands
        checked.live = .ok machine ∧
      machine.callExport stdoutHost 3 contract.entryExport [] [] =
        (.done [], [(true, .integer 42)]) := by
  obtain ⟨checked, contract, machine, hcheck, hkind, hcontract, hencode⟩ :
      ∃ checked contract machine, checkModule sumModule = .ok checked ∧ _ ∧ _ ∧ _ :=
    buildsModule_parts
      (by decide +kernel : buildsModule ⟨"stdout", "run", "post"⟩ sumModule = true)
  obtain ⟨hsame, hforward, -⟩ :=
    encodeCore_preserves_meaning hcheck hkind hcontract hencode refusingHost
  have hends : (sumModule.runInit refusingHost 1 []).1 ≠ .exhausted := by
    simp [sumModule_runInit]
  refine ⟨checked, contract, machine, hcheck, hkind, hencode, ?_⟩
  obtain ⟨⟨-, hdone⟩ | ⟨error, trap, hfailed, -⟩, hprinted⟩ :=
    hsame 1 3 hends (hforward 1 hends)
  · refine Prod.ext hdone ?_
    simpa [sumModule_runInit, printedValues] using hprinted
  · simp [sumModule_runInit] at hfailed

end Krit
