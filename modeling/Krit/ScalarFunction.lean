import Krit.ScalarLiterals

/-!
# Calls of compiled functions

A call of a live function runs its body on locals that hold the words of the
arguments.  The code of the body simulates the Core body, an exit is a return,
and the words of the result are what the call leaves on the stack.
-/

namespace Krit

open Interp Result Wasm CoreRun

section Function

variable {target : CoreModule} {verifier : Verifier} {shared : EncodeContext}
variable {machine : Wasm.Module} {importCount : ℕ} {host : CoreHost} {call : CoreCall}
variable {invoke : Invoke (List (Bool × CoreValue))} {leftLimit rightLimit : Prop}
variable {exits : CoreValue → List Wasm.Value → Prop}

/-- What the emitted code of a function is made of: the code that stores the
function's own slot, the code of the body, and the load of its result. -/
structure FunctionCode (shared : EncodeContext) (type : ℕ) (function : CoreFunction)
    (encoded : Wasm.Function) (count : ℕ) (first second table : LocalTable)
    (entering inner leaving : List Instr) : Prop where
  parameters : parameterLocals 0 ⟨[], [], []⟩ function.parameters = .ok (count, first)
  recursive : recursiveLocal count first function = .ok second
  locals : collectBlockLocals shared.live count second function.body = .ok table
  start : recursiveCode ⟨shared, table.locals, table.valueTypes⟩ function = .ok entering
  body : FunctionContext.encodeBlock ⟨shared, table.locals, table.valueTypes⟩ function.body =
    .ok inner
  load : FunctionContext.loadValue ⟨shared, table.locals, table.valueTypes⟩
    function.body.result = .ok leaving
  encoded : encoded = ⟨type, table.declarations, entering ++ inner ++ leaving⟩

theorem encodeFunction_code {type : ℕ} {function : CoreFunction} {encoded : Wasm.Function}
    (hencode : encodeFunction shared type function = .ok encoded) :
    ∃ count first second table entering inner leaving,
      FunctionCode shared type function encoded count first second table entering inner
        leaving := by
  simp only [encodeFunction, bind_eq_ok, pure_eq_ok] at hencode
  obtain ⟨⟨count, first⟩, hparameters, second, hrecursive, table, hlocals, entering, hstart,
    inner, hbody, leaving, hload, hencoded⟩ := hencode
  exact ⟨count, first, second, table, entering, inner, leaving, hparameters, hrecursive, hlocals,
    hstart, hbody, hload, hencoded.symm⟩

/-- The parameters have distinct values. -/
theorem CoreModule.Verified.parameters_distinct (hverified : target.Verified verifier)
    {function : CoreFunction} (hfunction : function ∈ target.functions) :
    (function.parameters.map (·.value)).Nodup := by
  have hdistinct := hverified.function_distinct hfunction
  simp only [CoreFunction.definitions, List.map_append, List.map_map] at hdistinct
  have hboundary := (List.nodup_append.mp hdistinct).1
  have hcaptures := (List.nodup_append.mp hboundary).1
  exact (List.nodup_append.mp hcaptures).1

/-- Neither captures nor the function itself share a value with a parameter. -/
theorem CoreModule.Verified.boundary_distinct (hverified : target.Verified verifier)
    {function : CoreFunction} (hfunction : function ∈ target.functions) :
    (∀ capture ∈ function.captures, capture.value ∉ function.parameters.map (·.value)) ∧
      (∀ recursive ∈ function.recursive,
        recursive.value ∉ function.parameters.map (·.value)) ∧
      ∀ recursive ∈ function.recursive, recursive.value ∉ function.captures.map (·.value) := by
  have hdistinct := hverified.function_distinct hfunction
  simp only [CoreFunction.definitions, List.map_append, List.map_map] at hdistinct
  have hboundary := (List.nodup_append.mp hdistinct).1
  have hrecursiveApart := (List.nodup_append.mp hboundary).2.2
  have hcapturesApart := (List.nodup_append.mp (List.nodup_append.mp hboundary).1).2.2
  refine ⟨?_, ?_, ?_⟩
  · intro capture hcapture hmem
    exact hcapturesApart _ hmem _ (List.mem_map.mpr ⟨capture, hcapture, rfl⟩) rfl
  · intro recursive hrecursive hmem
    exact hrecursiveApart _ (List.mem_append_left _ hmem) _
      (List.mem_map.mpr ⟨recursive, by simpa using hrecursive, rfl⟩) rfl
  · intro recursive hrecursive hmem
    exact hrecursiveApart _ (List.mem_append_right _ hmem) _
      (List.mem_map.mpr ⟨recursive, by simpa using hrecursive, rfl⟩) rfl

/-- The table that the emitted code of a function was made with. -/
structure FunctionTable (target : CoreModule) (shared : EncodeContext)
    (function : CoreFunction) (arguments : List CoreValue) (words : List Wasm.Value)
    (table : LocalTable) (entries : List (ValueId × ℕ)) : Prop where
  fits : FunctionContext.Distinct ⟨shared, table.locals, table.valueTypes⟩
    (words.length + table.declarations.length)
  known : ∀ entry ∈ table.valueTypes,
    entry ∈ function.parameters.map (fun parameter => (parameter.value, parameter.ty)) ∨
      entry ∈ function.recursive.toList.map (fun recursive => (recursive.value, recursive.ty)) ∨
      entry ∈ function.body.liveDefinitions shared.live
  parameters : ∀ entry ∈ table.locals, entry ∈ entries ∨
    entry.1 ∈ function.recursive.toList.map (·.value) ∨
      entry.1 ∈ function.body.definitions.map Prod.fst
  held : ∀ later : List Wasm.Value,
    List.Forall₂ (ParameterHeld target shared.live shared.builtinSlots entries (words ++ later))
      function.parameters arguments

theorem FunctionCode.table_facts {type count : ℕ} {function : CoreFunction}
    {encoded : Wasm.Function} {first second table : LocalTable}
    {entering inner leaving : List Instr} {arguments : List CoreValue} {words : List Wasm.Value}
    (hcode : FunctionCode shared type function encoded count first second table entering inner
      leaving)
    (hverified : target.Verified verifier) (hfunction : function ∈ target.functions)
    (hwords : RepresentsAll target shared.live shared.builtinSlots function.signature.parameters
      arguments words) :
    ∃ entries, FunctionTable target shared function arguments words table entries := by
  have hboundary := hverified.boundary function hfunction
  rw [← hboundary.parameters] at hwords
  obtain ⟨entries, hparameters⟩ := parameterLocals_table hcode.parameters hwords
    (hverified.parameters_distinct hfunction)
  have hrecursive := recursiveLocal_extends hcode.recursive
  have hlocals := collectBlockLocals_extends function.body hcode.locals
  have hcount : count = words.length := by simpa using hparameters.total
  have hfirstFits : first.Fits count := by
    constructor
    · rw [hparameters.locals, List.append_nil]
      exact hparameters.apart
    · intro entry hentry
      rw [hparameters.locals, List.append_nil] at hentry
      have hrange := hparameters.range entry hentry
      omega
  have hfits := hlocals.fits (hrecursive.fits hfirstFits)
  obtain ⟨namedEntries, hnamed, hnamedKeys⟩ := hrecursive.locals
  obtain ⟨bodyEntries, hbody, hbodyKeys⟩ := hlocals.locals
  refine ⟨entries, ?_, ?_, ?_, ?_⟩
  · exact ⟨hfits.apart, hcount ▸ hfits.bound⟩
  · intro entry hentry
    rw [hlocals.valueTypes, hrecursive.valueTypes, hparameters.valueTypes] at hentry
    simp only [List.append_nil, List.mem_append, List.mem_reverse] at hentry
    tauto
  · intro entry hentry
    rw [hbody, hnamed, hparameters.locals, List.append_nil] at hentry
    simp only [List.mem_append] at hentry
    rcases hentry with hmem | hmem | hmem
    · have hkey := hbodyKeys entry hmem
      exact .inr (.inr (List.map_subset _
        (function.body.liveDefinitions_sublist shared.live).subset hkey))
    · have hkey := hnamedKeys entry hmem
      rw [List.map_map] at hkey
      exact .inr (.inl hkey)
    · exact .inl hmem
  · intro later
    simpa using hparameters.held [] later rfl

section Table

variable {function : CoreFunction} {arguments : List CoreValue} {words : List Wasm.Value}
variable {table : LocalTable} {entries : List (ValueId × ℕ)}

theorem FunctionTable.type_known
    (htable : FunctionTable target shared function arguments words table entries)
    (hverified : target.Verified verifier) (hfunction : function ∈ target.functions)
    {id : ValueId} {ty : Ty} (hfind : Keyed.find id table.valueTypes = some ty) :
    Keyed.find id verifier.valueTypes = some ty := by
  apply hverified.table function hfunction (id, ty)
  have hlive := (function.body.liveDefinitions_sublist shared.live).subset
  have hknown := htable.known _ (Keyed.mem_of_find hfind)
  simp only [CoreFunction.definitions, List.mem_append]
  rcases hknown with hmem | hmem | hmem
  · exact .inl (.inl (.inl hmem))
  · exact .inl (.inr hmem)
  · exact .inr (hlive hmem)

/-- The table knows no capture. -/
theorem FunctionTable.capture_unknown
    (htable : FunctionTable target shared function arguments words table entries)
    (hverified : target.Verified verifier) (hfunction : function ∈ target.functions)
    {capture : CoreCapture} (hcapture : capture ∈ function.captures) :
    Keyed.find capture.value table.valueTypes = none := by
  rw [Keyed.find_eq_none_iff]
  intro hmem
  obtain ⟨entry, hentry, hkey⟩ := List.mem_map.mp hmem
  obtain ⟨hparameters, -, hnamed⟩ := hverified.boundary_distinct hfunction
  rcases htable.known entry hentry with hin | hin | hin
  · obtain ⟨parameter, hparameter, rfl⟩ := List.mem_map.mp hin
    exact hparameters capture hcapture (hkey ▸ List.mem_map.mpr ⟨parameter, hparameter, rfl⟩)
  · obtain ⟨recursive, hrecursive, rfl⟩ := List.mem_map.mp hin
    exact hnamed recursive (by simpa using hrecursive)
      (List.mem_map.mpr ⟨capture, hcapture, hkey.symm⟩)
  · have hdefined : capture.value ∈ function.body.definitions.map Prod.fst :=
      List.mem_map.mpr
        ⟨entry, (function.body.liveDefinitions_sublist shared.live).subset hin, hkey⟩
    refine hverified.boundary_apart hfunction capture.value ?_ hdefined
    simp only [CoreFunction.boundary, List.mem_append, List.mem_map]
    exact .inl (.inr ⟨capture, hcapture, rfl⟩)

/-- The table knows no closure over an eliminated function. -/
theorem FunctionTable.dead_unknown
    (htable : FunctionTable target shared function arguments words table entries)
    (hverified : target.Verified verifier) (hfunction : function ∈ target.functions)
    {id : ValueId} (hdead : id ∈ function.body.deadResults shared.live) :
    Keyed.find id table.valueTypes = none := by
  rw [Keyed.find_eq_none_iff]
  intro hmem
  obtain ⟨entry, hentry, rfl⟩ := List.mem_map.mp hmem
  have hdefined := CoreBlock.dead_subset shared.live hdead
  have hboundary : entry.1 ∉ function.boundary :=
    fun hin => hverified.boundary_apart hfunction entry.1 hin hdefined
  simp only [CoreFunction.boundary, List.mem_append, List.mem_map, not_or] at hboundary
  rcases htable.known entry hentry with hin | hin | hin
  · obtain ⟨parameter, hparameter, rfl⟩ := List.mem_map.mp hin
    exact hboundary.2 ⟨parameter, hparameter, rfl⟩
  · obtain ⟨recursive, hrecursive, rfl⟩ := List.mem_map.mp hin
    exact hboundary.1.1 ⟨recursive, hrecursive, rfl⟩
  · exact CoreBlock.dead_not_live shared.live (hverified.body_distinct hfunction) hdead
      (List.mem_map.mpr ⟨entry, hin, rfl⟩)

/-- What the simulation needs to know about the code of a body. -/
theorem FunctionTable.body_code
    (htable : FunctionTable target shared function arguments words table entries)
    (hverified : target.Verified verifier) (hfunction : function ∈ target.functions)
    (hlive : shared.live.contains function.id = true)
    (hminimum : shared.minimumLiteralOperands = minimumLiteralOperands target shared.live) :
    function.body.Code verifier ⟨shared, table.locals, table.valueTypes⟩
      ⟨function.id, function.body.negated⟩ where
  table := fun entry hentry => hverified.table function hfunction entry
    (by simp [CoreFunction.definitions, hentry])
  distinct := hverified.body_distinct hfunction
  dead := fun id hid => htable.dead_unknown hverified hfunction hid
  uses := by
    intro use huse hother
    dsimp only
    rw [hminimum]
    exact use_notMinimum (LiveFunctions.mem_inModule.mpr ⟨hfunction, hlive⟩) huse hother
  minimum := by
    intro operation hoperation hmem
    dsimp only at hmem ⊢
    rw [hminimum] at hmem
    exact minimum_operation hverified hfunction hoperation hmem

end Table

/-! ## Entering a function -/

section Entry

variable {function : CoreFunction} {arguments captures : List CoreValue} {words : List Wasm.Value}
variable {table : LocalTable} {entries : List (ValueId × ℕ)} {size : ℕ}

/-- At entry the arguments are in the locals of the parameters; captures have no
local. -/
theorem FunctionTable.entry_stored
    (htable : FunctionTable target shared function arguments words table entries)
    (hbody : BodyContext target verifier ⟨shared, table.locals, table.valueTypes⟩ machine
      importCount size leftLimit rightLimit host call invoke)
    (hfunction : function ∈ target.functions)
    (hminimum : shared.minimumLiteralOperands = minimumLiteralOperands target shared.live)
    (hcaptures : CapturesHeld function captures) (later : List Wasm.Value) :
    EnvironmentStored target verifier ⟨shared, table.locals, table.valueTypes⟩
      ((CoreEnvironment.bind (fun _ => none) (function.parameters.map (·.value)) arguments).bind
        (function.captures.map (·.value)) captures)
      (function.captures.map (·.value) ++ function.parameters.map (·.value))
      (words ++ later) := by
  have hverified := hbody.verified
  have hnotMinimum : ∀ id ∈ function.boundary, id ∉ shared.minimumLiteralOperands := by
    intro id hid
    rw [hminimum]
    exact boundary_notMinimum hverified hfunction hid
  have hempty : EnvironmentStored target verifier ⟨shared, table.locals, table.valueTypes⟩
      (fun _ => none) [] (words ++ later) := by
    simp [EnvironmentStored]
  have hparameters : List.Forall₂
      (Held target verifier ⟨shared, table.locals, table.valueTypes⟩ (words ++ later))
      (function.parameters.map (·.value)) arguments := by
    rw [List.forall₂_map_left_iff]
    apply Keyed.forall₂_imp_mem (htable.held later)
    rintro parameter hparameter value ⟨held, hrepresents, hlocals⟩
    have hboundary : parameter.value ∈ function.boundary := by
      simp only [CoreFunction.boundary, List.mem_append, List.mem_map]
      exact .inr ⟨parameter, hparameter, rfl⟩
    have htype : Keyed.find parameter.value verifier.valueTypes = some parameter.ty :=
      hverified.table function hfunction (parameter.value, parameter.ty)
        (List.mem_append_left _ (List.mem_append_left _ (List.mem_append_left _
          (List.mem_map.mpr ⟨parameter, hparameter, rfl⟩))))
    apply Held.of_represents hbody htype (hnotMinimum _ hboundary) hrepresents
    intro entry hentry index hindex
    apply hlocals entry hentry index
    rcases htable.parameters _ (Keyed.mem_of_find hindex) with hmem | hmem | hmem
    · exact hmem
    · obtain ⟨recursive, hrecursive, hsame⟩ := List.mem_map.mp hmem
      obtain ⟨-, hapart, -⟩ := hverified.boundary_distinct hfunction
      exact absurd (hsame ▸ List.mem_map.mpr ⟨parameter, hparameter, rfl⟩)
        (hapart recursive (by simpa using hrecursive))
    · exact absurd hmem (hverified.boundary_apart hfunction _ hboundary)
  have hcaptured : List.Forall₂
      (Held target verifier ⟨shared, table.locals, table.valueTypes⟩ (words ++ later))
      (function.captures.map (·.value)) captures := by
    rw [List.forall₂_map_left_iff]
    apply Keyed.forall₂_imp_mem hcaptures
    intro capture hcapture value hunit
    have hboundary : capture.value ∈ function.boundary := by
      simp only [CoreFunction.boundary, List.mem_append, List.mem_map]
      exact .inl (.inr ⟨capture, hcapture, rfl⟩)
    have htype : Keyed.find capture.value verifier.valueTypes = some capture.ty :=
      hverified.table function hfunction (capture.value, capture.ty)
        (List.mem_append_left _ (List.mem_append_left _ (List.mem_append_right _
          (List.mem_map.mpr ⟨capture, hcapture, rfl⟩))))
    constructor
    · rw [Stored, if_neg (hnotMinimum _ hboundary)]
      intro ty hty
      rw [htable.capture_unknown hverified hfunction hcapture] at hty
      cases hty
    · intro hfind
      rw [htype, Option.some.injEq] at hfind
      exact hunit hfind
  have hbound := (hempty.bind hparameters).bind hcaptured
  simpa using hbound

/-- A function that names itself stores its own slot first. -/
theorem FunctionTable.start_stored
    (htable : FunctionTable target shared function arguments words table entries)
    (hbody : BodyContext target verifier ⟨shared, table.locals, table.valueTypes⟩ machine
      importCount size leftLimit rightLimit host call invoke)
    {id : FunctionId} (hfunction : target.functions[id]? = some function)
    (hlive : shared.live.contains id = true)
    (hminimum : shared.minimumLiteralOperands = minimumLiteralOperands target shared.live)
    (hcaptures : CapturesHeld function captures) {later : List Wasm.Value}
    (hsize : (words ++ later).length = size) {entering : List Instr}
    (hstart : recursiveCode ⟨shared, table.locals, table.valueTypes⟩ function = .ok entering) :
    ∃ after, execAll machine invoke ⟨words ++ later, []⟩ entering = pure ⟨after, []⟩ ∧
      after.length = size ∧
      EnvironmentStored target verifier ⟨shared, table.locals, table.valueTypes⟩
        (function.environment captures arguments) function.boundary after := by
  have hverified := hbody.verified
  have hmem : function ∈ target.functions := List.mem_of_getElem? hfunction
  have hid := hverified.ids id function hfunction
  have hentry := htable.entry_stored hbody hmem hminimum hcaptures later
  unfold recursiveCode at hstart
  cases hrecursive : function.recursive with
  | none =>
      rw [hrecursive] at hstart
      simp only [pure_eq_ok] at hstart
      subst hstart
      refine ⟨words ++ later, by simp, hsize, ?_⟩
      simpa [CoreFunction.environment, CoreFunction.boundary, hrecursive,
        CoreEnvironment.bind] using hentry
  | some recursive =>
      rw [hrecursive] at hstart
      simp only [bind_eq_ok, pure_eq_ok, slotConst, ensure_eq_ok, decide_eq_true_eq] at hstart
      obtain ⟨constant, ⟨_, hbound, rfl⟩, store, hstore, rfl⟩ := hstart
      have hty := (hverified.boundary function hmem).recursive recursive (by simp [hrecursive])
      have htype : Keyed.find recursive.value verifier.valueTypes =
          some (functionType function.signature) := by
        rw [← hty]
        exact hverified.table function hmem (recursive.value, recursive.ty)
          (by simp [CoreFunction.definitions, hrecursive])
      have hboundary : recursive.value ∈ function.boundary := by
        simp [CoreFunction.boundary, hrecursive]
      have hnotMinimum : recursive.value ∉ shared.minimumLiteralOperands := by
        rw [hminimum]
        exact boundary_notMinimum hverified hmem hboundary
      have hrepresents : Represents target shared.live shared.builtinSlots
          (functionType function.signature) (.closure function.id captures)
          [.i32 (BitVec.ofNat 32 function.id)] := by
        refine ⟨function, ?_, ?_, hcaptures, rfl, hbound, rfl⟩
        · rw [hid]
          exact hfunction
        · rw [hid]
          exact hlive
      obtain ⟨after, hexec, hdone⟩ :=
        Done.of_store hbody hsize htype hnotMinimum hstore hrepresents
      obtain ⟨-, hparameterApart, hcaptureApart⟩ := hverified.boundary_distinct hmem
      have hupdated := hentry.update hdone (by
        intro other hother heq
        obtain rfl := List.mem_singleton.mp heq
        rcases List.mem_append.mp hother with hin | hin
        · exact hcaptureApart recursive (by simp [hrecursive]) hin
        · exact hparameterApart recursive (by simp [hrecursive]) hin)
      refine ⟨after, ?_, hdone.2.2.length.trans hsize, ?_⟩
      · rw [execAll_append, exec_slotConst, Run.pure_bind]
        exact hexec
      · simpa [CoreFunction.environment, CoreFunction.boundary, hrecursive,
          CoreEnvironment.bind] using hupdated

end Entry

/-! ## Running a function -/

/-- The code of a live function, run on the words of its arguments, simulates the
function. -/
theorem run_simulates
    (hverified : target.Verified verifier)
    (hminimum : shared.minimumLiteralOperands = minimumLiteralOperands target shared.live)
    (hmachine : MachineFacts target shared machine importCount)
    (hcalls : CallSimulates target shared importCount leftLimit rightLimit host call invoke)
    {id : FunctionId} {function : CoreFunction} {type : ℕ} {encoded : Wasm.Function}
    {signature : FuncType} {captures arguments : List CoreValue} {words : List Wasm.Value}
    (hfunction : target.functions[id]? = some function)
    (hlive : shared.live.contains id = true) (hparameterless : function.body.parameterless = true)
    (hencode : encodeFunction shared type function = .ok encoded)
    (hsignature : typeSignature function.signature.parameters function.signature.result =
      .ok signature)
    (hcaptures : CapturesHeld function captures)
    (hwords : RepresentsAll target shared.live shared.builtinSlots function.signature.parameters
      arguments words) :
    Run.Simulates (scalarSimulation exits leftLimit rightLimit)
      (Represents target shared.live shared.builtinSlots function.signature.result)
      (function.run host call captures arguments)
      (runBody machine invoke encoded signature words) := by
  have hmem : function ∈ target.functions := List.mem_of_getElem? hfunction
  have hid := hverified.ids id function hfunction
  obtain ⟨count, first, second, table, entering, inner, leaving, hcode⟩ :=
    encodeFunction_code hencode
  obtain ⟨entries, htable⟩ := hcode.table_facts hverified hmem hwords
  have hbody : BodyContext target verifier ⟨shared, table.locals, table.valueTypes⟩ machine
      importCount (words.length + table.declarations.length) leftLimit rightLimit host call
      invoke :=
    ⟨hverified, htable.fits, fun id ty hfind => htable.type_known hverified hmem hfind, hmachine,
      hcalls⟩
  have hfacts := htable.body_code hverified hmem (hid ▸ hlive) hminimum
  have hsize : (words ++ table.declarations.map ValType.zero).length =
      words.length + table.declarations.length := by
    simp
  obtain ⟨started, hstarted, hstartedSize, hstored⟩ :=
    htable.start_stored hbody hfunction hlive hminimum hcaptures hsize hcode.start
  have hverify := hverified.bodies function hmem
  simp only [Verifier.verifyFunction, bind_eq_ok, ensure_eq_ok] at hverify
  obtain ⟨_, -, _, -, _, hequivalent, _, -, _, -, bindings, -, hblock⟩ := hverify
  have hexits : ExitsRepresented target ⟨shared, table.locals, table.valueTypes⟩
      (if some function.id = verifier.target.entrypoints.head?.map (·.function) then none
        else some function.signature.result)
      (Represents target shared.live shared.builtinSlots function.signature.result) := by
    intro ty value held hty hrepresents
    split at hty
    · cases hty
    · cases hty
      exact hrepresents
  have hrun := evalBlock_simulates hbody hexits function.body hfacts hparameterless
    hblock hcode.body hstored hstartedSize (hverified.boundary_apart hmem)
  obtain ⟨bodyType, hbodyType, hbodyOutline⟩ := verifyBlock_result hblock
  have houtline := Ty.typeEquivalent_outline hequivalent
  -- the body, then the load of its result
  have hloaded : Run.Simulates
      (scalarSimulation (Represents target shared.live shared.builtinSlots
        function.signature.result) leftLimit rightLimit)
      (Represents target shared.live shared.builtinSlots function.signature.result)
      (evalBlock host call ⟨function.id, function.body.negated⟩
        (function.environment captures arguments) [] function.body)
      (execAll machine invoke ⟨words ++ table.declarations.map ValType.zero, []⟩
        (entering ++ inner ++ leaving) >>= fun frame => pure frame.stack) := by
    rw [List.append_assoc, execAll_append, hstarted, Run.pure_bind, execAll_append,
      Run.bind_assoc]
    apply simulates_bind_pure_right hrun
    rintro value ⟨after, stack⟩ ⟨hstack, hheld, -⟩
    dsimp only at hstack hheld
    subst hstack
    obtain ⟨actual, held, hactual, hrepresents, -, hexec⟩ :=
      loadValue_exec machine invoke hcode.load hheld.stored hfacts.result_notMinimum
    rw [hbody.type_eq hbodyType hactual] at hrepresents
    refine ⟨held, ?_, hrepresents.congr (hbodyOutline.trans houtline)⟩
    rw [hexec [], Run.pure_bind, List.append_nil]
  have harity : function.parameters.length = arguments.length := by
    have hparameters := (hverified.boundary function hmem).parameters
    rw [hwords.values_length, ← hparameters, List.length_map]
  have hcaught : Run.Simulates (scalarSimulation exits leftLimit rightLimit)
      (Represents target shared.live shared.builtinSlots function.signature.result)
      (function.run host call captures arguments)
      (Run.catchExit (execAll machine invoke
        ⟨words ++ table.declarations.map ValType.zero, []⟩ (entering ++ inner ++ leaving) >>=
          fun frame => pure frame.stack)) := by
    unfold CoreFunction.run
    rw [if_pos harity]
    exact Run.simulates_catchExit hloaded rfl rfl (fun h => h) (fun h => h) fun _ _ h => h
  rw [hcode.encoded]
  unfold runBody
  apply simulates_bind_pure_right hcaught
  intro value stack hrepresents
  have hcount : stack.length = signature.results.length := by
    simp only [typeSignature, bind_eq_ok, pure_eq_ok] at hsignature
    obtain ⟨_, -, layout, hlayout, rfl⟩ := hsignature
    exact hrepresents.length hlayout
  refine ⟨stack, ?_, hrepresents⟩
  rw [if_pos hcount.ge, ← hcount, List.take_length, hrepresents.reverse]

end Function

end Krit
