import Krit.CoreSafety

/-!
# Scopes of verified Core

A verified function uses only the values of its boundary and the values its body
defines.  Because values are numbered over the whole module, a value that a
function uses and that some body defines is defined by that function's own body.
-/

namespace Krit

open Result

section Uses

variable {verifier : Verifier} {exit : Option Ty}

/-- An operand comes from outside or is defined inside. -/
def InScope (incoming : List ValueId) (definitions : List (ValueId × Ty))
    (use : ValueId × Bool) : Prop :=
  use.1 ∈ incoming ∨ use.1 ∈ definitions.map Prod.fst

theorem InScope.mono {incoming : List ValueId} {definitions more : List (ValueId × Ty)}
    {use : ValueId × Bool} (hscope : InScope incoming definitions use)
    (hmore : definitions ⊆ more) : InScope incoming more use :=
  hscope.imp id fun hmem => List.map_subset _ hmore hmem

theorem operations_results_defined (operations : List CoreOperation) :
    ∀ id ∈ operations.map (·.result), id ∈ (operationsDefinitions operations).map Prod.fst := by
  induction operations with
  | nil => simp
  | cons operation rest ih =>
      obtain ⟨result, ty, _, _, _, kind⟩ := operation
      intro id hid
      simp only [operationsDefinitions, CoreOperation.definitions, List.map_append,
        List.map_cons, List.mem_append, List.mem_cons] at hid ⊢
      rcases hid with rfl | hmem
      · exact .inl (.inl rfl)
      · exact .inr (ih id hmem)

section Obligations

variable (verifier exit)

/-- A verified block uses what is available and what it defines. -/
def BlockInScope (block : CoreBlock) : Prop :=
  ∀ ⦃incoming : List ValueId⦄ ⦃bindings : List (BindingId × ValueId)⦄,
  verifier.verifyBlock incoming bindings exit block = .ok () →
    ∀ use ∈ block.uses, InScope incoming block.definitions use

def KindInScope (kind : OperationKind) : Prop :=
  ∀ ⦃available : List ValueId⦄ ⦃bindings : List (BindingId × ValueId)⦄ ⦃result : ValueId⦄
    ⦃ty : Ty⦄ ⦃effects : EffectSet⦄,
  verifier.verifyKind available bindings exit result ty effects kind = .ok () →
    ∀ use ∈ kind.uses, InScope available kind.definitions use

def ArmsInScope (arms : List VariantArmBlock) : Prop :=
  ∀ ⦃available : List ValueId⦄ ⦃bindings : List (BindingId × ValueId)⦄ ⦃result : ValueId⦄
    ⦃ty : Ty⦄ ⦃payloads : List (VariantName × Option Ty)⦄ ⦃seen : List VariantName⦄,
  verifier.verifyArms available bindings exit result ty payloads seen arms = .ok () →
    ∀ use ∈ armsUses arms, InScope available (armsDefinitions arms) use

end Obligations

section Kinds

attribute [local grind =] Verifier.verifyKind OperationKind.uses

/-- The kinds that read one operand, which the verifier asks for first. -/
theorem operand_inScope {kind : OperationKind} {operand : ValueId} {sign : Bool}
    (huses : kind.uses = [(operand, sign)])
    (havailable : ∀ available bindings result ty effects,
      verifier.verifyKind available bindings exit result ty effects kind = .ok () →
        operand ∈ available) : KindInScope verifier exit kind := by
  intro available bindings result ty effects hverify use huse
  obtain rfl : use = (operand, sign) := by simpa [huses] using huse
  exact .inl (havailable _ _ _ _ _ hverify)

theorem variant_inScope (variant : VariantName) (payload : Option ValueId) :
    KindInScope verifier exit (.variant variant payload) := by
  intro available bindings result ty effects hverify use huse
  cases payload with
  | none => simp [OperationKind.uses] at huse
  | some payload =>
      simp only [Verifier.verifyKind, bind_eq_ok, Verifier.requireAvailable_eq_ok] at hverify
      obtain ⟨_, havailable, -⟩ := hverify
      obtain rfl : use = (payload, false) := by simpa [OperationKind.uses] using huse
      exact .inl havailable

theorem list_inScope (elements : List ValueId) : KindInScope verifier exit (.list elements) := by
  intro available bindings result ty effects hverify use huse
  simp only [Verifier.verifyKind] at hverify
  split at hverify
  · simp only [bind_eq_ok, forEach_eq_ok, Verifier.requireAvailable_eq_ok] at hverify
    obtain ⟨_, helements, -⟩ := hverify
    simp only [OperationKind.uses, List.mem_map] at huse
    obtain ⟨element, helement, rfl⟩ := huse
    obtain ⟨_, havailable, -⟩ := helements element helement
    exact .inl havailable
  · simp at hverify

theorem record_inScope (fields : List (String × ValueId)) :
    KindInScope verifier exit (.record fields) := by
  intro available bindings result ty effects hverify use huse
  simp only [Verifier.verifyKind] at hverify
  split at hverify
  · simp only [bind_eq_ok] at hverify
    obtain ⟨_, -, _, -, _, hoperands, -⟩ := hverify
    obtain ⟨hfields, -, -⟩ := verifyRecordOperand_ok hoperands
    simp only [OperationKind.uses, List.mem_map] at huse
    obtain ⟨field, hfield, rfl⟩ := huse
    exact .inl (hfields field hfield).1
  · simp at hverify

theorem closure_inScope (closure : ClosureId) (function : FunctionId)
    (captures : List CaptureArgument) :
    KindInScope verifier exit (.closure closure function captures) := by
  intro available bindings result ty effects hverify use huse
  simp only [Verifier.verifyKind, bind_eq_ok, ensure_eq_ok, beq_iff_eq,
    forEach_eq_ok] at hverify
  obtain ⟨closed, -, _, -, _, hlength, _, hcaptures, -⟩ := hverify
  simp only [OperationKind.uses, List.mem_map] at huse
  obtain ⟨capture, hcapture, rfl⟩ := huse
  obtain ⟨index, hindex, rfl⟩ := List.getElem_of_mem hcapture
  have hbound : index < closed.captures.length := hlength ▸ hindex
  have hpair := hcaptures (captures[index], closed.captures[index])
    (List.mem_iff_getElem.mpr ⟨index, by simp [hbound, hindex], by simp⟩)
  simp only [Verifier.verifyCapture, bind_eq_ok, Verifier.requireAvailable_eq_ok] at hpair
  obtain ⟨_, -, _, -, _, havailable, -⟩ := hpair
  exact .inl havailable

theorem call_inScope (callee : ValueId) (arguments : List ValueId) :
    KindInScope verifier exit (.call callee arguments) := by
  intro available bindings result ty effects hverify use huse
  simp only [Verifier.verifyKind, bind_eq_ok, Verifier.requireAvailable_eq_ok,
    Verifier.valueType_eq_ok] at hverify
  obtain ⟨_, hcallee, calleeType, -, hverify⟩ := hverify
  split at hverify
  · simp only [bind_eq_ok, ensure_eq_ok, beq_iff_eq, forEach_eq_ok,
      Verifier.requireAvailable_eq_ok] at hverify
    obtain ⟨_, hlength, _, harguments, -⟩ := hverify
    simp only [OperationKind.uses, List.mem_cons, List.mem_map] at huse
    rcases huse with rfl | ⟨argument, hargument, rfl⟩
    · exact .inl hcallee
    · obtain ⟨ty, hpair⟩ := exists_zip_right hlength hargument
      obtain ⟨_, havailable, -⟩ := harguments _ hpair
      exact .inl havailable
  · simp at hverify

theorem if_inScope (condition : ValueId) {consequent alternative : CoreBlock}
    (hconsequentScope : BlockInScope verifier exit consequent)
    (halternativeScope : BlockInScope verifier exit alternative) :
    KindInScope verifier exit (.if condition consequent alternative) := by
  intro available bindings result ty effects hverify use huse
  simp only [Verifier.verifyKind, bind_eq_ok, Verifier.requireAvailable_eq_ok] at hverify
  obtain ⟨_, havailable, _, -, _, hconsequent, _, halternative, -⟩ := hverify
  simp only [OperationKind.uses, List.mem_cons, List.mem_append] at huse
  rcases huse with rfl | hmem | hmem
  · exact .inl havailable
  · exact (hconsequentScope hconsequent use hmem).mono (by simp [OperationKind.definitions])
  · exact (halternativeScope halternative use hmem).mono (by simp [OperationKind.definitions])

theorem matchList_inScope (subject : ValueId) (head tail : MatchBindingId)
    {empty cons : CoreBlock} (hemptyScope : BlockInScope verifier exit empty)
    (hconsScope : BlockInScope verifier exit cons) :
    KindInScope verifier exit (.matchList subject empty head tail cons) := by
  intro available bindings result ty effects hverify use huse
  simp only [Verifier.verifyKind, bind_eq_ok, Verifier.requireAvailable_eq_ok] at hverify
  obtain ⟨_, havailable, subjectType, -, hverify⟩ := hverify
  split at hverify
  · simp only [bind_eq_ok] at hverify
    obtain ⟨_, hempty, _, hcons, -⟩ := hverify
    simp only [OperationKind.uses, List.mem_cons, List.mem_append] at huse
    rcases huse with rfl | hmem | hmem
    · exact .inl havailable
    · exact (hemptyScope hempty use hmem).mono (by simp [OperationKind.definitions])
    · exact (hconsScope hcons use hmem).mono (by simp [OperationKind.definitions])
  · simp at hverify

theorem matchVariant_inScope (subject : ValueId) (family : VariantFamily)
    {arms : List VariantArmBlock} (harmsScope : ArmsInScope verifier exit arms) :
    KindInScope verifier exit (.matchVariant subject family arms) := by
  intro available bindings result ty effects hverify use huse
  simp only [Verifier.verifyKind, bind_eq_ok, Verifier.requireAvailable_eq_ok] at hverify
  obtain ⟨_, havailable, _, -, payloads, -, _, -, _, harms, -⟩ := hverify
  simp only [OperationKind.uses, List.mem_cons] at huse
  rcases huse with rfl | hmem
  · exact .inl havailable
  · exact harmsScope harms use hmem

theorem binary_inScope (left : ValueId) (operator : BinaryOperator) (right : ValueId) :
    KindInScope verifier exit (.binary left operator right) := by
  intro available bindings result ty effects hverify use huse
  simp only [Verifier.verifyKind, bind_eq_ok, Verifier.requireAvailable_eq_ok] at hverify
  obtain ⟨_, hleft, _, hright, -⟩ := hverify
  simp only [OperationKind.uses, List.mem_cons, List.not_mem_nil, or_false] at huse
  rcases huse with rfl | rfl
  · exact .inl hleft
  · exact .inl hright

end Kinds

mutual

theorem verifyBlock_inScope : (block : CoreBlock) → BlockInScope verifier exit block
  | ⟨_, parameters, operations, result, _, _, _, _⟩ => by
      intro incoming bindings hverify use huse
      simp only [Verifier.verifyBlock, bind_eq_ok, Verifier.requireAvailable_eq_ok] at hverify
      obtain ⟨inner, -, _, hoperations, _, hresult, -⟩ := hverify
      have hdefined : ∀ id ∈ operations.map (·.result),
          id ∈ (operationsDefinitions operations).map Prod.fst :=
        operations_results_defined operations
      simp only [CoreBlock.uses, List.mem_append, List.mem_singleton] at huse
      simp only [InScope, CoreBlock.definitions, List.map_append, List.map_map, List.mem_append,
        Function.comp_def]
      rcases huse with hinner | rfl
      · rcases verifyOperations_inScope operations hoperations use hinner with hmem | hmem
        · simp only [List.mem_append] at hmem
          tauto
        · exact .inr (.inr hmem)
      · simp only [List.mem_append] at hresult
        rcases hresult with hmem | hmem | hmem
        · exact .inr (.inr (hdefined _ hmem))
        · exact .inr (.inl hmem)
        · exact .inl hmem

theorem verifyOperations_inScope : (operations : List CoreOperation) →
    ∀ ⦃id : BlockId⦄ ⦃blockResult : ValueId⦄ ⦃available : List ValueId⦄
      ⦃bindings : List (BindingId × ValueId)⦄,
    verifier.verifyOperations id blockResult available bindings exit operations = .ok () →
      ∀ use ∈ operationsUses operations, InScope available (operationsDefinitions operations) use
  | [] => by
      intro id blockResult available bindings _ use huse
      simp [operationsUses] at huse
  | ⟨result, ty, effects, requirements, source, kind⟩ :: rest => by
      intro id blockResult available bindings hverify use huse
      simp only [Verifier.verifyOperations, Verifier.verifyOperation, bind_eq_ok] at hverify
      obtain ⟨_, ⟨_, hkind, -⟩, _, -, inner, -, hrest⟩ := hverify
      simp only [operationsUses, List.mem_append] at huse
      rcases huse with hmem | hmem
      · apply (verifyKind_inScope kind hkind use hmem).mono
        intro entry hentry
        simp [operationsDefinitions, CoreOperation.definitions, hentry]
      · rcases verifyOperations_inScope rest hrest use hmem with hin | hin
        · rcases List.mem_cons.mp hin with heq | hin
          · right
            simp [operationsDefinitions, CoreOperation.definitions, heq]
          · exact .inl hin
        · right
          simp only [operationsDefinitions, List.map_append, List.mem_append]
          exact .inr hin

theorem verifyKind_inScope : (kind : OperationKind) → KindInScope verifier exit kind
  | .literal _ | .unit | .builtin _ => by
      intro available bindings result ty effects _ use huse
      simp [OperationKind.uses] at huse
  | .variant variant payload => variant_inScope variant payload
  | .list elements => list_inScope elements
  | .record fields => record_inScope fields
  | .closure closure function captures => closure_inScope closure function captures
  | .call callee arguments => call_inScope callee arguments
  | .block block => by
      intro available bindings result ty effects hverify use huse
      simp only [Verifier.verifyKind, bind_eq_ok] at hverify
      obtain ⟨_, hblock, -⟩ := hverify
      exact verifyBlock_inScope block hblock use huse
  | .if condition consequent alternative =>
      if_inScope condition (verifyBlock_inScope consequent) (verifyBlock_inScope alternative)
  | .matchList subject empty head tail cons =>
      matchList_inScope subject head tail (verifyBlock_inScope empty) (verifyBlock_inScope cons)
  | .matchVariant subject family arms =>
      matchVariant_inScope subject family (verifyArms_inScope arms)
  | .binary left operator right => binary_inScope left operator right
  | .field _ _ | .unary _ _ | .bind _ _ | .discard _ | .exit _ => by
      refine operand_inScope rfl fun available bindings result ty effects hverify => ?_
      simp only [Verifier.verifyKind, bind_eq_ok, Verifier.requireAvailable_eq_ok] at hverify
      obtain ⟨_, havailable, -⟩ := hverify
      exact havailable

theorem verifyArms_inScope : (arms : List VariantArmBlock) → ArmsInScope verifier exit arms
  | [] => by
      intro available bindings result ty payloads seen _ use huse
      simp [armsUses] at huse
  | ⟨variant, binding, block⟩ :: rest => by
      intro available bindings result ty payloads seen hverify use huse
      simp only [Verifier.verifyArms, bind_eq_ok] at hverify
      obtain ⟨_, -, expected, -, _, -, _, hblock, _, -, hrest⟩ := hverify
      simp only [armsUses, List.mem_append] at huse
      rcases huse with hmem | hmem
      · exact (verifyBlock_inScope block hblock use hmem).mono (by simp [armsDefinitions])
      · exact (verifyArms_inScope rest hrest use hmem).mono (by simp [armsDefinitions])

end

end Uses

/-! ## Distinct values -/

mutual

/-- The operations of a block define their results in the order of the text. -/
theorem CoreBlock.nested_sublist : (block : CoreBlock) →
    (block.nested.map fun operation => (operation.result, operation.ty)).Sublist
      block.definitions
  | ⟨_, parameters, operations, _, _, _, _, _⟩ => by
      simp only [CoreBlock.nested, CoreBlock.definitions]
      exact (operationsNested_sublist operations).trans (List.sublist_append_right _ _)

theorem operationsNested_sublist : (operations : List CoreOperation) →
    ((operationsNested operations).map fun operation => (operation.result, operation.ty)).Sublist
      (operationsDefinitions operations)
  | [] => by simp [operationsNested, operationsDefinitions]
  | ⟨result, ty, _, _, _, kind⟩ :: rest => by
      simp only [operationsNested, operationsDefinitions, CoreOperation.definitions,
        List.map_cons, List.map_append, List.cons_append]
      exact List.Sublist.cons_cons _
        ((OperationKind.nested_sublist kind).append (operationsNested_sublist rest))

theorem OperationKind.nested_sublist : (kind : OperationKind) →
    (kind.nested.map fun operation => (operation.result, operation.ty)).Sublist
      kind.definitions
  | .block block => by
      simpa only [OperationKind.nested, OperationKind.definitions] using block.nested_sublist
  | .if _ consequent alternative => by
      simp only [OperationKind.nested, OperationKind.definitions, List.map_append]
      exact consequent.nested_sublist.append alternative.nested_sublist
  | .matchList _ empty _ _ cons => by
      simp only [OperationKind.nested, OperationKind.definitions, List.map_append]
      exact empty.nested_sublist.append cons.nested_sublist
  | .matchVariant _ _ arms => by
      simpa only [OperationKind.nested, OperationKind.definitions] using
        armsNested_sublist arms
  | .literal _ | .unit | .builtin _ | .variant _ _ | .list _ | .record _ | .field _ _
  | .closure _ _ _ | .call _ _ | .unary _ _ | .binary _ _ _ | .bind _ _ | .discard _
  | .exit _ => by
      simp [OperationKind.nested, OperationKind.definitions]

theorem armsNested_sublist : (arms : List VariantArmBlock) →
    ((armsNested arms).map fun operation => (operation.result, operation.ty)).Sublist
      (armsDefinitions arms)
  | [] => by simp [armsNested, armsDefinitions]
  | ⟨_, _, block⟩ :: rest => by
      simp only [armsNested, armsDefinitions, List.map_append]
      exact block.nested_sublist.append (armsNested_sublist rest)

end

theorem CoreBlock.nested_result_mem {block : CoreBlock} {operation : CoreOperation}
    (hoperation : operation ∈ block.nested) :
    operation.result ∈ block.definitions.map Prod.fst :=
  List.mem_map.mpr ⟨(operation.result, operation.ty),
    block.nested_sublist.subset (List.mem_map.mpr ⟨operation, hoperation, rfl⟩), rfl⟩

/-- Operations of a block with distinct definitions are told apart by their
results. -/
theorem CoreBlock.nested_unique {block : CoreBlock}
    (hdistinct : (block.definitions.map Prod.fst).Nodup) {first second : CoreOperation}
    (hfirst : first ∈ block.nested) (hsecond : second ∈ block.nested)
    (hresult : first.result = second.result) : first = second := by
  have hresults : (block.nested.map (·.result)).Nodup := by
    have hsublist := block.nested_sublist.map Prod.fst
    rw [List.map_map] at hsublist
    exact hdistinct.sublist hsublist
  exact List.inj_on_of_nodup_map hresults hfirst hsecond hresult

section Module

variable {target : CoreModule} {verifier : Verifier}

theorem CoreModule.Verified.function_distinct (hverified : target.Verified verifier)
    {function : CoreFunction} (hfunction : function ∈ target.functions) :
    (function.definitions.map Prod.fst).Nodup := by
  have hdistinct := hverified.distinct
  rw [List.map_flatMap, List.nodup_flatMap] at hdistinct
  exact hdistinct.1 function hfunction

/-- A value belongs to one function. -/
theorem CoreModule.Verified.owner_unique (hverified : target.Verified verifier)
    {first second : CoreFunction} (hfirst : first ∈ target.functions)
    (hsecond : second ∈ target.functions) {id : ValueId}
    (hfirstId : id ∈ first.definitions.map Prod.fst)
    (hsecondId : id ∈ second.definitions.map Prod.fst) : first = second := by
  have hdistinct := hverified.distinct
  rw [List.map_flatMap, List.nodup_flatMap] at hdistinct
  by_contra hne
  have hsymm : Std.Symm (Function.onFun List.Disjoint
      fun function : CoreFunction => function.definitions.map Prod.fst) :=
    ⟨fun _ _ hdisjoint => List.Disjoint.symm hdisjoint⟩
  exact hdistinct.2.forall hfirst hsecond hne hfirstId hsecondId

/-- The values of a function's boundary. -/
def CoreFunction.boundary (function : CoreFunction) : List ValueId :=
  function.recursive.toList.map (·.value) ++ function.captures.map (·.value) ++
    function.parameters.map (·.value)

theorem CoreFunction.mem_definitions {function : CoreFunction} {id : ValueId} :
    id ∈ function.definitions.map Prod.fst ↔
      id ∈ function.boundary ∨ id ∈ function.body.definitions.map Prod.fst := by
  simp only [CoreFunction.definitions, CoreFunction.boundary, List.map_append, List.map_map,
    List.mem_append, Function.comp_def]
  tauto

theorem CoreModule.Verified.boundary_apart (hverified : target.Verified verifier)
    {function : CoreFunction} (hfunction : function ∈ target.functions) :
    ∀ id ∈ function.boundary, id ∉ function.body.definitions.map Prod.fst := by
  have hdistinct := hverified.function_distinct hfunction
  intro id hid hmem
  simp only [CoreFunction.definitions, List.map_append, List.map_map] at hdistinct
  have hdisjoint := (List.nodup_append.mp hdistinct).2.2
  apply hdisjoint id _ id hmem rfl
  simp only [CoreFunction.boundary, List.mem_append] at hid
  simp only [List.mem_append, Function.comp_def]
  tauto

theorem CoreModule.Verified.body_distinct (hverified : target.Verified verifier)
    {function : CoreFunction} (hfunction : function ∈ target.functions) :
    (function.body.definitions.map Prod.fst).Nodup := by
  have hdistinct := hverified.function_distinct hfunction
  simp only [CoreFunction.definitions, List.map_append] at hdistinct
  exact (List.nodup_append.mp hdistinct).2.1

/-- A verified function uses only its own values. -/
theorem CoreModule.Verified.uses_own (hverified : target.Verified verifier)
    {function : CoreFunction} (hfunction : function ∈ target.functions) {use : ValueId × Bool}
    (huse : use ∈ function.body.uses) : use.1 ∈ function.definitions.map Prod.fst := by
  have hbody := hverified.bodies function hfunction
  simp only [Verifier.verifyFunction, bind_eq_ok] at hbody
  obtain ⟨_, -, _, -, _, -, _, -, _, -, bindings, -, hblock⟩ := hbody
  rw [CoreFunction.mem_definitions]
  exact verifyBlock_inScope function.body hblock use huse

end Module

end Krit
