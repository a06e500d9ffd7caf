import Krit.ScalarLocals

/-!
# The least integer

The literal `i64::MAX + 1` is accepted only where its one use in live code is a
negation.  It is then a negated literal of the function that defines it, so the
Core run negates its value and the code stores the least integer directly.
-/

namespace Krit

open Result

mutual

theorem CoreBlock.mem_minimumLiterals {id : ValueId} : (block : CoreBlock) →
    id ∈ collectMinimumLiterals block → ∃ operation ∈ block.nested,
      operation.result = id ∧ operation.kind = .literal (.integer (i64Max + 1))
  | ⟨_, _, operations, _, _, _, _, _⟩ => mem_minimumOperations operations

theorem mem_minimumOperations {id : ValueId} : (operations : List CoreOperation) →
    id ∈ collectMinimumOperations operations → ∃ operation ∈ operationsNested operations,
      operation.result = id ∧ operation.kind = .literal (.integer (i64Max + 1))
  | [] => by simp [collectMinimumOperations]
  | ⟨result, ty, effects, requirements, source, kind⟩ :: rest => by
      intro hmem
      simp only [collectMinimumOperations, List.mem_append] at hmem
      simp only [operationsNested]
      rcases hmem with hmem | hmem
      · rcases mem_minimumKind kind hmem with ⟨rfl, rfl⟩ | ⟨operation, hoperation, hresult⟩
        · exact ⟨_, List.mem_cons_self, rfl, rfl⟩
        · exact ⟨operation, by simp [hoperation], hresult⟩
      · obtain ⟨operation, hoperation, hresult⟩ := mem_minimumOperations rest hmem
        exact ⟨operation, by simp [hoperation], hresult⟩

theorem mem_minimumKind {id result : ValueId} : (kind : OperationKind) →
    id ∈ collectMinimumKind result kind →
      (id = result ∧ kind = .literal (.integer (i64Max + 1))) ∨
        ∃ operation ∈ kind.nested,
          operation.result = id ∧ operation.kind = .literal (.integer (i64Max + 1))
  | .literal (.integer value) => by
      intro hmem
      simp only [collectMinimumKind] at hmem
      split at hmem
      · rename_i hvalue
        subst hvalue
        exact .inl ⟨by simpa using hmem, rfl⟩
      · simp at hmem
  | .block block => fun hmem => .inr (block.mem_minimumLiterals hmem)
  | .if _ consequent alternative => by
      intro hmem
      simp only [collectMinimumKind, List.mem_append] at hmem
      right
      rcases hmem with hmem | hmem
      · obtain ⟨operation, hoperation, hresult⟩ := consequent.mem_minimumLiterals hmem
        exact ⟨operation, by simp [OperationKind.nested, hoperation], hresult⟩
      · obtain ⟨operation, hoperation, hresult⟩ := alternative.mem_minimumLiterals hmem
        exact ⟨operation, by simp [OperationKind.nested, hoperation], hresult⟩
  | .matchList _ empty _ _ cons => by
      intro hmem
      simp only [collectMinimumKind, List.mem_append] at hmem
      right
      rcases hmem with hmem | hmem
      · obtain ⟨operation, hoperation, hresult⟩ := empty.mem_minimumLiterals hmem
        exact ⟨operation, by simp [OperationKind.nested, hoperation], hresult⟩
      · obtain ⟨operation, hoperation, hresult⟩ := cons.mem_minimumLiterals hmem
        exact ⟨operation, by simp [OperationKind.nested, hoperation], hresult⟩
  | .matchVariant _ _ arms => fun hmem => .inr (mem_minimumArms arms hmem)
  | .literal (.boolean _) | .literal (.string _) | .unit | .builtin _ | .variant _ _ | .list _
  | .record _ | .field _ _ | .closure _ _ _ | .call _ _ | .unary _ _ | .binary _ _ _
  | .bind _ _ | .discard _ | .exit _ => by
      simp [collectMinimumKind]

theorem mem_minimumArms {id : ValueId} : (arms : List VariantArmBlock) →
    id ∈ collectMinimumArms arms → ∃ operation ∈ armsNested arms,
      operation.result = id ∧ operation.kind = .literal (.integer (i64Max + 1))
  | [] => by simp [collectMinimumArms]
  | ⟨_, _, block⟩ :: rest => by
      intro hmem
      simp only [collectMinimumArms, List.mem_append] at hmem
      rcases hmem with hmem | hmem
      · obtain ⟨operation, hoperation, hresult⟩ := block.mem_minimumLiterals hmem
        exact ⟨operation, by simp [armsNested, hoperation], hresult⟩
      · obtain ⟨operation, hoperation, hresult⟩ := mem_minimumArms rest hmem
        exact ⟨operation, by simp [armsNested, hoperation], hresult⟩

end

section Literals

variable {target : CoreModule} {verifier : Verifier} {live : LiveFunctions}

theorem LiveFunctions.mem_inModule {function : CoreFunction} :
    function ∈ live.inModule target ↔
      function ∈ target.functions ∧ live.contains function.id = true := by
  simp [LiveFunctions.inModule]

/-- What it takes to be the negated literal: it is defined in live code, and its
only use there is a negation. -/
theorem mem_minimumLiteralOperands {id : ValueId} :
    id ∈ minimumLiteralOperands target live ↔
      (∃ function ∈ live.inModule target, id ∈ collectMinimumLiterals function.body) ∧
        ((live.inModule target).flatMap fun function => function.body.uses).filter
          (fun entry => entry.1 == id) = [(id, true)] := by
  simp [minimumLiteralOperands, List.mem_filter, List.mem_flatMap]

/-- A use that is not a negation rules the literal out. -/
theorem use_notMinimum {function : CoreFunction} (hfunction : function ∈ live.inModule target)
    {use : ValueId × Bool} (huse : use ∈ function.body.uses) (hother : use.2 = false) :
    use.1 ∉ minimumLiteralOperands target live := by
  intro hmem
  have honly := (mem_minimumLiteralOperands.mp hmem).2
  have hfiltered : use ∈ ((live.inModule target).flatMap fun function =>
      function.body.uses).filter (fun entry => entry.1 == use.1) :=
    List.mem_filter.mpr ⟨List.mem_flatMap.mpr ⟨function, hfunction, huse⟩, by simp⟩
  rw [honly, List.mem_singleton] at hfiltered
  have hnegation := congrArg Prod.snd hfiltered
  simp [hother] at hnegation

theorem CoreModule.Verified.functions_nodup (hverified : target.Verified verifier) :
    target.functions.Nodup := by
  rw [List.nodup_iff_getElem?_ne_getElem?]
  intro first second hlt hsecond heq
  obtain ⟨function, hfunction⟩ : ∃ function, target.functions[first]? = some function :=
    ⟨_, List.getElem?_eq_getElem (by omega)⟩
  have hfirstId := hverified.ids first function hfunction
  have hsecondId := hverified.ids second function (heq ▸ hfunction)
  exact hlt.ne (hfirstId.symm.trans hsecondId)

/-- The literal belongs to the body that defines it. -/
theorem minimum_owner (hverified : target.Verified verifier) {id : ValueId}
    (hid : id ∈ minimumLiteralOperands target live) :
    ∃ function ∈ live.inModule target, ∃ operation ∈ function.body.nested,
      operation.result = id ∧ operation.kind = .literal (.integer (i64Max + 1)) ∧
        id ∈ function.body.negated := by
  obtain ⟨⟨function, hfunction, hliteral⟩, honly⟩ := mem_minimumLiteralOperands.mp hid
  obtain ⟨operation, hoperation, hresult, hkind⟩ := function.body.mem_minimumLiterals hliteral
  refine ⟨function, hfunction, operation, hoperation, hresult, hkind, ?_⟩
  have hmem := (LiveFunctions.mem_inModule.mp hfunction).1
  have hdefined : id ∈ function.definitions.map Prod.fst :=
    CoreFunction.mem_definitions.mpr
      (.inr (hresult ▸ CoreBlock.nested_result_mem hoperation))
  -- other functions do not use a value of this one
  rw [List.filter_flatMap] at honly
  have hbody : ((live.inModule target).flatMap fun other =>
      other.body.uses.filter fun entry => entry.1 == id) =
        function.body.uses.filter fun entry => entry.1 == id := by
    apply Keyed.flatMap_eq_of_unique (hverified.functions_nodup.filter _) hfunction
    intro other hother hne
    rw [List.filter_eq_nil_iff]
    intro use huse heq
    have hotherMem := (LiveFunctions.mem_inModule.mp hother).1
    have hown := hverified.uses_own hotherMem huse
    rw [beq_iff_eq.mp heq] at hown
    exact hne (hverified.owner_unique hotherMem hmem hown hdefined)
  rw [hbody] at honly
  have huse : (id, true) ∈ function.body.uses := by
    have hfiltered : (id, true) ∈ function.body.uses.filter fun entry => entry.1 == id := by
      rw [honly]
      exact List.mem_singleton.mpr rfl
    exact (List.mem_filter.mp hfiltered).1
  exact List.mem_map.mpr ⟨(id, true), List.mem_filter.mpr ⟨huse, by simp [honly]⟩, rfl⟩

theorem minimum_operation (hverified : target.Verified verifier) {function : CoreFunction}
    (hfunction : function ∈ target.functions) {operation : CoreOperation}
    (hoperation : operation ∈ function.body.nested)
    (hminimum : operation.result ∈ minimumLiteralOperands target live) :
    operation.kind = .literal (.integer (i64Max + 1)) ∧
      operation.result ∈ function.body.negated := by
  obtain ⟨owner, howner, literal, hliteral, hresult, hkind, hnegated⟩ :=
    minimum_owner hverified hminimum
  have howned : operation.result ∈ owner.definitions.map Prod.fst :=
    CoreFunction.mem_definitions.mpr (.inr (hresult ▸ CoreBlock.nested_result_mem hliteral))
  have hdefined : operation.result ∈ function.definitions.map Prod.fst :=
    CoreFunction.mem_definitions.mpr (.inr (CoreBlock.nested_result_mem hoperation))
  obtain rfl := hverified.owner_unique (LiveFunctions.mem_inModule.mp howner).1 hfunction howned
    hdefined
  obtain rfl := CoreBlock.nested_unique (hverified.body_distinct hfunction) hliteral hoperation
    hresult
  exact ⟨hkind, hnegated⟩

/-- The literal is not a value of a boundary. -/
theorem boundary_notMinimum (hverified : target.Verified verifier) {function : CoreFunction}
    (hfunction : function ∈ target.functions) {id : ValueId} (hid : id ∈ function.boundary) :
    id ∉ minimumLiteralOperands target live := by
  intro hminimum
  obtain ⟨owner, howner, literal, hliteral, hresult, -, -⟩ := minimum_owner hverified hminimum
  have howned : id ∈ owner.body.definitions.map Prod.fst :=
    hresult ▸ CoreBlock.nested_result_mem hliteral
  obtain rfl := hverified.owner_unique (LiveFunctions.mem_inModule.mp howner).1 hfunction
    (CoreFunction.mem_definitions.mpr (.inr howned))
    (CoreFunction.mem_definitions.mpr (.inl hid))
  exact hverified.boundary_apart hfunction id hid howned

end Literals

end Krit
