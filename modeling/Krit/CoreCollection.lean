import Krit.CoreVerifier

/-!
# What collection establishes

After the first pass of the verifier the table of value types holds exactly the
definitions of the module, each under its own number: values are numbered over
the whole module, and a number defined twice is refused.  The second pass may
therefore read the type of an operand from the table.
-/

namespace Krit

open Result

/-- Every value a function defines, in the order in which collection meets it. -/
def CoreFunction.definitions (function : CoreFunction) : List (ValueId × Ty) :=
  function.parameters.map (fun parameter => (parameter.value, parameter.ty)) ++
    function.captures.map (fun capture => (capture.value, capture.ty)) ++
    function.recursive.toList.map (fun recursive => (recursive.value, recursive.ty)) ++
    function.body.definitions

namespace Verifier

/-- From `before` to `after` collection entered exactly these definitions. -/
structure Collects (before after : Verifier) (definitions : List (ValueId × Ty)) : Prop where
  target : after.target = before.target
  valueTypes : after.valueTypes = definitions.reverse ++ before.valueTypes
  nodup :
    (before.valueTypes.map Prod.fst).Nodup → (after.valueTypes.map Prod.fst).Nodup

theorem Collects.trans {self middle other : Verifier}
    {first second : List (ValueId × Ty)}
    (hfirst : Collects self middle first) (hsecond : Collects middle other second) :
    Collects self other (first ++ second) where
  target := hsecond.target.trans hfirst.target
  valueTypes := by
    rw [hsecond.valueTypes, hfirst.valueTypes]
    simp
  nodup := fun hnodup => hsecond.nodup (hfirst.nodup hnodup)

/-- A step that leaves the table of value types alone. -/
theorem Collects.of_eq {self other : Verifier} (htarget : other.target = self.target)
    (hvalueTypes : other.valueTypes = self.valueTypes) :
    Collects self other [] where
  target := htarget
  valueTypes := by simpa using hvalueTypes
  nodup := by simp [hvalueTypes]

theorem Collects.of_same {self middle other : Verifier} {definitions : List (ValueId × Ty)}
    (hcollects : Collects middle other definitions)
    (htarget : middle.target = self.target)
    (hvalueTypes : middle.valueTypes = self.valueTypes) :
    Collects self other definitions := by
  simpa using (Collects.of_eq htarget hvalueTypes).trans hcollects

theorem insertValue_collects {self other : Verifier} {id : ValueId} {ty : Ty}
    (hinsert : self.insertValue id ty = .ok other) :
    Collects self other [(id, ty)] := by
  unfold insertValue at hinsert
  split at hinsert
  · simp at hinsert
  · rename_i hfind
    simp only [pure_eq_ok] at hinsert
    subst hinsert
    refine ⟨rfl, rfl, fun hnodup => ?_⟩
    simp only [List.map_cons, List.nodup_cons]
    exact ⟨Keyed.find_eq_none_iff.mp hfind, hnodup⟩

theorem collectBlockParameters_collects {parameters : List BlockParameter} :
    ∀ self other : Verifier, self.collectBlockParameters parameters = .ok other →
      Collects self other
        (parameters.map fun parameter => (parameter.value, parameter.ty)) := by
  induction parameters with
  | nil =>
      intro self other hcollect
      simp only [collectBlockParameters, pure_eq_ok] at hcollect
      subst hcollect
      exact Collects.of_eq rfl rfl
  | cons parameter rest ih =>
      intro self other hcollect
      simp only [collectBlockParameters, bind_eq_ok] at hcollect
      obtain ⟨_, -, inserted, hinsert, -, -, -, -, hrest⟩ := hcollect
      have hvalue : Collects self inserted [(parameter.value, parameter.ty)] :=
        (insertValue_collects hinsert).of_same rfl rfl
      exact hvalue.trans (ih _ _ hrest)

theorem noteOperation_collects (self : Verifier) (result : ValueId) (kind : OperationKind) :
    Collects self (self.noteOperation result kind) [] := by
  unfold noteOperation
  split <;> exact Collects.of_eq rfl rfl

mutual

theorem collectBlock_collects : (block : CoreBlock) → ∀ self other : Verifier,
    self.collectBlock block = .ok other → Collects self other block.definitions
  | ⟨_, parameters, operations, _, _, _, _, _⟩ => by
      intro self other hcollect
      simp only [collectBlock, bind_eq_ok] at hcollect
      obtain ⟨_, -, bound, hparameters, hoperations⟩ := hcollect
      have hbound : Collects self bound _ :=
        (collectBlockParameters_collects _ _ hparameters).of_same rfl rfl
      exact hbound.trans (collectOperations_collects operations _ _ hoperations)

theorem collectOperations_collects : (operations : List CoreOperation) →
    ∀ self other : Verifier, self.collectOperations operations = .ok other →
      Collects self other (operationsDefinitions operations)
  | [] => by
      intro self other hcollect
      simp only [collectOperations, pure_eq_ok] at hcollect
      subst hcollect
      exact Collects.of_eq rfl rfl
  | operation :: rest => by
      intro self other hcollect
      simp only [collectOperations, bind_eq_ok] at hcollect
      obtain ⟨middle, hoperation, hrest⟩ := hcollect
      exact (collectOperation_collects operation _ _ hoperation).trans
        (collectOperations_collects rest _ _ hrest)

theorem collectOperation_collects : (operation : CoreOperation) →
    ∀ self other : Verifier, self.collectOperation operation = .ok other →
      Collects self other operation.definitions
  | ⟨result, ty, _, _, _, kind⟩ => by
      intro self other hcollect
      simp only [collectOperation, bind_eq_ok] at hcollect
      obtain ⟨inserted, hinsert, hkind⟩ := hcollect
      have hnote := noteOperation_collects inserted result kind
      have hrest := hnote.trans (collectKind_collects kind _ _ hkind)
      exact (insertValue_collects hinsert).trans hrest

theorem collectKind_collects : (kind : OperationKind) → ∀ self other : Verifier,
    self.collectKind kind = .ok other → Collects self other kind.definitions
  | .block block => collectBlock_collects block
  | .closure _ _ _ => by
      intro self other hcollect
      simp only [collectKind, bind_eq_ok, pure_eq_ok] at hcollect
      obtain ⟨_, -, rfl⟩ := hcollect
      exact Collects.of_eq rfl rfl
  | .if _ consequent alternative => by
      intro self other hcollect
      simp only [collectKind, bind_eq_ok] at hcollect
      obtain ⟨middle, hconsequent, halternative⟩ := hcollect
      exact (collectBlock_collects consequent _ _ hconsequent).trans
        (collectBlock_collects alternative _ _ halternative)
  | .matchList _ empty _ _ cons => by
      intro self other hcollect
      simp only [collectKind, bind_eq_ok] at hcollect
      obtain ⟨middle, hempty, hcons⟩ := hcollect
      exact (collectBlock_collects empty _ _ hempty).trans (collectBlock_collects cons _ _ hcons)
  | .matchVariant _ _ arms => collectArms_collects arms
  | .literal _ | .unit | .builtin _ | .variant _ _ | .list _ | .record _ | .field _ _
  | .call _ _ | .unary _ _ | .binary _ _ _ | .bind _ _ | .discard _ | .exit _ => by
      intro self other hcollect
      simp only [collectKind, pure_eq_ok] at hcollect
      subst hcollect
      exact Collects.of_eq rfl rfl

theorem collectArms_collects : (arms : List VariantArmBlock) →
    ∀ self other : Verifier, self.collectArms arms = .ok other →
      Collects self other (armsDefinitions arms)
  | [] => by
      intro self other hcollect
      simp only [collectArms, pure_eq_ok] at hcollect
      subst hcollect
      exact Collects.of_eq rfl rfl
  | ⟨_, _, block⟩ :: rest => by
      intro self other hcollect
      simp only [collectArms, bind_eq_ok] at hcollect
      obtain ⟨middle, hblock, hrest⟩ := hcollect
      exact (collectBlock_collects block _ _ hblock).trans (collectArms_collects rest _ _ hrest)

end

theorem collectParameters_collects {id : FunctionId} {pairs : List (CoreParameter × Ty)} :
    ∀ self other : Verifier, self.collectParameters id pairs = .ok other →
      Collects self other (pairs.map fun pair => (pair.1.value, pair.1.ty)) ∧
        ∀ pair ∈ pairs, pair.1.ty = pair.2 := by
  induction pairs with
  | nil =>
      intro self other hcollect
      simp only [collectParameters, pure_eq_ok] at hcollect
      subst hcollect
      exact ⟨Collects.of_eq rfl rfl, by simp⟩
  | cons pair rest ih =>
      intro self other hcollect
      obtain ⟨parameter, signatureType⟩ := pair
      simp only [collectParameters, bind_eq_ok, ensure_eq_ok, decide_eq_true_eq] at hcollect
      obtain ⟨_, -, inserted, hinsert, -, hty, -, -, -, -, hrest⟩ := hcollect
      obtain ⟨hcollects, hall⟩ := ih _ _ hrest
      have hvalue : Collects self inserted [(parameter.value, parameter.ty)] :=
        (insertValue_collects hinsert).of_same rfl rfl
      refine ⟨hvalue.trans hcollects, ?_⟩
      intro pair hpair
      rcases List.mem_cons.mp hpair with rfl | hmem
      · exact hty
      · exact hall pair hmem

theorem collectCaptures_collects {captures : List CoreCapture} :
    ∀ self other : Verifier, self.collectCaptures captures = .ok other →
      Collects self other (captures.map fun capture => (capture.value, capture.ty)) := by
  induction captures with
  | nil =>
      intro self other hcollect
      simp only [collectCaptures, pure_eq_ok] at hcollect
      subst hcollect
      exact Collects.of_eq rfl rfl
  | cons capture rest ih =>
      intro self other hcollect
      simp only [collectCaptures, bind_eq_ok] at hcollect
      obtain ⟨_, -, inserted, hinsert, -, -, hrest⟩ := hcollect
      have hvalue : Collects self inserted [(capture.value, capture.ty)] :=
        (insertValue_collects hinsert).of_same rfl rfl
      exact hvalue.trans (ih _ _ hrest)

theorem collectRecursive_collects {self other : Verifier} {function : CoreFunction}
    (hcollect : self.collectRecursive function = .ok other) :
    Collects self other
        (function.recursive.toList.map fun recursive => (recursive.value, recursive.ty)) ∧
      ∀ recursive ∈ function.recursive, recursive.ty = functionType function.signature := by
  unfold collectRecursive at hcollect
  split at hcollect
  · rename_i hrecursive
    simp only [pure_eq_ok] at hcollect
    subst hcollect
    simp only [hrecursive]
    exact ⟨Collects.of_eq rfl rfl, by simp⟩
  · rename_i recursive hrecursive
    simp only [bind_eq_ok, ensure_eq_ok, decide_eq_true_eq, pure_eq_ok] at hcollect
    obtain ⟨inserted, hinsert, -, -, -, -, -, -, -, hty, rfl⟩ := hcollect
    simp only [hrecursive]
    refine ⟨insertValue_collects hinsert, ?_⟩
    rintro _ ⟨⟩
    exact hty

/-- The boundary of a function agrees with its signature. -/
structure BoundaryMatches (function : CoreFunction) : Prop where
  parameters : function.parameters.map (·.ty) = function.signature.parameters
  recursive :
    ∀ recursive ∈ function.recursive, recursive.ty = functionType function.signature

theorem map_fst_zip_parameters {parameters : List CoreParameter} {types : List Ty}
    (hlength : parameters.length = types.length) :
    (parameters.zip types).map (fun pair => (pair.1.value, pair.1.ty)) =
      parameters.map fun parameter => (parameter.value, parameter.ty) := by
  have hfst : (parameters.zip types).map Prod.fst = parameters :=
    List.map_fst_zip hlength.le
  calc
    (parameters.zip types).map (fun pair => (pair.1.value, pair.1.ty)) =
        ((parameters.zip types).map Prod.fst).map
          (fun parameter => (parameter.value, parameter.ty)) := by simp
    _ = parameters.map fun parameter => (parameter.value, parameter.ty) := by rw [hfst]

theorem map_ty_eq_of_zip {parameters : List CoreParameter} {types : List Ty}
    (hlength : parameters.length = types.length)
    (hall : ∀ pair ∈ parameters.zip types, pair.1.ty = pair.2) :
    parameters.map (·.ty) = types := by
  have hfst : (parameters.zip types).map Prod.fst = parameters :=
    List.map_fst_zip hlength.le
  have hsnd : (parameters.zip types).map Prod.snd = types :=
    List.map_snd_zip hlength.ge
  calc
    parameters.map (·.ty) = ((parameters.zip types).map Prod.fst).map (·.ty) := by rw [hfst]
    _ = (parameters.zip types).map Prod.snd := by
        rw [List.map_map]
        exact List.map_congr_left hall
    _ = types := hsnd

theorem collectFunction_collects {self other : Verifier} {function : CoreFunction}
    (hcollect : self.collectFunction function = .ok other) :
    Collects self other function.definitions ∧ BoundaryMatches function := by
  simp only [collectFunction, bind_eq_ok, ensure_eq_ok, beq_iff_eq] at hcollect
  obtain ⟨-, hlength, bound, hparameters, captured, hcaptures, named, hrecursive, hbody⟩ :=
    hcollect
  obtain ⟨hparameterCollects, hall⟩ := collectParameters_collects _ _ hparameters
  obtain ⟨hrecursiveCollects, hrecursiveTy⟩ := collectRecursive_collects hrecursive
  rw [map_fst_zip_parameters hlength] at hparameterCollects
  refine ⟨?_, ⟨map_ty_eq_of_zip hlength hall, hrecursiveTy⟩⟩
  exact ((hparameterCollects.trans (collectCaptures_collects _ _ hcaptures)).trans
    hrecursiveCollects).trans (collectBlock_collects function.body _ _ hbody)

theorem collectFunctions_collects {functions : List CoreFunction} :
    ∀ (index : ℕ) (self other : Verifier),
      self.collectFunctions index functions = .ok other →
        Collects self other (functions.flatMap CoreFunction.definitions) ∧
          (∀ function ∈ functions, BoundaryMatches function) ∧
          ∀ position function, functions[position]? = some function →
            function.id = index + position := by
  induction functions with
  | nil =>
      intro index self other hcollect
      simp only [collectFunctions, pure_eq_ok] at hcollect
      subst hcollect
      exact ⟨Collects.of_eq rfl rfl, by simp, by simp⟩
  | cons function rest ih =>
      intro index self other hcollect
      simp only [collectFunctions, bind_eq_ok, ensure_eq_ok, beq_iff_eq] at hcollect
      obtain ⟨-, hid, middle, hfunction, hrest⟩ := hcollect
      obtain ⟨hcollects, hboundary⟩ := collectFunction_collects hfunction
      obtain ⟨hrestCollects, hrestBoundary, hrestIds⟩ := ih _ _ _ hrest
      refine ⟨hcollects.trans hrestCollects, ?_, ?_⟩
      · intro candidate hcandidate
        rcases List.mem_cons.mp hcandidate with rfl | hmem
        · exact hboundary
        · exact hrestBoundary candidate hmem
      · intro position candidate hcandidate
        cases position with
        | zero =>
            simp only [List.getElem?_cons_zero, Option.some.injEq] at hcandidate
            subst hcandidate
            simpa using hid
        | succ position =>
            simp only [List.getElem?_cons_succ] at hcandidate
            have := hrestIds position candidate hcandidate
            omega

end Verifier

/-- What an accepting verification leaves behind: the table of value types, and
an accepting check of every function against it. -/
structure CoreModule.Verified (target : CoreModule) (verifier : Verifier) : Prop where
  collected : verifier.target = target
  table : ∀ function ∈ target.functions, ∀ entry ∈ function.definitions,
    Keyed.find entry.1 verifier.valueTypes = some entry.2
  defined : ∀ entry ∈ verifier.valueTypes, ∃ function ∈ target.functions,
    entry ∈ function.definitions
  boundary : ∀ function ∈ target.functions, Verifier.BoundaryMatches function
  ids : ∀ (id : FunctionId) (function : CoreFunction),
    target.functions[id]? = some function → function.id = id
  initial : target.entrypoints.head?.map (·.function) = some 0
  bodies : ∀ function ∈ target.functions, verifier.verifyFunction function = .ok ()
  distinct : ((target.functions.flatMap CoreFunction.definitions).map Prod.fst).Nodup
  entry : ∃ function, target.functions[0]? = some function ∧ function.parameters = [] ∧
    function.captures = [] ∧ function.signature.result = .unit

theorem CoreModule.verified_of_verify {self : CoreModule} (hverify : self.verify = .ok ()) :
    ∃ verifier, self.Verified verifier := by
  simp only [CoreModule.verify, bind_eq_ok, forEach_eq_ok] at hverify
  obtain ⟨_, -, _, -, _, hentrypoints, verifier, hcollect, _, -, _, -, _, -, _, -, _, -, _, -,
    _, hinitial, _, -, hbodies⟩ := hverify
  obtain ⟨hcollects, hboundary, hids⟩ := Verifier.collectFunctions_collects _ _ _ hcollect
  have htable : verifier.valueTypes =
      (self.functions.flatMap CoreFunction.definitions).reverse := by
    simpa [Verifier.new] using hcollects.valueTypes
  refine ⟨verifier, hcollects.target, ?_, ?_, hboundary, ?_, ?_, hbodies, ?_, ?_⟩
  · intro function hfunction entry hentry
    apply Keyed.find_of_mem (hcollects.nodup (by simp [Verifier.new]))
    rw [htable]
    simpa using ⟨function, hfunction, hentry⟩
  · intro entry hentry
    rw [htable] at hentry
    simpa using hentry
  · intro id function hfunction
    simpa using hids id function hfunction
  · simp only [CoreModule.verifyEntrypoints, bind_eq_ok, ensure_eq_ok] at hentrypoints
    obtain ⟨_, hfirst, -⟩ := hentrypoints
    split at hfirst
    · simp at hfirst
    · rename_i first rest hentry
      simp only [Bool.and_eq_true, decide_eq_true_eq] at hfirst
      simp [hentry, hfirst.1.2]
  · have hnodup := hcollects.nodup (by simp [Verifier.new])
    rw [htable, List.map_reverse, List.nodup_reverse] at hnodup
    exact hnodup
  · simp only [CoreModule.verifyInitialBoundary, ensure_eq_ok] at hinitial
    split at hinitial
    · rename_i function hfunction
      simp only [Bool.and_eq_true, List.isEmpty_iff, decide_eq_true_eq] at hinitial
      exact ⟨function, hfunction, hinitial.1.1.1, hinitial.1.1.2, hinitial.2⟩
    · simp at hinitial

end Krit
