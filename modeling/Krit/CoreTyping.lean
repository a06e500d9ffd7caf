import Krit.CoreSemantics
import Krit.CoreVerifier

/-!
# Types of Core values

When a value inhabits a type.  Residual inference variables are read through an
assignment of types to them, and contracts as the records they stand for, so a
value is typed at `Ty.instantiate assign ty`.  A closure inhabits the type of
the function it was made from, with captures of that function's declared types.

`CoreModule.Admissible` restricts the assignment where the verifier admits a
variable as the operand type of an operator: what the verifier asked of the
operand type must hold of its instance.
-/

namespace Krit

namespace Ty

variable (assign : ℕ → Ty)

@[simp] theorem instantiate_int : instantiate assign .int = .int := rfl
@[simp] theorem instantiate_bool : instantiate assign .bool = .bool := rfl
@[simp] theorem instantiate_string : instantiate assign .string = .string := rfl
@[simp] theorem instantiate_unit : instantiate assign .unit = .unit := rfl
@[simp] theorem instantiate_secret : instantiate assign .secret = .secret := rfl
@[simp] theorem instantiate_databaseTransaction :
    instantiate assign .databaseTransaction = .databaseTransaction := rfl
@[simp] theorem instantiate_list (element : Ty) :
    instantiate assign (.list element) = .list (instantiate assign element) := rfl
@[simp] theorem instantiate_option (element : Ty) :
    instantiate assign (.option element) = .option (instantiate assign element) := rfl
@[simp] theorem instantiate_result (value error : Ty) :
    instantiate assign (.result value error) =
      .result (instantiate assign value) (instantiate assign error) := rfl
@[simp] theorem instantiate_httpHeader :
    instantiate assign .httpHeader = nameValueRecord := rfl

@[simp] theorem instantiate_record (fields : List (String × Ty)) :
    instantiate assign (.record fields) =
      .record (Keyed.sortByKey
        (fields.map fun field => (field.1, instantiate assign field.2))) := by
  simp [instantiate, subst, normalize, substFields_eq_map, normalizeFields_eq_map,
    Function.comp_def]

@[simp] theorem instantiate_function (parameters : List Ty) (returnType : Ty)
    (effects : EffectSet) (requirements : RequirementSet) :
    instantiate assign (.function parameters returnType effects requirements) =
      .function (parameters.map (instantiate assign)) (instantiate assign returnType)
        effects requirements := by
  simp [instantiate, subst, normalize, substList_eq_map, normalizeList_eq_map,
    Function.comp_def]

theorem instantiate_eq_of_typeEquivalent {left right : Ty}
    (hside : left.distinctFields = true ∨ right.recordless = true)
    (hequivalent : typeEquivalent left right = true) :
    instantiate assign left = instantiate assign right :=
  instantiate_eq_of_normalize_eq assign (typeEquivalent_normalize hside hequivalent)

end Ty

theorem fieldsContainNoFunction_iff (fields : List (String × Ty)) :
    fieldsContainNoFunction fields = true ↔
      ∀ field ∈ fields, typeContainsNoFunction field.2 = true := by
  induction fields with
  | nil => simp [fieldsContainNoFunction]
  | cons field rest ih => simp [fieldsContainNoFunction, ih]

theorem fieldsContainNoFunction_sortByKey (fields : List (String × Ty)) :
    fieldsContainNoFunction (Keyed.sortByKey fields) = fieldsContainNoFunction fields := by
  rw [Bool.eq_iff_iff, fieldsContainNoFunction_iff, fieldsContainNoFunction_iff]
  simp

mutual

theorem typeContainsNoFunction_normalize : (ty : Ty) →
    typeContainsNoFunction ty.normalize = typeContainsNoFunction ty
  | .list element => by
      simp [Ty.normalize, typeContainsNoFunction, typeContainsNoFunction_normalize element]
  | .option element => by
      simp [Ty.normalize, typeContainsNoFunction, typeContainsNoFunction_normalize element]
  | .record fields => by
      simp [Ty.normalize, typeContainsNoFunction, fieldsContainNoFunction_sortByKey,
        fieldsContainNoFunction_normalize fields]
  | .result value error => by
      simp [Ty.normalize, typeContainsNoFunction, typeContainsNoFunction_normalize value,
        typeContainsNoFunction_normalize error]
  | .function _ _ _ _ => by simp [Ty.normalize, typeContainsNoFunction]
  | .typeVariable _ => rfl
  | .int => rfl
  | .bool => rfl
  | .string => rfl
  | .unit => rfl
  | .httpHeader => rfl
  | .httpRequest => rfl
  | .httpResponse => rfl
  | .logField => rfl
  | .queueJob => rfl
  | .scheduleEvent => rfl
  | .databaseTransaction => rfl
  | .secret => rfl

theorem fieldsContainNoFunction_normalize : (fields : List (String × Ty)) →
    fieldsContainNoFunction (Ty.normalizeFields fields) = fieldsContainNoFunction fields
  | [] => rfl
  | (_, ty) :: rest => by
      simp [Ty.normalizeFields, fieldsContainNoFunction,
        typeContainsNoFunction_normalize ty, fieldsContainNoFunction_normalize rest]

end

/-! ## Value typing -/

/-- The values that a built-in encodes must be data at the assigned types. -/
def builtinAdmissible (assign : ℕ → Ty) (builtin : Builtin) (ty : Ty) : Prop :=
  builtin = .jsonEncode → ∀ parameters returnType effects requirements,
    ty = .function parameters returnType effects requirements →
      ∀ parameter ∈ parameters, typeContainsNoFunction (parameter.subst assign) = true

section ValueTyping

variable (target : CoreModule) (assign : ℕ → Ty)

mutual

def HasType : CoreValue → Ty → Prop
  | .integer _, ty => ty = .int
  | .boolean _, ty => ty = .bool
  | .string _, ty => ty = .string
  | .unit, ty => ty = .unit
  | .list elements, ty => ∃ element, ty = .list element ∧ HasTypeList elements element
  | .record fields, ty =>
      ∃ types, ty = .record types ∧ HasTypeFields fields types ∧
        ∀ entry ∈ types, entry.1 ∈ fields.map Prod.fst
  | .variant .some (some payload), ty => ∃ element, ty = .option element ∧ HasType payload element
  | .variant .none none, ty => ∃ element, ty = .option element
  | .variant .ok (some payload), ty =>
      ∃ value error, ty = .result value error ∧ HasType payload value
  | .variant .err (some payload), ty =>
      ∃ value error, ty = .result value error ∧ HasType payload error
  | .variant _ _, _ => False
  | .closure id captures, ty =>
      ∃ function, target.functions[id]? = some function ∧
        ty = (functionType function.signature).instantiate assign ∧
        HasTypes captures (function.captures.map fun capture => capture.ty.instantiate assign)
  | .builtin builtin declared, ty =>
      verifyBuiltinType builtin declared = .ok () ∧
        builtinAdmissible assign builtin declared ∧ ty = declared.instantiate assign
  | .secret _, ty => ty = .secret
  | .transaction _, ty => ty = .databaseTransaction

def HasTypeList : List CoreValue → Ty → Prop
  | [], _ => True
  | value :: rest, ty => HasType value ty ∧ HasTypeList rest ty

def HasTypeFields : List (String × CoreValue) → List (String × Ty) → Prop
  | [], _ => True
  | (name, value) :: rest, types =>
      (name ∈ types.map Prod.fst ∧ ∀ entry ∈ types, entry.1 = name → HasType value entry.2) ∧
        HasTypeFields rest types

def HasTypes : List CoreValue → List Ty → Prop
  | [], [] => True
  | value :: rest, ty :: types => HasType value ty ∧ HasTypes rest types
  | _, _ => False

end

attribute [local grind =] HasType HasTypeList HasTypeFields HasTypes

end ValueTyping

variable {target : CoreModule} {assign : ℕ → Ty}

theorem hasTypeList_iff {values : List CoreValue} {ty : Ty} :
    HasTypeList target assign values ty ↔ ∀ value ∈ values, HasType target assign value ty := by
  induction values with
  | nil => simp [HasTypeList]
  | cons value rest ih => simp [HasTypeList, ih]

theorem hasTypeFields_iff {fields : List (String × CoreValue)} {types : List (String × Ty)} :
    HasTypeFields target assign fields types ↔
      ∀ field ∈ fields, field.1 ∈ types.map Prod.fst ∧
        ∀ entry ∈ types, entry.1 = field.1 → HasType target assign field.2 entry.2 := by
  induction fields with
  | nil => simp [HasTypeFields]
  | cons field rest ih => simp [HasTypeFields, ih]

theorem hasTypes_iff {values : List CoreValue} {types : List Ty} :
    HasTypes target assign values types ↔
      List.Forall₂ (HasType target assign) values types := by
  induction values generalizing types with
  | nil => cases types <;> simp [HasTypes]
  | cons value rest ih => cases types <;> simp [HasTypes, ih]

/-! ## Built-in signatures -/

theorem verifyHostBuiltin_ok {builtin : Builtin} {ty : Ty} {parameters : List Ty}
    {result : Ty} {effect : Option Effect}
    (hverify : verifyHostBuiltin builtin ty parameters result effect = .ok ()) :
    ∃ effects requirements, ty = .function parameters result effects requirements := by
  unfold verifyHostBuiltin at hverify
  split at hverify
  · simp only [Result.ensure_eq_ok, Bool.and_eq_true, decide_eq_true_eq] at hverify
    obtain ⟨⟨rfl, rfl⟩, -⟩ := hverify
    exact ⟨_, _, rfl⟩
  · simp at hverify

theorem verifyPureBuiltin_ok {builtin : Builtin} {ty : Ty} {parameters : List Ty}
    {result : Ty} (hverify : verifyPureBuiltin builtin ty parameters result = .ok ()) :
    ∃ actual returnType effects requirements,
      ty = .function actual returnType effects requirements ∧
        actual.length = parameters.length ∧
        (∀ pair ∈ actual.zip parameters, pair.1.typeEquivalent pair.2 = true) ∧
        returnType.typeEquivalent result = true := by
  unfold verifyPureBuiltin at hverify
  split at hverify
  · simp only [Result.ensure_eq_ok, Bool.and_eq_true, beq_iff_eq, List.all_eq_true] at hverify
    exact ⟨_, _, _, _, rfl, hverify.1.1, hverify.1.2, hverify.2⟩
  · simp at hverify

theorem verifyConstructorFunction_ok {ty : Ty} {family : VariantFamily} {firstPayload : Bool}
    (hverify : verifyConstructorFunction ty family firstPayload = .ok ()) :
    ∃ parameter returnType effects requirements,
      ty = .function [parameter] returnType effects requirements ∧
        match family, returnType with
        | .option, .option element => element = parameter
        | .result, .result value error =>
            if firstPayload then value = parameter else error = parameter
        | _, _ => False := by
  unfold verifyConstructorFunction at hverify
  split at hverify
  · simp only [Result.bind_eq_ok, Result.ensure_eq_ok] at hverify
    obtain ⟨-, -, hvalid⟩ := hverify
    refine ⟨_, _, _, _, rfl, ?_⟩
    split at hvalid
    · simpa using hvalid
    · cases firstPayload <;> simpa using hvalid
    · simp at hvalid
  · simp at hverify
  · simp at hverify

theorem verifyBuiltinType_function {builtin : Builtin} {ty : Ty}
    (hverify : verifyBuiltinType builtin ty = .ok ()) :
    ∃ parameters returnType effects requirements,
      ty = .function parameters returnType effects requirements := by
  have hhost : ∀ {parameters result effect},
      verifyHostBuiltin builtin ty parameters result effect = .ok () →
        ∃ parameters returnType effects requirements,
          ty = .function parameters returnType effects requirements := by
    intro parameters result effect hverify
    obtain ⟨effects, requirements, rfl⟩ := verifyHostBuiltin_ok hverify
    exact ⟨_, _, _, _, rfl⟩
  have hpure : ∀ {parameters result},
      verifyPureBuiltin builtin ty parameters result = .ok () →
        ∃ parameters returnType effects requirements,
          ty = .function parameters returnType effects requirements := by
    intro parameters result hverify
    obtain ⟨_, _, _, _, rfl, -⟩ := verifyPureBuiltin_ok hverify
    exact ⟨_, _, _, _, rfl⟩
  have hconstructor : ∀ {family firstPayload},
      verifyConstructorFunction ty family firstPayload = .ok () →
        ∃ parameters returnType effects requirements,
          ty = .function parameters returnType effects requirements := by
    intro family firstPayload hverify
    obtain ⟨_, _, _, _, rfl, -⟩ := verifyConstructorFunction_ok hverify
    exact ⟨_, _, _, _, rfl⟩
  cases builtin
  all_goals simp only [verifyBuiltinType] at hverify
  case none => simp at hverify
  case print | println | jsonEncode | jsonDecode =>
    split at hverify
    · exact ⟨_, _, _, _, rfl⟩
    · simp at hverify
  case some | ok | err => exact hconstructor hverify
  case intToString | urlPathSegment | urlQuery | stringByteLen | stringIsEmpty
      | stringContains | stringStartsWith | stringEndsWith =>
    exact hpure hverify
  all_goals exact hhost hverify

/-! ## Canonical forms -/

theorem HasType.closure_function {id : FunctionId} {captures : List CoreValue} {ty : Ty}
    (htype : HasType target assign (.closure id captures) ty) :
    ∃ parameters returnType effects requirements,
      ty = .function parameters returnType effects requirements := by
  unfold HasType at htype
  obtain ⟨function, -, hty, -⟩ := htype
  simp only [functionType, Ty.instantiate_function] at hty
  exact ⟨_, _, _, _, hty⟩

theorem HasType.builtin_function {builtin : Builtin} {declared ty : Ty}
    (htype : HasType target assign (.builtin builtin declared) ty) :
    ∃ parameters returnType effects requirements,
      ty = .function parameters returnType effects requirements := by
  unfold HasType at htype
  obtain ⟨hverify, -, hty⟩ := htype
  obtain ⟨parameters, returnType, effects, requirements, rfl⟩ :=
    verifyBuiltinType_function hverify
  simp only [Ty.instantiate_function] at hty
  exact ⟨_, _, _, _, hty⟩

/-- At a type that is no function type, a value is its own constructor. -/
theorem HasType.not_function {value : CoreValue} {ty : Ty}
    (htype : HasType target assign value ty)
    (hty : ∀ parameters returnType effects requirements,
      ty ≠ .function parameters returnType effects requirements) :
    (∀ id captures, value ≠ .closure id captures) ∧
      ∀ builtin declared, value ≠ .builtin builtin declared := by
  constructor
  · rintro id captures rfl
    obtain ⟨_, _, _, _, heq⟩ := htype.closure_function
    exact hty _ _ _ _ heq
  · rintro builtin declared rfl
    obtain ⟨_, _, _, _, heq⟩ := htype.builtin_function
    exact hty _ _ _ _ heq

theorem HasType.int_inv {value : CoreValue} (htype : HasType target assign value .int) :
    ∃ number, value = .integer number := by
  have hdata := htype.not_function (by simp)
  cases value with
  | integer number => exact ⟨number, rfl⟩
  | closure id captures => exact absurd rfl (hdata.1 id captures)
  | builtin builtin declared => exact absurd rfl (hdata.2 builtin declared)
  | variant name payload => cases name <;> cases payload <;> simp [HasType] at htype
  | _ => simp [HasType] at htype

theorem HasType.bool_inv {value : CoreValue} (htype : HasType target assign value .bool) :
    ∃ truth, value = .boolean truth := by
  have hdata := htype.not_function (by simp)
  cases value with
  | boolean truth => exact ⟨truth, rfl⟩
  | closure id captures => exact absurd rfl (hdata.1 id captures)
  | builtin builtin declared => exact absurd rfl (hdata.2 builtin declared)
  | variant name payload => cases name <;> cases payload <;> simp [HasType] at htype
  | _ => simp [HasType] at htype

theorem HasType.string_inv {value : CoreValue} (htype : HasType target assign value .string) :
    ∃ text, value = .string text := by
  have hdata := htype.not_function (by simp)
  cases value with
  | string text => exact ⟨text, rfl⟩
  | closure id captures => exact absurd rfl (hdata.1 id captures)
  | builtin builtin declared => exact absurd rfl (hdata.2 builtin declared)
  | variant name payload => cases name <;> cases payload <;> simp [HasType] at htype
  | _ => simp [HasType] at htype

theorem HasType.list_inv {value : CoreValue} {element : Ty}
    (htype : HasType target assign value (.list element)) :
    ∃ elements, value = .list elements ∧
      ∀ value ∈ elements, HasType target assign value element := by
  have hdata := htype.not_function (by simp)
  cases value with
  | list elements =>
      refine ⟨elements, rfl, ?_⟩
      simpa [HasType, hasTypeList_iff] using htype
  | closure id captures => exact absurd rfl (hdata.1 id captures)
  | builtin builtin declared => exact absurd rfl (hdata.2 builtin declared)
  | variant name payload => cases name <;> cases payload <;> simp [HasType] at htype
  | _ => simp [HasType] at htype

theorem HasType.record_inv {value : CoreValue} {types : List (String × Ty)}
    (htype : HasType target assign value (.record types)) :
    ∃ fields, value = .record fields ∧
      (∀ field ∈ fields, field.1 ∈ types.map Prod.fst ∧
        ∀ entry ∈ types, entry.1 = field.1 → HasType target assign field.2 entry.2) ∧
      ∀ entry ∈ types, entry.1 ∈ fields.map Prod.fst := by
  have hdata := htype.not_function (by simp)
  cases value with
  | record fields =>
      refine ⟨fields, rfl, ?_⟩
      simp only [HasType, Ty.record.injEq] at htype
      obtain ⟨_, rfl, hfields, htypes⟩ := htype
      exact ⟨hasTypeFields_iff.mp hfields, htypes⟩
  | closure id captures => exact absurd rfl (hdata.1 id captures)
  | builtin builtin declared => exact absurd rfl (hdata.2 builtin declared)
  | variant name payload => cases name <;> cases payload <;> simp [HasType] at htype
  | _ => simp [HasType] at htype

/-- A field of a record value has the type that the record type gives it. -/
theorem HasType.record_field {value : CoreValue} {types : List (String × Ty)}
    (htype : HasType target assign value (.record types)) {name : String} {ty : Ty}
    (hentry : (name, ty) ∈ types) :
    ∃ fields field, value = .record fields ∧ Keyed.find name fields = some field ∧
      HasType target assign field ty := by
  obtain ⟨fields, rfl, hfields, htypes⟩ := htype.record_inv
  obtain ⟨field, hfind⟩ := Keyed.find_isSome_of_mem_keys (htypes _ hentry)
  have hmem := Keyed.mem_of_find hfind
  exact ⟨fields, field, rfl, hfind, (hfields _ hmem).2 _ hentry rfl⟩

theorem HasType.option_inv {value : CoreValue} {element : Ty}
    (htype : HasType target assign value (.option element)) :
    value = .variant .none none ∨
      ∃ payload, value = .variant .some (some payload) ∧
        HasType target assign payload element := by
  have hdata := htype.not_function (by simp)
  cases value with
  | variant name payload => cases name <;> cases payload <;> simp_all [HasType]
  | closure id captures => exact absurd rfl (hdata.1 id captures)
  | builtin builtin declared => exact absurd rfl (hdata.2 builtin declared)
  | _ => simp [HasType] at htype

theorem HasType.result_inv {value : CoreValue} {success failure : Ty}
    (htype : HasType target assign value (.result success failure)) :
    (∃ payload, value = .variant .ok (some payload) ∧
        HasType target assign payload success) ∨
      ∃ payload, value = .variant .err (some payload) ∧
        HasType target assign payload failure := by
  have hdata := htype.not_function (by simp)
  cases value with
  | variant name payload => cases name <;> cases payload <;> simp_all [HasType]
  | closure id captures => exact absurd rfl (hdata.1 id captures)
  | builtin builtin declared => exact absurd rfl (hdata.2 builtin declared)
  | _ => simp [HasType] at htype

/-- A function value is a closure of a function of the module, or a built-in. -/
theorem HasType.function_inv {value : CoreValue} {parameters : List Ty} {returnType : Ty}
    {effects : EffectSet} {requirements : RequirementSet}
    (htype : HasType target assign value
      (.function parameters returnType effects requirements)) :
    (∃ id captures function, value = .closure id captures ∧
        target.functions[id]? = some function ∧
        function.signature.parameters.map (Ty.instantiate assign) = parameters ∧
        function.signature.result.instantiate assign = returnType ∧
        HasTypes target assign captures
          (function.captures.map fun capture => capture.ty.instantiate assign)) ∨
      ∃ builtin actual actualReturn actualEffects actualRequirements,
        value = .builtin builtin
          (.function actual actualReturn actualEffects actualRequirements) ∧
        verifyBuiltinType builtin
          (.function actual actualReturn actualEffects actualRequirements) = .ok () ∧
        builtinAdmissible assign builtin
          (.function actual actualReturn actualEffects actualRequirements) ∧
        actual.map (Ty.instantiate assign) = parameters ∧
        actualReturn.instantiate assign = returnType := by
  cases value with
  | closure id captures =>
      left
      simp only [HasType, functionType, Ty.instantiate_function, Ty.function.injEq] at htype
      obtain ⟨function, hfunction, ⟨hparameters, hreturn, -, -⟩, hcaptures⟩ := htype
      exact ⟨id, captures, function, rfl, hfunction, hparameters.symm, hreturn.symm, hcaptures⟩
  | builtin builtin declared =>
      right
      simp only [HasType] at htype
      obtain ⟨hverify, hadmissible, hty⟩ := htype
      obtain ⟨actual, actualReturn, actualEffects, actualRequirements, rfl⟩ :=
        verifyBuiltinType_function hverify
      simp only [Ty.instantiate_function, Ty.function.injEq] at hty
      exact ⟨builtin, actual, actualReturn, actualEffects, actualRequirements, rfl, hverify,
        hadmissible, hty.1.symm, hty.2.1.symm⟩
  | variant name payload => cases name <;> cases payload <;> simp [HasType] at htype
  | _ => simp [HasType] at htype

/-! ## Data -/

mutual

/-- A value of a type without functions and handles is data. -/
theorem HasType.isData : (value : CoreValue) → (ty : Ty) →
    typeContainsNoFunction ty = true → HasType target assign value ty → value.isData = true
  | .integer _, _, _, _ => rfl
  | .boolean _, _, _, _ => rfl
  | .string _, _, _, _ => rfl
  | .unit, _, _, _ => rfl
  | .list elements, ty, hdata, htype => by
      simp only [HasType] at htype
      obtain ⟨element, rfl, helements⟩ := htype
      exact HasTypeList.isData elements element hdata helements
  | .record fields, ty, hdata, htype => by
      simp only [HasType] at htype
      obtain ⟨types, rfl, hfields, -⟩ := htype
      simp only [typeContainsNoFunction] at hdata
      exact HasTypeFields.isData fields types
        ((fieldsContainNoFunction_iff types).mp hdata) hfields
  | .variant .some none, _, _, htype => by simp [HasType] at htype
  | .variant .ok none, _, _, htype => by simp [HasType] at htype
  | .variant .err none, _, _, htype => by simp [HasType] at htype
  | .variant .none (some _), _, _, htype => by simp [HasType] at htype
  | .variant .none none, _, _, _ => rfl
  | .variant .some (some payload), ty, hdata, htype => by
      simp only [HasType] at htype
      obtain ⟨element, rfl, hpayload⟩ := htype
      exact HasType.isData payload element hdata hpayload
  | .variant .ok (some payload), ty, hdata, htype => by
      simp only [HasType] at htype
      obtain ⟨success, failure, rfl, hpayload⟩ := htype
      simp only [typeContainsNoFunction, Bool.and_eq_true] at hdata
      exact HasType.isData payload success hdata.1 hpayload
  | .variant .err (some payload), ty, hdata, htype => by
      simp only [HasType] at htype
      obtain ⟨success, failure, rfl, hpayload⟩ := htype
      simp only [typeContainsNoFunction, Bool.and_eq_true] at hdata
      exact HasType.isData payload failure hdata.2 hpayload
  | .closure _ _, _, hdata, htype => by
      obtain ⟨_, _, _, _, rfl⟩ := htype.closure_function
      simp [typeContainsNoFunction] at hdata
  | .builtin _ _, _, hdata, htype => by
      obtain ⟨_, _, _, _, rfl⟩ := htype.builtin_function
      simp [typeContainsNoFunction] at hdata
  | .secret _, _, hdata, htype => by
      simp only [HasType] at htype
      subst htype
      simp [typeContainsNoFunction] at hdata
  | .transaction _, _, hdata, htype => by
      simp only [HasType] at htype
      subst htype
      simp [typeContainsNoFunction] at hdata

theorem HasTypeList.isData : (values : List CoreValue) → (ty : Ty) →
    typeContainsNoFunction ty = true → HasTypeList target assign values ty →
      CoreValue.isDataList values = true
  | [], _, _, _ => rfl
  | value :: rest, ty, hdata, htype => by
      simp only [HasTypeList] at htype
      simp [CoreValue.isDataList, HasType.isData value ty hdata htype.1,
        HasTypeList.isData rest ty hdata htype.2]

theorem HasTypeFields.isData : (fields : List (String × CoreValue)) →
    (types : List (String × Ty)) →
    (∀ entry ∈ types, typeContainsNoFunction entry.2 = true) →
      HasTypeFields target assign fields types → CoreValue.isDataFields fields = true
  | [], _, _, _ => rfl
  | (name, value) :: rest, types, hdata, htype => by
      simp only [HasTypeFields] at htype
      obtain ⟨⟨hname, hvalue⟩, hrest⟩ := htype
      obtain ⟨entry, hentry, hentryName⟩ := List.mem_map.mp hname
      simp [CoreValue.isDataFields,
        HasType.isData value entry.2 (hdata entry hentry) (hvalue entry hentry hentryName),
        HasTypeFields.isData rest types hdata hrest]

end

mutual

theorem CoreValue.jsonText_isSome : (value : CoreValue) → value.isData = true →
    ∃ text, value.jsonText = some text
  | .integer _, _ => ⟨_, rfl⟩
  | .boolean _, _ => ⟨_, rfl⟩
  | .string _, _ => ⟨_, rfl⟩
  | .unit, _ => ⟨_, rfl⟩
  | .list elements, hdata => by
      obtain ⟨texts, htexts⟩ := jsonTexts_isSome elements hdata
      simp [jsonText, htexts]
  | .record fields, hdata => by
      obtain ⟨members, hmembers⟩ := jsonMembers_isSome fields hdata
      simp [jsonText, hmembers]
  | .variant _ none, _ => ⟨_, rfl⟩
  | .variant _ (some payload), hdata => by
      obtain ⟨text, htext⟩ := jsonText_isSome payload hdata
      simp [jsonText, htext]

theorem CoreValue.jsonTexts_isSome : (values : List CoreValue) →
    CoreValue.isDataList values = true → ∃ texts, CoreValue.jsonTexts values = some texts
  | [], _ => ⟨_, rfl⟩
  | value :: rest, hdata => by
      simp only [isDataList, Bool.and_eq_true] at hdata
      obtain ⟨text, htext⟩ := jsonText_isSome value hdata.1
      obtain ⟨texts, htexts⟩ := jsonTexts_isSome rest hdata.2
      simp [jsonTexts, htext, htexts]

theorem CoreValue.jsonMembers_isSome : (fields : List (String × CoreValue)) →
    CoreValue.isDataFields fields = true →
      ∃ members, CoreValue.jsonMembers fields = some members
  | [], _ => ⟨_, rfl⟩
  | (name, value) :: rest, hdata => by
      simp only [isDataFields, Bool.and_eq_true] at hdata
      obtain ⟨text, htext⟩ := jsonText_isSome value hdata.1
      obtain ⟨members, hmembers⟩ := jsonMembers_isSome rest hdata.2
      simp [jsonMembers, htext, hmembers]

end

end Krit
