import Krit.Basic
import Krit.Lib.Keyed
import Mathlib.Data.String.Basic

/-!
# Types

The types that analysis reports and that Core carries.  A record type is a list
of named fields.  Analysis builds it from an ordered map, but nothing keeps a
hand-built type from naming a field twice: `Ty.distinctFields` says that it
does not.

Two types are compared up to the order of the fields and up to the contract
records: `HttpHeader` and the record type of its fields are one type.
`Ty.normalize` replaces every contract by its record and orders the fields, and
`typeEquivalent_normalize` says when equivalent types have one normal form.
`Ty.outline` forgets the fields altogether; equivalent types always have one
outline.
-/

namespace Krit

inductive Ty where
  | int
  | bool
  | string
  | unit
  | httpHeader
  | httpRequest
  | httpResponse
  | logField
  | queueJob
  | scheduleEvent
  | databaseTransaction
  | secret
  | list (element : Ty)
  | record (fields : List (String × Ty))
  | option (element : Ty)
  | result (value error : Ty)
  | function (parameters : List Ty) (returnType : Ty) (effects : EffectSet)
      (requirements : RequirementSet)
  | typeVariable (id : ℕ)
  deriving Inhabited

namespace Ty

mutual

/-- Structural equality, the derived `PartialEq` of the source. -/
def beq : Ty → Ty → Bool
  | .int, .int => true
  | .bool, .bool => true
  | .string, .string => true
  | .unit, .unit => true
  | .httpHeader, .httpHeader => true
  | .httpRequest, .httpRequest => true
  | .httpResponse, .httpResponse => true
  | .logField, .logField => true
  | .queueJob, .queueJob => true
  | .scheduleEvent, .scheduleEvent => true
  | .databaseTransaction, .databaseTransaction => true
  | .secret, .secret => true
  | .list left, .list right => beq left right
  | .record left, .record right => beqFields left right
  | .option left, .option right => beq left right
  | .result leftValue leftError, .result rightValue rightError =>
      beq leftValue rightValue && beq leftError rightError
  | .function leftParameters leftReturn leftEffects leftRequirements,
      .function rightParameters rightReturn rightEffects rightRequirements =>
      beqList leftParameters rightParameters && beq leftReturn rightReturn &&
        decide (leftEffects = rightEffects) &&
        decide (leftRequirements = rightRequirements)
  | .typeVariable left, .typeVariable right => left == right
  | _, _ => false

def beqFields : List (String × Ty) → List (String × Ty) → Bool
  | [], [] => true
  | (leftName, left) :: leftRest, (rightName, right) :: rightRest =>
      leftName == rightName && beq left right && beqFields leftRest rightRest
  | _, _ => false

def beqList : List Ty → List Ty → Bool
  | [], [] => true
  | left :: leftRest, right :: rightRest =>
      beq left right && beqList leftRest rightRest
  | _, _ => false

end

mutual

theorem beq_iff : (left right : Ty) → (beq left right = true ↔ left = right)
  | .list left, right => by
      cases right <;> simp [beq, beq_iff left]
  | .record left, right => by
      cases right <;> simp [beq, beqFields_iff left]
  | .option left, right => by
      cases right <;> simp [beq, beq_iff left]
  | .result leftValue leftError, right => by
      cases right <;> simp [beq, beq_iff leftValue, beq_iff leftError]
  | .function leftParameters leftReturn leftEffects leftRequirements, right => by
      cases right <;>
        simp [beq, beqList_iff leftParameters, beq_iff leftReturn, and_assoc]
  | .typeVariable left, right => by
      cases right <;> simp [beq]
  | .int, right => by cases right <;> simp [beq]
  | .bool, right => by cases right <;> simp [beq]
  | .string, right => by cases right <;> simp [beq]
  | .unit, right => by cases right <;> simp [beq]
  | .httpHeader, right => by cases right <;> simp [beq]
  | .httpRequest, right => by cases right <;> simp [beq]
  | .httpResponse, right => by cases right <;> simp [beq]
  | .logField, right => by cases right <;> simp [beq]
  | .queueJob, right => by cases right <;> simp [beq]
  | .scheduleEvent, right => by cases right <;> simp [beq]
  | .databaseTransaction, right => by cases right <;> simp [beq]
  | .secret, right => by cases right <;> simp [beq]

theorem beqFields_iff :
    (left right : List (String × Ty)) → (beqFields left right = true ↔ left = right)
  | [], right => by cases right <;> simp [beqFields]
  | (name, left) :: rest, right => by
      cases right with
      | nil => simp [beqFields]
      | cons field right =>
          obtain ⟨rightName, ty⟩ := field
          simp [beqFields, beq_iff left, beqFields_iff rest]

theorem beqList_iff :
    (left right : List Ty) → (beqList left right = true ↔ left = right)
  | [], right => by cases right <;> simp [beqList]
  | left :: rest, right => by
      cases right with
      | nil => simp [beqList]
      | cons ty right => simp [beqList, beq_iff left, beqList_iff rest]

end

instance : DecidableEq Ty :=
  fun left right => decidable_of_iff (beq left right = true) (beq_iff left right)

mutual

/-- No record type names a field twice, at any depth. -/
def distinctFields : Ty → Bool
  | .list element => distinctFields element
  | .record fields => decide (fields.map Prod.fst).Nodup && distinctFieldsEach fields
  | .option element => distinctFields element
  | .result value error => distinctFields value && distinctFields error
  | .function parameters returnType _ _ =>
      distinctFieldsList parameters && distinctFields returnType
  | _ => true

def distinctFieldsEach : List (String × Ty) → Bool
  | [] => true
  | (_, ty) :: rest => distinctFields ty && distinctFieldsEach rest

def distinctFieldsList : List Ty → Bool
  | [] => true
  | ty :: rest => distinctFields ty && distinctFieldsList rest

end

theorem distinctFieldsEach_iff (fields : List (String × Ty)) :
    distinctFieldsEach fields = true ↔ ∀ field ∈ fields, distinctFields field.2 = true := by
  induction fields with
  | nil => simp [distinctFieldsEach]
  | cons field rest ih => simp [distinctFieldsEach, ih]

theorem distinctFieldsList_iff (types : List Ty) :
    distinctFieldsList types = true ↔ ∀ ty ∈ types, distinctFields ty = true := by
  induction types with
  | nil => simp [distinctFieldsList]
  | cons ty rest ih => simp [distinctFieldsList, ih]

mutual

/-- A type that writes out no record; it may name contracts. -/
def recordless : Ty → Bool
  | .list element => recordless element
  | .record _ => false
  | .option element => recordless element
  | .result value error => recordless value && recordless error
  | .function parameters returnType _ _ =>
      recordlessList parameters && recordless returnType
  | _ => true

def recordlessList : List Ty → Bool
  | [] => true
  | ty :: rest => recordless ty && recordlessList rest

end

theorem recordlessList_iff (types : List Ty) :
    recordlessList types = true ↔ ∀ ty ∈ types, recordless ty = true := by
  induction types with
  | nil => simp [recordlessList]
  | cons ty rest ih => simp [recordlessList, ih]

/-- The name/value record behind `HttpHeader` and `LogField`. -/
def nameValueRecord : Ty :=
  .record [("name", .string), ("value", .string)]

mutual

/-- Replaces every contract by the record it stands for, and orders the fields of
every record. -/
def normalize : Ty → Ty
  | .httpHeader | .logField => nameValueRecord
  | .httpRequest =>
      .record [("body", .string), ("headers", .list nameValueRecord),
        ("method", .string), ("path", .string), ("query", .string)]
  | .httpResponse =>
      .record [("body", .string), ("headers", .list nameValueRecord), ("status", .int)]
  | .queueJob =>
      .record [("attempt", .int), ("body", .string), ("id", .string),
        ("maxAttempts", .int), ("queue", .string)]
  | .scheduleEvent =>
      .record [("attempt", .int), ("firedAtMillis", .int), ("id", .string),
        ("maxAttempts", .int), ("schedule", .string), ("scheduledAtMillis", .int)]
  | .list element => .list (normalize element)
  | .record fields => .record (Keyed.sortByKey (normalizeFields fields))
  | .option element => .option (normalize element)
  | .result value error => .result (normalize value) (normalize error)
  | .function parameters returnType effects requirements =>
      .function (normalizeList parameters) (normalize returnType) effects requirements
  | .int => .int
  | .bool => .bool
  | .string => .string
  | .unit => .unit
  | .databaseTransaction => .databaseTransaction
  | .secret => .secret
  | .typeVariable id => .typeVariable id

def normalizeFields : List (String × Ty) → List (String × Ty)
  | [] => []
  | (name, ty) :: rest => (name, normalize ty) :: normalizeFields rest

def normalizeList : List Ty → List Ty
  | [] => []
  | ty :: rest => normalize ty :: normalizeList rest

end

theorem normalizeFields_eq_map (fields : List (String × Ty)) :
    normalizeFields fields = fields.map fun field => (field.1, normalize field.2) := by
  induction fields with
  | nil => rfl
  | cons field rest ih => simp [normalizeFields, ih]

theorem normalizeList_eq_map (types : List Ty) :
    normalizeList types = types.map normalize := by
  induction types with
  | nil => rfl
  | cons ty rest ih => simp [normalizeList, ih]

mutual

/-- Replaces residual inference variables. -/
def subst (assign : ℕ → Ty) : Ty → Ty
  | .list element => .list (subst assign element)
  | .record fields => .record (substFields assign fields)
  | .option element => .option (subst assign element)
  | .result value error => .result (subst assign value) (subst assign error)
  | .function parameters returnType effects requirements =>
      .function (substList assign parameters) (subst assign returnType) effects requirements
  | .typeVariable id => assign id
  | .int => .int
  | .bool => .bool
  | .string => .string
  | .unit => .unit
  | .httpHeader => .httpHeader
  | .httpRequest => .httpRequest
  | .httpResponse => .httpResponse
  | .logField => .logField
  | .queueJob => .queueJob
  | .scheduleEvent => .scheduleEvent
  | .databaseTransaction => .databaseTransaction
  | .secret => .secret

def substFields (assign : ℕ → Ty) : List (String × Ty) → List (String × Ty)
  | [] => []
  | (name, ty) :: rest => (name, subst assign ty) :: substFields assign rest

def substList (assign : ℕ → Ty) : List Ty → List Ty
  | [] => []
  | ty :: rest => subst assign ty :: substList assign rest

end

theorem substFields_eq_map (assign : ℕ → Ty) (fields : List (String × Ty)) :
    substFields assign fields = fields.map fun field => (field.1, subst assign field.2) := by
  induction fields with
  | nil => rfl
  | cons field rest ih => simp [substFields, ih]

theorem substList_eq_map (assign : ℕ → Ty) (types : List Ty) :
    substList assign types = types.map (subst assign) := by
  induction types with
  | nil => rfl
  | cons ty rest ih => simp [substList, ih]

theorem normalizeFields_sortByKey (fields : List (String × Ty)) :
    normalizeFields (Keyed.sortByKey fields) = Keyed.sortByKey (normalizeFields fields) := by
  rw [normalizeFields_eq_map, normalizeFields_eq_map, Keyed.sortByKey_map]

theorem substFields_sortByKey (assign : ℕ → Ty) (fields : List (String × Ty)) :
    substFields assign (Keyed.sortByKey fields) = Keyed.sortByKey (substFields assign fields) := by
  rw [substFields_eq_map, substFields_eq_map, Keyed.sortByKey_map]

theorem normalize_subst_nameValueRecord (assign : ℕ → Ty) :
    normalize (subst assign nameValueRecord) = nameValueRecord := by
  simp only [nameValueRecord, subst, substFields, normalize, normalizeFields]
  rw [Keyed.sortByKey_of_pairwise (by decide)]

mutual

/-- Normalization before substitution is absorbed by normalization after it. -/
theorem normalize_subst_normalize (assign : ℕ → Ty) : (ty : Ty) →
    normalize (subst assign (normalize ty)) = normalize (subst assign ty)
  | .list element => by
      simp [normalize, subst, normalize_subst_normalize assign element]
  | .record fields => by
      simp only [normalize, subst, substFields_sortByKey, normalizeFields_sortByKey,
        Keyed.sortByKey_sortByKey, normalizeFields_substFields_normalizeFields assign fields]
  | .option element => by
      simp [normalize, subst, normalize_subst_normalize assign element]
  | .result value error => by
      simp [normalize, subst, normalize_subst_normalize assign value,
        normalize_subst_normalize assign error]
  | .function parameters returnType effects requirements => by
      simp [normalize, subst, normalizeList_substList_normalizeList assign parameters,
        normalize_subst_normalize assign returnType]
  | .typeVariable id => rfl
  | .int => rfl
  | .bool => rfl
  | .string => rfl
  | .unit => rfl
  | .httpHeader | .logField => normalize_subst_nameValueRecord assign
  | .httpRequest | .httpResponse => by
      simp only [normalize, subst, substFields, normalizeFields,
        normalize_subst_nameValueRecord assign]
      rw [Keyed.sortByKey_of_pairwise (by decide)]
  | .queueJob | .scheduleEvent => by
      simp only [normalize, subst, substFields, normalizeFields]
      rw [Keyed.sortByKey_of_pairwise (by decide)]
  | .databaseTransaction => rfl
  | .secret => rfl

theorem normalizeFields_substFields_normalizeFields (assign : ℕ → Ty) :
    (fields : List (String × Ty)) →
    normalizeFields (substFields assign (normalizeFields fields)) =
      normalizeFields (substFields assign fields)
  | [] => rfl
  | (name, ty) :: rest => by
      simp [normalizeFields, substFields, normalize_subst_normalize assign ty,
        normalizeFields_substFields_normalizeFields assign rest]

theorem normalizeList_substList_normalizeList (assign : ℕ → Ty) :
    (types : List Ty) →
    normalizeList (substList assign (normalizeList types)) =
      normalizeList (substList assign types)
  | [] => rfl
  | ty :: rest => by
      simp [normalizeList, substList, normalize_subst_normalize assign ty,
        normalizeList_substList_normalizeList assign rest]

end

/-- The ground meaning of a type: variables replaced, contracts expanded. -/
def instantiate (assign : ℕ → Ty) (ty : Ty) : Ty :=
  normalize (subst assign ty)

theorem instantiate_eq_of_normalize_eq (assign : ℕ → Ty) {left right : Ty}
    (heq : normalize left = normalize right) :
    instantiate assign left = instantiate assign right := by
  unfold instantiate
  rw [← normalize_subst_normalize assign left, heq, normalize_subst_normalize]

mutual

/-- A size that decreases along every recursive comparison of
`typeEquivalent`: a contract weighs more than the types of its fields. -/
def weight : Ty → ℕ
  | .httpHeader | .logField => 2
  | .httpRequest | .httpResponse => 4
  | .list element | .option element => weight element + 1
  | .record fields => weightFields fields + 1
  | .result value error => weight value + weight error + 1
  | .function parameters returnType _ _ => weightList parameters + weight returnType + 1
  | _ => 1

def weightFields : List (String × Ty) → ℕ
  | [] => 0
  | (_, ty) :: rest => weight ty + weightFields rest

def weightList : List Ty → ℕ
  | [] => 0
  | ty :: rest => weight ty + weightList rest

end

def recordMatches (equivalent : Ty → Ty → Bool) (fields expected : List (String × Ty)) :
    Bool :=
  fields.length == expected.length &&
    expected.all fun entry =>
      match Keyed.find entry.1 fields with
      | some ty => equivalent ty entry.2
      | none => false

/-- The comparison of `type_equivalent`, with the recursion made explicit. -/
def typeEquivalentFuel : ℕ → Ty → Ty → Bool
  | 0, left, right => decide (left = right)
  | fuel + 1, left, right =>
      decide (left = right) ||
        match left, right with
        | .httpHeader, .record fields | .record fields, .httpHeader
        | .logField, .record fields | .record fields, .logField =>
            recordMatches (typeEquivalentFuel fuel) fields
              [("name", .string), ("value", .string)]
        | .httpRequest, .record fields | .record fields, .httpRequest =>
            recordMatches (typeEquivalentFuel fuel) fields
              [("body", .string), ("headers", .list .httpHeader), ("method", .string),
                ("path", .string), ("query", .string)]
        | .httpResponse, .record fields | .record fields, .httpResponse =>
            recordMatches (typeEquivalentFuel fuel) fields
              [("body", .string), ("headers", .list .httpHeader), ("status", .int)]
        | .list left, .list right | .option left, .option right =>
            typeEquivalentFuel fuel left right
        | .result leftValue leftError, .result rightValue rightError =>
            typeEquivalentFuel fuel leftValue rightValue &&
              typeEquivalentFuel fuel leftError rightError
        | .record leftFields, .record rightFields =>
            leftFields.length == rightFields.length &&
              leftFields.all fun left =>
                rightFields.any fun right =>
                  left.1 == right.1 && typeEquivalentFuel fuel left.2 right.2
        | .function leftParameters leftReturn leftEffects leftRequirements,
            .function rightParameters rightReturn rightEffects rightRequirements =>
            leftParameters.length == rightParameters.length &&
              (leftParameters.zip rightParameters).all
                (fun pair => typeEquivalentFuel fuel pair.1 pair.2) &&
              typeEquivalentFuel fuel leftReturn rightReturn &&
              decide (leftEffects = rightEffects) &&
              decide (leftRequirements = rightRequirements)
        | _, _ => false

def typeEquivalent (left right : Ty) : Bool :=
  typeEquivalentFuel (left.weight + right.weight) left right

/-- Field lists that match by name have one normal form. -/
private theorem normalizeFields_eq_of_related {left right : List (String × Ty)}
    (hdistinct : (left.map Prod.fst).Nodup) (hlength : left.length = right.length)
    (hrelated : ∀ entry ∈ left, ∃ other ∈ right,
      entry.1 = other.1 ∧ normalize entry.2 = normalize other.2) :
    Keyed.sortByKey (normalizeFields left) = Keyed.sortByKey (normalizeFields right) := by
  rw [normalizeFields_eq_map, normalizeFields_eq_map]
  apply Keyed.sortByKey_eq_of_subset
  · simpa [Function.comp_def] using hdistinct
  · intro entry hentry
    obtain ⟨field, hfield, rfl⟩ := List.mem_map.mp hentry
    obtain ⟨other, hother, hname, hnormal⟩ := hrelated field hfield
    exact List.mem_map.mpr ⟨other, hother, by rw [hname, hnormal]⟩
  · simpa using hlength

/-- Fields that match a contract's are the contract's, up to their order. -/
private theorem normalizeFields_eq_of_recordMatches
    {equivalent : Ty → Ty → Bool} {fields expected : List (String × Ty)}
    (hequivalent : ∀ left right, right.recordless = true →
      equivalent left right = true → normalize left = normalize right)
    (hexpected : ∀ entry ∈ expected, entry.2.recordless = true)
    (hdistinct : (expected.map Prod.fst).Nodup)
    (hmatches : recordMatches equivalent fields expected = true) :
    Keyed.sortByKey (normalizeFields expected) = Keyed.sortByKey (normalizeFields fields) := by
  simp only [recordMatches, Bool.and_eq_true, beq_iff_eq, List.all_eq_true] at hmatches
  obtain ⟨hlength, hall⟩ := hmatches
  apply normalizeFields_eq_of_related hdistinct hlength.symm
  intro entry hentry
  have hentryMatches := hall entry hentry
  cases hfind : Keyed.find entry.1 fields with
  | none => simp [hfind] at hentryMatches
  | some ty =>
      rw [hfind] at hentryMatches
      exact ⟨(entry.1, ty), Keyed.mem_of_find hfind, rfl,
        (hequivalent ty entry.2 (hexpected entry hentry) hentryMatches).symm⟩

theorem typeEquivalentFuel_normalize (fuel : ℕ) :
    ∀ left right : Ty, left.distinctFields = true ∨ right.recordless = true →
      typeEquivalentFuel fuel left right = true → normalize left = normalize right := by
  induction fuel with
  | zero =>
      intro left right _ heq
      rw [typeEquivalentFuel, decide_eq_true_eq] at heq
      rw [heq]
  | succ fuel ih =>
      intro left right hside hequivalent
      unfold typeEquivalentFuel at hequivalent
      rw [Bool.or_eq_true, decide_eq_true_eq] at hequivalent
      rcases hequivalent with heq | hequivalent
      · rw [heq]
      have hrecordless : ∀ left right, right.recordless = true →
          typeEquivalentFuel fuel left right = true → normalize left = normalize right :=
        fun left right hright => ih left right (.inr hright)
      split at hequivalent
      case h_14 => cases hequivalent
      case h_9 | h_10 =>
        simp only [distinctFields, recordless] at hside
        simp [normalize, ih _ _ hside hequivalent]
      case h_11 =>
        simp only [distinctFields, recordless, Bool.and_eq_true] at hside hequivalent
        have hvalue := ih _ _ (hside.imp And.left And.left) hequivalent.1
        have herror := ih _ _ (hside.imp And.right And.right) hequivalent.2
        simp [normalize, hvalue, herror]
      case h_12 leftFields rightFields =>
        simp only [distinctFields, recordless, Bool.and_eq_true, decide_eq_true_eq,
          distinctFieldsEach_iff, Bool.false_eq_true, or_false] at hside
        simp only [Bool.and_eq_true, beq_iff_eq, List.all_eq_true, List.any_eq_true]
          at hequivalent
        have hfields : Keyed.sortByKey (normalizeFields leftFields) =
            Keyed.sortByKey (normalizeFields rightFields) := by
          apply normalizeFields_eq_of_related hside.1 hequivalent.1
          intro entry hentry
          obtain ⟨other, hother, hname, hty⟩ := hequivalent.2 entry hentry
          exact ⟨other, hother, hname, ih _ _ (.inl (hside.2 entry hentry)) hty⟩
        simp [normalize, hfields]
      case h_13 =>
        simp only [distinctFields, recordless, Bool.and_eq_true, distinctFieldsList_iff,
          recordlessList_iff] at hside
        simp only [Bool.and_eq_true, beq_iff_eq, List.all_eq_true, decide_eq_true_eq]
          at hequivalent
        obtain ⟨⟨⟨⟨hlength, hall⟩, hreturn⟩, heffects⟩, hrequirements⟩ := hequivalent
        have hparameters := Keyed.map_eq_map_of_zip normalize hlength fun pair hpair =>
          ih _ _ (hside.imp (fun hleft => hleft.1 _ (List.of_mem_zip hpair).1)
            fun hright => hright.1 _ (List.of_mem_zip hpair).2) (hall pair hpair)
        have hresult := ih _ _ (hside.imp And.right And.right) hreturn
        simp [normalize, normalizeList_eq_map, hparameters, hresult, heffects, hrequirements]
      all_goals
        have hfields :=
          normalizeFields_eq_of_recordMatches hrecordless (by decide) (by decide) hequivalent
        simp only [normalize, ← hfields]
        rfl

/-- Equivalent types have one normal form, if the first names no field twice or
the second writes out no record.  A type that names a field twice is equivalent
to one that does not. -/
theorem typeEquivalent_normalize {left right : Ty}
    (hside : left.distinctFields = true ∨ right.recordless = true)
    (hequivalent : typeEquivalent left right = true) :
    normalize left = normalize right :=
  typeEquivalentFuel_normalize _ left right hside hequivalent

/-! ## Outlines -/

mutual

/-- What is left of a type when its records and contracts are forgotten. -/
def outline : Ty → Ty
  | .list element => .list (outline element)
  | .record _ | .httpHeader | .httpRequest | .httpResponse | .logField => .record []
  | .option element => .option (outline element)
  | .result value error => .result (outline value) (outline error)
  | .function parameters returnType effects requirements =>
      .function (outlineList parameters) (outline returnType) effects requirements
  | ty => ty

def outlineList : List Ty → List Ty
  | [] => []
  | ty :: rest => outline ty :: outlineList rest

end

theorem outlineList_eq_map (types : List Ty) : outlineList types = types.map outline := by
  induction types with
  | nil => rfl
  | cons ty rest ih => simp [outlineList, ih]

theorem typeEquivalentFuel_outline (fuel : ℕ) :
    ∀ left right : Ty, typeEquivalentFuel fuel left right = true →
      outline left = outline right := by
  induction fuel with
  | zero =>
      intro left right heq
      rw [typeEquivalentFuel, decide_eq_true_eq] at heq
      rw [heq]
  | succ fuel ih =>
      intro left right hequivalent
      unfold typeEquivalentFuel at hequivalent
      rw [Bool.or_eq_true, decide_eq_true_eq] at hequivalent
      rcases hequivalent with heq | hequivalent
      · rw [heq]
      split at hequivalent
      case h_14 => cases hequivalent
      case h_9 | h_10 => simp [outline, ih _ _ hequivalent]
      case h_11 =>
        rw [Bool.and_eq_true] at hequivalent
        simp [outline, ih _ _ hequivalent.1, ih _ _ hequivalent.2]
      case h_13 =>
        simp only [Bool.and_eq_true, beq_iff_eq, List.all_eq_true, decide_eq_true_eq]
          at hequivalent
        obtain ⟨⟨⟨⟨hlength, hall⟩, hreturn⟩, heffects⟩, hrequirements⟩ := hequivalent
        have hparameters := Keyed.map_eq_map_of_zip outline hlength fun pair hpair =>
          ih _ _ (hall pair hpair)
        simp [outline, outlineList_eq_map, hparameters, ih _ _ hreturn, heffects, hrequirements]
      all_goals rfl

/-- Equivalent types have one outline. -/
theorem typeEquivalent_outline {left right : Ty} (hequivalent : typeEquivalent left right = true) :
    outline left = outline right :=
  typeEquivalentFuel_outline _ left right hequivalent

end Ty

end Krit
