import Krit.ScalarArithmetic
import Krit.CoreCollection

/-!
# Scalars in locals

How the scalar compiler represents Core values: `Represents` relates a value of
a type to the words it takes, at most one.  A value is `Stored` in the locals
when its local holds its word.  Loads push a stored value, stores write one, and
both leave every other value where it was.
-/

namespace Krit

open Result Wasm

/-! ## Layouts -/

theorem Ty.outline_eq_int {ty : Ty} : ty.outline = .int ↔ ty = .int := by
  cases ty <;> simp [Ty.outline]

theorem Ty.outline_eq_bool {ty : Ty} : ty.outline = .bool ↔ ty = .bool := by
  cases ty <;> simp [Ty.outline]

theorem Ty.outline_eq_unit {ty : Ty} : ty.outline = .unit ↔ ty = .unit := by
  cases ty <;> simp [Ty.outline]

theorem Ty.outline_eq_function {ty : Ty} {parameters : List Ty} {returnType : Ty}
    {effects : EffectSet} {requirements : RequirementSet}
    (hty : ty.outline = .function parameters returnType effects requirements) :
    ∃ actual result, ty = .function actual result effects requirements ∧
      actual.map Ty.outline = parameters ∧ result.outline = returnType := by
  cases ty <;> simp [Ty.outline] at hty
  obtain ⟨hparameters, hreturn, rfl, rfl⟩ := hty
  exact ⟨_, _, rfl, Ty.outlineList_eq_map _ ▸ hparameters, hreturn⟩

/-- The types with a layout, with their layout. -/
theorem scalarLayout_ok {ty : Ty} {layout : Option ValType}
    (hlayout : scalarLayout ty = .ok layout) :
    (ty = .int ∧ layout = some .i64) ∨ (ty = .bool ∧ layout = some .i32) ∨
      (ty = .unit ∧ layout = none) ∨
        ∃ parameters returnType effects requirements,
          ty = .function parameters returnType effects requirements ∧ layout = some .i32 := by
  cases ty <;> simp [scalarLayout, Emit.fail, pure, Except.pure] at hlayout
  case int => exact .inl ⟨rfl, hlayout.symm⟩
  case bool => exact .inr (.inl ⟨rfl, hlayout.symm⟩)
  case unit => exact .inr (.inr (.inl ⟨rfl, hlayout.symm⟩))
  case function => exact .inr (.inr (.inr ⟨_, _, _, _, rfl, hlayout.symm⟩))

theorem scalarLayout_congr {ty other : Ty} {layout : Option ValType}
    (houtline : ty.outline = other.outline) (hlayout : scalarLayout ty = .ok layout) :
    scalarLayout other = .ok layout := by
  rcases scalarLayout_ok hlayout with ⟨rfl, rfl⟩ | ⟨rfl, rfl⟩ | ⟨rfl, rfl⟩ |
    ⟨parameters, returnType, effects, requirements, rfl, rfl⟩
  · rw [Ty.outline_eq_int.mp houtline.symm]
    rfl
  · rw [Ty.outline_eq_bool.mp houtline.symm]
    rfl
  · rw [Ty.outline_eq_unit.mp houtline.symm]
    rfl
  · obtain ⟨actual, result, rfl, -, -⟩ := Ty.outline_eq_function houtline.symm
    rfl

theorem scalarLayouts_congr {types others : List Ty} {layouts : List ValType}
    (houtline : types.map Ty.outline = others.map Ty.outline)
    (hlayouts : scalarLayouts types = .ok layouts) :
    scalarLayouts others = .ok layouts := by
  induction types generalizing others layouts with
  | nil =>
      obtain rfl : others = [] := by simpa using houtline.symm
      exact hlayouts
  | cons ty rest ih =>
      cases others with
      | nil => simp at houtline
      | cons other others =>
          simp only [List.map_cons, List.cons.injEq] at houtline
          simp only [scalarLayouts, bind_eq_ok, pure_eq_ok] at hlayouts ⊢
          obtain ⟨layout, hlayout, restLayouts, hrest, rfl⟩ := hlayouts
          exact ⟨layout, scalarLayout_congr houtline.1 hlayout, restLayouts,
            ih houtline.2 hrest, rfl⟩

/-- Signatures depend on types up to the contract records only. -/
theorem typeSignature_congr {parameters actual : List Ty} {returnType result : Ty}
    {signature : FuncType}
    (hparameters : parameters.map Ty.outline = actual.map Ty.outline)
    (hresult : returnType.outline = result.outline)
    (hsignature : typeSignature parameters returnType = .ok signature) :
    typeSignature actual result = .ok signature := by
  simp only [typeSignature, bind_eq_ok, pure_eq_ok] at hsignature ⊢
  obtain ⟨params, hparams, layout, hlayout, rfl⟩ := hsignature
  exact ⟨params, scalarLayouts_congr hparameters hparams, layout,
    scalarLayout_congr hresult hlayout, rfl⟩

/-! ## Representation -/

section Representation

variable (target : CoreModule) (live : LiveFunctions) (slots : List (BuiltinFlavor × ℕ))

/-- Captured values have no words; all that code relies on is that a captured unit
value is one. -/
def CapturesHeld (function : CoreFunction) (captures : List CoreValue) : Prop :=
  List.Forall₂ (fun capture value => capture.ty = Ty.unit → value = CoreValue.unit)
    function.captures captures

/-- The words of a value of a type.  A closure is the slot of its function, which
is live and has the type up to the contract records; a built-in is the slot of
its wrapper. -/
def Represents (ty : Ty) (value : CoreValue) (words : List Wasm.Value) : Prop :=
  match ty, value with
  | .int, .integer number => InI64 number ∧ words = [.i64 (word number)]
  | .bool, .boolean truth => words = [bool32 truth]
  | .unit, .unit => words = []
  | .function parameters returnType effects requirements, .closure id captures =>
      ∃ function, target.functions[id]? = some function ∧ live.contains id = true ∧
        CapturesHeld function captures ∧
        (functionType function.signature).outline =
          (Ty.function parameters returnType effects requirements).outline ∧
        id < 2 ^ 31 ∧ words = [.i32 (BitVec.ofNat 32 id)]
  | .function parameters returnType effects requirements, .builtin builtin declared =>
      ∃ flavor slot argument actual actualRequirements,
        declared = .function [argument] .unit actual actualRequirements ∧
        BuiltinFlavor.fromOperation builtin declared = .ok flavor ∧
        Keyed.find flavor slots = some slot ∧
        declared.outline = (Ty.function parameters returnType effects requirements).outline ∧
        slot < 2 ^ 31 ∧ words = [.i32 (BitVec.ofNat 32 slot)]
  | _, _ => False

/-- The words of a list of values, in order. -/
def RepresentsAll : List Ty → List CoreValue → List Wasm.Value → Prop
  | [], [], words => words = []
  | ty :: types, value :: values, words =>
      ∃ first rest, words = first ++ rest ∧ Represents target live slots ty value first ∧
        RepresentsAll types values rest
  | _, _, _ => False

end Representation

variable {target : CoreModule} {live : LiveFunctions} {slots : List (BuiltinFlavor × ℕ)}
variable {ty other : Ty} {value : CoreValue} {words : List Wasm.Value}

theorem Represents.congr (hrepresents : Represents target live slots ty value words)
    (houtline : ty.outline = other.outline) :
    Represents target live slots other value words := by
  unfold Represents at hrepresents
  split at hrepresents
  · rw [Ty.outline_eq_int.mp houtline.symm]
    exact hrepresents
  · rw [Ty.outline_eq_bool.mp houtline.symm]
    exact hrepresents
  · rw [Ty.outline_eq_unit.mp houtline.symm]
    exact hrepresents
  · obtain ⟨actual, result, rfl, -, -⟩ := Ty.outline_eq_function houtline.symm
    rw [houtline] at hrepresents
    exact hrepresents
  · obtain ⟨actual, result, rfl, -, -⟩ := Ty.outline_eq_function houtline.symm
    rw [houtline] at hrepresents
    exact hrepresents
  · exact hrepresents.elim

theorem RepresentsAll.congr {types others : List Ty} {values : List CoreValue}
    (hrepresents : RepresentsAll target live slots types values words)
    (houtline : types.map Ty.outline = others.map Ty.outline) :
    RepresentsAll target live slots others values words := by
  induction types generalizing others values words with
  | nil =>
      obtain rfl : others = [] := by simpa using houtline.symm
      exact hrepresents
  | cons ty rest ih =>
      cases others with
      | nil => simp at houtline
      | cons other others =>
          simp only [List.map_cons, List.cons.injEq] at houtline
          cases values with
          | nil => exact hrepresents.elim
          | cons value values =>
              obtain ⟨first, second, rfl, hfirst, hsecond⟩ := hrepresents
              exact ⟨first, second, rfl, hfirst.congr houtline.1, ih hsecond houtline.2⟩

/-- A value takes as many words as its type has layouts. -/
theorem Represents.length (hrepresents : Represents target live slots ty value words)
    {layout : Option ValType} (hlayout : scalarLayout ty = .ok layout) :
    words.length = layout.toList.length := by
  rcases scalarLayout_ok hlayout with ⟨rfl, rfl⟩ | ⟨rfl, rfl⟩ | ⟨rfl, rfl⟩ |
    ⟨parameters, returnType, effects, requirements, rfl, rfl⟩
  · cases value <;> simp only [Represents] at hrepresents
    simp [hrepresents.2]
  · cases value <;> simp only [Represents] at hrepresents
    simp [hrepresents]
  · cases value <;> simp only [Represents] at hrepresents
    simp [hrepresents]
  · cases value <;> simp only [Represents] at hrepresents
    · obtain ⟨_, -, -, -, -, -, rfl⟩ := hrepresents
      rfl
    · obtain ⟨_, _, _, _, _, -, -, -, -, -, rfl⟩ := hrepresents
      rfl

theorem Represents.reverse (hrepresents : Represents target live slots ty value words) :
    words.reverse = words := by
  have hshort : words.length ≤ 1 := by
    unfold Represents at hrepresents
    split at hrepresents
    · simp [hrepresents.2]
    · simp [hrepresents]
    · simp [hrepresents]
    · obtain ⟨_, -, -, -, -, -, rfl⟩ := hrepresents
      simp
    · obtain ⟨_, _, _, _, _, -, -, -, -, -, rfl⟩ := hrepresents
      simp
    · exact hrepresents.elim
  cases words with
  | nil => rfl
  | cons first rest =>
      obtain rfl : rest = [] := by simpa using hshort
      rfl

theorem RepresentsAll.length {types : List Ty} {values : List CoreValue}
    (hrepresents : RepresentsAll target live slots types values words)
    {layouts : List ValType} (hlayouts : scalarLayouts types = .ok layouts) :
    words.length = layouts.length := by
  induction types generalizing values words layouts with
  | nil =>
      cases values with
      | nil =>
          simp only [scalarLayouts, pure_eq_ok] at hlayouts
          simp [← hlayouts, show words = [] from hrepresents]
      | cons value values => exact hrepresents.elim
  | cons ty rest ih =>
      cases values with
      | nil => exact hrepresents.elim
      | cons value values =>
          simp only [scalarLayouts, bind_eq_ok, pure_eq_ok] at hlayouts
          obtain ⟨layout, hlayout, restLayouts, hrest, rfl⟩ := hlayouts
          obtain ⟨first, second, rfl, hfirst, hsecond⟩ := hrepresents
          rw [List.length_append, List.length_append, hfirst.length hlayout, ih hsecond hrest]

theorem RepresentsAll.values_length {types : List Ty} {values : List CoreValue}
    (hrepresents : RepresentsAll target live slots types values words) :
    values.length = types.length := by
  induction types generalizing values words with
  | nil =>
      cases values with
      | nil => rfl
      | cons value values => exact hrepresents.elim
  | cons ty rest ih =>
      cases values with
      | nil => exact hrepresents.elim
      | cons value values =>
          obtain ⟨first, second, -, -, hsecond⟩ := hrepresents
          simp [ih hsecond]

theorem RepresentsAll.singleton {values : List CoreValue}
    (hrepresents : RepresentsAll target live slots [ty] values words) :
    ∃ value, values = [value] ∧ Represents target live slots ty value words := by
  cases values with
  | nil => exact hrepresents.elim
  | cons value values =>
      obtain ⟨first, rest, rfl, hfirst, hrest⟩ := hrepresents
      cases values with
      | nil =>
          obtain rfl : rest = [] := hrest
          exact ⟨value, rfl, by simpa using hfirst⟩
      | cons second others => exact hrest.elim

/-! ## Locals -/

/-- Every value has its own local. -/
structure FunctionContext.Distinct (context : FunctionContext) (size : ℕ) : Prop where
  apart : (context.locals.map Prod.snd).Nodup
  bound : ∀ entry ∈ context.locals, entry.2 < size

theorem FunctionContext.Distinct.value_eq {context : FunctionContext} {size : ℕ}
    (hdistinct : context.Distinct size) {first second : ValueId} {index : ℕ}
    (hfirst : Keyed.find first context.locals = some index)
    (hsecond : Keyed.find second context.locals = some index) : first = second := by
  have hentries := List.inj_on_of_nodup_map hdistinct.apart (Keyed.mem_of_find hfirst)
    (Keyed.mem_of_find hsecond) rfl
  exact congrArg Prod.fst hentries

/-- From `before` to `after` only the locals of the values `written` changed. -/
structure Unchanged (context : FunctionContext) (written : List ValueId)
    (before after : List Wasm.Value) : Prop where
  length : after.length = before.length
  kept : ∀ id, id ∉ written → ∀ index, Keyed.find id context.locals = some index →
    after[index]? = before[index]?

section Locals

variable {context : FunctionContext} {locals after stack : List Wasm.Value} {id : ValueId}
variable {σ : Type} {machine : Wasm.Module} {invoke : Invoke σ} {size : ℕ}

theorem Unchanged.refl (written : List ValueId) : Unchanged context written locals locals :=
  ⟨rfl, fun _ _ _ _ => rfl⟩

theorem Unchanged.trans {first second written : List ValueId} {middle : List Wasm.Value}
    (hfirst : Unchanged context first locals middle)
    (hsecond : Unchanged context second middle after)
    (hfirstWritten : first ⊆ written) (hsecondWritten : second ⊆ written) :
    Unchanged context written locals after := by
  refine ⟨hsecond.length.trans hfirst.length, fun id hid index hindex => ?_⟩
  rw [hsecond.kept id (fun h => hid (hsecondWritten h)) index hindex,
    hfirst.kept id (fun h => hid (hfirstWritten h)) index hindex]

theorem Unchanged.mono {written more : List ValueId}
    (hunchanged : Unchanged context written locals after) (hmore : written ⊆ more) :
    Unchanged context more locals after :=
  ⟨hunchanged.length, fun id hid => hunchanged.kept id fun h => hid (hmore h)⟩

variable (target live slots context) in
/-- What the locals hold for a value.  The literal whose negation is the least
integer has no word of its own. -/
def Stored (locals : List Wasm.Value) (id : ValueId) (value : CoreValue) : Prop :=
  if id ∈ context.shared.minimumLiteralOperands then value = .integer (i64Max + 1)
  else ∀ ty, Keyed.find id context.valueTypes = some ty →
    ∃ words, Represents target live slots ty value words ∧
      ∀ entry ∈ words, ∀ index, Keyed.find id context.locals = some index →
        locals[index]? = some entry

theorem Stored.unchanged {written : List ValueId}
    (hstored : Stored target live slots context locals id value)
    (hunchanged : Unchanged context written locals after) (hid : id ∉ written) :
    Stored target live slots context after id value := by
  unfold Stored at hstored ⊢
  split
  · rename_i hminimum
    rwa [if_pos hminimum] at hstored
  · rename_i hminimum
    rw [if_neg hminimum] at hstored
    intro ty hty
    obtain ⟨words, hwords, hlocals⟩ := hstored ty hty
    refine ⟨words, hwords, fun entry hentry index hindex => ?_⟩
    rw [hunchanged.kept id hid index hindex]
    exact hlocals entry hentry index hindex

variable (machine invoke) in
/-- A load pushes the words of a stored value. -/
theorem loadValue_exec {code : List Instr} (hload : context.loadValue id = .ok code)
    (hstored : Stored target live slots context locals id value)
    (hminimum : id ∉ context.shared.minimumLiteralOperands) :
    ∃ ty words, Keyed.find id context.valueTypes = some ty ∧
      Represents target live slots ty value words ∧
      (∃ layout, scalarLayout ty = .ok layout) ∧
      ∀ stack, execAll machine invoke ⟨locals, stack⟩ code = pure ⟨locals, words ++ stack⟩ := by
  simp only [FunctionContext.loadValue, FunctionContext.valueType, bind_eq_ok,
    ofOption_eq_ok] at hload
  obtain ⟨ty, hty, layout, hlayout, hcode⟩ := hload
  rw [Stored, if_neg hminimum] at hstored
  obtain ⟨words, hwords, hlocals⟩ := hstored ty hty
  refine ⟨ty, words, hty, hwords, ⟨layout, hlayout⟩, fun stack => ?_⟩
  have hlength := hwords.length hlayout
  cases layout with
  | none =>
      simp only [pure_eq_ok] at hcode
      obtain rfl : words = [] := List.eq_nil_of_length_eq_zero hlength
      subst hcode
      simp
  | some scalar =>
      simp only [FunctionContext.localIndex, bind_eq_ok, ofOption_eq_ok, pure_eq_ok] at hcode
      obtain ⟨index, hindex, rfl⟩ := hcode
      obtain ⟨entry, rfl⟩ := List.length_eq_one_iff.mp hlength
      have hheldEntry := hlocals entry (List.mem_singleton.mpr rfl) index hindex
      simp [exec_localGet hheldEntry]

variable (machine invoke) in
/-- A store pops the words of a value into its local. -/
theorem storeValue_exec {code : List Instr} (hstore : context.storeValue id = .ok code)
    (hdistinct : context.Distinct size) (hsize : locals.length = size)
    (hrepresents : ∀ ty, Keyed.find id context.valueTypes = some ty →
      Represents target live slots ty value words) :
    ∃ after, (∀ stack, execAll machine invoke ⟨locals, words ++ stack⟩ code =
        pure ⟨after, stack⟩) ∧ Unchanged context [id] locals after ∧
      ∀ entry ∈ words, ∀ index, Keyed.find id context.locals = some index →
        after[index]? = some entry := by
  simp only [FunctionContext.storeValue, FunctionContext.valueType, bind_eq_ok,
    ofOption_eq_ok] at hstore
  obtain ⟨ty, hty, layout, hlayout, hcode⟩ := hstore
  have hlength := (hrepresents ty hty).length hlayout
  cases layout with
  | none =>
      simp only [pure_eq_ok] at hcode
      obtain rfl : words = [] := List.eq_nil_of_length_eq_zero hlength
      subst hcode
      exact ⟨locals, by simp, Unchanged.refl _, by simp⟩
  | some scalar =>
      simp only [FunctionContext.localIndex, bind_eq_ok, ofOption_eq_ok, pure_eq_ok] at hcode
      obtain ⟨index, hindex, rfl⟩ := hcode
      obtain ⟨entry, rfl⟩ := List.length_eq_one_iff.mp hlength
      have hbound : index < locals.length := hsize ▸ hdistinct.bound _ (Keyed.mem_of_find hindex)
      refine ⟨locals.set index entry, ?_, ⟨by simp, ?_⟩, ?_⟩
      · intro stack
        simp [exec_localSet hbound]
      · intro other hother position hposition
        rw [List.getElem?_set_ne]
        rintro rfl
        exact hother (List.mem_singleton.mpr (hdistinct.value_eq hposition hindex))
      · intro stored hstored position hposition
        rw [hindex, Option.some.injEq] at hposition
        subst hposition
        rw [List.mem_singleton.mp hstored, List.getElem?_set_self hbound]

end Locals

end Krit
