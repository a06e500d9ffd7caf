import Krit.ScalarBody
import Krit.CoreScope

/-!
# The locals of a function

The compiler gives every live value of a function with a layout its own local:
parameters come first, in order, and the rest follow in the order of the text.
The table knows exactly the parameters, the function itself and the values that
live code defines; captures and closures over eliminated functions are unknown
to it.
-/

namespace Krit

open Interp Result Wasm CoreRun

/-! ## Live definitions -/

section Live

variable (live : LiveFunctions)

mutual

/-- The values of a block that get a type: all but the closures over eliminated
functions. -/
def CoreBlock.liveDefinitions : CoreBlock → List (ValueId × Ty)
  | ⟨_, parameters, operations, _, _, _, _, _⟩ =>
      parameters.map (fun parameter => (parameter.value, parameter.ty)) ++
        operationsLiveDefinitions operations

def operationsLiveDefinitions : List CoreOperation → List (ValueId × Ty)
  | [] => []
  | ⟨result, ty, _, _, _, kind⟩ :: rest =>
      (if live.isDeadClosure kind then [] else (result, ty) :: kind.liveDefinitions) ++
        operationsLiveDefinitions rest

def OperationKind.liveDefinitions : OperationKind → List (ValueId × Ty)
  | .block block => block.liveDefinitions
  | .if _ consequent alternative =>
      consequent.liveDefinitions ++ alternative.liveDefinitions
  | .matchList _ empty _ _ cons => empty.liveDefinitions ++ cons.liveDefinitions
  | .matchVariant _ _ arms => armsLiveDefinitions arms
  | _ => []

def armsLiveDefinitions : List VariantArmBlock → List (ValueId × Ty)
  | [] => []
  | ⟨_, _, block⟩ :: rest => block.liveDefinitions ++ armsLiveDefinitions rest

end

mutual

theorem CoreBlock.liveDefinitions_sublist : (block : CoreBlock) →
    (block.liveDefinitions live).Sublist block.definitions
  | ⟨_, parameters, operations, _, _, _, _, _⟩ => by
      simp only [CoreBlock.liveDefinitions, CoreBlock.definitions]
      exact (List.Sublist.refl _).append (operationsLiveDefinitions_sublist operations)

theorem operationsLiveDefinitions_sublist : (operations : List CoreOperation) →
    (operationsLiveDefinitions live operations).Sublist (operationsDefinitions operations)
  | [] => by simp [operationsLiveDefinitions]
  | ⟨result, ty, _, _, _, kind⟩ :: rest => by
      simp only [operationsLiveDefinitions, operationsDefinitions, CoreOperation.definitions]
      refine List.Sublist.append ?_ (operationsLiveDefinitions_sublist rest)
      split
      · exact List.nil_sublist _
      · exact List.Sublist.cons_cons _ (OperationKind.liveDefinitions_sublist kind)

theorem OperationKind.liveDefinitions_sublist : (kind : OperationKind) →
    (kind.liveDefinitions live).Sublist kind.definitions
  | .block block => block.liveDefinitions_sublist
  | .if _ consequent alternative =>
      consequent.liveDefinitions_sublist.append alternative.liveDefinitions_sublist
  | .matchList _ empty _ _ cons =>
      empty.liveDefinitions_sublist.append cons.liveDefinitions_sublist
  | .matchVariant _ _ arms => armsLiveDefinitions_sublist arms
  | .literal _ | .unit | .builtin _ | .variant _ _ | .list _ | .record _ | .field _ _
  | .closure _ _ _ | .call _ _ | .unary _ _ | .binary _ _ _ | .bind _ _ | .discard _
  | .exit _ => by
      simp [OperationKind.liveDefinitions]

theorem armsLiveDefinitions_sublist : (arms : List VariantArmBlock) →
    (armsLiveDefinitions live arms).Sublist (armsDefinitions arms)
  | [] => by simp [armsLiveDefinitions]
  | ⟨_, _, block⟩ :: rest =>
      block.liveDefinitions_sublist.append (armsLiveDefinitions_sublist rest)

end

mutual

/-- Every definition is live or the value of a closure over an eliminated
function, and not both. -/
theorem CoreBlock.count_definitions (id : ValueId) : (block : CoreBlock) →
    (block.definitions.map Prod.fst).count id =
      ((block.liveDefinitions live).map Prod.fst).count id + (block.deadResults live).count id
  | ⟨_, parameters, operations, _, _, _, _, _⟩ => by
      have hoperations := operations_count_definitions id operations
      simp only [CoreBlock.definitions, CoreBlock.liveDefinitions, CoreBlock.deadResults,
        List.map_append, List.count_append]
      omega

theorem operations_count_definitions (id : ValueId) : (operations : List CoreOperation) →
    ((operationsDefinitions operations).map Prod.fst).count id =
      ((operationsLiveDefinitions live operations).map Prod.fst).count id +
        (operationsDeadResults live operations).count id
  | [] => by
      simp [operationsDefinitions, operationsLiveDefinitions, operationsDeadResults]
  | ⟨result, ty, _, _, _, kind⟩ :: rest => by
      have hkind := OperationKind.count_definitions id kind
      have hrest := operations_count_definitions id rest
      simp only [operationsDefinitions, CoreOperation.definitions, operationsLiveDefinitions,
        operationsDeadResults]
      by_cases hdead : live.isDeadClosure kind = true
      · have hclosure : kind.definitions = [] ∧ kind.deadResults live = [] := by
          cases kind <;>
            simp_all [LiveFunctions.isDeadClosure, OperationKind.definitions,
              OperationKind.deadResults]
        simp only [hdead, if_true, hclosure.1, hclosure.2, List.map_append, List.map_cons,
          List.map_nil, List.count_append, List.nil_append]
        omega
      · simp only [hdead, Bool.false_eq_true, if_false, List.map_append, List.map_cons,
          List.cons_append, List.count_cons, List.count_append, List.nil_append]
        omega

theorem OperationKind.count_definitions (id : ValueId) : (kind : OperationKind) →
    (kind.definitions.map Prod.fst).count id =
      ((kind.liveDefinitions live).map Prod.fst).count id + (kind.deadResults live).count id
  | .block block => block.count_definitions id
  | .if _ consequent alternative => by
      have hconsequent := consequent.count_definitions id
      have halternative := alternative.count_definitions id
      simp only [OperationKind.definitions, OperationKind.liveDefinitions,
        OperationKind.deadResults, List.map_append, List.count_append]
      omega
  | .matchList _ empty _ _ cons => by
      have hempty := empty.count_definitions id
      have hcons := cons.count_definitions id
      simp only [OperationKind.definitions, OperationKind.liveDefinitions,
        OperationKind.deadResults, List.map_append, List.count_append]
      omega
  | .matchVariant _ _ arms => arms_count_definitions id arms
  | .literal _ | .unit | .builtin _ | .variant _ _ | .list _ | .record _ | .field _ _
  | .closure _ _ _ | .call _ _ | .unary _ _ | .binary _ _ _ | .bind _ _ | .discard _
  | .exit _ => by
      simp [OperationKind.definitions, OperationKind.liveDefinitions, OperationKind.deadResults]

theorem arms_count_definitions (id : ValueId) : (arms : List VariantArmBlock) →
    ((armsDefinitions arms).map Prod.fst).count id =
      ((armsLiveDefinitions live arms).map Prod.fst).count id +
        (armsDeadResults live arms).count id
  | [] => by simp [armsDefinitions, armsLiveDefinitions, armsDeadResults]
  | ⟨_, _, block⟩ :: rest => by
      have hblock := block.count_definitions id
      have hrest := arms_count_definitions id rest
      simp only [armsDefinitions, armsLiveDefinitions, armsDeadResults, List.map_append,
        List.count_append]
      omega

end

theorem CoreBlock.dead_not_live {block : CoreBlock}
    (hdistinct : (block.definitions.map Prod.fst).Nodup) {id : ValueId}
    (hdead : id ∈ block.deadResults live) :
    id ∉ (block.liveDefinitions live).map Prod.fst := by
  intro hlive
  have hcount := block.count_definitions live id
  have honce := List.nodup_iff_count_le_one.mp hdistinct id
  have hdeadCount := List.count_pos_iff.mpr hdead
  have hliveCount := List.count_pos_iff.mpr hlive
  omega

theorem CoreBlock.dead_subset {block : CoreBlock} {id : ValueId}
    (hdead : id ∈ block.deadResults live) : id ∈ block.definitions.map Prod.fst := by
  have hcount := block.count_definitions live id
  have hdeadCount := List.count_pos_iff.mpr hdead
  exact List.count_pos_iff.mp (by omega)

end Live

/-! ## Tables of locals -/

/-- Every local is taken once, and below the number of locals. -/
structure LocalTable.Fits (table : LocalTable) (parameterCount : ℕ) : Prop where
  apart : (table.locals.map Prod.snd).Nodup
  bound : ∀ entry ∈ table.locals, entry.2 < parameterCount + table.declarations.length

/-- From `before` to `after` the table learned these definitions. -/
structure LocalTable.Extends (parameterCount : ℕ) (before after : LocalTable)
    (definitions : List (ValueId × Ty)) : Prop where
  valueTypes : after.valueTypes = definitions.reverse ++ before.valueTypes
  locals : ∃ entries, after.locals = entries ++ before.locals ∧
    ∀ entry ∈ entries, entry.1 ∈ definitions.map Prod.fst
  fits : before.Fits parameterCount → after.Fits parameterCount

section Tables

variable {parameterCount : ℕ} {live : LiveFunctions}

theorem LocalTable.Extends.refl (table : LocalTable) :
    LocalTable.Extends parameterCount table table [] :=
  ⟨rfl, ⟨[], rfl, by simp⟩, id⟩

theorem LocalTable.Extends.trans {before middle after : LocalTable}
    {first second : List (ValueId × Ty)}
    (hfirst : LocalTable.Extends parameterCount before middle first)
    (hsecond : LocalTable.Extends parameterCount middle after second) :
    LocalTable.Extends parameterCount before after (first ++ second) where
  valueTypes := by simp [hsecond.valueTypes, hfirst.valueTypes]
  locals := by
    obtain ⟨firstEntries, hfirstLocals, hfirstKeys⟩ := hfirst.locals
    obtain ⟨secondEntries, hsecondLocals, hsecondKeys⟩ := hsecond.locals
    refine ⟨secondEntries ++ firstEntries, by simp [hsecondLocals, hfirstLocals], ?_⟩
    intro entry hentry
    rw [List.map_append, List.mem_append]
    rcases List.mem_append.mp hentry with hmem | hmem
    · exact .inr (hsecondKeys entry hmem)
    · exact .inl (hfirstKeys entry hmem)
  fits := fun hfits => hsecond.fits (hfirst.fits hfits)

theorem pushLocal_extends {before after : LocalTable} {value : ValueId} {ty : Ty}
    (hpush : pushLocal parameterCount before value ty = .ok after) :
    LocalTable.Extends parameterCount before after [(value, ty)] := by
  simp only [pushLocal, bind_eq_ok] at hpush
  obtain ⟨layout, -, hpush⟩ := hpush
  cases layout with
  | none =>
      simp only [pure_eq_ok] at hpush
      subst hpush
      exact ⟨rfl, ⟨[], rfl, by simp⟩, fun hfits => ⟨hfits.apart, hfits.bound⟩⟩
  | some scalar =>
      simp only [Emit.u32, bind_eq_ok, pure_eq_ok] at hpush
      obtain ⟨count, ⟨_, -, rfl⟩, hpush⟩ := hpush
      split at hpush
      · simp [Emit.fail] at hpush
      · simp only [pure_eq_ok] at hpush
        subst hpush
        refine ⟨rfl, ⟨[(value, parameterCount + before.declarations.length)], rfl, by simp⟩, ?_⟩
        intro hfits
        constructor
        · simp only [List.map_cons, List.nodup_cons]
          refine ⟨?_, hfits.apart⟩
          intro hmem
          obtain ⟨entry, hentry, heq⟩ := List.mem_map.mp hmem
          have hbound := hfits.bound entry hentry
          omega
        · intro entry hentry
          simp only [List.length_append, List.length_cons, List.length_nil]
          rcases List.mem_cons.mp hentry with rfl | hmem
          · omega
          · have hbound := hfits.bound entry hmem
            omega

theorem pushParameters_extends {parameters : List BlockParameter} :
    ∀ {before after : LocalTable}, pushParameters parameterCount before parameters = .ok after →
      LocalTable.Extends parameterCount before after
        (parameters.map fun parameter => (parameter.value, parameter.ty)) := by
  induction parameters with
  | nil =>
      intro before after hpush
      simp only [pushParameters, pure_eq_ok] at hpush
      subst hpush
      exact LocalTable.Extends.refl _
  | cons parameter rest ih =>
      intro before after hpush
      simp only [pushParameters, bind_eq_ok] at hpush
      obtain ⟨middle, hmiddle, hrest⟩ := hpush
      exact (pushLocal_extends hmiddle).trans (ih hrest)

mutual

theorem collectBlockLocals_extends : (block : CoreBlock) →
    ∀ ⦃before after : LocalTable⦄, collectBlockLocals live parameterCount before block = .ok after →
      LocalTable.Extends parameterCount before after (block.liveDefinitions live)
  | ⟨_, parameters, operations, _, _, _, _, _⟩ => by
      intro before after hcollect
      simp only [collectBlockLocals, bind_eq_ok] at hcollect
      obtain ⟨middle, hparameters, hoperations⟩ := hcollect
      exact (pushParameters_extends hparameters).trans
        (collectOperationLocals_extends operations hoperations)

theorem collectOperationLocals_extends : (operations : List CoreOperation) →
    ∀ ⦃before after : LocalTable⦄,
      collectOperationLocals live parameterCount before operations = .ok after →
        LocalTable.Extends parameterCount before after (operationsLiveDefinitions live operations)
  | [] => by
      intro before after hcollect
      simp only [collectOperationLocals, pure_eq_ok] at hcollect
      subst hcollect
      exact LocalTable.Extends.refl _
  | ⟨result, ty, _, _, source, kind⟩ :: rest => by
      intro before after hcollect
      simp only [collectOperationLocals] at hcollect
      simp only [operationsLiveDefinitions]
      split at hcollect
      · rename_i hdead
        rw [if_pos hdead]
        exact collectOperationLocals_extends rest hcollect
      · rename_i hlive
        rw [if_neg hlive]
        simp only [bind_eq_ok, Emit.orSpan_eq_ok] at hcollect
        obtain ⟨pushed, hpushed, nested, hnested, hrest⟩ := hcollect
        exact ((pushLocal_extends hpushed).trans (collectKindLocals_extends kind hnested)).trans
          (collectOperationLocals_extends rest hrest)

theorem collectKindLocals_extends : (kind : OperationKind) →
    ∀ ⦃before after : LocalTable⦄, collectKindLocals live parameterCount before kind = .ok after →
      LocalTable.Extends parameterCount before after (kind.liveDefinitions live)
  | .block block => collectBlockLocals_extends block
  | .if _ consequent alternative => by
      intro before after hcollect
      simp only [collectKindLocals, bind_eq_ok] at hcollect
      obtain ⟨middle, hconsequent, halternative⟩ := hcollect
      exact (collectBlockLocals_extends consequent hconsequent).trans
        (collectBlockLocals_extends alternative halternative)
  | .matchList _ empty _ _ cons => by
      intro before after hcollect
      simp only [collectKindLocals, bind_eq_ok] at hcollect
      obtain ⟨middle, hempty, hcons⟩ := hcollect
      exact (collectBlockLocals_extends empty hempty).trans (collectBlockLocals_extends cons hcons)
  | .matchVariant _ _ arms => collectArmLocals_extends arms
  | .literal _ | .unit | .builtin _ | .variant _ _ | .list _ | .record _ | .field _ _
  | .closure _ _ _ | .call _ _ | .unary _ _ | .binary _ _ _ | .bind _ _ | .discard _
  | .exit _ => by
      intro before after hcollect
      simp only [collectKindLocals, pure_eq_ok] at hcollect
      subst hcollect
      exact LocalTable.Extends.refl _

theorem collectArmLocals_extends : (arms : List VariantArmBlock) →
    ∀ ⦃before after : LocalTable⦄, collectArmLocals live parameterCount before arms = .ok after →
      LocalTable.Extends parameterCount before after (armsLiveDefinitions live arms)
  | [] => by
      intro before after hcollect
      simp only [collectArmLocals, pure_eq_ok] at hcollect
      subst hcollect
      exact LocalTable.Extends.refl _
  | ⟨_, _, block⟩ :: rest => by
      intro before after hcollect
      simp only [collectArmLocals, bind_eq_ok] at hcollect
      obtain ⟨middle, hblock, hrest⟩ := hcollect
      exact (collectBlockLocals_extends block hblock).trans (collectArmLocals_extends rest hrest)

end

theorem recursiveLocal_extends {function : CoreFunction} {before after : LocalTable}
    (hrecursive : recursiveLocal parameterCount before function = .ok after) :
    LocalTable.Extends parameterCount before after
      (function.recursive.toList.map fun recursive => (recursive.value, recursive.ty)) := by
  unfold recursiveLocal at hrecursive
  split at hrecursive
  · rename_i recursive hsome
    rw [hsome]
    exact pushLocal_extends hrecursive
  · rename_i hnone
    simp only [pure_eq_ok] at hrecursive
    subst hrecursive
    rw [hnone]
    exact LocalTable.Extends.refl _

end Tables

/-! ## Parameters -/

section Parameters

variable {target : CoreModule} {live : LiveFunctions} {slots : List (BuiltinFlavor × ℕ)}

/-- The locals that `entries` gives to a parameter hold the words of its argument. -/
def ParameterHeld (target : CoreModule) (live : LiveFunctions)
    (slots : List (BuiltinFlavor × ℕ)) (entries : List (ValueId × ℕ)) (locals : List Wasm.Value)
    (parameter : CoreParameter) (value : CoreValue) : Prop :=
  ∃ words, Represents target live slots parameter.ty value words ∧
    ∀ entry ∈ words, ∀ index, (parameter.value, index) ∈ entries → locals[index]? = some entry

/-- What the table of parameters looks like, for words of the arguments. -/
structure ParameterTable (target : CoreModule) (live : LiveFunctions)
    (slots : List (BuiltinFlavor × ℕ)) (next : ℕ) (before after : LocalTable) (count : ℕ)
    (entries : List (ValueId × ℕ)) (parameters : List CoreParameter)
    (arguments : List CoreValue) (words : List Wasm.Value) : Prop where
  total : count = next + words.length
  declarations : after.declarations = before.declarations
  valueTypes : after.valueTypes =
    (parameters.map fun parameter => (parameter.value, parameter.ty)).reverse ++ before.valueTypes
  locals : after.locals = entries ++ before.locals
  keys : ∀ entry ∈ entries, entry.1 ∈ parameters.map (·.value)
  range : ∀ entry ∈ entries, next ≤ entry.2 ∧ entry.2 < count
  apart : (entries.map Prod.snd).Nodup
  held : ∀ earlier later : List Wasm.Value, earlier.length = next →
    List.Forall₂ (ParameterHeld target live slots entries (earlier ++ words ++ later))
      parameters arguments

theorem parameterLocals_table {parameters : List CoreParameter} {arguments : List CoreValue}
    {words : List Wasm.Value} {next count : ℕ} {before after : LocalTable}
    (hlocals : parameterLocals next before parameters = .ok (count, after))
    (hwords : RepresentsAll target live slots (parameters.map (·.ty)) arguments words)
    (hdistinct : (parameters.map (·.value)).Nodup) :
    ∃ entries, ParameterTable target live slots next before after count entries parameters
      arguments words := by
  induction parameters generalizing arguments words next before with
  | nil =>
      simp only [parameterLocals, pure_eq_ok, Prod.mk.injEq] at hlocals
      obtain ⟨rfl, rfl⟩ := hlocals
      cases arguments with
      | nil =>
          obtain rfl : words = [] := hwords
          exact ⟨[], rfl, rfl, rfl, rfl, by simp, by simp, by simp, fun _ _ _ => .nil⟩
      | cons value values => exact hwords.elim
  | cons parameter rest ih =>
      cases arguments with
      | nil => exact hwords.elim
      | cons value values =>
          obtain ⟨first, others, rfl, hfirst, hothers⟩ := hwords
          simp only [List.map_cons, List.nodup_cons] at hdistinct
          simp only [parameterLocals, bind_eq_ok] at hlocals
          obtain ⟨layout, hlayout, hlocals⟩ := hlocals
          have hlength := hfirst.length hlayout
          cases layout with
          | none =>
              obtain rfl : first = [] := List.eq_nil_of_length_eq_zero hlength
              obtain ⟨entries, htable⟩ := ih hlocals hothers hdistinct.2
              refine ⟨entries, ?_⟩
              constructor
              · simpa using htable.total
              · exact htable.declarations
              · simp [htable.valueTypes]
              · exact htable.locals
              · intro entry hentry
                exact List.mem_cons_of_mem _ (htable.keys entry hentry)
              · exact htable.range
              · exact htable.apart
              · intro earlier later hearlier
                refine .cons ⟨[], hfirst, by simp⟩ ?_
                simpa using htable.held earlier later hearlier
          | some scalar =>
              obtain ⟨word, rfl⟩ := List.length_eq_one_iff.mp hlength
              obtain ⟨entries, htable⟩ := ih hlocals hothers hdistinct.2
              have hcount := htable.total
              refine ⟨entries ++ [(parameter.value, next)], ?_⟩
              constructor
              · simp only [List.length_append, List.length_cons, List.length_nil]
                omega
              · exact htable.declarations
              · simp [htable.valueTypes]
              · simp [htable.locals]
              · intro entry hentry
                rcases List.mem_append.mp hentry with hmem | hmem
                · exact List.mem_cons_of_mem _ (htable.keys entry hmem)
                · rw [List.mem_singleton.mp hmem]
                  exact List.mem_cons_self
              · intro entry hentry
                rcases List.mem_append.mp hentry with hmem | hmem
                · have hrange := htable.range entry hmem
                  omega
                · rw [List.mem_singleton.mp hmem]
                  dsimp only
                  omega
              · rw [List.map_append, List.nodup_append]
                refine ⟨htable.apart, by simp, ?_⟩
                intro index hindex other hother
                obtain ⟨entry, hentry, rfl⟩ := List.mem_map.mp hindex
                obtain rfl : other = next := by simpa using hother
                have hrange := htable.range entry hentry
                omega
              · intro earlier later hearlier
                refine .cons ⟨[word], hfirst, ?_⟩ ?_
                · intro entry hentry index hindex
                  obtain rfl := List.mem_singleton.mp hentry
                  rcases List.mem_append.mp hindex with hmem | hmem
                  · exact absurd (htable.keys _ hmem) hdistinct.1
                  · obtain rfl : index = next := by simpa using hmem
                    simp [← hearlier]
                · have hheld := htable.held (earlier ++ [word]) later (by simp [hearlier])
                  -- the others' locals are found among their own entries
                  have hothersHeld : ∀ other ∈ rest, ∀ argument,
                      ParameterHeld target live slots entries
                        (earlier ++ [word] ++ others ++ later) other argument →
                      ParameterHeld target live slots (entries ++ [(parameter.value, next)])
                        (earlier ++ ([word] ++ others) ++ later) other argument := by
                    rintro other hother argument ⟨held, hrepresents, hentries⟩
                    refine ⟨held, hrepresents, ?_⟩
                    intro entry hentry index hindex
                    rcases List.mem_append.mp hindex with hmem | hmem
                    · simpa using hentries entry hentry index hmem
                    · have hsame : other.value = parameter.value := by
                        simp only [List.mem_singleton, Prod.mk.injEq] at hmem
                        exact hmem.1
                      exact absurd (hsame ▸ List.mem_map_of_mem hother) hdistinct.1
                  exact Keyed.forall₂_imp_mem hheld hothersHeld

end Parameters

end Krit
