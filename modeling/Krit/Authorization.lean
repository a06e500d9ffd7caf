import Krit.Permissions
import Krit.RequestTarget
import Krit.WitWorlds

/-!
# Authorization is manifest containment

The grant set answers as the manifest does, the metadata that the compiler writes for an
accepted program passes the validation of the runtime, and the runtime authorizes it
exactly if the manifest grants what it requires.
-/

namespace Krit

open Artifact

namespace GrantSet

/-! ## The grant set and the manifest -/

theorem mem_granted {α : Type} {condition : Bool} {values : List α} {value : α} :
    value ∈ granted condition values ↔ condition = true ∧ value ∈ values := by
  cases condition <;> simp [granted]

theorem secretBinding_secret (manifest : Manifest) (secret : String) :
    (manifest.secretBinding secret).secret = secret := by
  rw [Manifest.secretBinding]
  split <;> rfl

theorem secretBindings_names (manifest : Manifest) :
    manifest.secretBindings.map SecretBindingFact.secret = manifest.secretNames := by
  rw [Manifest.secretBindings, List.map_map]
  simp [Function.comp_def, secretBinding_secret]

theorem find_secretBindings (manifest : Manifest) (secret : String) :
    manifest.secretBindings.find? (·.secret == secret) =
      if secret ∈ manifest.secretNames then some (manifest.secretBinding secret) else none := by
  rw [Manifest.secretBindings, List.find?_map]
  simp only [Function.comp_def, secretBinding_secret]
  by_cases hmem : secret ∈ manifest.secretNames
  · rw [if_pos hmem]
    cases hfind : manifest.secretNames.find? (· == secret) with
    | none => exact absurd (beq_self_eq_true secret) (List.find?_eq_none.mp hfind secret hmem)
    | some found =>
      have hfound : found = secret := by simpa using List.find?_some hfind
      rw [hfound, Option.map_some]
  · rw [if_neg hmem, List.find?_eq_none.mpr, Option.map_none]
    intro other hother hsame
    rw [beq_iff_eq] at hsame
    exact hmem (hsame ▸ hother)

/-- A fact is requested if the manifest grants it. -/
theorem mem_requestedFacts {manifest : Manifest} {capability : String}
    {resource : Option String} :
    (⟨capability, resource⟩ : PermissionFact) ∈ requestedFacts manifest ↔
      manifest.grantsPermission capability resource = true := by
  delta requestedFacts
  simp only [List.mem_append, mem_granted, Manifest.mem_facts, secretBindings_names,
    List.mem_singleton, PermissionFact.mk.injEq]
  cases hname : Effect.fromName capability with
  | none =>
    have hother : ∀ effect : Effect, capability ≠ effect.asStr := by
      intro effect heffect
      rw [heffect, Effect.fromName_asStr] at hname
      cases hname
    simp [Manifest.grantsPermission, hname, hother]
  | some effect =>
    have heffect := Effect.eq_asStr_of_fromName hname
    subst heffect
    cases effect with
    | secretRead =>
      rw [Manifest.grantsPermission_secret]
      simp
    | ioStdout => cases resource <;> simp [Manifest.grantsPermission]
    | observeLog => cases resource <;> simp [Manifest.grantsPermission]
    | _ => simp [Manifest.grantsPermission, Manifest.names_eq_true]

theorem imports_fromManifest (manifest : Manifest) :
    (fromManifest manifest).imports = (grantedImports manifest).map Interface.identity := by
  simp only [fromManifest]

theorem grants_fromManifest (manifest : Manifest) (capability : String)
    (resource : Option String) :
    (fromManifest manifest).grants capability resource =
      manifest.grantsPermission capability resource := by
  rw [Bool.eq_iff_iff, ← mem_requestedFacts, grants]
  simp only [List.any_eq_true, fromManifest, SortedList.mem_sort, Bool.and_eq_true, beq_iff_eq]
  constructor
  · rintro ⟨fact, hmem, rfl, rfl⟩
    exact hmem
  · intro hmem
    exact ⟨_, hmem, rfl, rfl⟩

/-- The grant set lets a secret reach the origins that the manifest lets it reach. -/
theorem permitsBearer_fromManifest (manifest : Manifest) (secret origin : String) :
    (fromManifest manifest).permitsBearer secret origin =
      manifest.permitsBearer secret origin := by
  have hbindings : (fromManifest manifest).secretBindings = manifest.secretBindings := by
    simp only [fromManifest]
  have hgranted : manifest.grantsPermission Effect.secretRead.asStr (some secret) =
      decide (secret ∈ manifest.secretNames) := by
    rw [Bool.eq_iff_iff, Manifest.grantsPermission_secret, decide_eq_true_eq]
    simp
  unfold permitsBearer Manifest.permitsBearer
  rw [grants_fromManifest, hbindings, find_secretBindings, hgranted]
  by_cases hmem : secret ∈ manifest.secretNames
  · rw [if_pos hmem, Option.any_some, decide_eq_true hmem, Bool.true_and]
    congr 1
    unfold Manifest.secretBinding
    cases Keyed.find secret manifest.secrets with
    | none => rfl
    | some binding =>
      simp only [Option.all_some]
      rw [Bool.eq_iff_iff, List.any_eq_true, List.any_eq_true]
      simp only [SortedList.mem_sort]
  · rw [if_neg hmem, Option.any_none, Bool.and_false, decide_eq_false hmem, Bool.false_and,
      Bool.false_and]

/-- The permission plan lists what the grant set requests. -/
theorem mem_permissionPlan {manifest : Manifest} {fact : PermissionFact} :
    fact ∈ manifest.permissionPlan ↔ fact ∈ (fromManifest manifest).requested := by
  delta fromManifest requestedFacts
  simp only [Manifest.permissionPlan, granted, secretBindings_names, SortedList.mem_sort,
    List.mem_append]
  apply iff_of_eq
  ac_rfl

/-- A granted permission names a granted resource. -/
theorem nonempty_of_names {granted : List String} {resource : Option String}
    (hnames : Manifest.names granted resource = true) : granted ≠ [] := by
  obtain ⟨value, hmem, -⟩ := Manifest.names_eq_true.mp hnames
  exact List.ne_nil_of_mem hmem

theorem nonempty_secretBindings {manifest : Manifest} {resource : Option String}
    (hgrants : manifest.grantsPermission Effect.secretRead.asStr resource = true) :
    manifest.secretBindings ≠ [] := by
  obtain ⟨value, hmem, -⟩ := Manifest.grantsPermission_secret.mp hgrants
  exact List.ne_nil_of_mem (List.mem_map_of_mem hmem)

/-- The capability of a granted permission is a granted effect, and the interface that it
needs is a granted import. -/
theorem granted_of_grantsPermission {manifest : Manifest} {effect : Effect}
    {resource : Option String}
    (hgrants : manifest.grantsPermission effect.asStr resource = true) :
    effect.asStr ∈ grantedEffects manifest ∧
      ∀ secret interface, neededInterface secret effect = some interface →
        interface ∈ grantedImports manifest := by
  delta grantedEffects grantedImports
  simp only [List.mem_append, mem_granted]
  cases effect with
  | secretRead =>
    have hsome := nonempty_secretBindings hgrants
    simp [hsome, neededInterface]
  | ioStdout =>
    have hstdout : manifest.capabilities.stdout = true := by
      simp only [Manifest.grantsPermission, Effect.fromName_asStr, Bool.and_eq_true] at hgrants
      exact hgrants.2
    simp [hstdout, neededInterface]
  | observeLog =>
    have hlogs : manifest.capabilities.logs = true := by
      simp only [Manifest.grantsPermission, Effect.fromName_asStr, Bool.and_eq_true] at hgrants
      exact hgrants.2
    simp [hlogs, neededInterface]
  | httpRequest =>
    simp only [Manifest.grantsPermission, Effect.fromName_asStr] at hgrants
    have hsome := nonempty_of_names hgrants
    refine ⟨by simp [hsome], ?_⟩
    intro secret interface hneeded
    cases secret <;> cases hneeded <;> simp [hsome]
  | objectRead | databaseRead | cacheRead =>
    simp only [Manifest.grantsPermission, Effect.fromName_asStr] at hgrants
    have hsome := nonempty_of_names hgrants
    rw [ne_eq, List.append_eq_nil_iff, not_and_or] at hsome
    simp [hsome, neededInterface]
  | _ =>
    simp only [Manifest.grantsPermission, Effect.fromName_asStr] at hgrants
    have hsome := nonempty_of_names hgrants
    simp [hsome, neededInterface]

/-! ## The names of worlds -/

/-- Every word that a world is named with. -/
def words : List Word :=
  [.stdout, .config, .secrets, .http, .ai, .logs, .state, .queue, .objread, .objwrite, .db,
    .cacheread, .cachewrite, .searchquery, .searchvector, .program, .pure, .host, .webhook, .job,
    .schedule]

theorem mem_words (word : Word) : word ∈ words := by
  cases word <;> decide

theorem text_injective {left right : Word} (htext : left.text.toList = right.text.toList) :
    left = right := by
  have htable : (words.map fun word => word.text.toList).Nodup := by
    decide +kernel
  exact List.inj_on_of_nodup_map htable (mem_words left) (mem_words right) htext

theorem worldIdentity_toList (name : List Word) :
    (worldIdentity name).toList = "krit:runtime/".toList ++
      (['-'].intercalate (name.map fun word => word.text.toList) ++ "@0.2.0".toList) := by
  have hdash : "-".toList = ['-'] := rfl
  rw [worldIdentity, String.toList_append, String.toList_append, String.toList_intercalate,
    List.map_map, List.append_assoc, hdash, Function.comp_def]

/-- A world is determined by its identity. -/
theorem worldIdentity_injective {left right : List Word} (hleft : left ≠ []) (hright : right ≠ [])
    (hidentity : worldIdentity left = worldIdentity right) : left = right := by
  have hlist := congrArg String.toList hidentity
  rw [worldIdentity_toList, worldIdentity_toList] at hlist
  have hwords := List.append_cancel_right (List.append_cancel_left hlist)
  have hdashes : ∀ word ∈ words, '-' ∉ word.text.toList := by
    decide
  have hdash := fun word => hdashes word (mem_words word)
  have hsplit : ∀ name : List Word, name ≠ [] →
      (['-'].intercalate (name.map fun word => word.text.toList)).splitOn '-' =
        name.map fun word => word.text.toList := by
    intro name hname
    apply List.splitOn_intercalate
    · intro text htext
      obtain ⟨word, -, rfl⟩ := List.mem_map.mp htext
      exact hdash word
    · simpa using hname
  have hmap : left.map (fun word => word.text.toList) =
      right.map fun word => word.text.toList := by
    rw [← hsplit left hleft, ← hsplit right hright, hwords]
  exact (List.map_injective_iff.mpr fun _ _ => text_injective) hmap

theorem stringStartsWith_append (text rest : String) :
    stringStartsWith (text ++ rest) text = true := by
  rw [stringStartsWith, stringBytes_append, List.isPrefixOf_iff_prefix]
  exact List.prefix_append _ _

theorem stringEndsWith_append (text rest : String) :
    stringEndsWith (text ++ rest) rest = true := by
  rw [stringEndsWith, stringBytes_append, List.isSuffixOf_iff_suffix]
  exact List.suffix_append _ _

/-- The world of an entrypoint starts with its kind. -/
theorem worldIdentity_startsWith (first : Word) {rest : List Word} (hrest : rest ≠ []) :
    ∃ text, worldIdentity (first :: rest) = "krit:runtime/" ++ first.text ++ "-" ++ text := by
  refine ⟨"-".intercalate (rest.map Word.text) ++ "@0.2.0", ?_⟩
  rw [worldIdentity, List.map_cons, String.intercalate_cons_of_ne_nil (by simpa using hrest)]
  simp only [String.append_assoc]

theorem worldIdentity_endsWith {before : List Word} (hbefore : before ≠ []) :
    ∃ text, worldIdentity (before ++ [.program]) = text ++ "-program@0.2.0" := by
  refine ⟨"krit:runtime/" ++ "-".intercalate (before.map Word.text), ?_⟩
  rw [worldIdentity, List.map_append, String.intercalate_append_of_ne_nil (by simpa using hbefore)
    (by simp)]
  simp only [String.append_assoc]
  rfl

theorem tokens_nil {mask : ℕ} (htokens : (chosenSurfaces mask).map ImportSurface.token = [])
    {effects : List Effect} (hcovers : Covers effects mask) :
    ∀ effect ∈ effects, surfaceBit effect = none := by
  intro effect hmem
  cases hbit : surfaceBit effect with
  | none => rfl
  | some bit =>
    obtain ⟨surface, hsurface, hsame, -⟩ := surface_of_bit hbit
    have hchosen : surface ∈ chosenSurfaces mask := by
      refine mem_chosenSurfaces.mpr ⟨hsurface, ?_⟩
      rw [hcovers surface hsurface]
      exact ⟨effect, hmem, by rw [hbit, hsame]⟩
    rw [List.map_eq_nil_iff] at htokens
    rw [htokens] at hchosen
    cases hchosen

/-- A webhook without effects has the world without surfaces. -/
theorem chosenSurfaces_nil {mask : ℕ} (hcovers : Covers [] mask) : chosenSurfaces mask = [] := by
  rw [List.eq_nil_iff_forall_not_mem]
  intro surface hsurface
  obtain ⟨hlisted, hbit⟩ := mem_chosenSurfaces.mp hsurface
  obtain ⟨effect, hmem, -⟩ := (hcovers surface hlisted).mp hbit
  cases hmem

/-- The runtime accepts the name of the world of an entrypoint. -/
theorem validWorldName_mask {kind : Artifact.ProgramKind} {effects : List Effect} {mask : ℕ}
    (hentrypoint : kind ≠ .module) (hcovers : Covers effects mask)
    (hexports : ∀ effect, kind.exportEffect = some effect → effect ∈ effects)
    (hknown : ∀ effect ∈ effects, surfaceBit effect = none → kind.exportEffect = some effect) :
    validWorldName (maskSelection kind mask).id (effects.map Effect.asStr) = true := by
  set tokens := (chosenSurfaces mask).map ImportSurface.token with htokens
  have hid : (maskSelection kind mask).id =
      worldIdentity (kind.worldPrefix :: (tokens ++ [.program])) := rfl
  have hother : ∀ name : List Word, name ≠ [] → kind.worldPrefix :: (tokens ++ [.program]) ≠ name →
      worldIdentity (kind.worldPrefix :: (tokens ++ [.program])) ≠ worldIdentity name := by
    intro name hname hne hidentity
    exact hne (worldIdentity_injective (by simp) hname hidentity)
  have hpure : kind.worldPrefix :: (tokens ++ [.program]) ≠ [.pure, .program] := by
    intro hname
    cases kind <;> simp [Artifact.ProgramKind.worldPrefix] at hname
  have hprogram : kind.worldPrefix :: (tokens ++ [.program]) ≠ [.program] := by
    simp
  rw [hid, validWorldName, if_neg (hother _ (by simp) hpure),
    if_neg (hother _ (by simp) hprogram)]
  by_cases hwebhook : kind.worldPrefix :: (tokens ++ [.program]) = [.webhook, .program]
  · rw [if_pos (by rw [hwebhook])]
    have hkind : kind = .webhook := by
      cases kind <;> simp [Artifact.ProgramKind.worldPrefix] at hwebhook
      rfl
    have hnone : tokens = [] := by
      simpa [hkind, Artifact.ProgramKind.worldPrefix] using hwebhook
    have hempty : effects = [] := by
      rw [List.eq_nil_iff_forall_not_mem]
      intro effect hmem
      have hexport := hknown effect hmem (tokens_nil hnone hcovers effect hmem)
      rw [hkind] at hexport
      cases hexport
    rw [hempty]
    rfl
  · rw [if_neg (hother _ (by simp) hwebhook)]
    obtain ⟨after, hstarts⟩ := worldIdentity_startsWith kind.worldPrefix
      (show tokens ++ [.program] ≠ [] by simp)
    obtain ⟨before, hends⟩ := worldIdentity_endsWith
      (show kind.worldPrefix :: tokens ≠ [] by simp)
    have hsuffix : stringEndsWith (worldIdentity (kind.worldPrefix :: (tokens ++ [.program])))
        "-program@0.2.0" = true := by
      rw [← List.cons_append, hends]
      exact stringEndsWith_append _ _
    have hkinds : (["krit:runtime/webhook-", "krit:runtime/job", "krit:runtime/schedule"].any
        fun start => stringStartsWith
          (worldIdentity (kind.worldPrefix :: (tokens ++ [.program]))) start) = true := by
      rw [hstarts, List.any_eq_true]
      cases kind with
      | module => exact absurd rfl hentrypoint
      | webhook => exact ⟨"krit:runtime/webhook-", by simp, stringStartsWith_append _ _⟩
      | job =>
        refine ⟨"krit:runtime/job", by simp, ?_⟩
        rw [String.append_assoc]
        exact stringStartsWith_append _ _
      | schedule =>
        refine ⟨"krit:runtime/schedule", by simp, ?_⟩
        rw [String.append_assoc]
        exact stringStartsWith_append _ _
    have hsome : effects ≠ [] := by
      intro hempty
      subst hempty
      cases kind with
      | module => exact hentrypoint rfl
      | webhook =>
        apply hwebhook
        rw [htokens, chosenSurfaces_nil hcovers]
        rfl
      | job => cases hexports .queueConsume rfl
      | schedule => cases hexports .scheduleTrigger rfl
    rw [hkinds, hsuffix]
    simpa using hsome

/-- What the compiler writes of a program with these effects. -/
structure Recorded (kind : Artifact.ProgramKind) (effects : List Effect)
    (selection : WorldSelection)
    (metadata : ArtifactMetadata) : Prop where
  chosen : Chosen kind effects selection
  effects : metadata.effects = effects.map Effect.asStr
  world : metadata.world = selection.id
  imports : metadata.imports = selection.componentImports

theorem policyInterface_asStr {effects : List Effect} {effect : Effect} :
    policyInterface (effects.map Effect.asStr) effect.asStr =
      neededInterface (decide (Effect.secretRead ∈ effects)) effect := by
  cases effect <;> simp [policyInterface, neededInterface]

variable {kind : Artifact.ProgramKind} {effects : List Effect} {selection : WorldSelection}
variable {metadata : ArtifactMetadata}

theorem Recorded.validPolicyWorld (hrecorded : Recorded kind effects selection metadata) :
    validPolicyWorld metadata = true := by
  have hchosen := hrecorded.chosen
  rw [GrantSet.validPolicyWorld, Bool.and_eq_true, beq_iff_eq]
  constructor
  · refine SortedList.eq_of_mem_iff
      (SortedList.pairwise_dedup (SortedList.pairwise_sort _)) ?_ ?_
    · rw [hrecorded.imports]
      exact hchosen.importsSorted
    · intro name
      rw [hrecorded.imports, hchosen.mem_imports, hrecorded.effects]
      simp only [SortedList.mem_dedup, SortedList.mem_sort, List.mem_map, List.mem_filterMap,
        exists_exists_and_eq_and, policyInterface_asStr]
      constructor
      · rintro ⟨interface, ⟨effect, hmem, hneeded⟩, hname⟩
        exact ⟨effect, hmem, interface, hneeded, hname.symm⟩
      · rintro ⟨effect, hmem, interface, hneeded, hname⟩
        exact ⟨interface, ⟨effect, hmem, hneeded⟩, hname.symm⟩
  · rw [hrecorded.world, hrecorded.effects]
    cases hchosen with
    | pure => decide +kernel
    | stdout => decide +kernel
    | surfaces hentrypoint _ hcovers hexports hknown =>
      exact validWorldName_mask hentrypoint hcovers hexports hknown

/-- Whether the manifest grants every requirement of an artifact, and its effects that are
for no resource. -/
def Contained (manifest : Manifest) (metadata : ArtifactMetadata) : Prop :=
  (∀ requirement ∈ metadata.requirements,
    manifest.grantsPermission requirement.capability (some requirement.resource) = true) ∧
  ∀ effect ∈ metadata.effects,
    effect = Effect.ioStdout.asStr ∨ effect = Effect.observeLog.asStr →
      manifest.grantsPermission effect none = true

/-- Whether the artifact is the one of the package of the manifest. -/
def SameIdentity (manifest : Manifest) (metadata : ArtifactMetadata) : Prop :=
  manifest.package.name = metadata.package.name ∧
  manifest.package.version = metadata.package.version ∧
  manifest.package.edition = metadata.edition ∧ manifest.package.target = metadata.target ∧
  forwardSlashes manifest.package.entry = metadata.entry

theorem identityDenials_eq_nil {manifest : Manifest} :
    (fromManifest manifest).identityDenials metadata = [] ↔ SameIdentity manifest metadata := by
  have hline : ∀ name expected actual : String,
      identityDenial name expected actual = [] ↔ expected = actual := by
    intro name expected actual
    rw [identityDenial]
    split_ifs with hne
    · simp [hne]
    · simpa using hne
  simp only [identityDenials, List.append_eq_nil_iff, hline, fromManifest, SameIdentity]
  tauto

theorem covers_fromManifest {manifest : Manifest} {fact : PermissionFact} :
    (fromManifest manifest).covers fact = true ↔
      manifest.grantsPermission fact.capability fact.resource = true := by
  rw [covers, Bool.and_eq_true, grants_fromManifest]
  constructor
  · intro hboth
    exact hboth.2
  · intro hgrants
    refine ⟨?_, hgrants⟩
    cases hname : Effect.fromName fact.capability with
    | none => simp [Manifest.grantsPermission, hname] at hgrants
    | some effect =>
      rw [Effect.eq_asStr_of_fromName hname] at hgrants ⊢
      rw [List.contains_iff_mem]
      exact (granted_of_grantsPermission hgrants).1

/-- Nothing is denied if the manifest grants what the artifact requires. -/
theorem denied_eq_nil {manifest : Manifest} :
    ((fromManifest manifest).evaluate metadata).denied = [] ↔
      ∀ fact ∈ requiredFacts metadata,
        manifest.grantsPermission fact.capability fact.resource = true := by
  simp only [evaluate, List.filter_eq_nil_iff, Bool.not_eq_true', Bool.not_eq_false,
    covers_fromManifest]

theorem mem_requiredFacts {fact : PermissionFact} :
    fact ∈ requiredFacts metadata ↔
      (∃ requirement ∈ metadata.requirements,
        fact = ⟨requirement.capability, some requirement.resource⟩) ∨
      ∃ effect ∈ metadata.effects,
        (∀ requirement ∈ metadata.requirements, requirement.capability ≠ effect) ∧
          fact = ⟨effect, none⟩ := by
  simp only [requiredFacts, SortedList.mem_sort, List.mem_append, List.mem_map, List.mem_filter,
    Bool.not_eq_true', List.any_eq_false, beq_iff_eq, and_assoc, eq_comm (a := fact), ne_eq]

/-- What valid requirements say of the effects. -/
structure Matched (requirements : List ResourceRequirement) (effects : List String) : Prop where
  resourced : ∀ effect ∈ effects, effect ≠ Effect.ioStdout.asStr →
    effect ≠ Effect.observeLog.asStr →
      ∃ requirement ∈ requirements, requirement.capability = effect
  plain : ∀ requirement ∈ requirements, requirement.capability ≠ Effect.ioStdout.asStr ∧
    requirement.capability ≠ Effect.observeLog.asStr

/-- Sorted requirements that match the effects: every effect but those of standard output and
the log is required, and every requirement is for an effect, or for what the steps of a
transaction do, and names a resource that its capability can have. -/
structure RequirementTable (external : Externals) (requirements : List ResourceRequirement)
    (effects : List String) : Prop where
  sorted : requirements.Pairwise (· < ·)
  required : ∀ effect ∈ effects, effect ≠ Effect.ioStdout.asStr →
    effect ≠ Effect.observeLog.asStr →
      ∃ requirement ∈ requirements, requirement.capability = effect
  declared : ∀ requirement ∈ requirements, requirement.capability ∈ effects ∨
    (Effect.stateTransaction.asStr ∈ effects ∧
      (requirement.capability = Effect.aiInvoke.asStr ∨
        requirement.capability = Effect.httpRequest.asStr))
  resources : ∀ requirement ∈ requirements, validResource external requirement = true

theorem validRequirements_iff {external : Externals} {requirements : List ResourceRequirement}
    {effects : List String} :
    validRequirements external requirements effects = true ↔
      RequirementTable external requirements effects := by
  simp only [validRequirements, Bool.and_eq_true, List.all_eq_true, Bool.or_eq_true, beq_iff_eq,
    List.any_eq_true, SortedList.sortedUnique_iff, List.contains_iff_mem]
  constructor
  · rintro ⟨⟨hsorted, heffects⟩, hrequirements⟩
    refine ⟨hsorted, ?_, fun requirement hmem => (hrequirements requirement hmem).1,
      fun requirement hmem => (hrequirements requirement hmem).2⟩
    intro effect hmem hstdout hlog
    rcases heffects effect hmem with (hsame | hsame) | hfound
    · exact absurd hsame hstdout
    · exact absurd hsame hlog
    · exact hfound
  · rintro ⟨hsorted, hrequired, hdeclared, hresources⟩
    refine ⟨⟨hsorted, ?_⟩, fun requirement hmem =>
      ⟨hdeclared requirement hmem, hresources requirement hmem⟩⟩
    intro effect hmem
    by_cases hplain : effect = Effect.ioStdout.asStr ∨ effect = Effect.observeLog.asStr
    · exact Or.inl hplain
    · rw [not_or] at hplain
      exact Or.inr (hrequired effect hmem hplain.1 hplain.2)

theorem RequirementTable.matched {external : Externals}
    {requirements : List ResourceRequirement} {effects : List String}
    (htable : RequirementTable external requirements effects) : Matched requirements effects := by
  constructor
  · exact htable.required
  · intro requirement hmem
    have hresource := htable.resources requirement hmem
    constructor
    · intro hsame
      rw [validResource, hsame, Effect.fromName_asStr] at hresource
      cases hresource
    · intro hsame
      rw [validResource, hsame, Effect.fromName_asStr] at hresource
      cases hresource

theorem requiredFacts_granted {manifest : Manifest}
    (hmatched : Matched metadata.requirements metadata.effects) :
    (∀ fact ∈ requiredFacts metadata,
      manifest.grantsPermission fact.capability fact.resource = true) ↔
      Contained manifest metadata := by
  constructor
  · intro hall
    constructor
    · intro requirement hmem
      exact hall _ (mem_requiredFacts.mpr (.inl ⟨requirement, hmem, rfl⟩))
    · intro effect hmem hplain
      refine hall ⟨effect, none⟩ (mem_requiredFacts.mpr (.inr ⟨effect, hmem, ?_, rfl⟩))
      intro requirement hrequirement hsame
      obtain ⟨hstdout, hlog⟩ := hmatched.plain requirement hrequirement
      rw [hsame] at hstdout hlog
      exact hplain.elim hstdout hlog
  · rintro ⟨hrequirements, heffects⟩ fact hfact
    rcases mem_requiredFacts.mp hfact with ⟨requirement, hmem, rfl⟩ | ⟨effect, hmem, hnone, rfl⟩
    · exact hrequirements requirement hmem
    · refine heffects effect hmem ?_
      by_contra hplain
      push Not at hplain
      obtain ⟨requirement, hrequirement, hsame⟩ := hmatched.resourced effect hmem hplain.1 hplain.2
      exact hnone requirement hrequirement hsame

/-- The imports of an artifact whose requirements are granted are granted. -/
theorem Recorded.imports_granted {manifest : Manifest}
    (hrecorded : Recorded kind effects selection metadata)
    (hmatched : Matched metadata.requirements metadata.effects)
    (hcontained : Contained manifest metadata) :
    ∀ name ∈ metadata.imports, name ∈ (fromManifest manifest).imports := by
  intro name hname
  rw [hrecorded.imports, hrecorded.chosen.mem_imports] at hname
  obtain ⟨effect, hmem, interface, hneeded, rfl⟩ := hname
  rw [imports_fromManifest]
  refine List.mem_map_of_mem ?_
  have heffect : effect.asStr ∈ metadata.effects := by
    rw [hrecorded.effects]
    exact List.mem_map_of_mem hmem
  have hgranted : ∃ resource, manifest.grantsPermission effect.asStr resource = true := by
    by_cases hplain : effect.asStr = Effect.ioStdout.asStr ∨ effect.asStr = Effect.observeLog.asStr
    · exact ⟨none, hcontained.2 _ heffect hplain⟩
    · push Not at hplain
      obtain ⟨requirement, hrequirement, hsame⟩ :=
        hmatched.resourced _ heffect hplain.1 hplain.2
      rw [← hsame]
      exact ⟨_, hcontained.1 requirement hrequirement⟩
  obtain ⟨resource, hresource⟩ := hgranted
  exact (granted_of_grantsPermission hresource).2 _ _ hneeded

theorem Recorded.authorize_iff {manifest : Manifest}
    (hrecorded : Recorded kind effects selection metadata)
    (hmatched : Matched metadata.requirements metadata.effects) :
    (fromManifest manifest).authorize metadata = .ok () ↔
      SameIdentity manifest metadata ∧ Contained manifest metadata := by
  rw [← identityDenials_eq_nil, ← requiredFacts_granted hmatched, ← denied_eq_nil, authorize]
  by_cases hidentity : (fromManifest manifest).identityDenials metadata = []
  · rw [if_neg (not_not.mpr hidentity)]
    cases hdenied : ((fromManifest manifest).evaluate metadata).denied with
    | cons first rest => simp
    | nil =>
      have hcontained : Contained manifest metadata := by
        rw [← requiredFacts_granted hmatched, ← denied_eq_nil]
        exact hdenied
      have himports := hrecorded.imports_granted hmatched hcontained
      simpa [hidentity, hrecorded.validPolicyWorld] using himports
  · rw [if_pos hidentity]
    simp [hidentity]

end GrantSet

end Krit
