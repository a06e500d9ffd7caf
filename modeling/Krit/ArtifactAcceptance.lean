import Krit.Authorization

/-!
# Accepted artifacts

The component that is assembled for a selected world is accepted by the validation of the
runtime, which derives the checked effects again from its imports.
-/

namespace Krit.Artifact

/-! ## Effects of the imports -/

theorem importEffects_spec {imports : List String}
    (hknown : ∀ name ∈ imports, ∃ interface : Interface, name = interface.identity) :
    ∃ effects, importEffects imports = .ok effects ∧ ∀ effect : String, effect ∈ effects ↔
      ∃ interface : Interface, interface.identity ∈ imports ∧
        (importEffect interface).map Effect.asStr = some effect := by
  induction imports with
  | nil => exact ⟨[], rfl, by simp⟩
  | cons name rest ih =>
    obtain ⟨effects, heffects, hmem⟩ := ih fun other hother =>
      hknown other (List.mem_cons_of_mem _ hother)
    obtain ⟨interface, rfl⟩ := hknown name List.mem_cons_self
    rw [importEffects, Interface.fromIdentity_identity]
    simp only [heffects]
    have hcons : ∀ effect : String,
        (∃ other : Interface, other.identity ∈ interface.identity :: rest ∧
          (importEffect other).map Effect.asStr = some effect) ↔
        (importEffect interface).map Effect.asStr = some effect ∨ effect ∈ effects := by
      intro effect
      rw [hmem]
      constructor
      · rintro ⟨other, hother, heffect⟩
        rcases List.mem_cons.mp hother with hsame | hlater
        · rw [Interface.identity_inj] at hsame
          rw [hsame] at heffect
          exact .inl heffect
        · exact .inr ⟨other, hlater, heffect⟩
      · rintro (heffect | ⟨other, hother, heffect⟩)
        · exact ⟨interface, List.mem_cons_self, heffect⟩
        · exact ⟨other, List.mem_cons_of_mem _ hother, heffect⟩
    cases hfirst : importEffect interface with
    | none =>
      refine ⟨effects, rfl, ?_⟩
      intro effect
      rw [hcons, hfirst]
      simp
    | some first =>
      refine ⟨first.asStr :: effects, rfl, ?_⟩
      intro effect
      rw [hcons, hfirst]
      simp [eq_comm]

/-- An import stands for the effect that needs it, apart from the shared database
interface. -/
theorem importEffect_needed {secret : Bool} {effect : Effect} {interface : Interface}
    (hneeded : neededInterface secret effect = some interface) :
    importEffect interface = some effect ∨
      importEffect interface = none ∧ interface = .database ∧
        (effect = .databaseRead ∨ effect = .databaseWrite) := by
  cases effect <;> cases secret <;> cases hneeded <;> decide

theorem isDatabaseEffect_asStr {effect : Effect} :
    isDatabaseEffect effect.asStr = true ↔ effect = .databaseRead ∨ effect = .databaseWrite := by
  simp [isDatabaseEffect]

section Derived

variable {kind : ProgramKind} {effects : List Effect} {selection : WorldSelection}

theorem Chosen.mem_database (hchosen : Chosen kind effects selection) :
    Interface.database.identity ∈ selection.componentImports ↔
      ∃ effect ∈ effects, effect = .databaseRead ∨ effect = .databaseWrite := by
  rw [hchosen.mem_imports]
  constructor
  · rintro ⟨effect, hmem, interface, hneeded, hname⟩
    rw [Interface.identity_inj] at hname
    subst hname
    refine ⟨effect, hmem, ?_⟩
    rcases importEffect_needed hneeded with hplain | ⟨-, -, hdatabase⟩
    · cases hplain
    · exact hdatabase
  · rintro ⟨effect, hmem, hdatabase⟩
    refine ⟨effect, hmem, .database, ?_, rfl⟩
    rcases hdatabase with rfl | rfl <;> rfl

/-- The effects that are not those of imports are the one of the export. -/
theorem Chosen.known (hchosen : Chosen kind effects selection) {effect : Effect}
    (hmem : effect ∈ effects) (hsurface : surfaceBit effect = none) :
    kind.exportEffect = some effect := by
  cases hchosen with
  | pure => cases hmem
  | stdout =>
    rw [List.mem_singleton] at hmem
    subst hmem
    cases hsurface
  | surfaces _ _ _ _ hknown => exact hknown effect hmem hsurface

theorem Chosen.exports (hchosen : Chosen kind effects selection) {effect : Effect}
    (hexport : kind.exportEffect = some effect) : effect ∈ effects := by
  cases hchosen with
  | pure => cases hexport
  | stdout => cases hexport
  | surfaces _ _ _ hexports _ => exact hexports effect hexport

/-- The effects that are derived again from the imports of the selected world are the
checked ones. -/
theorem deriveEffects_chosen (hchosen : Chosen kind effects selection)
    (hsorted : (effects.map Effect.asStr).Pairwise (· < ·)) :
    deriveEffects kind selection.componentImports (effects.map Effect.asStr) =
      .ok (effects.map Effect.asStr) := by
  have hknown : ∀ name ∈ selection.componentImports,
      ∃ interface : Interface, name = interface.identity := by
    intro name hname
    obtain ⟨-, -, interface, -, hidentity⟩ := hchosen.mem_imports.mp hname
    exact ⟨interface, hidentity⟩
  obtain ⟨imported, himported, hmem⟩ := importEffects_spec hknown
  have hdatabase : ¬selection.componentImports.contains Interface.database.identity =
      ((effects.map Effect.asStr).filter isDatabaseEffect).isEmpty := by
    have hsome : ((effects.map Effect.asStr).filter isDatabaseEffect).isEmpty = false ↔
        ∃ effect ∈ effects, effect = .databaseRead ∨ effect = .databaseWrite := by
      simp [← isDatabaseEffect_asStr]
    rw [← hchosen.mem_database, ← List.contains_iff_mem] at hsome
    intro hsame
    rw [← hsame] at hsome
    cases selection.componentImports.contains Interface.database.identity <;> simp at hsome
  unfold deriveEffects
  rw [himported]
  change (if _ then _ else _) = _
  rw [if_neg hdatabase]
  congr 1
  refine SortedList.eq_of_mem_iff (SortedList.pairwise_dedup (SortedList.pairwise_sort _))
    hsorted ?_
  intro name
  rw [SortedList.mem_dedup, SortedList.mem_sort, List.mem_append, List.mem_append, hmem]
  constructor
  · rintro ((⟨interface, hinterface, heffect⟩ | hexport) | hdeclared)
    · obtain ⟨effect, heffects, other, hneeded, hname⟩ := hchosen.mem_imports.mp hinterface
      rw [Interface.identity_inj] at hname
      subst hname
      rcases importEffect_needed hneeded with hplain | ⟨hnone, -⟩
      · rw [hplain, Option.map_some, Option.some.injEq] at heffect
        rw [← heffect]
        exact List.mem_map_of_mem heffects
      · rw [hnone] at heffect
        cases heffect
    · obtain ⟨effect, hmember, rfl⟩ := List.mem_map.mp hexport
      exact List.mem_map_of_mem (hchosen.exports (Option.mem_toList.mp hmember))
    · exact (List.mem_filter.mp hdeclared).1
  · intro hname
    obtain ⟨effect, heffects, rfl⟩ := List.mem_map.mp hname
    by_cases hsurface : surfaceBit effect = none
    · refine .inl (.inr (List.mem_map_of_mem (Option.mem_toList.mpr ?_)))
      exact hchosen.known heffects hsurface
    · rw [← @neededInterface_eq_none (decide (Effect.secretRead ∈ effects))] at hsurface
      obtain ⟨interface, hneeded⟩ := Option.ne_none_iff_exists'.mp hsurface
      rcases importEffect_needed hneeded with hplain | ⟨-, -, hdatabase⟩
      · refine .inl (.inl ⟨interface, ?_, by rw [hplain, Option.map_some]⟩)
        exact hchosen.mem_imports.mpr ⟨effect, heffects, interface, hneeded, rfl⟩
      · exact .inr (List.mem_filter.mpr ⟨hname, isDatabaseEffect_asStr.mpr hdatabase⟩)

end Derived

/-! ## Validation -/

/-- The core of the program encodes for a contract, and the surface of its component is the
one of the contract, in any order. -/
def Componentizes (external : Externals) (contract : WitContract) : Prop :=
  ∃ imports : List String, imports.Perm contract.componentImports ∧
    external.componentize contract = .ok (imports, [contract.componentExport])

theorem runtimeWitVersion_identity (interface : Interface) :
    runtimeWitVersion interface.identity = some "0.2.0".toList := by
  have htable : ∀ interface ∈ Interface.all,
      runtimeWitVersion interface.identity = some "0.2.0".toList := by
    decide +kernel
  exact htable interface interface.mem_all

theorem componentKind_componentExport (kind : ProgramKind) :
    componentKind [kind.componentExport] = some kind := by
  cases kind <;> rfl

theorem runtimeWitVersion_componentExport (kind : ProgramKind) :
    (runtimeWitVersion kind.componentExport).any (· ≠ "0.2.0".toList) = false := by
  cases kind <;> rfl

theorem unsupportedFacts_own (effects : List String) :
    unsupportedFacts artifactMetadataSchema (artifactPolicyVersion effects) supportedEdition
      toolchainVersion = none := by
  have hwindow : outsideWindow "compiler" toolchainVersion toolchainVersion = none := rfl
  have hpolicy : ¬(artifactPolicyVersion effects ≠ 1 ∧ artifactPolicyVersion effects ≠ 2) := by
    rw [artifactPolicyVersion]
    split_ifs <;> simp
  rw [unsupportedFacts, if_neg (not_not.mpr rfl), if_neg hpolicy, if_neg (not_not.mpr rfl),
    hwindow]

theorem languageWindow_own : outsideWindow "language" languageVersion languageVersion = none :=
  rfl

section Accepted

variable {external : Externals} {options : BuildOptions} {checked : CheckedModule}
variable {selection : WorldSelection}

/-- What is checked of a program before it is assembled. -/
structure Checked (external : Externals) (options : BuildOptions) (checked : CheckedModule)
    (selection : WorldSelection) : Prop where
  selected : selectWorld checked.kind checked.effects = .ok selection
  edition : options.edition = supportedEdition
  requirements : validRequirements external checked.requirements checked.effects = true
  approvals : validApprovals checked.approvals checked.requirements checked.effects = true
  size : external.encodedLength (checked.embedded options selection.id) ≤ maxEmbeddedMetadataBytes

/-- What the inspection of the assembled component says. -/
def CheckedModule.inspection (checked : CheckedModule) (options : BuildOptions)
    (selection : WorldSelection) : ComponentInspection where
  compilerVersion := toolchainVersion
  languageVersion := languageVersion
  edition := options.edition
  world := selection.id
  imports := selection.componentImports
  exports := [checked.kind.componentExport]
  effects := checked.effects
  requirements := checked.requirements
  approvals := checked.approvals

theorem Checked.validateSurface (hchecked : Checked external options checked selection)
    {component : Component} (hlanguage : component.language = some languageVersion)
    (hcompiler : component.compiler = some toolchainVersion) :
    validateSurface external component checked.kind (checked.embedded options selection.id)
      selection.componentImports [checked.kind.componentExport] =
        .ok (checked.inspection options selection) := by
  obtain ⟨hsorted, found, hfound, hchosen⟩ := selectWorld_spec hchecked.selected
  have hderived : deriveEffects checked.kind selection.componentImports checked.effects =
      .ok checked.effects := by
    rw [hfound] at hsorted ⊢
    exact deriveEffects_chosen hchosen hsorted
  obtain ⟨loaded, hloaded, hloadedWorld, himports, hexport, -⟩ :=
    loadContract_spec hchecked.selected
  have hpolicy : matchesPolicy external (checked.embedded options selection.id) loaded
      checked.effects = true := by
    simp [matchesPolicy, CheckedModule.embedded, hloadedWorld, hchecked.requirements,
      hchecked.approvals, SortedList.sortedUnique_iff.mpr hsorted]
  have hproducers : verifyProducers component toolchainVersion = .ok languageVersion := by
    rw [verifyProducers, hlanguage, hcompiler]
    simp [languageWindow_own]
  unfold Artifact.validateSurface
  change (deriveEffects checked.kind selection.componentImports checked.effects >>= _) = _
  rw [hderived]
  change (loadContract checked.kind checked.effects >>= _) = _
  rw [hloaded]
  change (if _ then _ else if _ then _ else verifyProducers component toolchainVersion >>= _) = _
  rw [if_neg (by simp [himports, hexport]), if_neg (by simp [hpolicy]), hproducers]
  change Except.ok _ = _
  rw [hloadedWorld]
  rfl

/-- The component that is assembled. -/
def CheckedModule.component (checked : CheckedModule) (options : BuildOptions)
    (selection : WorldSelection) (imports : List String) : Component where
  imports
  exports := [checked.kind.componentExport]
  sections := [checked.embedded options selection.id]
  language := some languageVersion
  compiler := some toolchainVersion

theorem Checked.validateComponent (hchecked : Checked external options checked selection)
    {imports : List String} (himports : imports.Perm selection.componentImports) :
    validateComponent external (checked.component options selection imports) =
      .ok (checked.inspection options selection) := by
  obtain ⟨hsorted, found, hfound, hchosen⟩ := selectWorld_spec hchecked.selected
  have hsections : readSections external (checked.component options selection imports).sections =
      .ok (some (checked.embedded options selection.id)) := by
    change readSections external [checked.embedded options selection.id] = _
    rw [readSections, if_neg (not_lt.mpr hchecked.size), if_neg (not_not.mpr rfl)]
  have hexports : SortedList.sort (checked.component options selection imports).exports =
      [checked.kind.componentExport] :=
    SortedList.sort_eq_self (List.pairwise_singleton _ _)
  have hsort : SortedList.sort (checked.component options selection imports).imports =
      selection.componentImports := by
    change SortedList.sort imports = selection.componentImports
    refine SortedList.eq_of_mem_iff ?_ hchosen.importsSorted ?_
    · refine SortedList.pairwise_sort_of_nodup (himports.nodup_iff.mpr ?_)
      exact hchosen.importsSorted.imp (fun hless => ne_of_lt hless)
    · intro name
      rw [SortedList.mem_sort, himports.mem_iff]
  have hversions : ((selection.componentImports ++ [checked.kind.componentExport]).any
      fun name => (runtimeWitVersion name).any (· ≠ "0.2.0".toList)) = false := by
    rw [List.any_append, Bool.or_eq_false_iff]
    constructor
    · rw [List.any_eq_false]
      intro name hname
      obtain ⟨-, -, interface, -, rfl⟩ := hchosen.mem_imports.mp hname
      rw [runtimeWitVersion_identity]
      simp
    · rw [List.any_cons, List.any_nil, Bool.or_false]
      exact runtimeWitVersion_componentExport checked.kind
  have hunique := SortedList.sortedUnique_iff.mpr hchosen.importsSorted
  have hfacts : unsupportedFacts (checked.embedded options selection.id).schema
      (checked.embedded options selection.id).policyVersion
      (checked.embedded options selection.id).edition
      (checked.embedded options selection.id).compilerVersion = none := by
    change unsupportedFacts artifactMetadataSchema (artifactPolicyVersion checked.effects)
      options.edition toolchainVersion = none
    rw [hchecked.edition]
    exact unsupportedFacts_own _
  unfold Artifact.validateComponent
  simp only [hsections, hsort, hexports, hversions, bind, Except.bind, Bool.false_eq_true, if_false,
    componentKind_componentExport, hunique, Bool.true_eq_false, hfacts]
  exact hchecked.validateSurface rfl rfl

/-- The metadata that is written beside the assembled component. -/
def CheckedModule.metadata (checked : CheckedModule) (external : Externals)
    (options : BuildOptions) (selection : WorldSelection) (component : Component) :
    ArtifactMetadata where
  schema := artifactMetadataSchema
  compiler := ⟨compilerName, toolchainVersion⟩
  language := ⟨languageName, languageVersion⟩
  edition := options.edition
  package := ⟨options.packageName, options.packageVersion⟩
  target := options.target
  world := selection.id
  entry := options.sourceEntry
  digest := external.digestBytes component
  byteSize := external.byteSize component
  effects := checked.effects
  requirements := checked.requirements
  approvals := checked.approvals
  imports := selection.componentImports
  buildProfile := options.buildProfile
  policyVersion := artifactPolicyVersion checked.effects

/-- What validated options say. -/
theorem BuildOptions.facts (hoptions : options.validate = .ok ()) :
    options.edition = supportedEdition ∧ options.target = wasmComponentTarget ∧
      options.packageName.isEmpty = false ∧ options.packageVersion.isEmpty = false ∧
      safeEntry options.sourceEntry = true := by
  simp only [BuildOptions.validate] at hoptions
  cases hfield : invalidField
      [ ("package name", options.packageName, 128),
        ("package version", options.packageVersion, 64),
        ("source entry", options.sourceEntry, 512),
        ("build profile", options.buildProfile, 32) ] with
  | some description =>
    simp only [hfield] at hoptions
    split_ifs at hoptions
  | none =>
    simp only [hfield] at hoptions
    split_ifs at hoptions with hedition htarget hentry hgranted
    have hfields := List.find?_eq_none.mp (Option.map_eq_none_iff.mp hfield)
    have hname := hfields ("package name", options.packageName, 128) (by simp)
    have hversion := hfields ("package version", options.packageVersion, 64) (by simp)
    simp only [Bool.or_eq_true, not_or, Bool.not_eq_true] at hname hversion
    exact ⟨not_not.mp hedition, not_not.mp htarget, hname.1.1, hversion.1.1,
      by simpa using hentry⟩

theorem Checked.validateArtifact (hchecked : Checked external options checked selection)
    (hoptions : options.validate = .ok ()) {imports : List String}
    (himports : imports.Perm selection.componentImports) :
    validateArtifact external (checked.component options selection imports)
      (checked.metadata external options selection
        (checked.component options selection imports)) =
      .ok (checked.inspection options selection) := by
  obtain ⟨hedition, htarget, hname, hversion, hentry⟩ := options.facts hoptions
  obtain ⟨hsorted, found, hfound, hchosen⟩ := selectWorld_spec hchecked.selected
  set component := checked.component options selection imports with hcomponent
  set metadata := checked.metadata external options selection component with hmetadata
  have hfacts : (unsupportedFacts metadata.schema metadata.policyVersion metadata.edition
      metadata.compiler.version).or
      (outsideWindow "language" metadata.language.version languageVersion) = none := by
    change (unsupportedFacts artifactMetadataSchema (artifactPolicyVersion checked.effects)
      options.edition toolchainVersion).or
      (outsideWindow "language" languageVersion languageVersion) = none
    rw [hedition, unsupportedFacts_own, languageWindow_own]
    rfl
  have hformed : wellFormed external metadata = true := by
    simp [hmetadata, wellFormed, CheckedModule.metadata, htarget, hname, hversion, hentry,
      hchecked.requirements, hchecked.approvals, SortedList.sortedUnique_iff.mpr hsorted,
      SortedList.sortedUnique_iff.mpr hchosen.importsSorted]
  have hinspected : Artifact.validateComponent external component =
      .ok (checked.inspection options selection) := hchecked.validateComponent himports
  unfold Artifact.validateArtifact
  rw [hfacts]
  change (if _ then _ else if _ then _ else if _ then _ else
    Artifact.validateComponent external component >>= _) = _
  rw [hformed, if_neg Bool.true_eq_false.mp, if_neg (fun hsize => hsize rfl),
    if_neg (fun hdigest => hdigest rfl), hinspected]
  change (if _ then _ else if _ then _ else _) = _
  rw [if_neg (by simp [hmetadata, CheckedModule.metadata, CheckedModule.inspection]),
    if_neg (by simp [hmetadata, CheckedModule.metadata, CheckedModule.inspection])]

/-- A checked program is assembled. -/
theorem Checked.assembleComponent (hchecked : Checked external options checked selection)
    (hoptions : options.validate = .ok ())
    (hencodes : ∀ contract, loadContract checked.kind checked.effects = .ok contract →
      Componentizes external contract) :
    ∃ imports, imports.Perm selection.componentImports ∧
      assembleComponent external options checked =
        .ok (checked.component options selection imports,
          checked.metadata external options selection
            (checked.component options selection imports)) := by
  obtain ⟨contract, hcontract, hworld, himports, hexport, -⟩ :=
    loadContract_spec hchecked.selected
  obtain ⟨imports, hperm, hencoded⟩ := hencodes contract hcontract
  rw [himports] at hperm
  rw [hexport] at hencoded
  refine ⟨imports, hperm, ?_⟩
  have hinspected := hchecked.validateComponent hperm
  have hvalidated := hchecked.validateArtifact hoptions hperm
  unfold Artifact.assembleComponent
  rw [hcontract]
  change (external.componentize contract >>= _) = _
  rw [hencoded]
  change (if maxEmbeddedMetadataBytes <
    external.encodedLength (checked.embedded options contract.world) then _ else _) = _
  rw [hworld, if_neg (not_lt.mpr hchecked.size)]
  change (Artifact.validateComponent external
    (checked.component options selection imports) >>= _) = _
  rw [hinspected]
  change (if _ then _ else Artifact.validateArtifact external
    (checked.component options selection imports)
    (checked.metadata external options selection
      (checked.component options selection imports)) >>= _) = _
  rw [if_neg (by simp [CheckedModule.inspection]), hvalidated]
  rfl

/-- The approvals of a module are valid if its bearer requests are for required origins. -/
theorem validApprovals_approvalRequirements {requirements : List ResourceRequirement}
    {effects bearerOrigins : List String}
    (hbearer : ∀ origin ∈ bearerOrigins, Effect.secretRead.asStr ∈ effects ∧
      (⟨Effect.httpRequest.asStr, origin⟩ : ResourceRequirement) ∈ requirements) :
    validApprovals (approvalRequirements requirements bearerOrigins) requirements effects =
      true := by
  have hmem : ∀ approval : ApprovalRequirement,
      approval ∈ approvalRequirements requirements bearerOrigins ↔
        (∃ requirement ∈ requirements, requirement.capability = Effect.aiInvoke.asStr ∧
          approval = ⟨Effect.aiInvoke.asStr, requirement.resource⟩) ∨
        ∃ origin ∈ bearerOrigins, approval = ⟨bearerOperation, origin⟩ := by
    intro approval
    simp only [approvalRequirements, SortedList.mem_dedup, SortedList.mem_sort, List.mem_append,
      List.mem_map, List.mem_filter, beq_iff_eq, and_assoc, eq_comm (a := approval)]
  have hsorted : SortedList.sortedUnique (approvalRequirements requirements bearerOrigins) =
      true :=
    SortedList.sortedUnique_iff.mpr (SortedList.pairwise_dedup (SortedList.pairwise_sort _))
  have hbearerName : bearerOperation ≠ Effect.aiInvoke.asStr := by decide
  rw [validApprovals, hsorted, Bool.true_and, Bool.and_eq_true, List.all_eq_true,
    List.all_eq_true]
  constructor
  · intro requirement hrequirement
    obtain ⟨hlisted, hcapability⟩ := List.mem_filter.mp hrequirement
    rw [List.any_eq_true]
    refine ⟨⟨Effect.aiInvoke.asStr, requirement.resource⟩, ?_, by simp⟩
    exact (hmem _).mpr (.inl ⟨requirement, hlisted, beq_iff_eq.mp hcapability, rfl⟩)
  · intro approval happroval
    rcases (hmem approval).mp happroval with
      ⟨requirement, hlisted, hcapability, rfl⟩ | ⟨origin, horigin, rfl⟩
    · rw [if_pos rfl, List.any_eq_true]
      exact ⟨requirement, hlisted, by simp [hcapability]⟩
    · obtain ⟨hsecret, hlisted⟩ := hbearer origin horigin
      rw [if_neg hbearerName, if_pos rfl, Bool.and_eq_true, List.any_eq_true]
      refine ⟨by simpa using hsecret, _, hlisted, by simp⟩

/-- What the compiler writes of a checked program. -/
theorem Checked.recorded (hchecked : Checked external options checked selection)
    (component : Component) :
    ∃ effects, GrantSet.Recorded checked.kind effects selection
      (checked.metadata external options selection component) := by
  obtain ⟨-, found, hfound, hchosen⟩ := selectWorld_spec hchecked.selected
  exact ⟨found, hchosen, hfound, rfl, rfl⟩

end Accepted

open GrantSet in
/-- The artifact of a program whose world is selected, whose requirements match its effects
and whose core encodes is accepted, its effects are derived again, and it is authorized
exactly if it is the artifact of the package and the manifest grants what it requires. -/
theorem authorize_iff_contained (external : Externals) (manifest : Manifest)
    (options : BuildOptions) (hoptions : options.validate = .ok ()) (kind : ProgramKind)
    (effects : List String) (requirements : List ResourceRequirement)
    (bearerOrigins : List String) (selection : WorldSelection)
    (hencodes : ∀ contract, loadContract kind effects = .ok contract →
      Componentizes external contract)
    (hselect : selectWorld kind effects = .ok selection)
    (hrequirements : RequirementTable external requirements effects)
    (hbearer : ∀ origin ∈ bearerOrigins, Effect.secretRead.asStr ∈ effects ∧
      (⟨Effect.httpRequest.asStr, origin⟩ : ResourceRequirement) ∈ requirements)
    (hsize : external.encodedLength
      (CheckedModule.embedded
        ⟨kind, effects, requirements, approvalRequirements requirements bearerOrigins⟩
        options selection.id) ≤ maxEmbeddedMetadataBytes) :
    ∃ component metadata inspection,
      assembleComponent external options
          ⟨kind, effects, requirements, approvalRequirements requirements bearerOrigins⟩ =
        .ok (component, metadata) ∧
      metadata.effects = effects ∧ metadata.requirements = requirements ∧
      validateArtifact external component metadata = .ok inspection ∧
      inspection.effects = effects ∧
      ((fromManifest manifest).authorize metadata = .ok () ↔
        SameIdentity manifest metadata ∧ Contained manifest metadata) := by
  have hchecked : Checked external options
      ⟨kind, effects, requirements, approvalRequirements requirements bearerOrigins⟩
      selection :=
    ⟨hselect, (options.facts hoptions).1, validRequirements_iff.mpr hrequirements,
      validApprovals_approvalRequirements hbearer, hsize⟩
  obtain ⟨imports, himports, hassembled⟩ := hchecked.assembleComponent hoptions hencodes
  obtain ⟨found, hrecorded⟩ := hchecked.recorded
    (CheckedModule.component
      ⟨kind, effects, requirements, approvalRequirements requirements bearerOrigins⟩
      options selection imports)
  refine ⟨_, _, _, hassembled, rfl, rfl, hchecked.validateArtifact hoptions himports, rfl, ?_⟩
  exact hrecorded.authorize_iff hrequirements.matched

/-! ## A build -/

/-- The metadata as JSON, of texts that need no escapes. -/
def EmbeddedMetadata.json (embedded : EmbeddedMetadata) : String :=
  let quoted (text : String) := "\"" ++ text ++ "\""
  "\x7b\"schema\":" ++ toString embedded.schema ++
    ",\"compilerVersion\":" ++ quoted embedded.compilerVersion ++
    ",\"edition\":" ++ quoted embedded.edition ++ ",\"world\":" ++ quoted embedded.world ++
    ",\"effects\":[" ++ ",".intercalate (embedded.effects.map quoted) ++ "]" ++
    ",\"requirements\":[" ++ ",".intercalate (embedded.requirements.map fun requirement =>
      "\x7b\"capability\":" ++ quoted requirement.capability ++ ",\"resource\":" ++
        quoted requirement.resource ++ "\x7d") ++ "]" ++
    ",\"policyVersion\":" ++ toString embedded.policyVersion ++ "\x7d"

/-- Components whose names stand in the order of the world, and one known URL. -/
def sampleExternals : Externals where
  parseUrl value :=
    if value = "https://api.github.com" then
      some ⟨"https", "", none, some (.domain "api.github.com"), some 443, "/", none, none⟩
    else none
  componentize contract := .ok (contract.componentImports, [contract.componentExport])
  encodedLength embedded := (stringBytes embedded.json).length
  digestBytes component := "blake3:" ++ toString component.imports.length
  byteSize component := component.imports.length

def sampleOptions : BuildOptions where
  edition := "2026"
  packageName := "acme/agent"
  packageVersion := "1.0.0"
  sourceEntry := "src/main.krit"
  target := wasmComponentTarget
  buildProfile := "default"
  grantedEffects := ["config.read", "http.request", "io.stdout"]

def sampleManifest : Manifest where
  package := ⟨"acme/agent", "1.0.0", "2026", "src/main.krit", wasmComponentTarget⟩
  capabilities :=
    { stdout := true, config := ["agent.model"], http := ["https://api.github.com"], secrets := [],
      ai := [], logs := false, state := [], queues := [], consumes := [], schedules := [],
      buckets := [], readOnlyBuckets := [], databases := [], readOnlyDatabases := [],
      cacheNamespaces := [], readOnlyCacheNamespaces := [], searchIndexes := [],
      vectorIndexes := [] }
  secrets := []

theorem sampleExternals_componentizes (contract : WitContract) :
    Componentizes sampleExternals contract :=
  ⟨contract.componentImports, List.Perm.refl _, rfl⟩

theorem authorize_iff_contained_sample :
    ∃ component metadata inspection,
      assembleComponent sampleExternals sampleOptions
          ⟨.webhook, ["config.read", "http.request", "io.stdout"],
            [⟨"config.read", "agent.model"⟩, ⟨"http.request", "https://api.github.com"⟩],
            approvalRequirements
              [⟨"config.read", "agent.model"⟩, ⟨"http.request", "https://api.github.com"⟩] []⟩ =
        .ok (component, metadata) ∧
      metadata.effects = ["config.read", "http.request", "io.stdout"] ∧
      metadata.requirements =
        [⟨"config.read", "agent.model"⟩, ⟨"http.request", "https://api.github.com"⟩] ∧
      validateArtifact sampleExternals component metadata = .ok inspection ∧
      inspection.effects = ["config.read", "http.request", "io.stdout"] ∧
      ((GrantSet.fromManifest sampleManifest).authorize metadata = .ok () ↔
        GrantSet.SameIdentity sampleManifest metadata ∧
          GrantSet.Contained sampleManifest metadata) :=
  authorize_iff_contained sampleExternals sampleManifest
    sampleOptions (by decide +kernel) .webhook ["config.read", "http.request", "io.stdout"]
    [⟨"config.read", "agent.model"⟩, ⟨"http.request", "https://api.github.com"⟩] []
    (maskSelection .webhook 0b1011) (fun contract _ => sampleExternals_componentizes contract)
    (by decide +kernel) (GrantSet.validRequirements_iff.mp (by decide +kernel)) (by simp)
    (by decide +kernel)

/-- A world is selected for an effect without a requirement, and no artifact is built. -/
theorem effect_without_requirement_rejected :
    (selectWorld .webhook ["config.read"]).isOk = true ∧
      (∀ requirement ∈ ([] : List ResourceRequirement),
        validResource sampleExternals requirement = true) ∧
      sampleOptions.validate = .ok () ∧
      assembleComponent sampleExternals sampleOptions
          ⟨.webhook, ["config.read"], [], approvalRequirements [] []⟩ =
        .error ⟨.artifact, "component metadata section does not match policy 1"⟩ := by
  decide +kernel

end Krit.Artifact
