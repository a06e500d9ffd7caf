import Krit.HttpOrigin
import Krit.Wit

/-!
# Artifacts

The metadata of an artifact, what the compiler writes into it, and the validation that
both the compiler and the runtime run on it.
-/

namespace Krit.Artifact

/-! ## Toolchain versions -/

/-- The text before the first occurrence of a character, and the text after it. -/
def splitOnce (mark : Char) : List Char → List Char × Option (List Char)
  | [] => ([], none)
  | char :: rest =>
      if char = mark then ([], some rest)
      else ((char :: (splitOnce mark rest).1), (splitOnce mark rest).2)

def isAsciiDigit (char : Char) : Bool := '0' ≤ char && char ≤ '9'

def isAsciiAlphanumeric (char : Char) : Bool :=
  isAsciiDigit char || ('a' ≤ char && char ≤ 'z') || ('A' ≤ char && char ≤ 'Z')

/-- A decimal number without leading zeros that fits in 64 bits. -/
def numeric (part : List Char) : Option ℕ :=
  if part.isEmpty || !part.all isAsciiDigit || (decide (1 < part.length) && part.head? == some '0')
  then none
  else
    let value := part.foldl (fun value char => 10 * value + (char.toNat - '0'.toNat)) 0
    if value < 2 ^ 64 then some value else none

def identifiers (text : List Char) (preRelease : Bool) : Bool :=
  (text.splitOn '.').all fun identifier =>
    !identifier.isEmpty && identifier.all (fun char => isAsciiAlphanumeric char || char == '-') &&
      !(preRelease && decide (1 < identifier.length) && identifier.head? == some '0' &&
        identifier.all isAsciiDigit)

/-- The major and minor version of a strict semantic version. -/
def toolchainLine (version : String) : Option (ℕ × ℕ) :=
  let (versionText, build) := splitOnce '+' version.toList
  let (core, preRelease) := splitOnce '-' versionText
  if !build.all (identifiers · false) || !preRelease.all (identifiers · true) then none
  else
    match core.splitOn '.' with
    | [major, minor, patch] => do
        let major ← numeric major
        let minor ← numeric minor
        let _ ← numeric patch
        return (major, minor)
    | _ => none

/-- How many minor toolchains before the runtime's own still have their artifacts loaded. -/
def previousMinorToolchains : ℕ := 2

def toolchainInWindow (artifact runtime : String) : Bool :=
  match toolchainLine artifact, toolchainLine runtime with
  | some (artifactMajor, artifactMinor), some (runtimeMajor, runtimeMinor) =>
      artifactMajor == runtimeMajor && artifactMinor ≤ runtimeMinor &&
        runtimeMinor - previousMinorToolchains ≤ artifactMinor
  | _, _ => false

def windowLabel (runtime : String) : String :=
  match toolchainLine runtime with
  | some (major, minor) =>
      toString major ++ "." ++ toString (minor - previousMinorToolchains) ++ " through " ++
        toString major ++ "." ++ toString minor
  | none => "no versions"

/-- Why a recorded version is outside the window of the runtime's own version. -/
def outsideWindow (tool version current : String) : Option String :=
  if toolchainInWindow version current then none
  else
    let window := windowLabel current
    match toolchainLine version with
    | some (major, minor) => some ("records " ++ tool ++ " version " ++ toString major ++ "." ++
        toString minor ++ ".x, outside this runtime's compatibility window of " ++ window)
    | none => some ("records an unparsable " ++ tool ++
        " version; this runtime's compatibility window is " ++ window)

/-- The version of a `krit:runtime/<item>@<version>` name. -/
def runtimeWitVersion (name : String) : Option (List Char) :=
  let start := "krit:runtime/".toList
  if start.isPrefixOf name.toList then
    match splitOnce '@' (name.toList.drop start.length).reverse with
    | (version, some item) => if item.isEmpty then none else some version.reverse
    | (_, none) => none
  else none

/-! ## Metadata -/

def artifactMetadataSchema : ℕ := 1

def compilerName : String := "krit"

def languageName : String := "Krit"

def languageVersion : String := "0.3.0"

/-- The version of the toolchain itself. -/
def toolchainVersion : String := "0.3.3"

def wasmComponentTarget : String := "wasm-component"

def supportedEdition : String := "2026"

structure VersionedTool where
  name : String
  version : String
  deriving DecidableEq, Repr

structure ResourceRequirement where
  capability : String
  resource : String
  deriving DecidableEq, Repr

structure ApprovalRequirement where
  operation : String
  resource : String
  deriving DecidableEq, Repr

def ResourceRequirement.key (requirement : ResourceRequirement) : String ×ₗ String :=
  toLex (requirement.capability, requirement.resource)

instance : LinearOrder ResourceRequirement :=
  LinearOrder.lift' ResourceRequirement.key (by
    intro left right hkey
    have hpair : (left.capability, left.resource) = (right.capability, right.resource) :=
      toLex.injective hkey
    cases left
    cases right
    simpa using hpair)

def ApprovalRequirement.key (approval : ApprovalRequirement) : String ×ₗ String :=
  toLex (approval.operation, approval.resource)

instance : LinearOrder ApprovalRequirement :=
  LinearOrder.lift' ApprovalRequirement.key (by
    intro left right hkey
    have hpair : (left.operation, left.resource) = (right.operation, right.resource) :=
      toLex.injective hkey
    cases left
    cases right
    simpa using hpair)

structure ArtifactMetadata where
  schema : ℕ
  compiler : VersionedTool
  language : VersionedTool
  edition : String
  package : VersionedTool
  target : String
  world : String
  entry : String
  digest : String
  byteSize : ℕ
  effects : List String
  requirements : List ResourceRequirement
  approvals : List ApprovalRequirement
  imports : List String
  buildProfile : String
  policyVersion : ℕ
  deriving DecidableEq, Repr

/-- The metadata inside of the component. -/
structure EmbeddedMetadata where
  schema : ℕ
  compilerVersion : String
  edition : String
  world : String
  effects : List String
  requirements : List ResourceRequirement
  approvals : List ApprovalRequirement
  policyVersion : ℕ
  deriving DecidableEq, Repr

/-- The surface of a component: its top-level imports and exports, the sections with
metadata, and the versions of its producers. -/
structure Component where
  imports : List String
  exports : List String
  sections : List EmbeddedMetadata
  language : Option String
  compiler : Option String
  deriving DecidableEq, Repr

/-- What is computed outside of the metadata: URLs, the length of the encoded metadata, the
digest and the size of a component, and what becomes of the program itself.  `componentize`
is its way through `encode_core`, `validate_core` and the component encoder for a contract:
the names on the surface of the component, or the first error. -/
structure Externals where
  parseUrl : String → Option Url
  componentize : WitContract → Except BuildError (List String × List String)
  encodedLength : EmbeddedMetadata → ℕ
  digestBytes : Component → String
  byteSize : Component → ℕ

def maxEmbeddedMetadataBytes : ℕ := 48 * 1024

/-! ## Validation -/

/-- Host surfaces introduced after artifact policy 1. -/
def policyTwoEffects : List Effect :=
  [ .cacheRead, .cacheWrite, .databaseRead, .databaseWrite, .objectRead, .objectWrite,
    .queueConsume, .queuePublish, .scheduleTrigger, .searchQuery, .searchVector,
    .stateTransaction ]

def artifactPolicyVersion (effects : List String) : ℕ :=
  if effects.any fun effect => (policyTwoEffects.map Effect.asStr).contains effect then 2 else 1

/-- Why an artifact that records these facts is not loadable. -/
def unsupportedFacts (schema policyVersion : ℕ) (edition compilerVersion : String) :
    Option String :=
  if schema ≠ artifactMetadataSchema then
    some ("records metadata schema " ++ toString schema ++
      ", which this runtime does not support (supported: 1)")
  else if policyVersion ≠ 1 ∧ policyVersion ≠ 2 then
    some ("records validation policy " ++ toString policyVersion ++
      ", which this runtime does not support (supported: 1, 2)")
  else if edition ≠ supportedEdition then
    some "records an edition this runtime does not support (supported: 2026)"
  else outsideWindow "compiler" compilerVersion toolchainVersion

/-- Whether the resource of a requirement is one that its capability can have. -/
def validResource (external : Externals) (requirement : ResourceRequirement) : Bool :=
  match Effect.fromName requirement.capability with
  | some .configRead => isValidConfigKey requirement.resource
  | some .httpRequest => (HttpOrigin.parseExact external.parseUrl requirement.resource).isOk
  | some .ioStdout | some .observeLog | none => false
  | some _ => isValidResourceName requirement.resource

def validRequirements (external : Externals) (requirements : List ResourceRequirement)
    (effects : List String) : Bool :=
  SortedList.sortedUnique requirements &&
    effects.all (fun effect =>
      effect == Effect.ioStdout.asStr || effect == Effect.observeLog.asStr ||
        requirements.any fun requirement => requirement.capability == effect) &&
    requirements.all fun requirement =>
      (effects.contains requirement.capability ||
        (effects.contains Effect.stateTransaction.asStr &&
          (requirement.capability == Effect.aiInvoke.asStr ||
            requirement.capability == Effect.httpRequest.asStr))) &&
      validResource external requirement

def bearerOperation : String := "http.bearer"

def validApprovals (approvals : List ApprovalRequirement)
    (requirements : List ResourceRequirement) (effects : List String) : Bool :=
  SortedList.sortedUnique approvals &&
    (requirements.filter (·.capability == Effect.aiInvoke.asStr)).all (fun requirement =>
      approvals.any fun approval =>
        approval.operation == Effect.aiInvoke.asStr && approval.resource == requirement.resource) &&
    approvals.all fun approval =>
      if approval.operation = Effect.aiInvoke.asStr then
        requirements.any fun requirement =>
          requirement.capability == Effect.aiInvoke.asStr &&
            requirement.resource == approval.resource
      else if approval.operation = bearerOperation then
        effects.contains Effect.secretRead.asStr && requirements.any fun requirement =>
          requirement.capability == Effect.httpRequest.asStr &&
            requirement.resource == approval.resource
      else false

def safeEntry (entry : String) : Bool :=
  entry.toList.head? != some '/' && !entry.toList.contains '\\' &&
    (entry.toList.splitOn '/').all fun component =>
      !component.isEmpty && component != ['.'] && component != ['.', '.']

structure ComponentInspection where
  compilerVersion : String
  languageVersion : String
  edition : String
  world : String
  imports : List String
  exports : List String
  effects : List String
  requirements : List ResourceRequirement
  approvals : List ApprovalRequirement
  deriving DecidableEq, Repr

/-- The kind of a component with these exports. -/
def componentKind (exports : List String) : Option ProgramKind :=
  [ProgramKind.module, .webhook, .job, .schedule].find? fun kind =>
    exports == [kind.componentExport]

/-- The effect that an import stands for.  The database interface is shared by read and
write authority, and stands for none on its own. -/
def importEffect : Interface → Option Effect
  | .stdout => some .ioStdout
  | .ai => some .aiInvoke
  | .config => some .configRead
  | .secrets => some .secretRead
  | .http => some .httpRequest
  | .httpAnonymous => some .httpRequest
  | .logging => some .observeLog
  | .state => some .stateTransaction
  | .queue => some .queuePublish
  | .objectsRead => some .objectRead
  | .objectsWrite => some .objectWrite
  | .cacheRead => some .cacheRead
  | .cacheWrite => some .cacheWrite
  | .searchQuery => some .searchQuery
  | .searchVector => some .searchVector
  | .database => none

/-- The loop over the imports of a component. -/
def importEffects : List String → Except BuildError (List String)
  | [] => .ok []
  | name :: rest =>
      match Interface.fromIdentity name with
      | none => .error ⟨.artifact, "component imports do not match WebAssembly policy 1"⟩
      | some interface => do
          let effects ← importEffects rest
          match importEffect interface with
          | some effect => .ok (effect.asStr :: effects)
          | none => .ok effects

def isDatabaseEffect (effect : String) : Bool :=
  effect == Effect.databaseRead.asStr || effect == Effect.databaseWrite.asStr

/-- The effects of a component: those of its imports, the one of its export, and the
declared ones on databases. -/
def deriveEffects (kind : ProgramKind) (imports declared : List String) :
    Except BuildError (List String) := do
  let effects ← importEffects imports
  let exported := kind.exportEffect.toList.map Effect.asStr
  let declaredDatabase := declared.filter isDatabaseEffect
  if imports.contains Interface.database.identity = declaredDatabase.isEmpty then
    .error ⟨.artifact, "component database imports and declared database effects disagree"⟩
  else
    .ok (SortedList.dedup (SortedList.sort (effects ++ exported ++ declaredDatabase)))

def verifyProducers (component : Component) (compilerVersion : String) :
    Except BuildError String :=
  match component.language, component.compiler with
  | some language, some compiler =>
      if compiler ≠ compilerVersion then
        .error ⟨.artifact,
          "component producers metadata does not match the embedded compiler version"⟩
      else
        match outsideWindow "language" language languageVersion with
        | some reason => .error ⟨.artifact, "component producers metadata " ++ reason⟩
        | none => .ok language
  | _, _ => .error ⟨.artifact, "component producers metadata does not identify Krit"⟩

/-- The metadata section of a component, if it has one. -/
def readSections (external : Externals) :
    List EmbeddedMetadata → Except BuildError (Option EmbeddedMetadata)
  | [] => .ok none
  | embedded :: rest =>
      if maxEmbeddedMetadataBytes < external.encodedLength embedded then
        .error ⟨.artifact, "component metadata section exceeds the 49152-byte policy limit"⟩
      else if rest ≠ [] then
        .error ⟨.artifact, "component metadata section is duplicate"⟩
      else .ok (some embedded)

/-- Whether the embedded metadata is the one of these effects in this world. -/
def matchesPolicy (external : Externals) (embedded : EmbeddedMetadata) (contract : WitContract)
    (effects : List String) : Bool :=
  embedded.world == contract.world && embedded.effects == effects &&
    validRequirements external embedded.requirements effects &&
    validApprovals embedded.approvals embedded.requirements effects &&
    embedded.policyVersion == artifactPolicyVersion effects &&
    SortedList.sortedUnique embedded.effects

/-- The checks on a component of this kind with this metadata and these imports. -/
def validateSurface (external : Externals) (component : Component) (kind : ProgramKind)
    (embedded : EmbeddedMetadata) (imports exports : List String) :
    Except BuildError ComponentInspection := do
  let effects ← deriveEffects kind imports embedded.effects
  let contract ← loadContract kind effects
  if contract.componentImports ≠ imports ∨ [contract.componentExport] ≠ exports then
    .error ⟨.artifact, "component surface does not match its deterministic WIT world"⟩
  else if matchesPolicy external embedded contract effects = false then
    .error ⟨.artifact, "component metadata section does not match policy 1"⟩
  else
    let language ← verifyProducers component embedded.compilerVersion
    .ok ⟨embedded.compilerVersion, language, embedded.edition, contract.world, imports, exports,
      effects, embedded.requirements, embedded.approvals⟩

def validateComponent (external : Externals) (component : Component) :
    Except BuildError ComponentInspection := do
  let sections ← readSections external component.sections
  let imports := SortedList.sort component.imports
  let exports := SortedList.sort component.exports
  if (imports ++ exports).any fun name =>
      (runtimeWitVersion name).any (· ≠ "0.2.0".toList) then
    .error ⟨.artifact, "component uses a krit:runtime WIT package version this runtime does " ++
      "not support (supported: 0.2.0)"⟩
  else
    match componentKind exports with
    | none => .error ⟨.artifact, "component exports do not match a policy 1 WIT world"⟩
    | some kind =>
        if SortedList.sortedUnique imports = false then
          .error ⟨.artifact, "component imports must be sorted and unique"⟩
        else
          match sections with
          | none => .error ⟨.artifact, "component metadata section is missing"⟩
          | some embedded =>
              match unsupportedFacts embedded.schema embedded.policyVersion embedded.edition
                  embedded.compilerVersion with
              | some reason => .error ⟨.artifact, "component metadata section " ++ reason⟩
              | none => validateSurface external component kind embedded imports exports

/-- Whether the metadata beside an artifact is well formed. -/
def wellFormed (external : Externals) (metadata : ArtifactMetadata) : Bool :=
  metadata.policyVersion == artifactPolicyVersion metadata.effects &&
    metadata.compiler.name == compilerName && metadata.language.name == languageName &&
    metadata.target == wasmComponentTarget && !metadata.package.name.isEmpty &&
    !metadata.package.version.isEmpty && safeEntry metadata.entry &&
    SortedList.sortedUnique metadata.effects &&
    validRequirements external metadata.requirements metadata.effects &&
    validApprovals metadata.approvals metadata.requirements metadata.effects &&
    SortedList.sortedUnique metadata.imports

def validateArtifact (external : Externals) (component : Component)
    (metadata : ArtifactMetadata) : Except BuildError ComponentInspection :=
  match (unsupportedFacts metadata.schema metadata.policyVersion metadata.edition
      metadata.compiler.version).or
      (outsideWindow "language" metadata.language.version languageVersion) with
  | some reason => .error ⟨.metadata, "artifact metadata " ++ reason⟩
  | none =>
      if wellFormed external metadata = false then
        .error ⟨.metadata, "artifact metadata does not match schema 1 policy"⟩
      else if metadata.byteSize ≠ external.byteSize component then
        .error ⟨.digest, "artifact byte size does not match metadata"⟩
      else if metadata.digest ≠ external.digestBytes component then
        .error ⟨.digest, "artifact BLAKE3 digest does not match metadata"⟩
      else do
        let inspection ← validateComponent external component
        if metadata.compiler.version ≠ inspection.compilerVersion ∨
            metadata.language.version ≠ inspection.languageVersion ∨
            metadata.edition ≠ inspection.edition then
          .error ⟨.metadata,
            "artifact metadata compiler, language, or edition does not match the component"⟩
        else if metadata.world ≠ inspection.world ∨ metadata.imports ≠ inspection.imports ∨
            metadata.effects ≠ inspection.effects ∨
            metadata.requirements ≠ inspection.requirements ∨
            metadata.approvals ≠ inspection.approvals then
          .error ⟨.metadata,
            "artifact metadata world, imports, or effects do not match the component"⟩
        else .ok inspection

/-! ## Assembly -/

structure BuildOptions where
  edition : String
  packageName : String
  packageVersion : String
  sourceEntry : String
  target : String
  buildProfile : String
  grantedEffects : List String
  deriving DecidableEq, Repr

/-- Whether a character is a control character of Unicode. -/
def isControl (char : Char) : Bool :=
  char.toNat < 32 || (127 ≤ char.toNat && char.toNat ≤ 159)

/-- The first of the described values that is empty, too long or holds a control
character. -/
def invalidField (fields : List (String × String × ℕ)) : Option String :=
  (fields.find? fun (_, value, maximum) =>
    value.isEmpty || decide (maximum < (stringBytes value).length) ||
      value.toList.any isControl).map Prod.fst

def BuildOptions.validate (options : BuildOptions) : Except BuildError Unit :=
  if options.edition ≠ supportedEdition then
    .error ⟨.metadata, "unsupported artifact edition `" ++ options.edition ++ "`"⟩
  else if options.target ≠ wasmComponentTarget then
    .error ⟨.metadata, "unsupported artifact target `" ++ options.target ++ "`"⟩
  else
    match invalidField
        [ ("package name", options.packageName, 128),
          ("package version", options.packageVersion, 64),
          ("source entry", options.sourceEntry, 512),
          ("build profile", options.buildProfile, 32) ] with
    | some description => .error ⟨.metadata, "invalid artifact " ++ description⟩
    | none =>
        if safeEntry options.sourceEntry = false then
          .error ⟨.metadata,
            "artifact source entry must be a forward-slash package-relative path"⟩
        else if SortedList.sortedUnique options.grantedEffects = false then
          .error ⟨.metadata, "artifact granted effects must be sorted and unique"⟩
        else .ok ()

/-- What the support check found of a module. -/
structure CheckedModule where
  kind : ProgramKind
  effects : List String
  requirements : List ResourceRequirement
  approvals : List ApprovalRequirement
  deriving DecidableEq, Repr

/-- The approvals of a module: one for every adapter it requires, and one for every origin
that its bearer requests name. -/
def approvalRequirements (requirements : List ResourceRequirement) (bearerOrigins : List String) :
    List ApprovalRequirement :=
  SortedList.dedup <| SortedList.sort <|
    ((requirements.filter (·.capability == Effect.aiInvoke.asStr)).map fun requirement =>
      ⟨Effect.aiInvoke.asStr, requirement.resource⟩) ++
    bearerOrigins.map fun origin => ⟨bearerOperation, origin⟩

/-- The metadata that is embedded for a checked module in a world. -/
def CheckedModule.embedded (checked : CheckedModule) (options : BuildOptions) (world : String) :
    EmbeddedMetadata where
  schema := artifactMetadataSchema
  compilerVersion := toolchainVersion
  edition := options.edition
  world
  effects := checked.effects
  requirements := checked.requirements
  approvals := checked.approvals
  policyVersion := artifactPolicyVersion checked.effects

def assembleComponent (external : Externals) (options : BuildOptions) (checked : CheckedModule) :
    Except BuildError (Component × ArtifactMetadata) := do
  let contract ← loadContract checked.kind checked.effects
  let (imports, exports) ← external.componentize contract
  let embedded := checked.embedded options contract.world
  if maxEmbeddedMetadataBytes < external.encodedLength embedded then
    .error ⟨.artifact, "component metadata exceeds the 49152-byte policy limit"⟩
  else
    let component : Component :=
      ⟨imports, exports, [embedded], some languageVersion, some toolchainVersion⟩
    let inspection ← validateComponent external component
    if inspection.effects ≠ checked.effects ∨ inspection.world ≠ contract.world then
      .error ⟨.artifact, "validated component world or effects differ from checked Core"⟩
    else
      let metadata : ArtifactMetadata :=
        { schema := artifactMetadataSchema
          compiler := ⟨compilerName, toolchainVersion⟩
          language := ⟨languageName, languageVersion⟩
          edition := options.edition
          package := ⟨options.packageName, options.packageVersion⟩
          target := options.target
          world := inspection.world
          entry := options.sourceEntry
          digest := external.digestBytes component
          byteSize := external.byteSize component
          effects := inspection.effects
          requirements := inspection.requirements
          approvals := inspection.approvals
          imports := inspection.imports
          buildProfile := options.buildProfile
          policyVersion := artifactPolicyVersion checked.effects }
      let _ ← validateArtifact external component metadata
      .ok (component, metadata)

end Krit.Artifact
