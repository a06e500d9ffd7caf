import Krit.Artifact
import Krit.Errors
import Krit.Manifest

/-!
# Grants

What the runtime grants from a manifest, and how it authorizes an artifact.
-/

namespace Krit

open Artifact

structure GrantSet where
  packageName : String
  packageVersion : String
  edition : String
  target : String
  entry : String
  requested : List PermissionFact
  effects : List String
  imports : List String
  secretBindings : List SecretBindingFact
  deriving DecidableEq, Repr

/-- What an effective permission report holds beside what it repeats of its input. -/
structure EffectivePermissions where
  package : String
  world : String
  requested : List PermissionFact
  secretBindings : List SecretBindingFact
  required : List PermissionFact
  effective : List PermissionFact
  denied : List PermissionFact
  imports : List String
  approvalRequired : List ApprovalRequirement
  denialReasons : List String
  allowed : Bool
  deriving DecidableEq, Repr

namespace GrantSet

/-- The effects and imports that are granted if a condition holds. -/
def granted {α : Type} (condition : Bool) (values : List α) : List α :=
  if condition then values else []

def grantedEffects (manifest : Manifest) : List String :=
  let capabilities := manifest.capabilities
  granted capabilities.stdout [Effect.ioStdout.asStr] ++
  granted (!capabilities.config.isEmpty) [Effect.configRead.asStr] ++
  granted (!capabilities.http.isEmpty) [Effect.httpRequest.asStr] ++
  granted (!manifest.secretBindings.isEmpty) [Effect.secretRead.asStr] ++
  granted (!capabilities.ai.isEmpty) [Effect.aiInvoke.asStr] ++
  granted capabilities.logs [Effect.observeLog.asStr] ++
  granted (!capabilities.state.isEmpty) [Effect.stateTransaction.asStr] ++
  granted (!capabilities.queues.isEmpty) [Effect.queuePublish.asStr] ++
  granted (!capabilities.consumes.isEmpty) [Effect.queueConsume.asStr] ++
  granted (!capabilities.schedules.isEmpty) [Effect.scheduleTrigger.asStr] ++
  granted (!capabilities.buckets.isEmpty) [Effect.objectWrite.asStr] ++
  granted (!capabilities.buckets.isEmpty || !capabilities.readOnlyBuckets.isEmpty)
    [Effect.objectRead.asStr] ++
  granted (!capabilities.databases.isEmpty) [Effect.databaseWrite.asStr] ++
  granted (!capabilities.databases.isEmpty || !capabilities.readOnlyDatabases.isEmpty)
    [Effect.databaseRead.asStr] ++
  granted (!capabilities.cacheNamespaces.isEmpty) [Effect.cacheWrite.asStr] ++
  granted (!capabilities.cacheNamespaces.isEmpty ||
      !capabilities.readOnlyCacheNamespaces.isEmpty)
    [Effect.cacheRead.asStr] ++
  granted (!capabilities.searchIndexes.isEmpty) [Effect.searchQuery.asStr] ++
  granted (!capabilities.vectorIndexes.isEmpty) [Effect.searchVector.asStr]

def grantedImports (manifest : Manifest) : List Interface :=
  let capabilities := manifest.capabilities
  granted capabilities.stdout [Interface.stdout] ++
  granted (!capabilities.config.isEmpty) [Interface.config] ++
  granted (!capabilities.http.isEmpty) [Interface.http, Interface.httpAnonymous] ++
  granted (!manifest.secretBindings.isEmpty) [Interface.secrets] ++
  granted (!capabilities.ai.isEmpty) [Interface.ai] ++
  granted capabilities.logs [Interface.logging] ++
  granted (!capabilities.state.isEmpty) [Interface.state] ++
  granted (!capabilities.queues.isEmpty) [Interface.queue] ++
  granted (!capabilities.buckets.isEmpty) [Interface.objectsWrite] ++
  granted (!capabilities.buckets.isEmpty || !capabilities.readOnlyBuckets.isEmpty)
    [Interface.objectsRead] ++
  granted (!capabilities.databases.isEmpty) [Interface.database] ++
  granted (!capabilities.databases.isEmpty || !capabilities.readOnlyDatabases.isEmpty)
    [Interface.database] ++
  granted (!capabilities.cacheNamespaces.isEmpty) [Interface.cacheWrite] ++
  granted (!capabilities.cacheNamespaces.isEmpty ||
      !capabilities.readOnlyCacheNamespaces.isEmpty)
    [Interface.cacheRead] ++
  granted (!capabilities.searchIndexes.isEmpty) [Interface.searchQuery] ++
  granted (!capabilities.vectorIndexes.isEmpty) [Interface.searchVector]

def requestedFacts (manifest : Manifest) : List PermissionFact :=
  let capabilities := manifest.capabilities
  granted capabilities.stdout [⟨Effect.ioStdout.asStr, none⟩] ++
  granted capabilities.logs [⟨Effect.observeLog.asStr, none⟩] ++
  facts .cacheWrite capabilities.cacheNamespaces ++
  facts .cacheRead (capabilities.cacheNamespaces ++ capabilities.readOnlyCacheNamespaces) ++
  facts .databaseWrite capabilities.databases ++
  facts .databaseRead (capabilities.databases ++ capabilities.readOnlyDatabases) ++
  facts .queuePublish capabilities.queues ++
  facts .queueConsume capabilities.consumes ++
  facts .scheduleTrigger capabilities.schedules ++
  facts .objectWrite capabilities.buckets ++
  facts .searchQuery capabilities.searchIndexes ++
  facts .searchVector capabilities.vectorIndexes ++
  facts .objectRead (capabilities.buckets ++ capabilities.readOnlyBuckets) ++
  facts .configRead capabilities.config ++
  facts .stateTransaction capabilities.state ++
  facts .aiInvoke capabilities.ai ++
  facts .httpRequest capabilities.http ++
  facts .secretRead (manifest.secretBindings.map SecretBindingFact.secret)

def forwardSlashes (entry : String) : String :=
  String.ofList (entry.toList.map fun char => if char = '\\' then '/' else char)

def fromManifest (manifest : Manifest) : GrantSet where
  packageName := manifest.package.name
  packageVersion := manifest.package.version
  edition := manifest.package.edition
  target := manifest.package.target
  entry := forwardSlashes manifest.package.entry
  requested := SortedList.sort (requestedFacts manifest)
  effects := grantedEffects manifest
  imports := (grantedImports manifest).map Interface.identity
  secretBindings := manifest.secretBindings

def grants (grants : GrantSet) (capability : String) (resource : Option String) : Bool :=
  grants.requested.any fun fact => fact.capability == capability && fact.resource == resource

/-- Whether the host may inject a secret as the bearer credential of a request to an
origin. -/
def permitsBearer (grants : GrantSet) (secret origin : String) : Bool :=
  grants.grants Effect.httpRequest.asStr (some origin) &&
    (grants.secretBindings.find? (·.secret == secret)).any fun binding =>
      match binding.binding with
      | .bound => binding.origins.any (· == origin)
      | .unbound => true

/-- One line of the identity check. -/
def identityDenial (name expected actual : String) : List String :=
  if expected ≠ actual then
    ["artifact " ++ name ++ " `" ++ actual ++ "` does not match manifest `" ++ expected ++ "`"]
  else []

def identityDenials (grants : GrantSet) (metadata : ArtifactMetadata) : List String :=
  identityDenial "package name" grants.packageName metadata.package.name ++
  identityDenial "package version" grants.packageVersion metadata.package.version ++
  identityDenial "edition" grants.edition metadata.edition ++
  identityDenial "target" grants.target metadata.target ++
  identityDenial "entry" grants.entry metadata.entry

/-- The interface that a declared effect stands for. -/
def policyInterface (effects : List String) (effect : String) : Option Interface :=
  match Effect.fromName effect with
  | some .ioStdout => some .stdout
  | some .configRead => some .config
  | some .secretRead => some .secrets
  | some .httpRequest =>
      some (if effects.any (· == Effect.secretRead.asStr) then .http else .httpAnonymous)
  | some .aiInvoke => some .ai
  | some .observeLog => some .logging
  | some .stateTransaction => some .state
  | some .queuePublish => some .queue
  | some .objectRead => some .objectsRead
  | some .cacheRead => some .cacheRead
  | some .cacheWrite => some .cacheWrite
  | some .searchQuery => some .searchQuery
  | some .searchVector => some .searchVector
  | some .objectWrite => some .objectsWrite
  | some .databaseRead | some .databaseWrite => some .database
  | some .queueConsume | some .scheduleTrigger | none => none

/-- Whether the world is the one of a program with these effects. -/
def validWorldName (world : String) (effects : List String) : Bool :=
  if world = worldIdentity [.pure, .program] then effects.isEmpty
  else if world = worldIdentity [.program] then effects == [Effect.ioStdout.asStr]
  else if world = worldIdentity [.webhook, .program] then effects.isEmpty
  else
    ["krit:runtime/webhook-", "krit:runtime/job", "krit:runtime/schedule"].any
        (stringStartsWith world ·) &&
      stringEndsWith world "-program@0.2.0" && !effects.isEmpty

def validPolicyWorld (metadata : ArtifactMetadata) : Bool :=
  let expectedImports := SortedList.dedup <| SortedList.sort <|
    (metadata.effects.filterMap (policyInterface metadata.effects)).map Interface.identity
  expectedImports == metadata.imports && validWorldName metadata.world metadata.effects

/-- What an artifact requires: its requirements, and its effects that have none. -/
def requiredFacts (metadata : ArtifactMetadata) : List PermissionFact :=
  SortedList.sort <|
    (metadata.requirements.map fun requirement =>
      ⟨requirement.capability, some requirement.resource⟩) ++
    (metadata.effects.filter fun effect =>
      !metadata.requirements.any fun requirement => requirement.capability == effect).map
        fun capability => ⟨capability, none⟩

/-- Whether a required permission is granted. -/
def covers (grants : GrantSet) (fact : PermissionFact) : Bool :=
  grants.effects.contains fact.capability && grants.grants fact.capability fact.resource

def evaluate (grants : GrantSet) (metadata : ArtifactMetadata) : EffectivePermissions :=
  let required := requiredFacts metadata
  let denied := required.filter fun fact => !grants.covers fact
  let denialReasons := grants.identityDenials metadata ++
    if validPolicyWorld metadata then []
    else ["artifact world, effects, and imports do not form an authorized policy 1 world"]
  { package := metadata.package.name
    world := metadata.world
    requested := grants.requested
    secretBindings := grants.secretBindings
    required
    effective := required.filter grants.covers
    denied
    imports := metadata.imports
    approvalRequired := metadata.approvals
    denialReasons
    allowed := denied.isEmpty && denialReasons.isEmpty }

/-- The message for a permission that is not granted. -/
def denialMessage (denied : PermissionFact) : String :=
  "required capability `" ++ denied.capability ++ "`" ++
    denied.resource.elim "" (fun resource => " for resource `" ++ resource ++ "`") ++
    " is not granted by the manifest"

def authorize (grants : GrantSet) (metadata : ArtifactMetadata) : Except RuntimeError Unit :=
  let identityDenials := grants.identityDenials metadata
  if identityDenials ≠ [] then .error (.authorization ("; ".intercalate identityDenials))
  else
    match (grants.evaluate metadata).denied.head? with
    | some denied => .error (.authorization (denialMessage denied))
    | none =>
        if !validPolicyWorld metadata ||
            metadata.imports.any fun name => !grants.imports.contains name then
          .error (.importMismatch
            "artifact imports are not exactly authorized by the manifest-derived grant set")
        else .ok ()

end GrantSet

end Krit
