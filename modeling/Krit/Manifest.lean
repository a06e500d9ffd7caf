import Krit.Capability
import Krit.Wit
import Krit.Lib.Keyed

/-!
# The package manifest

The permissions that a manifest requests, with the origins its secrets are bound to.
-/

namespace Krit

/-- How the host presents a secret to an origin. -/
inductive SecretInjection where
  | bearer
  deriving DecidableEq, Repr

/-- One `[secrets.<name>]` table. -/
structure SecretBinding where
  origins : List String
  inject : SecretInjection
  deriving DecidableEq, Repr

inductive SecretBindingStatus where
  /-- Declared by a `[secrets.<name>]` table; only its origins may receive it. -/
  | bound
  /-- Declared only by the legacy list; any granted origin may receive it. -/
  | unbound
  deriving DecidableEq, Repr

/-- The reviewable binding of one granted secret. -/
structure SecretBindingFact where
  secret : String
  inject : SecretInjection
  binding : SecretBindingStatus
  origins : List String
  deriving DecidableEq, Repr

structure Package where
  name : String
  version : String
  edition : String
  entry : String
  target : String
  deriving DecidableEq, Repr

structure Capabilities where
  stdout : Bool
  config : List String
  http : List String
  secrets : List String
  ai : List String
  logs : Bool
  state : List String
  queues : List String
  consumes : List String
  schedules : List String
  buckets : List String
  readOnlyBuckets : List String
  databases : List String
  readOnlyDatabases : List String
  cacheNamespaces : List String
  readOnlyCacheNamespaces : List String
  searchIndexes : List String
  vectorIndexes : List String
  deriving DecidableEq, Repr

structure Manifest where
  package : Package
  capabilities : Capabilities
  /-- The `[secrets.<name>]` tables. -/
  secrets : List (String × SecretBinding)
  deriving DecidableEq, Repr

/-- A permission, with the resource it is for if it is for one. -/
structure PermissionFact where
  capability : String
  resource : Option String
  deriving DecidableEq, Repr

namespace PermissionFact

/-- Facts order by their capabilities and then by their resources, the fact without a
resource first. -/
def key (fact : PermissionFact) : String ×ₗ WithBot String :=
  toLex (fact.capability, fact.resource)

theorem key_injective : Function.Injective key := by
  intro left right hkey
  have hpair : (left.capability, left.resource) = (right.capability, right.resource) :=
    toLex.injective hkey
  cases left
  cases right
  simpa using hpair

instance : LinearOrder PermissionFact := LinearOrder.lift' key key_injective

end PermissionFact

/-- One fact for each name. -/
def facts (capability : Effect) (names : List String) : List PermissionFact :=
  names.map fun resource => ⟨capability.asStr, some resource⟩

namespace Manifest

/-- Every granted secret name, sorted and unique: the legacy list together with every
`[secrets.<name>]` table. -/
def secretNames (manifest : Manifest) : List String :=
  SortedList.dedup
    (SortedList.sort (manifest.capabilities.secrets ++ manifest.secrets.map Prod.fst))

/-- The binding of one granted secret. -/
def secretBinding (manifest : Manifest) (secret : String) : SecretBindingFact :=
  match Keyed.find secret manifest.secrets with
  | some binding => ⟨secret, binding.inject, .bound, SortedList.sort binding.origins⟩
  | none => ⟨secret, .bearer, .unbound, []⟩

/-- The binding of every granted secret, sorted by secret name. -/
def secretBindings (manifest : Manifest) : List SecretBindingFact :=
  manifest.secretNames.map manifest.secretBinding

/-- Whether a resource is one of the granted names. -/
def names (granted : List String) (resource : Option String) : Bool :=
  resource.any fun resource => granted.any (· == resource)

def grantsPermission (manifest : Manifest) (capability : String) (resource : Option String) :
    Bool :=
  let granted := manifest.capabilities
  match Effect.fromName capability with
  | some .ioStdout => resource.isNone && granted.stdout
  | some .configRead => names granted.config resource
  | some .httpRequest => names granted.http resource
  | some .secretRead => resource.any fun resource =>
      granted.secrets.any (· == resource) || (Keyed.find resource manifest.secrets).isSome
  | some .aiInvoke => names granted.ai resource
  | some .observeLog => resource.isNone && granted.logs
  | some .stateTransaction => names granted.state resource
  | some .queuePublish => names granted.queues resource
  | some .queueConsume => names granted.consumes resource
  | some .scheduleTrigger => names granted.schedules resource
  | some .objectWrite => names granted.buckets resource
  | some .objectRead => names (granted.buckets ++ granted.readOnlyBuckets) resource
  | some .databaseWrite => names granted.databases resource
  | some .databaseRead => names (granted.databases ++ granted.readOnlyDatabases) resource
  | some .cacheWrite => names granted.cacheNamespaces resource
  | some .cacheRead => names (granted.cacheNamespaces ++ granted.readOnlyCacheNamespaces) resource
  | some .searchQuery => names granted.searchIndexes resource
  | some .searchVector => names granted.vectorIndexes resource
  | none => false

/-- Whether the host may inject a secret as the bearer credential of a request to an
origin.  Both must be granted, and a secret bound by a table may reach only the origins
that the table lists. -/
def permitsBearer (manifest : Manifest) (secret origin : String) : Bool :=
  manifest.grantsPermission Effect.secretRead.asStr (some secret) &&
    manifest.grantsPermission Effect.httpRequest.asStr (some origin) &&
    (Keyed.find secret manifest.secrets).all fun binding => binding.origins.any (· == origin)

/-- The requested permissions of the permission plan. -/
def permissionPlan (manifest : Manifest) : List PermissionFact :=
  let granted := manifest.capabilities
  SortedList.sort <|
    (if granted.stdout then [⟨Effect.ioStdout.asStr, none⟩] else []) ++
    facts .configRead granted.config ++
    facts .httpRequest granted.http ++
    facts .secretRead manifest.secretNames ++
    facts .aiInvoke granted.ai ++
    (if granted.logs then [⟨Effect.observeLog.asStr, none⟩] else []) ++
    facts .stateTransaction granted.state ++
    facts .queuePublish granted.queues ++
    facts .queueConsume granted.consumes ++
    facts .scheduleTrigger granted.schedules ++
    facts .objectWrite granted.buckets ++
    facts .databaseWrite granted.databases ++
    facts .cacheWrite granted.cacheNamespaces ++
    facts .searchQuery granted.searchIndexes ++
    facts .searchVector granted.vectorIndexes ++
    facts .objectRead (granted.buckets ++ granted.readOnlyBuckets) ++
    facts .databaseRead (granted.databases ++ granted.readOnlyDatabases) ++
    facts .cacheRead (granted.cacheNamespaces ++ granted.readOnlyCacheNamespaces)

/-! ## Granted permissions -/

theorem mem_facts {capability : Effect} {names : List String} {name : String}
    {resource : Option String} :
    (⟨name, resource⟩ : PermissionFact) ∈ facts capability names ↔
      name = capability.asStr ∧ ∃ value ∈ names, resource = some value := by
  simp only [facts, List.mem_map, PermissionFact.mk.injEq]
  constructor
  · rintro ⟨value, hmem, hname, hresource⟩
    exact ⟨hname.symm, value, hmem, hresource.symm⟩
  · rintro ⟨hname, value, hmem, hresource⟩
    exact ⟨value, hmem, hname.symm, hresource.symm⟩

theorem names_eq_true {granted : List String} {resource : Option String} :
    names granted resource = true ↔ ∃ value ∈ granted, resource = some value := by
  cases resource with
  | none => simp [names]
  | some value => simp [names]

theorem mem_secretNames {manifest : Manifest} {secret : String} :
    secret ∈ manifest.secretNames ↔
      secret ∈ manifest.capabilities.secrets ∨ secret ∈ manifest.secrets.map Prod.fst := by
  simp [secretNames]

/-- The names of secrets are those that the manifest grants. -/
theorem grantsPermission_secret {manifest : Manifest} {resource : Option String} :
    manifest.grantsPermission Effect.secretRead.asStr resource = true ↔
      ∃ value ∈ manifest.secretNames, resource = some value := by
  cases resource with
  | none => simp [grantsPermission]
  | some value =>
    have hfound : (Keyed.find value manifest.secrets).isSome = true ↔
        value ∈ manifest.secrets.map Prod.fst := by
      rw [Option.isSome_iff_ne_none, ne_eq, Keyed.find_eq_none_iff, not_not]
    simp only [grantsPermission, Effect.fromName_asStr, Option.any_some, Bool.or_eq_true, hfound,
      mem_secretNames, Option.some.injEq, exists_eq_right', List.any_eq_true, beq_iff_eq,
      exists_eq_right]

end Manifest

end Krit
