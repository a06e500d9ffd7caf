import Krit.Basic
import Krit.Lib.SortedList
import Mathlib.Data.String.Basic

/-!
# Worlds

The effects by their names, the interfaces and worlds of the WIT package, and how the
compiler selects the world of a program from its checked effects.  A kebab-case name of
the package is the list of its words.
-/

namespace Krit

namespace Effect

def asStr : Effect → String
  | aiInvoke => "ai.invoke"
  | cacheRead => "cache.read"
  | cacheWrite => "cache.write"
  | configRead => "config.read"
  | databaseRead => "database.read"
  | databaseWrite => "database.write"
  | httpRequest => "http.request"
  | ioStdout => "io.stdout"
  | objectRead => "object.read"
  | objectWrite => "object.write"
  | observeLog => "observe.log"
  | queueConsume => "queue.consume"
  | queuePublish => "queue.publish"
  | scheduleTrigger => "schedule.trigger"
  | searchQuery => "search.query"
  | searchVector => "search.vector"
  | secretRead => "secret.read"
  | stateTransaction => "state.transaction"

def all : List Effect :=
  [ aiInvoke, cacheRead, cacheWrite, configRead, databaseRead, databaseWrite, httpRequest,
    ioStdout, objectRead, objectWrite, observeLog, queueConsume, queuePublish,
    scheduleTrigger, searchQuery, searchVector, secretRead, stateTransaction ]

/-- The effect of a name: a `match` on the names of effects is one on this. -/
def fromName (name : String) : Option Effect := all.find? fun effect => effect.asStr == name

theorem mem_all (effect : Effect) : effect ∈ all := by
  cases effect <;> decide

@[simp] theorem fromName_asStr (effect : Effect) : fromName effect.asStr = some effect := by
  have htable : ∀ effect ∈ all, fromName effect.asStr = some effect := by
    decide +kernel
  exact htable effect (mem_all effect)

theorem asStr_injective : Function.Injective asStr := by
  intro left right hname
  have hsome : some left = some right := by
    rw [← fromName_asStr left, ← fromName_asStr right, hname]
  exact Option.some.inj hsome

@[simp] theorem asStr_inj {left right : Effect} : left.asStr = right.asStr ↔ left = right :=
  asStr_injective.eq_iff

theorem eq_asStr_of_fromName {name : String} {effect : Effect}
    (hname : fromName name = some effect) : name = effect.asStr := by
  have hfound := List.find?_some hname
  exact (beq_iff_eq.mp hfound).symm

end Effect

namespace Artifact

inductive BuildErrorKind where
  | metadata
  | artifact
  | digest
  deriving DecidableEq, Repr

structure BuildError where
  kind : BuildErrorKind
  message : String
  deriving DecidableEq, Repr

/-- The interfaces of the package that a program can import. -/
inductive Interface where
  | stdout
  | config
  | secrets
  | http
  | httpAnonymous
  | ai
  | logging
  | state
  | queue
  | objectsRead
  | objectsWrite
  | database
  | cacheRead
  | cacheWrite
  | searchQuery
  | searchVector
  deriving DecidableEq, Repr

namespace Interface

def identity : Interface → String
  | stdout => "krit:runtime/stdout@0.2.0"
  | config => "krit:runtime/config@0.2.0"
  | secrets => "krit:runtime/secrets@0.2.0"
  | http => "krit:runtime/http@0.2.0"
  | httpAnonymous => "krit:runtime/http-anonymous@0.2.0"
  | ai => "krit:runtime/ai@0.2.0"
  | logging => "krit:runtime/logging@0.2.0"
  | state => "krit:runtime/state@0.2.0"
  | queue => "krit:runtime/queue@0.2.0"
  | objectsRead => "krit:runtime/objects-read@0.2.0"
  | objectsWrite => "krit:runtime/objects-write@0.2.0"
  | database => "krit:runtime/database@0.2.0"
  | cacheRead => "krit:runtime/cache-read@0.2.0"
  | cacheWrite => "krit:runtime/cache-write@0.2.0"
  | searchQuery => "krit:runtime/search-query@0.2.0"
  | searchVector => "krit:runtime/search-vector@0.2.0"

def all : List Interface :=
  [ stdout, config, secrets, http, httpAnonymous, ai, logging, state, queue, objectsRead,
    objectsWrite, database, cacheRead, cacheWrite, searchQuery, searchVector ]

def fromIdentity (name : String) : Option Interface :=
  all.find? fun interface => interface.identity == name

theorem mem_all (interface : Interface) : interface ∈ all := by
  cases interface <;> decide

@[simp] theorem fromIdentity_identity (interface : Interface) :
    fromIdentity interface.identity = some interface := by
  have htable : ∀ interface ∈ all, fromIdentity interface.identity = some interface := by
    decide +kernel
  exact htable interface (mem_all interface)

theorem identity_injective : Function.Injective identity := by
  intro left right hname
  have hsome : some left = some right := by
    rw [← fromIdentity_identity left, ← fromIdentity_identity right, hname]
  exact Option.some.inj hsome

@[simp] theorem identity_inj {left right : Interface} :
    left.identity = right.identity ↔ left = right :=
  identity_injective.eq_iff

/-- The functions of an interface. -/
def functions : Interface → List String
  | stdout => ["write-int", "write-bool", "write-unit"]
  | config => ["get-string"]
  | secrets => ["acquire"]
  | http => ["send"]
  | httpAnonymous => ["send"]
  | ai => ["invoke"]
  | logging => ["info", "error"]
  | state =>
      ["get", "put", "delete", "checkpoint-get", "checkpoint-put", "replay-http", "replay-ai"]
  | queue => ["queue-publish"]
  | objectsRead => ["object-get"]
  | objectsWrite => ["object-put", "object-delete"]
  | database =>
      ["begin-read", "begin-write", "db-query", "db-execute", "db-commit", "db-rollback"]
  | cacheRead => ["cache-get"]
  | cacheWrite => ["cache-put", "cache-delete"]
  | searchQuery => ["search-query"]
  | searchVector => ["vector-search"]

/-- The interfaces whose types an interface uses. -/
def uses : Interface → List Interface
  | http => [secrets]
  | _ => []

end Interface

/-- The words of the names of worlds. -/
inductive Word where
  | stdout
  | config
  | secrets
  | http
  | ai
  | logs
  | state
  | queue
  | objread
  | objwrite
  | db
  | cacheread
  | cachewrite
  | searchquery
  | searchvector
  | program
  | pure
  | host
  | webhook
  | job
  | schedule
  deriving DecidableEq, Repr

def Word.text : Word → String
  | stdout => "stdout"
  | config => "config"
  | secrets => "secrets"
  | http => "http"
  | ai => "ai"
  | logs => "logs"
  | state => "state"
  | queue => "queue"
  | objread => "objread"
  | objwrite => "objwrite"
  | db => "db"
  | cacheread => "cacheread"
  | cachewrite => "cachewrite"
  | searchquery => "searchquery"
  | searchvector => "searchvector"
  | program => "program"
  | pure => "pure"
  | host => "host"
  | webhook => "webhook"
  | job => "job"
  | schedule => "schedule"

/-- The identity of a world of the package. -/
def worldIdentity (name : List Word) : String :=
  "krit:runtime/" ++ "-".intercalate (name.map Word.text) ++ "@0.2.0"

inductive ProgramKind where
  | module
  | webhook
  | job
  | schedule
  deriving DecidableEq, Repr

namespace ProgramKind

/-- Effect implied by exporting this entrypoint contract. -/
def exportEffect : ProgramKind → Option Effect
  | module | webhook => none
  | job => some .queueConsume
  | schedule => some .scheduleTrigger

def worldPrefix : ProgramKind → Word
  | module => .program
  | webhook => .webhook
  | job => .job
  | schedule => .schedule

/-- What a component of this kind exports. -/
def componentExport : ProgramKind → String
  | module => "run"
  | webhook => "krit:runtime/webhook@0.2.0"
  | job => "krit:runtime/job@0.2.0"
  | schedule => "krit:runtime/schedule@0.2.0"

end ProgramKind

/-- One import surface: its bit, its word in the names of worlds, and its interface. -/
structure ImportSurface where
  bit : ℕ
  token : Word
  interface : Interface
  deriving DecidableEq, Repr

/-- Ordered import surfaces.  The bit order fixes every generated world name. -/
def importSurfaces : List ImportSurface :=
  [ ⟨1 <<< 0, .stdout, .stdout⟩,
    ⟨1 <<< 1, .config, .config⟩,
    ⟨1 <<< 2, .secrets, .secrets⟩,
    ⟨1 <<< 3, .http, .httpAnonymous⟩,
    ⟨1 <<< 4, .ai, .ai⟩,
    ⟨1 <<< 5, .logs, .logging⟩,
    ⟨1 <<< 6, .state, .state⟩,
    ⟨1 <<< 7, .queue, .queue⟩,
    ⟨1 <<< 8, .objread, .objectsRead⟩,
    ⟨1 <<< 9, .objwrite, .objectsWrite⟩,
    ⟨1 <<< 10, .db, .database⟩,
    ⟨1 <<< 11, .cacheread, .cacheRead⟩,
    ⟨1 <<< 12, .cachewrite, .cacheWrite⟩,
    ⟨1 <<< 13, .searchquery, .searchQuery⟩,
    ⟨1 <<< 14, .searchvector, .searchVector⟩ ]

def secretsBit : ℕ := 1 <<< 2

def httpBit : ℕ := 1 <<< 3

/-- The surfaces above the ones whose webhook worlds are checked in, among sixteen bits. -/
def uncheckedMask : ℕ := 0b1111111111000000

/-- The interface that stands for a surface in a world: bearer HTTP is selected only
alongside secret authority. -/
def ImportSurface.selected (surface : ImportSurface) (mask : ℕ) : Interface :=
  if surface.bit = httpBit ∧ mask &&& secretsBit ≠ 0 then .http else surface.interface

/-- The import surfaces of one import mask. -/
def chosenSurfaces (mask : ℕ) : List ImportSurface :=
  importSurfaces.filter fun surface => mask &&& surface.bit ≠ 0

/-- The interfaces that the surfaces of one import mask stand for. -/
def chosenInterfaces (mask : ℕ) : List Interface :=
  (chosenSurfaces mask).map fun surface => surface.selected mask

/-- The ordered world-name tokens and component imports of one import mask. -/
def surfaces (mask : ℕ) : List Word × List String :=
  ((chosenSurfaces mask).map ImportSurface.token,
    SortedList.sort ((chosenInterfaces mask).map Interface.identity))

structure WorldSelection where
  name : List Word
  id : String
  componentImports : List String
  generated : Bool
  exported : ProgramKind
  deriving DecidableEq, Repr

/-- The bit of the surface that an effect needs. -/
def surfaceBit : Effect → Option ℕ
  | .ioStdout => some (1 <<< 0)
  | .configRead => some (1 <<< 1)
  | .secretRead => some secretsBit
  | .httpRequest => some httpBit
  | .aiInvoke => some (1 <<< 4)
  | .observeLog => some (1 <<< 5)
  | .stateTransaction => some (1 <<< 6)
  | .queuePublish => some (1 <<< 7)
  | .objectRead => some (1 <<< 8)
  | .objectWrite => some (1 <<< 9)
  -- Read and write database authority share one narrow interface.
  | .databaseRead | .databaseWrite => some (1 <<< 10)
  | .cacheRead => some (1 <<< 11)
  | .cacheWrite => some (1 <<< 12)
  | .searchQuery => some (1 <<< 13)
  | .searchVector => some (1 <<< 14)
  | .queueConsume | .scheduleTrigger => none

/-- The loop over the checked effects: whether the effect of the export was seen, and
the mask of the surfaces. -/
def scanEffects (exportEffect : Option Effect) (sawExportEffect : Bool) (mask : ℕ) :
    List String → Except BuildError (Bool × ℕ)
  | [] => .ok (sawExportEffect, mask)
  | effect :: rest =>
      if some effect = exportEffect.map Effect.asStr then scanEffects exportEffect true mask rest
      else
        match (Effect.fromName effect).bind surfaceBit with
        | some bit => scanEffects exportEffect sawExportEffect (mask ||| bit) rest
        | none =>
            .error ⟨.artifact, "checked entrypoint effects contain an unknown host surface"⟩

def selectWorld (kind : ProgramKind) (effects : List String) : Except BuildError WorldSelection :=
  if SortedList.sortedUnique effects = false then
    .error ⟨.artifact, "checked effects must be sorted and unique"⟩
  else if kind = .module then
    if effects = [] then
      .ok ⟨[.pure, .program], worldIdentity [.pure, .program], [], false, .module⟩
    else if effects = [Effect.ioStdout.asStr] then
      .ok ⟨[.program], worldIdentity [.program], [Interface.stdout.identity], false, .module⟩
    else
      .error ⟨.artifact,
        "checked module effects do not map to a WebAssembly policy 1 WIT world"⟩
  else do
    let (sawExportEffect, mask) ← scanEffects kind.exportEffect false 0 effects
    if kind.exportEffect.isSome ≠ sawExportEffect then
      .error ⟨.artifact, "checked entrypoint effects do not match the exported host contract"⟩
    else
      let (tokens, componentImports) := surfaces mask
      let name := [kind.worldPrefix] ++ tokens ++ [.program]
      .ok ⟨name, worldIdentity name, componentImports,
        kind ≠ .webhook ∨ mask &&& uncheckedMask ≠ 0, kind⟩

/-! ## The package -/

structure World where
  name : List Word
  imports : List Interface
  exported : ProgramKind
  deriving DecidableEq, Repr

/-- The imports of the worlds that hold every surface. -/
def hostImports : List Interface :=
  [ .stdout, .config, .secrets, .http, .httpAnonymous, .ai, .logging, .state, .queue,
    .objectsRead, .objectsWrite, .database, .cacheRead, .cacheWrite, .searchQuery,
    .searchVector ]

/-- The worlds of the checked-in package. -/
def checkedInWorlds : List World :=
  [ ⟨[.pure, .program], [], .module⟩,
    ⟨[.program], [.stdout], .module⟩,
    ⟨[.webhook, .program], [], .webhook⟩,
    ⟨[.webhook, .stdout, .program], [.stdout], .webhook⟩,
    ⟨[.webhook, .config, .program], [.config], .webhook⟩,
    ⟨[.webhook, .secrets, .program], [.secrets], .webhook⟩,
    ⟨[.webhook, .http, .program], [.httpAnonymous], .webhook⟩,
    ⟨[.webhook, .stdout, .config, .program], [.stdout, .config], .webhook⟩,
    ⟨[.webhook, .stdout, .secrets, .program], [.stdout, .secrets], .webhook⟩,
    ⟨[.webhook, .stdout, .http, .program], [.stdout, .httpAnonymous], .webhook⟩,
    ⟨[.webhook, .config, .secrets, .program], [.config, .secrets], .webhook⟩,
    ⟨[.webhook, .config, .http, .program], [.config, .httpAnonymous], .webhook⟩,
    ⟨[.webhook, .secrets, .http, .program], [.secrets, .http], .webhook⟩,
    ⟨[.webhook, .stdout, .config, .secrets, .program], [.stdout, .config, .secrets], .webhook⟩,
    ⟨[.webhook, .stdout, .config, .http, .program], [.stdout, .config, .httpAnonymous], .webhook⟩,
    ⟨[.webhook, .stdout, .secrets, .http, .program], [.stdout, .secrets, .http], .webhook⟩,
    ⟨[.webhook, .config, .secrets, .http, .program], [.config, .secrets, .http], .webhook⟩,
    ⟨[.webhook, .stdout, .config, .secrets, .http, .program],
      [.stdout, .config, .secrets, .http], .webhook⟩,
    ⟨[.webhook, .ai, .program], [.ai], .webhook⟩,
    ⟨[.webhook, .stdout, .ai, .program], [.stdout, .ai], .webhook⟩,
    ⟨[.webhook, .config, .ai, .program], [.config, .ai], .webhook⟩,
    ⟨[.webhook, .stdout, .config, .ai, .program], [.stdout, .config, .ai], .webhook⟩,
    ⟨[.webhook, .secrets, .ai, .program], [.secrets, .ai], .webhook⟩,
    ⟨[.webhook, .stdout, .secrets, .ai, .program], [.stdout, .secrets, .ai], .webhook⟩,
    ⟨[.webhook, .config, .secrets, .ai, .program], [.config, .secrets, .ai], .webhook⟩,
    ⟨[.webhook, .stdout, .config, .secrets, .ai, .program],
      [.stdout, .config, .secrets, .ai], .webhook⟩,
    ⟨[.webhook, .http, .ai, .program], [.httpAnonymous, .ai], .webhook⟩,
    ⟨[.webhook, .stdout, .http, .ai, .program], [.stdout, .httpAnonymous, .ai], .webhook⟩,
    ⟨[.webhook, .config, .http, .ai, .program], [.config, .httpAnonymous, .ai], .webhook⟩,
    ⟨[.webhook, .stdout, .config, .http, .ai, .program],
      [.stdout, .config, .httpAnonymous, .ai], .webhook⟩,
    ⟨[.webhook, .secrets, .http, .ai, .program], [.secrets, .http, .ai], .webhook⟩,
    ⟨[.webhook, .stdout, .secrets, .http, .ai, .program],
      [.stdout, .secrets, .http, .ai], .webhook⟩,
    ⟨[.webhook, .config, .secrets, .http, .ai, .program],
      [.config, .secrets, .http, .ai], .webhook⟩,
    ⟨[.webhook, .stdout, .config, .secrets, .http, .ai, .program],
      [.stdout, .config, .secrets, .http, .ai], .webhook⟩,
    ⟨[.webhook, .logs, .program], [.logging], .webhook⟩,
    ⟨[.webhook, .stdout, .logs, .program], [.stdout, .logging], .webhook⟩,
    ⟨[.webhook, .config, .logs, .program], [.config, .logging], .webhook⟩,
    ⟨[.webhook, .stdout, .config, .logs, .program], [.stdout, .config, .logging], .webhook⟩,
    ⟨[.webhook, .secrets, .logs, .program], [.secrets, .logging], .webhook⟩,
    ⟨[.webhook, .stdout, .secrets, .logs, .program], [.stdout, .secrets, .logging], .webhook⟩,
    ⟨[.webhook, .config, .secrets, .logs, .program], [.config, .secrets, .logging], .webhook⟩,
    ⟨[.webhook, .stdout, .config, .secrets, .logs, .program],
      [.stdout, .config, .secrets, .logging], .webhook⟩,
    ⟨[.webhook, .http, .logs, .program], [.httpAnonymous, .logging], .webhook⟩,
    ⟨[.webhook, .stdout, .http, .logs, .program], [.stdout, .httpAnonymous, .logging], .webhook⟩,
    ⟨[.webhook, .config, .http, .logs, .program], [.config, .httpAnonymous, .logging], .webhook⟩,
    ⟨[.webhook, .stdout, .config, .http, .logs, .program],
      [.stdout, .config, .httpAnonymous, .logging], .webhook⟩,
    ⟨[.webhook, .secrets, .http, .logs, .program], [.secrets, .http, .logging], .webhook⟩,
    ⟨[.webhook, .stdout, .secrets, .http, .logs, .program],
      [.stdout, .secrets, .http, .logging], .webhook⟩,
    ⟨[.webhook, .config, .secrets, .http, .logs, .program],
      [.config, .secrets, .http, .logging], .webhook⟩,
    ⟨[.webhook, .stdout, .config, .secrets, .http, .logs, .program],
      [.stdout, .config, .secrets, .http, .logging], .webhook⟩,
    ⟨[.webhook, .ai, .logs, .program], [.ai, .logging], .webhook⟩,
    ⟨[.webhook, .stdout, .ai, .logs, .program], [.stdout, .ai, .logging], .webhook⟩,
    ⟨[.webhook, .config, .ai, .logs, .program], [.config, .ai, .logging], .webhook⟩,
    ⟨[.webhook, .stdout, .config, .ai, .logs, .program],
      [.stdout, .config, .ai, .logging], .webhook⟩,
    ⟨[.webhook, .secrets, .ai, .logs, .program], [.secrets, .ai, .logging], .webhook⟩,
    ⟨[.webhook, .stdout, .secrets, .ai, .logs, .program],
      [.stdout, .secrets, .ai, .logging], .webhook⟩,
    ⟨[.webhook, .config, .secrets, .ai, .logs, .program],
      [.config, .secrets, .ai, .logging], .webhook⟩,
    ⟨[.webhook, .stdout, .config, .secrets, .ai, .logs, .program],
      [.stdout, .config, .secrets, .ai, .logging], .webhook⟩,
    ⟨[.webhook, .http, .ai, .logs, .program], [.httpAnonymous, .ai, .logging], .webhook⟩,
    ⟨[.webhook, .stdout, .http, .ai, .logs, .program],
      [.stdout, .httpAnonymous, .ai, .logging], .webhook⟩,
    ⟨[.webhook, .config, .http, .ai, .logs, .program],
      [.config, .httpAnonymous, .ai, .logging], .webhook⟩,
    ⟨[.webhook, .stdout, .config, .http, .ai, .logs, .program],
      [.stdout, .config, .httpAnonymous, .ai, .logging], .webhook⟩,
    ⟨[.webhook, .secrets, .http, .ai, .logs, .program],
      [.secrets, .http, .ai, .logging], .webhook⟩,
    ⟨[.webhook, .stdout, .secrets, .http, .ai, .logs, .program],
      [.stdout, .secrets, .http, .ai, .logging], .webhook⟩,
    ⟨[.webhook, .config, .secrets, .http, .ai, .logs, .program],
      [.config, .secrets, .http, .ai, .logging], .webhook⟩,
    ⟨[.webhook, .stdout, .config, .secrets, .http, .ai, .logs, .program],
      [.stdout, .config, .secrets, .http, .ai, .logging], .webhook⟩,
    ⟨[.webhook, .host, .program], hostImports, .webhook⟩,
    ⟨[.job, .host, .program], hostImports, .job⟩,
    ⟨[.schedule, .host, .program], hostImports, .schedule⟩ ]

/-- The mask that the imports of a selection stand for. -/
def selectedMask (componentImports : List String) : ℕ :=
  importSurfaces.foldl
    (fun mask surface =>
      if componentImports.any fun name =>
          name == surface.interface.identity ||
            (surface.bit == httpBit && name == Interface.http.identity)
      then mask ||| surface.bit
      else mask) 0

/-- The deterministic least-authority world selected for a build. -/
def generatedWorld (selection : WorldSelection) : World :=
  ⟨selection.name, chosenInterfaces (selectedMask selection.componentImports),
    selection.exported⟩

/-- The checked-in package plus, when required, the generated world. -/
def completeWitSource (selection : WorldSelection) : List World :=
  if selection.generated then checkedInWorlds ++ [generatedWorld selection]
  else checkedInWorlds

structure WitContract where
  world : String
  componentImports : List String
  componentExport : String
  /-- The imported functions, each with the interface it belongs to. -/
  imports : List (Interface × String)
  kind : ProgramKind
  deriving DecidableEq, Repr

/-- The interfaces that a world imports once those are added whose types it uses. -/
def World.elaborated (world : World) : List Interface :=
  (world.imports.flatMap fun interface => interface.uses ++ [interface]).dedup

def contractFromWorld (world : World) : Except BuildError WitContract :=
  let interfaces := world.elaborated
  let imports := interfaces.flatMap fun interface => interface.functions.map (interface, ·)
  if (imports.map Prod.snd).Nodup then
    .ok ⟨worldIdentity world.name, SortedList.sort (interfaces.map Interface.identity),
      world.exported.componentExport, imports, world.exported⟩
  else
    .error ⟨.artifact, "WIT world contains duplicate imported function names"⟩

/-- Parsing of the package, which fails if two worlds have one name. -/
def resolveWorld (worlds : List World) (name : List Word) : Except BuildError World :=
  if (worlds.map World.name).Nodup then
    match worlds.find? fun world => world.name == name with
    | some world => .ok world
    | none => .error ⟨.artifact, "invalid built-in WIT world"⟩
  else
    .error ⟨.artifact, "invalid built-in WIT package"⟩

def loadContract (kind : ProgramKind) (effects : List String) : Except BuildError WitContract := do
  let selection ← selectWorld kind effects
  let world ← resolveWorld (completeWitSource selection) selection.name
  if worldIdentity world.name ≠ selection.id then
    .error ⟨.artifact, "built-in WIT package or world identity does not match policy 1"⟩
  else
    let contract ← contractFromWorld world
    if contract.world ≠ selection.id ∨
        contract.componentImports ≠ SortedList.sort selection.componentImports then
      .error ⟨.artifact, "built-in WIT world imports do not match policy 1"⟩
    else if selection.id ≠ worldIdentity [.program] ∧ kind = .module ∧ contract.imports ≠ [] then
      .error ⟨.artifact, "built-in pure WIT world unexpectedly has core imports"⟩
    else
      .ok contract

end Artifact

end Krit
