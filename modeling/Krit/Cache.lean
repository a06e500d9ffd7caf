import Krit.Lib.TreeTotal
import Krit.Lib.Machine
import Krit.Lib.Result
import Mathlib.Data.List.MinMax

/-!
# The namespaced cache

A process-local cache with a time to live for each entry.  Every namespace keeps
its entries together with an index by last access and an index by deadline; the
cache keeps totals over all namespaces.  Every call takes the lock, so calls are
serialized; a poisoned lock is not modelled.

Machine integers are natural numbers.  Sizes and counters saturate at the largest
64-bit value, and the stamp counter wraps there, as in the source.
-/

namespace Krit.Cache

open Std TreeTotal Machine

/-! ## Configuration -/

inductive ErrorKind where
  | ofNamespace
  | ofLimit
  deriving DecidableEq, Repr

structure Error where
  kind : ErrorKind
  message : String
  deriving DecidableEq, Repr

def Error.ofNamespace (message : String) : Error := ⟨.ofNamespace, message⟩

def Error.ofLimit (message : String) : Error := ⟨.ofLimit, message⟩

def maxNamespaces : ℕ := 16

def maxEntriesPerNamespace : ℕ := 4096

def maxTotalEntries : ℕ := 16384

def maxKeyBytes : ℕ := 512

def maxValueBytes : ℕ := 64 * 1024

def maxNamespaceBytes : ℕ := 8 * 1024 * 1024

def maxTotalBytes : ℕ := 64 * 1024 * 1024

def minTtlSeconds : ℤ := 1

def maxTtlSeconds : ℤ := 7 * 24 * 60 * 60

def entryOverheadBytes : ℕ := 64

inductive NamespaceMode where
  | readOnly
  | readWrite
  deriving DecidableEq, Repr

structure NamespacePolicy where
  mode : NamespaceMode
  maxEntries : ℕ
  maxBytes : ℕ
  maxKeyBytes : ℕ
  maxValueBytes : ℕ
  maxTtlSeconds : ℤ
  deriving DecidableEq, Repr

def NamespacePolicy.validate (policy : NamespacePolicy) : Except Error Unit :=
  if policy.maxEntries = 0 ∨ policy.maxEntries > maxEntriesPerNamespace ∨
      policy.maxBytes = 0 ∨ policy.maxBytes > maxNamespaceBytes ∨
      policy.maxKeyBytes = 0 ∨ policy.maxKeyBytes > Cache.maxKeyBytes ∨
      policy.maxValueBytes = 0 ∨ policy.maxValueBytes > Cache.maxValueBytes ∨
      policy.maxTtlSeconds < minTtlSeconds ∨ policy.maxTtlSeconds > Cache.maxTtlSeconds then
    .error (.ofLimit "cache namespace limits are outside the Phase 7 bounds")
  else
    match (Machine.checkedAdd policy.maxKeyBytes policy.maxValueBytes).bind
        (Machine.checkedAdd · entryOverheadBytes) with
    | none => .error (.ofLimit "cache namespace limits overflowed")
    | some largest =>
        if largest > policy.maxBytes then
          .error (.ofLimit
            "cache namespace byte budget cannot hold one entry of its declared maximum size")
        else .ok ()

structure Config where
  namespaces : TreeMap String NamespacePolicy
  maxTotalEntries : ℕ
  maxTotalBytes : ℕ

/-- The check of one namespace against the whole cache. -/
def Config.validatePolicy (config : Config) (policy : NamespacePolicy) : Except Error Unit := do
  policy.validate
  if policy.maxEntries > config.maxTotalEntries ∨ policy.maxBytes > config.maxTotalBytes then
    throw (.ofLimit "a cache namespace budget exceeds the whole-cache budget")
  else pure ()

def Config.validate (config : Config) : Except Error Unit :=
  if config.namespaces.size > maxNamespaces then
    .error (.ofLimit "configured cache namespaces exceed the Phase 7 bound")
  else if config.namespaces.size = 0 then .ok ()
  else if config.maxTotalEntries = 0 ∨ config.maxTotalEntries > Cache.maxTotalEntries ∨
      config.maxTotalBytes = 0 ∨ config.maxTotalBytes > Cache.maxTotalBytes then
    .error (.ofLimit "cache totals are outside the Phase 7 bounds")
  else Result.forEach config.validatePolicy (config.namespaces.toList.map Prod.snd)

/-! ## Namespaces -/

structure Entry where
  value : String
  expiresAtMillis : ℕ
  stamp : ℕ
  deriving DecidableEq, Repr

/-- Deadlines are ordered by instant and then by key. -/
instance deadlineOrd : Ord (ℕ × String) := lexOrd

structure Namespace where
  policy : NamespacePolicy
  entries : TreeMap String Entry
  byAccess : TreeMap ℕ String
  byExpiry : TreeMap (ℕ × String) Unit
  bytes : ℕ

def maxSweepPerOperation : ℕ := 8

def charge (key value : String) : ℕ :=
  saturatingAdd (saturatingAdd key.utf8ByteSize value.utf8ByteSize) entryOverheadBytes

namespace Namespace

def new (policy : NamespacePolicy) : Namespace :=
  { policy, entries := ∅, byAccess := ∅, byExpiry := ∅, bytes := 0 }

/-- Removes one entry and returns the bytes it released. -/
def remove (ns : Namespace) (key : String) : Namespace × Option ℕ :=
  match ns.entries[key]? with
  | none => (ns, none)
  | some entry =>
      let released := charge key entry.value
      ({ ns with
          entries := ns.entries.erase key
          byAccess := ns.byAccess.erase entry.stamp
          byExpiry := ns.byExpiry.erase (entry.expiresAtMillis, key)
          bytes := ns.bytes - released },
        some released)

/-- Removes the least recently used entry. -/
def evictOne (ns : Namespace) : Namespace × Option ℕ :=
  match ns.byAccess.toList.head? with
  | none => (ns, none)
  | some (_, key) => ns.remove key

/-- The loop of `sweep_expired`, with the removals that are left to it. -/
def sweep (nowMillis : ℕ) : ℕ → Namespace → Namespace × ℕ × ℕ
  | 0, ns => (ns, 0, 0)
  | left + 1, ns =>
      match ns.byExpiry.toList.head? with
      | none => (ns, 0, 0)
      | some ((expiresAt, key), _) =>
          if expiresAt > nowMillis then (ns, 0, 0)
          else
            let (removed, released) := ns.remove key
            let (swept, count, bytes) := sweep nowMillis left removed
            (swept, count + 1, bytes + released.getD 0)

/-- Removes some entries that have expired; returns how many and their bytes. -/
def sweepExpired (ns : Namespace) (nowMillis : ℕ) : Namespace × ℕ × ℕ :=
  sweep nowMillis maxSweepPerOperation ns

end Namespace

/-! ## The whole cache -/

structure State where
  namespaces : TreeMap String Namespace
  totalEntries : ℕ
  totalBytes : ℕ
  maxTotalEntries : ℕ
  maxTotalBytes : ℕ
  hits : ℕ
  misses : ℕ
  expirations : ℕ
  evictions : ℕ
  puts : ℕ
  deletes : ℕ

namespace State

def release (state : State) (entries bytes : ℕ) : State :=
  { state with
    totalEntries := state.totalEntries - entries
    totalBytes := state.totalBytes - bytes }

/-- Stores a changed namespace. -/
def setNamespace (state : State) (name : String) (ns : Namespace) : State :=
  { state with namespaces := state.namespaces.insert name ns }

/-- The oldest stamp of each namespace that has one. -/
def oldest (state : State) : List (ℕ × String) :=
  state.namespaces.toList.filterMap fun entry =>
    entry.2.byAccess.toList.head?.map fun access => (access.1, entry.1)

/-- Evicts the least recently used entry of all namespaces. -/
def evictGlobally (state : State) : State × Option ℕ :=
  match state.oldest.argmin Prod.fst with
  | none => (state, none)
  | some (_, name) =>
      match state.namespaces[name]? with
      | none => (state, none)
      | some ns =>
          let (ns, released) := ns.evictOne
          (state.setNamespace name ns, released)

/-- Entries of all namespaces, by which the eviction loop makes progress. -/
def live (state : State) : ℕ := total (fun _ ns => ns.entries.size) state.namespaces

end State

theorem Namespace.size_remove {ns : Namespace} {key : String} {released : ℕ}
    (hreleased : (ns.remove key).2 = some released) :
    (ns.remove key).1.entries.size + 1 = ns.entries.size := by
  unfold Namespace.remove at hreleased ⊢
  cases hentry : ns.entries[key]? with
  | none =>
    rw [hentry] at hreleased
    cases hreleased
  | some entry =>
    simp only []
    rw [← total_one_eq_size, ← total_one_eq_size, total_erase (fun _ _ => 1) hentry]
    omega

theorem Namespace.size_evictOne {ns : Namespace} {released : ℕ}
    (hreleased : ns.evictOne.2 = some released) :
    ns.evictOne.1.entries.size + 1 = ns.entries.size := by
  unfold Namespace.evictOne at hreleased ⊢
  split at hreleased
  · cases hreleased
  · exact Namespace.size_remove hreleased

theorem State.live_setNamespace {state : State} {name : String} {old : Namespace}
    (hold : state.namespaces[name]? = some old) (ns : Namespace) :
    (state.setNamespace name ns).live + old.entries.size = state.live + ns.entries.size :=
  total_insert_old (fun _ ns => ns.entries.size) hold ns

theorem State.live_evictGlobally {state : State} {released : ℕ}
    (hreleased : state.evictGlobally.2 = some released) :
    state.evictGlobally.1.live + 1 = state.live := by
  unfold State.evictGlobally at hreleased ⊢
  split at hreleased
  · cases hreleased
  · split at hreleased
    · cases hreleased
    · rename_i name _ ns hns
      have hsize := Namespace.size_evictOne hreleased
      have hlive := State.live_setNamespace hns ns.evictOne.1
      simp only []
      omega

/-! ## Operations -/

def notConfigured : Error := .ofNamespace "cache namespace is not configured"

def configuredReadOnly : Error := .ofNamespace "cache namespace is configured read only"

/-- The Unicode control characters (`char::is_control`). -/
def isControl (char : Char) : Bool :=
  char.toNat < 32 || (127 ≤ char.toNat && char.toNat < 160)

def validateKey (key : String) (maxKeyBytes : ℕ) : Except Error Unit :=
  if key.isEmpty then .error (.ofLimit "cache key must not be empty")
  else if key.utf8ByteSize > maxKeyBytes then
    .error (.ofLimit "cache key exceeds its configured byte bound")
  else if key.toList.any isControl then
    .error (.ofLimit "cache key must not contain control characters")
  else .ok ()

/-- Who is performing a cache write. -/
inductive Writer where
  | guest
  | host
  deriving DecidableEq, Repr

/-- Accounts for an evicted entry. -/
def State.noteEviction (state : State) (released : ℕ) : State :=
  { state.release 1 released with evictions := saturatingAdd state.evictions 1 }

/-- Evicts until an entry of the given charge fits both its namespace and the whole
cache: from its own namespace while that is full, and then the least recently used
entry anywhere. -/
def State.makeRoom (name : String) (charge : ℕ) (state : State) : Except Error Unit × State :=
  match _ : state.namespaces[name]? with
  | none => (.error notConfigured, state)
  | some ns =>
      if ns.entries.size < ns.policy.maxEntries ∧
          saturatingAdd ns.bytes charge ≤ ns.policy.maxBytes then
        if state.totalEntries < state.maxTotalEntries ∧
            saturatingAdd state.totalBytes charge ≤ state.maxTotalBytes then
          (.ok (), state)
        else
          match _ : state.evictGlobally.2 with
          | none => (.error (.ofLimit "cache entry cannot fit the whole-cache budget"), state)
          | some released => makeRoom name charge (state.evictGlobally.1.noteEviction released)
      else
        match _ : ns.evictOne.2 with
        | none => (.error (.ofLimit "cache entry cannot fit its namespace budget"), state)
        | some released =>
            makeRoom name charge ((state.setNamespace name ns.evictOne.1).noteEviction released)
termination_by state.live
decreasing_by
  · rename_i hreleased
    have hlive := State.live_evictGlobally hreleased
    simp only [State.noteEviction, State.live, State.release] at hlive ⊢
    omega
  · rename_i hns _ hreleased
    have hlive := State.live_setNamespace hns ns.evictOne.1
    have hsize := Namespace.size_evictOne hreleased
    simp only [State.noteEviction, State.live, State.release] at hlive ⊢
    omega

/-- Accounts for swept entries. -/
def State.noteSweep (state : State) (swept bytes : ℕ) : State :=
  { state.release swept bytes with expirations := saturatingAdd state.expirations swept }

/-- The deadline of a write, unless it overflows. -/
def deadline (ttlSeconds : ℤ) (nowMillis : ℕ) : Option ℕ :=
  if ttlSeconds < 0 ∨ (wordCount : ℤ) ≤ ttlSeconds then none
  else
    (Machine.checkedMul ttlSeconds.toNat 1000).bind fun millis =>
      Machine.checkedAdd nowMillis millis

/-- What a write checks before it touches any entry: the policy and the deadline. -/
def checkWrite (policy : NamespacePolicy) (key value : String) (ttlSeconds : ℤ) (nowMillis : ℕ)
    (writer : Writer) : Except Error ℕ := do
  if policy.mode = .readOnly ∧ writer = .guest then throw configuredReadOnly
  validateKey key policy.maxKeyBytes
  if value.utf8ByteSize > policy.maxValueBytes then
    throw (.ofLimit "cache value exceeds its configured byte bound")
  if ttlSeconds < minTtlSeconds ∨ ttlSeconds > policy.maxTtlSeconds then
    throw (.ofLimit "cache time to live is outside its configured bounds")
  Result.ofOption (.ofLimit "cache deadline overflowed") (deadline ttlSeconds nowMillis)

/-- Sweeps the namespace and drops the entry that the write replaces. -/
def State.clearFor (state : State) (name key : String) (ns : Namespace) (nowMillis : ℕ) : State :=
  let (swept, count, bytes) := ns.sweepExpired nowMillis
  let state := (state.setNamespace name swept).noteSweep count bytes
  match (swept.remove key).2 with
  | none => state
  | some released => (state.setNamespace name (swept.remove key).1).release 1 released

/-- A namespace with a new entry. -/
def Namespace.stored (ns : Namespace) (key value : String) (expiresAtMillis stamp : ℕ) :
    Namespace :=
  { ns with
    entries := ns.entries.insert key { value, expiresAtMillis, stamp }
    byAccess := ns.byAccess.insert stamp key
    byExpiry := ns.byExpiry.insert (expiresAtMillis, key) ()
    bytes := saturatingAdd ns.bytes (charge key value) }

/-- Stores a new entry that fits. -/
def State.store (state : State) (name key value : String) (expiresAtMillis stamp : ℕ)
    (ns : Namespace) : State :=
  { state.setNamespace name (ns.stored key value expiresAtMillis stamp) with
    totalEntries := saturatingAdd state.totalEntries 1
    totalBytes := saturatingAdd state.totalBytes (charge key value)
    puts := saturatingAdd state.puts 1 }

/-- The part of `write` under the lock. -/
def State.write (state : State) (name key value : String) (ttlSeconds : ℤ) (nowMillis : ℕ)
    (writer : Writer) (stamp : ℕ) : Except Error Unit × State :=
  match state.namespaces[name]? with
  | none => (.error notConfigured, state)
  | some ns =>
      match checkWrite ns.policy key value ttlSeconds nowMillis writer with
      | .error error => (.error error, state)
      | .ok expiresAtMillis =>
          match (state.clearFor name key ns nowMillis).makeRoom name (charge key value) with
          | (.error error, state) => (.error error, state)
          | (.ok (), state) =>
              match state.namespaces[name]? with
              | none => (.error notConfigured, state)
              | some ns => (.ok (), state.store name key value expiresAtMillis stamp ns)

/-- Moves an entry to the end of the access order. -/
def Namespace.refresh (ns : Namespace) (key : String) (entry : Entry) (stamp : ℕ) : Namespace :=
  { ns with
    byAccess := (ns.byAccess.erase entry.stamp).insert stamp key
    entries := ns.entries.insert key { entry with stamp } }

/-- The part of `get` under the lock. -/
def State.get (state : State) (name key : String) (nowMillis stamp : ℕ) :
    Except Error (Option String) × State :=
  match state.namespaces[name]? with
  | none => (.error notConfigured, state)
  | some ns =>
      match validateKey key ns.policy.maxKeyBytes with
      | .error error => (.error error, state)
      | .ok () =>
          match ns.entries[key]? with
          | none => (.ok none, { state with misses := saturatingAdd state.misses 1 })
          | some entry =>
              if entry.expiresAtMillis ≤ nowMillis then
                let state := (state.setNamespace name (ns.remove key).1).release 1
                  ((ns.remove key).2.getD 0)
                (.ok none,
                  { state with
                    expirations := saturatingAdd state.expirations 1
                    misses := saturatingAdd state.misses 1 })
              else
                (.ok (some entry.value),
                  { state.setNamespace name (ns.refresh key entry stamp) with
                    hits := saturatingAdd state.hits 1 })

def State.delete (state : State) (name key : String) : Except Error Unit × State :=
  match state.namespaces[name]? with
  | none => (.error notConfigured, state)
  | some ns =>
      if ns.policy.mode = .readOnly then (.error configuredReadOnly, state)
      else
        match validateKey key ns.policy.maxKeyBytes with
        | .error error => (.error error, state)
        | .ok () =>
            let state :=
              match (ns.remove key).2 with
              | none => state
              | some released =>
                  (state.setNamespace name (ns.remove key).1).release 1 released
            (.ok (), { state with deletes := saturatingAdd state.deletes 1 })

end Krit.Cache

namespace Krit

open Cache Std Machine

/-- A cache: its locked state and its stamp counter. -/
structure Cache where
  state : State
  stamp : ℕ

namespace Cache

def new (config : Config) : Except Error Cache := do
  config.validate
  pure
    { state :=
        { namespaces := config.namespaces.map fun _ policy => Namespace.new policy
          totalEntries := 0
          totalBytes := 0
          maxTotalEntries := config.maxTotalEntries
          maxTotalBytes := config.maxTotalBytes
          hits := 0
          misses := 0
          expirations := 0
          evictions := 0
          puts := 0
          deletes := 0 }
      stamp := 0 }

/-- The counter wraps at the end of the machine words. -/
def nextStamp (cache : Cache) : ℕ := (cache.stamp + 1) % wordCount

def get (cache : Cache) (name key : String) (nowMillis : ℕ) :
    Except Error (Option String) × Cache :=
  let (result, state) := cache.state.get name key nowMillis cache.nextStamp
  (result, { state, stamp := cache.nextStamp })

def write (cache : Cache) (name key value : String) (ttlSeconds : ℤ) (nowMillis : ℕ)
    (writer : Writer) : Except Error Unit × Cache :=
  let (result, state) :=
    cache.state.write name key value ttlSeconds nowMillis writer cache.nextStamp
  (result, { state, stamp := cache.nextStamp })

def put (cache : Cache) (name key value : String) (ttlSeconds : ℤ) (nowMillis : ℕ) :
    Except Error Unit × Cache :=
  cache.write name key value ttlSeconds nowMillis .guest

def seed (cache : Cache) (name key value : String) (ttlSeconds : ℤ) (nowMillis : ℕ) :
    Except Error Unit × Cache :=
  cache.write name key value ttlSeconds nowMillis .host

def delete (cache : Cache) (name key : String) : Except Error Unit × Cache :=
  let (result, state) := cache.state.delete name key
  (result, { cache with state })

/-! ## Runs -/

/-- One call, with arbitrary arguments. -/
inductive Operation where
  | get (name key : String) (nowMillis : ℕ)
  | put (name key value : String) (ttlSeconds : ℤ) (nowMillis : ℕ)
  | seed (name key value : String) (ttlSeconds : ℤ) (nowMillis : ℕ)
  | delete (name key : String)
  deriving DecidableEq, Repr

/-- What a call returns: a read gives a value, the others nothing. -/
inductive Outcome where
  | read (result : Except Error (Option String))
  | done (result : Except Error Unit)

def step (cache : Cache) : Operation → Outcome × Cache
  | .get name key now => ((.read (cache.get name key now).1), (cache.get name key now).2)
  | .put name key value ttl now =>
      (.done (cache.put name key value ttl now).1, (cache.put name key value ttl now).2)
  | .seed name key value ttl now =>
      (.done (cache.seed name key value ttl now).1, (cache.seed name key value ttl now).2)
  | .delete name key => (.done (cache.delete name key).1, (cache.delete name key).2)

/-- The cache after a sequence of calls. -/
def run (cache : Cache) (operations : List Operation) : Cache :=
  operations.foldl (fun cache operation => (cache.step operation).2) cache

end Cache

end Krit
