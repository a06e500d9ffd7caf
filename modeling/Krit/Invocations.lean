import Krit.Errors
import Krit.Lib.Overlay
import Krit.StoreRuns

/-!
# Invocations

An invocation works on one store.  It takes the revision of the store at its first
operation, stages its writes in an overlay, reads through the overlay or at that
revision, and commits what it has staged at the end.  An operation that fails may
leave the invocation changed: the operation is counted, and a write that exceeds the
byte limit of the transaction stays staged.

Statistics of operations are not modelled.
-/

namespace Krit.Durable

open Machine Std

def mapStateError (error : StateError) : RuntimeError :=
  match error.kind with
  | .database => .durableState error.message
  | .conflict | .limit => .stateConflict error.message
  | .replay => .replay error.message

/-! ## The configured stores -/

structure ResourceBinding (π : Type) where
  store : String
  policy : π

/-- The open stores with the queues and buckets that are bound to them. -/
structure DurableState where
  stores : Table String Store
  queues : TreeMap String (ResourceBinding QueuePolicy)
  buckets : TreeMap String (ResourceBinding BucketPolicy)

namespace DurableState

def binding (durable : DurableState) (name : String) : Except RuntimeError Store :=
  Result.ofOption (.authorization "durable state store is not configured")
    (durable.stores.find name)

def queue (durable : DurableState) (name : String) :
    Except RuntimeError (String × QueuePolicy) := do
  let binding ← Result.ofOption (.authorization "durable queue is not configured")
    durable.queues[name]?
  let _ ← durable.binding binding.store
  pure (binding.store, binding.policy)

def bucket (durable : DurableState) (name : String) :
    Except RuntimeError (String × BucketPolicy) := do
  let binding ← Result.ofOption (.authorization "durable object bucket is not configured")
    durable.buckets[name]?
  pure (binding.store, binding.policy)

def queuePolicies (durable : DurableState) : TreeMap String QueuePolicy :=
  durable.queues.map fun _ binding => binding.policy

def bucketPolicies (durable : DurableState) : TreeMap String BucketPolicy :=
  durable.buckets.map fun _ binding => binding.policy

/-- The stores with another state of one of them. -/
def setStore (durable : DurableState) (name : String) (store : Store) : DurableState :=
  { durable with stores := durable.stores.update (fun other _ => other == name) fun _ => store }

end DurableState

/-! ## One invocation -/

/-- The order of pairs of texts. -/
abbrev compareObjectKey : String × String → String × String → Ordering :=
  compareLex (compareOn Prod.fst) (compareOn Prod.snd)

instance : LawfulEqCmp compareObjectKey where
  eq_of_compare := by
    intro left right hcompare
    simp only [compareLex, compareOn, Ordering.then_eq_eq] at hcompare
    exact Prod.ext (LawfulEqCmp.eq_of_compare hcompare.1) (LawfulEqCmp.eq_of_compare hcompare.2)

/-- The store of an invocation with what is staged for it. -/
structure ActiveStore where
  name : String
  revision : ℕ
  values : TreeMap String (Option Bytes)
  checkpoints : TreeMap String Bytes
  objects : TreeMap (String × String) (Option Bytes) compareObjectKey
  publishes : List (String × Identity × Bytes)

structure InvocationState where
  active : Option ActiveStore
  operations : ℕ

def InvocationState.new : InvocationState := { active := none, operations := 0 }

/-- The bytes of a text. -/
def textBytes (text : String) : Bytes := text.toUTF8.data.toList

/-- `String::from_utf8` on a value that was read. -/
def decodeValue (message : String) : Option Bytes → Except RuntimeError (Option String)
  | none => pure none
  | some bytes => do
      let text ← Result.ofOption (.durableState message) (String.fromUTF8? ⟨bytes.toArray⟩)
      pure (some text)

/-- `validate_key_value` and `validate_object_key_value`: a key and a value within their
bounds. -/
def validateEntry (maxKeyBytes maxValueBytes : ℕ) (keyMessage valueMessage key : String)
    (value : Option Bytes) : Except RuntimeError Unit := do
  Result.ensure (validText key maxKeyBytes) (.stateConflict keyMessage)
  Result.ensure (value.all fun value => value.length ≤ maxValueBytes) (.stateConflict valueMessage)

def validateKeyValue (limits : StoreLimits) : String → Option Bytes → Except RuntimeError Unit :=
  validateEntry limits.maxKeyBytes limits.maxValueBytes
    "durable state key is invalid or exceeds its configured limit"
    "durable state value exceeds its configured limit"

def validateObjectKeyValue (policy : BucketPolicy) :
    String → Option Bytes → Except RuntimeError Unit :=
  validateEntry policy.maxKeyBytes policy.maxObjectBytes
    "durable object key is invalid or exceeds its configured limit"
    "durable object value exceeds its configured limit"

/-- The mutation of a staged value. -/
def valueMutation : String × Option Bytes → Mutation
  | (key, some value) => .put key value
  | (key, none) => .delete key

/-- The mutation of a staged object. -/
def objectMutation : (String × String) × Option Bytes → Mutation
  | ((bucket, key), some value) => .objectPut bucket key value
  | ((bucket, key), none) => .objectDelete bucket key

namespace ActiveStore

def start (name : String) (revision : ℕ) : ActiveStore :=
  { name, revision, values := ∅, checkpoints := ∅, objects := ∅, publishes := [] }

/-- The byte counts that the staged values and checkpoints add up to. -/
def stagedBytes (active : ActiveStore) : List ℕ :=
  (active.values.toList.map fun entry =>
      entry.1.utf8ByteSize + (entry.2.map List.length).getD 0) ++
    active.checkpoints.toList.map fun entry => entry.1.utf8ByteSize + entry.2.length

def validateStaged (active : ActiveStore) (limits : StoreLimits) : Except RuntimeError Unit := do
  let bytes ← Result.ofOption (.stateConflict "staged state byte count overflowed")
    (active.stagedBytes.foldlM Machine.checkedAdd 0)
  Result.ensure (bytes ≤ limits.maxTransactionBytes)
    (.stateConflict "staged state exceeds the configured transaction byte limit")

/-- What is staged, in the order of its commit. -/
def mutations (active : ActiveStore) : List Mutation :=
  active.values.toList.map valueMutation ++
    (active.checkpoints.toList.map fun entry => .checkpointPut entry.1 entry.2) ++
    active.objects.toList.map objectMutation ++
    active.publishes.map fun entry => .queuePublish entry.1 entry.2.1 entry.2.2

end ActiveStore

namespace InvocationState

/-- The active store, which is taken at its revision if there is none yet. -/
def activateChecked (state : InvocationState) (store : Store) (name : String) :
    Except RuntimeError ActiveStore × InvocationState :=
  match state.active with
  | some active =>
      if active.name ≠ name then
        (.error (.stateConflict "one invocation cannot transact across multiple durable stores"),
          state)
      else (.ok active, state)
  | none =>
      (.ok (.start name store.revision),
        { state with active := some (.start name store.revision) })

/-- Counts an operation on a store, which becomes the active one. -/
def recordOperation (state : InvocationState) (durable : DurableState) (name : String) :
    Except RuntimeError (Store × ActiveStore) × InvocationState :=
  match durable.binding name with
  | .error error => (.error error, state)
  | .ok store =>
      match Machine.checkedAdd state.operations 1 with
      | none => (.error (.stateConflict "state operation count overflowed"), state)
      | some next =>
          if next > store.limits.maxOperations then
            (.error (.stateConflict "state operation count exceeds the configured limit"), state)
          else
            let (active, state) :=
              activateChecked { state with operations := next } store name
            (active.map fun active => (store, active), state)

/-- A read: what is staged, or what the store has at the revision of the invocation. -/
def read (state : InvocationState) (durable : DurableState) (name : String)
    (staged : ActiveStore → Option (Option Bytes))
    (stored : Store → ℕ → Except StateError (Option Bytes)) (message : String) :
    Except RuntimeError (Option String) × InvocationState :=
  match state.recordOperation durable name with
  | (.error error, state) => (.error error, state)
  | (.ok (store, active), state) =>
      let value : Except RuntimeError (Option Bytes) :=
        match staged active with
        | some value => pure value
        | none => (stored store active.revision).mapError mapStateError
      (value >>= decodeValue message, state)

/-- A write that passes its check is staged, and stays so if it exceeds the limit of the
transaction. -/
def stage (state : InvocationState) (durable : DurableState) (name : String)
    (check : Store → ActiveStore → Except RuntimeError Unit) (change : ActiveStore → ActiveStore) :
    Except RuntimeError (Option String) × InvocationState :=
  match state.recordOperation durable name with
  | (.error error, state) => (.error error, state)
  | (.ok (store, active), state) =>
      match check store active with
      | .error error => (.error error, state)
      | .ok () =>
          (((change active).validateStaged store.limits).map fun _ => none,
            { state with active := some (change active) })

end InvocationState

/-! ## Operations -/

inductive Operation where
  | bind (store : String)
  | replayBinding (store : String)
  | get (store key : String)
  | put (store key value : String)
  | delete (store key : String)
  | checkpointGet (store name : String)
  | checkpointPut (store name value : String)
  | objectGet (bucket key : String)
  | objectPut (bucket key value : String)
  | objectDelete (bucket key : String)
  | queuePublish (queue body : String) (id : Identity)
  deriving DecidableEq, Repr

namespace InvocationState

def bind (state : InvocationState) (durable : DurableState) (name : String) :
    Except RuntimeError (Option String) × InvocationState :=
  match durable.binding name with
  | .error error => (.error error, state)
  | .ok store =>
      let (active, state) := state.activateChecked store name
      (active.map fun _ => none, state)

def replayBinding (state : InvocationState) (durable : DurableState) (name : String) :
    Except RuntimeError (Option String) × InvocationState :=
  let (active, state) := state.recordOperation durable name
  (active.map fun _ => none, state)

def get (state : InvocationState) (durable : DurableState) (store key : String) :
    Except RuntimeError (Option String) × InvocationState :=
  state.read durable store (fun active => active.values[key]?)
    (fun store revision => store.getAtRevision key revision) "durable state value is not UTF-8"

def put (state : InvocationState) (durable : DurableState) (store key value : String) :
    Except RuntimeError (Option String) × InvocationState :=
  state.stage durable store
    (fun store _ => validateKeyValue store.limits key (some (textBytes value)))
    fun active => { active with values := active.values.insert key (some (textBytes value)) }

def delete (state : InvocationState) (durable : DurableState) (store key : String) :
    Except RuntimeError (Option String) × InvocationState :=
  state.stage durable store (fun store _ => validateKeyValue store.limits key none)
    fun active => { active with values := active.values.insert key none }

def checkpointGet (state : InvocationState) (durable : DurableState) (store name : String) :
    Except RuntimeError (Option String) × InvocationState :=
  state.read durable store (fun active => (active.checkpoints[name]?).map some)
    (fun store revision => store.checkpointAtRevision name revision)
    "durable checkpoint value is not UTF-8"

def checkpointPut (state : InvocationState) (durable : DurableState) (store name value : String) :
    Except RuntimeError (Option String) × InvocationState :=
  state.stage durable store
    (fun store _ => validateKeyValue store.limits name (some (textBytes value)))
    fun active => { active with checkpoints := active.checkpoints.insert name (textBytes value) }

def objectGet (state : InvocationState) (durable : DurableState) (bucket key : String) :
    Except RuntimeError (Option String) × InvocationState :=
  match durable.bucket bucket with
  | .error error => (.error error, state)
  | .ok (store, _) =>
      state.read durable store (fun active => active.objects[(bucket, key)]?)
        (fun store revision => store.objectAtRevision bucket key revision)
        "durable object is not UTF-8"

def objectPut (state : InvocationState) (durable : DurableState) (bucket key value : String) :
    Except RuntimeError (Option String) × InvocationState :=
  match durable.bucket bucket with
  | .error error => (.error error, state)
  | .ok (store, policy) =>
      state.stage durable store
        (fun _ _ => validateObjectKeyValue policy key (some (textBytes value)))
        fun active =>
          { active with objects := active.objects.insert (bucket, key) (some (textBytes value)) }

def objectDelete (state : InvocationState) (durable : DurableState) (bucket key : String) :
    Except RuntimeError (Option String) × InvocationState :=
  match durable.bucket bucket with
  | .error error => (.error error, state)
  | .ok (store, policy) =>
      state.stage durable store (fun _ _ => validateObjectKeyValue policy key none)
        fun active => { active with objects := active.objects.insert (bucket, key) none }

/-- Depth is a bound of one queue: publications to other queues do not count. -/
def queuePublish (state : InvocationState) (durable : DurableState) (queue body : String)
    (id : Identity) : Except RuntimeError (Option String) × InvocationState :=
  match durable.queue queue with
  | .error error => (.error error, state)
  | .ok (store, policy) =>
      state.stage durable store
        (fun _ active => do
          Result.ensure (body.utf8ByteSize ≤ policy.maxJobBytes)
            (.stateConflict "durable queue job exceeds its configured byte limit")
          Result.ensure
            ((active.publishes.filter fun entry => entry.1 == queue).length < policy.maxDepth)
            (.stateConflict "durable queue publishes exceed the configured depth"))
        fun active =>
          { active with publishes := active.publishes ++ [(queue, id, textBytes body)] }

/-- An operation of a guest: its answer, and the invocation after it. -/
def perform (durable : DurableState) (state : InvocationState) :
    Operation → Except RuntimeError (Option String) × InvocationState
  | .bind store => state.bind durable store
  | .replayBinding store => state.replayBinding durable store
  | .get store key => state.get durable store key
  | .put store key value => state.put durable store key value
  | .delete store key => state.delete durable store key
  | .checkpointGet store name => state.checkpointGet durable store name
  | .checkpointPut store name value => state.checkpointPut durable store name value
  | .objectGet bucket key => state.objectGet durable bucket key
  | .objectPut bucket key value => state.objectPut durable bucket key value
  | .objectDelete bucket key => state.objectDelete durable bucket key
  | .queuePublish queue body id => state.queuePublish durable queue body id

/-- Commits what is staged and the acknowledgement of a delivery in one transaction.  The
active store is given up whether or not the transaction succeeds. -/
def commitOutcome (state : InvocationState) (durable : DurableState)
    (completion : Option Completion) (nowMillis : ℤ) :
    Except RuntimeError DurableState × InvocationState :=
  match state.active with
  | none =>
      if completion.isSome then
        (.error (.delivery "delivery acknowledgement has no active durable store"), state)
      else (.ok durable, state)
  | some active =>
      let state := { state with active := none }
      if active.mutations.isEmpty && completion.isNone then (.ok durable, state)
      else
        let committed : Except RuntimeError DurableState := do
          -- the invocation holds its store, which is therefore among the open ones
          let store ← durable.binding active.name
          let (_, next) ← (store.commitPlan
            { expectedRevision := active.revision
              mutations := active.mutations
              queues := durable.queuePolicies
              buckets := durable.bucketPolicies
              nowMillis
              completion }).mapError mapStateError
          pure (durable.setStore active.name next)
        (committed, state)

end InvocationState

end Krit.Durable
