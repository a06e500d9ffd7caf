import Krit.Basic
import Krit.Lib.Machine
import Krit.Lib.Result
import Krit.Lib.Table

/-!
# The durable store

The tables of a store, the limits that guard them, and the transaction that commits
the outcome of an invocation.  A transaction is immediate, so transactions are
serialized, and it is atomic: one that fails gives an error and no store, and its
caller keeps the store it had.  Failures of the database itself are not modelled,
except where a checked integer leaves its column.

A 16-byte identity is a 128-bit word, a byte string is a list of bytes, and a signed
64-bit column is an integer whose overflow is checked where the source checks it.
-/

namespace Krit.Durable

open Machine Std

abbrev Bytes := List UInt8

/-- A job identity or the owner of a lease. -/
abbrev Identity := BitVec 128

inductive StateErrorKind where
  | database
  | conflict
  | limit
  | replay
  deriving DecidableEq, Repr

structure StateError where
  kind : StateErrorKind
  message : String
  deriving DecidableEq, Repr

def StateError.database (message : String) : StateError := ⟨.database, message⟩

def StateError.conflict (message : String) : StateError := ⟨.conflict, message⟩

def StateError.limit (message : String) : StateError := ⟨.limit, message⟩

def StateError.replay (message : String) : StateError := ⟨.replay, message⟩

def databaseOperationFailed : StateError := .database "durable database operation failed"

/-! ## Durations and instants -/

structure Duration where
  nanos : ℕ
  deriving DecidableEq, Repr

namespace Duration

def fromMillis (millis : ℕ) : Duration := ⟨millis * 1000000⟩

def fromSecs (secs : ℕ) : Duration := ⟨secs * 1000000000⟩

def asMillis (duration : Duration) : ℕ := duration.nanos / 1000000

/-- The longest duration: all seconds of a word, and a fraction. -/
def maxNanos : ℕ := (wordCount - 1) * 1000000000 + 999999999

def saturatingMul (duration : Duration) (factor : ℕ) : Duration :=
  ⟨min (duration.nanos * factor) maxNanos⟩

end Duration

/-- Whole milliseconds, at least one and at most the maximum. -/
def validMillis (duration maximum : Duration) : Bool :=
  1000000 ≤ duration.nanos && duration.nanos ≤ maximum.nanos && duration.nanos % 1000000 == 0

def checkedDeadline (nowMillis : ℤ) (duration : Duration) : Except StateError ℤ := do
  let millis ← Result.ofOption (.limit "durable deadline exceeds i64")
    (i64TryFrom duration.asMillis)
  Result.ofOption (.limit "durable deadline overflowed") (i64TryFrom (nowMillis + millis))

/-- `usize_of`: a negative column counts as zero. -/
def usizeOf (value : ℤ) : ℕ := value.toNat

/-! ## Limits and policies -/

def maxResourceNameBytes : ℕ := 64

def minimumDatabaseBytes : ℕ := 1024 * 1024

def maxStateOperations : ℕ := 1024

def maxStateKeyBytes : ℕ := 4 * 1024

def maxStateValueBytes : ℕ := 1024 * 1024

def maxStateTransactionBytes : ℕ := 16 * 1024 * 1024

def maxStateDatabaseBytes : ℕ := 1024 * 1024 * 1024

def maxStateBusyTimeout : Duration := .fromSecs 5

def maxReplayEntries : ℕ := 65536

def maxReplayBytes : ℕ := 256 * 1024 * 1024

structure StoreLimits where
  busyTimeout : Duration
  maxOperations : ℕ
  maxKeyBytes : ℕ
  maxValueBytes : ℕ
  maxTransactionBytes : ℕ
  maxDatabaseBytes : ℕ
  maxReplayEntries : ℕ
  maxReplayBytes : ℕ
  deriving DecidableEq, Repr

/-- `(1..=maximum).contains(&value)`. -/
def within (value maximum : ℕ) : Bool := 1 ≤ value && value ≤ maximum

def StoreLimits.validate (limits : StoreLimits) : Except StateError Unit :=
  Result.ensure
    (validMillis limits.busyTimeout maxStateBusyTimeout &&
      within limits.maxOperations maxStateOperations &&
      within limits.maxKeyBytes maxStateKeyBytes &&
      within limits.maxValueBytes maxStateValueBytes &&
      within limits.maxTransactionBytes maxStateTransactionBytes &&
      (minimumDatabaseBytes ≤ limits.maxDatabaseBytes &&
        limits.maxDatabaseBytes ≤ maxStateDatabaseBytes) &&
      within limits.maxReplayEntries Durable.maxReplayEntries &&
      within limits.maxReplayBytes Durable.maxReplayBytes)
    (.limit "durable store limits are invalid")

def maxQueues : ℕ := 16

def maxBuckets : ℕ := 16

def maxQueueDepth : ℕ := 65536

def maxQueueJobBytes : ℕ := 1024 * 1024

def maxQueueBytes : ℕ := 256 * 1024 * 1024

def maxDeliveryAttempts : ℕ := 16

def maxDeliveryLease : Duration := .fromSecs (5 * 60)

def maxDeliveryBackoff : Duration := .fromSecs (60 * 60)

def maxDeadLetterEntries : ℕ := 4096

def maxDeadLetterRetention : Duration := .fromSecs (30 * 24 * 60 * 60)

def maxBucketObjects : ℕ := 65536

def maxObjectKeyBytes : ℕ := 1024

def maxObjectBytes : ℕ := 4 * 1024 * 1024

def maxBucketBytes : ℕ := 1024 * 1024 * 1024

structure QueuePolicy where
  maxDepth : ℕ
  maxJobBytes : ℕ
  maxQueueBytes : ℕ
  maxAttempts : ℕ
  lease : Duration
  backoff : Duration
  maxBackoff : Duration
  deadLetterMaxEntries : ℕ
  deadLetterTtl : Duration
  deriving DecidableEq, Repr

def QueuePolicy.validate (policy : QueuePolicy) : Except StateError Unit :=
  Result.ensure
    (within policy.maxDepth maxQueueDepth &&
      within policy.maxJobBytes maxQueueJobBytes &&
      (policy.maxJobBytes ≤ policy.maxQueueBytes &&
        policy.maxQueueBytes ≤ Durable.maxQueueBytes) &&
      within policy.maxAttempts maxDeliveryAttempts &&
      validMillis policy.lease maxDeliveryLease &&
      validMillis policy.backoff maxDeliveryBackoff &&
      policy.backoff.nanos ≤ policy.maxBackoff.nanos &&
      validMillis policy.maxBackoff maxDeliveryBackoff &&
      within policy.deadLetterMaxEntries maxDeadLetterEntries &&
      validMillis policy.deadLetterTtl maxDeadLetterRetention)
    (.limit "durable queue policy is invalid")

structure BucketPolicy where
  maxObjects : ℕ
  maxKeyBytes : ℕ
  maxObjectBytes : ℕ
  maxBucketBytes : ℕ
  deriving DecidableEq, Repr

def BucketPolicy.validate (policy : BucketPolicy) : Except StateError Unit :=
  Result.ensure
    (within policy.maxObjects maxBucketObjects &&
      within policy.maxKeyBytes maxObjectKeyBytes &&
      within policy.maxObjectBytes Durable.maxObjectBytes &&
      (policy.maxObjectBytes ≤ policy.maxBucketBytes &&
        policy.maxBucketBytes ≤ Durable.maxBucketBytes))
    (.limit "durable bucket policy is invalid")

/-! ## Tables -/

structure ObjectRow where
  value : Bytes
  sizeBytes : ℤ
  updatedAt : ℤ
  deriving DecidableEq, Repr

structure JobRow where
  queue : String
  sequence : ℤ
  body : Bytes
  attempts : ℤ
  visibleAt : ℤ
  leaseUntil : Option ℤ
  owner : Option Identity
  sizeBytes : ℤ
  enqueuedAt : ℤ
  deriving DecidableEq, Repr

structure DeadRow where
  queue : String
  sequence : ℤ
  body : Bytes
  attempts : ℤ
  reason : String
  sizeBytes : ℤ
  failedAt : ℤ
  deriving DecidableEq, Repr

inductive FireStatus where
  | pending
  | completed
  | dead
  deriving DecidableEq, Repr

structure FireRow where
  status : FireStatus
  attempts : ℤ
  visibleAt : ℤ
  leaseUntil : Option ℤ
  owner : Option Identity
  updatedAt : ℤ
  deriving DecidableEq, Repr

structure CursorRow where
  lastDueAt : ℤ
  updatedAt : ℤ
  deriving DecidableEq, Repr

inductive RetainedStatus where
  | undecided
  | completed
  deriving DecidableEq, Repr

/-- A replay or idempotency record; both tables have the same columns. -/
structure RetainedRow where
  digest : Bytes
  status : RetainedStatus
  owner : Option Bytes
  leaseUntil : Option ℤ
  result : Option Bytes
  expiresAt : Option ℤ
  lastUsed : ℤ
  sizeBytes : ℤ
  deriving DecidableEq, Repr

inductive ReplayKind where
  | http
  | ai
  deriving DecidableEq, Repr

/-- A store: its limits, the counters of `meta`, and its tables. -/
structure Store where
  limits : StoreLimits
  revision : ℕ
  sequence : ℤ
  kv : Table String Bytes
  checkpoints : Table String Bytes
  objects : Table (String × String) ObjectRow
  queueJobs : Table Identity JobRow
  queueDead : Table Identity DeadRow
  scheduleFires : Table (String × ℤ) FireRow
  scheduleCursors : Table String CursorRow
  replay : Table (Bytes × ReplayKind × String) RetainedRow
  idempotency : Table (Bytes × String) RetainedRow

/-- A new store. -/
def Store.open (limits : StoreLimits) : Store :=
  { limits
    revision := 0
    sequence := 0
    kv := .empty
    checkpoints := .empty
    objects := .empty
    queueJobs := .empty
    queueDead := .empty
    scheduleFires := .empty
    scheduleCursors := .empty
    replay := .empty
    idempotency := .empty }

def Store.nextSequence (store : Store) : Except StateError (ℤ × Store) := do
  let sequence ← Result.ofOption databaseOperationFailed (i64TryFrom (store.sequence + 1))
  pure (sequence, { store with sequence })

/-! ## Mutations -/

inductive Mutation where
  | put (key : String) (value : Bytes)
  | delete (key : String)
  | checkpointPut (name : String) (value : Bytes)
  | objectPut (bucket key : String) (value : Bytes)
  | objectDelete (bucket key : String)
  | queuePublish (queue : String) (id : Identity) (body : Bytes)
  deriving DecidableEq, Repr

/-- Queue publications neither read nor advance the revision. -/
def Mutation.advancesRevision : Mutation → Bool
  | .put _ _ | .delete _ | .checkpointPut _ _ | .objectPut _ _ _ | .objectDelete _ _ => true
  | .queuePublish _ _ _ => false

/-- A text that is not empty, not too long and without a zero character. -/
def validText (text : String) (maxBytes : ℕ) : Bool :=
  !text.isEmpty && text.utf8ByteSize ≤ maxBytes && !text.toList.contains '\x00'

def validateKey (key : String) (limits : StoreLimits) : Except StateError Unit :=
  Result.ensure (validText key limits.maxKeyBytes)
    (.limit "durable state key is invalid or too large")

def validateIdentity (value : String) (maxBytes : ℕ) : Except StateError Unit :=
  Result.ensure (validText value maxBytes)
    (.limit "durable record identity is invalid or too large")

def validateValue (value : Bytes) (limits : StoreLimits) : Except StateError Unit :=
  Result.ensure (value.length ≤ limits.maxValueBytes)
    (.limit "durable state value exceeds its limit")

/-- Adds byte counts to a total, checking each addition. -/
def addBytes (total : ℕ) (counts : List ℕ) : Except StateError ℕ :=
  counts.foldlM
    (fun total count =>
      Result.ofOption (.limit "durable transaction byte count overflowed")
        (Machine.checkedAdd total count))
    total

/-- The check of one mutation, which adds its bytes to the total. -/
def validateMutation (limits : StoreLimits) (total : ℕ) : Mutation → Except StateError ℕ
  | .put key value => do
      validateKey key limits
      validateValue value limits
      addBytes total [key.utf8ByteSize, value.length]
  | .delete key => do
      validateKey key limits
      addBytes total [key.utf8ByteSize]
  | .checkpointPut name value => do
      validateKey name limits
      validateValue value limits
      addBytes total [name.utf8ByteSize, value.length]
  | .objectPut bucket key value => do
      validateIdentity bucket maxResourceNameBytes
      validateKey key limits
      addBytes total [bucket.utf8ByteSize, key.utf8ByteSize, value.length]
  | .objectDelete bucket key => do
      validateIdentity bucket maxResourceNameBytes
      validateKey key limits
      addBytes total [bucket.utf8ByteSize, key.utf8ByteSize]
  | .queuePublish queue _ body => do
      validateIdentity queue maxResourceNameBytes
      addBytes total [queue.utf8ByteSize, body.length]

def validateMutations (mutations : List Mutation) (limits : StoreLimits) :
    Except StateError Unit := do
  Result.ensure (mutations.length ≤ limits.maxOperations)
    (.limit "durable state operation count exceeds its limit")
  let total ← mutations.foldlM (validateMutation limits) 0
  Result.ensure (total ≤ limits.maxTransactionBytes)
    (.limit "durable transaction bytes exceed their limit")

/-- `COUNT(*), COALESCE(SUM(size_bytes), 0)` over some sizes. -/
def countAndSum (sizes : List ℤ) : Except StateError (ℤ × ℤ) := do
  let bytes ← Result.ofOption databaseOperationFailed (i64TryFrom sizes.sum)
  pure (sizes.length, bytes)

/-- `i64::try_from` on the length of a value. -/
def sizeColumn (value : Bytes) (message : String) : Except StateError ℤ :=
  Result.ofOption (.limit message) (i64TryFrom value.length)

theorem countAndSum_eq_ok {sizes : List ℤ} {count bytes : ℤ}
    (hcount : countAndSum sizes = .ok (count, bytes)) :
    count = sizes.length ∧ bytes = sizes.sum ∧ i64Min ≤ bytes ∧ bytes ≤ i64Max := by
  unfold countAndSum at hcount
  simp only [Result.bind_eq_ok, Result.ofOption_eq_ok, Result.pure_eq_ok, Prod.mk.injEq] at hcount
  obtain ⟨found, hfound, hlength, hbytes⟩ := hcount
  subst hbytes
  have hbounds := i64TryFrom_bounds hfound
  have hexact := i64TryFrom_eq_some hfound
  rw [hexact]
  exact ⟨hlength.symm, rfl, hbounds.1, hbounds.2⟩

theorem sizeColumn_eq_ok {value : Bytes} {message : String} {size : ℤ}
    (hsize : sizeColumn value message = .ok size) : size = (value.length : ℤ) := by
  unfold sizeColumn at hsize
  rw [Result.ofOption_eq_ok] at hsize
  exact i64TryFrom_eq_some hsize

namespace Store

def objectSizes (store : Store) (bucket : String) : List ℤ :=
  (store.objects.select fun key _ => key.1 == bucket).map fun entry => entry.2.sizeBytes

def queueSizes (store : Store) (queue : String) : List ℤ :=
  (store.queueJobs.select fun _ row => row.queue == queue).map fun entry => entry.2.sizeBytes

def putObject (store : Store) (policy : BucketPolicy) (bucket key : String) (value : Bytes)
    (nowMillis : ℤ) : Except StateError Store := do
  Result.ensure (key.utf8ByteSize ≤ policy.maxKeyBytes && value.length ≤ policy.maxObjectBytes)
    (.limit "durable object key or value exceeds its bucket bound")
  let previous := (store.objects.find (bucket, key)).map ObjectRow.sizeBytes
  let (count, bytes) ← countAndSum (store.objectSizes bucket)
  Result.ensure (previous.isSome || usizeOf count < policy.maxObjects)
    (.limit "durable object count exceeds its bucket bound")
  let retained ← Result.ofOption (.limit "durable object accounting overflowed")
    (if usizeOf (previous.getD 0) ≤ usizeOf bytes then
      Machine.checkedAdd (usizeOf bytes - usizeOf (previous.getD 0)) value.length
    else none)
  Result.ensure (retained ≤ policy.maxBucketBytes)
    (.limit "durable object bytes exceed their bucket bound")
  let sizeBytes ← sizeColumn value "durable object size exceeds SQLite"
  let row : ObjectRow := { value, sizeBytes, updatedAt := nowMillis }
  pure { store with objects := store.objects.upsert (bucket, key) row fun _ => row }

def publish (store : Store) (policy : QueuePolicy) (queue : String) (id : Identity) (body : Bytes)
    (nowMillis : ℤ) : Except StateError Store := do
  Result.ensure (body.length ≤ policy.maxJobBytes)
    (.limit "durable queue job exceeds its byte bound")
  let (count, bytes) ← countAndSum (store.queueSizes queue)
  Result.ensure (usizeOf count < policy.maxDepth) (.limit "durable queue depth is exhausted")
  Result.ensure ((Machine.checkedAdd (usizeOf bytes) body.length).any (· ≤ policy.maxQueueBytes))
    (.limit "durable queue bytes exceed their bound")
  let (sequence, store) ← store.nextSequence
  let sizeBytes ← sizeColumn body "durable queue job size exceeds SQLite"
  Result.ensure (store.queueJobs.find id).isNone
    (.conflict "durable queue job identity is already present")
  pure
    { store with
      queueJobs := store.queueJobs.insert id
        { queue
          sequence
          body
          attempts := 0
          visibleAt := nowMillis
          leaseUntil := none
          owner := none
          sizeBytes
          enqueuedAt := nowMillis } }

def applyMutation (queues : TreeMap String QueuePolicy) (buckets : TreeMap String BucketPolicy)
    (nowMillis : ℤ) (store : Store) : Mutation → Except StateError Store
  | .put key value => pure { store with kv := store.kv.upsert key value fun _ => value }
  | .delete key => pure { store with kv := store.kv.delete fun other _ => other == key }
  | .checkpointPut name value =>
      pure { store with checkpoints := store.checkpoints.upsert name value fun _ => value }
  | .objectPut bucket key value => do
      let policy ← Result.ofOption (.limit "durable object bucket is not configured")
        buckets[bucket]?
      store.putObject policy bucket key value nowMillis
  | .objectDelete bucket key => do
      Result.ensure (buckets.contains bucket) (.limit "durable object bucket is not configured")
      pure { store with objects := store.objects.delete fun other _ => other == (bucket, key) }
  | .queuePublish queue id body => do
      let policy ← Result.ofOption (.limit "durable queue is not configured") queues[queue]?
      store.publish policy queue id body nowMillis

end Store

/-! ## Commits -/

structure JobLease where
  id : Identity
  queue : String
  owner : Identity
  deriving DecidableEq, Repr

structure FireLease where
  schedule : String
  dueAtMillis : ℤ
  owner : Identity
  deriving DecidableEq, Repr

inductive Completion where
  | job (lease : JobLease)
  | fire (lease : FireLease)
  deriving DecidableEq, Repr

/-- Staged mutations and an acknowledgement that commit or roll back together. -/
structure CommitPlan where
  expectedRevision : ℕ
  mutations : List Mutation
  queues : TreeMap String QueuePolicy
  buckets : TreeMap String BucketPolicy
  nowMillis : ℤ
  completion : Option Completion

/-- Whether a lease still owns its job. -/
def JobLease.owns (lease : JobLease) (id : Identity) (row : JobRow) : Bool :=
  id == lease.id && row.queue == lease.queue && row.owner == some lease.owner

theorem JobLease.owns_iff {lease : JobLease} {id : Identity} {row : JobRow} :
    lease.owns id row = true ↔
      id = lease.id ∧ row.queue = lease.queue ∧ row.owner = some lease.owner := by
  unfold JobLease.owns
  simp [and_assoc]

theorem JobLease.owns_id {lease : JobLease} (id : Identity) (row : JobRow)
    (howns : lease.owns id row = true) : id = lease.id :=
  (JobLease.owns_iff.mp howns).1

/-- Whether a lease still owns its pending fire. -/
def FireLease.owns (lease : FireLease) (key : String × ℤ) (row : FireRow) : Bool :=
  key == (lease.schedule, lease.dueAtMillis) && row.status == .pending &&
    row.owner == some lease.owner

namespace Store

/-- Acknowledges a delivery: one row must change. -/
def complete (store : Store) (nowMillis : ℤ) : Option Completion → Except StateError Store
  | none => pure store
  | some (.job lease) => do
      Result.ensure ((store.queueJobs.select lease.owns).length == 1)
        (.conflict "durable queue lease is stale or not owned")
      pure { store with queueJobs := store.queueJobs.delete lease.owns }
  | some (.fire lease) => do
      Result.ensure ((store.scheduleFires.select lease.owns).length == 1)
        (.conflict "durable schedule lease is stale or not owned")
      pure
        { store with
          scheduleFires := store.scheduleFires.update lease.owns fun row =>
            { row with
              status := .completed
              owner := none
              leaseUntil := none
              updatedAt := nowMillis } }

/-- The next revision, which must fit its column. -/
def advance (store : Store) : Except StateError (ℕ × Store) := do
  let next ← Result.ofOption (.limit "durable state revision overflowed")
    (Machine.checkedAdd store.revision 1)
  let _ ← Result.ofOption (.limit "durable state revision exceeds SQLite") (i64TryFrom next)
  pure (next, { store with revision := next })

def commitPlan (store : Store) (plan : CommitPlan) : Except StateError (ℕ × Store) := do
  validateMutations plan.mutations store.limits
  Result.ensure (plan.queues.size ≤ maxQueues && plan.buckets.size ≤ maxBuckets)
    (.limit "configured queues or buckets exceed the protocol bounds")
  Result.forEach QueuePolicy.validate (plan.queues.toList.map Prod.snd)
  Result.forEach BucketPolicy.validate (plan.buckets.toList.map Prod.snd)
  let revisionSensitive := plan.mutations.any Mutation.advancesRevision
  Result.ensure (!revisionSensitive || store.revision == plan.expectedRevision)
    (.conflict "durable state revision changed before commit")
  let applied ← plan.mutations.foldlM (applyMutation plan.queues plan.buckets plan.nowMillis) store
  let completed ← applied.complete plan.nowMillis plan.completion
  if revisionSensitive then completed.advance else pure (store.revision, completed)

/-! ## Reads -/

def getAtRevision (store : Store) (key : String) (expectedRevision : ℕ) :
    Except StateError (Option Bytes) := do
  validateKey key store.limits
  Result.ensure (store.revision == expectedRevision)
    (.conflict "durable state revision changed before read")
  pure (store.kv.find key)

def checkpointAtRevision (store : Store) (name : String) (expectedRevision : ℕ) :
    Except StateError (Option Bytes) := do
  validateKey name store.limits
  Result.ensure (store.revision == expectedRevision)
    (.conflict "durable state revision changed before checkpoint read")
  pure (store.checkpoints.find name)

def objectAtRevision (store : Store) (bucket key : String) (expectedRevision : ℕ) :
    Except StateError (Option Bytes) := do
  validateIdentity bucket maxResourceNameBytes
  validateKey key store.limits
  Result.ensure (store.revision == expectedRevision)
    (.conflict "durable state revision changed before object read")
  pure ((store.objects.find (bucket, key)).map ObjectRow.value)

/-! ## What a successful transaction has done -/

section Specifications

variable {store next : Store}

theorem nextSequence_eq_ok {sequence : ℤ} (hnext : store.nextSequence = .ok (sequence, next)) :
    next = { store with sequence } := by
  unfold nextSequence at hnext
  simp only [Result.bind_eq_ok, Result.pure_eq_ok, Prod.mk.injEq] at hnext
  obtain ⟨_, -, hsequence, hstore⟩ := hnext
  rw [← hstore, hsequence]

theorem nextSequence_spec {sequence : ℤ} (hnext : store.nextSequence = .ok (sequence, next)) :
    sequence = store.sequence + 1 ∧ next = { store with sequence } := by
  refine ⟨?_, nextSequence_eq_ok hnext⟩
  unfold nextSequence at hnext
  simp only [Result.bind_eq_ok, Result.ofOption_eq_ok, Result.pure_eq_ok, Prod.mk.injEq] at hnext
  obtain ⟨found, hfound, hsequence, -⟩ := hnext
  rw [← hsequence]
  exact i64TryFrom_eq_some hfound

theorem putObject_eq_ok {policy : BucketPolicy} {bucket key : String} {value : Bytes}
    {nowMillis : ℤ} (hput : store.putObject policy bucket key value nowMillis = .ok next) :
    ∃ row : ObjectRow, row.value = value ∧
      next = { store with objects := store.objects.upsert (bucket, key) row fun _ => row } := by
  unfold putObject at hput
  simp only [Result.bind_eq_ok, Result.pure_eq_ok] at hput
  obtain ⟨_, _, ⟨count, bytes⟩, _, _, _, retained, _, _, _, sizeBytes, _, hnext⟩ := hput
  exact ⟨_, rfl, hnext.symm⟩

/-- A publication adds a job that nobody owns and nobody has attempted. -/
theorem publish_eq_ok {policy : QueuePolicy} {queue : String} {id : Identity} {body : Bytes}
    {nowMillis : ℤ} (hpublish : store.publish policy queue id body nowMillis = .ok next) :
    store.queueJobs.find id = none ∧ ∃ sequence, ∃ row : JobRow,
      (row.owner = none ∧ row.attempts = 0) ∧
      next = { store with sequence, queueJobs := store.queueJobs.insert id row } := by
  unfold publish at hpublish
  simp only [Result.bind_eq_ok, Result.ensure_eq_ok] at hpublish
  obtain ⟨-, -, ⟨count, bytes⟩, -, -, -, -, -, ⟨sequence, sequenced⟩, hsequence, sizeBytes, -, -,
    habsent, hnext⟩ := hpublish
  have hstore := nextSequence_eq_ok hsequence
  subst hstore
  rw [Result.pure_eq_ok] at hnext
  exact ⟨Option.isNone_iff_eq_none.mp habsent, sequence, _, ⟨rfl, rfl⟩, hnext.symm⟩

theorem advance_eq_ok {revision : ℕ} (hadvance : store.advance = .ok (revision, next)) :
    revision = store.revision + 1 ∧ next = { store with revision } := by
  unfold advance at hadvance
  simp only [Result.bind_eq_ok, Result.pure_eq_ok, Prod.mk.injEq, Result.ofOption_eq_ok] at hadvance
  obtain ⟨found, hfound, _, -, hrevision, hnext⟩ := hadvance
  rw [← hnext, hrevision]
  exact ⟨hrevision ▸ checkedAdd_eq_some hfound, rfl⟩

/-- The parts of a commit that succeeds. -/
theorem commitPlan_eq_ok {plan : CommitPlan} {revision : ℕ}
    (hcommit : store.commitPlan plan = .ok (revision, next)) :
    (plan.mutations.any Mutation.advancesRevision = true →
      store.revision = plan.expectedRevision) ∧
    ∃ applied completed,
      plan.mutations.foldlM (applyMutation plan.queues plan.buckets plan.nowMillis) store =
        .ok applied ∧
      applied.complete plan.nowMillis plan.completion = .ok completed ∧
      ((plan.mutations.any Mutation.advancesRevision = true ∧
          completed.advance = .ok (revision, next)) ∨
        (plan.mutations.any Mutation.advancesRevision = false ∧ revision = store.revision ∧
          next = completed)) := by
  unfold commitPlan at hcommit
  simp only [Result.bind_eq_ok, Result.ensure_eq_ok] at hcommit
  obtain ⟨-, -, -, -, -, -, -, -, -, hrevision, applied, happlied, completed, hcompleted, hlast⟩ :=
    hcommit
  constructor
  · intro hsensitive
    simpa [hsensitive] using hrevision
  · refine ⟨applied, completed, happlied, hcompleted, ?_⟩
    by_cases hsensitive : plan.mutations.any Mutation.advancesRevision = true
    · rw [if_pos hsensitive] at hlast
      exact Or.inl ⟨hsensitive, hlast⟩
    · rw [if_neg hsensitive, Result.pure_eq_ok, Prod.mk.injEq] at hlast
      exact Or.inr ⟨Bool.not_eq_true _ ▸ hsensitive, hlast.1.symm, hlast.2.symm⟩

end Specifications

/-- What each mutation keeps, a sequence of them keeps. -/
theorem applyMutations_induction {queues : TreeMap String QueuePolicy}
    {buckets : TreeMap String BucketPolicy} {nowMillis : ℤ}
    {motive : List Mutation → Store → Store → Prop}
    (hnil : ∀ store, motive [] store store)
    (hcons : ∀ mutation rest store middle next,
      applyMutation queues buckets nowMillis store mutation = .ok middle →
      motive rest middle next → motive (mutation :: rest) store next)
    {mutations : List Mutation} {store next : Store}
    (happly : mutations.foldlM (applyMutation queues buckets nowMillis) store = .ok next) :
    motive mutations store next := by
  induction mutations generalizing store with
  | nil =>
    rw [List.foldlM_nil, Result.pure_eq_ok] at happly
    rw [← happly]
    exact hnil store
  | cons mutation rest ih =>
    rw [List.foldlM_cons, Result.bind_eq_ok] at happly
    obtain ⟨middle, hfirst, hrest⟩ := happly
    exact hcons mutation rest store middle next hfirst (ih hrest)

/-- Mutations change the outcome tables, the jobs and the counter only. -/
theorem applyMutation_frame {queues : TreeMap String QueuePolicy}
    {buckets : TreeMap String BucketPolicy} {nowMillis : ℤ} {store next : Store}
    {mutation : Mutation}
    (happly : applyMutation queues buckets nowMillis store mutation = .ok next) :
    ∃ sequence kv checkpoints objects queueJobs,
      next = { store with sequence, kv, checkpoints, objects, queueJobs } := by
  cases mutation with
  | put key value =>
    rw [applyMutation, Result.pure_eq_ok] at happly
    exact ⟨_, _, _, _, _, happly.symm⟩
  | delete key =>
    rw [applyMutation, Result.pure_eq_ok] at happly
    exact ⟨_, _, _, _, _, happly.symm⟩
  | checkpointPut name value =>
    rw [applyMutation, Result.pure_eq_ok] at happly
    exact ⟨_, _, _, _, _, happly.symm⟩
  | objectPut bucket key value =>
    rw [applyMutation, Result.bind_eq_ok] at happly
    obtain ⟨policy, -, hput⟩ := happly
    obtain ⟨row, -, hnext⟩ := putObject_eq_ok hput
    exact ⟨_, _, _, _, _, hnext⟩
  | objectDelete bucket key =>
    simp only [applyMutation, Result.bind_eq_ok, Result.pure_eq_ok] at happly
    obtain ⟨-, -, hnext⟩ := happly
    exact ⟨_, _, _, _, _, hnext.symm⟩
  | queuePublish queue id body =>
    rw [applyMutation, Result.bind_eq_ok] at happly
    obtain ⟨policy, -, hpublish⟩ := happly
    obtain ⟨-, sequence, row, -, hnext⟩ := publish_eq_ok hpublish
    exact ⟨_, _, _, _, _, hnext⟩

theorem applyMutations_frame {queues : TreeMap String QueuePolicy}
    {buckets : TreeMap String BucketPolicy} {nowMillis : ℤ} {mutations : List Mutation}
    {store next : Store}
    (happly : mutations.foldlM (applyMutation queues buckets nowMillis) store = .ok next) :
    ∃ sequence kv checkpoints objects queueJobs,
      next = { store with sequence, kv, checkpoints, objects, queueJobs } := by
  refine applyMutations_induction
    (motive := fun _ store next => ∃ sequence kv checkpoints objects queueJobs,
      next = { store with sequence, kv, checkpoints, objects, queueJobs }) ?_ ?_ happly
  · intro store
    exact ⟨_, _, _, _, _, rfl⟩
  · intro mutation rest store middle next hfirst hrest
    obtain ⟨_, _, _, _, _, hmiddle⟩ := applyMutation_frame hfirst
    obtain ⟨sequence, kv, checkpoints, objects, queueJobs, hnext⟩ := hrest
    exact ⟨sequence, kv, checkpoints, objects, queueJobs, by rw [hnext, hmiddle]⟩

/-- A completion changes jobs and fires only. -/
theorem complete_frame {store next : Store} {nowMillis : ℤ} {completion : Option Completion}
    (hcomplete : store.complete nowMillis completion = .ok next) :
    ∃ queueJobs scheduleFires, next = { store with queueJobs, scheduleFires } := by
  cases completion with
  | none =>
    rw [complete, Result.pure_eq_ok] at hcomplete
    exact ⟨_, _, hcomplete.symm⟩
  | some completion =>
    cases completion with
    | job lease =>
      simp only [complete, Result.bind_eq_ok, Result.pure_eq_ok] at hcomplete
      obtain ⟨-, -, hnext⟩ := hcomplete
      exact ⟨_, _, hnext.symm⟩
    | fire lease =>
      simp only [complete, Result.bind_eq_ok, Result.pure_eq_ok] at hcomplete
      obtain ⟨-, -, hnext⟩ := hcomplete
      exact ⟨_, _, hnext.symm⟩

/-- A commit keeps cursors, dead letters and retained records. -/
theorem commitPlan_frame {store next : Store} {plan : CommitPlan} {revision : ℕ}
    (hcommit : store.commitPlan plan = .ok (revision, next)) :
    ∃ revision sequence kv checkpoints objects queueJobs scheduleFires, next =
      { store with
        revision, sequence, kv, checkpoints, objects, queueJobs, scheduleFires } := by
  obtain ⟨-, applied, completed, happlied, hcompleted, hlast⟩ := commitPlan_eq_ok hcommit
  obtain ⟨sequence, kv, checkpoints, objects, _, happly⟩ := applyMutations_frame happlied
  obtain ⟨queueJobs, scheduleFires, hcomplete⟩ := complete_frame hcompleted
  rw [happly] at hcomplete
  rcases hlast with ⟨-, hadvance⟩ | ⟨-, -, hnext⟩
  · rw [hcomplete] at hadvance
    exact ⟨_, _, _, _, _, _, _, (advance_eq_ok hadvance).2⟩
  · exact ⟨_, _, _, _, _, _, _, hnext.trans hcomplete⟩

end Store

end Krit.Durable
