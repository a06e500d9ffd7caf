import Krit.Lib.History
import Krit.Schedules
import Krit.Retention

/-!
# Runs of a store

Any number of publishers, workers and schedulers call one store, and their
transactions are serialized.  An interleaving of their calls is therefore a list of
calls, and what is stated about every run holds for every interleaving.  A call that
is refused leaves the store as it was.
-/

namespace Krit.Durable

open Machine Std

/-- A transaction on the store. -/
inductive Call where
  | commitPlan (plan : CommitPlan)
  | reserveJob (queue : String) (policy : QueuePolicy) (owner : Identity) (nowMillis : ℤ)
  | failJob (lease : JobLease) (reason : String) (policy : QueuePolicy) (nowMillis : ℤ)
  | materializeSchedule (schedule : String) (policy : SchedulePolicy) (nowMillis : ℤ)
  | reserveScheduleFire (schedule : String) (policy : SchedulePolicy) (owner : Identity)
      (nowMillis : ℤ)
  | failScheduleFire (lease : FireLease) (policy : SchedulePolicy) (nowMillis : ℤ)
  | replayDecision (request : ReplayRequest) (policy : RetentionPolicy)
  | completeReplay (lease : Lease ReplayKey) (result : Bytes) (nowMillis : ℤ)
      (policy : RetentionPolicy)
  | abortReplay (lease : Lease ReplayKey)
  | idempotencyDecision (artifact : Bytes) (key : String) (requestDigest owner : Bytes)
      (nowMillis : ℤ) (policy : RetentionPolicy)
  | completeIdempotency (lease : Lease IdempotencyKey) (response : Bytes) (nowMillis : ℤ)
      (policy : RetentionPolicy)
  | abortIdempotency (lease : Lease IdempotencyKey)

/-- What a transaction returns, with what it moved out of the way, inserted or evicted. -/
inductive Reply where
  | refused (error : StateError)
  | committed (revision : ℕ)
  | reserved (delivery : Option JobDelivery) (exhausted : List Identity)
  | failed (disposition : JobDisposition)
  | materialized (report : ScheduleCatchUp) (inserted : List ℤ)
  | fireReserved (delivery : Option FireDelivery)
  | fireFailed (disposition : JobDisposition)
  | replayDecided (decision : Except StateError (Decision ReplayKey))
  | replayCompleted (evicted : List ReplayKey)
  | idempotencyDecided (decision : Except StateError (Decision IdempotencyKey))
  | idempotencyCompleted (evicted : List IdempotencyKey)
  | aborted

/-- The reply and the store of a transaction that may be refused. -/
def answer {α : Type} (store : Store) (reply : α → Reply) : Except StateError (α × Store) →
    Reply × Store
  | .ok (result, next) => (reply result, next)
  | .error error => (.refused error, store)

namespace Store

def step (store : Store) : Call → Reply × Store
  | .commitPlan plan => answer store .committed (store.commitPlan plan)
  | .reserveJob queue policy owner now =>
      answer store (fun result => .reserved result.1 result.2)
        (store.reserveJob queue policy owner now)
  | .failJob lease reason policy now => answer store .failed (store.failJob lease reason policy now)
  | .materializeSchedule schedule policy now =>
      answer store (fun result => .materialized result.1 result.2)
        (store.materializeSchedule schedule policy now)
  | .reserveScheduleFire schedule policy owner now =>
      answer store .fireReserved (store.reserveScheduleFire schedule policy owner now)
  | .failScheduleFire lease policy now =>
      answer store .fireFailed (store.failScheduleFire lease policy now)
  | .replayDecision request policy =>
      answer store .replayDecided (store.replayDecision request policy)
  | .completeReplay lease result now policy =>
      answer store .replayCompleted (store.completeReplay lease result now policy)
  | .abortReplay lease => (.aborted, store.abortReplay lease)
  | .idempotencyDecision artifact key digest owner now policy =>
      answer store .idempotencyDecided
        (store.idempotencyDecision artifact key digest owner now policy)
  | .completeIdempotency lease response now policy =>
      answer store .idempotencyCompleted (store.completeIdempotency lease response now policy)
  | .abortIdempotency lease => (.aborted, store.abortIdempotency lease)

end Store

/-- The store after a run. -/
def run (store : Store) (calls : List Call) : Store := History.run Store.step store calls

/-- The calls of a run with their replies. -/
def history (store : Store) (calls : List Call) : List (Call × Reply) :=
  History.history Store.step store calls

/-! ## What a call leaves alone -/

/-- The part of the store that a call is about. -/
inductive Area where
  | outcome
  | jobs
  | schedules
  | replay
  | idempotency

def Call.area : Call → Area
  | .commitPlan _ => .outcome
  | .reserveJob _ _ _ _ | .failJob _ _ _ _ => .jobs
  | .materializeSchedule _ _ _ | .reserveScheduleFire _ _ _ _ | .failScheduleFire _ _ _ =>
      .schedules
  | .replayDecision _ _ | .completeReplay _ _ _ _ | .abortReplay _ => .replay
  | .idempotencyDecision _ _ _ _ _ _ | .completeIdempotency _ _ _ _ | .abortIdempotency _ =>
      .idempotency

/-- A change of the store within one area. -/
def Area.Frame (store next : Store) : Area → Prop
  | .outcome => ∃ revision sequence kv checkpoints objects queueJobs scheduleFires, next =
      { store with revision, sequence, kv, checkpoints, objects, queueJobs, scheduleFires }
  | .jobs => ∃ queueJobs queueDead, next = { store with queueJobs, queueDead }
  | .schedules => ∃ scheduleFires scheduleCursors,
      next = { store with scheduleFires, scheduleCursors }
  | .replay => ∃ records, next = store.setReplayRecords records
  | .idempotency => ∃ records, next = store.setIdempotencyRecords records

theorem Area.Frame.refl (store : Store) (area : Area) : area.Frame store store := by
  cases area with
  | outcome => exact ⟨_, _, _, _, _, _, _, rfl⟩
  | jobs => exact ⟨_, _, rfl⟩
  | schedules => exact ⟨_, _, rfl⟩
  | replay => exact ⟨store.replayRecords, rfl⟩
  | idempotency => exact ⟨store.idempotencyRecords, rfl⟩

/-- A refused call changes nothing, so only an accepted one has a frame to show. -/
theorem Area.Frame.answer {α : Type} {store : Store} {area : Area} {reply : α → Reply}
    {outcome : Except StateError (α × Store)}
    (haccepted : ∀ result next, outcome = .ok (result, next) → area.Frame store next) :
    area.Frame store (answer store reply outcome).2 := by
  cases houtcome : outcome with
  | error error => exact Area.Frame.refl store area
  | ok accepted => exact haccepted accepted.1 accepted.2 houtcome

theorem Store.step_frame (store : Store) (call : Call) :
    call.area.Frame store (store.step call).2 := by
  cases call with
  | commitPlan plan => exact Area.Frame.answer fun _ _ haccepted => commitPlan_frame haccepted
  | reserveJob queue policy owner now =>
    exact Area.Frame.answer fun _ _ haccepted => reserveJob_frame haccepted
  | failJob lease reason policy now =>
    exact Area.Frame.answer fun _ _ haccepted => failJob_frame haccepted
  | materializeSchedule schedule policy now =>
    exact Area.Frame.answer fun _ _ haccepted => materializeSchedule_frame haccepted
  | reserveScheduleFire schedule policy owner now =>
    refine Area.Frame.answer fun _ _ haccepted => ?_
    obtain ⟨scheduleFires, hnext, -⟩ := reserveScheduleFire_eq_ok haccepted
    exact ⟨scheduleFires, _, hnext⟩
  | failScheduleFire lease policy now =>
    refine Area.Frame.answer fun _ _ haccepted => ?_
    obtain ⟨scheduleFires, hnext, -⟩ := failScheduleFire_eq_ok haccepted
    exact ⟨scheduleFires, _, hnext⟩
  | replayDecision request policy =>
    refine Area.Frame.answer fun _ _ haccepted => ?_
    obtain ⟨records, -, hnext⟩ := replayDecision_eq_ok haccepted
    exact ⟨records, hnext⟩
  | completeReplay lease result now policy =>
    refine Area.Frame.answer fun _ _ haccepted => ?_
    obtain ⟨records, -, hnext⟩ := completeReplay_eq_ok haccepted
    exact ⟨records, hnext⟩
  | abortReplay lease => exact ⟨_, rfl⟩
  | idempotencyDecision artifact key digest owner now policy =>
    refine Area.Frame.answer fun _ _ haccepted => ?_
    obtain ⟨records, -, hnext⟩ := idempotencyDecision_eq_ok haccepted
    exact ⟨records, hnext⟩
  | completeIdempotency lease response now policy =>
    refine Area.Frame.answer fun _ _ haccepted => ?_
    obtain ⟨records, -, hnext⟩ := completeIdempotency_eq_ok haccepted
    exact ⟨records, hnext⟩
  | abortIdempotency lease => exact ⟨_, rfl⟩

/-- The limits of a small store, for examples of runs. -/
def sampleLimits : StoreLimits :=
  { busyTimeout := .fromMillis 100
    maxOperations := 64
    maxKeyBytes := 256
    maxValueBytes := 1024
    maxTransactionBytes := 65536
    maxDatabaseBytes := 16777216
    maxReplayEntries := 64
    maxReplayBytes := 65536 }

end Krit.Durable
