import Krit.InvocationViews
import Krit.Operators
import Krit.QueueDeliveries
import Krit.ScheduleOccurrences

/-!
# Dispatching deliveries

`dispatch_job` and `dispatch_schedule`: a delivery is reserved, the guest runs, and the
outcome is committed or the delivery is failed.  What the dispatch does not decide itself is
the world it runs in: the stores as other workers have left them by each call, the calls
that the database refuses, the clock, and what the guest does.

Output, events and statistics of an execution are not modelled.
-/

namespace Krit.Durable

open Machine Std

/-! ## The clock -/

namespace Duration

def checkedSub (left right : Duration) : Option Duration :=
  if right.nanos ≤ left.nanos then some ⟨left.nanos - right.nanos⟩ else none

def checkedAdd (left right : Duration) : Option Duration :=
  if left.nanos + right.nanos ≤ maxNanos then some ⟨left.nanos + right.nanos⟩ else none

end Duration

structure DeliveryClock where
  referenceMillis : ℤ
  deriving DecidableEq, Repr

namespace DeliveryClock

def new (referenceMillis : ℤ) : Except RuntimeError DeliveryClock := do
  Result.ensure (0 ≤ referenceMillis)
    (.stateConflict "delivery timestamp must be a nonnegative UTC instant")
  pure { referenceMillis }

/-- The instant after some time, unless it is unknown or out of range. -/
def nowMillis (clock : DeliveryClock) (elapsed : Option Duration) : Except RuntimeError ℤ :=
  Result.ofOption (.stateConflict "delivery timestamp exceeds the durable range") do
    let elapsed ← elapsed
    let millis ← i64TryFrom elapsed.asMillis
    i64TryFrom (clock.referenceMillis + millis)

/-- The time since the reservation and the deadline must fit in the lease. -/
def requireExecutionWindow (clock : DeliveryClock) (elapsed : Duration) (reservedAt : ℤ)
    (lease deadline : Duration) : Except RuntimeError Unit :=
  let required : Option Duration := do
    let offset ← i64TryFrom (reservedAt - clock.referenceMillis)
    if offset < 0 then none
    else
      let waited ← elapsed.checkedSub (.fromMillis offset.toNat)
      waited.checkedAdd deadline
  Result.ensure (required.any fun required => required.nanos ≤ lease.nanos)
    (.delivery "delivery lease no longer covers the execution deadline")

end DeliveryClock

/-! ## The world of a dispatch -/

/-- The open stores and what is bound to them. -/
structure DeliveryState extends DurableState where
  schedules : TreeMap String (ResourceBinding SchedulePolicy)

def DeliveryState.schedule (host : DeliveryState) (name : String) :
    Except RuntimeError (String × SchedulePolicy) := do
  let binding ← Result.ofOption (.authorization "durable schedule is not configured")
    host.schedules[name]?
  let _ ← host.binding binding.store
  pure (binding.store, binding.policy)

/-- The points at which a dispatch looks at the clock, at its cancellation or at a store. -/
inductive Moment where
  | materialization
  | reservation
  | firing
  | window
  | execution
  | outcome
  | commit
  | failure
  deriving DecidableEq, Repr

/-- What happens while the guest runs: the steps around it that may fail, its operations on
the durable state with the stores they find, and what it returns. -/
structure Execution where
  worker : Except RuntimeError Unit
  panics : Bool
  fuelSet : Except RuntimeError Unit
  deadlineStarted : Except RuntimeError Unit
  operations : List (Table String Store × Operation)
  call : Except RuntimeError (Except String String)
  timedOut : Except RuntimeError Bool
  transactions : Except RuntimeError Unit
  fuelRead : Except RuntimeError Unit

structure DeliveryWorld where
  prepared : Except RuntimeError Unit
  scheduler : Except RuntimeError Unit
  owner : Identity
  deadline : Duration
  cancelled : Moment → Bool
  elapsed : Moment → Option Duration
  stores : Moment → Table String Store
  fault : Moment → Option StateError
  guest : Execution

/-- A call of a store: the database may refuse it; otherwise it works on the store as it is
at that moment, and gives its answer with the store before and after. -/
def DeliveryWorld.call {α : Type} (world : DeliveryWorld) (moment : Moment) (name : String)
    (operation : Store → Except StateError (α × Store)) : Except StateError (α × Store × Store) :=
  match world.fault moment, (world.stores moment).find name with
  | some error, _ => .error error
  -- a binding holds its store, which is therefore among the open ones
  | none, none => .error databaseOperationFailed
  | none, some before => do
      let (answer, after) ← operation before
      pure (answer, before, after)

/-- The durable state as it is at a moment. -/
def DeliveryWorld.durable (world : DeliveryWorld) (host : DeliveryState) (moment : Moment) :
    DurableState :=
  { host.toDurableState with stores := world.stores moment }

/-! ## Execution -/

def maxOutcomeDetailBytes : ℕ := 4 * 1024

/-- The result of a guest with what it has staged. -/
structure CompletedDelivery where
  result : Except String String
  state : InvocationState

/-- The operations of the guest, one after another. -/
def performAll (host : DeliveryState) (state : InvocationState)
    (operations : List (Table String Store × Operation)) : InvocationState :=
  operations.foldl
    (fun state entry =>
      (state.perform { host.toDurableState with stores := entry.1 } entry.2).2)
    state

def invokeDeliveryComponent (host : DeliveryState) (world : DeliveryWorld) (store : String) :
    Except RuntimeError CompletedDelivery := do
  let guest := world.guest
  guest.fuelSet
  let durable := world.durable host .execution
  match InvocationState.new.bind durable store with
  | (.error error, _) => throw error
  | (.ok _, bound) =>
      guest.deadlineStarted
      let state := performAll host bound guest.operations
      let timedOut ← guest.timedOut
      if timedOut then throw (.deadline "Wasm wall deadline exceeded")
      let result ← guest.call
      guest.transactions
      if world.cancelled .outcome then
        throw (.cancelled "embedding cancellation requested before durable outcome commit")
      let detail := match result with
        | .ok detail => detail
        | .error detail => detail
      Result.ensure (detail.utf8ByteSize ≤ maxOutcomeDetailBytes)
        (.delivery ("delivery outcome detail exceeds the " ++ toString maxOutcomeDetailBytes ++
          "-byte limit"))
      guest.fuelRead
      pure { result, state }

def runDelivery (host : DeliveryState) (world : DeliveryWorld) (store : String) :
    Except RuntimeError CompletedDelivery := do
  if world.cancelled .execution then
    throw (.cancelled "embedding cancellation requested before delivery execution")
  world.guest.worker
  if world.guest.panics then throw (.setup "isolated delivery execution worker panicked")
  invokeDeliveryComponent host world store

/-! ## Outcomes -/

inductive DeliveryOutcome where
  | idle
  | completed (id : String) (attempt : ℕ)
  | retried (id : String) (attempt : ℕ) (visibleAtMillis : ℤ)
  | deadLettered (id : String) (attempt : ℕ)
  deriving DecidableEq, Repr

structure DeliveryExecutionResult where
  outcome : DeliveryOutcome
  detail : String
  deriving DecidableEq, Repr

def idleResult : DeliveryExecutionResult := { outcome := .idle, detail := "" }

def hexIdentity (id : Identity) : String :=
  String.ofList ((List.range 16).flatMap fun index =>
    let byte := id.toNat / 256 ^ (15 - index) % 256
    [hexLower (byte / 16), hexLower (byte % 16)])

def boundedDetail (detail : String) : String :=
  String.ofList (boundedChars maxOutcomeDetailBytes detail.toList)

def withDeliveryCleanup (error : RuntimeError) (cleanup : Except StateError JobDisposition) :
    RuntimeError :=
  match cleanup with
  | .ok _ => error
  | .error cleanup => error.withCleanupFailure (mapStateError cleanup)

def dispositionOutcome (disposition : JobDisposition) (id : String) (attempt : ℕ) :
    Except RuntimeError DeliveryOutcome :=
  match disposition with
  | .retried visibleAtMillis => .ok (.retried id attempt visibleAtMillis)
  | .deadLettered => .ok (.deadLettered id attempt)
  | .lost =>
      .error (.delivery "durable delivery lease expired before its outcome was recorded")

def failureReason (detail : String) : String :=
  if detail.isEmpty then "guest reported a delivery failure" else detail

/-! ## Resolution -/

/-- What a dispatch does to its delivery after the reservation. -/
inductive Transaction where
  | committed (delivery : Completion) (mutations : List Mutation) (before after : Store)
  | failed (delivery : Completion) (disposition : JobDisposition) (before after : Store)
  | refused (error : StateError)
  | clockOverflowed

/-- A delivery that is reserved, with the call that fails it. -/
structure Reservation where
  store : String
  delivery : Completion
  identity : String
  attempt : ℕ
  fail : Store → String → ℤ → Except StateError (JobDisposition × Store)

section Resolution

variable (host : DeliveryState) (world : DeliveryWorld) (clock : DeliveryClock)
  (reservation : Reservation)

/-- Fails the delivery at the present instant. -/
def failDelivery (reason : String) :
    Except RuntimeError (Except StateError JobDisposition) × List Transaction :=
  match clock.nowMillis (world.elapsed .failure) with
  | .error error => (.error error, [.clockOverflowed])
  | .ok now =>
      match world.call .failure reservation.store fun store =>
          reservation.fail store reason now with
      | .error error => (.ok (.error error), [.refused error])
      | .ok (disposition, before, after) =>
          (.ok (.ok disposition), [.failed reservation.delivery disposition before after])

/-- Fails the delivery after an error, and reports the error. -/
def cleanUp (error : RuntimeError) (reason : String) :
    Except RuntimeError DeliveryExecutionResult × List Transaction :=
  match failDelivery world clock reservation reason with
  | (.error clockError, trace) => (.error clockError, trace)
  | (.ok cleanup, trace) => (.error (withDeliveryCleanup error cleanup), trace)

/-- Commits what is staged with the acknowledgement. -/
def commitDelivery (state : InvocationState) (now : ℤ) : Except RuntimeError DurableState :=
  match state.active, world.fault .commit with
  | some _, some error => .error (mapStateError error)
  | _, _ =>
      (state.commitOutcome (world.durable host .commit) (some reservation.delivery) now).1

/-- The transaction of a commit that succeeded. -/
def committedTransaction (state : InvocationState) (after : DurableState) : List Transaction :=
  match state.active with
  | none => []
  | some active =>
      match (world.stores .commit).find active.name, after.stores.find active.name with
      | some before, some next =>
          [.committed reservation.delivery active.mutations before next]
      | _, _ => []

/-- The last part of both dispatches: the outcome of the execution is committed, or the
delivery is failed. -/
def resolve (execution : Except RuntimeError CompletedDelivery) :
    Except RuntimeError DeliveryExecutionResult × List Transaction :=
  match execution with
  | .error error =>
      cleanUp world clock reservation error "guest execution failed before acknowledgement"
  | .ok { result := .ok detail, state } =>
      match clock.nowMillis (world.elapsed .commit) with
      | .error error => (.error error, [.clockOverflowed])
      | .ok now =>
          match commitDelivery host world reservation state now with
          | .error error => cleanUp world clock reservation error "durable outcome commit failed"
          | .ok after =>
              (.ok
                { outcome := .completed reservation.identity reservation.attempt
                  detail := boundedDetail detail },
              committedTransaction world reservation state after)
  | .ok { result := .error detail, .. } =>
      let detail := boundedDetail detail
      match failDelivery world clock reservation (failureReason detail) with
      | (.error error, trace) => (.error error, trace)
      | (.ok (.error error), trace) => (.error (mapStateError error), trace)
      | (.ok (.ok disposition), trace) =>
          ((dispositionOutcome disposition reservation.identity reservation.attempt).map
            fun outcome => { outcome, detail },
          trace)

end Resolution

/-! ## The dispatches -/

/-- How a dispatch went: its result, the delivery that it reserved with the execution that
followed, what it did to the delivery, and what a materialization reports with the
result. -/
structure Dispatch (δ : Type) where
  result : Except RuntimeError DeliveryExecutionResult
  reserved : Option (δ × Except RuntimeError CompletedDelivery)
  trace : List Transaction
  catchUp : Option ScheduleCatchUp

namespace Dispatch

/-- A dispatch that ended before it reserved a delivery. -/
def unreserved {δ : Type} (result : Except RuntimeError DeliveryExecutionResult) : Dispatch δ :=
  { result, reserved := none, trace := [], catchUp := none }

def ofResolution {δ : Type} (delivery : δ) (execution : Except RuntimeError CompletedDelivery)
    (resolution : Except RuntimeError DeliveryExecutionResult × List Transaction) : Dispatch δ :=
  { result := resolution.1
    reserved := some (delivery, execution)
    trace := resolution.2
    catchUp := none }

end Dispatch

def cancelledBeforeReservation : RuntimeError :=
  .cancelled "embedding cancellation requested before delivery reservation"

/-- The delivery of a reserved job. -/
def jobReservation (store : String) (policy : QueuePolicy) (delivery : JobDelivery) :
    Reservation where
  store
  delivery := .job delivery.lease
  identity := hexIdentity delivery.lease.id
  attempt := delivery.attempt
  fail state reason now := state.failJob delivery.lease reason policy now

/-- What runs after a job has been reserved. -/
def executeJob (host : DeliveryState) (world : DeliveryWorld) (clock : DeliveryClock)
    (store : String) (policy : QueuePolicy) (reservedAt : ℤ) (delivery : JobDelivery) :
    Except RuntimeError CompletedDelivery := do
  clock.requireExecutionWindow ((world.elapsed .window).getD ⟨0⟩) reservedAt policy.lease
    world.deadline
  let _ ← Result.ofOption (.durableState "durable queue job body is not valid UTF-8")
    (String.fromUTF8? ⟨delivery.body.toArray⟩)
  runDelivery host world store

/-- What `dispatch_job` does before it reserves: the instant of the reservation, and the
store and policy of the queue. -/
def prepareJob (host : DeliveryState) (world : DeliveryWorld) (clock : DeliveryClock)
    (queue : String) : Except RuntimeError (ℤ × String × QueuePolicy) := do
  world.prepared
  let (store, policy) ← host.queue queue
  world.scheduler
  if world.cancelled .reservation then throw cancelledBeforeReservation
  let reservedAt ← clock.nowMillis (world.elapsed .reservation)
  pure (reservedAt, store, policy)

/-- Reserves and dispatches at most one job of a queue. -/
def dispatchJob (host : DeliveryState) (world : DeliveryWorld) (queue : String)
    (nowMillis : ℤ) : Dispatch JobDelivery :=
  match DeliveryClock.new nowMillis with
  | .error error => .unreserved (.error error)
  | .ok clock =>
      match prepareJob host world clock queue with
      | .error error => .unreserved (.error error)
      | .ok (reservedAt, store, policy) =>
          match world.call .reservation store fun state =>
              state.reserveJob queue policy world.owner reservedAt with
          | .error error => .unreserved (.error (mapStateError error))
          | .ok ((none, _), _, _) => .unreserved (.ok idleResult)
          | .ok ((some delivery, _), _, _) =>
              let execution := executeJob host world clock store policy reservedAt delivery
              .ofResolution delivery execution
                (resolve host world clock (jobReservation store policy delivery) execution)

/-- The delivery of a reserved fire; a fire has no reason of its failure. -/
def fireReservation (store : String) (policy : SchedulePolicy) (delivery : FireDelivery) :
    Reservation where
  store
  delivery := .fire delivery.lease
  identity := delivery.lease.schedule ++ "@" ++ toString delivery.lease.dueAtMillis
  attempt := delivery.attempt
  fail state _ now := state.failScheduleFire delivery.lease policy now

def executeFire (host : DeliveryState) (world : DeliveryWorld) (clock : DeliveryClock)
    (store : String) (policy : SchedulePolicy) (reservedAt : ℤ) :
    Except RuntimeError CompletedDelivery := do
  clock.requireExecutionWindow ((world.elapsed .window).getD ⟨0⟩) reservedAt policy.lease
    world.deadline
  runDelivery host world store

/-- What `dispatch_schedule` does before it reserves; the occurrences that are due are
materialized. -/
def prepareFire (host : DeliveryState) (world : DeliveryWorld) (clock : DeliveryClock)
    (schedule : String) (nowMillis : ℤ) :
    Except RuntimeError (ℤ × String × SchedulePolicy × ScheduleCatchUp) := do
  world.prepared
  let (store, policy) ← host.schedule schedule
  world.scheduler
  if world.cancelled .materialization then throw cancelledBeforeReservation
  let reservedAt ← clock.nowMillis (world.elapsed .reservation)
  (policy.validateInstant reservedAt).mapError mapStateError
  let ((catchUp, _), _, _) ← (world.call .materialization store fun state =>
    state.materializeSchedule schedule policy nowMillis).mapError mapStateError
  if world.cancelled .reservation then throw cancelledBeforeReservation
  pure (reservedAt, store, policy, catchUp)

/-- Materializes what is due of a schedule and dispatches at most one fire. -/
def dispatchSchedule (host : DeliveryState) (world : DeliveryWorld) (schedule : String)
    (nowMillis : ℤ) : Dispatch FireDelivery :=
  match DeliveryClock.new nowMillis with
  | .error error => .unreserved (.error error)
  | .ok clock =>
      match prepareFire host world clock schedule nowMillis with
      | .error error => .unreserved (.error error)
      | .ok (reservedAt, store, policy, catchUp) =>
          match world.call .reservation store fun state =>
              state.reserveScheduleFire schedule policy world.owner reservedAt with
          | .error error => .unreserved (.error (mapStateError error))
          | .ok (none, _, _) => { Dispatch.unreserved (.ok idleResult) with catchUp }
          | .ok (some delivery, _, _) =>
              -- the instant of the firing is read before the guest runs
              match clock.nowMillis (world.elapsed .firing) with
              | .error error =>
                  .ofResolution delivery (.error error) (.error error, [.clockOverflowed])
              | .ok _ =>
                  let execution := executeFire host world clock store policy reservedAt
                  let dispatch := Dispatch.ofResolution delivery execution
                    (resolve host world clock (fireReservation store policy delivery) execution)
                  { dispatch with catchUp }

/-! ## How deliveries are resolved -/

namespace Transaction

def Commits : Transaction → Prop
  | .committed .. => True
  | _ => False

def Fails : Transaction → Prop
  | .failed .. => True
  | _ => False

/-- What keeps a dispatch from resolving its delivery: the store refuses the call, the clock
overflows, or the lease is lost. -/
def Excuses : Transaction → Prop
  | .refused _ | .clockOverflowed | .failed _ .lost _ _ => True
  | _ => False

end Transaction

def Completed (result : Except RuntimeError DeliveryExecutionResult) : Prop :=
  ∃ id attempt detail, result = .ok { outcome := .completed id attempt, detail }

/-- What a reserved delivery comes to: either it is completed, and what the execution has
staged was committed with the acknowledgement in one transaction of its store; or nothing was
committed, and it was failed once, unless something excuses the dispatch. -/
structure ResolvedOnce (host : DeliveryState) (world : DeliveryWorld) (reservation : Reservation)
    (released : JobDisposition → Store → Store → Prop)
    (execution : Except RuntimeError CompletedDelivery)
    (result : Except RuntimeError DeliveryExecutionResult) (trace : List Transaction) : Prop where
  completed : Completed result →
    ∃ detail state active before revision after now,
      execution = .ok { result := .ok detail, state } ∧
      state.active = some active ∧ active.name = reservation.store ∧
      (world.stores .commit).find reservation.store = some before ∧
      before.commitPlan
        { expectedRevision := active.revision
          mutations := active.mutations
          queues := host.queuePolicies
          buckets := host.bucketPolicies
          nowMillis := now
          completion := some reservation.delivery } = .ok (revision, after) ∧
      trace = [.committed reservation.delivery active.mutations before after]
  uncommitted : ¬ Completed result → ∀ transaction ∈ trace, ¬ transaction.Commits
  resolved : ¬ Completed result → (∃ transaction ∈ trace, transaction.Excuses) ∨
    ∃ disposition before after, disposition ≠ .lost ∧
      (world.stores .failure).find reservation.store = some before ∧
      released disposition before after ∧
      trace = [.failed reservation.delivery disposition before after]
  once : ¬ ((∃ transaction ∈ trace, transaction.Commits) ∧
    ∃ transaction ∈ trace, transaction.Fails)

section Resolving

variable {host : DeliveryState} {world : DeliveryWorld} {clock : DeliveryClock}
  {reservation : Reservation}

theorem call_eq_ok {α : Type} {moment : Moment} {name : String}
    {operation : Store → Except StateError (α × Store)} {answer : α} {before after : Store}
    (hcall : world.call moment name operation = .ok (answer, before, after)) :
    (world.stores moment).find name = some before ∧ operation before = .ok (answer, after) := by
  unfold DeliveryWorld.call at hcall
  cases hfault : world.fault moment with
  | some error =>
    rw [hfault] at hcall
    cases hcall
  | none =>
    cases hfind : (world.stores moment).find name with
    | none =>
      rw [hfault, hfind] at hcall
      cases hcall
    | some found =>
      rw [hfault, hfind] at hcall
      simp only [Result.bind_eq_ok, Result.pure_eq_ok, Prod.mk.injEq, Prod.exists] at hcall
      obtain ⟨given, next, hoperation, hanswer, hbefore, hafter⟩ := hcall
      rw [← hbefore, ← hanswer, ← hafter]
      exact ⟨rfl, hoperation⟩

/-- A failure is one transaction, unless the clock or the store excuses it. -/
theorem failDelivery_cases (world : DeliveryWorld) (clock : DeliveryClock)
    (reservation : Reservation) (reason : String) :
    (∃ error, failDelivery world clock reservation reason = (.error error, [.clockOverflowed])) ∨
    (∃ error, failDelivery world clock reservation reason =
      (.ok (.error error), [.refused error])) ∨
    ∃ now disposition before after,
      (world.stores .failure).find reservation.store = some before ∧
      reservation.fail before reason now = .ok (disposition, after) ∧
      failDelivery world clock reservation reason =
        (.ok (.ok disposition), [.failed reservation.delivery disposition before after]) := by
  unfold failDelivery
  cases hclock : clock.nowMillis (world.elapsed .failure) with
  | error error => exact Or.inl ⟨error, rfl⟩
  | ok now =>
    cases hcall : world.call .failure reservation.store fun store =>
        reservation.fail store reason now with
    | error error => exact Or.inr (Or.inl ⟨error, by simp only [hcall]⟩)
    | ok answer =>
      obtain ⟨disposition, before, after⟩ := answer
      obtain ⟨hfind, hanswer⟩ := call_eq_ok hcall
      refine Or.inr (Or.inr ⟨now, disposition, before, after, hfind, hanswer, ?_⟩)
      simp only [hcall]

/-- A failure never commits and excuses or releases. -/
structure Failing (world : DeliveryWorld) (reservation : Reservation)
    (released : JobDisposition → Store → Store → Prop)
    (trace : List Transaction) : Prop where
  uncommitted : ∀ transaction ∈ trace, ¬ transaction.Commits
  resolved : (∃ transaction ∈ trace, transaction.Excuses) ∨
    ∃ disposition before after, disposition ≠ .lost ∧
      (world.stores .failure).find reservation.store = some before ∧
      released disposition before after ∧
      trace = [.failed reservation.delivery disposition before after]

variable {released : JobDisposition → Store → Store → Prop}

theorem failing_overflowed : Failing world reservation released [.clockOverflowed] where
  uncommitted := by
    intro transaction hmem
    rw [List.mem_singleton.mp hmem]
    exact id
  resolved := Or.inl ⟨_, List.mem_singleton_self _, trivial⟩

theorem failing_refused (error : StateError) :
    Failing world reservation released [.refused error] where
  uncommitted := by
    intro transaction hmem
    rw [List.mem_singleton.mp hmem]
    exact id
  resolved := Or.inl ⟨_, List.mem_singleton_self _, trivial⟩

theorem failing_failed {disposition : JobDisposition} {before after : Store}
    (hfind : (world.stores .failure).find reservation.store = some before)
    (hreleased : released disposition before after) :
    Failing world reservation released [.failed reservation.delivery disposition before after] where
  uncommitted := by
    intro transaction hmem
    rw [List.mem_singleton.mp hmem]
    exact id
  resolved := by
    by_cases hlost : disposition = .lost
    · refine Or.inl ⟨_, List.mem_singleton_self _, ?_⟩
      rw [hlost]
      trivial
    · exact Or.inr ⟨disposition, before, after, hlost, hfind, hreleased, rfl⟩

theorem failDelivery_failing (world : DeliveryWorld) (clock : DeliveryClock)
    (hfail : ∀ before reason now disposition after,
      reservation.fail before reason now = .ok (disposition, after) →
        released disposition before after) (reason : String) :
    Failing world reservation released (failDelivery world clock reservation reason).2 := by
  rcases failDelivery_cases world clock reservation reason with ⟨error, hcase⟩ |
    ⟨error, hcase⟩ | ⟨now, disposition, before, after, hfind, hanswer, hcase⟩
  · rw [hcase]
    exact failing_overflowed
  · rw [hcase]
    exact failing_refused error
  · rw [hcase]
    exact failing_failed hfind (hfail _ _ _ _ _ hanswer)

/-- What does not complete and only fails is resolved once. -/
theorem Failing.resolvedOnce {trace : List Transaction}
    (hfailing : Failing world reservation released trace)
    {execution : Except RuntimeError CompletedDelivery}
    {result : Except RuntimeError DeliveryExecutionResult} (hresult : ¬ Completed result) :
    ResolvedOnce host world reservation released execution result trace where
  completed := fun hcompleted => absurd hcompleted hresult
  uncommitted := fun _ => hfailing.uncommitted
  resolved := fun _ => hfailing.resolved
  once := by
    rintro ⟨⟨transaction, hmem, hcommits⟩, -⟩
    exact hfailing.uncommitted transaction hmem hcommits

theorem not_completed_error (error : RuntimeError) : ¬ Completed (.error error) := by
  rintro ⟨id, attempt, detail, hresult⟩
  cases hresult

theorem cleanUp_spec (world : DeliveryWorld) (clock : DeliveryClock) (reservation : Reservation)
    (error : RuntimeError) (reason : String) :
    ¬ Completed (cleanUp world clock reservation error reason).1 ∧
      (cleanUp world clock reservation error reason).2 =
        (failDelivery world clock reservation reason).2 := by
  unfold cleanUp
  obtain ⟨answer, trace⟩ := failDelivery world clock reservation reason
  cases answer with
  | error clockError => exact ⟨not_completed_error _, rfl⟩
  | ok cleanup => exact ⟨not_completed_error _, rfl⟩

/-! ### Commits -/

theorem performAll_keeps (host : DeliveryState)
    {operations : List (Table String Store × Operation)} :
    ∀ {state : InvocationState}, state.Keeps (performAll host state operations) := by
  induction operations with
  | nil =>
    intro state
    exact InvocationState.Keeps.refl state
  | cons entry rest ih =>
    intro state
    exact (InvocationState.perform_keeps _ state entry.2).trans ih

/-- A bound invocation works on the store that it is bound to. -/
theorem bind_active {durable : DurableState} {store : String} {answer : Option String}
    {bound : InvocationState}
    (hbind : InvocationState.new.bind durable store = (.ok answer, bound)) :
    ∃ active, bound.active = some active ∧ active.name = store := by
  unfold InvocationState.bind at hbind
  cases hbinding : durable.binding store with
  | error error =>
    rw [hbinding] at hbind
    cases hbind
  | ok found =>
    rw [hbinding] at hbind
    cases hbind
    exact ⟨_, rfl, rfl⟩

theorem invokeDeliveryComponent_eq_ok {store : String} {completed : CompletedDelivery}
    (hinvoke : invokeDeliveryComponent host world store = .ok completed) :
    ∃ answer bound, InvocationState.new.bind (world.durable host .execution) store =
        (.ok answer, bound) ∧
      completed.state = performAll host bound world.guest.operations := by
  unfold invokeDeliveryComponent at hinvoke
  simp only [Result.bind_eq_ok] at hinvoke
  obtain ⟨-, -, hinvoke⟩ := hinvoke
  cases hbind : InvocationState.new.bind (world.durable host .execution) store with
  | mk answer bound =>
    rw [hbind] at hinvoke
    cases answer with
    | error error => cases hinvoke
    | ok answer =>
      simp only [Result.bind_eq_ok] at hinvoke
      obtain ⟨-, -, timedOut, -, hinvoke⟩ := hinvoke
      by_cases htime : timedOut = true
      · rw [if_pos htime] at hinvoke
        simp at hinvoke
      · rw [if_neg htime] at hinvoke
        simp only [Result.bind_eq_ok] at hinvoke
        obtain ⟨result, -, -, -, hinvoke⟩ := hinvoke
        by_cases hcancelled : world.cancelled .outcome = true
        · rw [if_pos hcancelled] at hinvoke
          simp at hinvoke
        · rw [if_neg hcancelled] at hinvoke
          simp only [Result.bind_eq_ok, Result.pure_eq_ok] at hinvoke
          obtain ⟨-, -, -, -, hcompleted⟩ := hinvoke
          rw [← hcompleted]
          exact ⟨answer, bound, rfl, rfl⟩

/-- The guest works on the store of its delivery. -/
theorem runDelivery_active {store : String} {completed : CompletedDelivery}
    (hrun : runDelivery host world store = .ok completed) :
    ∃ active, completed.state.active = some active ∧ active.name = store := by
  have hinvoke : invokeDeliveryComponent host world store = .ok completed := by
    unfold runDelivery at hrun
    by_cases hcancelled : world.cancelled .execution = true
    · rw [if_pos hcancelled] at hrun
      simp at hrun
    · rw [if_neg hcancelled] at hrun
      simp only [Result.bind_eq_ok] at hrun
      obtain ⟨-, -, hrun⟩ := hrun
      by_cases hpanics : world.guest.panics = true
      · rw [if_pos hpanics] at hrun
        simp at hrun
      · rw [if_neg hpanics] at hrun
        exact hrun
  obtain ⟨answer, bound, hbind, hstate⟩ := invokeDeliveryComponent_eq_ok hinvoke
  obtain ⟨active, hactive, hname⟩ := bind_active hbind
  obtain ⟨later, hlater, hsame, -⟩ := performAll_keeps host active hactive
  rw [hstate]
  exact ⟨later, hlater, hsame.trans hname⟩

theorem commitDelivery_eq_ok {state : InvocationState} {now : ℤ} {after : DurableState}
    (hcommit : commitDelivery host world reservation state now = .ok after) {active : ActiveStore}
    (hactive : state.active = some active) :
    ∃ before revision next, (world.stores .commit).find active.name = some before ∧
      before.commitPlan
        { expectedRevision := active.revision
          mutations := active.mutations
          queues := host.queuePolicies
          buckets := host.bucketPolicies
          nowMillis := now
          completion := some reservation.delivery } = .ok (revision, next) ∧
      committedTransaction world reservation state after =
        [.committed reservation.delivery active.mutations before next] := by
  unfold commitDelivery at hcommit
  rw [hactive] at hcommit
  cases hfault : world.fault .commit with
  | some error =>
    rw [hfault] at hcommit
    cases hcommit
  | none =>
    rw [hfault] at hcommit
    unfold InvocationState.commitOutcome at hcommit
    simp only [hactive, Option.isNone_some, Bool.and_false, Bool.false_eq_true, if_false,
      Result.bind_eq_ok, Result.pure_eq_ok] at hcommit
    obtain ⟨before, hbefore, ⟨revision, next⟩, hplan, hafter⟩ := hcommit
    have hfind : (world.stores .commit).find active.name = some before :=
      Result.ofOption_eq_ok.mp hbefore
    refine ⟨before, revision, next, hfind, Result.mapError_eq_ok.mp hplan, ?_⟩
    have hnext : after.stores.find active.name = some next := by
      have hworld : (world.durable host .commit).stores.find active.name = some before := hfind
      rw [← hafter, DurableState.find_setStore, if_pos rfl, hworld]
      rfl
    unfold committedTransaction
    simp only [hactive, hfind, hnext]

theorem commitDelivery_completed {detail : String} {state : InvocationState} {now : ℤ}
    {after : DurableState} {active : ActiveStore} (hactive : state.active = some active)
    (hname : active.name = reservation.store)
    (hcommit : commitDelivery host world reservation state now = .ok after)
    (result : DeliveryExecutionResult) (hresult : Completed (.ok result)) :
    ResolvedOnce host world reservation released (.ok { result := .ok detail, state })
      (.ok result) (committedTransaction world reservation state after) := by
  obtain ⟨before, revision, next, hfind, hplan, htrace⟩ := commitDelivery_eq_ok hcommit hactive
  rw [htrace]
  refine ⟨?_, fun hnot => absurd hresult hnot, fun hnot => absurd hresult hnot, ?_⟩
  · intro _
    rw [hname] at hfind
    exact ⟨detail, state, active, before, revision, next, now, rfl, hactive, hname, hfind,
      hplan, rfl⟩
  · rintro ⟨-, transaction, hmem, hfails⟩
    rw [List.mem_singleton.mp hmem] at hfails
    exact hfails

/-- A disposition is never a completion. -/
theorem not_completed_disposition (disposition : JobDisposition) (id detail : String)
    (attempt : ℕ) :
    ¬ Completed ((dispositionOutcome disposition id attempt).map fun outcome =>
      { outcome, detail }) := by
  rintro ⟨_, _, _, hresult⟩
  cases disposition with
  | retried visibleAt => cases hresult
  | deadLettered => cases hresult
  | lost => cases hresult

/-- Every execution on the store of the delivery is resolved once. -/
theorem resolve_resolvedOnce (execution : Except RuntimeError CompletedDelivery)
    (hactive : ∀ completed, execution = .ok completed →
      ∃ active, completed.state.active = some active ∧ active.name = reservation.store)
    (hfail : ∀ before reason now disposition after,
      reservation.fail before reason now = .ok (disposition, after) →
        released disposition before after) :
    ResolvedOnce host world reservation released execution
      (resolve host world clock reservation execution).1
      (resolve host world clock reservation execution).2 := by
  have hcleanUp : ∀ error reason, ResolvedOnce host world reservation released execution
      (cleanUp world clock reservation error reason).1
      (cleanUp world clock reservation error reason).2 := by
    intro error reason
    obtain ⟨hresult, htrace⟩ := cleanUp_spec world clock reservation error reason
    rw [htrace]
    exact (failDelivery_failing world clock hfail reason).resolvedOnce hresult
  unfold resolve
  match execution with
  | .error error => exact hcleanUp error _
  | .ok { result := .ok detail, state } =>
    obtain ⟨active, hstate, hname⟩ := hactive _ rfl
    simp only []
    cases hclock : clock.nowMillis (world.elapsed .commit) with
    | error error => exact failing_overflowed.resolvedOnce (not_completed_error error)
    | ok now =>
      simp only []
      cases hcommit : commitDelivery host world reservation state now with
      | error error => exact hcleanUp error _
      | ok after => exact commitDelivery_completed hstate hname hcommit _ ⟨_, _, _, rfl⟩
  | .ok { result := .error detail, state } =>
    have hfailing := failDelivery_failing world clock hfail
      (failureReason (boundedDetail detail))
    simp only []
    generalize failDelivery world clock reservation (failureReason (boundedDetail detail)) =
      failure at hfailing
    match failure with
    | (.error error, _) => exact hfailing.resolvedOnce (not_completed_error error)
    | (.ok (.error error), _) => exact hfailing.resolvedOnce (not_completed_error _)
    | (.ok (.ok disposition), _) =>
      exact hfailing.resolvedOnce (not_completed_disposition _ _ _ _)

end Resolving

/-! ### Releases -/

/-- What the failure of a job does to its store: the job is visible again later and nobody
holds it, or it moves to the dead letters of its queue, which are then bounded. -/
def JobReleased (lease : JobLease) (policy : QueuePolicy) (disposition : JobDisposition)
    (before after : Store) : Prop :=
  match disposition with
  | .retried visibleAt => ∃ row queueJobs, before.queueJobs.find lease.id = some row ∧
      lease.owns lease.id row = true ∧ after = { before with queueJobs } ∧
      queueJobs.find lease.id = some { row with visibleAt, owner := none, leaseUntil := none }
  | .deadLettered => ∃ row dead queueJobs queueDead, before.queueJobs.find lease.id = some row ∧
      lease.owns lease.id row = true ∧ queueJobs.find lease.id = none ∧
      queueDead.find lease.id = some dead ∧
      { before with queueJobs, queueDead }.enforceDeadLetterBounds lease.queue policy = .ok after
  | .lost => after = before

theorem failJob_released {lease : JobLease} {policy : QueuePolicy} {before after : Store}
    {reason : String} {now : ℤ} {disposition : JobDisposition}
    (hfail : before.failJob lease reason policy now = .ok (disposition, after)) :
    JobReleased lease policy disposition before after := by
  rcases Store.failJob_eq_ok hfail with ⟨-, hlost, hafter⟩ | ⟨row, hfind, howns, -, hdead, hmove⟩ |
    ⟨row, visibleAt, hfind, howns, -, -, hretried, hafter⟩
  · rw [hlost]
    exact hafter
  · rw [hdead]
    refine ⟨row, _, _, _, hfind, howns, ?_, Table.find_upsert_self _ _ _ _, hmove⟩
    rw [Table.find_delete_key, Function.update_self]
  · rw [hretried]
    refine ⟨row, _, hfind, howns, hafter, ?_⟩
    rw [Table.find_update, hfind]
    simp only [Option.map_some, howns, if_true]

/-- The same for a fire; a fire that is given up stays in its table as a dead one. -/
def FireReleased (lease : FireLease) (disposition : JobDisposition) (before after : Store) : Prop :=
  match disposition with
  | .retried visibleAt => ∃ row scheduleFires updatedAt,
      before.scheduleFires.find (lease.schedule, lease.dueAtMillis) = some row ∧
      lease.owns (lease.schedule, lease.dueAtMillis) row = true ∧
      after = { before with scheduleFires } ∧
      scheduleFires.find (lease.schedule, lease.dueAtMillis) =
        some { row with visibleAt, owner := none, leaseUntil := none, updatedAt }
  | .deadLettered => ∃ row scheduleFires now,
      before.scheduleFires.find (lease.schedule, lease.dueAtMillis) = some row ∧
      lease.owns (lease.schedule, lease.dueAtMillis) row = true ∧
      after = { before with scheduleFires } ∧
      scheduleFires.find (lease.schedule, lease.dueAtMillis) = some (row.giveUp now)
  | .lost => after = before

theorem failScheduleFire_released {lease : FireLease} {policy : SchedulePolicy}
    {before after : Store} {now : ℤ} {disposition : JobDisposition}
    (hfail : before.failScheduleFire lease policy now = .ok (disposition, after)) :
    FireReleased lease disposition before after := by
  unfold Store.failScheduleFire at hfail
  simp only [Result.bind_eq_ok] at hfail
  obtain ⟨-, -, hfail⟩ := hfail
  rcases Table.select_eq_nil_or_singleton before.scheduleFires lease.owns_key with
    ⟨hnone, -⟩ | ⟨row, hone, hfind, howns⟩
  · simp only [hnone, List.head?_nil, Result.pure_eq_ok, Prod.mk.injEq] at hfail
    rw [← hfail.1]
    exact hfail.2.symm
  · simp only [hone, List.head?_cons] at hfail
    by_cases hexhausted : row.attempts ≥ policy.maxAttempts
    · rw [if_pos hexhausted] at hfail
      simp only [Result.pure_eq_ok, Prod.mk.injEq] at hfail
      rw [← hfail.1]
      refine ⟨row, _, now, hfind, howns, hfail.2.symm, ?_⟩
      rw [Table.find_update, hfind]
      simp only [Option.map_some, beq_self_eq_true, if_true]
    · rw [if_neg hexhausted] at hfail
      simp only [Result.bind_eq_ok, Result.pure_eq_ok, Prod.mk.injEq] at hfail
      obtain ⟨visibleAt, -, hdisposition, hafter⟩ := hfail
      rw [← hdisposition]
      refine ⟨row, _, now, hfind, howns, hafter.symm, ?_⟩
      rw [Table.find_update, hfind]
      simp only [Option.map_some, beq_self_eq_true, if_true]

/-! ### Every reserved delivery -/

theorem executeJob_active {host : DeliveryState} {world : DeliveryWorld} {clock : DeliveryClock}
    {store : String} {policy : QueuePolicy} {reservedAt : ℤ} {delivery : JobDelivery}
    {completed : CompletedDelivery}
    (hexecute : executeJob host world clock store policy reservedAt delivery = .ok completed) :
    ∃ active, completed.state.active = some active ∧ active.name = store := by
  unfold executeJob at hexecute
  simp only [Result.bind_eq_ok] at hexecute
  obtain ⟨-, -, -, -, hrun⟩ := hexecute
  exact runDelivery_active hrun

theorem executeFire_active {host : DeliveryState} {world : DeliveryWorld} {clock : DeliveryClock}
    {store : String} {policy : SchedulePolicy} {reservedAt : ℤ} {completed : CompletedDelivery}
    (hexecute : executeFire host world clock store policy reservedAt = .ok completed) :
    ∃ active, completed.state.active = some active ∧ active.name = store := by
  unfold executeFire at hexecute
  simp only [Result.bind_eq_ok] at hexecute
  obtain ⟨-, -, hrun⟩ := hexecute
  exact runDelivery_active hrun

theorem prepareJob_queue {host : DeliveryState} {world : DeliveryWorld} {clock : DeliveryClock}
    {queue store : String} {reservedAt : ℤ} {policy : QueuePolicy}
    (hprepare : prepareJob host world clock queue = .ok (reservedAt, store, policy)) :
    host.queue queue = .ok (store, policy) := by
  unfold prepareJob at hprepare
  simp only [Result.bind_eq_ok] at hprepare
  obtain ⟨-, -, ⟨found, bound⟩, hqueue, -, -, hprepare⟩ := hprepare
  by_cases hcancelled : world.cancelled .reservation = true
  · rw [if_pos hcancelled] at hprepare
    simp at hprepare
  · rw [if_neg hcancelled] at hprepare
    simp only [Result.bind_eq_ok, Result.pure_eq_ok, Prod.mk.injEq] at hprepare
    obtain ⟨-, -, -, hstore, hpolicy⟩ := hprepare
    rw [hqueue, hstore, hpolicy]

theorem prepareFire_schedule {host : DeliveryState} {world : DeliveryWorld}
    {clock : DeliveryClock} {schedule store : String} {nowMillis reservedAt : ℤ}
    {policy : SchedulePolicy} {catchUp : ScheduleCatchUp}
    (hprepare : prepareFire host world clock schedule nowMillis =
      .ok (reservedAt, store, policy, catchUp)) :
    host.schedule schedule = .ok (store, policy) := by
  unfold prepareFire at hprepare
  simp only [Result.bind_eq_ok] at hprepare
  obtain ⟨-, -, ⟨found, bound⟩, hschedule, -, -, hprepare⟩ := hprepare
  by_cases hcancelled : world.cancelled .materialization = true
  · rw [if_pos hcancelled] at hprepare
    simp at hprepare
  · rw [if_neg hcancelled] at hprepare
    simp only [Result.bind_eq_ok] at hprepare
    obtain ⟨_, -, _, -, _, -, hprepare⟩ := hprepare
    by_cases hlater : world.cancelled .reservation = true
    · rw [if_pos hlater] at hprepare
      cases hprepare
    · rw [if_neg hlater] at hprepare
      simp only [Result.pure_eq_ok, Prod.mk.injEq] at hprepare
      obtain ⟨-, hstore, hpolicy, -⟩ := hprepare
      rw [hschedule, hstore, hpolicy]

/-- A job that `dispatch_job` has reserved in the store of its queue is resolved once. -/
theorem dispatchJob_resolvedOnce {host : DeliveryState} {world : DeliveryWorld} {queue : String}
    {nowMillis : ℤ} {delivery : JobDelivery} {execution : Except RuntimeError CompletedDelivery}
    (hreserved : (dispatchJob host world queue nowMillis).reserved = some (delivery, execution)) :
    ∃ store policy, host.queue queue = .ok (store, policy) ∧
      (∃ reservedAt before exhausted after, (world.stores .reservation).find store = some before ∧
        before.reserveJob queue policy world.owner reservedAt =
          .ok ((some delivery, exhausted), after)) ∧
      ResolvedOnce host world (jobReservation store policy delivery)
        (JobReleased delivery.lease policy) execution
        (dispatchJob host world queue nowMillis).result
        (dispatchJob host world queue nowMillis).trace := by
  unfold dispatchJob at hreserved ⊢
  cases hclock : DeliveryClock.new nowMillis with
  | error error =>
    rw [hclock] at hreserved
    cases hreserved
  | ok clock =>
    rw [hclock] at hreserved
    simp only [] at hreserved ⊢
    cases hprepare : prepareJob host world clock queue with
    | error error =>
      rw [hprepare] at hreserved
      cases hreserved
    | ok prepared =>
      obtain ⟨reservedAt, store, policy⟩ := prepared
      rw [hprepare] at hreserved
      simp only [] at hreserved ⊢
      cases hcall : world.call .reservation store fun state =>
          state.reserveJob queue policy world.owner reservedAt with
      | error error =>
        rw [hcall] at hreserved
        cases hreserved
      | ok answer =>
        obtain ⟨⟨found, exhausted⟩, before, after⟩ := answer
        rw [hcall] at hreserved
        obtain ⟨hfind, hreserve⟩ := call_eq_ok hcall
        cases found with
        | none => cases hreserved
        | some given =>
          simp only [Dispatch.ofResolution, Option.some.injEq, Prod.mk.injEq] at hreserved
          obtain ⟨hgiven, hexecution⟩ := hreserved
          subst hgiven
          refine ⟨store, policy, prepareJob_queue hprepare,
            ⟨reservedAt, before, exhausted, after, hfind, hreserve⟩, ?_⟩
          rw [← hexecution]
          refine resolve_resolvedOnce _ (fun completed hexecute => executeJob_active hexecute) ?_
          intro _ _ _ _ _ hfail
          exact failJob_released hfail

/-- The same for the fires of a schedule, whose instant of firing is read first. -/
theorem dispatchSchedule_resolvedOnce {host : DeliveryState} {world : DeliveryWorld}
    {schedule : String} {nowMillis : ℤ} {delivery : FireDelivery}
    {execution : Except RuntimeError CompletedDelivery}
    (hreserved : (dispatchSchedule host world schedule nowMillis).reserved =
      some (delivery, execution)) :
    ∃ store policy, host.schedule schedule = .ok (store, policy) ∧
      (∃ reservedAt before after, (world.stores .reservation).find store = some before ∧
        before.reserveScheduleFire schedule policy world.owner reservedAt =
          .ok (some delivery, after)) ∧
      ResolvedOnce host world (fireReservation store policy delivery)
        (FireReleased delivery.lease) execution
        (dispatchSchedule host world schedule nowMillis).result
        (dispatchSchedule host world schedule nowMillis).trace := by
  unfold dispatchSchedule at hreserved ⊢
  cases hclock : DeliveryClock.new nowMillis with
  | error error =>
    rw [hclock] at hreserved
    cases hreserved
  | ok clock =>
    rw [hclock] at hreserved
    simp only [] at hreserved ⊢
    cases hprepare : prepareFire host world clock schedule nowMillis with
    | error error =>
      rw [hprepare] at hreserved
      cases hreserved
    | ok prepared =>
      obtain ⟨reservedAt, store, policy, catchUp⟩ := prepared
      rw [hprepare] at hreserved
      simp only [] at hreserved ⊢
      cases hcall : world.call .reservation store fun state =>
          state.reserveScheduleFire schedule policy world.owner reservedAt with
      | error error =>
        rw [hcall] at hreserved
        cases hreserved
      | ok answer =>
        obtain ⟨found, before, after⟩ := answer
        rw [hcall] at hreserved
        obtain ⟨hfind, hreserve⟩ := call_eq_ok hcall
        cases found with
        | none => cases hreserved
        | some given =>
          simp only [] at hreserved ⊢
          cases hfiring : clock.nowMillis (world.elapsed .firing) with
          | error error =>
            simp only [hfiring, Dispatch.ofResolution, Option.some.injEq, Prod.mk.injEq]
              at hreserved
            obtain ⟨hgiven, -⟩ := hreserved
            subst hgiven
            exact ⟨store, policy, prepareFire_schedule hprepare,
              ⟨reservedAt, before, after, hfind, hreserve⟩,
              failing_overflowed.resolvedOnce (not_completed_error error)⟩
          | ok now =>
            simp only [hfiring, Dispatch.ofResolution, Option.some.injEq, Prod.mk.injEq]
              at hreserved
            obtain ⟨hgiven, hexecution⟩ := hreserved
            subst hgiven
            refine ⟨store, policy, prepareFire_schedule hprepare,
              ⟨reservedAt, before, after, hfind, hreserve⟩, ?_⟩
            rw [← hexecution]
            refine resolve_resolvedOnce _ (fun completed hexecute => executeFire_active hexecute) ?_
            intro _ _ _ _ _ hfail
            exact failScheduleFire_released hfail

/-- Every delivery that either dispatch reserves is resolved once: committed in one transaction
with its acknowledgement exactly if the dispatch reports completion, and failed otherwise. -/
theorem deliveries_resolved_once (host : DeliveryState) (world : DeliveryWorld)
    (resource : String) (nowMillis : ℤ) :
    (∀ delivery execution,
      (dispatchJob host world resource nowMillis).reserved = some (delivery, execution) →
      ∃ store policy, host.queue resource = .ok (store, policy) ∧
        (∃ reservedAt before exhausted after,
          (world.stores .reservation).find store = some before ∧
          before.reserveJob resource policy world.owner reservedAt =
            .ok ((some delivery, exhausted), after)) ∧
        ResolvedOnce host world (jobReservation store policy delivery)
          (JobReleased delivery.lease policy) execution
          (dispatchJob host world resource nowMillis).result
          (dispatchJob host world resource nowMillis).trace) ∧
    ∀ delivery execution,
      (dispatchSchedule host world resource nowMillis).reserved = some (delivery, execution) →
      ∃ store policy, host.schedule resource = .ok (store, policy) ∧
        (∃ reservedAt before after, (world.stores .reservation).find store = some before ∧
          before.reserveScheduleFire resource policy world.owner reservedAt =
            .ok (some delivery, after)) ∧
        ResolvedOnce host world (fireReservation store policy delivery)
          (FireReleased delivery.lease) execution
          (dispatchSchedule host world resource nowMillis).result
          (dispatchSchedule host world resource nowMillis).trace :=
  ⟨fun _ _ hreserved => dispatchJob_resolvedOnce hreserved,
    fun _ _ hreserved => dispatchSchedule_resolvedOnce hreserved⟩

/-- One store, with a queue and a schedule. -/
def sampleDeliveryState : DeliveryState :=
  { stores := Table.empty.insert "main" (Store.open sampleLimits)
    queues := TreeMap.ofList [("work", ResourceBinding.mk "main" sampleQueuePolicy)]
    buckets := ∅
    schedules := TreeMap.ofList [("daily", ResourceBinding.mk "main" sampleSchedulePolicy)] }

/-- A guest that writes a value, in stores that the calls before it have left. -/
def sampleDeliveryWorld (calls : List Call) (call : Except String String) : DeliveryWorld :=
  { prepared := .ok ()
    scheduler := .ok ()
    owner := 100
    deadline := .fromMillis 50
    cancelled := fun _ => false
    elapsed := fun _ => some ⟨0⟩
    stores := fun moment =>
      Table.empty.insert "main" (run (Store.open sampleLimits)
        (if moment = .reservation then calls.take 1 else calls))
    fault := fun _ => none
    guest :=
      { worker := .ok ()
        panics := false
        fuelSet := .ok ()
        deadlineStarted := .ok ()
        operations := [(Table.empty.insert "main" (run (Store.open sampleLimits) calls),
          .put "main" "key" "value")]
        call := .ok call
        timedOut := .ok false
        transactions := .ok ()
        fuelRead := .ok () } }

def sampleJobWorld : DeliveryWorld := sampleDeliveryWorld (sampleQueueCalls.take 2) (.ok "done")

def sampleFireWorld : DeliveryWorld :=
  sampleDeliveryWorld
    [.materializeSchedule "daily" sampleSchedulePolicy 3000,
      .reserveScheduleFire "daily" sampleSchedulePolicy 100 3000] (.error "not now")

theorem completed_of_toOption {result : Except RuntimeError DeliveryExecutionResult} {id : String}
    {attempt : ℕ} {detail : String}
    (hresult : result.toOption = some { outcome := .completed id attempt, detail }) :
    Completed result := by
  cases result with
  | error error => cases hresult
  | ok found =>
    have hfound : some found = some { outcome := .completed id attempt, detail } := hresult
    rw [Option.some.injEq] at hfound
    exact ⟨id, attempt, detail, by rw [hfound]⟩

theorem deliveries_resolved_once_sample :
    (∃ delivery execution mutations before after,
      (dispatchJob sampleDeliveryState sampleJobWorld "work" 10).reserved =
        some (delivery, execution) ∧
      Completed (dispatchJob sampleDeliveryState sampleJobWorld "work" 10).result ∧
      (dispatchJob sampleDeliveryState sampleJobWorld "work" 10).trace =
        [.committed (.job delivery.lease) mutations before after]) ∧
    ∃ delivery execution,
      (dispatchSchedule sampleDeliveryState sampleFireWorld "daily" 3000).reserved =
        some (delivery, execution) ∧
      ¬ Completed (dispatchSchedule sampleDeliveryState sampleFireWorld "daily" 3000).result ∧
      ∀ transaction ∈ (dispatchSchedule sampleDeliveryState sampleFireWorld "daily" 3000).trace,
        ¬ transaction.Commits := by
  constructor
  · have hresult : (dispatchJob sampleDeliveryState sampleJobWorld "work" 10).result.toOption =
        some ⟨.completed "00000000000000000000000000000007" 1, "done"⟩ := by
      decide +kernel
    have hcompleted : Completed (dispatchJob sampleDeliveryState sampleJobWorld "work" 10).result :=
      completed_of_toOption hresult
    have hsome : (dispatchJob sampleDeliveryState sampleJobWorld "work" 10).reserved.isSome =
        true := by
      decide +kernel
    obtain ⟨⟨delivery, execution⟩, hreserved⟩ := Option.isSome_iff_exists.mp hsome
    obtain ⟨store, policy, -, -, hresolved⟩ := (deliveries_resolved_once sampleDeliveryState
      sampleJobWorld "work" 10).1 delivery execution hreserved
    obtain ⟨_, _, active, before, _, after, _, _, _, _, _, _, htrace⟩ :=
      hresolved.completed hcompleted
    exact ⟨delivery, execution, active.mutations, before, after, hreserved, hcompleted, htrace⟩
  · have hresult :
        (dispatchSchedule sampleDeliveryState sampleFireWorld "daily" 3000).result.toOption =
        some ⟨.retried "daily@3000" 1 3010, "not now"⟩ := by
      decide +kernel
    have hnot : ¬ Completed
        (dispatchSchedule sampleDeliveryState sampleFireWorld "daily" 3000).result := by
      rintro ⟨_, _, _, hcompleted⟩
      rw [hcompleted] at hresult
      cases hresult
    have hsome : (dispatchSchedule sampleDeliveryState sampleFireWorld "daily"
        3000).reserved.isSome = true := by
      decide +kernel
    obtain ⟨⟨delivery, execution⟩, hreserved⟩ := Option.isSome_iff_exists.mp hsome
    obtain ⟨store, policy, -, -, hresolved⟩ := (deliveries_resolved_once sampleDeliveryState
      sampleFireWorld "daily" 3000).2 delivery execution hreserved
    exact ⟨delivery, execution, hreserved, hnot, hresolved.uncommitted hnot⟩

end Krit.Durable
