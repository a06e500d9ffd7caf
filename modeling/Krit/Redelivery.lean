import Krit.QueueDeliveries
import Krit.StoreBounds

/-!
# Redeliveries of a job

A job is delivered again when its lease has run out or its delivery has failed.  Its row
counts the deliveries since its publication, so an attempt is the number of deliveries
so far and one more; it keeps the lease of the last delivery that nothing has ended, and
the instant from which the last failure lets it be seen again.
-/

namespace Krit.Durable

open Machine Std History

/-! ## What happens to one job -/

/-- The deliveries of a job in a transaction. -/
def deliveriesBy (id : Identity) : Call × Reply → List JobDelivery
  | (_, .reserved (some delivery) _) => if delivery.lease.id = id then [delivery] else []
  | _ => []

/-- The deliveries of the job that was last published under an identity. -/
def deliveriesOf (id : Identity) (past : List (Call × Reply)) : List JobDelivery :=
  past.foldl
    (fun found event => if id ∈ publishedBy event then [] else found ++ deliveriesBy id event) []

theorem deliveriesOf_concat (id : Identity) (past : List (Call × Reply)) (event : Call × Reply) :
    deliveriesOf id (past ++ [event]) =
      if id ∈ publishedBy event then [] else deliveriesOf id past ++ deliveriesBy id event := by
  unfold deliveriesOf
  rw [List.foldl_append]
  rfl

/-- A transaction delivers a job under a lease at an instant, until a deadline. -/
def Delivers (id : Identity) (lease : JobLease) (instant deadline : ℤ) : Call × Reply → Prop
  | (.reserveJob _ policy _ nowMillis, .reserved (some delivery) _) =>
      delivery.lease = lease ∧ lease.id = id ∧ instant = nowMillis ∧
        deadline = nowMillis + policy.lease.asMillis
  | _ => False

/-- A failure of a job that lets it be seen again from an instant on. -/
def Postpones (id : Identity) (visibleAt : ℤ) : Call × Reply → Prop
  | (.failJob lease _ _ _, .failed (.retried instant)) => lease.id = id ∧ instant = visibleAt
  | _ => False

/-- A delivery is acknowledged, or it is reported as failed while its lease is held. -/
def JobLease.FinishedBy (lease : JobLease) (event : Call × Reply) : Prop :=
  lease ∈ acknowledgedBy event ∨
    ∃ reason policy nowMillis disposition, disposition ≠ .lost ∧
      event = (.failJob lease reason policy nowMillis, .failed disposition)

/-- What a transaction does to one job. -/
inductive JobStep (id : Identity) (event : Call × Reply) : Option JobRow → Option JobRow → Prop
  | gone (before : Option JobRow) (hnot : deliveriesBy id event = []) : JobStep id event before none
  | kept (row : JobRow) (hpublished : id ∉ publishedBy event)
      (hdelivered : deliveriesBy id event = [])
      (hpostponed : ∀ visibleAt, ¬ Postpones id visibleAt event) :
      JobStep id event (some row) (some row)
  | published (row : JobRow) (hid : id ∈ publishedBy event) (hattempts : row.attempts = 0)
      (hdelivered : deliveriesBy id event = []) : JobStep id event none (some row)
  | delivered (row : JobRow) (queue : String) (policy : QueuePolicy) (owner : Identity)
      (nowMillis : ℤ) (exhausted : List Identity) (hvalid : policy.validate = .ok ())
      (heligible : row.eligible queue nowMillis = true)
      (hattempts : row.attempts + 1 ≤ policy.maxAttempts)
      (hevent : event = (.reserveJob queue policy owner nowMillis, .reserved (some
        { lease := { id, queue, owner }
          body := row.body
          attempt := attemptNumber (row.attempts + 1)
          maxAttempts := policy.maxAttempts
          enqueuedAtMillis := row.enqueuedAt }) exhausted)) :
      JobStep id event (some row) (some
        { row with
          attempts := row.attempts + 1
          owner := some owner
          leaseUntil := some (nowMillis + policy.lease.asMillis) })
  | postponed (row : JobRow) (lease : JobLease) (reason : String) (policy : QueuePolicy)
      (nowMillis visibleAt : ℤ) (hid : lease.id = id) (howns : lease.owns id row = true)
      (hevent : event =
        (.failJob lease reason policy nowMillis, .failed (.retried visibleAt))) :
      JobStep id event (some row) (some { row with visibleAt, owner := none, leaseUntil := none })

/-- A job that a transaction leaves alone, whether or not there is one. -/
theorem JobStep.same {id : Identity} {event : Call × Reply} {row : Option JobRow}
    (hpublished : id ∉ publishedBy event) (hdelivered : deliveriesBy id event = [])
    (hpostponed : ∀ visibleAt, ¬ Postpones id visibleAt event) : JobStep id event row row := by
  cases row with
  | none => exact .gone none hdelivered
  | some row => exact .kept row hpublished hdelivered hpostponed

namespace Store

variable {store next : Store}

/-- A plan publishes jobs that were not there, and leaves the other ones alone. -/
theorem applyMutations_job {queues : TreeMap String QueuePolicy}
    {buckets : TreeMap String BucketPolicy} {nowMillis : ℤ} {mutations : List Mutation}
    (happly : mutations.foldlM (applyMutation queues buckets nowMillis) store = .ok next)
    (id : Identity) :
    (id ∈ mutations.filterMap Mutation.publishedId → store.queueJobs.find id = none ∧
      ∃ row, next.queueJobs.find id = some row ∧ row.attempts = 0) ∧
    (id ∉ mutations.filterMap Mutation.publishedId →
      next.queueJobs.find id = store.queueJobs.find id) := by
  refine applyMutations_induction
    (motive := fun mutations store next =>
      (id ∈ mutations.filterMap Mutation.publishedId → store.queueJobs.find id = none ∧
        ∃ row, next.queueJobs.find id = some row ∧ row.attempts = 0) ∧
      (id ∉ mutations.filterMap Mutation.publishedId →
        next.queueJobs.find id = store.queueJobs.find id)) ?_ ?_ happly
  · intro store
    exact ⟨fun hmem => absurd hmem (by simp), fun _ => rfl⟩
  · intro mutation rest store middle next hfirst hrest
    rcases applyMutation_jobs hfirst with
      ⟨hnone, hjobs⟩ | ⟨other, row, hother, habsent, -, hattempts, hjobs⟩
    · rw [List.filterMap_cons_none hnone]
      rw [hjobs] at hrest
      exact hrest
    · rw [List.filterMap_cons_some hother, List.mem_cons]
      rw [hjobs] at hrest
      by_cases hsame : id = other
      · subst hsame
        rw [Table.find_insert_self habsent] at hrest
        refine ⟨?_, ?_⟩
        · intro _
          refine ⟨habsent, row, ?_, hattempts⟩
          refine hrest.2 ?_
          intro hmem
          have hnone := (hrest.1 hmem).1
          cases hnone
        · intro hnot
          exact absurd (Or.inl rfl) hnot
      · rw [Table.find_insert_of_ne (Ne.symm hsame)] at hrest
        refine ⟨?_, ?_⟩
        · rintro (heq | hmem)
          · exact absurd heq hsame
          · exact hrest.1 hmem
        · intro hnot
          rw [not_or] at hnot
          exact hrest.2 hnot.2

/-- A completion leaves a job alone or takes it away. -/
theorem complete_job {nowMillis : ℤ} {completion : Option Completion}
    (hcomplete : store.complete nowMillis completion = .ok next) (id : Identity) :
    next.queueJobs.find id = none ∨ next.queueJobs.find id = store.queueJobs.find id := by
  cases completion with
  | none =>
    rw [complete, Result.pure_eq_ok] at hcomplete
    rw [← hcomplete]
    exact Or.inr rfl
  | some completion =>
    cases completion with
    | job lease =>
      simp only [complete, Result.bind_eq_ok, Result.pure_eq_ok] at hcomplete
      obtain ⟨-, -, hnext⟩ := hcomplete
      rw [← hnext]
      simp only []
      rw [Table.find_delete]
      cases hfind : store.queueJobs.find id with
      | none => exact Or.inl rfl
      | some row =>
        rw [Option.filter_some]
        split
        · exact Or.inr rfl
        · exact Or.inl rfl
    | fire lease =>
      simp only [complete, Result.bind_eq_ok, Result.pure_eq_ok] at hcomplete
      obtain ⟨-, -, hnext⟩ := hcomplete
      rw [← hnext]
      exact Or.inr rfl

theorem commitPlan_job {plan : CommitPlan} {revision : ℕ}
    (hcommit : store.commitPlan plan = .ok (revision, next)) (id : Identity) :
    JobStep id (.commitPlan plan, .committed revision) (store.queueJobs.find id)
      (next.queueJobs.find id) := by
  obtain ⟨-, applied, completed, happlied, hcompleted, hlast⟩ := commitPlan_eq_ok hcommit
  have hjobs : next.queueJobs = completed.queueJobs := by
    rcases hlast with ⟨-, hadvance⟩ | ⟨-, -, hnext⟩
    · rw [(advance_eq_ok hadvance).2]
    · rw [hnext]
  obtain ⟨hpublished, hkept⟩ := applyMutations_job happlied id
  rw [hjobs]
  rcases complete_job hcompleted id with hgone | hsame
  · rw [hgone]
    exact .gone _ rfl
  · rw [hsame]
    by_cases hmem : id ∈ plan.mutations.filterMap Mutation.publishedId
    · obtain ⟨hnone, row, hrow, hattempts⟩ := hpublished hmem
      rw [hnone, hrow]
      exact .published row hmem hattempts rfl
    · rw [hkept hmem]
      exact .same hmem rfl (by intro _ hpostpones; exact hpostpones)

/-- A scan moves jobs to the dead letters and delivers at most one; the others stay. -/
theorem reserveJobScan_job {queue : String} {policy : QueuePolicy} {owner : Identity}
    {nowMillis : ℤ} {left : ℕ} {delivery : Option JobDelivery} {exhausted : List Identity}
    (hscan : reserveJobScan queue policy owner nowMillis left store =
      .ok ((delivery, exhausted), next)) (id : Identity) :
    ((∀ found, delivery = some found → found.lease.id ≠ id) ∧
      (next.queueJobs.find id = none ∨ next.queueJobs.find id = store.queueJobs.find id)) ∨
    ∃ row, store.queueJobs.find id = some row ∧ row.eligible queue nowMillis = true ∧
      row.attempts + 1 ≤ policy.maxAttempts ∧
      delivery = some
        { lease := { id, queue, owner }
          body := row.body
          attempt := attemptNumber (row.attempts + 1)
          maxAttempts := policy.maxAttempts
          enqueuedAtMillis := row.enqueuedAt } ∧
      next.queueJobs.find id = some
        { row with
          attempts := row.attempts + 1
          owner := some owner
          leaseUntil := some (nowMillis + policy.lease.asMillis) } := by
  induction left generalizing store exhausted with
  | zero =>
    rw [reserveJobScan, Result.pure_eq_ok, Prod.mk.injEq, Prod.mk.injEq] at hscan
    rw [← hscan.1.1, ← hscan.2]
    refine Or.inl ⟨?_, Or.inr rfl⟩
    intro found hfound
    cases hfound
  | succ left ih =>
    rcases reserveJobScan_cases hscan with ⟨hnone, -, hnext, -⟩ |
      ⟨before, other, row, rest, middle, hleft, hcandidate, -, hmove, hrest, -⟩ |
      ⟨other, row, leaseUntil, hcandidate, hattempts, hlease, hdelivery, -, hnext⟩
    · rw [hnone, hnext]
      refine Or.inl ⟨?_, Or.inr rfl⟩
      intro found hfound
      cases hfound
    · have hsame : left = before := Nat.succ.inj hleft
      subst hsame
      have hmoved := deadLetter_find hmove
      by_cases hid : id = other
      · -- A job that is moved is not there for the rest of the scan.
        rw [← hid] at hmoved
        rcases ih hrest with ⟨hothers, hfind⟩ | ⟨found, hfound, -⟩
        · rw [hmoved, Function.update_self] at hfind
          exact Or.inl ⟨hothers, Or.inl (hfind.elim (fun hnone => hnone) fun hnone => hnone)⟩
        · rw [hmoved, Function.update_self] at hfound
          cases hfound
      · have hstays : middle.queueJobs.find id = store.queueJobs.find id := by
          rw [hmoved, Function.update_of_ne hid]
        have hlater := ih hrest
        rw [hstays] at hlater
        exact hlater
    · obtain ⟨hfind, heligible⟩ := jobCandidate_eq_some hcandidate
      by_cases hid : id = other
      · subst hid
        right
        refine ⟨row, hfind, heligible, hattempts, hdelivery, ?_⟩
        rw [hnext]
        simp only []
        rw [Table.find_update, hfind, Option.map_some, if_pos (beq_self_eq_true id),
          checkedDeadline_eq_ok hlease]
      · left
        rw [hnext, hdelivery]
        constructor
        · intro found hfound
          rw [Option.some.injEq] at hfound
          rw [← hfound]
          exact Ne.symm hid
        · right
          have hnot : (id == other) = false := beq_eq_false_iff_ne.mpr hid
          simp only []
          rw [Table.find_update]
          cases store.queueJobs.find id with
          | none => rfl
          | some kept => rw [Option.map_some, hnot, if_neg Bool.false_ne_true]

theorem reserveJob_job {queue : String} {policy : QueuePolicy} {owner : Identity}
    {nowMillis : ℤ} {delivery : Option JobDelivery} {exhausted : List Identity}
    (hreserve : store.reserveJob queue policy owner nowMillis = .ok ((delivery, exhausted), next))
    (id : Identity) :
    JobStep id (.reserveJob queue policy owner nowMillis, .reserved delivery exhausted)
      (store.queueJobs.find id) (next.queueJobs.find id) := by
  have hvalid : policy.validate = .ok () := by
    unfold reserveJob at hreserve
    simp only [Result.bind_eq_ok] at hreserve
    obtain ⟨_, hvalid, -⟩ := hreserve
    exact hvalid
  obtain ⟨queueDead, hscan⟩ := reserveJob_eq_ok hreserve
  rcases reserveJobScan_job hscan id with ⟨hothers, hfind⟩ |
    ⟨row, hrow, heligible, hattempts, hdelivery, hnext⟩
  · have hnone : deliveriesBy id
        (.reserveJob queue policy owner nowMillis, .reserved delivery exhausted) = [] := by
      cases delivery with
      | none => rfl
      | some found =>
        exact if_neg (hothers found rfl)
    rcases hfind with hgone | hsame
    · rw [hgone]
      exact .gone _ hnone
    · rw [hsame]
      exact .same List.not_mem_nil hnone (by intro _ hpostpones; exact hpostpones)
  · have hstored : store.queueJobs.find id = some row := hrow
    rw [hstored, hnext]
    refine .delivered row queue policy owner nowMillis exhausted hvalid heligible hattempts ?_
    rw [hdelivery]

theorem failJob_job {lease : JobLease} {reason : String} {policy : QueuePolicy} {nowMillis : ℤ}
    {disposition : JobDisposition}
    (hfail : store.failJob lease reason policy nowMillis = .ok (disposition, next))
    (id : Identity) :
    JobStep id (.failJob lease reason policy nowMillis, .failed disposition)
      (store.queueJobs.find id) (next.queueJobs.find id) := by
  rcases failJob_eq_ok hfail with ⟨-, hlost, hnext⟩ | ⟨row, -, -, -, hdead, hmove⟩ |
    ⟨row, visibleAt, hfind, howns, -, -, hretried, hnext⟩
  · rw [hlost, hnext]
    exact .same List.not_mem_nil rfl (by intro _ hpostpones; exact hpostpones)
  · rw [hdead, deadLetter_find hmove]
    by_cases hid : id = lease.id
    · rw [hid, Function.update_self]
      exact .gone _ rfl
    · rw [Function.update_of_ne hid]
      exact .same List.not_mem_nil rfl (by intro _ hpostpones; exact hpostpones)
  · rw [hretried, hnext]
    simp only []
    rw [Table.find_update]
    by_cases hid : lease.id = id
    · subst hid
      rw [hfind, Option.map_some, if_pos howns]
      exact .postponed row lease reason policy nowMillis visibleAt rfl howns rfl
    · have hothers : (store.queueJobs.find id).map (fun row =>
          if lease.owns id row = true then { row with visibleAt, owner := none, leaseUntil := none }
          else row) = store.queueJobs.find id := by
        cases store.queueJobs.find id with
        | none => rfl
        | some found =>
          have hnot : ¬ lease.owns id found = true := by
            intro howned
            exact hid (lease.owns_id id found howned).symm
          rw [Option.map_some, if_neg hnot]
      rw [hothers]
      refine .same List.not_mem_nil rfl ?_
      rintro instant ⟨hsame, -⟩
      exact hid hsame

/-- A call that says nothing of jobs does nothing to them. -/
theorem frame_job {area : Area} (hframe : area.Frame store next) (houtcome : area ≠ .outcome)
    (hjobs : area ≠ .jobs) : next.queueJobs = store.queueJobs := by
  cases area with
  | outcome => exact absurd rfl houtcome
  | jobs => exact absurd rfl hjobs
  | schedules =>
    obtain ⟨_, _, hnext⟩ := hframe
    rw [hnext]
  | replay =>
    obtain ⟨_, hnext⟩ := hframe
    rw [hnext]
    rfl
  | idempotency =>
    obtain ⟨_, hnext⟩ := hframe
    rw [hnext]
    rfl

end Store

theorem JobStep.answer {store : Store} {α : Type} {reply : α → Reply} {call : Call}
    {outcome : Except StateError (α × Store)} {id : Identity}
    (haccepted : ∀ result next, outcome = .ok (result, next) →
      JobStep id (call, reply result) (store.queueJobs.find id) (next.queueJobs.find id)) :
    JobStep id (call, (Durable.answer store reply outcome).1) (store.queueJobs.find id)
      ((Durable.answer store reply outcome).2.queueJobs.find id) := by
  cases houtcome : outcome with
  | ok accepted => exact haccepted accepted.1 accepted.2 houtcome
  | error error =>
    have hpublished : publishedBy (call, .refused error) = [] := by cases call <;> rfl
    have hpostponed : ∀ visibleAt, ¬ Postpones id visibleAt (call, .refused error) := by
      intro visibleAt hpostpones
      cases call <;> exact hpostpones
    exact .same (by rw [Durable.answer, hpublished]; exact List.not_mem_nil) rfl hpostponed

/-- A call on schedules or records is none of the events of a job. -/
theorem JobStep.aside {call : Call} {reply : Reply} {id : Identity} {row : Option JobRow}
    (houtcome : call.area ≠ .outcome) (hjobs : call.area ≠ .jobs)
    (hreply : ∀ delivery exhausted, reply ≠ .reserved (some delivery) exhausted) :
    JobStep id (call, reply) row row := by
  refine .same ?_ ?_ ?_
  · cases call with
    | commitPlan plan => exact absurd rfl houtcome
    | _ => exact List.not_mem_nil
  · cases reply with
    | reserved delivery exhausted =>
      cases delivery with
      | none => rfl
      | some delivery => exact absurd rfl (hreply delivery exhausted)
    | _ => rfl
  · intro visibleAt hpostpones
    cases call with
    | failJob lease reason policy now => exact absurd rfl hjobs
    | _ => exact hpostpones

theorem answer_ne_reserved {store : Store} {α : Type} {reply : α → Reply}
    {outcome : Except StateError (α × Store)}
    (hreply : ∀ result delivery exhausted, reply result ≠ .reserved (some delivery) exhausted) :
    ∀ delivery exhausted,
      (answer store reply outcome).1 ≠ .reserved (some delivery) exhausted := by
  intro delivery exhausted
  cases outcome with
  | ok accepted => exact hreply accepted.1 delivery exhausted
  | error error => nofun

/-- What one call does to one job. -/
theorem Store.step_job (store : Store) (call : Call) (id : Identity) :
    JobStep id (call, (store.step call).1) (store.queueJobs.find id)
      ((store.step call).2.queueJobs.find id) := by
  have hframe := Store.step_frame store call
  cases call with
  | commitPlan plan => exact JobStep.answer fun _ _ hcommit => Store.commitPlan_job hcommit id
  | reserveJob queue policy owner now =>
    refine JobStep.answer ?_
    rintro ⟨delivery, exhausted⟩ next hreserve
    exact Store.reserveJob_job hreserve id
  | failJob lease reason policy now =>
    exact JobStep.answer fun _ _ hfail => Store.failJob_job hfail id
  | abortReplay lease => exact .aside nofun nofun nofun
  | abortIdempotency lease => exact .aside nofun nofun nofun
  | _ =>
    rw [Store.frame_job hframe nofun nofun]
    exact .aside nofun nofun (answer_ne_reserved fun _ => nofun)

/-! ## What the row of a job remembers -/

theorem Delivers.deliveriesBy_ne_nil {id : Identity} {lease : JobLease} {instant deadline : ℤ}
    {event : Call × Reply} (hdelivers : Delivers id lease instant deadline event) :
    deliveriesBy id event ≠ [] := by
  unfold Delivers at hdelivers
  split at hdelivers
  · obtain ⟨hlease, hid, -, -⟩ := hdelivers
    simp only [deliveriesBy, hlease, if_pos hid]
    exact List.cons_ne_nil _ _
  · exact hdelivers.elim

theorem Postpones.publishedBy_eq_nil {id : Identity} {visibleAt : ℤ} {event : Call × Reply}
    (hpostpones : Postpones id visibleAt event) : publishedBy event = [] := by
  unfold Postpones at hpostpones
  split at hpostpones
  · rfl
  · exact hpostpones.elim

/-- An event after which a lease is still the one of its job: the job is not published
anew, its delivery is not finished, and no caller finds the lease run out. -/
def Holds (id : Identity) (lease : JobLease) (deadline : ℤ) (event : Call × Reply) : Prop :=
  id ∉ publishedBy event ∧ ¬ lease.FinishedBy event ∧
    ∀ other instant last, Delivers id other instant last event → instant < deadline

/-- An event after which the last failure of a job is still its last one. -/
def StaysPostponed (id : Identity) (event : Call × Reply) : Prop :=
  id ∉ publishedBy event ∧ ∀ visibleAt, ¬ Postpones id visibleAt event

/-- The deliveries of a job are numbered from one and within the bound of its queue; its
row counts them, and keeps the lease that nothing has ended and the last instant to which
a failure has put it off. -/
structure JobInvariant (policies : Policies) (past : List (Call × Reply)) (id : Identity)
    (row : Option JobRow) : Prop where
  attempts : (deliveriesOf id past).map JobDelivery.attempt =
    List.range' 1 (deliveriesOf id past).length
  bounded : ∀ delivery ∈ deliveriesOf id past, (deliveriesOf id past).length ≤
    (policies.queues delivery.lease.queue).maxAttempts
  counted : ∀ job, row = some job → job.attempts = ((deliveriesOf id past).length : ℤ)
  queue : ∀ job, row = some job → ∀ delivery ∈ deliveriesOf id past,
    delivery.lease.queue = job.queue
  held : ∀ job, row = some job → ∀ lease instant deadline,
    Since (Delivers id lease instant deadline) (Holds id lease deadline) past →
    job.leaseUntil = some deadline ∧ lease.owns id job = true
  postponed : ∀ job, row = some job → ∀ visibleAt,
    Since (Postpones id visibleAt) (StaysPostponed id) past → job.visibleAt = visibleAt

theorem JobInvariant.open (policies : Policies) (id : Identity) :
    JobInvariant policies [] id none where
  attempts := rfl
  bounded := nofun
  counted := nofun
  queue := nofun
  held := nofun
  postponed := nofun

section Step

variable {policies : Policies} {past : List (Call × Reply)} {id : Identity} {event : Call × Reply}
  {before : Option JobRow} {row : JobRow}

theorem JobInvariant.gone (hinvariant : JobInvariant policies past id before)
    (hnone : deliveriesBy id event = []) : JobInvariant policies (past ++ [event]) id none := by
  refine ⟨?_, ?_, nofun, nofun, nofun, nofun⟩
  · rw [deliveriesOf_concat, hnone, List.append_nil]
    split
    · rfl
    · exact hinvariant.attempts
  · rw [deliveriesOf_concat, hnone, List.append_nil]
    split
    · exact nofun
    · exact hinvariant.bounded

theorem JobInvariant.kept (hinvariant : JobInvariant policies past id (some row))
    (hpublished : id ∉ publishedBy event) (hnone : deliveriesBy id event = [])
    (hpostponed : ∀ visibleAt, ¬ Postpones id visibleAt event) :
    JobInvariant policies (past ++ [event]) id (some row) := by
  have hsame : deliveriesOf id (past ++ [event]) = deliveriesOf id past := by
    rw [deliveriesOf_concat, if_neg hpublished, hnone, List.append_nil]
  refine ⟨?_, ?_, ?_, ?_, ?_, ?_⟩
  · rw [hsame]
    exact hinvariant.attempts
  · rw [hsame]
    exact hinvariant.bounded
  · rw [hsame]
    exact hinvariant.counted
  · rw [hsame]
    exact hinvariant.queue
  · intro job hjob lease instant deadline hsince
    rcases since_concat.mp hsince with hstart | ⟨hpast, -⟩
    · exact absurd hnone hstart.deliveriesBy_ne_nil
    · exact hinvariant.held job hjob lease instant deadline hpast
  · intro job hjob visibleAt hsince
    rcases since_concat.mp hsince with hstart | ⟨hpast, -⟩
    · exact absurd hstart (hpostponed visibleAt)
    · exact hinvariant.postponed job hjob visibleAt hpast

/-- A published job has no deliveries yet. -/
theorem JobInvariant.published (hid : id ∈ publishedBy event) (hattempts : row.attempts = 0)
    (hnone : deliveriesBy id event = []) :
    JobInvariant policies (past ++ [event]) id (some row) := by
  have hempty : deliveriesOf id (past ++ [event]) = [] := by
    rw [deliveriesOf_concat, if_pos hid]
  refine ⟨?_, ?_, ?_, ?_, ?_, ?_⟩
  · rw [hempty]
    rfl
  · rw [hempty]
    exact nofun
  · intro job hjob
    rw [Option.some.injEq] at hjob
    rw [hempty, ← hjob]
    exact hattempts
  · rw [hempty]
    intro job hjob delivery hdelivery
    cases hdelivery
  · intro job hjob lease instant deadline hsince
    rcases since_concat.mp hsince with hstart | ⟨-, hkept⟩
    · exact absurd hnone hstart.deliveriesBy_ne_nil
    · exact absurd hid hkept.1
  · intro job hjob visibleAt hsince
    rcases since_concat.mp hsince with hstart | ⟨-, hkept⟩
    · rw [hstart.publishedBy_eq_nil] at hid
      cases hid
    · exact absurd hid hkept.1

/-- The next delivery has the next number, and what was held has run out. -/
theorem JobInvariant.delivered {queue : String} {policy : QueuePolicy} {owner : Identity}
    {nowMillis : ℤ} {exhausted : List Identity} {delivery : JobDelivery}
    (hinvariant : JobInvariant policies past id (some row))
    (hunder : policy = policies.queues queue) (hvalid : policy.validate = .ok ())
    (heligible : row.eligible queue nowMillis = true)
    (hattempts : row.attempts + 1 ≤ policy.maxAttempts)
    (hlease : delivery.lease = { id, queue, owner })
    (hattempt : delivery.attempt = attemptNumber (row.attempts + 1))
    (hevent : event =
      (.reserveJob queue policy owner nowMillis, .reserved (some delivery) exhausted)) :
    JobInvariant policies (past ++ [event]) id (some
      { row with
        attempts := row.attempts + 1
        owner := some owner
        leaseUntil := some (nowMillis + policy.lease.asMillis) }) := by
  have hqueue := Store.eligible_queue heligible
  have hcounted := hinvariant.counted row rfl
  have hpublished : id ∉ publishedBy event := by
    rw [hevent]
    exact List.not_mem_nil
  have hmine : deliveriesBy id event = [delivery] := by
    rw [hevent]
    simp only [deliveriesBy, hlease, if_true]
  have hdeliveries : deliveriesOf id (past ++ [event]) = deliveriesOf id past ++ [delivery] := by
    rw [deliveriesOf_concat, if_neg hpublished, hmine]
  have hlength : (deliveriesOf id past ++ [delivery]).length = (deliveriesOf id past).length + 1 :=
    List.length_append
  have hnumber : delivery.attempt = (deliveriesOf id past).length + 1 := by
    have hmost := (QueuePolicy.valid_of_validate hvalid).attempts.2
    unfold maxDeliveryAttempts at hmost
    rw [hattempt]
    unfold attemptNumber
    rw [if_pos (by omega)]
    omega
  have hqueues : ∀ other ∈ deliveriesOf id past ++ [delivery], other.lease.queue = queue := by
    intro other hother
    rcases List.mem_append.mp hother with hearlier | hlast
    · rw [hinvariant.queue row rfl other hearlier, hqueue]
    · rw [List.mem_singleton.mp hlast, hlease]
  refine ⟨?_, ?_, ?_, ?_, ?_, ?_⟩
  · rw [hdeliveries, List.map_append, List.map_singleton, hlength, List.range'_concat,
      hinvariant.attempts, hnumber]
    simp [Nat.add_comm]
  · rw [hdeliveries]
    intro other hother
    rw [hqueues other hother, ← hunder, hlength]
    omega
  · intro job hjob
    rw [Option.some.injEq] at hjob
    rw [hdeliveries, hlength, ← hjob]
    simp only []
    omega
  · rw [hdeliveries]
    intro job hjob other hother
    rw [Option.some.injEq] at hjob
    rw [hqueues other hother, ← hjob]
    exact hqueue.symm
  · intro job hjob lease instant deadline hsince
    rw [Option.some.injEq] at hjob
    rw [← hjob]
    rcases since_concat.mp hsince with hstart | ⟨hpast, hholds⟩
    · rw [hevent] at hstart
      obtain ⟨hsame, -, -, hdeadline⟩ := hstart
      rw [hdeadline, ← hsame, hlease]
      exact ⟨rfl, JobLease.owns_iff.mpr ⟨rfl, hqueue, rfl⟩⟩
    · -- A lease that was held has run out, so this delivery ends it.
      have hheld := (hinvariant.held row rfl lease instant deadline hpast).1
      have hfree : leaseFree row.leaseUntil nowMillis = true := by
        unfold JobRow.eligible at heligible
        rw [Bool.and_eq_true] at heligible
        exact heligible.2
      unfold leaseFree at hfree
      rw [hheld, Option.all_some, decide_eq_true_eq] at hfree
      have hdelivers : Delivers id { id, queue, owner } nowMillis
          (nowMillis + policy.lease.asMillis) event := by
        rw [hevent]
        exact ⟨hlease, rfl, rfl, rfl⟩
      have hlater := hholds.2.2 _ _ _ hdelivers
      omega
  · intro job hjob visibleAt hsince
    rw [Option.some.injEq] at hjob
    rw [← hjob]
    rcases since_concat.mp hsince with hstart | ⟨hpast, -⟩
    · rw [hevent] at hstart
      exact hstart.elim
    · exact hinvariant.postponed row rfl visibleAt hpast

/-- A failure ends the lease that the job was held under. -/
theorem JobInvariant.postpone {lease : JobLease} {reason : String} {policy : QueuePolicy}
    {nowMillis visibleAt : ℤ} (hinvariant : JobInvariant policies past id (some row))
    (hid : lease.id = id) (howns : lease.owns id row = true)
    (hevent : event = (.failJob lease reason policy nowMillis, .failed (.retried visibleAt))) :
    JobInvariant policies (past ++ [event]) id
      (some { row with visibleAt, owner := none, leaseUntil := none }) := by
  have hpublished : id ∉ publishedBy event := by
    rw [hevent]
    exact List.not_mem_nil
  have hnone : deliveriesBy id event = [] := by rw [hevent]; rfl
  have hpostpones : Postpones id visibleAt event := by
    rw [hevent]
    exact ⟨hid, rfl⟩
  have hsame : deliveriesOf id (past ++ [event]) = deliveriesOf id past := by
    rw [deliveriesOf_concat, if_neg hpublished, hnone, List.append_nil]
  refine ⟨?_, ?_, ?_, ?_, ?_, ?_⟩
  · rw [hsame]
    exact hinvariant.attempts
  · rw [hsame]
    exact hinvariant.bounded
  · rw [hsame]
    intro job hjob
    rw [Option.some.injEq] at hjob
    rw [← hjob]
    exact hinvariant.counted row rfl
  · rw [hsame]
    intro job hjob
    rw [Option.some.injEq] at hjob
    rw [← hjob]
    exact hinvariant.queue row rfl
  · intro job hjob other instant deadline hsince
    rcases since_concat.mp hsince with hstart | ⟨hpast, hholds⟩
    · exact absurd hnone hstart.deliveriesBy_ne_nil
    · have hother := (hinvariant.held row rfl other instant deadline hpast).2
      obtain ⟨-, hqueue, howner⟩ := JobLease.owns_iff.mp howns
      obtain ⟨hotherId, hotherQueue, hotherOwner⟩ := JobLease.owns_iff.mp hother
      have hlease : other = lease := by
        rw [howner, Option.some.injEq] at hotherOwner
        cases other
        cases lease
        simp only [JobLease.mk.injEq]
        exact ⟨hotherId.symm.trans hid.symm, hotherQueue.symm.trans hqueue, hotherOwner.symm⟩
      refine absurd ?_ hholds.2.1
      rw [hlease]
      exact Or.inr ⟨reason, policy, nowMillis, .retried visibleAt, nofun, hevent⟩
  · intro job hjob instant hsince
    rw [Option.some.injEq] at hjob
    rw [← hjob]
    rcases since_concat.mp hsince with hstart | ⟨-, hkept⟩
    · rw [hevent] at hstart
      exact hstart.2
    · exact absurd hpostpones (hkept.2 visibleAt)

theorem JobInvariant.step {after : Option JobRow}
    (hinvariant : JobInvariant policies past id before) (hstep : JobStep id event before after)
    (hunder : event.1.Under policies) : JobInvariant policies (past ++ [event]) id after := by
  cases hstep with
  | gone _ hnone => exact hinvariant.gone hnone
  | kept row hpublished hnone hpostponed => exact hinvariant.kept hpublished hnone hpostponed
  | published row hid hattempts hnone => exact JobInvariant.published hid hattempts hnone
  | delivered row queue policy owner nowMillis exhausted hvalid heligible hattempts hevent =>
    rw [hevent] at hunder
    exact hinvariant.delivered hunder hvalid heligible hattempts rfl rfl hevent
  | postponed row lease reason policy nowMillis visibleAt hid howns hevent =>
    exact hinvariant.postpone hid howns hevent

end Step

/-! ## Deliveries in time -/

/-- A delivery of a job comes when every lease that still holds it has run out, and not
before the instant to which its last failure has put it off. -/
def InTime (past : List (Call × Reply)) (event : Call × Reply) : Prop :=
  ∀ id lease instant deadline, Delivers id lease instant deadline event →
    (∀ other earlier last, Since (Delivers id other earlier last) (Holds id other last) past →
      last ≤ instant) ∧
    ∀ visibleAt, Since (Postpones id visibleAt) (StaysPostponed id) past → visibleAt ≤ instant

theorem JobInvariant.inTime {policies : Policies} {past : List (Call × Reply)}
    {event : Call × Reply} {before after : Identity → Option JobRow}
    (hinvariant : ∀ id, JobInvariant policies past id (before id))
    (hstep : ∀ id, JobStep id event (before id) (after id)) : InTime past event := by
  intro id lease instant deadline hdelivers
  have hjob := hinvariant id
  have hdelivered := hstep id
  have hsome := hdelivers.deliveriesBy_ne_nil
  generalize before id = row at hjob hdelivered
  generalize after id = next at hdelivered
  cases hdelivered with
  | gone _ hnone => exact absurd hnone hsome
  | kept row _ hnone _ => exact absurd hnone hsome
  | published row _ _ hnone => exact absurd hnone hsome
  | postponed row failed reason policy nowMillis visibleAt _ _ hevent =>
    rw [hevent] at hsome
    exact absurd rfl hsome
  | delivered row queue policy owner nowMillis exhausted _ heligible _ hevent =>
    rw [hevent] at hdelivers
    obtain ⟨-, -, hinstant, -⟩ := hdelivers
    unfold JobRow.eligible at heligible
    rw [Bool.and_eq_true, Bool.and_eq_true, decide_eq_true_eq] at heligible
    obtain ⟨⟨-, hvisible⟩, hfree⟩ := heligible
    refine ⟨?_, ?_⟩
    · intro other earlier last hsince
      have hheld := (hjob.held row rfl other earlier last hsince).1
      unfold leaseFree at hfree
      rw [hheld, Option.all_some, decide_eq_true_eq] at hfree
      omega
    · intro visibleAt hsince
      have hpostponed := hjob.postponed row rfl visibleAt hsince
      omega

/-- The instants at which a job is delivered never go back. -/
def ClocksInOrder (past : List (Call × Reply)) : Prop :=
  past.Pairwise fun first second => ∀ id lease instant deadline other later last,
    Delivers id lease instant deadline first → Delivers id other later last second →
    instant ≤ later

/-- The deliveries of every job in a run. -/
structure BoundedRedelivery (policies : Policies) (past : List (Call × Reply)) : Prop where
  attempts : ∀ id, (deliveriesOf id past).map JobDelivery.attempt =
    List.range' 1 (deliveriesOf id past).length
  bounded : ∀ id, ∀ delivery ∈ deliveriesOf id past, (deliveriesOf id past).length ≤
    (policies.queues delivery.lease.queue).maxAttempts
  inTime : Throughout InTime past
  leased : ClocksInOrder past → Throughout (fun before event =>
    ∀ id lease instant deadline, Delivers id lease instant deadline event →
      ∀ other earlier last, Since (Delivers id other earlier last)
        (fun between => id ∉ publishedBy between ∧ ¬ other.FinishedBy between) before →
        last ≤ instant) past

theorem BoundedRedelivery.of_invariant {policies : Policies} {past : List (Call × Reply)}
    {jobs : Identity → Option JobRow} (hjobs : ∀ id, JobInvariant policies past id (jobs id))
    (hinTime : Throughout InTime past) : BoundedRedelivery policies past where
  attempts id := (hjobs id).attempts
  bounded id := (hjobs id).bounded
  inTime := hinTime
  leased := by
    intro hclocks before event after hsplit id lease instant deadline hdelivers other earlier last
      hsince
    obtain ⟨first, start, between, hbefore, hstart, hkept⟩ := hsince
    by_cases hheld : ∀ later ∈ between, Holds id other last later
    · exact ((hinTime before event after hsplit) id lease instant deadline hdelivers).1 other
        earlier last ⟨first, start, between, hbefore, hstart, hheld⟩
    · -- A later delivery has found the lease run out, and clocks do not go back.
      push Not at hheld
      obtain ⟨later, hlater, hbroken⟩ := hheld
      obtain ⟨hpublished, hfinished⟩ := hkept later hlater
      unfold Holds at hbroken
      push Not at hbroken
      obtain ⟨found, middle, expiry, hfound, hover⟩ := hbroken hpublished hfinished
      have hmem : later ∈ before := by
        rw [hbefore]
        exact List.mem_append_right _ (List.mem_cons_of_mem _ hlater)
      rw [ClocksInOrder, hsplit, List.pairwise_append] at hclocks
      have horder := hclocks.2.2 later hmem event List.mem_cons_self id found middle expiry lease
        instant deadline hfound hdelivers
      omega

/-- Every job is delivered at most as often as its policy allows, its attempts counted
from one.  No delivery comes before the instant that its last failure has set, or while
the last lease on it is held and has not run out; where clocks do not go back, no earlier
lease is left either. -/
theorem redelivery_bounded (limits : StoreLimits) (policies : Policies) (calls : List Call)
    (hcalls : ∀ call ∈ calls, call.Under policies) :
    BoundedRedelivery policies (history (Store.open limits) calls) := by
  have hinvariant := @History.invariant _ _ _ Store.step
    (fun past store => (∀ event ∈ past, event.1.Under policies) →
      (∀ id, JobInvariant policies past id (store.queueJobs.find id)) ∧ Throughout InTime past)
    (.open limits) (fun _ => ⟨fun id => .open policies id, throughout_nil⟩) ?_ calls
  · obtain ⟨hjobs, hinTime⟩ := hinvariant fun event hevent =>
      hcalls event.1 (fst_mem_of_mem_history Store.step hevent)
    exact .of_invariant hjobs hinTime
  · intro past store call hpast hunder
    obtain ⟨hjobs, hinTime⟩ := hpast fun event hevent =>
      hunder event (List.mem_append_left _ hevent)
    have hlast := hunder (call, (store.step call).1) (by simp)
    refine ⟨?_, hinTime.concat (JobInvariant.inTime hjobs fun id => store.step_job call id)⟩
    intro id
    exact (hjobs id).step (store.step_job call id) hlast

/-- A job is delivered, its failure puts it off, and it is delivered again. -/
def sampleRedeliveries : List Call :=
  [.commitPlan (samplePublication 7),
    .reserveJob "work" (samplePolicies.queues "work") 100 10,
    .failJob ⟨7, "work", 100⟩ "again" (samplePolicies.queues "work") 20,
    .reserveJob "work" (samplePolicies.queues "work") 101 60,
    .reserveJob "work" (samplePolicies.queues "work") 102 120]

theorem redelivery_bounded_sample :
    BoundedRedelivery samplePolicies (history (Store.open sampleLimits) sampleRedeliveries) ∧
      (deliveriesOf 7 (history (Store.open sampleLimits) sampleRedeliveries)).map
        (fun delivery => (delivery.lease.owner, delivery.attempt)) = [(100, 1), (102, 2)] := by
  refine ⟨redelivery_bounded sampleLimits samplePolicies sampleRedeliveries ?_, by decide +kernel⟩
  intro call hcall
  unfold sampleRedeliveries at hcall
  rcases List.mem_cons.mp hcall with hplan | hcall
  · rw [hplan]
    exact samplePublication_under 7
  · simp only [List.mem_cons, List.not_mem_nil, or_false] at hcall
    rcases hcall with hcall | hcall | hcall | hcall
    all_goals
      rw [hcall]
      rfl

/-- The second worker finds the lease of the first run out, and fails; the clock of the
third is behind. -/
def overtakenLeaseCalls : List Call :=
  [.commitPlan (samplePublication 7),
    .reserveJob "work" (samplePolicies.queues "work") 100 10,
    .reserveJob "work" (samplePolicies.queues "work") 101 2000,
    .failJob ⟨7, "work", 101⟩ "again" (samplePolicies.queues "work") 20,
    .reserveJob "work" (samplePolicies.queues "work") 102 300]

theorem delivers_of_deliveriesBy {id owner : Identity} {queue : String} {policy : QueuePolicy}
    {nowMillis : ℤ} {reply : Reply} {lease : JobLease}
    (hdelivered : (deliveriesBy id (.reserveJob queue policy owner nowMillis, reply)).map
      JobDelivery.lease = [lease]) :
    Delivers id lease nowMillis (nowMillis + policy.lease.asMillis)
      (.reserveJob queue policy owner nowMillis, reply) := by
  unfold deliveriesBy at hdelivered
  split at hdelivered
  · rename_i call delivery exhausted hevent
    cases hevent
    split at hdelivered
    · rename_i hid
      have hlease : delivery.lease = lease := List.singleton_injective hdelivered
      rw [hlease] at hid
      exact ⟨hlease, hid, rfl, rfl⟩
    · cases hdelivered
  · cases hdelivered

/-- At 300 a job is delivered under a third lease while the first, which runs to 1010, is
neither acknowledged nor failed. -/
theorem delivered_under_earlier_lease :
    (samplePolicies.queues "work").validate = .ok () ∧
    (∀ call ∈ overtakenLeaseCalls, call.Under samplePolicies) ∧
    ∃ before event, history (Store.open sampleLimits) overtakenLeaseCalls = before ++ [event] ∧
      Delivers 7 ⟨7, "work", 102⟩ 300 1300 event ∧
      Since (Delivers 7 ⟨7, "work", 100⟩ 10 1010) (fun between => 7 ∉ publishedBy between ∧
        ¬ JobLease.FinishedBy ⟨7, "work", 100⟩ between) before := by
  refine ⟨Result.eq_ok_of_toBool (by decide +kernel), ?_, ?_⟩
  · intro call hcall
    unfold overtakenLeaseCalls at hcall
    rcases List.mem_cons.mp hcall with hplan | hcall
    · rw [hplan]
      exact samplePublication_under 7
    · simp only [List.mem_cons, List.not_mem_nil, or_false] at hcall
      rcases hcall with hcall | hcall | hcall | hcall
      all_goals
        rw [hcall]
        rfl
  · obtain ⟨published, first, second, failed, third, hhistory⟩ :
        ∃ published first second failed third,
          history (Store.open sampleLimits) overtakenLeaseCalls =
            [(.commitPlan (samplePublication 7), published),
              (.reserveJob "work" (samplePolicies.queues "work") 100 10, first),
              (.reserveJob "work" (samplePolicies.queues "work") 101 2000, second),
              (.failJob ⟨7, "work", 101⟩ "again" (samplePolicies.queues "work") 20, failed),
              (.reserveJob "work" (samplePolicies.queues "work") 102 300, third)] :=
      ⟨_, _, _, _, _, rfl⟩
    have hleases : (history (Store.open sampleLimits) overtakenLeaseCalls).map
        (fun event => (deliveriesBy 7 event).map JobDelivery.lease) =
        [[], [⟨7, "work", 100⟩], [⟨7, "work", 101⟩], [], [⟨7, "work", 102⟩]] := by
      decide +kernel
    rw [hhistory] at hleases ⊢
    simp only [List.map_cons, List.map_nil, List.cons.injEq, and_true] at hleases
    obtain ⟨-, hfirst, -, -, hthird⟩ := hleases
    have hlease : (samplePolicies.queues "work").lease.asMillis = 1000 := by decide
    have hlast := delivers_of_deliveriesBy hthird
    have hearlier := delivers_of_deliveriesBy hfirst
    rw [hlease] at hlast hearlier
    refine ⟨[_, _, _, _], _, rfl, hlast, [_], _, [_, _], rfl, hearlier, ?_⟩
    intro between hbetween
    rcases List.mem_cons.mp hbetween with hsecond | hfailed
    · rw [hsecond]
      refine ⟨List.not_mem_nil, ?_⟩
      rintro (hmem | ⟨reason, policy, nowMillis, disposition, -, hevent⟩)
      · exact absurd hmem List.not_mem_nil
      · rw [Prod.mk.injEq] at hevent
        cases hevent.1
    · rw [List.mem_singleton.mp hfailed]
      refine ⟨List.not_mem_nil, ?_⟩
      rintro (hmem | ⟨reason, policy, nowMillis, disposition, -, hevent⟩)
      · exact absurd hmem List.not_mem_nil
      · rw [Prod.mk.injEq, Call.failJob.injEq, JobLease.mk.injEq] at hevent
        exact absurd hevent.1.1.2.2 (by decide)

end Krit.Durable
