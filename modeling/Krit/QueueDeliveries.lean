import Krit.StoreRuns

/-!
# Queue deliveries

A transaction moves jobs between four places: it publishes new ones, acknowledges one
with a lease, moves exhausted ones to the dead letters, and keeps the others.  What
one transaction can do to the jobs is said once, as an effect.  A lease that owns no
job neither acknowledges nor fails one.
-/

namespace Krit.Durable

open Machine Std

/-! ## What a run has done -/

def Mutation.publishedId : Mutation → Option Identity
  | .queuePublish _ id _ => some id
  | _ => none

/-- The jobs that a transaction published. -/
def publishedBy : Call × Reply → List Identity
  | (.commitPlan plan, .committed _) => plan.mutations.filterMap Mutation.publishedId
  | _ => []

/-- The lease with which a transaction acknowledged a job. -/
def acknowledgedBy : Call × Reply → List JobLease
  | (.commitPlan plan, .committed _) =>
      match plan.completion with
      | some (.job lease) => [lease]
      | _ => []
  | _ => []

/-- The lease under which a transaction delivered a job. -/
def deliveredBy : Call × Reply → List JobLease
  | (_, .reserved (some delivery) _) => [delivery.lease]
  | _ => []

def published (past : List (Call × Reply)) : List Identity := past.flatMap publishedBy

def acknowledged (past : List (Call × Reply)) : List JobLease := past.flatMap acknowledgedBy

def delivered (past : List (Call × Reply)) : List JobLease := past.flatMap deliveredBy

/-! ## The effect of a transaction on the jobs -/

/-- The jobs after a transaction: none is lost or doubled, and a job is owned by the
delivery of this transaction, or by its owner before, or by nobody. -/
structure JobsEffect (before after : Table Identity JobRow) (published : List Identity)
    (acknowledged : List JobLease) (moved : List Identity) (delivered : List JobLease) : Prop where
  conserved : (before.keys ++ published).Perm
    (after.keys ++ acknowledged.map JobLease.id ++ moved)
  owned : ∀ id row owner, after.find id = some row → row.owner = some owner →
    delivered = [⟨id, row.queue, owner⟩] ∨
      ((∀ lease ∈ delivered, lease.id ≠ id) ∧
        ∃ old, before.find id = some old ∧ old.owner = some owner ∧ old.queue = row.queue)
  acknowledges : ∀ lease ∈ acknowledged, ∃ old, before.find lease.id = some old ∧
    old.owner = some lease.owner ∧ old.queue = lease.queue

namespace JobsEffect

variable {before after : Table Identity JobRow}

theorem refl (jobs : Table Identity JobRow) : JobsEffect jobs jobs [] [] [] [] where
  conserved := by simp
  owned := by
    intro id row owner hfind howner
    exact Or.inr ⟨by simp, row, hfind, howner, rfl⟩
  acknowledges := by simp

theorem owned_before {published moved : List Identity}
    (heffect : JobsEffect before after published [] moved []) {id : Identity} {row : JobRow}
    {owner : Identity} (hfind : after.find id = some row) (howner : row.owner = some owner) :
    ∃ old, before.find id = some old ∧ old.owner = some owner ∧ old.queue = row.queue := by
  rcases heffect.owned id row owner hfind howner with hdelivered | ⟨-, hold⟩
  · cases hdelivered
  · exact hold

/-- Publications and moves, and then a transaction that may also acknowledge and
deliver. -/
theorem trans {middle : Table Identity JobRow} {published published' moved moved' : List Identity}
    {acknowledged delivered : List JobLease}
    (hfirst : JobsEffect before middle published [] moved [])
    (hsecond : JobsEffect middle after published' acknowledged moved' delivered) :
    JobsEffect before after (published ++ published') acknowledged (moved ++ moved')
      delivered where
  conserved := by
    have hone := hfirst.conserved
    have htwo := hsecond.conserved
    rw [List.map_nil, List.append_nil] at hone
    calc before.keys ++ (published ++ published')
        = before.keys ++ published ++ published' := (List.append_assoc _ _ _).symm
      _ |>.Perm (middle.keys ++ moved ++ published') := hone.append_right published'
      _ |>.Perm (middle.keys ++ published' ++ moved) := by
          rw [List.append_assoc, List.append_assoc]
          exact List.perm_append_comm.append_left middle.keys
      _ |>.Perm (after.keys ++ acknowledged.map JobLease.id ++ moved' ++ moved) :=
          htwo.append_right moved
      _ |>.Perm (after.keys ++ acknowledged.map JobLease.id ++ (moved ++ moved')) := by
          rw [List.append_assoc]
          exact List.perm_append_comm.append_left _
  owned := by
    intro id row owner hfind howner
    rcases hsecond.owned id row owner hfind howner with
      hdelivered | ⟨hnone, old, hold, hsame, hqueue⟩
    · exact Or.inl hdelivered
    · obtain ⟨first, hfound, hfirstOwner, hfirstQueue⟩ := hfirst.owned_before hold hsame
      exact Or.inr ⟨hnone, first, hfound, hfirstOwner, hfirstQueue.trans hqueue⟩
  acknowledges := by
    intro lease hlease
    obtain ⟨old, hold, howner, hqueue⟩ := hsecond.acknowledges lease hlease
    obtain ⟨first, hfound, hfirstOwner, hfirstQueue⟩ := hfirst.owned_before hold howner
    exact ⟨first, hfound, hfirstOwner, hfirstQueue.trans hqueue⟩

/-- A job that nobody owns is added. -/
theorem insert {jobs : Table Identity JobRow} {id : Identity} (habsent : jobs.find id = none)
    {row : JobRow} (hrow : row.owner = none) :
    JobsEffect jobs (jobs.insert id row) [id] [] [] [] where
  conserved := by
    rw [Table.keys_insert habsent]
    simp
  owned := by
    intro other found owner hfind howner
    by_cases hkey : id = other
    · subst hkey
      rw [Table.find_insert_self habsent, Option.some.injEq] at hfind
      rw [← hfind, hrow] at howner
      cases howner
    · rw [Table.find_insert_of_ne hkey] at hfind
      exact Or.inr ⟨by simp, found, hfind, howner, rfl⟩
  acknowledges := by simp

/-- Rows change without a new owner. -/
theorem disown {jobs : Table Identity JobRow} {condition : Identity → JobRow → Bool}
    (change : JobRow → JobRow) (hchange : ∀ row, (change row).owner = none) :
    JobsEffect jobs (jobs.update condition change) [] [] [] [] where
  conserved := by
    rw [Table.keys_update]
    simp
  owned := by
    intro id row owner hfind howner
    rw [Table.find_update, Option.map_eq_some_iff] at hfind
    obtain ⟨old, hold, hrow⟩ := hfind
    by_cases hcondition : condition id old = true
    · rw [if_pos hcondition] at hrow
      rw [← hrow, hchange] at howner
      cases howner
    · rw [if_neg hcondition] at hrow
      subst hrow
      exact Or.inr ⟨by simp, old, hold, howner, rfl⟩
  acknowledges := by simp

/-- One row is removed, for whatever reason. -/
theorem remove {jobs : Table Identity JobRow} {condition : Identity → JobRow → Bool}
    {id : Identity} {row : JobRow} (hfind : jobs.find id = some row)
    (hrow : condition id row = true)
    (hothers : ∀ other found, condition other found = true → other = id)
    {acknowledged : List JobLease} {moved : List Identity}
    (hgone : acknowledged.map JobLease.id ++ moved = [id])
    (hacknowledges : ∀ lease ∈ acknowledged, ∃ old, jobs.find lease.id = some old ∧
      old.owner = some lease.owner ∧ old.queue = lease.queue) :
    JobsEffect jobs (jobs.delete condition) [] acknowledged moved [] where
  conserved := by
    rw [List.append_nil, List.append_assoc, hgone]
    exact (Table.keys_delete_perm hfind hrow hothers).trans (List.perm_append_singleton _ _).symm
  owned := by
    intro other found owner hfound howner
    rw [Table.find_delete, Option.filter_eq_some_iff] at hfound
    exact Or.inr ⟨by simp, found, hfound.1, howner, rfl⟩
  acknowledges := hacknowledges

end JobsEffect

/-- A mutation leaves the jobs alone or publishes one. -/
theorem Store.applyMutation_jobs {queues : TreeMap String QueuePolicy}
    {buckets : TreeMap String BucketPolicy} {nowMillis : ℤ} {store next : Store}
    {mutation : Mutation}
    (happly : Store.applyMutation queues buckets nowMillis store mutation = .ok next) :
    (mutation.publishedId = none ∧ next.queueJobs = store.queueJobs) ∨
    ∃ id row, mutation.publishedId = some id ∧ store.queueJobs.find id = none ∧
      row.owner = none ∧ row.attempts = 0 ∧ next.queueJobs = store.queueJobs.insert id row := by
  cases mutation with
  | put key value =>
    simp only [Store.applyMutation, Result.pure_eq_ok] at happly
    exact Or.inl ⟨rfl, by rw [← happly]⟩
  | delete key =>
    simp only [Store.applyMutation, Result.pure_eq_ok] at happly
    exact Or.inl ⟨rfl, by rw [← happly]⟩
  | checkpointPut name value =>
    simp only [Store.applyMutation, Result.pure_eq_ok] at happly
    exact Or.inl ⟨rfl, by rw [← happly]⟩
  | objectPut bucket key value =>
    simp only [Store.applyMutation, Result.bind_eq_ok] at happly
    obtain ⟨policy, -, hput⟩ := happly
    obtain ⟨row, -, hnext⟩ := Store.putObject_eq_ok hput
    exact Or.inl ⟨rfl, by rw [hnext]⟩
  | objectDelete bucket key =>
    simp only [Store.applyMutation, Result.bind_eq_ok, Result.pure_eq_ok] at happly
    obtain ⟨-, -, hnext⟩ := happly
    exact Or.inl ⟨rfl, by rw [← hnext]⟩
  | queuePublish queue id body =>
    simp only [Store.applyMutation, Result.bind_eq_ok] at happly
    obtain ⟨policy, -, hpublish⟩ := happly
    obtain ⟨habsent, sequence, row, ⟨howner, hattempts⟩, hnext⟩ := Store.publish_eq_ok hpublish
    exact Or.inr ⟨id, row, rfl, habsent, howner, hattempts, by rw [hnext]⟩

theorem Store.applyMutation_jobsEffect {queues : TreeMap String QueuePolicy}
    {buckets : TreeMap String BucketPolicy} {nowMillis : ℤ} {store next : Store}
    {mutation : Mutation}
    (happly : Store.applyMutation queues buckets nowMillis store mutation = .ok next) :
    JobsEffect store.queueJobs next.queueJobs mutation.publishedId.toList [] [] [] := by
  rcases Store.applyMutation_jobs happly with
    ⟨hnone, hjobs⟩ | ⟨id, row, hid, habsent, howner, -, hjobs⟩
  · rw [hnone, hjobs]
    exact JobsEffect.refl _
  · rw [hid, hjobs]
    exact JobsEffect.insert habsent howner

theorem Store.applyMutations_jobsEffect {queues : TreeMap String QueuePolicy}
    {buckets : TreeMap String BucketPolicy} {nowMillis : ℤ} {mutations : List Mutation}
    {store next : Store}
    (happly : mutations.foldlM (Store.applyMutation queues buckets nowMillis) store = .ok next) :
    JobsEffect store.queueJobs next.queueJobs (mutations.filterMap Mutation.publishedId)
      [] [] [] := by
  refine Store.applyMutations_induction
    (motive := fun mutations store next => JobsEffect store.queueJobs next.queueJobs
      (mutations.filterMap Mutation.publishedId) [] [] [])
    (fun store => JobsEffect.refl _) ?_ happly
  intro mutation rest store middle next hfirst hrest
  have heffect := (Store.applyMutation_jobsEffect hfirst).trans hrest
  cases hid : mutation.publishedId with
  | none =>
    rw [hid] at heffect
    rw [List.filterMap_cons_none hid]
    exact heffect
  | some id =>
    rw [hid] at heffect
    rw [List.filterMap_cons_some hid]
    exact heffect

/-- The lease that a completion acknowledges, if it is one of a job. -/
def Completion.jobLeases : Option Completion → List JobLease
  | some (.job lease) => [lease]
  | _ => []

theorem Store.complete_jobsEffect {store next : Store} {nowMillis : ℤ}
    {completion : Option Completion} (hcomplete : store.complete nowMillis completion = .ok next) :
    JobsEffect store.queueJobs next.queueJobs [] (Completion.jobLeases completion) [] [] := by
  cases completion with
  | none =>
    rw [Store.complete, Result.pure_eq_ok] at hcomplete
    rw [← hcomplete]
    exact JobsEffect.refl _
  | some completion =>
    cases completion with
    | fire lease =>
      simp only [Store.complete, Result.bind_eq_ok, Result.pure_eq_ok] at hcomplete
      obtain ⟨-, -, hnext⟩ := hcomplete
      rw [← hnext]
      exact JobsEffect.refl _
    | job lease =>
      simp only [Store.complete, Result.bind_eq_ok, Result.pure_eq_ok, Result.ensure_eq_ok,
        beq_iff_eq] at hcomplete
      obtain ⟨-, hone, hnext⟩ := hcomplete
      rw [← hnext]
      rcases Table.select_eq_nil_or_singleton store.queueJobs lease.owns_id with
        ⟨hnone, -⟩ | ⟨row, -, hfind, howns⟩
      · rw [hnone] at hone
        cases hone
      · obtain ⟨-, hqueue, howner⟩ := JobLease.owns_iff.mp howns
        refine JobsEffect.remove hfind howns lease.owns_id rfl ?_
        intro other hother
        have hsame : other = lease := List.mem_singleton.mp hother
        rw [hsame]
        exact ⟨row, hfind, howner, hqueue⟩

theorem Store.commitPlan_jobsEffect {store next : Store} {plan : CommitPlan} {revision : ℕ}
    (hcommit : store.commitPlan plan = .ok (revision, next)) :
    JobsEffect store.queueJobs next.queueJobs (plan.mutations.filterMap Mutation.publishedId)
      (Completion.jobLeases plan.completion) [] [] := by
  obtain ⟨-, applied, completed, happlied, hcompleted, hlast⟩ := Store.commitPlan_eq_ok hcommit
  have heffect := (Store.applyMutations_jobsEffect happlied).trans
    (Store.complete_jobsEffect hcompleted)
  rw [List.append_nil] at heffect
  rcases hlast with ⟨-, hadvance⟩ | ⟨-, -, hnext⟩
  · rw [(Store.advance_eq_ok hadvance).2]
    exact heffect
  · rw [hnext]
    exact heffect

/-- A delivery gives a job a new owner. -/
theorem JobsEffect.deliver (change : JobRow → JobRow) {jobs : Table Identity JobRow}
    {id owner : Identity} {row : JobRow} (hfind : jobs.find id = some row)
    (howner : ∀ row, (change row).owner = some owner)
    (hqueue : ∀ row, (change row).queue = row.queue) :
    JobsEffect jobs (jobs.update (fun other _ => other == id) change) [] [] []
      [⟨id, row.queue, owner⟩] where
  conserved := by
    rw [Table.keys_update]
    simp
  owned := by
    intro other found holder hfound hholder
    rw [Table.find_update, Option.map_eq_some_iff] at hfound
    obtain ⟨old, hold, hrow⟩ := hfound
    by_cases hkey : other = id
    · subst hkey
      rw [hfind, Option.some.injEq] at hold
      subst hold
      simp only [beq_self_eq_true, if_true] at hrow
      rw [← hrow, howner, Option.some.injEq] at hholder
      left
      rw [← hrow, hqueue, hholder]
    · rw [if_neg (by simpa using hkey)] at hrow
      subst hrow
      refine Or.inr ⟨?_, old, hold, hholder, rfl⟩
      intro lease hlease
      rw [List.mem_singleton] at hlease
      rw [hlease]
      exact Ne.symm hkey
  acknowledges := by simp

theorem Store.deadLetter_jobsEffect {store next : Store} {id : Identity} {queue : String}
    {row : JobRow} {reason : String} {nowMillis : ℤ} {policy : QueuePolicy}
    (hfind : store.queueJobs.find id = some row)
    (hmove : store.deadLetter id queue row reason nowMillis policy = .ok next) :
    JobsEffect store.queueJobs next.queueJobs [] [] [id] [] := by
  obtain ⟨queueDead, hnext⟩ := Store.deadLetter_eq_ok hmove
  have hjobs : next.queueJobs = store.queueJobs.delete fun other _ => other == id := by rw [hnext]
  rw [hjobs]
  apply JobsEffect.remove hfind
  · exact beq_self_eq_true id
  · intro other found hother
    simpa using hother
  · rfl
  · simp

/-- The lease of a delivery, if there is one. -/
def deliveryLeases (delivery : Option JobDelivery) : List JobLease :=
  (delivery.map JobDelivery.lease).toList

theorem Store.reserveJobScan_jobsEffect {queue : String} {policy : QueuePolicy} {owner : Identity}
    {nowMillis : ℤ} {left : ℕ} {store next : Store} {delivery : Option JobDelivery}
    {exhausted : List Identity}
    (hscan : Store.reserveJobScan queue policy owner nowMillis left store =
      .ok ((delivery, exhausted), next)) :
    JobsEffect store.queueJobs next.queueJobs [] [] exhausted (deliveryLeases delivery) := by
  induction left generalizing store exhausted with
  | zero =>
    rcases Store.reserveJobScan_cases hscan with ⟨hdelivery, hexhausted, hnext, -⟩ |
      ⟨before, id, row, rest, middle, hleft, -⟩ |
      ⟨id, row, leaseUntil, hcandidate, -, -, hdelivery, hexhausted, hnext⟩
    · rw [hdelivery, hexhausted, hnext]
      exact JobsEffect.refl _
    · cases hleft
    · simp only [Store.reserveJobScan, Result.pure_eq_ok, Prod.mk.injEq] at hscan
      rw [hdelivery] at hscan
      cases hscan.1.1
  | succ left ih =>
    rcases Store.reserveJobScan_cases hscan with ⟨hdelivery, hexhausted, hnext, -⟩ |
      ⟨before, id, row, rest, middle, hleft, hcandidate, -, hmove, hrest, hexhausted⟩ |
      ⟨id, row, leaseUntil, hcandidate, -, -, hdelivery, hexhausted, hnext⟩
    · rw [hdelivery, hexhausted, hnext]
      exact JobsEffect.refl _
    · have hsame : left = before := Nat.succ.inj hleft
      subst hsame
      obtain ⟨hfind, -⟩ := Store.jobCandidate_eq_some hcandidate
      rw [hexhausted]
      exact (Store.deadLetter_jobsEffect hfind hmove).trans (ih hrest)
    · obtain ⟨hfind, heligible⟩ := Store.jobCandidate_eq_some hcandidate
      have heffect := JobsEffect.deliver
        (fun old =>
          { old with
            attempts := row.attempts + 1
            owner := some owner
            leaseUntil := some leaseUntil })
        hfind (fun _ => rfl) (fun _ => rfl)
      rw [Store.eligible_queue heligible] at heffect
      rw [hdelivery, hexhausted, hnext]
      exact heffect

theorem Store.failJob_jobsEffect {store next : Store} {lease : JobLease} {reason : String}
    {policy : QueuePolicy} {nowMillis : ℤ} {disposition : JobDisposition}
    (hfail : store.failJob lease reason policy nowMillis = .ok (disposition, next)) :
    JobsEffect store.queueJobs next.queueJobs [] []
      (if disposition = .deadLettered then [lease.id] else []) [] := by
  rcases Store.failJob_eq_ok hfail with ⟨-, hlost, hnext⟩ | ⟨row, hfind, -, -, hdead, hmove⟩ |
    ⟨row, visibleAt, -, -, -, -, hretried, hnext⟩
  · rw [hlost, hnext]
    exact JobsEffect.refl _
  · rw [hdead]
    exact Store.deadLetter_jobsEffect hfind hmove
  · have hkept : disposition ≠ .deadLettered := by
      rw [hretried]
      simp
    rw [if_neg hkept, hnext]
    exact JobsEffect.disown (fun row => { row with visibleAt, owner := none, leaseUntil := none })
      fun _ => rfl

/-- What a call does to the jobs that is not a delivery or a failure of one. -/
theorem Store.step_jobsEffect (store : Store) (call : Call) (harea : call.area ≠ .jobs) :
    JobsEffect store.queueJobs (store.step call).2.queueJobs
      (publishedBy (call, (store.step call).1)) (acknowledgedBy (call, (store.step call).1))
      [] (deliveredBy (call, (store.step call).1)) := by
  cases call with
  | commitPlan plan =>
    rw [Store.step]
    cases hcommit : store.commitPlan plan with
    | error error => exact JobsEffect.refl _
    | ok result =>
      have heffect := Store.commitPlan_jobsEffect hcommit
      simp only [answer, publishedBy, acknowledgedBy, deliveredBy]
      cases hcompletion : plan.completion with
      | none =>
        rw [hcompletion] at heffect
        exact heffect
      | some completion =>
        rw [hcompletion] at heffect
        cases completion with
        | job lease => exact heffect
        | fire lease => exact heffect
  | reserveJob queue policy owner now => exact absurd rfl harea
  | failJob lease reason policy now => exact absurd rfl harea
  | materializeSchedule schedule policy now =>
    rw [Store.step]
    cases htick : store.materializeSchedule schedule policy now with
    | error error => exact JobsEffect.refl _
    | ok result =>
      obtain ⟨⟨report, inserted⟩, next⟩ := result
      obtain ⟨scheduleFires, scheduleCursors, hnext⟩ := Store.materializeSchedule_frame htick
      rw [hnext]
      exact JobsEffect.refl _
  | reserveScheduleFire schedule policy owner now =>
    rw [Store.step]
    cases hreserve : store.reserveScheduleFire schedule policy owner now with
    | error error => exact JobsEffect.refl _
    | ok result =>
      obtain ⟨scheduleFires, hnext, -⟩ := Store.reserveScheduleFire_eq_ok hreserve
      rw [answer, hnext]
      exact JobsEffect.refl _
  | failScheduleFire lease policy now =>
    rw [Store.step]
    cases hfail : store.failScheduleFire lease policy now with
    | error error => exact JobsEffect.refl _
    | ok result =>
      obtain ⟨scheduleFires, hnext, -⟩ := Store.failScheduleFire_eq_ok hfail
      rw [answer, hnext]
      exact JobsEffect.refl _
  | replayDecision request policy =>
    rw [Store.step]
    cases hresult : store.replayDecision request policy with
    | error error => exact JobsEffect.refl _
    | ok outcome =>
      obtain ⟨records, -, hnext⟩ := Store.replayDecision_eq_ok hresult
      rw [answer, hnext]
      exact JobsEffect.refl _
  | completeReplay lease result now policy =>
    rw [Store.step]
    cases hresult : store.completeReplay lease result now policy with
    | error error => exact JobsEffect.refl _
    | ok outcome =>
      obtain ⟨records, -, hnext⟩ := Store.completeReplay_eq_ok hresult
      rw [answer, hnext]
      exact JobsEffect.refl _
  | abortReplay lease => exact JobsEffect.refl _
  | idempotencyDecision artifact key digest owner now policy =>
    rw [Store.step]
    cases hresult : store.idempotencyDecision artifact key digest owner now policy with
    | error error => exact JobsEffect.refl _
    | ok outcome =>
      obtain ⟨records, -, hnext⟩ := Store.idempotencyDecision_eq_ok hresult
      rw [answer, hnext]
      exact JobsEffect.refl _
  | completeIdempotency lease response now policy =>
    rw [Store.step]
    cases hresult : store.completeIdempotency lease response now policy with
    | error error => exact JobsEffect.refl _
    | ok outcome =>
      obtain ⟨records, -, hnext⟩ := Store.completeIdempotency_eq_ok hresult
      rw [answer, hnext]
      exact JobsEffect.refl _
  | abortIdempotency lease => exact JobsEffect.refl _

/-! ## Leases that own nothing -/

theorem Store.select_owns_eq_nil {store : Store} {lease : JobLease}
    (hnone : ∀ id row, store.queueJobs.find id = some row → lease.owns id row = false) :
    store.queueJobs.select lease.owns = [] := by
  rcases Table.select_eq_nil_or_singleton store.queueJobs lease.owns_id with
    ⟨hempty, -⟩ | ⟨row, -, hfind, howns⟩
  · exact hempty
  · rw [hnone lease.id row hfind] at howns
    cases howns

/-- Staged mutations do not give a lease a job. -/
theorem Store.applyMutations_not_owned {queues : TreeMap String QueuePolicy}
    {buckets : TreeMap String BucketPolicy} {nowMillis : ℤ} {mutations : List Mutation}
    {store next : Store} {lease : JobLease}
    (hnone : ∀ id row, store.queueJobs.find id = some row → lease.owns id row = false)
    (happly : mutations.foldlM (Store.applyMutation queues buckets nowMillis) store = .ok next) :
    ∀ id row, next.queueJobs.find id = some row → lease.owns id row = false := by
  intro id row hfind
  rw [← Bool.not_eq_true]
  intro howns
  obtain ⟨hid, hqueue, howner⟩ := JobLease.owns_iff.mp howns
  obtain ⟨old, hold, holdOwner, holdQueue⟩ :=
    (Store.applyMutations_jobsEffect happly).owned_before hfind howner
  have hbefore := hnone id old hold
  rw [JobLease.owns_iff.mpr ⟨hid, holdQueue.trans hqueue, holdOwner⟩] at hbefore
  cases hbefore

def staleJobLease : StateError := .conflict "durable queue lease is stale or not owned"

theorem Store.complete_of_not_owned {store : Store} {lease : JobLease}
    (hnone : ∀ id row, store.queueJobs.find id = some row → lease.owns id row = false)
    (nowMillis : ℤ) : store.complete nowMillis (some (.job lease)) = .error staleJobLease := by
  rw [Store.complete, Store.select_owns_eq_nil hnone]
  rfl

/-- An acknowledgement with a lease that owns nothing is refused, and as a conflict
when nothing else is wrong with the plan. -/
theorem Store.commitPlan_of_not_owned {store : Store} {plan : CommitPlan} {lease : JobLease}
    (hcompletion : plan.completion = some (.job lease))
    (hnone : ∀ id row, store.queueJobs.find id = some row → lease.owns id row = false) :
    (∃ error, store.commitPlan plan = .error error) ∧
      ∀ result, store.commitPlan { plan with completion := none } = .ok result →
        store.commitPlan plan = .error staleJobLease := by
  constructor
  · cases hcommit : store.commitPlan plan with
    | error error => exact ⟨error, rfl⟩
    | ok result =>
      obtain ⟨-, applied, completed, happlied, hcompleted, -⟩ := Store.commitPlan_eq_ok hcommit
      rw [hcompletion, Store.complete_of_not_owned
        (Store.applyMutations_not_owned hnone happlied)] at hcompleted
      cases hcompleted
  · intro result hcommit
    unfold Store.commitPlan at hcommit ⊢
    simp only [Result.bind_eq_ok, Result.ensure_eq_ok] at hcommit
    obtain ⟨_, hmutations, _, hsizes, _, hqueues, _, hbuckets, _, hrevision, applied,
      happlied, -⟩ :=
      hcommit
    have hrefused := Store.complete_of_not_owned
      (Store.applyMutations_not_owned hnone happlied) plan.nowMillis
    simp only [hmutations, hqueues, hbuckets, happlied, hcompletion, hrefused,
      Result.ensure_of_true hsizes, Result.ensure_of_true hrevision, bind, Except.bind]

theorem Store.failJob_of_not_owned {store : Store} {lease : JobLease}
    (hnone : ∀ id row, store.queueJobs.find id = some row → lease.owns id row = false)
    (reason : String) (policy : QueuePolicy) (nowMillis : ℤ) :
    (store.failJob lease reason policy nowMillis = .ok (.lost, store) ∨
      ∃ error, store.failJob lease reason policy nowMillis = .error error) ∧
    (policy.validate = .ok () →
      preflightInstants nowMillis [policy.lease, policy.maxBackoff, policy.deadLetterTtl] = .ok () →
      store.failJob lease reason policy nowMillis = .ok (.lost, store)) := by
  constructor
  · cases hfail : store.failJob lease reason policy nowMillis with
    | error error => exact Or.inr ⟨error, rfl⟩
    | ok result =>
      obtain ⟨disposition, next⟩ := result
      rcases Store.failJob_eq_ok hfail with ⟨-, hlost, hnext⟩ | ⟨row, hfind, howns, -⟩ |
        ⟨row, visibleAt, hfind, howns, -⟩
      · rw [hlost, hnext]
        exact Or.inl rfl
      · rw [hnone lease.id row hfind] at howns
        cases howns
      · rw [hnone lease.id row hfind] at howns
        cases howns
  · intro hvalid hinstants
    unfold Store.failJob
    simp only [hvalid, hinstants, Store.select_owns_eq_nil hnone, bind, Except.bind, pure,
      Except.pure, List.head?_nil]

def sampleQueuePolicy : QueuePolicy :=
  { maxDepth := 8
    maxJobBytes := 64
    maxQueueBytes := 512
    maxAttempts := 3
    lease := .fromMillis 1000
    backoff := .fromMillis 100
    maxBackoff := .fromMillis 1000
    deadLetterMaxEntries := 8
    deadLetterTtl := .fromMillis 60000 }

/-- A job is published, and delivered twice since its first lease runs out. -/
def sampleQueueCalls : List Call :=
  [.commitPlan
      { expectedRevision := 0
        mutations := [.queuePublish "work" 7 [1, 2, 3]]
        queues := TreeMap.ofList [("work", sampleQueuePolicy)]
        buckets := ∅
        nowMillis := 0
        completion := none },
    .reserveJob "work" sampleQueuePolicy 100 10,
    .reserveJob "work" sampleQueuePolicy 101 2000]

end Krit.Durable
