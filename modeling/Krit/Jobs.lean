import Krit.Store

/-!
# Queues and schedules

Workers reserve jobs and fires under leases, fail them, and acknowledge them with a
commit.  A job or a fire whose attempts are exhausted is moved out of the way by the
reservation that finds it; the model returns these next to the delivery, since what
happens to them is part of the protocol.
-/

namespace Krit.Durable

open Machine Std

/-- The rows that one reservation may skip. -/
def maxReservationScan : ℕ := 1024

def maxBackoffExponent : ℤ := 16

def backoffFor (base maximum : Duration) (attempts : ℤ) : Duration :=
  let exponent := (max 0 (min (attempts - 1) maxBackoffExponent)).toNat
  ⟨min (base.saturatingMul (2 ^ exponent)).nanos maximum.nanos⟩

/-- Rejects an instant from which a deadline or a horizon cannot be represented. -/
def preflightInstant (nowMillis : ℤ) (duration : Duration) : Except StateError Unit := do
  let _ ← checkedDeadline nowMillis duration
  let millis ← Result.ofOption (.limit "durable retention exceeds i64")
    (i64TryFrom duration.asMillis)
  let _ ← Result.ofOption (.limit "durable retention horizon overflowed")
    (i64TryFrom (nowMillis - millis))
  pure ()

def preflightInstants (nowMillis : ℤ) (durations : List Duration) : Except StateError Unit :=
  Result.forEach (preflightInstant nowMillis) durations

/-- What validation ensures of a queue policy. -/
structure QueuePolicy.Valid (policy : QueuePolicy) : Prop where
  depth : 1 ≤ policy.maxDepth ∧ policy.maxDepth ≤ maxQueueDepth
  bytes : policy.maxJobBytes ≤ policy.maxQueueBytes ∧ policy.maxQueueBytes ≤ Durable.maxQueueBytes
  attempts : 1 ≤ policy.maxAttempts ∧ policy.maxAttempts ≤ maxDeliveryAttempts
  deadLetters : 1 ≤ policy.deadLetterMaxEntries ∧ policy.deadLetterMaxEntries ≤ maxDeadLetterEntries

theorem QueuePolicy.valid_of_validate {policy : QueuePolicy}
    (hvalid : policy.validate = .ok ()) : policy.Valid := by
  unfold QueuePolicy.validate within at hvalid
  simp only [Result.ensure_eq_ok, Bool.and_eq_true, decide_eq_true_eq] at hvalid
  obtain ⟨⟨⟨⟨⟨⟨⟨⟨⟨hdepth, -⟩, hbytes⟩, hattempts⟩, -⟩, -⟩, -⟩, -⟩, hdead⟩, -⟩ := hvalid
  exact ⟨hdepth, hbytes, hattempts, hdead⟩

/-! ## Dead letters -/

/-- The text up to a number of bytes, at a character boundary. -/
def boundedChars : ℕ → List Char → List Char
  | _, [] => []
  | bytes, char :: rest =>
      if char.utf8Size ≤ bytes then char :: boundedChars (bytes - char.utf8Size) rest else []

def maxReasonBytes : ℕ := 256

def boundedReason (reason : String) : String :=
  String.ofList ((boundedChars maxReasonBytes reason.toList).map fun char =>
    if char == '\n' || char == '\r' || char == '\x00' then ' ' else char)

namespace Store

/-- The dead letters of a queue that the entry bound leaves out, the newest being kept. -/
def deadLettersBeyond (store : Store) (queue : String) (limit : ℕ) : List Identity :=
  let rows := store.queueDead.select fun _ row => row.queue == queue
  ((rows.mergeSort fun left right => decide (right.2.sequence ≤ left.2.sequence)).drop limit).map
    Prod.fst

def enforceDeadLetterBounds (store : Store) (queue : String) (policy : QueuePolicy) :
    Except StateError Store := do
  let _ ← Result.ofOption (.limit "dead-letter entry bound exceeds i64")
    (i64TryFrom policy.deadLetterMaxEntries)
  let beyond := store.deadLettersBeyond queue policy.deadLetterMaxEntries
  pure
    { store with
      queueDead := store.queueDead.delete fun id row => row.queue == queue && beyond.contains id }

def cleanupDeadLetters (store : Store) (queue : String) (policy : QueuePolicy) (nowMillis : ℤ) :
    Except StateError Store := do
  let ttl ← Result.ofOption (.limit "dead-letter retention exceeds i64")
    (i64TryFrom policy.deadLetterTtl.asMillis)
  let horizon ← Result.ofOption (.limit "dead-letter retention horizon overflowed")
    (i64TryFrom (nowMillis - ttl))
  enforceDeadLetterBounds
    { store with
      queueDead := store.queueDead.delete fun _ row =>
        row.queue == queue && row.failedAt ≤ horizon }
    queue policy

/-- Moves a job to the dead letters of its queue. -/
def deadLetter (store : Store) (id : Identity) (queue : String) (row : JobRow) (reason : String)
    (nowMillis : ℤ) (policy : QueuePolicy) : Except StateError Store :=
  enforceDeadLetterBounds
    { store with
      queueJobs := store.queueJobs.delete fun other _ => other == id
      queueDead := store.queueDead.upsert id
        { queue
          sequence := row.sequence
          body := row.body
          attempts := row.attempts
          reason
          sizeBytes := row.sizeBytes
          failedAt := nowMillis }
        fun old => { old with attempts := row.attempts, reason, failedAt := nowMillis } }
    queue policy

end Store

/-! ## Queue deliveries -/

structure JobDelivery where
  lease : JobLease
  body : Bytes
  attempt : ℕ
  maxAttempts : ℕ
  enqueuedAtMillis : ℤ
  deriving DecidableEq, Repr

inductive JobDisposition where
  | retried (visibleAtMillis : ℤ)
  | deadLettered
  | lost
  deriving DecidableEq, Repr

/-- A lease that is absent or has run out. -/
def leaseFree (leaseUntil : Option ℤ) (nowMillis : ℤ) : Bool :=
  leaseUntil.all (· ≤ nowMillis)

def JobRow.eligible (row : JobRow) (queue : String) (nowMillis : ℤ) : Bool :=
  row.queue == queue && row.visibleAt ≤ nowMillis && leaseFree row.leaseUntil nowMillis

/-- `u32::try_from(attempt).unwrap_or(u32::MAX)`. -/
def attemptNumber (attempt : ℤ) : ℕ :=
  if 0 ≤ attempt ∧ attempt < 4294967296 then attempt.toNat else 4294967295

namespace Store

/-- The first eligible job in order of publication. -/
def jobCandidate (store : Store) (queue : String) (nowMillis : ℤ) : Option (Identity × JobRow) :=
  Table.least (fun entry => entry.2.sequence)
    (store.queueJobs.select fun _ row => row.eligible queue nowMillis)

/-- The loop of `reserve_job`, with the rows that it may still look at: the delivery,
the jobs whose attempts were exhausted, and the store. -/
def reserveJobScan (queue : String) (policy : QueuePolicy) (owner : Identity) (nowMillis : ℤ) :
    ℕ → Store → Except StateError ((Option JobDelivery × List Identity) × Store)
  | 0, store => pure ((none, []), store)
  | left + 1, store =>
      match store.jobCandidate queue nowMillis with
      | none => pure ((none, []), store)
      | some (id, row) => do
          let nextAttempt ← Result.ofOption (.limit "durable queue attempt count overflowed")
            (i64TryFrom (row.attempts + 1))
          if nextAttempt > policy.maxAttempts then
            let store ← store.deadLetter id queue row "attempt limit exhausted before delivery"
              nowMillis policy
            let ((delivery, exhausted), store) ←
              reserveJobScan queue policy owner nowMillis left store
            pure ((delivery, id :: exhausted), store)
          else
            let leaseUntil ← checkedDeadline nowMillis policy.lease
            pure
              ((some
                { lease := { id, queue, owner }
                  body := row.body
                  attempt := attemptNumber nextAttempt
                  maxAttempts := policy.maxAttempts
                  enqueuedAtMillis := row.enqueuedAt },
                []),
              { store with
                queueJobs := store.queueJobs.update (fun other _ => other == id) fun row =>
                  { row with
                    attempts := nextAttempt
                    owner := some owner
                    leaseUntil := some leaseUntil } })

def reserveJob (store : Store) (queue : String) (policy : QueuePolicy) (owner : Identity)
    (nowMillis : ℤ) : Except StateError ((Option JobDelivery × List Identity) × Store) := do
  policy.validate
  validateIdentity queue maxResourceNameBytes
  preflightInstants nowMillis [policy.lease, policy.maxBackoff, policy.deadLetterTtl]
  let store ← store.cleanupDeadLetters queue policy nowMillis
  reserveJobScan queue policy owner nowMillis (min policy.maxDepth maxReservationScan) store

def failJob (store : Store) (lease : JobLease) (reason : String) (policy : QueuePolicy)
    (nowMillis : ℤ) : Except StateError (JobDisposition × Store) := do
  policy.validate
  preflightInstants nowMillis [policy.lease, policy.maxBackoff, policy.deadLetterTtl]
  match (store.queueJobs.select lease.owns).head? with
  | none => pure (.lost, store)
  | some (_, row) =>
      if row.attempts ≥ policy.maxAttempts then
        let store ←
          store.deadLetter lease.id lease.queue row (boundedReason reason) nowMillis policy
        pure (.deadLettered, store)
      else
        let visibleAt ← checkedDeadline nowMillis
          (backoffFor policy.backoff policy.maxBackoff row.attempts)
        pure
          (.retried visibleAt,
          { store with
            queueJobs := store.queueJobs.update lease.owns fun row =>
              { row with visibleAt, owner := none, leaseUntil := none } })

/-! ## What a successful transaction has done -/

section Specifications

variable {store next : Store}

theorem enforceDeadLetterBounds_eq_ok {queue : String} {policy : QueuePolicy}
    (henforce : store.enforceDeadLetterBounds queue policy = .ok next) :
    ∃ queueDead, next = { store with queueDead } := by
  unfold enforceDeadLetterBounds at henforce
  simp only [Result.bind_eq_ok, Result.pure_eq_ok] at henforce
  obtain ⟨_, -, hnext⟩ := henforce
  exact ⟨_, hnext.symm⟩

theorem cleanupDeadLetters_eq_ok {queue : String} {policy : QueuePolicy} {nowMillis : ℤ}
    (hcleanup : store.cleanupDeadLetters queue policy nowMillis = .ok next) :
    ∃ queueDead, next = { store with queueDead } := by
  unfold cleanupDeadLetters at hcleanup
  simp only [Result.bind_eq_ok] at hcleanup
  obtain ⟨_, -, _, -, henforce⟩ := hcleanup
  obtain ⟨queueDead, hnext⟩ := enforceDeadLetterBounds_eq_ok henforce
  exact ⟨queueDead, hnext⟩

theorem deadLetter_eq_ok {id : Identity} {queue : String} {row : JobRow} {reason : String}
    {nowMillis : ℤ} {policy : QueuePolicy}
    (hmove : store.deadLetter id queue row reason nowMillis policy = .ok next) :
    ∃ queueDead, next =
      { store with
        queueJobs := store.queueJobs.delete fun other _ => other == id
        queueDead } := by
  unfold deadLetter at hmove
  obtain ⟨queueDead, hnext⟩ := enforceDeadLetterBounds_eq_ok hmove
  exact ⟨queueDead, hnext⟩

theorem jobCandidate_eq_some {queue : String} {nowMillis : ℤ} {id : Identity} {row : JobRow}
    (hcandidate : store.jobCandidate queue nowMillis = some (id, row)) :
    store.queueJobs.find id = some row ∧ row.eligible queue nowMillis = true :=
  Table.mem_select_iff.mp (Table.least_spec hcandidate).1

theorem eligible_queue {row : JobRow} {queue : String} {nowMillis : ℤ}
    (heligible : row.eligible queue nowMillis = true) : row.queue = queue := by
  unfold JobRow.eligible at heligible
  simp only [Bool.and_eq_true, beq_iff_eq] at heligible
  exact heligible.1.1

/-- The first turn of the scan: nothing to deliver, an exhausted job and the rest of the
scan, or a delivery. -/
theorem reserveJobScan_cases {queue : String} {policy : QueuePolicy} {owner : Identity}
    {nowMillis : ℤ} {left : ℕ} {delivery : Option JobDelivery} {exhausted : List Identity}
    (hscan : reserveJobScan queue policy owner nowMillis left store =
      .ok ((delivery, exhausted), next)) :
    (delivery = none ∧ exhausted = [] ∧ next = store ∧
      (left = 0 ∨ store.jobCandidate queue nowMillis = none)) ∨
    (∃ before id row rest middle, left = before + 1 ∧
      store.jobCandidate queue nowMillis = some (id, row) ∧ policy.maxAttempts < row.attempts + 1 ∧
      store.deadLetter id queue row "attempt limit exhausted before delivery" nowMillis policy =
        .ok middle ∧
      reserveJobScan queue policy owner nowMillis before middle = .ok ((delivery, rest), next) ∧
      exhausted = id :: rest) ∨
    (∃ id row leaseUntil, store.jobCandidate queue nowMillis = some (id, row) ∧
      row.attempts + 1 ≤ policy.maxAttempts ∧
      checkedDeadline nowMillis policy.lease = .ok leaseUntil ∧
      delivery = some
        { lease := { id, queue, owner }
          body := row.body
          attempt := attemptNumber (row.attempts + 1)
          maxAttempts := policy.maxAttempts
          enqueuedAtMillis := row.enqueuedAt } ∧
      exhausted = [] ∧
      next =
        { store with
          queueJobs := store.queueJobs.update (fun other _ => other == id) fun old =>
            { old with
              attempts := row.attempts + 1
              owner := some owner
              leaseUntil := some leaseUntil } }) := by
  cases left with
  | zero =>
    simp only [reserveJobScan, Result.pure_eq_ok, Prod.mk.injEq] at hscan
    exact Or.inl ⟨hscan.1.1.symm, hscan.1.2.symm, hscan.2.symm, Or.inl rfl⟩
  | succ before =>
    rw [reserveJobScan] at hscan
    cases hcandidate : store.jobCandidate queue nowMillis with
    | none =>
      simp only [hcandidate, Result.pure_eq_ok, Prod.mk.injEq] at hscan
      exact Or.inl ⟨hscan.1.1.symm, hscan.1.2.symm, hscan.2.symm, Or.inr rfl⟩
    | some entry =>
      obtain ⟨id, row⟩ := entry
      simp only [hcandidate, Result.bind_eq_ok, Result.ofOption_eq_ok] at hscan
      obtain ⟨nextAttempt, hattempt, hscan⟩ := hscan
      have hnext : nextAttempt = row.attempts + 1 := i64TryFrom_eq_some hattempt
      subst hnext
      by_cases hexhausted : row.attempts + 1 > policy.maxAttempts
      · rw [if_pos hexhausted] at hscan
        simp only [Result.bind_eq_ok, Result.pure_eq_ok, Prod.mk.injEq] at hscan
        obtain ⟨middle, hmove, ⟨⟨found, rest⟩, last⟩, hrest, ⟨hdelivery, hmoved⟩, hlast⟩ := hscan
        subst hdelivery hmoved hlast
        exact Or.inr
          (Or.inl ⟨before, id, row, rest, middle, rfl, rfl, hexhausted, hmove, hrest, rfl⟩)
      · rw [if_neg hexhausted] at hscan
        simp only [Result.bind_eq_ok, Result.pure_eq_ok, Prod.mk.injEq] at hscan
        obtain ⟨leaseUntil, hlease, ⟨hdelivery, hmoved⟩, hlast⟩ := hscan
        exact Or.inr (Or.inr ⟨id, row, leaseUntil, rfl, by omega, hlease,
          hdelivery.symm, hmoved.symm, hlast.symm⟩)

theorem reserveJob_eq_ok {queue : String} {policy : QueuePolicy} {owner : Identity}
    {nowMillis : ℤ} {found : Option JobDelivery × List Identity}
    (hreserve : store.reserveJob queue policy owner nowMillis = .ok (found, next)) :
    ∃ queueDead, reserveJobScan queue policy owner nowMillis
      (min policy.maxDepth maxReservationScan) { store with queueDead } = .ok (found, next) := by
  unfold reserveJob at hreserve
  simp only [Result.bind_eq_ok] at hreserve
  obtain ⟨_, -, _, -, _, -, cleaned, hcleanup, hscan⟩ := hreserve
  obtain ⟨queueDead, hcleaned⟩ := cleanupDeadLetters_eq_ok hcleanup
  rw [hcleaned] at hscan
  exact ⟨queueDead, hscan⟩

/-- A failure finds its lease lost, or moves the job, or makes it visible again later. -/
theorem failJob_eq_ok {lease : JobLease} {reason : String} {policy : QueuePolicy} {nowMillis : ℤ}
    {disposition : JobDisposition}
    (hfail : store.failJob lease reason policy nowMillis = .ok (disposition, next)) :
    (store.queueJobs.select lease.owns = [] ∧ disposition = .lost ∧ next = store) ∨
    (∃ row, store.queueJobs.find lease.id = some row ∧ lease.owns lease.id row = true ∧
      (policy.maxAttempts : ℤ) ≤ row.attempts ∧ disposition = .deadLettered ∧
      store.deadLetter lease.id lease.queue row (boundedReason reason) nowMillis policy =
        .ok next) ∨
    (∃ row visibleAt, store.queueJobs.find lease.id = some row ∧
      lease.owns lease.id row = true ∧ row.attempts < policy.maxAttempts ∧
      checkedDeadline nowMillis (backoffFor policy.backoff policy.maxBackoff row.attempts) =
        .ok visibleAt ∧
      disposition = .retried visibleAt ∧
      next =
        { store with
          queueJobs := store.queueJobs.update lease.owns fun row =>
            { row with visibleAt, owner := none, leaseUntil := none } }) := by
  unfold failJob at hfail
  simp only [Result.bind_eq_ok] at hfail
  obtain ⟨_, -, _, -, hfail⟩ := hfail
  rcases Table.select_eq_nil_or_singleton store.queueJobs lease.owns_id with
    ⟨hnone, -⟩ | ⟨row, hone, hfind, howns⟩
  · simp only [hnone, List.head?_nil, Result.pure_eq_ok, Prod.mk.injEq] at hfail
    exact Or.inl ⟨hnone, hfail.1.symm, hfail.2.symm⟩
  · simp only [hone, List.head?_cons] at hfail
    by_cases hexhausted : row.attempts ≥ policy.maxAttempts
    · rw [if_pos hexhausted] at hfail
      simp only [Result.bind_eq_ok, Result.pure_eq_ok, Prod.mk.injEq] at hfail
      obtain ⟨moved, hmove, hdisposition, hnext⟩ := hfail
      subst hnext
      exact Or.inr (Or.inl ⟨row, hfind, howns, hexhausted, hdisposition.symm, hmove⟩)
    · rw [if_neg hexhausted] at hfail
      simp only [Result.bind_eq_ok, Result.pure_eq_ok, Prod.mk.injEq] at hfail
      obtain ⟨visibleAt, hdeadline, hdisposition, hnext⟩ := hfail
      exact Or.inr (Or.inr ⟨row, visibleAt, hfind, howns, by omega, hdeadline,
        hdisposition.symm, hnext.symm⟩)

theorem reserveJobScan_frame {queue : String} {policy : QueuePolicy} {owner : Identity}
    {nowMillis : ℤ} {left : ℕ} {found : Option JobDelivery × List Identity}
    (hscan : reserveJobScan queue policy owner nowMillis left store = .ok (found, next)) :
    ∃ queueJobs queueDead, next = { store with queueJobs, queueDead } := by
  induction left generalizing store found with
  | zero =>
    rw [reserveJobScan, Result.pure_eq_ok, Prod.mk.injEq] at hscan
    exact ⟨_, _, hscan.2.symm⟩
  | succ left ih =>
    obtain ⟨delivery, exhausted⟩ := found
    rcases reserveJobScan_cases hscan with ⟨-, -, hnext, -⟩ |
      ⟨before, id, row, rest, middle, hleft, -, -, hmove, hrest, -⟩ |
      ⟨id, row, leaseUntil, -, -, -, -, -, hnext⟩
    · exact ⟨_, _, hnext⟩
    · have hsame : left = before := Nat.succ.inj hleft
      subst hsame
      obtain ⟨movedDead, hmiddle⟩ := deadLetter_eq_ok hmove
      obtain ⟨queueJobs, queueDead, hnext⟩ := ih hrest
      exact ⟨queueJobs, queueDead, by rw [hnext, hmiddle]⟩
    · exact ⟨_, _, hnext⟩

/-- A reservation changes jobs and dead letters only. -/
theorem reserveJob_frame {queue : String} {policy : QueuePolicy} {owner : Identity}
    {nowMillis : ℤ} {found : Option JobDelivery × List Identity}
    (hreserve : store.reserveJob queue policy owner nowMillis = .ok (found, next)) :
    ∃ queueJobs queueDead, next = { store with queueJobs, queueDead } := by
  obtain ⟨cleanedDead, hscan⟩ := reserveJob_eq_ok hreserve
  obtain ⟨queueJobs, queueDead, hnext⟩ := reserveJobScan_frame hscan
  exact ⟨queueJobs, queueDead, hnext⟩

/-- A failure changes jobs and dead letters only. -/
theorem failJob_frame {lease : JobLease} {reason : String} {policy : QueuePolicy}
    {nowMillis : ℤ} {disposition : JobDisposition}
    (hfail : store.failJob lease reason policy nowMillis = .ok (disposition, next)) :
    ∃ queueJobs queueDead, next = { store with queueJobs, queueDead } := by
  rcases failJob_eq_ok hfail with ⟨-, -, hnext⟩ | ⟨row, -, -, -, -, hmove⟩ |
    ⟨row, visibleAt, -, -, -, -, -, hnext⟩
  · exact ⟨_, _, hnext⟩
  · obtain ⟨queueDead, hnext⟩ := deadLetter_eq_ok hmove
    exact ⟨_, queueDead, hnext⟩
  · exact ⟨_, _, hnext⟩

end Specifications

end Store

end Krit.Durable
