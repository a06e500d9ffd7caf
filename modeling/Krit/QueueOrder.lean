import Krit.QueueDeliveries

/-!
# The order of deliveries

A reservation takes the eligible jobs of its queue in order of publication.  Those
whose attempts are exhausted are moved out of the way until one is found that can be
delivered, and the number of rows that it looks at is bounded.  Every turn of the scan
either ends it or removes the first eligible job, so the exhausted jobs ahead of a
deliverable one are what the bound is spent on.
-/

namespace Krit.Durable

open Machine Std

/-- An eligible job with an attempt left. -/
def JobRow.deliverable (row : JobRow) (queue : String) (policy : QueuePolicy) (nowMillis : ℤ) :
    Bool :=
  row.eligible queue nowMillis && decide (row.attempts < policy.maxAttempts)

/-- An eligible job without an attempt left. -/
def JobRow.exhausted (row : JobRow) (queue : String) (policy : QueuePolicy) (nowMillis : ℤ) :
    Bool :=
  row.eligible queue nowMillis && decide ((policy.maxAttempts : ℤ) ≤ row.attempts)

theorem JobRow.deliverable_iff {row : JobRow} {queue : String} {policy : QueuePolicy}
    {nowMillis : ℤ} : row.deliverable queue policy nowMillis = true ↔
      row.eligible queue nowMillis = true ∧ row.attempts < policy.maxAttempts := by
  unfold JobRow.deliverable
  rw [Bool.and_eq_true, decide_eq_true_eq]

theorem JobRow.exhausted_iff {row : JobRow} {queue : String} {policy : QueuePolicy}
    {nowMillis : ℤ} : row.exhausted queue policy nowMillis = true ↔
      row.eligible queue nowMillis = true ∧ (policy.maxAttempts : ℤ) ≤ row.attempts := by
  unfold JobRow.exhausted
  rw [Bool.and_eq_true, decide_eq_true_eq]

namespace Store

/-- The exhausted jobs that a scan may meet before it comes to a sequence.  Of two rows
with the same sequence either may come first, so these count as ahead of each other. -/
def exhaustedAhead (store : Store) (queue : String) (policy : QueuePolicy) (nowMillis : ℤ)
    (sequence : ℤ) : List (Identity × JobRow) :=
  store.queueJobs.select fun _ row =>
    row.exhausted queue policy nowMillis && decide (row.sequence ≤ sequence)

/-- The jobs that a queue holds. -/
def jobsOf (store : Store) (queue : String) : List (Identity × JobRow) :=
  store.queueJobs.select fun _ row => row.queue == queue

section Scan

variable {store next : Store} {queue : String} {policy : QueuePolicy} {owner : Identity}
  {nowMillis : ℤ}

/-! ## One turn of the scan -/

theorem jobCandidate_first {id : Identity} {row : JobRow}
    (hcandidate : store.jobCandidate queue nowMillis = some (id, row)) {other : Identity}
    {found : JobRow} (hfind : store.queueJobs.find other = some found)
    (heligible : found.eligible queue nowMillis = true) : row.sequence ≤ found.sequence :=
  (Table.least_spec hcandidate).2 (other, found) (Table.mem_select_iff.mpr ⟨hfind, heligible⟩)

theorem jobCandidate_eq_none (hcandidate : store.jobCandidate queue nowMillis = none)
    {other : Identity} {found : JobRow} (hfind : store.queueJobs.find other = some found) :
    found.eligible queue nowMillis = false := by
  rw [← Bool.not_eq_true]
  intro heligible
  have hmem : (other, found) ∈ store.queueJobs.select fun _ row => row.eligible queue nowMillis :=
    Table.mem_select_iff.mpr ⟨hfind, heligible⟩
  unfold jobCandidate at hcandidate
  rw [Table.least_eq_none_iff] at hcandidate
  rw [hcandidate] at hmem
  cases hmem

theorem deadLetter_find {id : Identity} {row : JobRow} {reason : String}
    (hmove : store.deadLetter id queue row reason nowMillis policy = .ok next) :
    next.queueJobs.find = Function.update store.queueJobs.find id none := by
  obtain ⟨queueDead, hnext⟩ := deadLetter_eq_ok hmove
  rw [hnext]
  exact Table.find_delete_key store.queueJobs id

theorem find_of_deadLetter {id other : Identity} {row found : JobRow} {reason : String}
    (hmove : store.deadLetter id queue row reason nowMillis policy = .ok next)
    (hfind : next.queueJobs.find other = some found) : store.queueJobs.find other = some found := by
  rw [deadLetter_find hmove] at hfind
  by_cases hsame : other = id
  · rw [hsame, Function.update_self] at hfind
    cases hfind
  · rw [Function.update_of_ne hsame] at hfind
    exact hfind

theorem find_deadLetter_of_ne {id other : Identity} {row found : JobRow} {reason : String}
    (hmove : store.deadLetter id queue row reason nowMillis policy = .ok next)
    (hfind : store.queueJobs.find other = some found) (hother : other ≠ id) :
    next.queueJobs.find other = some found := by
  rw [deadLetter_find hmove, Function.update_of_ne hother]
  exact hfind

/-! ## The whole scan -/

/-- A scan publishes nothing. -/
theorem reserveJobScan_absent {left : ℕ} {found : Option JobDelivery × List Identity}
    (hscan : reserveJobScan queue policy owner nowMillis left store = .ok (found, next))
    {id : Identity} (habsent : store.queueJobs.find id = none) :
    next.queueJobs.find id = none := by
  induction left generalizing store found with
  | zero =>
    rw [reserveJobScan, Result.pure_eq_ok, Prod.mk.injEq] at hscan
    rw [← hscan.2]
    exact habsent
  | succ left ih =>
    obtain ⟨delivery, exhausted⟩ := found
    rcases reserveJobScan_cases hscan with ⟨-, -, hnext, -⟩ |
      ⟨before, moved, row, rest, middle, hleft, -, -, hmove, hrest, -⟩ |
      ⟨chosen, row, leaseUntil, -, -, -, -, -, hnext⟩
    · rw [hnext]
      exact habsent
    · have hsame : left = before := Nat.succ.inj hleft
      subst hsame
      refine ih hrest ?_
      rw [Option.eq_none_iff_forall_not_mem]
      intro found hfind
      have hstored := find_of_deadLetter hmove hfind
      rw [habsent] at hstored
      cases hstored
    · rw [hnext, Table.find_update, habsent]
      rfl

/-- The delivered job is a first one of those that can be delivered, and the exhausted
jobs ahead of it are gone. -/
theorem reserveJobScan_first {left : ℕ} {delivery : JobDelivery} {exhausted : List Identity}
    (hscan : reserveJobScan queue policy owner nowMillis left store =
      .ok ((some delivery, exhausted), next)) :
    ∃ row, store.queueJobs.find delivery.lease.id = some row ∧
      row.deliverable queue policy nowMillis = true ∧ delivery.body = row.body ∧
      (∀ other found, store.queueJobs.find other = some found →
        found.deliverable queue policy nowMillis = true → row.sequence ≤ found.sequence) ∧
      ∀ other found, store.queueJobs.find other = some found →
        found.exhausted queue policy nowMillis = true → found.sequence < row.sequence →
        next.queueJobs.find other = none := by
  induction left generalizing store exhausted with
  | zero =>
    rw [reserveJobScan, Result.pure_eq_ok] at hscan
    cases hscan
  | succ left ih =>
    rcases reserveJobScan_cases hscan with ⟨hnone, -, -⟩ |
      ⟨before, moved, old, rest, middle, hleft, hcandidate, hattempts, hmove, hrest, -⟩ |
      ⟨chosen, row, leaseUntil, hcandidate, hattempts, -, hdelivery, -, -⟩
    · cases hnone
    · have hsame : left = before := Nat.succ.inj hleft
      subst hsame
      obtain ⟨row, hfind, hdeliverable, hbody, hfirst, hgone⟩ := ih hrest
      refine ⟨row, find_of_deadLetter hmove hfind, hdeliverable, hbody, ?_, ?_⟩
      · intro other found hother hcan
        by_cases hmoved : other = moved
        · -- The moved job is exhausted, so it is not one of those that could be delivered.
          have hrow := (jobCandidate_eq_some hcandidate).1
          rw [← hmoved, hother, Option.some.injEq] at hrow
          have hfewer := (JobRow.deliverable_iff.mp hcan).2
          rw [hrow] at hfewer
          omega
        · exact hfirst other found (find_deadLetter_of_ne hmove hother hmoved) hcan
      · intro other found hother hexhausted hbefore
        by_cases hmoved : other = moved
        · refine reserveJobScan_absent hrest ?_
          rw [deadLetter_find hmove, hmoved, Function.update_self]
        · exact hgone other found (find_deadLetter_of_ne hmove hother hmoved) hexhausted hbefore
    · obtain ⟨hfind, heligible⟩ := jobCandidate_eq_some hcandidate
      rw [Option.some.injEq] at hdelivery
      have hfirst : ∀ other found, store.queueJobs.find other = some found →
          found.eligible queue nowMillis = true → row.sequence ≤ found.sequence := by
        intro other found hother heligible
        exact jobCandidate_first hcandidate hother heligible
      refine ⟨row, by rw [hdelivery]; exact hfind, JobRow.deliverable_iff.mpr ⟨heligible, by omega⟩,
        by rw [hdelivery], ?_, ?_⟩
      · intro other found hother hcan
        exact hfirst other found hother (JobRow.deliverable_iff.mp hcan).1
      · intro other found hother hexhausted hbefore
        have hle := hfirst other found hother (JobRow.exhausted_iff.mp hexhausted).1
        omega

/-- Moving an exhausted job away leaves one job less ahead. -/
theorem length_exhaustedAhead_of_deadLetter {id : Identity} {row : JobRow} {reason : String}
    {middle : Store} (hmove : store.deadLetter id queue row reason nowMillis policy = .ok middle)
    (hfind : store.queueJobs.find id = some row)
    (hexhausted : row.exhausted queue policy nowMillis = true) {sequence : ℤ}
    (hahead : row.sequence ≤ sequence) :
    (store.exhaustedAhead queue policy nowMillis sequence).length =
      (middle.exhaustedAhead queue policy nowMillis sequence).length + 1 := by
  obtain ⟨queueDead, hmiddle⟩ := deadLetter_eq_ok hmove
  rw [hmiddle]
  refine Table.length_select_delete hfind ?_
  rw [hexhausted, Bool.true_and, decide_eq_true_eq]
  exact hahead

/-- A scan that may look at more rows than there are exhausted jobs ahead of a
deliverable one delivers a job. -/
theorem reserveJobScan_reaches {left : ℕ} {delivery : Option JobDelivery}
    {exhausted : List Identity}
    (hscan : reserveJobScan queue policy owner nowMillis left store =
      .ok ((delivery, exhausted), next))
    {id : Identity} {row : JobRow} (hfind : store.queueJobs.find id = some row)
    (hcan : row.deliverable queue policy nowMillis = true)
    (hfew : (store.exhaustedAhead queue policy nowMillis row.sequence).length < left) :
    delivery ≠ none := by
  induction left generalizing store exhausted with
  | zero => omega
  | succ left ih =>
    obtain ⟨heligible, hattempts⟩ := JobRow.deliverable_iff.mp hcan
    rcases reserveJobScan_cases hscan with ⟨-, -, -, hleft | hcandidate⟩ |
      ⟨before, moved, old, rest, middle, hleft, hchosen, hexhausted, hmove, hrest, -⟩ |
      ⟨chosen, found, leaseUntil, -, -, -, hdelivery, -, -⟩
    · cases hleft
    · rw [jobCandidate_eq_none hcandidate hfind] at heligible
      cases heligible
    · have hsame : left = before := Nat.succ.inj hleft
      subst hsame
      obtain ⟨hstored, holdEligible⟩ := jobCandidate_eq_some hchosen
      have hother : id ≠ moved := by
        intro hmoved
        rw [hmoved, hstored, Option.some.injEq] at hfind
        rw [← hfind] at hattempts
        omega
      have hcount := length_exhaustedAhead_of_deadLetter hmove hstored
        (JobRow.exhausted_iff.mpr ⟨holdEligible, by omega⟩)
        (jobCandidate_first hchosen hfind heligible)
      exact ih hrest (find_deadLetter_of_ne hmove hfind hother) (by omega)
    · rw [hdelivery]
      exact Option.some_ne_none _

/-! ## When a scan succeeds -/

theorem enforceDeadLetterBounds_total (hvalid : policy.Valid) (store : Store) (queue : String) :
    ∃ next, store.enforceDeadLetterBounds queue policy = .ok next := by
  have hlimit : i64TryFrom policy.deadLetterMaxEntries =
      some (policy.deadLetterMaxEntries : ℤ) := by
    have hbound := hvalid.deadLetters.2
    unfold maxDeadLetterEntries at hbound
    unfold i64TryFrom i64Min i64Max
    rw [if_pos (by omega)]
  unfold enforceDeadLetterBounds
  rw [hlimit]
  exact ⟨_, rfl⟩

/-- The attempts of every stored job can be counted once more. -/
def AttemptsCountable (store : Store) : Prop :=
  ∀ id row, store.queueJobs.find id = some row → 0 ≤ row.attempts ∧ row.attempts < i64Max

variable (queue owner) in
theorem reserveJobScan_total (hvalid : policy.Valid) {leaseUntil : ℤ}
    (hlease : checkedDeadline nowMillis policy.lease = .ok leaseUntil) (left : ℕ)
    (hcountable : store.AttemptsCountable) :
    ∃ result, reserveJobScan queue policy owner nowMillis left store = .ok result := by
  induction left generalizing store with
  | zero => exact ⟨_, rfl⟩
  | succ left ih =>
    rw [reserveJobScan]
    cases hcandidate : store.jobCandidate queue nowMillis with
    | none => exact ⟨_, rfl⟩
    | some entry =>
      obtain ⟨id, row⟩ := entry
      obtain ⟨hfind, -⟩ := jobCandidate_eq_some hcandidate
      obtain ⟨hnonneg, hfits⟩ := hcountable id row hfind
      have hattempt : i64TryFrom (row.attempts + 1) = some (row.attempts + 1) := by
        unfold i64TryFrom i64Min
        rw [if_pos (by omega)]
      simp only [hattempt, Result.ofOption, bind, Except.bind]
      by_cases hexhausted : row.attempts + 1 > policy.maxAttempts
      · obtain ⟨middle, hmove⟩ : ∃ middle, store.deadLetter id queue row
            "attempt limit exhausted before delivery" nowMillis policy = .ok middle :=
          enforceDeadLetterBounds_total hvalid _ queue
        have hkept : middle.AttemptsCountable := by
          intro other found hother
          exact hcountable other found (find_of_deadLetter hmove hother)
        obtain ⟨⟨⟨delivery, exhausted⟩, next⟩, hrest⟩ := ih hkept
        rw [if_pos hexhausted]
        simp only [hmove, hrest]
        exact ⟨_, rfl⟩
      · rw [if_neg hexhausted]
        simp only [hlease]
        exact ⟨_, rfl⟩

/-- Instants that can be represented leave nothing else to fail. -/
theorem cleanupDeadLetters_total (hvalid : policy.Valid)
    (hinstant : preflightInstant nowMillis policy.deadLetterTtl = .ok ()) (store : Store)
    (queue : String) : ∃ next, store.cleanupDeadLetters queue policy nowMillis = .ok next := by
  unfold preflightInstant at hinstant
  simp only [Result.bind_eq_ok, Result.ofOption_eq_ok] at hinstant
  obtain ⟨_, -, millis, hmillis, horizon, hhorizon, -⟩ := hinstant
  unfold cleanupDeadLetters
  simp only [hmillis, hhorizon, Result.ofOption, bind, Except.bind]
  exact enforceDeadLetterBounds_total hvalid _ queue

theorem reserveJob_total (hvalid : policy.validate = .ok ())
    (hqueue : validateIdentity queue maxResourceNameBytes = .ok ())
    (hinstants : preflightInstants nowMillis
      [policy.lease, policy.maxBackoff, policy.deadLetterTtl] = .ok ())
    (hcountable : store.AttemptsCountable) :
    ∃ result, store.reserveJob queue policy owner nowMillis = .ok result := by
  have hpolicy := QueuePolicy.valid_of_validate hvalid
  have heach := hinstants
  unfold preflightInstants at heach
  rw [Result.forEach_eq_ok] at heach
  obtain ⟨cleaned, hcleanup⟩ :=
    cleanupDeadLetters_total hpolicy (heach policy.deadLetterTtl (by simp)) store queue
  have hlease := heach policy.lease (by simp)
  unfold preflightInstant at hlease
  rw [Result.bind_eq_ok] at hlease
  obtain ⟨leaseUntil, hdeadline, -⟩ := hlease
  have hkept : cleaned.AttemptsCountable := by
    obtain ⟨queueDead, hcleaned⟩ := cleanupDeadLetters_eq_ok hcleanup
    rw [hcleaned]
    exact hcountable
  obtain ⟨result, hscan⟩ := reserveJobScan_total queue owner hpolicy hdeadline
    (min policy.maxDepth maxReservationScan) hkept
  refine ⟨result, ?_⟩
  unfold reserveJob
  simp only [Result.bind_eq_ok]
  exact ⟨_, hvalid, _, hqueue, _, hinstants, cleaned, hcleanup, hscan⟩

end Scan

/-- A job that can be delivered leaves room among the jobs of its queue for fewer
exhausted ones. -/
theorem length_exhaustedAhead_lt {store : Store} {queue : String} {policy : QueuePolicy}
    {nowMillis : ℤ} {id : Identity} {row : JobRow} (hfind : store.queueJobs.find id = some row)
    (hcan : row.deliverable queue policy nowMillis = true) (sequence : ℤ) :
    (store.exhaustedAhead queue policy nowMillis sequence).length <
      (store.jobsOf queue).length := by
  obtain ⟨heligible, hattempts⟩ := JobRow.deliverable_iff.mp hcan
  have hqueue := eligible_queue heligible
  have hsubset : (store.exhaustedAhead queue policy nowMillis sequence).Subset
      ((store.queueJobs.delete fun other _ => other == id).select
        fun _ row => row.queue == queue) := by
    rintro ⟨other, found⟩ hmem
    obtain ⟨hother, hahead⟩ := Table.mem_select_iff.mp hmem
    rw [Bool.and_eq_true, JobRow.exhausted_iff] at hahead
    obtain ⟨⟨hfound, hspent⟩, -⟩ := hahead
    refine Table.mem_select_iff.mpr ⟨?_, by rw [beq_iff_eq]; exact eligible_queue hfound⟩
    have hne : other ≠ id := by
      intro hsame
      rw [hsame, hfind, Option.some.injEq] at hother
      rw [hother] at hattempts
      omega
    rw [Table.find_delete_key, Function.update_of_ne hne]
    exact hother
  have hnodup : (store.exhaustedAhead queue policy nowMillis sequence).Nodup :=
    (store.queueJobs.nodup.of_map _).filter _
  have hshorter := (hnodup.subperm hsubset).length_le
  have hlength : (store.queueJobs.select fun _ row => row.queue == queue).length =
      ((store.queueJobs.delete fun other _ => other == id).select
        fun _ row => row.queue == queue).length + 1 := by
    refine Table.length_select_delete hfind ?_
    rw [beq_iff_eq]
    exact hqueue
  unfold jobsOf
  omega

end Store

/-- What one reservation does with the order of publication. -/
structure FirstInFirstOut (store : Store) (queue : String) (policy : QueuePolicy)
    (nowMillis : ℤ) (delivery : Option JobDelivery) (next : Store) : Prop where
  delivers_first : ∀ delivered, delivery = some delivered →
    ∃ row, store.queueJobs.find delivered.lease.id = some row ∧
      row.deliverable queue policy nowMillis = true ∧ delivered.body = row.body ∧
      (∀ other found, store.queueJobs.find other = some found →
        found.deliverable queue policy nowMillis = true → row.sequence ≤ found.sequence) ∧
      ∀ other found, store.queueJobs.find other = some found →
        found.exhausted queue policy nowMillis = true → found.sequence < row.sequence →
        next.queueJobs.find other = none
  reaches : ∀ id row, store.queueJobs.find id = some row →
    row.deliverable queue policy nowMillis = true →
    (store.exhaustedAhead queue policy nowMillis row.sequence).length <
      min policy.maxDepth maxReservationScan → delivery ≠ none
  none_only : (store.jobsOf queue).length ≤ min policy.maxDepth maxReservationScan →
    delivery = none → ∀ id row, store.queueJobs.find id = some row →
      row.deliverable queue policy nowMillis = false

/-- Deliveries follow the order of publication, exhausted jobs ahead of a delivery leave
the queue with it, and a reservation delivers a job whenever the bound on the scan lets
it come to one. -/
theorem reservations_first_in_first_out (store : Store) (queue : String) (policy : QueuePolicy)
    (owner : Identity) (nowMillis : ℤ) :
    (∀ delivery exhausted next,
      store.reserveJob queue policy owner nowMillis = .ok ((delivery, exhausted), next) →
      FirstInFirstOut store queue policy nowMillis delivery next) ∧
    (policy.validate = .ok () → validateIdentity queue maxResourceNameBytes = .ok () →
      preflightInstants nowMillis [policy.lease, policy.maxBackoff, policy.deadLetterTtl] =
        .ok () →
      store.AttemptsCountable →
      ∃ delivery exhausted next,
        store.reserveJob queue policy owner nowMillis = .ok ((delivery, exhausted), next)) := by
  refine ⟨?_, ?_⟩
  · intro delivery exhausted next hreserve
    obtain ⟨queueDead, hscan⟩ := Store.reserveJob_eq_ok hreserve
    have hreaches : ∀ id row, store.queueJobs.find id = some row →
        row.deliverable queue policy nowMillis = true →
        (store.exhaustedAhead queue policy nowMillis row.sequence).length <
          min policy.maxDepth maxReservationScan → delivery ≠ none := by
      intro id row hfind hcan hfew
      exact Store.reserveJobScan_reaches hscan hfind hcan hfew
    refine ⟨?_, hreaches, ?_⟩
    · intro delivered hdelivery
      rw [hdelivery] at hscan
      have hfirst := Store.reserveJobScan_first hscan
      exact hfirst
    · intro hdepth hnone id row hfind
      rw [← Bool.not_eq_true]
      intro hcan
      have hfewer := Store.length_exhaustedAhead_lt hfind hcan row.sequence
      exact hreaches id row hfind hcan (by omega) hnone
  · intro hvalid hqueue hinstants hcountable
    obtain ⟨⟨⟨delivery, exhausted⟩, next⟩, hreserve⟩ :=
      Store.reserveJob_total hvalid hqueue hinstants hcountable
    exact ⟨delivery, exhausted, next, hreserve⟩

/-- A queue whose first job has used up its attempts, with a new job behind it. -/
def poisonedQueue : Store :=
  { Store.open sampleLimits with
    queueJobs :=
      { rows :=
          [(1, { queue := "work", sequence := 1, body := [1], attempts := 3, visibleAt := 0,
                 leaseUntil := some 5, owner := some 99, sizeBytes := 1, enqueuedAt := 0 }),
            (2, { queue := "work", sequence := 2, body := [2], attempts := 0, visibleAt := 0,
                  leaseUntil := none, owner := none, sizeBytes := 1, enqueuedAt := 0 })]
        nodup := by decide } }

theorem reservations_first_in_first_out_sample :
    ∃ delivery exhausted next,
      poisonedQueue.reserveJob "work" sampleQueuePolicy 100 10 =
        .ok ((some delivery, exhausted), next) ∧
      FirstInFirstOut poisonedQueue "work" sampleQueuePolicy 10 (some delivery) next := by
  have hcountable : poisonedQueue.AttemptsCountable := by
    intro id row hfind
    have hmem := Table.mem_rows_iff.mpr hfind
    have hall : ∀ entry ∈ poisonedQueue.queueJobs.rows,
        0 ≤ entry.2.attempts ∧ entry.2.attempts < i64Max := by
      decide
    exact hall (id, row) hmem
  obtain ⟨delivery, exhausted, next, hreserve⟩ :=
    (reservations_first_in_first_out poisonedQueue "work" sampleQueuePolicy 100 10).2
      (Result.eq_ok_of_toBool (by decide +kernel)) (Result.eq_ok_of_toBool (by decide +kernel))
      (Result.eq_ok_of_toBool (by decide +kernel)) hcountable
  have hfifo := (reservations_first_in_first_out poisonedQueue "work" sampleQueuePolicy 100 10).1
    delivery exhausted next hreserve
  have hsome : delivery ≠ none := hfifo.reaches 2 _ rfl (by decide +kernel) (by decide +kernel)
  obtain ⟨found, hfound⟩ := Option.ne_none_iff_exists'.mp hsome
  rw [hfound] at hreserve hfifo
  exact ⟨found, exhausted, next, hreserve, hfifo⟩

end Krit.Durable
