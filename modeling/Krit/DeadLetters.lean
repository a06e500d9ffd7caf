import Krit.Lib.Newest
import Krit.QueueOrder

/-!
# The dead letters of a queue

A job without attempts left is moved to the dead letters of its queue, and the entry
bound is enforced in the same transaction.  The bound goes by publication: what it
leaves out are the jobs that were published first, whenever they failed.  A job can
therefore be lost in the transaction that moves it, when the bound is full of jobs that
were published after it.
-/

namespace Krit.Durable

open Machine Std

/-- The dead letters that the entry bound of a queue is about. -/
def inQueue (queue : String) (_ : Identity) (row : DeadRow) : Bool := row.queue == queue

def publication (entry : Identity × DeadRow) : ℤ := entry.2.sequence

/-- The row that a job leaves among the dead letters. -/
def JobRow.deadRow (row : JobRow) (queue reason : String) (nowMillis : ℤ) : DeadRow :=
  { queue
    sequence := row.sequence
    body := row.body
    attempts := row.attempts
    reason
    sizeBytes := row.sizeBytes
    failedAt := nowMillis }

namespace Store

/-- The number of dead letters of a queue. -/
def deadCount (store : Store) (queue : String) : ℕ :=
  (store.queueDead.select (inQueue queue)).length

/-- The number of dead letters of a queue whose publication is no earlier than one. -/
def deadFrom (store : Store) (queue : String) (sequence : ℤ) : ℕ :=
  store.queueDead.countFrom (inQueue queue) publication sequence

/-- A dead letter is there, or the bound of its queue is full of dead letters that were
published no earlier. -/
def Keeps (store : Store) (queue : String) (policy : QueuePolicy) (id : Identity)
    (entry : DeadRow) : Prop :=
  store.queueDead.find id = some entry ∨
    (entry.queue = queue ∧ policy.deadLetterMaxEntries ≤ store.deadFrom queue entry.sequence)

/-- The outcome of moving a job away: its attempts and the reason are kept under its id,
with its own body when there was no dead letter under that id. -/
def KeepsJob (store next : Store) (queue : String) (policy : QueuePolicy) (id : Identity)
    (row : JobRow) (reason : String) (nowMillis : ℤ) : Prop :=
  ∃ entry : DeadRow, entry.attempts = row.attempts ∧ entry.reason = reason ∧
    entry.failedAt = nowMillis ∧
    (store.queueDead.find id = none → entry = row.deadRow queue reason nowMillis) ∧
    next.Keeps queue policy id entry

section Bounds

variable {store next : Store} {queue : String} {policy : QueuePolicy} {nowMillis : ℤ}

/-! ## Enforcing the bound -/

theorem enforceDeadLetterBounds_spec
    (henforce : store.enforceDeadLetterBounds queue policy = .ok next) :
    next = { store with
      queueDead := store.queueDead.keepNewest (inQueue queue) publication
        policy.deadLetterMaxEntries } := by
  unfold enforceDeadLetterBounds at henforce
  simp only [Result.bind_eq_ok, Result.pure_eq_ok] at henforce
  obtain ⟨_, -, hnext⟩ := henforce
  exact hnext.symm

theorem deadCount_enforce (henforce : store.enforceDeadLetterBounds queue policy = .ok next) :
    next.deadCount queue ≤ policy.deadLetterMaxEntries := by
  rw [enforceDeadLetterBounds_spec henforce]
  exact Table.length_select_keepNewest_le

theorem deadFrom_enforce (henforce : store.enforceDeadLetterBounds queue policy = .ok next)
    {sequence : ℤ} (hfull : policy.deadLetterMaxEntries ≤ store.deadFrom queue sequence) :
    policy.deadLetterMaxEntries ≤ next.deadFrom queue sequence := by
  rw [enforceDeadLetterBounds_spec henforce]
  exact Table.le_countFrom_keepNewest hfull

theorem keeps_enforce (henforce : store.enforceDeadLetterBounds queue policy = .ok next)
    {id : Identity} {entry : DeadRow} (hfind : store.queueDead.find id = some entry) :
    next.Keeps queue policy id entry := by
  rw [enforceDeadLetterBounds_spec henforce]
  by_cases hqueue : entry.queue = queue
  · have hin : inQueue queue id entry = true := by
      unfold inQueue
      rw [beq_iff_eq]
      exact hqueue
    rcases Table.find_keepNewest_or publication policy.deadLetterMaxEntries hfind hin
      with hkept | hfull
    · exact Or.inl hkept
    · exact Or.inr ⟨hqueue, hfull⟩
  · refine Or.inl (Table.find_keepNewest_of_not hfind ?_)
    unfold inQueue
    rw [beq_eq_false_iff_ne]
    exact hqueue

theorem absent_enforce (henforce : store.enforceDeadLetterBounds queue policy = .ok next)
    {id : Identity} (habsent : store.queueDead.find id = none) :
    next.queueDead.find id = none := by
  rw [enforceDeadLetterBounds_spec henforce, Option.eq_none_iff_forall_not_mem]
  intro entry hfind
  have hstored := Table.find_of_keepNewest hfind
  rw [habsent] at hstored
  cases hstored

/-! ## Moving one job -/

variable {id : Identity} {row : JobRow} {reason : String}

theorem deadCount_deadLetter
    (hmove : store.deadLetter id queue row reason nowMillis policy = .ok next) :
    next.deadCount queue ≤ policy.deadLetterMaxEntries :=
  deadCount_enforce hmove

/-- A bound that is full from a publication on stays so. -/
theorem deadFrom_deadLetter
    (hmove : store.deadLetter id queue row reason nowMillis policy = .ok next) {sequence : ℤ}
    (hfull : policy.deadLetterMaxEntries ≤ store.deadFrom queue sequence) :
    policy.deadLetterMaxEntries ≤ next.deadFrom queue sequence := by
  refine deadFrom_enforce hmove (hfull.trans ?_)
  refine Table.countFrom_upsert_le ?_ ?_
  · intro other entry
    rfl
  · intro other entry
    rfl

theorem keeps_deadLetter
    (hmove : store.deadLetter id queue row reason nowMillis policy = .ok next) {other : Identity}
    (hother : other ≠ id) {entry : DeadRow} (hfind : store.queueDead.find other = some entry) :
    next.Keeps queue policy other entry := by
  refine keeps_enforce hmove ?_
  rw [Table.find_upsert_of_ne (Ne.symm hother)]
  exact hfind

theorem absent_deadLetter
    (hmove : store.deadLetter id queue row reason nowMillis policy = .ok next) {other : Identity}
    (hother : other ≠ id) (habsent : store.queueDead.find other = none) :
    next.queueDead.find other = none := by
  refine absent_enforce hmove ?_
  rw [Table.find_upsert_of_ne (Ne.symm hother)]
  exact habsent

theorem keepsJob_deadLetter
    (hmove : store.deadLetter id queue row reason nowMillis policy = .ok next) :
    store.KeepsJob next queue policy id row reason nowMillis := by
  cases hfind : store.queueDead.find id with
  | none =>
    refine ⟨row.deadRow queue reason nowMillis, rfl, rfl, rfl, fun _ => rfl, ?_⟩
    refine keeps_enforce hmove ?_
    rw [Table.find_upsert_self, hfind]
    rfl
  | some old =>
    refine ⟨{ old with attempts := row.attempts, reason, failedAt := nowMillis }, rfl, rfl, rfl,
      ?_, ?_⟩
    · intro habsent
      rw [hfind] at habsent
      cases habsent
    · refine keeps_enforce hmove ?_
      rw [Table.find_upsert_self, hfind]
      rfl

end Bounds

/-! ## A whole reservation -/

section Reservation

variable {store next : Store} {queue : String} {policy : QueuePolicy} {owner : Identity}
  {nowMillis : ℤ} {left : ℕ} {delivery : Option JobDelivery} {exhausted : List Identity}

def exhaustedReason : String := "attempt limit exhausted before delivery"

/-- What each move keeps, and what the delivery at the end leaves alone, the whole scan
keeps. -/
theorem reserveJobScan_induction {motive : Store → List Identity → Store → Prop}
    (hdone : ∀ store, motive store [] store)
    (hdelivered : ∀ store queueJobs, motive store [] { store with queueJobs })
    (hmoved : ∀ store middle next id row rest,
      store.queueJobs.find id = some row →
      row.exhausted queue policy nowMillis = true →
      store.deadLetter id queue row exhaustedReason nowMillis policy = .ok middle →
      (∀ other ∈ rest, ∃ found, middle.queueJobs.find other = some found) →
      motive middle rest next → motive store (id :: rest) next)
    (hscan : reserveJobScan queue policy owner nowMillis left store =
      .ok ((delivery, exhausted), next)) :
    motive store exhausted next ∧
      ∀ id ∈ exhausted, ∃ row, store.queueJobs.find id = some row := by
  induction left generalizing store exhausted with
  | zero =>
    rw [reserveJobScan, Result.pure_eq_ok, Prod.mk.injEq, Prod.mk.injEq] at hscan
    rw [← hscan.1.2, ← hscan.2]
    exact ⟨hdone store, by simp⟩
  | succ left ih =>
    rcases reserveJobScan_cases hscan with ⟨-, hnone, hnext, -⟩ |
      ⟨before, id, row, rest, middle, hleft, hcandidate, hattempts, hmove, hrest, hexhausted⟩ |
      ⟨id, row, leaseUntil, -, -, -, -, hnone, hnext⟩
    · rw [hnone, hnext]
      exact ⟨hdone store, by simp⟩
    · have hsame : left = before := Nat.succ.inj hleft
      subst hsame
      obtain ⟨hmotive, hstored⟩ := ih hrest
      obtain ⟨hfind, heligible⟩ := jobCandidate_eq_some hcandidate
      have hrow : row.exhausted queue policy nowMillis = true :=
        JobRow.exhausted_iff.mpr ⟨heligible, by omega⟩
      rw [hexhausted]
      refine ⟨hmoved store middle next id row rest hfind hrow hmove hstored hmotive, ?_⟩
      intro other hother
      rcases List.mem_cons.mp hother with hfirst | hlater
      · rw [hfirst]
        exact ⟨row, hfind⟩
      · obtain ⟨found, hfound⟩ := hstored other hlater
        exact ⟨found, find_of_deadLetter hmove hfound⟩
    · rw [hnone, hnext]
      exact ⟨hdelivered store _, by simp⟩

/-- What moving a list of jobs does to the dead letters of their queue. -/
structure MovesJobs (queue : String) (policy : QueuePolicy) (nowMillis : ℤ) (store : Store)
    (exhausted : List Identity) (next : Store) : Prop where
  full : ∀ sequence, policy.deadLetterMaxEntries ≤ store.deadFrom queue sequence →
    policy.deadLetterMaxEntries ≤ next.deadFrom queue sequence
  bounded : store.deadCount queue ≤ policy.deadLetterMaxEntries →
    next.deadCount queue ≤ policy.deadLetterMaxEntries
  keeps : ∀ other entry, store.queueDead.find other = some entry → other ∉ exhausted →
    next.Keeps queue policy other entry
  keepsJob : ∀ id ∈ exhausted, ∀ row, store.queueJobs.find id = some row →
    store.KeepsJob next queue policy id row exhaustedReason nowMillis

theorem MovesJobs.none {store next : Store} (hdead : next.queueDead = store.queueDead) :
    MovesJobs queue policy nowMillis store [] next where
  full := by
    intro sequence hfull
    unfold deadFrom
    rw [hdead]
    exact hfull
  bounded := by
    intro hbounded
    unfold deadCount
    rw [hdead]
    exact hbounded
  keeps := by
    intro other entry hfind _
    left
    rw [hdead]
    exact hfind
  keepsJob := by simp

/-- What is kept when some jobs are moved is kept afterwards. -/
theorem MovesJobs.keeps_of_keeps {store next : Store}
    (hmoves : MovesJobs queue policy nowMillis store exhausted next) {other : Identity}
    {entry : DeadRow} (hother : other ∉ exhausted) (hkeeps : store.Keeps queue policy other entry) :
    next.Keeps queue policy other entry := by
  rcases hkeeps with hfind | ⟨hqueue, hfull⟩
  · exact hmoves.keeps other entry hfind hother
  · exact Or.inr ⟨hqueue, hmoves.full entry.sequence hfull⟩

theorem MovesJobs.cons {store middle next : Store} {id : Identity} {row : JobRow}
    {rest : List Identity} (hfind : store.queueJobs.find id = some row)
    (hmove : store.deadLetter id queue row exhaustedReason nowMillis policy = .ok middle)
    (hstored : ∀ other ∈ rest, ∃ found, middle.queueJobs.find other = some found)
    (hmoves : MovesJobs queue policy nowMillis middle rest next) :
    MovesJobs queue policy nowMillis store (id :: rest) next := by
  have hgone : id ∉ rest := by
    intro hmem
    obtain ⟨found, hfound⟩ := hstored id hmem
    rw [deadLetter_find hmove, Function.update_self] at hfound
    cases hfound
  refine ⟨?_, ?_, ?_, ?_⟩
  · intro sequence hfull
    exact hmoves.full sequence (deadFrom_deadLetter hmove hfull)
  · intro _
    exact hmoves.bounded (deadCount_deadLetter hmove)
  · intro other entry hentry hnot
    rw [List.mem_cons, not_or] at hnot
    exact hmoves.keeps_of_keeps hnot.2 (keeps_deadLetter hmove hnot.1 hentry)
  · intro moved hmoved old hold
    rcases List.mem_cons.mp hmoved with hfirst | hlater
    · -- The first job is not moved again, so what its own move keeps stays.
      subst hfirst
      rw [hfind, Option.some.injEq] at hold
      subst hold
      obtain ⟨entry, hattempts, hreason, hfailed, hown, hkeeps⟩ := keepsJob_deadLetter hmove
      exact ⟨entry, hattempts, hreason, hfailed, hown, hmoves.keeps_of_keeps hgone hkeeps⟩
    · have hother : moved ≠ id := by
        intro hsame
        rw [hsame] at hlater
        exact hgone hlater
      obtain ⟨entry, hattempts, hreason, hfailed, hown, hkeeps⟩ :=
        hmoves.keepsJob moved hlater old (find_deadLetter_of_ne hmove hold hother)
      refine ⟨entry, hattempts, hreason, hfailed, ?_, hkeeps⟩
      intro habsent
      exact hown (absent_deadLetter hmove hother habsent)

theorem reserveJobScan_moves
    (hscan : reserveJobScan queue policy owner nowMillis left store =
      .ok ((delivery, exhausted), next)) :
    MovesJobs queue policy nowMillis store exhausted next ∧
      ∀ id ∈ exhausted, ∃ row, store.queueJobs.find id = some row := by
  refine reserveJobScan_induction ?_ ?_ ?_ hscan
  · intro store
    exact MovesJobs.none rfl
  · intro store queueJobs
    exact MovesJobs.none rfl
  · intro store middle next id row rest hfind _ hmove hstored hmoves
    exact MovesJobs.cons hfind hmove hstored hmoves

/-- Cleaning up takes the expired dead letters of the queue, and then enforces the bound. -/
theorem cleanupDeadLetters_spec {cleaned : Store}
    (hcleanup : store.cleanupDeadLetters queue policy nowMillis = .ok cleaned) :
    cleaned.queueJobs = store.queueJobs ∧
    cleaned.deadCount queue ≤ policy.deadLetterMaxEntries ∧
    (∀ id, store.queueDead.find id = none → cleaned.queueDead.find id = none) ∧
    ∀ id entry, store.queueDead.find id = some entry →
      ¬ (entry.queue = queue ∧ entry.failedAt ≤ nowMillis - policy.deadLetterTtl.asMillis) →
      cleaned.Keeps queue policy id entry := by
  obtain ⟨queueDead, hcleaned⟩ := cleanupDeadLetters_eq_ok hcleanup
  unfold cleanupDeadLetters at hcleanup
  simp only [Result.bind_eq_ok, Result.ofOption_eq_ok] at hcleanup
  obtain ⟨ttl, httl, horizon, hhorizon, henforce⟩ := hcleanup
  have hinstant : horizon = nowMillis - policy.deadLetterTtl.asMillis := by
    rw [i64TryFrom_eq_some hhorizon, i64TryFrom_eq_some httl]
  refine ⟨by rw [hcleaned], deadCount_enforce henforce, ?_, ?_⟩
  · intro id habsent
    refine absent_enforce henforce ?_
    rw [Table.find_delete, habsent]
    rfl
  · intro id entry hfind hlive
    refine keeps_enforce henforce ?_
    rw [Table.find_delete, hfind, Option.filter_some, hinstant]
    simp only [Bool.not_eq_true', Bool.and_eq_false_iff, beq_eq_false_iff_ne,
      decide_eq_false_iff_not, ite_eq_left_iff]
    intro hexpired
    exact absurd (not_and_or.mp hlive) hexpired

theorem reserveJob_moves {store next : Store}
    (hreserve : store.reserveJob queue policy owner nowMillis = .ok ((delivery, exhausted), next)) :
    next.deadCount queue ≤ policy.deadLetterMaxEntries ∧
    (∀ id ∈ exhausted, ∃ row, store.queueJobs.find id = some row ∧
      store.KeepsJob next queue policy id row exhaustedReason nowMillis) ∧
    ∀ other entry, store.queueDead.find other = some entry → other ∉ exhausted →
      ¬ (entry.queue = queue ∧ entry.failedAt ≤ nowMillis - policy.deadLetterTtl.asMillis) →
      next.Keeps queue policy other entry := by
  unfold reserveJob at hreserve
  simp only [Result.bind_eq_ok] at hreserve
  obtain ⟨_, -, _, -, _, -, cleaned, hcleanup, hscan⟩ := hreserve
  obtain ⟨hjobs, hbounded, habsent, hlive⟩ := cleanupDeadLetters_spec hcleanup
  obtain ⟨hmoves, hstored⟩ := reserveJobScan_moves hscan
  refine ⟨hmoves.bounded hbounded, ?_, ?_⟩
  · intro id hid
    obtain ⟨row, hrow⟩ := hstored id hid
    obtain ⟨entry, hattempts, hreason, hfailed, hown, hkeeps⟩ := hmoves.keepsJob id hid row hrow
    rw [hjobs] at hrow
    refine ⟨row, hrow, entry, hattempts, hreason, hfailed, ?_, hkeeps⟩
    intro hnone
    exact hown (habsent id hnone)
  · intro other entry hfind hother hunexpired
    exact hmoves.keeps_of_keeps hother (hlive other entry hfind hunexpired)

end Reservation

end Store

/-- After a job is moved to the dead letters its attempts, the reason and its body are
there, unless the bound is full of jobs that were published no earlier; and a dead letter
that has not expired is pruned only by such jobs. -/
theorem dead_letters_pruned_by_publication (store next : Store) (policy : QueuePolicy)
    (nowMillis : ℤ) :
    (∀ lease reason, store.failJob lease reason policy nowMillis = .ok (.deadLettered, next) →
      next.deadCount lease.queue ≤ policy.deadLetterMaxEntries ∧
      (∃ row, store.queueJobs.find lease.id = some row ∧
        store.KeepsJob next lease.queue policy lease.id row (boundedReason reason) nowMillis) ∧
      ∀ other entry, store.queueDead.find other = some entry → other ≠ lease.id →
        next.Keeps lease.queue policy other entry) ∧
    (∀ queue owner delivery exhausted,
      store.reserveJob queue policy owner nowMillis = .ok ((delivery, exhausted), next) →
      next.deadCount queue ≤ policy.deadLetterMaxEntries ∧
      (∀ id ∈ exhausted, ∃ row, store.queueJobs.find id = some row ∧
        store.KeepsJob next queue policy id row Store.exhaustedReason nowMillis) ∧
      ∀ other entry, store.queueDead.find other = some entry → other ∉ exhausted →
        ¬ (entry.queue = queue ∧ entry.failedAt ≤ nowMillis - policy.deadLetterTtl.asMillis) →
        next.Keeps queue policy other entry) := by
  refine ⟨?_, ?_⟩
  · intro lease reason hfail
    rcases Store.failJob_eq_ok hfail with ⟨-, hlost, -⟩ | ⟨row, hfind, -, -, -, hmove⟩ |
      ⟨row, visibleAt, -, -, -, -, hretried, -⟩
    · cases hlost
    · refine ⟨Store.deadCount_deadLetter hmove, ⟨row, hfind, Store.keepsJob_deadLetter hmove⟩, ?_⟩
      intro other entry hentry hother
      exact Store.keeps_deadLetter hmove hother hentry
    · cases hretried
  · intro queue owner delivery exhausted hreserve
    exact Store.reserveJob_moves hreserve

/-- One attempt for each job, and room for one dead letter. -/
def oneLetterPolicy : QueuePolicy :=
  { sampleQueuePolicy with maxAttempts := 1, deadLetterMaxEntries := 1 }

/-- Two jobs are delivered, and the one that was published later fails first. -/
def overtakenCalls : List Call :=
  [.commitPlan
      { expectedRevision := 0
        mutations := [.queuePublish "work" 1 [1], .queuePublish "work" 2 [2]]
        queues := TreeMap.ofList [("work", oneLetterPolicy)]
        buckets := ∅
        nowMillis := 0
        completion := none },
    .reserveJob "work" oneLetterPolicy 100 10,
    .reserveJob "work" oneLetterPolicy 101 10,
    .failJob ⟨2, "work", 101⟩ "first" oneLetterPolicy 20]

/-- Two jobs have used up their attempts; the second is reported as failed, and a
reservation takes both out of the way. -/
theorem dead_letters_pruned_by_publication_sample :
    (∃ next, (run (Store.open sampleLimits) (overtakenCalls.take 3)).failJob ⟨2, "work", 101⟩
        "first" oneLetterPolicy 20 = .ok (.deadLettered, next) ∧
      next.deadCount "work" ≤ 1 ∧
      ∃ row, (run (Store.open sampleLimits) (overtakenCalls.take 3)).queueJobs.find 2 = some row ∧
        (run (Store.open sampleLimits) (overtakenCalls.take 3)).KeepsJob next "work"
          oneLetterPolicy 2 row (boundedReason "first") 20) ∧
    ∃ next, (run (Store.open sampleLimits) (overtakenCalls.take 3)).reserveJob "work"
        oneLetterPolicy 102 5000 = .ok ((none, [1, 2]), next) ∧
      next.deadCount "work" ≤ 1 ∧
      ∀ id ∈ [1, 2], ∃ row,
        (run (Store.open sampleLimits) (overtakenCalls.take 3)).queueJobs.find id = some row ∧
        (run (Store.open sampleLimits) (overtakenCalls.take 3)).KeepsJob next "work"
          oneLetterPolicy id row Store.exhaustedReason 5000 := by
  constructor
  · have hreported : ((run (Store.open sampleLimits) (overtakenCalls.take 3)).failJob
        ⟨2, "work", 101⟩ "first" oneLetterPolicy 20).toOption.map Prod.fst =
          some .deadLettered := by
      decide +kernel
    obtain ⟨next, hfail⟩ := Result.exists_of_toOption_fst hreported
    obtain ⟨hcount, hkeeps, -⟩ := (dead_letters_pruned_by_publication
      (run (Store.open sampleLimits) (overtakenCalls.take 3)) next oneLetterPolicy 20).1
      ⟨2, "work", 101⟩ "first" hfail
    exact ⟨next, hfail, hcount, hkeeps⟩
  · have hreported : ((run (Store.open sampleLimits) (overtakenCalls.take 3)).reserveJob "work"
        oneLetterPolicy 102 5000).toOption.map Prod.fst = some (none, [1, 2]) := by
      decide +kernel
    obtain ⟨next, hreserve⟩ := Result.exists_of_toOption_fst hreported
    obtain ⟨hcount, hkeeps, -⟩ := (dead_letters_pruned_by_publication
      (run (Store.open sampleLimits) (overtakenCalls.take 3)) next oneLetterPolicy 5000).2 "work"
      102 none [1, 2] hreserve
    exact ⟨next, hreserve, hcount, hkeeps⟩

/-- The job that fails now is reported as a dead letter and is not among them, while the
one that failed before it is kept. -/
theorem dead_letter_lost_to_earlier_failure :
    oneLetterPolicy.validate = .ok () ∧
    ∃ next, (run (Store.open sampleLimits) overtakenCalls).failJob ⟨1, "work", 100⟩ "second"
        oneLetterPolicy 30 = .ok (.deadLettered, next) ∧
      next.queueDead.find 1 = none ∧
      (next.queueDead.find 2).map DeadRow.failedAt = some 20 := by
  refine ⟨Result.eq_ok_of_toBool (by decide +kernel), ?_⟩
  have hreported : ((run (Store.open sampleLimits) overtakenCalls).failJob ⟨1, "work", 100⟩
      "second" oneLetterPolicy 30).toOption.map Prod.fst = some .deadLettered := by
    decide +kernel
  cases hfail : (run (Store.open sampleLimits) overtakenCalls).failJob ⟨1, "work", 100⟩
      "second" oneLetterPolicy 30 with
  | error error =>
    rw [hfail] at hreported
    cases hreported
  | ok result =>
    obtain ⟨disposition, next⟩ := result
    rw [hfail] at hreported
    cases hreported
    rcases Store.failJob_eq_ok hfail with ⟨-, hlost, -⟩ | ⟨row, hfind, -, -, -, hmove⟩ |
      ⟨row, visibleAt, -, -, -, -, hretried, -⟩
    · cases hlost
    · have hrow : (run (Store.open sampleLimits) overtakenCalls).queueJobs.find 1 =
          some { queue := "work", sequence := 1, body := [1], attempts := 1, visibleAt := 0,
                 leaseUntil := some 1010, owner := some 100, sizeBytes := 1, enqueuedAt := 0 } := by
        decide +kernel
      rw [hrow, Option.some.injEq] at hfind
      subst hfind
      refine ⟨next, rfl, ?_⟩
      rw [Store.enforceDeadLetterBounds_spec hmove]
      unfold Table.keepNewest Table.newestFirst
      rw [List.mergeSort_of_pairwise (by decide +kernel)]
      decide +kernel
    · cases hretried

end Krit.Durable
