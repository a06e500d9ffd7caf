import Krit.Jobs

/-!
# Schedules

A tick materializes the occurrences of a schedule that are due, up to its catch-up
bound, and moves the cursor of the schedule to the latest of them.  Fires are then
reserved, failed and completed like jobs.  Fires that are completed or dead are
pruned, so that a fire is not found again under its instant once it is old.
-/

namespace Krit.Durable

open Machine Std

def minScheduleInterval : Duration := .fromSecs 1

def maxScheduleInterval : Duration := .fromSecs (365 * 24 * 60 * 60)

def maxScheduleCatchUp : ℕ := 64

def maxScheduleRetention : Duration := .fromSecs (30 * 24 * 60 * 60)

def maxRetainedFires : ℕ := 4096

structure SchedulePolicy where
  interval : Duration
  startMillis : ℤ
  maxCatchUp : ℕ
  maxAttempts : ℕ
  lease : Duration
  backoff : Duration
  maxBackoff : Duration
  retention : Duration
  maxRetainedFires : ℕ
  deriving DecidableEq, Repr

namespace SchedulePolicy

def validate (policy : SchedulePolicy) : Except StateError Unit :=
  Result.ensure
    (minScheduleInterval.nanos ≤ policy.interval.nanos &&
      validMillis policy.interval maxScheduleInterval &&
      0 ≤ policy.startMillis &&
      within policy.maxCatchUp maxScheduleCatchUp &&
      within policy.maxAttempts maxDeliveryAttempts &&
      validMillis policy.lease maxDeliveryLease &&
      validMillis policy.backoff maxDeliveryBackoff &&
      policy.backoff.nanos ≤ policy.maxBackoff.nanos &&
      validMillis policy.maxBackoff maxDeliveryBackoff &&
      validMillis policy.retention maxScheduleRetention &&
      within policy.maxRetainedFires Durable.maxRetainedFires)
    (.limit "durable schedule policy is invalid")

def validateInstant (policy : SchedulePolicy) (nowMillis : ℤ) : Except StateError Unit := do
  policy.validate
  preflightInstants nowMillis [policy.lease, policy.maxBackoff, policy.retention]

def intervalMillis (policy : SchedulePolicy) : Option ℤ :=
  (i64TryFrom policy.interval.asMillis).filter fun millis => 0 < millis

end SchedulePolicy

/-! ## Ticks -/

structure ScheduleCatchUp where
  materialized : ℕ
  skipped : ℕ
  cursorDueMillis : ℤ
  deriving DecidableEq, Repr

structure OccurrenceBounds where
  currentIndex : ℤ
  cursorDue : ℤ
  deriving DecidableEq, Repr

def instantOverflowed : StateError := .limit "durable schedule instant overflowed"

def occurrenceInstant (startMillis index interval : ℤ) : Except StateError ℤ :=
  Result.ofOption instantOverflowed
    ((i64TryFrom (index * interval)).bind fun offset => i64TryFrom (startMillis + offset))

/-- The current occurrence, unless the schedule has not started; division truncates
towards zero. -/
def occurrenceBounds (policy : SchedulePolicy) (interval nowMillis : ℤ) :
    Except StateError (Option OccurrenceBounds) :=
  if nowMillis < policy.startMillis then pure none
  else do
    let elapsed ← Result.ofOption instantOverflowed (i64TryFrom (nowMillis - policy.startMillis))
    let currentIndex := elapsed.tdiv interval
    let cursorDue ← occurrenceInstant policy.startMillis currentIndex interval
    pure (some { currentIndex, cursorDue })

namespace Store

/-- The fires that are over and that the entry bound leaves out, the latest being kept. -/
def firesBeyond (store : Store) (schedule : String) (limit : ℕ) : List ℤ :=
  let rows := store.scheduleFires.select fun key row =>
    key.1 == schedule && row.status != .pending
  ((rows.mergeSort fun left right => decide (right.1.2 ≤ left.1.2)).drop limit).map
    fun entry => entry.1.2

def cleanupScheduleFires (store : Store) (schedule : String) (policy : SchedulePolicy)
    (nowMillis : ℤ) : Except StateError Store := do
  let retention ← Result.ofOption (.limit "schedule retention exceeds i64")
    (i64TryFrom policy.retention.asMillis)
  let horizon ← Result.ofOption (.limit "schedule retention horizon overflowed")
    (i64TryFrom (nowMillis - retention))
  let store : Store :=
    { store with
      scheduleFires := store.scheduleFires.delete fun key row =>
        key.1 == schedule && row.status != .pending && row.updatedAt ≤ horizon }
  let _ ← Result.ofOption (.limit "schedule retention bound exceeds i64")
    (i64TryFrom policy.maxRetainedFires)
  let beyond := store.firesBeyond schedule policy.maxRetainedFires
  pure
    { store with
      scheduleFires := store.scheduleFires.delete fun key row =>
        key.1 == schedule && row.status != .pending && beyond.contains key.2 }

/-- The first occurrence after the cursor; without a cursor, the current one. -/
def firstIndex (policy : SchedulePolicy) (interval currentIndex : ℤ) :
    Option CursorRow → Except StateError ℤ
  | none => pure currentIndex
  | some cursor => do
      let elapsed ← Result.ofOption (.limit "durable schedule cursor is invalid")
        (i64TryFrom (cursor.lastDueAt - policy.startMillis))
      Result.ofOption (.limit "durable schedule cursor overflowed")
        (i64TryFrom (elapsed.tdiv interval + 1))

/-- Inserts the fire of one occurrence, unless its instant has one. -/
def insertFire (schedule : String) (policy : SchedulePolicy) (interval nowMillis : ℤ)
    (state : List ℤ × Store) (index : ℤ) : Except StateError (List ℤ × Store) := do
  let due ← occurrenceInstant policy.startMillis index interval
  let (inserted, store) := state
  let fires := store.scheduleFires.insert (schedule, due)
    { status := .pending
      attempts := 0
      visibleAt := due
      leaseUntil := none
      owner := none
      updatedAt := nowMillis }
  let inserted :=
    if (store.scheduleFires.find (schedule, due)).isNone then inserted ++ [due] else inserted
  pure (inserted, { store with scheduleFires := fires })

/-- `first..=last`. -/
def indexRange (first last : ℤ) : List ℤ :=
  (List.range (last - first + 1).toNat).map fun (offset : ℕ) => first + (offset : ℤ)

/-- Materializes every occurrence that is due, up to the catch-up bound; returns the
instants that were inserted next to the report. -/
def materializeSchedule (store : Store) (schedule : String) (policy : SchedulePolicy)
    (nowMillis : ℤ) : Except StateError ((ScheduleCatchUp × List ℤ) × Store) := do
  policy.validateInstant nowMillis
  validateIdentity schedule maxResourceNameBytes
  let interval ← Result.ofOption (.limit "durable schedule interval is invalid")
    policy.intervalMillis
  let horizon ← occurrenceBounds policy interval nowMillis
  let store ← store.cleanupScheduleFires schedule policy nowMillis
  if nowMillis < policy.startMillis then
    pure (({ materialized := 0, skipped := 0, cursorDueMillis := policy.startMillis }, []), store)
  else
    let bounds ← Result.ofOption instantOverflowed horizon
    let first ← firstIndex policy interval bounds.currentIndex
      (store.scheduleCursors.find schedule)
    if first > bounds.currentIndex then
      pure (({ materialized := 0, skipped := 0, cursorDueMillis := bounds.cursorDue }, []), store)
    else
      let pending := bounds.currentIndex - first + 1
      let catchUp : ℤ := policy.maxCatchUp
      let (first, skipped) :=
        if pending > catchUp then (bounds.currentIndex - catchUp + 1, pending - catchUp)
        else (first, 0)
      let (inserted, store) ← (indexRange first bounds.currentIndex).foldlM
        (insertFire schedule policy interval nowMillis) ([], store)
      let cursor : CursorRow := { lastDueAt := bounds.cursorDue, updatedAt := nowMillis }
      pure
        (({ materialized := inserted.length
            skipped := skipped.toNat
            cursorDueMillis := bounds.cursorDue },
          inserted),
        { store with
          scheduleCursors := store.scheduleCursors.upsert schedule cursor fun _ => cursor })

end Store

/-! ## Fires -/

structure FireDelivery where
  lease : FireLease
  attempt : ℕ
  maxAttempts : ℕ
  deriving DecidableEq, Repr

def FireRow.eligible (row : FireRow) (nowMillis : ℤ) : Bool :=
  row.status == .pending && row.visibleAt ≤ nowMillis && leaseFree row.leaseUntil nowMillis

/-- A fire that is given up. -/
def FireRow.giveUp (nowMillis : ℤ) (row : FireRow) : FireRow :=
  { row with status := .dead, owner := none, leaseUntil := none, updatedAt := nowMillis }

namespace Store

/-- The earliest eligible fire of a schedule. -/
def fireCandidate (store : Store) (schedule : String) (nowMillis : ℤ) :
    Option ((String × ℤ) × FireRow) :=
  Table.least (fun entry => entry.1.2)
    (store.scheduleFires.select fun key row => key.1 == schedule && row.eligible nowMillis)

/-- The loop of `reserve_schedule_fire`, with the rows that it may still look at. -/
def reserveFireScan (schedule : String) (policy : SchedulePolicy) (owner : Identity)
    (nowMillis : ℤ) : ℕ → Store → Except StateError (Option FireDelivery × Store)
  | 0, store => pure (none, store)
  | left + 1, store =>
      match store.fireCandidate schedule nowMillis with
      | none => pure (none, store)
      | some ((_, dueAt), row) => do
          let nextAttempt ← Result.ofOption (.limit "durable schedule attempt overflowed")
            (i64TryFrom (row.attempts + 1))
          if nextAttempt > policy.maxAttempts then
            reserveFireScan schedule policy owner nowMillis left
              { store with
                scheduleFires := store.scheduleFires.update
                  (fun key _ => key == (schedule, dueAt)) (FireRow.giveUp nowMillis) }
          else
            let leaseUntil ← checkedDeadline nowMillis policy.lease
            pure
              (some
                { lease := { schedule, dueAtMillis := dueAt, owner }
                  attempt := attemptNumber nextAttempt
                  maxAttempts := policy.maxAttempts },
              { store with
                scheduleFires := store.scheduleFires.update
                  (fun key _ => key == (schedule, dueAt)) fun row =>
                    { row with
                      attempts := nextAttempt
                      owner := some owner
                      leaseUntil := some leaseUntil
                      updatedAt := nowMillis } })

def reserveScheduleFire (store : Store) (schedule : String) (policy : SchedulePolicy)
    (owner : Identity) (nowMillis : ℤ) : Except StateError (Option FireDelivery × Store) := do
  policy.validateInstant nowMillis
  validateIdentity schedule maxResourceNameBytes
  reserveFireScan schedule policy owner nowMillis
    (min policy.maxRetainedFires maxReservationScan) store

def failScheduleFire (store : Store) (lease : FireLease) (policy : SchedulePolicy)
    (nowMillis : ℤ) : Except StateError (JobDisposition × Store) := do
  policy.validateInstant nowMillis
  let own : String × ℤ → FireRow → Bool := fun key _ => key == (lease.schedule, lease.dueAtMillis)
  match (store.scheduleFires.select lease.owns).head? with
  | none => pure (.lost, store)
  | some (_, row) =>
      if row.attempts ≥ policy.maxAttempts then
        pure
          (.deadLettered,
          { store with
            scheduleFires := store.scheduleFires.update own (FireRow.giveUp nowMillis) })
      else
        let visibleAt ← checkedDeadline nowMillis
          (backoffFor policy.backoff policy.maxBackoff row.attempts)
        pure
          (.retried visibleAt,
          { store with
            scheduleFires := store.scheduleFires.update own fun row =>
              { row with
                visibleAt
                owner := none
                leaseUntil := none
                updatedAt := nowMillis } })

/-! ## What a successful transaction has done -/

/-- No fire is new, and none is pending that was over. -/
def Aged (before after : Table (String × ℤ) FireRow) : Prop :=
  ∀ key row, after.find key = some row →
    ∃ old, before.find key = some old ∧ (row.status = .pending → old.status = .pending)

section Specifications

variable {store next : Store}

theorem Aged.trans {before middle after : Table (String × ℤ) FireRow} (hfirst : Aged before middle)
    (hsecond : Aged middle after) : Aged before after := by
  intro key row hfind
  obtain ⟨between, hbetween, hpending⟩ := hsecond key row hfind
  obtain ⟨old, hold, hearlier⟩ := hfirst key between hbetween
  exact ⟨old, hold, fun hstatus => hearlier (hpending hstatus)⟩

theorem Aged.refl (fires : Table (String × ℤ) FireRow) : Aged fires fires :=
  fun _ row hfind => ⟨row, hfind, id⟩

theorem Aged.delete (fires : Table (String × ℤ) FireRow)
    (condition : String × ℤ → FireRow → Bool) : Aged fires (fires.delete condition) := by
  intro key row hfind
  rw [Table.find_delete, Option.filter_eq_some_iff] at hfind
  exact ⟨row, hfind.1, id⟩

/-- A change of rows that makes none pending. -/
theorem Aged.update (fires : Table (String × ℤ) FireRow)
    (condition : String × ℤ → FireRow → Bool) {change : FireRow → FireRow}
    (hchange : ∀ row, (change row).status = .pending → row.status = .pending) :
    Aged fires (fires.update condition change) := by
  intro key row hfind
  rw [Table.find_update, Option.map_eq_some_iff] at hfind
  obtain ⟨old, hold, hrow⟩ := hfind
  refine ⟨old, hold, ?_⟩
  intro hstatus
  by_cases hcondition : condition key old = true
  · rw [if_pos hcondition] at hrow
    rw [← hrow] at hstatus
    exact hchange old hstatus
  · rw [if_neg hcondition] at hrow
    rw [hrow]
    exact hstatus

theorem cleanupScheduleFires_eq_ok {schedule : String} {policy : SchedulePolicy} {nowMillis : ℤ}
    (hcleanup : store.cleanupScheduleFires schedule policy nowMillis = .ok next) :
    ∃ scheduleFires, next = { store with scheduleFires } ∧
      Aged store.scheduleFires scheduleFires := by
  unfold cleanupScheduleFires at hcleanup
  simp only [Result.bind_eq_ok, Result.pure_eq_ok] at hcleanup
  obtain ⟨_, -, horizon, -, _, -, hnext⟩ := hcleanup
  exact ⟨_, hnext.symm, (Aged.delete _ _).trans (Aged.delete _ _)⟩

theorem occurrenceInstant_eq_ok {startMillis index interval due : ℤ}
    (hdue : occurrenceInstant startMillis index interval = .ok due) :
    due = startMillis + index * interval := by
  unfold occurrenceInstant at hdue
  rw [Result.ofOption_eq_ok, Option.bind_eq_some_iff] at hdue
  obtain ⟨offset, hoffset, hsum⟩ := hdue
  rw [i64TryFrom_eq_some hsum, i64TryFrom_eq_some hoffset]

theorem intervalMillis_eq_some {policy : SchedulePolicy} {interval : ℤ}
    (hinterval : policy.intervalMillis = some interval) : 0 < interval := by
  unfold SchedulePolicy.intervalMillis at hinterval
  rw [Option.filter_eq_some_iff] at hinterval
  simpa using hinterval.2

theorem occurrenceBounds_eq_ok {policy : SchedulePolicy} {interval nowMillis : ℤ}
    {bounds : OccurrenceBounds}
    (hbounds : occurrenceBounds policy interval nowMillis = .ok (some bounds)) :
    bounds.cursorDue = policy.startMillis + bounds.currentIndex * interval := by
  unfold occurrenceBounds at hbounds
  split at hbounds
  · rw [Result.pure_eq_ok] at hbounds
    cases hbounds
  · simp only [Result.bind_eq_ok, Result.pure_eq_ok, Option.some.injEq] at hbounds
    obtain ⟨elapsed, -, cursorDue, hdue, heq⟩ := hbounds
    rw [← heq]
    exact occurrenceInstant_eq_ok hdue

/-- The first index is after the cursor, whatever start and interval the cursor was
recorded under: division towards zero never rounds below the cursor. -/
theorem firstIndex_eq_ok {policy : SchedulePolicy} {interval currentIndex first : ℤ}
    {cursor : CursorRow} (hinterval : 0 < interval)
    (hfirst : firstIndex policy interval currentIndex (some cursor) = .ok first) :
    cursor.lastDueAt < policy.startMillis + first * interval := by
  simp only [firstIndex, Result.bind_eq_ok, Result.ofOption_eq_ok] at hfirst
  obtain ⟨elapsed, helapsed, hindex⟩ := hfirst
  have hdifference := i64TryFrom_eq_some helapsed
  have hnext := i64TryFrom_eq_some hindex
  have hbelow := Int.lt_tdiv_add_one_mul_self elapsed hinterval
  rw [hnext]
  omega

/-- Inserting fires: each instant that is inserted had no fire, and now has a pending
one; every other fire is as it was. -/
theorem insertFire_eq_ok {schedule : String} {policy : SchedulePolicy}
    {interval nowMillis index : ℤ} {inserted inserted' : List ℤ}
    (hinsert : insertFire schedule policy interval nowMillis (inserted, store) index =
      .ok (inserted', next)) :
    ∃ scheduleFires, next = { store with scheduleFires } ∧
      ((inserted' = inserted ∧ scheduleFires = store.scheduleFires) ∨
        (inserted' = inserted ++ [policy.startMillis + index * interval] ∧
          store.scheduleFires.find (schedule, policy.startMillis + index * interval) = none ∧
          ∃ row : FireRow, row.status = .pending ∧ scheduleFires =
            store.scheduleFires.insert (schedule, policy.startMillis + index * interval) row)) := by
  unfold insertFire at hinsert
  simp only [Result.bind_eq_ok, Result.pure_eq_ok, Prod.mk.injEq] at hinsert
  obtain ⟨due, hdue, hinserted, hnext⟩ := hinsert
  have hinstant := occurrenceInstant_eq_ok hdue
  subst hinstant
  refine ⟨_, hnext.symm, ?_⟩
  cases hfind : store.scheduleFires.find (schedule, policy.startMillis + index * interval) with
  | some row =>
    left
    rw [Table.find_insert_of_some hfind]
    simpa [hfind] using hinserted.symm
  | none =>
    right
    refine ⟨?_, rfl, _, rfl, rfl⟩
    simpa [hfind] using hinserted.symm

/-- The loop of a tick inserts distinct instants of its range that had no fire; every
other fire is as it was. -/
theorem insertFires_eq_ok {schedule : String} {policy : SchedulePolicy} {interval nowMillis : ℤ}
    {indices : List ℤ} {inserted inserted' : List ℤ}
    (hinsert : indices.foldlM (insertFire schedule policy interval nowMillis) (inserted, store) =
      .ok (inserted', next)) :
    ∃ scheduleFires added, next = { store with scheduleFires } ∧ inserted' = inserted ++ added ∧
      added.Nodup ∧
      (∀ due ∈ added, ∃ index ∈ indices, due = policy.startMillis + index * interval) ∧
      (∀ due ∈ added, store.scheduleFires.find (schedule, due) = none) ∧
      ∀ key row, scheduleFires.find key = some row →
        store.scheduleFires.find key = some row ∨ ∃ due ∈ added, key = (schedule, due) := by
  induction indices generalizing inserted store with
  | nil =>
    rw [List.foldlM_nil, Result.pure_eq_ok, Prod.mk.injEq] at hinsert
    refine ⟨store.scheduleFires, [], hinsert.2.symm, by simp [hinsert.1], List.nodup_nil, by simp,
      by simp, ?_⟩
    intro key row hfind
    exact Or.inl hfind
  | cons index rest ih =>
    rw [List.foldlM_cons, Result.bind_eq_ok] at hinsert
    obtain ⟨⟨middle, between⟩, hfirst, hrest⟩ := hinsert
    obtain ⟨fires, added, hnext, hadded, hnodup, hrange, habsent, hfires⟩ := ih hrest
    obtain ⟨first, hbetween, hcases⟩ := insertFire_eq_ok hfirst
    subst hbetween
    have hrange' : ∀ due ∈ added, ∃ found ∈ index :: rest,
        due = policy.startMillis + found * interval := by
      intro due hdue
      obtain ⟨found, hfound, heq⟩ := hrange due hdue
      exact ⟨found, List.mem_cons_of_mem _ hfound, heq⟩
    rcases hcases with ⟨hsame, hfirstFires⟩ | ⟨hmiddle, hnone, row, -, hfirstFires⟩
    · rw [hsame] at hadded
      simp only [hfirstFires] at habsent hfires
      exact ⟨fires, added, hnext, hadded, hnodup, hrange', habsent, hfires⟩
    · simp only [hfirstFires] at habsent hfires
      have hown : ∀ due ∈ added, due ≠ policy.startMillis + index * interval := by
        intro due hdue heq
        have hfind := habsent due hdue
        rw [heq, Table.find_insert_self hnone] at hfind
        cases hfind
      refine ⟨fires, (policy.startMillis + index * interval) :: added, hnext, ?_, ?_, ?_, ?_, ?_⟩
      · rw [hadded, hmiddle, List.append_assoc, List.singleton_append]
      · exact List.nodup_cons.mpr ⟨fun hmem => hown _ hmem rfl, hnodup⟩
      · intro due hdue
        rcases List.mem_cons.mp hdue with heq | hmem
        · exact ⟨index, List.mem_cons_self, heq⟩
        · exact hrange' due hmem
      · intro due hdue
        rcases List.mem_cons.mp hdue with heq | hmem
        · rw [heq]
          exact hnone
        · have hfind := habsent due hmem
          rw [Table.find_insert_of_ne] at hfind
          · exact hfind
          · intro heq
            rw [Prod.mk.injEq] at heq
            exact hown due hmem heq.2.symm
      · intro key found hfind
        rcases hfires key found hfind with hold | ⟨due, hdue, hkey⟩
        · by_cases hsame : (schedule, policy.startMillis + index * interval) = key
          · exact Or.inr ⟨_, List.mem_cons_self, hsame.symm⟩
          · rw [Table.find_insert_of_ne hsame] at hold
            exact Or.inl hold
        · exact Or.inr ⟨due, List.mem_cons_of_mem _ hdue, hkey⟩

theorem validateInstant_catchUp {policy : SchedulePolicy} {nowMillis : ℤ}
    (hvalid : policy.validateInstant nowMillis = .ok ()) : 1 ≤ policy.maxCatchUp := by
  unfold SchedulePolicy.validateInstant at hvalid
  rw [Result.bind_eq_ok] at hvalid
  obtain ⟨_, hpolicy, -⟩ := hvalid
  unfold SchedulePolicy.validate within at hpolicy
  simp only [Result.ensure_eq_ok, Bool.and_eq_true, decide_eq_true_eq] at hpolicy
  omega

/-- A tick cleans up; then it does nothing more, or it inserts a range of occurrences
after the cursor and moves the cursor to the last of them. -/
theorem materializeSchedule_eq_ok {schedule : String} {policy : SchedulePolicy} {nowMillis : ℤ}
    {report : ScheduleCatchUp} {inserted : List ℤ}
    (htick : store.materializeSchedule schedule policy nowMillis =
      .ok ((report, inserted), next)) :
    ∃ cleaned, store.cleanupScheduleFires schedule policy nowMillis = .ok cleaned ∧
      ((inserted = [] ∧ next = cleaned) ∨
        ∃ interval first last filled, 0 < interval ∧ first ≤ last ∧
          (∀ cursor, cleaned.scheduleCursors.find schedule = some cursor →
            cursor.lastDueAt < policy.startMillis + first * interval) ∧
          (indexRange first last).foldlM (insertFire schedule policy interval nowMillis)
            ([], cleaned) = .ok (inserted, filled) ∧
          next =
            { filled with
              scheduleCursors := filled.scheduleCursors.upsert schedule
                ⟨policy.startMillis + last * interval, nowMillis⟩
                fun _ => ⟨policy.startMillis + last * interval, nowMillis⟩ }) := by
  unfold materializeSchedule at htick
  simp only [Result.bind_eq_ok, Result.ofOption_eq_ok] at htick
  obtain ⟨_, hvalid, _, -, interval, hinterval, horizon, hhorizon, cleaned, hcleanup,
    htick⟩ := htick
  have hpositive := intervalMillis_eq_some hinterval
  have hcatchUp := validateInstant_catchUp hvalid
  refine ⟨cleaned, hcleanup, ?_⟩
  by_cases hearly : nowMillis < policy.startMillis
  · rw [if_pos hearly] at htick
    simp only [Result.pure_eq_ok, Prod.mk.injEq] at htick
    exact Or.inl ⟨htick.1.2.symm, htick.2.symm⟩
  · rw [if_neg hearly] at htick
    simp only [Result.bind_eq_ok, Result.ofOption_eq_ok] at htick
    obtain ⟨bounds, hbounds, first, hfirst, htick⟩ := htick
    subst hbounds
    have hdue := occurrenceBounds_eq_ok hhorizon
    by_cases hpast : first > bounds.currentIndex
    · rw [if_pos hpast] at htick
      simp only [Result.pure_eq_ok, Prod.mk.injEq] at htick
      exact Or.inl ⟨htick.1.2.symm, htick.2.symm⟩
    · rw [if_neg hpast] at htick
      right
      have hafter : ∀ cursor, cleaned.scheduleCursors.find schedule = some cursor →
          cursor.lastDueAt < policy.startMillis + first * interval := by
        intro cursor hcursor
        rw [hcursor] at hfirst
        exact firstIndex_eq_ok hpositive hfirst
      by_cases hmany : bounds.currentIndex - first + 1 > (policy.maxCatchUp : ℤ)
      · -- the oldest occurrences are skipped, so the range starts later
        simp only [if_pos hmany, Result.bind_eq_ok, Result.pure_eq_ok, Prod.mk.injEq] at htick
        obtain ⟨⟨found, filled⟩, hfilled, ⟨-, hinserted⟩, hnext⟩ := htick
        subst hinserted
        refine ⟨interval, bounds.currentIndex - policy.maxCatchUp + 1, bounds.currentIndex, filled,
          hpositive, by omega, ?_, hfilled, ?_⟩
        · intro cursor hcursor
          have hlater : first * interval ≤
              (bounds.currentIndex - policy.maxCatchUp + 1) * interval :=
            Int.mul_le_mul_of_nonneg_right (by omega) hpositive.le
          have hbefore := hafter cursor hcursor
          omega
        · rw [← hnext, hdue]
      · simp only [if_neg hmany, Result.bind_eq_ok, Result.pure_eq_ok, Prod.mk.injEq] at htick
        obtain ⟨⟨found, filled⟩, hfilled, ⟨-, hinserted⟩, hnext⟩ := htick
        subst hinserted
        refine ⟨interval, first, bounds.currentIndex, filled, hpositive, by omega, hafter, hfilled,
          ?_⟩
        rw [← hnext, hdue]

/-- A tick changes fires and cursors only. -/
theorem materializeSchedule_frame {schedule : String} {policy : SchedulePolicy}
    {nowMillis : ℤ} {report : ScheduleCatchUp} {inserted : List ℤ}
    (htick : store.materializeSchedule schedule policy nowMillis =
      .ok ((report, inserted), next)) :
    ∃ scheduleFires scheduleCursors, next = { store with scheduleFires, scheduleCursors } := by
  obtain ⟨cleaned, hcleanup, hcases⟩ := materializeSchedule_eq_ok htick
  obtain ⟨fires, hcleaned, -⟩ := cleanupScheduleFires_eq_ok hcleanup
  rcases hcases with ⟨-, hnext⟩ | ⟨interval, first, last, filled, -, -, -, hfilled, hnext⟩
  · exact ⟨fires, store.scheduleCursors, by rw [hnext, hcleaned]⟩
  · obtain ⟨filledFires, added, hfill, -⟩ := insertFires_eq_ok hfilled
    exact ⟨filledFires, _, by rw [hnext, hfill, hcleaned]⟩

theorem reserveFireScan_eq_ok {schedule : String} {policy : SchedulePolicy} {owner : Identity}
    {nowMillis : ℤ} {left : ℕ} {delivery : Option FireDelivery}
    (hscan : reserveFireScan schedule policy owner nowMillis left store = .ok (delivery, next)) :
    ∃ scheduleFires, next = { store with scheduleFires } ∧
      Aged store.scheduleFires scheduleFires := by
  induction left generalizing store with
  | zero =>
    rw [reserveFireScan, Result.pure_eq_ok, Prod.mk.injEq] at hscan
    exact ⟨_, hscan.2.symm, Aged.refl _⟩
  | succ left ih =>
    rw [reserveFireScan] at hscan
    cases hcandidate : store.fireCandidate schedule nowMillis with
    | none =>
      simp only [hcandidate, Result.pure_eq_ok, Prod.mk.injEq] at hscan
      exact ⟨_, hscan.2.symm, Aged.refl _⟩
    | some entry =>
      obtain ⟨⟨name, dueAt⟩, row⟩ := entry
      simp only [hcandidate, Result.bind_eq_ok] at hscan
      obtain ⟨nextAttempt, -, hscan⟩ := hscan
      by_cases hexhausted : nextAttempt > policy.maxAttempts
      · rw [if_pos hexhausted] at hscan
        obtain ⟨scheduleFires, hnext, haged⟩ := ih hscan
        refine ⟨scheduleFires, hnext, Aged.trans (Aged.update _ _ ?_) haged⟩
        intro old hstatus
        cases hstatus
      · rw [if_neg hexhausted] at hscan
        simp only [Result.bind_eq_ok, Result.pure_eq_ok, Prod.mk.injEq] at hscan
        obtain ⟨leaseUntil, -, -, hnext⟩ := hscan
        refine ⟨_, hnext.symm, Aged.update _ _ ?_⟩
        intro old hstatus
        exact hstatus

theorem reserveScheduleFire_eq_ok {schedule : String} {policy : SchedulePolicy} {owner : Identity}
    {nowMillis : ℤ} {delivery : Option FireDelivery}
    (hreserve : store.reserveScheduleFire schedule policy owner nowMillis = .ok (delivery, next)) :
    ∃ scheduleFires, next = { store with scheduleFires } ∧
      Aged store.scheduleFires scheduleFires := by
  unfold reserveScheduleFire at hreserve
  simp only [Result.bind_eq_ok] at hreserve
  obtain ⟨_, -, _, -, hscan⟩ := hreserve
  exact reserveFireScan_eq_ok hscan

theorem failScheduleFire_eq_ok {lease : FireLease} {policy : SchedulePolicy} {nowMillis : ℤ}
    {disposition : JobDisposition}
    (hfail : store.failScheduleFire lease policy nowMillis = .ok (disposition, next)) :
    ∃ scheduleFires, next = { store with scheduleFires } ∧
      Aged store.scheduleFires scheduleFires := by
  unfold failScheduleFire at hfail
  simp only [Result.bind_eq_ok] at hfail
  obtain ⟨_, -, hfail⟩ := hfail
  cases hrow : (store.scheduleFires.select lease.owns).head? with
  | none =>
    simp only [hrow, Result.pure_eq_ok, Prod.mk.injEq] at hfail
    exact ⟨_, hfail.2.symm, Aged.refl _⟩
  | some entry =>
    simp only [hrow] at hfail
    by_cases hexhausted : entry.2.attempts ≥ policy.maxAttempts
    · rw [if_pos hexhausted] at hfail
      simp only [Result.pure_eq_ok, Prod.mk.injEq] at hfail
      refine ⟨_, hfail.2.symm, Aged.update _ _ ?_⟩
      intro old hstatus
      cases hstatus
    · rw [if_neg hexhausted] at hfail
      simp only [Result.bind_eq_ok, Result.pure_eq_ok, Prod.mk.injEq] at hfail
      obtain ⟨visibleAt, -, -, hnext⟩ := hfail
      refine ⟨_, hnext.symm, Aged.update _ _ ?_⟩
      intro old hstatus
      exact hstatus

end Specifications

end Store

end Krit.Durable
