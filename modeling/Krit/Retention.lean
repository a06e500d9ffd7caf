import Krit.Store

/-!
# Replay and idempotency records

A record is undecided under a lease until its owner completes or aborts it, and a
completed record answers later decisions until it expires or is evicted.  The replay
and the idempotency tables differ in their keys, their texts and one bound; what
their calls do is one definition for both.
-/

namespace Krit.Durable

open Machine Std

def maxReplayResultBytes : ℕ := 16 * 1024 * 1024

def maxReplayTtl : Duration := .fromSecs (30 * 24 * 60 * 60)

def maxReplayLease : Duration := .fromSecs (5 * 60)

structure RetentionPolicy where
  maxEntries : ℕ
  maxBytes : ℕ
  ttl : Duration
  lease : Duration
  deriving DecidableEq, Repr

def RetentionPolicy.validate (policy : RetentionPolicy) (limits : StoreLimits) :
    Except StateError Unit := do
  limits.validate
  Result.ensure
    (within policy.maxEntries limits.maxReplayEntries &&
      within policy.maxBytes limits.maxReplayBytes &&
      validMillis policy.ttl maxReplayTtl &&
      validMillis policy.lease maxReplayLease)
    (.limit "durable retention policy is invalid")

def validateDigest (digest : Bytes) : Except StateError Unit :=
  Result.ensure (digest.length == 32) (.replay "durable record digest must be 32 bytes")

def validateOwner (owner : Bytes) : Except StateError Unit :=
  Result.ensure (owner.length == 16) (.replay "durable lease owner must be 16 bytes")

/-- The lease of an undecided record. -/
structure Lease (κ : Type) where
  key : κ
  digest : Bytes
  owner : Bytes
  deriving DecidableEq, Repr

inductive Decision (κ : Type) where
  | execute (lease : Lease κ)
  | replay (result : Bytes)
  | conflict
  | inProgress
  deriving DecidableEq, Repr

/-- `value as usize`. -/
def asUsize (value : ℤ) : ℕ := (value % (wordCount : ℤ)).toNat

/-! ## One table of records -/

/-- The counter and the table that a call on records works on. -/
structure Records (κ : Type) where
  sequence : ℤ
  rows : Table κ RetainedRow

/-- A row whose deadline, if it has one, has passed. -/
def RetainedRow.over (nowMillis : ℤ) (row : RetainedRow) : Bool :=
  match row.status with
  | .completed => row.expiresAt.any (· ≤ nowMillis)
  | .undecided => row.leaseUntil.any (· ≤ nowMillis)

/-- Whether a lease still owns its undecided record. -/
def Lease.owns {κ : Type} [DecidableEq κ] (lease : Lease κ) (key : κ) (row : RetainedRow) : Bool :=
  key == lease.key && row.digest == lease.digest && row.status == .undecided &&
    row.owner == some lease.owner

namespace Records

variable {κ : Type} [DecidableEq κ]

def nextSequence (records : Records κ) : Except StateError (ℤ × Records κ) := do
  let sequence ← Result.ofOption databaseOperationFailed (i64TryFrom (records.sequence + 1))
  pure (sequence, { records with sequence })

def cleanup (records : Records κ) (nowMillis : ℤ) : Records κ :=
  { records with rows := records.rows.delete fun _ row => row.over nowMillis }

/-- The decision on a record.  A completed record without a result is an error that is
found only after the transaction, so it comes with the changed records. -/
def decision (records : Records κ) (key : κ) (digest owner : Bytes) (nowMillis : ℤ)
    (lease : Duration) (missingResult : String) :
    Except StateError (Except StateError (Decision κ) × Records κ) :=
  let records := records.cleanup nowMillis
  match records.rows.find key with
  | some row =>
      if row.digest ≠ digest then pure (.ok .conflict, records)
      else if row.status = .completed then do
        let (sequence, records) ← records.nextSequence
        pure
          (Result.ofOption (.database missingResult) (row.result.map .replay),
          { records with
            rows := records.rows.update (fun other _ => other == key) fun row =>
              { row with lastUsed := sequence } })
      else if row.leaseUntil.any (· > nowMillis) then pure (.ok .inProgress, records)
      else do
        let leaseUntil ← checkedDeadline nowMillis lease
        pure
          (.ok (.execute { key, digest, owner }),
          { records with
            rows := records.rows.update (fun other _ => other == key) fun row =>
              { row with
                owner := some owner
                leaseUntil := some leaseUntil
                result := none
                expiresAt := none
                sizeBytes := 0 } })
  | none => do
      let (sequence, records) ← records.nextSequence
      let leaseUntil ← checkedDeadline nowMillis lease
      pure
        (.ok (.execute { key, digest, owner }),
        { records with
          rows := records.rows.insert key
            { digest
              status := .undecided
              owner := some owner
              leaseUntil := some leaseUntil
              result := none
              expiresAt := none
              lastUsed := sequence
              sizeBytes := 0 } })

/-- The completed records. -/
def completed (records : Records κ) : List (κ × RetainedRow) :=
  records.rows.select fun _ row => row.status == .completed

/-- `enforce_table_limits`: evicts the completed record that was used longest ago until
the bounds hold; returns what was evicted.  The fuel is the number of completed
records, of which each turn removes one. -/
def enforceLimits (policy : RetentionPolicy) :
    ℕ → Records κ → Except StateError (List κ × Records κ)
  | fuel, records => do
      let (entries, bytes) ← countAndSum (records.completed.map fun entry => entry.2.sizeBytes)
      if asUsize entries ≤ policy.maxEntries ∧ asUsize bytes ≤ policy.maxBytes then
        pure ([], records)
      else
        match fuel, Table.least (fun entry => entry.2.lastUsed) records.completed with
        | fuel + 1, some (key, _) => do
            let (evicted, records) ← enforceLimits policy fuel
              { records with rows := records.rows.delete fun other _ => other == key }
            pure (key :: evicted, records)
        | _, _ => .error (.database "durable retention cleanup could not evict a record")

def complete (records : Records κ) (lease : Lease κ) (result : Bytes) (nowMillis : ℤ)
    (policy : RetentionPolicy) (stale : String) : Except StateError (List κ × Records κ) := do
  let (sequence, records) ← records.nextSequence
  let expiresAt ← checkedDeadline nowMillis policy.ttl
  Result.ensure ((records.rows.select lease.owns).length == 1) (.replay stale)
  let records : Records κ :=
    { records with
      rows := records.rows.update lease.owns fun row =>
        { row with
          status := .completed
          owner := none
          leaseUntil := none
          result := some result
          expiresAt := some expiresAt
          lastUsed := sequence
          sizeBytes := result.length } }
  enforceLimits policy records.completed.length records

def abort (records : Records κ) (lease : Lease κ) : Records κ :=
  { records with rows := records.rows.delete lease.owns }

end Records

/-! ## The two tables -/

structure ReplayRequest where
  artifact : Bytes
  kind : ReplayKind
  operation : String
  inputDigest : Bytes
  owner : Bytes
  nowMillis : ℤ
  deriving DecidableEq, Repr

abbrev ReplayKey := Bytes × ReplayKind × String

abbrev IdempotencyKey := Bytes × String

namespace Store

def replayRecords (store : Store) : Records ReplayKey := ⟨store.sequence, store.replay⟩

def setReplayRecords (store : Store) (records : Records ReplayKey) : Store :=
  { store with sequence := records.sequence, replay := records.rows }

def idempotencyRecords (store : Store) : Records IdempotencyKey :=
  ⟨store.sequence, store.idempotency⟩

def setIdempotencyRecords (store : Store) (records : Records IdempotencyKey) : Store :=
  { store with sequence := records.sequence, idempotency := records.rows }

def replayDecision (store : Store) (request : ReplayRequest) (policy : RetentionPolicy) :
    Except StateError (Except StateError (Decision ReplayKey) × Store) := do
  policy.validate store.limits
  validateIdentity request.operation store.limits.maxKeyBytes
  validateDigest request.artifact
  validateDigest request.inputDigest
  validateOwner request.owner
  let (decision, records) ← store.replayRecords.decision
    (request.artifact, request.kind, request.operation) request.inputDigest request.owner
    request.nowMillis policy.lease "completed replay record has no result"
  pure (decision, store.setReplayRecords records)

def completeReplay (store : Store) (lease : Lease ReplayKey) (result : Bytes) (nowMillis : ℤ)
    (policy : RetentionPolicy) : Except StateError (List ReplayKey × Store) := do
  policy.validate store.limits
  Result.ensure (result.length ≤ maxReplayResultBytes && result.length ≤ policy.maxBytes)
    (.limit "replay result exceeds the store byte limit")
  let (evicted, records) ← store.replayRecords.complete lease result nowMillis policy
    "replay lease is stale or not owned"
  pure (evicted, store.setReplayRecords records)

def abortReplay (store : Store) (lease : Lease ReplayKey) : Store :=
  store.setReplayRecords (store.replayRecords.abort lease)

def idempotencyDecision (store : Store) (artifact : Bytes) (key : String)
    (requestDigest owner : Bytes) (nowMillis : ℤ) (policy : RetentionPolicy) :
    Except StateError (Except StateError (Decision IdempotencyKey) × Store) := do
  policy.validate store.limits
  validateIdentity key store.limits.maxKeyBytes
  validateDigest artifact
  validateDigest requestDigest
  validateOwner owner
  let (decision, records) ← store.idempotencyRecords.decision (artifact, key) requestDigest owner
    nowMillis policy.lease "completed idempotency record has no response"
  pure (decision, store.setIdempotencyRecords records)

def completeIdempotency (store : Store) (lease : Lease IdempotencyKey) (response : Bytes)
    (nowMillis : ℤ) (policy : RetentionPolicy) :
    Except StateError (List IdempotencyKey × Store) := do
  policy.validate store.limits
  Result.ensure (response.length ≤ policy.maxBytes)
    (.limit "idempotency response exceeds the retention byte limit")
  let (evicted, records) ← store.idempotencyRecords.complete lease response nowMillis policy
    "idempotency lease is stale or not owned"
  pure (evicted, store.setIdempotencyRecords records)

def abortIdempotency (store : Store) (lease : Lease IdempotencyKey) : Store :=
  store.setIdempotencyRecords (store.idempotencyRecords.abort lease)

/-! ## What a successful transaction has done -/

section Specifications

variable {store next : Store}

theorem replayDecision_eq_ok {request : ReplayRequest} {policy : RetentionPolicy}
    {decision : Except StateError (Decision ReplayKey)}
    (hdecision : store.replayDecision request policy = .ok (decision, next)) :
    ∃ records, store.replayRecords.decision
        (request.artifact, request.kind, request.operation) request.inputDigest request.owner
        request.nowMillis policy.lease "completed replay record has no result" =
          .ok (decision, records) ∧
      next = store.setReplayRecords records := by
  unfold replayDecision at hdecision
  simp only [Result.bind_eq_ok, Result.pure_eq_ok, Prod.mk.injEq] at hdecision
  obtain ⟨_, -, _, -, _, -, _, -, _, -, ⟨found, records⟩, hrecords, hfound, hnext⟩ := hdecision
  subst hfound
  exact ⟨records, hrecords, hnext.symm⟩

theorem completeReplay_eq_ok {lease : Lease ReplayKey} {result : Bytes} {nowMillis : ℤ}
    {policy : RetentionPolicy} {evicted : List ReplayKey}
    (hcomplete : store.completeReplay lease result nowMillis policy = .ok (evicted, next)) :
    ∃ records, store.replayRecords.complete lease result nowMillis policy
        "replay lease is stale or not owned" = .ok (evicted, records) ∧
      next = store.setReplayRecords records := by
  unfold completeReplay at hcomplete
  simp only [Result.bind_eq_ok, Result.pure_eq_ok, Prod.mk.injEq] at hcomplete
  obtain ⟨_, -, _, -, ⟨found, records⟩, hrecords, hfound, hnext⟩ := hcomplete
  subst hfound
  exact ⟨records, hrecords, hnext.symm⟩

theorem idempotencyDecision_eq_ok {artifact : Bytes} {key : String} {requestDigest owner : Bytes}
    {nowMillis : ℤ} {policy : RetentionPolicy}
    {decision : Except StateError (Decision IdempotencyKey)}
    (hdecision : store.idempotencyDecision artifact key requestDigest owner nowMillis policy =
      .ok (decision, next)) :
    ∃ records, store.idempotencyRecords.decision (artifact, key) requestDigest owner nowMillis
        policy.lease "completed idempotency record has no response" = .ok (decision, records) ∧
      next = store.setIdempotencyRecords records := by
  unfold idempotencyDecision at hdecision
  simp only [Result.bind_eq_ok, Result.pure_eq_ok, Prod.mk.injEq] at hdecision
  obtain ⟨_, -, _, -, _, -, _, -, _, -, ⟨found, records⟩, hrecords, hfound, hnext⟩ := hdecision
  subst hfound
  exact ⟨records, hrecords, hnext.symm⟩

theorem completeIdempotency_eq_ok {lease : Lease IdempotencyKey} {response : Bytes}
    {nowMillis : ℤ} {policy : RetentionPolicy} {evicted : List IdempotencyKey}
    (hcomplete : store.completeIdempotency lease response nowMillis policy =
      .ok (evicted, next)) :
    ∃ records, store.idempotencyRecords.complete lease response nowMillis policy
        "idempotency lease is stale or not owned" = .ok (evicted, records) ∧
      next = store.setIdempotencyRecords records := by
  unfold completeIdempotency at hcomplete
  simp only [Result.bind_eq_ok, Result.pure_eq_ok, Prod.mk.injEq] at hcomplete
  obtain ⟨_, -, _, -, ⟨found, records⟩, hrecords, hfound, hnext⟩ := hcomplete
  subst hfound
  exact ⟨records, hrecords, hnext.symm⟩

end Specifications

end Store

/-! ## What a call on one table has done -/

theorem checkedDeadline_eq_ok {nowMillis deadline : ℤ} {duration : Duration}
    (hdeadline : checkedDeadline nowMillis duration = .ok deadline) :
    deadline = nowMillis + duration.asMillis := by
  unfold checkedDeadline at hdeadline
  simp only [Result.bind_eq_ok, Result.ofOption_eq_ok] at hdeadline
  obtain ⟨millis, hmillis, hsum⟩ := hdeadline
  rw [i64TryFrom_eq_some hsum, i64TryFrom_eq_some hmillis]

theorem Lease.owns_iff {κ : Type} [DecidableEq κ] {lease : Lease κ} {key : κ}
    {row : RetainedRow} :
    lease.owns key row = true ↔ key = lease.key ∧ row.digest = lease.digest ∧
      row.status = .undecided ∧ row.owner = some lease.owner := by
  unfold Lease.owns
  simp [and_assoc]

theorem Lease.owns_key {κ : Type} [DecidableEq κ] {lease : Lease κ} (key : κ)
    (row : RetainedRow) (howns : lease.owns key row = true) : key = lease.key :=
  (Lease.owns_iff.mp howns).1

/-- A record has one owner. -/
theorem Lease.eq_of_owns {κ : Type} [DecidableEq κ] {lease other : Lease κ} {key : κ}
    {row : RetainedRow} (howns : lease.owns key row = true) (hother : other.owns key row = true) :
    lease = other := by
  obtain ⟨hkey, hdigest, -, howner⟩ := Lease.owns_iff.mp howns
  obtain ⟨hkey', hdigest', -, howner'⟩ := Lease.owns_iff.mp hother
  rw [howner, Option.some.injEq] at howner'
  cases lease
  cases other
  simp only [mk.injEq]
  exact ⟨hkey.symm.trans hkey', hdigest.symm.trans hdigest', howner'⟩

namespace Records

variable {κ : Type} [DecidableEq κ] {records next : Records κ}

omit [DecidableEq κ] in
theorem nextSequence_eq_ok {sequence : ℤ} (hnext : records.nextSequence = .ok (sequence, next)) :
    next = { records with sequence } := by
  unfold nextSequence at hnext
  simp only [Result.bind_eq_ok, Result.pure_eq_ok, Prod.mk.injEq] at hnext
  obtain ⟨_, -, hsequence, hrecords⟩ := hnext
  rw [← hrecords, hsequence]

/-- The record is leased to the caller of the decision. -/
structure LeasedTo (digest owner : Bytes) (nowMillis : ℤ) (lease : Duration)
    (row : RetainedRow) : Prop where
  digest : row.digest = digest
  undecided : row.status = .undecided
  owner : row.owner = some owner
  leaseUntil : row.leaseUntil = some (nowMillis + lease.asMillis)

section Decisions

variable {key : κ} {digest owner : Bytes} {nowMillis : ℤ} {lease : Duration}
variable {missingResult : String} {decided : Except StateError (Decision κ)}

theorem find_cleanup (other : κ) : (records.cleanup nowMillis).rows.find other =
    (records.rows.find other).filter fun row => !row.over nowMillis :=
  Table.find_delete _ _ _

/-- A decision on a record that is not there makes one. -/
theorem decision_of_absent
    (habsent : (records.cleanup nowMillis).rows.find key = none)
    (hdecision : records.decision key digest owner nowMillis lease missingResult =
      .ok (decided, next)) :
    ∃ row, decided = .ok (.execute { key, digest, owner }) ∧
      LeasedTo digest owner nowMillis lease row ∧
      next.rows = (records.cleanup nowMillis).rows.insert key row := by
  unfold decision at hdecision
  simp only [habsent, Result.bind_eq_ok, Result.pure_eq_ok, Prod.mk.injEq] at hdecision
  obtain ⟨⟨sequence, sequenced⟩, hsequence, leaseUntil, hlease, hdecided, hnext⟩ := hdecision
  rw [nextSequence_eq_ok hsequence] at hnext
  rw [← hnext]
  exact ⟨_, hdecided.symm, ⟨rfl, rfl, rfl, congrArg some (checkedDeadline_eq_ok hlease)⟩, rfl⟩

/-- A decision on a record that is there leases it, if nobody holds it, or answers with it. -/
theorem decision_of_found {row : RetainedRow}
    (hfound : (records.cleanup nowMillis).rows.find key = some row)
    (hdecision : records.decision key digest owner nowMillis lease missingResult =
      .ok (decided, next)) :
    (∀ other, key ≠ other →
      next.rows.find other = (records.cleanup nowMillis).rows.find other) ∧
    ((∃ leased, decided = .ok (.execute { key, digest, owner }) ∧ row.status = .undecided ∧
        ¬ row.leaseUntil.any (· > nowMillis) = true ∧ next.rows.find key = some leased ∧
        LeasedTo digest owner nowMillis lease leased) ∨
      ∃ lastUsed, next.rows.find key = some { row with lastUsed } ∧
        ∀ issued, decided ≠ .ok (.execute issued)) := by
  have hothers : ∀ (change : RetainedRow → RetainedRow) other, key ≠ other →
      ((records.cleanup nowMillis).rows.update (fun other _ => other == key) change).find other =
        (records.cleanup nowMillis).rows.find other := by
    intro change other hne
    rw [Table.find_update]
    simp [Ne.symm hne]
  have hown : ∀ change : RetainedRow → RetainedRow,
      ((records.cleanup nowMillis).rows.update (fun other _ => other == key) change).find key =
        some (change row) := by
    intro change
    rw [Table.find_update, hfound]
    simp
  unfold decision at hdecision
  simp only [hfound] at hdecision
  by_cases hdigest : row.digest ≠ digest
  · rw [if_pos hdigest, Result.pure_eq_ok, Prod.mk.injEq] at hdecision
    rw [← hdecision.1, ← hdecision.2]
    refine ⟨fun _ _ => rfl, Or.inr ⟨row.lastUsed, hfound, ?_⟩⟩
    intro issued heq
    cases heq
  · rw [if_neg hdigest] at hdecision
    by_cases hstatus : row.status = .completed
    · rw [if_pos hstatus] at hdecision
      simp only [Result.bind_eq_ok, Result.pure_eq_ok, Prod.mk.injEq] at hdecision
      obtain ⟨⟨sequence, sequenced⟩, hsequence, hdecided, hnext⟩ := hdecision
      rw [nextSequence_eq_ok hsequence] at hnext
      rw [← hnext]
      refine ⟨hothers _, Or.inr ⟨sequence, hown _, ?_⟩⟩
      intro issued heq
      rw [← hdecided] at heq
      cases hresult : row.result with
      | none =>
        rw [hresult] at heq
        cases heq
      | some result =>
        rw [hresult] at heq
        cases heq
    · rw [if_neg hstatus] at hdecision
      by_cases hlease : row.leaseUntil.any (· > nowMillis) = true
      · rw [if_pos hlease, Result.pure_eq_ok, Prod.mk.injEq] at hdecision
        rw [← hdecision.1, ← hdecision.2]
        refine ⟨fun _ _ => rfl, Or.inr ⟨row.lastUsed, hfound, ?_⟩⟩
        intro issued heq
        cases heq
      · rw [if_neg hlease] at hdecision
        simp only [Result.bind_eq_ok, Result.pure_eq_ok, Prod.mk.injEq] at hdecision
        obtain ⟨leaseUntil, hdeadline, hdecided, hnext⟩ := hdecision
        have hundecided : row.status = .undecided := by
          cases hcase : row.status with
          | undecided => rfl
          | completed => exact absurd hcase hstatus
        rw [← hnext]
        exact ⟨hothers _, Or.inl ⟨_, hdecided.symm, hundecided, hlease, hown _,
          ⟨not_not.mp hdigest, hundecided, rfl,
            congrArg some (checkedDeadline_eq_ok hdeadline)⟩⟩⟩

/-- A decision forgets what is over; then it answers with the record it finds, or it
leases a record that had no deadline or was not there. -/
theorem decision_eq_ok
    (hdecision : records.decision key digest owner nowMillis lease missingResult =
      .ok (decided, next)) :
    (∀ other, key ≠ other →
      next.rows.find other = (records.rows.find other).filter fun row => !row.over nowMillis) ∧
    ((∃ row, decided = .ok (.execute { key, digest, owner }) ∧ next.rows.find key = some row ∧
        row.digest = digest ∧ row.status = .undecided ∧ row.owner = some owner ∧
        row.leaseUntil = some (nowMillis + lease.asMillis) ∧
        ∀ old, records.rows.find key = some old → old.over nowMillis = false →
          old.status = .undecided ∧ old.leaseUntil = none) ∨
      ∃ old lastUsed, records.rows.find key = some old ∧ old.over nowMillis = false ∧
        next.rows.find key = some { old with lastUsed } ∧
        ∀ issued, decided ≠ .ok (.execute issued)) := by
  cases hfind : (records.cleanup nowMillis).rows.find key with
  | none =>
    obtain ⟨row, hdecided, hleased, hrows⟩ := decision_of_absent hfind hdecision
    rw [hrows]
    constructor
    · intro other hne
      rw [← find_cleanup other]
      exact Table.find_insert_of_ne hne _ _
    · refine Or.inl ⟨row, hdecided, Table.find_insert_self hfind _, hleased.digest,
        hleased.undecided, hleased.owner, hleased.leaseUntil, ?_⟩
      intro old hold hover
      rw [find_cleanup key, hold, Option.filter_some, hover] at hfind
      cases hfind
  | some row =>
    obtain ⟨hothers, hown⟩ := decision_of_found hfind hdecision
    rw [find_cleanup key, Option.filter_eq_some_iff] at hfind
    obtain ⟨hold, hover⟩ := hfind
    refine ⟨fun other hne => (hothers other hne).trans (find_cleanup other), ?_⟩
    rcases hown with ⟨leased, hdecided, hundecided, hfree, hnext, hleased⟩ |
      ⟨lastUsed, hnext, hanswered⟩
    · refine Or.inl ⟨leased, hdecided, hnext, hleased.digest, hleased.undecided, hleased.owner,
        hleased.leaseUntil, ?_⟩
      intro old hfound hnotOver
      rw [hold, Option.some.injEq] at hfound
      subst hfound
      refine ⟨hundecided, ?_⟩
      unfold RetainedRow.over at hnotOver
      rw [hundecided] at hnotOver
      cases hcase : row.leaseUntil with
      | none => rfl
      | some deadline =>
        rw [hcase] at hnotOver hfree
        simp only [Option.any_some, decide_eq_false_iff_not, decide_eq_true_eq] at hnotOver hfree
        omega
    · exact Or.inr ⟨row, lastUsed, hold, by simpa using hover, hnext, hanswered⟩

end Decisions

/-- A completed record answers: it is found before its expiry, and it replays its result
or it conflicts. -/
theorem decision_of_completed {key : κ} {row : RetainedRow} {nowMillis expiresAt : ℤ}
    {result : Bytes} (hfind : records.rows.find key = some row)
    (hstatus : row.status = .completed) (hresult : row.result = some result)
    (hexpires : row.expiresAt = some expiresAt) (hlive : nowMillis < expiresAt)
    (digest owner : Bytes) (lease : Duration) (missingResult : String) :
    (row.digest ≠ digest →
      ∃ next, records.decision key digest owner nowMillis lease missingResult =
        .ok (.ok .conflict, next)) ∧
    (row.digest = digest → (i64TryFrom (records.sequence + 1)).isSome →
      ∃ next, records.decision key digest owner nowMillis lease missingResult =
        .ok (.ok (.replay result), next)) := by
  have hover : row.over nowMillis = false := by
    unfold RetainedRow.over
    rw [hstatus, hexpires]
    simp only [Option.any_some, decide_eq_false_iff_not]
    omega
  have hcleaned : (records.cleanup nowMillis).rows.find key = some row := by
    have hdelete := Table.find_delete records.rows (fun _ row => row.over nowMillis) key
    rw [hfind, Option.filter_some, hover] at hdelete
    exact hdelete
  unfold decision
  constructor
  · intro hdigest
    simp only [hcleaned, if_pos hdigest]
    exact ⟨_, rfl⟩
  · intro hdigest hcounter
    obtain ⟨sequence, hsequence⟩ := Option.isSome_iff_exists.mp hcounter
    have hnext : (records.cleanup nowMillis).nextSequence =
        .ok (sequence, { records.cleanup nowMillis with sequence }) := by
      unfold nextSequence cleanup
      simp only [hsequence]
      rfl
    simp only [hcleaned, hdigest, hstatus, ne_eq, not_true_eq_false, if_false, if_true, hnext,
      hresult]
    exact ⟨_, rfl⟩

/-- Enforcing the bounds evicts completed records and keeps the others. -/
theorem enforceLimits_eq_ok {policy : RetentionPolicy} {fuel : ℕ} {evicted : List κ}
    (henforce : enforceLimits policy fuel records = .ok (evicted, next)) :
    (∀ key, key ∉ evicted → next.rows.find key = records.rows.find key) ∧
    ∀ key ∈ evicted, next.rows.find key = none ∧
      ∃ row, records.rows.find key = some row ∧ row.status = .completed := by
  induction fuel generalizing records evicted with
  | zero =>
    unfold enforceLimits at henforce
    simp only [Result.bind_eq_ok] at henforce
    obtain ⟨⟨entries, bytes⟩, -, henforce⟩ := henforce
    split at henforce
    · rw [Result.pure_eq_ok, Prod.mk.injEq] at henforce
      obtain ⟨hevicted, hnext⟩ := henforce
      subst hevicted hnext
      exact ⟨fun _ _ => rfl, by simp⟩
    · cases henforce
  | succ fuel ih =>
    unfold enforceLimits at henforce
    simp only [Result.bind_eq_ok] at henforce
    obtain ⟨⟨entries, bytes⟩, -, henforce⟩ := henforce
    split at henforce
    · rw [Result.pure_eq_ok, Prod.mk.injEq] at henforce
      obtain ⟨hevicted, hnext⟩ := henforce
      subst hevicted hnext
      exact ⟨fun _ _ => rfl, by simp⟩
    · cases hleast : Table.least (fun entry => entry.2.lastUsed) records.completed with
      | none =>
        rw [hleast] at henforce
        cases henforce
      | some entry =>
        obtain ⟨oldest, row⟩ := entry
        simp only [hleast, Result.bind_eq_ok, Result.pure_eq_ok, Prod.mk.injEq] at henforce
        obtain ⟨⟨rest, last⟩, hrest, hevicted, hnext⟩ := henforce
        subst hevicted hnext
        obtain ⟨hkept, hgone⟩ := ih hrest
        have hselect := (Table.least_spec hleast).1
        obtain ⟨hstored, hcompleted⟩ := Table.mem_select_iff.mp hselect
        have hdeleted : ∀ key, (records.rows.delete fun other _ => other == oldest).find key =
            (records.rows.find key).filter fun _ => !(key == oldest) := by
          intro key
          exact Table.find_delete _ _ _
        constructor
        · intro key hmem
          rw [List.mem_cons, not_or] at hmem
          rw [hkept key hmem.2, hdeleted key]
          have hother : (key == oldest) = false := beq_eq_false_iff_ne.mpr hmem.1
          cases hfound : records.rows.find key with
          | none => rfl
          | some found =>
            rw [Option.filter_some, hother]
            rfl
        · intro key hmem
          by_cases hin : key ∈ rest
          · obtain ⟨hnone, found, hfound, hstatus⟩ := hgone key hin
            rw [hdeleted key, Option.filter_eq_some_iff] at hfound
            exact ⟨hnone, found, hfound.1, hstatus⟩
          · have hsame : key = oldest := by
              rcases List.mem_cons.mp hmem with heq | hrest
              · exact heq
              · exact absurd hrest hin
            subst hsame
            refine ⟨?_, row, hstored, by simpa using hcompleted⟩
            rw [hkept key hin, hdeleted key]
            simp

/-- A completion finds the record of its lease undecided, completes it, and may evict
completed records. -/
theorem complete_eq_ok {lease : Lease κ} {result : Bytes} {nowMillis : ℤ}
    {policy : RetentionPolicy} {stale : String} {evicted : List κ}
    (hcomplete : records.complete lease result nowMillis policy stale = .ok (evicted, next)) :
    ∃ old row, records.rows.find lease.key = some old ∧ lease.owns lease.key old = true ∧
      row.digest = lease.digest ∧ row.status = .completed ∧ row.owner = none ∧
      row.result = some result ∧ row.expiresAt = some (nowMillis + policy.ttl.asMillis) ∧
      (lease.key ∉ evicted → next.rows.find lease.key = some row) ∧
      (∀ key, key ∉ evicted → key ≠ lease.key → next.rows.find key = records.rows.find key) ∧
      ∀ key ∈ evicted, next.rows.find key = none ∧ (key = lease.key ∨
        ∃ row, records.rows.find key = some row ∧ row.status = .completed) := by
  unfold complete at hcomplete
  simp only [Result.bind_eq_ok, Result.ensure_eq_ok, beq_iff_eq] at hcomplete
  obtain ⟨⟨sequence, sequenced⟩, hsequence, expiresAt, hexpires, -, hone, henforce⟩ := hcomplete
  have hsequenced := nextSequence_eq_ok hsequence
  subst hsequenced
  have hdeadline := checkedDeadline_eq_ok hexpires
  subst hdeadline
  rcases Table.select_eq_nil_or_singleton records.rows lease.owns_key with
    ⟨hnone, -⟩ | ⟨old, -, hfind, howns⟩
  · rw [hnone] at hone
    cases hone
  · obtain ⟨hkept, hgone⟩ := enforceLimits_eq_ok henforce
    obtain ⟨-, hdigest, -, -⟩ := Lease.owns_iff.mp howns
    simp only [Table.find_update] at hkept hgone
    refine ⟨old,
      { old with
        status := .completed
        owner := none
        leaseUntil := none
        result := some result
        expiresAt := some (nowMillis + policy.ttl.asMillis)
        lastUsed := sequence
        sizeBytes := result.length },
      hfind, howns, hdigest, rfl, rfl, rfl, rfl, ?_, ?_, ?_⟩
    · intro hmem
      rw [hkept lease.key hmem, hfind, Option.map_some, if_pos howns]
    · intro key hmem hne
      rw [hkept key hmem]
      cases hfound : records.rows.find key with
      | none => rfl
      | some found =>
        have hnot : ¬ lease.owns key found = true :=
          fun howned => hne (lease.owns_key key found howned)
        rw [Option.map_some, if_neg hnot]
    · intro key hmem
      obtain ⟨hnone, row, hrow, hstatus⟩ := hgone key hmem
      refine ⟨hnone, ?_⟩
      rw [Option.map_eq_some_iff] at hrow
      obtain ⟨found, hfound, heq⟩ := hrow
      by_cases howned : lease.owns key found = true
      · exact Or.inl (lease.owns_key key found howned)
      · rw [if_neg howned] at heq
        rw [heq] at hfound
        exact Or.inr ⟨row, hfound, hstatus⟩

theorem find_abort (records : Records κ) (lease : Lease κ) (key : κ) :
    (records.abort lease).rows.find key =
      (records.rows.find key).filter fun row => !lease.owns key row :=
  Table.find_delete _ _ _

end Records

end Krit.Durable
