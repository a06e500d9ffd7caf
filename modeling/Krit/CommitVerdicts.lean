import Krit.DatabaseCommits

/-!
# The verdict of a commit

A commit sends `COMMIT` and goes on: on a writable database it sets the journal limit
twice, and on every database it measures the files again.  The changes are published
when `COMMIT` succeeds, and the verdict is that of the work after it.
-/

namespace Krit.Databases

/-! ## What SQLite has published -/

def Transaction.isCommitted (transaction : Transaction) : Bool :=
  transaction.outcome == some .committed

namespace Database

/-- The database when a commit sends `COMMIT`, if it comes so far. -/
def atCommit (database : Database) (transaction : Transaction) (bounds : OperationBounds) :
    Option Database :=
  let checked : Except DatabaseError Unit := do
    transaction.requireOpen
    transaction.requireWithinDeadline bounds.now
  match checked with
  | .error _ => none
  | .ok () =>
      match database.talk (install transaction.deadline bounds) with
      | (.error _, _) => none
      | (.ok (), database) => some database

/-- The transaction whose changes a commit publishes: the one that the connection is in
when `COMMIT` succeeds.  Later transactions of every connection see them from then on. -/
def published (database : Database) (transaction : Transaction) (bounds : OperationBounds) :
    Option ℕ :=
  match database.atCommit transaction bounds with
  | none => none
  | some reached =>
      match reached.talk commitBatch with
      | (.ok (), _) => reached.connection.transaction
      | (.error _, _) => none

end Database

/-! ## Conversations that succeed -/

section Conversations

variable {connection : Connection} {α β : Type}

theorem session_bind (first : Session α) (second : α → Session β) (connection : Connection) :
    (first >>= second) connection =
      match first connection with
      | (.ok value, next) => second value next
      | (.error error, next) => (.error error, next) := by
  change (ExceptT.bindCont second (first connection).1) (first connection).2 = _
  cases first connection with
  | mk result next => cases result <;> rfl

theorem request_eq (effect : Connection → Connection) (connection : Connection) :
    request effect connection =
      match connection.replies connection.calls with
      | .ok => (.ok (), { effect connection with calls := connection.calls + 1 })
      | .failed code rolledBack =>
          (.error (mapSqlite code),
            { connection with
              calls := connection.calls + 1
              transaction := if rolledBack then none else connection.transaction }) := by
  unfold request
  rw [session_bind]
  change (match connection.replies connection.calls with
    | .ok => _
    | .failed code rolledBack => _ : Session Unit) connection = _
  cases connection.replies connection.calls <;> rfl

/-- A call succeeds when SQLite answers it so. -/
theorem request_ok_iff {effect : Connection → Connection} {next : Connection} :
    request effect connection = (.ok (), next) ↔
      connection.replies connection.calls = .ok ∧
        next = { effect connection with calls := connection.calls + 1 } := by
  rw [request_eq]
  cases connection.replies connection.calls with
  | ok =>
    constructor
    · intro hrun
      cases hrun
      exact ⟨rfl, rfl⟩
    · rintro ⟨-, hnext⟩
      rw [hnext]
  | failed code rolledBack =>
    constructor
    · intro hrun
      cases hrun
    · rintro ⟨hreply, -⟩
      cases hreply

theorem bind_ok_iff {first : Session α} {second : α → Session β} {value : β} {next : Connection} :
    (first >>= second) connection = (.ok value, next) ↔
      ∃ middle between, first connection = (.ok middle, between) ∧
        second middle between = (.ok value, next) := by
  rw [session_bind]
  cases hfirst : first connection with
  | mk result between =>
    cases result with
    | ok middle =>
      constructor
      · intro hsecond
        exact ⟨middle, between, rfl, hsecond⟩
      · rintro ⟨_, _, heq, hsecond⟩
        cases heq
        exact hsecond
    | error error =>
      constructor
      · intro hfailed
        cases hfailed
      · rintro ⟨_, _, heq, -⟩
        cases heq

theorem ofExcept_ok_iff {result : Except DatabaseError α} {value : α} {next : Connection} :
    (ofExcept result : Session α) connection = (.ok value, next) ↔
      result = .ok value ∧ next = connection := by
  cases result with
  | ok found =>
    constructor
    · intro hrun
      cases hrun
      exact ⟨rfl, rfl⟩
    · rintro ⟨heq, hnext⟩
      cases heq
      rw [hnext]
      rfl
  | error error =>
    constructor
    · intro hrun
      cases hrun
    · rintro ⟨heq, -⟩
      cases heq

theorem call_ok_iff {value : Unit} {next : Connection} :
    call connection = (.ok value, next) ↔ connection.replies connection.calls = .ok ∧
      next = { connection with calls := connection.calls + 1 } :=
  request_ok_iff

/-- Two calls, one after the other. -/
theorem calls_ok_iff {next : Connection} :
    (do call; call : Session Unit) connection = (.ok (), next) ↔
      (connection.replies connection.calls = .ok ∧
        connection.replies (connection.calls + 1) = .ok) ∧
      next = { connection with calls := connection.calls + 2 } := by
  simp only [bind_ok_iff, call_ok_iff]
  constructor
  · rintro ⟨_, between, ⟨hfirst, hbetween⟩, hsecond, hnext⟩
    subst hbetween
    exact ⟨⟨hfirst, hsecond⟩, hnext⟩
  · rintro ⟨⟨hfirst, hsecond⟩, hnext⟩
    exact ⟨(), _, ⟨hfirst, rfl⟩, hsecond, hnext⟩

theorem throw_ne_ok {error : DatabaseError} {second : α → Session Unit} {next : Connection} :
    ((throw error : Session α) >>= second) connection ≠ (.ok (), next) := by
  rw [session_bind]
  intro hrun
  cases hrun

theorem install_ok_iff {deadline : ℕ} {bounds : OperationBounds} {next : Connection} :
    install deadline bounds connection = (.ok (), next) ↔
      (bounds.cancelled = false ∧ bounds.installedAt ≤ min deadline bounds.invocationDeadline ∧
        connection.replies connection.calls = .ok ∧
        connection.replies (connection.calls + 1) = .ok) ∧
      next = { connection with calls := connection.calls + 2 } := by
  unfold install
  by_cases hcancelled : bounds.cancelled = true
  · rw [hcancelled]
    constructor
    · intro hrun
      exact absurd hrun throw_ne_ok
    · rintro ⟨⟨hnot, -⟩, -⟩
      cases hnot
  · rw [Bool.not_eq_true] at hcancelled
    rw [hcancelled]
    by_cases hexpired : min deadline bounds.invocationDeadline < bounds.installedAt
    · simp only [Bool.false_eq_true, if_false, if_pos hexpired]
      constructor
      · intro hrun
        exact absurd hrun throw_ne_ok
      · rintro ⟨⟨-, hin, -⟩, -⟩
        omega
    · simp only [Bool.false_eq_true, if_false, if_neg hexpired]
      have hcalls := @calls_ok_iff connection next
      constructor
      · intro hrun
        obtain ⟨hreplies, hnext⟩ := hcalls.mp hrun
        exact ⟨⟨trivial, by omega, hreplies⟩, hnext⟩
      · rintro ⟨⟨-, -, hreplies⟩, hnext⟩
        exact hcalls.mpr ⟨hreplies, hnext⟩

theorem commitBatch_ok_iff {next : Connection} :
    commitBatch connection = (.ok (), next) ↔
      (connection.transaction ≠ none ∧ connection.replies connection.calls = .ok) ∧
      next = { connection with
        transaction := none
        committed := connection.committed ++ connection.transaction.toList
        calls := connection.calls + 1 } := by
  unfold commitBatch endBatch
  have hget : ∀ session : Connection → Session Unit,
      (get >>= session) connection = session connection connection := by
    intro session
    rfl
  rw [hget]
  cases htransaction : connection.transaction with
  | none =>
    have hauto : connection.isAutocommit = true := by
      unfold Connection.isAutocommit
      rw [htransaction]
      rfl
    rw [if_pos hauto]
    constructor
    · intro hrun
      cases hrun
    · rintro ⟨⟨hnone, -⟩, -⟩
      exact absurd rfl hnone
  | some number =>
    have hauto : ¬ connection.isAutocommit = true := by
      unfold Connection.isAutocommit
      rw [htransaction]
      exact Bool.false_ne_true
    rw [if_neg hauto, request_ok_iff, htransaction]
    constructor
    · rintro ⟨hreply, hnext⟩
      exact ⟨⟨nofun, hreply⟩, hnext⟩
    · rintro ⟨⟨-, hreply⟩, hnext⟩
      exact ⟨hreply, hnext⟩

theorem checkpointAndVerify_ok_iff {mode : DatabaseMode} {limits : DatabaseLimits}
    {bounds : OperationBounds} :
    (∃ next, checkpointAndVerify mode limits bounds connection = (.ok (), next)) ↔
      (mode = .readWrite → connection.replies connection.calls = .ok ∧
        connection.replies (connection.calls + 1) = .ok) ∧
      bounds.diskBytes ≤ limits.maxDatabaseBytes := by
  have hbudget : ∀ {reached next : Connection},
      (ofExcept (requireDiskBudget limits bounds) : Session Unit) reached = (.ok (), next) ↔
        bounds.diskBytes ≤ limits.maxDatabaseBytes ∧ next = reached := by
    intro reached next
    rw [ofExcept_ok_iff]
    unfold requireDiskBudget
    rw [Result.ensure_eq_ok, decide_eq_true_eq]
  unfold checkpointAndVerify
  cases mode with
  | readOnly =>
    constructor
    · rintro ⟨next, hrun⟩
      exact ⟨nofun, (hbudget.mp hrun).1⟩
    · rintro ⟨-, hfits⟩
      exact ⟨connection, hbudget.mpr ⟨hfits, rfl⟩⟩
  | readWrite =>
    have hassoc : ∀ {next : Connection},
        (do call; call; ofExcept (requireDiskBudget limits bounds) : Session Unit) connection =
          (.ok (), next) ↔
        ((connection.replies connection.calls = .ok ∧
          connection.replies (connection.calls + 1) = .ok) ∧
        bounds.diskBytes ≤ limits.maxDatabaseBytes) ∧
        next = { connection with calls := connection.calls + 2 } := by
      intro next
      simp only [bind_ok_iff, call_ok_iff, hbudget]
      constructor
      · rintro ⟨_, first, ⟨hfirst, heq⟩, _, second, ⟨hsecond, heq'⟩, hfits, hnext⟩
        subst heq heq'
        exact ⟨⟨⟨hfirst, hsecond⟩, hfits⟩, hnext⟩
      · rintro ⟨⟨⟨hfirst, hsecond⟩, hfits⟩, hnext⟩
        exact ⟨(), _, ⟨hfirst, rfl⟩, (), _, ⟨hsecond, rfl⟩, hfits, hnext⟩
    constructor
    · rintro ⟨next, hrun⟩
      obtain ⟨⟨hreplies, hfits⟩, -⟩ := hassoc.mp hrun
      exact ⟨fun _ => hreplies, hfits⟩
    · rintro ⟨hreplies, hfits⟩
      exact ⟨_, hassoc.mpr ⟨⟨hreplies rfl, hfits⟩, rfl⟩⟩

end Conversations

/-! ## Commits that publish -/

namespace Database

/-- A commit comes to its `COMMIT`, and SQLite accepts it. -/
structure CommitAccepted (database : Database) (transaction : Transaction)
    (bounds : OperationBounds) : Prop where
  unfinished : transaction.outcome = none
  early : bounds.now < transaction.deadline
  admitted : bounds.cancelled = false ∧
    bounds.installedAt ≤ min transaction.deadline bounds.invocationDeadline
  installed : database.connection.replies database.connection.calls = .ok ∧
    database.connection.replies (database.connection.calls + 1) = .ok
  within : database.connection.transaction ≠ none
  accepted : database.connection.replies (database.connection.calls + 2) = .ok

/-- The work after `COMMIT` succeeds: the two settings of the journal limit on a writable
database, and the measurement of the files. -/
structure WorkAfterCommit (database : Database) (bounds : OperationBounds) : Prop where
  journal : database.mode = .readWrite →
    database.connection.replies (database.connection.calls + 3) = .ok ∧
      database.connection.replies (database.connection.calls + 4) = .ok
  budget : bounds.diskBytes ≤ database.limits.maxDatabaseBytes

variable {database : Database} {transaction : Transaction} {bounds : OperationBounds}

theorem talk_ok_iff {α : Type} {session : Session α} {value : α} {next : Database} :
    database.talk session = (.ok value, next) ↔ ∃ connection,
      session database.connection = (.ok value, connection) ∧
        next = { database with connection } := by
  unfold talk
  cases hsession : session database.connection with
  | mk result connection =>
    cases result with
    | ok found =>
      constructor
      · intro htalk
        cases htalk
        exact ⟨connection, rfl, rfl⟩
      · rintro ⟨_, heq, hnext⟩
        cases heq
        rw [hnext]
    | error error =>
      constructor
      · intro htalk
        cases htalk
      · rintro ⟨_, heq, -⟩
        cases heq

theorem checked_ok_iff {now : ℕ} : (do
      transaction.requireOpen
      transaction.requireWithinDeadline now : Except DatabaseError Unit) = .ok () ↔
    transaction.outcome = none ∧ now < transaction.deadline := by
  unfold Transaction.requireOpen Transaction.requireWithinDeadline Transaction.isCompleted
  simp only [Result.bind_eq_ok, Result.ensure_eq_ok, decide_eq_true_eq, Bool.not_eq_true',
    Option.isSome_eq_false_iff, Option.isNone_iff_eq_none]
  constructor
  · rintro ⟨_, hopen, hearly⟩
    exact ⟨hopen, hearly⟩
  · rintro ⟨hopen, hearly⟩
    exact ⟨(), hopen, hearly⟩

theorem atCommit_eq_some_iff {reached : Database} :
    database.atCommit transaction bounds = some reached ↔
      (transaction.outcome = none ∧ bounds.now < transaction.deadline ∧
        bounds.cancelled = false ∧
        bounds.installedAt ≤ min transaction.deadline bounds.invocationDeadline ∧
        database.connection.replies database.connection.calls = .ok ∧
        database.connection.replies (database.connection.calls + 1) = .ok) ∧
      reached = { database with
        connection := { database.connection with calls := database.connection.calls + 2 } } := by
  unfold atCommit
  have hchecked := @checked_ok_iff transaction bounds.now
  cases hcase : (do
      transaction.requireOpen
      transaction.requireWithinDeadline bounds.now : Except DatabaseError Unit) with
  | error error =>
    rw [hcase] at hchecked
    constructor
    · intro hnone
      cases hnone
    · rintro ⟨⟨hopen, hearly, -⟩, -⟩
      cases hchecked.mpr ⟨hopen, hearly⟩
  | ok checked =>
    obtain ⟨hopen, hearly⟩ := hchecked.mp hcase
    have htalk := @talk_ok_iff database _ (install transaction.deadline bounds) ()
    simp only [install_ok_iff] at htalk
    cases hinstalled : database.talk (install transaction.deadline bounds) with
    | mk result next =>
      cases result with
      | error error =>
        constructor
        · intro hnone
          cases hnone
        · rintro ⟨⟨-, -, hadmitted⟩, -⟩
          have hok := (@htalk _).mpr ⟨_, ⟨hadmitted, rfl⟩, rfl⟩
          rw [hinstalled] at hok
          cases hok
      | ok installed =>
        obtain ⟨connection, ⟨hadmitted, hconnection⟩, hnext⟩ := htalk.mp hinstalled
        subst hconnection hnext
        constructor
        · intro hsome
          cases hsome
          exact ⟨⟨hopen, hearly, hadmitted⟩, rfl⟩
        · rintro ⟨-, hreached⟩
          rw [hreached]

/-- A commit that does not come to its `COMMIT` is refused, and the transaction stays as it
was. -/
theorem commit_of_not_reached (hnone : database.atCommit transaction bounds = none) :
    ∃ error next, database.commit transaction bounds = (.error error, transaction, next) := by
  unfold atCommit at hnone
  unfold commit
  cases hchecked : (do
      transaction.requireOpen
      transaction.requireWithinDeadline bounds.now : Except DatabaseError Unit) with
  | error error => exact ⟨error, database, rfl⟩
  | ok checked =>
    rw [hchecked] at hnone
    cases htalk : database.talk (install transaction.deadline bounds) with
    | mk result next =>
      cases result with
      | error error => exact ⟨error, next, rfl⟩
      | ok installed =>
        simp only [htalk] at hnone
        cases hnone

theorem commit_of_reached {reached : Database}
    (hreached : database.atCommit transaction bounds = some reached) :
    database.commit transaction bounds =
      match reached.publish bounds with
      | (.ok (), next) => (.ok (), { transaction with outcome := some .committed }, next)
      | (.error error, next) =>
          (.error error, { transaction with outcome := some .rolledBack }, next) := by
  unfold atCommit at hreached
  unfold commit
  cases hchecked : (do
      transaction.requireOpen
      transaction.requireWithinDeadline bounds.now : Except DatabaseError Unit) with
  | error error =>
    rw [hchecked] at hreached
    cases hreached
  | ok checked =>
    rw [hchecked] at hreached
    cases htalk : database.talk (install transaction.deadline bounds) with
    | mk result next =>
      cases result with
      | error error =>
        simp only [htalk] at hreached
        cases hreached
      | ok installed =>
        simp only [htalk, Option.some.injEq] at hreached
        subst hreached
        rfl

theorem published_isSome_iff : (database.published transaction bounds).isSome = true ↔
    database.CommitAccepted transaction bounds := by
  unfold published
  have hat := @atCommit_eq_some_iff database transaction bounds
  cases hcase : database.atCommit transaction bounds with
  | none =>
    constructor
    · intro hsome
      cases hsome
    · intro haccepted
      have hreached := (@hat _).mpr ⟨⟨haccepted.unfinished, haccepted.early, haccepted.admitted.1,
        haccepted.admitted.2, haccepted.installed.1, haccepted.installed.2⟩, rfl⟩
      rw [hcase] at hreached
      cases hreached
  | some reached =>
    obtain ⟨⟨hopen, hearly, huncancelled, hexpiry, hfirst, hsecond⟩, hreached⟩ := hat.mp hcase
    subst hreached
    have htalk := @talk_ok_iff { database with
      connection := { database.connection with calls := database.connection.calls + 2 } } _
      commitBatch ()
    simp only [commitBatch_ok_iff] at htalk
    simp only []
    cases hend : ({ database with
        connection := { database.connection with calls := database.connection.calls + 2 } } :
          Database).talk commitBatch with
    | mk result next =>
      cases result with
      | error error =>
        constructor
        · intro hsome
          cases hsome
        · intro haccepted
          have hok := (@htalk _).mpr ⟨_, ⟨⟨haccepted.within, haccepted.accepted⟩, rfl⟩, rfl⟩
          rw [hend] at hok
          cases hok
      | ok ended =>
        obtain ⟨_, ⟨⟨hwithin, haccepted⟩, -⟩, -⟩ := htalk.mp hend
        constructor
        · intro _
          exact ⟨hopen, hearly, ⟨huncancelled, hexpiry⟩, ⟨hfirst, hsecond⟩, hwithin, haccepted⟩
        · intro _
          exact Option.isSome_iff_ne_none.mpr hwithin

/-- What a commit publishes is what it adds to the committed transactions. -/
theorem commit_committed (database : Database) (transaction : Transaction)
    (bounds : OperationBounds) :
    (database.commit transaction bounds).2.2.connection.committed =
      database.connection.committed ++ (database.published transaction bounds).toList := by
  have hinstall : (database.talk (install transaction.deadline bounds)).2.connection.committed =
      database.connection.committed :=
    talk_keeps (keeps_install (committed_stable database.connection.committed).keeps_call
      (fun _ hsame => hsame) transaction.deadline bounds) rfl
  unfold commit published atCommit
  cases hchecked : (do
      transaction.requireOpen
      transaction.requireWithinDeadline bounds.now : Except DatabaseError Unit) with
  | error error => exact (List.append_nil _).symm
  | ok checked =>
    cases htalk : database.talk (install transaction.deadline bounds) with
    | mk installed reached =>
      rw [htalk] at hinstall
      cases installed with
      | error error => exact hinstall.trans (List.append_nil _).symm
      | ok value =>
        have hpublish := publish_committed reached bounds
        rw [hinstall] at hpublish
        cases hend : reached.talk commitBatch with
        | mk ended after =>
          rw [hend] at hpublish
          dsimp only
          cases hresult : reached.publish bounds with
          | mk outcome next =>
            rw [hresult] at hpublish
            cases ended <;> cases outcome <;>
              simpa [hend, Except.isOk, Except.toBool] using hpublish

/-- The verdict is success when `COMMIT` succeeds and so does the work after it. -/
theorem publish_ok_iff : (∃ next, database.publish bounds = (.ok (), next)) ↔
    (database.connection.transaction ≠ none ∧
      database.connection.replies database.connection.calls = .ok) ∧
    (database.mode = .readWrite →
      database.connection.replies (database.connection.calls + 1) = .ok ∧
        database.connection.replies (database.connection.calls + 2) = .ok) ∧
    bounds.diskBytes ≤ database.limits.maxDatabaseBytes := by
  unfold publish
  have htalk := @talk_ok_iff database _ commitBatch ()
  simp only [commitBatch_ok_iff] at htalk
  cases hend : database.talk commitBatch with
  | mk result next =>
    cases result with
    | error error =>
      constructor
      · rintro ⟨last, hpublish⟩
        cases hundo : next.undo with
        | mk undone after =>
          simp only [hundo] at hpublish
          cases undone <;> cases hpublish
      · rintro ⟨haccepted, -⟩
        have hok := (@htalk _).mpr ⟨_, ⟨haccepted, rfl⟩, rfl⟩
        rw [hend] at hok
        cases hok
    | ok ended =>
      obtain ⟨connection, ⟨haccepted, hconnection⟩, hnext⟩ := htalk.mp hend
      subst hconnection hnext
      have hcheckpoint := @checkpointAndVerify_ok_iff { database.connection with
        transaction := none
        committed := database.connection.committed ++ database.connection.transaction.toList
        calls := database.connection.calls + 1 } database.mode database.limits bounds
      simp only [talk_ok_iff]
      constructor
      · rintro ⟨last, connection, hrun, -⟩
        exact ⟨haccepted, hcheckpoint.mp ⟨connection, hrun⟩⟩
      · rintro ⟨-, hwork⟩
        obtain ⟨connection, hrun⟩ := hcheckpoint.mpr hwork
        exact ⟨_, connection, hrun, rfl⟩

theorem commit_ok_iff : (database.commit transaction bounds).1 = .ok () ↔
    database.CommitAccepted transaction bounds ∧ database.WorkAfterCommit bounds := by
  have hat := @atCommit_eq_some_iff database transaction bounds
  cases hcase : database.atCommit transaction bounds with
  | none =>
    obtain ⟨error, next, hcommit⟩ := commit_of_not_reached hcase
    rw [hcommit]
    constructor
    · intro hok
      cases hok
    · rintro ⟨haccepted, -⟩
      have hreached := (@hat _).mpr ⟨⟨haccepted.unfinished, haccepted.early, haccepted.admitted.1,
        haccepted.admitted.2, haccepted.installed.1, haccepted.installed.2⟩, rfl⟩
      rw [hcase] at hreached
      cases hreached
  | some reached =>
    obtain ⟨⟨hopen, hearly, huncancelled, hexpiry, hinstalled⟩, hreached⟩ := hat.mp hcase
    rw [commit_of_reached hcase]
    have hpublish := @publish_ok_iff reached bounds
    rw [hreached] at hpublish ⊢
    simp only [] at hpublish
    cases hresult : ({ database with
        connection := { database.connection with calls := database.connection.calls + 2 } } :
          Database).publish bounds with
    | mk result next =>
      rw [hresult] at hpublish
      cases result with
      | error error =>
        constructor
        · intro hok
          cases hok
        · rintro ⟨haccepted, hwork⟩
          obtain ⟨_, heq⟩ := hpublish.mpr
            ⟨⟨haccepted.within, haccepted.accepted⟩, hwork.journal, hwork.budget⟩
          cases heq
      | ok published =>
        obtain ⟨⟨hwithin, haccepted⟩, hjournal, hbudget⟩ := hpublish.mp ⟨next, rfl⟩
        constructor
        · intro _
          exact ⟨⟨hopen, hearly, ⟨huncancelled, hexpiry⟩, hinstalled, hwithin, haccepted⟩,
            ⟨hjournal, hbudget⟩⟩
        · intro _
          rfl

/-- A commit that succeeds leaves the transaction committed, and a commit that fails does
not commit it. -/
theorem commit_isCommitted : (database.commit transaction bounds).2.1.isCommitted =
    (transaction.isCommitted || (database.commit transaction bounds).1.isOk) := by
  cases hcase : database.atCommit transaction bounds with
  | none =>
    obtain ⟨error, next, hcommit⟩ := commit_of_not_reached hcase
    rw [hcommit]
    simp [Except.isOk, Except.toBool]
  | some reached =>
    have hopen := (atCommit_eq_some_iff.mp hcase).1.1
    have hnot : transaction.isCommitted = false := by
      unfold Transaction.isCommitted
      rw [hopen]
      rfl
    rw [commit_of_reached hcase, hnot]
    cases reached.publish bounds with
    | mk result next => cases result <;> rfl

end Database

/-- The flag of an invocation after a commit on one of its transactions. -/
theorem InvocationDatabases.commit_flag {state : InvocationDatabases} {databases : DatabaseTable}
    {slot : ℕ} {live : LiveTransaction} {bounds : OperationBounds}
    (hlive : state.liveMut slot = .ok live) :
    (state.commit databases slot bounds).2.1.publishedWriteCommit =
      (state.publishedWriteCommit ||
        (((databases live.database).commit live.transaction bounds).1.isOk &&
          live.transaction.mode == .write)) := by
  unfold commit operate retain
  simp only [hlive, isOk_mapError]
  rfl

/-! ## Faithful verdicts -/

/-- The verdict of a commit of a write transaction agrees with what it has published: its
result, the completion of the transaction, and the flag of every invocation that holds
the transaction. -/
structure FaithfulVerdict (database : Database) (transaction : Transaction)
    (bounds : OperationBounds) : Prop where
  result : (database.commit transaction bounds).1 = .ok () ↔
    (database.published transaction bounds).isSome = true
  committed : (database.commit transaction bounds).2.1.isCommitted =
    (transaction.isCommitted || (database.published transaction bounds).isSome)
  flagged : ∀ state databases slot live, InvocationDatabases.liveMut state slot = .ok live →
    databases live.database = database → live.transaction = transaction →
    (state.commit databases slot bounds).2.1.publishedWriteCommit =
      (state.publishedWriteCommit || (database.published transaction bounds).isSome)

/-- The verdict of a commit is faithful unless `COMMIT` succeeds and the work after it
fails. -/
theorem commit_verdict_faithful_iff (database : Database) (transaction : Transaction)
    (bounds : OperationBounds) (hwrite : transaction.mode = .write) :
    FaithfulVerdict database transaction bounds ↔
      (database.CommitAccepted transaction bounds → database.WorkAfterCommit bounds) := by
  have hok := @Database.commit_ok_iff database transaction bounds
  have hpublished := @Database.published_isSome_iff database transaction bounds
  constructor
  · intro hfaithful haccepted
    exact (hok.mp (hfaithful.result.mpr (hpublished.mpr haccepted))).2
  · intro hwork
    have hresult : (database.commit transaction bounds).1 = .ok () ↔
        (database.published transaction bounds).isSome = true := by
      rw [hok, hpublished]
      constructor
      · exact And.left
      · intro haccepted
        exact ⟨haccepted, hwork haccepted⟩
    have hsame : (database.commit transaction bounds).1.isOk =
        (database.published transaction bounds).isSome := by
      rw [Bool.eq_iff_iff, ← hresult]
      cases (database.commit transaction bounds).1 <;> simp [Except.isOk, Except.toBool]
    refine ⟨hresult, ?_, ?_⟩
    · rw [Database.commit_isCommitted, hsame]
    · intro state databases slot live hlive hdatabase htransaction
      rw [InvocationDatabases.commit_flag hlive, hdatabase, htransaction, hwrite, hsame]
      simp

/-- A write transaction that has run one statement, where SQLite answers every call with
success. -/
def sampleWritten : World :=
  runOf sampleConfig (fun _ => { sampleDefinition with replies := fun _ => .ok })
    [.call (.begin .write "app" (some 3)) false sampleBounds,
      .call (.dbExecute 3 "touch" [] 1) false sampleBounds]

def sampleWriteTransaction : Transaction :=
  { mode := .write
    deadline := 100
    operations := 1
    outcome := none }

/-- The measured files, a sidecar or the journal of another process among them, exceed the
budget after `COMMIT`: the commit has published, and it reports an error, a rollback and no
write. -/
theorem commit_reports_error_after_publishing :
    sampleWritten.host.databases.live = [⟨"app", sampleWriteTransaction, 1⟩] ∧
    ((sampleWritten.databases "app").published sampleWriteTransaction
      { sampleBounds with diskBytes := 65537 }).isSome = true ∧
    ((sampleWritten.databases "app").commit sampleWriteTransaction
      { sampleBounds with diskBytes := 65537 }).1.isOk = false ∧
    ((sampleWritten.databases "app").commit sampleWriteTransaction
      { sampleBounds with diskBytes := 65537 }).2.1.isCommitted = false ∧
    (sampleWritten.host.databases.commit sampleWritten.databases 1
      { sampleBounds with diskBytes := 65537 }).2.1.publishedWriteCommit = false ∧
    ¬ FaithfulVerdict (sampleWritten.databases "app") sampleWriteTransaction
      { sampleBounds with diskBytes := 65537 } := by
  refine ⟨by decide +kernel, by decide +kernel, by decide +kernel, by decide +kernel,
    by decide +kernel, ?_⟩
  intro hfaithful
  have hcommitted := hfaithful.committed
  revert hcommitted
  decide +kernel

/-- Within the budget the same commit reports what it has published. -/
theorem commit_verdict_faithful_sample :
    FaithfulVerdict (sampleWritten.databases "app") sampleWriteTransaction sampleBounds := by
  refine (commit_verdict_faithful_iff _ _ _ rfl).mpr ?_
  intro _
  exact ⟨fun _ => by decide +kernel, by decide +kernel⟩

end Krit.Databases
