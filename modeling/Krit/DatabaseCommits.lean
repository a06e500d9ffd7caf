import Krit.DatabaseRuns

/-!
# Committed transactions

What a property of a connection must survive to hold after every operation of an
invocation.  `COMMIT` is kept apart: it alone adds to the committed transactions, and only
the commit of a handle sends it.
-/

namespace Krit.Databases

open Database History Std.Do

set_option mvcgen.warning false

/-! ## Properties of a connection -/

/-- A property that every call to SQLite keeps, but for a `COMMIT` that succeeds. -/
structure Stable (kept : Connection → Prop) : Prop where
  called : ∀ connection, kept connection → kept connection.called
  refused : ∀ connection rolledBack, kept connection → kept (connection.refused rolledBack)
  ran : ∀ connection, kept connection →
    kept { connection with ran := connection.ran ++ [connection.transaction] }
  began : ∀ connection, kept connection →
    kept { connection with transaction := some connection.calls, calls := connection.calls + 1 }
  left : ∀ connection, kept connection →
    kept { connection with transaction := none, calls := connection.calls + 1 }

/-- A property that a `COMMIT` keeps as well. -/
structure Lasting (kept : Connection → Prop) : Prop extends Stable kept where
  committed : ∀ connection, kept connection →
    kept { connection with
      transaction := none
      committed := connection.committed ++ connection.transaction.toList
      calls := connection.calls + 1 }

/-- The transactions of a connection are named by calls that it has made. -/
def Named (connection : Connection) : Prop :=
  (∀ number ∈ connection.committed, number < connection.calls) ∧
    ∀ number, connection.transaction = some number → number < connection.calls

/-- A transaction that was begun and is not committed. -/
def Uncommitted (number : ℕ) (connection : Connection) : Prop :=
  number < connection.calls ∧ number ∉ connection.committed

theorem named_lasting : Lasting Named where
  called := by
    rintro connection ⟨hcommitted, hin⟩
    exact ⟨fun number hmem => Nat.lt_succ_of_lt (hcommitted number hmem),
      fun number hnumber => Nat.lt_succ_of_lt (hin number hnumber)⟩
  refused := by
    rintro connection rolledBack ⟨hcommitted, hin⟩
    refine ⟨fun number hmem => Nat.lt_succ_of_lt (hcommitted number hmem), ?_⟩
    intro number hnumber
    cases rolledBack with
    | true => cases hnumber
    | false => exact Nat.lt_succ_of_lt (hin number hnumber)
  ran := fun _ hnamed => hnamed
  began := by
    rintro connection ⟨hcommitted, -⟩
    refine ⟨fun number hmem => Nat.lt_succ_of_lt (hcommitted number hmem), ?_⟩
    intro number hnumber
    cases hnumber
    exact Nat.lt_succ_self _
  left := by
    rintro connection ⟨hcommitted, -⟩
    refine ⟨fun number hmem => Nat.lt_succ_of_lt (hcommitted number hmem), ?_⟩
    intro number hnumber
    cases hnumber
  committed := by
    rintro connection ⟨hcommitted, hin⟩
    refine ⟨?_, fun number hnumber => by cases hnumber⟩
    intro number hmem
    rcases List.mem_append.mp hmem with hold | hnew
    · exact Nat.lt_succ_of_lt (hcommitted number hold)
    · exact Nat.lt_succ_of_lt (hin number (Option.mem_toList.mp hnew))

theorem uncommitted_stable (number : ℕ) : Stable (Uncommitted number) where
  called := fun _ huncommitted => ⟨Nat.lt_succ_of_lt huncommitted.1, huncommitted.2⟩
  refused := fun _ _ huncommitted => ⟨Nat.lt_succ_of_lt huncommitted.1, huncommitted.2⟩
  ran := fun _ huncommitted => huncommitted
  began := fun _ huncommitted => ⟨Nat.lt_succ_of_lt huncommitted.1, huncommitted.2⟩
  left := fun _ huncommitted => ⟨Nat.lt_succ_of_lt huncommitted.1, huncommitted.2⟩

/-- The committed transactions are those of before. -/
theorem committed_stable (committed : List ℕ) :
    Stable fun connection => connection.committed = committed where
  called := fun _ hsame => hsame
  refused := fun _ _ hsame => hsame
  ran := fun _ hsame => hsame
  began := fun _ hsame => hsame
  left := fun _ hsame => hsame

/-! ## Conversations -/

section Conversations

variable {kept : Connection → Prop}

theorem Stable.keeps_call (hstable : Stable kept) : Keeps kept kept call :=
  Krit.Databases.keeps_call hstable.called hstable.refused

theorem Stable.keeps_stepStatement (hstable : Stable kept) :
    Keeps kept kept stepStatement := by
  have hcall := hstable.keeps_call
  unfold Keeps at hcall ⊢
  mvcgen [stepStatement, hcall]
  case vc1 connection hkept _ => exact hstable.ran connection hkept

theorem Stable.keeps_beginBatch (hstable : Stable kept) : Keeps kept kept beginBatch := by
  unfold Keeps
  mvcgen [beginBatch, request]
  case vc1 connection hkept _ _ => exact hstable.began connection hkept
  case vc2 connection hkept _ _ rolledBack _ => exact hstable.refused connection rolledBack hkept

theorem keeps_endBatch (hstable : Stable kept) {effect : Connection → Connection}
    (heffect : ∀ connection, kept connection →
      kept { effect connection with calls := connection.calls + 1 }) :
    Keeps kept kept (endBatch effect) := by
  unfold Keeps
  mvcgen [endBatch, request]
  case vc2 connection hkept _ _ => exact heffect connection hkept
  case vc3 connection hkept _ _ rolledBack _ => exact hstable.refused connection rolledBack hkept

theorem Stable.keeps_rollbackBatch (hstable : Stable kept) : Keeps kept kept rollbackBatch :=
  @keeps_endBatch kept hstable (fun connection => { connection with transaction := none })
    hstable.left

theorem Lasting.keeps_commitBatch (hlasting : Lasting kept) : Keeps kept kept commitBatch := by
  have hkeeps := @keeps_endBatch kept hlasting.toStable
    (fun connection => { connection with
      transaction := none
      committed := connection.committed ++ connection.transaction.toList }) hlasting.committed
  exact hkeeps

/-- A `COMMIT` adds its transaction to those that were committed, if it succeeds. -/
theorem commitBatch_committed (start : Connection) :
    ⦃fun connection => ⌜connection = start⌝⦄ commitBatch
    ⦃post⟨fun _ connection => ⌜connection.committed =
        start.committed ++ start.transaction.toList⌝,
      fun _ connection => ⌜connection.committed = start.committed⌝⟩⦄ := by
  mvcgen [commitBatch, endBatch, request]
  all_goals simp_all

end Conversations

/-! ## Operations of a database -/

section Operations

variable {kept : Connection → Prop} {database : Database} {transaction : Transaction}

theorem talk_keeps {α : Type} {session : Session α} (hsession : Keeps kept kept session)
    (hkept : kept database.connection) : kept (database.talk session).2.connection := by
  cases htalk : database.talk session with
  | mk result next =>
    have hends := (talk_of_triple hsession hkept htalk).2
    cases result with
    | ok value => exact hends
    | error error => exact hends

namespace Stable

theorem undo (hstable : Stable kept) (hkept : kept database.connection) :
    kept database.undo.2.connection := by
  have htalk := talk_keeps hstable.keeps_rollbackBatch hkept
  unfold Database.undo
  split
  · rename_i next hundo
    rw [hundo] at htalk
    exact htalk
  · rename_i error next hundo
    rw [hundo] at htalk
    exact htalk

theorem rollbackNow (hstable : Stable kept) (hkept : kept database.connection) :
    kept database.rollbackNow.2.connection := by
  unfold Database.rollbackNow
  split
  · exact hkept
  · exact hstable.undo hkept

theorem begin (hstable : Stable kept) (mode : TransactionMode) (bounds : OperationBounds)
    (hkept : kept database.connection) : kept (database.begin mode bounds).2.connection := by
  have hsession : Keeps kept kept (do
      install (bounds.now + database.limits.maxTransactionDuration) bounds
      beginBatch) := by
    have hinstall := keeps_install hstable.keeps_call (fun _ hkept => hkept)
      (bounds.now + database.limits.maxTransactionDuration) bounds
    have hbegin := hstable.keeps_beginBatch
    unfold Keeps at hinstall hbegin ⊢
    mvcgen [hinstall, hbegin]
  have htalk := talk_keeps hsession hkept
  unfold Database.begin
  split
  · exact hkept
  · split
    · exact hkept
    · dsimp only
      split
      · exact hkept
      · split
        · exact hkept
        · split
          · rename_i error next hbegun
            rw [hbegun] at htalk
            exact htalk
          · rename_i next hbegun
            rw [hbegun] at htalk
            exact htalk

theorem finishOperation {α : Type} (hstable : Stable kept) (outcome : Except DatabaseError α)
    (hkept : kept database.connection) :
    kept (database.finishOperation transaction outcome).2.2.connection := by
  have hrollback := hstable.rollbackNow hkept
  unfold Database.finishOperation
  split
  · exact hkept
  · split
    · dsimp only
      split
      · exact hrollback
      · exact hrollback
    · exact hkept

theorem runStatement {α : Type} (hstable : Stable kept) (statement : String)
    (expected : StatementKind) (parameters : List String) (bounds : OperationBounds)
    {session : StatementDefinition → List SqliteValue → Session α}
    (hsession : ∀ definition values, Keeps kept kept (session definition values))
    (hkept : kept database.connection) :
    kept (database.runStatement transaction statement expected parameters bounds
      session).2.2.connection := by
  unfold Database.runStatement
  dsimp only
  split
  · exact hkept
  · have hinstall := talk_keeps (keeps_install hstable.keeps_call (fun _ hkept => hkept)
      (database.prepareOperation transaction statement expected bounds).2.deadline bounds) hkept
    split
    · rename_i error next htalk
      rw [htalk] at hinstall
      exact hinstall
    · rename_i next htalk
      rw [htalk] at hinstall
      exact hstable.finishOperation _ (talk_keeps (hsession _ _) hinstall)

theorem query (hstable : Stable kept) (statement : String) (parameters : List String)
    (bounds : OperationBounds) (rows : List (List ColumnValue))
    (hkept : kept database.connection) :
    kept (database.query transaction statement parameters bounds rows).2.2.connection :=
  hstable.runStatement statement .query parameters bounds (fun definition values =>
    keeps_runQuery hstable.keeps_call hstable.keeps_stepStatement (fun _ hkept => hkept)
      database.limits definition values rows) hkept

theorem execute (hstable : Stable kept) (statement : String) (parameters : List String)
    (bounds : OperationBounds) (changed : ℕ) (hkept : kept database.connection) :
    kept (database.execute transaction statement parameters bounds changed).2.2.connection := by
  unfold Database.execute
  split
  · exact hkept
  · exact hstable.runStatement statement .execute parameters bounds (fun _ values =>
      keeps_executeSession hstable.keeps_call hstable.keeps_stepStatement (fun _ hkept => hkept)
        database.limits bounds values changed) hkept

theorem rollback (hstable : Stable kept) (hkept : kept database.connection) :
    kept (database.rollback transaction).2.2.connection := by
  unfold Database.rollback
  split
  · exact hkept
  · split
    · exact hkept
    · exact hstable.rollbackNow hkept

theorem abandon (hstable : Stable kept) (hkept : kept database.connection) :
    kept (database.abandon transaction).2.2.connection := by
  unfold Database.abandon
  split
  · exact hkept
  · exact hstable.rollback hkept

end Stable

namespace Lasting

theorem publish (hlasting : Lasting kept) (bounds : OperationBounds)
    (hkept : kept database.connection) : kept (database.publish bounds).2.connection := by
  have hcommit := talk_keeps hlasting.keeps_commitBatch hkept
  unfold Database.publish
  split
  · rename_i next htalk
    rw [htalk] at hcommit
    exact talk_keeps (keeps_checkpointAndVerify hlasting.keeps_call (fun _ hkept => hkept)
      next.mode next.limits bounds) hcommit
  · rename_i error next htalk
    rw [htalk] at hcommit
    have hundo := hlasting.undo hcommit
    split
    · rename_i undone hresult
      rw [hresult] at hundo
      exact hundo
    · rename_i failure undone hresult
      rw [hresult] at hundo
      exact hundo

theorem commit (hlasting : Lasting kept) (bounds : OperationBounds)
    (hkept : kept database.connection) :
    kept (database.commit transaction bounds).2.2.connection := by
  have hinstall := talk_keeps (keeps_install hlasting.keeps_call (fun _ hkept => hkept)
    transaction.deadline bounds) hkept
  unfold Database.commit
  dsimp only
  split
  · exact hkept
  · split
    · rename_i error next htalk
      rw [htalk] at hinstall
      exact hinstall
    · rename_i next htalk
      rw [htalk] at hinstall
      have hpublish := hlasting.publish bounds hinstall
      split
      · rename_i published hresult
        rw [hresult] at hpublish
        exact hpublish
      · rename_i error published hresult
        rw [hresult] at hpublish
        exact hpublish

end Lasting

/-- The work after a `COMMIT`, or after its failure, commits nothing. -/
theorem publish_committed (database : Database) (bounds : OperationBounds) :
    (database.publish bounds).2.connection.committed =
      database.connection.committed ++
        if (database.talk commitBatch).1.isOk then database.connection.transaction.toList
        else [] := by
  unfold Database.publish
  cases htalk : database.talk commitBatch with
  | mk result next =>
    have hcommit := (talk_of_triple (commitBatch_committed database.connection) rfl htalk).2
    cases result with
    | ok value =>
      exact talk_keeps (keeps_checkpointAndVerify (committed_stable _).keeps_call
        (fun _ hsame => hsame) next.mode next.limits bounds) hcommit
    | error error =>
      have hundo := (committed_stable database.connection.committed).undo hcommit
      dsimp only
      cases hresult : next.undo with
      | mk undone after =>
        rw [hresult] at hundo
        cases undone with
        | ok value => exact hundo.trans (List.append_nil _).symm
        | error failure => exact hundo.trans (List.append_nil _).symm

end Operations

/-! ## Operations of an invocation -/

/-- The connections of all databases have their properties. -/
def KeptBy (kept : String → Connection → Prop) (table : DatabaseTable) : Prop :=
  ∀ name, kept name (table name).connection

/-- A property of the connection of one database. -/
def On (name : String) (kept : Connection → Prop) (other : String) (connection : Connection) :
    Prop :=
  other = name → kept connection

theorem Stable.on {kept : Connection → Prop} (hstable : Stable kept) (name other : String) :
    Stable (On name kept other) where
  called := fun connection hkept hsame => hstable.called connection (hkept hsame)
  refused := fun connection rolledBack hkept hsame =>
    hstable.refused connection rolledBack (hkept hsame)
  ran := fun connection hkept hsame => hstable.ran connection (hkept hsame)
  began := fun connection hkept hsame => hstable.began connection (hkept hsame)
  left := fun connection hkept hsame => hstable.left connection (hkept hsame)

theorem keptBy_on_iff {name : String} {kept : Connection → Prop} {table : DatabaseTable} :
    KeptBy (On name kept) table ↔ kept (table name).connection := by
  constructor
  · intro hkept
    exact hkept name rfl
  · intro hkept other hsame
    rw [hsame]
    exact hkept

namespace KeptBy

variable {kept : String → Connection → Prop} {table : DatabaseTable}
  {owned : InvocationDatabases} {host : HostState}

theorem update (hkept : KeptBy kept table) (name : String) {database : Database}
    (hdatabase : kept name database.connection) :
    KeptBy kept (Function.update table name database) := by
  intro other
  by_cases hsame : other = name
  · rw [hsame, Function.update_self]
    exact hdatabase
  · rw [Function.update_of_ne hsame]
    exact hkept other

theorem drop (hkept : KeptBy kept table) (hstable : ∀ name, Stable (kept name))
    (live : LiveTransaction) : KeptBy kept (live.drop table) := by
  unfold LiveTransaction.drop
  split
  · exact hkept
  · exact hkept.update live.database ((hstable _).abandon (hkept live.database))

theorem abandon (hkept : KeptBy kept table) (hstable : ∀ name, Stable (kept name))
    (live : LiveTransaction) : KeptBy kept (live.abandon table).2 :=
  (hkept.update live.database ((hstable _).abandon (hkept live.database))).drop hstable _

theorem retain (hkept : KeptBy kept table) (hstable : ∀ name, Stable (kept name))
    (keep : LiveTransaction → Bool) : KeptBy kept (owned.retain table keep).2 := by
  unfold InvocationDatabases.retain
  dsimp only
  generalize owned.live.filter (fun live => !keep live) = lives
  induction lives generalizing table with
  | nil => exact hkept
  | cons live rest ih => exact ih (hkept.drop hstable live)

theorem operate {α : Type} (hkept : KeptBy kept table) (hstable : ∀ name, Stable (kept name))
    (slot : ℕ) (keep : LiveTransaction → Bool)
    {operation : Database → Transaction → Except DatabaseError α × Transaction × Database}
    (hoperation : ∀ name database transaction, kept name database.connection →
      kept name (operation database transaction).2.2.connection) :
    KeptBy kept (owned.operate table slot keep operation).2.2 := by
  unfold InvocationDatabases.operate
  split
  · exact hkept
  · rename_i live hlive
    exact (hkept.update live.database
      (hoperation _ _ live.transaction (hkept live.database))).retain hstable keep

theorem begin (hkept : KeptBy kept table) (hstable : ∀ name, Stable (kept name))
    (catalog : DatabaseCatalog) (name : String) (mode : TransactionMode) (slot : ℕ)
    (bounds : OperationBounds) :
    KeptBy kept (owned.begin table catalog name mode slot bounds).2.2 := by
  have hbegin := (hstable name).begin mode bounds (hkept name)
  unfold InvocationDatabases.begin
  dsimp only
  split
  · exact hkept
  · split
    · rename_i error database hbegun
      rw [hbegun] at hbegin
      exact hkept.update name hbegin
    · rename_i transaction database hbegun
      rw [hbegun] at hbegin
      exact hkept.update name hbegin

theorem commit (hkept : KeptBy kept table) (hlasting : ∀ name, Lasting (kept name)) (slot : ℕ)
    (bounds : OperationBounds) : KeptBy kept (owned.commit table slot bounds).2.2 := by
  unfold InvocationDatabases.commit
  dsimp only
  exact hkept.operate (fun name => (hlasting name).toStable) slot _
    fun name _ _ hdatabase => (hlasting name).commit bounds hdatabase

theorem abandonSlot (hkept : KeptBy kept table) (hstable : ∀ name, Stable (kept name))
    (slot : ℕ) : KeptBy kept (owned.abandonSlot table slot).2.2 := by
  unfold InvocationDatabases.abandonSlot
  split
  · exact hkept
  · dsimp only
    split
    · exact hkept
    · exact hkept.abandon hstable _

theorem abandonEach (hkept : KeptBy kept table) (hstable : ∀ name, Stable (kept name))
    (lives : List LiveTransaction) :
    KeptBy kept (InvocationDatabases.abandonEach table lives).2 := by
  induction lives generalizing table with
  | nil => exact hkept
  | cons live rest ih =>
    rw [InvocationDatabases.abandonEach]
    split
    · exact ih hkept
    · exact ih (hkept.abandon hstable live)

theorem finalizeTransactions (hkept : KeptBy kept table) (hstable : ∀ name, Stable (kept name)) :
    KeptBy kept (owned.finalizeTransactions table).2.2 := by
  have hall := hkept.abandonEach hstable owned.live
  unfold InvocationDatabases.finalizeTransactions InvocationDatabases.abandonAll
  dsimp only
  split
  · exact hall
  · split
    · exact hall
    · exact hall

theorem onHandle {α : Type} {handle : ℕ} {check : Except RuntimeError Unit}
    {answer : α → Answer}
    {operation : InvocationDatabases → DatabaseTable → ℕ →
      Except RuntimeError α × InvocationDatabases × DatabaseTable}
    (hkept : KeptBy kept table)
    (hoperation : ∀ owned slot, KeptBy kept (operation owned table slot).2.2) :
    KeptBy kept (host.onHandle table handle check answer operation).2.2 := by
  unfold HostState.onHandle
  dsimp only
  split
  · exact hkept
  · exact hoperation _ _

theorem beginTransaction (hkept : KeptBy kept table) (hstable : ∀ name, Stable (kept name))
    (config : HostConfig) (mode : TransactionMode) (name : String) (place : Option ℕ)
    (bounds : OperationBounds) :
    KeptBy kept (host.beginTransaction table config mode name place bounds).2.2 := by
  unfold HostState.beginTransaction
  dsimp only
  split
  · exact hkept
  · rename_i slot hchecked
    have hbegin := @KeptBy.begin kept table host.databases hkept hstable config.catalog name mode
      slot bounds
    split
    · exact hbegin
    · exact hbegin
    · exact hbegin

theorem dropHandle (hkept : KeptBy kept table) (hstable : ∀ name, Stable (kept name))
    (handle : ℕ) : KeptBy kept (host.dropHandle table handle).2.2 := by
  unfold HostState.dropHandle
  split
  · exact hkept
  · rename_i slot hslot
    have habandon := @KeptBy.abandonSlot kept table host.databases hkept hstable slot
    dsimp only
    split
    · exact habandon
    · exact habandon

/-- Every call but a commit keeps stable properties; a commit keeps lasting ones. -/
theorem serve (hkept : KeptBy kept table) (hstable : ∀ name, Stable (kept name))
    (config : HostConfig) (bounds : OperationBounds) (operation : Operation)
    (hcommit : ∀ handle, operation = .dbCommit handle → ∀ name, Lasting (kept name)) :
    KeptBy kept (host.serve table config bounds operation).2.2 := by
  cases operation with
  | begin mode name place => exact hkept.beginTransaction hstable config mode name place bounds
  | dbQuery handle statement parameters rows =>
    exact hkept.onHandle fun _ _ => hkept.operate hstable _ _
      fun name _ _ hdatabase => (hstable name).query statement parameters bounds rows hdatabase
  | dbExecute handle statement parameters changed =>
    exact hkept.onHandle fun _ _ => hkept.operate hstable _ _
      fun name _ _ hdatabase =>
        (hstable name).execute statement parameters bounds changed hdatabase
  | dbCommit handle =>
    have hlasting := hcommit handle rfl
    exact hkept.onHandle fun owned slot => hkept.commit hlasting slot bounds
  | dbRollback handle =>
    exact hkept.onHandle fun _ _ => hkept.operate hstable _ _
      fun name _ _ hdatabase => (hstable name).rollback hdatabase
  | drop handle => exact hkept.dropHandle hstable handle

theorem perform (hkept : KeptBy kept table) (hstable : ∀ name, Stable (kept name))
    (config : HostConfig) (operation : Operation) (cancelled : Bool) (bounds : OperationBounds)
    (hcommit : ∀ handle, operation = .dbCommit handle → ∀ name, Lasting (kept name)) :
    KeptBy kept (host.perform table config operation cancelled bounds).2.2 := by
  unfold HostState.perform
  split
  · exact hkept
  · exact hkept
  · exact hkept.serve hstable config bounds operation hcommit

/-- Lasting properties are kept by every step of the host. -/
theorem step {world : World} (hkept : KeptBy kept world.databases)
    (hlasting : ∀ name, Lasting (kept name)) (config : HostConfig) (step : Step) :
    KeptBy kept (world.step config step).2.databases := by
  have hstable := fun name => (hlasting name).toStable
  cases step with
  | call operation cancelled bounds =>
    rw [World.step]
    split
    · exact hkept
    · exact hkept.perform hstable config operation cancelled bounds fun _ _ => hlasting
  | finish => exact hkept.finalizeTransactions hstable

end KeptBy

/-! ## Runs -/

/-- The transactions of every database are named by calls that it has made. -/
theorem runOf_named (config : HostConfig) (definitions : String → DatabaseDefinition)
    (steps : List Step) : KeptBy (fun _ => Named) (runOf config definitions steps).databases := by
  have hrun := @invariant _ _ _ (World.step config)
    (fun _ world => KeptBy (fun _ => Named) world.databases) (World.start definitions) ?_ ?_ steps
  · exact hrun
  · intro name
    constructor
    · intro number hmem
      cases hmem
    · intro number hnumber
      cases hnumber
  · intro _ world step hkept
    exact hkept.step (fun _ => named_lasting) config step

end Krit.Databases
