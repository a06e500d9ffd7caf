import Krit.DatabaseInvocations
import Krit.Lib.History

/-!
# Transactions never leak

What the calls of an invocation do to its live transaction, the invariant that every
step of the host keeps, and what it says about whole runs.
-/

namespace Krit.Databases

open Database History

/-! ## Changes of the live transaction -/

/-- What a call does to the live transactions and the databases.  The flag says whether
the call may have succeeded; a live transaction is in the transaction `number` of its
database, and is touched through its own slot only. -/
inductive Change (slot number : ℕ) (live : List LiveTransaction) (table : DatabaseTable) :
    Bool → List LiveTransaction → DatabaseTable → Prop
  | same {succeeded : Bool} : Change slot number live table succeeded live table
  | operated {own : LiveTransaction} {transaction : Transaction} {database : Database}
      (lives : live = [own]) (mine : own.slot = slot) (isOpen : transaction.outcome = none)
      (held : Held number (table own.database).connection database.connection)
      (marked : Marked (table own.database) database) :
      Change slot number live table true [{ own with transaction }]
        (Function.update table own.database database)
  | failed {own : LiveTransaction} {transaction : Transaction} {database : Database}
      (lives : live = [own]) (mine : own.slot = slot) (isOpen : transaction.outcome = none)
      (within : Within number (table own.database).connection database.connection)
      (marked : Marked (table own.database) database) :
      Change slot number live table false [{ own with transaction }]
        (Function.update table own.database database)
  | closed {succeeded : Bool} {own : LiveTransaction} {database : Database}
      (lives : live = [own]) (mine : own.slot = slot) (settled : database.Settled)
      (within : Within number (table own.database).connection database.connection)
      (marked : Marked (table own.database) database) :
      Change slot number live table succeeded [] (Function.update table own.database database)

theorem Within.of_quiet {number : ℕ} {before after : Database} (hquiet : Quiet before after) :
    Within number before.connection after.connection :=
  Within.calm (Within.refl number before.connection) hquiet.1

namespace InvocationDatabases

variable {owned : InvocationDatabases} {table : DatabaseTable} {own : LiveTransaction}
variable {slot number : ℕ}

theorem isOk_mapError {ε δ α : Type} (change : ε → δ) (result : Except ε α) :
    (result.mapError change).isOk = result.isOk := by
  cases result with
  | ok value => rfl
  | error error => rfl

/-- A slot that no live transaction has. -/
theorem liveMut_absent (hlive : ∀ live ∈ owned.live, live.slot ≠ slot) :
    owned.liveMut slot = .error
      (.databaseTransaction "database transaction handle is not open in this invocation") := by
  have hfind : owned.live.find? (·.slot = slot) = none := by
    apply List.find?_eq_none.mpr
    intro live hmem
    simpa using hlive live hmem
  unfold liveMut
  rw [hfind]
  rfl

theorem liveMut_live (hlive : owned.live = [own]) (hopen : own.transaction.outcome = none) :
    owned.liveMut own.slot = .ok own := by
  unfold liveMut
  rw [hlive, List.find?_cons_of_pos (by simp)]
  simp [Result.ofOption, Transaction.isCompleted, hopen, Result.ensure]

/-- What an operation on the live transaction leaves, when it is not kept or is no longer
open. -/
theorem retain_dropped {keep : LiveTransaction → Bool} (hkeep : keep own = false) :
    ({ owned with live := [own] } : InvocationDatabases).retain table keep =
      ({ owned with live := [] }, own.drop table) := by
  unfold retain
  rw [List.filter_cons_of_neg (by simp [hkeep]), List.filter_cons_of_pos (by simp [hkeep])]
  rfl

theorem retain_kept {keep : LiveTransaction → Bool} (hkeep : keep own = true) :
    ({ owned with live := [own] } : InvocationDatabases).retain table keep =
      ({ owned with live := [own] }, table) := by
  unfold retain
  rw [List.filter_cons_of_pos hkeep, List.filter_cons_of_neg (by simp [hkeep])]
  rfl

/-- An operation goes to the live transaction if the slot is its slot, and nowhere
otherwise. -/
theorem operate_live {α : Type} (hlive : owned.live = [own])
    (hopen : own.transaction.outcome = none) (keep : LiveTransaction → Bool)
    (operation : Database → Transaction → Except DatabaseError α × Transaction × Database)
    {outcome : Except DatabaseError α} {transaction : Transaction} {database : Database}
    (hoperation : operation (table own.database) own.transaction =
      (outcome, transaction, database)) :
    owned.operate table own.slot keep operation =
      (outcome.mapError mapDatabaseError,
        ({ owned with live := [{ own with transaction }] } : InvocationDatabases).retain
          (Function.update table own.database database) keep) := by
  unfold operate
  rw [liveMut_live hlive hopen, hlive]
  simp only [hoperation]
  rw [setLive, if_pos rfl]

theorem operate_absent {α : Type} (hlive : ∀ live ∈ owned.live, live.slot ≠ slot)
    (keep : LiveTransaction → Bool)
    (operation : Database → Transaction → Except DatabaseError α × Transaction × Database) :
    owned.operate table slot keep operation =
      (.error (.databaseTransaction "database transaction handle is not open in this invocation"),
        owned, table) := by
  unfold operate
  rw [liveMut_absent hlive]

/-- A statement on the live transaction. -/
theorem operate_statement {α : Type} (hlive : owned.live = [own])
    (hopen : own.transaction.outcome = none)
    (operation : Database → Transaction → Except DatabaseError α × Transaction × Database)
    (hspec : Operated number (table own.database)
      (operation (table own.database) own.transaction).1
      (operation (table own.database) own.transaction).2.1
      (operation (table own.database) own.transaction).2.2) :
    ∀ result next after,
      owned.operate table own.slot (fun live => !live.transaction.isCompleted) operation =
        (result, next, after) →
      Change own.slot number owned.live table result.isOk next.live after := by
  intro result next after hresult
  cases hoperation : operation (table own.database) own.transaction with
  | mk outcome rest =>
    obtain ⟨transaction, database⟩ := rest
    rw [operate_live hlive hopen _ operation hoperation] at hresult
    simp only [hoperation] at hspec
    cases hspec with
    | done isOpen held marked =>
      rw [retain_kept (by simp [Transaction.isCompleted, isOpen])] at hresult
      cases hresult
      exact .operated hlive rfl isOpen held marked
    | failed isOpen within marked =>
      rw [retain_kept (by simp [Transaction.isCompleted, isOpen])] at hresult
      cases hresult
      exact .failed hlive rfl isOpen within marked
    | ended completed settled within marked =>
      rw [retain_dropped (by simp [completed]), LiveTransaction.drop, if_pos completed] at hresult
      cases hresult
      exact .closed hlive rfl settled within marked

/-- An operation that ends the live transaction: what it leaves open is dropped. -/
theorem operate_closing {α : Type} (hlive : owned.live = [own])
    (hopen : own.transaction.outcome = none)
    (operation : Database → Transaction → Except DatabaseError α × Transaction × Database)
    (hquiet : Quiet (table own.database) (operation (table own.database) own.transaction).2.2)
    (hended : (operation (table own.database) own.transaction).2.1.isCompleted = true ∧
        (operation (table own.database) own.transaction).2.2.Settled ∨
      (operation (table own.database) own.transaction).2.1.outcome = none) :
    ∀ result next after,
      owned.operate table own.slot (fun live => live.slot ≠ own.slot) operation =
        (result, next, after) →
      Change own.slot number owned.live table result.isOk next.live after := by
  intro result next after hresult
  cases hoperation : operation (table own.database) own.transaction with
  | mk outcome rest =>
    obtain ⟨transaction, database⟩ := rest
    rw [operate_live hlive hopen _ operation hoperation, retain_dropped (by simp)] at hresult
    simp only [hoperation] at hquiet hended
    rcases hended with ⟨hcompleted, hsettled⟩ | hstill
    · rw [LiveTransaction.drop, if_pos hcompleted] at hresult
      cases hresult
      exact .closed hlive rfl hsettled (Within.of_quiet hquiet) hquiet.2
    · have hdrop : LiveTransaction.drop (Function.update table own.database database)
          { own with transaction } =
            Function.update table own.database (database.abandon transaction).2.2 := by
        have hnot : transaction.isCompleted = false := by
          rw [Transaction.isCompleted, hstill]
          rfl
        rw [LiveTransaction.drop, if_neg (by simp [hnot]), Function.update_self,
          Function.update_idem]
      rw [hdrop] at hresult
      cases hresult
      have habandon := abandon_settles database hstill
      have hboth := hquiet.trans habandon.2.1
      exact .closed hlive rfl habandon.1 (Within.of_quiet hboth) hboth.2

/-- A live transaction is rolled back once: its drop finds it completed. -/
theorem abandon_live (table : DatabaseTable) (hopen : own.transaction.outcome = none) :
    (own.abandon table).2 = Function.update table own.database
      ((table own.database).abandon own.transaction).2.2 := by
  have hcompleted := (abandon_settles (table own.database) hopen).2.2
  unfold LiveTransaction.abandon LiveTransaction.drop
  exact if_pos hcompleted

theorem abandonSlot_change (number : ℕ) (hlive : owned.live = [own])
    (hopen : own.transaction.outcome = none) :
    Change own.slot number owned.live table (owned.abandonSlot table own.slot).1.isOk
      (owned.abandonSlot table own.slot).2.1.live (owned.abandonSlot table own.slot).2.2 := by
  have hnot : ¬ own.transaction.isCompleted = true := by
    rw [Transaction.isCompleted, hopen]
    simp
  have habandon := abandon_settles (table own.database) hopen
  unfold abandonSlot
  rw [hlive, List.find?_cons_of_pos (by simp)]
  simp only [if_neg hnot, List.eraseP_cons_of_pos, decide_true]
  rw [abandon_live table hopen]
  exact .closed rfl rfl habandon.1 (Within.of_quiet habandon.2.1) habandon.2.1.2

theorem abandonSlot_absent (hlive : ∀ live ∈ owned.live, live.slot ≠ slot) :
    owned.abandonSlot table slot = (.ok (), owned, table) := by
  have hfind : owned.live.find? (·.slot = slot) = none := by
    apply List.find?_eq_none.mpr
    intro live hmem
    simpa using hlive live hmem
  unfold abandonSlot
  rw [hfind]

/-- The end of an invocation with no live transaction touches no database. -/
theorem finalize_idle (hlive : owned.live = []) :
    (owned.finalizeTransactions table).2.2 = table := by
  unfold finalizeTransactions abandonAll
  rw [hlive]
  rfl

/-- The end of an invocation rolls its live transaction back. -/
theorem finalize_live (hlive : owned.live = [own]) (hopen : own.transaction.outcome = none) :
    (owned.finalizeTransactions table).2.2 = Function.update table own.database
      ((table own.database).abandon own.transaction).2.2 := by
  have hnot : ¬ own.transaction.isCompleted = true := by
    rw [Transaction.isCompleted, hopen]
    simp
  have hall : (owned.abandonAll table).2.2 = Function.update table own.database
      ((table own.database).abandon own.transaction).2.2 := by
    unfold abandonAll
    rw [hlive, abandonEach, if_neg hnot]
    exact abandon_live table hopen
  unfold finalizeTransactions
  simp only [hlive, List.isEmpty_cons, Bool.false_eq_true, if_false]
  rw [← hall]
  split <;> rfl

/-- What a `begin` of an invocation does. -/
inductive Beginning (owned : InvocationDatabases) (table : DatabaseTable) (name : String)
    (slot : ℕ) : Except RuntimeError Unit → List LiveTransaction → DatabaseTable → Prop
  | untouched {error : RuntimeError} :
      Beginning owned table name slot (.error error) owned.live table
  | refused {error : RuntimeError} {database : Database} (lives : owned.live = [])
      (settled : database.Settled) (quiet : Quiet (table name) database) :
      Beginning owned table name slot (.error error) [] (Function.update table name database)
  | started {transaction : Transaction} {database : Database} {number : ℕ}
      (lives : owned.live = []) (isOpen : transaction.outcome = none)
      (fresh : (table name).connection.calls ≤ number) (called : number < database.connection.calls)
      (within : database.connection.transaction = some number)
      (ran : database.connection.ran = (table name).connection.ran)
      (healthy : (table name).poisoned = false) :
      Beginning owned table name slot (.ok ()) [⟨name, transaction, slot⟩]
        (Function.update table name database)

theorem begin_spec (catalog : DatabaseCatalog) (name : String) (mode : TransactionMode)
    (slot : ℕ) (bounds : OperationBounds)
    (hsettled : owned.live = [] → (table name).Settled) :
    Beginning owned table name slot (owned.begin table catalog name mode slot bounds).1
      (owned.begin table catalog name mode slot bounds).2.1.live
      (owned.begin table catalog name mode slot bounds).2.2 := by
  unfold begin
  simp only []
  split
  · exact .untouched
  · next next hchecked =>
    simp only [Result.bind_eq_ok, Result.ensure_eq_ok] at hchecked
    have hempty : owned.live = [] := List.isEmpty_iff.mp hchecked.choose_spec.1
    have hbegun := Database.begin_spec mode bounds (hsettled hempty)
    cases hbegin : (table name).begin mode bounds with
    | mk result database =>
      simp only [hbegin] at hbegun
      cases hbegun with
      | refused settled quiet =>
        simp only [hempty]
        exact .refused hempty settled quiet
      | started isOpen fresh called within ran healthy =>
        simp only [hempty, List.nil_append]
        exact .started hempty isOpen fresh called within ran healthy

/-- No live transaction, or one that is open in the transaction `number`. -/
def Ready (number : ℕ) (live : List LiveTransaction) (table : DatabaseTable) : Prop :=
  live = [] ∨ ∃ own, live = [own] ∧ own.transaction.outcome = none ∧
    (table own.database).connection.transaction = some number

/-- A slot is that of the live transaction or of none. -/
theorem Ready.cases {live : List LiveTransaction} (hready : Ready number live table)
    (slot : ℕ) :
    (∀ other ∈ live, other.slot ≠ slot) ∨
      ∃ own, live = [own] ∧ own.slot = slot ∧ own.transaction.outcome = none ∧
        (table own.database).connection.transaction = some number := by
  rcases hready with hnil | ⟨own, hone, hopen, hin⟩
  · left
    intro other hother
    rw [hnil] at hother
    cases hother
  · by_cases hslot : own.slot = slot
    · exact Or.inr ⟨own, hone, hslot, hopen, hin⟩
    · left
      intro other hother
      rw [hone] at hother
      rw [List.mem_singleton.mp hother]
      exact hslot

/-- An operation of an invocation changes its live transaction through the slot only. -/
def Changes {α : Type} (number : ℕ) (owned : InvocationDatabases) (table : DatabaseTable)
    (operation : InvocationDatabases → DatabaseTable → ℕ →
      Except RuntimeError α × InvocationDatabases × DatabaseTable) : Prop :=
  ∀ slot, Change slot number owned.live table (operation owned table slot).1.isOk
    (operation owned table slot).2.1.live (operation owned table slot).2.2

theorem changes_operate {α : Type} (hready : Ready number owned.live table)
    (keep : ℕ → LiveTransaction → Bool)
    (operation : Database → Transaction → Except DatabaseError α × Transaction × Database)
    (hspec : ∀ own, owned.live = [own] → own.transaction.outcome = none →
      (table own.database).connection.transaction = some number →
      ∀ result next after,
        owned.operate table own.slot (keep own.slot) operation = (result, next, after) →
        Change own.slot number owned.live table result.isOk next.live after) :
    Changes number owned table fun owned table slot =>
      owned.operate table slot (keep slot) operation := by
  intro slot
  beta_reduce
  rcases hready.cases slot with habsent | ⟨own, hone, hslot, hopen, hin⟩
  · rw [operate_absent habsent]
    exact .same
  · rw [← hslot]
    exact hspec own hone hopen hin _ _ _ rfl

theorem changes_query (hready : Ready number owned.live table) (statement : String)
    (parameters : List String) (bounds : OperationBounds) (rows : List (List ColumnValue)) :
    Changes number owned table fun owned table slot =>
      owned.query table slot statement parameters bounds rows :=
  changes_operate hready (fun _ live => !live.transaction.isCompleted) _
    fun _ hone hopen hin => operate_statement hone hopen _
      (query_spec statement parameters bounds rows hopen hin)

theorem changes_execute (hready : Ready number owned.live table) (statement : String)
    (parameters : List String) (bounds : OperationBounds) (changed : ℕ) :
    Changes number owned table fun owned table slot =>
      owned.execute table slot statement parameters bounds changed :=
  changes_operate hready (fun _ live => !live.transaction.isCompleted) _
    fun _ hone hopen hin => operate_statement hone hopen _
      (execute_spec statement parameters bounds changed hopen hin)

theorem changes_commit (hready : Ready number owned.live table) (bounds : OperationBounds) :
    Changes number owned table fun owned table slot => owned.commit table slot bounds := by
  have hchanges := changes_operate hready (fun slot live => live.slot ≠ slot)
    (fun database transaction => database.commit transaction bounds)
    fun _ hone hopen _ => operate_closing hone hopen _
      (commit_spec bounds hopen).1 (commit_spec bounds hopen).2
  exact hchanges

theorem changes_rollback (hready : Ready number owned.live table) :
    Changes number owned table fun owned table slot => owned.rollback table slot := by
  apply changes_operate hready (fun slot live => live.slot ≠ slot)
  intro own hone hopen _
  have hspec := abandon_settles (table own.database) hopen
  rw [← rollback_eq_abandon (table own.database) hopen] at hspec
  exact operate_closing hone hopen _ hspec.2.1 (Or.inl ⟨hspec.2.2, hspec.1⟩)

theorem changes_abandonSlot (hready : Ready number owned.live table) :
    Changes number owned table fun owned table slot => owned.abandonSlot table slot := by
  intro slot
  beta_reduce
  rcases hready.cases slot with habsent | ⟨own, hone, hslot, hopen, _⟩
  · rw [abandonSlot_absent habsent]
    exact .same
  · rw [← hslot]
    exact abandonSlot_change number hone hopen

end InvocationDatabases

/-! ## Host calls -/

open InvocationDatabases

/-- What a call on a handle does: nothing to the databases, or a change through the slot of
the handle.  It gives out no handle. -/
structure Served (handle number : ℕ) (host : HostState) (table : DatabaseTable) (succeeded : Bool)
    (next : HostState) (after : DatabaseTable) : Prop where
  change : (next.databases.live = host.databases.live ∧ after = table) ∨
    ∃ slot, host.resources handle = some slot ∧
      Change slot number host.databases.live table succeeded next.databases.live after
  resources : ∀ other slot, next.resources other = some slot → host.resources other = some slot
  slots : next.transactionSlots = host.transactionSlots

theorem Served.same (handle number : ℕ) (host : HostState) (table : DatabaseTable)
    (succeeded : Bool) : Served handle number host table succeeded host table :=
  ⟨Or.inl ⟨rfl, rfl⟩, fun _ _ hfound => hfound, rfl⟩

namespace HostState

variable {host : HostState} {table : DatabaseTable} {number : ℕ}

theorem isOk_map {ε α β : Type} (change : α → β) (result : Except ε α) :
    (result.map change).isOk = result.isOk := by
  cases result with
  | ok value => rfl
  | error error => rfl

theorem onHandle_served {α : Type} (handle : ℕ) (check : Except RuntimeError Unit)
    (answer : α → Answer)
    {operation : InvocationDatabases → DatabaseTable → ℕ →
      Except RuntimeError α × InvocationDatabases × DatabaseTable}
    (hchanges : Changes number host.databases table operation) :
    Served handle number host table (host.onHandle table handle check answer operation).1.isOk
      (host.onHandle table handle check answer operation).2.1
      (host.onHandle table handle check answer operation).2.2 := by
  unfold onHandle
  simp only []
  split
  · exact .same handle number host table _
  · next slot hchecked =>
    simp only [Result.bind_eq_ok, slotOf, Result.ofOption_eq_ok] at hchecked
    obtain ⟨-, -, hslot⟩ := hchecked
    have hchange := hchanges slot
    simp only [isOk_map]
    exact ⟨Or.inr ⟨slot, hslot, hchange⟩, fun _ _ hfound => hfound, rfl⟩

theorem dropHandle_served (handle : ℕ) (hready : Ready number host.databases.live table) :
    Served handle number host table (host.dropHandle table handle).1.isOk
      (host.dropHandle table handle).2.1 (host.dropHandle table handle).2.2 := by
  unfold dropHandle
  cases hfound : host.resources handle with
  | none => exact .same handle number host table _
  | some slot =>
    have hchange := changes_abandonSlot hready slot
    cases houtcome : (host.databases.abandonSlot table slot).1 with
    | error error =>
      rw [houtcome] at hchange
      simp only [houtcome]
      exact ⟨Or.inr ⟨slot, hfound, hchange⟩, fun _ _ hother => hother, rfl⟩
    | ok value =>
      rw [houtcome] at hchange
      simp only [houtcome]
      refine ⟨Or.inr ⟨slot, hfound, hchange⟩, ?_, rfl⟩
      intro other found hother
      change Function.update host.resources handle none other = some found at hother
      by_cases hsame : other = handle
      · rw [hsame, Function.update_self] at hother
        cases hother
      · rw [Function.update_of_ne hsame] at hother
        exact hother

theorem serve_served {handle : ℕ} {operation : Operation} (config : HostConfig)
    (bounds : OperationBounds) (hhandle : operation.handle = some handle)
    (hready : Ready number host.databases.live table) :
    Served handle number host table (host.serve table config bounds operation).1.isOk
      (host.serve table config bounds operation).2.1
      (host.serve table config bounds operation).2.2 := by
  cases operation with
  | begin mode name place => cases hhandle
  | dbQuery own statement parameters rows =>
    cases hhandle
    exact onHandle_served _ _ _ (changes_query hready statement parameters bounds rows)
  | dbExecute own statement parameters changed =>
    cases hhandle
    exact onHandle_served _ _ _ (changes_execute hready statement parameters bounds changed)
  | dbCommit own =>
    cases hhandle
    exact onHandle_served _ _ _ (changes_commit hready bounds)
  | dbRollback own =>
    cases hhandle
    exact onHandle_served _ _ _ (changes_rollback hready)
  | drop own =>
    cases hhandle
    exact dropHandle_served _ hready

/-- What a call for a new transaction does.  A handle that it gives out is for the slot
that it took. -/
structure Opened (name : String) (host : HostState) (table : DatabaseTable)
    (result : Except RuntimeError Answer) (next : HostState) (after : DatabaseTable) : Prop where
  slots : host.transactionSlots ≤ next.transactionSlots
  beginning : ∃ outcome,
    Beginning host.databases table name (host.transactionSlots + 1) outcome next.databases.live
      after ∧
    (outcome = .ok () → next.transactionSlots = host.transactionSlots + 1) ∧
    ((result.isOk = false ∧ next.resources = host.resources) ∨
      ∃ place, outcome = .ok () ∧ result = .ok (.handle place) ∧
        next.resources =
          Function.update host.resources place (some (host.transactionSlots + 1)))

theorem beginTransaction_opened (config : HostConfig) (mode : TransactionMode) (name : String)
    (place : Option ℕ) (bounds : OperationBounds)
    (hsettled : host.databases.live = [] → (table name).Settled) :
    Opened name host table (host.beginTransaction table config mode name place bounds).1
      (host.beginTransaction table config mode name place bounds).2.1
      (host.beginTransaction table config mode name place bounds).2.2 := by
  unfold beginTransaction
  simp only []
  split
  · next error hchecked =>
    exact ⟨le_rfl, .error error, .untouched, by simp, Or.inl ⟨rfl, rfl⟩⟩
  · next slot hchecked =>
    simp only [Result.bind_eq_ok, Result.ofOption_eq_ok] at hchecked
    obtain ⟨-, -, hslot⟩ := hchecked
    have hnext := Machine.checkedAdd_eq_some hslot
    have hbeginning := InvocationDatabases.begin_spec config.catalog name mode slot bounds hsettled
    rw [hnext] at hbeginning ⊢
    cases hbegin : host.databases.begin table config.catalog name mode
        (host.transactionSlots + 1) bounds with
    | mk outcome rest =>
      obtain ⟨owned, databases⟩ := rest
      simp only [hbegin] at hbeginning
      have hgrows : host.transactionSlots ≤ host.transactionSlots + 1 := Nat.le_succ _
      cases outcome with
      | error error => exact ⟨hgrows, .error error, hbeginning, by simp, Or.inl ⟨rfl, rfl⟩⟩
      | ok value =>
        cases place with
        | none => exact ⟨hgrows, .ok (), hbeginning, fun _ => rfl, Or.inl ⟨rfl, rfl⟩⟩
        | some place =>
          exact ⟨hgrows, .ok (), hbeginning, fun _ => rfl, Or.inr ⟨place, rfl, rfl, rfl⟩⟩

/-- Counting a call touches no transaction. -/
theorem recordHostCall_same {config : HostConfig} {next : HostState}
    (hrecord : host.recordHostCall config = .ok next) :
    next.databases = host.databases ∧ next.resources = host.resources ∧
      next.transactionSlots = host.transactionSlots := by
  unfold recordHostCall at hrecord
  simp only [Result.bind_eq_ok, Result.pure_eq_ok] at hrecord
  obtain ⟨_, -, -, -, hnext⟩ := hrecord
  rw [← hnext]
  exact ⟨rfl, rfl, rfl⟩

/-- A call is admitted with the transactions, handles and slots as they are. -/
theorem accept_same {config : HostConfig} {operation : Operation} {cancelled skipped : Bool}
    {next : HostState} (haccept : host.accept config operation cancelled = .ok (next, skipped)) :
    next.databases = host.databases ∧ next.resources = host.resources ∧
      next.transactionSlots = host.transactionSlots := by
  unfold accept at haccept
  split at haccept
  · cases haccept
    exact ⟨rfl, rfl, rfl⟩
  · cases hrecord : host.recordHostCall config with
    | error error =>
      rw [hrecord] at haccept
      cases haccept
    | ok state =>
      rw [hrecord] at haccept
      cases haccept
      exact recordHostCall_same hrecord

/-- A call on a handle, counted or not. -/
theorem perform_served {handle : ℕ} {operation : Operation} (config : HostConfig)
    (cancelled : Bool) (bounds : OperationBounds) (hhandle : operation.handle = some handle)
    (hready : Ready number host.databases.live table) :
    Served handle number host table (host.perform table config operation cancelled bounds).1.isOk
      (host.perform table config operation cancelled bounds).2.1
      (host.perform table config operation cancelled bounds).2.2 := by
  unfold perform
  cases haccept : host.accept config operation cancelled with
  | error error => exact .same handle number host table _
  | ok admitted =>
    obtain ⟨state, skipped⟩ := admitted
    obtain ⟨hdatabases, hresources, hslots⟩ := accept_same haccept
    cases skipped with
    | true =>
      refine ⟨Or.inl ⟨by rw [hdatabases], rfl⟩, ?_, hslots⟩
      intro other slot hfound
      rw [← hresources]
      exact hfound
    | false =>
      rw [← hdatabases] at hready
      obtain ⟨hchange, hkept, hsame⟩ := serve_served config bounds hhandle hready
      rw [hdatabases, hresources] at hchange
      rw [hresources] at hkept
      simp only [isOk_map]
      exact ⟨hchange, hkept, hsame.trans hslots⟩

/-- A call for a new transaction, which may not get so far. -/
theorem perform_begin (config : HostConfig) (mode : TransactionMode) (name : String)
    (place : Option ℕ) (cancelled : Bool) (bounds : OperationBounds)
    (hsettled : host.databases.live = [] → (table name).Settled) :
    ∃ result, Opened name host table result
        (host.perform table config (.begin mode name place) cancelled bounds).2.1
        (host.perform table config (.begin mode name place) cancelled bounds).2.2 ∧
      ((host.perform table config (.begin mode name place) cancelled bounds).1 = result.map .ok ∨
        ∃ message, (host.perform table config (.begin mode name place) cancelled bounds).1 =
            .ok (.error message) ∧
          result.isOk = false ∧
          (host.perform table config (.begin mode name place) cancelled bounds).2.1.databases =
            host.databases ∧
          (host.perform table config (.begin mode name place) cancelled bounds).2.2 = table) := by
  unfold perform
  cases haccept : host.accept config (.begin mode name place) cancelled with
  | error error =>
    refine ⟨.error error, ⟨le_rfl, .error error, .untouched, by simp, Or.inl ⟨rfl, rfl⟩⟩, ?_⟩
    exact Or.inl rfl
  | ok admitted =>
    obtain ⟨state, skipped⟩ := admitted
    obtain ⟨hdatabases, hresources, hslots⟩ := accept_same haccept
    cases skipped with
    | true =>
      refine ⟨.error (.hostCalls ""), ⟨hslots.ge, .error (.hostCalls ""), ?_, by simp,
        Or.inl ⟨rfl, hresources⟩⟩, Or.inr ⟨_, rfl, rfl, hdatabases, rfl⟩⟩
      rw [hdatabases]
      exact .untouched
    | false =>
      rw [← hdatabases] at hsettled
      have hopened := beginTransaction_opened config mode name place bounds hsettled
      refine ⟨(state.beginTransaction table config mode name place bounds).1, ?_, Or.inl rfl⟩
      obtain ⟨hgrows, hbeginning⟩ := hopened
      rw [hdatabases, hslots, hresources] at hbeginning
      rw [hslots] at hgrows
      exact ⟨hgrows, hbeginning⟩

end HostState

/-! ## Events -/

/-- The handle was given out for the transaction, and not again since. -/
def Owns (past : List Event) (invocation handle : ℕ) (name : String) (number : ℕ) : Prop :=
  Since (fun event => event = .began invocation handle name (some number))
    (fun event => ∀ other transaction, event ≠ .began invocation handle other transaction) past

/-- A statement runs in the transaction that its own handle began. -/
def Justified (before : List Event) : Event → Prop
  | .began .. => True
  | .ran invocation handle name transaction =>
      ∃ own number, handle = some own ∧ transaction = some number ∧
        Owns before invocation own name number

/-- The transaction that an event begins on a database. -/
def begunOn (name : String) : Event → Option (Option ℕ)
  | .began _ _ other transaction => if other = name then some transaction else none
  | .ran .. => none

section Events

variable {past : List Event} {invocation handle number : ℕ} {name : String}

theorem Owns.ran (howns : Owns past invocation handle name number) (other : ℕ)
    (through : Option ℕ) (database : String) (transaction : Option ℕ) :
    Owns (past ++ [.ran other through database transaction]) invocation handle name number := by
  apply since_concat.mpr
  refine Or.inr ⟨howns, ?_⟩
  intro elsewhere begun heq
  cases heq

/-- Steps of statements in the transaction of the handle may follow. -/
theorem justified_append (hpast : Throughout Justified past)
    (howns : Owns past invocation handle name number) {events : List Event}
    (hevents : ∀ event ∈ events, event = .ran invocation (some handle) name (some number)) :
    Throughout Justified (past ++ events) := by
  induction events generalizing past with
  | nil => rwa [List.append_nil]
  | cons event rest ih =>
    have hevent := hevents event (by simp)
    rw [List.append_cons]
    apply ih
    · apply hpast.concat
      rw [hevent]
      exact ⟨handle, number, rfl, rfl, howns⟩
    · rw [hevent]
      exact howns.ran _ _ _ _
    · intro other hother
      exact hevents other (List.mem_cons_of_mem _ hother)

theorem owns_append {own : ℕ} (howns : Owns past invocation own name number) {events : List Event}
    (hevents : ∀ event ∈ events, ∃ other through database transaction,
      event = .ran other through database transaction) :
    Owns (past ++ events) invocation own name number := by
  induction events generalizing past with
  | nil => rwa [List.append_nil]
  | cons event rest ih =>
    obtain ⟨other, through, database, transaction, hevent⟩ := hevents event (by simp)
    rw [List.append_cons]
    apply ih
    · rw [hevent]
      exact howns.ran _ _ _ _
    · intro event hmem
      exact hevents event (List.mem_cons_of_mem _ hmem)

theorem filterMap_begunOn_ran (name : String) {events : List Event}
    (hevents : ∀ event ∈ events, ∃ other through database transaction,
      event = .ran other through database transaction) :
    (past ++ events).filterMap (begunOn name) = past.filterMap (begunOn name) := by
  have hnone : events.filterMap (begunOn name) = [] := by
    apply List.filterMap_eq_nil_iff.mpr
    intro event hmem
    obtain ⟨other, through, database, transaction, hevent⟩ := hevents event hmem
    rw [hevent]
    rfl
  rw [List.filterMap_append, hnone, List.append_nil]

/-- A change of one database shows the steps that ran in its transaction. -/
theorem ranEvents_update (config : HostConfig) (invocation : ℕ) (handle : Option ℕ)
    {table : DatabaseTable} {database : Database}
    (hwithin : Within number (table name).connection database.connection) :
    ∀ event ∈ ranEvents config invocation handle table (Function.update table name database),
      event = .ran invocation handle name (some number) := by
  intro event hevent
  obtain ⟨other, -, hother⟩ := List.mem_flatMap.mp hevent
  obtain ⟨transaction, htransaction, hevent⟩ := List.mem_map.mp hother
  by_cases hname : other = name
  · rw [hname] at htransaction hevent
    obtain ⟨steps, hran, hsteps⟩ := hwithin.ran
    rw [Function.update_self, hran, List.drop_left] at htransaction
    rw [← hevent, hsteps transaction htransaction]
  · rw [Function.update_of_ne hname, List.drop_length] at htransaction
    cases htransaction

theorem ranEvents_calm (config : HostConfig) (invocation : ℕ) (handle : Option ℕ)
    {table : DatabaseTable} {database : Database}
    (hcalm : Calm (table name).connection database.connection) :
    ranEvents config invocation handle table (Function.update table name database) = [] := by
  apply List.flatMap_eq_nil_iff.mpr
  intro other _
  by_cases hname : other = name
  · rw [hname, Function.update_self, hcalm.1, List.drop_length, List.map_nil]
  · rw [Function.update_of_ne hname, List.drop_length, List.map_nil]

theorem ranEvents_same (config : HostConfig) (invocation : ℕ) (handle : Option ℕ)
    (table : DatabaseTable) : ranEvents config invocation handle table table = [] := by
  apply List.flatMap_eq_nil_iff.mpr
  intro other _
  rw [List.drop_length, List.map_nil]

end Events

/-! ## The invariant -/

/-- The live transaction of the world: none, or one that is open and, until the invocation
fails, in the transaction that its handle began. -/
inductive Live (past : List Event) (world : World) : Prop
  | idle (none : world.host.databases.live = [])
  | running {own : LiveTransaction} {number : ℕ} (one : world.host.databases.live = [own])
      (isOpen : own.transaction.outcome = Option.none)
      (slot : own.slot ≤ world.host.transactionSlots)
      (within : (world.databases own.database).connection.transaction = some number)
      (owned : ∀ handle, world.host.resources handle = some own.slot →
        Owns past world.invocation handle own.database number)
  | broken {own : LiveTransaction} (one : world.host.databases.live = [own])
      (isOpen : own.transaction.outcome = Option.none) (failed : world.failed = true)

/-- The transactions that were begun on a database are named by calls it has made. -/
def Numbered (past : List Event) (table : DatabaseTable) : Prop :=
  ∀ name, ∀ transaction ∈ past.filterMap (begunOn name),
    ∃ number, transaction = some number ∧ number < (table name).connection.calls

structure Invariant (past : List Event) (world : World) : Prop where
  live : Live past world
  settled : ∀ name, (∀ own ∈ world.host.databases.live, own.database ≠ name) →
    (world.databases name).Settled
  slots : ∀ handle slot, world.host.resources handle = some slot →
    slot ≤ world.host.transactionSlots
  numbered : Numbered past world.databases
  distinct : ∀ name, (past.filterMap (begunOn name)).Nodup
  justified : Throughout Justified past

theorem invariant_start (definitions : String → DatabaseDefinition) :
    Invariant [] (World.start definitions) where
  live := .idle rfl
  settled := by
    intro name _
    exact Or.inl rfl
  slots := by
    intro handle slot hfound
    cases hfound
  numbered := by
    intro name transaction hmem
    cases hmem
  distinct := fun _ => List.nodup_nil
  justified := throughout_nil

section Steps

variable {past : List Event} {world : World} {table : DatabaseTable} {name : String}
variable {database : Database}

/-- Only calls are added to a database. -/
theorem Numbered.update (hnumbered : Numbered past table)
    (hcalls : (table name).connection.calls ≤ database.connection.calls) :
    Numbered past (Function.update table name database) := by
  intro other transaction hmem
  obtain ⟨number, hnumber, hless⟩ := hnumbered other transaction hmem
  refine ⟨number, hnumber, ?_⟩
  by_cases hname : other = name
  · rw [hname] at hless
    rw [hname, Function.update_self]
    exact hless.trans_le hcalls
  · rw [Function.update_of_ne hname]
    exact hless

theorem Numbered.ran (hnumbered : Numbered past table) {events : List Event}
    (hevents : ∀ event ∈ events, ∃ other through database transaction,
      event = .ran other through database transaction) : Numbered (past ++ events) table := by
  intro name transaction hmem
  rw [filterMap_begunOn_ran name hevents] at hmem
  exact hnumbered name transaction hmem

theorem marked_update (hmarked : Marked (table name) database) (other : String) :
    Marked (table other) (Function.update table name database other) := by
  by_cases hname : other = name
  · rw [hname, Function.update_self]
    exact hmarked
  · rw [Function.update_of_ne hname]
    exact fun hpoisoned => hpoisoned

/-- All databases are settled once the one with the live transaction is. -/
theorem settled_update {own : LiveTransaction}
    (hsettled : ∀ name, (∀ live ∈ [own], live.database ≠ name) → (table name).Settled)
    (hdatabase : database.Settled) (other : String) :
    (Function.update table own.database database other).Settled := by
  by_cases hname : other = own.database
  · rw [hname, Function.update_self]
    exact hdatabase
  · rw [Function.update_of_ne hname]
    apply hsettled
    intro live hlive
    rw [List.mem_singleton.mp hlive]
    exact fun heq => hname heq.symm

theorem settled_elsewhere {own changed : LiveTransaction} (hsame : changed.database = own.database)
    (hsettled : ∀ name, (∀ live ∈ [own], live.database ≠ name) → (table name).Settled)
    (other : String) (hother : ∀ live ∈ [changed], live.database ≠ other) :
    (Function.update table own.database database other).Settled := by
  have hname : own.database ≠ other := by
    rw [← hsame]
    exact hother changed (by simp)
  rw [Function.update_of_ne hname.symm]
  apply hsettled
  intro live hlive
  rw [List.mem_singleton.mp hlive]
  exact hname

/-- What a running world knows of its live transaction. -/
theorem Live.ready (hlive : Live past world) (hrunning : world.failed = false) :
    ∃ number, Ready number world.host.databases.live world.databases ∧
      ∀ own, world.host.databases.live = [own] →
        own.slot ≤ world.host.transactionSlots ∧
        ∀ handle, world.host.resources handle = some own.slot →
          Owns past world.invocation handle own.database number := by
  cases hlive with
  | idle none =>
    refine ⟨0, Or.inl none, ?_⟩
    intro own hone
    rw [none] at hone
    cases hone
  | @running own number one isOpen slot within owned =>
    refine ⟨number, Or.inr ⟨own, one, isOpen, within⟩, ?_⟩
    intro other hother
    rw [one, List.cons.injEq] at hother
    rw [← hother.1]
    exact ⟨slot, owned⟩
  | broken one isOpen failed =>
    rw [hrunning] at failed
    cases failed

/-- The past grows by steps of statements in the transaction of the handle that they were
called on. -/
theorem Invariant.ran (hinvariant : Invariant past world) {handle number : ℕ}
    (howns : Owns past world.invocation handle name number)
    (hwithin : Within number (world.databases name).connection database.connection)
    {events : List Event}
    (hevents : ∀ event ∈ events, event = .ran world.invocation (some handle) name (some number))
    {next : World} (hdatabases : next.databases = Function.update world.databases name database)
    (hlive : Live (past ++ events) next)
    (hsettled : ∀ name, (∀ own ∈ next.host.databases.live, own.database ≠ name) →
      (next.databases name).Settled)
    (hslots : ∀ handle slot, next.host.resources handle = some slot →
      slot ≤ next.host.transactionSlots) : Invariant (past ++ events) next := by
  have hran : ∀ event ∈ events, ∃ other through database transaction,
      event = .ran other through database transaction := by
    intro event hevent
    exact ⟨_, _, _, _, hevents event hevent⟩
  refine ⟨hlive, hsettled, hslots, ?_, ?_, ?_⟩
  · rw [hdatabases]
    exact (hinvariant.numbered.update hwithin.calls).ran hran
  · intro other
    rw [filterMap_begunOn_ran other hran]
    exact hinvariant.distinct other
  · exact justified_append hinvariant.justified howns hevents

/-- A call on a handle keeps the invariant. -/
theorem Invariant.served (hinvariant : Invariant past world)
    {handle number : ℕ} {succeeded : Bool} {next : HostState} {after : DatabaseTable}
    (config : HostConfig)
    (hready : Ready number world.host.databases.live world.databases)
    (hown : ∀ own, world.host.databases.live = [own] →
      own.slot ≤ world.host.transactionSlots ∧
      ∀ handle, world.host.resources handle = some own.slot →
        Owns past world.invocation handle own.database number)
    (hserved : Served handle number world.host world.databases succeeded next after) :
    Invariant
        (past ++ ranEvents config world.invocation (some handle) world.databases after)
        { world with host := next, databases := after, failed := !succeeded } ∧
      ∀ name, Marked (world.databases name) (after name) := by
  obtain ⟨hchange, hresources, hslots⟩ := hserved
  have hbounded : ∀ other slot, next.resources other = some slot →
      slot ≤ next.transactionSlots := by
    intro other slot hfound
    rw [hslots]
    exact hinvariant.slots other slot (hresources other slot hfound)
  have hsame : next.databases.live = world.host.databases.live → after = world.databases →
      Invariant
        (past ++ ranEvents config world.invocation (some handle) world.databases after)
        { world with host := next, databases := after, failed := !succeeded } ∧
      ∀ name, Marked (world.databases name) (after name) := by
    intro hlive htable
    rw [htable, ranEvents_same, List.append_nil]
    refine ⟨⟨?_, ?_, hbounded, hinvariant.numbered, hinvariant.distinct, hinvariant.justified⟩,
      fun _ hpoisoned => hpoisoned⟩
    · rcases hready with hnil | ⟨own, hone, hopen, hin⟩
      · exact .idle (hlive.trans hnil)
      · refine .running (hlive.trans hone) hopen ?_ hin ?_
        · rw [hslots]
          exact (hown own hone).1
        · intro other hother
          exact (hown own hone).2 other (hresources other own.slot hother)
    · intro name hname
      change ∀ own ∈ next.databases.live, own.database ≠ name at hname
      rw [hlive] at hname
      exact hinvariant.settled name hname
  rcases hchange with ⟨hlive, htable⟩ | ⟨slot, hfound, hchange⟩
  · exact hsame hlive htable
  · generalize hnext : next.databases.live = lives at hchange
    have hsettled := hinvariant.settled
    cases hchange with
    | same => exact hsame hnext rfl
    | @operated own transaction database lives mine isOpen held marked =>
      rw [lives] at hsettled
      rw [← mine] at hfound
      have howns := (hown own lives).2 handle hfound
      have hevents := ranEvents_update config world.invocation (some handle) held.2
      refine ⟨hinvariant.ran howns held.2 hevents rfl ?_ ?_ hbounded, marked_update marked⟩
      · have hin : (Function.update world.databases own.database database
            own.database).connection.transaction = some number := by
          rw [Function.update_self]
          exact held.1
        refine .running hnext isOpen ?_ hin ?_
        · rw [hslots]
          exact (hown own lives).1
        · intro other hother
          apply owns_append ((hown own lives).2 other (hresources other own.slot hother))
          intro event hevent
          exact ⟨_, _, _, _, hevents event hevent⟩
      · change ∀ name, (∀ own ∈ next.databases.live, own.database ≠ name) → _
        rw [hnext]
        exact settled_elsewhere rfl hsettled
    | @failed own transaction database lives mine isOpen within marked =>
      rw [lives] at hsettled
      rw [← mine] at hfound
      have howns := (hown own lives).2 handle hfound
      have hevents := ranEvents_update config world.invocation (some handle) within
      refine ⟨hinvariant.ran howns within hevents rfl (.broken hnext isOpen rfl) ?_ hbounded,
        marked_update marked⟩
      change ∀ name, (∀ own ∈ next.databases.live, own.database ≠ name) → _
      rw [hnext]
      exact settled_elsewhere rfl hsettled
    | @closed _ own database lives mine settled within marked =>
      rw [lives] at hsettled
      rw [← mine] at hfound
      have howns := (hown own lives).2 handle hfound
      have hevents := ranEvents_update config world.invocation (some handle) within
      refine ⟨hinvariant.ran howns within hevents rfl (.idle hnext) ?_ hbounded,
        marked_update marked⟩
      intro name _
      exact settled_update hsettled settled name

/-- A transaction with a new number may begin. -/
theorem Numbered.began (hnumbered : Numbered past table) {number : ℕ} (invocation place : ℕ)
    (hfresh : (table name).connection.calls ≤ number)
    (hcalled : number < database.connection.calls) :
    Numbered (past ++ [.began invocation place name (some number)])
      (Function.update table name database) := by
  have hkept := hnumbered.update (hfresh.trans hcalled.le)
  intro other transaction hmem
  rw [List.filterMap_append, List.mem_append] at hmem
  rcases hmem with hold | hnew
  · exact hkept other transaction hold
  · by_cases hname : name = other
    · simp only [List.filterMap_cons, begunOn, if_pos hname, List.filterMap_nil,
        List.mem_singleton] at hnew
      rw [← hname, Function.update_self]
      exact ⟨number, hnew, hcalled⟩
    · simp only [List.filterMap_cons, begunOn, if_neg hname, List.filterMap_nil] at hnew
      cases hnew

theorem Numbered.distinct_began (hnumbered : Numbered past table) {number : ℕ}
    (invocation place : ℕ) (hfresh : (table name).connection.calls ≤ number)
    (other : String) (hdistinct : (past.filterMap (begunOn other)).Nodup) :
    ((past ++ [Event.began invocation place name (some number)]).filterMap
      (begunOn other)).Nodup := by
  rw [List.filterMap_append]
  by_cases hname : name = other
  · simp only [List.filterMap_cons, begunOn, if_pos hname, List.filterMap_nil]
    apply List.nodup_append.mpr
    refine ⟨hdistinct, List.nodup_singleton _, ?_⟩
    intro old hold new hnew heq
    obtain ⟨earlier, hearlier, hless⟩ := hnumbered other old hold
    rw [List.mem_singleton.mp hnew, hearlier, Option.some.injEq] at heq
    rw [← hname] at hless
    omega
  · simp only [List.filterMap_cons, begunOn, if_neg hname, List.filterMap_nil, List.append_nil]
    exact hdistinct

/-- The invariant of a world with no live transaction, after a new one has begun. -/
theorem Invariant.began (hinvariant : Invariant past world)
    (hidle : world.host.databases.live = []) {transaction : Transaction} {number place : ℕ}
    {next : HostState} (hopen : transaction.outcome = none)
    (hfresh : (world.databases name).connection.calls ≤ number)
    (hcalled : number < database.connection.calls)
    (hwithin : database.connection.transaction = some number)
    (hlive : next.databases.live = [⟨name, transaction, world.host.transactionSlots + 1⟩])
    (hslots : next.transactionSlots = world.host.transactionSlots + 1)
    (hresources : next.resources =
      Function.update world.host.resources place (some (world.host.transactionSlots + 1))) :
    Invariant (past ++ [.began world.invocation place name (some number)])
      { world with
        host := next
        databases := Function.update world.databases name database
        failed := false } := by
  have hin : (Function.update world.databases name database name).connection.transaction =
      some number := by
    rw [Function.update_self]
    exact hwithin
  refine ⟨.running hlive hopen hslots.ge hin ?_, ?_, ?_,
    hinvariant.numbered.began _ _ hfresh hcalled, ?_, ?_⟩
  · intro handle hhandle
    change next.resources handle = some (world.host.transactionSlots + 1) at hhandle
    rw [hresources] at hhandle
    by_cases hplace : handle = place
    · rw [hplace]
      exact since_concat.mpr (Or.inl rfl)
    · rw [Function.update_of_ne hplace] at hhandle
      have hbound := hinvariant.slots handle _ hhandle
      omega
  · intro other hother
    change ∀ own ∈ next.databases.live, own.database ≠ other at hother
    rw [hlive] at hother
    have hname : name ≠ other := hother _ (List.mem_singleton_self _)
    change (Function.update world.databases name database other).Settled
    rw [Function.update_of_ne hname.symm]
    apply hinvariant.settled
    rw [hidle]
    intro own hown
    cases hown
  · intro handle slot hfound
    change next.resources handle = some slot at hfound
    change slot ≤ next.transactionSlots
    rw [hresources] at hfound
    rw [hslots]
    by_cases hplace : handle = place
    · rw [hplace, Function.update_self, Option.some.injEq] at hfound
      exact hfound.ge
    · rw [Function.update_of_ne hplace] at hfound
      exact Nat.le_succ_of_le (hinvariant.slots handle slot hfound)
  · intro other
    exact hinvariant.numbered.distinct_began _ _ hfresh other (hinvariant.distinct other)
  · exact hinvariant.justified.concat trivial

/-- A call that gave out no handle keeps the invariant, if it failed or left the live
transactions alone. -/
theorem Invariant.refused (hinvariant : Invariant past world) (hrunning : world.failed = false)
    {slot : ℕ} {outcome : Except RuntimeError Unit} {next : HostState} {after : DatabaseTable}
    (hbeginning : Beginning world.host.databases world.databases name slot outcome
      next.databases.live after)
    (hslots : world.host.transactionSlots ≤ next.transactionSlots)
    (hresources : next.resources = world.host.resources) (failed : Bool)
    (hfailed : failed = true ∨ next.databases.live = world.host.databases.live) :
    Invariant past { world with host := next, databases := after, failed } := by
  have hbounded : ∀ handle slot, next.resources handle = some slot →
      slot ≤ next.transactionSlots := by
    intro handle slot hfound
    rw [hresources] at hfound
    exact (hinvariant.slots handle slot hfound).trans hslots
  generalize hnext : next.databases.live = lives at hbeginning hfailed
  have hsettled := hinvariant.settled
  cases hbeginning with
  | untouched =>
    refine ⟨?_, ?_, hbounded, hinvariant.numbered, hinvariant.distinct, hinvariant.justified⟩
    · obtain ⟨number, hready, hown⟩ := hinvariant.live.ready hrunning
      rcases hready with hnil | ⟨own, hone, hopen, hin⟩
      · exact .idle (hnext.trans hnil)
      · refine .running (hnext.trans hone) hopen ((hown own hone).1.trans hslots) hin ?_
        intro handle hhandle
        change next.resources handle = some own.slot at hhandle
        rw [hresources] at hhandle
        exact (hown own hone).2 handle hhandle
    · change ∀ name, (∀ own ∈ next.databases.live, own.database ≠ name) → _
      rw [hnext]
      exact hsettled
  | @refused _ database lives settled quiet =>
    refine ⟨.idle hnext, ?_, hbounded, hinvariant.numbered.update quiet.1.2, hinvariant.distinct,
      hinvariant.justified⟩
    intro other _
    change (Function.update world.databases name database other).Settled
    by_cases hname : other = name
    · rw [hname, Function.update_self]
      exact settled
    · rw [Function.update_of_ne hname]
      apply hsettled
      rw [lives]
      intro own hown
      cases hown
  | @started transaction database number lives isOpen fresh called within ran healthy =>
    rw [lives] at hfailed
    have hfailed : failed = true := by
      rcases hfailed with hfailed | hsame
      · exact hfailed
      · cases hsame
    refine ⟨.broken hnext isOpen hfailed, ?_, hbounded,
      hinvariant.numbered.update (fresh.trans called.le), hinvariant.distinct,
      hinvariant.justified⟩
    intro other hother
    change ∀ own ∈ next.databases.live, own.database ≠ other at hother
    rw [hnext] at hother
    have hname : name ≠ other := hother _ (List.mem_singleton_self _)
    change (Function.update world.databases name database other).Settled
    rw [Function.update_of_ne hname.symm]
    apply hsettled
    rw [lives]
    intro own hown
    cases hown

/-- A call for a new transaction runs no statement and takes no mark away. -/
theorem InvocationDatabases.Beginning.quiet {owned : InvocationDatabases} {slot : ℕ}
    {outcome : Except RuntimeError Unit} {lives : List LiveTransaction} {after : DatabaseTable}
    (hbeginning : Beginning owned table name slot outcome lives after) (config : HostConfig)
    (invocation : ℕ) :
    ranEvents config invocation none table after = [] ∧
      ∀ other, Marked (table other) (after other) := by
  cases hbeginning with
  | untouched =>
    exact ⟨ranEvents_same config invocation none table, fun _ hpoisoned => hpoisoned⟩
  | refused lives settled quiet =>
    exact ⟨ranEvents_calm config invocation none quiet.1, marked_update quiet.2⟩
  | started lives isOpen fresh called within ran healthy =>
    refine ⟨ranEvents_calm config invocation none ⟨ran, fresh.trans called.le⟩, ?_⟩
    apply marked_update
    intro hpoisoned
    rw [healthy] at hpoisoned
    cases hpoisoned

/-- The end of an invocation keeps the invariant. -/
theorem Invariant.finish (hinvariant : Invariant past world) (config : HostConfig) :
    Invariant (past ++ (world.step config .finish).1) (world.step config .finish).2 ∧
      ∀ name, Marked (world.databases name) ((world.step config .finish).2.databases name) := by
  have hidle : ∀ after : DatabaseTable,
      (world.host.databases.finalizeTransactions world.databases).2.2 = after →
      ranEvents config world.invocation none world.databases after = [] →
      (∀ name, (after name).Settled) → Numbered past after →
      Invariant (past ++ (world.step config .finish).1) (world.step config .finish).2 := by
    intro after hafter hevents hsettled hnumbered
    simp only [World.step, hafter, hevents, List.append_nil]
    refine ⟨.idle rfl, fun name _ => hsettled name, ?_, hnumbered, hinvariant.distinct,
      hinvariant.justified⟩
    intro handle slot hfound
    cases hfound
  have hrolled : ∀ own, world.host.databases.live = [own] → own.transaction.outcome = none →
      Invariant (past ++ (world.step config .finish).1) (world.step config .finish).2 ∧
        ∀ name, Marked (world.databases name)
          ((world.step config .finish).2.databases name) := by
    intro own hone hopen
    have hafter := @finalize_live world.host.databases world.databases own hone hopen
    obtain ⟨habandoned, hquiet, -⟩ := abandon_settles (world.databases own.database) hopen
    have hsettled := hinvariant.settled
    rw [hone] at hsettled
    refine ⟨hidle _ hafter (ranEvents_calm config world.invocation none hquiet.1)
      (settled_update hsettled habandoned) (hinvariant.numbered.update hquiet.1.2), ?_⟩
    simp only [World.step, hafter]
    exact marked_update hquiet.2
  cases hinvariant.live with
  | idle none =>
    have hafter := @finalize_idle world.host.databases world.databases none
    refine ⟨hidle _ hafter (ranEvents_same config world.invocation _ _) ?_ hinvariant.numbered, ?_⟩
    · intro name
      apply hinvariant.settled
      rw [none]
      intro own hown
      cases hown
    · simp only [World.step, hafter]
      exact fun _ hpoisoned => hpoisoned
  | running one isOpen slot within owned => exact hrolled _ one isOpen
  | broken one isOpen failed => exact hrolled _ one isOpen

/-- A call for a new transaction keeps the invariant. -/
theorem Invariant.beginCall (hinvariant : Invariant past world) (hrunning : world.failed = false)
    (config : HostConfig) (mode : TransactionMode) (place : Option ℕ) (cancelled : Bool)
    (bounds : OperationBounds) {result : Except RuntimeError (Except String Answer)}
    {next : HostState} {after : DatabaseTable}
    (hperform : world.host.perform world.databases config (.begin mode name place) cancelled
      bounds = (result, next, after)) :
    Invariant
        (past ++ (ranEvents config world.invocation none world.databases after ++
          beganEvents world.invocation (.begin mode name place) result after))
        { world with host := next, databases := after, failed := !result.isOk } ∧
      ∀ other, Marked (world.databases other) (after other) := by
  have hsettled : world.host.databases.live = [] → (world.databases name).Settled := by
    intro hnil
    apply hinvariant.settled
    rw [hnil]
    intro own hown
    cases hown
  have hbegin := HostState.perform_begin config mode name place cancelled bounds hsettled
  simp only [hperform] at hbegin
  obtain ⟨inner, ⟨hslots, outcome, hbeginning, hslot, hhow⟩, hresult⟩ := hbegin
  obtain ⟨hquiet, hmarked⟩ := hbeginning.quiet config world.invocation
  rw [hquiet, List.nil_append]
  refine ⟨?_, hmarked⟩
  rcases hhow with ⟨herror, hresources⟩ | ⟨given, houtcome, hinner, hresources⟩
  · -- no handle was given out
    have hnone : beganEvents world.invocation (.begin mode name place) result after = [] := by
      rcases hresult with hresult | ⟨message, hresult, -⟩
      · cases inner with
        | ok answer => cases herror
        | error error =>
          rw [hresult]
          rfl
      · rw [hresult]
        rfl
    rw [hnone, List.append_nil]
    apply hinvariant.refused hrunning hbeginning hslots hresources
    rcases hresult with hresult | ⟨message, -, -, hsame, -⟩
    · left
      rw [hresult, HostState.isOk_map, herror]
      rfl
    · right
      rw [hsame]
  · have hanswer : result = .ok (.ok (.handle given)) := by
      rcases hresult with hresult | ⟨message, -, herror, -⟩
      · rw [hresult, hinner]
        rfl
      · rw [hinner] at herror
        cases herror
    rw [hanswer]
    generalize hnext : next.databases.live = lives at hbeginning
    cases hbeginning with
    | untouched => cases houtcome
    | refused lives settled quiet => cases houtcome
    | @started transaction database number lives isOpen fresh called within ran healthy =>
      have hbegan : beganEvents world.invocation (.begin mode name place)
          (.ok (.ok (.handle given))) (Function.update world.databases name database) =
            [.began world.invocation given name (some number)] := by
        simp only [beganEvents, Function.update_self, within]
      rw [hbegan]
      exact hinvariant.began lives isOpen fresh called within hnext (hslot rfl) hresources

/-- A call keeps the invariant. -/
theorem Invariant.call (hinvariant : Invariant past world) (config : HostConfig)
    (operation : Operation) (cancelled : Bool) (bounds : OperationBounds) :
    Invariant (past ++ (world.step config (.call operation cancelled bounds)).1)
        (world.step config (.call operation cancelled bounds)).2 ∧
      ∀ name, Marked (world.databases name)
        ((world.step config (.call operation cancelled bounds)).2.databases name) := by
  cases hrunning : world.failed with
  | true =>
    simp only [World.step, hrunning, if_true, List.append_nil]
    exact ⟨hinvariant, fun _ hpoisoned => hpoisoned⟩
  | false =>
    simp only [World.step, hrunning, Bool.false_eq_true, if_false]
    cases hhandle : operation.handle with
    | some handle =>
      obtain ⟨number, hready, hown⟩ := hinvariant.live.ready hrunning
      have hserved := HostState.perform_served config cancelled bounds hhandle hready
      have hnone : ∀ result after,
          beganEvents world.invocation operation result after = [] := by
        intro result after
        cases operation with
        | begin mode name place => cases hhandle
        | dbQuery handle statement parameters rows => rfl
        | dbExecute handle statement parameters changed => rfl
        | dbCommit handle => rfl
        | dbRollback handle => rfl
        | drop handle => rfl
      rw [hnone, List.append_nil]
      exact hinvariant.served config hready hown hserved
    | none =>
      cases operation with
      | begin mode name place =>
        exact hinvariant.beginCall hrunning config mode place cancelled bounds rfl
      | dbQuery handle statement parameters rows => cases hhandle
      | dbExecute handle statement parameters changed => cases hhandle
      | dbCommit handle => cases hhandle
      | dbRollback handle => cases hhandle
      | drop handle => cases hhandle

/-- Every step keeps the invariant, and no step takes a mark away. -/
theorem Invariant.step (hinvariant : Invariant past world) (config : HostConfig) (step : Step) :
    Invariant (past ++ (world.step config step).1) (world.step config step).2 ∧
      ∀ name, Marked (world.databases name) ((world.step config step).2.databases name) := by
  cases step with
  | call operation cancelled bounds => exact hinvariant.call config operation cancelled bounds
  | finish => exact hinvariant.finish config

end Steps

/-! ## Runs -/

/-- The world after a sequence of steps on databases that were just opened. -/
def runOf (config : HostConfig) (definitions : String → DatabaseDefinition) (steps : List Step) :
    World :=
  run (World.step config) (World.start definitions) steps

/-- What an observer has seen of it. -/
def eventsOf (config : HostConfig) (definitions : String → DatabaseDefinition)
    (steps : List Step) : List Event :=
  (history (World.step config) (World.start definitions) steps).flatMap Prod.snd

section Runs

variable (config : HostConfig) (definitions : String → DatabaseDefinition) (steps : List Step)

theorem runOf_invariant :
    Invariant (eventsOf config definitions steps) (runOf config definitions steps) := by
  have hrun := invariant (World.step config)
    (motive := fun past world => Invariant (past.flatMap Prod.snd) world)
    (invariant_start definitions)
    (by
      intro past world step hinvariant
      rw [List.flatMap_append, List.flatMap_singleton]
      exact (hinvariant.step config step).1)
    steps
  exact hrun

/-- A mark stays for the rest of the run. -/
theorem poisoned_run (more : List Step) (name : String)
    (hpoisoned : ((runOf config definitions steps).databases name).poisoned = true) :
    ((runOf config definitions (steps ++ more)).databases name).poisoned = true := by
  induction more using List.reverseRecOn with
  | nil => rwa [List.append_nil]
  | append_singleton more step ih =>
    have hinvariant := runOf_invariant config definitions (steps ++ more)
    rw [← List.append_assoc]
    unfold runOf at ih ⊢
    rw [run_append]
    exact (hinvariant.step config step).2 name ih

/-- A marked database refuses every transaction. -/
theorem begin_poisoned {database : Database} (hpoisoned : database.poisoned = true)
    (mode : TransactionMode) (bounds : OperationBounds) :
    ∃ error, database.begin mode bounds = (.error error, database) := by
  unfold Database.begin
  split
  · exact ⟨_, rfl⟩
  · have hrefused : database.requireHealthy = .error ⟨.connection,
        "application database connection is poisoned and refuses new transactions"⟩ := by
      rw [requireHealthy, hpoisoned]
      rfl
    rw [hrefused]
    exact ⟨_, rfl⟩

/-- Database transactions never leak.  In every run of invocations on the databases of a
host: at most one transaction is live, and a connection is in a transaction only for it;
statements run in the transaction that their own handle began, which no other handle began;
the end of an invocation leaves every database out of transactions or unusable; and a
database that is unusable refuses every later transaction. -/
theorem transactions_never_leak :
    (runOf config definitions steps).host.databases.live.length ≤ 1 ∧
    (∀ name number,
      ((runOf config definitions steps).databases name).connection.transaction = some number →
      ((runOf config definitions steps).databases name).poisoned = true ∨
        ∃ own ∈ (runOf config definitions steps).host.databases.live, own.database = name) ∧
    Throughout Justified (eventsOf config definitions steps) ∧
    (∀ name, ((eventsOf config definitions steps).filterMap (begunOn name)).Nodup) ∧
    (∀ name,
      ((runOf config definitions (steps ++ [.finish])).databases name).connection.isAutocommit =
          true ∨
        ((runOf config definitions (steps ++ [.finish])).databases name).poisoned = true) ∧
    ∀ name, ((runOf config definitions steps).databases name).poisoned = true →
      ∀ more mode bounds, ∃ error,
        (((runOf config definitions (steps ++ more)).databases name).begin mode bounds).1 =
          .error error := by
  have hinvariant := runOf_invariant config definitions steps
  refine ⟨?_, ?_, hinvariant.justified, hinvariant.distinct, ?_, ?_⟩
  · cases hinvariant.live with
    | idle none => simp [none]
    | running one isOpen slot within owned => simp [one]
    | broken one isOpen failed => simp [one]
  · intro name number hin
    by_contra hneither
    push Not at hneither
    have hsettled := hinvariant.settled name hneither.2
    rcases hsettled with hnone | hpoisoned
    · rw [hin] at hnone
      cases hnone
    · exact hneither.1 hpoisoned
  · intro name
    have hfinished := runOf_invariant config definitions (steps ++ [.finish])
    have hidle : (runOf config definitions (steps ++ [.finish])).host.databases.live = [] := by
      unfold runOf
      rw [run_append]
      rfl
    have hsettled := hfinished.settled name (by simp [hidle])
    rcases hsettled with hnone | hpoisoned
    · left
      rw [Connection.isAutocommit, hnone]
      rfl
    · exact Or.inr hpoisoned
  · intro name hpoisoned more mode bounds
    have hstill := poisoned_run config definitions steps more name hpoisoned
    obtain ⟨error, hrefused⟩ := begin_poisoned hstill mode bounds
    exact ⟨error, by rw [hrefused]⟩

end Runs

/-- A database with one statement, on which SQLite answers the tenth call with a failure
that unwinds the transaction. -/
def sampleDefinition : DatabaseDefinition :=
  { mode := .readWrite
    limits :=
      { maxDatabaseBytes := 65536
        maxTransactionDuration := 100
        maxOperationsPerTransaction := 4
        maxParameterBytes := 64
        maxRows := 8
        maxResultBytes := 1024 }
    statements := [("touch", { kind := .execute, parameters := [], columns := [] })]
    replies := fun call => if call = 10 then .failed .diskFull true else .ok }

def sampleConfig : HostConfig :=
  { catalog := { names := ["app"], maxTransactionsPerInvocation := 8 }
    granted := fun _ _ => true
    hostCallLimit := 100 }

def sampleBounds : OperationBounds :=
  { now := 0, installedAt := 0, diskBytes := 0, cancelled := false, invocationDeadline := 1000 }

-- the second statement fails out of the transaction, and the third does not run
example :
    eventsOf sampleConfig (fun _ => sampleDefinition)
      [.call (.begin .write "app" (some 3)) false sampleBounds,
        .call (.dbExecute 3 "touch" [] 1) false sampleBounds,
        .call (.dbExecute 3 "touch" [] 1) false sampleBounds,
        .call (.dbExecute 3 "touch" [] 1) false sampleBounds,
        .finish] =
      [.began 0 3 "app" (some 2), .ran 0 (some 3) "app" (some 2),
        .ran 0 (some 3) "app" (some 2)] := by
  decide +kernel

end Krit.Databases
