import Krit.Database

/-!
# What the operations of a transaction do to the connection

While a handle is open its connection is in the transaction that the handle began.  A
conversation that fails may have lost that transaction; the operation that fails then
ends the handle, or leaves the rest to the end of the invocation.
-/

namespace Krit.Databases

open Std.Do

set_option mvcgen.warning false

/-! ## Conversations -/

/-- What came after `start` on a connection that is used for one transaction only: its
statements ran in that transaction. -/
structure Within (number : ℕ) (start connection : Connection) : Prop where
  ran : ∃ steps, connection.ran = start.ran ++ steps ∧ ∀ step ∈ steps, step = some number
  calls : start.calls ≤ connection.calls

/-- The connection is in the transaction. -/
def Held (number : ℕ) (start connection : Connection) : Prop :=
  connection.transaction = some number ∧ Within number start connection

/-- The connection is in the transaction, or out of it after a failure. -/
def Loose (number : ℕ) (start connection : Connection) : Prop :=
  (connection.transaction = some number ∨ connection.transaction = none) ∧
    Within number start connection

/-- No statement has run. -/
def Calm (start connection : Connection) : Prop :=
  connection.ran = start.ran ∧ start.calls ≤ connection.calls

/-- The connection is out of every transaction, and no statement has run. -/
def Idle (start connection : Connection) : Prop :=
  connection.transaction = none ∧ Calm start connection

/-- A conversation that keeps a property of the connection as long as it succeeds. -/
def Keeps {α : Type} (kept failed : Connection → Prop) (session : Session α) : Prop :=
  ⦃fun connection => ⌜kept connection⌝⦄ session
  ⦃post⟨fun _ connection => ⌜kept connection⌝, fun _ connection => ⌜failed connection⌝⟩⦄

theorem Held.loose {number : ℕ} {start connection : Connection}
    (hheld : Held number start connection) : Loose number start connection :=
  ⟨Or.inl hheld.1, hheld.2⟩

/-- The connection after a call that succeeds and does nothing to the transaction. -/
def Connection.called (connection : Connection) : Connection :=
  { connection with calls := connection.calls + 1 }

/-- The connection after a call that fails. -/
def Connection.refused (connection : Connection) (rolledBack : Bool) : Connection :=
  { connection with
    calls := connection.calls + 1
    transaction := if rolledBack then none else connection.transaction }

theorem Held.called {number : ℕ} {start connection : Connection}
    (hheld : Held number start connection) : Held number start connection.called :=
  ⟨hheld.1, hheld.2.ran, Nat.le_succ_of_le hheld.2.calls⟩

theorem Held.refused {number : ℕ} {start connection : Connection}
    (hheld : Held number start connection) (rolledBack : Bool) :
    Loose number start (connection.refused rolledBack) := by
  refine ⟨?_, hheld.2.ran, Nat.le_succ_of_le hheld.2.calls⟩
  cases rolledBack with
  | true => exact Or.inr rfl
  | false => exact Or.inl hheld.1

theorem Calm.called {start connection : Connection} (hcalm : Calm start connection) :
    Calm start connection.called :=
  ⟨hcalm.1, Nat.le_succ_of_le hcalm.2⟩

theorem Calm.refused {start connection : Connection} (hcalm : Calm start connection)
    (rolledBack : Bool) : Calm start (connection.refused rolledBack) :=
  ⟨hcalm.1, Nat.le_succ_of_le hcalm.2⟩

theorem Idle.refused {start connection : Connection} (hidle : Idle start connection)
    (rolledBack : Bool) : Idle start (connection.refused rolledBack) := by
  refine ⟨?_, hidle.2.refused rolledBack⟩
  cases rolledBack with
  | true => rfl
  | false => exact hidle.1

/-- A call keeps what does not depend on the number of calls, and may fail out of the
transaction. -/
theorem keeps_call {kept failed : Connection → Prop}
    (hok : ∀ connection, kept connection → kept connection.called)
    (hfailed : ∀ connection rolledBack, kept connection →
      failed (connection.refused rolledBack)) : Keeps kept failed call := by
  unfold Keeps
  mvcgen [call, request]
  case vc1 connection hkept _ => exact hok connection hkept
  case vc2 connection hkept _ rolledBack _ => exact hfailed connection rolledBack hkept

theorem keeps_call_held (number : ℕ) (start : Connection) :
    Keeps (Held number start) (Loose number start) call :=
  keeps_call (fun _ hheld => hheld.called) fun _ rolledBack hheld => hheld.refused rolledBack

theorem keeps_call_calm (start : Connection) : Keeps (Calm start) (Calm start) call :=
  keeps_call (fun _ hcalm => hcalm.called) fun _ rolledBack hcalm => hcalm.refused rolledBack

theorem keeps_call_idle (start : Connection) : Keeps (Idle start) (Idle start) call :=
  keeps_call (fun _ hidle => ⟨hidle.1, hidle.2.called⟩)
    fun _ rolledBack hidle => hidle.refused rolledBack

section Keeps

variable {kept failed : Connection → Prop}

theorem keeps_ofExcept {α : Type} (hweaker : ∀ connection, kept connection → failed connection)
    (result : Except DatabaseError α) : Keeps kept failed (ofExcept result) := by
  unfold Keeps
  cases result with
  | ok value => mvcgen [ofExcept]
  | error error =>
    mvcgen [ofExcept]
    case vc1 connection hkept => exact hweaker connection hkept

theorem keeps_install (hcall : Keeps kept failed call)
    (hweaker : ∀ connection, kept connection → failed connection) (deadline : ℕ)
    (bounds : OperationBounds) : Keeps kept failed (install deadline bounds) := by
  have hspec := hcall
  unfold Keeps at hspec ⊢
  mvcgen [install, hspec]
  all_goals exact hweaker _ ‹_›

theorem keeps_checkpointAndVerify (hcall : Keeps kept failed call)
    (hweaker : ∀ connection, kept connection → failed connection) (mode : DatabaseMode)
    (limits : DatabaseLimits) (bounds : OperationBounds) :
    Keeps kept failed (checkpointAndVerify mode limits bounds) := by
  have hspec := hcall
  have hcheck := keeps_ofExcept hweaker (requireDiskBudget limits bounds)
  unfold Keeps at hspec hcheck ⊢
  mvcgen [checkpointAndVerify, hspec, hcheck]

end Keeps

/-! ## Statements inside a transaction -/

section Statements

variable {kept failed : Connection → Prop}

theorem keeps_bindAll (hcall : Keeps kept failed call) (values : List SqliteValue) :
    Keeps kept failed (bindAll values) := by
  have hspec := hcall
  unfold Keeps at hspec ⊢
  induction values with
  | nil => mvcgen [bindAll]
  | cons value rest ih => mvcgen [bindAll, hspec, ih]

theorem keeps_fetchRows (hstep : Keeps kept failed stepStatement)
    (hweaker : ∀ connection, kept connection → failed connection) (columns : ℕ)
    (encoder : RowEncoder) (rows : List (List ColumnValue)) :
    Keeps kept failed (fetchRows columns encoder rows) := by
  have hspec := hstep
  unfold Keeps at hspec ⊢
  induction rows generalizing encoder with
  | nil => mvcgen [fetchRows, hspec]
  | cons row rest ih =>
    have hrow := keeps_ofExcept hweaker (encoder.pushRow columns row)
    unfold Keeps at hrow
    mvcgen [fetchRows, hspec, hrow, ih]

theorem keeps_runQuery (hcall : Keeps kept failed call)
    (hstep : Keeps kept failed stepStatement)
    (hweaker : ∀ connection, kept connection → failed connection) (limits : DatabaseLimits)
    (definition : StatementDefinition) (values : List SqliteValue)
    (rows : List (List ColumnValue)) :
    Keeps kept failed (runQuery limits definition values rows) := by
  have hspec := hcall
  have hbind := keeps_bindAll hcall values
  have hnew := keeps_ofExcept hweaker
    (RowEncoder.new definition.columns limits.maxResultBytes limits.maxRows)
  have hfetch := fun encoder =>
    keeps_fetchRows hstep hweaker definition.columns.length encoder rows
  have hfinish := fun encoder : RowEncoder => keeps_ofExcept hweaker encoder.finish
  unfold Keeps at hspec hbind hnew hfetch hfinish ⊢
  mvcgen [runQuery, hspec, hbind, hnew, hfetch, hfinish]

/-- A statement that changes rows, after which the files are measured. -/
theorem keeps_executeSession (hcall : Keeps kept failed call)
    (hstep : Keeps kept failed stepStatement)
    (hweaker : ∀ connection, kept connection → failed connection) (limits : DatabaseLimits)
    (bounds : OperationBounds) (values : List SqliteValue) (changed : ℕ) :
    Keeps kept failed (do
      let changed ← runExecute values changed
      ofExcept (requireDiskBudget limits bounds)
      pure changed) := by
  have hspec := hcall
  have hbind := keeps_bindAll hcall values
  have hrow := hstep
  have hcount := keeps_ofExcept hweaker
    (Result.ofOption ⟨.limit, "database affected-row count exceeds i64"⟩ (i64TryFrom changed))
  have hbudget := keeps_ofExcept hweaker (requireDiskBudget limits bounds)
  unfold Keeps at hspec hbind hrow hcount hbudget ⊢
  mvcgen [runExecute, hspec, hbind, hrow, hcount, hbudget]

end Statements

theorem held_weaker (number : ℕ) (start connection : Connection)
    (hheld : Held number start connection) : Loose number start connection :=
  hheld.loose

/-- A step of a statement is one more statement inside the transaction. -/
theorem keeps_stepStatement_held (number : ℕ) (start : Connection) :
    Keeps (Held number start) (Loose number start) stepStatement := by
  have hcall := keeps_call_held number start
  unfold Keeps at hcall ⊢
  mvcgen [stepStatement, hcall]
  case vc1 connection hheld _ =>
    obtain ⟨hin, ⟨steps, hran, hsteps⟩, hcalls⟩ := hheld
    refine ⟨hin, ⟨steps ++ [some number], ?_, ?_⟩, hcalls⟩
    · change connection.ran ++ [connection.transaction] = _
      rw [hran, hin, List.append_assoc]
    · intro step hstep
      rcases List.mem_append.mp hstep with hearly | hlast
      · exact hsteps step hearly
      · exact List.mem_singleton.mp hlast

/-! ## The ends of a transaction -/

/-- `BEGIN` starts a transaction that no earlier call has named. -/
theorem beginBatch_spec (start : Connection) :
    ⦃fun connection => ⌜Idle start connection⌝⦄ beginBatch
    ⦃post⟨fun _ connection => ⌜∃ number, start.calls ≤ number ∧ number < connection.calls ∧
        connection.transaction = some number ∧ connection.ran = start.ran⌝,
      fun _ connection => ⌜Idle start connection⌝⟩⦄ := by
  mvcgen [beginBatch, request]
  case vc1 connection hidle _ _ =>
    exact ⟨connection.calls, hidle.2.2, Nat.lt_succ_self _, rfl, hidle.2.1⟩
  case vc2 connection hidle _ _ rolledBack _ => exact hidle.refused rolledBack

/-- A call that ends the transaction leaves every transaction, or fails. -/
def Leaves (session : Session Unit) : Prop :=
  ∀ start : Connection, ⦃fun connection => ⌜Calm start connection⌝⦄ session
    ⦃post⟨fun _ connection => ⌜Idle start connection⌝,
      fun _ connection => ⌜Calm start connection⌝⟩⦄

theorem endBatch_leaves {effect : Connection → Connection}
    (hnone : ∀ connection, (effect connection).transaction = none)
    (hran : ∀ connection, (effect connection).ran = connection.ran) :
    Leaves (endBatch effect) := by
  intro start
  mvcgen [endBatch, request]
  case vc2 connection hcalm _ _ =>
    exact ⟨hnone connection, (hran connection).trans hcalm.1, Nat.le_succ_of_le hcalm.2⟩
  case vc3 connection hcalm _ _ rolledBack _ => exact hcalm.refused rolledBack

theorem commitBatch_leaves : Leaves commitBatch :=
  endBatch_leaves (fun _ => rfl) fun _ => rfl

theorem rollbackBatch_leaves : Leaves rollbackBatch :=
  endBatch_leaves (fun _ => rfl) fun _ => rfl

/-- How a conversation ended: what holds then, after an answer or after a failure. -/
def Ends {α : Type} (after : α → Connection → Prop) (failed : Connection → Prop) :
    Except DatabaseError α × Connection → Prop
  | (.ok value, connection) => after value connection
  | (.error _, connection) => failed connection

/-- What a conversation does, from its triple. -/
theorem ends_of_triple {α : Type} {session : Session α} {before : Connection → Prop}
    {after : α → Connection → Prop} {failed : Connection → Prop}
    (hspec : ⦃fun connection => ⌜before connection⌝⦄ session
      ⦃post⟨fun value connection => ⌜after value connection⌝,
        fun _ connection => ⌜failed connection⌝⟩⦄)
    {connection : Connection} (hbefore : before connection) :
    Ends after failed (session connection) := by
  have hrun := hspec connection hbefore
  cases hsession : session connection with
  | mk result next =>
    have hsame : (session.run.run connection).run = (result, next) := hsession
    simp only [WP.wp, PredTrans.apply_pushExcept, PredTrans.apply_pushArg, hsame] at hrun
    cases result with
    | ok value => exact hrun
    | error error => exact hrun

/-! ## Operations -/

namespace Database

/-- Out of every transaction, or marked unusable. -/
def Settled (database : Database) : Prop :=
  database.connection.transaction = none ∨ database.poisoned = true

/-- The mark is never taken away. -/
def Marked (before after : Database) : Prop := before.poisoned = true → after.poisoned = true

/-- An operation that runs no statement. -/
def Quiet (before after : Database) : Prop :=
  Calm before.connection after.connection ∧ Marked before after

variable {database next : Database}

theorem quiet_refl (database : Database) : Quiet database database :=
  ⟨⟨rfl, le_rfl⟩, fun hpoisoned => hpoisoned⟩

theorem Quiet.trans {first second third : Database} (hfirst : Quiet first second)
    (hsecond : Quiet second third) : Quiet first third :=
  ⟨⟨hsecond.1.1.trans hfirst.1.1, hfirst.1.2.trans hsecond.1.2⟩,
    fun hpoisoned => hsecond.2 (hfirst.2 hpoisoned)⟩

/-- A conversation on the connection of a database. -/
theorem talk_of_triple {α : Type} {session : Session α} {before : Connection → Prop}
    {after : α → Connection → Prop} {failed : Connection → Prop}
    (hspec : ⦃fun connection => ⌜before connection⌝⦄ session
      ⦃post⟨fun value connection => ⌜after value connection⌝,
        fun _ connection => ⌜failed connection⌝⟩⦄)
    (hbefore : before database.connection) {result : Except DatabaseError α}
    (htalk : database.talk session = (result, next)) :
    next.poisoned = database.poisoned ∧ Ends after failed (result, next.connection) := by
  have hrun := ends_of_triple hspec hbefore
  unfold talk at htalk
  rw [Prod.mk.injEq] at htalk
  rw [← htalk.1, ← htalk.2]
  exact ⟨rfl, hrun⟩

/-- `ROLLBACK` settles a database, whatever state it is in. -/
theorem undo_settles {result : Except DatabaseError Unit}
    (hundo : database.undo = (result, next)) : next.Settled ∧ Quiet database next := by
  unfold undo at hundo
  cases htalk : database.talk rollbackBatch with
  | mk answer talked =>
    have hspec := talk_of_triple (rollbackBatch_leaves database.connection)
      ⟨rfl, le_rfl⟩ htalk
    rw [htalk] at hundo
    cases answer with
    | ok value =>
      rw [Prod.mk.injEq] at hundo
      rw [← hundo.2]
      refine ⟨Or.inl hspec.2.1, hspec.2.2, ?_⟩
      intro hpoisoned
      rw [hspec.1, hpoisoned]
    | error error =>
      rw [Prod.mk.injEq] at hundo
      rw [← hundo.2]
      exact ⟨Or.inr rfl, hspec.2, fun _ => rfl⟩

theorem rollbackNow_settles {result : Except DatabaseError Unit}
    (hrollback : database.rollbackNow = (result, next)) :
    next.Settled ∧ Quiet database next := by
  unfold rollbackNow at hrollback
  by_cases hauto : database.connection.isAutocommit
  · rw [if_pos hauto, Prod.mk.injEq] at hrollback
    rw [← hrollback.2]
    exact ⟨Or.inl (Option.isNone_iff_eq_none.mp hauto), quiet_refl database⟩
  · rw [if_neg hauto] at hrollback
    exact undo_settles hrollback

/-- The rollback of a handle that is open ends it and settles its database. -/
theorem abandon_settles (database : Database) {transaction : Transaction}
    (hopen : transaction.outcome = none) :
    (database.abandon transaction).2.2.Settled ∧
      Quiet database (database.abandon transaction).2.2 ∧
      (database.abandon transaction).2.1.isCompleted = true := by
  have hrequire : transaction.requireOpen = .ok () := by
    rw [Transaction.requireOpen, Transaction.isCompleted, hopen]
    rfl
  unfold abandon rollback
  rw [Transaction.isCompleted, hopen, if_neg (by simp), if_neg (by simp), hrequire]
  have hsettled := @rollbackNow_settles database database.rollbackNow.2 _ rfl
  exact ⟨hsettled.1, hsettled.2, rfl⟩

theorem rollback_eq_abandon (database : Database) {transaction : Transaction}
    (hopen : transaction.outcome = none) :
    database.rollback transaction = database.abandon transaction := by
  unfold abandon
  rw [Transaction.isCompleted, hopen, if_neg (by simp)]

/-- What a refused `BEGIN` or a successful one leaves. -/
inductive Begun (database : Database) : Except DatabaseError Transaction → Database → Prop
  | refused {error : DatabaseError} {next : Database} (settled : next.Settled)
      (quiet : Quiet database next) : Begun database (.error error) next
  | started {transaction : Transaction} {next : Database} {number : ℕ}
      (isOpen : transaction.outcome = none) (fresh : database.connection.calls ≤ number)
      (called : number < next.connection.calls)
      (within : next.connection.transaction = some number)
      (ran : next.connection.ran = database.connection.ran)
      (healthy : database.poisoned = false) : Begun database (.ok transaction) next

theorem beginSession_spec (start : Connection) (deadline : ℕ) (bounds : OperationBounds) :
    ⦃fun connection => ⌜Idle start connection⌝⦄
    (do install deadline bounds; beginBatch : Session Unit)
    ⦃post⟨fun _ connection => ⌜∃ number, start.calls ≤ number ∧ number < connection.calls ∧
        connection.transaction = some number ∧ connection.ran = start.ran⌝,
      fun _ connection => ⌜Idle start connection⌝⟩⦄ := by
  have hinstall := keeps_install (keeps_call_idle start) (fun _ hidle => hidle) deadline bounds
  have hbegin := beginBatch_spec start
  unfold Keeps at hinstall
  mvcgen [hinstall, hbegin]

theorem begin_spec (mode : TransactionMode) (bounds : OperationBounds)
    (hsettled : database.Settled) :
    Begun database (database.begin mode bounds).1 (database.begin mode bounds).2 := by
  unfold begin
  split
  · exact .refused hsettled (quiet_refl database)
  · cases hhealthy : database.requireHealthy with
    | error error => exact .refused hsettled (quiet_refl database)
    | ok value =>
      have hpoisoned : database.poisoned = false := by
        rw [requireHealthy, Result.ensure_eq_ok] at hhealthy
        simpa using hhealthy
      have hnone : database.connection.transaction = none := by
        rcases hsettled with hnone | hmarked
        · exact hnone
        · rw [hpoisoned] at hmarked
          cases hmarked
      simp only []
      split
      · exact .refused hsettled (quiet_refl database)
      · split
        · exact .refused (Or.inr rfl) ⟨⟨rfl, le_rfl⟩, fun _ => rfl⟩
        · cases htalk : database.talk (do
            install (bounds.now + database.limits.maxTransactionDuration) bounds
            beginBatch) with
          | mk answer talked =>
            have hspec := talk_of_triple (beginSession_spec database.connection _ bounds)
              ⟨hnone, rfl, le_rfl⟩ htalk
            cases answer with
            | error error =>
              refine .refused (Or.inl hspec.2.1) ⟨hspec.2.2, ?_⟩
              intro hmarked
              rw [hspec.1, hmarked]
            | ok value =>
              obtain ⟨number, hfresh, hcalled, hwithin, hran⟩ := hspec.2
              exact .started rfl hfresh hcalled hwithin hran hpoisoned

/-- What a statement leaves: the handle in its transaction, an error with the handle as it
was, or a handle that has ended. -/
inductive Operated {α : Type} (number : ℕ) (database : Database) :
    Except DatabaseError α → Transaction → Database → Prop
  | done {value : α} {transaction : Transaction} {next : Database}
      (isOpen : transaction.outcome = none)
      (held : Held number database.connection next.connection)
      (marked : Marked database next) : Operated number database (.ok value) transaction next
  | failed {error : DatabaseError} {transaction : Transaction} {next : Database}
      (isOpen : transaction.outcome = none)
      (within : Within number database.connection next.connection)
      (marked : Marked database next) : Operated number database (.error error) transaction next
  | ended {error : DatabaseError} {transaction : Transaction} {next : Database}
      (completed : transaction.isCompleted = true) (settled : next.Settled)
      (within : Within number database.connection next.connection)
      (marked : Marked database next) : Operated number database (.error error) transaction next

theorem Within.refl (number : ℕ) (connection : Connection) :
    Within number connection connection :=
  ⟨⟨[], by simp⟩, le_rfl⟩

theorem Within.calm {number : ℕ} {start connection next : Connection}
    (hwithin : Within number start connection) (hcalm : Calm connection next) :
    Within number start next := by
  refine ⟨?_, hwithin.calls.trans hcalm.2⟩
  rw [hcalm.1]
  exact hwithin.ran

/-- The end of an operation: an interruption unwinds the transaction. -/
theorem finishOperation_spec {α : Type} {number : ℕ} {start : Database}
    {transaction : Transaction} {outcome : Except DatabaseError α}
    (hopen : transaction.outcome = none) (hmarked : Marked start database)
    (hends : Ends (fun _ => Held number start.connection) (Loose number start.connection)
      (outcome, database.connection)) :
    Operated number start (database.finishOperation transaction outcome).1
      (database.finishOperation transaction outcome).2.1
      (database.finishOperation transaction outcome).2.2 := by
  unfold finishOperation
  cases outcome with
  | ok value => exact .done hopen hends hmarked
  | error error =>
    simp only []
    split
    · cases hrollback : database.rollbackNow with
      | mk undone next =>
        obtain ⟨hsettled, hcalm, hkept⟩ := rollbackNow_settles hrollback
        have hwithin := Within.calm hends.2 hcalm
        have hmarks : Marked start next := fun hpoisoned => hkept (hmarked hpoisoned)
        cases undone with
        | ok value => exact .ended rfl hsettled hwithin hmarks
        | error failure => exact .ended rfl hsettled hwithin hmarks
    · exact .failed hopen hends.2 hmarked

theorem prepareOperation_outcome (database : Database) (transaction : Transaction)
    (statement : String) (expected : StatementKind) (bounds : OperationBounds) :
    (database.prepareOperation transaction statement expected bounds).2.outcome =
      transaction.outcome := by
  unfold prepareOperation
  simp only []
  split
  · rfl
  · next recorded hrecorded =>
    simp only [Result.bind_eq_ok, Transaction.recordOperation, Result.pure_eq_ok] at hrecorded
    obtain ⟨_, _, _, _, _, _, _, _, _, _, hsame⟩ := hrecorded
    rw [← hsame]

/-- A statement runs in the transaction of its handle only. -/
theorem runStatement_spec {α : Type} {number : ℕ} {transaction : Transaction}
    (statement : String) (expected : StatementKind) (parameters : List String)
    (bounds : OperationBounds) {session : StatementDefinition → List SqliteValue → Session α}
    (hopen : transaction.outcome = none)
    (hin : database.connection.transaction = some number)
    (hsession : ∀ definition values start,
      Keeps (Held number start) (Loose number start) (session definition values)) :
    Operated number database
      (database.runStatement transaction statement expected parameters bounds session).1
      (database.runStatement transaction statement expected parameters bounds session).2.1
      (database.runStatement transaction statement expected parameters bounds session).2.2 := by
  have hheld : Held number database.connection database.connection :=
    ⟨hin, Within.refl number database.connection⟩
  have houtcome := prepareOperation_outcome database transaction statement expected bounds
  unfold runStatement
  cases hprepared : database.prepareOperation transaction statement expected bounds with
  | mk prepared recorded =>
    rw [hprepared] at houtcome
    have hrecorded : recorded.outcome = none := houtcome.trans hopen
    simp only []
    split
    · exact .failed hrecorded hheld.2 fun hpoisoned => hpoisoned
    · next definition values hbound =>
      cases hinstall : database.talk (install recorded.deadline bounds) with
      | mk answer installed =>
        have hspec := talk_of_triple
          (keeps_install (keeps_call_held number database.connection)
            (held_weaker number database.connection) recorded.deadline bounds) hheld hinstall
        have hmarked : Marked database installed := by
          intro hpoisoned
          rw [hspec.1, hpoisoned]
        cases answer with
        | error error => exact .failed hrecorded hspec.2.2 hmarked
        | ok value =>
          simp only []
          cases htalk : installed.talk (session definition values) with
          | mk outcome talked =>
            have hran := talk_of_triple
              (hsession definition values database.connection) hspec.2 htalk
            apply finishOperation_spec hrecorded _ hran.2
            intro hpoisoned
            rw [hran.1]
            exact hmarked hpoisoned

theorem query_spec {number : ℕ} {transaction : Transaction} (statement : String)
    (parameters : List String) (bounds : OperationBounds) (rows : List (List ColumnValue))
    (hopen : transaction.outcome = none)
    (hin : database.connection.transaction = some number) :
    Operated number database (database.query transaction statement parameters bounds rows).1
      (database.query transaction statement parameters bounds rows).2.1
      (database.query transaction statement parameters bounds rows).2.2 := by
  unfold query
  apply runStatement_spec _ _ _ _ hopen hin
  intro definition values start
  exact keeps_runQuery (keeps_call_held number start) (keeps_stepStatement_held number start)
    (held_weaker number start) database.limits definition values rows

theorem execute_spec {number : ℕ} {transaction : Transaction} (statement : String)
    (parameters : List String) (bounds : OperationBounds) (changed : ℕ)
    (hopen : transaction.outcome = none)
    (hin : database.connection.transaction = some number) :
    Operated number database (database.execute transaction statement parameters bounds changed).1
      (database.execute transaction statement parameters bounds changed).2.1
      (database.execute transaction statement parameters bounds changed).2.2 := by
  unfold execute
  split
  · exact .failed hopen (Within.refl number database.connection) fun hpoisoned => hpoisoned
  · apply runStatement_spec _ _ _ _ hopen hin
    intro definition values start
    exact keeps_executeSession (keeps_call_held number start)
      (keeps_stepStatement_held number start) (held_weaker number start) database.limits bounds
      values changed

theorem publish_settles (database : Database) (bounds : OperationBounds) :
    (database.publish bounds).2.Settled ∧ Quiet database (database.publish bounds).2 := by
  unfold publish
  cases htalk : database.talk commitBatch with
  | mk answer talked =>
    have hspec := talk_of_triple (commitBatch_leaves database.connection)
      ⟨rfl, le_rfl⟩ htalk
    have hmarked : Marked database talked := by
      intro hpoisoned
      rw [hspec.1, hpoisoned]
    cases answer with
    | ok value =>
      simp only []
      cases hverify : talked.talk (checkpointAndVerify talked.mode talked.limits bounds) with
      | mk verified next =>
        have hidle := talk_of_triple
          (keeps_checkpointAndVerify (keeps_call_idle database.connection) (fun _ hidle => hidle)
            talked.mode talked.limits bounds) hspec.2 hverify
        have hnext : Idle database.connection next.connection := by
          cases verified with
          | ok value => exact hidle.2
          | error error => exact hidle.2
        refine ⟨Or.inl hnext.1, hnext.2, ?_⟩
        intro hpoisoned
        rw [hidle.1]
        exact hmarked hpoisoned
    | error error =>
      simp only []
      cases hundo : talked.undo with
      | mk undone next =>
        obtain ⟨hsettled, hquiet⟩ := undo_settles hundo
        have hboth : next.Settled ∧ Quiet database next :=
          ⟨hsettled, Quiet.trans ⟨hspec.2, hmarked⟩ hquiet⟩
        cases undone with
        | ok value => exact hboth
        | error failure => exact hboth

/-- A commit settles the database and ends the handle, or fails before it has begun. -/
theorem commit_spec {transaction : Transaction} (bounds : OperationBounds)
    (hopen : transaction.outcome = none) :
    Quiet database (database.commit transaction bounds).2.2 ∧
      ((database.commit transaction bounds).2.1.isCompleted = true ∧
          (database.commit transaction bounds).2.2.Settled ∨
        (database.commit transaction bounds).2.1.outcome = none) := by
  unfold commit
  simp only []
  split
  · exact ⟨quiet_refl database, Or.inr hopen⟩
  · cases hinstall : database.talk (install transaction.deadline bounds) with
    | mk answer installed =>
      have hspec := talk_of_triple
        (keeps_install (keeps_call_calm database.connection) (fun _ hcalm => hcalm)
          transaction.deadline bounds) ⟨rfl, le_rfl⟩ hinstall
      have hmarked : Marked database installed := by
        intro hpoisoned
        rw [hspec.1, hpoisoned]
      cases answer with
      | error error => exact ⟨⟨hspec.2, hmarked⟩, Or.inr hopen⟩
      | ok value =>
        simp only []
        have hpublish := publish_settles installed bounds
        cases hresult : installed.publish bounds with
        | mk outcome next =>
          rw [hresult] at hpublish
          have hquiet := Quiet.trans ⟨hspec.2, hmarked⟩ hpublish.2
          cases outcome with
          | ok value => exact ⟨hquiet, Or.inl ⟨rfl, hpublish.1⟩⟩
          | error error => exact ⟨hquiet, Or.inl ⟨rfl, hpublish.1⟩⟩

end Database

end Krit.Databases
