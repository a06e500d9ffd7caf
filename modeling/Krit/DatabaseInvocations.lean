import Krit.DatabaseSpecs
import Krit.Errors

/-!
# Databases of an invocation

The transactions that an invocation holds, the guest's handles for them, and the world
of the host: invocations that follow one another on its databases, each a sequence of
host calls up to the first error, and then the cleanup.
-/

namespace Krit.Databases

def mapDatabaseError (error : DatabaseError) : RuntimeError :=
  match error.kind with
  | .connection | .catalog => .database error.message
  | .transaction => .databaseTransaction error.message
  | .limit | .conflict | .interrupted => .databaseLimit error.message

/-- The databases of the host, by their names. -/
abbrev DatabaseTable := String → Database

structure DatabaseCatalog where
  names : List String
  maxTransactionsPerInvocation : ℕ
  deriving DecidableEq, Repr

/-! ## Live transactions -/

structure LiveTransaction where
  database : String
  transaction : Transaction
  slot : ℕ
  deriving DecidableEq, Repr

namespace LiveTransaction

/-- A transaction that escaped explicit cleanup is rolled back when it is dropped. -/
def drop (databases : DatabaseTable) (live : LiveTransaction) : DatabaseTable :=
  if live.transaction.isCompleted then databases
  else
    Function.update databases live.database
      ((databases live.database).abandon live.transaction).2.2

/-- The rollback of a live transaction, and its drop. -/
def abandon (databases : DatabaseTable) (live : LiveTransaction) :
    Except RuntimeError Unit × DatabaseTable :=
  let (outcome, transaction, database) := (databases live.database).abandon live.transaction
  (outcome.mapError mapDatabaseError,
    drop (Function.update databases live.database database) { live with transaction })

end LiveTransaction

/-- `live` is the source's `open`. -/
structure InvocationDatabases where
  live : List LiveTransaction
  begun : ℕ
  publishedWriteCommit : Bool
  deriving DecidableEq, Repr

namespace InvocationDatabases

def begin (state : InvocationDatabases) (databases : DatabaseTable) (catalog : DatabaseCatalog)
    (name : String) (mode : TransactionMode) (slot : ℕ) (bounds : OperationBounds) :
    Except RuntimeError Unit × InvocationDatabases × DatabaseTable :=
  let checked : Except RuntimeError ℕ := do
    Result.ensure state.live.isEmpty
      (.databaseTransaction "one invocation may hold at most one open database transaction")
    let next ← Result.ofOption (.database "database transaction count overflowed")
      (Machine.checkedAdd state.begun 1)
    Result.ensure (next ≤ catalog.maxTransactionsPerInvocation)
      (.database "invocation exceeded its configured database transaction count")
    Result.ensure (name ∈ catalog.names) (.authorization "application database is not configured")
    pure next
  match checked with
  | .error error => (.error error, state, databases)
  | .ok next =>
      match (databases name).begin mode bounds with
      | (.error error, database) =>
          (.error (mapDatabaseError error), state, Function.update databases name database)
      | (.ok transaction, database) =>
          (.ok (), { state with live := state.live ++ [⟨name, transaction, slot⟩], begun := next },
            Function.update databases name database)

def liveMut (state : InvocationDatabases) (slot : ℕ) : Except RuntimeError LiveTransaction := do
  let live ← Result.ofOption
    (.databaseTransaction "database transaction handle is not open in this invocation")
    (state.live.find? (·.slot = slot))
  Result.ensure (!live.transaction.isCompleted)
    (.databaseTransaction "database transaction is already completed")
  pure live

/-- Writes the transaction back to the place it was found at. -/
def setLive (slot : ℕ) (transaction : Transaction) : List LiveTransaction → List LiveTransaction
  | [] => []
  | live :: rest =>
      if live.slot = slot then { live with transaction } :: rest
      else live :: setLive slot transaction rest

/-- Keeps some of the transactions, and drops the others. -/
def retain (state : InvocationDatabases) (databases : DatabaseTable)
    (keep : LiveTransaction → Bool) : InvocationDatabases × DatabaseTable :=
  ({ state with live := state.live.filter keep },
    (state.live.filter fun live => !keep live).foldl LiveTransaction.drop databases)

/-- One operation on a live transaction, after which only some transactions stay. -/
def operate {α : Type} (state : InvocationDatabases) (databases : DatabaseTable) (slot : ℕ)
    (keep : LiveTransaction → Bool)
    (operation : Database → Transaction → Except DatabaseError α × Transaction × Database) :
    Except RuntimeError α × InvocationDatabases × DatabaseTable :=
  match state.liveMut slot with
  | .error error => (.error error, state, databases)
  | .ok live =>
      let (outcome, transaction, database) :=
        operation (databases live.database) live.transaction
      let state := { state with live := setLive slot transaction state.live }
      (outcome.mapError mapDatabaseError,
        state.retain (Function.update databases live.database database) keep)

def query (state : InvocationDatabases) (databases : DatabaseTable) (slot : ℕ) (statement : String)
    (parameters : List String) (bounds : OperationBounds) (rows : List (List ColumnValue)) :
    Except RuntimeError String × InvocationDatabases × DatabaseTable :=
  state.operate databases slot (fun live => !live.transaction.isCompleted)
    fun database transaction => database.query transaction statement parameters bounds rows

def execute (state : InvocationDatabases) (databases : DatabaseTable) (slot : ℕ)
    (statement : String)
    (parameters : List String) (bounds : OperationBounds) (changed : ℕ) :
    Except RuntimeError ℤ × InvocationDatabases × DatabaseTable :=
  state.operate databases slot (fun live => !live.transaction.isCompleted)
    fun database transaction => database.execute transaction statement parameters bounds changed

/-- A commit of a write transaction that succeeds is noted. -/
def commit (state : InvocationDatabases) (databases : DatabaseTable) (slot : ℕ)
    (bounds : OperationBounds) : Except RuntimeError Unit × InvocationDatabases × DatabaseTable :=
  let write := (state.liveMut slot).toOption.any fun live => live.transaction.mode == .write
  let (outcome, state, databases) := state.operate databases slot (fun live => live.slot ≠ slot)
    fun database transaction => database.commit transaction bounds
  let publishedWriteCommit := state.publishedWriteCommit || (outcome.isOk && write)
  (outcome, { state with publishedWriteCommit }, databases)

def rollback (state : InvocationDatabases) (databases : DatabaseTable) (slot : ℕ) :
    Except RuntimeError Unit × InvocationDatabases × DatabaseTable :=
  state.operate databases slot (fun live => live.slot ≠ slot)
    fun database transaction => database.rollback transaction

/-- The transaction of a handle that was dropped is rolled back. -/
def abandonSlot (state : InvocationDatabases) (databases : DatabaseTable) (slot : ℕ) :
    Except RuntimeError Unit × InvocationDatabases × DatabaseTable :=
  match state.live.find? (·.slot = slot) with
  | none => (.ok (), state, databases)
  | some live =>
      let state := { state with live := state.live.eraseP (·.slot = slot) }
      if live.transaction.isCompleted then (.ok (), state, databases)
      else
        let (outcome, databases) := live.abandon databases
        (outcome, state, databases)

/-- Rolls back one transaction after another, and keeps the first failure. -/
def abandonEach (databases : DatabaseTable) :
    List LiveTransaction → Except RuntimeError Unit × DatabaseTable
  | [] => (.ok (), databases)
  | live :: rest =>
      if live.transaction.isCompleted then abandonEach databases rest
      else
        let (outcome, databases) := live.abandon databases
        let (others, databases) := abandonEach databases rest
        (match outcome with
          | .ok () => others
          | .error error => .error error,
          databases)

def abandonAll (state : InvocationDatabases) (databases : DatabaseTable) :
    Except RuntimeError Unit × InvocationDatabases × DatabaseTable :=
  let (outcome, databases) := abandonEach databases state.live
  (outcome, { state with live := [] }, databases)

def finalizeTransactions (state : InvocationDatabases) (databases : DatabaseTable) :
    Except RuntimeError Unit × InvocationDatabases × DatabaseTable :=
  let (cleanup, after, databases) := state.abandonAll databases
  if state.live.isEmpty then (cleanup, after, databases)
  else
    match cleanup with
    | .error error => (.error error, after, databases)
    | .ok () =>
        (.error (.databaseTransaction "invocation ended with an open database transaction"), after,
          databases)

end InvocationDatabases

/-! ## Host calls -/

/-- What a host call gives the guest. -/
inductive Answer where
  | handle (place : ℕ)
  | text (value : String)
  | count (value : ℤ)
  | unit
  deriving DecidableEq, Repr

/-- A host call.  The place of a new handle is the one that the resource table finds,
if it has one; rows and counts are those that SQLite yields. -/
inductive Operation where
  | begin (mode : TransactionMode) (database : String) (place : Option ℕ)
  | dbQuery (handle : ℕ) (statement : String) (parameters : List String)
      (rows : List (List ColumnValue))
  | dbExecute (handle : ℕ) (statement : String) (parameters : List String) (changed : ℕ)
  | dbCommit (handle : ℕ)
  | dbRollback (handle : ℕ)
  | drop (handle : ℕ)
  deriving DecidableEq, Repr

/-- The handle that a call is made on. -/
def Operation.handle : Operation → Option ℕ
  | .begin .. => none
  | .dbQuery handle .. | .dbExecute handle .. | .dbCommit handle | .dbRollback handle
  | .drop handle => some handle

/-- What the host was configured with. -/
structure HostConfig where
  catalog : DatabaseCatalog
  granted : String → String → Bool
  hostCallLimit : ℕ

/-- `resources` finds the slot of a handle in the table of the guest. -/
structure HostState where
  resources : ℕ → Option ℕ
  databases : InvocationDatabases
  transactionSlots : ℕ
  hostCalls : ℕ

namespace HostState

def start : HostState :=
  { resources := fun _ => none
    databases := { live := [], begun := 0, publishedWriteCommit := false }
    transactionSlots := 0
    hostCalls := 0 }

def recordHostCall (state : HostState) (config : HostConfig) : Except RuntimeError HostState := do
  let next ← Result.ofOption (.hostCalls "host-call limit exceeded")
    (Machine.checkedAdd state.hostCalls 1)
  Result.ensure (next ≤ config.hostCallLimit) (.hostCalls "host-call limit exceeded")
  pure { state with hostCalls := next }

def requireGrant (config : HostConfig) (capability resource : String) :
    Except RuntimeError Unit :=
  Result.ensure (config.granted capability resource)
    (.authorization ("guest requested ungranted capability `" ++ capability ++
      "` for resource `" ++ resource ++ "`"))

def capability : TransactionMode → String
  | .read => "database.read"
  | .write => "database.write"

def beginTransaction (state : HostState) (databases : DatabaseTable) (config : HostConfig)
    (mode : TransactionMode) (name : String) (place : Option ℕ) (bounds : OperationBounds) :
    Except RuntimeError Answer × HostState × DatabaseTable :=
  let checked : Except RuntimeError ℕ := do
    requireGrant config (capability mode) name
    Result.ofOption (.hostCalls "host-call limit exceeded")
      (Machine.checkedAdd state.transactionSlots 1)
  match checked with
  | .error error => (.error error, state, databases)
  | .ok slot =>
      let (outcome, owned, databases) :=
        state.databases.begin databases config.catalog name mode slot bounds
      let state := { state with transactionSlots := slot, databases := owned }
      match outcome, place with
      | .error error, _ => (.error error, state, databases)
      | .ok (), none =>
          (.error (.resource "database transaction table is full"), state, databases)
      | .ok (), some place =>
          (.ok (.handle place),
            { state with resources := Function.update state.resources place (some slot) },
            databases)

def requireStatementName (statement : String) : Except RuntimeError Unit :=
  Result.ensure (isValidResourceName statement) (.database "database statement name is invalid")

/-- The slot of a handle.  Errors of the resource table are told without its own words. -/
def slotOf (state : HostState) (handle : ℕ) : Except RuntimeError ℕ :=
  Result.ofOption (.databaseTransaction "database transaction handle is invalid")
    (state.resources handle)

/-- A call on the transaction of a handle, after its check. -/
def onHandle {α : Type} (state : HostState) (databases : DatabaseTable) (handle : ℕ)
    (check : Except RuntimeError Unit) (answer : α → Answer)
    (operation : InvocationDatabases → DatabaseTable → ℕ →
      Except RuntimeError α × InvocationDatabases × DatabaseTable) :
    Except RuntimeError Answer × HostState × DatabaseTable :=
  let checked : Except RuntimeError ℕ := do
    check
    state.slotOf handle
  match checked with
  | .error error => (.error error, state, databases)
  | .ok slot =>
      let (outcome, owned, databases) := operation state.databases databases slot
      (outcome.map answer, { state with databases := owned }, databases)

def dropHandle (state : HostState) (databases : DatabaseTable) (handle : ℕ) :
    Except RuntimeError Answer × HostState × DatabaseTable :=
  match state.resources handle with
  | none => (.error (.resource "database transaction drop failed"), state, databases)
  | some slot =>
      let (outcome, owned, databases) := state.databases.abandonSlot databases slot
      let state := { state with databases := owned }
      match outcome with
      | .error error => (.error error, state, databases)
      | .ok () =>
          (.ok .unit, { state with resources := Function.update state.resources handle none },
            databases)

/-- A call that was admitted. -/
def serve (state : HostState) (databases : DatabaseTable) (config : HostConfig)
    (bounds : OperationBounds) :
    Operation → Except RuntimeError Answer × HostState × DatabaseTable
  | .begin mode name place => state.beginTransaction databases config mode name place bounds
  | .dbQuery handle statement parameters rows =>
      state.onHandle databases handle (requireStatementName statement) .text
        fun owned databases slot => owned.query databases slot statement parameters bounds rows
  | .dbExecute handle statement parameters changed =>
      state.onHandle databases handle (requireStatementName statement) .count
        fun owned databases slot =>
          owned.execute databases slot statement parameters bounds changed
  | .dbCommit handle =>
      state.onHandle databases handle (.ok ()) (fun _ => .unit)
        fun owned databases slot => owned.commit databases slot bounds
  | .dbRollback handle =>
      state.onHandle databases handle (.ok ()) (fun _ => .unit)
        fun owned databases slot => owned.rollback databases slot
  | .drop handle => state.dropHandle databases handle

/-- Counts a call, and says whether the guest is told that it was cancelled.  The drop of a
handle is not counted. -/
def accept (state : HostState) (config : HostConfig) (operation : Operation) (cancelled : Bool) :
    Except RuntimeError (HostState × Bool) :=
  match operation with
  | .drop _ => .ok (state, false)
  | _ => (state.recordHostCall config).map fun state => (state, cancelled)

/-- A host call.  The outer error ends the invocation; the inner one is the guest's. -/
def perform (state : HostState) (databases : DatabaseTable) (config : HostConfig)
    (operation : Operation) (cancelled : Bool) (bounds : OperationBounds) :
    Except RuntimeError (Except String Answer) × HostState × DatabaseTable :=
  match state.accept config operation cancelled with
  | .error error => (.error error, state, databases)
  | .ok (state, true) =>
      (.ok (.error "operation cancelled by embedding host"), state, databases)
  | .ok (state, false) =>
      let (outcome, state, databases) := state.serve databases config bounds operation
      (outcome.map .ok, state, databases)

end HostState

/-! ## The world -/

/-- The invocations of a host, one after another.  `failed` stops the present one. -/
structure World where
  invocation : ℕ
  host : HostState
  failed : Bool
  databases : DatabaseTable

inductive Step where
  | call (operation : Operation) (cancelled : Bool) (bounds : OperationBounds)
  | finish
  deriving DecidableEq, Repr

/-- What an observer of the databases sees: a handle with the transaction it began, and
every step of a statement with the transaction it ran in. -/
inductive Event where
  | began (invocation handle : ℕ) (database : String) (transaction : Option ℕ)
  | ran (invocation : ℕ) (handle : Option ℕ) (database : String) (transaction : Option ℕ)
  deriving DecidableEq, Repr

/-- The steps of statements that are new on the databases of the catalog. -/
def ranEvents (config : HostConfig) (invocation : ℕ) (handle : Option ℕ)
    (before after : DatabaseTable) : List Event :=
  config.catalog.names.flatMap fun name =>
    ((after name).connection.ran.drop (before name).connection.ran.length).map
      (.ran invocation handle name)

/-- The handle that a call has given. -/
def beganEvents (invocation : ℕ) (operation : Operation)
    (result : Except RuntimeError (Except String Answer)) (after : DatabaseTable) : List Event :=
  match operation, result with
  | .begin _ name _, .ok (.ok (.handle place)) =>
      [.began invocation place name (after name).connection.transaction]
  | _, _ => []

namespace World

def step (config : HostConfig) (world : World) : Step → List Event × World
  | .call operation cancelled bounds =>
      if world.failed then ([], world)
      else
        let (result, host, databases) :=
          world.host.perform world.databases config operation cancelled bounds
        (ranEvents config world.invocation operation.handle world.databases databases ++
            beganEvents world.invocation operation result databases,
          { world with host, databases, failed := !result.isOk })
  | .finish =>
      let (_, _, databases) := world.host.databases.finalizeTransactions world.databases
      (ranEvents config world.invocation none world.databases databases,
        { invocation := world.invocation + 1
          host := .start
          failed := false
          databases })

end World

/-- A database that was just opened, with what SQLite will answer on it. -/
structure DatabaseDefinition where
  mode : DatabaseMode
  limits : DatabaseLimits
  statements : List (String × StatementDefinition)
  replies : ℕ → Reply

def Database.opened (definition : DatabaseDefinition) : Database :=
  { mode := definition.mode
    limits := definition.limits
    statements := definition.statements
    connection :=
      { replies := definition.replies
        calls := 0
        transaction := none
        ran := []
        committed := [] }
    poisoned := false }

def World.start (definitions : String → DatabaseDefinition) : World :=
  { invocation := 0
    host := .start
    failed := false
    databases := fun name => .opened (definitions name) }

end Krit.Databases
