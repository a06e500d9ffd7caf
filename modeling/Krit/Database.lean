import Krit.Capability
import Krit.Lib.Machine
import Krit.Lib.Result
import Mathlib

/-!
# Application databases

One logical database: a SQLite connection, the flag that refuses new transactions, and
the operations of a transaction.  SQLite is known by its answers only: every call takes
the next answer, which is success, or a failure that may have rolled the transaction
back.
-/

namespace Krit.Databases

/-! ## Errors -/

inductive DatabaseErrorKind where
  | connection
  | catalog
  | transaction
  | limit
  | interrupted
  | conflict
  deriving DecidableEq, Repr

structure DatabaseError where
  kind : DatabaseErrorKind
  message : String
  deriving DecidableEq, Repr

def DatabaseError.isInterrupted (error : DatabaseError) : Bool := error.kind == .interrupted

/-- The codes of SQLite that the host tells apart. -/
inductive SqliteCode where
  | operationInterrupted
  | databaseBusy
  | databaseLocked
  | readOnly
  | diskFull
  | tooBig
  | constraintViolation
  | databaseCorrupt
  | notADatabase
  | other
  deriving DecidableEq, Repr

def mapSqlite : SqliteCode → DatabaseError
  | .operationInterrupted =>
      ⟨.interrupted, "database operation was interrupted at its deadline or on cancellation"⟩
  | .databaseBusy | .databaseLocked => ⟨.conflict, "application database is busy"⟩
  | .readOnly => ⟨.conflict, "application database is read only"⟩
  | .diskFull | .tooBig => ⟨.limit, "application database limit was exceeded"⟩
  | .constraintViolation => ⟨.conflict, "application database constraint was violated"⟩
  | .databaseCorrupt | .notADatabase => ⟨.connection, "application database is corrupt"⟩
  | .other => ⟨.connection, "application database operation failed"⟩

/-! ## The connection -/

/-- An answer of SQLite.  A call that fails may have unwound the transaction. -/
inductive Reply where
  | ok
  | failed (code : SqliteCode) (rolledBack : Bool)
  deriving DecidableEq, Repr

/-- A connection.  A transaction is named by the number of the `BEGIN` call that started
it; `none` is autocommit mode.  `ran` lists, for every step of a catalog statement, the
transaction that the connection was in, and `committed` the transactions that were
committed. -/
structure Connection where
  replies : ℕ → Reply
  calls : ℕ
  transaction : Option ℕ
  ran : List (Option ℕ)
  committed : List ℕ

/-- A conversation with SQLite. -/
abbrev Session := ExceptT DatabaseError (StateM Connection)

def Connection.isAutocommit (connection : Connection) : Bool := connection.transaction.isNone

/-- One call, with what it does when it succeeds. -/
def request (effect : Connection → Connection) : Session Unit := do
  let connection ← get
  match connection.replies connection.calls with
  | .ok => set { effect connection with calls := connection.calls + 1 }
  | .failed code rolledBack =>
      set { connection with
        calls := connection.calls + 1
        transaction := if rolledBack then none else connection.transaction }
      throw (mapSqlite code)

/-- `BEGIN`, an error inside a transaction. -/
def beginBatch : Session Unit := do
  let connection ← get
  if connection.isAutocommit then
    request fun connection => { connection with transaction := some connection.calls }
  else throw (mapSqlite .other)

/-- A call that ends the transaction, an error outside one. -/
def endBatch (effect : Connection → Connection) : Session Unit := do
  let connection ← get
  if connection.isAutocommit then throw (mapSqlite .other)
  else request effect

/-- `COMMIT`. -/
def commitBatch : Session Unit :=
  endBatch fun connection =>
    { connection with
      transaction := none
      committed := connection.committed ++ connection.transaction.toList }

/-- `ROLLBACK`. -/
def rollbackBatch : Session Unit :=
  endBatch fun connection => { connection with transaction := none }

/-- A call that leaves the transaction alone when it succeeds. -/
def call : Session Unit := request fun connection => connection

/-- A step of a prepared statement. -/
def stepStatement : Session Unit := do
  modify fun connection => { connection with ran := connection.ran ++ [connection.transaction] }
  call

/-! ## Configuration -/

inductive DatabaseMode where
  | readOnly
  | readWrite
  deriving DecidableEq, Repr

inductive TransactionMode where
  | read
  | write
  deriving DecidableEq, Repr

inductive StatementKind where
  | query
  | execute
  deriving DecidableEq, Repr

inductive ParameterType where
  | text
  | integer
  deriving DecidableEq, Repr

/-- Times are instants in nanoseconds. -/
structure DatabaseLimits where
  maxDatabaseBytes : ℕ
  maxTransactionDuration : ℕ
  maxOperationsPerTransaction : ℕ
  maxParameterBytes : ℕ
  maxRows : ℕ
  maxResultBytes : ℕ
  deriving DecidableEq, Repr

structure StatementDefinition where
  kind : StatementKind
  parameters : List ParameterType
  columns : List String
  deriving DecidableEq, Repr

/-- What one operation reads from outside: the clock, twice, the size of the files, and
the bounds it was given. -/
structure OperationBounds where
  now : ℕ
  installedAt : ℕ
  diskBytes : ℕ
  cancelled : Bool
  invocationDeadline : ℕ
  deriving DecidableEq, Repr

inductive Completion where
  | committed
  | rolledBack
  | interrupted
  deriving DecidableEq, Repr

structure Transaction where
  mode : TransactionMode
  deadline : ℕ
  operations : ℕ
  outcome : Option Completion
  deriving DecidableEq, Repr

structure Database where
  mode : DatabaseMode
  limits : DatabaseLimits
  statements : List (String × StatementDefinition)
  connection : Connection
  poisoned : Bool

/-! ## Rows -/

/-- A value of a result row; `text` holds no string where the bytes are not UTF-8. -/
inductive ColumnValue where
  | null
  | integer (value : ℤ)
  | text (value : Option String)
  | real
  | blob
  deriving DecidableEq, Repr

structure RowEncoder where
  buffer : String
  budget : ℕ
  columns : ℕ
  rows : ℕ
  maxRows : ℕ
  rowOpen : Bool
  valuesInRow : ℕ
  deriving DecidableEq, Repr

def maxResultBytes : ℕ := 256 * 1024

/-- The bytes of the end of the document. -/
def terminatorBytes : ℕ := 2

namespace RowEncoder

def reserve (encoder : RowEncoder) (additional : ℕ) : Except DatabaseError Unit := do
  let required ← Result.ofOption ⟨.limit, "database result length overflowed"⟩
    ((Machine.checkedAdd encoder.buffer.utf8ByteSize additional).bind
      (Machine.checkedAdd · terminatorBytes))
  Result.ensure (required ≤ encoder.budget)
    ⟨.limit, "database result exceeds its configured byte bound"⟩

def pushLiteral (encoder : RowEncoder) (text : String) : Except DatabaseError RowEncoder := do
  encoder.reserve text.utf8ByteSize
  pure { encoder with buffer := encoder.buffer ++ text }

/-- The spelling of a character in a result. -/
def characterText (char : Char) : String :=
  if char = '"' then "\\\""
  else if char = '\\' then "\\\\"
  else if char = '\n' then "\\n"
  else if char = '\r' then "\\r"
  else if char = '\t' then "\\t"
  else if char.toNat < 0x20 then
    String.ofList ['\\', 'u', '0', '0', hexLower (char.toNat / 16), hexLower (char.toNat % 16)]
  else String.ofList [char]

def pushJsonString (encoder : RowEncoder) (value : String) : Except DatabaseError RowEncoder := do
  let encoder ← encoder.pushLiteral "\""
  let encoder ← value.toList.foldlM
    (fun encoder char => encoder.pushLiteral (characterText char)) encoder
  encoder.pushLiteral "\""

def new (columns : List String) (maxBytes maxRows : ℕ) : Except DatabaseError RowEncoder := do
  let encoder : RowEncoder :=
    { buffer := ""
      budget := min maxBytes maxResultBytes
      columns := columns.length
      rows := 0
      maxRows
      rowOpen := false
      valuesInRow := 0 }
  let encoder ← encoder.pushLiteral "\x7b\"columns\":["
  let encoder ← columns.zipIdx.foldlM
    (fun encoder column => do
      let encoder ← if column.2 > 0 then encoder.pushLiteral "," else pure encoder
      encoder.pushJsonString column.1)
    encoder
  encoder.pushLiteral "],\"rows\":["

def beginRow (encoder : RowEncoder) : Except DatabaseError RowEncoder := do
  Result.ensure (encoder.rows < encoder.maxRows)
    ⟨.limit, "database query returned more rows than its configured bound"⟩
  let encoder ← if encoder.rows > 0 then encoder.pushLiteral "," else pure encoder
  let encoder ← encoder.pushLiteral "["
  pure { encoder with rowOpen := true, valuesInRow := 0 }

def pushColumn (encoder : RowEncoder) (value : ColumnValue) : Except DatabaseError RowEncoder := do
  let encoder ← if encoder.valuesInRow > 0 then encoder.pushLiteral "," else pure encoder
  let encoder := { encoder with valuesInRow := encoder.valuesInRow + 1 }
  match value with
  | .null => encoder.pushLiteral "null"
  | .integer value => encoder.pushLiteral (toString value)
  | .text none => throw ⟨.limit, "database text value is not valid UTF-8"⟩
  | .text (some text) => encoder.pushJsonString text
  | .real => throw ⟨.limit, "database REAL values are not representable in protocol 1"⟩
  | .blob => throw ⟨.limit, "database BLOB values are not representable in protocol 1"⟩

def endRow (encoder : RowEncoder) : Except DatabaseError RowEncoder := do
  Result.ensure (encoder.valuesInRow = encoder.columns)
    ⟨.limit, "database row column count does not match the catalog statement"⟩
  let encoder ← encoder.pushLiteral "]"
  pure { encoder with rowOpen := false, rows := encoder.rows + 1 }

/-- One row of the result, with the columns that the catalog declares. -/
def pushRow (encoder : RowEncoder) (columns : ℕ) (row : List ColumnValue) :
    Except DatabaseError RowEncoder := do
  let encoder ← encoder.beginRow
  let encoder ← (List.range columns).foldlM
    (fun encoder index => do
      let value ← Result.ofOption (mapSqlite .other) row[index]?
      encoder.pushColumn value)
    encoder
  encoder.endRow

def finish (encoder : RowEncoder) : Except DatabaseError String := do
  Result.ensure (!encoder.rowOpen) ⟨.limit, "database result encoding ended inside a row"⟩
  pure (encoder.buffer ++ "]\x7d")

end RowEncoder

/-! ## Statements -/

/-- The catalog's i64 parameters: an optional sign and digits. -/
def parseI64 (text : String) : Option ℤ :=
  let digits (chars : List Char) : Option ℤ :=
    if chars.isEmpty ∨ ¬ chars.all Char.isDigit then none
    else some (chars.foldl (fun value char => 10 * value + (char.toNat - '0'.toNat : ℕ)) 0)
  match text.toList with
  | '-' :: rest => (digits rest).bind fun value => i64TryFrom (-value)
  | '+' :: rest => (digits rest).bind i64TryFrom
  | chars => (digits chars).bind i64TryFrom

inductive SqliteValue where
  | text (value : String)
  | integer (value : ℤ)
  deriving DecidableEq, Repr

def bindValue (declared : ParameterType) (value : String) : Except DatabaseError SqliteValue :=
  match declared with
  | .text => pure (.text value)
  | .integer =>
      match parseI64 value with
      | some value => pure (.integer value)
      | none => throw ⟨.limit, "database parameter is not a valid signed 64-bit integer"⟩

/-- Binds the values one after another. -/
def bindAll : List SqliteValue → Session Unit
  | [] => pure ()
  | _ :: rest => do
      call
      bindAll rest

/-- Steps a statement through its rows, and once more to its end. -/
def fetchRows (columns : ℕ) (encoder : RowEncoder) : List (List ColumnValue) → Session RowEncoder
  | [] => do
      stepStatement
      pure encoder
  | row :: rest => do
      stepStatement
      let encoder ← ofExcept (encoder.pushRow columns row)
      fetchRows columns encoder rest

/-- Runs a query whose statement yields these rows. -/
def runQuery (limits : DatabaseLimits) (definition : StatementDefinition)
    (bound : List SqliteValue) (rows : List (List ColumnValue)) : Session String := do
  call
  bindAll bound
  let encoder ← ofExcept
    (RowEncoder.new definition.columns limits.maxResultBytes limits.maxRows)
  let encoder ← fetchRows definition.columns.length encoder rows
  ofExcept encoder.finish

/-- Runs a statement that changes this many rows. -/
def runExecute (bound : List SqliteValue) (changed : ℕ) : Session ℤ := do
  call
  bindAll bound
  stepStatement
  ofExcept (Result.ofOption ⟨.limit, "database affected-row count exceeds i64"⟩
    (i64TryFrom changed))

def requireDiskBudget (limits : DatabaseLimits) (bounds : OperationBounds) :
    Except DatabaseError Unit :=
  Result.ensure (bounds.diskBytes ≤ limits.maxDatabaseBytes)
    ⟨.limit, "application database and its journal exceed the configured byte budget"⟩

/-- What follows a `COMMIT`: the journal is truncated, and the budget checked again. -/
def checkpointAndVerify (mode : DatabaseMode) (limits : DatabaseLimits)
    (bounds : OperationBounds) : Session Unit := do
  if mode = .readWrite then
    call
    call
  ofExcept (requireDiskBudget limits bounds)

/-- Installs the interrupt.  Its removal clears the handler, which cannot fail. -/
def install (deadline : ℕ) (bounds : OperationBounds) : Session Unit := do
  if bounds.cancelled then
    throw ⟨.interrupted, "database operation cancelled by the embedding host"⟩
  if min deadline bounds.invocationDeadline < bounds.installedAt then
    throw ⟨.interrupted, "database transaction exceeded its configured time bound"⟩
  call
  call

/-! ## Transactions -/

/-- A time later than this is not an instant: its seconds do not fit their word. -/
def instantLimit : ℕ := 9223372036854775808 * 1000000000

namespace Transaction

def isCompleted (transaction : Transaction) : Bool := transaction.outcome.isSome

def requireOpen (transaction : Transaction) : Except DatabaseError Unit :=
  Result.ensure (!transaction.isCompleted)
    ⟨.transaction, "database transaction is already completed"⟩

def requireWithinDeadline (transaction : Transaction) (now : ℕ) : Except DatabaseError Unit :=
  Result.ensure (now < transaction.deadline)
    ⟨.limit, "database transaction exceeded its configured time bound"⟩

def recordOperation (transaction : Transaction) (maximum : ℕ) :
    Except DatabaseError Transaction := do
  let next ← Result.ofOption ⟨.limit, "database operation count overflowed"⟩
    (Machine.checkedAdd transaction.operations 1)
  Result.ensure (next ≤ maximum)
    ⟨.limit, "database transaction exceeded its configured operation bound"⟩
  pure { transaction with operations := next }

end Transaction

namespace Database

def requireHealthy (database : Database) : Except DatabaseError Unit :=
  Result.ensure (!database.poisoned)
    ⟨.connection, "application database connection is poisoned and refuses new transactions"⟩

/-- Talks to SQLite on the connection of the database. -/
def talk {α : Type} (database : Database) (session : Session α) :
    Except DatabaseError α × Database :=
  ((session database.connection).1,
    { database with connection := (session database.connection).2 })

/-- A `ROLLBACK`, which marks the database when it fails. -/
def undo (database : Database) : Except DatabaseError Unit × Database :=
  match database.talk rollbackBatch with
  | (.ok (), database) => (.ok (), database)
  | (.error error, database) => (.error error, { database with poisoned := true })

def begin (database : Database) (mode : TransactionMode) (bounds : OperationBounds) :
    Except DatabaseError Transaction × Database :=
  if mode = .write ∧ database.mode = .readOnly then
    (.error ⟨.transaction, "application database is configured read only"⟩, database)
  else
    match database.requireHealthy with
    | .error error => (.error error, database)
    | .ok () =>
        let deadline := bounds.now + database.limits.maxTransactionDuration
        if instantLimit ≤ deadline then
          (.error ⟨.limit, "database transaction deadline overflowed"⟩, database)
        else if !database.connection.isAutocommit then
          (.error ⟨.transaction, "application database connection was left inside a transaction"⟩,
            { database with poisoned := true })
        else
          match database.talk (do install deadline bounds; beginBatch) with
          | (.error error, database) => (.error error, database)
          | (.ok (), database) =>
              (.ok { mode, deadline, operations := 0, outcome := none }, database)

def rollbackNow (database : Database) : Except DatabaseError Unit × Database :=
  if database.connection.isAutocommit then (.ok (), database) else database.undo

def finishOperation {α : Type} (database : Database) (transaction : Transaction)
    (outcome : Except DatabaseError α) : Except DatabaseError α × Transaction × Database :=
  match outcome with
  | .ok value => (.ok value, transaction, database)
  | .error error =>
      if error.isInterrupted then
        let (undone, database) := database.rollbackNow
        let transaction := { transaction with outcome := some .interrupted }
        match undone with
        | .ok () => (.error error, transaction, database)
        | .error failure => (.error failure, transaction, database)
      else (.error error, transaction, database)

def prepareOperation (database : Database) (transaction : Transaction) (statement : String)
    (expected : StatementKind) (bounds : OperationBounds) :
    Except DatabaseError StatementDefinition × Transaction :=
  let recorded : Except DatabaseError Transaction := do
    database.requireHealthy
    transaction.requireOpen
    transaction.requireWithinDeadline bounds.now
    transaction.recordOperation database.limits.maxOperationsPerTransaction
  match recorded with
  | .error error => (.error error, transaction)
  | .ok transaction =>
      let found : Except DatabaseError StatementDefinition := do
        let definition ← Result.ofOption ⟨.catalog, "named statement is not in the catalog"⟩
          (database.statements.lookup statement)
        Result.ensure (definition.kind = expected)
          ⟨.catalog, "named statement kind does not match the requested operation"⟩
        pure definition
      (found, transaction)

def bindParameters (database : Database) (definition : StatementDefinition)
    (parameters : List String) : Except DatabaseError (List SqliteValue) := do
  Result.ensure (parameters.length = definition.parameters.length)
    ⟨.limit, "database parameter count does not match the catalog statement"⟩
  (definition.parameters.zip parameters).mapM fun (declared, value) => do
    Result.ensure (value.utf8ByteSize ≤ database.limits.maxParameterBytes)
      ⟨.limit, "database parameter exceeds its configured byte bound"⟩
    Result.ensure (!value.toList.any (· == Char.ofNat 0))
      ⟨.limit, "database parameter contains a NUL byte"⟩
    bindValue declared value

/-- A statement of the catalog inside a transaction: the common part of `query` and
`execute`. -/
def runStatement {α : Type} (database : Database) (transaction : Transaction)
    (statement : String) (expected : StatementKind) (parameters : List String)
    (bounds : OperationBounds) (session : StatementDefinition → List SqliteValue → Session α) :
    Except DatabaseError α × Transaction × Database :=
  let (prepared, transaction) :=
    database.prepareOperation transaction statement expected bounds
  let bound : Except DatabaseError (StatementDefinition × List SqliteValue) := do
    let definition ← prepared
    let values ← database.bindParameters definition parameters
    pure (definition, values)
  match bound with
  | .error error => (.error error, transaction, database)
  | .ok (definition, values) =>
      match database.talk (install transaction.deadline bounds) with
      | (.error error, database) => (.error error, transaction, database)
      | (.ok (), database) =>
          let (outcome, database) := database.talk (session definition values)
          database.finishOperation transaction outcome

/-- The rows are those that SQLite finds. -/
def query (database : Database) (transaction : Transaction) (statement : String)
    (parameters : List String) (bounds : OperationBounds) (rows : List (List ColumnValue)) :
    Except DatabaseError String × Transaction × Database :=
  database.runStatement transaction statement .query parameters bounds
    fun definition values => runQuery database.limits definition values rows

/-- The count is that of the rows that SQLite changes. -/
def execute (database : Database) (transaction : Transaction) (statement : String)
    (parameters : List String) (bounds : OperationBounds) (changed : ℕ) :
    Except DatabaseError ℤ × Transaction × Database :=
  if transaction.mode ≠ .write then
    (.error ⟨.transaction, "a read transaction cannot run a mutating statement"⟩, transaction,
      database)
  else
    database.runStatement transaction statement .execute parameters bounds
      fun _ values => do
        let changed ← runExecute values changed
        ofExcept (requireDiskBudget database.limits bounds)
        pure changed

/-- `COMMIT` and what follows it, or the `ROLLBACK` after a failure. -/
def publish (database : Database) (bounds : OperationBounds) :
    Except DatabaseError Unit × Database :=
  match database.talk commitBatch with
  | (.ok (), database) =>
      database.talk (checkpointAndVerify database.mode database.limits bounds)
  | (.error error, database) =>
      match database.undo with
      | (.ok (), database) => (.error error, database)
      | (.error failure, database) => (.error failure, database)

def commit (database : Database) (transaction : Transaction) (bounds : OperationBounds) :
    Except DatabaseError Unit × Transaction × Database :=
  let checked : Except DatabaseError Unit := do
    transaction.requireOpen
    transaction.requireWithinDeadline bounds.now
  match checked with
  | .error error => (.error error, transaction, database)
  | .ok () =>
      match database.talk (install transaction.deadline bounds) with
      | (.error error, database) => (.error error, transaction, database)
      | (.ok (), database) =>
          match database.publish bounds with
          | (.ok (), database) =>
              (.ok (), { transaction with outcome := some .committed }, database)
          | (.error error, database) =>
              (.error error, { transaction with outcome := some .rolledBack }, database)

def rollback (database : Database) (transaction : Transaction) :
    Except DatabaseError Unit × Transaction × Database :=
  if transaction.outcome = some .interrupted then
    (.ok (), { transaction with outcome := some .rolledBack }, database)
  else
    match transaction.requireOpen with
    | .error error => (.error error, transaction, database)
    | .ok () =>
        let (outcome, database) := database.rollbackNow
        (outcome, { transaction with outcome := some .rolledBack }, database)

def abandon (database : Database) (transaction : Transaction) :
    Except DatabaseError Unit × Transaction × Database :=
  if transaction.isCompleted then (.ok (), transaction, database)
  else database.rollback transaction

end Database

end Krit.Databases
