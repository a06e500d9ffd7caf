import Mathlib.Tactic.TypeStar

/-!
# Errors

The errors of the runtime and those of the assistant: their codes, kinds and messages.  The
log events that an error of the runtime carries are not modelled.
-/

namespace Krit

inductive RuntimeErrorKind where
  | invalidArtifact
  | digestMismatch
  | authorization
  | importMismatch
  | fuelExhausted
  | deadlineExceeded
  | cancelled
  | resourceLimit
  | hostCallLimit
  | outputLimit
  | divisionByZero
  | integerOverflow
  | invalidJson
  | guestTrap
  | runtimeSetup
  | durableState
  | stateConflict
  | replay
  | durableIdempotency
  | delivery
  | database
  | databaseTransaction
  | databaseLimit
  | cache
  | cacheLimit
  | cacheUnavailable
  | search
  deriving DecidableEq, Repr

structure RuntimeError where
  code : String
  kind : RuntimeErrorKind
  message : String
  deriving DecidableEq, Repr

namespace RuntimeError

def authorization (message : String) : RuntimeError := ⟨"K5001", .authorization, message⟩

def importMismatch (message : String) : RuntimeError := ⟨"K5002", .importMismatch, message⟩

def deadline (message : String) : RuntimeError := ⟨"K5102", .deadlineExceeded, message⟩

def cancelled (message : String) : RuntimeError := ⟨"K5106", .cancelled, message⟩

def resource (message : String) : RuntimeError := ⟨"K5103", .resourceLimit, message⟩

def hostCalls (message : String) : RuntimeError := ⟨"K5104", .hostCallLimit, message⟩

/-- An error of the guest: three codes are told apart. -/
def guest (code message : String) : RuntimeError :=
  if code = "K4004" then ⟨code, .divisionByZero, message⟩
  else if code = "K4005" then ⟨code, .integerOverflow, message⟩
  else if code = "K4009" then ⟨code, .invalidJson, message⟩
  else ⟨code, .guestTrap, message⟩

def setup (message : String) : RuntimeError := ⟨"K7003", .runtimeSetup, message⟩

def durableState (message : String) : RuntimeError := ⟨"K5201", .durableState, message⟩

def stateConflict (message : String) : RuntimeError := ⟨"K5202", .stateConflict, message⟩

def replay (message : String) : RuntimeError := ⟨"K5203", .replay, message⟩

def delivery (message : String) : RuntimeError := ⟨"K5205", .delivery, message⟩

def database (message : String) : RuntimeError := ⟨"K5301", .database, message⟩

def databaseTransaction (message : String) : RuntimeError :=
  ⟨"K5302", .databaseTransaction, message⟩

def databaseLimit (message : String) : RuntimeError := ⟨"K5303", .databaseLimit, message⟩

/-- The error of a failed delivery whose cleanup failed as well. -/
def withCleanupFailure (error cleanup : RuntimeError) : RuntimeError :=
  { error with
    message := error.message ++ "; durable reservation cleanup also failed: " ++ cleanup.message }

end RuntimeError

inductive AssistErrorKind where
  | disabled
  | context
  | provider
  | proposal
  | candidate
  | permission
  | io
  deriving DecidableEq, Repr

structure AssistError where
  code : String
  kind : AssistErrorKind
  message : String
  deriving DecidableEq, Repr

namespace AssistError

def context (message : String) : AssistError := ⟨"K8102", .context, message⟩

def proposal (message : String) : AssistError := ⟨"K8104", .proposal, message⟩

def candidate (message : String) : AssistError := ⟨"K8105", .candidate, message⟩

def permission (message : String) : AssistError := ⟨"K8106", .permission, message⟩

def io (message : String) : AssistError := ⟨"K8107", .io, message⟩

end AssistError

end Krit
