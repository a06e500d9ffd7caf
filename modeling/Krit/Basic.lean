import Mathlib.Tactic
import Mathlib.Data.Finset.Basic
import Mathlib.Data.Finset.Union

/-!
# Vocabulary shared by the surface language and by Core

Source spans, the effects and capability requirements that analysis reports,
the reserved built-in names, variants, operators and literals.  Effect and
requirement sets are sorted duplicate-free vectors in the source; they are
finite sets here.
-/

namespace Krit

/-- A half-open byte range of the source text. -/
structure Span where
  start : ℕ
  stop : ℕ
  deriving DecidableEq, Repr, Inhabited

inductive Effect where
  | aiInvoke
  | cacheRead
  | cacheWrite
  | configRead
  | databaseRead
  | databaseWrite
  | httpRequest
  | ioStdout
  | objectRead
  | objectWrite
  | observeLog
  | queueConsume
  | queuePublish
  | scheduleTrigger
  | searchQuery
  | searchVector
  | secretRead
  | stateTransaction
  deriving DecidableEq, Repr

/-- A capability together with the resource it is needed for. -/
structure CapabilityRequirement where
  capability : Effect
  resource : String
  deriving DecidableEq, Repr

abbrev EffectSet := Finset Effect

abbrev RequirementSet := Finset CapabilityRequirement

inductive Builtin where
  | aiInvoke
  | print
  | println
  | some
  | none
  | ok
  | err
  | jsonEncode
  | jsonDecode
  | configString
  | secret
  | httpRequest
  | logInfo
  | logError
  | stateGet
  | statePut
  | stateDelete
  | checkpointGet
  | checkpointPut
  | replayHttp
  | replayAi
  | queuePublish
  | objectGet
  | objectPut
  | objectDelete
  | databaseBeginRead
  | databaseBeginWrite
  | databaseQuery
  | databaseExecute
  | databaseCommit
  | databaseRollback
  | cacheGet
  | cachePut
  | cacheDelete
  | searchQuery
  | vectorSearch
  | intToString
  | urlPathSegment
  | urlQuery
  | stringByteLen
  | stringIsEmpty
  | stringContains
  | stringStartsWith
  | stringEndsWith
  deriving DecidableEq, Repr

def Builtin.asStr : Builtin → String
  | .aiInvoke => "ai_invoke"
  | .print => "print"
  | .println => "println"
  | .some => "Some"
  | .none => "None"
  | .ok => "Ok"
  | .err => "Err"
  | .jsonEncode => "json_encode"
  | .jsonDecode => "json_decode"
  | .configString => "config_string"
  | .secret => "secret"
  | .httpRequest => "http_request"
  | .logInfo => "log_info"
  | .logError => "log_error"
  | .stateGet => "state_get"
  | .statePut => "state_put"
  | .stateDelete => "state_delete"
  | .checkpointGet => "checkpoint_get"
  | .checkpointPut => "checkpoint_put"
  | .replayHttp => "replay_http"
  | .replayAi => "replay_ai"
  | .queuePublish => "queue_publish"
  | .objectGet => "object_get"
  | .objectPut => "object_put"
  | .objectDelete => "object_delete"
  | .databaseBeginRead => "db_begin_read"
  | .databaseBeginWrite => "db_begin_write"
  | .databaseQuery => "db_query"
  | .databaseExecute => "db_execute"
  | .databaseCommit => "db_commit"
  | .databaseRollback => "db_rollback"
  | .cacheGet => "cache_get"
  | .cachePut => "cache_put"
  | .cacheDelete => "cache_delete"
  | .searchQuery => "search_query"
  | .vectorSearch => "vector_search"
  | .intToString => "int_to_string"
  | .urlPathSegment => "url_path_segment"
  | .urlQuery => "url_query"
  | .stringByteLen => "string_byte_len"
  | .stringIsEmpty => "string_is_empty"
  | .stringContains => "string_contains"
  | .stringStartsWith => "string_starts_with"
  | .stringEndsWith => "string_ends_with"

inductive VariantFamily where
  | option
  | result
  deriving DecidableEq, Repr

inductive VariantName where
  | some
  | none
  | ok
  | err
  deriving DecidableEq, Repr

namespace VariantName

def asStr : VariantName → String
  | .some => "Some"
  | .none => "None"
  | .ok => "Ok"
  | .err => "Err"

/-- The family the variant belongs to. -/
def family : VariantName → VariantFamily
  | .some | .none => .option
  | .ok | .err => .result

/-- Whether values of the variant carry a payload. -/
def hasPayload : VariantName → Bool
  | .some | .ok | .err => true
  | .none => false

end VariantName

/-- Integer literals are `i128` in the source; the lexer produces no negative
ones. -/
inductive ValueLiteral where
  | integer (value : ℤ)
  | boolean (value : Bool)
  | string (value : String)
  deriving DecidableEq, Repr

inductive UnaryOperator where
  | not
  | negate
  deriving DecidableEq, Repr

inductive BinaryOperator where
  | add
  | subtract
  | multiply
  | divide
  | remainder
  | equal
  | notEqual
  | less
  | lessEqual
  | greater
  | greaterEqual
  | and
  | or
  deriving DecidableEq, Repr

/-- The diagnostic codes of evaluation. -/
inductive ErrorCode where
  | k2001
  | k3012
  | k3014
  | k3016
  | k4001
  | k4002
  | k4003
  | k4004
  | k4005
  | k4006
  | k4007
  | k4008
  | k4009
  | k4010
  | k5003
  deriving DecidableEq, Repr

def i64Min : ℤ := -9223372036854775808

def i64Max : ℤ := 9223372036854775807

/-- `i64::try_from` on a wider integer. -/
def i64TryFrom (value : ℤ) : Option ℤ :=
  if i64Min ≤ value ∧ value ≤ i64Max then some value else none

theorem i64TryFrom_of_bounds {value : ℤ} (hlow : i64Min ≤ value) (hhigh : value ≤ i64Max) :
    i64TryFrom value = some value := by
  unfold i64TryFrom
  rw [if_pos ⟨hlow, hhigh⟩]

theorem i64TryFrom_eq_some {value found : ℤ} (hfound : i64TryFrom value = some found) :
    found = value := by
  unfold i64TryFrom at hfound
  split at hfound
  · rw [Option.some.injEq] at hfound
    exact hfound.symm
  · cases hfound

theorem i64TryFrom_bounds {value found : ℤ} (hfound : i64TryFrom value = some found) :
    i64Min ≤ value ∧ value ≤ i64Max := by
  unfold i64TryFrom at hfound
  split at hfound
  · assumption
  · cases hfound

/-! ## Limits -/

def maxNestingDepth : ℕ := 256

def maxValueDepth : ℕ := 10000

end Krit
