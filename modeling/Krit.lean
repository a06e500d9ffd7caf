import Krit.Lib.Run
import Krit.Lib.Keyed
import Krit.Basic
import Krit.Errors
import Krit.Types
import Krit.CoreSyntax
import Krit.CoreVerifier
import Krit.CoreSemantics
import Krit.CoreCollection
import Krit.CoreTyping
import Krit.CoreSafety
import Krit.Lib.Wasm
import Krit.ScalarCompiler
import Krit.ScalarArithmetic
import Krit.Lib.Simulation
import Krit.ScalarLayout
import Krit.ScalarSimulation
import Krit.ScalarBody
import Krit.CoreScope
import Krit.ScalarLocals
import Krit.ScalarLiterals
import Krit.ScalarFunction
import Krit.ScalarModule
import Krit.Ast
import Krit.Lib.Utf8
import Krit.RequestTarget
import Krit.Lib.PathCover
import Krit.Patterns
import Krit.Matching
import Krit.PatternChecks
import Krit.Lib.TreeTotal
import Krit.Lib.Machine
import Krit.Cache
import Krit.CacheInvariant
import Krit.CacheRuns
import Krit.Lib.Table
import Krit.Lib.History
import Krit.Store
import Krit.Jobs
import Krit.Schedules
import Krit.Retention
import Krit.StoreRuns
import Krit.QueueDeliveries
import Krit.ScheduleOccurrences
import Krit.RetentionProtocol
import Krit.Invocations
import Krit.Serializability
import Krit.Lib.Overlay
import Krit.InvocationViews
import Krit.Capability
import Krit.Database
import Krit.DatabaseSpecs
import Krit.DatabaseInvocations
import Krit.DatabaseRuns
import Krit.DatabaseCommits
import Krit.Lib.SortedList
import Krit.Wit
import Krit.WitWorlds
import Krit.Manifest
import Krit.HttpOrigin
import Krit.Artifact
import Krit.Permissions
import Krit.Authorization
import Krit.ArtifactAcceptance
import Krit.RequestQuery
import Krit.PatternRepairs
import Krit.JsonValues
import Krit.JsonRoundTrip
import Krit.Acceptance
import Krit.Dispatch
import Krit.CacheEviction
import Krit.QueueOrder
import Krit.Lib.Newest
import Krit.DeadLetters
import Krit.QueuePlaces
import Krit.ScheduleTicks
import Krit.Lib.Framing
import Krit.RequestDigest
import Krit.IdempotencyCache
import Krit.Lib.Windows
import Krit.RateLimits
import Krit.Retries
import Krit.ResultStrings
import Krit.Lib.Budget
import Krit.QueryResults
import Krit.JsonGrammar
import Krit.QueryDocuments
import Krit.Lib.SqlLexemes
import Krit.Lib.Utf8Search
import Krit.CatalogSql
import Krit.CatalogScan
import Krit.CatalogStatements
import Krit.GuestAllocator
import Krit.GuestMemory
import Krit.Lib.Intervals
import Krit.Lib.IpAddress
import Krit.Lib.TextEdits
import Krit.Lib.TextPlaces
import Krit.NetworkPolicy
import Krit.Redaction
import Krit.TextProposals
import Krit.CommitVerdicts
import Krit.Lib.Totals
import Krit.Redelivery
import Krit.RetentionBounds
import Krit.ExplicitCompletion
