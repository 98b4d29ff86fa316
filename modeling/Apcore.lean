import Apcore.Lib.Run
import Apcore.Lib.Kleene
import Apcore.Lib.DecisionList
import Apcore.Lib.Kahn
import Apcore.Errors
import Apcore.Context
import Apcore.Utils
import Apcore.CallChain
import Apcore.ContextCodec
import Apcore.Acl.Monotone
import Apcore.Acl.FailClosed
import Apcore.Acl.Agreement
import Apcore.World
import Apcore.Pipeline.ApprovalSoundness
import Apcore.Pipeline.GateFailures
import Apcore.Pipeline.StrategyInvariant
import Apcore.Pipeline.Onion
import Apcore.Executor.RetryIsolation
import Apcore.Executor.TraceAgreement
import Apcore.Executor.Disclosure
import Apcore.Executor.StreamFallback
import Apcore.Registry.LoadOrder
import Apcore.Lib.Transition
import Apcore.Registry.Consistency
import Apcore.Registry.Hooks
import Apcore.Registry.Publication
import Apcore.Registry.References
import Apcore.Registry.CleanDrain
import Apcore.Registry.OwnDrain
import Apcore.Executor.RetryEndToEnd
import Apcore.Middleware.Deadlock
import Apcore.Middleware.Alignment
import Apcore.Middleware.HookRuns
import Apcore.Middleware.RetryTree
import Apcore.Cancel.Drain
import Apcore.AsyncTask.Reaper
import Apcore.AsyncTask.Sticky
import Apcore.AsyncTask.Capacity
import Apcore.AsyncTask.HandleTable
import Apcore.Events.Handles
import Apcore.Events.DeadLetterRuns
import Apcore.Events.LockOrder
import Apcore.Events.CircuitBreaker
import Apcore.Events.Completeness
import Apcore.Middleware.OpeningLaw
import Apcore.Pipeline.PipelineConfig
import Apcore.Schema.CompileCache
import Apcore.Schema.CoerceValue
import Apcore.Schema.FormatWarnings
import Apcore.Schema.OpenaiStrict
import Apcore.Schema.LazyRefs
import Apcore.Schema.ResolveInlines
import Apcore.Observability.UsageWindows
import Apcore.SysModules.UsagePeriods
import Apcore.Schema.Loader
import Apcore.ExtensionManager
import Apcore.Events.SubscriberWrappers
import Apcore.ModuleRecords
import Apcore.Executor.RedactionExact
import Apcore.Observability.HistoryRuns
import Apcore.Observability.Persistence
import Apcore.TraceInjection
import Apcore.Acl.PrecheckReports
import Apcore.Acl.Scopes
import Apcore.SysModules.PersistRuns
import Apcore.Lib.Nested
import Apcore.Config.Keys
import Apcore.Config.Reload
import Apcore.Config.EnvOwners
import Apcore.SysModules.UpdateConfig
import Apcore.SysModules.UpdateAtomic
import Apcore.Globs
import Apcore.Names
import Apcore.PolicyTies
import Apcore.Registry.BestVersion
import Apcore.Registry.VersionArithmetic
import Apcore.Pipeline.Faithful
import Apcore.Registry.MultiClass
import Apcore.Registry.MultiClassRegister
import Apcore.Registry.Disabled
import Apcore.Lib.Walks
import Apcore.Registry.BackEdge
import Apcore.Registry.Stall
import Apcore.Executor.PreflightGate
import Apcore.Executor.LogRedaction
import Apcore.Executor.DeepMerge
