import RustTS.Lib.AvoidingPath
import RustTS.Lib.Settling
import RustTS.Lib.RankedEntries
import RustTS.Lib.AllSome
import RustTS.Lib.Transition
import RustTS.Lib.Worklist
import RustTS.Lib.IndexMap
import RustTS.Lib.EarlyExit
import RustTS.Lib.Asking
import RustTS.Lib.Recursion
import RustTS.Lib.Binary64
import RustTS.Error
import RustTS.Contract.HostResolver
import RustTS.Runner.Execution
import RustTS.Runner.Settle
import RustTS.Runner.ModuleLoader.Graph
import RustTS.Runner.ModuleLoader.Store
import RustTS.Runner.ModuleLoader.Removal
import RustTS.Runner.ModuleLoader.Isolation
import RustTS.Runner.ModuleLoader.GraphRemoval
import RustTS.Compiler.SourceMap
import RustTS.Compiler.ExtendsChain
import RustTS.Compiler.FileSystem
import RustTS.Compiler.Resolver
import RustTS.Compiler.Project
import RustTS.Compiler.Visit
import RustTS.Compiler.Incremental
import RustTS.Compiler.Reuse
import RustTS.Compiler.Service
import RustTS.Compiler.BeginDiscovery
import RustTS.Compiler.Recorded
import RustTS.Compiler.ImportClosure
import RustTS.Compiler.FailedVisit
import RustTS.Compiler.FileTree
import RustTS.Cache.Artifact
import RustTS.Cache.Store
import RustTS.Runner.Transpile
import RustTS.Runner.AskedDiscovery
import RustTS.Runner.TranspileRun
import RustTS.Runner.ProjectImports
import RustTS.Runner.Lifecycle
import RustTS.Runner.LifecycleFrame
import RustTS.Runner.LifecycleInterrupt
import RustTS.Runner.HostPromises
import RustTS.Runner.Pump
import RustTS.Runner.Tasks
import RustTS.Runner.Deferred
import RustTS.Runner.DeferredInvariant
import RustTS.Runner.TaskCounter
import RustTS.Runner.DeferredResults
import RustTS.Runner.DeferredRequests
import RustTS.Runner.FailedLoad
import RustTS.Runner.Groups
import RustTS.Runner.HostPanics
import RustTS.Runner.Timers
import RustTS.Runner.RunTimers
import RustTS.Runner.TimerTurns
import RustTS.Runner.FiringLaw
import RustTS.Runner.AdvanceTimers
import RustTS.Runner.ReloadChanged
import RustTS.Runner.LostEdits
import RustTS.Runner.Dispatch
import RustTS.Runner.Delivery
import RustTS.Contract.Number
import RustTS.Contract.Codec
import RustTS.Contract.JsValue
import RustTS.Contract.Bridge
import RustTS.Contract.PlainGraph
import RustTS.Contract.Derive
import RustTS.Contract.ParsedObject
import RustTS.Contract.Shape
import RustTS.Contract.StringLiteral
import RustTS.Contract.StructCodec
import RustTS.Contract.SerdeStruct
import RustTS.Contract.StructAgreement
import RustTS.Contract.EnumCodec
import RustTS.Contract.SerdeEnum
import RustTS.Contract.EnumAgreement
import RustTS.Registry.Bindings
import RustTS.Registry.InstallGlobals
import RustTS.Registry.GlobalsOrder
import RustTS.Registry.GlobalsReplaced
import RustTS.Contract.Descriptor
import RustTS.Contract.ScalarCodec
import RustTS.Contract.Schema
import RustTS.Contract.SchemaDerive
import RustTS.Contract.SchemaReferences
import RustTS.Contract.SchemaClosure
import RustTS.Lib.PartitionPoint
import RustTS.Lib.PathTree
import RustTS.Registry.Declarations
import RustTS.Registry.SchemaSections
import RustTS.Registry.Expression
import RustTS.Registry.QuotedNames
import RustTS.Registry.Sdk
import RustTS.Registry.SdkEntries
import RustTS.Registry.SdkPaths
import RustTS.Registry.GeneratedPaths
import RustTS.Registry.SdkTopLevel
import RustTS.Registry.GeneratedModules
import RustTS.Registry.ImportModules
import RustTS.Registry.ImportPaths
import RustTS.Registry.TopLevel
import RustTS.Registry.Memory
import RustTS.Registry.DescriptorAgreement
import RustTS.Runner.OneByOne
import RustTS.Contract.Float64
import RustTS.Lib.Deciding
import RustTS.Contract.Validation
import RustTS.Contract.Conformance
import RustTS.Contract.ValidationDecides
import RustTS.Contract.ValidationCorrect
import RustTS.Contract.JsNumber
import RustTS.Registry.SdkGuard
import RustTS.Registry.GuardAgreement
import RustTS.Contract.ErrorPath
import RustTS.Lib.DecimalText
import RustTS.Contract.Maps
import RustTS.Runner.Invoke
import RustTS.Lib.Interruptible
import RustTS.Runner.TimerCuts
import RustTS.Runner.AbortedCalls
import RustTS.Runner.UncutTimers
import RustTS.Runner.StopLaw
import RustTS.Lib.Interfered
import RustTS.Runner.SharedControl
import RustTS.Runner.LeftOver
import RustTS.Contract.SchemaListing
import RustTS.Registry.ListedTypes
import RustTS.Registry.TypeReferences
import RustTS.Registry.SdkReferences
import RustTS.Registry.DeclarationsClosed
import RustTS.Runner.HotReload
import RustTS.Runner.HotHandOver
import RustTS.Lib.SwapRemove
import RustTS.Runner.HandlerLists
import RustTS.Lib.Outcome
import RustTS.Contract.JsonToJs
import RustTS.Contract.Encode
import RustTS.Contract.StructRoundTrip
import RustTS.Contract.EnumRoundTrip
import RustTS.Lib.SortedEntries
import RustTS.Contract.NativeTypes
import RustTS.Contract.NativeRoundTrip
import RustTS.Lib.Segments
import RustTS.Runner.ModuleLoader.LoadedGraphs
import RustTS.Runner.Errors
import RustTS.Runner.ModuleLoader.Linking
import RustTS.Runner.LinkedProject
import RustTS.Lib.AtomicReplace
import RustTS.Cache.SharedDirectory
import RustTS.Runner.RequestSlots
import RustTS.Runner.RequestTracking
import RustTS.Runner.RequestReplies
import RustTS.Runner.PromiseRejections
import RustTS.Contract.Rename
import RustTS.Contract.RenameVariants
