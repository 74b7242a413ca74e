import Boomkat.Correctness.PairFusion
import Boomkat.Correctness.ConstantFusion
import Boomkat.Correctness.CopyPropagation
import Boomkat.Compiler.CompareBranch
import Boomkat.Correctness.CompareBranch
import Boomkat.Compiler.Superinstruction
import Boomkat.Correctness.PropertyChain
import Boomkat.Correctness.SuperinstructionPairs
import Boomkat.Correctness.GlobalFusion
import Boomkat.Correctness.ChainFusion
import Boomkat.Correctness.Superinstruction
import Boomkat.Foundation.Replay
import Boomkat.Promise.Record
import Boomkat.Promise.RejectionReport
import Boomkat.Correctness.RejectionReport
import Boomkat.Correctness.ReportRun
import Boomkat.Correctness.LostRejection
import Boomkat.Promise.JobQueue
import Boomkat.Correctness.JobQueue
import Boomkat.Promise.Combinator
import Boomkat.Correctness.Combinator
import Boomkat.Promise.Settlement
import Boomkat.Correctness.SettlementSteps
import Boomkat.Correctness.ReactionJobs
import Boomkat.Correctness.JobOwnership
import Boomkat.Correctness.OwnJobs
import Boomkat.Correctness.Settlement
import Boomkat.Foundation.RequestSearch
import Boomkat.Foundation.SearchTermination
import Boomkat.Modules.ResolveExport
import Boomkat.Correctness.ResolveExport
import Boomkat.Correctness.UncatchableThrow
import Boomkat.Exceptions.Completion
import Boomkat.Correctness.Completion
import Boomkat.Correctness.CompletionRun
import Boomkat.Foundation.OpenAddressing
import Boomkat.Strings.Encoding
import Boomkat.Strings.StringHeap
import Boomkat.Correctness.InternTable
import Boomkat.Correctness.InternMemory
import Boomkat.Correctness.InternTableRun
import Boomkat.Json.Number
import Boomkat.Collections.Key
import Boomkat.Correctness.IntegerDouble
import Boomkat.Correctness.JsonNumber
import Boomkat.Correctness.KeyEquality
import Boomkat.Collections.Collection
import Boomkat.Correctness.HashIndex
import Boomkat.Correctness.IndexUpkeep
import Boomkat.Correctness.CollectionSteps
import Boomkat.Correctness.CollectionRun
import Boomkat.Collections.Iterator
import Boomkat.Correctness.EntryCells
import Boomkat.Correctness.LiveIteration
import Boomkat.Foundation.ByteBlock
import Boomkat.TypedArrays.View
import Boomkat.TypedArrays.Calls
import Boomkat.Correctness.ViewAccess
import Boomkat.Correctness.ViewBounds
import Boomkat.Correctness.ViewRun
import Boomkat.Correctness.ScratchValues
import Boomkat.Modules.Loader
import Boomkat.Modules.Evaluation
import Boomkat.Foundation.Throughout
import Boomkat.Correctness.ModuleFits
import Boomkat.Correctness.ModuleLoading
import Boomkat.Correctness.ModuleLinking
import Boomkat.Correctness.ModuleRunning
import Boomkat.Correctness.ModuleFailure
import Boomkat.Modules.Namespace
import Boomkat.Correctness.NamespaceItems
import Boomkat.Correctness.Namespace
import Boomkat.Correctness.ExportedNames
import Boomkat.BigInts.Arithmetic
import Boomkat.Correctness.BigIntArithmetic
import Boomkat.BigInts.BitWidth
import Boomkat.Correctness.BigIntWidth
import Boomkat.Values.NanBox
import Boomkat.Values.TaggedUnion
import Boomkat.Correctness.NanBox
import Boomkat.Foundation.Utf8
import Boomkat.Strings.Utf8
import Boomkat.Correctness.Utf8
import Boomkat.Correctness.AstralScan
import Boomkat.Correctness.Cesu8
import Boomkat.Correctness.JsonStringLiteral
import Boomkat.Correctness.JsonEscape
import Boomkat.Correctness.OffsetScan
import Boomkat.Correctness.Offsets
import Boomkat.Collections.SetAlgebra
import Boomkat.Foundation.ListSets
import Boomkat.Correctness.SetElements
import Boomkat.Correctness.SetLoops
import Boomkat.Correctness.SetAlgebra
import Boomkat.Correctness.SetHistories
import Boomkat.Foundation.Layout
import Boomkat.Json.Serializer
import Boomkat.Correctness.SerializerSteps
import Boomkat.Correctness.JsonLayout
import Boomkat.Foundation.Members
import Boomkat.Json.Grammar
import Boomkat.Json.Parser
import Boomkat.Correctness.JsonTokens
import Boomkat.Correctness.JsonAccepted
import Boomkat.Correctness.JsonParser
import Boomkat.Correctness.StringOrder
import Boomkat.Dates.Calendar
import Boomkat.Foundation.Calendar
import Boomkat.Correctness.Calendar
import Boomkat.Dates.LocalTime
import Boomkat.Correctness.DateSetters
import Boomkat.Dates.IsoGrammar
import Boomkat.Correctness.IsoReading
import Boomkat.Correctness.IsoString
import Boomkat.Correctness.IsoFormat
import Boomkat.TypedArrays.Construct
import Boomkat.Correctness.ArrayConstruct
import Boomkat.BigInts.Radix
import Boomkat.Correctness.BigIntRadix
import Boomkat.TypedArrays.Slice
import Boomkat.Compiler.RegAlloc
import Boomkat.Correctness.RegAlloc
import Boomkat.Compiler.Branches
import Boomkat.Correctness.Branches
import Boomkat.Correctness.ParseFloat
import Boomkat.Correctness.Base64
import Boomkat.Foundation.GuardedLoop
import Boomkat.Globals.Uri
import Boomkat.Correctness.Uri
import Boomkat.Correctness.BufferMoves
import Boomkat.Foundation.Tracing
import Boomkat.Collector.Heap
import Boomkat.Collector.Mark
import Boomkat.Collector.Sweep
import Boomkat.Correctness.Marking
import Boomkat.Correctness.Sweep
import Boomkat.Correctness.SafepointSweep
import Boomkat.Correctness.QuietCollection
import Boomkat.Arrays.Sort
import Boomkat.Correctness.Sort
import Boomkat.TypedArrays.Sort
import Boomkat.Correctness.ElementSort
