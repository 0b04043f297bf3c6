import ConcurrencyAnalyzer.LockOrder.CycleKey
import ConcurrencyAnalyzer.LockOrder.Graph
import ConcurrencyAnalyzer.LockOrder.Walk
import ConcurrencyAnalyzer.LockOrder.Cycles
import ConcurrencyAnalyzer.LockOrder.Findings
import ConcurrencyAnalyzer.LockOrder.Collector
import ConcurrencyAnalyzer.LockOrder.RecordedOrders
import ConcurrencyAnalyzer.LockOrder.CollectorTheorems
import ConcurrencyAnalyzer.LockOrder.AddressOrder
import ConcurrencyAnalyzer.LockOrder.Theorems
import ConcurrencyAnalyzer.DataRace.Checker
import ConcurrencyAnalyzer.DataRace.Conflicts
import ConcurrencyAnalyzer.DataRace.Scan
import ConcurrencyAnalyzer.DataRace.Theorems
import ConcurrencyAnalyzer.DataRace.OrderOfFacts
import ConcurrencyAnalyzer.DataRace.Projected
import ConcurrencyAnalyzer.DataRace.MergedAccesses
import ConcurrencyAnalyzer.FactsBuilder.LockOrders
import ConcurrencyAnalyzer.FactsBuilder.LockOrderMerge
import ConcurrencyAnalyzer.CrossTU.Coordinator
import ConcurrencyAnalyzer.CrossTU.RuleReads
import ConcurrencyAnalyzer.CrossTU.Gate
import ConcurrencyAnalyzer.CrossTU.LoneUnit
import ConcurrencyAnalyzer.CrossTU.Merge
import ConcurrencyAnalyzer.CrossTU.RuleSelection
import ConcurrencyAnalyzer.LockState.HeldLocks
import ConcurrencyAnalyzer.LockState.Theorems
import ConcurrencyAnalyzer.LockState.Fixpoints
import ConcurrencyAnalyzer.LockState.HeldFlow
import ConcurrencyAnalyzer.LockState.Exclusion
import ConcurrencyAnalyzer.LockState.WrapperSummaries
import ConcurrencyAnalyzer.LockState.WrapperRuns
import ConcurrencyAnalyzer.ThreadCompletion.PathTheorems
import ConcurrencyAnalyzer.ThreadCompletion.JoiningHelperTheorems
import ConcurrencyAnalyzer.TaskConcurrency.FloodTheorems
import ConcurrencyAnalyzer.TaskConcurrency.CorrelatedTheorems
import ConcurrencyAnalyzer.SharedAccess.CallEffectTheorems
import ConcurrencyAnalyzer.SharedAccess.ParameterFootprints
import ConcurrencyAnalyzer.Program.ScalarCalls
import ConcurrencyAnalyzer.AtomicOrdering.Folding
import ConcurrencyAnalyzer.AtomicOrdering.Analysis
import ConcurrencyAnalyzer.AtomicOrdering.Walks
import ConcurrencyAnalyzer.AtomicOrdering.Execution
import ConcurrencyAnalyzer.AtomicOrdering.Agreement
import ConcurrencyAnalyzer.AtomicOrdering.PublicationRuns
import ConcurrencyAnalyzer.AtomicOrdering.PublicationTheorems
import ConcurrencyAnalyzer.CrossTU.UnitOrder
import ConcurrencyAnalyzer.CrossTU.MergeOnce
import ConcurrencyAnalyzer.CrossTU.Scheduling
import ConcurrencyAnalyzer.IRCache.Cache
import ConcurrencyAnalyzer.IRCache.Theorems
import ConcurrencyAnalyzer.IRCache.Runs
import ConcurrencyAnalyzer.CrossTU.Repeated
import ConcurrencyAnalyzer.CrossTU.OneFold
import ConcurrencyAnalyzer.FactsBuilder.LifecycleTheorems
import ConcurrencyAnalyzer.FactsBuilder.OpenLockOrderTheorems
import ConcurrencyAnalyzer.FactsBuilder.AccessSummaryTheorems
import ConcurrencyAnalyzer.TaskConcurrency.RunningThreadsTheorems
import ConcurrencyAnalyzer.ThreadCompletion.ThreadStarterTheorems
import ConcurrencyAnalyzer.Program.ScalarLoops
import ConcurrencyAnalyzer.Program.SlotLoops
import ConcurrencyAnalyzer.Program.SlotCounts
import ConcurrencyAnalyzer.ThreadCompletion.CountedLoop
import ConcurrencyAnalyzer.ThreadCompletion.CountedLoopTheorems
import ConcurrencyAnalyzer.SharedAccess.MergedRanges
import ConcurrencyAnalyzer.MissingJoin.Theorems
import ConcurrencyAnalyzer.FactsBuilder.ConditionWaitTheorems
import ConcurrencyAnalyzer.FactsBuilder.CallCycles
import ConcurrencyAnalyzer.ReportBuilder.Theorems
import ConcurrencyAnalyzer.Reporting.Fingerprints
import ConcurrencyAnalyzer.CompileCommand.Theorems
import ConcurrencyAnalyzer.CompilerDiagnostics.Theorems
import ConcurrencyAnalyzer.SymbolClassifier.Theorems
import ConcurrencyAnalyzer.ThreadCompletion.SlotRangeTheorems
import ConcurrencyAnalyzer.ThreadCompletion.WrittenBounds
import ConcurrencyAnalyzer.MemoryRegions
import ConcurrencyAnalyzer.LockIdRoundTrip
import ConcurrencyAnalyzer.FactsBuilder.LinearIndices
import ConcurrencyAnalyzer.IRCache.DependencyFiles
import ConcurrencyAnalyzer.FactsBuilder.StartedThreads
import ConcurrencyAnalyzer.CrossTU.WorkerPoolTheorems
import ConcurrencyAnalyzer.ThreadEntries.RunTheorems
import ConcurrencyAnalyzer.Project.CachedRuns
import ConcurrencyAnalyzer.Project.CompilationDatabase
import ConcurrencyAnalyzer.ThreadLifecycle.Theorems
import ConcurrencyAnalyzer.ThreadArguments.Theorems
import ConcurrencyAnalyzer.Reporting.DocumentTheorems
import ConcurrencyAnalyzer.ContainedEntries.Theorems
