import ConcurrencyAnalyzer.CrossTU.Scheduling
import ConcurrencyAnalyzer.Library.PeakGauge

namespace ConcurrencyAnalyzer.CrossTU

open FactsBuilder Library.PeakGauge

-- How many units may be in memory at once, for what the standard library knows of the machine.
def liveUnitBound (maxLiveUnits hardware : Nat) : Nat :=
  if maxLiveUnits ≠ 0 then maxLiveUnits else if hardware = 0 then 1 else hardware

-- Where a worker is. It appends a failure to the list by reading and then writing it.
inductive WorkerPhase
  | Idle
  | Taken (number : Nat)
  | Counted (number now : Nat)
  | Raising (number now seen : Nat)
  | Loading (number : Nat)
  | Analysing (number : Nat)
  | Failing (number : Nat)
  | Marking (number : Nat)
  | Clearing (number : Nat)
  | Reading (number : Nat)
  | Writing (number : Nat) (read : List (Nat × FailedUnit))
  | Unlocking
  | Leaving

namespace WorkerPhase

-- How the gauge sees the worker.
def visit : WorkerPhase → Visit
  | Idle | Taken _ => .Away
  | Counted _ now => .Counted now
  | Raising _ now seen => .Raising now seen
  | _ => .Inside

-- The unit the worker still owes its result.
def owes : WorkerPhase → Option Nat
  | Idle | Unlocking | Leaving => none
  | Taken number | Counted number _ | Raising number _ _ | Loading number | Analysing number
  | Failing number | Marking number | Clearing number | Reading number | Writing number _ =>
      some number

def holdsFailureLock : WorkerPhase → Bool
  | Marking _ | Clearing _ | Reading _ | Writing _ _ | Unlocking => true
  | _ => false

def isIdle : WorkerPhase → Bool
  | Idle => true
  | _ => false

end WorkerPhase

-- What the workers share.
structure PoolMemory where
  queue : List Nat := []
  gauge : Gauge := {}
  failureLock : Bool := false
  project : ProjectState := {}

structure PoolState extends PoolMemory where
  workers : List WorkerPhase
  -- The units the submitting thread has not come to.
  pending : List Nat
  submitted : Nat := 0

section Steps

variable (rules : List RuleId) (units : List ProjectUnit) (errors : Pass → Nat → Option CompileError)
  (pass : Pass) (program : ProgramSymbolIndex)

-- One operation of one worker, and the unit it is done with by it.
inductive WorkerStep : PoolMemory → WorkerPhase → Option Nat → PoolMemory → WorkerPhase → Prop
  | take {memory number rest} : memory.queue = number :: rest →
      WorkerStep memory .Idle none { memory with queue := rest } (.Taken number)
  | enter {memory number} :
      WorkerStep memory (.Taken number) none
        { memory with gauge := { memory.gauge with live := memory.gauge.live + 1 } }
        (.Counted number (memory.gauge.live + 1))
  | readPeak {memory number now} :
      WorkerStep memory (.Counted number now) none memory (.Raising number now memory.gauge.peak)
  | exchange {memory number now} : memory.gauge.peak < now →
      WorkerStep memory (.Raising number now memory.gauge.peak) none
        { memory with gauge := { memory.gauge with peak := now } } (.Loading number)
  | lose {memory number now seen} : seen < now →
      WorkerStep memory (.Raising number now seen) none memory
        (.Raising number now memory.gauge.peak)
  | reach {memory number now seen} : now ≤ seen →
      WorkerStep memory (.Raising number now seen) none memory (.Loading number)
  | load {memory number} : errors pass number = none →
      WorkerStep memory (.Loading number) none memory (.Analysing number)
  | loadFails {memory number} : errors pass number ≠ none →
      WorkerStep memory (.Loading number) none memory (.Failing number)
  | build {memory number} :
      WorkerStep memory (.Analysing number) (some number)
        { memory with project := { memory.project with
            factsByUnit := Function.update memory.project.factsByUnit number
              (factsAfter rules units errors pass program number) } }
        .Leaving
  | lock {memory number} : memory.failureLock = false →
      WorkerStep memory (.Failing number) none { memory with failureLock := true } (.Marking number)
  | mark {memory number} :
      WorkerStep memory (.Marking number) none
        { memory with project := { memory.project with
            failed := Function.update memory.project.failed number true } }
        (.Clearing number)
  | clear {memory number} :
      WorkerStep memory (.Clearing number) none
        { memory with project := { memory.project with
            factsByUnit := Function.update memory.project.factsByUnit number {} } }
        (.Reading number)
  | read {memory number} :
      WorkerStep memory (.Reading number) none memory (.Writing number memory.project.failures)
  | write {memory number read} :
      WorkerStep memory (.Writing number read) (some number)
        { memory with project := { memory.project with
            failures := read ++ ((failureOf units errors pass number).map (number, ·)).toList } }
        .Unlocking
  | unlock {memory} : WorkerStep memory .Unlocking none { memory with failureLock := false } .Leaving
  | leave {memory} :
      WorkerStep memory .Leaving none
        { memory with gauge := { memory.gauge with live := memory.gauge.live - 1 } } .Idle

variable (wants : TUFacts → Bool)

-- One operation of one thread. The submitting thread looks at the facts of a unit while the workers
-- rewrite those of others.
inductive PoolStep : PoolState → Option Nat → PoolState → Prop
  | submit {state number rest} : state.pending = number :: rest →
      wants (state.project.factsByUnit number) = true →
      PoolStep state none
        { state with
          pending := rest, submitted := state.submitted + 1, queue := state.queue ++ [number] }
  | pass {state number rest} : state.pending = number :: rest →
      wants (state.project.factsByUnit number) = false →
      PoolStep state none { state with pending := rest }
  | work {state front phase back finished memory after} : state.workers = front ++ phase :: back →
      WorkerStep rules units errors pass program state.toPoolMemory phase finished memory after →
      PoolStep state finished
        { state with toPoolMemory := memory, workers := front ++ after :: back }

-- The workers inside the gauge.
def PoolState.held (state : PoolState) : Nat :=
  state.workers.countP fun phase => phase.visit.isCounted

-- Any interleaving: what the workers were done with so far, in order, and the most of them that were
-- ever inside the gauge at once.
inductive PoolRun (initial : PoolState) : List Nat → Nat → PoolState → Prop
  | start : PoolRun initial [] initial.held initial
  | step {done most state finished next} : PoolRun initial done most state →
      PoolStep rules units errors pass program wants state finished next →
      PoolRun initial (done ++ finished.toList) (max most next.held) next

-- Nothing is left to submit, and the pool is idle: the wait is over.
structure PoolState.Waited (state : PoolState) : Prop where
  pending : state.pending = []
  queue : state.queue = []
  idle : ∀ phase ∈ state.workers, phase.isIdle = true

-- A new pool over the units, with what the pass before left behind.
def openPool (threads : Nat) (pending : List Nat) (gauge : Gauge) (project : ProjectState) : PoolState where
  gauge := gauge
  project := project
  workers := List.replicate threads .Idle
  pending := pending

end Steps

section Projects

variable (rules : List RuleId) (units : List ProjectUnit) (errors : Pass → Nat → Option CompileError)

-- A run of the coordinator: one pool a pass, the second over the units the first left compatible.
structure ProjectRun (threads : Nat) where
  firstDone : List Nat
  firstMost : Nat
  first : PoolState
  firstRun : PoolRun rules units errors .First {} (fun _ => true)
    (openPool threads (List.range units.length) {} {}) firstDone firstMost first
  firstWaited : first.Waited
  secondDone : List Nat
  secondMost : Nat
  second : PoolState
  secondRun : PoolRun rules units errors .Second (indexOf units first.project)
    (fun facts => crossTUChangesFacts facts (indexOf units first.project) (selectionFor rules))
    (openPool threads (compatibleNumbers units first.project) first.gauge first.project)
    secondDone secondMost second
  secondWaited : second.Waited

-- What the coordinator makes of the memory the two pools leave.
def analysisOf (first second : ProjectState) (submitted : Nat) : ScheduledAnalysis :=
  if (loadedNumbers units first).isEmpty then { failedUnits := first.failures.map Prod.snd }
  else
    { report := mergeReports (((compatibleNumbers units first).filter (!second.failed ·)).map
        fun number => finalizeReport (unitDiagnostics rules (second.factsByUnit number)))
      skippedIncompatibleModules := (skippedUnits units first).map (identifierOf units)
      reanalyzedUnitCount := submitted
      failedUnits := (sortFailures second.failures).map Prod.snd }

variable {rules units errors} {threads : Nat}

def ProjectRun.analysis (run : ProjectRun rules units errors threads) : ScheduledAnalysis :=
  analysisOf rules units run.first.project run.second.project run.second.submitted

def ProjectRun.peakLiveUnits (run : ProjectRun rules units errors threads) : Nat :=
  run.second.gauge.peak

-- The most units that were in memory at once, over both passes.
def ProjectRun.mostLiveUnits (run : ProjectRun rules units errors threads) : Nat :=
  max run.firstMost run.secondMost

end Projects

end ConcurrencyAnalyzer.CrossTU
