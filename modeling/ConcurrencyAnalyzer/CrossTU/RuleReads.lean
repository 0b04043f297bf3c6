import ConcurrencyAnalyzer.CrossTU.Coordinator
import ConcurrencyAnalyzer.FactsBuilder.Seeds

namespace ConcurrencyAnalyzer.CrossTU

-- What one rule reports on the facts of a unit.
def ruleDiagnostics (rule : RuleId) (facts : TUFacts) : List Diagnostic :=
  match rule with
  | .DataRaceGlobal => (DataRace.run facts).diagnostics
  | .DeadlockLockOrder => (LockOrder.run facts).diagnostics
  | .MissingJoin => (MissingJoin.run facts).diagnostics
  | .ConditionWaitWithoutPredicate => (ConditionWait.run facts).diagnostics
  | .WeakPublicationOrdering => (PublicationOrdering.run facts).diagnostics
  | .CompilerDiagnostic => []
  | _ => (ProcessLifecycle.run facts).diagnostics.filter (·.ruleId = rule)

-- The facts a rule reads, every other field left out. Without a fork nobody asks whether the program
-- creates threads or reaps its children.
def visibleTo (rule : RuleId) (facts : TUFacts) : TUFacts :=
  match rule with
  | .DataRaceGlobal =>
      { accesses := facts.accesses
        entryConcurrency := facts.entryConcurrency
        reachableThreadEntriesByFunction := facts.reachableThreadEntriesByFunction
        sequencedEntryPairs := facts.sequencedEntryPairs }
  | .DeadlockLockOrder =>
      { lockOrders := facts.lockOrders
        recursiveLockIds := facts.recursiveLockIds
        entryConcurrency := facts.entryConcurrency
        reachableThreadEntriesByFunction := facts.reachableThreadEntriesByFunction
        sequencedEntryPairs := facts.sequencedEntryPairs }
  | .MissingJoin => { threadLifecycles := facts.threadLifecycles }
  | .ConditionWaitWithoutPredicate => { conditionWaits := facts.conditionWaits }
  | .WeakPublicationOrdering =>
      { weakPublications := facts.weakPublications
        entryConcurrency := facts.entryConcurrency
        reachableThreadEntriesByFunction := facts.reachableThreadEntriesByFunction
        sequencedEntryPairs := facts.sequencedEntryPairs }
  | .ForkAfterThreadCreation =>
      { processForks := facts.processForks
        programCreatesThreads := !facts.processForks.isEmpty && facts.programCreatesThreads }
  | .UnreapedChildProcess =>
      { processForks := facts.processForks
        reapsChildProcesses := !facts.processForks.isEmpty && facts.reapsChildProcesses }
  | .ThreadArgumentEscapesFrame => { threadArgumentEscapes := facts.threadArgumentEscapes }
  | .ThreadArgumentFreedEarly => { threadArgumentFrees := facts.threadArgumentFrees }
  | .ThreadLocalOutlivesThread => { expiredThreadLocals := facts.expiredThreadLocals }
  | .UnsafeSignalHandler => { signalHandlers := facts.signalHandlers }
  | .CompilerDiagnostic => {}

theorem dataRace_visible (facts : TUFacts) :
    DataRace.run (visibleTo .DataRaceGlobal facts) = DataRace.run facts := rfl

section LockOrder

variable (facts : TUFacts)

theorem walkOrders_visible (start : Nat)
    (descend : LockOrder.WalkState → Bool × LockOrder.WalkState) (lock : Nat)
    (orders : List LockOrderFact) (state : LockOrder.WalkState) :
    LockOrder.walkOrders (visibleTo .DeadlockLockOrder facts) start descend lock orders state =
      LockOrder.walkOrders facts start descend lock orders state := by
  induction orders generalizing state with
  | nil => rfl
  | cons order orders ih =>
      have hparallel (taken : List LockOrderFact) :
          LockOrder.mayHappenInParallelWithEach order taken (visibleTo .DeadlockLockOrder facts) =
            LockOrder.mayHappenInParallelWithEach order taken facts := rfl
      have hclose : LockOrder.closeCycle (visibleTo .DeadlockLockOrder facts) =
          LockOrder.closeCycle facts := rfl
      simp only [LockOrder.walkOrders, ih, hparallel, hclose]

theorem walkSuccessors_visible (start : Nat) (leadsToStart : Finset Nat)
    (descend : Nat → LockOrder.WalkState → Bool × LockOrder.WalkState)
    (successors : List LockOrder.LockSuccessor) (state : LockOrder.WalkState) :
    LockOrder.walkSuccessors (visibleTo .DeadlockLockOrder facts) start leadsToStart descend
        successors state =
      LockOrder.walkSuccessors facts start leadsToStart descend successors state := by
  induction successors generalizing state with
  | nil => rfl
  | cons successor successors ih =>
      simp only [LockOrder.walkSuccessors, ih, walkOrders_visible]

theorem walk_visible (start : Nat) (graph : LockOrder.LockGraph) (leadsToStart : Finset Nat)
    (fuel : Nat) :
    LockOrder.walk (visibleTo .DeadlockLockOrder facts) start graph leadsToStart fuel =
      LockOrder.walk facts start graph leadsToStart fuel := by
  induction fuel with
  | zero => rfl
  | succ fuel ih =>
      funext lock state
      simp only [LockOrder.walk, ih, walkSuccessors_visible]

theorem walkAll_visible (graph : LockOrder.LockGraph) (starts : List Nat)
    (result : Bool × LockOrder.WalkState) :
    LockOrder.walkAll (visibleTo .DeadlockLockOrder facts) graph starts result =
      LockOrder.walkAll facts graph starts result := by
  induction starts generalizing result with
  | nil => rfl
  | cons start starts ih =>
      simp only [LockOrder.walkAll, LockOrder.walkFrom, walk_visible, ih]

theorem lockOrder_visible :
    LockOrder.run (visibleTo .DeadlockLockOrder facts) = LockOrder.run facts := by
  have horders : LockOrder.cycleOrders (visibleTo .DeadlockLockOrder facts) =
      LockOrder.cycleOrders facts := rfl
  have hself : LockOrder.selfDeadlocks (visibleTo .DeadlockLockOrder facts) =
      LockOrder.selfDeadlocks facts := rfl
  have hemit : LockOrder.emitOnce (visibleTo .DeadlockLockOrder facts) =
      LockOrder.emitOnce facts := rfl
  have hsearch (graph : LockOrder.LockGraph) :
      LockOrder.reportDeadlockingCycles (visibleTo .DeadlockLockOrder facts) graph =
        LockOrder.reportDeadlockingCycles facts graph := by
    unfold LockOrder.reportDeadlockingCycles
    rw [walkAll_visible, hemit]
  unfold LockOrder.run
  rw [horders, hself, hsearch]

end LockOrder

section ProcessLifecycle

open ProcessLifecycle

@[simp] theorem ruleId_withEntry (diagnostic : Diagnostic) (entryFunctionId : String) :
    (withEntry diagnostic entryFunctionId).ruleId = diagnostic.ruleId := by
  unfold withEntry
  split <;> rfl

theorem ruleId_escapeDiagnostic (escape : ThreadArgumentEscapeFact) :
    (escapeDiagnostic escape).ruleId = .ThreadArgumentEscapesFrame := by
  rw [escapeDiagnostic, ruleId_withEntry]
  rfl

theorem ruleId_freeDiagnostic (freed : ThreadArgumentFreeFact) :
    (freeDiagnostic freed).ruleId = .ThreadArgumentFreedEarly := by
  rw [freeDiagnostic, ruleId_withEntry]
  rfl

theorem filter_map_ruleId {α : Type} {make : α → Diagnostic} {own : RuleId}
    (hown : ∀ fact, (make fact).ruleId = own) (rule : RuleId) (facts : List α) :
    (facts.map make).filter (·.ruleId = rule) = if rule = own then facts.map make else [] := by
  by_cases h : rule = own
  · simp [List.filter_map, Function.comp_def, hown, h]
  · simp [List.filter_map, Function.comp_def, hown, h, Ne.symm h]

theorem filter_forkDiagnostics (rule : RuleId) (createsThreads reapsChildProcesses : Bool)
    (fork : ProcessForkFact) :
    (forkDiagnostics createsThreads reapsChildProcesses fork).filter (·.ruleId = rule) =
      forkDiagnostics (decide (rule = .ForkAfterThreadCreation) && createsThreads)
        (!decide (rule = .UnreapedChildProcess) || reapsChildProcesses) fork := by
  have hfork : (forkDiagnostic fork).ruleId = .ForkAfterThreadCreation := rfl
  have hunreaped : (unreapedDiagnostic fork).ruleId = .UnreapedChildProcess := rfl
  unfold forkDiagnostics
  cases fork.execReachable <;> cases createsThreads <;> cases reapsChildProcesses <;>
    cases rule <;> simp [hfork, hunreaped]

theorem forkDiagnostics_none (fork : ProcessForkFact) : forkDiagnostics false true fork = [] := by
  simp [forkDiagnostics]

-- The part of the process-lifecycle report that one rule makes.
theorem filter_processLifecycle (rule : RuleId) (facts : TUFacts) :
    (run facts).diagnostics.filter (·.ruleId = rule) =
      (facts.processForks.flatMap (forkDiagnostics
          (decide (rule = .ForkAfterThreadCreation) && facts.programCreatesThreads)
          (!decide (rule = .UnreapedChildProcess) || facts.reapsChildProcesses))) ++
        (if rule = .ThreadArgumentEscapesFrame then
          facts.threadArgumentEscapes.map escapeDiagnostic else []) ++
        (if rule = .ThreadArgumentFreedEarly then
          facts.threadArgumentFrees.map freeDiagnostic else []) ++
        (if rule = .ThreadLocalOutlivesThread then
          facts.expiredThreadLocals.map expiredDiagnostic else []) ++
        (if rule = .UnsafeSignalHandler then
          facts.signalHandlers.map handlerDiagnostic else []) := by
  have hexpired (fact : ExpiredThreadLocalFact) :
      (expiredDiagnostic fact).ruleId = .ThreadLocalOutlivesThread := rfl
  have hhandler (fact : SignalHandlerFact) :
      (handlerDiagnostic fact).ruleId = .UnsafeSignalHandler := rfl
  simp only [run, List.filter_append, List.filter_flatMap, filter_forkDiagnostics,
    filter_map_ruleId ruleId_escapeDiagnostic, filter_map_ruleId ruleId_freeDiagnostic,
    filter_map_ruleId hexpired, filter_map_ruleId hhandler]

end ProcessLifecycle

theorem ruleDiagnostics_visible (rule : RuleId) (facts : TUFacts) :
    ruleDiagnostics rule (visibleTo rule facts) = ruleDiagnostics rule facts := by
  cases rule
  case DataRaceGlobal => exact congrArg DiagnosticReport.diagnostics (dataRace_visible facts)
  case DeadlockLockOrder => exact congrArg DiagnosticReport.diagnostics (lockOrder_visible facts)
  case MissingJoin => rfl
  case ConditionWaitWithoutPredicate => rfl
  case WeakPublicationOrdering => rfl
  case CompilerDiagnostic => rfl
  all_goals
    simp only [ruleDiagnostics, filter_processLifecycle, visibleTo]
    cases facts.processForks <;> simp [forkDiagnostics_none]

-- Facts that a rule reads alike give it the same diagnostics.
theorem ruleDiagnostics_congr {rule : RuleId} {facts other : TUFacts}
    (h : visibleTo rule facts = visibleTo rule other) :
    ruleDiagnostics rule facts = ruleDiagnostics rule other := by
  rw [← ruleDiagnostics_visible rule facts, h, ruleDiagnostics_visible]

open FactsBuilder FactSelection

-- A rule reads the same facts whatever else is selected with it.
theorem visibleTo_build (rule : RuleId) {unit : TranslationUnit} {selection : FactSelection}
    {program : Option ProgramSymbolIndex}
    (h : Includes selection (forRules [rule] program.isSome)) :
    visibleTo rule (build unit selection program) =
      visibleTo rule (build unit everything program) := by
  have hpart (flag : FactSelection → Bool) (himp : flag (forRules [rule] program.isSome) = true →
      flag selection = true) (hown : ∀ project, flag (forRules [rule] project) = true) :
      flag selection = true := himp (hown _)
  have hjoins (hown : (forRules [rule] true).channels.helperJoins = true) :
      program.isSome = true → selection.channels.helperJoins = true := by
    intro hprogram
    rw [hprogram] at h
    exact h.helperJoins hown
  cases rule with
  | CompilerDiagnostic => rfl
  | DataRaceGlobal =>
      have hentries := hpart (·.threadEntries) h.threadEntries (by decide)
      have haccesses := hpart (·.accesses) h.accesses (by decide)
      simp only [visibleTo, build, accesses_eq hentries haccesses (hjoins rfl),
        entryConcurrency_eq hentries (hjoins rfl), reachableThreadEntries_eq hentries (hjoins rfl),
        taskConcurrency_eq hentries (hjoins rfl)]
  | DeadlockLockOrder =>
      have hentries := hpart (·.threadEntries) h.threadEntries (by decide)
      have horders := hpart (·.lockOrders) h.lockOrders (by decide)
      have hrecursive := hpart (·.recursiveLockIds) h.recursiveLockIds (by decide)
      have heverything : everything.recursiveLockIds = true := rfl
      simp only [visibleTo, build, lockOrders_eq hentries horders (hjoins rfl), hrecursive,
        heverything, entryConcurrency_eq hentries (hjoins rfl),
        reachableThreadEntries_eq hentries (hjoins rfl), taskConcurrency_eq hentries (hjoins rfl)]
  | WeakPublicationOrdering =>
      have hentries := hpart (·.threadEntries) h.threadEntries (by decide)
      have haccesses := hpart (·.accesses) h.accesses (by decide)
      have hweak := hpart (·.weakPublications) h.weakPublications (by decide)
      have heverything : (everything.accesses && everything.weakPublications) = true := rfl
      simp only [visibleTo, build, publications_eq hentries haccesses, haccesses, hweak,
        heverything, Bool.and_self, entryConcurrency_eq hentries (hjoins rfl),
        reachableThreadEntries_eq hentries (hjoins rfl), taskConcurrency_eq hentries (hjoins rfl)]
  | MissingJoin =>
      have hlifecycles := hpart (·.threadLifecycles) h.threadLifecycles (by decide)
      simp only [visibleTo, build, threadLifecycles_eq hlifecycles (hjoins rfl)]
  | ConditionWaitWithoutPredicate =>
      have hwaits := hpart (·.conditionWaits) h.conditionWaits (by decide)
      have hsites : selection.directCallSites = true := by
        simp [FactSelection.directCallSites, hwaits]
      have heverything : everything.conditionWaits = true := rfl
      simp only [visibleTo, build, hwaits, heverything, directCallSites_eq hsites]
  | UnsafeSignalHandler =>
      have hhandlers := hpart (·.signalHandlers) h.signalHandlers (by decide)
      have hsites : selection.directCallSites = true := by
        simp [FactSelection.directCallSites, hhandlers]
      have heverything : everything.signalHandlers = true := rfl
      simp only [visibleTo, build, hhandlers, heverything, directCallSites_eq hsites]
  | ForkAfterThreadCreation =>
      have hprocess := hpart (·.processLifecycle) h.processLifecycle (by decide)
      have heverything : everything.processLifecycle = true := rfl
      simp only [visibleTo, build, hprocess, heverything, processForks_eq hprocess,
        spawnFacts_eq_of_processLifecycle hprocess]
  | UnreapedChildProcess =>
      have hprocess := hpart (·.processLifecycle) h.processLifecycle (by decide)
      have heverything : everything.processLifecycle = true := rfl
      simp only [visibleTo, build, hprocess, heverything, processForks_eq hprocess]
  | ThreadArgumentEscapesFrame =>
      have hselected := hpart (·.threadArgumentEscapes) h.threadArgumentEscapes (by decide)
      have hreads : selection.readsCompletions = true := by simp [readsCompletions, hselected]
      have heverything : everything.threadArgumentEscapes = true := rfl
      simp only [visibleTo, build, hselected, heverything,
        lifetimes_eq hreads (hjoins rfl) (by simp [hselected])]
  | ThreadArgumentFreedEarly =>
      have hselected := hpart (·.threadArgumentFrees) h.threadArgumentFrees (by decide)
      have hreads : selection.readsCompletions = true := by simp [readsCompletions, hselected]
      have heverything : everything.threadArgumentFrees = true := rfl
      simp only [visibleTo, build, hselected, heverything,
        lifetimes_eq hreads (hjoins rfl) (by simp [hselected])]
  | ThreadLocalOutlivesThread =>
      have hselected := hpart (·.expiredThreadLocals) h.expiredThreadLocals (by decide)
      have hreads : selection.readsCompletions = true := by simp [readsCompletions, hselected]
      have heverything : everything.expiredThreadLocals = true := rfl
      simp only [visibleTo, build, hselected, heverything,
        lifetimes_eq hreads (hjoins rfl) (by simp [hselected])]

section Seeds

variable {unit : TranslationUnit} {index other : ProgramSymbolIndex}

theorem visibleTo_lockOrder_seeded (h : LocksSeededAlike unit index other)
    (hsummaries : FactsBuilder.lockWrapperSummaries unit everything (some index) =
      FactsBuilder.lockWrapperSummaries unit everything (some other)) :
    visibleTo .DeadlockLockOrder (build unit everything (some index)) =
      visibleTo .DeadlockLockOrder (build unit everything (some other)) := by
  simp only [visibleTo, build, h.lockOrders hsummaries, h.entries, h.reachableThreadEntries,
    taskConcurrency_of_joins h.joins]

variable (h : SeededAlike unit index other)

include h

theorem visibleTo_publication_seeded :
    visibleTo .WeakPublicationOrdering (build unit everything (some index)) =
      visibleTo .WeakPublicationOrdering (build unit everything (some other)) := by
  simp only [visibleTo, build, h.publications, h.entries, h.reachableThreadEntries,
    taskConcurrency_of_joins h.joins]

theorem visibleTo_dataRace_seeded
    (hsummaries : FactsBuilder.lockWrapperSummaries unit everything (some index) =
      FactsBuilder.lockWrapperSummaries unit everything (some other))
    (hobjects : sharedObjectBindings unit everything (some index) =
      sharedObjectBindings unit everything (some other)) :
    visibleTo .DataRaceGlobal (build unit everything (some index)) =
      visibleTo .DataRaceGlobal (build unit everything (some other)) := by
  simp only [visibleTo, build, h.accesses hsummaries hobjects, h.entries,
    h.reachableThreadEntries, taskConcurrency_of_joins h.joins]

end Seeds

end ConcurrencyAnalyzer.CrossTU
