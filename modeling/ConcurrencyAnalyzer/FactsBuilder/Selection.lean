import ConcurrencyAnalyzer.Report

namespace ConcurrencyAnalyzer

structure CrossUnitChannels where
  externGlobals : Bool := false
  helperLockEffects : Bool := false
  entryConcurrency : Bool := false
  programThreads : Bool := false
  programReaps : Bool := false
  resolvedHandles : Bool := false
  helperJoins : Bool := false
  deriving DecidableEq, Repr

structure FactSelection where
  accesses : Bool := false
  lockOrders : Bool := false
  recursiveLockIds : Bool := false
  threadLifecycles : Bool := false
  conditionWaits : Bool := false
  processLifecycle : Bool := false
  threadArgumentEscapes : Bool := false
  threadArgumentFrees : Bool := false
  expiredThreadLocals : Bool := false
  signalHandlers : Bool := false
  weakPublications : Bool := false
  threadEntries : Bool := false
  program : Bool := false
  channels : CrossUnitChannels := {}
  deriving DecidableEq, Repr

namespace FactSelection

def directCallSites (selection : FactSelection) : Bool :=
  selection.accesses || selection.lockOrders || selection.threadLifecycles ||
    selection.conditionWaits || selection.processLifecycle || selection.signalHandlers ||
    selection.threadEntries

def spawns (selection : FactSelection) : Bool :=
  selection.threadEntries || selection.processLifecycle || selection.channels.programThreads

def lockWrapperSummaries (selection : FactSelection) : Bool :=
  selection.accesses || selection.lockOrders || selection.channels.helperLockEffects

def lockState (selection : FactSelection) : Bool :=
  selection.accesses || selection.lockOrders

def taskConcurrency (selection : FactSelection) : Bool :=
  selection.threadEntries || selection.accesses || selection.lockOrders

-- The local of `TUFactsBuilder::build` under this name.
def readsCompletions (selection : FactSelection) : Bool :=
  selection.taskConcurrency || selection.threadLifecycles || selection.threadArgumentEscapes ||
    selection.threadArgumentFrees || selection.expiredThreadLocals

theorem directCallSites_of_threadEntries {selection : FactSelection}
    (h : selection.threadEntries = true) : selection.directCallSites = true := by
  simp [directCallSites, h]

theorem readsCompletions_of_threadEntries {selection : FactSelection}
    (h : selection.threadEntries = true) : selection.readsCompletions = true := by
  simp [readsCompletions, taskConcurrency, h]

-- One round of the loop over the selected rules.
def addRule (selection : FactSelection) : RuleId → FactSelection
  | .DataRaceGlobal =>
      { selection with
        accesses := true
        threadEntries := true
        channels := { selection.channels with
          externGlobals := true
          helperLockEffects := true
          entryConcurrency := true
          helperJoins := true } }
  | .DeadlockLockOrder =>
      { selection with
        lockOrders := true
        recursiveLockIds := true
        threadEntries := true
        channels := { selection.channels with
          helperLockEffects := true
          entryConcurrency := true
          helperJoins := true } }
  | .MissingJoin =>
      { selection with
        threadLifecycles := true
        channels := { selection.channels with resolvedHandles := true, helperJoins := true } }
  | .ConditionWaitWithoutPredicate => { selection with conditionWaits := true }
  | .ForkAfterThreadCreation =>
      { selection with
        processLifecycle := true
        channels := { selection.channels with programThreads := true } }
  | .UnreapedChildProcess =>
      { selection with
        processLifecycle := true
        channels := { selection.channels with programReaps := true } }
  | .ThreadArgumentEscapesFrame =>
      { selection with
        threadArgumentEscapes := true
        channels := { selection.channels with helperJoins := true } }
  | .ThreadArgumentFreedEarly =>
      { selection with
        threadArgumentFrees := true
        channels := { selection.channels with helperJoins := true } }
  | .ThreadLocalOutlivesThread =>
      { selection with
        expiredThreadLocals := true
        channels := { selection.channels with helperJoins := true } }
  | .UnsafeSignalHandler => { selection with signalHandlers := true }
  | .WeakPublicationOrdering =>
      { selection with
        accesses := true
        threadEntries := true
        weakPublications := true
        channels := { selection.channels with
          externGlobals := true
          entryConcurrency := true
          helperJoins := true } }
  | .CompilerDiagnostic => selection

def forRules (rules : List RuleId) (projectAnalysis : Bool) : FactSelection :=
  let selection := rules.foldl addRule {}
  if projectAnalysis then
    { selection with
      program := true
      threadEntries := selection.threadEntries || selection.channels.entryConcurrency
      threadLifecycles := selection.threadLifecycles || selection.channels.resolvedHandles }
  else { selection with channels := {} }

def enabledRules : List RuleId :=
  [.DataRaceGlobal, .MissingJoin, .DeadlockLockOrder, .ConditionWaitWithoutPredicate,
    .ForkAfterThreadCreation, .UnreapedChildProcess, .ThreadArgumentEscapesFrame,
    .UnsafeSignalHandler, .WeakPublicationOrdering, .ThreadArgumentFreedEarly,
    .ThreadLocalOutlivesThread]

def everything : FactSelection := forRules enabledRules true

-- Every fact and every channel of one selection is in another.
structure Includes (selection part : FactSelection) : Prop where
  accesses : part.accesses = true → selection.accesses = true
  lockOrders : part.lockOrders = true → selection.lockOrders = true
  recursiveLockIds : part.recursiveLockIds = true → selection.recursiveLockIds = true
  threadLifecycles : part.threadLifecycles = true → selection.threadLifecycles = true
  conditionWaits : part.conditionWaits = true → selection.conditionWaits = true
  processLifecycle : part.processLifecycle = true → selection.processLifecycle = true
  threadArgumentEscapes :
    part.threadArgumentEscapes = true → selection.threadArgumentEscapes = true
  threadArgumentFrees : part.threadArgumentFrees = true → selection.threadArgumentFrees = true
  expiredThreadLocals : part.expiredThreadLocals = true → selection.expiredThreadLocals = true
  signalHandlers : part.signalHandlers = true → selection.signalHandlers = true
  weakPublications : part.weakPublications = true → selection.weakPublications = true
  threadEntries : part.threadEntries = true → selection.threadEntries = true
  program : part.program = true → selection.program = true
  externGlobals : part.channels.externGlobals = true → selection.channels.externGlobals = true
  helperLockEffects :
    part.channels.helperLockEffects = true → selection.channels.helperLockEffects = true
  entryConcurrency :
    part.channels.entryConcurrency = true → selection.channels.entryConcurrency = true
  programThreads : part.channels.programThreads = true → selection.channels.programThreads = true
  programReaps : part.channels.programReaps = true → selection.channels.programReaps = true
  resolvedHandles :
    part.channels.resolvedHandles = true → selection.channels.resolvedHandles = true
  helperJoins : part.channels.helperJoins = true → selection.channels.helperJoins = true

theorem Includes.refl (selection : FactSelection) : Includes selection selection := by
  constructor <;> exact id

theorem Includes.trans {selection middle part : FactSelection} (h : Includes selection middle)
    (hm : Includes middle part) : Includes selection part where
  accesses := h.accesses ∘ hm.accesses
  lockOrders := h.lockOrders ∘ hm.lockOrders
  recursiveLockIds := h.recursiveLockIds ∘ hm.recursiveLockIds
  threadLifecycles := h.threadLifecycles ∘ hm.threadLifecycles
  conditionWaits := h.conditionWaits ∘ hm.conditionWaits
  processLifecycle := h.processLifecycle ∘ hm.processLifecycle
  threadArgumentEscapes := h.threadArgumentEscapes ∘ hm.threadArgumentEscapes
  threadArgumentFrees := h.threadArgumentFrees ∘ hm.threadArgumentFrees
  expiredThreadLocals := h.expiredThreadLocals ∘ hm.expiredThreadLocals
  signalHandlers := h.signalHandlers ∘ hm.signalHandlers
  weakPublications := h.weakPublications ∘ hm.weakPublications
  threadEntries := h.threadEntries ∘ hm.threadEntries
  program := h.program ∘ hm.program
  externGlobals := h.externGlobals ∘ hm.externGlobals
  helperLockEffects := h.helperLockEffects ∘ hm.helperLockEffects
  entryConcurrency := h.entryConcurrency ∘ hm.entryConcurrency
  programThreads := h.programThreads ∘ hm.programThreads
  programReaps := h.programReaps ∘ hm.programReaps
  resolvedHandles := h.resolvedHandles ∘ hm.resolvedHandles
  helperJoins := h.helperJoins ∘ hm.helperJoins

theorem includes_addRule (selection : FactSelection) (rule : RuleId) :
    Includes (addRule selection rule) selection := by
  cases rule <;> constructor <;> simp [addRule]

theorem addRule_includes_rule (selection : FactSelection) (rule : RuleId) :
    Includes (addRule selection rule) (addRule {} rule) := by
  cases rule <;> constructor <;> simp [addRule]

theorem includes_foldl_addRule (rules : List RuleId) (selection : FactSelection) :
    Includes (rules.foldl addRule selection) selection := by
  induction rules generalizing selection with
  | nil => exact Includes.refl selection
  | cons rule rules ih => exact (ih (addRule selection rule)).trans (includes_addRule selection rule)

theorem foldl_addRule_includes_rule {rule : RuleId} {rules : List RuleId} (h : rule ∈ rules)
    (selection : FactSelection) : Includes (rules.foldl addRule selection) (addRule {} rule) := by
  induction rules generalizing selection with
  | nil => exact absurd h (List.not_mem_nil)
  | cons head rules ih =>
      rcases List.mem_cons.mp h with rfl | h
      · exact (includes_foldl_addRule rules _).trans (addRule_includes_rule selection rule)
      · exact ih h _

-- What a rule reads alone is selected with it among others.
theorem forRules_includes {rule : RuleId} {rules : List RuleId} (h : rule ∈ rules)
    (projectAnalysis : Bool) :
    Includes (forRules rules projectAnalysis) (forRules [rule] projectAnalysis) := by
  have hfold := foldl_addRule_includes_rule h {}
  cases projectAnalysis with
  | false =>
      constructor <;> simp only [forRules, List.foldl_cons, List.foldl_nil, Bool.false_eq_true,
        if_false, imp_self]
      exacts [hfold.accesses, hfold.lockOrders, hfold.recursiveLockIds, hfold.threadLifecycles,
        hfold.conditionWaits, hfold.processLifecycle, hfold.threadArgumentEscapes,
        hfold.threadArgumentFrees, hfold.expiredThreadLocals, hfold.signalHandlers,
        hfold.weakPublications, hfold.threadEntries, hfold.program]
  | true =>
      constructor <;> simp only [forRules, List.foldl_cons, List.foldl_nil, if_true,
        Bool.or_eq_true, imp_self]
      exacts [hfold.accesses, hfold.lockOrders, hfold.recursiveLockIds,
        Or.imp hfold.threadLifecycles hfold.resolvedHandles, hfold.conditionWaits,
        hfold.processLifecycle, hfold.threadArgumentEscapes, hfold.threadArgumentFrees,
        hfold.expiredThreadLocals, hfold.signalHandlers, hfold.weakPublications,
        Or.imp hfold.threadEntries hfold.entryConcurrency, hfold.externGlobals,
        hfold.helperLockEffects, hfold.entryConcurrency, hfold.programThreads,
        hfold.programReaps, hfold.resolvedHandles, hfold.helperJoins]

end FactSelection

end ConcurrencyAnalyzer
