import ConcurrencyAnalyzer.CrossTU.Gate
import ConcurrencyAnalyzer.DataRace.Relabelled
import ConcurrencyAnalyzer.LockOrder.Relabelled

namespace ConcurrencyAnalyzer.CrossTU

open FactsBuilder Library
open FactSelection (everything)

-- A reading of a unit without what it says of entries that have no body in the unit.
section Defined

variable (unit : TranslationUnit)

def defines (functionId : String) : Bool :=
  unit.functions.any fun function => function.id = functionId && !function.isDeclaration

def definedEntries (entries : ThreadEntrySet) : ThreadEntrySet :=
  entries.filter fun entry => defines unit entry

def definedConcurrency (concurrencyOf : String → Option EntryConcurrencyInfo) :
    String → Option EntryConcurrencyInfo := fun entryId =>
  if defines unit entryId then concurrencyOf entryId else none

def definedPairs (pairs : Finset EntryPair) : Finset EntryPair :=
  pairs.filter fun pair => defines unit pair.1 ∧ defines unit pair.2

def definedTasks (tasks : TaskConcurrencyResult) : TaskConcurrencyResult where
  rootTaskFunctions := tasks.rootTaskFunctions
  liveEntriesAtInstruction := fun instruction =>
    some (definedEntries unit ((tasks.liveEntriesAtInstruction instruction).getD ∅))
  startedEntriesAtInstruction := fun instruction =>
    some (definedEntries unit ((tasks.startedEntriesAtInstruction instruction).getD ∅))
  sequencedEntryPairs := definedPairs unit tasks.sequencedEntryPairs
  overlappingSpawnEntries := definedEntries unit tasks.overlappingSpawnEntries

def definedAccess (access : AccessFact) : AccessFact :=
  { access with
    liveEntries := definedEntries unit access.liveEntries
    startedEntries := definedEntries unit access.startedEntries }

def definedOrder (order : LockOrderFact) : LockOrderFact :=
  { order with
    liveEntries := definedEntries unit order.liveEntries
    startedEntries := definedEntries unit order.startedEntries }

def definedLockInputs (inputs : LockOrderInputs) : LockOrderInputs :=
  { inputs with
    taskConcurrency := definedTasks unit inputs.taskConcurrency
    entryConcurrency := definedConcurrency unit inputs.entryConcurrency }

def definedAccessInputs (inputs : AccessInputs) : AccessInputs :=
  { inputs with
    taskConcurrency := definedTasks unit inputs.taskConcurrency
    entryConcurrency := definedConcurrency unit inputs.entryConcurrency }

def definedSummary (summary : String × List ParameterizedAccess) :
    String × List ParameterizedAccess :=
  (summary.1, summary.2.map fun access => { access with fact := definedAccess unit access.fact })

def definedSummaries (summaries : AccessSummaries) : AccessSummaries where
  concreteAccesses := summaries.concreteAccesses.map (definedAccess unit)
  summariesByFunction := summaries.summariesByFunction.map (definedSummary unit)

def definedFacts (facts : TUFacts) : TUFacts :=
  { facts with
    accesses := facts.accesses.map (definedAccess unit)
    lockOrders := facts.lockOrders.map (definedOrder unit)
    entryConcurrency := definedConcurrency unit facts.entryConcurrency
    sequencedEntryPairs := definedPairs unit facts.sequencedEntryPairs
    reachableThreadEntriesByFunction := fun functionId =>
      if defines unit functionId then facts.reachableThreadEntriesByFunction functionId else none }

-- What the collectors make of an entry with a body in the unit does not depend on what is known of
-- the others, and the code of the unit runs in such entries only. In a program the order that the
-- guards of static objects give has keys of its own for each of the guards.
structure ReadsDefinedEntries : Prop where
  spawns : ∀ sites entryId, defines unit entryId = true →
    (unit.collectSpawns sites true).entryConcurrency entryId =
      (unit.collectSpawns sites false).entryConcurrency entryId
  bindings : ∀ sites globals concurrencyOf,
    unit.collectSharedObjectBindings sites globals (definedConcurrency unit concurrencyOf) =
      unit.collectSharedObjectBindings sites globals concurrencyOf
  contexts : ∀ sites concurrencyOf functionId, defines unit functionId = true →
    unit.collectThreadContexts sites (definedConcurrency unit concurrencyOf) functionId =
      unit.collectThreadContexts sites concurrencyOf functionId
  contextsDefined : ∀ sites concurrencyOf functionId entries, defines unit functionId = true →
    unit.collectThreadContexts sites concurrencyOf functionId = some entries →
      ∀ entry ∈ entries, defines unit entry = true
  lockOrders : ∀ inputs, (unit.collectLockOrders inputs).map (definedOrder unit) =
    unit.collectLockOrders (definedLockInputs unit inputs)
  ordersDefined : ∀ inputs, ∀ order ∈ unit.collectLockOrders inputs,
    defines unit order.functionId = true
  summaries : ∀ inputs, definedSummaries unit (unit.summarizeAccesses inputs) =
    unit.summarizeAccesses (definedAccessInputs unit inputs)
  projected : ∀ inputs accesses, (unit.projectAccesses inputs accesses).map (definedAccess unit) =
    unit.projectAccesses (definedAccessInputs unit inputs) (accesses.map (definedAccess unit))
  initialized : ∀ accesses program,
    (unit.orderStaticInitialization accesses program).map (definedAccess unit) =
      unit.orderStaticInitialization (accesses.map (definedAccess unit)) program
  accessesDefined : ∀ inputs program, ∀ access ∈ placeAccesses unit inputs program,
    defines unit access.functionId = true
  keysApart : ∀ accesses, ∃ labels : AccessFact → DataRace.Labels,
    unit.orderStaticInitialization accesses true =
        (unit.orderStaticInitialization accesses false).map (DataRace.relabel labels) ∧
      ∀ lhs ∈ unit.orderStaticInitialization accesses false,
        (labels lhs).liveEntries = lhs.liveEntries ∧
        ∀ rhs ∈ unit.orderStaticInitialization accesses false,
          DataRace.orderedByPublication (DataRace.relabel labels lhs) (DataRace.relabel labels rhs) =
            DataRace.orderedByPublication lhs rhs
  publishersDefined : ∀ accesses sites spawns program, ∀ weak ∈
    (unit.analyzePublications accesses sites spawns program).weakPublications,
      defines unit weak.publisherFunctionId = true ∧ defines unit weak.readerFunctionId = true

-- The task analysis says the same of the entries with a body here, whether or not it follows the
-- threads started at others.
def TasksAlike : Prop :=
  definedTasks unit (taskConcurrency unit everything (some {})) =
    definedTasks unit (taskConcurrency unit everything none)

end Defined

section Facts

variable {unit : TranslationUnit} {facts : TUFacts}

theorem mem_definedEntries {entries : ThreadEntrySet} {entry : String}
    (hentry : defines unit entry = true) : entry ∈ definedEntries unit entries ↔ entry ∈ entries := by
  rw [definedEntries, Finset.mem_filter]
  exact and_iff_left hentry

theorem answerAlike_definedFacts :
    AnswerAlike (fun entry => defines unit entry = true) facts (definedFacts unit facts) where
  counted entry hentry := by
    unfold entryIsSelfConcurrent
    rw [show (definedFacts unit facts).entryConcurrency entry = facts.entryConcurrency entry from
      if_pos hentry]
  sequenced entry hentry beside hbeside := by
    have hpair : defines unit (makeEntryPair entry beside).1 = true ∧
        defines unit (makeEntryPair entry beside).2 = true := by
      unfold makeEntryPair
      split
      · exact ⟨hbeside, hentry⟩
      · exact ⟨hentry, hbeside⟩
    show _ ∈ definedPairs unit facts.sequencedEntryPairs ↔ _
    rw [definedPairs, Finset.mem_filter]
    exact and_iff_left hpair

-- The code whose accesses and lock orders are judged runs in entries with a body here.
structure RunsDefined (unit : TranslationUnit) (facts : TUFacts) : Prop where
  accesses : ∀ access ∈ facts.accesses, defines unit access.functionId = true
  lockOrders : ∀ order ∈ facts.lockOrders, defines unit order.functionId = true
  contexts : ∀ functionId entries, defines unit functionId = true →
    facts.reachableThreadEntriesByFunction functionId = some entries →
      ∀ entry ∈ entries, defines unit entry = true

theorem RunsDefined.entries (h : RunsDefined unit facts) {functionId : String}
    (hfunction : defines unit functionId = true) :
    ∀ entry ∈ (facts.reachableThreadEntriesByFunction functionId).getD ∅,
      defines unit entry = true := by
  intro entry hentry
  cases hcontexts : facts.reachableThreadEntriesByFunction functionId with
  | none => simp [hcontexts] at hentry
  | some entries =>
      rw [hcontexts, Option.getD_some] at hentry
      exact h.contexts functionId entries hfunction hcontexts entry hentry

theorem dataRace_definedFacts (h : RunsDefined unit facts) :
    DataRace.run (definedFacts unit facts) = DataRace.run facts := by
  have hrelabelled : DataRace.Relabelled (fun entry => defines unit entry = true)
      (fun access => ⟨definedEntries unit access.liveEntries, definedEntries unit access.startedEntries,
        access.beforeRelease, access.afterAcquire⟩) facts (definedFacts unit facts) :=
    { toAnswerAlike := answerAlike_definedFacts
      accesses := rfl
      contexts := fun access haccess => if_pos (h.accesses access haccess)
      entries := fun access haccess => h.entries (h.accesses access haccess)
      live := fun _ _ _ hentry => mem_definedEntries hentry
      ordered := fun _ _ _ _ => rfl }
  exact DataRace.run_relabel hrelabelled

theorem lockOrder_definedFacts (h : RunsDefined unit facts) :
    LockOrder.run (definedFacts unit facts) = LockOrder.run facts := by
  have hrelabelled : LockOrder.Relabelled (fun entry => defines unit entry = true)
      (fun order => ⟨definedEntries unit order.liveEntries, definedEntries unit order.startedEntries⟩)
      facts (definedFacts unit facts) :=
    { toAnswerAlike := answerAlike_definedFacts
      lockOrders := rfl
      recursive := rfl
      contexts := fun order horder => if_pos (h.lockOrders order horder)
      entries := fun order horder => h.entries (h.lockOrders order horder)
      live := fun _ _ _ hentry => mem_definedEntries hentry }
  exact LockOrder.run_relabel hrelabelled

end Facts

-- Without a program the builder does what it does with an index that answers nothing.
section EmptyIndex

variable {unit : TranslationUnit}

theorem knownJoiningHelpers_alone :
    knownJoiningHelpers unit everything (some {}) = knownJoiningHelpers unit everything none := by
  have heverything : everything.channels.helperJoins = true := rfl
  simp only [knownJoiningHelpers, heverything, if_true]
  exact seededFromProgram_eq_self (fun _ _ _ => rfl) _

theorem completions_alone :
    completions unit everything (some {}) = completions unit everything none := by
  unfold completions joiningHelpers
  rw [knownJoiningHelpers_alone]

theorem lifetimes_alone : lifetimes unit everything (some {}) = lifetimes unit everything none := by
  unfold lifetimes
  rw [completions_alone]

theorem collectedLifecycles_alone :
    collectedLifecycles unit everything (some {}) = collectedLifecycles unit everything none := by
  unfold collectedLifecycles
  rw [completions_alone]

theorem lockWrapperSummaries_alone :
    lockWrapperSummaries unit everything (some {}) = lockWrapperSummaries unit everything none := by
  have hanswer : ∀ function ∈ unit.functions, function.isDeclaration = true →
      ProgramSymbolIndex.lockSummaryFor {} function.symbol = none := fun _ _ _ => rfl
  unfold lockWrapperSummaries
  simp only [seededFromProgram_eq_self hanswer]

section Bindings

variable (hreads : ReadsDefinedEntries unit)

include hreads

theorem spawnFacts_defined :
    definedConcurrency unit (spawnFacts unit everything (some {})).entryConcurrency =
      definedConcurrency unit (spawnFacts unit everything none).entryConcurrency := by
  funext entryId
  unfold definedConcurrency
  by_cases hentry : defines unit entryId = true
  · rw [if_pos hentry, if_pos hentry]
    exact hreads.spawns _ entryId hentry
  · rw [if_neg hentry, if_neg hentry]

theorem sharedObjectBindings_alone :
    sharedObjectBindings unit everything (some {}) = sharedObjectBindings unit everything none := by
  have heverything : everything.lockState = true := rfl
  have halone : sharedObjectBindings unit everything none = collectedBindings unit everything none := by
    simp only [sharedObjectBindings, heverything, if_true]
  have hglobals : trackedGlobals unit (some {}) = trackedGlobals unit none := rfl
  rw [sharedObjectBindings_firstPass, halone]
  unfold collectedBindings
  rw [← hreads.bindings, spawnFacts_defined hreads, hreads.bindings, hglobals]

theorem lockBindings_alone :
    lockBindings unit everything (some {}) = lockBindings unit everything none := by
  unfold lockBindings
  rw [sharedObjectBindings_alone hreads]

theorem pendingAccesses_alone :
    pendingAccesses unit everything (some {}) = pendingAccesses unit everything none := by
  unfold pendingAccesses sharedObjectIds localObjectIds
  rw [sharedObjectBindings_alone hreads]
  rfl

theorem lockPropagation_alone :
    lockPropagation unit everything (some {}) = lockPropagation unit everything none := by
  unfold lockPropagation
  rw [lockWrapperSummaries_alone, lockBindings_alone hreads]

theorem heldLocksByAccess_alone :
    heldLocksByAccess unit everything (some {}) = heldLocksByAccess unit everything none := by
  unfold heldLocksByAccess
  rw [lockWrapperSummaries_alone, lockBindings_alone hreads, pendingAccesses_alone hreads]

end Bindings

-- Of the entries with a body here, and of what runs in them, both readings say the same.
section Entries

variable (hreads : ReadsDefinedEntries unit) (htasks : TasksAlike unit)

include hreads htasks

theorem entryConcurrency_defined :
    definedConcurrency unit (entryConcurrency unit everything (some {})) =
      definedConcurrency unit (entryConcurrency unit everything none) := by
  have hthreads : everything.threadEntries = true := rfl
  have hspawns := spawnFacts_defined hreads
  have hoverlapping := congrArg TaskConcurrencyResult.overlappingSpawnEntries htasks
  rw [entryConcurrency_firstPass]
  funext entryId
  unfold definedConcurrency
  by_cases hentry : defines unit entryId = true
  · have hknown := congrFun hspawns entryId
    unfold definedConcurrency at hknown
    rw [if_pos hentry, if_pos hentry] at hknown ⊢
    have hmember : entryId ∈ (taskConcurrency unit everything (some {})).overlappingSpawnEntries ↔
        entryId ∈ (taskConcurrency unit everything none).overlappingSpawnEntries := by
      have hsame := Finset.ext_iff.mp hoverlapping entryId
      exact (mem_definedEntries hentry).symm.trans (hsame.trans (mem_definedEntries hentry))
    simp only [entryConcurrency, unitEntryConcurrency, hthreads, if_true, hknown]
    refine congrArg (Option.map · _) (funext fun concurrency => ?_)
    unfold correctSpawnCount
    simp only [hmember]
  · rw [if_neg hentry, if_neg hentry]

theorem reachableThreadEntries_defined {functionId : String}
    (hfunction : defines unit functionId = true) :
    reachableThreadEntriesByFunction unit everything (some {}) functionId =
      reachableThreadEntriesByFunction unit everything none functionId := by
  have hthreads : everything.threadEntries = true := rfl
  simp only [reachableThreadEntriesByFunction, hthreads, if_true]
  rw [← hreads.contexts _ _ _ hfunction, entryConcurrency_defined hreads htasks,
    hreads.contexts _ _ _ hfunction]

theorem lockOrders_defined :
    (lockOrders unit everything (some {})).map (definedOrder unit) =
      (lockOrders unit everything none).map (definedOrder unit) := by
  have horders : everything.lockOrders = true := rfl
  simp only [lockOrders, horders, if_true]
  rw [hreads.lockOrders, hreads.lockOrders]
  congr 1
  unfold definedLockInputs localObjectIds
  simp only [lockWrapperSummaries_alone, lockBindings_alone hreads, lockPropagation_alone hreads,
    sharedObjectBindings_alone hreads, entryConcurrency_defined hreads htasks]
  rw [show definedTasks unit (taskConcurrency unit everything (some {})) = _ from htasks]

theorem accessInputs_defined
    (hordering : (publications unit everything (some {})).ordering =
      (publications unit everything none).ordering) :
    definedAccessInputs unit (accessInputs unit everything (some {})) =
      definedAccessInputs unit (accessInputs unit everything none) := by
  have hglobals : trackedGlobals unit (some {}) = trackedGlobals unit none := rfl
  unfold definedAccessInputs accessInputs sharedObjectIds localObjectIds
  simp only [hordering, hglobals, pendingAccesses_alone hreads, heldLocksByAccess_alone hreads,
    sharedObjectBindings_alone hreads, lockPropagation_alone hreads, completions_alone,
    entryConcurrency_defined hreads htasks]
  rw [show definedTasks unit (taskConcurrency unit everything (some {})) = _ from htasks]

end Entries

end EmptyIndex

-- The accesses placed for a unit, less what is said of entries without a body there.
section Placed

variable {unit : TranslationUnit}

theorem keep_definedAccess (kept : List AccessFact) (access : AccessFact) :
    (addConcreteAccess kept access).map (definedAccess unit) =
      addConcreteAccess (kept.map (definedAccess unit)) (definedAccess unit access) := by
  have hunite (first beside : AccessFact) : definedAccess unit (mergeThreads first beside) =
      mergeThreads (definedAccess unit first) (definedAccess unit beside) := by
    unfold mergeThreads definedAccess definedEntries
    simp only [Finset.filter_union]
  have hkey (beside : AccessFact) : accessFactKey (definedAccess unit beside) = accessFactKey beside :=
    rfl
  exact KeepFirst.map_keep hkey hunite kept access

theorem foldl_keep_definedAccess (accesses kept : List AccessFact) :
    (accesses.foldl addConcreteAccess kept).map (definedAccess unit) =
      (accesses.map (definedAccess unit)).foldl addConcreteAccess (kept.map (definedAccess unit)) := by
  induction accesses generalizing kept with
  | nil => rfl
  | cons access accesses ih =>
      rw [List.foldl_cons, ih, keep_definedAccess, List.map_cons, List.foldl_cons]

theorem accessesOfSpawnedThreads_defined (bindings : SharedObjectBindings)
    (summary : String × List ParameterizedAccess) :
    (accessesOfSpawnedThreads bindings summary).map (definedAccess unit) =
      accessesOfSpawnedThreads bindings (definedSummary unit summary) := by
  unfold accessesOfSpawnedThreads definedSummary
  dsimp only
  cases bindings.find? (·.1 = summary.1) with
  | none => rfl
  | some bound =>
      dsimp only
      rw [List.map_map, List.filter_map, List.map_map]
      rfl

theorem filterProjected_definedAccess (accesses : List AccessFact) :
    (filterProjectedConcreteAccesses accesses).map (definedAccess unit) =
      filterProjectedConcreteAccesses (accesses.map (definedAccess unit)) := by
  unfold filterProjectedConcreteAccesses
  rw [List.filter_map, List.filter_map, List.map_map]
  rfl

theorem placeAccesses_defined (hreads : ReadsDefinedEntries unit) (inputs : AccessInputs)
    (program : Bool) :
    (placeAccesses unit inputs program).map (definedAccess unit) =
      placeAccesses unit (definedAccessInputs unit inputs) program := by
  have hbound : ((unit.summarizeAccesses inputs).summariesByFunction.flatMap
        (accessesOfSpawnedThreads inputs.sharedObjectBindings)).map (definedAccess unit) =
      (definedSummaries unit (unit.summarizeAccesses inputs)).summariesByFunction.flatMap
        (accessesOfSpawnedThreads inputs.sharedObjectBindings) := by
    rw [List.map_flatMap, definedSummaries, List.flatMap_map]
    exact List.flatMap_congr fun summary _ => accessesOfSpawnedThreads_defined _ summary
  have hconcrete : (unit.summarizeAccesses inputs).concreteAccesses.map (definedAccess unit) =
      (definedSummaries unit (unit.summarizeAccesses inputs)).concreteAccesses := rfl
  have herase (accesses : List AccessFact) :
      (accesses.map eraseParameterLocks).map (definedAccess unit) =
        (accesses.map (definedAccess unit)).map eraseParameterLocks := by
    rw [List.map_map, List.map_map]
    rfl
  unfold placeAccesses
  dsimp only
  rw [hreads.initialized, herase, filterProjected_definedAccess, hreads.projected,
    foldl_keep_definedAccess, hbound, hconcrete, hreads.summaries]
  rfl

end Placed

-- What the checkers make of both readings of a unit.
section Findings

variable {unit : TranslationUnit} (hreads : ReadsDefinedEntries unit)

include hreads

theorem runsDefined_build (program : Option ProgramSymbolIndex) :
    RunsDefined unit (build unit everything program) where
  accesses := hreads.accessesDefined (accessInputs unit everything program) program.isSome
  lockOrders order horder := by
    have horders : everything.lockOrders = true := rfl
    simp only [build, lockOrders, horders, if_true] at horder
    exact hreads.ordersDefined _ order horder
  contexts functionId entries hfunction hcontexts :=
    hreads.contextsDefined _ _ functionId entries hfunction hcontexts

variable (htasks : TasksAlike unit)

include htasks

theorem definedContexts_alone :
    (definedFacts unit (build unit everything (some {}))).reachableThreadEntriesByFunction =
      (definedFacts unit (build unit everything none)).reachableThreadEntriesByFunction := by
  funext functionId
  by_cases hfunction : defines unit functionId = true
  · exact (if_pos hfunction).trans
      ((reachableThreadEntries_defined hreads htasks hfunction).trans (if_pos hfunction).symm)
  · exact (if_neg hfunction).trans (if_neg hfunction).symm

theorem answerAlike_alone : AnswerAlike (fun entry => defines unit entry = true)
    (definedFacts unit (build unit everything none))
    (definedFacts unit (build unit everything (some {}))) where
  counted entry _ := by
    have hconcurrency : (definedFacts unit (build unit everything (some {}))).entryConcurrency =
        (definedFacts unit (build unit everything none)).entryConcurrency :=
      entryConcurrency_defined hreads htasks
    unfold entryIsSelfConcurrent
    rw [hconcurrency]
  sequenced entry _ beside _ :=
    Finset.ext_iff.mp (congrArg TaskConcurrencyResult.sequencedEntryPairs htasks) _

theorem lockOrder_alone :
    LockOrder.run (build unit everything (some {})) = LockOrder.run (build unit everything none) := by
  rw [← lockOrder_definedFacts (runsDefined_build hreads (some {})),
    ← lockOrder_definedFacts (runsDefined_build hreads none), ← lockOrder_visible,
    ← lockOrder_visible (definedFacts unit (build unit everything none))]
  congr 1
  simp only [visibleTo, definedContexts_alone hreads htasks]
  simp only [definedFacts, build, lockOrders_defined hreads htasks,
    entryConcurrency_defined hreads htasks]
  rw [show definedPairs unit (taskConcurrency unit everything (some {})).sequencedEntryPairs =
    definedPairs unit (taskConcurrency unit everything none).sequencedEntryPairs from
      congrArg TaskConcurrencyResult.sequencedEntryPairs htasks]

omit htasks in
-- A static object's guard orders its accesses under another key in a program.
theorem placeAccesses_labels (inputs : AccessInputs) : ∃ labels : AccessFact → DataRace.Labels,
    placeAccesses unit inputs true =
        (placeAccesses unit inputs false).map (DataRace.relabel labels) ∧
      ∀ lhs ∈ placeAccesses unit inputs false, (labels lhs).liveEntries = lhs.liveEntries ∧
        ∀ rhs ∈ placeAccesses unit inputs false,
          DataRace.orderedByPublication (DataRace.relabel labels lhs) (DataRace.relabel labels rhs) =
            DataRace.orderedByPublication lhs rhs :=
  hreads.keysApart _

theorem dataRace_alone (hordering : (publications unit everything (some {})).ordering =
      (publications unit everything none).ordering) :
    DataRace.run (build unit everything (some {})) = DataRace.run (build unit everything none) := by
  obtain ⟨labels, hprogram, hlabels⟩ := placeAccesses_labels hreads
    (definedAccessInputs unit (accessInputs unit everything none))
  have hplaced : (definedFacts unit (build unit everything none)).accesses =
      placeAccesses unit (definedAccessInputs unit (accessInputs unit everything none)) false :=
    placeAccesses_defined hreads _ false
  have haccesses : (definedFacts unit (build unit everything (some {}))).accesses =
      (definedFacts unit (build unit everything none)).accesses.map (DataRace.relabel labels) := by
    rw [hplaced]
    refine Eq.trans (placeAccesses_defined hreads _ true) ?_
    rw [accessInputs_defined hreads htasks hordering]
    exact hprogram
  have hruns := runsDefined_build hreads none
  have hdefined : ∀ access ∈ (definedFacts unit (build unit everything none)).accesses,
      defines unit access.functionId = true := by
    intro access haccess
    rw [hplaced] at haccess
    exact hreads.accessesDefined _ false access haccess
  have hrelabelled : DataRace.Relabelled (fun entry => defines unit entry = true) labels
      (definedFacts unit (build unit everything none))
      (definedFacts unit (build unit everything (some {}))) :=
    { toAnswerAlike := answerAlike_alone hreads htasks
      accesses := haccesses
      contexts := fun access _ => congrFun (definedContexts_alone hreads htasks) access.functionId
      entries := fun access haccess entry hentry => by
        have hfunction := hdefined access haccess
        have hcontexts : (definedFacts unit
            (build unit everything none)).reachableThreadEntriesByFunction access.functionId =
            (build unit everything none).reachableThreadEntriesByFunction access.functionId :=
          if_pos hfunction
        refine hruns.entries hfunction entry ?_
        rw [← hcontexts]
        exact hentry
      live := fun access haccess entry _ => by
        rw [hplaced] at haccess
        rw [(hlabels access haccess).1]
      ordered := fun lhs hlhs rhs hrhs => by
        rw [hplaced] at hlhs hrhs
        exact (hlabels lhs hlhs).2 rhs hrhs }
  rw [← dataRace_definedFacts (runsDefined_build hreads (some {})), ← dataRace_definedFacts hruns]
  exact DataRace.run_relabel hrelabelled

theorem answerAlike_build : AnswerAlike (fun entry => defines unit entry = true)
    (build unit everything none) (build unit everything (some {})) where
  counted entry hentry := by
    rw [← answerAlike_definedFacts.counted entry hentry, (answerAlike_alone hreads htasks).counted entry
      hentry, answerAlike_definedFacts.counted entry hentry]
  sequenced entry hentry beside hbeside := by
    rw [← answerAlike_definedFacts.sequenced entry hentry beside hbeside,
      (answerAlike_alone hreads htasks).sequenced entry hentry beside hbeside,
      answerAlike_definedFacts.sequenced entry hentry beside hbeside]

theorem mayOverlap_alone {weak : WeakPublicationFact}
    (hpublisher : defines unit weak.publisherFunctionId = true)
    (hreader : defines unit weak.readerFunctionId = true) :
    PublicationOrdering.mayOverlap (build unit everything (some {})) weak =
      PublicationOrdering.mayOverlap (build unit everything none) weak := by
  have hcontexts (functionId : String) (hfunction : defines unit functionId = true) :
      (build unit everything (some {})).reachableThreadEntriesByFunction functionId =
        (build unit everything none).reachableThreadEntriesByFunction functionId :=
    reachableThreadEntries_defined hreads htasks hfunction
  have hruns := runsDefined_build hreads none
  unfold PublicationOrdering.mayOverlap
  rw [hcontexts _ hpublisher, hcontexts _ hreader]
  split
  · rename_i publisherEntries readerEntries hpublishers hreaders
    exact mayRunConcurrently_alike (answerAlike_build hreads htasks)
      (hruns.contexts _ publisherEntries hpublisher hpublishers)
      (hruns.contexts _ readerEntries hreader hreaders)
  · rfl

-- A weak publication found in both readings is reported in both.
theorem publicationOrdering_alone
    (hkept : (publications unit everything none).weakPublications ⊆
      (publications unit everything (some {})).weakPublications) :
    (PublicationOrdering.run (build unit everything none)).diagnostics ⊆
      (PublicationOrdering.run (build unit everything (some {}))).diagnostics := by
  have hselected : (everything.accesses && everything.weakPublications) = true := rfl
  intro diagnostic hdiagnostic
  obtain ⟨weak, hweak, rfl⟩ := List.mem_map.mp hdiagnostic
  obtain ⟨hfound, hoverlap⟩ := List.mem_filter.mp hweak
  simp only [build, hselected, if_true] at hfound
  obtain ⟨hpublisher, hreader⟩ := hreads.publishersDefined _ _ _ _ weak hfound
  refine List.mem_map_of_mem (List.mem_filter.mpr ⟨?_, ?_⟩)
  · simp only [build, hselected, if_true]
    exact hkept hfound
  · rw [mayOverlap_alone hreads htasks hpublisher hreader]
    exact hoverlap

end Findings

end ConcurrencyAnalyzer.CrossTU
