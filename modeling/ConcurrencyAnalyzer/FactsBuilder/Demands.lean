import ConcurrencyAnalyzer.FactsBuilder.Build

namespace ConcurrencyAnalyzer.FactsBuilder

open FactSelection

-- A fact that a selection asks for is built as the whole selection builds it: what else is selected
-- changes nothing in it.

section Stages

variable {unit : TranslationUnit} {selection : FactSelection} {program : Option ProgramSymbolIndex}

theorem directCallSites_eq (h : selection.directCallSites = true) :
    directCallSites unit selection = directCallSites unit everything := by
  have heverything : everything.directCallSites = true := rfl
  unfold directCallSites
  rw [h, heverything]

theorem spawnFacts_eq (hsites : selection.directCallSites = true)
    (hspawns : selection.spawns = true) :
    spawnFacts unit selection program = spawnFacts unit everything program := by
  have heverything : everything.spawns = true := rfl
  unfold spawnFacts
  rw [hspawns, heverything, directCallSites_eq hsites]

theorem joiningHelpers_eq (hreads : selection.readsCompletions = true)
    (hjoins : program.isSome = true → selection.channels.helperJoins = true) :
    joiningHelpers unit selection program = joiningHelpers unit everything program := by
  have heverything : everything.readsCompletions = true := rfl
  have hknown : knownJoiningHelpers unit selection program =
      knownJoiningHelpers unit everything program := by
    cases program with
    | none => rfl
    | some index =>
        have hchannel : everything.channels.helperJoins = true := rfl
        simp only [knownJoiningHelpers, hjoins rfl, hchannel]
  unfold joiningHelpers
  rw [hreads, heverything, hknown]

theorem completions_eq (hreads : selection.readsCompletions = true)
    (hjoins : program.isSome = true → selection.channels.helperJoins = true) :
    completions unit selection program = completions unit everything program := by
  have heverything : everything.readsCompletions = true := rfl
  unfold completions
  rw [hreads, heverything, joiningHelpers_eq hreads hjoins]

theorem lifetimes_eq (hreads : selection.readsCompletions = true)
    (hjoins : program.isSome = true → selection.channels.helperJoins = true)
    (h : (selection.threadArgumentEscapes || selection.threadArgumentFrees ||
      selection.expiredThreadLocals) = true) :
    lifetimes unit selection program = lifetimes unit everything program := by
  have heverything : (everything.threadArgumentEscapes || everything.threadArgumentFrees ||
      everything.expiredThreadLocals) = true := rfl
  unfold lifetimes
  rw [h, heverything, completions_eq hreads hjoins]

theorem collectedLifecycles_eq (h : selection.threadLifecycles = true)
    (hjoins : program.isSome = true → selection.channels.helperJoins = true) :
    collectedLifecycles unit selection program = collectedLifecycles unit everything program := by
  have hsites : selection.directCallSites = true := by simp [FactSelection.directCallSites, h]
  have hreads : selection.readsCompletions = true := by simp [readsCompletions, h]
  have heverything : everything.threadLifecycles = true := rfl
  unfold collectedLifecycles
  rw [h, heverything, directCallSites_eq hsites, completions_eq hreads hjoins]

theorem threadLifecycles_eq (h : selection.threadLifecycles = true)
    (hjoins : program.isSome = true → selection.channels.helperJoins = true) :
    threadLifecycles unit selection program = threadLifecycles unit everything program := by
  unfold threadLifecycles
  rw [collectedLifecycles_eq h hjoins]

theorem processForks_eq (h : selection.processLifecycle = true) :
    processForks unit selection = processForks unit everything := by
  have hsites : selection.directCallSites = true := by simp [FactSelection.directCallSites, h]
  have heverything : everything.processLifecycle = true := rfl
  unfold processForks
  rw [h, heverything, directCallSites_eq hsites]

theorem spawnFacts_eq_of_processLifecycle (h : selection.processLifecycle = true) :
    spawnFacts unit selection program = spawnFacts unit everything program :=
  spawnFacts_eq (by simp [FactSelection.directCallSites, h]) (by simp [spawns, h])

-- The facts about the threads a unit starts.
section ThreadEntries

variable (hentries : selection.threadEntries = true)
  (hjoins : program.isSome = true → selection.channels.helperJoins = true)

include hentries

theorem sites_eq : directCallSites unit selection = directCallSites unit everything :=
  directCallSites_eq (FactSelection.directCallSites_of_threadEntries hentries)

theorem spawnFacts_eq_of_threadEntries :
    spawnFacts unit selection program = spawnFacts unit everything program :=
  spawnFacts_eq (FactSelection.directCallSites_of_threadEntries hentries)
    (by simp [spawns, hentries])

include hjoins

theorem taskConcurrency_eq :
    taskConcurrency unit selection program = taskConcurrency unit everything program := by
  have hselected : selection.taskConcurrency = true := by
    simp [FactSelection.taskConcurrency, hentries]
  have heverything : everything.taskConcurrency = true := rfl
  unfold FactsBuilder.taskConcurrency
  rw [hselected, heverything, sites_eq hentries,
    completions_eq (FactSelection.readsCompletions_of_threadEntries hentries) hjoins]

theorem unitEntryConcurrency_eq :
    unitEntryConcurrency unit selection program = unitEntryConcurrency unit everything program := by
  have heverything : everything.threadEntries = true := rfl
  unfold unitEntryConcurrency
  rw [hentries, heverything, spawnFacts_eq_of_threadEntries hentries,
    taskConcurrency_eq hentries hjoins]

theorem entryConcurrency_eq :
    entryConcurrency unit selection program = entryConcurrency unit everything program := by
  unfold entryConcurrency
  rw [unitEntryConcurrency_eq hentries hjoins]

theorem reachableThreadEntries_eq :
    reachableThreadEntriesByFunction unit selection program =
      reachableThreadEntriesByFunction unit everything program := by
  have heverything : everything.threadEntries = true := rfl
  unfold reachableThreadEntriesByFunction
  rw [hentries, heverything, sites_eq hentries, entryConcurrency_eq hentries hjoins]

end ThreadEntries

-- The facts about locks and the objects threads share.
section LockState

variable (hentries : selection.threadEntries = true) (hlocks : selection.lockState = true)

include hlocks

theorem lockWrapperSummaries_eq :
    lockWrapperSummaries unit selection program = lockWrapperSummaries unit everything program := by
  have hselected : selection.lockWrapperSummaries = true := by
    have : selection.accesses = true ∨ selection.lockOrders = true := by
      simpa [lockState] using hlocks
    rcases this with h | h <;> simp [FactSelection.lockWrapperSummaries, h]
  have heverything : everything.lockWrapperSummaries = true := rfl
  unfold lockWrapperSummaries
  rw [hselected, heverything]

include hentries

theorem sharedObjectBindings_eq :
    sharedObjectBindings unit selection program = sharedObjectBindings unit everything program := by
  have hcollected : collectedBindings unit selection program =
      collectedBindings unit everything program := by
    unfold collectedBindings
    rw [sites_eq hentries, spawnFacts_eq_of_threadEntries hentries]
  have heverything : everything.lockState = true := rfl
  unfold sharedObjectBindings
  rw [hlocks, heverything, hcollected]

theorem lockBindings_eq :
    lockBindings unit selection program = lockBindings unit everything program := by
  unfold lockBindings
  rw [sharedObjectBindings_eq hentries hlocks]

theorem localObjectIds_eq :
    localObjectIds unit selection program = localObjectIds unit everything program := by
  unfold localObjectIds
  rw [sharedObjectBindings_eq hentries hlocks]

theorem sharedObjectIds_eq :
    sharedObjectIds unit selection program = sharedObjectIds unit everything program := by
  unfold sharedObjectIds
  rw [sharedObjectBindings_eq hentries hlocks]

theorem lockPropagation_eq :
    lockPropagation unit selection program = lockPropagation unit everything program := by
  have heverything : everything.lockState = true := rfl
  unfold lockPropagation
  rw [hlocks, heverything, lockWrapperSummaries_eq hlocks, lockBindings_eq hentries hlocks,
    sites_eq hentries]

end LockState

theorem lockOrders_eq (hentries : selection.threadEntries = true)
    (horders : selection.lockOrders = true)
    (hjoins : program.isSome = true → selection.channels.helperJoins = true) :
    lockOrders unit selection program = lockOrders unit everything program := by
  have hlocks : selection.lockState = true := by simp [lockState, horders]
  have heverything : everything.lockOrders = true := rfl
  unfold lockOrders
  rw [horders, heverything, sites_eq hentries, lockWrapperSummaries_eq hlocks,
    lockBindings_eq hentries hlocks, localObjectIds_eq hentries hlocks,
    lockPropagation_eq hentries hlocks, taskConcurrency_eq hentries hjoins,
    entryConcurrency_eq hentries hjoins]

section Accesses

variable (hentries : selection.threadEntries = true) (haccesses : selection.accesses = true)

include hentries haccesses

theorem pendingAccesses_eq :
    pendingAccesses unit selection program = pendingAccesses unit everything program := by
  have hlocks : selection.lockState = true := by simp [lockState, haccesses]
  have heverything : everything.accesses = true := rfl
  unfold pendingAccesses
  rw [haccesses, heverything, sharedObjectIds_eq hentries hlocks, localObjectIds_eq hentries hlocks]

theorem publications_eq :
    publications unit selection program = publications unit everything program := by
  unfold publications
  rw [pendingAccesses_eq hentries haccesses, sites_eq hentries,
    spawnFacts_eq_of_threadEntries hentries]

theorem accesses_eq
    (hjoins : program.isSome = true → selection.channels.helperJoins = true) :
    accesses unit selection program = accesses unit everything program := by
  have hlocks : selection.lockState = true := by simp [lockState, haccesses]
  have heverything : everything.accesses = true := rfl
  have hheld : heldLocksByAccess unit selection program =
      heldLocksByAccess unit everything program := by
    unfold heldLocksByAccess
    rw [haccesses, heverything, lockWrapperSummaries_eq hlocks, lockBindings_eq hentries hlocks,
      pendingAccesses_eq hentries haccesses]
  have hinputs : accessInputs unit selection program = accessInputs unit everything program := by
    unfold accessInputs
    rw [sites_eq hentries, pendingAccesses_eq hentries haccesses, hheld,
      publications_eq hentries haccesses, sharedObjectBindings_eq hentries hlocks,
      sharedObjectIds_eq hentries hlocks, localObjectIds_eq hentries hlocks,
      lockPropagation_eq hentries hlocks, taskConcurrency_eq hentries hjoins,
      completions_eq (FactSelection.readsCompletions_of_threadEntries hentries) hjoins,
      entryConcurrency_eq hentries hjoins]
  unfold accesses
  rw [haccesses, heverything, hinputs]

end Accesses

end Stages

end ConcurrencyAnalyzer.FactsBuilder
