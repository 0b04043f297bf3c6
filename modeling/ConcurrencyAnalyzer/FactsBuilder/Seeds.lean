import ConcurrencyAnalyzer.FactsBuilder.Demands

namespace ConcurrencyAnalyzer.FactsBuilder

open FactSelection (everything)

-- All that the builder takes from the program index, and what a unit makes of it: the facts of two
-- builds are alike where these seeds are.

variable {unit : TranslationUnit} {index other : ProgramSymbolIndex}

section Joins

variable (hjoins : knownJoiningHelpers unit everything (some index) =
  knownJoiningHelpers unit everything (some other))

include hjoins

theorem completions_of_joins :
    completions unit everything (some index) = completions unit everything (some other) := by
  unfold completions joiningHelpers
  rw [hjoins]

theorem taskConcurrency_of_joins :
    taskConcurrency unit everything (some index) = taskConcurrency unit everything (some other) := by
  unfold taskConcurrency
  rw [completions_of_joins hjoins]
  rfl

theorem lifetimes_of_joins :
    lifetimes unit everything (some index) = lifetimes unit everything (some other) := by
  unfold lifetimes
  rw [completions_of_joins hjoins]

theorem collectedLifecycles_of_joins :
    collectedLifecycles unit everything (some index) =
      collectedLifecycles unit everything (some other) := by
  unfold collectedLifecycles
  rw [completions_of_joins hjoins]

theorem unitEntryConcurrency_of_joins :
    unitEntryConcurrency unit everything (some index) =
      unitEntryConcurrency unit everything (some other) := by
  unfold unitEntryConcurrency
  rw [taskConcurrency_of_joins hjoins]
  rfl

end Joins

theorem collectedBindings_of_globals
    (hglobals : trackedGlobals unit (some index) = trackedGlobals unit (some other)) :
    collectedBindings unit everything (some index) =
      collectedBindings unit everything (some other) := by
  unfold collectedBindings
  rw [hglobals]
  rfl

-- What the lock orders are built from.
structure LocksSeededAlike (unit : TranslationUnit) (index other : ProgramSymbolIndex) : Prop where
  joins : knownJoiningHelpers unit everything (some index) =
    knownJoiningHelpers unit everything (some other)
  bindings : lockBindings unit everything (some index) = lockBindings unit everything (some other)
  entries : entryConcurrency unit everything (some index) =
    entryConcurrency unit everything (some other)

structure SeededAlike (unit : TranslationUnit) (index other : ProgramSymbolIndex) : Prop extends
    LocksSeededAlike unit index other where
  globals : trackedGlobals unit (some index) = trackedGlobals unit (some other)

-- The names of the objects are those of the bindings without their elements.
theorem sharedObjectNames_lockBindings (unit : TranslationUnit) (selection : FactSelection)
    (program : Option ProgramSymbolIndex) (kind : SharedObjectKind) :
    sharedObjectNames (sharedObjectBindings unit selection program) kind =
      sharedObjectNames (lockBindings unit selection program) kind := by
  simp [sharedObjectNames, lockBindings, List.filter_map, Function.comp_def]

namespace LocksSeededAlike

variable (h : LocksSeededAlike unit index other)

include h

theorem reachableThreadEntries :
    reachableThreadEntriesByFunction unit everything (some index) =
      reachableThreadEntriesByFunction unit everything (some other) := by
  unfold reachableThreadEntriesByFunction
  rw [h.entries]

theorem sharedObjectIds :
    sharedObjectIds unit everything (some index) = sharedObjectIds unit everything (some other) := by
  unfold FactsBuilder.sharedObjectIds
  rw [sharedObjectNames_lockBindings, sharedObjectNames_lockBindings, h.bindings]

theorem localObjectIds :
    localObjectIds unit everything (some index) = localObjectIds unit everything (some other) := by
  unfold FactsBuilder.localObjectIds
  rw [sharedObjectNames_lockBindings, sharedObjectNames_lockBindings, h.bindings]

variable (hsummaries : lockWrapperSummaries unit everything (some index) =
  lockWrapperSummaries unit everything (some other))

include hsummaries

theorem lockPropagation :
    lockPropagation unit everything (some index) = lockPropagation unit everything (some other) := by
  unfold FactsBuilder.lockPropagation
  rw [hsummaries, h.bindings]

theorem lockOrders :
    lockOrders unit everything (some index) = lockOrders unit everything (some other) := by
  unfold FactsBuilder.lockOrders
  rw [hsummaries, h.bindings, h.localObjectIds, h.lockPropagation hsummaries,
    taskConcurrency_of_joins h.joins, h.entries]

end LocksSeededAlike

namespace SeededAlike

variable (h : SeededAlike unit index other)

include h

theorem pendingAccesses :
    pendingAccesses unit everything (some index) = pendingAccesses unit everything (some other) := by
  unfold FactsBuilder.pendingAccesses
  rw [h.globals, h.sharedObjectIds, h.localObjectIds]

theorem publications :
    publications unit everything (some index) = publications unit everything (some other) := by
  unfold FactsBuilder.publications
  rw [h.pendingAccesses]
  rfl

variable (hsummaries : lockWrapperSummaries unit everything (some index) =
  lockWrapperSummaries unit everything (some other))

include hsummaries

theorem accesses (hobjects : sharedObjectBindings unit everything (some index) =
    sharedObjectBindings unit everything (some other)) :
    accesses unit everything (some index) = accesses unit everything (some other) := by
  have hheld : heldLocksByAccess unit everything (some index) =
      heldLocksByAccess unit everything (some other) := by
    unfold heldLocksByAccess
    rw [hsummaries, h.bindings, h.pendingAccesses]
  have hinputs : accessInputs unit everything (some index) =
      accessInputs unit everything (some other) := by
    unfold accessInputs
    rw [h.pendingAccesses, hheld, h.publications, h.globals, hobjects, h.sharedObjectIds,
      h.localObjectIds, h.lockPropagation hsummaries, taskConcurrency_of_joins h.joins,
      completions_of_joins h.joins, h.entries]
  unfold FactsBuilder.accesses
  rw [hinputs]
  rfl

end SeededAlike

end ConcurrencyAnalyzer.FactsBuilder
