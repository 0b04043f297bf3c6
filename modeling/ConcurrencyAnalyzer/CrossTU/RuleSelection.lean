import ConcurrencyAnalyzer.CrossTU.Gate
import ConcurrencyAnalyzer.CrossTU.Merge

namespace ConcurrencyAnalyzer.CrossTU

open FactsBuilder
open FactSelection (everything forRules forRules_includes Includes)

-- Two indices that answer alike what the facts of a rule are built from.
def AnswersAlike (rule : RuleId) (index other : ProgramSymbolIndex) : Prop :=
  index.definedGlobals = other.definedGlobals ∧ index.unitsByFunction = other.unitsByFunction ∧
    match rule with
    | .DataRaceGlobal | .DeadlockLockOrder | .WeakPublicationOrdering =>
        index.spawnSitesByEntry = other.spawnSitesByEntry ∧
          index.lockSummariesBySymbol = other.lockSummariesBySymbol ∧
          index.joiningHelpersBySymbol = other.joiningHelpersBySymbol
    | .MissingJoin =>
        index.resolvedHandleSymbols = other.resolvedHandleSymbols ∧
          index.joiningHelpersBySymbol = other.joiningHelpersBySymbol
    | .ThreadArgumentEscapesFrame | .ThreadArgumentFreedEarly | .ThreadLocalOutlivesThread =>
        index.joiningHelpersBySymbol = other.joiningHelpersBySymbol
    | .ForkAfterThreadCreation =>
        index.spawnSitesByEntry.isEmpty = other.spawnSitesByEntry.isEmpty
    | .UnreapedChildProcess => index.reapsChildren = other.reapsChildren
    | _ => True

section Answers

variable {index other : ProgramSymbolIndex} (unit : TranslationUnit)

theorem knownJoiningHelpers_answers
    (h : index.joiningHelpersBySymbol = other.joiningHelpersBySymbol) :
    knownJoiningHelpers unit everything (some index) =
      knownJoiningHelpers unit everything (some other) := by
  have hjoined : index.joinedParametersOf = other.joinedParametersOf := h
  simp only [knownJoiningHelpers, hjoined]

theorem lockWrapperSummaries_answers
    (h : index.lockSummariesBySymbol = other.lockSummariesBySymbol) :
    lockWrapperSummaries unit everything (some index) =
      lockWrapperSummaries unit everything (some other) := by
  have hsummary : index.lockSummaryFor = other.lockSummaryFor := h
  simp only [lockWrapperSummaries, hsummary]

theorem trackedGlobals_answers (h : index.definedGlobals = other.definedGlobals) :
    trackedGlobals unit (some index) = trackedGlobals unit (some other) := by
  simp only [trackedGlobals, programDefined, Option.elim_some, h]

theorem entrySpawns_answers (h : index.spawnSitesByEntry = other.spawnSitesByEntry) :
    index.entrySpawns = other.entrySpawns := by
  funext symbol
  rw [ProgramSymbolIndex.entrySpawns, h, ProgramSymbolIndex.entrySpawns]

theorem spawnCount_answers (h : index.spawnSitesByEntry = other.spawnSitesByEntry) :
    index.spawnCount = other.spawnCount := by
  funext symbol
  rw [ProgramSymbolIndex.spawnCount, entrySpawns_answers h, ProgramSymbolIndex.spawnCount]

theorem sharedObjectBindings_answers (hglobals : index.definedGlobals = other.definedGlobals)
    (hunits : index.unitsByFunction = other.unitsByFunction)
    (hsites : index.spawnSitesByEntry = other.spawnSitesByEntry) :
    sharedObjectBindings unit everything (some index) =
      sharedObjectBindings unit everything (some other) := by
  have hseveral : index.appearsInSeveralUnits = other.appearsInSeveralUnits := by
    funext symbol
    simp only [ProgramSymbolIndex.appearsInSeveralUnits, hunits]
  have hsettle : settleEntry unit index = settleEntry unit other := by
    funext entry
    simp only [settleEntry, settleBinding, hseveral, spawnCount_answers hsites]
  simp only [sharedObjectBindings, hsettle,
    collectedBindings_of_globals (trackedGlobals_answers unit hglobals)]

theorem entryConcurrency_answers (hsites : index.spawnSitesByEntry = other.spawnSitesByEntry)
    (hjoins : index.joiningHelpersBySymbol = other.joiningHelpersBySymbol) :
    entryConcurrency unit everything (some index) = entryConcurrency unit everything (some other) := by
  have hentry : index.isThreadEntry = other.isThreadEntry := by
    funext symbol
    rw [ProgramSymbolIndex.isThreadEntry, entrySpawns_answers hsites,
      ProgramSymbolIndex.isThreadEntry]
  have hloop : index.spawnedInLoop = other.spawnedInLoop := by
    funext symbol
    rw [ProgramSymbolIndex.spawnedInLoop, entrySpawns_answers hsites,
      ProgramSymbolIndex.spawnedInLoop]
  have hseed : seedEntryConcurrency index = seedEntryConcurrency other := by
    funext concurrencyOf function
    unfold seedEntryConcurrency
    rw [hentry, hloop, spawnCount_answers hsites]
  simp only [entryConcurrency, hseed,
    unitEntryConcurrency_of_joins (knownJoiningHelpers_answers unit hjoins)]

theorem seededAlike_answers (hglobals : index.definedGlobals = other.definedGlobals)
    (hunits : index.unitsByFunction = other.unitsByFunction)
    (hsites : index.spawnSitesByEntry = other.spawnSitesByEntry)
    (hjoins : index.joiningHelpersBySymbol = other.joiningHelpersBySymbol) :
    SeededAlike unit index other where
  globals := trackedGlobals_answers unit hglobals
  joins := knownJoiningHelpers_answers unit hjoins
  bindings := by
    unfold lockBindings
    rw [sharedObjectBindings_answers unit hglobals hunits hsites]
  entries := entryConcurrency_answers unit hsites hjoins

theorem threadLifecycles_answers
    (hhandles : index.resolvedHandleSymbols = other.resolvedHandleSymbols)
    (hjoins : index.joiningHelpersBySymbol = other.joiningHelpersBySymbol) :
    threadLifecycles unit everything (some index) = threadLifecycles unit everything (some other) := by
  have hresolved : isResolvedByProgram unit index = isResolvedByProgram unit other := by
    funext fact
    simp only [isResolvedByProgram, ProgramSymbolIndex.resolvesHandleElsewhere, hhandles]
  simp only [threadLifecycles, hresolved,
    collectedLifecycles_of_joins (knownJoiningHelpers_answers unit hjoins)]

theorem visibleTo_answers {rule : RuleId} (h : AnswersAlike rule index other) :
    visibleTo rule (build unit everything (some index)) =
      visibleTo rule (build unit everything (some other)) := by
  obtain ⟨hglobals, hunits, hrest⟩ := h
  cases rule with
  | DataRaceGlobal =>
      obtain ⟨hsites, hlocks, hjoins⟩ := hrest
      exact visibleTo_dataRace_seeded (seededAlike_answers unit hglobals hunits hsites hjoins)
        (lockWrapperSummaries_answers unit hlocks)
        (sharedObjectBindings_answers unit hglobals hunits hsites)
  | DeadlockLockOrder =>
      obtain ⟨hsites, hlocks, hjoins⟩ := hrest
      exact visibleTo_lockOrder_seeded
        (seededAlike_answers unit hglobals hunits hsites hjoins).toLocksSeededAlike
        (lockWrapperSummaries_answers unit hlocks)
  | WeakPublicationOrdering =>
      obtain ⟨hsites, hlocks, hjoins⟩ := hrest
      exact visibleTo_publication_seeded (seededAlike_answers unit hglobals hunits hsites hjoins)
  | MissingJoin =>
      obtain ⟨hhandles, hjoins⟩ := hrest
      simp only [visibleTo, build, threadLifecycles_answers unit hhandles hjoins]
  | ThreadArgumentEscapesFrame =>
      simp only [visibleTo, build, lifetimes_of_joins (knownJoiningHelpers_answers unit hrest)]
  | ThreadArgumentFreedEarly =>
      simp only [visibleTo, build, lifetimes_of_joins (knownJoiningHelpers_answers unit hrest)]
  | ThreadLocalOutlivesThread =>
      simp only [visibleTo, build, lifetimes_of_joins (knownJoiningHelpers_answers unit hrest)]
  | ForkAfterThreadCreation =>
      have hspawns : spawnFacts unit everything (some index) =
          spawnFacts unit everything (some other) := rfl
      have hcreates : index.programCreatesThreads = other.programCreatesThreads :=
        congrArg (!·) hrest
      simp only [visibleTo, build, Option.map_some, hcreates, hspawns]
  | UnreapedChildProcess =>
      have hreaps : index.programReapsChildren = other.programReapsChildren := hrest
      simp only [visibleTo, build, Option.map_some, hreaps]
  | ConditionWaitWithoutPredicate => rfl
  | UnsafeSignalHandler => rfl
  | CompilerDiagnostic => rfl

end Answers

-- What a unit publishes for a rule does not depend on what else is selected.
section Published

variable {unit : TranslationUnit} {selection : FactSelection} {rule : RuleId}
  (hselects : Includes selection (forRules [rule] true))

include hselects

theorem entryConcurrency_published (hjoins : (forRules [rule] true).channels.helperJoins = true)
    (hentries : (forRules [rule] true).threadEntries = true) :
    (build unit selection (some {})).entryConcurrency =
      (build unit everything (some {})).entryConcurrency := by
  show entryConcurrency unit selection (some {}) = entryConcurrency unit everything (some {})
  exact entryConcurrency_eq (hselects.threadEntries hentries) fun _ => hselects.helperJoins hjoins

theorem joiningHelpers_published (hjoins : (forRules [rule] true).channels.helperJoins = true)
    (hreads : selection.readsCompletions = true) :
    (build unit selection (some {})).joiningHelpers =
      (build unit everything (some {})).joiningHelpers := by
  have hchannel : selection.channels.helperJoins = true := hselects.helperJoins hjoins
  have heverything : everything.channels.helperJoins = true := rfl
  funext functionId
  show publishedJoiningHelpers unit selection (some {}) functionId =
    publishedJoiningHelpers unit everything (some {}) functionId
  unfold publishedJoiningHelpers
  rw [hchannel, heverything, joiningHelpers_eq hreads fun _ => hchannel]

variable (unit) in
theorem resolvedHandles_published
    (hlifecycles : (forRules [rule] true).threadLifecycles = true)
    (hjoins : (forRules [rule] true).channels.helperJoins = true) :
    (build unit selection (some {})).resolvedGlobalHandleIds =
        (build unit everything (some {})).resolvedGlobalHandleIds ∧
      (build unit selection (some {})).program.handleSymbolsByGroupId =
        (build unit everything (some {})).program.handleSymbolsByGroupId := by
  have hselected := hselects.threadLifecycles hlifecycles
  have hchannel (_ : (some ({} : ProgramSymbolIndex)).isSome = true) :
      selection.channels.helperJoins = true := hselects.helperJoins hjoins
  have hresolved : resolvedGlobalHandleIds unit selection (some {}) =
      resolvedGlobalHandleIds unit everything (some {}) := by
    unfold resolvedGlobalHandleIds
    rw [collectedLifecycles_eq hselected hchannel]
  refine ⟨hresolved, ?_⟩
  rw [program_firstPass (hselects.program rfl), program_firstPass rfl]
  funext handleGroupId
  show handleSymbolsByGroupId unit selection (some {}) handleGroupId =
    handleSymbolsByGroupId unit everything (some {}) handleGroupId
  unfold handleSymbolsByGroupId
  rw [hresolved, threadLifecycles_eq hselected hchannel]

-- Whether a unit starts an entry is known before its starts are counted.
theorem entryConcurrency_none_published
    (hprocess : (forRules [rule] true).processLifecycle = true) (entryId : String) :
    (build unit selection (some {})).entryConcurrency entryId = none ↔
      (build unit everything (some {})).entryConcurrency entryId = none := by
  have hfirst (chosen : FactSelection) :
      (build unit chosen (some {})).entryConcurrency entryId = none ↔
        (spawnFacts unit chosen (some {})).entryConcurrency entryId = none := by
    show entryConcurrency unit chosen (some {}) entryId = none ↔ _
    rw [entryConcurrency_firstPass]
    unfold unitEntryConcurrency
    cases chosen.threadEntries <;> simp
  rw [hfirst, hfirst, spawnFacts_eq_of_processLifecycle (hselects.processLifecycle hprocess)]

end Published

theorem addSpawn_ne_nil (symbol : String) (concurrency : EntryConcurrencyInfo)
    (sites : List (String × EntrySpawns)) :
    ProgramSymbolIndex.addSpawn symbol concurrency sites ≠ [] := by
  unfold ProgramSymbolIndex.addSpawn
  split
  · simp
  · split <;> simp

theorem foldl_addSpawns_eq_nil (entryConcurrency : String → Option EntryConcurrencyInfo)
    (functions : List (String × String)) (sites : List (String × EntrySpawns)) :
    functions.foldl (ProgramSymbolIndex.addSpawns entryConcurrency) sites = [] ↔
      sites = [] ∧ ∀ function ∈ functions, entryConcurrency function.1 = none := by
  induction functions generalizing sites with
  | nil => simp
  | cons function functions ih =>
      rw [List.foldl_cons, ih, List.forall_mem_cons]
      unfold ProgramSymbolIndex.addSpawns
      cases hconcurrency : entryConcurrency function.1 with
      | none => simp
      | some concurrency => simp [addSpawn_ne_nil]

theorem AnswersAlike.symm {rule : RuleId} {index other : ProgramSymbolIndex}
    (h : AnswersAlike rule index other) : AnswersAlike rule other index := by
  cases rule <;> simp_all [AnswersAlike]

theorem AnswersAlike.trans {rule : RuleId} {index middle other : ProgramSymbolIndex}
    (h : AnswersAlike rule index middle) (ho : AnswersAlike rule middle other) :
    AnswersAlike rule index other := by
  cases rule <;> simp_all [AnswersAlike]

section AddUnit

variable {rule : RuleId} {index other : ProgramSymbolIndex} (number : Nat) {unit : TranslationUnit}
  {selection : FactSelection} (hselects : Includes selection (forRules [rule] true))

include hselects

-- The symbols a unit publishes are the same for every selection.
variable (unit) in
theorem symbols_published :
    (build unit selection (some {})).program.functionSymbolsById =
        (build unit everything (some {})).program.functionSymbolsById ∧
      (build unit selection (some {})).program.declaredFunctions =
        (build unit everything (some {})).program.declaredFunctions ∧
      (build unit selection (some {})).program.definedGlobals =
        (build unit everything (some {})).program.definedGlobals := by
  rw [program_firstPass (hselects.program rfl), program_firstPass rfl]
  exact ⟨rfl, rfl, rfl⟩

variable (hown : (forRules [rule] true).channels.helperJoins = true)

include hown

theorem addUnit_joiningHelpers (hreads : selection.readsCompletions = true)
    (hknown : index.joiningHelpersBySymbol = other.joiningHelpersBySymbol) :
    (index.addUnit number (build unit selection (some {}))).joiningHelpersBySymbol =
      (other.addUnit number (build unit everything (some {}))).joiningHelpersBySymbol := by
  obtain ⟨hfunctions, hdeclared, _⟩ := symbols_published unit hselects
  simp only [ProgramSymbolIndex.addUnit, hfunctions, hdeclared, hknown,
    joiningHelpers_published hselects hown hreads]

theorem addUnit_threads (hentries : (forRules [rule] true).threadEntries = true)
    (hlocks : selection.lockState = true)
    (hknown : index.spawnSitesByEntry = other.spawnSitesByEntry ∧
      index.lockSummariesBySymbol = other.lockSummariesBySymbol ∧
      index.joiningHelpersBySymbol = other.joiningHelpersBySymbol) :
    (index.addUnit number (build unit selection (some {}))).spawnSitesByEntry =
        (other.addUnit number (build unit everything (some {}))).spawnSitesByEntry ∧
      (index.addUnit number (build unit selection (some {}))).lockSummariesBySymbol =
        (other.addUnit number (build unit everything (some {}))).lockSummariesBySymbol ∧
      (index.addUnit number (build unit selection (some {}))).joiningHelpersBySymbol =
        (other.addUnit number (build unit everything (some {}))).joiningHelpersBySymbol := by
  obtain ⟨hfunctions, hdeclared, _⟩ := symbols_published unit hselects
  have hsummaries : (build unit selection (some {})).lockWrapperSummaries =
      (build unit everything (some {})).lockWrapperSummaries := by
    show lockWrapperSummaries unit selection (some {}) = _
    exact lockWrapperSummaries_eq hlocks
  refine ⟨?_, ?_, addUnit_joiningHelpers number hselects hown
    (FactSelection.readsCompletions_of_threadEntries (hselects.threadEntries hentries)) hknown.2.2⟩
  · simp only [ProgramSymbolIndex.addUnit, hfunctions, hknown.1,
      entryConcurrency_published hselects hown hentries]
  · simp only [ProgramSymbolIndex.addUnit, hfunctions, hdeclared, hknown.2.1, hsummaries]

end AddUnit

theorem addUnit_answersAlike {rule : RuleId} {index other : ProgramSymbolIndex}
    (h : AnswersAlike rule index other) (number : Nat) {unit : TranslationUnit}
    {selection : FactSelection} (hselects : Includes selection (forRules [rule] true)) :
    AnswersAlike rule (index.addUnit number (build unit selection (some {})))
      (other.addUnit number (build unit everything (some {}))) := by
  obtain ⟨hfunctions, _, hdefined⟩ := symbols_published unit hselects
  obtain ⟨hglobals, hunits, hrest⟩ := h
  refine ⟨by simp only [ProgramSymbolIndex.addUnit, hdefined, hglobals],
    by simp only [ProgramSymbolIndex.addUnit, hfunctions, hunits], ?_⟩
  cases rule with
  | DataRaceGlobal =>
      exact addUnit_threads number hselects rfl rfl (by simp [FactSelection.lockState, hselects.accesses rfl]) hrest
  | DeadlockLockOrder =>
      exact addUnit_threads number hselects rfl rfl (by simp [FactSelection.lockState, hselects.lockOrders rfl]) hrest
  | WeakPublicationOrdering =>
      exact addUnit_threads number hselects rfl rfl (by simp [FactSelection.lockState, hselects.accesses rfl]) hrest
  | MissingJoin =>
      obtain ⟨hhandles, hknown⟩ := hrest
      obtain ⟨hresolved, hsymbols⟩ := resolvedHandles_published unit hselects rfl rfl
      refine ⟨?_, addUnit_joiningHelpers number hselects rfl ?_ hknown⟩
      · simp only [ProgramSymbolIndex.addUnit, hhandles, hresolved, hsymbols]
      · simp [FactSelection.readsCompletions, hselects.threadLifecycles rfl]
  | ThreadArgumentEscapesFrame =>
      refine addUnit_joiningHelpers number hselects rfl ?_ hrest
      simp [FactSelection.readsCompletions, hselects.threadArgumentEscapes rfl]
  | ThreadArgumentFreedEarly =>
      refine addUnit_joiningHelpers number hselects rfl ?_ hrest
      simp [FactSelection.readsCompletions, hselects.threadArgumentFrees rfl]
  | ThreadLocalOutlivesThread =>
      refine addUnit_joiningHelpers number hselects rfl ?_ hrest
      simp [FactSelection.readsCompletions, hselects.expiredThreadLocals rfl]
  | ForkAfterThreadCreation =>
      have hempty : (index.addUnit number (build unit selection (some {}))).spawnSitesByEntry = [] ↔
          (other.addUnit number (build unit everything (some {}))).spawnSitesByEntry = [] := by
        have hsites : index.spawnSitesByEntry = [] ↔ other.spawnSitesByEntry = [] := by
          rw [← List.isEmpty_iff, ← List.isEmpty_iff, hrest]
        simp only [ProgramSymbolIndex.addUnit, foldl_addSpawns_eq_nil, hfunctions, hsites,
          entryConcurrency_none_published hselects rfl]
      exact Bool.eq_iff_iff.mpr (by rw [List.isEmpty_iff, List.isEmpty_iff, hempty])
  | UnreapedChildProcess =>
      have hreaps : (build unit selection (some {})).reapsChildProcesses =
          (build unit everything (some {})).reapsChildProcesses := by
        have hprocess : selection.processLifecycle = true := hselects.processLifecycle rfl
        simp only [build, hprocess]
        rfl
      simp only [ProgramSymbolIndex.addUnit, hreaps]
      rw [show index.reapsChildren = other.reapsChildren from hrest]
  | ConditionWaitWithoutPredicate => trivial
  | UnsafeSignalHandler => trivial
  | CompilerDiagnostic => trivial

section Project

variable (units : List ProjectUnit) (loads : Nat → Bool)

-- The units that load, under their numbers, and those of them with the most common ABI. Neither
-- depends on the rules.
def loadedUnits : List (ProjectUnit × Nat) :=
  units.zipIdx.filter fun (_, number) => loads number

def compatibleUnits : List (ProjectUnit × Nat) :=
  (loadedUnits units loads).filter fun (unit, _) =>
    unit.module.abiKey = dominantAbi ((loadedUnits units loads).map fun (other, _) =>
      other.module.abiKey)

def firstAnalysis (rules : List RuleId) (unit : ProjectUnit × Nat) : AnalysedUnit :=
  ⟨unit.2, unit.1, build unit.1.module (selectionFor rules) (some {})⟩

theorem abiKey_firstAnalysis (rules : List RuleId) (unit : ProjectUnit × Nat) :
    (firstAnalysis rules unit).facts.program.abiKey = unit.1.module.abiKey := by
  have hprogram : (selectionFor rules).program = true := by simp [selectionFor, forRules]
  rw [firstAnalysis, program_firstPass hprogram]
  rfl

theorem firstPass_eq (rules : List RuleId) :
    firstPass rules units (fun _ => loads) = (loadedUnits units loads).map (firstAnalysis rules) := by
  unfold firstPass loadedUnits
  rw [← List.filterMap_eq_map, ← List.filterMap_eq_filter, List.filterMap_filterMap]
  refine List.filterMap_congr fun unit _ => ?_
  cases h : loads unit.2 <;> simp [h, firstAnalysis, Option.guard]

theorem compatible_eq (rules : List RuleId) :
    compatible rules units (fun _ => loads) =
      (compatibleUnits units loads).map (firstAnalysis rules) := by
  unfold compatible compatibleUnits
  rw [firstPass_eq, List.filter_map]
  congr 1
  refine List.filter_congr fun unit _ => ?_
  simp only [Function.comp_apply, isCompatible, abiKey_firstAnalysis, List.map_map]
  congr 3

theorem foldl_answersAlike {rule : RuleId} {selection : FactSelection}
    (hselects : Includes selection (forRules [rule] true)) (analysed : List (ProjectUnit × Nat))
    {index other : ProgramSymbolIndex} (h : AnswersAlike rule index other) :
    AnswersAlike rule
      (analysed.foldl (fun known unit =>
        known.addUnit unit.2 (build unit.1.module selection (some {}))) index)
      (analysed.foldl (fun known unit =>
        known.addUnit unit.2 (build unit.1.module everything (some {}))) other) := by
  induction analysed generalizing index other with
  | nil => exact h
  | cons unit analysed ih => exact ih (addUnit_answersAlike h unit.2 hselects)

theorem answersAlike_refl (rule : RuleId) (index : ProgramSymbolIndex) :
    AnswersAlike rule index index := by
  cases rule <;> simp [AnswersAlike]

-- The index answers a rule alike whatever else is enabled.
theorem programIndex_answersAlike {rule : RuleId} {rules : List RuleId} (hrule : rule ∈ rules) :
    AnswersAlike rule (programIndex rules units fun _ => loads)
      (programIndex [rule] units fun _ => loads) := by
  have hreference (chosen : List RuleId) (hchosen : rule ∈ chosen) :
      AnswersAlike rule (programIndex chosen units fun _ => loads)
        ((compatibleUnits units loads).foldl (fun known unit =>
          known.addUnit unit.2 (build unit.1.module everything (some {}))) {}) := by
    unfold programIndex
    rw [compatible_eq, List.foldl_map]
    exact foldl_answersAlike (forRules_includes hchosen true) _ (answersAlike_refl rule {})
  exact (hreference rules hrule).trans (hreference [rule] (List.mem_singleton_self rule)).symm

-- Whether the second pass takes a unit.
def gateOpens (rules : List RuleId) (unit : TranslationUnit) : Bool :=
  crossTUChangesFacts (build unit (selectionFor rules) (some {}))
    (programIndex rules units fun _ => loads) (selectionFor rules)

def finalFacts (rules : List RuleId) (unit : TranslationUnit) : TUFacts :=
  build unit (selectionFor rules)
    (some (if gateOpens units loads rules unit then programIndex rules units fun _ => loads else {}))

theorem secondPass_eq (rules : List RuleId) :
    secondPass rules units (fun _ => loads) =
      (compatibleUnits units loads).map fun unit =>
        ⟨unit.2, unit.1, finalFacts units loads rules unit.1.module⟩ := by
  unfold secondPass
  rw [compatible_eq, List.filterMap_map, ← List.filterMap_eq_map]
  refine List.filterMap_congr fun unit hunit => ?_
  have hloads : loads unit.2 = true :=
    (List.mem_filter.mp (List.mem_filter.mp hunit).1).2
  have hgate : isReanalyzed rules units (fun _ => loads) (firstAnalysis rules unit) =
      gateOpens units loads rules unit.1.module := rfl
  simp only [Function.comp_apply, hgate, finalFacts]
  cases gateOpens units loads rules unit.1.module <;> simp [hloads, firstAnalysis]

-- Where the rules and the one rule disagree about the second pass, it changes nothing for the rule.
def SelectionSettled (rules : List RuleId) (rule : RuleId) : Prop :=
  ∀ unit ∈ compatible [rule] units (fun _ => loads),
    gateOpens units loads rules unit.unit.module = gateOpens units loads [rule] unit.unit.module ∨
      SettledFor rule unit.unit.module (programIndex [rule] units fun _ => loads)

theorem SettledFor.of_answersAlike {rule : RuleId} {unit : TranslationUnit}
    {index other : ProgramSymbolIndex} (h : SettledFor rule unit index)
    (halike : AnswersAlike rule index other) : SettledFor rule unit other := by
  obtain ⟨hglobals, hunits, hrest⟩ := halike
  cases rule with
  | DataRaceGlobal =>
      obtain ⟨hsites, _, _⟩ := hrest
      intro entry hentry helement function hfunction hid
      rw [← collectedBindings_of_globals (trackedGlobals_answers unit hglobals)] at hentry
      rw [← spawnCount_answers hsites]
      exact h entry hentry helement function hfunction hid
  | DeadlockLockOrder =>
      have hcollected := collectedBindings_of_globals (trackedGlobals_answers unit hglobals)
      exact hcollected.symm.trans h
  | _ => trivial

theorem visibleTo_finalFacts {rule : RuleId} {rules : List RuleId} (hrule : rule ∈ rules)
    (unit : TranslationUnit) :
    visibleTo rule (finalFacts units loads rules unit) =
      visibleTo rule (build unit everything (some (if gateOpens units loads rules unit then
        programIndex rules units fun _ => loads else {}))) :=
  visibleTo_build rule (forRules_includes hrule true)

-- Where the gate misses nothing, a rule reads what the whole selection builds with the index.
theorem visibleTo_finalFacts_of_settled {rule : RuleId} {rules : List RuleId} (hrule : rule ∈ rules)
    {unit : TranslationUnit}
    (hsettled : SettledFor rule unit (programIndex rules units fun _ => loads)) :
    visibleTo rule (finalFacts units loads rules unit) =
      visibleTo rule (build unit everything (some (programIndex rules units fun _ => loads))) := by
  rw [visibleTo_finalFacts units loads hrule]
  cases hgate : gateOpens units loads rules unit with
  | true => rw [if_pos rfl]
  | false => exact (visibleTo_rebuilt (forRules_includes hrule true) hgate hsettled).symm

theorem findingsOn_finalFacts {rule : RuleId} {rules : List RuleId} (hrule : rule ∈ rules)
    (unit : TranslationUnit)
    (hsettled : gateOpens units loads rules unit = gateOpens units loads [rule] unit ∨
      SettledFor rule unit (programIndex [rule] units fun _ => loads)) :
    findingsOn rule (finalFacts units loads rules unit) =
      findingsOn rule (finalFacts units loads [rule] unit) := by
  have halike := programIndex_answersAlike units loads hrule
  have hself : rule ∈ [rule] := List.mem_singleton_self rule
  apply findingsOn_congr
  rcases hsettled with hgates | hsettled
  · rw [visibleTo_finalFacts units loads hrule, visibleTo_finalFacts units loads hself, hgates]
    cases gateOpens units loads [rule] unit with
    | true =>
        rw [if_pos rfl, if_pos rfl]
        exact visibleTo_answers unit halike
    | false => rw [if_neg Bool.false_ne_true, if_neg Bool.false_ne_true]
  · rw [visibleTo_finalFacts_of_settled units loads hrule (hsettled.of_answersAlike halike.symm),
      visibleTo_finalFacts_of_settled units loads hself hsettled]
    exact visibleTo_answers unit halike

theorem mem_ruleFindings_analyze {rule : RuleId} {rules : List RuleId} (hrule : rule ∈ rules)
    (finding : String) :
    finding ∈ ruleFindings (analyze rules units fun _ => loads).diagnostics rule ↔
      ∃ unit ∈ compatibleUnits units loads,
        finding ∈ findingsOn rule (finalFacts units loads rules unit.1.module) := by
  rw [analyze, mem_ruleFindings_merged hrule, secondPass_eq]
  simp

end Project

theorem ruleFindings_analyzeUnit {rule : RuleId} {rules : List RuleId} (hrule : rule ∈ rules)
    (unit : TranslationUnit) :
    ruleFindings (analyzeUnit rules unit) rule = findingsOn rule (build unit everything none) := by
  rw [analyzeUnit, ruleFindings_finalizeReport, ruleFindings_unitDiagnostics hrule]
  exact findingsOn_congr (visibleTo_build rule (forRules_includes hrule false))

theorem ruleFindings_analyze_alone {rule : RuleId} {rules : List RuleId} (hrule : rule ∈ rules)
    (units : List ProjectUnit) (loads : Nat → Bool)
    (hsettled : SelectionSettled units loads rules rule) :
    ruleFindings (analyze rules units fun _ => loads).diagnostics rule =
      ruleFindings (analyze [rule] units fun _ => loads).diagnostics rule := by
  have hself : rule ∈ [rule] := List.mem_singleton_self rule
  ext finding
  rw [mem_ruleFindings_analyze units loads hrule, mem_ruleFindings_analyze units loads hself]
  refine exists_congr fun unit => and_congr_right fun hunit => ?_
  have hcompatible : firstAnalysis [rule] unit ∈ compatible [rule] units (fun _ => loads) := by
    rw [compatible_eq]
    exact List.mem_map_of_mem hunit
  rw [findingsOn_finalFacts units loads hrule unit.1.module
    (hsettled (firstAnalysis [rule] unit) hcompatible)]

-- The rules enabled beside a rule change none of its findings, in one unit or in a project.
theorem rule_findings_independent (rules : List RuleId) (rule : RuleId) (hrule : rule ∈ rules)
    (units : List ProjectUnit) (loads : Nat → Bool)
    (hsettled : SelectionSettled units loads rules rule) :
    (∀ unit, ruleFindings (analyzeUnit rules unit) rule =
      ruleFindings (analyzeUnit [rule] unit) rule) ∧
    ruleFindings (analyze rules units fun _ => loads).diagnostics rule =
      ruleFindings (analyze [rule] units fun _ => loads).diagnostics rule := by
  refine ⟨fun unit => ?_, ruleFindings_analyze_alone hrule units loads hsettled⟩
  rw [ruleFindings_analyzeUnit hrule, ruleFindings_analyzeUnit (List.mem_singleton_self rule)]

-- The loop that gives each thread a slot, in a `main` that also starts `other` on the global
-- `handle` and joins it.
def slotsAndHandle : TranslationUnit :=
  { slotPerThread with
    functions := [{ id := "main", symbol := "main" }, { id := "worker", symbol := "worker" },
      { id := "other", symbol := "other" }]
    idInjective := by decide
    symbolInjective := by decide
    globals := [{ name := "slots", symbol := "slots" }, { name := "handle", symbol := "handle" }]
    collectSpawns := fun _ _ =>
      { spawns := [{ entryFunctionId := "worker", insideLoop := true }, { entryFunctionId := "other" }]
        entryConcurrency := fun entryId =>
          if entryId = "worker" then some { staticSpawnCount := 1, hasSpawnInLoop := true }
          else if entryId = "other" then some { staticSpawnCount := 1 }
          else none }
    collectThreadContexts := fun _ _ functionId =>
      if functionId = "worker" then some {"worker"}
      else if functionId = "other" then some {"other"}
      else none
    collectThreadLifecycles := fun _ _ =>
      [{ action := .Create, handleGroupId := "global:handle", functionId := "main" },
        { action := .Join, handleGroupId := "global:handle", functionId := "main" }] }

def slotsProject : List ProjectUnit := [⟨"main.c", slotsAndHandle⟩]

-- The join of `handle` opens the gate for the missing joins, and the rebuilt unit races.
theorem missing_join_adds_race :
    ruleFindings (analyze [.DataRaceGlobal] slotsProject fun _ _ => true).diagnostics
        .DataRaceGlobal = ∅ ∧
      ruleFindings (analyze [.DataRaceGlobal, .MissingJoin] slotsProject
        fun _ _ => true).diagnostics .DataRaceGlobal ≠ ∅ := by
  decide +kernel

def sharedSlotProject : List ProjectUnit := [⟨"main.c", sharedSlot⟩]

theorem missing_join_keeps_shared_slot_race :
    ruleFindings (analyze [.DataRaceGlobal] sharedSlotProject fun _ _ => true).diagnostics
        .DataRaceGlobal ≠ ∅ ∧
      ruleFindings (analyze [.DataRaceGlobal, .MissingJoin] sharedSlotProject
          fun _ _ => true).diagnostics .DataRaceGlobal =
        ruleFindings (analyze [.DataRaceGlobal] sharedSlotProject fun _ _ => true).diagnostics
          .DataRaceGlobal := by
  refine ⟨by decide +kernel, (rule_findings_independent [.DataRaceGlobal, .MissingJoin]
    .DataRaceGlobal (by decide) sharedSlotProject (fun _ => true) ?_).2⟩
  intro unit hunit
  rw [compatible_eq] at hunit
  have hmodule : unit.unit.module = sharedSlot := by
    obtain ⟨loaded, hloaded, rfl⟩ := List.mem_map.mp hunit
    have hproject := List.mem_of_mem_filter (List.mem_of_mem_filter hloaded)
    simp only [sharedSlotProject, List.zipIdx_cons, List.zipIdx_nil, List.mem_singleton] at hproject
    rw [hproject]
    rfl
  rw [hmodule]
  exact .inl (by decide +kernel)

end ConcurrencyAnalyzer.CrossTU
