import ConcurrencyAnalyzer.CrossTU.MergeOnce
import ConcurrencyAnalyzer.CrossTU.RuleSelection
import ConcurrencyAnalyzer.CrossTU.UnitOrder

namespace ConcurrencyAnalyzer.CrossTU

open FactsBuilder ProgramSymbolIndex

-- Two indices that answer alike all that a build of the unit asks them.
structure AnswersUnit (unit : TranslationUnit) (selection : FactSelection)
    (index other : ProgramSymbolIndex) : Prop where
  definedGlobals : index.definedGlobals = other.definedGlobals
  lockSummaryFor : index.lockSummaryFor = other.lockSummaryFor
  joinedParametersOf : index.joinedParametersOf = other.joinedParametersOf
  resolvedHandles : index.resolvedHandleSymbols = other.resolvedHandleSymbols
  createsThreads : index.programCreatesThreads = other.programCreatesThreads
  reapsChildren : index.programReapsChildren = other.programReapsChildren
  entries : ∀ function ∈ unit.functions, function.isDeclaration = false →
    index.entrySpawns function.symbol = other.entrySpawns function.symbol
  bindings : ∀ program ∈ [some other, some {}], ∀ entry ∈ collectedBindings unit selection program,
    ∀ function ∈ functionWithId unit entry.1,
      (∀ symbol ∈ settlingSymbols entry.2,
        index.appearsInSeveralUnits symbol = other.appearsInSeveralUnits symbol) ∧
      (entry.2.elementPerThread ≠ none →
        index.spawnCount function.symbol = other.spawnCount function.symbol)

section Answers

variable {unit : TranslationUnit} {selection : FactSelection} {index other : ProgramSymbolIndex}
  (h : AnswersUnit unit selection index other)

include h

theorem AnswersUnit.trackedGlobals :
    trackedGlobals unit (some index) = trackedGlobals unit (some other) := by
  simp only [FactsBuilder.trackedGlobals, programDefined, Option.elim_some, h.definedGlobals]

theorem AnswersUnit.collectedBindings :
    collectedBindings unit selection (some index) = collectedBindings unit selection (some other) := by
  unfold FactsBuilder.collectedBindings
  rw [h.trackedGlobals]
  rfl

theorem AnswersUnit.settleEntry {entry : String × SharedObjectBinding}
    (hentry : entry ∈ FactsBuilder.collectedBindings unit selection (some other)) :
    settleEntry unit index entry = settleEntry unit other entry := by
  unfold FactsBuilder.settleEntry
  cases hfunction : functionWithId unit entry.1 with
  | none => rfl
  | some function =>
      obtain ⟨hseveral, hcount⟩ := h.bindings (some other) (by simp) entry hentry function hfunction
      have hany : (settlingSymbols entry.2).any index.appearsInSeveralUnits =
          (settlingSymbols entry.2).any other.appearsInSeveralUnits := by
        rw [Bool.eq_iff_iff, List.any_eq_true, List.any_eq_true]
        refine exists_congr fun symbol => and_congr_right fun hsymbol => ?_
        rw [hseveral symbol hsymbol]
      simp only [settleBinding, hany]
      by_cases helements : entry.2.elementPerThread = none
      · have hsame : { entry.2 with elementPerThread := none } = entry.2 := by
          rw [← helements]
        simp only [hsame, ite_self]
      · rw [hcount helements]

theorem AnswersUnit.sharedObjectBindings :
    sharedObjectBindings unit selection (some index) =
      sharedObjectBindings unit selection (some other) := by
  simp only [FactsBuilder.sharedObjectBindings, h.collectedBindings,
    List.filterMap_congr fun entry hentry => h.settleEntry hentry]

theorem AnswersUnit.seedEntryConcurrency (concurrencyOf : String → Option EntryConcurrencyInfo)
    {functions : List FunctionInfo} (hfunctions : ∀ function ∈ functions, function ∈ unit.functions) :
    functions.foldl (seedEntryConcurrency index) concurrencyOf =
      functions.foldl (seedEntryConcurrency other) concurrencyOf := by
  induction functions generalizing concurrencyOf with
  | nil => rfl
  | cons function functions ih =>
      rw [List.forall_mem_cons] at hfunctions
      have hone : FactsBuilder.seedEntryConcurrency index concurrencyOf function =
          FactsBuilder.seedEntryConcurrency other concurrencyOf function := by
        unfold FactsBuilder.seedEntryConcurrency isThreadEntry spawnCount spawnedInLoop
        cases hdeclared : function.isDeclaration with
        | true => rfl
        | false => rw [h.entries function hfunctions.1 hdeclared]
      rw [List.foldl_cons, List.foldl_cons, hone, ih _ hfunctions.2]

theorem AnswersUnit.knownJoiningHelpers :
    knownJoiningHelpers unit selection (some index) =
      knownJoiningHelpers unit selection (some other) := by
  simp only [FactsBuilder.knownJoiningHelpers, h.joinedParametersOf]

theorem AnswersUnit.completions :
    completions unit selection (some index) = completions unit selection (some other) := by
  simp only [FactsBuilder.completions, joiningHelpers, h.knownJoiningHelpers]

theorem AnswersUnit.taskConcurrency :
    taskConcurrency unit selection (some index) = taskConcurrency unit selection (some other) := by
  simp only [FactsBuilder.taskConcurrency, h.completions, Option.isSome_some]

theorem AnswersUnit.entryConcurrency :
    entryConcurrency unit selection (some index) = entryConcurrency unit selection (some other) := by
  have hunit : unitEntryConcurrency unit selection (some index) =
      unitEntryConcurrency unit selection (some other) := by
    unfold unitEntryConcurrency
    rw [h.taskConcurrency]
    rfl
  simp only [FactsBuilder.entryConcurrency, hunit]
  exact h.seedEntryConcurrency _ fun _ hfunction => hfunction

theorem AnswersUnit.lockWrapperSummaries :
    lockWrapperSummaries unit selection (some index) =
      lockWrapperSummaries unit selection (some other) := by
  simp only [FactsBuilder.lockWrapperSummaries, h.lockSummaryFor]

theorem AnswersUnit.collectedLifecycles :
    collectedLifecycles unit selection (some index) =
      collectedLifecycles unit selection (some other) := by
  simp only [FactsBuilder.collectedLifecycles, h.completions]

theorem AnswersUnit.threadLifecycles :
    threadLifecycles unit selection (some index) = threadLifecycles unit selection (some other) := by
  have hresolved : isResolvedByProgram unit index = isResolvedByProgram unit other := by
    funext fact
    simp only [isResolvedByProgram, resolvesHandleElsewhere, h.resolvedHandles]
  simp only [FactsBuilder.threadLifecycles, h.collectedLifecycles, hresolved]

theorem AnswersUnit.pendingAccesses :
    pendingAccesses unit selection (some index) = pendingAccesses unit selection (some other) := by
  simp only [FactsBuilder.pendingAccesses, h.trackedGlobals, sharedObjectIds, localObjectIds,
    h.sharedObjectBindings]

theorem AnswersUnit.lockPropagation :
    lockPropagation unit selection (some index) = lockPropagation unit selection (some other) := by
  simp only [FactsBuilder.lockPropagation, h.lockWrapperSummaries, lockBindings,
    h.sharedObjectBindings]

theorem AnswersUnit.publications :
    publications unit selection (some index) = publications unit selection (some other) := by
  simp only [FactsBuilder.publications, h.pendingAccesses, spawnFacts, Option.isSome_some]

theorem AnswersUnit.accesses :
    accesses unit selection (some index) = accesses unit selection (some other) := by
  simp only [FactsBuilder.accesses, accessInputs, heldLocksByAccess, lockBindings, sharedObjectIds,
    localObjectIds, h.pendingAccesses, h.lockWrapperSummaries, h.publications, h.trackedGlobals,
    h.sharedObjectBindings, h.lockPropagation, h.taskConcurrency, h.completions, h.entryConcurrency,
    Option.isSome_some]

theorem AnswersUnit.collectProgramSymbolFacts :
    collectProgramSymbolFacts unit selection (some index) =
      collectProgramSymbolFacts unit selection (some other) := by
  have hresolved : resolvedGlobalHandleIds unit selection (some index) =
      resolvedGlobalHandleIds unit selection (some other) := by
    unfold resolvedGlobalHandleIds
    rw [h.collectedLifecycles]
  have hhandles : handleSymbolsByGroupId unit selection (some index) =
      handleSymbolsByGroupId unit selection (some other) := by
    funext handleGroupId
    unfold handleSymbolsByGroupId
    rw [hresolved, h.threadLifecycles]
  simp only [FactsBuilder.collectProgramSymbolFacts, settlingFunctions, h.collectedBindings, hhandles,
    Option.isSome_some]

-- So the facts are the same, all of them.
theorem AnswersUnit.build :
    build unit selection (some index) = build unit selection (some other) := by
  have hpublished : publishedJoiningHelpers unit selection (some index) =
      publishedJoiningHelpers unit selection (some other) := by
    funext functionId
    simp only [publishedJoiningHelpers, joiningHelpers, h.knownJoiningHelpers]
  simp only [FactsBuilder.build, h.accesses, lockOrders, h.threadLifecycles, lifetimes,
    h.completions, h.publications, Option.map_some, h.createsThreads, h.reapsChildren,
    h.entryConcurrency, h.lockWrapperSummaries, hpublished, resolvedGlobalHandleIds,
    h.collectedLifecycles, reachableThreadEntriesByFunction, h.taskConcurrency,
    h.collectProgramSymbolFacts, lockBindings, h.sharedObjectBindings, localObjectIds,
    h.lockPropagation, spawnFacts, Option.isSome_some]

theorem AnswersUnit.settlesOnSharedFunction (hprogram : selection.program = true) :
    settlesOnSharedFunction (FactsBuilder.build unit selection (some {})) index =
      settlesOnSharedFunction (FactsBuilder.build unit selection (some {})) other := by
  have hseveral : ∀ symbol ∈ settlingFunctions unit selection (some {}),
      index.appearsInSeveralUnits symbol = other.appearsInSeveralUnits symbol := by
    intro symbol hsymbol
    unfold settlingFunctions at hsymbol
    split at hsymbol
    · obtain ⟨entry, hentry, hsettles⟩ := List.mem_flatMap.mp (List.mem_toFinset.mp hsymbol)
      obtain ⟨hentry, hknown⟩ := List.mem_filter.mp hentry
      obtain ⟨function, hfunction⟩ := Option.isSome_iff_exists.mp hknown
      exact (h.bindings (some {}) (by simp) entry hentry function hfunction).1 symbol hsettles
    · exact absurd hsymbol (Finset.notMem_empty symbol)
  unfold CrossTU.settlesOnSharedFunction
  rw [program_firstPass hprogram, Bool.eq_iff_iff, decide_eq_true_iff, decide_eq_true_iff]
  refine exists_congr fun symbol => and_congr_right fun hsymbol => ?_
  rw [hseveral symbol hsymbol]

theorem AnswersUnit.startsMoreOften (hprogram : selection.program = true)
    {function : FunctionInfo} (hfunction : function ∈ unit.functions) :
    startsMoreOften (FactsBuilder.build unit selection (some {})) index
        (function.id, function.symbol) =
      startsMoreOften (FactsBuilder.build unit selection (some {})) other
        (function.id, function.symbol) := by
  unfold CrossTU.startsMoreOften
  rw [program_firstPass hprogram]
  cases hdeclared : function.isDeclaration with
  | true =>
      simp only [symbol_mem_declaredFunctions hfunction hdeclared, decide_true, Bool.true_or, if_true]
  | false =>
      unfold isThreadEntry spawnCount spawnedInLoop
      rw [h.entries function hfunction hdeclared]

-- Nor does the gate tell the two apart.
theorem AnswersUnit.crossTUChangesFacts (hprogram : selection.program = true) :
    crossTUChangesFacts (FactsBuilder.build unit selection (some {})) index selection =
      crossTUChangesFacts (FactsBuilder.build unit selection (some {})) other selection := by
  have hentries : (FactsBuilder.build unit selection (some {})).program.functionSymbolsById.any
        (CrossTU.startsMoreOften (FactsBuilder.build unit selection (some {})) index) =
      (FactsBuilder.build unit selection (some {})).program.functionSymbolsById.any
        (CrossTU.startsMoreOften (FactsBuilder.build unit selection (some {})) other) := by
    rw [program_firstPass hprogram, Bool.eq_iff_iff, List.any_eq_true, List.any_eq_true]
    refine exists_congr fun symbols => and_congr_right fun hsymbols => ?_
    obtain ⟨function, hfunction, rfl⟩ := List.mem_map.mp hsymbols
    rw [h.startsMoreOften hprogram hfunction]
  have hdefined : index.isDefinedSomewhere = other.isDefinedSomewhere := by
    funext symbol
    simp only [isDefinedSomewhere, h.definedGlobals]
  have hhandles : index.resolvesHandleElsewhere = other.resolvesHandleElsewhere := by
    funext symbol
    simp only [resolvesHandleElsewhere, h.resolvedHandles]
  unfold CrossTU.crossTUChangesFacts declaresDefinedGlobal forksBesideThreads forksReapedElsewhere
    createsResolvedHandle declaresLockHelper declaresJoiningHelper
  simp only [hdefined, h.createsThreads, h.reapsChildren, hhandles, h.lockSummaryFor,
    h.joinedParametersOf, h.settlesOnSharedFunction hprogram, hentries]

end Answers

-- What the index answers, told from the facts of the units in order.
section Facts

variable (units : NumberedUnits) (symbol : String)

theorem entrySpawns_ofUnits :
    (ofUnits units).entrySpawns symbol =
      ((units.map Prod.snd).flatMap (startsOf symbol)).foldl addCount none := by
  rw [ofUnits, entrySpawns_addUnits, List.flatMap_map]
  rfl

theorem isThreadEntry_ofUnits :
    (ofUnits units).isThreadEntry symbol = true ↔
      ∃ facts ∈ units.map Prod.snd, startsOf symbol facts ≠ [] := by
  have hsome (starts : List EntryConcurrencyInfo) :
      (starts.foldl addCount none).isSome = !starts.isEmpty := by
    cases starts using List.reverseRecOn with
    | nil => rfl
    | append_singleton starts start => simp [addCount]
  rw [isThreadEntry, entrySpawns_ofUnits, hsome, Bool.not_eq_true', List.isEmpty_eq_false_iff,
    ne_eq, List.flatMap_eq_nil_iff]
  push Not
  rfl

theorem lockSummaryFor_ofUnits :
    (ofUnits units).lockSummaryFor symbol =
      (units.map Prod.snd).findSome? (publishedOn (·.lockWrapperSummaries) symbol) := by
  rw [ofUnits, lockSummaryFor_addUnits, List.findSome?_map]
  exact Option.none_or

theorem joinedParametersOf_ofUnits :
    (ofUnits units).joinedParametersOf symbol =
      (units.map Prod.snd).findSome? (publishedOn (·.joiningHelpers) symbol) := by
  rw [ofUnits, joinedParametersOf_addUnits, List.findSome?_map]
  exact Option.none_or

theorem showing_ofUnits :
    (units.filter fun unit => shows symbol unit.2).length =
      ((units.map Prod.snd).filter (shows symbol)).length := by
  rw [List.filter_map, List.length_map]
  rfl

end Facts

-- A list, with one of its items listed again where `copy` has one.
def once {α : Type} (before middle after : List α) (copy : Option α) : List α :=
  before ++ copy.toList ++ (middle ++ after)

def twice {α : Type} (before middle after : List α) (copy : Option α) : List α :=
  before ++ copy.toList ++ (middle ++ copy.toList ++ after)

theorem findSome_twice {α β : Type} (answer : α → Option β) (before middle after : List α)
    (copy : Option α) :
    (twice before middle after copy).findSome? answer =
      (once before middle after copy).findSome? answer := by
  unfold twice once
  cases copy with
  | none => simp
  | some unit =>
      simp only [Option.toList_some, List.findSome?_append, List.findSome?_singleton]
      cases answer unit with
      | none => simp
      | some summary => simp

theorem mem_twice {α : Type} (before middle after : List α) (copy : Option α) (other : α) :
    other ∈ twice before middle after copy ↔ other ∈ once before middle after copy := by
  simp only [twice, once, List.mem_append]
  tauto

-- What a copy of a unit adds to the index that a unit of the program asks for.
structure AddsNothing (copy : TUFacts) (index : ProgramSymbolIndex) (unit : TranslationUnit)
    (selection : FactSelection) : Prop where
  starts : ∀ function ∈ unit.functions, function.isDeclaration = false →
    startsOf function.symbol copy = []
  elements : ∀ program ∈ [some index, some {}], ∀ entry ∈ collectedBindings unit selection program,
    entry.2.elementPerThread ≠ none → ∀ function ∈ functionWithId unit entry.1,
      startsOf function.symbol copy = []
  settles : ∀ program ∈ [some index, some {}], ∀ entry ∈ collectedBindings unit selection program,
    ∀ symbol ∈ settlingSymbols entry.2, shows symbol copy = true →
      index.appearsInSeveralUnits symbol = true

section Copy

variable {units copied : NumberedUnits} {before middle after : List TUFacts} {copy : Option TUFacts}
  (hunits : units.map Prod.snd = once before middle after copy)
  (hcopied : copied.map Prod.snd = twice before middle after copy)

include hunits hcopied

theorem exists_mem_copied (holds : TUFacts → Prop) :
    (∃ unit ∈ copied, holds unit.2) ↔ ∃ unit ∈ units, holds unit.2 := by
  have hfacts (numbered : NumberedUnits) :
      (∃ unit ∈ numbered, holds unit.2) ↔ ∃ facts ∈ numbered.map Prod.snd, holds facts := by
    simp only [List.mem_map, exists_exists_and_eq_and]
  rw [hfacts, hfacts, hunits, hcopied]
  simp only [mem_twice]

theorem entrySpawns_copied {symbol : String} (h : ∀ facts ∈ copy, startsOf symbol facts = []) :
    (ofUnits copied).entrySpawns symbol = (ofUnits units).entrySpawns symbol := by
  rw [entrySpawns_ofUnits, entrySpawns_ofUnits, hunits, hcopied, once, twice]
  cases copy with
  | none => simp
  | some facts => simp [h facts rfl]

theorem isThreadEntry_copied (symbol : String) :
    (ofUnits copied).isThreadEntry symbol = (ofUnits units).isThreadEntry symbol := by
  rw [Bool.eq_iff_iff, isThreadEntry_ofUnits, isThreadEntry_ofUnits, hunits, hcopied]
  simp only [mem_twice]

theorem appearsInSeveralUnits_copied (hdistinct : (units.map Prod.fst).Nodup)
    (hdistinct' : (copied.map Prod.fst).Nodup) {symbol : String}
    (h : ∀ facts ∈ copy, shows symbol facts = true →
      (ofUnits units).appearsInSeveralUnits symbol = true) :
    (ofUnits copied).appearsInSeveralUnits symbol = (ofUnits units).appearsInSeveralUnits symbol := by
  have hcount (numbered : NumberedUnits) (hnumbers : (numbered.map Prod.fst).Nodup) :
      (ofUnits numbered).appearsInSeveralUnits symbol =
        decide (2 ≤ ((numbered.map Prod.snd).filter (shows symbol)).length) := by
    rw [appearsInSeveralUnits_ofUnits hnumbers, showing_ofUnits]
  rw [hcount units hdistinct] at h ⊢
  rw [hcount copied hdistinct', hunits, hcopied]
  rw [hunits] at h
  unfold once at h ⊢
  unfold twice
  cases copy with
  | none => simp
  | some facts =>
      by_cases hshows : shows symbol facts = true
      · have hseveral := of_decide_eq_true (h facts rfl hshows)
        rw [Bool.eq_iff_iff, decide_eq_true_iff, decide_eq_true_iff]
        simp only [List.filter_append, List.length_append] at hseveral ⊢
        omega
      · simp [List.filter_append, hshows]

theorem answersUnit_copied (hdistinct : (units.map Prod.fst).Nodup)
    (hdistinct' : (copied.map Prod.fst).Nodup) {unit : TranslationUnit} {selection : FactSelection}
    (h : ∀ facts ∈ copy, AddsNothing facts (ofUnits units) unit selection) :
    AnswersUnit unit selection (ofUnits copied) (ofUnits units) where
  definedGlobals := by
    ext symbol
    rw [ofUnits, ofUnits, mem_definedGlobals_addUnits, mem_definedGlobals_addUnits]
    exact or_congr_right (exists_mem_copied hunits hcopied fun facts =>
      symbol ∈ facts.program.definedGlobals)
  lockSummaryFor := by
    funext symbol
    rw [lockSummaryFor_ofUnits, lockSummaryFor_ofUnits, hunits, hcopied, findSome_twice]
  joinedParametersOf := by
    funext symbol
    rw [joinedParametersOf_ofUnits, joinedParametersOf_ofUnits, hunits, hcopied, findSome_twice]
  resolvedHandles := by
    ext symbol
    rw [ofUnits, ofUnits, mem_resolvedHandleSymbols_addUnits, mem_resolvedHandleSymbols_addUnits]
    exact or_congr_right (exists_mem_copied hunits hcopied fun facts =>
      symbol ∈ resolvedHandles facts)
  createsThreads := by
    rw [Bool.eq_iff_iff, programCreatesThreads_iff, programCreatesThreads_iff]
    refine exists_congr fun symbol => ?_
    rw [isThreadEntry_copied hunits hcopied]
  reapsChildren := by
    unfold programReapsChildren
    rw [Bool.eq_iff_iff, ofUnits, ofUnits, reapsChildren_addUnits, reapsChildren_addUnits]
    exact or_congr_right (exists_mem_copied hunits hcopied fun facts =>
      facts.reapsChildProcesses = true)
  entries function hfunction hdefined :=
    entrySpawns_copied hunits hcopied fun facts hfacts =>
      (h facts hfacts).starts function hfunction hdefined
  bindings program hprogram entry hentry function hfunction := by
    refine ⟨fun symbol hsymbol => ?_, fun helements => ?_⟩
    · exact appearsInSeveralUnits_copied hunits hcopied hdistinct hdistinct' fun facts hfacts =>
        (h facts hfacts).settles program hprogram entry hentry symbol hsymbol
    · unfold spawnCount
      rw [entrySpawns_copied hunits hcopied fun facts hfacts =>
        (h facts hfacts).elements program hprogram entry hentry helements function hfunction]

end Copy

section Merge

-- A merge keeps every key, and a diagnostic whose key is known adds nothing.
theorem any_key_mergeDiagnostic (report : List Diagnostic) (diagnostic : Diagnostic) :
    (mergeDiagnostic report diagnostic).any (diagnosticKey · = diagnosticKey diagnostic) = true := by
  unfold mergeDiagnostic
  split
  · assumption
  · simp

theorem any_key_mergeReport (report : List Diagnostic) {diagnostics : List Diagnostic}
    {diagnostic : Diagnostic} (h : diagnostic ∈ diagnostics) :
    (mergeReport report diagnostics).any (diagnosticKey · = diagnosticKey diagnostic) = true := by
  obtain ⟨before, after, rfl⟩ := List.append_of_mem h
  rw [mergeReport, List.foldl_append, List.foldl_cons, List.any_eq_true]
  obtain ⟨known, hknown, hkey⟩ :=
    List.any_eq_true.mp (any_key_mergeDiagnostic (before.foldl mergeDiagnostic report) diagnostic)
  exact ⟨known, (mergeReport_grows _ after).subset hknown, hkey⟩

theorem mergeReport_known {report diagnostics : List Diagnostic}
    (h : ∀ diagnostic ∈ diagnostics,
      report.any (diagnosticKey · = diagnosticKey diagnostic) = true) :
    mergeReport report diagnostics = report := by
  induction diagnostics with
  | nil => rfl
  | cons diagnostic rest ih =>
      rw [List.forall_mem_cons] at h
      rw [mergeReport, List.foldl_cons, mergeDiagnostic, if_pos h.1]
      exact ih h.2

theorem mergeReports_twice (before middle after : List (List Diagnostic))
    (report : Option (List Diagnostic)) :
    mergeReports (twice before middle after report) =
      mergeReports (once before middle after report) := by
  cases report with
  | none => simp [twice, once]
  | some report =>
      have hknown : mergeReport (mergeReports (before ++ [report] ++ middle)) report =
          mergeReports (before ++ [report] ++ middle) := by
        refine mergeReport_known fun diagnostic hdiagnostic => ?_
        have hconcat : mergeReports (before ++ [report]) =
            mergeReport (mergeReports before) report := by
          rw [mergeReports_append, List.foldl_cons, List.foldl_nil]
        obtain ⟨known, hmem, hkey⟩ :=
          List.any_eq_true.mp (any_key_mergeReport (mergeReports before) hdiagnostic)
        rw [← hconcat] at hmem
        exact List.any_eq_true.mpr
          ⟨known, (mergeReports_grow (before ++ [report]) middle).subset hmem, hkey⟩
      have htwice : twice before middle after (some report) =
          (before ++ [report] ++ middle) ++ report :: after := by
        simp [twice]
      have honce : once before middle after (some report) =
          (before ++ [report] ++ middle) ++ after := by
        simp [once]
      rw [htwice, honce, mergeReports_append, List.foldl_cons, hknown, ← mergeReports_append]

end Merge

section Project

variable (rules : List RuleId) (units : List ProjectUnit) (loads : Pass → ProjectUnit → Bool)

-- Whether a unit loads in a pass is up to the unit, wherever it is listed.
def loadsIn (pass : Pass) (number : Nat) : Bool :=
  units[number]?.any (loads pass)

def firstFacts (unit : ProjectUnit) : TUFacts :=
  build unit.module (selectionFor rules) (some {})

def loadedModules : List ProjectUnit :=
  units.filter (loads .First)

def abiOf : String :=
  dominantAbi ((loadedModules units loads).map (·.module.abiKey))

def compatibleModules : List ProjectUnit :=
  (loadedModules units loads).filter (·.module.abiKey = abiOf units loads)

def projectIndex : ProgramSymbolIndex :=
  programIndex rules units (loadsIn units loads)

-- The report of a compatible unit, if it still loads.
def reportOf (index : ProgramSymbolIndex) (unit : ProjectUnit) : Option (List Diagnostic) :=
  if !crossTUChangesFacts (firstFacts rules unit) index (selectionFor rules) then
    some (finalizeReport (unitDiagnostics rules (firstFacts rules unit)))
  else if loads .Second unit then
    some (finalizeReport (unitDiagnostics rules
      (build unit.module (selectionFor rules) (some index))))
  else none

def numberedLoaded : List (ProjectUnit × Nat) :=
  units.zipIdx.filter fun unit => loads .First unit.1

theorem loadsIn_eq {unit : ProjectUnit × Nat} (h : unit ∈ units.zipIdx) (pass : Pass) :
    loadsIn units loads pass unit.2 = loads pass unit.1 := by
  rw [loadsIn, List.mem_zipIdx_iff_getElem?.mp h, Option.any_some]

theorem firstPass_loadsIn :
    firstPass rules units (loadsIn units loads) =
      (numberedLoaded units loads).map (firstAnalysis rules) := by
  unfold firstPass numberedLoaded
  rw [← List.filterMap_eq_map, ← List.filterMap_eq_filter, List.filterMap_filterMap]
  refine List.filterMap_congr fun unit hunit => ?_
  have hloads := loadsIn_eq units loads hunit .First
  cases h : loads .First unit.1 <;> simp [h, hloads, firstAnalysis, Option.guard]

theorem map_fst_numberedLoaded :
    (numberedLoaded units loads).map Prod.fst = loadedModules units loads := by
  have hfst : units.zipIdx.map Prod.fst = units := List.zipIdx_map_fst 0 units
  conv_rhs => rw [loadedModules, ← hfst, List.filter_map]
  rfl

def numberedCompatible : List (ProjectUnit × Nat) :=
  (numberedLoaded units loads).filter fun unit => unit.1.module.abiKey = abiOf units loads

theorem compatible_loadsIn :
    compatible rules units (loadsIn units loads) =
      (numberedCompatible units loads).map (firstAnalysis rules) := by
  unfold compatible numberedCompatible
  rw [firstPass_loadsIn, List.filter_map]
  congr 1
  refine List.filter_congr fun unit _ => ?_
  have hkeys : ((numberedLoaded units loads).map (firstAnalysis rules)).map
      (·.facts.program.abiKey) = (loadedModules units loads).map (·.module.abiKey) := by
    rw [← map_fst_numberedLoaded, List.map_map, List.map_map]
    exact List.map_congr_left fun unit _ => abiKey_firstAnalysis rules unit
  rw [Function.comp_apply, isCompatible, hkeys, abiKey_firstAnalysis, abiOf]

theorem map_fst_numberedCompatible :
    (numberedCompatible units loads).map Prod.fst = compatibleModules units loads := by
  rw [compatibleModules, ← map_fst_numberedLoaded, List.filter_map]
  rfl

def numberedFacts : NumberedUnits :=
  (numberedCompatible units loads).map fun unit => (unit.2, firstFacts rules unit.1)

theorem projectIndex_eq : projectIndex rules units loads = ofUnits (numberedFacts rules units loads) := by
  rw [projectIndex, programIndex, compatible_loadsIn, List.foldl_map, ofUnits, addUnits, numberedFacts,
    List.foldl_map]
  rfl

theorem map_snd_numberedFacts :
    (numberedFacts rules units loads).map Prod.snd =
      (compatibleModules units loads).map (firstFacts rules) := by
  rw [numberedFacts, List.map_map, ← map_fst_numberedCompatible, List.map_map]
  rfl

theorem nodup_numberedFacts : ((numberedFacts rules units loads).map Prod.fst).Nodup := by
  have hnumbers : (units.zipIdx.map Prod.snd).Nodup := by
    rw [List.zipIdx_map_snd]
    exact List.nodup_range'
  have hfst : (numberedFacts rules units loads).map Prod.fst =
      (numberedCompatible units loads).map Prod.snd := by
    rw [numberedFacts, List.map_map]
    rfl
  rw [hfst]
  exact hnumbers.sublist ((List.filter_sublist.trans List.filter_sublist).map Prod.snd)

-- The report of the project, told from the modules that take part.
theorem diagnostics_loadsIn :
    (analyze rules units (loadsIn units loads)).diagnostics =
      mergeReports ((compatibleModules units loads).filterMap
        (reportOf rules loads (projectIndex rules units loads))) := by
  rw [analyze_diagnostics, unitReports, secondPass, compatible_loadsIn,
    ← map_fst_numberedCompatible, List.filterMap_map, List.filterMap_map, List.map_filterMap]
  congr 1
  refine List.filterMap_congr fun unit hunit => ?_
  have hmem : unit ∈ units.zipIdx :=
    List.mem_of_mem_filter (List.mem_of_mem_filter hunit)
  have hsecond : loadsIn units loads .Second (firstAnalysis rules unit).number =
      loads .Second unit.1 := loadsIn_eq units loads hmem .Second
  simp only [Function.comp_apply, reportOf, hsecond]
  have hgate : isReanalyzed rules units (loadsIn units loads) (firstAnalysis rules unit) =
      crossTUChangesFacts (firstFacts rules unit.1) (projectIndex rules units loads)
        (selectionFor rules) := rfl
  rw [hgate]
  split
  · rfl
  · split <;> rfl

end Project

section Repeated

variable (rules : List RuleId) (before middle after : List ProjectUnit) (unit : ProjectUnit)
  (loads : Pass → ProjectUnit → Bool)

-- A project, and the project that lists one of its units a second time.
def listedOnce : List ProjectUnit := before ++ unit :: (middle ++ after)

def listedTwice : List ProjectUnit := before ++ unit :: (middle ++ unit :: after)

-- The copy outvotes no ABI, and what it adds to the counts of the index is asked for by no unit.
structure CopyCountsNowhere : Prop where
  abi : abiOf (listedTwice before middle after unit) loads =
    abiOf (listedOnce before middle after unit) loads
  adds : unit ∈ compatibleModules (listedOnce before middle after unit) loads →
    ∀ next ∈ compatibleModules (listedOnce before middle after unit) loads,
      AddsNothing (firstFacts rules unit)
        (projectIndex rules (listedOnce before middle after unit) loads) next.module
        (selectionFor rules)

-- A unit that is left out is left out twice.
theorem compatibleModules_listedTwice
    (h : abiOf (listedTwice before middle after unit) loads =
      abiOf (listedOnce before middle after unit) loads) :
    ∃ first second third kept, (∀ next ∈ kept, next = unit) ∧
      compatibleModules (listedOnce before middle after unit) loads =
        once first second third kept ∧
      compatibleModules (listedTwice before middle after unit) loads =
        twice first second third kept := by
  have hfilter (units : List ProjectUnit) :
      compatibleModules units loads = units.filter fun next =>
        next.module.abiKey = abiOf units loads && loads .First next := by
    rw [compatibleModules, loadedModules, List.filter_filter]
  rw [hfilter, hfilter, h]
  generalize hkeep : (fun next : ProjectUnit => decide (next.module.abiKey =
    abiOf (listedOnce before middle after unit) loads) && loads .First next) = keep
  unfold listedOnce listedTwice
  refine ⟨before.filter keep, middle.filter keep, after.filter keep,
    if keep unit then some unit else none, ?_, ?_, ?_⟩
  · intro next hnext
    split at hnext
    · exact (Option.some_inj.mp hnext).symm
    · exact absurd hnext (by simp)
  all_goals cases hunit : keep unit <;> simp [once, twice, hunit]

theorem map_once {α β : Type} (f : α → β) (before middle after : List α) (copy : Option α) :
    (once before middle after copy).map f =
      once (before.map f) (middle.map f) (after.map f) (copy.map f) := by
  cases copy <;> simp [once]

theorem map_twice {α β : Type} (f : α → β) (before middle after : List α) (copy : Option α) :
    (twice before middle after copy).map f =
      twice (before.map f) (middle.map f) (after.map f) (copy.map f) := by
  cases copy <;> simp [twice]

theorem filterMap_once {α β : Type} (f : α → Option β) (before middle after : List α)
    (copy : Option α) :
    (once before middle after copy).filterMap f =
      once (before.filterMap f) (middle.filterMap f) (after.filterMap f) (copy.bind f) := by
  cases copy with
  | none => simp [once]
  | some unit => cases h : f unit <;> simp [once, h]

theorem filterMap_twice {α β : Type} (f : α → Option β) (before middle after : List α)
    (copy : Option α) :
    (twice before middle after copy).filterMap f =
      twice (before.filterMap f) (middle.filterMap f) (after.filterMap f) (copy.bind f) := by
  cases copy with
  | none => simp [twice]
  | some unit => cases h : f unit <;> simp [twice, h]

-- A project that lists a unit a second time reports what it did, if the copy counts nowhere.
theorem repeated_unit_changes_nothing
    (h : CopyCountsNowhere rules before middle after unit loads) :
    (analyze rules (listedTwice before middle after unit)
        (loadsIn (listedTwice before middle after unit) loads)).diagnostics =
      (analyze rules (listedOnce before middle after unit)
        (loadsIn (listedOnce before middle after unit) loads)).diagnostics := by
  have hprogram : (selectionFor rules).program = true := by
    simp [selectionFor, FactSelection.forRules]
  obtain ⟨first, second, third, kept, hkept, honce, htwice⟩ :=
    compatibleModules_listedTwice before middle after unit loads h.abi
  have hadds : ∀ next ∈ compatibleModules (listedOnce before middle after unit) loads,
      ∀ facts ∈ kept.map (firstFacts rules), AddsNothing facts
        (projectIndex rules (listedOnce before middle after unit) loads) next.module
        (selectionFor rules) := by
    intro next hnext facts hfacts
    obtain ⟨copy, hcopy, rfl⟩ := Option.map_eq_some_iff.mp hfacts
    obtain rfl := hkept copy hcopy
    refine h.adds ?_ next hnext
    rw [honce, hcopy]
    simp [once]
  -- Every compatible unit gets the same answers from both indices, and so the same report.
  have hreports : ∀ next ∈ compatibleModules (listedOnce before middle after unit) loads,
      reportOf rules loads (projectIndex rules (listedTwice before middle after unit) loads) next =
        reportOf rules loads (projectIndex rules (listedOnce before middle after unit) loads) next := by
    intro next hnext
    have halike := hadds next hnext
    rw [projectIndex_eq] at halike
    have hanswers := answersUnit_copied
      (by rw [map_snd_numberedFacts, honce, map_once])
      (by rw [map_snd_numberedFacts, htwice, map_twice])
      (nodup_numberedFacts rules _ loads)
      (nodup_numberedFacts rules (listedTwice before middle after unit) loads) halike
    rw [projectIndex_eq, projectIndex_eq]
    unfold reportOf firstFacts
    rw [hanswers.build, hanswers.crossTUChangesFacts hprogram]
  rw [diagnostics_loadsIn, diagnostics_loadsIn, htwice, filterMap_twice, mergeReports_twice,
    ← filterMap_once, ← honce]
  congr 1
  exact List.filterMap_congr hreports

end Repeated

-- `main.c` starts one thread, whose function `worker.c` defines.
def startsWorker : ProjectUnit where
  identifier := "main.c"
  module :=
    { functions := [{ id := "main", symbol := "main" },
        { id := "worker", symbol := "worker", isDeclaration := true }]
      collectSpawns := fun _ _ =>
        { spawns := [{ entryFunctionId := "worker" }]
          entryConcurrency := fun entryId =>
            if entryId = "worker" then some { staticSpawnCount := 1 } else none }
      analyzeTaskConcurrency := fun _ _ _ => { rootTaskFunctions := {"main"} } }

def countingWorker : ProjectUnit where
  identifier := "worker.c"
  module :=
    { functions := [{ id := "worker", symbol := "worker" }]
      globals := [{ name := "counter", symbol := "counter" }]
      collectThreadContexts := fun _ concurrencyOf functionId =>
        if functionId = "worker" ∧ (concurrencyOf "worker").isSome then some {"worker"} else none
      summarizeAccesses := fun _ =>
        { concreteAccesses :=
            [{ symbol := "counter"
               functionId := "worker"
               kind := .Write
               loweredLocation := { file := "worker.c", line := 4, column := 3 }
               userLocation := { file := "worker.c", line := 4, column := 3 } }] } }

-- Listed twice, `main.c` starts two threads that race.
theorem repeated_start_races :
    ruleFindings (analyze [.DataRaceGlobal] (listedOnce [] [] [countingWorker] startsWorker)
        (loadsIn (listedOnce [] [] [countingWorker] startsWorker) fun _ _ => true)).diagnostics
        .DataRaceGlobal = ∅ ∧
      ruleFindings (analyze [.DataRaceGlobal] (listedTwice [] [] [countingWorker] startsWorker)
        (loadsIn (listedTwice [] [] [countingWorker] startsWorker) fun _ _ => true)).diagnostics
        .DataRaceGlobal ≠ ∅ := by
  decide +kernel

theorem repeated_worker_races_not :
    (analyze [.DataRaceGlobal] (listedTwice [startsWorker] [] [] countingWorker)
        (loadsIn (listedTwice [startsWorker] [] [] countingWorker) fun _ _ => true)).diagnostics =
      (analyze [.DataRaceGlobal] (listedOnce [startsWorker] [] [] countingWorker)
        (loadsIn (listedOnce [startsWorker] [] [] countingWorker) fun _ _ => true)).diagnostics := by
  refine repeated_unit_changes_nothing _ _ _ _ _ _ ⟨by decide +kernel, fun _ next hnext => ?_⟩
  have hunits : next = startsWorker ∨ next = countingWorker := by
    have hmem := List.mem_of_mem_filter (List.mem_of_mem_filter hnext)
    simpa [listedOnce] using hmem
  rcases hunits with rfl | rfl
  · refine ⟨by decide +kernel, ?_, ?_⟩
    · intro program _ entry hentry
      exact absurd hentry (by simp [collectedBindings, startsWorker])
    · intro program _ entry hentry
      exact absurd hentry (by simp [collectedBindings, startsWorker])
  · refine ⟨by decide +kernel, ?_, ?_⟩
    · intro program _ entry hentry
      exact absurd hentry (by simp [collectedBindings, countingWorker])
    · intro program _ entry hentry
      exact absurd hentry (by simp [collectedBindings, countingWorker])

end ConcurrencyAnalyzer.CrossTU
