import ConcurrencyAnalyzer.CrossTU.RuleReads

namespace ConcurrencyAnalyzer.CrossTU

open FactsBuilder
open FactSelection (everything forRules forRules_includes Includes)

section Rebuild

variable {unit : TranslationUnit} {index : ProgramSymbolIndex}

-- What the program says of a unit's symbols through one channel changes nothing in the unit.

def NoGlobalDefinedElsewhere (unit : TranslationUnit) (index : ProgramSymbolIndex) : Prop :=
  ∀ global ∈ unit.globals, global.canBeSharedState = true → global.isDeclaration = true →
    global.symbol ∉ index.definedGlobals

def NoLockHelperElsewhere (unit : TranslationUnit) (index : ProgramSymbolIndex) : Prop :=
  ∀ function ∈ unit.functions, function.isDeclaration = true →
    index.lockSummaryFor function.symbol = none

def NoJoiningHelperElsewhere (unit : TranslationUnit) (index : ProgramSymbolIndex) : Prop :=
  ∀ function ∈ unit.functions, function.isDeclaration = true →
    index.joinedParametersOf function.symbol = none

theorem trackedGlobals_rebuilt (h : NoGlobalDefinedElsewhere unit index) :
    trackedGlobals unit (some index) = trackedGlobals unit (some {}) := by
  have htrack : ∀ global ∈ unit.globals,
      shouldTrackSharedGlobal (programDefined (some index)) global =
        shouldTrackSharedGlobal (programDefined (some {})) global := by
    intro global hglobal
    have hnot := h global hglobal
    simp only [shouldTrackSharedGlobal, programDefined, Option.elim_some]
    cases hshared : global.canBeSharedState <;> cases hdeclared : global.isDeclaration <;>
      simp_all
  unfold trackedGlobals
  rw [List.filter_congr htrack]

-- The program makes no object of the unit's bindings another one.
def SameObjects (unit : TranslationUnit) (index : ProgramSymbolIndex) : Prop :=
  collectedBindings unit everything (some index) = collectedBindings unit everything (some {})

theorem sameObjects_of_globals (h : NoGlobalDefinedElsewhere unit index) : SameObjects unit index :=
  collectedBindings_of_globals (trackedGlobals_rebuilt h)

theorem seededFromProgram_eq_self {α : Type} {answer : String → Option α}
    (h : ∀ function ∈ unit.functions, function.isDeclaration = true →
      answer function.symbol = none) (known : String → Option α) :
    seededFromProgram unit known answer = known := by
  funext functionId
  unfold seededFromProgram
  cases hfind : unit.functions.find? fun function =>
      function.id = functionId && function.isDeclaration with
  | none => simp
  | some function =>
      have hdeclared := List.find?_some hfind
      rw [Bool.and_eq_true] at hdeclared
      simp [h function (List.mem_of_find?_eq_some hfind) hdeclared.2]

theorem lockWrapperSummaries_rebuilt (h : NoLockHelperElsewhere unit index) :
    lockWrapperSummaries unit everything (some index) =
      lockWrapperSummaries unit everything (some {}) := by
  unfold lockWrapperSummaries
  simp only [seededFromProgram_eq_self h]
  rw [seededFromProgram_eq_self fun _ _ _ => rfl]

theorem knownJoiningHelpers_rebuilt (h : NoJoiningHelperElsewhere unit index) :
    knownJoiningHelpers unit everything (some index) =
      knownJoiningHelpers unit everything (some {}) := by
  unfold knownJoiningHelpers
  simp only [seededFromProgram_eq_self h]
  rw [seededFromProgram_eq_self fun _ _ _ => rfl]

-- The program starts no entry of the unit that the unit does not know to be started as often.
def KnowsItsEntries (unit : TranslationUnit) (index : ProgramSymbolIndex) : Prop :=
  ∀ function ∈ unit.functions, function.isDeclaration = false →
    index.isThreadEntry function.symbol = true →
    ∃ concurrency, unitEntryConcurrency unit everything (some {}) function.id = some concurrency ∧
      index.spawnCount function.symbol ≤ concurrency.staticSpawnCount ∧
      (index.spawnedInLoop function.symbol = true → concurrency.hasSpawnInLoop = true)

theorem seedEntryConcurrency_eq_self {concurrencyOf : String → Option EntryConcurrencyInfo}
    {functions : List FunctionInfo}
    (h : ∀ function ∈ functions, seedEntryConcurrency index concurrencyOf function = concurrencyOf) :
    functions.foldl (seedEntryConcurrency index) concurrencyOf = concurrencyOf := by
  induction functions with
  | nil => rfl
  | cons function functions ih =>
      rw [List.foldl_cons, h function (List.mem_cons_self ..)]
      exact ih fun other ho => h other (List.mem_cons_of_mem _ ho)

theorem entryConcurrency_firstPass (selection : FactSelection) :
    entryConcurrency unit selection (some {}) = unitEntryConcurrency unit selection (some {}) := by
  refine seedEntryConcurrency_eq_self fun function _ => ?_
  simp [seedEntryConcurrency, ProgramSymbolIndex.isThreadEntry, ProgramSymbolIndex.entrySpawns]

-- Starts that the unit counts as often itself change nothing.
theorem entryConcurrency_of_counted {selection : FactSelection}
    (hunit : unitEntryConcurrency unit selection (some index) =
      unitEntryConcurrency unit selection (some {}))
    (hcounted : ∀ function ∈ unit.functions, function.isDeclaration = false →
      index.isThreadEntry function.symbol = true →
      ∃ concurrency, unitEntryConcurrency unit selection (some {}) function.id = some concurrency ∧
        index.spawnCount function.symbol ≤ concurrency.staticSpawnCount ∧
        (index.spawnedInLoop function.symbol = true → concurrency.hasSpawnInLoop = true)) :
    entryConcurrency unit selection (some index) = entryConcurrency unit selection (some {}) := by
  rw [entryConcurrency_firstPass]
  unfold entryConcurrency
  rw [hunit]
  refine seedEntryConcurrency_eq_self fun function hfunction => ?_
  unfold seedEntryConcurrency
  cases hdeclared : function.isDeclaration with
  | true => rfl
  | false =>
      cases hentry : index.isThreadEntry function.symbol with
      | false => rfl
      | true =>
          obtain ⟨concurrency, hconcurrency, hcount, hloop⟩ :=
            hcounted function hfunction hdeclared hentry
          have hkeptLoop : (concurrency.hasSpawnInLoop || index.spawnedInLoop function.symbol) =
              concurrency.hasSpawnInLoop := by
            cases hin : index.spawnedInLoop function.symbol with
            | false => exact Bool.or_false _
            | true => rw [hloop hin, Bool.true_or]
          simp only [hconcurrency, Option.getD_some, max_eq_left hcount, hkeptLoop]
          exact Function.update_eq_self_iff.mpr hconcurrency.symm

theorem entryConcurrency_rebuilt (hjoins : NoJoiningHelperElsewhere unit index)
    (h : KnowsItsEntries unit index) :
    entryConcurrency unit everything (some index) = entryConcurrency unit everything (some {}) :=
  entryConcurrency_of_counted (unitEntryConcurrency_of_joins (knownJoiningHelpers_rebuilt hjoins)) h

-- No binding of the unit relies on a function that another unit shows too.
def KeepsBindings (unit : TranslationUnit) (index : ProgramSymbolIndex) : Prop :=
  ∀ entry ∈ collectedBindings unit everything (some index),
    (functionWithId unit entry.1).isSome = true →
      (settlingSymbols entry.2).any index.appearsInSeveralUnits = false

-- No binding that gives each thread an element of its own is for an entry the program counts more
-- than one start of.
def KeepsElements (unit : TranslationUnit) (index : ProgramSymbolIndex) : Prop :=
  ∀ entry ∈ collectedBindings unit everything (some index), entry.2.elementPerThread ≠ none →
    ∀ function ∈ unit.functions, function.id = entry.1 → index.spawnCount function.symbol ≤ 1

theorem sharedObjectBindings_firstPass :
    sharedObjectBindings unit everything (some {}) = collectedBindings unit everything (some {}) := by
  have hkept : ∀ entry ∈ collectedBindings unit everything (some {}),
      settleEntry unit {} entry = some entry := by
    intro entry _
    unfold settleEntry settleBinding
    cases functionWithId unit entry.1 with
    | none => rfl
    | some function =>
        simp [ProgramSymbolIndex.appearsInSeveralUnits, ProgramSymbolIndex.spawnCount,
          ProgramSymbolIndex.entrySpawns]
  have heverything : everything.lockState = true := rfl
  simp only [sharedObjectBindings, heverything, if_true]
  rw [List.filterMap_congr hkept, List.filterMap_some]

-- A binding that is kept differs at most in the elements of its object.
theorem settleEntry_kept (h : KeepsBindings unit index) {entry : String × SharedObjectBinding}
    (hentry : entry ∈ collectedBindings unit everything (some index)) :
    ∃ elements, settleEntry unit index entry =
        some (entry.1, { entry.2 with elementPerThread := elements }) ∧
      (KeepsElements unit index → elements = entry.2.elementPerThread) := by
  unfold settleEntry
  cases hfunction : functionWithId unit entry.1 with
  | none => exact ⟨entry.2.elementPerThread, rfl, fun _ => rfl⟩
  | some function =>
      have hkept := h entry hentry (by rw [hfunction]; rfl)
      simp only [settleBinding, hkept, Bool.false_eq_true, if_false]
      by_cases hcount : 1 < index.spawnCount function.symbol
      · refine ⟨none, by simp [hcount], fun helements => ?_⟩
        by_contra hne
        have hid : function.id = entry.1 := by simpa using List.find?_some hfunction
        have := helements entry hentry (Ne.symm hne) function
          (List.mem_of_find?_eq_some hfunction) hid
        omega
      · exact ⟨entry.2.elementPerThread, by simp [hcount], fun _ => rfl⟩

theorem filterMap_map_eq_map {α β γ : Type} {settle : α → Option β} {read : β → γ} {own : α → γ}
    {entries : List α} (h : ∀ entry ∈ entries, (settle entry).map read = some (own entry)) :
    (entries.filterMap settle).map read = entries.map own := by
  rw [List.map_filterMap, List.filterMap_congr h]
  exact congrFun List.filterMap_eq_map' entries

theorem lockBindings_rebuilt (hobjects : SameObjects unit index)
    (h : KeepsBindings unit index) :
    lockBindings unit everything (some index) = lockBindings unit everything (some {}) := by
  have heverything : everything.lockState = true := rfl
  have hrebuilt : lockBindings unit everything (some index) =
      (collectedBindings unit everything (some index)).map fun entry =>
        (entry.1, { entry.2 with elementPerThread := none }) := by
    simp only [lockBindings, sharedObjectBindings, heverything, if_true]
    refine filterMap_map_eq_map fun entry hentry => ?_
    obtain ⟨elements, hsettled, _⟩ := settleEntry_kept h hentry
    rw [hsettled]
    rfl
  rw [hrebuilt, hobjects]
  unfold lockBindings
  rw [sharedObjectBindings_firstPass]

theorem sharedObjectBindings_rebuilt (hobjects : SameObjects unit index)
    (h : KeepsBindings unit index) (helements : KeepsElements unit index) :
    sharedObjectBindings unit everything (some index) =
      sharedObjectBindings unit everything (some {}) := by
  have heverything : everything.lockState = true := rfl
  have hkept : ∀ entry ∈ collectedBindings unit everything (some index),
      settleEntry unit index entry = some entry := by
    intro entry hentry
    obtain ⟨elements, hsettled, hsame⟩ := settleEntry_kept h hentry
    rw [hsettled, hsame helements]
  rw [sharedObjectBindings_firstPass, ← hobjects]
  simp only [sharedObjectBindings, heverything, if_true]
  rw [List.filterMap_congr hkept, List.filterMap_some]

theorem locksSeededAlike_rebuilt (hobjects : SameObjects unit index)
    (hjoins : NoJoiningHelperElsewhere unit index) (hbindings : KeepsBindings unit index)
    (hentries : KnowsItsEntries unit index) : LocksSeededAlike unit index {} where
  joins := knownJoiningHelpers_rebuilt hjoins
  bindings := lockBindings_rebuilt hobjects hbindings
  entries := entryConcurrency_rebuilt hjoins hentries

theorem seededAlike_rebuilt (hglobals : NoGlobalDefinedElsewhere unit index)
    (hjoins : NoJoiningHelperElsewhere unit index) (hbindings : KeepsBindings unit index)
    (hentries : KnowsItsEntries unit index) : SeededAlike unit index {} where
  toLocksSeededAlike :=
    locksSeededAlike_rebuilt (sameObjects_of_globals hglobals) hjoins hbindings hentries
  globals := trackedGlobals_rebuilt hglobals

end Rebuild

-- One test of the gate: a channel that is asked about, and what it answers.
theorem channel_eq_false_iff (channel answer rest : Bool) :
    (if channel && answer then true else rest) = false ↔
      (channel = true → answer = false) ∧ rest = false := by
  cases channel <;> cases answer <;> simp

-- Every channel a selection asks about, once the gate stays closed.
theorem crossTUChangesFacts_eq_false_iff (facts : TUFacts) (index : ProgramSymbolIndex)
    (selection : FactSelection) :
    crossTUChangesFacts facts index selection = false ↔
      (selection.channels.externGlobals = true → declaresDefinedGlobal facts index = false) ∧
      (selection.channels.programThreads = true → forksBesideThreads facts index = false) ∧
      (selection.channels.programReaps = true → forksReapedElsewhere facts index = false) ∧
      (selection.channels.resolvedHandles = true → createsResolvedHandle facts index = false) ∧
      (selection.channels.helperLockEffects = true → declaresLockHelper facts index = false) ∧
      (selection.channels.helperJoins = true → declaresJoiningHelper facts index = false) ∧
      (selection.channels.entryConcurrency = true → settlesOnSharedFunction facts index = false ∧
        ∀ function ∈ facts.program.functionSymbolsById,
          startsMoreOften facts index function = false) := by
  have hentries :
      (if !selection.channels.entryConcurrency then false
        else if settlesOnSharedFunction facts index then true
        else facts.program.functionSymbolsById.any (startsMoreOften facts index)) = false ↔
      (selection.channels.entryConcurrency = true → settlesOnSharedFunction facts index = false ∧
        ∀ function ∈ facts.program.functionSymbolsById,
          startsMoreOften facts index function = false) := by
    cases selection.channels.entryConcurrency <;> cases settlesOnSharedFunction facts index <;>
      simp [List.any_eq_false]
  unfold crossTUChangesFacts
  simp only [channel_eq_false_iff, hentries]

-- What the gate asks of the first pass, read back as a condition on the unit.
section FirstPass

variable {unit : TranslationUnit} {index : ProgramSymbolIndex} {selection : FactSelection}

theorem program_firstPass (hprogram : selection.program = true) :
    (build unit selection (some {})).program =
      collectProgramSymbolFacts unit selection (some {}) := by
  simp only [build, hprogram, if_true]

theorem noGlobalDefinedElsewhere_of_gate (hprogram : selection.program = true)
    (h : declaresDefinedGlobal (build unit selection (some {})) index = false) :
    NoGlobalDefinedElsewhere unit index := by
  intro global hglobal hshared hdeclared hdefined
  rw [declaresDefinedGlobal, decide_eq_false_iff_not, program_firstPass hprogram] at h
  refine h ⟨global.symbol, ?_, by simpa [ProgramSymbolIndex.isDefinedSomewhere] using hdefined⟩
  simp only [collectProgramSymbolFacts, List.mem_toFinset, List.mem_map, List.mem_filter]
  exact ⟨global, ⟨hglobal, by simp [hshared, hdeclared]⟩, rfl⟩

theorem symbol_mem_declaredFunctions {function : FunctionInfo} (hfunction : function ∈ unit.functions)
    (hdeclared : function.isDeclaration = true) :
    function.symbol ∈ (collectProgramSymbolFacts unit selection (some {})).declaredFunctions := by
  simp only [collectProgramSymbolFacts, List.mem_toFinset, List.mem_map, List.mem_filter]
  exact ⟨function, ⟨hfunction, hdeclared⟩, rfl⟩

-- A module that defines a function has no declaration under its symbol.
theorem symbol_notMem_declaredFunctions {function : FunctionInfo}
    (hfunction : function ∈ unit.functions) (hdefined : function.isDeclaration = false) :
    function.symbol ∉ (collectProgramSymbolFacts unit selection (some {})).declaredFunctions := by
  simp only [collectProgramSymbolFacts, List.mem_toFinset, List.mem_map, List.mem_filter]
  rintro ⟨other, ⟨hother, hdeclared⟩, hsymbol⟩
  have : other = function := unit.symbolInjective other hother function hfunction hsymbol
  rw [this, hdefined] at hdeclared
  exact absurd hdeclared Bool.false_ne_true

theorem noLockHelperElsewhere_of_gate (hprogram : selection.program = true)
    (h : declaresLockHelper (build unit selection (some {})) index = false) :
    NoLockHelperElsewhere unit index := by
  intro function hfunction hdeclared
  rw [declaresLockHelper, decide_eq_false_iff_not, program_firstPass hprogram] at h
  by_contra hsome
  exact h ⟨function.symbol, symbol_mem_declaredFunctions hfunction hdeclared,
    Option.isSome_iff_ne_none.mpr hsome⟩

theorem noJoiningHelperElsewhere_of_gate (hprogram : selection.program = true)
    (h : declaresJoiningHelper (build unit selection (some {})) index = false) :
    NoJoiningHelperElsewhere unit index := by
  intro function hfunction hdeclared
  rw [declaresJoiningHelper, decide_eq_false_iff_not, program_firstPass hprogram] at h
  by_contra hsome
  exact h ⟨function.symbol, symbol_mem_declaredFunctions hfunction hdeclared,
    Option.isSome_iff_ne_none.mpr hsome⟩

theorem keepsBindings_of_gate (hprogram : selection.program = true)
    (hentries : selection.threadEntries = true) (hlocks : selection.lockState = true)
    (hobjects : SameObjects unit index)
    (h : settlesOnSharedFunction (build unit selection (some {})) index = false) :
    KeepsBindings unit index := by
  intro entry hentry hfunction
  rw [hobjects] at hentry
  have hcollected : collectedBindings unit selection (some {}) =
      collectedBindings unit everything (some {}) := by
    unfold collectedBindings
    rw [sites_eq hentries, spawnFacts_eq_of_threadEntries hentries]
  rw [settlesOnSharedFunction, decide_eq_false_iff_not, program_firstPass hprogram] at h
  by_contra hany
  rw [Bool.not_eq_false, List.any_eq_true] at hany
  obtain ⟨symbol, hsymbol, hseveral⟩ := hany
  refine h ⟨symbol, ?_, hseveral⟩
  have hproject : (selection.lockState && (some ({} : ProgramSymbolIndex)).isSome) = true := by
    rw [hlocks]
    rfl
  simp only [collectProgramSymbolFacts, settlingFunctions, hproject, if_true, hcollected,
    List.mem_toFinset, List.mem_flatMap, List.mem_filter]
  exact ⟨entry, ⟨hentry, hfunction⟩, hsymbol⟩

theorem knowsItsEntries_of_gate (hprogram : selection.program = true)
    (hentries : selection.threadEntries = true) (hjoins : selection.channels.helperJoins = true)
    (h : ∀ function ∈ (build unit selection (some {})).program.functionSymbolsById,
      startsMoreOften (build unit selection (some {})) index function = false) :
    KnowsItsEntries unit index := by
  intro function hfunction hdefined hentry
  have hknown : (build unit selection (some {})).entryConcurrency =
      unitEntryConcurrency unit everything (some {}) := by
    rw [← entryConcurrency_firstPass]
    show entryConcurrency unit selection (some {}) = _
    exact entryConcurrency_eq hentries fun _ => hjoins
  have hquiet := h (function.id, function.symbol) (by
    rw [program_firstPass hprogram]
    exact List.mem_map_of_mem hfunction)
  rw [startsMoreOften, program_firstPass hprogram, hknown] at hquiet
  have hskip : (decide (function.symbol ∈ (collectProgramSymbolFacts unit selection
      (some {})).declaredFunctions) || !index.isThreadEntry function.symbol) = false := by
    rw [hentry, decide_eq_false (symbol_notMem_declaredFunctions hfunction hdefined)]
    rfl
  simp only [hskip, Bool.false_eq_true, if_false] at hquiet
  cases hconcurrency : unitEntryConcurrency unit everything (some {}) function.id with
  | none => simp [hconcurrency] at hquiet
  | some concurrency =>
      simp only [hconcurrency, Bool.or_eq_false_iff, decide_eq_false_iff_not, not_lt,
        Bool.and_eq_false_imp, Bool.not_eq_false'] at hquiet
      exact ⟨concurrency, rfl, hquiet.1, hquiet.2⟩

theorem threadLifecycles_firstPass (unit : TranslationUnit) (selection : FactSelection) :
    threadLifecycles unit selection (some {}) = collectedLifecycles unit selection (some {}) := by
  refine List.filter_eq_self.mpr fun fact _ => ?_
  cases hhandle : globalOfStorageGroupId unit fact.handleGroupId <;>
    simp [isResolvedByProgram, hhandle, ProgramSymbolIndex.resolvesHandleElsewhere]

theorem threadLifecycles_rebuilt_of_gate (hprogram : selection.program = true)
    (hlifecycles : selection.threadLifecycles = true)
    (hjoins : selection.channels.helperJoins = true)
    (hhelpers : NoJoiningHelperElsewhere unit index)
    (h : createsResolvedHandle (build unit selection (some {})) index = false) :
    threadLifecycles unit everything (some index) = threadLifecycles unit everything (some {}) := by
  have hcollected := collectedLifecycles_of_joins (knownJoiningHelpers_rebuilt hhelpers)
  have hfirst := threadLifecycles_firstPass unit everything
  have hselected : threadLifecycles unit selection (some {}) =
      threadLifecycles unit everything (some {}) := threadLifecycles_eq hlifecycles fun _ => hjoins
  rw [hfirst]
  unfold threadLifecycles
  rw [hcollected]
  refine List.filter_eq_self.mpr fun fact hfact => ?_
  rw [Bool.not_eq_true']
  by_contra hresolved
  simp only [isResolvedByProgram, Bool.not_eq_false, Bool.and_eq_true, decide_eq_true_eq]
    at hresolved
  obtain ⟨hcreate, hresolved⟩ := hresolved
  have hmem : fact ∈ threadLifecycles unit selection (some {}) := by rwa [hselected, hfirst]
  rw [createsResolvedHandle, List.any_eq_false] at h
  refine h fact hmem ?_
  have hcreated : (threadLifecycles unit selection (some {})).any (fun other =>
      other.action = .Create && other.handleGroupId = fact.handleGroupId) = true :=
    List.any_eq_true.mpr ⟨fact, hmem, by simp [hcreate]⟩
  rw [program_firstPass hprogram]
  simp only [collectProgramSymbolFacts, handleSymbolsByGroupId, hcreated, Bool.or_true, if_true,
    Option.map_map, hcreate, decide_true, Bool.true_and]
  exact hresolved

end FirstPass

-- What the gate does not ask for one rule: whether the program counts a second start of an entry
-- whose threads have their own elements, and whether a global it defines is an object that the
-- parameters of the lock orders lead into.
def SettledFor (rule : RuleId) (unit : TranslationUnit) (index : ProgramSymbolIndex) : Prop :=
  match rule with
  | .DataRaceGlobal => KeepsElements unit index
  | .DeadlockLockOrder => SameObjects unit index
  | _ => True

-- An answer of the program that a forking unit does not wait for is one it has itself.
theorem asked_answer_eq {forks own answer : Bool} (h : (forks && !own && answer) = false) :
    (forks && (own || answer)) = (forks && own) := by
  cases forks <;> cases own <;> cases answer <;> simp_all

section Closed

variable {unit : TranslationUnit} {index : ProgramSymbolIndex} {selection : FactSelection}

-- A closed gate leaves every fact a rule reads as the first pass built it.
theorem visibleTo_rebuilt {rule : RuleId} (hselects : Includes selection (forRules [rule] true))
    (hgate : crossTUChangesFacts (build unit selection (some {})) index selection = false)
    (hsettled : SettledFor rule unit index) :
    visibleTo rule (build unit everything (some index)) =
      visibleTo rule (build unit everything (some {})) := by
  have hprogram : selection.program = true := hselects.program rfl
  obtain ⟨hglobalsHere, hthreads, hreaps, hhandles, hlockHelpers, hjoinHelpers, hconcurrency⟩ :=
    (crossTUChangesFacts_eq_false_iff _ _ _).mp hgate
  have hjoins (hown : (forRules [rule] true).channels.helperJoins = true) :
      NoJoiningHelperElsewhere unit index :=
    noJoiningHelperElsewhere_of_gate hprogram (hjoinHelpers (hselects.helperJoins hown))
  have hknown (hown : (forRules [rule] true).channels.helperJoins = true)
      (hentries : (forRules [rule] true).threadEntries = true)
      (hchannel : (forRules [rule] true).channels.entryConcurrency = true) :
      KnowsItsEntries unit index :=
    knowsItsEntries_of_gate hprogram (hselects.threadEntries hentries)
      (hselects.helperJoins hown) (hconcurrency (hselects.entryConcurrency hchannel)).2
  have hkeeps (hentries : (forRules [rule] true).threadEntries = true)
      (hlocks : selection.lockState = true)
      (hchannel : (forRules [rule] true).channels.entryConcurrency = true)
      (hobjects : SameObjects unit index) : KeepsBindings unit index :=
    keepsBindings_of_gate hprogram (hselects.threadEntries hentries) hlocks hobjects
      (hconcurrency (hselects.entryConcurrency hchannel)).1
  cases rule with
  | CompilerDiagnostic => rfl
  | DataRaceGlobal =>
      have hglobals : NoGlobalDefinedElsewhere unit index :=
        noGlobalDefinedElsewhere_of_gate hprogram (hglobalsHere (hselects.externGlobals rfl))
      have hlocks : NoLockHelperElsewhere unit index :=
        noLockHelperElsewhere_of_gate hprogram (hlockHelpers (hselects.helperLockEffects rfl))
      have hstate : selection.lockState = true := by
        simp [FactSelection.lockState, hselects.accesses rfl]
      have hobjects := sameObjects_of_globals hglobals
      have hbindings := hkeeps rfl hstate rfl hobjects
      have hentries := hknown rfl rfl rfl
      exact visibleTo_dataRace_seeded (seededAlike_rebuilt hglobals (hjoins rfl) hbindings hentries)
        (lockWrapperSummaries_rebuilt hlocks)
        (sharedObjectBindings_rebuilt hobjects hbindings hsettled)
  | DeadlockLockOrder =>
      have hobjects : SameObjects unit index := hsettled
      have hlocks : NoLockHelperElsewhere unit index :=
        noLockHelperElsewhere_of_gate hprogram (hlockHelpers (hselects.helperLockEffects rfl))
      have hstate : selection.lockState = true := by
        simp [FactSelection.lockState, hselects.lockOrders rfl]
      have hbindings := hkeeps rfl hstate rfl hobjects
      have hentries := hknown rfl rfl rfl
      exact visibleTo_lockOrder_seeded
        (locksSeededAlike_rebuilt hobjects (hjoins rfl) hbindings hentries)
        (lockWrapperSummaries_rebuilt hlocks)
  | WeakPublicationOrdering =>
      have hglobals : NoGlobalDefinedElsewhere unit index :=
        noGlobalDefinedElsewhere_of_gate hprogram (hglobalsHere (hselects.externGlobals rfl))
      have hstate : selection.lockState = true := by
        simp [FactSelection.lockState, hselects.accesses rfl]
      have hbindings := hkeeps rfl hstate rfl (sameObjects_of_globals hglobals)
      have hentries := hknown rfl rfl rfl
      exact visibleTo_publication_seeded
        (seededAlike_rebuilt hglobals (hjoins rfl) hbindings hentries)
  | MissingJoin =>
      have hlifecycles := threadLifecycles_rebuilt_of_gate hprogram (hselects.threadLifecycles rfl)
        (hselects.helperJoins rfl) (hjoins rfl) (hhandles (hselects.resolvedHandles rfl))
      simp only [visibleTo, build, hlifecycles]
  | ConditionWaitWithoutPredicate => rfl
  | UnsafeSignalHandler => rfl
  | ForkAfterThreadCreation =>
      have hquiet := hthreads (hselects.programThreads rfl)
      have hprocess : selection.processLifecycle = true := hselects.processLifecycle rfl
      have heverything : everything.processLifecycle = true := rfl
      have hnone : ({} : ProgramSymbolIndex).programCreatesThreads = false := rfl
      have hspawns : spawnFacts unit everything (some index) =
          spawnFacts unit everything (some {}) := rfl
      simp only [forksBesideThreads, build, hprocess, Bool.true_and, processForks_eq hprocess,
        spawnFacts_eq_of_processLifecycle hprocess, Option.map_some, Option.getD_some, hnone,
        Bool.or_false] at hquiet
      simp only [visibleTo, build, heverything, Bool.true_and, Option.map_some, Option.getD_some,
        hspawns, asked_answer_eq hquiet, hnone, Bool.or_false]
  | UnreapedChildProcess =>
      have hquiet := hreaps (hselects.programReaps rfl)
      have hprocess : selection.processLifecycle = true := hselects.processLifecycle rfl
      have heverything : everything.processLifecycle = true := rfl
      have hnone : ({} : ProgramSymbolIndex).programReapsChildren = false := rfl
      simp only [forksReapedElsewhere, build, hprocess, Bool.true_and, processForks_eq hprocess,
        Option.map_some, Option.getD_some, hnone, Bool.or_false] at hquiet
      simp only [visibleTo, build, heverything, Bool.true_and, Option.map_some, Option.getD_some,
        asked_answer_eq hquiet, hnone, Bool.or_false]
  | ThreadArgumentEscapesFrame =>
      simp only [visibleTo, build, lifetimes_of_joins (knownJoiningHelpers_rebuilt (hjoins rfl))]
  | ThreadArgumentFreedEarly =>
      simp only [visibleTo, build, lifetimes_of_joins (knownJoiningHelpers_rebuilt (hjoins rfl))]
  | ThreadLocalOutlivesThread =>
      simp only [visibleTo, build, lifetimes_of_joins (knownJoiningHelpers_rebuilt (hjoins rfl))]

end Closed

-- The gate asks about all that the builder reads of the index for the selected rules.
def GateCovers (unit : TranslationUnit) (rules : List RuleId) (index : ProgramSymbolIndex) : Prop :=
  (.DataRaceGlobal ∈ rules → KeepsElements unit index) ∧
    (.DeadlockLockOrder ∈ rules → .DataRaceGlobal ∉ rules → .WeakPublicationOrdering ∉ rules →
      SameObjects unit index)

theorem settledFor_of_covers {unit : TranslationUnit} {rules : List RuleId}
    {index : ProgramSymbolIndex} (hcovers : GateCovers unit rules index)
    (hgate : crossTUChangesFacts (build unit (forRules rules true) (some {})) index
      (forRules rules true) = false) {rule : RuleId} (hrule : rule ∈ rules) :
    SettledFor rule unit index := by
  have hglobalsHere (hchannel : (forRules rules true).channels.externGlobals = true) :
      NoGlobalDefinedElsewhere unit index :=
    noGlobalDefinedElsewhere_of_gate ((forRules_includes hrule true).program rfl)
      (((crossTUChangesFacts_eq_false_iff _ _ _).mp hgate).1 hchannel)
  cases rule with
  | DataRaceGlobal => exact hcovers.1 hrule
  | DeadlockLockOrder =>
      by_cases hrace : .DataRaceGlobal ∈ rules
      · exact sameObjects_of_globals
          (hglobalsHere ((forRules_includes hrace true).externGlobals rfl))
      · by_cases hweak : .WeakPublicationOrdering ∈ rules
        · exact sameObjects_of_globals
            (hglobalsHere ((forRules_includes hweak true).externGlobals rfl))
        · exact hcovers.2 hrule hrace hweak
  | _ => trivial

-- Rebuilding a unit the gate keeps closed for changes no diagnostic of a selected rule.
theorem closed_gate_keeps_diagnostics (unit : TranslationUnit) (rules : List RuleId)
    (index : ProgramSymbolIndex) (hcovers : GateCovers unit rules index)
    (hgate : crossTUChangesFacts (build unit (forRules rules true) (some {})) index
      (forRules rules true) = false) (rule : RuleId) (hrule : rule ∈ rules) :
    ruleDiagnostics rule (build unit (forRules rules true) (some index)) =
      ruleDiagnostics rule (build unit (forRules rules true) (some {})) := by
  have hselects := forRules_includes hrule true
  apply ruleDiagnostics_congr
  calc visibleTo rule (build unit (forRules rules true) (some index))
      = visibleTo rule (build unit everything (some index)) := visibleTo_build rule hselects
    _ = visibleTo rule (build unit everything (some {})) :=
        visibleTo_rebuilt hselects hgate (settledFor_of_covers hcovers hgate hrule)
    _ = visibleTo rule (build unit (forRules rules true) (some {})) :=
        (visibleTo_build rule hselects).symm

-- `for (i = 0; i < 4; ++i) pthread_create(&threads[i], 0, worker, &slots[i]);` in `main`, where
-- `worker` stores through its argument.
def slotPerThread : TranslationUnit where
  functions := [{ id := "main", symbol := "main" }, { id := "worker", symbol := "worker" }]
  globals := [{ name := "slots", symbol := "slots" }]
  collectSpawns _ _ :=
    { spawns := [{ entryFunctionId := "worker", insideLoop := true }]
      entryConcurrency := fun entryId =>
        if entryId = "worker" then some { staticSpawnCount := 1, hasSpawnInLoop := true } else none }
  collectSharedObjectBindings _ _ _ :=
    [("worker",
      { object := RootBinding.global "slots" { hasKnownOffset := false, byteSize := 4 }
        kind := .Global
        elementPerThread := some { spawn := 1 } })]
  analyzeTaskConcurrency _ _ _ :=
    { rootTaskFunctions := {"main"}, overlappingSpawnEntries := {"worker"} }
  collectThreadContexts _ _ functionId := if functionId = "worker" then some {"worker"} else none
  summarizeAccesses _ :=
    { summariesByFunction :=
        [("worker",
          [{ root := RootBinding.argument 0 { byteSize := 4 }
             fact :=
              { functionId := "worker"
                kind := .Write
                loweredLocation := { file := "main.c", line := 4, column := 3 }
                userLocation := { file := "main.c", line := 4, column := 3 } } }])] }

def slotPerThreadFacts : TUFacts :=
  build slotPerThread (forRules [.DataRaceGlobal] true) (some {})

def slotPerThreadIndex : ProgramSymbolIndex :=
  ({} : ProgramSymbolIndex).addUnit 0 slotPerThreadFacts

-- The unit's own loop counts as two starts: the gate sees nothing new in it, and the builder takes it
-- for a start in another unit.
theorem rebuilt_loop_spawn_races :
    crossTUChangesFacts slotPerThreadFacts slotPerThreadIndex (forRules [.DataRaceGlobal] true) =
        false ∧
      ruleDiagnostics .DataRaceGlobal slotPerThreadFacts = [] ∧
      ruleDiagnostics .DataRaceGlobal (build slotPerThread (forRules [.DataRaceGlobal] true)
        (some slotPerThreadIndex)) ≠ [] := by
  decide +kernel

-- The same loop handing every thread the address of `slots[0]`.
def sharedSlot : TranslationUnit :=
  { slotPerThread with
    collectSharedObjectBindings := fun _ _ _ =>
      [("worker", { object := RootBinding.global "slots" { byteSize := 4 }, kind := .Global })] }

def sharedSlotFacts : TUFacts :=
  build sharedSlot (forRules [.DataRaceGlobal] true) (some {})

def sharedSlotIndex : ProgramSymbolIndex :=
  ({} : ProgramSymbolIndex).addUnit 0 sharedSlotFacts

theorem shared_slot_race_kept :
    ruleDiagnostics .DataRaceGlobal sharedSlotFacts ≠ [] ∧
      ruleDiagnostics .DataRaceGlobal (build sharedSlot (forRules [.DataRaceGlobal] true)
        (some sharedSlotIndex)) = ruleDiagnostics .DataRaceGlobal sharedSlotFacts := by
  refine ⟨by decide +kernel, closed_gate_keeps_diagnostics sharedSlot [.DataRaceGlobal]
    sharedSlotIndex ⟨fun _ => ?_, by simp⟩ (by decide +kernel) _ (by decide)⟩
  unfold KeepsElements
  decide +kernel

end ConcurrencyAnalyzer.CrossTU
