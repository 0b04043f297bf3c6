import ConcurrencyAnalyzer.CrossTU.DefinedEntries
import ConcurrencyAnalyzer.CrossTU.Repeated
import ConcurrencyAnalyzer.MissingJoin.Theorems

namespace ConcurrencyAnalyzer.CrossTU

open FactsBuilder ProgramSymbolIndex
open FactSelection (everything forRules Includes)

-- What a module and the collectors promise. A symbol names one value of the module. An entry is counted
-- where a spawn of it is kept, and the spawns of an entry with no body here are kept in a program beside
-- the others.
structure WellFormed (unit : TranslationUnit) : Prop extends ReadsDefinedEntries unit where
  functionsApart : (unit.functions.map (·.symbol)).Nodup
  globalsApart : (unit.globals.map (·.symbol)).Nodup
  spawnsCounted : ∀ sites external entryId,
    (unit.collectSpawns sites external).entryConcurrency entryId ≠ none →
      (unit.collectSpawns sites external).spawns ≠ []
  spawnsKept : ∀ sites,
    (unit.collectSpawns sites false).spawns ⊆ (unit.collectSpawns sites true).spawns

-- A creation on a global handle that the unit joins or detaches somewhere itself.
def ResolvedHere (unit : TranslationUnit) (created : ThreadLifecycleFact) : Prop :=
  created.action = .Create ∧ ∃ resolved ∈ collectedLifecycles unit everything none,
    (resolved.action = .Join ∨ resolved.action = .Detach) ∧
      ∃ handle, (globalOfStorageGroupId unit created.handleGroupId).map (·.symbol) = some handle ∧
        (globalOfStorageGroupId unit resolved.handleGroupId).map (·.symbol) = some handle

def ResolvesOwnHandle (unit : TranslationUnit) : Prop :=
  ∃ created ∈ collectedLifecycles unit everything none, ResolvedHere unit created

-- No object is split among the threads of an entry that may run twice at a time.
def SplitsForOneRun (unit : TranslationUnit) : Prop :=
  ∀ entry ∈ collectedBindings unit everything (some {}), entry.2.elementPerThread ≠ none →
    ∀ concurrency, entryConcurrency unit everything (some {}) entry.1 = some concurrency →
      concurrency.staticSpawnCount ≤ 1

-- What a rule needs to keep its findings of a unit. A missing join is reported of handles none of which
-- the unit joins or detaches as a global. What is said of tasks and flags stands in a program; and where
-- the handles open the gate, each thread keeps the elements it has to itself.
def KeepsFor (rules : List RuleId) (rule : RuleId) (unit : TranslationUnit) : Prop :=
  match rule with
  | .MissingJoin =>
      let lifecycles := collectedLifecycles unit everything none
      ∀ groupId summary, (MissingJoin.summariesByGroup lifecycles).find groupId = some summary →
        MissingJoin.isReported groupId (MissingJoin.finished lifecycles groupId summary) = true →
          ∀ created ∈ lifecycles, MissingJoin.groupOf lifecycles created.handleGroupId = groupId →
            ¬ResolvedHere unit created
  | .DataRaceGlobal =>
      TasksAlike unit ∧
        (publications unit everything (some {})).ordering =
          (publications unit everything none).ordering ∧
        (.MissingJoin ∈ rules → ResolvesOwnHandle unit → SplitsForOneRun unit)
  | .DeadlockLockOrder => TasksAlike unit
  | .WeakPublicationOrdering =>
      TasksAlike unit ∧ (publications unit everything none).weakPublications ⊆
        (publications unit everything (some {})).weakPublications
  | _ => True

-- What the index of one unit says of that unit, which its first pass knows already.
section OwnIndex

variable {unit : TranslationUnit} {selection : FactSelection}

theorem filterMap_keyed {α β γ : Type} [DecidableEq γ] {key : α → γ} {read : α → Option β}
    {items : List α} (hapart : (items.map key).Nodup) {item : α} (h : item ∈ items) :
    (items.filterMap fun other => if key other = key item then read other else none) =
      (read item).toList := by
  induction items with
  | nil => exact absurd h List.not_mem_nil
  | cons first rest ih =>
      rw [List.map_cons, List.nodup_cons] at hapart
      rw [List.filterMap_cons]
      rcases List.mem_cons.mp h with rfl | hrest
      · have hnone : (rest.filterMap fun other => if key other = key item then read other else none) =
            [] := by
          refine List.filterMap_eq_nil_iff.mpr fun other hother => ?_
          have hne : key other ≠ key item := fun heq =>
            hapart.1 (heq ▸ List.mem_map_of_mem hother)
          simp [hne]
        cases read item <;> simp [hnone]
      · have hne : key first ≠ key item := fun heq =>
          hapart.1 (heq ▸ List.mem_map_of_mem hrest)
        simp only [hne, if_false]
        exact ih hapart.2 hrest

def ownIndex (unit : TranslationUnit) (selection : FactSelection) : ProgramSymbolIndex :=
  ofUnits [(0, build unit selection (some {}))]

-- A global that the unit only declares is not one it defines.
theorem noGlobalDefinedElsewhere_own (hprogram : selection.program = true)
    (hapart : (unit.globals.map (·.symbol)).Nodup) :
    NoGlobalDefinedElsewhere unit (ownIndex unit selection) := by
  intro global hglobal _ hdeclared hdefined
  rw [ownIndex, ofUnits, mem_definedGlobals_addUnits] at hdefined
  simp only [List.mem_singleton, exists_eq_left, Finset.notMem_empty, false_or,
    program_firstPass hprogram, collectProgramSymbolFacts, List.mem_toFinset, List.mem_map,
    List.mem_filter, Bool.and_eq_true, Bool.not_eq_true'] at hdefined
  obtain ⟨other, ⟨hother, _, hbody⟩, hsymbol⟩ := hdefined
  have hsame : other = global := List.inj_on_of_nodup_map hapart hother hglobal hsymbol
  rw [hsame, hdeclared] at hbody
  exact absurd hbody Bool.true_eq_false.mp

theorem declaresDefinedGlobal_own (hprogram : selection.program = true)
    (hapart : (unit.globals.map (·.symbol)).Nodup) :
    declaresDefinedGlobal (build unit selection (some {})) (ownIndex unit selection) = false := by
  rw [declaresDefinedGlobal, decide_eq_false_iff_not, program_firstPass hprogram]
  rintro ⟨symbol, hsymbol, hdefined⟩
  simp only [collectProgramSymbolFacts, List.mem_toFinset, List.mem_map, List.mem_filter,
    Bool.and_eq_true] at hsymbol
  obtain ⟨global, ⟨hglobal, hshared, hdeclared⟩, rfl⟩ := hsymbol
  exact noGlobalDefinedElsewhere_own hprogram hapart global hglobal hshared hdeclared
    (by simpa [isDefinedSomewhere] using hdefined)

theorem startsOf_firstPass (hprogram : selection.program = true)
    (hapart : (unit.functions.map (·.symbol)).Nodup)
    {function : FunctionInfo} (hfunction : function ∈ unit.functions) :
    startsOf function.symbol (build unit selection (some {})) =
      (entryConcurrency unit selection (some {}) function.id).toList := by
  have hfunctions : (build unit selection (some {})).program.functionSymbolsById =
      unit.functions.map fun function => (function.id, function.symbol) := by
    rw [program_firstPass hprogram]
    rfl
  rw [startsOf, hfunctions, List.filterMap_map]
  exact filterMap_keyed hapart hfunction

-- An entry is counted with its spawns, so a unit with an entry creates threads.
theorem spawns_of_entry (hcounted : ∀ sites external entryId,
      (unit.collectSpawns sites external).entryConcurrency entryId ≠ none →
        (unit.collectSpawns sites external).spawns ≠ []) {entryId : String}
    (h : entryConcurrency unit selection (some {}) entryId ≠ none) :
    (spawnFacts unit selection (some {})).spawns ≠ [] := by
  have hentry : (spawnFacts unit selection (some {})).entryConcurrency entryId ≠ none := by
    rw [entryConcurrency_firstPass] at h
    intro hnone
    apply h
    simp [unitEntryConcurrency, hnone]
  unfold spawnFacts at hentry ⊢
  by_cases hselected : selection.spawns = true
  · rw [if_pos hselected] at hentry ⊢
    exact hcounted _ _ _ hentry
  · rw [if_neg hselected] at hentry
    exact absurd rfl hentry

theorem forksBesideThreads_own (hcounted : ∀ sites external entryId,
      (unit.collectSpawns sites external).entryConcurrency entryId ≠ none →
        (unit.collectSpawns sites external).spawns ≠ []) :
    forksBesideThreads (build unit selection (some {})) (ownIndex unit selection) = false := by
  by_contra hopen
  simp only [forksBesideThreads, Bool.not_eq_false, Bool.and_eq_true, Bool.not_eq_true',
    programCreatesThreads_iff] at hopen
  obtain ⟨⟨hforks, hquiet⟩, symbol, hentry⟩ := hopen
  have hprocess : selection.processLifecycle = true := by
    by_contra hoff
    simp [build, processForks, hoff] at hforks
  rw [ownIndex, isThreadEntry_ofUnits] at hentry
  simp only [List.map_cons, List.map_nil, List.mem_singleton, exists_eq_left] at hentry
  obtain ⟨concurrency, hstarts⟩ := List.exists_mem_of_ne_nil _ hentry
  obtain ⟨function, _, hconcurrency⟩ := List.mem_filterMap.mp hstarts
  have hsome : entryConcurrency unit selection (some {}) function.1 ≠ none := by
    intro hnone
    have hfacts : (build unit selection (some {})).entryConcurrency function.1 = none := hnone
    simp [hfacts] at hconcurrency
  have hspawns := spawns_of_entry hcounted hsome
  simp [build, hprocess, hspawns] at hquiet

theorem forksReapedElsewhere_own :
    forksReapedElsewhere (build unit selection (some {})) (ownIndex unit selection) = false := by
  have hreaps : (ownIndex unit selection).programReapsChildren =
      (build unit selection (some {})).reapsChildProcesses := rfl
  rw [forksReapedElsewhere, hreaps]
  cases (build unit selection (some {})).reapsChildProcesses <;> simp

-- Nothing is published of a function that the unit only declares.
theorem publishedOn_declared {α : Type} (published : TUFacts → String → Option α)
    {facts : TUFacts} {symbol : String} (h : symbol ∈ facts.program.declaredFunctions) :
    publishedOn published symbol facts = none := by
  refine List.findSome?_eq_none_iff.mpr fun function _ => ?_
  simp [h]

theorem declaresLockHelper_own :
    declaresLockHelper (build unit selection (some {})) (ownIndex unit selection) = false := by
  rw [declaresLockHelper, decide_eq_false_iff_not]
  rintro ⟨symbol, hdeclared, hsummary⟩
  rw [ownIndex, lockSummaryFor_ofUnits] at hsummary
  simp [publishedOn_declared (·.lockWrapperSummaries) hdeclared] at hsummary

theorem declaresJoiningHelper_own :
    declaresJoiningHelper (build unit selection (some {})) (ownIndex unit selection) = false := by
  rw [declaresJoiningHelper, decide_eq_false_iff_not]
  rintro ⟨symbol, hdeclared, hjoined⟩
  rw [ownIndex, joinedParametersOf_ofUnits] at hjoined
  simp [publishedOn_declared (·.joiningHelpers) hdeclared] at hjoined

theorem appearsInSeveralUnits_own (symbol : String) :
    (ownIndex unit selection).appearsInSeveralUnits symbol = false := by
  rw [ownIndex, appearsInSeveralUnits_ofUnits (by simp), decide_eq_false_iff_not, not_le]
  exact (List.length_filter_le _ _).trans_lt (by simp)

theorem settlesOnSharedFunction_own :
    settlesOnSharedFunction (build unit selection (some {})) (ownIndex unit selection) = false := by
  simp [settlesOnSharedFunction, appearsInSeveralUnits_own]

-- The program starts an entry as often as the unit does.
theorem entrySpawns_own (hprogram : selection.program = true)
    (hapart : (unit.functions.map (·.symbol)).Nodup) {function : FunctionInfo}
    (hfunction : function ∈ unit.functions) :
    (ownIndex unit selection).entrySpawns function.symbol =
      (entryConcurrency unit selection (some {}) function.id).map fun concurrency =>
        ⟨concurrency.staticSpawnCount, concurrency.hasSpawnInLoop⟩ := by
  rw [ownIndex, entrySpawns_ofUnits, List.map_cons, List.map_nil, List.flatMap_cons,
    List.flatMap_nil, List.append_nil, startsOf_firstPass hprogram hapart hfunction]
  cases entryConcurrency unit selection (some {}) function.id <;> simp [addCount]

theorem startsMoreOften_own (hprogram : selection.program = true)
    (hapart : (unit.functions.map (·.symbol)).Nodup) {function : FunctionInfo}
    (hfunction : function ∈ unit.functions) :
    startsMoreOften (build unit selection (some {})) (ownIndex unit selection)
      (function.id, function.symbol) = false := by
  have hspawns := entrySpawns_own hprogram hapart hfunction
  have hfacts : (build unit selection (some {})).entryConcurrency function.id =
      entryConcurrency unit selection (some {}) function.id := rfl
  unfold startsMoreOften
  simp only [hfacts, isThreadEntry, spawnCount, spawnedInLoop, hspawns]
  cases entryConcurrency unit selection (some {}) function.id <;> simp

theorem noJoiningHelperElsewhere_own (hprogram : selection.program = true) :
    NoJoiningHelperElsewhere unit (ownIndex unit selection) :=
  noJoiningHelperElsewhere_of_gate hprogram declaresJoiningHelper_own

theorem keepsElements_own (hprogram : selection.program = true)
    (hentries : selection.threadEntries = true) (hjoins : selection.channels.helperJoins = true)
    (hformed : WellFormed unit) (hsplits : SplitsForOneRun unit) :
    KeepsElements unit (ownIndex unit selection) := by
  have hobjects : collectedBindings unit everything (some (ownIndex unit selection)) =
      collectedBindings unit everything (some {}) :=
    sameObjects_of_globals (noGlobalDefinedElsewhere_own hprogram hformed.globalsApart)
  intro entry hentry helement function hfunction hid
  rw [hobjects] at hentry
  rw [spawnCount, entrySpawns_own hprogram hformed.functionsApart hfunction, hid,
    entryConcurrency_eq hentries fun _ => hjoins]
  cases hconcurrency : entryConcurrency unit everything (some {}) entry.1 with
  | none => simp
  | some concurrency => simpa using hsplits entry hentry helement concurrency hconcurrency

section Handles

variable (hprogram : selection.program = true) (hlifecycles : selection.threadLifecycles = true)
  (hjoins : selection.channels.helperJoins = true)

include hlifecycles hjoins

theorem collectedLifecycles_firstPass : collectedLifecycles unit selection (some {}) =
    collectedLifecycles unit everything none := by
  rw [collectedLifecycles_eq hlifecycles fun _ => hjoins, collectedLifecycles_alone]

include hprogram

-- The one answer of its own that comes back to a unit: a handle it joins somewhere is taken to be
-- joined for every creation on it.
theorem resolvedHere_of_own {created : ThreadLifecycleFact} {symbol : String}
    (hcreate : created.action = .Create)
    (hhandle : (globalOfStorageGroupId unit created.handleGroupId).map (·.symbol) = some symbol)
    (hresolved : (ownIndex unit selection).resolvesHandleElsewhere symbol = true) :
    ResolvedHere unit created := by
  have hsymbol (handleGroupId symbol : String)
      (hfound : (build unit selection (some {})).program.handleSymbolsByGroupId handleGroupId =
        some symbol) :
      (globalOfStorageGroupId unit handleGroupId).map (·.symbol) = some symbol := by
    rw [program_firstPass hprogram] at hfound
    simp only [collectProgramSymbolFacts, handleSymbolsByGroupId] at hfound
    split at hfound
    · exact hfound
    · exact absurd hfound (by simp)
  simp only [resolvesHandleElsewhere, decide_eq_true_eq, ownIndex, ofUnits,
    mem_resolvedHandleSymbols_addUnits, List.mem_singleton, exists_eq_left, Finset.notMem_empty,
    false_or, resolvedHandles, Finset.mem_biUnion] at hresolved
  obtain ⟨handleGroupId, hid, hsame⟩ := hresolved
  have hown : (build unit selection (some {})).program.handleSymbolsByGroupId handleGroupId =
      some symbol := by
    cases hother : (build unit selection (some {})).program.handleSymbolsByGroupId
        handleGroupId with
    | none => simp [hother] at hsame
    | some other => simp_all
  have hids : handleGroupId ∈ resolvedGlobalHandleIds unit selection (some {}) := hid
  simp only [resolvedGlobalHandleIds, List.mem_toFinset, List.mem_map, List.mem_filter,
    resolvesHandle, Bool.and_eq_true, Bool.or_eq_true, decide_eq_true_eq,
    collectedLifecycles_firstPass hlifecycles hjoins] at hids
  obtain ⟨resolved, ⟨hmem, hends, _⟩, rfl⟩ := hids
  exact ⟨hcreate, resolved, hmem, hends, symbol, hhandle, hsymbol _ _ hown⟩

theorem createsResolvedHandle_own (h : ¬ResolvesOwnHandle unit) :
    createsResolvedHandle (build unit selection (some {})) (ownIndex unit selection) = false := by
  refine List.any_eq_false.mpr fun created hcreated hopen => h ?_
  rw [Bool.and_eq_true, decide_eq_true_eq] at hopen
  obtain ⟨hcreate, hresolved⟩ := hopen
  cases hhandle : (build unit selection (some {})).program.handleSymbolsByGroupId
      created.handleGroupId with
  | none => simp [hhandle] at hresolved
  | some symbol =>
      rw [hhandle, Option.map_some, Option.getD_some] at hresolved
      have hglobal : (globalOfStorageGroupId unit created.handleGroupId).map (·.symbol) =
          some symbol := by
        rw [program_firstPass hprogram] at hhandle
        simp only [collectProgramSymbolFacts, handleSymbolsByGroupId] at hhandle
        split at hhandle
        · exact hhandle
        · exact absurd hhandle (by simp)
      have hfirst : created ∈ collectedLifecycles unit everything none := by
        rw [← collectedLifecycles_firstPass hlifecycles hjoins, ← threadLifecycles_firstPass]
        exact hcreated
      exact ⟨created, hfirst, resolvedHere_of_own hprogram hlifecycles hjoins hcreate hglobal hresolved⟩

end Handles

end OwnIndex

theorem missingJoin_of_resolvedHandles (rules : List RuleId) (selection : FactSelection)
    (h : (rules.foldl FactSelection.addRule selection).channels.resolvedHandles = true) :
    selection.channels.resolvedHandles = true ∨ .MissingJoin ∈ rules := by
  induction rules generalizing selection with
  | nil => exact .inl h
  | cons rule rules ih =>
      rcases ih _ h with hchannel | hrest
      · cases rule
        case MissingJoin => exact .inr (List.mem_cons_self ..)
        all_goals exact .inl hchannel
      · exact .inr (List.mem_cons_of_mem _ hrest)

-- Alone in a program, a unit that ends none of its own global handles is not analysed again.
theorem gate_closed_own {unit : TranslationUnit} {rules : List RuleId} (hformed : WellFormed unit)
    (hhandles : .MissingJoin ∈ rules → ¬ResolvesOwnHandle unit) :
    crossTUChangesFacts (build unit (selectionFor rules) (some {}))
      (ownIndex unit (selectionFor rules)) (selectionFor rules) = false := by
  have hprogram : (selectionFor rules).program = true := by simp [selectionFor, forRules]
  rw [crossTUChangesFacts_eq_false_iff]
  refine ⟨fun _ => declaresDefinedGlobal_own hprogram hformed.globalsApart,
    fun _ => forksBesideThreads_own hformed.spawnsCounted, fun _ => forksReapedElsewhere_own,
    fun hchannel => ?_, fun _ => declaresLockHelper_own, fun _ => declaresJoiningHelper_own,
    fun _ => ⟨settlesOnSharedFunction_own, fun function hfunction => ?_⟩⟩
  · have hjoin : RuleId.MissingJoin ∈ rules :=
      (missingJoin_of_resolvedHandles rules {} hchannel).resolve_left (by simp)
    have hselects := FactSelection.forRules_includes hjoin true
    exact createsResolvedHandle_own hprogram (hselects.threadLifecycles rfl)
      (hselects.helperJoins rfl) (hhandles hjoin)
  · rw [program_firstPass hprogram] at hfunction
    obtain ⟨own, hown, rfl⟩ := List.mem_map.mp hfunction
    exact startsMoreOften_own hprogram hformed.functionsApart hown

section Alone

variable (unit : ProjectUnit) (rules : List RuleId)

theorem compatibleUnits_alone : compatibleUnits [unit] (fun _ => true) = [(unit, 0)] := by
  simp [compatibleUnits, loadedUnits, dominantAbi, orderedSet]

theorem programIndex_alone :
    programIndex rules [unit] (fun _ _ => true) = ownIndex unit.module (selectionFor rules) := by
  unfold programIndex
  rw [compatible_eq, compatibleUnits_alone]
  rfl

variable {unit rules} {rule : RuleId}

theorem ruleFindings_project (hrule : rule ∈ rules) :
    ruleFindings (analyze rules [unit] fun _ _ => true).diagnostics rule =
      findingsOn rule (build unit.module everything
        (some (if gateOpens [unit] (fun _ => true) rules unit.module then
          ownIndex unit.module (selectionFor rules) else {}))) := by
  ext finding
  rw [mem_ruleFindings_analyze [unit] (fun _ => true) hrule, compatibleUnits_alone]
  simp only [List.mem_singleton, exists_eq_left]
  rw [findingsOn_congr (visibleTo_finalFacts [unit] (fun _ => true) hrule unit.module),
    programIndex_alone]

theorem gateOpens_alone (hformed : WellFormed unit.module)
    (hhandles : .MissingJoin ∈ rules → ¬ResolvesOwnHandle unit.module) :
    gateOpens [unit] (fun _ => true) rules unit.module = false := by
  rw [gateOpens, programIndex_alone]
  exact gate_closed_own hformed hhandles

-- What an open gate rebuilds shows only in the missing joins, and in the data races where an entry
-- that splits an object runs twice.
theorem ruleFindings_alone (hrule : rule ∈ rules) (hformed : WellFormed unit.module)
    (hother : rule ≠ .MissingJoin)
    (hsplits : rule = .DataRaceGlobal → .MissingJoin ∈ rules → ResolvesOwnHandle unit.module →
      SplitsForOneRun unit.module) :
    ruleFindings (analyze rules [unit] fun _ _ => true).diagnostics rule =
      findingsOn rule (build unit.module everything (some {})) := by
  have hself : RuleId.MissingJoin ∈ [rule] → ¬ResolvesOwnHandle unit.module := fun hjoin =>
    absurd (List.mem_singleton.mp hjoin).symm hother
  have hsettled : SelectionSettled [unit] (fun _ => true) rules rule := by
    intro analysed hanalysed
    rw [compatible_eq, compatibleUnits_alone, List.map_singleton, List.mem_singleton] at hanalysed
    subst hanalysed
    by_cases hresolves : RuleId.MissingJoin ∈ rules ∧ ResolvesOwnHandle unit.module
    · right
      rw [programIndex_alone]
      cases rule
      case DataRaceGlobal =>
        exact keepsElements_own rfl rfl rfl hformed (hsplits rfl hresolves.1 hresolves.2)
      case DeadlockLockOrder =>
        exact sameObjects_of_globals (noGlobalDefinedElsewhere_own rfl hformed.globalsApart)
      all_goals trivial
    · left
      have hclosed : RuleId.MissingJoin ∈ rules → ¬ResolvesOwnHandle unit.module :=
        fun hjoin hhandle => hresolves ⟨hjoin, hhandle⟩
      exact (gateOpens_alone hformed hclosed).trans (gateOpens_alone hformed hself).symm
  rw [ruleFindings_analyze_alone hrule [unit] (fun _ => true) hsettled,
    ruleFindings_project (List.mem_singleton_self rule), gateOpens_alone hformed hself]
  rfl

theorem findingsOn_subset {facts other : TUFacts}
    (h : ruleDiagnostics rule facts ⊆ ruleDiagnostics rule other) :
    findingsOn rule facts ⊆ findingsOn rule other := by
  intro finding hfinding
  rw [findingsOn, List.mem_toFinset] at hfinding ⊢
  exact List.map_subset _ h hfinding

-- The creations the program index resolves are left out; no reported group loses one.
theorem missingJoin_kept (hrule : .MissingJoin ∈ rules)
    (hkeeps : KeepsFor rules .MissingJoin unit.module) :
    findingsOn .MissingJoin (build unit.module everything none) ⊆
      ruleFindings (analyze rules [unit] fun _ _ => true).diagnostics .MissingJoin := by
  have hselects := FactSelection.forRules_includes hrule true
  have hprogram : (selectionFor rules).program = true := hselects.program rfl
  rw [ruleFindings_project hrule]
  refine findingsOn_subset ?_
  generalize hindex : (if gateOpens [unit] (fun _ => true) rules unit.module then
    ownIndex unit.module (selectionFor rules) else {}) = index
  have hown : index = ownIndex unit.module (selectionFor rules) ∨ index = {} := by
    rw [← hindex]
    split
    · exact .inl rfl
    · exact .inr rfl
  have hcollected : collectedLifecycles unit.module everything (some index) =
      collectedLifecycles unit.module everything none := by
    rcases hown with rfl | rfl
    · rw [← collectedLifecycles_alone]
      unfold collectedLifecycles completions joiningHelpers
      rw [knownJoiningHelpers_rebuilt (noJoiningHelperElsewhere_own hprogram)]
    · exact collectedLifecycles_alone
  have hresolved (created : ThreadLifecycleFact)
      (hfound : isResolvedByProgram unit.module index created = true) :
      ResolvedHere unit.module created := by
    rw [isResolvedByProgram, Bool.and_eq_true, decide_eq_true_eq] at hfound
    obtain ⟨hcreate, hanswer⟩ := hfound
    cases hhandle : globalOfStorageGroupId unit.module created.handleGroupId with
    | none => simp [hhandle] at hanswer
    | some handle =>
        rw [hhandle, Option.map_some, Option.getD_some] at hanswer
        rcases hown with rfl | rfl
        · exact resolvedHere_of_own hprogram (hselects.threadLifecycles rfl) (hselects.helperJoins rfl)
            hcreate (by rw [hhandle, Option.map_some]) hanswer
        · simp [resolvesHandleElsewhere] at hanswer
  have hcreate : ∀ fact ∈ collectedLifecycles unit.module everything none,
      (!isResolvedByProgram unit.module index fact) = false → fact.action = .Create :=
    fun fact _ hleft => (hresolved fact (by simpa using hleft)).1
  refine MissingJoin.diagnostics_of_kept hcreate rfl ?_ ?_
  · exact congrArg (List.filter fun fact => !isResolvedByProgram unit.module index fact) hcollected
  · intro groupId summary hfind hreported created hcreated hgroup
    by_contra hleft
    exact hkeeps groupId summary hfind hreported created hcreated hgroup
      (hresolved created (by simpa using hleft))

end Alone

-- Without a thread no fork is reported beside one.
theorem findingsOn_fork_empty {facts : TUFacts} (h : facts.programCreatesThreads = false) :
    findingsOn .ForkAfterThreadCreation facts = ∅ := by
  simp [findingsOn, ruleDiagnostics, filter_processLifecycle, h, forkDiagnostics_none]

theorem findingsOn_fork_alone {unit : TranslationUnit} (hformed : WellFormed unit) :
    findingsOn .ForkAfterThreadCreation (build unit everything none) ⊆
      findingsOn .ForkAfterThreadCreation (build unit everything (some {})) := by
  have hspawns : everything.spawns = true := rfl
  have hprocess : everything.processLifecycle = true := rfl
  cases hsingle : (spawnFacts unit everything none).spawns with
  | nil =>
      have hquiet : (build unit everything none).programCreatesThreads = false := by
        simp [build, hsingle]
      rw [findingsOn_fork_empty hquiet]
      exact Finset.empty_subset _
  | cons spawn rest =>
      have hkept : spawn ∈ (spawnFacts unit everything (some {})).spawns := by
        have hmem : spawn ∈ (spawnFacts unit everything none).spawns :=
          hsingle ▸ List.mem_cons_self ..
        simp only [spawnFacts, hspawns, if_true] at hmem ⊢
        exact hformed.spawnsKept _ hmem
      have hne := List.ne_nil_of_mem hkept
      refine (findingsOn_congr ?_).subset
      simp [visibleTo, build, hsingle, hne, hprocess]

-- One thread writes `payload` and sets `ready` with a relaxed store; another waits for it. In a
-- project the flag counts only when no other unit can store it.
def relaxedFlag (internal : Bool) : ProjectUnit where
  identifier := "publish.cpp"
  module :=
    { functions := [{ id := "main", symbol := "main" }, { id := "producer", symbol := "producer" },
        { id := "consumer", symbol := "consumer" }]
      globals := [{ name := "payload", symbol := "payload" }, { name := "ready", symbol := "ready" }]
      collectSpawns := fun _ _ =>
        { spawns := [{ entryFunctionId := "producer" }, { entryFunctionId := "consumer" }]
          entryConcurrency := fun entryId =>
            if entryId = "producer" ∨ entryId = "consumer" then some { staticSpawnCount := 1 }
            else none }
      collectThreadContexts := fun _ _ functionId =>
        if functionId = "producer" ∨ functionId = "consumer" then some {functionId} else none
      analyzePublications := fun _ _ _ projectAnalysis =>
        if projectAnalysis && !internal then {}
        else
          { weakPublications := [
              { flag := "ready"
                data := ["payload"]
                loadAcquires := true
                publisherFunctionId := "producer"
                readerFunctionId := "consumer" }] } }

-- `pthread_t t[2]`: a thread is started on each, and the one on `t[0]` is joined. The join comes back as
-- one of the program's that resolves every creation on `t`.
def joinsOneOfTwo : ProjectUnit where
  identifier := "main.c"
  module :=
    { functions := [{ id := "main", symbol := "main" }, { id := "serve", symbol := "serve" }]
      globals := [{ name := "t", symbol := "t" }]
      collectThreadLifecycles := fun _ _ =>
        [{ action := .Create, handleGroupId := "global:t", functionId := "main",
           location := { file := "main.c", line := 10 }, resolvedOnAllPaths := true },
          { action := .Create, handleGroupId := "global:t[0][1]", functionId := "main",
            location := { file := "main.c", line := 11 }, resolvedOnAllPaths := false },
          { action := .Join, handleGroupId := "global:t", functionId := "main",
            location := { file := "main.c", line := 12 } }] }

theorem readsDefined_relaxedFlag (internal : Bool) :
    ReadsDefinedEntries (relaxedFlag internal).module where
  spawns _ _ _ := rfl
  bindings _ _ _ := rfl
  contexts _ _ _ _ := rfl
  contextsDefined sites concurrencyOf functionId entries hfunction hcontexts := by
    simp only [relaxedFlag] at hcontexts
    split at hcontexts
    · rw [Option.some.injEq] at hcontexts
      subst hcontexts
      simpa using hfunction
    · cases hcontexts
  lockOrders _ := rfl
  ordersDefined _ _ horder := absurd horder List.not_mem_nil
  summaries _ := rfl
  projected _ _ := rfl
  initialized _ _ := rfl
  accessesDefined _ _ _ haccess := absurd haccess List.not_mem_nil
  keysApart accesses := by
    refine ⟨fun access => ⟨access.liveEntries, access.startedEntries, access.beforeRelease,
      access.afterAcquire⟩, (List.map_id accesses).symm, fun lhs _ => ⟨rfl, fun rhs _ => rfl⟩⟩
  publishersDefined accesses sites spawns program weak hweak := by
    simp only [relaxedFlag] at hweak
    split at hweak
    · cases hweak
    · rw [List.mem_singleton] at hweak
      subst hweak
      simp [defines, relaxedFlag]

theorem wellFormed_relaxedFlag (internal : Bool) : WellFormed (relaxedFlag internal).module where
  toReadsDefinedEntries := readsDefined_relaxedFlag internal
  functionsApart := by simp [relaxedFlag]
  globalsApart := by simp [relaxedFlag]
  spawnsCounted := by simp [relaxedFlag]
  spawnsKept := by simp [relaxedFlag]

end ConcurrencyAnalyzer.CrossTU
