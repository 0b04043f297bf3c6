import ConcurrencyAnalyzer.CrossTU.Repeated

namespace ConcurrencyAnalyzer.CrossTU

open FactsBuilder ProgramSymbolIndex

section Project

variable (rules : List RuleId) (units : List ProjectUnit) (loads : Nat → Bool)

-- The index as a third pass would fold it, from the facts of the second.
def refoldedIndex : ProgramSymbolIndex :=
  (secondPass rules units fun _ => loads).foldl
    (fun index unit => index.addUnit unit.number unit.facts) {}

-- The compatible units under their numbers, with some facts each.
def numberedWith (facts : TranslationUnit → TUFacts) : NumberedUnits :=
  (compatibleUnits units loads).map fun unit => (unit.2, facts unit.1.module)

theorem programIndex_eq_ofUnits :
    programIndex rules units (fun _ => loads) =
      ofUnits (numberedWith units loads fun module => build module (selectionFor rules) (some {})) := by
  rw [programIndex, compatible_eq, List.foldl_map, ofUnits, addUnits, numberedWith, List.foldl_map]
  rfl

theorem refoldedIndex_eq_ofUnits :
    refoldedIndex rules units loads =
      ofUnits (numberedWith units loads (finalFacts units loads rules)) := by
  rw [refoldedIndex, secondPass_eq, List.foldl_map, ofUnits, addUnits, numberedWith, List.foldl_map]

theorem map_snd_numberedWith (facts : TranslationUnit → TUFacts) :
    (numberedWith units loads facts).map Prod.snd =
      (compatibleUnits units loads).map fun unit => facts unit.1.module := by
  rw [numberedWith, List.map_map]
  rfl

end Project

-- What the facts of the two passes publish about a unit.
section Published

variable {unit : TranslationUnit} {selection : FactSelection} {index : ProgramSymbolIndex}

theorem program_build (hprogram : selection.program = true) (program : Option ProgramSymbolIndex) :
    (build unit selection program).program = collectProgramSymbolFacts unit selection program := by
  simp only [build, hprogram, if_true]

variable (unit index) in
-- The names a unit shows do not depend on the program.
theorem names_rebuilt (hprogram : selection.program = true) :
    (build unit selection (some index)).program.functionSymbolsById =
        (build unit selection (some {})).program.functionSymbolsById ∧
      (build unit selection (some index)).program.declaredFunctions =
        (build unit selection (some {})).program.declaredFunctions ∧
      (build unit selection (some index)).program.definedGlobals =
        (build unit selection (some {})).program.definedGlobals := by
  rw [program_build hprogram, program_build hprogram]
  exact ⟨rfl, rfl, rfl⟩

-- Of a function it defines, a unit knows what it knew without the program.
theorem seededFromProgram_defined {α : Type} (known answer : String → Option α)
    {function : FunctionInfo} (hfunction : function ∈ unit.functions)
    (hdefined : function.isDeclaration = false) :
    seededFromProgram unit known answer function.id = known function.id := by
  have hnone : unit.functions.find? (fun other => other.id = function.id && other.isDeclaration) =
      none := by
    refine List.find?_eq_none.mpr fun other hother hsame => ?_
    rw [Bool.and_eq_true, decide_eq_true_eq] at hsame
    rw [unit.idInjective other hother function hfunction hsame.1, hdefined] at hsame
    exact Bool.false_ne_true hsame.2
  rw [seededFromProgram, hnone, Option.bind_none, Option.or_none]

theorem findSome_congr {α β : Type} {answer other : α → Option β} {items : List α}
    (h : ∀ item ∈ items, answer item = other item) :
    items.findSome? answer = items.findSome? other := by
  induction items with
  | nil => rfl
  | cons item items ih =>
      rw [List.forall_mem_cons] at h
      rw [List.findSome?_cons, List.findSome?_cons, h.1, ih h.2]

theorem publishedOn_congr {α : Type} {published : TUFacts → String → Option α}
    (hprogram : selection.program = true)
    (h : ∀ function ∈ unit.functions, function.isDeclaration = false →
      published (build unit selection (some index)) function.id =
        published (build unit selection (some {})) function.id) (symbol : String) :
    publishedOn published symbol (build unit selection (some index)) =
      publishedOn published symbol (build unit selection (some {})) := by
  obtain ⟨hfunctions, hdeclared, -⟩ := names_rebuilt unit index hprogram
  unfold publishedOn
  rw [hfunctions, hdeclared, program_firstPass hprogram]
  refine findSome_congr fun names hnames => ?_
  obtain ⟨function, hfunction, rfl⟩ := List.mem_map.mp hnames
  by_cases hsymbol : function.symbol = symbol ∧
      symbol ∉ (collectProgramSymbolFacts unit selection (some {})).declaredFunctions
  · rw [if_pos hsymbol, if_pos hsymbol]
    refine h function hfunction ?_
    by_contra hdeclared
    refine hsymbol.2 ?_
    rw [← hsymbol.1]
    exact symbol_mem_declaredFunctions hfunction (by simpa using hdeclared)
  · rw [if_neg hsymbol, if_neg hsymbol]

theorem lockSummaries_rebuilt (hprogram : selection.program = true) (symbol : String) :
    publishedOn (·.lockWrapperSummaries) symbol (build unit selection (some index)) =
      publishedOn (·.lockWrapperSummaries) symbol (build unit selection (some {})) := by
  refine publishedOn_congr hprogram (fun function hfunction hdefined => ?_) symbol
  show lockWrapperSummaries unit selection (some index) function.id =
    lockWrapperSummaries unit selection (some {}) function.id
  unfold lockWrapperSummaries
  split
  · simp only [seededFromProgram_defined _ _ hfunction hdefined]
  · rfl

-- The starts a unit knows of once the program is known: its own, and those of the program.
section Entries

-- Whether an entry is started at all, or in a loop.
def wanted (inLoop : Bool) (concurrency : EntryConcurrencyInfo) : Bool :=
  !inLoop || concurrency.hasSpawnInLoop

def asked (inLoop : Bool) (index : ProgramSymbolIndex) (symbol : String) : Bool :=
  (index.entrySpawns symbol).any fun spawns => !inLoop || spawns.insideLoop

theorem asked_false (index : ProgramSymbolIndex) (symbol : String) :
    asked false index symbol = index.isThreadEntry symbol := by
  unfold asked isThreadEntry
  cases index.entrySpawns symbol <;> rfl

theorem asked_true (index : ProgramSymbolIndex) (symbol : String) :
    asked true index symbol = index.spawnedInLoop symbol := by
  unfold asked spawnedInLoop
  cases index.entrySpawns symbol <;> rfl

theorem holds_foldl_iff {α σ : Type} (step : σ → α → σ) (holds : σ → Prop) (adds : α → Prop)
    (hstep : ∀ state item, holds (step state item) ↔ holds state ∨ adds item) (items : List α)
    (state : σ) : holds (items.foldl step state) ↔ holds state ∨ ∃ item ∈ items, adds item := by
  induction items generalizing state with
  | nil => simp
  | cons item items ih =>
      rw [List.foldl_cons, ih, hstep, or_assoc]
      simp only [List.mem_cons, exists_eq_or_imp]

def startsWanted (inLoop : Bool) (symbol : String) (facts : TUFacts) : Prop :=
  ∃ start ∈ startsOf symbol facts, wanted inLoop start = true

theorem asked_ofUnits (inLoop : Bool) (units : NumberedUnits) (symbol : String) :
    asked inLoop (ofUnits units) symbol = true ↔
      ∃ unit ∈ units, startsWanted inLoop symbol unit.2 := by
  have hstep (spawns : Option EntrySpawns) (start : EntryConcurrencyInfo) :
      (addCount spawns start).any (fun spawns => !inLoop || spawns.insideLoop) = true ↔
        spawns.any (fun spawns => !inLoop || spawns.insideLoop) = true ∨
          wanted inLoop start = true := by
    unfold wanted
    cases inLoop <;> cases spawns <;> simp [addCount]
  have hfold := holds_foldl_iff addCount
    (fun spawns => spawns.any (fun spawns => !inLoop || spawns.insideLoop) = true) _ hstep
    ((units.map Prod.snd).flatMap (startsOf symbol)) none
  rw [asked, entrySpawns_ofUnits, hfold, Option.any_none]
  simp only [Bool.false_eq_true, false_or, List.flatMap_map, List.mem_flatMap, startsWanted]
  constructor
  · rintro ⟨start, ⟨unit, hunit, hstart⟩, hwanted⟩
    exact ⟨unit, hunit, start, hstart, hwanted⟩
  · rintro ⟨unit, hunit, start, hstart, hwanted⟩
    exact ⟨start, ⟨unit, hunit, hstart⟩, hwanted⟩

theorem any_seedEntryConcurrency (inLoop : Bool) (functionId : String)
    (concurrencyOf : String → Option EntryConcurrencyInfo) (function : FunctionInfo) :
    (seedEntryConcurrency index concurrencyOf function functionId).any (wanted inLoop) = true ↔
      (concurrencyOf functionId).any (wanted inLoop) = true ∨
        (function.id = functionId ∧ function.isDeclaration = false ∧
          asked inLoop index function.symbol = true) := by
  by_cases hid : function.id = functionId
  · subst hid
    unfold seedEntryConcurrency asked isThreadEntry spawnedInLoop wanted
    cases function.isDeclaration with
    | true => simp
    | false =>
        cases index.entrySpawns function.symbol with
        | none => simp
        | some spawns =>
            cases inLoop <;> cases concurrencyOf function.id <;> simp
  · have hother : seedEntryConcurrency index concurrencyOf function functionId =
        concurrencyOf functionId := by
      unfold seedEntryConcurrency
      split
      · rfl
      · exact Function.update_of_ne (Ne.symm hid) _ _
    simp [hother, hid]

theorem any_unitEntryConcurrency (inLoop : Bool) (entryId : String) :
    (unitEntryConcurrency unit selection (some index) entryId).any (wanted inLoop) =
      (unitEntryConcurrency unit selection (some {}) entryId).any (wanted inLoop) := by
  unfold unitEntryConcurrency
  have hspawns : spawnFacts unit selection (some index) = spawnFacts unit selection (some {}) := rfl
  rw [hspawns]
  cases (spawnFacts unit selection (some {})).entryConcurrency entryId with
  | none => simp
  | some concurrency => cases selection.threadEntries <;> rfl

variable (unit index) in
-- A unit that knows the program adds no entry to it, and no loop.
theorem startsWanted_rebuilt (hprogram : selection.program = true) (inLoop : Bool)
    (symbol : String) :
    (startsWanted inLoop symbol (build unit selection (some {})) →
      startsWanted inLoop symbol (build unit selection (some index))) ∧
    (startsWanted inLoop symbol (build unit selection (some index)) →
      startsWanted inLoop symbol (build unit selection (some {})) ∨
        asked inLoop index symbol = true) := by
  have hstarts (known : ProgramSymbolIndex) :
      startsWanted inLoop symbol (build unit selection (some known)) ↔
        ∃ function ∈ unit.functions, function.symbol = symbol ∧
          ((unitEntryConcurrency unit selection (some {}) function.id).any (wanted inLoop) = true ∨
            ∃ other ∈ unit.functions, other.id = function.id ∧ other.isDeclaration = false ∧
              asked inLoop known other.symbol = true) := by
    have hentry (functionId : String) :
        (entryConcurrency unit selection (some known) functionId).any (wanted inLoop) = true ↔
          (unitEntryConcurrency unit selection (some {}) functionId).any (wanted inLoop) = true ∨
            ∃ other ∈ unit.functions, other.id = functionId ∧ other.isDeclaration = false ∧
              asked inLoop known other.symbol = true := by
      rw [← any_unitEntryConcurrency inLoop functionId]
      exact holds_foldl_iff (seedEntryConcurrency known)
        (fun concurrencyOf => (concurrencyOf functionId).any (wanted inLoop) = true) _
        (any_seedEntryConcurrency inLoop functionId) unit.functions _
    have hfacts : (build unit selection (some known)).entryConcurrency =
        entryConcurrency unit selection (some known) := rfl
    have hsome : startsWanted inLoop symbol (build unit selection (some known)) ↔
        ∃ function ∈ unit.functions, function.symbol = symbol ∧
          (entryConcurrency unit selection (some known) function.id).any (wanted inLoop) = true := by
      simp only [startsWanted, startsOf, program_build hprogram, collectProgramSymbolFacts,
        List.filterMap_map, List.mem_filterMap, Function.comp_apply, hfacts, Option.any_eq_true]
      constructor
      · rintro ⟨start, ⟨function, hfunction, hstart⟩, hwanted⟩
        split at hstart
        · exact ⟨function, hfunction, ‹_›, start, hstart, hwanted⟩
        · exact absurd hstart (by simp)
      · rintro ⟨function, hfunction, hsymbol, start, hstart, hwanted⟩
        exact ⟨start, ⟨function, hfunction, by rw [if_pos hsymbol, hstart]⟩, hwanted⟩
    simp only [hsome, hentry]
  rw [hstarts, hstarts]
  constructor
  · rintro ⟨function, hfunction, hsymbol, hown | ⟨other, _, _, _, hnone⟩⟩
    · exact ⟨function, hfunction, hsymbol, .inl hown⟩
    · exact absurd hnone (by simp [asked, entrySpawns])
  · rintro ⟨function, hfunction, hsymbol, hown | ⟨other, hother, hid, _, hasked⟩⟩
    · exact .inl ⟨function, hfunction, hsymbol, .inl hown⟩
    · obtain rfl := unit.idInjective other hother function hfunction hid
      rw [hsymbol] at hasked
      exact .inr hasked

end Entries

theorem reapsChildProcesses_rebuilt :
    (build unit selection (some index)).reapsChildProcesses = true →
      (build unit selection (some {})).reapsChildProcesses = true ∨ index.reapsChildren = true := by
  simp only [build, programReapsChildren, Option.map_some, Option.getD_some, Bool.and_eq_true,
    Bool.or_eq_true, Bool.or_false]
  tauto

end Published

-- The queries whose answers a second fold does not change.
structure AnswersKept (index other : ProgramSymbolIndex) : Prop where
  isDefinedSomewhere : ∀ symbol, index.isDefinedSomewhere symbol = other.isDefinedSomewhere symbol
  appearsInSeveralUnits : ∀ symbol,
    index.appearsInSeveralUnits symbol = other.appearsInSeveralUnits symbol
  lockSummaryFor : ∀ symbol, index.lockSummaryFor symbol = other.lockSummaryFor symbol
  isThreadEntry : ∀ symbol, index.isThreadEntry symbol = other.isThreadEntry symbol
  spawnedInLoop : ∀ symbol, index.spawnedInLoop symbol = other.spawnedInLoop symbol
  programCreatesThreads : index.programCreatesThreads = other.programCreatesThreads
  programReapsChildren : index.programReapsChildren = other.programReapsChildren

section Refolded

variable (rules : List RuleId) (units : List ProjectUnit) (loads : Nat → Bool)

theorem program_selectionFor : (selectionFor rules).program = true := by
  simp [selectionFor, FactSelection.forRules]

-- The facts a unit ends with are those of the first pass, or those built with the index.
theorem finalFacts_cases (holds : TUFacts → Prop) (module : TranslationUnit)
    (hfirst : holds (build module (selectionFor rules) (some {})))
    (hsecond : holds
      (build module (selectionFor rules) (some (programIndex rules units fun _ => loads)))) :
    holds (finalFacts units loads rules module) := by
  unfold finalFacts
  split
  · exact hsecond
  · exact hfirst

theorem exists_mem_numberedWith (facts : TranslationUnit → TUFacts) (holds : TUFacts → Prop) :
    (∃ unit ∈ numberedWith units loads facts, holds unit.2) ↔
      ∃ unit ∈ compatibleUnits units loads, holds (facts unit.1.module) := by
  simp only [numberedWith, List.mem_map, exists_exists_and_eq_and]

theorem finalFacts_names (unit : ProjectUnit × Nat) :
    (finalFacts units loads rules unit.1.module).program.functionSymbolsById =
        (build unit.1.module (selectionFor rules) (some {})).program.functionSymbolsById ∧
      (finalFacts units loads rules unit.1.module).program.declaredFunctions =
        (build unit.1.module (selectionFor rules) (some {})).program.declaredFunctions := by
  have hnames := names_rebuilt unit.1.module (programIndex rules units fun _ => loads)
    (program_selectionFor rules)
  exact finalFacts_cases rules units loads
    (fun facts => facts.program.functionSymbolsById = _ ∧ facts.program.declaredFunctions = _)
    unit.1.module ⟨rfl, rfl⟩ ⟨hnames.1, hnames.2.1⟩

theorem definedGlobals_refolded :
    (refoldedIndex rules units loads).definedGlobals =
      (programIndex rules units fun _ => loads).definedGlobals := by
  have hsame (module : TranslationUnit) :
      (finalFacts units loads rules module).program.definedGlobals =
        (build module (selectionFor rules) (some {})).program.definedGlobals :=
    finalFacts_cases rules units loads (fun facts => facts.program.definedGlobals = _) module
      rfl (names_rebuilt module _ (program_selectionFor rules)).2.2
  ext symbol
  rw [refoldedIndex_eq_ofUnits, programIndex_eq_ofUnits, ofUnits, ofUnits,
    mem_definedGlobals_addUnits, mem_definedGlobals_addUnits]
  refine or_congr_right ?_
  rw [exists_mem_numberedWith units loads _ fun facts => symbol ∈ facts.program.definedGlobals,
    exists_mem_numberedWith units loads _ fun facts => symbol ∈ facts.program.definedGlobals]
  simp only [hsame]

theorem appearsInSeveralUnits_refolded (symbol : String) :
    (refoldedIndex rules units loads).appearsInSeveralUnits symbol =
      (programIndex rules units fun _ => loads).appearsInSeveralUnits symbol := by
  have hshows (module : TranslationUnit) :
      shows symbol (finalFacts units loads rules module) =
        shows symbol (build module (selectionFor rules) (some {})) := by
    refine finalFacts_cases rules units loads (fun facts => shows symbol facts = _) module rfl ?_
    unfold shows
    rw [(names_rebuilt module _ (program_selectionFor rules)).1]
  have hnumbers : numbersShowing symbol (numberedWith units loads (finalFacts units loads rules)) =
      numbersShowing symbol (numberedWith units loads fun module =>
        build module (selectionFor rules) (some {})) := by
    unfold numbersShowing numberedWith
    rw [List.filter_map, List.filter_map, List.map_map, List.map_map]
    simp only [Function.comp_def, hshows]
  rw [refoldedIndex_eq_ofUnits, programIndex_eq_ofUnits, appearsInSeveralUnits,
    appearsInSeveralUnits, ofUnits, ofUnits, unitsByFunction_addUnits, unitsByFunction_addUnits,
    hnumbers]

theorem lockSummaryFor_refolded (symbol : String) :
    (refoldedIndex rules units loads).lockSummaryFor symbol =
      (programIndex rules units fun _ => loads).lockSummaryFor symbol := by
  rw [refoldedIndex_eq_ofUnits, programIndex_eq_ofUnits, lockSummaryFor_ofUnits,
    lockSummaryFor_ofUnits, map_snd_numberedWith, map_snd_numberedWith, List.findSome?_map,
    List.findSome?_map]
  refine findSome_congr fun unit _ => ?_
  exact finalFacts_cases rules units loads
    (fun facts => publishedOn (·.lockWrapperSummaries) symbol facts = _) unit.1.module rfl
    (lockSummaries_rebuilt (program_selectionFor rules) symbol)

theorem asked_refolded (inLoop : Bool) (symbol : String) :
    asked inLoop (refoldedIndex rules units loads) symbol =
      asked inLoop (programIndex rules units fun _ => loads) symbol := by
  have hrebuilt (module : TranslationUnit) := startsWanted_rebuilt module
    (programIndex rules units fun _ => loads) (program_selectionFor rules) inLoop symbol
  have hprogram : asked inLoop (programIndex rules units fun _ => loads) symbol = true ↔
      ∃ unit ∈ compatibleUnits units loads, startsWanted inLoop symbol
        (build unit.1.module (selectionFor rules) (some {})) := by
    rw [programIndex_eq_ofUnits, asked_ofUnits,
      exists_mem_numberedWith units loads _ (startsWanted inLoop symbol)]
  rw [Bool.eq_iff_iff, refoldedIndex_eq_ofUnits, asked_ofUnits,
    exists_mem_numberedWith units loads _ (startsWanted inLoop symbol)]
  constructor
  · rintro ⟨unit, hunit, hstarts⟩
    have hknown : startsWanted inLoop symbol (finalFacts units loads rules unit.1.module) →
        startsWanted inLoop symbol (build unit.1.module (selectionFor rules) (some {})) ∨
          asked inLoop (programIndex rules units fun _ => loads) symbol = true :=
      finalFacts_cases rules units loads (fun facts => startsWanted inLoop symbol facts → _)
        unit.1.module .inl (hrebuilt unit.1.module).2
    rcases hknown hstarts with hown | hasked
    · exact hprogram.mpr ⟨unit, hunit, hown⟩
    · exact hasked
  · intro hasked
    obtain ⟨unit, hunit, hown⟩ := hprogram.mp hasked
    exact ⟨unit, hunit, finalFacts_cases rules units loads _ unit.1.module hown
      ((hrebuilt unit.1.module).1 hown)⟩

theorem reapsChildren_refolded :
    (refoldedIndex rules units loads).programReapsChildren =
      (programIndex rules units fun _ => loads).programReapsChildren := by
  have hprogram : (programIndex rules units fun _ => loads).reapsChildren = true ↔
      ∃ unit ∈ compatibleUnits units loads,
        (build unit.1.module (selectionFor rules) (some {})).reapsChildProcesses = true := by
    rw [programIndex_eq_ofUnits, ofUnits, reapsChildren_addUnits,
      exists_mem_numberedWith units loads _ fun facts => facts.reapsChildProcesses = true]
    simp
  unfold programReapsChildren
  rw [Bool.eq_iff_iff, refoldedIndex_eq_ofUnits, ofUnits, reapsChildren_addUnits,
    exists_mem_numberedWith units loads _ fun facts => facts.reapsChildProcesses = true]
  constructor
  · rintro (hnone | ⟨unit, hunit, hreaps⟩)
    · exact absurd hnone (by simp)
    · have hknown : (finalFacts units loads rules unit.1.module).reapsChildProcesses = true →
          (build unit.1.module (selectionFor rules) (some {})).reapsChildProcesses = true ∨
            (programIndex rules units fun _ => loads).reapsChildren = true :=
        finalFacts_cases rules units loads (fun facts => facts.reapsChildProcesses = true → _)
          unit.1.module .inl reapsChildProcesses_rebuilt
      rcases hknown hreaps with hown | hasked
      · exact hprogram.mpr ⟨unit, hunit, hown⟩
      · exact hasked
  · intro hasked
    obtain ⟨unit, hunit, hown⟩ := hprogram.mp hasked
    refine .inr ⟨unit, hunit, finalFacts_cases rules units loads
      (fun facts => facts.reapsChildProcesses = true) unit.1.module hown ?_⟩
    simp only [build, Bool.and_eq_true, Bool.or_eq_true, Option.map_some, Option.getD_some,
      programReapsChildren] at hown ⊢
    exact ⟨hown.1, .inr hasked⟩

theorem answersKept_refolded :
    AnswersKept (refoldedIndex rules units loads) (programIndex rules units fun _ => loads) := by
  have hentry (symbol : String) :
      (refoldedIndex rules units loads).isThreadEntry symbol =
        (programIndex rules units fun _ => loads).isThreadEntry symbol := by
    rw [← asked_false, asked_refolded, asked_false]
  refine ⟨fun symbol => ?_, appearsInSeveralUnits_refolded rules units loads,
    lockSummaryFor_refolded rules units loads, hentry, fun symbol => ?_, ?_,
    reapsChildren_refolded rules units loads⟩
  · rw [isDefinedSomewhere, isDefinedSomewhere, definedGlobals_refolded]
  · rw [← asked_true, asked_refolded, asked_true]
  · rw [Bool.eq_iff_iff, programCreatesThreads_iff, programCreatesThreads_iff]
    simp only [hentry]

end Refolded

-- What has to hold for the two queries that are fed back to themselves to be answered alike as well.
section Settled

variable {unit : TranslationUnit} {selection : FactSelection} {index : ProgramSymbolIndex}

-- The unit counted the starts of the entries it defines, as often as the program does.
def CountedEntries (unit : TranslationUnit) (selection : FactSelection)
    (index : ProgramSymbolIndex) : Prop :=
  ∀ function ∈ unit.functions, function.isDeclaration = false →
    index.isThreadEntry function.symbol = true →
    ∃ concurrency, (build unit selection (some {})).entryConcurrency function.id = some concurrency ∧
      index.spawnCount function.symbol ≤ concurrency.staticSpawnCount ∧
      (index.spawnedInLoop function.symbol = true → concurrency.hasSpawnInLoop = true)

theorem knownJoiningHelpers_settled (hjoins : NoJoiningHelperElsewhere unit index) :
    knownJoiningHelpers unit selection (some index) =
      knownJoiningHelpers unit selection (some {}) := by
  unfold knownJoiningHelpers
  simp only [seededFromProgram_eq_self hjoins]
  rw [seededFromProgram_eq_self fun _ _ _ => rfl]

theorem completions_settled (hjoins : NoJoiningHelperElsewhere unit index) :
    completions unit selection (some index) = completions unit selection (some {}) := by
  simp only [completions, joiningHelpers, knownJoiningHelpers_settled hjoins]

theorem entryConcurrency_settled (hjoins : NoJoiningHelperElsewhere unit index)
    (hentries : CountedEntries unit selection index) :
    (build unit selection (some index)).entryConcurrency =
      (build unit selection (some {})).entryConcurrency := by
  show entryConcurrency unit selection (some index) = entryConcurrency unit selection (some {})
  have hunit : unitEntryConcurrency unit selection (some index) =
      unitEntryConcurrency unit selection (some {}) := by
    unfold unitEntryConcurrency taskConcurrency
    rw [completions_settled hjoins]
    rfl
  refine entryConcurrency_of_counted hunit fun function hfunction hdeclared hentry => ?_
  obtain ⟨concurrency, hconcurrency, hcounts⟩ := hentries function hfunction hdeclared hentry
  refine ⟨concurrency, ?_, hcounts⟩
  rw [← hconcurrency, ← entryConcurrency_firstPass]
  rfl

theorem joiningHelpers_settled (hjoins : NoJoiningHelperElsewhere unit index) :
    (build unit selection (some index)).joiningHelpers =
      (build unit selection (some {})).joiningHelpers := by
  show publishedJoiningHelpers unit selection (some index) =
    publishedJoiningHelpers unit selection (some {})
  funext functionId
  unfold publishedJoiningHelpers joiningHelpers
  rw [knownJoiningHelpers_settled hjoins]

theorem resolvedHandles_settled (hprogram : selection.program = true)
    (hjoins : NoJoiningHelperElsewhere unit index) :
    resolvedHandles (build unit selection (some index)) =
      resolvedHandles (build unit selection (some {})) := by
  have hcollected : collectedLifecycles unit selection (some index) =
      collectedLifecycles unit selection (some {}) := by
    simp only [collectedLifecycles, completions_settled hjoins]
  have hresolved : (build unit selection (some index)).resolvedGlobalHandleIds =
      (build unit selection (some {})).resolvedGlobalHandleIds := by
    show resolvedGlobalHandleIds unit selection (some index) =
      resolvedGlobalHandleIds unit selection (some {})
    unfold resolvedGlobalHandleIds
    rw [hcollected]
  have hsymbol (known : ProgramSymbolIndex) (handleGroupId : String)
      (h : handleGroupId ∈ (build unit selection (some known)).resolvedGlobalHandleIds) :
      (build unit selection (some known)).program.handleSymbolsByGroupId handleGroupId =
        (globalOfStorageGroupId unit handleGroupId).map (·.symbol) := by
    rw [program_build hprogram]
    show handleSymbolsByGroupId unit selection (some known) handleGroupId = _
    unfold handleSymbolsByGroupId
    have hmem : handleGroupId ∈ resolvedGlobalHandleIds unit selection (some known) := h
    simp [hmem]
  unfold resolvedHandles
  ext symbol
  simp only [Finset.mem_biUnion]
  rw [hresolved]
  refine exists_congr fun handleGroupId => and_congr_right fun hhandle => ?_
  rw [hsymbol {} handleGroupId hhandle, hsymbol index handleGroupId (by rw [hresolved]; exact hhandle)]

end Settled

section Enough

variable (rules : List RuleId) (units : List ProjectUnit) (loads : Nat → Bool)

-- No compatible unit calls a joining helper of another one, and those re-analysed had counted the
-- starts of their entries.
structure OneFoldEnough : Prop where
  joins : ∀ unit ∈ compatibleUnits units loads,
    NoJoiningHelperElsewhere unit.1.module (programIndex rules units fun _ => loads)
  entries : ∀ unit ∈ compatibleUnits units loads, gateOpens units loads rules unit.1.module = true →
    CountedEntries unit.1.module (selectionFor rules) (programIndex rules units fun _ => loads)

variable {rules units loads} (h : OneFoldEnough rules units loads)

include h

theorem OneFoldEnough.finalFacts {unit : ProjectUnit × Nat}
    (hunit : unit ∈ compatibleUnits units loads) :
    (finalFacts units loads rules unit.1.module).entryConcurrency =
        (build unit.1.module (selectionFor rules) (some {})).entryConcurrency ∧
      (finalFacts units loads rules unit.1.module).joiningHelpers =
        (build unit.1.module (selectionFor rules) (some {})).joiningHelpers ∧
      resolvedHandles (finalFacts units loads rules unit.1.module) =
        resolvedHandles (build unit.1.module (selectionFor rules) (some {})) := by
  unfold CrossTU.finalFacts
  split
  · rename_i hgate
    have hjoins := h.joins unit hunit
    exact ⟨entryConcurrency_settled hjoins (h.entries unit hunit hgate),
      joiningHelpers_settled hjoins, resolvedHandles_settled (program_selectionFor rules) hjoins⟩
  · exact ⟨rfl, rfl, rfl⟩

theorem OneFoldEnough.entrySpawns (symbol : String) :
    (refoldedIndex rules units loads).entrySpawns symbol =
      (programIndex rules units fun _ => loads).entrySpawns symbol := by
  rw [refoldedIndex_eq_ofUnits, programIndex_eq_ofUnits, entrySpawns_ofUnits, entrySpawns_ofUnits,
    map_snd_numberedWith, map_snd_numberedWith, List.flatMap_map, List.flatMap_map]
  congr 1
  refine List.flatMap_congr fun unit hunit => ?_
  unfold startsOf
  rw [(finalFacts_names rules units loads unit).1, (h.finalFacts hunit).1]

theorem OneFoldEnough.joinedParametersOf (symbol : String) :
    (refoldedIndex rules units loads).joinedParametersOf symbol =
      (programIndex rules units fun _ => loads).joinedParametersOf symbol := by
  rw [refoldedIndex_eq_ofUnits, programIndex_eq_ofUnits, joinedParametersOf_ofUnits,
    joinedParametersOf_ofUnits, map_snd_numberedWith, map_snd_numberedWith, List.findSome?_map,
    List.findSome?_map]
  refine findSome_congr fun unit hunit => ?_
  simp only [Function.comp_apply, publishedOn]
  rw [(finalFacts_names rules units loads unit).1, (finalFacts_names rules units loads unit).2,
    (h.finalFacts hunit).2.1]

theorem OneFoldEnough.resolvedHandleSymbols :
    (refoldedIndex rules units loads).resolvedHandleSymbols =
      (programIndex rules units fun _ => loads).resolvedHandleSymbols := by
  ext symbol
  rw [refoldedIndex_eq_ofUnits, programIndex_eq_ofUnits, ofUnits, ofUnits,
    mem_resolvedHandleSymbols_addUnits, mem_resolvedHandleSymbols_addUnits]
  refine or_congr_right ?_
  rw [exists_mem_numberedWith units loads _ fun facts => symbol ∈ resolvedHandles facts,
    exists_mem_numberedWith units loads _ fun facts => symbol ∈ resolvedHandles facts]
  refine exists_congr fun unit => and_congr_right fun hunit => ?_
  rw [(h.finalFacts hunit).2.2]

theorem OneFoldEnough.answersUnit (module : TranslationUnit) (selection : FactSelection) :
    AnswersUnit module selection (refoldedIndex rules units loads)
      (programIndex rules units fun _ => loads) := by
  have hkept := answersKept_refolded rules units loads
  refine ⟨definedGlobals_refolded rules units loads, funext hkept.lockSummaryFor,
    funext h.joinedParametersOf, h.resolvedHandleSymbols, hkept.programCreatesThreads,
    hkept.programReapsChildren, fun function _ _ => h.entrySpawns function.symbol, ?_⟩
  intro _ _ _ _ function _
  refine ⟨fun symbol _ => hkept.appearsInSeveralUnits symbol, fun _ => ?_⟩
  rw [spawnCount, h.entrySpawns, spawnCount]

end Enough

-- A second fold keeps the answers of the first on all but counts, joining helpers and handles; where
-- it keeps those too, the units re-analysed have the facts they would get from it.
theorem one_fold_settles (rules : List RuleId) (units : List ProjectUnit) (loads : Nat → Bool) :
    AnswersKept (refoldedIndex rules units loads) (programIndex rules units fun _ => loads) ∧
      (OneFoldEnough rules units loads →
        SameAnswers (refoldedIndex rules units loads) (programIndex rules units fun _ => loads) ∧
          ∀ unit ∈ secondPass rules units (fun _ => loads),
            gateOpens units loads rules unit.unit.module = true →
              build unit.unit.module (selectionFor rules) (some (refoldedIndex rules units loads)) =
                unit.facts) := by
  have hkept := answersKept_refolded rules units loads
  refine ⟨hkept, fun henough => ⟨?_, fun unit hunit hgate => ?_⟩⟩
  · refine ⟨fun symbol => ?_, hkept.spawnedInLoop, hkept.isThreadEntry, hkept.lockSummaryFor,
      henough.joinedParametersOf, fun symbol => ?_, hkept.isDefinedSomewhere,
      hkept.appearsInSeveralUnits, hkept.programCreatesThreads, hkept.programReapsChildren⟩
    · rw [spawnCount, henough.entrySpawns, spawnCount]
    · rw [resolvesHandleElsewhere, henough.resolvedHandleSymbols, resolvesHandleElsewhere]
  · rw [(henough.answersUnit unit.unit.module (selectionFor rules)).build]
    rw [secondPass_eq] at hunit
    obtain ⟨known, _, rfl⟩ := List.mem_map.mp hunit
    show _ = CrossTU.finalFacts units loads rules known.1.module
    rw [CrossTU.finalFacts, if_pos hgate]

-- `join.c` joins the thread it is handed; the helper of `helper.c` hands its own thread on.
def joinsHandle : ProjectUnit where
  identifier := "join.c"
  module :=
    { functions := [{ id := "join_it", symbol := "join_it" }]
      collectJoiningHelpers := fun known functionId =>
        if functionId = "join_it" then some [{}] else known functionId }

def handsOnHandle : ProjectUnit where
  identifier := "helper.c"
  module :=
    { functions := [{ id := "helper", symbol := "helper" },
        { id := "join_it", symbol := "join_it", isDeclaration := true }]
      collectJoiningHelpers := fun known functionId =>
        if functionId = "helper" then known "join_it" else known functionId }

-- A third pass would count the start of `worker` in both units, and would learn of the helper.
theorem third_pass_differs :
    (∃ unit ∈ secondPass [.DataRaceGlobal] [startsWorker, countingWorker] fun _ _ => true,
      (build unit.unit.module (selectionFor [.DataRaceGlobal])
          (some (refoldedIndex [.DataRaceGlobal] [startsWorker, countingWorker] fun _ => true))
        ).entryConcurrency "worker" ≠ unit.facts.entryConcurrency "worker") ∧
      (programIndex [.MissingJoin] [joinsHandle, handsOnHandle] fun _ _ => true).joinedParametersOf
          "helper" = none ∧
        (refoldedIndex [.MissingJoin] [joinsHandle, handsOnHandle] fun _ => true).joinedParametersOf
          "helper" ≠ none := by
  decide +kernel

theorem apart_nil {β : Type} (name : FunctionInfo → β) :
    ∀ function ∈ [], ∀ other ∈ [], name function = name other → function = other := by
  simp

-- `reader.c` declares the global that `state.c` defines.
def definesState : ProjectUnit where
  identifier := "state.c"
  module :=
    { globals := [{ name := "state", symbol := "state" }]
      idInjective := apart_nil FunctionInfo.id
      symbolInjective := apart_nil FunctionInfo.symbol }

def readsState : ProjectUnit where
  identifier := "reader.c"
  module :=
    { functions := [{ id := "main", symbol := "main" }]
      globals := [{ name := "state", symbol := "state", isDeclaration := true }] }

theorem extern_global_settles :
    gateOpens [definesState, readsState] (fun _ => true) [.DataRaceGlobal] readsState.module = true ∧
      ∀ unit ∈ secondPass [.DataRaceGlobal] [definesState, readsState] (fun _ _ => true),
        gateOpens [definesState, readsState] (fun _ => true) [.DataRaceGlobal] unit.unit.module = true →
          build unit.unit.module (selectionFor [.DataRaceGlobal])
              (some (refoldedIndex [.DataRaceGlobal] [definesState, readsState] fun _ => true)) =
            unit.facts := by
  refine ⟨by decide +kernel,
    ((one_fold_settles [.DataRaceGlobal] [definesState, readsState] fun _ => true).2 ?_).2⟩
  refine ⟨?_, ?_⟩
  · unfold NoJoiningHelperElsewhere
    decide +kernel
  · intro unit hunit _ function hfunction _ hentry
    have hmem := List.mem_of_mem_filter (List.mem_of_mem_filter hunit)
    simp only [List.zipIdx_cons, List.zipIdx_nil, List.mem_cons, List.not_mem_nil, or_false] at hmem
    rcases hmem with rfl | rfl
    · exact absurd hfunction (by simp [definesState])
    · obtain rfl : function = { id := "main", symbol := "main" } := by
        simpa [readsState] using hfunction
      exact absurd hentry (by decide +kernel)

end ConcurrencyAnalyzer.CrossTU
