import ConcurrencyAnalyzer.Project.Reruns

namespace ConcurrencyAnalyzer.Project

open IRCache (Bytes Files parseDependencyFile)
open FactsBuilder CrossTU

section Passes

variable {rules : List RuleId} {units : List ProjectUnit} {errors others : Pass → Nat → Option CrossTU.CompileError}

theorem runPass_congr {pass : Pass} {program : ProgramSymbolIndex} {order : List Nat}
    (h : ∀ number ∈ order, errors pass number = others pass number) (state : ProjectState) :
    runPass rules units errors pass program order state =
      runPass rules units others pass program order state := by
  unfold runPass
  refine List.foldl_ext _ _ _ fun state number hmem => ?_
  unfold analyseUnit factsAfter failureOf
  rw [h number hmem]

-- Nothing failed: no error came up where a unit was loaded.
theorem loads_of_no_failures {first second : List Nat} (hscheduled : Scheduled rules units errors first second)
    (h : (analyseProject rules units errors first second).failedUnits = []) :
    (∀ number ∈ first, errors .First number = none) ∧ ∀ number ∈ second, errors .Second number = none := by
  have hfailures : (afterSecond rules units errors first second).failures = [] := by
    unfold analyseProject at h
    simp only at h
    split at h
    · -- With no unit loaded there is nothing left for the second pass.
      rename_i hloaded
      have hsecond : second = [] := by
        refine List.eq_nil_iff_forall_not_mem.mpr fun number hmem => ?_
        have hnumber := (mem_reanalysedUnits_loaded (hscheduled.second.mem_iff.mp hmem)).2
        rw [List.isEmpty_iff.mp hloaded] at hnumber
        cases hnumber
      rw [hsecond]
      exact List.map_eq_nil_iff.mp h
    · have hsorted := List.map_eq_nil_iff.mp h
      exact (List.perm_nil.mp (hsorted ▸ (List.perm_insertionSort _ _).symm))
  rw [failures_eq, List.append_eq_nil_iff, List.filterMap_eq_nil_iff, List.filterMap_eq_nil_iff] at hfailures
  have hnone {pass : Pass} {number : Nat} (hlt : number < units.length)
      (hfailure : (failureOf units errors pass number).map (number, ·) = none) :
      errors pass number = none := by
    have hinside := failureOf_inside errors pass hlt
    rw [Option.map_eq_none_iff.mp hfailure] at hinside
    exact Option.isNone_iff_eq_none.mp (by simpa using hinside.symm)
  refine ⟨fun number hmem => hnone ?_ (hfailures.1 number hmem), fun number hmem =>
    hnone (second_loaded hscheduled hmem).2.1 (hfailures.2 number hmem)⟩
  exact List.mem_range.mp (hscheduled.first.mem_iff.mp hmem)

theorem no_failures_of_loads {first second : List Nat} (h : ∀ pass number, errors pass number = none) :
    (analyseProject rules units errors first second).failedUnits = [] := by
  have hnone : ∀ pass number, failureOf units errors pass number = none := by
    intro pass number
    unfold failureOf
    rw [h pass number]
    cases units[number]? <;> rfl
  have hfailures : (afterSecond rules units errors first second).failures = [] := by
    rw [failures_eq]
    simp [hnone]
  have hfirst : (afterFirst rules units errors first).failures = [] := by
    rw [afterFirst, runPass_failures]
    simp [hnone]
  unfold analyseProject
  simp only
  split
  · rw [hfirst, List.map_nil]
  · rw [hfailures]
    rfl

-- An analysis that lost no unit is the one of a project whose units all load.
theorem analysis_eq_of_complete {same : List ProjectUnit} {threads workers : Nat}
    (run : ProjectRun rules units errors threads) (other : ProjectRun rules same others workers)
    (hcomplete : run.analysis.failedUnits = []) (hothers : ∀ pass number, others pass number = none)
    (hunits : units = same) : run.analysis = other.analysis := by
  subst hunits
  have hanalysis := run.analysis_eq
  have hscheduled := run.scheduled
  rw [hanalysis] at hcomplete
  obtain ⟨hfirst, hsecond⟩ := loads_of_no_failures hscheduled hcomplete
  have hafter : afterFirst rules units errors run.firstDone = afterFirst rules units others run.firstDone :=
    runPass_congr (fun number hmem => by rw [hfirst number hmem, hothers]) _
  have hafterSecond : afterSecond rules units errors run.firstDone run.secondDone =
      afterSecond rules units others run.firstDone run.secondDone := by
    unfold afterSecond
    simp only
    rw [hafter]
    exact runPass_congr (fun number hmem => by rw [hsecond number hmem, hothers]) _
  have hsame : analyseProject rules units errors run.firstDone run.secondDone =
      analyseProject rules units others run.firstDone run.secondDone := by
    unfold analyseProject reportedUnits
    rw [hafterSecond, hafter]
  have hscheduled' : Scheduled rules units others run.firstDone run.secondDone :=
    ⟨hscheduled.first, hafter ▸ hscheduled.second⟩
  obtain ⟨hagree, hfailed⟩ := analyseProject_agree hscheduled' other.scheduled
  rw [hanalysis, hsame, other.analysis_eq]
  rw [hsame] at hcomplete
  have hempty := @no_failures_of_loads rules units others other.firstDone other.secondDone hothers
  generalize analyseProject rules units others run.firstDone run.secondDone = lhs at *
  generalize analyseProject rules units others other.firstDone other.secondDone = rhs at *
  cases lhs
  cases rhs
  simp_all

end Passes

section Loads

theorem exists_of_isOk {ε α : Type} {result : Except ε α} (h : result.isOk = true) :
    ∃ value, result = .ok value := by
  cases result with
  | error error => cases h
  | ok value => exact ⟨value, rfl⟩

variable {toolchain : Toolchain} {cache : Files} {unit plain : SourceUnit} {units plains : List SourceUnit}
  {reads others : Pass → Nat → EntryReads}

-- The digests tell what the units were added with from all that their files hold later.
def Toolchain.NoCollisions (toolchain : Toolchain) (units plains : List SourceUnit)
    (reads : Pass → Nat → EntryReads) : Prop :=
  ∀ pass (number : Nat) unit plain, units[number]? = some unit → plains[number]? = some plain →
    unit.NoCollision toolchain.xxh3 plain.bitcode (reads pass number)

theorem Toolchain.Matches.load (h : toolchain.Matches cache unit plain) {reads : EntryReads}
    (hdistinct : unit.NoCollision toolchain.xxh3 plain.bitcode reads) :
    unit.load toolchain.pathText toolchain.xxh3 toolchain.parseBC reads = toolchain.parseBC plain.bitcode ∨
      ∃ error, unit.load toolchain.pathText toolchain.xxh3 toolchain.parseBC reads = .error error := by
  unfold SourceUnit.load
  rcases @bytes_of_recorded toolchain.pathText _ _ _ _ h.recorded hdistinct with hbytes | ⟨error, herror⟩
  · exact .inl (by rw [hbytes]; rfl)
  · exact .inr ⟨error, by rw [herror]; rfl⟩

theorem Toolchain.Matches.load_plain (h : toolchain.Matches cache unit plain) (reads : EntryReads) :
    plain.load toolchain.pathText toolchain.xxh3 toolchain.parseBC reads =
      toolchain.parseBC plain.bitcode := by
  unfold SourceUnit.load SourceUnit.bytes
  rw [h.inMemory]
  rfl

-- Without a cache the bitcode is in memory, and every load gives the same.
theorem loadErrors_plain (h : List.Forall₂ (toolchain.Matches cache) units plains)
    (reads : Pass → Nat → EntryReads) (pass : Pass) (number : Nat) :
    toolchain.loadErrors plains reads pass number = none := by
  unfold Toolchain.loadErrors
  cases hplain : plains[number]? with
  | none => rfl
  | some plain =>
      obtain ⟨hlt, hget⟩ := List.getElem?_eq_some_iff.mp hplain
      have hmatches := h.get (h.length_eq ▸ hlt) hlt
      rw [List.get_eq_getElem, List.get_eq_getElem, hget] at hmatches
      obtain ⟨module, hmodule⟩ := exists_of_isOk hmatches.parses
      rw [Option.bind_some, hmatches.load_plain, hmodule]

theorem projectUnits_eq (h : List.Forall₂ (toolchain.Matches cache) units plains)
    (hdistinct : toolchain.NoCollisions units plains reads)
    (hloads : ∀ number < units.length, toolchain.loadErrors units reads .First number = none) :
    toolchain.projectUnits units reads = toolchain.projectUnits plains others := by
  unfold Toolchain.projectUnits
  refine List.ext_getElem (by simp [h.length_eq]) fun number hlt hlt' => ?_
  simp only [List.length_mapIdx] at hlt hlt'
  have hmatches := h.get hlt hlt'
  rw [List.get_eq_getElem, List.get_eq_getElem] at hmatches
  have hloads := hloads number hlt
  unfold Toolchain.loadErrors at hloads
  rw [List.getElem?_eq_getElem hlt, Option.bind_some] at hloads
  rw [List.getElem_mapIdx, List.getElem_mapIdx, hmatches.identifier, hmatches.load_plain]
  rcases hmatches.load (hdistinct .First number _ _ (List.getElem?_eq_getElem hlt)
    (List.getElem?_eq_getElem hlt')) with hsame | ⟨error, herror⟩
  · rw [hsame]
  · simp [herror] at hloads

theorem loadErrors_kept (h : List.Forall₂ (toolchain.Matches cache) units plains)
    (hkept : ∀ pass number, reads pass number = readEntry cache) (pass : Pass) (number : Nat) :
    toolchain.loadErrors units reads pass number = none := by
  unfold Toolchain.loadErrors
  cases hunit : units[number]? with
  | none => rfl
  | some unit =>
      obtain ⟨hlt, hget⟩ := List.getElem?_eq_some_iff.mp hunit
      have hlt' : number < plains.length := h.length_eq ▸ hlt
      have hmatches := h.get hlt hlt'
      rw [List.get_eq_getElem, List.get_eq_getElem, hget] at hmatches
      obtain ⟨module, hmodule⟩ := exists_of_isOk hmatches.parses
      have hread : unit.Kept plains[number].bitcode (reads pass number) := by
        intro file hfile
        obtain ⟨-, -, -, hread⟩ := hmatches.kept file hfile
        rw [hkept]
        exact hread
      have hbytes := @bytes_of_kept toolchain.pathText _ _ _ _ hmatches.recorded hread
      rw [Option.bind_some, SourceUnit.load, hbytes, Except.bind, hmodule]

end Loads

section Outcomes

variable {toolchain : Toolchain} {cache : Files} {commands : List ReplayedCommand}

theorem projectOutcome_congr {state plain : RunState} (databasePath : String) (failOn : FailOn)
    {analysis other : ScheduledAnalysis} (hunits : state.units.isEmpty = plain.units.isEmpty)
    (hfailed : state.failedSources = plain.failedSources) (hanalysis : analysis = other) :
    projectOutcome databasePath failOn state analysis = projectOutcome databasePath failOn plain other := by
  unfold projectOutcome skippedLines projectExitCode
  rw [hunits, hfailed, hanalysis]

theorem exitCode_of_failures (databasePath : String) (failOn : FailOn) (state : RunState)
    {analysis : ScheduledAnalysis} (h : analysis.failedUnits ≠ []) :
    (projectOutcome databasePath failOn state analysis).exitCode = 1 := by
  unfold projectOutcome projectExitCode
  split
  · rfl
  · simp [h]

-- The cache shows in nothing a project run says, whatever the runs before it, the edits between them and
-- the number of workers, but where the files of the cache change under the analysis: then the run says
-- that a unit failed.
theorem cached_run_says_the_same (toolchain : Toolchain) (hsha : Function.Injective toolchain.sha256)
    (commands : List ReplayedCommand) (hfaithful : toolchain.Faithful commands) (cache : Files)
    (hhistory : toolchain.CacheHistory cache) (hedits : Unambiguous cache) (rules : List RuleId)
    (databasePath : String) (failOn : FailOn) (reads plainReads : Pass → Nat → EntryReads)
    (hdigests : toolchain.NoCollisions (toolchain.compileAll true cache commands).units
      (toolchain.compileAll false cache commands).units reads) (threads workers : Nat)
    (run : toolchain.AnalysisRun rules (toolchain.compileAll true cache commands).units reads threads)
    (plain : toolchain.AnalysisRun rules (toolchain.compileAll false cache commands).units plainReads
      workers) :
    let state := toolchain.compileAll true cache commands
    let outcome := projectOutcome databasePath failOn state run.analysis
    let plainOutcome := projectOutcome databasePath failOn (toolchain.compileAll false cache commands)
      plain.analysis
    state.reusedUnits + state.compiledUnits + state.failedSources.length = commands.length ∧
      (outcome = plainOutcome ∨ run.analysis.failedUnits ≠ [] ∧ outcome.exitCode = 1) ∧
      ((∀ pass number, reads pass number = readEntry state.cache) → outcome = plainOutcome) := by
  intro state outcome plainOutcome
  have hagrees := compileAll_agrees hsha hfaithful (fresh_of_history hsha hfaithful hhistory hedits)
  have hplain := loadErrors_plain hagrees.units plainReads
  have hempty : state.units.isEmpty = (toolchain.compileAll false cache commands).units.isEmpty := by
    rw [Bool.eq_iff_iff, List.isEmpty_iff_length_eq_zero, List.isEmpty_iff_length_eq_zero,
      hagrees.units.length_eq]
  have hcomplete : run.analysis.failedUnits = [] → outcome = plainOutcome := by
    intro hcomplete
    refine projectOutcome_congr databasePath failOn hempty hagrees.failed ?_
    -- The units all loaded, so they are those of the run without a cache.
    obtain ⟨hfirst, -⟩ := loads_of_no_failures run.scheduled (run.analysis_eq ▸ hcomplete)
    have hloads : ∀ number < state.units.length, toolchain.loadErrors state.units reads .First number = none :=
      fun number hlt => hfirst number (run.scheduled.first.mem_iff.mpr (by
        simpa [Toolchain.projectUnits] using hlt))
    exact analysis_eq_of_complete run plain hcomplete hplain
      (projectUnits_eq hagrees.units hdigests hloads)
  refine ⟨?_, ?_, fun hkept => hcomplete ?_⟩
  · have hcounted := hagrees.counted
    have hhandled := hagrees.handled
    rw [← hcounted, ← hagrees.failed] at hhandled
    exact hhandled
  · by_cases hfailed : run.analysis.failedUnits = []
    · exact .inl (hcomplete hfailed)
    · exact .inr ⟨hfailed, exitCode_of_failures databasePath failOn state hfailed⟩
  · rw [run.analysis_eq]
    exact no_failures_of_loads (loadErrors_kept hagrees.units hkept)

-- A run adds no entry that could be taken for another.
theorem unambiguous_compileAll (hcache : Unambiguous cache) (commands : List ReplayedCommand) :
    Unambiguous (toolchain.compileAll true cache commands).cache := by
  refine List.foldlRecOn (motive := fun state : RunState => Unambiguous state.cache) commands _ hcache ?_
  intro state hstate command _
  have h := @compileCommand_handled toolchain true state command
  generalize toolchain.compileCommand true state command = next at h ⊢
  cases h with
  | reused => exact hstate
  | failed => exact hstate
  | held => exact hstate
  | stored bitcode cache _ _ _ hstore =>
      obtain ⟨dependencies, texts, hstored⟩ := store_eq_some hstore
      intro key made hmade others hothers hflatten
      rw [readAll_congr hstored.contents] at hothers
      by_cases hkey : key = toolchain.keyFor command
      · rw [hkey, hstored.entry] at hmade
        obtain rfl := Option.some_inj.mp hmade
        have hlength : (parseDependencyFile dependencies).length = texts.length :=
          (IRCache.readAll_eq_some.mp hstored.read).length_eq
        simp only [List.map_fst_zip hlength.le, List.map_snd_zip hlength.ge] at hothers ⊢
        rw [hstored.read] at hothers
        rw [Option.some_inj.mp hothers]
      · rw [hstored.others key hkey] at hmade
        exact hstate key made hmade others hothers hflatten

theorem noCollisions_kept {units plains : List SourceUnit}
    (h : List.Forall₂ (toolchain.Matches cache) units plains) :
    toolchain.NoCollisions units plains fun _ _ => readEntry cache := by
  intro pass number unit plain hunit hplain file hfile bytes hread _ _
  obtain ⟨hlt, hget⟩ := List.getElem?_eq_some_iff.mp hunit
  obtain ⟨hlt', hget'⟩ := List.getElem?_eq_some_iff.mp hplain
  have hmatches := h.get hlt hlt'
  rw [List.get_eq_getElem, List.get_eq_getElem, hget, hget'] at hmatches
  obtain ⟨-, -, -, hkept⟩ := hmatches.kept file hfile
  exact Except.ok.inj (hread.symm.trans hkept)

end Outcomes

section Echo

theorem echo_bitcodeOf (contents : SourceContents) (useCache : Bool) :
    echo.bitcodeOf contents useCache echoCommand = (contents (bytesOf "a.c")).filter (· ≠ []) := by
  have hargs : (compilerArgs (echo.request useCache echoCommand)).getLast? = some "a.c" := by
    cases useCache <;> decide
  have houtput : ∀ instrument, echo.backend contents .BC (compilerArgs (echo.request useCache echoCommand))
      instrument = { success := true, payload := (contents (bytesOf "a.c")).getD [] } := by
    intro instrument
    simp only [echo] at hargs ⊢
    rw [hargs, Option.bind_some]
  have hinput : (echo.request useCache echoCommand).inputFile = "a.c" := rfl
  have hformat : (echo.request useCache echoCommand).format = .BC := rfl
  have hprobe : echo.probe contents "a.c" = ⟨.ok (contents (bytesOf "a.c")).isSome, .ok true, true⟩ := rfl
  have hparse : ∀ bytes, echo.parseBC bytes =
      if bytes = [] then .error (IRFormat.parseFailed .BC) else .ok {} := fun _ => rfl
  unfold Toolchain.bitcodeOf Toolchain.compileUnit compile
  rw [hinput, hformat, hprobe, houtput]
  cases hsource : contents (bytesOf "a.c") with
  | none => simp [validateInputFile, invalidInput]
  | some source =>
      cases source with
      | nil =>
          simp [validateInputFile]
          rfl
      | cons byte rest =>
          simp [validateInputFile, parsePayload, hparse]
          rfl

theorem echo_faithful : echo.Faithful [echoCommand] where
  flags command hcommand contents := by
    rw [List.mem_singleton.mp hcommand, echo_bitcodeOf, echo_bitcodeOf]
  listed command hcommand contents others bitcode fragment hbitcode hfragment hlisted := by
    obtain rfl := List.mem_singleton.mp hcommand
    have hpath : parseDependencyFile fragment = [bytesOf "a.c"] := by
      have hfragment : fragment = bytesOf "u: a.c" := by
        have hwritten : echo.fragmentOf contents echoCommand = some (bytesOf "u: a.c") := rfl
        exact (Option.some_inj.mp (hwritten.symm.trans hfragment)).symm
      rw [hfragment]
      decide
    rw [hpath] at hlisted
    rw [echo_bitcodeOf, hlisted _ (List.mem_singleton_self _), ← echo_bitcodeOf contents true]
    exact hbitcode

-- The second of two runs, with the bitcode of the first.
theorem cached_run_says_the_same_echo :
    (echo.compileAll true echoCache [echoCommand]).reusedUnits = 1 ∧
      ∃ (run : echo.AnalysisRun [.DataRaceGlobal] (echo.compileAll true echoCache [echoCommand]).units
          (fun _ _ => readEntry (echo.compileAll true echoCache [echoCommand]).cache) 2)
        (plain : echo.AnalysisRun [.DataRaceGlobal] (echo.compileAll false echoCache [echoCommand]).units
          (fun _ _ => readEntry echoCache) 1),
        projectOutcome "db" .Error (echo.compileAll true echoCache [echoCommand]) run.analysis =
          projectOutcome "db" .Error (echo.compileAll false echoCache [echoCommand]) plain.analysis := by
  refine ⟨by decide +kernel, ?_⟩
  have hsha : Function.Injective echo.sha256 := fun _ _ h => h
  have hhistory : echo.CacheHistory echoCache := .run _ (.fresh _)
  have hedits : Unambiguous echoCache := unambiguous_compileAll (fun _ _ hmem => by cases hmem) _
  have hagrees := compileAll_agrees hsha echo_faithful
    (fresh_of_history hsha echo_faithful hhistory hedits)
  obtain ⟨run⟩ := ProjectRun.exists_run [.DataRaceGlobal] _ _ (Nat.succ_pos 1)
  obtain ⟨plain⟩ := ProjectRun.exists_run [.DataRaceGlobal] _ _ (Nat.succ_pos 0)
  exact ⟨run, plain, (cached_run_says_the_same echo hsha [echoCommand] echo_faithful echoCache hhistory hedits
    [.DataRaceGlobal] "db" .Error _ _ (noCollisions_kept hagrees.units) 2 1 run plain).2.2 fun _ _ => rfl⟩

end Echo

end ConcurrencyAnalyzer.Project
