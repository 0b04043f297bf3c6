import ConcurrencyAnalyzer.ReportBuilder.Contributions

namespace ConcurrencyAnalyzer.ReportBuilder

open Library (OrderedMap)

-- The user locations of the facts about a function, in the order the summaries read them.
def factLocations (facts : TUFacts) (functionId : String) : List SourceLocation :=
  (facts.accesses.filter (·.functionId = functionId)).map (·.userLocation) ++
    (facts.lockOrders.filter (·.functionId = functionId)).map (·.location)

-- The last name the facts about a function give, its id where they give none.
def shownName (facts : TUFacts) (functionId : String) : String :=
  let names := (factLocations facts functionId).filterMap fun location =>
    nonEmpty location.function
  names.getLast?.getD functionId

-- The first file given by the facts about a function, or by the diagnostics that name its id.
def shownFile (facts : TUFacts) (diagnostics : List Diagnostic) (functionId : String) : String :=
  let locations := factLocations facts functionId ++
    (namedLocations diagnostics).filter (·.function = functionId)
  (locations.filterMap fun location => nonEmpty location.file).head?.getD ""

def HasAccesses (facts : TUFacts) (functionId : String) : Prop :=
  ∃ access ∈ facts.accesses, access.functionId = functionId

def HasEntries (facts : TUFacts) (functionId : String) : Prop :=
  ∃ entries, facts.reachableThreadEntriesByFunction functionId = some entries

def NamedByDiagnostic (diagnostics : List Diagnostic) (functionId : String) : Prop :=
  ∃ location ∈ namedLocations diagnostics, location.function = functionId

def Reported (facts : TUFacts) (diagnostics : List Diagnostic) (functionId : String) : Prop :=
  HasAccesses facts functionId ∨
    (∃ lockOrder ∈ facts.lockOrders, lockOrder.functionId = functionId) ∨
    HasEntries facts functionId ∨ NamedByDiagnostic diagnostics functionId

-- The summary carries the access counts and the thread entries of the function.
structure CarriesFacts (facts : TUFacts) (functionId : String) (summary : FunctionSummary) :
    Prop where
  shared : summary.sharedAccessCount.getD 0 =
    facts.accesses.countP (·.functionId = functionId)
  guarded : summary.protectedAccessCount.getD 0 =
    facts.accesses.countP fun access => access.functionId = functionId ∧ access.heldLocks ≠ ∅
  write : summary.writeAccessCount.getD 0 =
    facts.accesses.countP fun access => access.functionId = functionId ∧ access.kind = .Write
  entries : summary.threadEntries =
    (facts.reachableThreadEntriesByFunction functionId).elim [] sortedThreadEntries

section Steps

variable {facts : TUFacts} (order : ReachableOrder facts) (diagnostics : List Diagnostic)
  (functionId : String)

abbrev stepsFor : List Contribution :=
  (contributions facts order diagnostics).filter (·.key = functionId)

theorem stepsFor_eq :
    stepsFor order diagnostics functionId =
      (facts.accesses.filter (·.functionId = functionId)).map .access ++
      (facts.lockOrders.filter (·.functionId = functionId)).map .lockOrder ++
      (order.entries.filter (·.1 = functionId)).map (fun entry => .reachable entry.1 entry.2) ++
      ((namedLocations diagnostics).filter (·.function = functionId)).map .diagnostic := by
  simp only [stepsFor, contributions, List.filter_append, List.filter_map]
  rfl

theorem key_ne_of_isDiagnostic {order : ReachableOrder facts} {diagnostics : List Diagnostic}
    {step : Contribution} (h : step ∈ contributions facts order diagnostics)
    (hdiagnostic : step.isDiagnostic) : step.key ≠ "" := by
  cases step with
  | diagnostic location =>
      have hlocation : location ∈ namedLocations diagnostics := by simpa [contributions] using h
      simpa [Contribution.key] using (List.mem_filter.mp hlocation).2
  | _ => simp [Contribution.isDiagnostic] at hdiagnostic

theorem givenNames_stepsFor :
    (stepsFor order diagnostics functionId).filterMap (·.givenName) =
      (factLocations facts functionId).filterMap fun location => nonEmpty location.function := by
  simp [stepsFor_eq, factLocations, List.filterMap_append, List.filterMap_map,
    Contribution.givenName]

theorem givenFiles_stepsFor :
    (stepsFor order diagnostics functionId).filterMap (·.givenFile) =
      (factLocations facts functionId ++
        (namedLocations diagnostics).filter (·.function = functionId)).filterMap fun location =>
          nonEmpty location.file := by
  simp [stepsFor_eq, factLocations, List.filterMap_append, List.filterMap_map,
    Contribution.givenFile]

theorem countP_stepsFor (counted : AccessFact → Bool) :
    (stepsFor order diagnostics functionId).countP (·.countedAccess counted) =
      facts.accesses.countP fun access => access.functionId = functionId ∧ counted access := by
  simp [stepsFor_eq, List.countP_append, List.countP_map, Function.comp_def,
    Contribution.countedAccess, List.countP_filter, and_comm]

theorem any_stepsFor :
    (stepsFor order diagnostics functionId).any (·.isDiagnostic) = true ↔
      NamedByDiagnostic diagnostics functionId := by
  simp [stepsFor_eq, List.any_append, List.any_map, Function.comp_def, Contribution.isDiagnostic,
    NamedByDiagnostic]

-- An iteration meets each function once.
theorem filter_entries :
    order.entries.filter (·.1 = functionId) =
      ((facts.reachableThreadEntriesByFunction functionId).map (Prod.mk functionId)).toList := by
  have hmem : ∀ entry, entry ∈ order.entries.filter (·.1 = functionId) ↔
      entry.1 = functionId ∧ facts.reachableThreadEntriesByFunction functionId = some entry.2 := by
    intro entry
    rw [List.mem_filter, order.mem_iff, decide_eq_true_eq, and_comm]
    exact and_congr_right fun h => by rw [h]
  cases hreached : facts.reachableThreadEntriesByFunction functionId with
  | none =>
      rw [Option.map_none, Option.toList_none, List.eq_nil_iff_forall_not_mem]
      intro entry h
      have hentry := ((hmem entry).mp h).2
      simp [hreached] at hentry
  | some entries =>
      have hnodup : (order.entries.filter (·.1 = functionId)).Nodup :=
        (List.Nodup.of_map Prod.fst order.nodup).filter _
      rw [Option.map_some, Option.toList_some, ← List.perm_singleton,
        List.perm_ext_iff_of_nodup hnodup (List.nodup_singleton _)]
      intro entry
      rw [hmem, hreached, List.mem_singleton, Option.some.injEq, Prod.ext_iff,
        eq_comm (a := entries)]

theorem givenEntries_stepsFor :
    ((stepsFor order diagnostics functionId).filterMap (·.givenEntries)).getLast?.getD [] =
      (facts.reachableThreadEntriesByFunction functionId).elim [] sortedThreadEntries := by
  have hgiven : (stepsFor order diagnostics functionId).filterMap (·.givenEntries) =
      (order.entries.filter (·.1 = functionId)).map fun entry => sortedThreadEntries entry.2 := by
    simp [stepsFor_eq, List.filterMap_append, List.filterMap_map,
      Contribution.givenEntries]
  rw [hgiven, filter_entries]
  cases facts.reachableThreadEntriesByFunction functionId <;> rfl

theorem stepsFor_ne_nil_iff :
    stepsFor order diagnostics functionId ≠ [] ↔ Reported facts diagnostics functionId := by
  rw [stepsFor_eq, filter_entries]
  simp only [ne_eq, List.append_eq_nil_iff, List.map_eq_nil_iff, List.filter_eq_nil_iff,
    Option.toList_eq_nil_iff, Option.map_eq_none_iff, decide_eq_true_eq, not_and_or, not_forall,
    not_not, or_assoc, exists_prop, Reported, HasAccesses, HasEntries, NamedByDiagnostic,
    Option.ne_none_iff_exists']

end Steps

@[simp] theorem fillCounts_hasDiagnostics (computed : Bool) (summary : FunctionSummary) :
    (fillCounts computed summary).hasDiagnostics = summary.hasDiagnostics := by
  cases computed <;> rfl

@[simp] theorem shownAs_fillCounts (computed : Bool) (summary : FunctionSummary) :
    shownAs (fillCounts computed summary) = shownAs summary := by
  cases computed <;> rfl

-- A count filled in says what its absence said.
theorem CarriesFacts.fillCounts {facts : TUFacts} {functionId : String} {summary : FunctionSummary}
    (h : CarriesFacts facts functionId summary) (computed : Bool) :
    CarriesFacts facts functionId (fillCounts computed summary) := by
  cases computed with
  | false => exact h
  | true => exact ⟨h.shared, h.guarded, h.write, h.entries⟩

section Summaries

variable {facts : TUFacts} {order : ReachableOrder facts} {diagnostics : List Diagnostic}
  {computed : Bool} {functionId : String} {summary : FunctionSummary}

theorem find_summariesById :
    (summariesById facts order diagnostics computed).find functionId =
      (written (stepsFor order diagnostics functionId) none).map (fillCounts computed) := by
  rw [summariesById, OrderedMap.find_mapValues, find_collectedFunctions]

theorem exists_find_iff :
    (∃ summary, (summariesById facts order diagnostics computed).find functionId = some summary) ↔
      Reported facts diagnostics functionId := by
  rw [← stepsFor_ne_nil_iff order, find_summariesById]
  cases List.eq_nil_or_concat (stepsFor order diagnostics functionId) with
  | inl hnil => simp [hnil, written]
  | inr h =>
      obtain ⟨steps, step, hsteps⟩ := h
      rw [List.concat_eq_append] at hsteps
      simp [hsteps, written_append_singleton]

-- What the steps left under an id, before the counts were filled in.
theorem exists_written
    (h : (summariesById facts order diagnostics computed).find functionId = some summary) :
    ∃ steps step, stepsFor order diagnostics functionId = steps ++ [step] ∧
      fillCounts computed (step.write (written steps none)) = summary := by
  rw [find_summariesById] at h
  cases List.eq_nil_or_concat (stepsFor order diagnostics functionId) with
  | inl hnil => simp [hnil, written] at h
  | inr hsteps =>
      obtain ⟨steps, step, hsteps⟩ := hsteps
      rw [List.concat_eq_append] at hsteps
      rw [hsteps, written_append_singleton, Option.map_some, Option.some.injEq] at h
      exact ⟨steps, step, hsteps, h⟩

theorem tells_of_steps {steps : List Contribution} {step : Contribution}
    (hsteps : stepsFor order diagnostics functionId = steps ++ [step]) :
    Tells (stepsFor order diagnostics functionId) (step.write (written steps none)) := by
  have htells := tells_written (stepsFor order diagnostics functionId)
  rwa [hsteps, written_append_singleton, Option.getD_some, ← hsteps] at htells

theorem shownAs_of_find
    (h : (summariesById facts order diagnostics computed).find functionId = some summary) :
    shownAs summary = (shownName facts functionId, shownFile facts diagnostics functionId) := by
  obtain ⟨steps, step, hsteps, rfl⟩ := exists_written h
  have hkey : ∀ other ∈ steps ++ [step], other.key = functionId := by
    intro other hother
    rw [← hsteps] at hother
    simpa using (List.mem_filter.mp hother).2
  have hnamed : ∀ other ∈ steps ++ [step], other.isDiagnostic → other.key ≠ "" := by
    intro other hother hdiagnostic
    rw [← hsteps] at hother
    exact key_ne_of_isDiagnostic (List.mem_filter.mp hother).1 hdiagnostic
  rw [shownAs_fillCounts, shownAs, name_written steps step hkey hnamed, ← hsteps,
    givenNames_stepsFor, (tells_of_steps hsteps).file, givenFiles_stepsFor]
  rfl

theorem carriesFacts_of_find
    (h : (summariesById facts order diagnostics computed).find functionId = some summary) :
    CarriesFacts facts functionId summary := by
  obtain ⟨steps, step, hsteps, rfl⟩ := exists_written h
  have htells := tells_of_steps hsteps
  refine CarriesFacts.fillCounts ⟨?_, ?_, ?_, ?_⟩ computed
  · rw [htells.shared, countP_stepsFor]
    simp
  · rw [htells.guarded, countP_stepsFor]
    simp
  · rw [htells.write, countP_stepsFor]
    simp
  · rw [htells.threadEntries, givenEntries_stepsFor]

theorem hasDiagnostics_of_find
    (h : (summariesById facts order diagnostics computed).find functionId = some summary) :
    summary.hasDiagnostics = true ↔ NamedByDiagnostic diagnostics functionId := by
  obtain ⟨steps, step, hsteps, rfl⟩ := exists_written h
  rw [fillCounts_hasDiagnostics, (tells_of_steps hsteps).hasDiagnostics, any_stepsFor]

theorem mem_buildFunctionSummaries :
    summary ∈ buildFunctionSummaries facts order diagnostics computed ↔
      ∃ functionId, (summariesById facts order diagnostics computed).find functionId =
        some summary := by
  rw [buildFunctionSummaries, List.mem_insertionSort, List.mem_map]
  simp only [OrderedMap.find_eq_some_iff, Prod.exists, exists_eq_right]

end Summaries

section OnePerFunction

variable (facts : TUFacts) (order : ReachableOrder facts) (diagnostics : List Diagnostic)
  (computed : Bool)

-- Each summary has a name and file of its own, and the one with the counts and thread entries of a
-- function that a diagnostic names says so. A diagnostic knows a function by the name and the file
-- that source locations give it, which `known` lists by id.
structure OneSummaryPerFunction (known : String → String × String) : Prop where
  apart : ((buildFunctionSummaries facts order diagnostics computed).map shownAs).Nodup
  flagged : ∀ location ∈ namedLocations diagnostics, ∀ functionId,
    HasAccesses facts functionId ∨ HasEntries facts functionId →
    known functionId = (location.function, location.file) →
    ∃ summary ∈ buildFunctionSummaries facts order diagnostics computed,
      (summariesById facts order diagnostics computed).find functionId = some summary ∧
      CarriesFacts facts functionId summary ∧ summary.hasDiagnostics = true

-- The facts show no two ids alike, and the id of a function a diagnostic names is itself the name
-- some diagnostic gives.
structure IdsMeetNames (known : String → String × String) : Prop where
  apart : ∀ functionId other, Reported facts diagnostics functionId →
    Reported facts diagnostics other → shownName facts functionId = shownName facts other →
    shownFile facts diagnostics functionId = shownFile facts diagnostics other →
    functionId = other
  named : ∀ location ∈ namedLocations diagnostics, ∀ functionId,
    HasAccesses facts functionId ∨ HasEntries facts functionId →
    known functionId = (location.function, location.file) →
    NamedByDiagnostic diagnostics functionId

theorem nodup_shownAs_iff :
    ((buildFunctionSummaries facts order diagnostics computed).map shownAs).Nodup ↔
      ∀ functionId other, Reported facts diagnostics functionId →
        Reported facts diagnostics other → shownName facts functionId = shownName facts other →
        shownFile facts diagnostics functionId = shownFile facts diagnostics other →
        functionId = other := by
  have hperm := (List.perm_insertionSort (fun lhs rhs : FunctionSummary =>
    toLex (shownAs lhs) ≤ toLex (shownAs rhs))
      ((summariesById facts order diagnostics computed).entries.map Prod.snd)).map shownAs
  rw [buildFunctionSummaries, hperm.nodup_iff, List.map_map, List.nodup_map_iff_inj_on
    (List.Nodup.of_map Prod.fst (OrderedMap.keys_nodup _))]
  constructor
  · intro hinj functionId other hid hother hname hfile
    obtain ⟨summary, hsummary⟩ := exists_find_iff.mpr hid
    obtain ⟨otherSummary, hotherSummary⟩ := exists_find_iff.mpr hother
    have hshown : shownAs summary = shownAs otherSummary := by
      rw [shownAs_of_find hsummary, shownAs_of_find hotherSummary, hname, hfile]
    rw [OrderedMap.find_eq_some_iff] at hsummary hotherSummary
    exact congrArg Prod.fst (hinj _ hsummary _ hotherSummary hshown)
  · rintro hapart ⟨functionId, summary⟩ hsummary ⟨other, otherSummary⟩ hotherSummary hshown
    rw [← OrderedMap.find_eq_some_iff] at hsummary hotherSummary
    have hshown : shownAs summary = shownAs otherSummary := hshown
    rw [shownAs_of_find hsummary, shownAs_of_find hotherSummary, Prod.mk.injEq] at hshown
    have hid := hapart functionId other (exists_find_iff.mp ⟨_, hsummary⟩)
      (exists_find_iff.mp ⟨_, hotherSummary⟩) hshown.1 hshown.2
    subst hid
    rw [hsummary, Option.some.injEq] at hotherSummary
    rw [hotherSummary]

theorem reported_of_facts {functionId : String}
    (h : HasAccesses facts functionId ∨ HasEntries facts functionId) :
    Reported facts diagnostics functionId := by
  rcases h with h | h
  · exact Or.inl h
  · exact Or.inr (Or.inr (Or.inl h))

theorem flagged_iff {functionId : String}
    (hfacts : HasAccesses facts functionId ∨ HasEntries facts functionId) :
    (∃ summary ∈ buildFunctionSummaries facts order diagnostics computed,
      (summariesById facts order diagnostics computed).find functionId = some summary ∧
      CarriesFacts facts functionId summary ∧ summary.hasDiagnostics = true) ↔
      NamedByDiagnostic diagnostics functionId := by
  constructor
  · rintro ⟨summary, _, hfind, _, hflag⟩
    exact (hasDiagnostics_of_find hfind).mp hflag
  · intro hnamed
    obtain ⟨summary, hfind⟩ := (@exists_find_iff facts order diagnostics computed functionId).mpr
      (reported_of_facts facts diagnostics hfacts)
    exact ⟨summary, mem_buildFunctionSummaries.mpr ⟨_, hfind⟩, hfind, carriesFacts_of_find hfind,
      (hasDiagnostics_of_find hfind).mpr hnamed⟩

-- Summaries are one a function exactly as long as the ids and the names of functions meet.
theorem one_summary_per_function_iff (known : String → String × String) :
    OneSummaryPerFunction facts order diagnostics computed known ↔
      IdsMeetNames facts diagnostics known := by
  constructor
  · intro h
    refine ⟨(nodup_shownAs_iff facts order diagnostics computed).mp h.apart, ?_⟩
    intro location hlocation functionId hfacts hknown
    exact (flagged_iff facts order diagnostics computed hfacts).mp
      (h.flagged location hlocation functionId hfacts hknown)
  · intro h
    refine ⟨(nodup_shownAs_iff facts order diagnostics computed).mpr h.apart, ?_⟩
    intro location hlocation functionId hfacts hknown
    exact (flagged_iff facts order diagnostics computed hfacts).mpr
      (h.named location hlocation functionId hfacts hknown)

end OnePerFunction

def workerLocation : SourceLocation where
  file := "a.cpp"
  line := 4
  column := 3
  function := "worker"

def workerAccess : AccessFact where
  symbol := "counter"
  functionId := "_Z6workerv"
  kind := .Write
  userLocation := workerLocation

def workerFacts : TUFacts := { accesses := [workerAccess] }

def workerDiagnostic : Diagnostic :=
  { Diagnostic.ofRule .DataRaceGlobal with location := workerLocation }

def noEntries : ReachableOrder workerFacts where
  entries := []
  nodup := List.nodup_nil
  mem_iff _ _ := by simp [workerFacts]

def countedWorker : FunctionSummary where
  file := "a.cpp"
  name := "worker"
  sharedAccessCount := some 1
  protectedAccessCount := some 0
  writeAccessCount := some 1

def flaggedWorker : FunctionSummary where
  file := "a.cpp"
  name := "worker"
  sharedAccessCount := some 0
  protectedAccessCount := some 0
  writeAccessCount := some 0
  hasDiagnostics := true

-- The counts of a function with a mangled id stand on one summary and the flag on another, both of
-- which show the same name and file.
theorem mangled_function_summarised_twice :
    buildFunctionSummaries workerFacts noEntries [workerDiagnostic] true =
      [countedWorker, flaggedWorker] ∧
      ¬OneSummaryPerFunction workerFacts noEntries [workerDiagnostic] true
        fun functionId => (shownName workerFacts functionId,
          shownFile workerFacts [workerDiagnostic] functionId) := by
  have hsummaries : buildFunctionSummaries workerFacts noEntries [workerDiagnostic] true =
      [countedWorker, flaggedWorker] := by decide +kernel
  refine ⟨hsummaries, fun h => ?_⟩
  have hnodup := h.apart
  rw [hsummaries] at hnodup
  simp [shownAs, countedWorker, flaggedWorker] at hnodup

end ConcurrencyAnalyzer.ReportBuilder
