import ConcurrencyAnalyzer.CrossTU.MergeOnce

namespace ConcurrencyAnalyzer.CrossTU

open FactsBuilder

structure CompileError where
  message : String
  deriving DecidableEq

structure FailedUnit where
  identifier : String
  error : CompileError
  deriving DecidableEq

-- What the workers of a pass write to.
structure ProjectState where
  factsByUnit : Nat → TUFacts := fun _ => {}
  failed : Nat → Bool := fun _ => false
  failures : List (Nat × FailedUnit) := []

structure ScheduledAnalysis where
  report : List Diagnostic := []
  skippedIncompatibleModules : List String := []
  reanalyzedUnitCount : Nat := 0
  failedUnits : List FailedUnit := []

section Workers

variable (rules : List RuleId) (units : List ProjectUnit) (errors : Pass → Nat → Option CompileError)

def failureOf (pass : Pass) (number : Nat) : Option FailedUnit :=
  units[number]?.bind fun unit => (errors pass number).map (⟨unit.identifier, ·⟩)

-- A failure takes the facts of an earlier pass away.
def factsAfter (pass : Pass) (program : ProgramSymbolIndex) (number : Nat) : TUFacts :=
  match units[number]?, errors pass number with
  | some unit, none => build unit.module (selectionFor rules) (some program)
  | _, _ => {}

-- One worker is done with one unit.
def analyseUnit (pass : Pass) (program : ProgramSymbolIndex) (state : ProjectState) (number : Nat) :
    ProjectState :=
  { factsByUnit := Function.update state.factsByUnit number
      (factsAfter rules units errors pass program number)
    failed :=
      if (failureOf units errors pass number).isSome then Function.update state.failed number true
      else state.failed
    failures := state.failures ++ ((failureOf units errors pass number).map (number, ·)).toList }

-- The workers are done with the units of a pass in some order.
def runPass (pass : Pass) (program : ProgramSymbolIndex) (order : List Nat) (state : ProjectState) :
    ProjectState :=
  order.foldl (analyseUnit rules units errors pass program) state

def loadedNumbers (state : ProjectState) : List Nat :=
  (List.range units.length).filter fun number => !state.failed number

def isCompatibleUnit (state : ProjectState) (number : Nat) : Bool :=
  (state.factsByUnit number).program.abiKey =
    dominantAbi ((loadedNumbers units state).map fun number =>
      (state.factsByUnit number).program.abiKey)

def compatibleNumbers (state : ProjectState) : List Nat :=
  (loadedNumbers units state).filter (isCompatibleUnit units state)

def skippedUnits (state : ProjectState) : List Nat :=
  (loadedNumbers units state).filter (!isCompatibleUnit units state ·)

def indexOf (state : ProjectState) : ProgramSymbolIndex :=
  (compatibleNumbers units state).foldl
    (fun index number => index.addUnit number (state.factsByUnit number)) {}

def reanalysedUnits (state : ProjectState) : List Nat :=
  (compatibleNumbers units state).filter fun number =>
    crossTUChangesFacts (state.factsByUnit number) (indexOf units state) (selectionFor rules)

variable (firstOrder secondOrder : List Nat)

def afterFirst : ProjectState :=
  runPass rules units errors .First {} firstOrder {}

def afterSecond : ProjectState :=
  let first := afterFirst rules units errors firstOrder
  runPass rules units errors .Second (indexOf units first) secondOrder first

-- The units whose findings the report takes.
def reportedUnits : List Nat :=
  (compatibleNumbers units (afterFirst rules units errors firstOrder)).filter fun number =>
    !(afterSecond rules units errors firstOrder secondOrder).failed number

def sortFailures (failures : List (Nat × FailedUnit)) : List (Nat × FailedUnit) :=
  failures.insertionSort fun lhs rhs => lhs.1 ≤ rhs.1

def identifierOf (number : Nat) : String :=
  units[number]?.elim "" (·.identifier)

-- With every unit failed, the source returns before it sorts the failures.
def analyseProject : ScheduledAnalysis :=
  let first := afterFirst rules units errors firstOrder
  let second := afterSecond rules units errors firstOrder secondOrder
  if (loadedNumbers units first).isEmpty then { failedUnits := first.failures.map Prod.snd }
  else
    { report := mergeReports ((reportedUnits rules units errors firstOrder secondOrder).map fun number =>
        finalizeReport (unitDiagnostics rules (second.factsByUnit number)))
      skippedIncompatibleModules := (skippedUnits units first).map (identifierOf units)
      reanalyzedUnitCount := (reanalysedUnits rules units first).length
      failedUnits := (sortFailures second.failures).map Prod.snd }

-- The orders the workers of the two passes may come to.
structure Scheduled : Prop where
  first : firstOrder.Perm (List.range units.length)
  second : secondOrder.Perm (reanalysedUnits rules units (afterFirst rules units errors firstOrder))

def failedNumbers : List Nat :=
  (afterSecond rules units errors firstOrder secondOrder).failures.map Prod.fst

-- A unit failed, was skipped or is reported, and only one of the three.
def EndsOnce (number : Nat) : Prop :=
  let failed := number ∈ failedNumbers rules units errors firstOrder secondOrder
  let skipped := number ∈ skippedUnits units (afterFirst rules units errors firstOrder)
  let reported := number ∈ reportedUnits rules units errors firstOrder secondOrder
  (failed ∧ ¬skipped ∧ ¬reported) ∨ (¬failed ∧ skipped ∧ ¬reported) ∨ (¬failed ∧ ¬skipped ∧ reported)

end Workers

-- The order the workers are done in shows nowhere.
structure OrderFree (rules : List RuleId) (units : List ProjectUnit)
    (errors : Pass → Nat → Option CompileError) : Prop where
  same : ∀ first second first' second', Scheduled rules units errors first second →
    Scheduled rules units errors first' second' →
    analyseProject rules units errors first second = analyseProject rules units errors first' second'
  ends : ∀ first second, Scheduled rules units errors first second →
    ∀ number < units.length, EndsOnce rules units errors first second number
  failedSecond : ∀ first second, Scheduled rules units errors first second →
    ∀ number ∈ second, (errors .Second number).isSome = true →
      number ∈ failedNumbers rules units errors first second ∧
        number ∉ reportedUnits rules units errors first second

-- Some unit loads, or nothing tells the failures apart.
def SomeLoadOrAllAlike (units : List ProjectUnit) (errors : Pass → Nat → Option CompileError) : Prop :=
  (∃ number < units.length, errors .First number = none) ∨
    ∀ number < units.length, ∀ other < units.length,
      failureOf units errors .First number = failureOf units errors .First other

section Pass

variable {rules : List RuleId} {units : List ProjectUnit} {errors : Pass → Nat → Option CompileError}
  {pass : Pass} {program : ProgramSymbolIndex}

theorem runPass_factsByUnit (order : List Nat) (state : ProjectState) (number : Nat) :
    (runPass rules units errors pass program order state).factsByUnit number =
      if number ∈ order then factsAfter rules units errors pass program number
      else state.factsByUnit number := by
  induction order generalizing state with
  | nil => simp [runPass]
  | cons next rest ih =>
      rw [runPass, List.foldl_cons, ← runPass, ih]
      by_cases hnext : number = next
      · subst hnext
        simp [analyseUnit]
      · simp [analyseUnit, hnext]

theorem runPass_failed (order : List Nat) (state : ProjectState) (number : Nat) :
    (runPass rules units errors pass program order state).failed number =
      (state.failed number ||
        (decide (number ∈ order) && (failureOf units errors pass number).isSome)) := by
  induction order generalizing state with
  | nil => simp [runPass]
  | cons next rest ih =>
      rw [runPass, List.foldl_cons, ← runPass, ih]
      by_cases hnext : number = next
      · subst hnext
        cases hfails : (failureOf units errors pass number).isSome <;> simp [analyseUnit, hfails]
      · cases hfails : (failureOf units errors pass next).isSome <;>
          simp [analyseUnit, hfails, hnext]

theorem runPass_failures (order : List Nat) (state : ProjectState) :
    (runPass rules units errors pass program order state).failures =
      state.failures ++ order.filterMap fun number =>
        (failureOf units errors pass number).map (number, ·) := by
  induction order generalizing state with
  | nil => simp [runPass]
  | cons next rest ih =>
      rw [runPass, List.foldl_cons, ← runPass, ih, List.filterMap_cons]
      cases hfails : failureOf units errors pass next <;> simp [analyseUnit, hfails]

end Pass

section Runs

variable {rules : List RuleId} {units : List ProjectUnit} {errors : Pass → Nat → Option CompileError}
  {first second first' second' : List Nat}

theorem failureOf_outside {pass : Pass} {number : Nat} (h : ¬number < units.length) :
    failureOf units errors pass number = none := by
  rw [failureOf, List.getElem?_eq_none (not_lt.mp h), Option.bind_none]

variable (errors) in
theorem failureOf_inside (pass : Pass) {number : Nat} (h : number < units.length) :
    (failureOf units errors pass number).isSome = (errors pass number).isSome := by
  rw [failureOf, List.getElem?_eq_getElem h, Option.bind_some, Option.isSome_map]

-- What the first pass leaves of a unit does not depend on when its worker was done.
theorem afterFirst_factsByUnit (h : first.Perm (List.range units.length)) :
    (afterFirst rules units errors first).factsByUnit = factsAfter rules units errors .First {} := by
  funext number
  rw [afterFirst, runPass_factsByUnit]
  by_cases hlt : number < units.length
  · rw [if_pos (h.mem_iff.mpr (List.mem_range.mpr hlt))]
  · rw [if_neg fun hmem => hlt (List.mem_range.mp (h.mem_iff.mp hmem)), factsAfter,
      List.getElem?_eq_none (not_lt.mp hlt)]

theorem afterFirst_failed (h : first.Perm (List.range units.length)) :
    (afterFirst rules units errors first).failed = fun number =>
      (failureOf units errors .First number).isSome := by
  funext number
  rw [afterFirst, runPass_failed, Bool.false_or]
  simp only [h.mem_iff, List.mem_range]
  by_cases hlt : number < units.length
  · simp [hlt]
  · simp [hlt, failureOf_outside hlt]

variable (rules units) in
theorem compatibleNumbers_congr {state other : ProjectState} (hfacts : state.factsByUnit = other.factsByUnit)
    (hfailed : state.failed = other.failed) :
    loadedNumbers units state = loadedNumbers units other ∧
      compatibleNumbers units state = compatibleNumbers units other ∧
      skippedUnits units state = skippedUnits units other ∧
      indexOf units state = indexOf units other ∧
      reanalysedUnits rules units state = reanalysedUnits rules units other := by
  have hloaded : loadedNumbers units state = loadedNumbers units other := by
    rw [loadedNumbers, hfailed, loadedNumbers]
  have hisCompatible : isCompatibleUnit units state = isCompatibleUnit units other := by
    funext number
    rw [isCompatibleUnit, hfacts, hloaded, isCompatibleUnit]
  have hcompatible : compatibleNumbers units state = compatibleNumbers units other := by
    rw [compatibleNumbers, hloaded, hisCompatible, compatibleNumbers]
  have hindex : indexOf units state = indexOf units other := by
    rw [indexOf, hcompatible, hfacts, indexOf]
  refine ⟨hloaded, hcompatible, ?_, hindex, ?_⟩
  · rw [skippedUnits, hloaded, hisCompatible, skippedUnits]
  · rw [reanalysedUnits, hcompatible, hfacts, hindex, reanalysedUnits]

variable (rules errors) in
theorem afterFirst_congr (h : first.Perm (List.range units.length))
    (h' : first'.Perm (List.range units.length)) :
    (afterFirst rules units errors first).factsByUnit =
        (afterFirst rules units errors first').factsByUnit ∧
      (afterFirst rules units errors first).failed = (afterFirst rules units errors first').failed := by
  rw [afterFirst_factsByUnit h, afterFirst_factsByUnit h', afterFirst_failed h, afterFirst_failed h']
  exact ⟨rfl, rfl⟩

variable (rules) in
theorem mem_loadedNumbers (h : first.Perm (List.range units.length)) {number : Nat} :
    number ∈ loadedNumbers units (afterFirst rules units errors first) ↔
      number < units.length ∧ failureOf units errors .First number = none := by
  rw [loadedNumbers, List.mem_filter, List.mem_range, afterFirst_failed h]
  simp

theorem mem_reanalysedUnits_loaded {state : ProjectState} {number : Nat}
    (h : number ∈ reanalysedUnits rules units state) : number ∈ compatibleNumbers units state ∧
      number ∈ loadedNumbers units state :=
  ⟨List.mem_of_mem_filter h, List.mem_of_mem_filter (List.mem_of_mem_filter h)⟩

-- A unit is in the list of failures once: who failed in the first pass is not in the second.
theorem failures_eq :
    (afterSecond rules units errors first second).failures =
      (first.filterMap fun number => (failureOf units errors .First number).map (number, ·)) ++
        second.filterMap fun number => (failureOf units errors .Second number).map (number, ·) := by
  rw [afterSecond, runPass_failures, afterFirst, runPass_failures]
  rfl

theorem map_fst_failing {pass : Pass} (numbers : List Nat) :
    (numbers.filterMap fun number => (failureOf units errors pass number).map (number, ·)).map Prod.fst =
      numbers.filter fun number => (failureOf units errors pass number).isSome := by
  induction numbers with
  | nil => rfl
  | cons number rest ih =>
      rw [List.filterMap_cons, List.filter_cons]
      cases hfails : failureOf units errors pass number with
      | none => simpa using ih
      | some failure => simpa using ih

theorem failedNumbers_eq :
    failedNumbers rules units errors first second =
      (first.filter fun number => (failureOf units errors .First number).isSome) ++
        second.filter fun number => (failureOf units errors .Second number).isSome := by
  rw [failedNumbers, failures_eq, List.map_append, map_fst_failing, map_fst_failing]

theorem second_loaded (hscheduled : Scheduled rules units errors first second) {number : Nat}
    (h : number ∈ second) : number ∈ compatibleNumbers units (afterFirst rules units errors first) ∧
      number < units.length ∧ failureOf units errors .First number = none := by
  obtain ⟨hcompatible, hloaded⟩ := mem_reanalysedUnits_loaded (hscheduled.second.mem_iff.mp h)
  exact ⟨hcompatible, (mem_loadedNumbers rules hscheduled.first).mp hloaded⟩

theorem failedNumbers_nodup (hscheduled : Scheduled rules units errors first second) :
    (failedNumbers rules units errors first second).Nodup := by
  have hfirst : first.Nodup := hscheduled.first.nodup_iff.mpr List.nodup_range
  have hsecond : second.Nodup := by
    rw [hscheduled.second.nodup_iff]
    exact ((List.nodup_range.filter _).filter _).filter _
  rw [failedNumbers_eq, List.nodup_append]
  refine ⟨hfirst.filter _, hsecond.filter _, ?_⟩
  rintro number hnumber other hother rfl
  have hfails := (List.mem_filter.mp hnumber).2
  rw [(second_loaded hscheduled (List.mem_of_mem_filter hother)).2.2] at hfails
  exact absurd hfails (by simp)

-- Sorting by distinct numbers leaves no trace of the order.
theorem sortFailures_perm {failures others : List (Nat × FailedUnit)} (h : failures.Perm others)
    (hdistinct : (failures.map Prod.fst).Nodup) : sortFailures failures = sortFailures others := by
  have hsorted (failures : List (Nat × FailedUnit)) :
      (sortFailures failures).Pairwise fun lhs rhs => lhs.1 ≤ rhs.1 :=
    List.pairwise_insertionSort _ failures
  have hperm (failures : List (Nat × FailedUnit)) : (sortFailures failures).Perm failures :=
    List.perm_insertionSort _ failures
  refine List.Perm.eq_of_pairwise ?_ (hsorted failures) (hsorted others)
    ((hperm failures).trans (h.trans (hperm others).symm))
  intro lhs rhs hlhs hrhs hle hge
  have hlhs := (hperm failures).mem_iff.mp hlhs
  have hrhs := h.mem_iff.mpr ((hperm others).mem_iff.mp hrhs)
  exact List.inj_on_of_nodup_map hdistinct hlhs hrhs (by omega)

theorem afterSecond_failed (hscheduled : Scheduled rules units errors first second) (number : Nat) :
    (afterSecond rules units errors first second).failed number =
      decide (number ∈ failedNumbers rules units errors first second) := by
  rw [afterSecond, runPass_failed, afterFirst_failed hscheduled.first, failedNumbers_eq]
  have hfirst : number ∈ first ∧ (failureOf units errors .First number).isSome = true ↔
      (failureOf units errors .First number).isSome = true := by
    refine ⟨fun h => h.2, fun h => ⟨?_, h⟩⟩
    rw [hscheduled.first.mem_iff, List.mem_range]
    by_contra hlt
    rw [failureOf_outside hlt] at h
    exact absurd h (by simp)
  rw [Bool.eq_iff_iff]
  simp [hfirst]

theorem scheduled_congr (hscheduled : Scheduled rules units errors first second)
    (hscheduled' : Scheduled rules units errors first' second') : second.Perm second' := by
  obtain ⟨hfacts, hfailed⟩ := afterFirst_congr rules errors hscheduled.first hscheduled'.first
  have hreanalysed := (compatibleNumbers_congr rules units hfacts hfailed).2.2.2.2
  refine hscheduled.second.trans ?_
  rw [hreanalysed]
  exact hscheduled'.second.symm

theorem failures_perm (hscheduled : Scheduled rules units errors first second)
    (hscheduled' : Scheduled rules units errors first' second') :
    (afterSecond rules units errors first second).failures.Perm
      (afterSecond rules units errors first' second').failures := by
  rw [failures_eq, failures_eq]
  exact ((hscheduled.first.trans hscheduled'.first.symm).filterMap _).append
    ((scheduled_congr hscheduled hscheduled').filterMap _)

theorem afterSecond_congr (hscheduled : Scheduled rules units errors first second)
    (hscheduled' : Scheduled rules units errors first' second') :
    (afterSecond rules units errors first second).factsByUnit =
        (afterSecond rules units errors first' second').factsByUnit ∧
      (afterSecond rules units errors first second).failed =
        (afterSecond rules units errors first' second').failed := by
  obtain ⟨hfacts, hfailed⟩ := afterFirst_congr rules errors hscheduled.first hscheduled'.first
  obtain ⟨_, _, _, hindex, _⟩ := compatibleNumbers_congr rules units hfacts hfailed
  have hsecond := scheduled_congr hscheduled hscheduled'
  constructor
  · funext number
    rw [afterSecond, afterSecond, runPass_factsByUnit, runPass_factsByUnit, hfacts, hindex]
    by_cases hmem : number ∈ second
    · rw [if_pos hmem, if_pos (hsecond.mem_iff.mp hmem)]
    · rw [if_neg hmem, if_neg fun h => hmem (hsecond.mem_iff.mpr h)]
  · funext number
    rw [afterSecond, afterSecond, runPass_failed, runPass_failed, hfailed]
    simp only [hsecond.mem_iff]

-- Where some unit loads, the order the workers are done in shows nowhere in the result.
theorem analyseProject_congr (hscheduled : Scheduled rules units errors first second)
    (hscheduled' : Scheduled rules units errors first' second')
    (hloads : ∃ number < units.length, errors .First number = none) :
    analyseProject rules units errors first second =
      analyseProject rules units errors first' second' := by
  obtain ⟨hfacts, hfailed⟩ := afterFirst_congr rules errors hscheduled.first hscheduled'.first
  obtain ⟨hloaded, hcompatible, hskipped, _, hreanalysed⟩ :=
    compatibleNumbers_congr rules units hfacts hfailed
  obtain ⟨hfacts', hfailed'⟩ := afterSecond_congr hscheduled hscheduled'
  have hfailures := sortFailures_perm (failures_perm hscheduled hscheduled')
    (failedNumbers_nodup hscheduled)
  have hreported : reportedUnits rules units errors first second =
      reportedUnits rules units errors first' second' := by
    rw [reportedUnits, hcompatible, hfailed', reportedUnits]
  have hsome : ¬(loadedNumbers units (afterFirst rules units errors first')).isEmpty = true := by
    obtain ⟨number, hlt, hnone⟩ := hloads
    have hmem : number ∈ loadedNumbers units (afterFirst rules units errors first') := by
      refine (mem_loadedNumbers rules hscheduled'.first).mpr ⟨hlt, ?_⟩
      have hfails := failureOf_inside errors .First hlt
      rw [hnone] at hfails
      simpa using hfails
    rw [List.isEmpty_iff]
    exact List.ne_nil_of_mem hmem
  simp only [analyseProject, hloaded, if_neg hsome, hreported, hfacts', hskipped, hreanalysed,
    hfailures]

theorem endsOnce (hscheduled : Scheduled rules units errors first second) {number : Nat}
    (hlt : number < units.length) : EndsOnce rules units errors first second number := by
  have hfailed := afterSecond_failed hscheduled number
  have hfirstFailed : ¬failureOf units errors .First number = none →
      number ∈ failedNumbers rules units errors first second := by
    intro hfails
    rw [failedNumbers_eq, List.mem_append, List.mem_filter, hscheduled.first.mem_iff, List.mem_range]
    exact .inl ⟨hlt, Option.isSome_iff_ne_none.mpr hfails⟩
  have hreported : number ∈ reportedUnits rules units errors first second ↔
      number ∈ compatibleNumbers units (afterFirst rules units errors first) ∧
        number ∉ failedNumbers rules units errors first second := by
    rw [reportedUnits, List.mem_filter, hfailed]
    simp
  unfold EndsOnce
  simp only [hreported]
  by_cases hloads : failureOf units errors .First number = none
  · have hloaded := (mem_loadedNumbers rules hscheduled.first).mpr ⟨hlt, hloads⟩
    simp only [compatibleNumbers, skippedUnits, List.mem_filter, hloaded, true_and]
    cases hcompatible : isCompatibleUnit units (afterFirst rules units errors first) number with
    | false =>
        have hnot : number ∉ failedNumbers rules units errors first second := by
          rw [failedNumbers_eq, List.mem_append, List.mem_filter, List.mem_filter, hloads]
          rintro (⟨_, hfails⟩ | ⟨hmem, _⟩)
          · exact absurd hfails (by simp)
          · have := (List.mem_filter.mp (second_loaded hscheduled hmem).1).2
            rw [hcompatible] at this
            exact absurd this (by simp)
        simp [hnot]
    | true =>
        by_cases hmem : number ∈ failedNumbers rules units errors first second
        · simp [hmem]
        · simp [hmem]
  · have hnotLoaded : number ∉ loadedNumbers units (afterFirst rules units errors first) := fun hmem =>
      hloads ((mem_loadedNumbers rules hscheduled.first).mp hmem).2
    refine .inl ⟨hfirstFailed hloads, ?_, ?_⟩
    · exact fun hmem => hnotLoaded (List.mem_of_mem_filter hmem)
    · exact fun hmem => hmem.2 (hfirstFailed hloads)

theorem failed_not_reported (hscheduled : Scheduled rules units errors first second) {number : Nat}
    (hmem : number ∈ second) (hfails : (errors .Second number).isSome = true) :
    number ∈ failedNumbers rules units errors first second ∧
      number ∉ reportedUnits rules units errors first second := by
  have hlt := (second_loaded hscheduled hmem).2.1
  have hfailed : number ∈ failedNumbers rules units errors first second := by
    rw [failedNumbers_eq, List.mem_append, List.mem_filter, List.mem_filter]
    exact .inr ⟨hmem, by rw [failureOf_inside errors .Second hlt, hfails]⟩
  refine ⟨hfailed, fun hreported => ?_⟩
  have hkept := (List.mem_filter.mp hreported).2
  rw [afterSecond_failed hscheduled] at hkept
  simp [hfailed] at hkept

theorem loadedNumbers_of_all_fail (h : first.Perm (List.range units.length))
    (hfail : ∀ number < units.length, errors .First number ≠ none) :
    loadedNumbers units (afterFirst rules units errors first) = [] := by
  rw [List.eq_nil_iff_forall_not_mem]
  intro number hmem
  obtain ⟨hlt, hloads⟩ := (mem_loadedNumbers rules h).mp hmem
  have hfails := failureOf_inside errors .First hlt
  rw [hloads] at hfails
  exact hfail number hlt (by simpa using hfails)

-- Where no unit loads, the failures stay in the order they came in.
theorem analyseProject_of_all_fail (h : first.Perm (List.range units.length))
    (hfail : ∀ number < units.length, errors .First number ≠ none) :
    analyseProject rules units errors first second =
      { failedUnits := first.filterMap (failureOf units errors .First) } := by
  have hempty : loadedNumbers units (afterFirst rules units errors first) = [] :=
    loadedNumbers_of_all_fail h hfail
  have hfailures : (afterFirst rules units errors first).failures.map Prod.snd =
      first.filterMap (failureOf units errors .First) := by
    rw [afterFirst, runPass_failures, List.nil_append, List.map_filterMap]
    congr 1
    funext number
    cases failureOf units errors .First number <;> rfl
  simp only [analyseProject, hempty, List.isEmpty_nil, if_true, hfailures]

theorem scheduled_of_all_fail (h : first.Perm (List.range units.length))
    (hfail : ∀ number < units.length, errors .First number ≠ none) :
    Scheduled rules units errors first [] where
  first := h
  second := by
    rw [reanalysedUnits, compatibleNumbers, loadedNumbers_of_all_fail h hfail]
    exact .nil

theorem perm_range_cons {number count : Nat} (h : number < count) :
    ∃ rest, (number :: rest).Perm (List.range count) :=
  ⟨(List.range count).erase number, (List.perm_cons_erase (List.mem_range.mpr h)).symm⟩

end Runs

-- The order of the workers shows nowhere exactly where some unit loads, or the units fail alike.
theorem scheduling_free_iff (rules : List RuleId) (units : List ProjectUnit)
    (errors : Pass → Nat → Option CompileError) :
    OrderFree rules units errors ↔ SomeLoadOrAllAlike units errors := by
  constructor
  · intro hfree
    by_cases hloads : ∃ number < units.length, errors .First number = none
    · exact .inl hloads
    · refine .inr fun number hnumber other hother => ?_
      have hfail : ∀ number < units.length, errors .First number ≠ none := fun number hlt hnone =>
        hloads ⟨number, hlt, hnone⟩
      obtain ⟨rest, hrest⟩ := perm_range_cons hnumber
      obtain ⟨rest', hrest'⟩ := perm_range_cons hother
      have hsame := hfree.same _ _ _ _ (scheduled_of_all_fail hrest hfail)
        (scheduled_of_all_fail hrest' hfail)
      rw [analyseProject_of_all_fail hrest hfail, analyseProject_of_all_fail hrest' hfail] at hsame
      have hfailures := congrArg (fun analysis => analysis.failedUnits.head?) hsame
      have hhead {number : Nat} (hlt : number < units.length) (rest : List Nat) :
          ((number :: rest).filterMap (failureOf units errors .First)).head? =
            failureOf units errors .First number := by
        have hsome : (failureOf units errors .First number).isSome = true := by
          rw [failureOf_inside errors .First hlt]
          exact Option.isSome_iff_ne_none.mpr (hfail number hlt)
        obtain ⟨failure, hfailure⟩ := Option.isSome_iff_exists.mp hsome
        simp [hfailure]
      rw [← hhead hnumber rest, ← hhead hother rest']
      exact hfailures
  · intro hcondition
    refine ⟨fun first second first' second' hscheduled hscheduled' => ?_,
      fun first second hscheduled number hlt => endsOnce hscheduled hlt,
      fun first second hscheduled number hmem hfails => failed_not_reported hscheduled hmem hfails⟩
    by_cases hloads : ∃ number < units.length, errors .First number = none
    · exact analyseProject_congr hscheduled hscheduled' hloads
    · have halike := hcondition.resolve_left hloads
      have hfail : ∀ number < units.length, errors .First number ≠ none := fun number hlt hnone =>
        hloads ⟨number, hlt, hnone⟩
      rw [analyseProject_of_all_fail hscheduled.first hfail,
        analyseProject_of_all_fail hscheduled'.first hfail]
      congr 1
      have hperm := (hscheduled.first.trans hscheduled'.first.symm).filterMap
        (failureOf units errors .First)
      have hall (order : List Nat) : (order.filterMap (failureOf units errors .First)).Pairwise
          fun _ _ => True := List.pairwise_of_forall fun _ _ => trivial
      refine hperm.eq_of_pairwise (fun failure other hfailure hother _ _ => ?_) (hall _) (hall _)
      obtain ⟨number, hnumber, hsome⟩ := List.mem_filterMap.mp hfailure
      obtain ⟨number', hnumber', hsome'⟩ := List.mem_filterMap.mp hother
      have hlt := List.mem_range.mp (hscheduled.first.mem_iff.mp hnumber)
      have hlt' := List.mem_range.mp (hscheduled'.first.mem_iff.mp hnumber')
      rw [halike number hlt number' hlt', hsome'] at hsome
      exact Option.some_inj.mp hsome.symm

-- Two units that fail differently, whose workers are done in either order.
theorem failures_in_worker_order :
    (analyseProject [.MissingJoin] [⟨"a.c", {}⟩, ⟨"b.c", {}⟩] (fun _ _ => some ⟨"bad bitcode"⟩)
        [0, 1] []).failedUnits.map (·.identifier) = ["a.c", "b.c"] ∧
      (analyseProject [.MissingJoin] [⟨"a.c", {}⟩, ⟨"b.c", {}⟩] (fun _ _ => some ⟨"bad bitcode"⟩)
        [1, 0] []).failedUnits.map (·.identifier) = ["b.c", "a.c"] ∧
      ¬OrderFree [.MissingJoin] [⟨"a.c", {}⟩, ⟨"b.c", {}⟩] fun _ _ => some ⟨"bad bitcode"⟩ := by
  have hfail : ∀ number < [(⟨"a.c", {}⟩ : ProjectUnit), ⟨"b.c", {}⟩].length,
      (fun (_ : Pass) (_ : Nat) => some (⟨"bad bitcode"⟩ : CompileError)) .First number ≠ none := by
    simp
  have hforward : [0, 1].Perm (List.range 2) := by decide
  have hbackward : [1, 0].Perm (List.range 2) := by decide
  refine ⟨by rw [analyseProject_of_all_fail hforward hfail]; rfl,
    by rw [analyseProject_of_all_fail hbackward hfail]; rfl, fun hfree => ?_⟩
  have hsame := hfree.same _ _ _ _ (scheduled_of_all_fail hforward hfail)
    (scheduled_of_all_fail hbackward hfail)
  rw [analyseProject_of_all_fail hforward hfail, analyseProject_of_all_fail hbackward hfail] at hsame
  have hnames := congrArg (fun analysis => analysis.failedUnits.map (·.identifier)) hsame
  exact absurd hnames (by decide)

end ConcurrencyAnalyzer.CrossTU
