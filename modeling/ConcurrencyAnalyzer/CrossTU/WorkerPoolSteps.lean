import ConcurrencyAnalyzer.CrossTU.WorkerPool

namespace ConcurrencyAnalyzer.CrossTU

open FactsBuilder Library.PeakGauge

namespace WorkerPhase

-- The unit is marked as failed, and not in the list of failures yet.
def marks (number : Nat) : WorkerPhase → Bool
  | Clearing other | Reading other | Writing other _ => other = number
  | _ => false

def clears (number : Nat) : WorkerPhase → Bool
  | Reading other | Writing other _ => other = number
  | _ => false

-- The way the worker took after loading is the way the load went.
def FollowsLoad (errors : Pass → Nat → Option CompileError) (pass : Pass) : WorkerPhase → Prop
  | Analysing number => errors pass number = none
  | Failing number | Marking number | Clearing number | Reading number | Writing number _ =>
      errors pass number ≠ none
  | _ => True

-- Nobody else wrote the list of failures since the worker read it.
def HasRead (failures : List (Nat × FailedUnit)) : WorkerPhase → Prop
  | Writing _ read => read = failures
  | _ => True

theorem owes_of_clears {phase : WorkerPhase} {number : Nat} (h : phase.clears number = true) :
    phase.owes = some number := by
  cases phase <;> simp_all [clears, owes]

theorem holdsFailureLock_of_not_hasRead {phase : WorkerPhase} {failures : List (Nat × FailedUnit)}
    (h : phase.holdsFailureLock = false) : phase.HasRead failures := by
  cases phase <;> simp_all [holdsFailureLock, HasRead]

end WorkerPhase

def owed (workers : List WorkerPhase) : List Nat :=
  workers.filterMap WorkerPhase.owes

-- What the shared memory holds over what the finished units left there: the marks of the workers
-- that are on their way to the list of failures.
def inFlight (workers : List WorkerPhase) (project : ProjectState) : ProjectState where
  factsByUnit number :=
    if workers.any fun phase => phase.clears number then {} else project.factsByUnit number
  failed number := project.failed number || workers.any fun phase => phase.marks number
  failures := project.failures

section Steps

variable {rules : List RuleId} {units : List ProjectUnit} {errors : Pass → Nat → Option CompileError}
  {pass : Pass} {program : ProgramSymbolIndex} {memory next : PoolMemory} {phase after : WorkerPhase}
  {finished : Option Nat} {front back : List WorkerPhase}

theorem WorkerStep.gauge_cases (h : WorkerStep rules units errors pass program memory phase finished next after) :
    Move memory.gauge phase.visit next.gauge after.visit ∨
      next.gauge = memory.gauge ∧ after.visit = phase.visit := by
  cases h with
  | enter => exact .inl .count
  | readPeak => exact .inl .read
  | exchange hlt => exact .inl (.exchange hlt)
  | lose hlt => exact .inl (.lose hlt)
  | reach hle => exact .inl (.reach hle)
  | leave => exact .inl .leave
  | take _ | load _ | loadFails _ | build | lock _ | mark | clear | read | write | unlock =>
      exact .inr ⟨rfl, rfl⟩

-- A unit goes from the queue to a worker and from there to the finished ones, and is never lost.
theorem WorkerStep.owes_count (h : WorkerStep rules units errors pass program memory phase finished next after)
    (number : Nat) :
    finished.toList.count number + after.owes.toList.count number + next.queue.count number =
      phase.owes.toList.count number + memory.queue.count number := by
  cases h with
  | take hqueue =>
      rw [hqueue, List.count_cons]
      simp only [WorkerPhase.owes, Option.toList_none, Option.toList_some, List.count_nil,
        List.count_singleton, beq_iff_eq]
      omega
  | _ => simp [WorkerPhase.owes]

theorem WorkerStep.lock_eq (h : WorkerStep rules units errors pass program memory phase finished next after)
    {rest : Nat}
    (hlock : rest + (if phase.holdsFailureLock then 1 else 0) = if memory.failureLock then 1 else 0) :
    rest + (if after.holdsFailureLock then 1 else 0) = if next.failureLock then 1 else 0 := by
  cases h with
  | lock hfree => simpa [WorkerPhase.holdsFailureLock, hfree] using hlock
  | unlock =>
      simp only [WorkerPhase.holdsFailureLock, if_true, if_false, Bool.false_eq_true] at hlock ⊢
      split at hlock <;> omega
  | _ => simpa [WorkerPhase.holdsFailureLock] using hlock

theorem WorkerStep.followsLoad (h : WorkerStep rules units errors pass program memory phase finished next after)
    (hfollows : phase.FollowsLoad errors pass) : after.FollowsLoad errors pass := by
  cases h with
  | load hloads => exact hloads
  | loadFails hfails => exact hfails
  | lock _ | mark | clear | read => exact hfollows
  | _ => trivial

-- Only the holder of the lock writes the list of failures.
theorem WorkerStep.failures_cases
    (h : WorkerStep rules units errors pass program memory phase finished next after) :
    phase.holdsFailureLock = true ∧ (∀ failures, after.HasRead failures) ∨
      next.project.failures = memory.project.failures ∧
        (phase.HasRead memory.project.failures → after.HasRead next.project.failures) := by
  cases h with
  | write => exact .inl ⟨rfl, fun _ => trivial⟩
  | read => exact .inr ⟨rfl, fun _ => rfl⟩
  | _ => exact .inr ⟨rfl, fun _ => trivial⟩

theorem any_middle (test : WorkerPhase → Bool) :
    (front ++ phase :: back).any test = (test phase || (front ++ back).any test) := by
  simp only [List.any_append, List.any_cons]
  cases test phase <;> simp

theorem inFlight_congr (project : ProjectState)
    (hclears : ∀ number, phase.clears number = after.clears number)
    (hmarks : ∀ number, phase.marks number = after.marks number) :
    inFlight (front ++ phase :: back) project = inFlight (front ++ after :: back) project := by
  simp only [inFlight, any_middle, hclears, hmarks]

-- The state of a project is what its fields are.
theorem projectState_ext {project other : ProjectState}
    (hfacts : ∀ number, project.factsByUnit number = other.factsByUnit number)
    (hfailed : ∀ number, project.failed number = other.failed number)
    (hfailures : project.failures = other.failures) : project = other := by
  obtain ⟨facts, failed, failures⟩ := project
  obtain ⟨facts', failed', failures'⟩ := other
  obtain rfl : facts = facts' := funext hfacts
  obtain rfl : failed = failed' := funext hfailed
  obtain rfl : failures = failures' := hfailures
  rfl

-- The finished units in the order the workers were done with them are the atomic steps of a pass.
theorem WorkerStep.simulates (h : WorkerStep rules units errors pass program memory phase finished next after)
    {project : ProjectState} (hmemory : memory.project = inFlight (front ++ phase :: back) project)
    (hfollows : phase.FollowsLoad errors pass) (hread : phase.HasRead memory.project.failures)
    (hinside : ∀ number, phase.owes = some number → number < units.length)
    (halone : ∀ number, phase.owes = some number → number ∉ owed (front ++ back)) :
    next.project = inFlight (front ++ after :: back)
      (finished.toList.foldl (analyseUnit rules units errors pass program) project) := by
  have hcleared (number : Nat) (howes : phase.owes = some number) :
      (front ++ back).any (fun phase => phase.clears number) = false := by
    rw [List.any_eq_false]
    intro other hother hclears
    exact halone number howes
      (List.mem_filterMap.mpr ⟨other, hother, WorkerPhase.owes_of_clears hclears⟩)
  cases h with
  | build =>
      rename_i number
      have hloads : failureOf units errors pass number = none := by
        rw [failureOf, show errors pass number = none from hfollows]
        cases units[number]? <;> rfl
      have hfree := hcleared number rfl
      simp only [Option.toList_some, List.foldl_cons, List.foldl_nil]
      refine projectState_ext (fun other => ?_) (fun other => ?_) ?_
      · have hbefore : (WorkerPhase.Analysing number).clears other = false := rfl
        have hafter : WorkerPhase.Leaving.clears other = false := rfl
        simp only [hmemory, inFlight, analyseUnit, any_middle, hafter, Bool.false_or]
        by_cases hother : other = number
        · subst hother
          rw [hfree, if_neg Bool.false_ne_true]
          simp
        · simp [hother, hbefore]
      · simp [hmemory, inFlight, analyseUnit, hloads, WorkerPhase.marks]
      · simp [hmemory, inFlight, analyseUnit, hloads]
  | mark =>
      rename_i number
      simp only [Option.toList_none, List.foldl_nil]
      refine projectState_ext (fun other => ?_) (fun other => ?_) ?_
      · simp only [hmemory, inFlight, any_middle, WorkerPhase.clears]
      · simp only [hmemory, inFlight, any_middle, WorkerPhase.marks, Bool.false_or]
        by_cases hother : other = number
        · simp [hother]
        · simp [hother, Ne.symm hother]
      · simp [hmemory, inFlight]
  | clear =>
      rename_i number
      simp only [Option.toList_none, List.foldl_nil]
      refine projectState_ext (fun other => ?_) (fun other => ?_) ?_
      · simp only [hmemory, inFlight, any_middle, WorkerPhase.clears, Bool.false_or]
        by_cases hother : other = number
        · simp [hother]
        · simp [hother, Ne.symm hother]
      · simp only [hmemory, inFlight, any_middle, WorkerPhase.marks]
      · simp [hmemory, inFlight]
  | write =>
      rename_i number read
      have hlt := hinside number rfl
      have hfails : (failureOf units errors pass number).isSome = true := by
        rw [failureOf_inside errors pass hlt]
        exact Option.isSome_iff_ne_none.mpr hfollows
      have hempty : factsAfter rules units errors pass program number = {} := by
        obtain ⟨error, herror⟩ := Option.ne_none_iff_exists'.mp hfollows
        rw [factsAfter, herror]
        cases units[number]? <;> rfl
      simp only [Option.toList_some, List.foldl_cons, List.foldl_nil]
      refine projectState_ext (fun other => ?_) (fun other => ?_) ?_
      · simp only [hmemory, inFlight, analyseUnit, any_middle, WorkerPhase.clears, Bool.false_or, hempty]
        by_cases hother : other = number
        · simp [hother]
        · simp [hother, Ne.symm hother]
      · simp only [hmemory, inFlight, analyseUnit, any_middle, WorkerPhase.marks, Bool.false_or, hfails,
          if_true]
        by_cases hother : other = number
        · simp [hother]
        · simp [hother, Ne.symm hother]
      · rw [show read = memory.project.failures from hread, hmemory]
        simp [inFlight, analyseUnit]
  | _ => exact hmemory.trans (inFlight_congr project (fun _ => rfl) (fun _ => rfl))

end Steps

end ConcurrencyAnalyzer.CrossTU
