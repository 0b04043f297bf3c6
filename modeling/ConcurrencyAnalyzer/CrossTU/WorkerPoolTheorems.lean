import ConcurrencyAnalyzer.CrossTU.WorkerPoolRuns
import Mathlib.Algebra.BigOperators.Group.List.Basic

namespace ConcurrencyAnalyzer.CrossTU

open FactsBuilder Library.PeakGauge

section Ends

variable {rules : List RuleId} {units : List ProjectUnit} {errors : Pass → Nat → Option CompileError}
  {pass : Pass} {program : ProgramSymbolIndex} {wants : TUFacts → Bool}
  {initial state next : PoolState} {done : List Nat} {finished : Option Nat}

-- The operations a worker has left for its unit, at most, in a pool of so many threads.
def WorkerPhase.left (threads : Nat) : WorkerPhase → Nat
  | Idle => 0
  | Taken _ => threads + 11
  | Counted _ _ => threads + 10
  | Raising _ now seen => 9 + (now - seen)
  | Loading _ => 8
  | Analysing _ | Failing _ => 7
  | Marking _ => 6
  | Clearing _ => 5
  | Reading _ => 4
  | Writing _ _ => 3
  | Unlocking => 2
  | Leaving => 1

def PoolState.left (state : PoolState) : Nat :=
  let threads := state.workers.length
  state.pending.length * (threads + 13) + state.queue.length * (threads + 12) +
    (state.workers.map (WorkerPhase.left threads)).sum

-- An operation of a worker takes it closer to the end, or is an exchange that failed for nothing.
theorem WorkerStep.left_lt {memory after : PoolMemory} {phase later : WorkerPhase} {threads : Nat}
    (h : WorkerStep rules units errors pass program memory phase finished after later)
    (hseen : ∀ now seen, phase.visit = .Raising now seen → seen ≤ memory.gauge.peak)
    (hannounced : phase.visit.announced ≤ threads) :
    after.queue.length * (threads + 12) + later.left threads <
        memory.queue.length * (threads + 12) + phase.left threads ∨
      after = memory ∧ later = phase := by
  cases h with
  | take hqueue =>
      refine .inl ?_
      rw [hqueue, List.length_cons, Nat.add_mul]
      simp only [WorkerPhase.left]
      omega
  | readPeak =>
      rename_i number now
      have hnow : now ≤ threads := hannounced
      refine .inl ?_
      simp only [WorkerPhase.left]
      omega
  | lose hlt =>
      rename_i number now seen
      rcases Move.lose_cases hlt (hseen now seen rfl) with hsame | hless
      · cases hsame
        exact .inr ⟨rfl, rfl⟩
      · refine .inl ?_
        simp only [WorkerPhase.left]
        omega
  | _ =>
      refine .inl ?_
      simp only [WorkerPhase.left]
      omega

theorem PoolStep.left_lt (hopened : Opened units initial) {most : Nat}
    (hrun : PoolRun rules units errors pass program wants initial done most state)
    (hpeak : initial.gauge.peak ≤ initial.workers.length)
    (hstep : PoolStep rules units errors pass program wants state finished next) :
    next.left < state.left ∨ next = state := by
  cases hstep with
  | submit hrest _ =>
      refine .inl ?_
      simp only [PoolState.left, hrest, List.length_cons, List.length_append, List.length_nil, Nat.add_mul]
      omega
  | pass hrest _ =>
      refine .inl ?_
      simp only [PoolState.left, hrest, List.length_cons, Nat.add_mul]
      omega
  | work hworkers hwork =>
      rename_i front phase back memory after
      have haccurate := hrun.accurate hopened
      have hmember : phase.visit ∈ state.workers.map WorkerPhase.visit :=
        List.mem_map.mpr ⟨phase, by simp [hworkers], rfl⟩
      have hannounced : phase.visit.announced ≤ state.workers.length := by
        have hle := haccurate.announced_le _ hmember
        have hmost := hrun.most_le hopened
        have hsize := (hrun.consistent hopened).size
        omega
      rcases hwork.left_lt (fun now seen hvisit => haccurate.seen_le now seen (hvisit ▸ hmember))
        hannounced with hless | ⟨rfl, rfl⟩
      · refine .inl ?_
        have hlength : (front ++ after :: back).length = state.workers.length := by simp [hworkers]
        simp only [PoolState.left, hlength]
        rw [hworkers] at hless ⊢
        simp only [List.map_append, List.map_cons, List.sum_append, List.sum_cons] at hless ⊢
        omega
      · refine .inr ?_
        rw [← hworkers]

variable (rules units errors pass program) in
-- A worker in the middle of a unit has an operation to do, unless it waits for the lock.
theorem WorkerPhase.exists_step {phase : WorkerPhase} (memory : PoolMemory) (hbusy : phase.isIdle = false)
    (hfree : memory.failureLock = true → phase.holdsFailureLock = true)
    (hseen : ∀ now seen, phase.visit = .Raising now seen → seen ≤ memory.gauge.peak) :
    ∃ finished after later,
      WorkerStep rules units errors pass program memory phase finished after later ∧
        (after ≠ memory ∨ later ≠ phase) := by
  cases phase with
  | Idle => cases hbusy
  | Taken number => exact ⟨_, _, _, .enter, .inr (by simp)⟩
  | Counted number now => exact ⟨_, _, _, .readPeak, .inr (by simp)⟩
  | Raising number now seen =>
      by_cases hlt : seen < now
      · rcases (hseen now seen rfl).eq_or_lt with rfl | hless
        · exact ⟨_, _, _, .exchange hlt, .inr (by simp)⟩
        · refine ⟨_, _, _, .lose hlt, .inr ?_⟩
          simp only [ne_eq, WorkerPhase.Raising.injEq, true_and]
          omega
      · exact ⟨_, _, _, .reach (Nat.not_lt.mp hlt), .inr (by simp)⟩
  | Loading number =>
      by_cases hloads : errors pass number = none
      · exact ⟨_, _, _, .load hloads, .inr (by simp)⟩
      · exact ⟨_, _, _, .loadFails hloads, .inr (by simp)⟩
  | Analysing number => exact ⟨_, _, _, .build, .inr (by simp)⟩
  | Failing number =>
      have hunlocked : memory.failureLock = false := by
        cases hlock : memory.failureLock with
        | false => rfl
        | true => exact absurd (hfree hlock) (by simp [WorkerPhase.holdsFailureLock])
      exact ⟨_, _, _, .lock hunlocked, .inr (by simp)⟩
  | Marking number => exact ⟨_, _, _, .mark, .inr (by simp)⟩
  | Clearing number => exact ⟨_, _, _, .clear, .inr (by simp)⟩
  | Reading number => exact ⟨_, _, _, .read, .inr (by simp)⟩
  | Writing number read => exact ⟨_, _, _, .write, .inr (by simp)⟩
  | Unlocking => exact ⟨_, _, _, .unlock, .inr (by simp)⟩
  | Leaving => exact ⟨_, _, _, .leave, .inr (by simp)⟩

private theorem append_cons_ne {front back : List WorkerPhase} {phase after : WorkerPhase}
    (h : after ≠ phase) : front ++ after :: back ≠ front ++ phase :: back := by
  intro hsame
  rw [List.append_cancel_left_eq, List.cons.injEq] at hsame
  exact h hsame.1

-- No state of a pool that is still to be waited for is a deadlock.
theorem PoolRun.exists_step (hopened : Opened units initial) {most : Nat}
    (hrun : PoolRun rules units errors pass program wants initial done most state)
    (hworkers : initial.workers ≠ []) (hbusy : ¬state.Waited) :
    ∃ finished next, PoolStep rules units errors pass program wants state finished next ∧ next ≠ state := by
  have hconsistent := hrun.consistent hopened
  have haccurate := hrun.accurate hopened
  have hwork {phase : WorkerPhase} (hmem : phase ∈ state.workers) (hrunning : phase.isIdle = false)
      (hfree : state.failureLock = true → phase.holdsFailureLock = true) :
      ∃ finished next,
        PoolStep rules units errors pass program wants state finished next ∧ next ≠ state := by
    obtain ⟨front, back, hsplit⟩ := List.append_of_mem hmem
    obtain ⟨finished, after, later, hstep, hchanged⟩ := WorkerPhase.exists_step rules units errors pass
      program state.toPoolMemory hrunning hfree fun now seen hvisit =>
        haccurate.seen_le now seen (hvisit ▸ List.mem_map.mpr ⟨phase, hmem, rfl⟩)
    refine ⟨finished, _, .work hsplit hstep, fun hsame => ?_⟩
    rcases hchanged with hmemory | hphase
    · exact hmemory (congrArg PoolState.toPoolMemory hsame)
    · have hlists := congrArg PoolState.workers hsame
      rw [hsplit] at hlists
      exact append_cons_ne hphase hlists
  cases hpending : state.pending with
  | cons number rest =>
      have hshort (other : PoolState) (h : other.pending = rest) : other ≠ state := by
        rintro rfl
        rw [hpending] at h
        exact absurd h (by simp)
      cases hwants : wants (state.project.factsByUnit number) with
      | true => exact ⟨_, _, .submit hpending hwants, hshort _ rfl⟩
      | false => exact ⟨_, _, .pass hpending hwants, hshort _ rfl⟩
  | nil =>
      by_cases hidle : ∀ phase ∈ state.workers, phase.isIdle = true
      · -- Every worker is idle, so that one of them may take the next unit.
        cases hqueue : state.queue with
        | nil => exact absurd ⟨hpending, hqueue, hidle⟩ hbusy
        | cons number rest =>
            have hsome : state.workers ≠ [] := by
              intro hnone
              have hsize := hconsistent.size
              rw [hnone] at hsize
              exact hworkers (List.eq_nil_of_length_eq_zero hsize.symm)
            obtain ⟨phase, others, hsplit⟩ := List.exists_cons_of_ne_nil hsome
            have hphase : phase = .Idle := by
              have hphase := hidle phase (by simp [hsplit])
              cases phase <;> simp_all [WorkerPhase.isIdle]
            have hfirst : state.workers = [] ++ .Idle :: others := by rw [hsplit, hphase, List.nil_append]
            refine ⟨none, _, .work hfirst (.take hqueue), ?_⟩
            intro hsame
            have hqueues := congrArg (fun state : PoolState => state.queue) hsame
            simp [hqueue] at hqueues
      · simp only [not_forall, Bool.not_eq_true] at hidle
        obtain ⟨phase, hmem, hrunning⟩ := hidle
        cases hlock : state.failureLock with
        | false => exact hwork hmem hrunning (by simp [hlock])
        | true =>
            -- Somebody holds the lock, and does not wait for it.
            have hone := hconsistent.exclusive
            rw [if_pos hlock] at hone
            have hpositive : 0 < state.workers.countP WorkerPhase.holdsFailureLock := by omega
            obtain ⟨holder, hholder, hholds⟩ := List.countP_pos_iff.mp hpositive
            refine hwork hholder ?_ fun _ => hholds
            cases holder <;> simp_all [WorkerPhase.holdsFailureLock, WorkerPhase.isIdle]

-- From any state of a run, the pool can be waited for.
theorem PoolRun.finishes (hopened : Opened units initial) (hworkers : initial.workers ≠ [])
    (hpeak : initial.gauge.peak ≤ initial.workers.length) {most : Nat}
    (hrun : PoolRun rules units errors pass program wants initial done most state) :
    ∃ later last final, PoolRun rules units errors pass program wants initial (done ++ later) last final ∧
      final.Waited := by
  induction hleft : state.left using Nat.strong_induction_on generalizing done most state with
  | _ left ih =>
      by_cases hwaited : state.Waited
      · exact ⟨[], most, state, by rwa [List.append_nil], hwaited⟩
      · obtain ⟨finished, next, hstep, hchanged⟩ := hrun.exists_step hopened hworkers hwaited
        have hless := (hstep.left_lt hopened hrun hpeak).resolve_right hchanged
        obtain ⟨later, last, final, hfinal, hend⟩ := ih next.left (by omega) (hrun.step hstep) rfl
        refine ⟨finished.toList ++ later, last, final, ?_, hend⟩
        rwa [← List.append_assoc]

-- A pool can always be waited for, and whatever the threads do, from some moment on nothing happens
-- but exchanges that fail for nothing.
theorem pool_ends (hopened : Opened units initial) (hworkers : initial.workers ≠ [])
    (hpeak : initial.gauge.peak ≤ initial.workers.length) {most : Nat}
    (hrun : PoolRun rules units errors pass program wants initial done most state) :
    (∃ later last final, PoolRun rules units errors pass program wants initial (done ++ later) last final ∧
      final.Waited) ∧
    ∀ states : Nat → PoolState, states 0 = state →
      (∀ moment, ∃ finished, PoolStep rules units errors pass program wants (states moment) finished
        (states (moment + 1))) →
      ∃ settled, ∀ moment ≥ settled, states (moment + 1) = states moment := by
  refine ⟨hrun.finishes hopened hworkers hpeak, ?_⟩
  intro states hstart hsteps
  have hreached : ∀ moment, ∃ done most,
      PoolRun rules units errors pass program wants initial done most (states moment) := by
    intro moment
    induction moment with
    | zero => exact ⟨done, most, by rwa [hstart]⟩
    | succ moment ih =>
        obtain ⟨done, most, hbefore⟩ := ih
        obtain ⟨finished, hstep⟩ := hsteps moment
        exact ⟨_, _, hbefore.step hstep⟩
  have hdrop (moment : Nat) :
      (states (moment + 1)).left < (states moment).left ∨ states (moment + 1) = states moment := by
    obtain ⟨done, most, hbefore⟩ := hreached moment
    obtain ⟨finished, hstep⟩ := hsteps moment
    exact hstep.left_lt hopened hbefore hpeak
  -- What is left only falls: at its least value nothing changes any more.
  have hfalls : ∀ moment later, moment ≤ later → (states later).left ≤ (states moment).left := by
    intro moment later hle
    induction later, hle using Nat.le_induction with
    | base => exact le_rfl
    | succ later _ ih =>
        rcases hdrop later with hless | hsame
        · omega
        · rw [hsame]
          exact ih
  by_contra hnever
  have hagain : ∀ moment, ∃ later, moment ≤ later ∧ (states (later + 1)).left < (states later).left := by
    intro moment
    by_contra hnone
    refine hnever ⟨moment, fun later hle => ?_⟩
    rcases hdrop later with hless | hsame
    · exact absurd ⟨later, hle, hless⟩ hnone
    · exact hsame
  have hbelow : ∀ bound, ∃ moment, (states moment).left + bound ≤ (states 0).left := by
    intro bound
    induction bound with
    | zero => exact ⟨0, le_rfl⟩
    | succ bound ih =>
        obtain ⟨moment, hle⟩ := ih
        obtain ⟨later, hlater, hless⟩ := hagain moment
        have := hfalls moment later hlater
        exact ⟨later + 1, by omega⟩
  obtain ⟨moment, hle⟩ := hbelow ((states 0).left + 1)
  omega

end Ends

section Projects

variable {rules : List RuleId} {units : List ProjectUnit} {errors : Pass → Nat → Option CompileError}

theorem openPool_opened (threads : Nat) {pending : List Nat} {gauge : Gauge} (project : ProjectState)
    (hlive : gauge.live = 0) (hnodup : pending.Nodup) (hinside : ∀ number ∈ pending, number < units.length) :
    Opened units (openPool threads pending gauge project) where
  idle := fun _ hmem => List.eq_of_mem_replicate hmem
  queue := rfl
  failureLock := rfl
  submitted := rfl
  live := hlive
  nodup := hnodup
  inside := hinside

theorem pool_ends_two_workers :
    ∃ later last final, PoolRun [.MissingJoin] [⟨"a.c", {}⟩, ⟨"b.c", {}⟩] (fun _ _ => none) .First {}
      (fun _ => true) (openPool 2 [0, 1] {} {}) ([] ++ later) last final ∧ final.Waited :=
  (pool_ends (openPool_opened 2 {} rfl (by decide) (by decide)) (by simp [openPool]) (by simp [openPool])
    .start).1

theorem firstPool_opened (threads : Nat) :
    Opened units (openPool threads (List.range units.length) {} {}) :=
  openPool_opened threads {} rfl List.nodup_range fun _ => List.mem_range.mp

theorem secondPool_opened (threads : Nat) {gauge : Gauge} (project : ProjectState) (hlive : gauge.live = 0) :
    Opened units (openPool threads (compatibleNumbers units project) gauge project) := by
  refine openPool_opened threads project hlive ((List.nodup_range.filter _).filter _) fun number hmem => ?_
  exact List.mem_range.mp (List.mem_of_mem_filter (List.mem_of_mem_filter hmem))

variable {threads : Nat} (run : ProjectRun rules units errors threads)

theorem ProjectRun.first_eq :
    run.first.project = afterFirst rules units errors run.firstDone ∧
      run.firstDone.Perm (List.range units.length) := by
  obtain ⟨hproject, hperm, -⟩ := run.firstRun.waited (firstPool_opened threads) run.firstWaited
  refine ⟨hproject, ?_⟩
  have hall : (openPool threads (List.range units.length) {} {}).pending.filter
      (queued (fun _ => true) (openPool threads (List.range units.length) {} {})) =
        List.range units.length := List.filter_eq_self.mpr fun _ _ => rfl
  rwa [hall] at hperm

theorem ProjectRun.second_opened : Opened units
    (openPool threads (compatibleNumbers units run.first.project) run.first.gauge run.first.project) :=
  secondPool_opened threads _ (run.firstRun.waited_gauge (firstPool_opened threads) run.firstWaited).1

variable (rules units errors) in
-- The coordinator comes to an end with any workers.
theorem ProjectRun.exists_run {threads : Nat} (hthreads : 0 < threads) :
    Nonempty (ProjectRun rules units errors threads) := by
  have hworkers {pending : List Nat} {gauge : Gauge} {project : ProjectState} :
      (openPool threads pending gauge project).workers ≠ [] := by
    simp only [openPool, ne_eq, List.replicate_eq_nil_iff]
    omega
  have hfirst := @firstPool_opened units threads
  obtain ⟨firstDone, firstMost, first, hrun, hwaited⟩ :=
    (PoolRun.start : PoolRun rules units errors .First {} (fun _ => true) _ [] _ _).finishes hfirst hworkers
      (Nat.zero_le _)
  have hgauge := hrun.waited_gauge hfirst hwaited
  have hmost := hrun.most_le hfirst
  have hsecond := @secondPool_opened units threads first.gauge first.project hgauge.1
  obtain ⟨secondDone, secondMost, second, hrun', hwaited'⟩ :=
    (PoolRun.start : PoolRun rules units errors .Second (indexOf units first.project)
      (fun facts => crossTUChangesFacts facts (indexOf units first.project) (selectionFor rules)) _ [] _
      _).finishes hsecond hworkers (by
        simp only [openPool, List.length_replicate] at hgauge hmost ⊢
        omega)
  exact ⟨{
    firstDone := [] ++ firstDone, firstMost := firstMost, first := first
    firstRun := hrun, firstWaited := hwaited
    secondDone := [] ++ secondDone, secondMost := secondMost, second := second
    secondRun := hrun', secondWaited := hwaited' }⟩

theorem ProjectRun.second_eq :
    run.second.project = afterSecond rules units errors run.firstDone run.secondDone ∧
      run.secondDone.Perm (reanalysedUnits rules units run.first.project) ∧
      run.second.submitted = (reanalysedUnits rules units run.first.project).length := by
  obtain ⟨hproject, hperm, hsubmitted⟩ := run.secondRun.waited run.second_opened run.secondWaited
  refine ⟨?_, hperm, hsubmitted.trans hperm.length_eq⟩
  rw [hproject, afterSecond, ← run.first_eq.1]
  rfl

-- The interleaved run of both pools is a schedule of atomic steps, one for each unit of a pass.
theorem ProjectRun.scheduled : Scheduled rules units errors run.firstDone run.secondDone where
  first := run.first_eq.2
  second := by
    rw [← run.first_eq.1]
    exact run.second_eq.2.1

theorem ProjectRun.analysis_eq :
    run.analysis = analyseProject rules units errors run.firstDone run.secondDone := by
  obtain ⟨hsecond, -, hsubmitted⟩ := run.second_eq
  have hfirst := run.first_eq.1
  rw [ProjectRun.analysis, hsubmitted, hsecond, hfirst]
  rfl

-- Up to the order of the failures, all schedules come to the same.
theorem analyseProject_agree {first second first' second' : List Nat}
    (hscheduled : Scheduled rules units errors first second)
    (hscheduled' : Scheduled rules units errors first' second') :
    { analyseProject rules units errors first second with failedUnits := [] } =
        { analyseProject rules units errors first' second' with failedUnits := [] } ∧
      (analyseProject rules units errors first second).failedUnits.Perm
        (analyseProject rules units errors first' second').failedUnits := by
  by_cases hloads : ∃ number < units.length, errors .First number = none
  · rw [analyseProject_congr hscheduled hscheduled' hloads]
    exact ⟨rfl, .refl _⟩
  · have hfail : ∀ number < units.length, errors .First number ≠ none := fun number hlt hnone =>
      hloads ⟨number, hlt, hnone⟩
    rw [analyseProject_of_all_fail hscheduled.first hfail, analyseProject_of_all_fail hscheduled'.first hfail]
    exact ⟨rfl, (hscheduled.first.trans hscheduled'.first.symm).filterMap _⟩

-- Neither the number of the workers nor the interleaving of their operations shows in what a project
-- analysis gives, up to the order of the failures.
theorem interleaving_free {threads others : Nat} (run : ProjectRun rules units errors threads)
    (other : ProjectRun rules units errors others) :
    Scheduled rules units errors run.firstDone run.secondDone ∧
      run.analysis = analyseProject rules units errors run.firstDone run.secondDone ∧
      { run.analysis with failedUnits := [] } = { other.analysis with failedUnits := [] } ∧
      run.analysis.failedUnits.Perm other.analysis.failedUnits := by
  refine ⟨run.scheduled, run.analysis_eq, ?_⟩
  rw [run.analysis_eq, other.analysis_eq]
  exact analyseProject_agree run.scheduled other.scheduled

-- The peak an analysis reports is the most units its workers ever held at once, over both passes, and
-- no more than the bound the options ask for, where the pools start no more threads than that.
theorem peakLiveUnits_exact (maxLiveUnits hardware : Nat)
    (hthreads : threads ≤ liveUnitBound maxLiveUnits hardware) :
    run.peakLiveUnits = run.mostLiveUnits ∧ run.mostLiveUnits ≤ liveUnitBound maxLiveUnits hardware := by
  have hfirst := run.firstRun.most_le (firstPool_opened _)
  have hsecond := run.secondRun.most_le run.second_opened
  simp only [openPool, List.length_replicate] at hfirst hsecond
  have hpeak := (run.firstRun.waited_gauge (firstPool_opened _) run.firstWaited).2
  have hpeak' := (run.secondRun.waited_gauge run.second_opened run.secondWaited).2
  simp only [openPool] at hpeak hpeak'
  rw [ProjectRun.peakLiveUnits, ProjectRun.mostLiveUnits]
  omega

-- Two threads over three units, on a machine with eight processors.
theorem peakLiveUnits_two : ∃ run : ProjectRun [.MissingJoin] [⟨"a.c", {}⟩, ⟨"b.c", {}⟩, ⟨"c.c", {}⟩]
    (fun _ _ => none) 2,
    run.peakLiveUnits = run.mostLiveUnits ∧ run.mostLiveUnits ≤ liveUnitBound 2 8 := by
  obtain ⟨run⟩ := ProjectRun.exists_run [.MissingJoin] [⟨"a.c", {}⟩, ⟨"b.c", {}⟩, ⟨"c.c", {}⟩]
    (fun _ _ => none) (by decide : 0 < 2)
  exact ⟨run, peakLiveUnits_exact run 2 8 (by decide)⟩

end Projects

end ConcurrencyAnalyzer.CrossTU
