import ConcurrencyAnalyzer.CrossTU.WorkerPoolSteps

namespace ConcurrencyAnalyzer.CrossTU

open FactsBuilder Library.PeakGauge

section Pools

variable (rules : List RuleId) (units : List ProjectUnit) (errors : Pass → Nat → Option CompileError)
  (pass : Pass) (program : ProgramSymbolIndex) (wants : TUFacts → Bool)

def queued (initial : PoolState) (number : Nat) : Bool :=
  wants (initial.project.factsByUnit number)

-- What holds at any moment of any interleaving: the units the submitting thread came to are finished,
-- at a worker or in the queue, and the memory is what the finished units left there.
structure Consistent (initial : PoolState) (done : List Nat) (state : PoolState) : Prop where
  passed : ∃ seen, initial.pending = seen ++ state.pending ∧
    (done ++ owed state.workers ++ state.queue).Perm (seen.filter (queued wants initial)) ∧
    state.submitted = (seen.filter (queued wants initial)).length
  exclusive : state.workers.countP WorkerPhase.holdsFailureLock = if state.failureLock then 1 else 0
  followsLoad : ∀ phase ∈ state.workers, phase.FollowsLoad errors pass
  hasRead : ∀ phase ∈ state.workers, phase.HasRead state.project.failures
  project : state.project =
    inFlight state.workers (runPass rules units errors pass program done initial.project)
  size : state.workers.length = initial.workers.length

-- A pool before its first operation.
structure Opened (initial : PoolState) : Prop where
  idle : ∀ phase ∈ initial.workers, phase = .Idle
  queue : initial.queue = []
  failureLock : initial.failureLock = false
  submitted : initial.submitted = 0
  live : initial.gauge.live = 0
  nodup : initial.pending.Nodup
  inside : ∀ number ∈ initial.pending, number < units.length

variable {rules units errors pass program wants} {initial state next : PoolState}
  {done : List Nat} {finished : Option Nat}

theorem inFlight_of_quiet {workers : List WorkerPhase} (project : ProjectState)
    (h : ∀ phase ∈ workers, phase.owes = none) : inFlight workers project = project := by
  refine projectState_ext (fun number => ?_) (fun number => ?_) rfl
  · have hnone : workers.any (fun phase => phase.clears number) = false := by
      rw [List.any_eq_false]
      intro phase hmem hclears
      have howes := WorkerPhase.owes_of_clears hclears
      rw [h phase hmem] at howes
      cases howes
    simp only [inFlight, hnone]
    rfl
  · have hnone : workers.any (fun phase => phase.marks number) = false := by
      rw [List.any_eq_false]
      intro phase hmem hmarks
      have howes := h phase hmem
      cases phase <;> simp_all [WorkerPhase.owes, WorkerPhase.marks]
    simp only [inFlight, hnone, Bool.or_false]

theorem owed_of_quiet {workers : List WorkerPhase} (h : ∀ phase ∈ workers, phase.owes = none) :
    owed workers = [] :=
  List.filterMap_eq_nil_iff.mpr h

theorem Opened.consistent (h : Opened units initial) :
    Consistent rules units errors pass program wants initial [] initial := by
  have hquiet : ∀ phase ∈ initial.workers, phase.owes = none := fun phase hmem => by
    rw [h.idle phase hmem]
    rfl
  refine ⟨⟨[], rfl, ?_, h.submitted⟩, ?_, ?_, ?_, ?_, rfl⟩
  · rw [owed_of_quiet hquiet, h.queue]
    exact .nil
  · rw [h.failureLock, List.countP_eq_zero.mpr]
    · rfl
    · intro phase hmem
      simp [h.idle phase hmem, WorkerPhase.holdsFailureLock]
  · intro phase hmem
    rw [h.idle phase hmem]
    trivial
  · intro phase hmem
    rw [h.idle phase hmem]
    trivial
  · rw [runPass, List.foldl_nil, inFlight_of_quiet _ hquiet]

theorem Consistent.taken_nodup (hopened : Opened units initial)
    (h : Consistent rules units errors pass program wants initial done state) :
    (done ++ owed state.workers ++ state.queue).Nodup ∧
      ∀ number ∈ done ++ owed state.workers ++ state.queue,
        number ∈ initial.pending ∧ number ∉ state.pending := by
  obtain ⟨seen, hpending, htaken, -⟩ := h.passed
  have hnodup := hopened.nodup
  rw [hpending, List.nodup_append] at hnodup
  refine ⟨htaken.nodup_iff.mpr (hnodup.1.filter _), fun number hmem => ?_⟩
  have hseen := List.mem_of_mem_filter (htaken.mem_iff.mp hmem)
  refine ⟨?_, fun hrest => hnodup.2.2 number hseen number hrest rfl⟩
  rw [hpending]
  exact List.mem_append_left _ hseen

-- What the submitting thread reads of a unit it has not submitted is what the pool started from.
theorem Consistent.pending_facts (hopened : Opened units initial)
    (h : Consistent rules units errors pass program wants initial done state) {number : Nat}
    (hmem : number ∈ state.pending) :
    state.project.factsByUnit number = initial.project.factsByUnit number := by
  obtain ⟨-, htaken⟩ := h.taken_nodup hopened
  have hnot : number ∉ done ++ owed state.workers ++ state.queue := fun hin =>
    (htaken number hin).2 hmem
  simp only [List.mem_append, not_or] at hnot
  have hnone : state.workers.any (fun phase => phase.clears number) = false := by
    rw [List.any_eq_false]
    intro phase hphase hclears
    exact hnot.1.2 (List.mem_filterMap.mpr ⟨phase, hphase, WorkerPhase.owes_of_clears hclears⟩)
  rw [h.project]
  simp only [inFlight, hnone, Bool.false_eq_true, if_false]
  rw [runPass_factsByUnit, if_neg hnot.1.1]

private theorem count_owed_middle (front back : List WorkerPhase) (phase : WorkerPhase) (number : Nat) :
    (owed (front ++ phase :: back)).count number =
      phase.owes.toList.count number + (owed (front ++ back)).count number := by
  simp only [owed, List.filterMap_append, List.filterMap_cons, List.count_append]
  cases phase.owes with
  | none => simp
  | some other =>
      simp only [Option.toList_some, List.count_cons, List.count_nil]
      omega

private theorem mem_owed_middle {front back : List WorkerPhase} {phase : WorkerPhase} {number : Nat}
    (h : phase.owes = some number) : number ∈ owed (front ++ phase :: back) :=
  List.mem_filterMap.mpr ⟨phase, by simp, h⟩

-- One operation of a worker.
theorem Consistent.work (hopened : Opened units initial)
    (h : Consistent rules units errors pass program wants initial done state)
    {front back : List WorkerPhase} {phase after : WorkerPhase} {memory : PoolMemory}
    (hworkers : state.workers = front ++ phase :: back)
    (hstep : WorkerStep rules units errors pass program state.toPoolMemory phase finished memory after) :
    Consistent rules units errors pass program wants initial (done ++ finished.toList)
      { state with toPoolMemory := memory, workers := front ++ after :: back } := by
  obtain ⟨hnodup, htaken⟩ := h.taken_nodup hopened
  have hmember : phase ∈ state.workers := by simp [hworkers]
  have hother : ∀ other ∈ front ++ after :: back, other = after ∨ other ∈ state.workers := by
    intro other hmem
    simp only [hworkers, List.mem_append, List.mem_cons] at hmem ⊢
    tauto
  have hlock := h.exclusive
  rw [hworkers, List.countP_append, List.countP_cons] at hlock
  refine ⟨?_, ?_, ?_, ?_, ?_, ?_⟩
  · obtain ⟨seen, hpending, hperm, hsubmitted⟩ := h.passed
    refine ⟨seen, hpending, ?_, hsubmitted⟩
    rw [List.perm_iff_count] at hperm ⊢
    intro number
    have hcount := hperm number
    have howes := hstep.owes_count number
    simp only [List.count_append, hworkers, count_owed_middle] at hcount ⊢
    omega
  · have hnext := @WorkerStep.lock_eq _ _ _ _ _ _ _ _ _ _ hstep
      (front.countP WorkerPhase.holdsFailureLock + back.countP WorkerPhase.holdsFailureLock) (by omega)
    show (front ++ after :: back).countP _ = if memory.failureLock then 1 else 0
    rw [List.countP_append, List.countP_cons]
    omega
  · intro other hmem
    rcases hother other hmem with rfl | hold
    · exact hstep.followsLoad (h.followsLoad phase hmember)
    · exact h.followsLoad other hold
  · intro other hmem
    rcases hstep.failures_cases with ⟨hholds, hafter⟩ | ⟨hsame, hafter⟩
    · simp only [List.mem_append, List.mem_cons] at hmem
      have hfree : other = after ∨ other.holdsFailureLock = false := by
        -- The writer holds the lock, so that nobody else does.
        have hone : (front ++ back).countP WorkerPhase.holdsFailureLock = 0 := by
          rw [if_pos hholds] at hlock
          rw [List.countP_append]
          split at hlock <;> omega
        rw [List.countP_eq_zero] at hone
        rcases hmem with hfront | rfl | hback
        · exact .inr (by simpa using hone other (List.mem_append_left _ hfront))
        · exact .inl rfl
        · exact .inr (by simpa using hone other (List.mem_append_right _ hback))
      rcases hfree with rfl | hfree
      · exact hafter _
      · exact WorkerPhase.holdsFailureLock_of_not_hasRead hfree
    · rcases hother other hmem with rfl | hold
      · exact hafter (h.hasRead phase hmember)
      · simp only [hsame]
        exact h.hasRead other hold
  · have hproject := h.project
    rw [hworkers] at hproject
    rw [runPass, List.foldl_append, ← runPass]
    refine hstep.simulates hproject (h.followsLoad phase hmember) (h.hasRead phase hmember) ?_ ?_
    · intro number howes
      have hin : number ∈ owed state.workers := by
        rw [hworkers]
        exact mem_owed_middle howes
      exact hopened.inside number (htaken number (by simp [hin])).1
    · intro number howes hin
      have hcount := (List.nodup_iff_count_le_one.mp hnodup) number
      have hpositive := List.count_pos_iff.mpr hin
      rw [List.count_append, List.count_append, hworkers, count_owed_middle, howes] at hcount
      simp only [Option.toList_some, List.count_singleton_self] at hcount
      omega
  · have hsize := h.size
    rw [hworkers] at hsize
    simpa using hsize

-- The step of every interleaving.
theorem PoolStep.consistent (hopened : Opened units initial)
    (h : Consistent rules units errors pass program wants initial done state)
    (hstep : PoolStep rules units errors pass program wants state finished next) :
    Consistent rules units errors pass program wants initial (done ++ finished.toList) next := by
  have hmoved {number : Nat} {rest : List Nat} (hrest : state.pending = number :: rest) :
      queued wants initial number = wants (state.project.factsByUnit number) ∧
        ∀ seen, initial.pending = seen ++ state.pending →
          initial.pending = (seen ++ [number]) ++ rest := by
    refine ⟨?_, fun seen hseen => ?_⟩
    · rw [queued, h.pending_facts hopened (by simp [hrest])]
    · rw [hseen, hrest, List.append_assoc]
      rfl
  cases hstep with
  | submit hrest hwants =>
      obtain ⟨seen, hpending, hperm, hsubmitted⟩ := h.passed
      obtain ⟨hsame, hsplit⟩ := hmoved hrest
      rw [hwants] at hsame
      rw [Option.toList_none, List.append_nil]
      refine ⟨⟨_, hsplit seen hpending, ?_, ?_⟩, h.exclusive, h.followsLoad, h.hasRead, h.project, h.size⟩
      · rw [List.filter_append, List.filter_singleton, hsame, ← List.append_assoc]
        exact hperm.append_right _
      · rw [List.filter_append, List.filter_singleton, hsame, List.length_append, hsubmitted]
        rfl
  | pass hrest hwants =>
      obtain ⟨seen, hpending, hperm, hsubmitted⟩ := h.passed
      obtain ⟨hsame, hsplit⟩ := hmoved hrest
      rw [hwants] at hsame
      rw [Option.toList_none, List.append_nil]
      refine ⟨⟨_, hsplit seen hpending, ?_, ?_⟩, h.exclusive, h.followsLoad, h.hasRead, h.project, h.size⟩
      · rw [List.filter_append, List.filter_singleton, hsame]
        simpa using hperm
      · rw [List.filter_append, List.filter_singleton, hsame, hsubmitted]
        simp
  | work hworkers hwork => exact h.work hopened hworkers hwork

theorem PoolRun.consistent (hopened : Opened units initial) {most : Nat}
    (hrun : PoolRun rules units errors pass program wants initial done most state) :
    Consistent rules units errors pass program wants initial done state := by
  induction hrun with
  | start => exact hopened.consistent
  | step _ hstep ih => exact hstep.consistent hopened ih

-- A pool that is waited for left what the atomic steps of its units leave, in the order they were done.
theorem PoolRun.waited (hopened : Opened units initial) {most : Nat}
    (hrun : PoolRun rules units errors pass program wants initial done most state)
    (hwaited : state.Waited) :
    state.project = runPass rules units errors pass program done initial.project ∧
      done.Perm (initial.pending.filter (queued wants initial)) ∧ state.submitted = done.length := by
  have h := hrun.consistent hopened
  have hquiet : ∀ phase ∈ state.workers, phase.owes = none := by
    intro phase hmem
    have hidle := hwaited.idle phase hmem
    cases phase <;> simp_all [WorkerPhase.isIdle, WorkerPhase.owes]
  obtain ⟨seen, hpending, hperm, hsubmitted⟩ := h.passed
  rw [hwaited.pending, List.append_nil] at hpending
  rw [owed_of_quiet hquiet, hwaited.queue, List.append_nil, List.append_nil] at hperm
  refine ⟨by rw [h.project, inFlight_of_quiet _ hquiet], by rw [hpending]; exact hperm, ?_⟩
  rw [hsubmitted, hperm.length_eq]

section Gauges

theorem held_eq (state : PoolState) :
    state.held = (state.workers.map WorkerPhase.visit).countP Visit.isCounted := by
  rw [PoolState.held, List.countP_map]
  rfl

theorem PoolStep.accurate {most : Nat}
    (hstep : PoolStep rules units errors pass program wants state finished next)
    (h : Accurate most state.gauge (state.workers.map WorkerPhase.visit)) :
    Accurate (max most next.held) next.gauge (next.workers.map WorkerPhase.visit) := by
  have hstill : Accurate (max most state.held) state.gauge (state.workers.map WorkerPhase.visit) := by
    rw [held_eq, ← h.live]
    exact h.still
  cases hstep with
  | submit _ _ => exact hstill
  | pass _ _ => exact hstill
  | work hworkers hwork =>
      rename_i front phase back memory after
      rw [hworkers, List.map_append, List.map_cons] at h
      have hnext : Accurate (max most memory.gauge.live) memory.gauge
          ((front ++ after :: back).map WorkerPhase.visit) := by
        rw [List.map_append, List.map_cons]
        rcases hwork.gauge_cases with hmove | ⟨hgauge, hvisit⟩
        · exact h.move hmove
        · rw [hgauge, hvisit]
          exact h.still
      rw [held_eq, ← hnext.live]
      exact hnext

-- The register of the peak, at any moment of any interleaving.
theorem PoolRun.accurate (hopened : Opened units initial) {most : Nat}
    (hrun : PoolRun rules units errors pass program wants initial done most state) :
    Accurate (max initial.gauge.peak most) state.gauge (state.workers.map WorkerPhase.visit) := by
  induction hrun with
  | start =>
      have hstart : Accurate initial.gauge.peak initial.gauge (initial.workers.map WorkerPhase.visit) := by
        refine Accurate.start _ (fun visit hmem => ?_) _ hopened.live
        obtain ⟨phase, hphase, rfl⟩ := List.mem_map.mp hmem
        rw [hopened.idle phase hphase]
        rfl
      have hheld : initial.held = initial.gauge.live := by rw [held_eq, hstart.live]
      rw [hheld]
      exact hstart.still
  | step _ hstep ih =>
      rw [← max_assoc]
      exact hstep.accurate ih

theorem PoolRun.most_le (hopened : Opened units initial) {most : Nat}
    (hrun : PoolRun rules units errors pass program wants initial done most state) :
    most ≤ initial.workers.length := by
  induction hrun with
  | start => exact List.countP_le_length
  | step hbefore hstep ih =>
      rename_i state finished next
      have hsize := (hstep.consistent hopened (hbefore.consistent hopened)).size
      have hheld : next.held ≤ next.workers.length := List.countP_le_length
      omega

theorem PoolRun.waited_gauge (hopened : Opened units initial) {most : Nat}
    (hrun : PoolRun rules units errors pass program wants initial done most state)
    (hwaited : state.Waited) :
    state.gauge.live = 0 ∧ state.gauge.peak = max initial.gauge.peak most := by
  have haccurate := hrun.accurate hopened
  have haway : ∀ visit ∈ state.workers.map WorkerPhase.visit, visit = .Away := by
    intro visit hmem
    obtain ⟨phase, hphase, rfl⟩ := List.mem_map.mp hmem
    have hidle := hwaited.idle phase hphase
    cases phase <;> simp_all [WorkerPhase.isIdle, WorkerPhase.visit]
  refine ⟨?_, haccurate.peak_eq fun visit hmem => by rw [haway visit hmem]; rfl⟩
  rw [haccurate.live, List.countP_eq_zero]
  intro visit hmem
  simp [haway visit hmem, Visit.isCounted]

end Gauges

end Pools

end ConcurrencyAnalyzer.CrossTU
