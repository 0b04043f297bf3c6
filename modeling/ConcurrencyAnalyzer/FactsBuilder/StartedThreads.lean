import ConcurrencyAnalyzer.FactsBuilder.Pipelines
import ConcurrencyAnalyzer.LockOrder.CollectorTheorems

namespace ConcurrencyAnalyzer

-- The threads a function started run beside the fact it has: none is started and not live.
def AccessFact.StartedLive (fact : AccessFact) : Prop := fact.startedEntries ⊆ fact.liveEntries

def LockOrderFact.StartedLive (order : LockOrderFact) : Prop :=
  order.startedEntries ⊆ order.liveEntries

-- What is known of an instruction, nothing where its entry is missing.
def TaskConcurrencyResult.StartedLive (result : TaskConcurrencyResult) : Prop :=
  ∀ instruction, (result.startedEntriesAtInstruction instruction).getD ∅ ⊆
    (result.liveEntriesAtInstruction instruction).getD ∅

namespace FactsBuilder

open Library Program LockState LockOrder

section Threads

theorem threadsThroughCall_startedLive
    (liveEntries startedEntries liveAtCall startedAtCall : ThreadEntrySet) :
    (threadsThroughCall liveEntries startedEntries liveAtCall startedAtCall).2 ⊆
      (threadsThroughCall liveEntries startedEntries liveAtCall startedAtCall).1 :=
  Finset.filter_subset _ _

theorem threadsAtCallFor_startedLive (access : ParameterizedAccess) {call : DirectCallBinding}
    (h : call.startedAtCall ⊆ call.liveAtCall) :
    (threadsAtCallFor access call).2 ⊆ (threadsAtCallFor access call).1 := by
  unfold threadsAtCallFor
  split
  · exact h
  · exact Finset.sdiff_subset_sdiff h (Finset.Subset.refl _)

theorem mergeThreads_startedLive {into fact : AccessFact} (hinto : into.StartedLive)
    (hfact : fact.StartedLive) : (mergeThreads into fact).StartedLive :=
  Finset.union_subset_union hinto hfact

theorem uniteThreads_startedLive {kept order : LockOrderFact} (hkept : kept.StartedLive)
    (horder : order.StartedLive) : (uniteThreads kept order).StartedLive :=
  Finset.union_subset_union hkept horder

theorem keepLockOrder_startedLive {orders : List LockOrderFact}
    (horders : ∀ order ∈ orders, order.StartedLive) {order : LockOrderFact}
    (horder : order.StartedLive) : ∀ kept ∈ keepLockOrder orders order, kept.StartedLive :=
  KeepFirst.forall_mem_keep (fun _ _ => uniteThreads_startedLive) horders horder

theorem addConcreteAccess_startedLive {accesses : List AccessFact}
    (haccesses : ∀ access ∈ accesses, access.StartedLive) {fact : AccessFact}
    (hfact : fact.StartedLive) : ∀ access ∈ addConcreteAccess accesses fact, access.StartedLive :=
  KeepFirst.forall_mem_keep (fun _ _ => mergeThreads_startedLive) haccesses hfact

end Threads

section Placement

variable {ir : AccessIR} {inputs : AccessInputs}

structure PlacementState.StartedLive (state : PlacementState) : Prop where
  concrete : ∀ fact ∈ state.concreteAccesses, fact.StartedLive
  summaries : ∀ access ∈ state.summary.summaries, access.fact.StartedLive

theorem addSummary_startedLive {state : PlacementState} (h : state.StartedLive)
    {access : ParameterizedAccess} (haccess : access.fact.StartedLive) :
    (addSummary ir inputs state access).StartedLive := by
  unfold addSummary
  split
  · refine ⟨h.concrete, ?_⟩
    exact KeepFirst.forall_mem_keep (P := fun access : ParameterizedAccess => access.fact.StartedLive)
      (fun _ _ => mergeThreads_startedLive) h.summaries haccess
  · exact ⟨addConcreteAccess_startedLive h.concrete haccess, h.summaries⟩

-- The collector leaves the threads of an access to the analyses.
theorem annotatedFact_startedLive (hthreads : inputs.taskConcurrency.StartedLive)
    {pending : PendingAccess}
    (hpending : pending.fact.liveEntries = ∅ ∧ pending.fact.startedEntries = ∅) :
    (annotatedFact ir inputs pending).StartedLive := by
  have hknown := hthreads pending.instruction
  unfold AccessFact.StartedLive annotatedFact
  dsimp only
  rw [hpending.1, hpending.2]
  exact Finset.sdiff_subset_sdiff hknown (Finset.Subset.refl _)

theorem placePending_startedLive (hthreads : inputs.taskConcurrency.StartedLive)
    {state : PlacementState} (h : state.StartedLive) {pending : PendingAccess}
    (hpending : pending.fact.liveEntries = ∅ ∧ pending.fact.startedEntries = ∅) :
    (placePending ir inputs state pending).StartedLive := by
  have hfact : (annotatedFact ir inputs pending).StartedLive :=
    annotatedFact_startedLive hthreads hpending
  unfold placePending
  split
  · exact h
  · split
    · exact ⟨addConcreteAccess_startedLive h.concrete hfact, h.summaries⟩
    · exact addSummary_startedLive h hfact

theorem startPlacement_startedLive (hthreads : inputs.taskConcurrency.StartedLive)
    (hcollected : ∀ pending ∈ inputs.pendingAccesses,
      pending.fact.liveEntries = ∅ ∧ pending.fact.startedEntries = ∅) :
    (startPlacement ir inputs).StartedLive := by
  refine List.foldlRecOn _ _ ⟨by simp, by simp⟩ fun state hstate pending hpending => ?_
  exact placePending_startedLive hthreads hstate (hcollected pending hpending)

-- Whatever held of the callee's access, the threads through the call are the call's.
theorem projectSummary_startedLive {bound : BoundCall} {state : PlacementState} (h : state.StartedLive)
    (access : ParameterizedAccess) : (projectSummary ir inputs bound state access).StartedLive := by
  unfold projectSummary
  split
  · exact h
  · rename_i root hroot
    split
    · refine ⟨addConcreteAccess_startedLive h.concrete ?_, h.summaries⟩
      exact threadsThroughCall_startedLive _ _ _ _
    · cases hprojected : projectAccess bound.binding access with
      | none => exact h
      | some projected =>
          refine addSummary_startedLive h ?_
          unfold projectAccess at hprojected
          rw [hroot] at hprojected
          dsimp only at hprojected
          split at hprojected
          · cases hprojected
          · rw [← Option.some.inj hprojected]
            exact threadsThroughCall_startedLive _ _ _ _

theorem placementRound_startedLive {state : PlacementState} (h : state.StartedLive) :
    (placementRound ir inputs state).StartedLive := by
  refine List.foldlRecOn _ _ ⟨h.concrete, h.summaries⟩ fun state hstate bound _ => ?_
  refine List.foldlRecOn _ _ hstate fun state hstate access _ => ?_
  exact projectSummary_startedLive hstate access

theorem placement_startedLive (hthreads : inputs.taskConcurrency.StartedLive)
    (hcollected : ∀ pending ∈ inputs.pendingAccesses,
      pending.fact.liveEntries = ∅ ∧ pending.fact.startedEntries = ∅) (fuel : Nat) :
    (placement ir inputs fuel).StartedLive :=
  @settleLast_invariant _ _ _ PlacementState.StartedLive (fun _ => placementRound_startedLive) fuel _
    (startPlacement_startedLive hthreads hcollected)

end Placement

section Projection

variable {ir : AccessIR} {inputs : AccessInputs}

theorem projectAccesses_startedLive (fuel : Nat) {accesses : List AccessFact}
    (h : ∀ access ∈ accesses, access.StartedLive) :
    ∀ access ∈ projectAccesses ir inputs fuel accesses, access.StartedLive := by
  let Kept (state : ProjectionState) : Prop := ∀ access ∈ state.accesses, access.StartedLive
  refine @settleLast_invariant _ _ _ Kept (fun state hstate => ?_) fuel _ h
  refine List.foldlRecOn (motive := Kept) _ _ hstate fun next hnext call _ => ?_
  refine List.foldlRecOn (motive := Kept) _ _ hnext fun next hnext access _ => ?_
  unfold projectConcreteAccess
  split
  · exact addConcreteAccess_startedLive hnext (threadsThroughCall_startedLive _ _ _ _)
  · exact hnext

theorem spawnedThreadAccesses_startedLive {bindings : SharedObjectBindings}
    {summary : String × List ParameterizedAccess}
    (h : ∀ access ∈ summary.2, access.fact.StartedLive) :
    ∀ fact ∈ accessesOfSpawnedThreads bindings summary, fact.StartedLive := by
  intro fact hfact
  unfold accessesOfSpawnedThreads at hfact
  split at hfact
  · cases hfact
  · obtain ⟨access, haccess, rfl⟩ := List.mem_map.mp hfact
    exact h access (List.mem_filter.mp haccess).1

theorem orderByGuard_startedLive (projectAnalysis : Bool) {access : AccessFact}
    (h : access.StartedLive) : (orderByGuard ir projectAnalysis access).StartedLive := by
  unfold orderByGuard
  split
  · exact h
  · dsimp only
    split
    · exact h
    · exact h

theorem summarizeAccesses_startedLive (hthreads : inputs.taskConcurrency.StartedLive)
    (hcollected : ∀ pending ∈ inputs.pendingAccesses,
      pending.fact.liveEntries = ∅ ∧ pending.fact.startedEntries = ∅) (fuel : Nat) :
    (∀ fact ∈ (summarizeAccesses ir inputs fuel).concreteAccesses, fact.StartedLive) ∧
      ∀ summary ∈ (summarizeAccesses ir inputs fuel).summariesByFunction,
        ∀ access ∈ summary.2, access.fact.StartedLive := by
  have hplaced : (placement ir inputs fuel).StartedLive :=
    placement_startedLive hthreads hcollected fuel
  refine ⟨hplaced.concrete, ?_⟩
  intro summary hsummary access haccess
  obtain ⟨_, _, rfl⟩ := List.mem_map.mp hsummary
  exact hplaced.summaries access (List.mem_filter.mp haccess).1

end Projection

section Orders

variable {ir : LockOrderIR} {inputs : LockOrderInputs}

theorem collect_startedLive (collector : LockOrderCollector) {source : OrderSource}
    (h : ∀ site, source.startedEntriesByInstruction site ⊆ source.liveEntriesByInstruction site) :
    ∀ order ∈ collector.collect source, order.StartedLive := by
  intro order horder
  obtain ⟨sites, hstands⟩ := LockOrderCollector.exists_standsFor horder
  obtain ⟨recorded, hrecorded, marked, rfl, -⟩ := hstands.recorded
  obtain ⟨returns, site, first, hfirst, hfact, -⟩ := LockOrderCollector.firstTaken_of_mem hrecorded
  obtain ⟨common, -, hfind⟩ := hfirst.taken
  obtain ⟨_, _, _, _, _, _, hdata⟩ :=
    LockOrderCollector.mem_ordersAt.mp (List.mem_of_find?_eq_some hfind)
  have hthreads : recorded.fact.StartedLive := by
    rw [hfact, hdata]
    exact h site
  exact hthreads

theorem instantiateAtCall_startedLive {order instantiated : LockOrderFact} {call : LockOrderCall}
    (h : instantiated ∈ instantiateAtCall order call) : instantiated.StartedLive := by
  unfold instantiateAtCall at h
  split at h
  · cases h
  · obtain ⟨first, _, rfl⟩ := List.mem_map.mp h
    exact threadsThroughCall_startedLive _ _ _ _

structure LockOrderState.StartedLive (state : LockOrderState) : Prop where
  leftOpen : AllOrders LockOrderFact.StartedLive state.leftOpen.openLockOrders
  lockOrders : ∀ order ∈ state.lockOrders, order.StartedLive

theorem takeOrder_startedLive {state : LockOrderState} (h : state.StartedLive) {order : LockOrderFact}
    (horder : order.StartedLive) (throughRecursion : Bool) :
    (state.takeOrder throughRecursion order).StartedLive := by
  unfold LockOrderState.takeOrder
  split
  · refine ⟨?_, h.lockOrders⟩
    have harrivals : ∀ arrival ∈ [(⟨order, throughRecursion⟩ : Arrival)],
        arrival.order.StartedLive := by
      intro arrival harrival
      rw [List.mem_singleton.mp harrival]
      exact horder
    exact allOrders_foldl_receive (fun _ _ => uniteThreads_startedLive) h.leftOpen harrivals
  · exact ⟨h.leftOpen, keepLockOrder_startedLive h.lockOrders horder⟩

theorem takeSpawnedOrder_startedLive {state : LockOrderState} (h : state.StartedLive)
    {order : LockOrderFact} (horder : order.StartedLive) (sharedOrders : List String) :
    (state.takeSpawnedOrder sharedOrders order).StartedLive := by
  unfold LockOrderState.takeSpawnedOrder
  split
  · exact h
  · exact ⟨h.leftOpen, keepLockOrder_startedLive h.lockOrders horder⟩

theorem orderSource_startedLive (hthreads : inputs.taskConcurrency.StartedLive)
    (function : Function) (spawnedThread : Bool) :
    ∀ order ∈ (lockOrderCollector ir inputs).collect (orderSource ir inputs function spawnedThread),
      order.StartedLive :=
  collect_startedLive _ fun site => hthreads (ir.instructionAt function.id site)

theorem functionLockOrders_startedLive (hthreads : inputs.taskConcurrency.StartedLive)
    (function : Function) : ∀ order ∈ functionLockOrders ir inputs function, order.StartedLive := by
  intro order horder
  obtain ⟨collected, hcollected, rfl⟩ := List.mem_map.mp horder
  exact orderSource_startedLive hthreads function false collected hcollected

theorem startOrders_startedLive (hthreads : inputs.taskConcurrency.StartedLive) :
    (startOrders ir inputs).StartedLive := by
  refine List.foldlRecOn _ _ ⟨?_, by simp⟩ fun state hstate function _ => ?_
  · intro functionId order horder
    cases horder
  · have hown : ((functionLockOrders ir inputs function).foldl (takeOwnOrder ir inputs)
        state).StartedLive := by
      refine List.foldlRecOn _ _ hstate fun state hstate order horder => ?_
      unfold takeOwnOrder
      split
      · exact hstate
      · have hstarted := functionLockOrders_startedLive hthreads function order horder
        exact takeOrder_startedLive hstate hstarted _
    unfold visitFunction
    dsimp only
    split
    · refine List.foldlRecOn _ _ hown fun state hstate order horder => ?_
      exact takeSpawnedOrder_startedLive hstate
        (orderSource_startedLive hthreads function true order horder) _
    · exact hown

theorem visitCall_startedLive {state : LockOrderState} (h : state.StartedLive) (site : DirectCallSite) :
    (visitCall ir inputs state site).StartedLive := by
  unfold visitCall
  split
  · exact h
  · dsimp only
    have hown (throughRecursion : Bool) : ((instancesAtCall ir inputs state site).foldl
        (LockOrderState.takeOrder throughRecursion) state).StartedLive := by
      refine List.foldlRecOn _ _ h fun state hstate order horder => ?_
      refine takeOrder_startedLive hstate ?_ throughRecursion
      unfold instancesAtCall at horder
      split at horder
      · obtain ⟨_, _, hinstance⟩ := List.mem_flatMap.mp horder
        exact instantiateAtCall_startedLive hinstance
      · cases horder
    split
    · exact hown _
    · refine List.foldlRecOn _ _ (hown _) fun state hstate order horder => ?_
      refine takeSpawnedOrder_startedLive hstate ?_ _
      obtain ⟨instantiated, hmem, rfl⟩ := List.mem_map.mp horder
      obtain ⟨_, _, hinstance⟩ := List.mem_flatMap.mp hmem
      have hstarted : instantiated.StartedLive := instantiateAtCall_startedLive hinstance
      exact hstarted

theorem propagateLockOrders_startedLive (hthreads : inputs.taskConcurrency.StartedLive) (fuel : Nat) :
    (propagateLockOrders ir inputs fuel).StartedLive := by
  refine settleLast_invariant (fun state hstate => ?_) fuel (startOrders_startedLive hthreads)
  refine List.foldlRecOn _ _ ⟨hstate.leftOpen, hstate.lockOrders⟩ fun state hstate site _ => ?_
  exact visitCall_startedLive hstate site

end Orders

section Build

variable {unit : TranslationUnit} {accessIR : AccessIR} {orderIR : LockOrderIR} {fuel : Nat}
  {selection : FactSelection} {program : Option ProgramSymbolIndex}

theorem pendingAccesses_withoutThreads :
    ∀ pending ∈ pendingAccesses (withPipelines unit accessIR orderIR fuel) selection program,
      pending.fact.liveEntries = ∅ ∧ pending.fact.startedEntries = ∅ := by
  intro pending hpending
  unfold pendingAccesses at hpending
  split at hpending
  · obtain ⟨collected, _, rfl⟩ := List.mem_map.mp hpending
    exact ⟨rfl, rfl⟩
  · cases hpending

-- Before they are filtered, the accesses of the unit and those of its spawned threads.
theorem placedAccesses_startedLive (hthreads : (taskConcurrency unit selection program).StartedLive) :
    let module := withPipelines unit accessIR orderIR fuel
    let inputs := accessInputs module selection program
    let summaries := summarizeAccesses accessIR inputs fuel
    (∀ summary ∈ summaries.summariesByFunction, ∀ access ∈ summary.2, access.fact.StartedLive) ∧
      ∀ fact ∈ projectAccesses accessIR inputs fuel
          ((summaries.summariesByFunction.flatMap
            (accessesOfSpawnedThreads inputs.sharedObjectBindings)).foldl addConcreteAccess
              summaries.concreteAccesses),
        fact.StartedLive := by
  intro module inputs summaries
  obtain ⟨hconcrete, hsummaries⟩ := @summarizeAccesses_startedLive accessIR inputs hthreads
    pendingAccesses_withoutThreads fuel
  refine ⟨hsummaries, projectAccesses_startedLive fuel ?_⟩
  refine List.foldlRecOn
    (motive := fun facts : List AccessFact => ∀ fact ∈ facts, fact.StartedLive) _ _ hconcrete
    fun facts hfacts fact hbound => ?_
  obtain ⟨summary, hsummary, hspawned⟩ := List.mem_flatMap.mp hbound
  exact addConcreteAccess_startedLive hfacts
    (spawnedThreadAccesses_startedLive (hsummaries summary hsummary) fact hspawned)

theorem accesses_startedLive (hthreads : (taskConcurrency unit selection program).StartedLive) :
    ∀ fact ∈ accesses (withPipelines unit accessIR orderIR fuel) selection program,
      fact.StartedLive := by
  intro fact hfact
  unfold accesses at hfact
  split at hfact
  · obtain ⟨erased, herased, rfl⟩ := List.mem_map.mp hfact
    obtain ⟨projected, hprojected, rfl⟩ := List.mem_map.mp herased
    have hplaced : projected.StartedLive :=
      (placedAccesses_startedLive hthreads).2 projected (List.mem_filter.mp hprojected).1
    have herase : (eraseParameterLocks projected).StartedLive := hplaced
    exact orderByGuard_startedLive _ herase
  · cases hfact

theorem lockOrders_startedLive (hthreads : (taskConcurrency unit selection program).StartedLive) :
    ∀ order ∈ lockOrders (withPipelines unit accessIR orderIR fuel) selection program,
      order.StartedLive := by
  intro order horder
  unfold lockOrders at horder
  split at horder
  · exact (propagateLockOrders_startedLive hthreads fuel).lockOrders order horder
  · cases horder

end Build

-- Whatever rounds the loops make, no fact loses sight of a thread its function started.
theorem started_threads_are_live (unit : TranslationUnit) (accessIR : AccessIR)
    (orderIR : LockOrderIR) (fuel : Nat) (selection : FactSelection)
    (program : Option ProgramSymbolIndex)
    (hthreads : (taskConcurrency unit selection program).StartedLive) :
    let module := withPipelines unit accessIR orderIR fuel
    let orderInputs := lockOrderInputs module selection program
    (∀ fact ∈ (build module selection program).accesses, fact.StartedLive) ∧
      (∀ order ∈ (build module selection program).lockOrders, order.StartedLive) ∧
      (∀ summary ∈ (summarizeAccesses accessIR (accessInputs module selection program)
          fuel).summariesByFunction, ∀ access ∈ summary.2, access.fact.StartedLive) ∧
      (∀ functionId, ∀ order ∈
        ((propagateLockOrders orderIR orderInputs fuel).leftOpen.openLockOrders functionId).orders ++
          (lockOrderModule orderIR orderInputs).ordersJudgedAtCalls functionId,
        order.StartedLive) ∧
      (∀ live started liveAtCall startedAtCall : ThreadEntrySet,
        (threadsThroughCall live started liveAtCall startedAtCall).2 ⊆
          (threadsThroughCall live started liveAtCall startedAtCall).1) ∧
      (∀ (access : ParameterizedAccess) (call : DirectCallBinding),
        call.startedAtCall ⊆ call.liveAtCall →
          (threadsAtCallFor access call).2 ⊆ (threadsAtCallFor access call).1) ∧
      (∀ into fact : AccessFact, into.StartedLive → fact.StartedLive →
        (mergeThreads into fact).StartedLive) ∧
      ∀ (orders : List LockOrderFact) (order : LockOrderFact), (∀ kept ∈ orders, kept.StartedLive) →
        order.StartedLive → ∀ kept ∈ keepLockOrder orders order, kept.StartedLive := by
  intro module orderInputs
  have hinputs : orderInputs.taskConcurrency.StartedLive := hthreads
  refine ⟨accesses_startedLive hthreads, lockOrders_startedLive hthreads,
    (placedAccesses_startedLive hthreads).1, ?_, threadsThroughCall_startedLive,
    fun access _ => threadsAtCallFor_startedLive access, fun _ _ => mergeThreads_startedLive,
    fun _ _ horders horder => keepLockOrder_startedLive horders horder⟩
  intro functionId order horder
  rcases List.mem_append.mp horder with hopen | hjudged
  · exact ((propagateLockOrders_startedLive hinputs fuel).leftOpen functionId order hopen).2
  · obtain ⟨function, _, hown⟩ := List.mem_flatMap.mp (List.mem_filter.mp hjudged).1
    exact functionLockOrders_startedLive hinputs function order hown

-- `start` spawns a worker and then calls `store`, which writes through its argument.
def storesAfterStart : TranslationUnit where
  functions := [{ id := "start", symbol := "start" }, { id := "store", symbol := "store" }]
  globals := [{ name := "data", symbol := "data" }]
  collectDirectCallSites :=
    [{ call := 2, callerFunctionId := "start", calleeFunctionId := "store" }]
  collectPendingAccesses _ _ _ :=
    [{ functionId := "store", instruction := 5, root := RootBinding.argument 0 { byteSize := 4 },
       fact := { functionId := "store", kind := .Write } }]
  analyzeTaskConcurrency _ _ _ :=
    { liveEntriesAtInstruction := fun _ => some {"worker"}
      startedEntriesAtInstruction := fun instruction =>
        if instruction = 2 then some {"worker"} else none }

def storesAfterStartIR : AccessIR where
  callOperands _ := [{ root := some (RootBinding.global "data" { byteSize := 4 }) }]

theorem storesAfterStart_started_threads_are_live :
    let facts := build (withPipelines storesAfterStart storesAfterStartIR {} 3) { accesses := true } none
    facts.accesses.map (fun fact => (fact.functionId, fact.symbol, fact.startedEntries)) =
        [("start", "data", {"worker"})] ∧
      ∀ fact ∈ facts.accesses, fact.StartedLive := by
  intro facts
  have hthreads : (taskConcurrency storesAfterStart { accesses := true } none).StartedLive := by
    intro instruction
    change (if instruction = 2 then some {"worker"} else none).getD (∅ : ThreadEntrySet) ⊆
      ({"worker"} : ThreadEntrySet)
    split
    · exact Finset.Subset.refl _
    · exact Finset.empty_subset _
  exact ⟨by decide +kernel, (started_threads_are_live storesAfterStart storesAfterStartIR {} 3
    { accesses := true } none hthreads).1⟩

end FactsBuilder

end ConcurrencyAnalyzer
