import ConcurrencyAnalyzer.FactsBuilder.AccessPipeline
import ConcurrencyAnalyzer.FactsBuilder.AccessSummaryTheorems
import ConcurrencyAnalyzer.FactsBuilder.CallCycles
import ConcurrencyAnalyzer.FactsBuilder.LockOrderPipeline
import ConcurrencyAnalyzer.FactsBuilder.OpenLockOrderTheorems

namespace ConcurrencyAnalyzer.FactsBuilder

open Library Program

-- The collector of accesses names no threads: they are left to the analyses.
def withoutThreads (pending : PendingAccess) : PendingAccess :=
  { pending with fact := { pending.fact with liveEntries := ∅, startedEntries := ∅ } }

-- A unit whose accesses and lock orders go through the calls, each loop given up after `fuel` rounds.
def withPipelines (unit : TranslationUnit) (accessIR : AccessIR) (orderIR : LockOrderIR) (fuel : Nat) :
    TranslationUnit :=
  { unit with
    collectPendingAccesses := fun trackedGlobals sharedObjectIds localObjectIds =>
      (unit.collectPendingAccesses trackedGlobals sharedObjectIds localObjectIds).map withoutThreads
    collectLockOrders := fun inputs => collectLockOrders orderIR inputs fuel
    summarizeAccesses := fun inputs => summarizeAccesses accessIR inputs fuel
    projectAccesses := fun inputs accesses => projectAccesses accessIR inputs fuel accesses
    orderStaticInitialization := orderStaticInitialization accessIR }

-- What the builder hands the collection of lock orders.
def lockOrderInputs (unit : TranslationUnit) (selection : FactSelection)
    (program : Option ProgramSymbolIndex) : LockOrderInputs where
  directCallSites := directCallSites unit selection
  lockWrapperSummaries := lockWrapperSummaries unit selection program
  sharedObjectBindings := lockBindings unit selection program
  localObjectIds := localObjectIds unit selection program
  lockPropagation := lockPropagation unit selection program
  taskConcurrency := taskConcurrency unit selection program
  entryConcurrency := entryConcurrency unit selection program

section Summaries

variable (ir : AccessIR) (inputs : AccessInputs)

theorem summary_addSummary (state : PlacementState) (access : ParameterizedAccess) :
    (addSummary ir inputs state access).summary =
      (accessModule ir inputs).addSummary state.summary access := by
  unfold addSummary AccessModule.addSummary
  split <;> rfl

theorem summary_placePending (state : PlacementState) (pending : PendingAccess) :
    (placePending ir inputs state pending).summary =
      if !pending.restatesCalleeAccesses && !isNamed pending.root then
        (accessModule ir inputs).addSummary state.summary (parameterizedAccess ir inputs pending)
      else state.summary := by
  unfold placePending
  cases pending.restatesCalleeAccesses with
  | true => rfl
  | false =>
      cases isNamed pending.root with
      | true => rfl
      | false => exact summary_addSummary ir inputs state _

theorem projectAccess_of_unbound {call : DirectCallBinding} {access : ParameterizedAccess}
    (h : rootAtCall access call = none) : projectAccess call access = none := by
  rw [projectAccess, h]

theorem projectAccess_of_named {call : DirectCallBinding} {access : ParameterizedAccess}
    {root : RootBinding} (h : rootAtCall access call = some root) (hnamed : isNamed root = true) :
    projectAccess call access = none := by
  rw [projectAccess, h]
  exact if_pos hnamed

theorem summary_projectSummary (bound : BoundCall) (state : PlacementState)
    (access : ParameterizedAccess) :
    (projectSummary ir inputs bound state access).summary =
      (projectAccess bound.binding access).elim state.summary
        ((accessModule ir inputs).addSummary state.summary) := by
  unfold projectSummary
  cases hroot : rootAtCall access bound.binding with
  | none =>
      rw [projectAccess_of_unbound hroot]
      rfl
  | some root =>
      dsimp only
      split
      · rename_i hnamed
        rw [projectAccess_of_named hroot hnamed]
        rfl
      · cases projectAccess bound.binding access with
        | none => rfl
        | some projected => exact summary_addSummary ir inputs state projected

-- Beside the accesses that get names, the pipeline makes the summaries of its module.
theorem summary_foldl_projectSummary (bound : BoundCall) (accesses : List ParameterizedAccess)
    (state : PlacementState) :
    (accesses.foldl (projectSummary ir inputs bound) state).summary =
      (accesses.filterMap (projectAccess bound.binding)).foldl (accessModule ir inputs).addSummary
        state.summary := by
  induction accesses generalizing state with
  | nil => rfl
  | cons access accesses ih =>
      rw [List.foldl_cons, ih, summary_projectSummary, List.filterMap_cons]
      cases projectAccess bound.binding access <;> rfl

theorem bindings_boundCalls :
    (boundCalls ir inputs).map (·.binding) = (accessModule ir inputs).directCallBindings := by
  unfold boundCalls AccessModule.directCallBindings
  rw [List.map_filterMap, show (accessModule ir inputs).sites =
    inputs.directCallSites.map (accessCallSite ir inputs) from rfl, List.filterMap_map]
  congr
  funext site
  rw [Option.map_map]
  exact Option.map_id'

theorem summary_placementRound (state : PlacementState) :
    (placementRound ir inputs state).summary =
      (accessModule ir inputs).round state.summary.summaries := by
  have hvisits (bounds : List BoundCall) (state : PlacementState) :
      (bounds.foldl (visitBoundCall ir inputs) state).summary =
        (bounds.map (·.binding)).foldl (accessModule ir inputs).visit state.summary := by
    induction bounds generalizing state with
    | nil => rfl
    | cons bound bounds ih =>
        rw [List.foldl_cons, ih, List.map_cons, List.foldl_cons, visitBoundCall,
          summary_foldl_projectSummary]
        rfl
  rw [placementRound, hvisits, bindings_boundCalls]
  rfl

theorem summary_startPlacement :
    (startPlacement ir inputs).summary.summaries = (accessModule ir inputs).start := by
  have hplaced (pendings : List PendingAccess) (state : PlacementState) :
      (pendings.foldl (placePending ir inputs) state).summary =
        ((pendings.filter fun pending =>
          !pending.restatesCalleeAccesses && !isNamed pending.root).map
            (parameterizedAccess ir inputs)).foldl (accessModule ir inputs).addSummary
              state.summary := by
    induction pendings generalizing state with
    | nil => rfl
    | cons pending pendings ih =>
        rw [List.foldl_cons, ih, summary_placePending, List.filter_cons]
        split
        · rw [List.map_cons, List.foldl_cons]
        · rfl
  rw [startPlacement, hplaced]
  rfl

theorem summary_rounds (rounds : Nat) :
    ((placementRound ir inputs)^[rounds] (startPlacement ir inputs)).summary.summaries =
      (accessModule ir inputs).after rounds := by
  induction rounds with
  | zero => exact summary_startPlacement ir inputs
  | succ rounds ih =>
      rw [Function.iterate_succ_apply', summary_placementRound, ih, AccessModule.after,
        AccessModule.after, Function.iterate_succ_apply']

-- With enough fuel the loop over the summaries ends by itself.
theorem placement_ends : ∃ rounds, ∀ fuel, rounds < fuel →
    EndsAfter (fun _ next : PlacementState => !next.summary.changed) (placementRound ir inputs)
      (startPlacement ir inputs) (placement ir inputs fuel) := by
  obtain ⟨rounds, hrounds⟩ := exists_unchanged_summaries (accessModule ir inputs)
  refine ⟨rounds, fun fuel hfuel => settleLast_ends_of_unchanged ?_ hfuel⟩
  rw [Function.iterate_succ_apply', summary_placementRound, summary_rounds, hrounds, Bool.not_false]

end Summaries

section OpenOrders

variable (ir : LockOrderIR) (inputs : LockOrderInputs)

-- The open orders of some, on their way to their functions.
def openArrivals (throughRecursion : Bool) (orders : List LockOrderFact) : List Arrival :=
  (orders.filter isOpenLockOrder).map fun order => ⟨order, throughRecursion⟩

theorem leftOpen_foldl_takeOrder (throughRecursion : Bool) (orders : List LockOrderFact)
    (state : LockOrderState) :
    (orders.foldl (LockOrderState.takeOrder throughRecursion) state).leftOpen =
      (openArrivals throughRecursion orders).foldl RoundState.receive state.leftOpen := by
  induction orders generalizing state with
  | nil => rfl
  | cons order orders ih =>
      rw [List.foldl_cons, ih, openArrivals, openArrivals, List.filter_cons, LockOrderState.takeOrder]
      split <;> rfl

theorem leftOpen_foldl_takeSpawnedOrder (sharedOrders : List String) (orders : List LockOrderFact)
    (state : LockOrderState) :
    (orders.foldl (LockOrderState.takeSpawnedOrder sharedOrders) state).leftOpen =
      state.leftOpen := by
  induction orders generalizing state with
  | nil => rfl
  | cons order orders ih =>
      rw [List.foldl_cons, ih, LockOrderState.takeSpawnedOrder]
      split <;> rfl

theorem leftOpen_foldl_takeOwnOrder (orders : List LockOrderFact) (state : LockOrderState) :
    (orders.foldl (takeOwnOrder ir inputs) state).leftOpen =
      (openArrivals false orders).foldl RoundState.receive state.leftOpen := by
  induction orders generalizing state with
  | nil => rfl
  | cons order orders ih =>
      rw [List.foldl_cons, ih, openArrivals, openArrivals, List.filter_cons, takeOwnOrder,
        LockOrderState.takeOrder]
      cases isOpenLockOrder order with
      | true => rfl
      | false => cases judgedAtCalls ir inputs order <;> rfl

theorem leftOpen_visitFunction (state : LockOrderState) (function : Function) :
    (visitFunction ir inputs state function).leftOpen =
      (openArrivals false (functionLockOrders ir inputs function)).foldl RoundState.receive
        state.leftOpen := by
  unfold visitFunction
  dsimp only
  split
  · rw [leftOpen_foldl_takeSpawnedOrder, leftOpen_foldl_takeOwnOrder]
  · rw [leftOpen_foldl_takeOwnOrder]

theorem leftOpen_startOrders :
    (startOrders ir inputs).leftOpen.openLockOrders = (lockOrderModule ir inputs).start := by
  have hvisits (functions : List Function) (state : LockOrderState) :
      (functions.foldl (visitFunction ir inputs) state).leftOpen =
        (openArrivals false (functions.flatMap (functionLockOrders ir inputs))).foldl
          RoundState.receive state.leftOpen := by
    induction functions generalizing state with
    | nil => rfl
    | cons function functions ih =>
        rw [List.foldl_cons, ih, leftOpen_visitFunction, List.flatMap_cons, ← List.foldl_append,
          openArrivals, openArrivals, openArrivals, List.filter_append, List.map_append]
  rw [startOrders, hvisits]
  rfl

theorem leftOpen_visitCall (state : LockOrderState) (site : DirectCallSite) :
    (visitCall ir inputs state site).leftOpen =
      if takesCalleeLockOrders ir site then
        ((lockOrderModule ir inputs).arrivalsAtCall state.leftOpen.openLockOrders
          (orderCall ir inputs site)).foldl RoundState.receive state.leftOpen
      else state.leftOpen := by
  have harrivals : (lockOrderModule ir inputs).arrivalsAtCall state.leftOpen.openLockOrders
      (orderCall ir inputs site) =
      openArrivals ((lockOrderModule ir inputs).closesCycle (orderCall ir inputs site))
        (instancesAtCall ir inputs state site) := by
    unfold LockOrderModule.arrivalsAtCall instancesAtCall
    split <;> rfl
  unfold visitCall
  rw [harrivals]
  cases takesCalleeLockOrders ir site with
  | false => rfl
  | true =>
      simp only [Bool.not_true, Bool.false_eq_true, if_false, if_true]
      split
      · rw [leftOpen_foldl_takeOrder]
      · rw [leftOpen_foldl_takeSpawnedOrder, leftOpen_foldl_takeOrder]

-- Beside the closed orders, the pipeline brings each function the open orders of its module.
theorem leftOpen_lockOrderRound (state : LockOrderState) :
    (lockOrderRound ir inputs state).leftOpen =
      (lockOrderModule ir inputs).round state.leftOpen.openLockOrders := by
  have hvisits (sites : List DirectCallSite) (state : LockOrderState) :
      (sites.foldl (visitCall ir inputs) state).leftOpen =
        ((lockOrderModule ir inputs).arrivalsOfCalls
          ((sites.filter (takesCalleeLockOrders ir)).map (orderCall ir inputs))
            state.leftOpen).foldl RoundState.receive state.leftOpen := by
    induction sites generalizing state with
    | nil => rfl
    | cons site sites ih =>
        rw [List.foldl_cons, ih, leftOpen_visitCall, List.filter_cons]
        split
        · rw [List.map_cons, LockOrderModule.arrivalsOfCalls, List.foldl_append]
        · rfl
  rw [lockOrderRound, hvisits]
  rfl

theorem leftOpen_rounds (rounds : Nat) :
    ((lockOrderRound ir inputs)^[rounds] (startOrders ir inputs)).leftOpen.openLockOrders =
      (lockOrderModule ir inputs).after rounds := by
  induction rounds with
  | zero => exact leftOpen_startOrders ir inputs
  | succ rounds ih =>
      rw [Function.iterate_succ_apply', leftOpen_lockOrderRound, ih, LockOrderModule.after]

-- With enough fuel the loop over the open orders ends by itself.
theorem propagateLockOrders_ends : ∃ rounds, ∀ fuel, rounds < fuel →
    EndsAfter (fun _ next : LockOrderState => !next.leftOpen.lockOrdersChanged)
      (lockOrderRound ir inputs) (startOrders ir inputs) (propagateLockOrders ir inputs fuel) := by
  obtain ⟨rounds, hrounds⟩ := exists_unchanged_round (lockOrderModule ir inputs)
  refine ⟨rounds, fun fuel hfuel => settleLast_ends_of_unchanged ?_ hfuel⟩
  rw [Function.iterate_succ_apply', leftOpen_lockOrderRound, leftOpen_rounds, hrounds,
    Bool.not_false]

end OpenOrders

-- Both loops of the builder end by themselves. On the way each has the summaries, or the open orders, of
-- its module of calls, which asks of a call what the search for closing calls answers.
theorem pipelines_settle (accessIR : AccessIR) (accessInputs : AccessInputs) (orderIR : LockOrderIR)
    (orderInputs : LockOrderInputs) :
    (∃ rounds, ∀ fuel, rounds < fuel →
      EndsAfter (fun _ next : PlacementState => !next.summary.changed)
        (placementRound accessIR accessInputs) (startPlacement accessIR accessInputs)
        (placement accessIR accessInputs fuel)) ∧
    (∀ rounds, ((placementRound accessIR accessInputs)^[rounds]
        (startPlacement accessIR accessInputs)).summary.summaries =
      (accessModule accessIR accessInputs).after rounds) ∧
    (∃ rounds, ∀ fuel, rounds < fuel →
      EndsAfter (fun _ next : LockOrderState => !next.leftOpen.lockOrdersChanged)
        (lockOrderRound orderIR orderInputs) (startOrders orderIR orderInputs)
        (propagateLockOrders orderIR orderInputs fuel)) ∧
    (∀ rounds, ((lockOrderRound orderIR orderInputs)^[rounds]
        (startOrders orderIR orderInputs)).leftOpen.openLockOrders =
      (lockOrderModule orderIR orderInputs).after rounds) ∧
    ((accessInputs.directCallSites.map (·.call)).Nodup →
      ∀ order : CallerOrder accessInputs.directCallSites, ∃ bound, ∀ fuel, bound ≤ fuel →
        ∃ closing, callsClosingCycles accessInputs.directCallSites order fuel = some closing ∧
          ∀ site ∈ accessInputs.directCallSites, site.call ∈ closing ↔
            (accessModule accessIR accessInputs).closesCycle
              (accessCallSite accessIR accessInputs site) = true) ∧
    ((orderInputs.directCallSites.map (·.call)).Nodup →
      ∀ order : CallerOrder (orderInputs.directCallSites.filter (takesCalleeLockOrders orderIR)),
        ∃ bound, ∀ fuel, bound ≤ fuel → ∃ closing, callsClosingCycles
            (orderInputs.directCallSites.filter (takesCalleeLockOrders orderIR)) order fuel =
              some closing ∧
          ∀ site ∈ orderInputs.directCallSites, takesCalleeLockOrders orderIR site = true →
            (site.call ∈ closing ↔ (lockOrderModule orderIR orderInputs).closesCycle
              (orderCall orderIR orderInputs site) = true)) := by
  refine ⟨placement_ends accessIR accessInputs, summary_rounds accessIR accessInputs,
    propagateLockOrders_ends orderIR orderInputs, leftOpen_rounds orderIR orderInputs, ?_, ?_⟩
  · intro hdistinct order
    refine ⟨StrongComponents.enoughFuel (calleesOf accessInputs.directCallSites)
      (namedFunctions accessInputs.directCallSites), fun fuel hfuel => ?_⟩
    obtain ⟨closing, hfound, hclosing⟩ := exists_closingCalls order hfuel
    refine ⟨closing, hfound, fun site hsite => ?_⟩
    have harcs : (accessModule accessIR accessInputs).arcs = callArcs accessInputs.directCallSites := by
      unfold AccessModule.arcs accessModule callArcs
      rw [List.map_map]
      rfl
    rw [closing_iff_reach hdistinct hclosing hsite, AccessModule.closesCycle, harcs, decide_eq_true_eq]
    rfl
  · intro hdistinct order
    refine ⟨StrongComponents.enoughFuel
      (calleesOf (orderInputs.directCallSites.filter (takesCalleeLockOrders orderIR)))
      (namedFunctions (orderInputs.directCallSites.filter (takesCalleeLockOrders orderIR))),
      fun fuel hfuel => ?_⟩
    obtain ⟨closing, hfound, hclosing⟩ := exists_closingCalls order hfuel
    refine ⟨closing, hfound, fun site hsite htakes => ?_⟩
    have hfollowed : site ∈ orderInputs.directCallSites.filter (takesCalleeLockOrders orderIR) :=
      List.mem_filter.mpr ⟨hsite, htakes⟩
    have harcs : (lockOrderModule orderIR orderInputs).arcs =
        callArcs (orderInputs.directCallSites.filter (takesCalleeLockOrders orderIR)) := by
      unfold LockOrderModule.arcs lockOrderModule callArcs
      rw [List.map_map]
      rfl
    have hapart : ((orderInputs.directCallSites.filter
        (takesCalleeLockOrders orderIR)).map (·.call)).Nodup :=
      hdistinct.sublist (List.filter_sublist.map _)
    rw [closing_iff_reach hapart hclosing hfollowed, LockOrderModule.closesCycle, harcs,
      decide_eq_true_eq]
    rfl

end ConcurrencyAnalyzer.FactsBuilder
