import Mathlib.Algebra.Order.BigOperators.Group.Finset
import ConcurrencyAnalyzer.FactsBuilder.OpenLockOrderRuns

namespace ConcurrencyAnalyzer.FactsBuilder

open Library Library.KeepFirst

variable {module : LockOrderModule}

section Bound

theorem arrival_origin {rounds : Nat} {arrival : Arrival} (h : arrival ∈ module.arrivals rounds) :
    (∃ order ∈ module.collected, arrival = ⟨order, false⟩) ∨
      ∃ later, ∃ site ∈ module.calls, arrival.throughRecursion = module.closesCycle site ∧
        ∃ order, orderShape order ∈ shapes (module.after later site.calleeFunctionId).orders ∧
          arrival.order ∈ instantiateAtCall order site.call := by
  induction rounds with
  | zero =>
      obtain ⟨order, horder, rfl⟩ := List.mem_map.mp h
      exact Or.inl ⟨order, (List.mem_filter.mp horder).1, rfl⟩
  | succ rounds ih =>
      rcases List.mem_append.mp h with hbefore | hround
      · exact ih hbefore
      · right
        exact ⟨rounds + 1, arrival_of_calls hround⟩

theorem nodup_keys_after (module : LockOrderModule) (rounds : Nat) (functionId : String) :
    ((module.after rounds functionId).orders.map lockOrderKey).Nodup := by
  rw [after_eq_foldl]
  apply foldl_receive_invariant (P := fun leftOpen => (leftOpen.orders.map lockOrderKey).Nodup)
  · intro leftOpen arrival _ _ hnodup
    rcases addOpenLockOrder_cases leftOpen arrival.order arrival.throughRecursion with
      ⟨-, -, -, heq⟩ | ⟨horders, -⟩
    · rw [heq]
      exact hnodup
    · rw [horders]
      exact nodup_keep lockOrderKey_uniteThreads _ hnodup
  · exact List.nodup_nil

theorem nodup_shapes_after (module : LockOrderModule) (rounds : Nat) (functionId : String) :
    (shapes (module.after rounds functionId).orders).Nodup := by
  have h := nodup_keys_after module rounds functionId
  rw [← map_lockOrderKey_shapes] at h
  exact h.of_map

-- At most so many orders are not among the expected ones as calls closing a cycle were let bring.
structure Bounded (names : Finset String) (expected : Finset LockOrderFact)
    (leftOpen : OpenLockOrders) : Prop where
  names : leftOpen.lockIdsOutsideRecursion ⊆ names
  others : ((shapes leftOpen.orders).filter (· ∉ expected)).length ≤
    leftOpen.ordersOnLocksOnlyARecursionNames
  bound : leftOpen.ordersOnLocksOnlyARecursionNames ≤ kMaxOrdersOnLocksOnlyARecursionNames

theorem others_keepLockOrder_of_mem {expected : Finset LockOrderFact} {orders : List LockOrderFact}
    {order : LockOrderFact} (h : orderShape order ∈ expected) :
    (shapes (keepLockOrder orders order)).filter (· ∉ expected) =
      (shapes orders).filter (· ∉ expected) := by
  rw [shapes_keepLockOrder]
  split
  · rfl
  · rw [List.filter_append]
    simp [h]

theorem length_keepLockOrder (orders : List LockOrderFact) (order : LockOrderFact) :
    (keepLockOrder orders order).length =
      orders.length + if lockOrderKey order ∈ orders.map lockOrderKey then 0 else 1 := by
  have h := congrArg List.length (shapes_keepLockOrder orders order)
  unfold shapes at h
  rw [List.length_map] at h
  rw [h]
  split
  · rw [List.length_map]
    rfl
  · rw [List.length_append, List.length_map]
    rfl

theorem others_keepLockOrder_le (expected : Finset LockOrderFact) (orders : List LockOrderFact)
    (order : LockOrderFact) :
    ((shapes (keepLockOrder orders order)).filter (· ∉ expected)).length ≤
      ((shapes orders).filter (· ∉ expected)).length +
        ((keepLockOrder orders order).length - orders.length) := by
  rw [length_keepLockOrder, shapes_keepLockOrder]
  split
  · omega
  · rw [List.filter_append, List.length_append]
    have := List.length_filter_le (· ∉ expected) [orderShape order]
    rw [List.length_singleton] at this
    omega

theorem bounded_addOpenLockOrder {names : Finset String} {expected : Finset LockOrderFact}
    {leftOpen : OpenLockOrders} (h : Bounded names expected leftOpen) {arrival : Arrival}
    (houtside : arrival.throughRecursion = false → orderShape arrival.order ∈ expected ∧
      arrival.order.firstLockId ∈ names ∧ arrival.order.secondLockId ∈ names)
    (hrecursion : arrival.throughRecursion = true → arrival.order.firstLockId ∈ names →
      arrival.order.secondLockId ∈ names → orderShape arrival.order ∈ expected) :
    Bounded names expected
      (addOpenLockOrder leftOpen arrival.order arrival.throughRecursion).1 := by
  unfold addOpenLockOrder
  cases hthrough : arrival.throughRecursion with
  | false =>
      obtain ⟨hexpected, hfirst, hsecond⟩ := houtside hthrough
      refine ⟨?_, ?_, h.bound⟩
      · exact Finset.insert_subset hsecond (Finset.insert_subset hfirst h.names)
      · change ((shapes (keepLockOrder leftOpen.orders arrival.order)).filter _).length ≤ _
        rw [others_keepLockOrder_of_mem hexpected]
        exact h.others
  | true =>
      simp only [Bool.not_true, Bool.false_eq_true, if_false]
      split
      · rename_i hnamed
        simp only [namedOutsideRecursion, Bool.and_eq_true, decide_eq_true_eq] at hnamed
        have hexpected := hrecursion hthrough (h.names hnamed.1) (h.names hnamed.2)
        refine ⟨h.names, ?_, h.bound⟩
        change ((shapes (keepLockOrder leftOpen.orders arrival.order)).filter _).length ≤ _
        rw [others_keepLockOrder_of_mem hexpected]
        exact h.others
      · split
        · exact h
        · rename_i hroom
          have hothers := others_keepLockOrder_le expected leftOpen.orders arrival.order
          have hlength := length_keepLockOrder leftOpen.orders arrival.order
          have hbefore := h.others
          refine ⟨h.names, ?_, ?_⟩
          · dsimp only
            omega
          · dsimp only
            split at hlength <;> omega

theorem length_le_of_bounded {names : Finset String} {expected : Finset LockOrderFact}
    {leftOpen : OpenLockOrders} (h : Bounded names expected leftOpen)
    (hnodup : (shapes leftOpen.orders).Nodup) :
    (shapes leftOpen.orders).length ≤ expected.card + kMaxOrdersOnLocksOnlyARecursionNames := by
  have hsplit := List.length_eq_length_filter_add (l := shapes leftOpen.orders) (· ∈ expected)
  have hexpected : ((shapes leftOpen.orders).filter (· ∈ expected)).length ≤ expected.card := by
    rw [← List.toFinset_card_of_nodup (hnodup.filter _)]
    apply Finset.card_le_card
    intro shape hshape
    simpa using (List.mem_filter.mp (List.mem_toFinset.mp hshape)).2
  have hothers := h.others
  have hbound := h.bound
  have hsame : ((shapes leftOpen.orders).filter fun shape => !decide (shape ∈ expected)).length =
      ((shapes leftOpen.orders).filter (· ∉ expected)).length := by
    congr
    funext shape
    simp
  omega

-- The orders a function may come to have outside its recursions, given those of the functions below.
noncomputable def shapesOutside (module : LockOrderModule) (functionId : String)
    (below : String → Finset LockOrderFact) : Finset LockOrderFact :=
  let sites := module.calls.filter fun site =>
    site.call.callerFunctionId = functionId && !module.closesCycle site
  (shapes (module.collected ++ sites.flatMap fun site =>
    (below site.calleeFunctionId).toList.flatMap (instantiateAtCall · site.call))).toFinset

def lockNames (orders : Finset LockOrderFact) : Finset String :=
  orders.image (·.firstLockId) ∪ orders.image (·.secondLockId)

-- The orders that the calls of a function may bring it on given names.
def shapesOnNames (module : LockOrderModule) (functionId : String) (names : Finset String) :
    Finset LockOrderFact :=
  (names ×ˢ names ×ˢ (module.calls.map (·.call.userLocation)).toFinset ×ˢ Finset.univ (α := Bool) ×ˢ
      Finset.univ (α := Bool)).image fun (first, second, location, lower, recursive) =>
    { functionId := functionId
      firstLockId := first
      secondLockId := second
      location := location
      lowerAddressFirst := lower
      secondIsRecursive := recursive }

theorem collected_mem_shapesOutside {functionId : String} {below : String → Finset LockOrderFact}
    {order : LockOrderFact} (h : order ∈ module.collected) :
    orderShape order ∈ shapesOutside module functionId below :=
  List.mem_toFinset.mpr (List.mem_map_of_mem (List.mem_append_left _ h))

theorem instance_mem_shapesOutside {functionId : String} {below : String → Finset LockOrderFact}
    {site : OrderCall} (hsite : site ∈ module.calls)
    (hcaller : site.call.callerFunctionId = functionId) (hopen : module.closesCycle site = false)
    {order instantiated : LockOrderFact} (horder : orderShape order ∈ below site.calleeFunctionId)
    (hinstance : instantiated ∈ instantiateAtCall order site.call) :
    orderShape instantiated ∈ shapesOutside module functionId below := by
  have hagree : AgreeAtCalls order (orderShape order) := ⟨rfl, rfl, rfl, rfl⟩
  obtain ⟨alike, halike, hshape⟩ := exists_instance_of_agree hagree hinstance
  rw [shapesOutside, List.mem_toFinset, ← hshape]
  apply List.mem_map_of_mem
  apply List.mem_append_right
  refine List.mem_flatMap.mpr ⟨site, List.mem_filter.mpr ⟨hsite, by simp [hcaller, hopen]⟩, ?_⟩
  exact List.mem_flatMap.mpr ⟨orderShape order, Finset.mem_toList.mpr horder, halike⟩

theorem lockNames_of_mem {orders : Finset LockOrderFact} {order : LockOrderFact}
    (h : orderShape order ∈ orders) :
    order.firstLockId ∈ lockNames orders ∧ order.secondLockId ∈ lockNames orders :=
  ⟨Finset.mem_union_left _ (Finset.mem_image.mpr ⟨_, h, rfl⟩),
    Finset.mem_union_right _ (Finset.mem_image.mpr ⟨_, h, rfl⟩)⟩

theorem instance_mem_shapesOnNames {names : Finset String} {site : OrderCall}
    (hsite : site ∈ module.calls) {order instantiated : LockOrderFact}
    (hinstance : instantiated ∈ instantiateAtCall order site.call)
    (hfirst : instantiated.firstLockId ∈ names) (hsecond : instantiated.secondLockId ∈ names) :
    orderShape instantiated ∈ shapesOnNames module instantiated.functionId names := by
  obtain ⟨-, hlocation, hspawn, -⟩ := instance_of_call hinstance
  refine Finset.mem_image.mpr ⟨(instantiated.firstLockId, instantiated.secondLockId,
    instantiated.location, instantiated.lowerAddressFirst, instantiated.secondIsRecursive), ?_, ?_⟩
  · simp only [Finset.mem_product, Finset.mem_univ, and_true]
    refine ⟨hfirst, hsecond, ?_⟩
    rw [hlocation, List.mem_toFinset]
    exact List.mem_map_of_mem hsite
  · simp [orderShape, hspawn]

-- Given the orders of the functions that its calls outside a recursion reach, those of a function are
-- bounded: only so many more may be on locks that a recursion alone names.
theorem bounded_after (functionId : String) {below : String → Finset LockOrderFact}
    (hbelow : ∀ site ∈ module.calls, site.call.callerFunctionId = functionId →
      module.closesCycle site = false → ∀ rounds,
        ∀ shape ∈ shapes (module.after rounds site.calleeFunctionId).orders,
          shape ∈ below site.calleeFunctionId) (rounds : Nat) :
    Bounded (lockNames (shapesOutside module functionId below))
      (shapesOutside module functionId below ∪ shapesOnNames module functionId
        (lockNames (shapesOutside module functionId below))) (module.after rounds functionId) := by
  rw [after_eq_foldl]
  apply foldl_receive_invariant
  · intro leftOpen arrival harrival hfunction hbounded
    apply bounded_addOpenLockOrder hbounded
    · intro houtside
      have hshape : orderShape arrival.order ∈ shapesOutside module functionId below := by
        rcases arrival_origin harrival with ⟨order, horder, rfl⟩ |
          ⟨later, site, hsite, hcloses, order, horder, hinstance⟩
        · exact collected_mem_shapesOutside horder
        · have hcaller := (instance_of_call hinstance).1.symm.trans hfunction
          have hopen : module.closesCycle site = false := hcloses.symm.trans houtside
          exact instance_mem_shapesOutside hsite hcaller hopen
            (hbelow site hsite hcaller hopen later _ horder) hinstance
      exact ⟨Finset.mem_union_left _ hshape, lockNames_of_mem hshape⟩
    · intro hrecursion hfirst hsecond
      rcases arrival_origin harrival with ⟨order, horder, rfl⟩ |
        ⟨later, site, hsite, hcloses, order, horder, hinstance⟩
      · cases hrecursion
      · have hshape := instance_mem_shapesOnNames hsite hinstance hfirst hsecond
        rw [hfunction] at hshape
        exact Finset.mem_union_right _ hshape
  · exact ⟨Finset.empty_subset _, by simp [shapes], by simp⟩

-- By induction on how many functions a function reaches, which a call outside a recursion lowers.
theorem exists_shapes_bound (module : LockOrderModule) (functionId : String) :
    ∃ bound : Finset LockOrderFact, ∀ rounds,
      ∀ shape ∈ shapes (module.after rounds functionId).orders, shape ∈ bound := by
  induction hrank : (Components.reach module.arcs functionId).card using Nat.strong_induction_on
    generalizing functionId with
  | _ rank ih =>
      have hcallee : ∀ callee : String, ∃ bound : Finset LockOrderFact,
          (Components.reach module.arcs callee).card < rank → ∀ rounds,
            ∀ shape ∈ shapes (module.after rounds callee).orders, shape ∈ bound := by
        intro callee
        by_cases hlt : (Components.reach module.arcs callee).card < rank
        · obtain ⟨bound, hbound⟩ := ih _ hlt callee rfl
          exact ⟨bound, fun _ => hbound⟩
        · exact ⟨∅, fun h => absurd h hlt⟩
      choose below hbelow using hcallee
      have hsites : ∀ site ∈ module.calls, site.call.callerFunctionId = functionId →
          module.closesCycle site = false → ∀ rounds,
            ∀ shape ∈ shapes (module.after rounds site.calleeFunctionId).orders,
              shape ∈ below site.calleeFunctionId := by
        intro site hsite hcaller hopen
        apply hbelow
        have harc : Components.Arc module.arcs functionId site.calleeFunctionId := by
          rw [← hcaller]
          exact List.mem_map_of_mem hsite
        rw [← hrank]
        apply Components.card_reach_lt harc
        rw [← hcaller]
        simpa [LockOrderModule.closesCycle] using hopen
      have hbounded := bounded_after functionId hsites
      obtain ⟨last, hlast⟩ := Saturation.exists_longest
        (fun rounds => shapes (module.after rounds functionId).orders)
        (fun h => (grows_after module h functionId).shapes)
        fun rounds => length_le_of_bounded (hbounded rounds) (nodup_shapes_after module rounds _)
      refine ⟨(shapes (module.after last functionId).orders).toFinset, ?_⟩
      intro rounds shape hshape
      exact List.mem_toFinset.mpr ((hlast rounds).subset hshape)

end Bound

section Termination

-- Every thread beside an order is one that a function's own order runs beside.
def threadEntries (module : LockOrderModule) : ThreadEntrySet :=
  module.collected.toFinset.biUnion fun order => order.liveEntries ∪ order.startedEntries

theorem subset_threadEntries {order : LockOrderFact} (h : order ∈ module.collected) :
    order.liveEntries ∪ order.startedEntries ⊆ threadEntries module :=
  Finset.subset_biUnion_of_mem (fun order : LockOrderFact => order.liveEntries ∪ order.startedEntries)
    (List.mem_toFinset.mpr h)

theorem threads_after (module : LockOrderModule) (rounds : Nat) :
    AllOrders (fun order => order.liveEntries ⊆ threadEntries module ∧
      order.startedEntries ⊆ threadEntries module) (module.after rounds) := by
  apply allOrders_after
  · intro order horder _
    exact Finset.union_subset_iff.mp (subset_threadEntries horder)
  · intro kept order hkept horder
    exact ⟨Finset.union_subset hkept.1 horder.1, Finset.union_subset hkept.2 horder.2⟩
  · intro order horder site _ _ _ instantiated hinstance _
    obtain ⟨-, -, -, -, -, hlive, hstarted⟩ := instance_of_call hinstance
    exact ⟨hlive.trans horder.1, hstarted.trans horder.1⟩

theorem exists_weight_bound (module : LockOrderModule) (functionId : String) :
    ∃ bound, ∀ rounds, orderWeight (module.after rounds functionId).orders ≤ bound := by
  obtain ⟨shapeBound, hshapes⟩ := exists_shapes_bound module functionId
  refine ⟨shapeBound.card * (1 + 2 * (threadEntries module).card), fun rounds => ?_⟩
  have hlength : (module.after rounds functionId).orders.length ≤ shapeBound.card := by
    calc (module.after rounds functionId).orders.length
        = (shapes (module.after rounds functionId).orders).length := by simp [shapes]
      _ = (shapes (module.after rounds functionId).orders).toFinset.card :=
          (List.toFinset_card_of_nodup (nodup_shapes_after module rounds functionId)).symm
      _ ≤ shapeBound.card := by
          apply Finset.card_le_card
          intro shape hshape
          exact hshapes rounds shape (List.mem_toFinset.mp hshape)
  have hsum : orderWeight (module.after rounds functionId).orders ≤
      (module.after rounds functionId).orders.length * (1 + 2 * (threadEntries module).card) := by
    apply weight_le_of_size_le
    intro order horder
    obtain ⟨-, hlive, hstarted⟩ := threads_after module rounds functionId order horder
    have hliveCard := Finset.card_le_card hlive
    have hstartedCard := Finset.card_le_card hstarted
    unfold threadCount
    omega
  exact hsum.trans (Nat.mul_le_mul_right _ hlength)

-- A round that reports a change adds to the weight of some caller's orders, and the weights of all
-- callers are bounded.
theorem exists_unchanged_round (module : LockOrderModule) :
    ∃ rounds, (module.round (module.after rounds)).lockOrdersChanged = false := by
  by_contra hnone
  push Not at hnone
  choose bound hbound using exists_weight_bound module
  set callers := (module.calls.map (·.call.callerFunctionId)).toFinset with hcallers
  have hgrow : ∀ rounds,
      rounds ≤ ∑ functionId ∈ callers, orderWeight (module.after rounds functionId).orders := by
    intro rounds
    induction rounds with
    | zero => omega
    | succ rounds ih =>
        have hchanged : (module.round (module.after rounds)).lockOrdersChanged = true := by
          simpa using hnone rounds
        obtain ⟨arrival, harrival, hlt⟩ := weight_lt_of_changed rfl hchanged
        obtain ⟨site, hsite, -, order, -, hinstance⟩ := arrival_of_calls harrival
        have hcaller : arrival.order.functionId ∈ callers := by
          rw [(instance_of_call hinstance).1, hcallers, List.mem_toFinset]
          exact List.mem_map_of_mem hsite
        have hsum := Finset.sum_lt_sum
          (fun functionId _ => (grows_after module (Nat.le_add_right rounds 1) functionId).weight)
          ⟨arrival.order.functionId, hcaller, hlt⟩
        omega
  have hsum : ∀ rounds, ∑ functionId ∈ callers, orderWeight (module.after rounds functionId).orders ≤
      ∑ functionId ∈ callers, bound functionId :=
    fun rounds => Finset.sum_le_sum fun functionId _ => hbound functionId rounds
  have hlast := hgrow (∑ functionId ∈ callers, bound functionId + 1)
  have := hsum (∑ functionId ∈ callers, bound functionId + 1)
  omega

theorem propagate_isSome (module : LockOrderModule) {rounds : Nat}
    (h : (module.round (module.after rounds)).lockOrdersChanged = false) {before : Nat}
    (hbefore : before ≤ rounds) :
    (module.propagate (rounds - before + 1) (module.after before)).isSome = true := by
  induction hleft : rounds - before generalizing before with
  | zero =>
      have heq : before = rounds := by omega
      subst heq
      simp [LockOrderModule.propagate, h]
  | succ left ih =>
      rw [LockOrderModule.propagate]
      split
      · have hnext : before + 1 ≤ rounds := by omega
        exact ih hnext (by omega)
      · rfl

-- The loop ends in the round that reports no change.
theorem propagate_eq_some {fuel before : Nat} {result : OpenByFunction}
    (h : module.propagate fuel (module.after before) = some result) :
    ∃ rounds, result = module.after (rounds + 1) ∧
      (module.round (module.after rounds)).lockOrdersChanged = false := by
  induction fuel generalizing before with
  | zero => cases h
  | succ fuel ih =>
      rw [LockOrderModule.propagate] at h
      split at h
      · have hnext : module.propagate fuel (module.after (before + 1)) = some result := h
        exact ih hnext
      · rename_i hunchanged
        cases h
        exact ⟨before, rfl, by simpa using hunchanged⟩

end Termination

section Admitted

theorem counter_addOpenLockOrder (leftOpen : OpenLockOrders) (arrival : Arrival) :
    (addOpenLockOrder leftOpen arrival.order
        arrival.throughRecursion).1.ordersOnLocksOnlyARecursionNames =
      leftOpen.ordersOnLocksOnlyARecursionNames +
        if admitsThroughRecursion leftOpen arrival then 1 else 0 := by
  unfold admitsThroughRecursion addOpenLockOrder
  cases arrival.throughRecursion with
  | false => simp
  | true =>
      by_cases hnamed : namedOutsideRecursion leftOpen arrival.order = true
      · simp [hnamed]
      · by_cases hbound : kMaxOrdersOnLocksOnlyARecursionNames ≤
            leftOpen.ordersOnLocksOnlyARecursionNames
        · simp [hnamed, hbound]
        · have hlength := length_keepLockOrder leftOpen.orders arrival.order
          simp only [hnamed, hbound, Bool.not_true, Bool.false_eq_true, if_false, Bool.not_false,
            Bool.true_and, decide_eq_true_eq, hlength]
          split <;> simp

theorem counter_le_addOpenLockOrder {leftOpen : OpenLockOrders}
    (h : leftOpen.ordersOnLocksOnlyARecursionNames ≤ kMaxOrdersOnLocksOnlyARecursionNames)
    (arrival : Arrival) :
    (addOpenLockOrder leftOpen arrival.order
        arrival.throughRecursion).1.ordersOnLocksOnlyARecursionNames ≤
      kMaxOrdersOnLocksOnlyARecursionNames := by
  have hlength := length_keepLockOrder leftOpen.orders arrival.order
  unfold addOpenLockOrder
  dsimp only
  split
  · exact h
  · split
    · exact h
    · split
      · exact h
      · dsimp only
        split at hlength <;> omega

theorem admitted_add_counter_le (functionId : String) (arrivals : List Arrival) {state : RoundState}
    (h : (state.openLockOrders functionId).ordersOnLocksOnlyARecursionNames ≤
      kMaxOrdersOnLocksOnlyARecursionNames) :
    (state.openLockOrders functionId).ordersOnLocksOnlyARecursionNames +
        admittedThroughRecursion functionId state arrivals ≤
      kMaxOrdersOnLocksOnlyARecursionNames := by
  induction arrivals generalizing state with
  | nil => simpa [admittedThroughRecursion] using h
  | cons arrival arrivals ih =>
      rw [admittedThroughRecursion]
      have hnext := receive_openLockOrders state arrival functionId
      by_cases hfunction : functionId = arrival.order.functionId
      · rw [if_pos hfunction] at hnext
        have hcounter := counter_addOpenLockOrder (state.openLockOrders functionId) arrival
        have hbound := counter_le_addOpenLockOrder h arrival
        rw [← hnext] at hcounter hbound
        have := ih hbound
        simp only [hfunction.symm, decide_true, Bool.true_and]
        omega
      · rw [if_neg hfunction] at hnext
        have hsame : ¬arrival.order.functionId = functionId := fun heq => hfunction heq.symm
        have := ih (hnext ▸ h)
        rw [hnext] at this
        simp only [hsame, decide_false, Bool.false_and, Bool.false_eq_true, if_false]
        omega

end Admitted

section Contained

theorem isOpenLockOrder_of_shape {order other : LockOrderFact}
    (h : orderShape order = orderShape other) : isOpenLockOrder order = isOpenLockOrder other := by
  obtain ⟨hfirst, hsecond, -⟩ := agreeAtCalls_of_shape h
  rw [isOpenLockOrder, isOpenLockOrder, hfirst, hsecond]

theorem functionId_of_shape {order other : LockOrderFact} (h : orderShape order = orderShape other) :
    order.functionId = other.functionId := congrArg (·.functionId) h

theorem derivable_after (module : LockOrderModule) (rounds : Nat) :
    AllOrders (fun order => ∃ derived, module.Derivable (fun _ => True) derived ∧
      orderShape derived = orderShape order) (module.after rounds) := by
  apply allOrders_after
  · intro order horder hopen
    exact ⟨order, .own horder hopen, rfl⟩
  · rintro kept order ⟨derived, hderived, hshape⟩ _
    exact ⟨derived, hderived, hshape⟩
  · rintro order ⟨derived, hderived, hshape⟩ site hsite hruns hcallee instantiated hinstance hopen
    obtain ⟨alike, halike, hsame⟩ :=
      exists_instance_of_agree (agreeAtCalls_of_shape hshape.symm) hinstance
    refine ⟨alike, ?_, hsame⟩
    exact .atCall hderived hsite trivial hruns ((functionId_of_shape hshape).trans hcallee) halike
      ((isOpenLockOrder_of_shape hsame).trans hopen)

-- An order that calls closing no cycle yield shares its key only with orders that bring a caller all
-- it would: none whose second lock may be taken again, unless its own may.
def LockOrderModule.KeysTellRecursiveLocks (module : LockOrderModule) : Prop :=
  ∀ order kept, module.Derivable (fun site => module.closesCycle site = false) order →
    module.Derivable (fun _ => True) kept → kept.functionId = order.functionId →
    lockOrderKey kept = lockOrderKey order → CoversAtCalls kept order

theorem covers_of_key (hkeys : module.KeysTellRecursiveLocks) {order kept : LockOrderFact}
    (horder : module.Derivable (fun site => module.closesCycle site = false) order) {rounds : Nat}
    (hkept : kept ∈ (module.after rounds order.functionId).orders)
    (hkey : lockOrderKey kept = lockOrderKey order) : CoversAtCalls kept order := by
  obtain ⟨hfunction, derived, hderived, hshape⟩ :=
    derivable_after module rounds order.functionId kept hkept
  have hcovers := hkeys order derived horder hderived
    ((functionId_of_shape hshape).trans hfunction)
    (by rw [← lockOrderKey_orderShape, hshape, lockOrderKey_orderShape, hkey])
  obtain ⟨hfirst, hsecond, hlower, hrecursive⟩ := agreeAtCalls_of_shape hshape
  exact ⟨hfirst ▸ hcovers.firstLockId, hsecond ▸ hcovers.secondLockId,
    hlower ▸ hcovers.lowerAddressFirst, hrecursive ▸ hcovers.secondIsRecursive⟩

-- By induction on the chain of calls: the callee has an order of the same key, and the last round,
-- which changed nothing, instantiated that one.
theorem key_mem_of_derivable (hkeys : module.KeysTellRecursiveLocks) {rounds : Nat}
    (hunchanged : (module.round (module.after rounds)).lockOrdersChanged = false)
    {order : LockOrderFact}
    (h : module.Derivable (fun site => module.closesCycle site = false) order) :
    lockOrderKey order ∈ (module.after rounds order.functionId).orders.map lockOrderKey := by
  induction h with
  | @own order horder hopen =>
      apply (grows_after module (Nat.zero_le rounds) order.functionId).keys
      have harrival : (⟨order, false⟩ : Arrival) ∈ module.ownArrivals :=
        List.mem_map_of_mem (List.mem_filter.mpr ⟨horder, hopen⟩)
      exact key_mem_foldl_receive harrival rfl {}
  | @atCall order instantiated site hderivable hsite hopenCall hruns hcallee hinstance hopen ih =>
      obtain ⟨kept, hkept, hkey⟩ := List.mem_map.mp ih
      have hcovers := covers_of_key hkeys hderivable hkept hkey
      obtain ⟨alike, halike, hshape⟩ := exists_instance_of_covers hcovers hinstance
      have hopenAlike : isOpenLockOrder alike = true := by
        have hfirst : alike.firstLockId = instantiated.firstLockId :=
          congrArg (·.firstLockId) hshape
        have hsecond : alike.secondLockId = instantiated.secondLockId :=
          congrArg (·.secondLockId) hshape
        rw [isOpenLockOrder, hfirst, hsecond]
        exact hopen
      rw [hcallee] at hkept
      let state : RoundState := { openLockOrders := module.after rounds }
      obtain ⟨arrival, harrival, hrecursion, hsame⟩ :
          ∃ arrival ∈ module.arrivalsOfCalls module.calls state,
            arrival.throughRecursion = module.closesCycle site ∧
            orderShape arrival.order = orderShape alike :=
        arrival_mem_of_calls hsite hruns hkept halike hopenAlike
      have hkeyAlike : lockOrderKey arrival.order = lockOrderKey instantiated := by
        rw [← lockOrderKey_orderShape, hsame, hshape]
        rfl
      have hfunction : arrival.order.functionId = instantiated.functionId := by
        rw [functionId_of_shape hsame]
        exact congrArg (·.functionId) hshape
      have hmem := key_mem_foldl_receive harrival (hrecursion.trans hopenCall) state
      have horders := orders_of_unchanged hunchanged instantiated.functionId
      rw [hkeyAlike, hfunction] at hmem
      rw [← horders]
      exact hmem

end Contained

-- The loop ends; no function lets in more than so many orders on locks that only a recursion names
-- there; and where keys tell orders apart, none that calls outside recursions yield is lost.
theorem open_lock_orders_propagate (module : LockOrderModule) :
    (∃ fuel, (module.propagate fuel module.start).isSome = true) ∧
      (∀ rounds functionId, admittedThroughRecursion functionId {} (module.arrivals rounds) ≤
        kMaxOrdersOnLocksOnlyARecursionNames) ∧
      (module.KeysTellRecursiveLocks → ∀ fuel result,
        module.propagate fuel module.start = some result →
        ∀ order, module.Derivable (fun site => module.closesCycle site = false) order →
          ∃ kept ∈ (result order.functionId).orders, lockOrderKey kept = lockOrderKey order) := by
  refine ⟨?_, ?_, ?_⟩
  · obtain ⟨rounds, hunchanged⟩ := exists_unchanged_round module
    exact ⟨_, propagate_isSome module hunchanged (Nat.zero_le rounds)⟩
  · intro rounds functionId
    have hstart : (({} : RoundState).openLockOrders functionId).ordersOnLocksOnlyARecursionNames ≤
        kMaxOrdersOnLocksOnlyARecursionNames := Nat.zero_le _
    have h := admitted_add_counter_le functionId (module.arrivals rounds) hstart
    simpa using h
  · intro hkeys fuel result hresult order horder
    have hstart : module.propagate fuel (module.after 0) = some result := hresult
    obtain ⟨rounds, rfl, hunchanged⟩ := propagate_eq_some hstart
    have hmem := key_mem_of_derivable hkeys hunchanged horder
    have hsame : (module.after (rounds + 1) order.functionId).orders =
        (module.after rounds order.functionId).orders := orders_of_unchanged hunchanged _
    rw [hsame]
    exact List.mem_map.mp hmem

section Slots

-- `take_slot(p, i)` takes some lock of an array of what it is handed.
def takeSlot (line : Nat) (secondIsRecursive : Bool) : LockOrderFact where
  functionId := "take_slot"
  firstLockId := kLocksHeldByCaller
  secondLockId := "%arg0[*]"
  location := { file := "slots.cpp", line := line }
  secondIsRecursive := secondIsRecursive

def passSlots : OrderCall where
  calleeFunctionId := "take_slot"
  call :=
    { callerFunctionId := "pass_slots"
      userLocation := { file := "slots.cpp", line := 20 }
      passed := fun _ => some "%arg0" }

def holdSlot : OrderCall where
  calleeFunctionId := "pass_slots"
  call :=
    { callerFunctionId := "hold_slot"
      userLocation := { file := "slots.cpp", line := 30 }
      passed := fun _ => some "%arg0"
      heldAtCall := {"%arg0[*]"} }

-- `pass_slots(p)` calls `take_slot`, and `hold_slot(p)` calls `pass_slots` with a lock of `p` held.
def slots (collected : List LockOrderFact) : LockOrderModule where
  calls := [passSlots, holdSlot]
  collected := collected

def passedSlot (secondIsRecursive : Bool) : LockOrderFact where
  functionId := "pass_slots"
  firstLockId := kLocksHeldByCaller
  secondLockId := "%arg0[*]"
  location := { file := "slots.cpp", line := 20 }
  secondIsRecursive := secondIsRecursive

def heldSlot (first : String) : LockOrderFact where
  functionId := "hold_slot"
  firstLockId := first
  secondLockId := "%arg0[*]"
  location := { file := "slots.cpp", line := 30 }
  heldLocks := {"%arg0[*]"}

theorem slots_derivable {Followed : OrderCall → Prop} {order : LockOrderFact}
    (h : (slots [takeSlot 10 false]).Derivable Followed order) :
    order ∈ [takeSlot 10 false, passedSlot false, heldSlot kLocksHeldByCaller,
      heldSlot "%arg0[*]"] := by
  have hcalls : ∀ order ∈ [takeSlot 10 false, passedSlot false, heldSlot kLocksHeldByCaller,
      heldSlot "%arg0[*]"], ∀ site ∈ [passSlots, holdSlot],
      order.functionId = site.calleeFunctionId → ∀ instantiated ∈ instantiateAtCall order site.call,
        instantiated ∈ [takeSlot 10 false, passedSlot false, heldSlot kLocksHeldByCaller,
          heldSlot "%arg0[*]"] := by
    decide +kernel
  induction h with
  | own h _ =>
      rw [List.mem_singleton.mp h]
      exact List.mem_cons_self ..
  | atCall _ hsite _ _ hcallee hinstance _ ih => exact hcalls _ ih _ hsite hcallee _ hinstance

theorem slots_keysTellRecursiveLocks : (slots [takeSlot 10 false]).KeysTellRecursiveLocks := by
  have hkeys : ∀ order ∈ [takeSlot 10 false, passedSlot false, heldSlot kLocksHeldByCaller,
      heldSlot "%arg0[*]"], ∀ kept ∈ [takeSlot 10 false, passedSlot false,
      heldSlot kLocksHeldByCaller, heldSlot "%arg0[*]"], lockOrderKey kept = lockOrderKey order →
      kept = order := by
    decide +kernel
  intro order kept horder hkept _ hkey
  rw [hkeys order (slots_derivable horder) kept (slots_derivable hkept) hkey]
  exact ⟨rfl, rfl, rfl, id⟩

-- The theorem applied where each function takes one lock of the array.
theorem slots_keep_reacquisition : ∃ fuel result,
    (slots [takeSlot 10 false]).propagate fuel (slots [takeSlot 10 false]).start = some result ∧
      ∀ order, (slots [takeSlot 10 false]).Derivable
          (fun site => (slots [takeSlot 10 false]).closesCycle site = false) order →
        ∃ kept ∈ (result order.functionId).orders, lockOrderKey kept = lockOrderKey order := by
  obtain ⟨⟨fuel, hfuel⟩, -, hcontained⟩ := open_lock_orders_propagate (slots [takeSlot 10 false])
  obtain ⟨result, hresult⟩ := Option.isSome_iff_exists.mp hfuel
  exact ⟨fuel, result, hresult, hcontained slots_keysTellRecursiveLocks fuel result hresult⟩

-- `take_slot` takes a lock of an array of recursive ones, and then one of an array of others.
def mixedSlots : LockOrderModule := slots [takeSlot 10 true, takeSlot 11 false]

theorem reacquisition_derivable :
    mixedSlots.Derivable (fun site => mixedSlots.closesCycle site = false) (heldSlot "%arg0[*]") := by
  have hown : mixedSlots.Derivable (fun site => mixedSlots.closesCycle site = false)
      (takeSlot 11 false) := .own (by decide +kernel) (by decide +kernel)
  have hpassCall : passSlots ∈ mixedSlots.calls := List.mem_cons_self ..
  have hpassed : mixedSlots.Derivable (fun site => mixedSlots.closesCycle site = false)
      (passedSlot false) :=
    .atCall hown hpassCall (by decide +kernel) rfl rfl (by decide +kernel) (by decide +kernel)
  have hholdCall : holdSlot ∈ mixedSlots.calls := List.mem_cons_of_mem _ (List.mem_cons_self ..)
  exact .atCall hpassed hholdCall (by decide +kernel) rfl rfl (by decide +kernel) (by decide +kernel)

theorem mixed_slots_lose_reacquisition : ∃ fuel result order,
    mixedSlots.propagate fuel mixedSlots.start = some result ∧
      mixedSlots.Derivable (fun site => mixedSlots.closesCycle site = false) order ∧
      ∀ kept ∈ (result order.functionId).orders, lockOrderKey kept ≠ lockOrderKey order := by
  have hkeys : ((mixedSlots.propagate 3 mixedSlots.start).map fun result =>
      (result "hold_slot").orders.map lockOrderKey) =
      some [lockOrderKey (heldSlot kLocksHeldByCaller)] := by decide +kernel
  obtain ⟨result, hresult, horders⟩ := Option.map_eq_some_iff.mp hkeys
  refine ⟨3, result, heldSlot "%arg0[*]", hresult, reacquisition_derivable, ?_⟩
  intro kept hkept hkey
  have hmem : lockOrderKey kept ∈ (result "hold_slot").orders.map lockOrderKey :=
    List.mem_map_of_mem hkept
  rw [horders, hkey] at hmem
  exact absurd hmem (by decide +kernel)

end Slots

end ConcurrencyAnalyzer.FactsBuilder
