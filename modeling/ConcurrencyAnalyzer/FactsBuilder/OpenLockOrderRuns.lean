import ConcurrencyAnalyzer.FactsBuilder.OpenLockOrders
import ConcurrencyAnalyzer.FactsBuilder.LockOrderMerge
import ConcurrencyAnalyzer.Library.Saturation

namespace ConcurrencyAnalyzer.FactsBuilder

open Library.KeepFirst

section Keep

-- An order without what may be united with it or differs between the copies of a key.
def orderShape (order : LockOrderFact) : LockOrderFact :=
  { order with heldLocks := ∅, inRootTask := false, liveEntries := ∅, startedEntries := ∅ }

@[simp] theorem orderShape_uniteThreads (kept order : LockOrderFact) :
    orderShape (uniteThreads kept order) = orderShape kept := rfl

@[simp] theorem lockOrderKey_orderShape (order : LockOrderFact) :
    lockOrderKey (orderShape order) = lockOrderKey order := rfl

def shapes (orders : List LockOrderFact) : List LockOrderFact := orders.map orderShape

theorem map_lockOrderKey_shapes (orders : List LockOrderFact) :
    (shapes orders).map lockOrderKey = orders.map lockOrderKey := by
  simp [shapes]

theorem shapes_keepLockOrder (orders : List LockOrderFact) (order : LockOrderFact) :
    shapes (keepLockOrder orders order) =
      if lockOrderKey order ∈ orders.map lockOrderKey then shapes orders
      else shapes orders ++ [orderShape order] := by
  unfold keepLockOrder shapes
  split
  · rename_i hmem
    exact map_keep_of_mem orderShape_uniteThreads hmem
  · rename_i hnew
    rw [keep_of_not_mem hnew, List.map_append, List.map_singleton]

def threadCount (order : LockOrderFact) : Nat :=
  order.liveEntries.card + order.startedEntries.card

-- How much there is to gain is bounded by the orders and the threads beside them.
def orderWeight (orders : List LockOrderFact) : Nat := weight threadCount orders

theorem uniteThreads_of_card_eq (kept order : LockOrderFact)
    (h : threadCount (uniteThreads kept order) = threadCount kept) : uniteThreads kept order = kept := by
  have hlive : kept.liveEntries ⊆ kept.liveEntries ∪ order.liveEntries := Finset.subset_union_left
  have hstarted : kept.startedEntries ⊆ kept.startedEntries ∪ order.startedEntries :=
    Finset.subset_union_left
  have hliveCard := Finset.card_le_card hlive
  have hstartedCard := Finset.card_le_card hstarted
  simp only [threadCount, uniteThreads] at h ⊢
  rw [← Finset.eq_of_subset_of_card_le hlive (by omega),
    ← Finset.eq_of_subset_of_card_le hstarted (by omega)]

theorem threadCount_uniteThreads_le (kept order : LockOrderFact) :
    threadCount kept ≤ threadCount (uniteThreads kept order) :=
  Nat.add_le_add (Finset.card_le_card Finset.subset_union_left)
    (Finset.card_le_card Finset.subset_union_left)

theorem keepsLockOrder_eq_gains (orders : List LockOrderFact) (order : LockOrderFact) :
    keepsLockOrder orders order = gains lockOrderKey uniteThreads threadCount orders order := by
  unfold keepsLockOrder gains
  cases orders.find? (lockOrderKey · = lockOrderKey order) with
  | none => rfl
  | some kept => rfl

end Keep

section Add

variable {leftOpen : OpenLockOrders} {order : LockOrderFact} {throughRecursion : Bool}

-- Either nothing is let in, once the bound is reached, or the order is kept.
theorem addOpenLockOrder_cases (leftOpen : OpenLockOrders) (order : LockOrderFact)
    (throughRecursion : Bool) :
    (throughRecursion = true ∧ namedOutsideRecursion leftOpen order = false ∧
        kMaxOrdersOnLocksOnlyARecursionNames ≤ leftOpen.ordersOnLocksOnlyARecursionNames ∧
        addOpenLockOrder leftOpen order throughRecursion = (leftOpen, false)) ∨
      (addOpenLockOrder leftOpen order throughRecursion).1.orders =
          keepLockOrder leftOpen.orders order ∧
        (addOpenLockOrder leftOpen order throughRecursion).2 =
          keepsLockOrder leftOpen.orders order := by
  unfold addOpenLockOrder
  cases throughRecursion with
  | false => exact Or.inr ⟨rfl, rfl⟩
  | true =>
      by_cases hnamed : namedOutsideRecursion leftOpen order = true
      · simp [hnamed]
      · by_cases hbound : kMaxOrdersOnLocksOnlyARecursionNames ≤
            leftOpen.ordersOnLocksOnlyARecursionNames
        · simp [hnamed, hbound]
        · simp [hnamed, hbound]

theorem orders_of_not_gained (h : (addOpenLockOrder leftOpen order throughRecursion).2 = false) :
    (addOpenLockOrder leftOpen order throughRecursion).1.orders = leftOpen.orders := by
  rcases addOpenLockOrder_cases leftOpen order throughRecursion with ⟨-, -, -, heq⟩ | ⟨horders, hgained⟩
  · rw [heq]
  · rw [horders]
    exact keep_of_not_gains uniteThreads_of_card_eq
      ((keepsLockOrder_eq_gains _ _).symm.trans (hgained.symm.trans h))

theorem weight_lt_of_gained (h : (addOpenLockOrder leftOpen order throughRecursion).2 = true) :
    orderWeight leftOpen.orders <
      orderWeight (addOpenLockOrder leftOpen order throughRecursion).1.orders := by
  rcases addOpenLockOrder_cases leftOpen order throughRecursion with ⟨-, -, -, heq⟩ | ⟨horders, hgained⟩
  · rw [heq] at h
    cases h
  · rw [horders]
    exact weight_lt_of_gains threadCount_uniteThreads_le
      ((keepsLockOrder_eq_gains _ _).symm.trans (hgained.symm.trans h))

theorem key_mem_addOpenLockOrder (leftOpen : OpenLockOrders) (order : LockOrderFact) :
    lockOrderKey order ∈ (addOpenLockOrder leftOpen order false).1.orders.map lockOrderKey := by
  change lockOrderKey order ∈ (keepLockOrder leftOpen.orders order).map lockOrderKey
  rw [keepLockOrder, map_key_keep lockOrderKey_uniteThreads]
  split
  · assumption
  · simp

-- The open orders of a function only grow.
structure Grows (before after : OpenLockOrders) : Prop where
  shapes : shapes before.orders <+: shapes after.orders
  weight : orderWeight before.orders ≤ orderWeight after.orders

theorem Grows.refl (leftOpen : OpenLockOrders) : Grows leftOpen leftOpen :=
  ⟨List.prefix_rfl, Nat.le_refl _⟩

theorem Grows.trans {first second third : OpenLockOrders} (h : Grows first second)
    (h' : Grows second third) : Grows first third :=
  ⟨h.shapes.trans h'.shapes, Nat.le_trans h.weight h'.weight⟩

theorem Grows.keys {before after : OpenLockOrders} (h : Grows before after) {key : String}
    (hkey : key ∈ before.orders.map lockOrderKey) : key ∈ after.orders.map lockOrderKey := by
  rw [← map_lockOrderKey_shapes] at hkey ⊢
  exact (h.shapes.map lockOrderKey).subset hkey

theorem grows_addOpenLockOrder (leftOpen : OpenLockOrders) (order : LockOrderFact)
    (throughRecursion : Bool) :
    Grows leftOpen (addOpenLockOrder leftOpen order throughRecursion).1 := by
  rcases addOpenLockOrder_cases leftOpen order throughRecursion with ⟨-, -, -, heq⟩ | ⟨horders, -⟩
  · rw [heq]
    exact .refl leftOpen
  · constructor
    · rw [horders, shapes_keepLockOrder]
      split
      · exact List.prefix_rfl
      · exact List.prefix_append _ _
    · rw [horders]
      exact weight_le_keep threadCount_uniteThreads_le uniteThreads_of_card_eq _ _

end Add

section Receive

variable {state : RoundState} {functionId : String}

theorem receive_openLockOrders (state : RoundState) (arrival : Arrival) (functionId : String) :
    (state.receive arrival).openLockOrders functionId =
      if functionId = arrival.order.functionId then
        (addOpenLockOrder (state.openLockOrders functionId) arrival.order arrival.throughRecursion).1
      else state.openLockOrders functionId := by
  unfold RoundState.receive
  by_cases h : functionId = arrival.order.functionId
  · rw [if_pos h, h]
    exact Function.update_self ..
  · rw [if_neg h]
    exact Function.update_of_ne h ..

-- What each arrival at a function preserves of its open orders, all of them together preserve.
theorem foldl_receive_invariant {P : OpenLockOrders → Prop} {arrivals : List Arrival}
    (hstep : ∀ leftOpen, ∀ arrival ∈ arrivals, arrival.order.functionId = functionId → P leftOpen →
      P (addOpenLockOrder leftOpen arrival.order arrival.throughRecursion).1)
    (h : P (state.openLockOrders functionId)) :
    P ((arrivals.foldl RoundState.receive state).openLockOrders functionId) := by
  induction arrivals generalizing state with
  | nil => exact h
  | cons arrival arrivals ih =>
      rw [List.foldl_cons]
      apply ih fun leftOpen other hother => hstep leftOpen other (List.mem_cons_of_mem _ hother)
      rw [receive_openLockOrders]
      split
      · rename_i heq
        exact hstep _ arrival (List.mem_cons_self ..) heq.symm h
      · exact h

theorem grows_foldl_receive (arrivals : List Arrival) (state : RoundState) (functionId : String) :
    Grows (state.openLockOrders functionId)
      ((arrivals.foldl RoundState.receive state).openLockOrders functionId) := by
  apply foldl_receive_invariant (P := Grows (state.openLockOrders functionId))
  · intro leftOpen arrival _ _ hgrows
    exact hgrows.trans (grows_addOpenLockOrder leftOpen _ _)
  · exact .refl _

theorem key_mem_foldl_receive {arrivals : List Arrival} {arrival : Arrival} (h : arrival ∈ arrivals)
    (houtside : arrival.throughRecursion = false) (state : RoundState) :
    lockOrderKey arrival.order ∈ ((arrivals.foldl RoundState.receive state).openLockOrders
      arrival.order.functionId).orders.map lockOrderKey := by
  induction arrivals generalizing state with
  | nil => cases h
  | cons first arrivals ih =>
      rcases List.mem_cons.mp h with rfl | h
      · apply (grows_foldl_receive arrivals (state.receive arrival) _).keys
        rw [receive_openLockOrders, if_pos rfl, houtside]
        exact key_mem_addOpenLockOrder _ _
      · exact ih h _

theorem foldl_receive_congr {other : RoundState} (arrivals : List Arrival)
    (h : state.openLockOrders = other.openLockOrders) :
    (arrivals.foldl RoundState.receive state).openLockOrders =
      (arrivals.foldl RoundState.receive other).openLockOrders := by
  induction arrivals generalizing state other with
  | nil => exact h
  | cons arrival arrivals ih =>
      apply ih
      simp only [RoundState.receive, h]

theorem changed_foldl_receive {arrivals : List Arrival} (hbefore : state.lockOrdersChanged = true) :
    (arrivals.foldl RoundState.receive state).lockOrdersChanged = true := by
  induction arrivals generalizing state with
  | nil => exact hbefore
  | cons arrival arrivals ih =>
      apply ih
      simp [RoundState.receive, hbefore]

theorem orders_of_unchanged {arrivals : List Arrival}
    (h : (arrivals.foldl RoundState.receive state).lockOrdersChanged = false) (functionId : String) :
    ((arrivals.foldl RoundState.receive state).openLockOrders functionId).orders =
      (state.openLockOrders functionId).orders := by
  induction arrivals generalizing state with
  | nil => rfl
  | cons arrival arrivals ih =>
      rw [List.foldl_cons] at h ⊢
      rw [ih h, receive_openLockOrders]
      split
      · rename_i heq
        apply orders_of_not_gained
        by_contra hgained
        rw [changed_foldl_receive] at h
        · cases h
        · simp only [RoundState.receive, ← heq]
          simp [Bool.not_eq_false] at hgained
          simp [hgained]
      · rfl

-- A change that is reported is one that some function's open orders gained by.
theorem weight_lt_of_changed {arrivals : List Arrival} (hbefore : state.lockOrdersChanged = false)
    (h : (arrivals.foldl RoundState.receive state).lockOrdersChanged = true) :
    ∃ arrival ∈ arrivals, orderWeight (state.openLockOrders arrival.order.functionId).orders <
      orderWeight ((arrivals.foldl RoundState.receive state).openLockOrders
        arrival.order.functionId).orders := by
  induction arrivals generalizing state with
  | nil =>
      rw [List.foldl_nil, hbefore] at h
      cases h
  | cons arrival arrivals ih =>
      rw [List.foldl_cons] at h ⊢
      cases hgained : (addOpenLockOrder (state.openLockOrders arrival.order.functionId) arrival.order
          arrival.throughRecursion).2 with
      | true =>
          refine ⟨arrival, List.mem_cons_self .., ?_⟩
          have hlt := weight_lt_of_gained hgained
          have hle := (grows_foldl_receive arrivals (state.receive arrival)
            arrival.order.functionId).weight
          rw [receive_openLockOrders, if_pos rfl] at hle
          omega
      | false =>
          have hstill : (state.receive arrival).lockOrdersChanged = false := by
            simp [RoundState.receive, hgained, hbefore]
          obtain ⟨other, hother, hlt⟩ := ih hstill h
          refine ⟨other, List.mem_cons_of_mem _ hother, ?_⟩
          have hle : orderWeight (state.openLockOrders other.order.functionId).orders ≤
              orderWeight ((state.receive arrival).openLockOrders other.order.functionId).orders :=
            (grows_foldl_receive [arrival] state other.order.functionId).weight
          omega

end Receive

section Instances

variable {order other instantiated : LockOrderFact} {call : LockOrderCall}

-- What a call reads of an order, beside the threads and the locks held there.
structure AgreeAtCalls (order other : LockOrderFact) : Prop where
  firstLockId : order.firstLockId = other.firstLockId
  secondLockId : order.secondLockId = other.secondLockId
  lowerAddressFirst : order.lowerAddressFirst = other.lowerAddressFirst
  secondIsRecursive : order.secondIsRecursive = other.secondIsRecursive

theorem agreeAtCalls_of_shape (h : orderShape order = orderShape other) : AgreeAtCalls order other := by
  simp only [orderShape, LockOrderFact.mk.injEq] at h
  obtain ⟨-, hfirst, hsecond, -, -, -, -, -, hlower, hrecursive, -⟩ := h
  exact ⟨hfirst, hsecond, hlower, hrecursive⟩

-- An order whose second lock may not be taken again brings a caller all that one whose may brings.
structure CoversAtCalls (kept order : LockOrderFact) : Prop where
  firstLockId : kept.firstLockId = order.firstLockId
  secondLockId : kept.secondLockId = order.secondLockId
  lowerAddressFirst : kept.lowerAddressFirst = order.lowerAddressFirst
  secondIsRecursive : kept.secondIsRecursive = true → order.secondIsRecursive = true

theorem AgreeAtCalls.covers (h : AgreeAtCalls order other) : CoversAtCalls other order :=
  ⟨h.firstLockId.symm, h.secondLockId.symm, h.lowerAddressFirst.symm,
    fun hrecursive => h.secondIsRecursive.trans hrecursive⟩

theorem exists_instance_of_covers (h : CoversAtCalls other order)
    (hinstance : instantiated ∈ instantiateAtCall order call) :
    ∃ alike ∈ instantiateAtCall other call, orderShape alike =
      { orderShape instantiated with secondIsRecursive := other.secondIsRecursive } := by
  obtain ⟨hfirst, hsecond, hlower, hrecursive⟩ := h
  unfold instantiateAtCall at hinstance ⊢
  have hfirsts : firstsAtCall other call = firstsAtCall order call := by
    simp only [firstsAtCall, hfirst]
  rw [hsecond, hfirsts, hfirst, hlower]
  cases hlock : lockAtCall order.secondLockId call with
  | none =>
      rw [hlock] at hinstance
      cases hinstance
  | some second =>
      rw [hlock] at hinstance
      obtain ⟨first, hmem, rfl⟩ := List.mem_map.mp hinstance
      refine ⟨_, List.mem_map.mpr ⟨first, ?_, rfl⟩, rfl⟩
      simp only [List.mem_filter, decide_eq_true_eq] at hmem ⊢
      exact ⟨hmem.1, fun hsame => hmem.2.1 ⟨hsame.1, hrecursive hsame.2⟩, hmem.2.2⟩

theorem instance_secondIsRecursive (h : instantiated ∈ instantiateAtCall order call) :
    instantiated.secondIsRecursive = order.secondIsRecursive ∧
      instantiated.lowerAddressFirst = order.lowerAddressFirst := by
  unfold instantiateAtCall at h
  cases hlock : lockAtCall order.secondLockId call with
  | none =>
      rw [hlock] at h
      cases h
  | some second =>
      rw [hlock] at h
      obtain ⟨first, hmem, rfl⟩ := List.mem_map.mp h
      exact ⟨rfl, rfl⟩

theorem exists_instance_of_agree (h : AgreeAtCalls order other)
    (hinstance : instantiated ∈ instantiateAtCall order call) :
    ∃ alike ∈ instantiateAtCall other call, orderShape alike = orderShape instantiated := by
  obtain ⟨alike, halike, hshape⟩ := exists_instance_of_covers h.covers hinstance
  refine ⟨alike, halike, ?_⟩
  rw [hshape, ← h.secondIsRecursive, ← (instance_secondIsRecursive hinstance).1]
  rfl

theorem instance_of_call (h : instantiated ∈ instantiateAtCall order call) :
    instantiated.functionId = call.callerFunctionId ∧ instantiated.location = call.userLocation ∧
      instantiated.boundBySpawn = false ∧
      lockAtCall order.secondLockId call = some instantiated.secondLockId ∧
      instantiated.firstLockId ∈ firstsAtCall order call ∧
      instantiated.liveEntries ⊆ order.liveEntries ∧
      instantiated.startedEntries ⊆ order.liveEntries := by
  unfold instantiateAtCall at h
  cases hlock : lockAtCall order.secondLockId call with
  | none =>
      rw [hlock] at h
      cases h
  | some second =>
      rw [hlock] at h
      obtain ⟨first, hmem, rfl⟩ := List.mem_map.mp h
      refine ⟨rfl, rfl, rfl, rfl, (List.mem_filter.mp hmem).1, ?_, ?_⟩
      · exact Finset.filter_subset _ _
      · exact (Finset.filter_subset _ _).trans (Finset.filter_subset _ _)

-- An order that names nothing of its caller's frame names nothing of the caller's own.
theorem closed_instance (h : isOpenLockOrder order = false)
    (hinstance : instantiated ∈ instantiateAtCall order call) :
    isOpenLockOrder instantiated = false := by
  obtain ⟨-, -, -, hsecond, hfirst, -⟩ := instance_of_call hinstance
  simp only [isOpenLockOrder, Bool.or_eq_false_iff] at h ⊢
  obtain ⟨hopenFirst, hopenSecond⟩ := h
  have hplaces : ∀ lockId, namesCallerFrame lockId = false → lockAtCall lockId call = some lockId := by
    intro lockId hlock
    simp only [namesCallerFrame, Bool.or_eq_false_iff, Option.isSome_eq_false_iff,
      Option.isNone_iff_eq_none] at hlock
    rw [lockAtCall, hlock.2]
  rw [hplaces _ hopenSecond] at hsecond
  have hcaller : order.firstLockId ≠ kLocksHeldByCaller := by
    intro heq
    simp [namesCallerFrame, heq] at hopenFirst
  rw [firstsAtCall, if_neg hcaller, hplaces _ hopenFirst] at hfirst
  have heq : instantiated.firstLockId = order.firstLockId := by simpa using hfirst
  rw [heq, ← Option.some.inj hsecond]
  exact ⟨hopenFirst, hopenSecond⟩

end Instances

section Arrivals

variable {module : LockOrderModule}

theorem mem_arrivalsAtCall {openLockOrders : OpenByFunction} {site : OrderCall} {arrival : Arrival} :
    arrival ∈ module.arrivalsAtCall openLockOrders site ↔ site.runsItsOrders = true ∧
      arrival.throughRecursion = module.closesCycle site ∧ isOpenLockOrder arrival.order = true ∧
      ∃ order ∈ (openLockOrders site.calleeFunctionId).orders,
        arrival.order ∈ instantiateAtCall order site.call := by
  unfold LockOrderModule.arrivalsAtCall
  by_cases hruns : site.runsItsOrders = true
  · rw [if_pos hruns]
    simp only [List.mem_map, List.mem_filter, List.mem_flatMap, List.mem_append]
    constructor
    · rintro ⟨instantiated, ⟨⟨order, horder, hinstance⟩, hopen⟩, rfl⟩
      refine ⟨hruns, rfl, hopen, order, ?_, hinstance⟩
      rcases horder with horder | hjudged
      · exact horder
      · have hclosed : isOpenLockOrder order = false := by
          simp only [LockOrderModule.ordersJudgedAtCalls, List.mem_filter, Bool.and_eq_true,
            Bool.not_eq_true'] at hjudged
          exact hjudged.2.1.2
        rw [closed_instance hclosed hinstance] at hopen
        cases hopen
    · rintro ⟨-, hrecursion, hopen, order, horder, hinstance⟩
      refine ⟨arrival.order, ⟨⟨order, Or.inl horder, hinstance⟩, hopen⟩, ?_⟩
      rw [← hrecursion]
  · rw [if_neg hruns]
    simp [hruns]

-- What arrives in a round comes out of orders that the callee still has after it.
theorem arrival_of_calls {sites : List OrderCall} {state : RoundState} {arrival : Arrival}
    (h : arrival ∈ module.arrivalsOfCalls sites state) :
    ∃ site ∈ sites, arrival.throughRecursion = module.closesCycle site ∧
      ∃ order, orderShape order ∈ shapes
          (((module.arrivalsOfCalls sites state).foldl RoundState.receive state).openLockOrders
            site.calleeFunctionId).orders ∧
        arrival.order ∈ instantiateAtCall order site.call := by
  induction sites generalizing state with
  | nil => cases h
  | cons site sites ih =>
      unfold LockOrderModule.arrivalsOfCalls at h
      rcases List.mem_append.mp h with hhere | hlater
      · obtain ⟨-, hrecursion, -, order, horder, hinstance⟩ := mem_arrivalsAtCall.mp hhere
        refine ⟨site, List.mem_cons_self .., hrecursion, order, ?_, hinstance⟩
        exact (grows_foldl_receive _ state _).shapes.subset (List.mem_map_of_mem horder)
      · obtain ⟨other, hother, hrecursion, order, hshape, hinstance⟩ := ih hlater
        refine ⟨other, List.mem_cons_of_mem _ hother, hrecursion, order, ?_, hinstance⟩
        rw [LockOrderModule.arrivalsOfCalls, List.foldl_append]
        exact hshape

theorem arrival_mem_of_calls {sites : List OrderCall} {state : RoundState} {site : OrderCall}
    (hsite : site ∈ sites) (hruns : site.runsItsOrders = true) {order instantiated : LockOrderFact}
    (horder : order ∈ (state.openLockOrders site.calleeFunctionId).orders)
    (hinstance : instantiated ∈ instantiateAtCall order site.call)
    (hopen : isOpenLockOrder instantiated = true) :
    ∃ arrival ∈ module.arrivalsOfCalls sites state,
      arrival.throughRecursion = module.closesCycle site ∧
      orderShape arrival.order = orderShape instantiated := by
  induction sites generalizing state order instantiated with
  | nil => cases hsite
  | cons first sites ih =>
      unfold LockOrderModule.arrivalsOfCalls
      rcases List.mem_cons.mp hsite with rfl | hsite
      · refine ⟨⟨instantiated, module.closesCycle site⟩, List.mem_append_left _ ?_, rfl, rfl⟩
        exact mem_arrivalsAtCall.mpr ⟨hruns, rfl, hopen, order, horder, hinstance⟩
      · have hshape := (grows_foldl_receive (module.arrivalsAtCall state.openLockOrders first) state
          site.calleeFunctionId).shapes.subset (List.mem_map_of_mem horder)
        obtain ⟨kept, hkept, hsame⟩ := List.mem_map.mp hshape
        obtain ⟨alike, halike, hshape⟩ :=
          exists_instance_of_agree (agreeAtCalls_of_shape hsame.symm) hinstance
        have hopenAlike : isOpenLockOrder alike = true := by
          obtain ⟨hfirst, hsecond, -⟩ := agreeAtCalls_of_shape hshape
          rw [isOpenLockOrder, hfirst, hsecond]
          exact hopen
        obtain ⟨arrival, harrival, hrecursion, hsameShape⟩ := ih hsite hkept halike hopenAlike
        exact ⟨arrival, List.mem_append_right _ harrival, hrecursion, hsameShape.trans hshape⟩

theorem after_eq_foldl (module : LockOrderModule) (rounds : Nat) :
    module.after rounds = ((module.arrivals rounds).foldl RoundState.receive {}).openLockOrders := by
  induction rounds with
  | zero => rfl
  | succ rounds ih =>
      rw [LockOrderModule.after, LockOrderModule.round, LockOrderModule.arrivals, List.foldl_append]
      exact foldl_receive_congr _ ih

theorem grows_after (module : LockOrderModule) {rounds later : Nat} (h : rounds ≤ later)
    (functionId : String) :
    Grows (module.after rounds functionId) (module.after later functionId) := by
  induction later, h using Nat.le_induction with
  | base => exact .refl _
  | succ later _ ih =>
      let state : RoundState := { openLockOrders := module.after later }
      exact ih.trans (grows_foldl_receive (module.arrivalsOfCalls module.calls state) state functionId)

-- Every order kept at a function is one of the function's, with a property.
def AllOrders (P : LockOrderFact → Prop) (openLockOrders : OpenByFunction) : Prop :=
  ∀ functionId, ∀ order ∈ (openLockOrders functionId).orders, order.functionId = functionId ∧ P order

section AllOrders

variable {P : LockOrderFact → Prop}

theorem allOrders_foldl_receive
    (hunite : ∀ kept order, P kept → P order → P (uniteThreads kept order)) {state : RoundState}
    (h : AllOrders P state.openLockOrders) {arrivals : List Arrival}
    (harrivals : ∀ arrival ∈ arrivals, P arrival.order) :
    AllOrders P (arrivals.foldl RoundState.receive state).openLockOrders := by
  intro functionId
  apply foldl_receive_invariant (P := fun leftOpen =>
    ∀ order ∈ leftOpen.orders, order.functionId = functionId ∧ P order)
  · intro leftOpen arrival harrival hfunction hall
    rcases addOpenLockOrder_cases leftOpen arrival.order arrival.throughRecursion with
      ⟨-, -, -, heq⟩ | ⟨horders, -⟩
    · rw [heq]
      exact hall
    · rw [horders]
      apply forall_mem_keep (P := fun order => order.functionId = functionId ∧ P order)
      · exact fun kept order hkept horder => ⟨hkept.1, hunite kept order hkept.2 horder.2⟩
      · exact hall
      · exact ⟨hfunction, harrivals arrival harrival⟩
  · exact h functionId

-- A property of the orders that functions take themselves, which calls and uniting preserve, is one of
-- all orders kept.
theorem allOrders_after (hown : ∀ order ∈ module.collected, isOpenLockOrder order = true → P order)
    (hunite : ∀ kept order, P kept → P order → P (uniteThreads kept order))
    (hcall : ∀ order, P order → ∀ site ∈ module.calls, site.runsItsOrders = true →
      order.functionId = site.calleeFunctionId →
      ∀ instantiated ∈ instantiateAtCall order site.call, isOpenLockOrder instantiated = true →
        P instantiated)
    (rounds : Nat) : AllOrders P (module.after rounds) := by
  induction rounds with
  | zero =>
      apply allOrders_foldl_receive hunite
      · intro functionId order h
        cases h
      · intro arrival harrival
        obtain ⟨order, horder, rfl⟩ := List.mem_map.mp harrival
        rw [List.mem_filter] at horder
        exact hown order horder.1 horder.2
  | succ rounds ih =>
      have hsites : ∀ sites : List OrderCall, (∀ site ∈ sites, site ∈ module.calls) →
          ∀ state : RoundState, AllOrders P state.openLockOrders →
          AllOrders P ((module.arrivalsOfCalls sites state).foldl RoundState.receive
            state).openLockOrders := by
        intro sites
        induction sites with
        | nil => exact fun _ _ h => h
        | cons site sites ihSites =>
            intro hcalls state hstate
            rw [LockOrderModule.arrivalsOfCalls, List.foldl_append]
            apply ihSites fun other hother => hcalls other (List.mem_cons_of_mem _ hother)
            apply allOrders_foldl_receive hunite hstate
            intro arrival harrival
            obtain ⟨hruns, -, hopen, order, horder, hinstance⟩ := mem_arrivalsAtCall.mp harrival
            obtain ⟨hfunction, hP⟩ := hstate site.calleeFunctionId order horder
            exact hcall order hP site (hcalls site (List.mem_cons_self ..)) hruns hfunction _
              hinstance hopen
      exact hsites module.calls (fun _ h => h) _ ih

end AllOrders

end Arrivals

end ConcurrencyAnalyzer.FactsBuilder
