import ConcurrencyAnalyzer.LockOrder.Collector

namespace ConcurrencyAnalyzer.LockOrder

open Program LockState Library

-- Whether the collector comes to one instruction before another: it goes round the blocks as often as
-- the paths go back that it follows, and through each of them in turn.
def Earlier (returns : Nat) (site : OrderSite) (returns' : Nat) (site' : OrderSite) : Prop :=
  returns < returns' ∨ returns = returns' ∧
    (site.1 < site'.1 ∨ site.1 = site'.1 ∧ site.2 < site'.2)

theorem earlier_asymm {returns returns' : Nat} {site site' : OrderSite}
    (h : Earlier returns site returns' site') : ¬Earlier returns' site' returns site := by
  unfold Earlier at *
  omega

theorem earlier_trichotomy (returns returns' : Nat) (site site' : OrderSite) :
    Earlier returns site returns' site' ∨ (returns = returns' ∧ site = site') ∨
      Earlier returns' site' returns site := by
  unfold Earlier
  rw [Prod.ext_iff]
  omega

namespace LockOrderCollector

variable (collector : LockOrderCollector) (source : OrderSource)

-- An order an instruction takes under the locks that all the paths to it hold that go back at most
-- some number of times.
def TakenWithin (returns : Nat) (site : OrderSite) (order : RecordedOrder) : Prop :=
  ∃ common, (collector.heldFlow source).HeldByAll returns site.1 site.2 common ∧
    order ∈ collector.ordersAt source site common

-- The first such order of its key.
structure FirstTaken (returns : Nat) (site : OrderSite) (first : RecordedOrder) : Prop where
  taken : ∃ common, (collector.heldFlow source).HeldByAll returns site.1 site.2 common ∧
    (collector.ordersAt source site common).find? (·.key = first.key) = some first
  fresh : ∀ returns' site' order, Earlier returns' site' returns site →
    collector.TakenWithin source returns' site' order → order.key ≠ first.key

section Visits

def visitsIn (returns block : Nat) : List (Nat × OrderSite) :=
  match source.function.blocks[block]? with
  | none => []
  | some found =>
      (List.range found.instructions.length).map fun index => (returns, (block, index))

-- The instructions in the order some rounds come to them.
def visits (rounds : Nat) : List (Nat × OrderSite) :=
  (List.range rounds).flatMap fun returns =>
    source.function.reachableBlocks.flatMap (visitsIn source returns)

def ordersOfVisit (visit : Nat × OrderSite) : List RecordedOrder :=
  let flow := collector.heldFlow source
  match source.function.blocks[visit.2.1]?,
      (flow.dataflow.round^[visit.1 + 1] flow.dataflow.start visit.2.1).input with
  | some found, some held => collector.ordersAt source visit.2 (flow.heldPast found visit.2.2 held)
  | _, _ => []

variable {collector source}

theorem mem_visitsIn {returns block : Nat} {visit : Nat × OrderSite} :
    visit ∈ visitsIn source returns block ↔ visit.1 = returns ∧ visit.2.1 = block ∧
      ∃ found, source.function.blocks[block]? = some found ∧
        visit.2.2 < found.instructions.length := by
  unfold visitsIn
  cases hfound : source.function.blocks[block]? with
  | none => simp
  | some found =>
      obtain ⟨returns', block', index⟩ := visit
      simp only [List.mem_map, List.mem_range, Prod.mk.injEq, Option.some.injEq, exists_eq_left']
      constructor
      · rintro ⟨_, hlt, rfl, rfl, rfl⟩
        exact ⟨rfl, rfl, hlt⟩
      · rintro ⟨rfl, rfl, hlt⟩
        exact ⟨index, hlt, rfl, rfl, rfl⟩

theorem mem_visits {rounds : Nat} {visit : Nat × OrderSite} :
    visit ∈ visits source rounds ↔ visit.1 < rounds ∧
      visit.2.1 ∈ source.function.reachableBlocks ∧
      ∃ found, source.function.blocks[visit.2.1]? = some found ∧
        visit.2.2 < found.instructions.length := by
  unfold visits
  simp only [List.mem_flatMap, List.mem_range, mem_visitsIn]
  constructor
  · rintro ⟨_, hlt, _, hblock, rfl, rfl, hfound⟩
    exact ⟨hlt, hblock, hfound⟩
  · rintro ⟨hlt, hblock, hfound⟩
    exact ⟨visit.1, hlt, visit.2.1, hblock, rfl, rfl, hfound⟩

theorem visits_sorted (rounds : Nat) :
    (visits source rounds).Pairwise fun visit other =>
      Earlier visit.1 visit.2 other.1 other.2 := by
  have hblocks : source.function.reachableBlocks.Pairwise (· < ·) :=
    List.pairwise_lt_range.filter _
  refine List.pairwise_flatMap.mpr ⟨?_, ?_⟩
  · intro returns _
    refine List.pairwise_flatMap.mpr ⟨?_, ?_⟩
    · intro block _
      unfold visitsIn
      cases source.function.blocks[block]? with
      | none => exact List.Pairwise.nil
      | some found =>
          refine List.pairwise_map.mpr (List.pairwise_lt_range.imp fun hlt => ?_)
          exact .inr ⟨rfl, .inr ⟨rfl, hlt⟩⟩
    · refine hblocks.imp fun {block other} hlt visit hvisit visit' hvisit' => ?_
      obtain ⟨hreturns, hsite, _⟩ := mem_visitsIn.mp hvisit
      obtain ⟨hreturns', hsite', _⟩ := mem_visitsIn.mp hvisit'
      exact .inr ⟨hreturns.trans hreturns'.symm, .inl (by rwa [hsite, hsite'])⟩
  · refine List.pairwise_lt_range.imp fun {returns other} hlt visit hvisit visit' hvisit' => ?_
    obtain ⟨_, _, hvisit⟩ := List.mem_flatMap.mp hvisit
    obtain ⟨_, _, hvisit'⟩ := List.mem_flatMap.mp hvisit'
    exact .inl (by rwa [(mem_visitsIn.mp hvisit).1, (mem_visitsIn.mp hvisit').1])

-- What the rounds write down, block by block, instruction by instruction.
theorem flatMap_foundIn (rounds : Nat) :
    (((collector.heldFlow source).dataflow.foundIn rounds).flatMap fun entry =>
        collector.ordersIn source entry.1 entry.2) =
      (visits source rounds).flatMap (collector.ordersOfVisit source) := by
  unfold Dataflow.foundIn visits
  rw [List.flatMap_assoc, List.flatMap_assoc]
  refine List.flatMap_congr fun returns _ => ?_
  rw [List.flatMap_assoc, List.flatMap_assoc]
  refine List.flatMap_congr fun block _ => ?_
  unfold Dataflow.foundAt visitsIn
  cases hinput : ((collector.heldFlow source).dataflow.round^[returns + 1]
      (collector.heldFlow source).dataflow.start block).input with
  | top =>
      cases hfound : source.function.blocks[block]? with
      | none => rfl
      | some found =>
          refine (List.flatMap_eq_nil_iff.mpr ?_).symm
          intro visit hvisit
          obtain ⟨index, _, rfl⟩ := List.mem_map.mp hvisit
          unfold ordersOfVisit
          simp only [hfound, hinput]
  | coe held =>
      show (collector.ordersIn source block held ++ []) = _
      rw [List.append_nil]
      unfold ordersIn
      cases hfound : source.function.blocks[block]? with
      | none => rfl
      | some found =>
          show _ = ((List.range found.instructions.length).map _).flatMap _
          rw [List.flatMap_map]
          refine List.flatMap_congr fun index _ => ?_
          unfold ordersOfVisit
          simp only [hfound, hinput]

theorem ordersOfVisit_eq {returns : Nat} {site : OrderSite} {common : LockSet}
    (h : (collector.heldFlow source).HeldByAll returns site.1 site.2 common) :
    collector.ordersOfVisit source (returns, site) = collector.ordersAt source site common := by
  obtain ⟨found, held, _, hfound, _, hinput, hcommon⟩ := h.input
  have hfound' : source.function.blocks[site.1]? = some found := hfound
  unfold ordersOfVisit
  simp only [hfound', hinput]
  show collector.ordersAt source site ((collector.heldFlow source).heldPast found site.2 held) = _
  rw [hcommon]

theorem heldByAll_of_mem_ordersOfVisit {rounds : Nat} {visit : Nat × OrderSite}
    {order : RecordedOrder} (hvisit : visit ∈ visits source rounds)
    (h : order ∈ collector.ordersOfVisit source visit) :
    ∃ common, (collector.heldFlow source).HeldByAll visit.1 visit.2.1 visit.2.2 common := by
  obtain ⟨_, hblock, found, hfound, hindex⟩ := mem_visits.mp hvisit
  unfold ordersOfVisit at h
  cases hinput : ((collector.heldFlow source).dataflow.round^[visit.1 + 1]
      (collector.heldFlow source).dataflow.start visit.2.1).input with
  | top =>
      simp only [hfound, hinput] at h
      exact absurd h List.not_mem_nil
  | coe held => exact ⟨_, HeldFlow.heldByAll_of_input hblock hfound hindex hinput⟩

theorem mem_visits_of_heldByAll {rounds returns : Nat} {site : OrderSite} {common : LockSet}
    (h : (collector.heldFlow source).HeldByAll returns site.1 site.2 common)
    (hlt : returns < rounds) : (returns, site) ∈ visits source rounds := by
  obtain ⟨found, _, hblock, hfound, hindex, _, _⟩ := h.input
  exact mem_visits.mpr ⟨hlt, hblock, found, hfound, hindex⟩

end Visits

section Recorded

variable {collector source}

theorem TakenWithin.mem_ordersOfVisit {returns : Nat} {site : OrderSite} {order : RecordedOrder}
    (h : collector.TakenWithin source returns site order) :
    order ∈ collector.ordersOfVisit source (returns, site) := by
  obtain ⟨common, hcommon, horder⟩ := h
  rwa [ordersOfVisit_eq hcommon]

theorem takenWithin_of_mem {rounds : Nat} {visit : Nat × OrderSite} {order : RecordedOrder}
    (hvisit : visit ∈ visits source rounds) (h : order ∈ collector.ordersOfVisit source visit) :
    collector.TakenWithin source visit.1 visit.2 order := by
  obtain ⟨common, hcommon⟩ := heldByAll_of_mem_ordersOfVisit hvisit h
  exact ⟨common, hcommon, ordersOfVisit_eq hcommon ▸ h⟩

theorem mem_ordersAt {site : OrderSite} {held : LockSet} {order : RecordedOrder} :
    order ∈ collector.ordersAt source site held ↔
      ∃ instruction acquired lock, source.function.instructionAt site.1 site.2 = some instruction ∧
        acquired ∈ (collector.changeAt source instruction).orderedAcquired ∧
        lock ∈ held \ (collector.changeAt source instruction).released.toFinset ∧
        order = collector.orderAt source site (collector.changeAt source instruction)
          (held \ (collector.changeAt source instruction).released.toFinset) acquired lock := by
  unfold ordersAt
  cases source.function.instructionAt site.1 site.2 with
  | none => simp
  | some instruction =>
      simp only [List.mem_flatMap, List.mem_map, mem_sortedNames, Option.some.injEq]
      constructor
      · rintro ⟨acquired, hacquired, lock, hlock, rfl⟩
        exact ⟨instruction, acquired, lock, rfl, hacquired, hlock, rfl⟩
      · rintro ⟨_, acquired, lock, rfl, hacquired, hlock, rfl⟩
        exact ⟨acquired, hacquired, lock, hlock, rfl⟩

theorem sites_of_mem_ordersAt {site : OrderSite} {held : LockSet} {order : RecordedOrder}
    (h : order ∈ collector.ordersAt source site held) : order.sites = [site] := by
  obtain ⟨_, _, _, _, _, _, rfl⟩ := mem_ordersAt.mp h
  rfl

theorem foldl_addSites_fact (orders : List RecordedOrder) (first : RecordedOrder) :
    (orders.foldl addSites first).fact = first.fact := by
  induction orders generalizing first with
  | nil => rfl
  | cons order orders ih => exact ih (addSites first order)

theorem mem_foldl_addSites {orders : List RecordedOrder} {first : RecordedOrder} {site : OrderSite} :
    site ∈ (orders.foldl addSites first).sites ↔
      ∃ order ∈ first :: orders, site ∈ order.sites := by
  induction orders generalizing first with
  | nil => simp
  | cons order orders ih =>
      rw [List.foldl_cons, ih]
      simp only [List.mem_cons, exists_eq_or_imp, addSites, List.mem_append, List.mem_filter,
        decide_eq_true_eq]
      tauto

theorem key_addSites (first order : RecordedOrder) :
    (addSites first order).key = first.key := rfl

-- The loop ends by itself.
theorem loop_ends (collector : LockOrderCollector) (source : OrderSource) :
    let flow := collector.heldFlow source
    EndsAfter (fun state next => flow.dataflow.unchanged state.1 next.1)
        (flow.dataflow.roundNoting (collector.recordOrders source)) (flow.dataflow.start, [])
        (flow.dataflow.solveNoting (collector.recordOrders source) flow.rounds []) ∧
      ∃ rounds, flow.dataflow.solveNoting (collector.recordOrders source) flow.rounds [] =
          (flow.dataflow.round^[rounds + 1] flow.dataflow.start,
            (flow.dataflow.foundIn (rounds + 1)).foldl
              (fun orders entry => collector.recordOrders source entry.1 entry.2 orders) []) ∧
        ∀ more, rounds ≤ more → flow.dataflow.round^[more] flow.dataflow.start =
          flow.dataflow.round^[rounds] flow.dataflow.start :=
  Dataflow.solveNoting_ends Finset.card_strictMono HeldFlow.transfer_mono
    (HeldFlow.initial_subset_lockNames _)
    (fun block _ hknown => HeldFlow.transfer_subset_lockNames block hknown)
    (HeldFlow.weight_start_lt _) (HeldFlow.blocks_nodup _) []

-- Every order the loop could come to later it has come to by its end.
theorem exists_rounds (collector : LockOrderCollector) (source : OrderSource) :
    ∃ rounds, collector.recordedOrders source =
        ((visits source (rounds + 1)).flatMap (collector.ordersOfVisit source)).foldl keepOrder [] ∧
      ∀ returns block index common, rounds ≤ returns →
        (collector.heldFlow source).HeldByAll returns block index common →
          (collector.heldFlow source).HeldByAll rounds block index common := by
  obtain ⟨_, rounds, hresult, hsettled⟩ := loop_ends collector source
  refine ⟨rounds, ?_, ?_⟩
  · rw [recordedOrders, hresult, ← flatMap_foundIn, List.foldl_flatMap]
    rfl
  · intro returns block index common hle hcommon
    obtain ⟨found, held, hblock, hfound, hindex, hinput, rfl⟩ := hcommon.input
    refine HeldFlow.heldByAll_of_input hblock hfound hindex ?_
    rw [hsettled (rounds + 1) (Nat.le_succ _), ← hsettled (returns + 1) (by omega)]
    exact hinput

theorem TakenWithin.of_le {rounds returns : Nat} {site : OrderSite} {order : RecordedOrder}
    (hsettled : ∀ returns block index common, rounds ≤ returns →
      (collector.heldFlow source).HeldByAll returns block index common →
        (collector.heldFlow source).HeldByAll rounds block index common)
    (h : collector.TakenWithin source returns site order) :
    ∃ earlier ≤ rounds, earlier ≤ returns ∧ collector.TakenWithin source earlier site order := by
  by_cases hle : returns ≤ rounds
  · exact ⟨returns, hle, le_rfl, h⟩
  · obtain ⟨common, hcommon, horder⟩ := h
    exact ⟨rounds, le_rfl, by omega, common, hsettled returns _ _ common (by omega) hcommon, horder⟩

-- Each order that is recorded is the first of its key, at every instruction that takes one of the key.
theorem firstTaken_of_mem {order : RecordedOrder} (h : order ∈ collector.recordedOrders source) :
    ∃ returns site first, collector.FirstTaken source returns site first ∧
      order.fact = first.fact ∧ ∀ other, other ∈ order.sites ↔
        ∃ returns' taken, collector.TakenWithin source returns' other taken ∧
          taken.key = first.key := by
  obtain ⟨rounds, hrecorded, hsettled⟩ := exists_rounds collector source
  rw [hrecorded, keepOrder, KeepFirst.mem_foldl_keep key_addSites _ [] List.nodup_nil] at h
  rcases h with ⟨_, hnone, _⟩ | ⟨before, after, first, hfirst, _, rfl⟩
  · exact absurd hnone List.not_mem_nil
  obtain ⟨visit, hvisit, hfind, hfresh⟩ :=
    (KeepFirst.find?_flatMap_iff (visits_sorted (rounds + 1))
      (fun _ _ => earlier_asymm)).mp hfirst.find?
  obtain ⟨common, hcommon⟩ :=
    heldByAll_of_mem_ordersOfVisit hvisit (List.mem_of_find?_eq_some hfind)
  refine ⟨visit.1, visit.2, first, ⟨⟨common, hcommon, ordersOfVisit_eq hcommon ▸ hfind⟩, ?_⟩,
    foldl_addSites_fact _ _, ?_⟩
  · intro returns site order hearlier htaken
    have hlt : returns < rounds + 1 := by
      have := (mem_visits.mp hvisit).1
      unfold Earlier at hearlier
      omega
    have hmem := htaken.mem_ordersOfVisit
    obtain ⟨_, hheld, _⟩ := htaken
    simpa using hfresh (returns, site) (mem_visits_of_heldByAll hheld hlt) hearlier order hmem
  · intro other
    rw [mem_foldl_addSites]
    constructor
    · rintro ⟨taken, htaken, hsite⟩
      obtain ⟨hmem, hkey⟩ := hfirst.mem_iff.mp htaken
      obtain ⟨visit', hvisit', hmem⟩ := List.mem_flatMap.mp hmem
      obtain ⟨common, hheld, horder⟩ := takenWithin_of_mem hvisit' hmem
      rw [sites_of_mem_ordersAt horder, List.mem_singleton] at hsite
      subst hsite
      exact ⟨visit'.1, taken, ⟨common, hheld, horder⟩, hkey⟩
    · rintro ⟨returns, taken, htaken, hkey⟩
      obtain ⟨earlier, hle, _, common, hheld, horder⟩ := htaken.of_le hsettled
      refine ⟨taken, hfirst.mem_iff.mpr ⟨List.mem_flatMap.mpr ⟨(earlier, other),
        mem_visits_of_heldByAll hheld (by omega), ?_⟩, hkey⟩, ?_⟩
      · rwa [ordersOfVisit_eq hheld]
      · rw [sites_of_mem_ordersAt horder]
        exact List.mem_singleton_self other

-- Something is recorded under the key of every order that is taken.
theorem exists_recorded {returns : Nat} {site : OrderSite} {order : RecordedOrder}
    (h : collector.TakenWithin source returns site order) :
    ∃ recorded ∈ collector.recordedOrders source, recorded.key = order.key := by
  obtain ⟨rounds, hrecorded, hsettled⟩ := exists_rounds collector source
  obtain ⟨earlier, hle, _, common, hheld, horder⟩ := h.of_le hsettled
  rw [hrecorded]
  refine KeepFirst.exists_kept key_addSites (List.mem_flatMap.mpr ⟨(earlier, site),
    mem_visits_of_heldByAll hheld (by omega), ?_⟩)
  rwa [ordersOfVisit_eq hheld]

theorem FirstTaken.unique {returns returns' : Nat} {site site' : OrderSite}
    {first first' : RecordedOrder} (h : collector.FirstTaken source returns site first)
    (h' : collector.FirstTaken source returns' site' first')
    (hkey : first.key = first'.key) : first = first' := by
  have htaken {returns : Nat} {site : OrderSite} {first : RecordedOrder}
      (h : collector.FirstTaken source returns site first) :
      collector.TakenWithin source returns site first := by
    obtain ⟨common, hheld, hfind⟩ := h.taken
    exact ⟨common, hheld, List.mem_of_find?_eq_some hfind⟩
  rcases earlier_trichotomy returns returns' site site' with hearlier | ⟨rfl, rfl⟩ | hlater
  · exact absurd hkey (h'.fresh _ _ _ hearlier (htaken h))
  · obtain ⟨common, hheld, hfind⟩ := h.taken
    obtain ⟨common', hheld', hfind'⟩ := h'.taken
    rw [hheld.unique hheld', hkey] at hfind
    exact Option.some.inj (hfind.symm.trans hfind')
  · exact absurd hkey.symm (h.fresh _ _ _ hlater (htaken h'))

end Recorded

end LockOrderCollector

end ConcurrencyAnalyzer.LockOrder
