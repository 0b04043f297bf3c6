import ConcurrencyAnalyzer.Library.Delimiter
import ConcurrencyAnalyzer.LockIds
import ConcurrencyAnalyzer.LockOrder.RecordedOrders

namespace ConcurrencyAnalyzer.LockOrder

open Program LockState Library

-- What the key of an order tells of it, where no lock has the separator in its name.
theorem eq_of_orderKey_eq {fact other : LockOrderFact}
    (hfunction : fact.functionId = other.functionId)
    (hfirst : '|' ∉ fact.firstLockId.toList) (hfirst' : '|' ∉ other.firstLockId.toList)
    (hsecond : '|' ∉ fact.secondLockId.toList)
    (hsecond' : '|' ∉ other.secondLockId.toList) (h : orderKey fact = orderKey other) :
    fact.firstLockId = other.firstLockId ∧
      fact.secondLockId = other.secondLockId ∧
      fact.location.file = other.location.file ∧
      fact.location.line = other.location.line ∧
      fact.location.column = other.location.column := by
  have htext := congrArg String.toList h
  have hbar : "|".toList = ['|'] := rfl
  simp only [orderKey, hfunction, String.toList_append, hbar, List.append_assoc,
    List.cons_append, List.nil_append, List.append_cancel_left_eq, List.cons.injEq,
    true_and] at htext
  obtain ⟨hf, htext⟩ := Delimiter.split_single hfirst hfirst' htext
  obtain ⟨hs, htext⟩ := Delimiter.split_single hsecond hsecond' htext
  have hgroup (file line column : List Char) :
      file ++ '|' :: (line ++ '|' :: column) = (file ++ '|' :: line) ++ '|' :: column := by simp
  rw [hgroup, hgroup] at htext
  have hnumber : ∀ number : Nat, '|' ∉ (toString number).toList := notMem_natText (by decide)
  obtain ⟨htext, hcolumn⟩ := Delimiter.split_last (hnumber _) (hnumber _) htext
  obtain ⟨hfile, hline⟩ := Delimiter.split_last (hnumber _) (hnumber _) htext
  exact ⟨String.toList_inj.mp hf, String.toList_inj.mp hs, String.toList_inj.mp hfile,
    natText_injective hline, natText_injective hcolumn⟩

namespace LockOrderCollector

variable (collector : LockOrderCollector) (source : OrderSource)

-- The loop comes to an end by itself, in what is recorded: after some rounds one leaves all states
-- alone, and none did before.
def LoopEnds : Prop :=
  let flow := collector.heldFlow source
  EndsAfter (fun state next => flow.dataflow.unchanged state.1 next.1)
    (flow.dataflow.roundNoting (collector.recordOrders source)) (flow.dataflow.start, [])
    (flow.dataflow.solveNoting (collector.recordOrders source) flow.rounds [])

-- The locks some path holds at an instruction when it takes what it takes.
def HeldAt (site : OrderSite) (held : LockSet) : Prop :=
  ∃ instruction before, source.function.instructionAt site.1 site.2 = some instruction ∧
    (collector.heldFlow source).Held site.1 site.2 before ∧
    held = before \ (collector.changeAt source instruction).released.toFinset

-- A fact that is returned, with the acquisitions it stands for.
def StandsFor (fact : LockOrderFact) (sites : List OrderSite) : Prop :=
  ∃ (index : Nat) (order : RecordedOrder), (collector.recordedOrders source)[index]? = some order ∧
    (collector.collect source)[index]? = some fact ∧ sites = order.sites

variable {collector source}

theorem collect_getElem? (index : Nat) :
    (collector.collect source)[index]? =
      (collector.recordedOrders source)[index]?.map fun order =>
        collector.markedOrder source (collector.recordedOrders source) (order, index) := by
  unfold collect
  rw [List.getElem?_map, List.getElem?_zipIdx, Option.map_map, Nat.zero_add]
  rfl

-- A fact is what was recorded, but for its mark.
theorem StandsFor.recorded {fact : LockOrderFact} {sites : List OrderSite}
    (h : collector.StandsFor source fact sites) :
    ∃ order ∈ collector.recordedOrders source, ∃ marked,
      fact = { order.fact with lowerAddressFirst := marked } ∧ sites = order.sites := by
  obtain ⟨index, order, horder, hfact, rfl⟩ := h
  rw [collect_getElem?, horder, Option.map_some, Option.some.injEq] at hfact
  exact ⟨order, List.mem_of_getElem? horder, _, hfact.symm, rfl⟩

theorem exists_standsFor_of_recorded {order : RecordedOrder}
    (h : order ∈ collector.recordedOrders source) :
    ∃ fact marked, collector.StandsFor source fact order.sites ∧
      fact = { order.fact with lowerAddressFirst := marked } := by
  obtain ⟨index, horder⟩ := List.mem_iff_getElem?.mp h
  refine ⟨collector.markedOrder source (collector.recordedOrders source) (order, index), _,
    ⟨index, order, horder, ?_, rfl⟩, rfl⟩
  rw [collect_getElem?, horder]
  rfl

theorem exists_standsFor {fact : LockOrderFact} (h : fact ∈ collector.collect source) :
    ∃ sites, collector.StandsFor source fact sites := by
  obtain ⟨index, hfact⟩ := List.mem_iff_getElem?.mp h
  have hrecorded := hfact
  rw [collect_getElem?, Option.map_eq_some_iff] at hrecorded
  obtain ⟨order, horder, _⟩ := hrecorded
  exact ⟨order.sites, index, order, horder, hfact, rfl⟩

theorem StandsFor.mem {fact : LockOrderFact} {sites : List OrderSite}
    (h : collector.StandsFor source fact sites) : fact ∈ collector.collect source := by
  obtain ⟨_, _, _, hfact, _⟩ := h
  exact List.mem_of_getElem? hfact

section Orders

variable {block index : Nat} {instruction : Instruction} {acquired lock : String}

-- An order whose first lock every path holds is taken in the first round that gets there.
theorem exists_takenWithin (hreachable : block ∈ source.function.reachable)
    (hinstruction : source.function.instructionAt block index = some instruction)
    (hacquired : acquired ∈ (collector.changeAt source instruction).orderedAcquired)
    (hheld : ∀ held, collector.HeldAt source (block, index) held → lock ∈ held) :
    ∃ returns order, collector.TakenWithin source returns (block, index) order ∧
      order.fact.functionId = source.function.id ∧ order.fact.firstLockId = lock ∧
      order.fact.secondLockId = acquired ∧
      order.fact.location = source.userLocation (block, index) := by
  obtain ⟨found, hfound, hget⟩ := Option.bind_eq_some_iff.mp hinstruction
  obtain ⟨returns, common, hcommon⟩ : ∃ returns common,
      (collector.heldFlow source).HeldByAll returns block index common :=
    HeldFlow.exists_heldByAll hreachable hfound (List.getElem?_eq_some_iff.mp hget).1
  have hlock (held : LockSet) (h : (collector.heldFlow source).HeldWithin returns block index held) :
      lock ∈ held \ (collector.changeAt source instruction).released.toFinset :=
    hheld _ ⟨instruction, held, hinstruction, h.held, rfl⟩
  obtain ⟨_, hreached⟩ := hcommon.reached
  refine ⟨returns, _, ⟨common, hcommon, mem_ordersAt.mpr ⟨instruction, acquired, lock,
    hinstruction, hacquired, ?_, rfl⟩⟩, rfl, rfl, rfl, rfl⟩
  exact Finset.mem_sdiff.mpr ⟨(hcommon.mem lock).mpr fun held h =>
    (Finset.mem_sdiff.mp (hlock held h)).1, (Finset.mem_sdiff.mp (hlock _ hreached)).2⟩

theorem orderedAcquired_subset (resolver : SynchronizationEffectResolver) (function : Function)
    (instruction : Instruction) :
    ∀ name ∈ (lockStateChangeFor resolver function instruction).orderedAcquired,
      name ∈ (lockStateChangeFor resolver function instruction).acquired := by
  have hadd (bound : String → List String) (effects : List LockEffect) (change : LockStateChange)
      (h : ∀ name ∈ change.orderedAcquired, name ∈ change.acquired) :
      ∀ name ∈ (effects.foldl (LockStateChange.add bound) change).orderedAcquired,
        name ∈ (effects.foldl (LockStateChange.add bound) change).acquired := by
    induction effects generalizing change with
    | nil => exact h
    | cons effect effects ih =>
        refine ih _ fun name hname => ?_
        cases hkind : effect.kind with
        | Acquire | GuardAcquire =>
            simp only [LockStateChange.add, hkind, List.mem_append] at hname ⊢
            rcases hname with hname | hname
            · exact .inl (h name hname)
            · right
              split at hname
              · exact absurd hname List.not_mem_nil
              · exact hname
        | TryAcquire =>
            simp only [LockStateChange.add, hkind, List.mem_append] at hname ⊢
            exact .inl (h name hname)
        | Release | GuardRelease =>
            simp only [LockStateChange.add, hkind] at hname ⊢
            exact h name hname
  exact hadd _ _ {} fun name hname => absurd hname List.not_mem_nil

-- The locks of an order that is taken are locks of the function.
theorem TakenWithin.lockNames {returns : Nat} {site : OrderSite} {order : RecordedOrder}
    (h : collector.TakenWithin source returns site order) :
    order.fact.functionId = source.function.id ∧
      order.fact.firstLockId ∈ (collector.heldFlow source).lockNames ∧
      order.fact.secondLockId ∈ (collector.heldFlow source).lockNames := by
  obtain ⟨common, hcommon, horder⟩ := h
  obtain ⟨instruction, acquired, lock, hinstruction, hacquired, hlock, rfl⟩ := mem_ordersAt.mp horder
  obtain ⟨held, hheld⟩ := hcommon.reached
  obtain ⟨found, hfound, hget⟩ := Option.bind_eq_some_iff.mp hinstruction
  refine ⟨rfl, ?_, ?_⟩
  · exact hheld.held.subset_lockNames
      ((hcommon.mem lock).mp (Finset.mem_sdiff.mp hlock).1 held hheld)
  · have hsubset : ((collector.heldFlow source).changeAt instruction).acquired.toFinset ⊆
        (collector.heldFlow source).lockNames :=
      HeldFlow.acquired_subset_lockNames (List.mem_of_getElem? hfound) (List.mem_of_getElem? hget)
    exact hsubset (List.mem_toFinset.mpr (orderedAcquired_subset _ _ _ acquired hacquired))

end Orders

-- Every order of a lock that all paths hold is found under its key, and is the order found there
-- unless the name of a lock has the separator in it.
theorem exists_fact_of_held {block index : Nat} {instruction : Instruction} {acquired lock : String}
    (hreachable : block ∈ source.function.reachable)
    (hinstruction : source.function.instructionAt block index = some instruction)
    (hacquired : acquired ∈ (collector.changeAt source instruction).orderedAcquired)
    (hheld : ∀ held, collector.HeldAt source (block, index) held → lock ∈ held) :
    ∃ fact ∈ collector.collect source,
      orderKey fact = orderKey
        { functionId := source.function.id, firstLockId := lock, secondLockId := acquired
          location := source.userLocation (block, index) } ∧
      ((∀ name ∈ (collector.heldFlow source).lockNames, '|' ∉ name.toList) →
        fact.firstLockId = lock ∧ fact.secondLockId = acquired ∧
          fact.location.file = (source.userLocation (block, index)).file ∧
          fact.location.line = (source.userLocation (block, index)).line ∧
          fact.location.column = (source.userLocation (block, index)).column) := by
  obtain ⟨returns, order, htaken, hfunction, hfirst, hsecond, hlocation⟩ :=
    exists_takenWithin hreachable hinstruction hacquired hheld
  obtain ⟨recorded, hrecorded, hkey⟩ := exists_recorded htaken
  obtain ⟨fact, marked, hstands, hfact⟩ := exists_standsFor_of_recorded hrecorded
  have hsame : orderKey fact = orderKey order.fact := by
    rw [hfact]
    exact hkey
  refine ⟨fact, hstands.mem, ?_, fun hnames => ?_⟩
  · rw [hsame]
    simp only [orderKey, hfunction, hfirst, hsecond, hlocation]
  · obtain ⟨_, _, first, hfirstTaken, hrecordedFact, _⟩ := firstTaken_of_mem hrecorded
    obtain ⟨common, hcommon, hfind⟩ := hfirstTaken.taken
    obtain ⟨hfunction', hfirst', hsecond'⟩ :=
      TakenWithin.lockNames ⟨common, hcommon, List.mem_of_find?_eq_some hfind⟩
    obtain ⟨_, hfirstName, hsecondName⟩ := htaken.lockNames
    have hparts : fact.functionId = first.fact.functionId ∧
        fact.firstLockId = first.fact.firstLockId ∧ fact.secondLockId = first.fact.secondLockId := by
      rw [hfact, hrecordedFact]
      exact ⟨rfl, rfl, rfl⟩
    have heq := eq_of_orderKey_eq (hparts.1.trans (hfunction'.trans hfunction.symm))
      (hnames _ (hparts.2.1 ▸ hfirst')) (hnames _ hfirstName)
      (hnames _ (hparts.2.2 ▸ hsecond')) (hnames _ hsecondName) hsame
    rwa [hfirst, hsecond, hlocation] at heq

-- Some path takes the order of each fact at one of the acquisitions it stands for.
theorem exists_path_of_fact {fact : LockOrderFact} {sites : List OrderSite}
    (h : collector.StandsFor source fact sites) :
    ∃ site ∈ sites, ∃ instruction held,
      source.function.instructionAt site.1 site.2 = some instruction ∧
      fact.secondLockId ∈ (collector.changeAt source instruction).orderedAcquired ∧
      collector.HeldAt source site held ∧ fact.firstLockId ∈ held := by
  obtain ⟨order, horder, marked, rfl, rfl⟩ := h.recorded
  obtain ⟨returns, site, first, hfirst, hfact, hsites⟩ := firstTaken_of_mem horder
  obtain ⟨common, hcommon, hfind⟩ := hfirst.taken
  have hmem := List.mem_of_find?_eq_some hfind
  obtain ⟨instruction, acquired, lock, hinstruction, hacquired, hlock, hdata⟩ := mem_ordersAt.mp hmem
  obtain ⟨held, hheld⟩ := hcommon.reached
  refine ⟨site, (hsites site).mpr ⟨returns, first, ⟨common, hcommon, hmem⟩, rfl⟩, instruction, _,
    hinstruction, ?_, ⟨instruction, held, hinstruction, hheld.held, rfl⟩, ?_⟩
  · show order.fact.secondLockId ∈ _
    rwa [hfact, hdata]
  · show order.fact.firstLockId ∈ _
    rw [hfact, hdata]
    obtain ⟨hin, hout⟩ := Finset.mem_sdiff.mp hlock
    exact Finset.mem_sdiff.mpr ⟨(hcommon.mem lock).mp hin held hheld, hout⟩

theorem collect_finds_orders (collector : LockOrderCollector) (source : OrderSource) :
    collector.LoopEnds source ∧
    (∀ block ∈ source.function.reachable, ∀ index instruction,
      source.function.instructionAt block index = some instruction →
      ∀ acquired ∈ (collector.changeAt source instruction).orderedAcquired, ∀ lock,
        (∀ held, collector.HeldAt source (block, index) held → lock ∈ held) →
        ∃ fact ∈ collector.collect source,
          orderKey fact = orderKey
            { functionId := source.function.id, firstLockId := lock, secondLockId := acquired
              location := source.userLocation (block, index) } ∧
          ((∀ name ∈ (collector.heldFlow source).lockNames, '|' ∉ name.toList) →
            fact.firstLockId = lock ∧ fact.secondLockId = acquired ∧
              fact.location.file = (source.userLocation (block, index)).file ∧
              fact.location.line = (source.userLocation (block, index)).line ∧
              fact.location.column = (source.userLocation (block, index)).column)) ∧
    ∀ fact ∈ collector.collect source, ∃ sites, collector.StandsFor source fact sites ∧
      ∃ site ∈ sites, ∃ instruction held,
        source.function.instructionAt site.1 site.2 = some instruction ∧
        fact.secondLockId ∈ (collector.changeAt source instruction).orderedAcquired ∧
        collector.HeldAt source site held ∧ fact.firstLockId ∈ held := by
  refine ⟨(loop_ends collector source).1, ?_, ?_⟩
  · intro block hreachable index instruction hinstruction acquired hacquired lock hheld
    exact exists_fact_of_held hreachable hinstruction hacquired hheld
  · intro fact hfact
    obtain ⟨sites, hstands⟩ := exists_standsFor hfact
    exact ⟨sites, hstands, exists_path_of_fact hstands⟩

-- `x|y` then `z` has the key of `x` then `y|z`.
def twoSplits : OrderSource where
  function :=
    { id := "f"
      blocks :=
        [{ instructions :=
             [.lock .pthread_mutex_lock (.global "x") false,
              .lock .pthread_mutex_lock (.global "x|y") false,
              .guardCtor .scoped_lock .none (.alloca "guard") [.global "y|z", .global "z"] false]
           returns := true }] }

theorem key_hides_order :
    (0 ∈ twoSplits.function.reachable ∧ ∃ instruction,
      twoSplits.function.instructionAt 0 2 = some instruction ∧
      "z" ∈ (changeAt {} twoSplits instruction).orderedAcquired) ∧
    (∀ held, HeldAt {} twoSplits (0, 2) held → "x|y" ∈ held) ∧
    ∀ fact ∈ collect {} twoSplits, ¬(fact.firstLockId = "x|y" ∧ fact.secondLockId = "z") := by
  refine ⟨⟨by decide +kernel, _, rfl, by decide +kernel⟩, ?_, by decide +kernel⟩
  rintro held ⟨instruction, before, hinstruction, hbefore, rfl⟩
  have hpath (block index : Nat) (held : LockSet) (h : (heldFlow {} twoSplits).Held block index held) :
      block = 0 ∧ (2 ≤ index → "x|y" ∈ held) := by
    induction h with
    | entry => exact ⟨rfl, by omega⟩
    | @next block index held instruction _ hinstruction ih =>
        obtain ⟨rfl, hheld⟩ := ih
        refine ⟨rfl, fun hindex => ?_⟩
        match index, hinstruction with
        | 1, hinstruction =>
            cases hinstruction
            exact Finset.mem_union_right _ (by decide +kernel)
        | 2, hinstruction =>
            cases hinstruction
            exact Finset.mem_union_left _ (Finset.mem_sdiff.mpr ⟨hheld le_rfl, by decide +kernel⟩)
    | branch _ hfound hsuccessor _ ih =>
        obtain ⟨rfl, _⟩ := ih
        cases hfound
        exact absurd hsuccessor List.not_mem_nil
  cases hinstruction
  exact Finset.mem_sdiff.mpr ⟨(hpath 0 2 before hbefore).2 le_rfl, by decide +kernel⟩

section Gates

variable (collector source)

-- Each fact claims only gates that are held wherever its order is taken, and all the threads beside it.
def GatesHold : Prop :=
  ∀ fact sites, collector.StandsFor source fact sites → ∀ site ∈ sites,
    (∀ held, collector.HeldAt source site held → fact.firstLockId ∈ held → fact.heldLocks ⊆ held) ∧
      source.liveEntriesByInstruction site ⊆ fact.liveEntries

-- What all the paths hold that lead the collector to an order first is held wherever the order is
-- taken, and the threads beside it there are beside it at the first place already.
def FirstSpeaksForAll : Prop :=
  ∀ returns site first, collector.FirstTaken source returns site first →
    ∀ common instruction, (collector.heldFlow source).HeldByAll returns site.1 site.2 common →
      source.function.instructionAt site.1 site.2 = some instruction →
    ∀ returns' other taken, collector.TakenWithin source returns' other taken →
      taken.key = first.key →
      (∀ held, collector.HeldAt source other held → first.fact.firstLockId ∈ held →
        gatesAmong (common \ (collector.changeAt source instruction).released.toFinset)
          (collector.sharedObject source) ⊆ held) ∧
      source.liveEntriesByInstruction other ⊆ source.liveEntriesByInstruction site

variable {collector source}

theorem FirstTaken.data {returns : Nat} {site : OrderSite} {first : RecordedOrder}
    (h : collector.FirstTaken source returns site first) :
    ∃ common instruction, (collector.heldFlow source).HeldByAll returns site.1 site.2 common ∧
      source.function.instructionAt site.1 site.2 = some instruction ∧
      first.fact.heldLocks =
        gatesAmong (common \ (collector.changeAt source instruction).released.toFinset)
          (collector.sharedObject source) ∧
      first.fact.liveEntries = source.liveEntriesByInstruction site := by
  obtain ⟨common, hcommon, hfind⟩ := h.taken
  obtain ⟨instruction, _, _, hinstruction, _, _, hdata⟩ :=
    mem_ordersAt.mp (List.mem_of_find?_eq_some hfind)
  rw [hdata]
  exact ⟨common, instruction, hcommon, hinstruction, rfl, rfl⟩

theorem gates_hold_iff (collector : LockOrderCollector) (source : OrderSource) :
    collector.GatesHold source ↔ collector.FirstSpeaksForAll source := by
  constructor
  · intro hgates returns site first hfirst common instruction hcommon hinstruction returns' other
      taken htaken hkey
    obtain ⟨common', instruction', hcommon', hinstruction', hheldLocks, hlive⟩ := hfirst.data
    obtain rfl := hcommon.unique hcommon'
    obtain rfl := Option.some.inj (hinstruction.symm.trans hinstruction')
    obtain ⟨order, horder, hsame⟩ := exists_recorded htaken
    obtain ⟨fact, marked, hstands, hfact⟩ := exists_standsFor_of_recorded horder
    obtain ⟨_, _, first', hfirst', horderFact, hsites⟩ := firstTaken_of_mem horder
    have hkey' : first'.key = order.key := by
      unfold RecordedOrder.key
      rw [horderFact]
    obtain rfl := hfirst.unique hfirst' (by rw [hkey', hsame, hkey])
    have hdata : fact.firstLockId = first.fact.firstLockId ∧
        fact.heldLocks = first.fact.heldLocks ∧ fact.liveEntries = first.fact.liveEntries := by
      rw [hfact, horderFact]
      exact ⟨rfl, rfl, rfl⟩
    have hhold := hgates fact order.sites hstands other
      ((hsites other).mpr ⟨returns', taken, htaken, hkey⟩)
    rwa [hdata.1, hdata.2.1, hdata.2.2, hheldLocks, hlive] at hhold
  · intro hfirsts fact sites hstands site hsite
    obtain ⟨order, horder, marked, rfl, rfl⟩ := hstands.recorded
    obtain ⟨returns, place, first, hfirst, horderFact, hsites⟩ := firstTaken_of_mem horder
    obtain ⟨common, instruction, hcommon, hinstruction, hheldLocks, hlive⟩ := hfirst.data
    obtain ⟨returns', taken, htaken, hkey⟩ := (hsites site).mp hsite
    have hhold := hfirsts returns place first hfirst common instruction hcommon hinstruction returns'
      site taken htaken hkey
    rw [← hheldLocks, ← hlive, ← horderFact] at hhold
    exact hhold

-- The gate is given up in the first turn of the loop.
def releasedInLoop : OrderSource where
  function :=
    { id := "f"
      blocks :=
        [{ instructions :=
             [.lock .pthread_mutex_lock (.global "gate") false,
              .lock .pthread_mutex_lock (.global "a") false]
           successors := [1] },
         { instructions :=
             [.lock .pthread_mutex_lock (.global "b") false,
              .lock .pthread_mutex_unlock (.global "b") false,
              .lock .pthread_mutex_unlock (.global "gate") false]
           successors := [1, 2] },
         { returns := true }] }

theorem gate_released_in_loop_claimed : ¬GatesHold {} releasedInLoop := by
  intro hgates
  have hrecorded : ∃ order ∈ recordedOrders {} releasedInLoop, order.fact.firstLockId = "a" ∧
      "gate" ∈ order.fact.heldLocks ∧ (1, 0) ∈ order.sites := by
    decide +kernel
  obtain ⟨order, horder, hfirst, hgate, hsite⟩ := hrecorded
  obtain ⟨fact, marked, hstands, hfact⟩ := exists_standsFor_of_recorded horder
  have hhold := (hgates fact order.sites hstands (1, 0) hsite).1
  obtain ⟨held, hheld, hlock, hnone⟩ : ∃ held, (heldFlow {} releasedInLoop).Held 1 0 held ∧
      "a" ∈ held ∧ "gate" ∉ held := by
    refine ⟨_, @HeldFlow.Arrives.branch _ _ 1 _ _ 1 (.next (.next (.next
      (@HeldFlow.Arrives.branch _ _ 0 _ _ 1 (.next (.next .entry rfl) rfl) rfl ?_ trivial)
      rfl) rfl) rfl) rfl ?_ trivial, ?_, ?_⟩ <;> decide +kernel
  have hclaimed : fact.firstLockId = "a" ∧ "gate" ∈ fact.heldLocks := by
    rw [hfact]
    exact ⟨hfirst, hgate⟩
  have hlocks := hhold _ ⟨_, held, rfl, hheld, rfl⟩
  rw [hclaimed.1] at hlocks
  refine hnone (Finset.mem_sdiff.mp (hlocks (Finset.mem_sdiff.mpr ⟨hlock, ?_⟩) hclaimed.2)).1
  decide +kernel

end Gates

end LockOrderCollector

end ConcurrencyAnalyzer.LockOrder
