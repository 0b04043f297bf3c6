import ConcurrencyAnalyzer.FactsBuilder.LockOrders
import ConcurrencyAnalyzer.LockOrder.Theorems

namespace ConcurrencyAnalyzer.FactsBuilder

open Library.KeepFirst

-- The orders left by some arrivals, the caller's names being erased from the gates or not.
def keepAll (orders : List LockOrderFact) : List LockOrderFact :=
  orders.foldl keepLockOrder []

def addAll (orders : List LockOrderFact) : List LockOrderFact :=
  orders.foldl addLockOrder []

-- Two orders of one function between the same locks, with the same marks.
structure SameOrder (kept order : LockOrderFact) : Prop where
  functionId : kept.functionId = order.functionId
  firstLockId : kept.firstLockId = order.firstLockId
  secondLockId : kept.secondLockId = order.secondLockId
  lowerAddressFirst : kept.lowerAddressFirst = order.lowerAddressFirst
  boundBySpawn : kept.boundBySpawn = order.boundBySpawn

-- An order that hides another: whatever runs beside that one and passes its gates meets it too.
structure StandsFor (kept order : LockOrderFact) : Prop where
  same : SameOrder kept order
  gates : namedLocks kept.heldLocks ⊆ namedLocks order.heldLocks
  live : order.liveEntries ⊆ kept.liveEntries

instance (kept order : LockOrderFact) : Decidable (StandsFor kept order) :=
  decidable_of_iff
    ((kept.functionId = order.functionId ∧ kept.firstLockId = order.firstLockId ∧
        kept.secondLockId = order.secondLockId ∧
        kept.lowerAddressFirst = order.lowerAddressFirst ∧
        kept.boundBySpawn = order.boundBySpawn) ∧
      namedLocks kept.heldLocks ⊆ namedLocks order.heldLocks ∧
      order.liveEntries ⊆ kept.liveEntries)
    ⟨fun ⟨⟨h1, h2, h3, h4, h5⟩, hgates, hlive⟩ => ⟨⟨h1, h2, h3, h4, h5⟩, hgates, hlive⟩,
      fun ⟨⟨h1, h2, h3, h4, h5⟩, hgates, hlive⟩ => ⟨⟨h1, h2, h3, h4, h5⟩, hgates, hlive⟩⟩

-- No order on two locks is hidden by one with gates or without threads of its own.
def HidesNone (orders kept : List LockOrderFact) : Prop :=
  ∀ order ∈ orders, order.firstLockId ≠ order.secondLockId →
    ∃ other ∈ kept, StandsFor other order

instance (orders kept : List LockOrderFact) : Decidable (HidesNone orders kept) :=
  inferInstanceAs (Decidable (∀ order ∈ orders, _ → ∃ other ∈ kept, StandsFor other order))

-- Some order that arrived first under its key has no gate the given one lacks, and the orders that
-- arrived under that key run beside the given one's threads.
def CoveredByFirst (orders : List LockOrderFact) (order : LockOrderFact) : Prop :=
  ∃ before after first, FirstOfKey lockOrderKey orders before after first ∧
    SameOrder first order ∧ namedLocks first.heldLocks ⊆ namedLocks order.heldLocks ∧
    ∀ entry ∈ order.liveEntries, ∃ other ∈ orders,
      lockOrderKey other = lockOrderKey first ∧ entry ∈ other.liveEntries

section Merge

variable {orders : List LockOrderFact} {order : LockOrderFact}

@[simp] theorem lockOrderKey_uniteThreads (kept order : LockOrderFact) :
    lockOrderKey (uniteThreads kept order) = lockOrderKey kept := rfl

@[simp] theorem lockOrderKey_eraseCallerFrame (order : LockOrderFact) :
    lockOrderKey (eraseCallerFrame order) = lockOrderKey order := rfl

@[simp] theorem namedLocks_idem (heldLocks : LockSet) :
    namedLocks (namedLocks heldLocks) = namedLocks heldLocks := by
  simp [namedLocks, Finset.filter_filter]

theorem addAll_eq_keepAll (orders : List LockOrderFact) :
    addAll orders = keepAll (orders.map eraseCallerFrame) := by
  rw [addAll, keepAll, List.foldl_map]
  rfl

-- Uniting threads changes nothing else of an order.
structure UnitedFrom (first : LockOrderFact) (others : List LockOrderFact)
    (kept : LockOrderFact) : Prop where
  same : SameOrder kept first
  heldLocks : kept.heldLocks = first.heldLocks
  inRootTask : kept.inRootTask = first.inRootTask
  live : ∀ entry, entry ∈ kept.liveEntries ↔
    entry ∈ first.liveEntries ∨ ∃ other ∈ others, entry ∈ other.liveEntries

theorem unitedFrom_foldl (first : LockOrderFact) (others : List LockOrderFact) :
    UnitedFrom first others (others.foldl uniteThreads first) := by
  induction others generalizing first with
  | nil => exact ⟨⟨rfl, rfl, rfl, rfl, rfl⟩, rfl, rfl, by simp⟩
  | cons other others ih =>
      have hnext := ih (uniteThreads first other)
      refine ⟨⟨hnext.same.1, hnext.same.2, hnext.same.3, hnext.same.4, hnext.same.5⟩,
        hnext.heldLocks, hnext.inRootTask, ?_⟩
      intro entry
      rw [List.foldl_cons, hnext.live]
      simp only [uniteThreads, Finset.mem_union, List.mem_cons, exists_eq_or_imp, or_assoc]

theorem mem_keepAll {kept : LockOrderFact} :
    kept ∈ keepAll orders ↔ ∃ before after first,
      FirstOfKey lockOrderKey orders before after first ∧
        kept = (sameKey lockOrderKey first after).foldl uniteThreads first := by
  have hkeep : keepLockOrder = keep lockOrderKey uniteThreads := rfl
  rw [keepAll, hkeep, mem_foldl_keep lockOrderKey_uniteThreads orders [] (by simp) kept]
  simp

-- The threads beside a kept order are those beside the orders with its key.
theorem live_iff {before after : List LockOrderFact} {first : LockOrderFact}
    (h : FirstOfKey lockOrderKey orders before after first) (entry : String) :
    entry ∈ ((sameKey lockOrderKey first after).foldl uniteThreads first).liveEntries ↔
      ∃ other ∈ orders, lockOrderKey other = lockOrderKey first ∧ entry ∈ other.liveEntries := by
  rw [(unitedFrom_foldl first _).live]
  simp only [sameKey, List.mem_filter, decide_eq_true_eq]
  constructor
  · rintro (he | ⟨other, ⟨ho, hk⟩, he⟩)
    · exact ⟨first, by simp [h.split], rfl, he⟩
    · exact ⟨other, by simp [h.split, ho], hk, he⟩
  · rintro ⟨other, ho, hk, he⟩
    rw [h.split, List.mem_append, List.mem_cons] at ho
    rcases ho with ho | rfl | ho
    · exact absurd hk (h.fresh other ho)
    · exact Or.inl he
    · exact Or.inr ⟨other, ⟨ho, hk⟩, he⟩

-- An order has one that stands for it exactly when the first arrival under some key covers it.
theorem exists_standsFor_iff :
    (∃ kept ∈ keepAll orders, StandsFor kept order) ↔ CoveredByFirst orders order := by
  constructor
  · rintro ⟨kept, hk, hstands⟩
    obtain ⟨before, after, first, hfirst, rfl⟩ := mem_keepAll.mp hk
    have hunited := unitedFrom_foldl first (sameKey lockOrderKey first after)
    have hsame := hstands.same
    refine ⟨before, after, first, hfirst, ?_, ?_, ?_⟩
    · exact ⟨hunited.same.1 ▸ hsame.1, hunited.same.2 ▸ hsame.2, hunited.same.3 ▸ hsame.3,
        hunited.same.4 ▸ hsame.4, hunited.same.5 ▸ hsame.5⟩
    · rw [← hunited.heldLocks]
      exact hstands.gates
    · intro entry he
      exact (live_iff hfirst entry).mp (hstands.live he)
  · rintro ⟨before, after, first, hfirst, hsame, hgates, hlive⟩
    have hunited := unitedFrom_foldl first (sameKey lockOrderKey first after)
    refine ⟨_, mem_keepAll.mpr ⟨before, after, first, hfirst, rfl⟩, ?_, ?_, ?_⟩
    · exact ⟨hunited.same.1.trans hsame.1, hunited.same.2.trans hsame.2,
        hunited.same.3.trans hsame.3, hunited.same.4.trans hsame.4, hunited.same.5.trans hsame.5⟩
    · rw [hunited.heldLocks]
      exact hgates
    · intro entry he
      exact (live_iff hfirst entry).mpr (hlive entry he)

theorem hidesNone_keepAll_iff :
    HidesNone orders (keepAll orders) ↔ ∀ order ∈ orders,
      order.firstLockId ≠ order.secondLockId → CoveredByFirst orders order := by
  simp only [HidesNone, exists_standsFor_iff]

theorem firstOfKey_map {before after : List LockOrderFact} {first : LockOrderFact}
    (h : FirstOfKey lockOrderKey orders before after first) :
    FirstOfKey lockOrderKey (orders.map eraseCallerFrame) (before.map eraseCallerFrame)
      (after.map eraseCallerFrame) (eraseCallerFrame first) := by
  refine ⟨?_, ?_⟩
  · rw [h.split, List.map_append, List.map_cons]
  · intro other ho
    obtain ⟨original, hm, rfl⟩ := List.mem_map.mp ho
    exact h.fresh original hm

-- Erasing the caller's names changes neither the keys nor the gates.
theorem coveredByFirst_erase :
    CoveredByFirst (orders.map eraseCallerFrame) (eraseCallerFrame order) ↔
      CoveredByFirst orders order := by
  constructor
  · rintro ⟨before, after, first, hfirst, hsame, hgates, hlive⟩
    obtain ⟨before', rest, horders, rfl, hrest⟩ := List.map_eq_append_iff.mp hfirst.split
    obtain ⟨first', after', rfl, rfl, rfl⟩ := List.map_eq_cons_iff.mp hrest
    refine ⟨before', after', first', ⟨horders, ?_⟩, ?_, ?_, ?_⟩
    · intro other ho
      exact hfirst.fresh (eraseCallerFrame other) (List.mem_map_of_mem ho)
    · exact ⟨hsame.1, hsame.2, hsame.3, hsame.4, hsame.5⟩
    · simpa [eraseCallerFrame] using hgates
    · intro entry he
      obtain ⟨other, ho, hk, hl⟩ := hlive entry he
      obtain ⟨original, hm, rfl⟩ := List.mem_map.mp ho
      exact ⟨original, hm, hk, hl⟩
  · rintro ⟨before, after, first, hfirst, hsame, hgates, hlive⟩
    refine ⟨_, _, _, firstOfKey_map hfirst, ?_, ?_, ?_⟩
    · exact ⟨hsame.1, hsame.2, hsame.3, hsame.4, hsame.5⟩
    · simpa [eraseCallerFrame] using hgates
    · intro entry he
      obtain ⟨other, ho, hk, hl⟩ := hlive entry he
      exact ⟨eraseCallerFrame other, List.mem_map_of_mem ho, hk, hl⟩

theorem standsFor_erase {kept : LockOrderFact} :
    StandsFor kept (eraseCallerFrame order) ↔ StandsFor kept order := by
  constructor
  · rintro ⟨hsame, hgates, hlive⟩
    exact ⟨⟨hsame.1, hsame.2, hsame.3, hsame.4, hsame.5⟩,
      by simpa [eraseCallerFrame] using hgates, hlive⟩
  · rintro ⟨hsame, hgates, hlive⟩
    exact ⟨⟨hsame.1, hsame.2, hsame.3, hsame.4, hsame.5⟩,
      by simpa [eraseCallerFrame] using hgates, hlive⟩

theorem hidesNone_addAll_iff :
    HidesNone orders (addAll orders) ↔ ∀ order ∈ orders,
      order.firstLockId ≠ order.secondLockId → CoveredByFirst orders order := by
  simp only [HidesNone, addAll_eq_keepAll]
  have hone : ∀ order, (∃ kept ∈ keepAll (orders.map eraseCallerFrame), StandsFor kept order) ↔
      CoveredByFirst orders order := by
    intro order
    rw [← coveredByFirst_erase, ← exists_standsFor_iff]
    simp only [standsFor_erase]
  simp only [hone]

end Merge

-- A function's orders run in the initial thread or not alike, except those of a bound thread.
def RootTaskByFunction (rootTaskFunctions : Finset String) (orders : List LockOrderFact) : Prop :=
  ∀ order ∈ orders, order.inRootTask =
    (decide (order.functionId ∈ rootTaskFunctions) && !order.boundBySpawn)

section Cycles

open LockOrder

variable {facts : TUFacts} {orders : List LockOrderFact} {rootTaskFunctions : Finset String}

theorem RootTaskByFunction.addAll (h : RootTaskByFunction rootTaskFunctions orders) :
    RootTaskByFunction rootTaskFunctions (addAll orders) := by
  intro kept hk
  rw [addAll_eq_keepAll, mem_keepAll] at hk
  obtain ⟨before, after, first, hfirst, rfl⟩ := hk
  have hunited := unitedFrom_foldl first (sameKey lockOrderKey first after)
  have hmem : first ∈ orders.map eraseCallerFrame := by simp [hfirst.split]
  obtain ⟨original, ho, rfl⟩ := List.mem_map.mp hmem
  rw [hunited.inRootTask, hunited.same.functionId, hunited.same.boundBySpawn]
  exact h original ho

theorem heldLocks_addAll {kept : LockOrderFact} (hk : kept ∈ addAll orders) :
    namedLocks kept.heldLocks = kept.heldLocks := by
  rw [addAll_eq_keepAll, mem_keepAll] at hk
  obtain ⟨before, after, first, hfirst, rfl⟩ := hk
  have hunited := unitedFrom_foldl first (sameKey lockOrderKey first after)
  have hmem : first ∈ orders.map eraseCallerFrame := by simp [hfirst.split]
  obtain ⟨original, ho, rfl⟩ := List.mem_map.mp hmem
  rw [hunited.heldLocks]
  exact namedLocks_idem _

theorem parallel_mono {kept kept' order order' : LockOrderFact} (h : StandsFor kept order)
    (h' : StandsFor kept' order') (hroot : kept.inRootTask = order.inRootTask)
    (hroot' : kept'.inRootTask = order'.inRootTask) (hparallel : Parallel facts order order') :
    Parallel facts kept kept' := by
  have hentries : entriesFor kept facts = entriesFor order facts := by
    rw [entriesFor, entriesFor, h.same.functionId]
  have hentries' : entriesFor kept' facts = entriesFor order' facts := by
    rw [entriesFor, entriesFor, h'.same.functionId]
  have hraces : ∀ {first second : LockOrderFact} {entries : ThreadEntrySet},
      StandsFor first second → first.inRootTask = second.inRootTask →
        racesWithRootTask second entries = true → racesWithRootTask first entries = true := by
    intro first second entries hs hr hrace
    simp only [racesWithRootTask, TaskFact.inRootTask, TaskFact.liveEntries, Bool.and_eq_true,
      decide_eq_true_eq] at hrace ⊢
    obtain ⟨hroot, entry, he, hl⟩ := hrace
    exact ⟨hr.trans hroot, entry, he, hs.live hl⟩
  unfold Parallel mayHappenInParallel at *
  rw [hentries, hentries']
  by_cases hrace : (racesWithRootTask order (entriesFor order' facts) ||
      racesWithRootTask order' (entriesFor order facts)) = true
  · have hkept : (racesWithRootTask kept (entriesFor order' facts) ||
        racesWithRootTask kept' (entriesFor order facts)) = true := by
      rw [Bool.or_eq_true] at hrace ⊢
      rcases hrace with hrace | hrace
      · exact Or.inl (hraces h hroot hrace)
      · exact Or.inr (hraces h' hroot' hrace)
    rw [if_pos hkept]
  · rw [if_neg hrace] at hparallel
    split
    · rfl
    · exact hparallel

-- A choice of kept orders that stands, one by one, for a choice of added ones.
theorem exists_kept_choice (hhides : HidesNone orders (addAll orders))
    {choice : List LockOrderFact}
    (hchoice : ∀ order ∈ choice, order ∈ orders ∧ order.firstLockId ≠ order.secondLockId) :
    ∃ kept, (∀ order ∈ kept, order ∈ addAll orders) ∧ List.Forall₂ StandsFor kept choice := by
  induction choice with
  | nil => exact ⟨[], by simp, List.Forall₂.nil⟩
  | cons order choice ih =>
      obtain ⟨⟨hmem, hne⟩, hchoice⟩ := List.forall_mem_cons.mp hchoice
      obtain ⟨first, hf, hstands⟩ := hhides order hmem hne
      obtain ⟨kept, hkept, hrest⟩ := ih hchoice
      exact ⟨first :: kept, List.forall_mem_cons.mpr ⟨hf, hkept⟩, List.Forall₂.cons hstands hrest⟩

theorem map_eq_of_standsFor {β : Type*} {kept choice : List LockOrderFact}
    (h : List.Forall₂ StandsFor kept choice) (f : LockOrderFact → β)
    (hf : ∀ first second, StandsFor first second → f first = f second) :
    kept.map f = choice.map f := by
  induction h with
  | nil => rfl
  | cons hstands _ ih => rw [List.map_cons, List.map_cons, hf _ _ hstands, ih]

theorem exists_standsFor_of_mem {kept choice : List LockOrderFact}
    (h : List.Forall₂ StandsFor kept choice) {order : LockOrderFact} (ho : order ∈ choice) :
    ∃ other ∈ kept, StandsFor other order := by
  induction h with
  | nil => cases ho
  | @cons first _ _ _ hstands _ ih =>
      rcases List.mem_cons.mp ho with rfl | ho
      · exact ⟨first, List.mem_cons_self .., hstands⟩
      · obtain ⟨other, hm, hs⟩ := ih ho
        exact ⟨other, List.mem_cons_of_mem _ hm, hs⟩

theorem pairwise_parallel_mono {kept choice : List LockOrderFact}
    (h : List.Forall₂ StandsFor kept choice)
    (hkept : RootTaskByFunction rootTaskFunctions kept)
    (hchoice : RootTaskByFunction rootTaskFunctions choice)
    (hparallel : choice.Pairwise (Parallel facts)) : kept.Pairwise (Parallel facts) := by
  have hroot : ∀ {first second : LockOrderFact}, first ∈ kept → second ∈ choice →
      StandsFor first second → first.inRootTask = second.inRootTask := by
    intro first second hf hs hstands
    rw [hkept first hf, hchoice second hs, hstands.same.functionId, hstands.same.boundBySpawn]
  induction h with
  | nil => exact List.Pairwise.nil
  | @cons first second kept choice hstands hrest ih =>
      obtain ⟨hsecond, hparallel⟩ := List.pairwise_cons.mp hparallel
      refine List.pairwise_cons.mpr ⟨?_, ?_⟩
      · intro other ho
        obtain ⟨place, hlt, rfl⟩ := List.getElem_of_mem ho
        have hlt' : place < choice.length := hrest.length_eq ▸ hlt
        have hs := hrest.get hlt hlt'
        have hm := List.getElem_mem hlt'
        exact parallel_mono hstands hs
          (hroot (List.mem_cons_self ..) (List.mem_cons_self ..) hstands)
          (hroot (List.mem_cons_of_mem _ ho) (List.mem_cons_of_mem _ hm) hs) (hsecond _ hm)
      · apply ih _ _ hparallel
        · intro other other' ho ho'
          exact hroot (List.mem_cons_of_mem _ ho) (List.mem_cons_of_mem _ ho')
        · exact fun other ho => hkept other (List.mem_cons_of_mem _ ho)
        · exact fun other ho => hchoice other (List.mem_cons_of_mem _ ho)

-- Where the merge hides nothing, a deadlock some choice of added orders shows is shown by kept ones.
theorem deadlock_kept (hhides : HidesNone orders (addAll orders))
    (hroot : RootTaskByFunction rootTaskFunctions orders) {choice : List LockOrderFact}
    (hchoice : ∀ order ∈ choice, order ∈ orders ∧ order.firstLockId ≠ order.secondLockId)
    (hdead : MayDeadlock facts choice) :
    ∃ kept, (∀ order ∈ kept, order ∈ addAll orders) ∧
      kept.map (·.firstLockId) = choice.map (·.firstLockId) ∧
      kept.map (·.secondLockId) = choice.map (·.secondLockId) ∧
      MayDeadlock facts kept ∧ isAddressOrdered kept = isAddressOrdered choice := by
  obtain ⟨kept, hkept, hstands⟩ := exists_kept_choice hhides hchoice
  have hfirsts := map_eq_of_standsFor hstands (·.firstLockId) fun _ _ h => h.same.firstLockId
  have hseconds := map_eq_of_standsFor hstands (·.secondLockId) fun _ _ h => h.same.secondLockId
  have haddress := map_eq_of_standsFor hstands (·.lowerAddressFirst)
    fun _ _ h => h.same.lowerAddressFirst
  refine ⟨kept, hkept, hfirsts, hseconds, ⟨?_, ?_⟩, ?_⟩
  · exact pairwise_parallel_mono hstands (fun order ho => hroot.addAll order (hkept order ho))
      (fun order ho => hroot order (hchoice order ho).1) hdead.parallel
  · rw [← Bool.not_eq_true, hasCommonGateLock_iff]
    rintro ⟨hne, lock, hgate⟩
    have hungated := hdead.ungated
    rw [← Bool.not_eq_true, hasCommonGateLock_iff] at hungated
    apply hungated
    have hlocks : cycleLocks kept = cycleLocks choice := by
      rw [cycleLocks, cycleLocks, hfirsts, hseconds]
    refine ⟨?_, lock, ?_⟩
    · rintro rfl
      cases hstands
      exact hne rfl
    · intro order ho
      obtain ⟨other, hm, hs⟩ := exists_standsFor_of_mem hstands ho
      have hother := hgate other hm
      rw [gateCandidates, Finset.mem_filter] at hother ⊢
      refine ⟨?_, hlocks ▸ hother.2⟩
      have hnamed := hs.gates (heldLocks_addAll (hkept other hm) ▸ hother.1)
      exact (Finset.mem_filter.mp hnamed).1
  · have hall : ∀ orders : List LockOrderFact,
        isAddressOrdered orders = (orders.map (·.lowerAddressFirst)).all id := by
      intro orders
      simp [isAddressOrdered, List.all_map]
    rw [hall, hall, haddress]

end Cycles

-- The merge hides no order exactly when each order on two locks is covered by the first arrival
-- under some key. It then loses no deadlock.
theorem merge_hides_none_iff (orders : List LockOrderFact) :
    (HidesNone orders (addAll orders) ↔ ∀ order ∈ orders,
      order.firstLockId ≠ order.secondLockId → CoveredByFirst orders order) ∧
    (HidesNone orders (keepAll orders) ↔ ∀ order ∈ orders,
      order.firstLockId ≠ order.secondLockId → CoveredByFirst orders order) ∧
    ((∀ order ∈ orders, order.firstLockId ≠ order.secondLockId → CoveredByFirst orders order) →
      ∀ (facts : TUFacts) (rootTaskFunctions : Finset String) (choice : List LockOrderFact),
        RootTaskByFunction rootTaskFunctions orders →
        (∀ order ∈ choice, order ∈ orders ∧ order.firstLockId ≠ order.secondLockId) →
        LockOrder.MayDeadlock facts choice →
        ∃ kept, (∀ order ∈ kept, order ∈ addAll orders) ∧
          kept.map (·.firstLockId) = choice.map (·.firstLockId) ∧
          kept.map (·.secondLockId) = choice.map (·.secondLockId) ∧
          LockOrder.MayDeadlock facts kept ∧
          LockOrder.isAddressOrdered kept = LockOrder.isAddressOrdered choice) := by
  refine ⟨hidesNone_addAll_iff, hidesNone_keepAll_iff, ?_⟩
  intro hcovered facts rootTaskFunctions choice hroot hchoice hdead
  exact deadlock_kept (hidesNone_addAll_iff.mpr hcovered) hroot hchoice hdead

-- A helper that takes `b` twice after the locks of its caller, first under the gate `g`.
def helperOrders : List LockOrderFact := [
  { functionId := "helper", firstLockId := kLocksHeldByCaller, secondLockId := "b",
    location := { file := "locks.c", line := 3, column := 5 },
    heldLocks := {kLocksHeldByCaller, "g"} },
  { functionId := "helper", firstLockId := kLocksHeldByCaller, secondLockId := "b",
    location := { file := "locks.c", line := 7, column := 5 }, heldLocks := {kLocksHeldByCaller} }]

def helperCall : LockOrderCall where
  callerFunctionId := "worker"
  userLocation := { file := "locks.c", line := 20, column := 5 }
  heldAtCall := {"a"}

-- What the call adds to the orders, and the opposite order of another thread, under the gate.
def twinOrders : List LockOrderFact :=
  (helperOrders.flatMap (instantiateAtCall · helperCall)).filter (!isOpenLockOrder ·) ++ [
    { functionId := "other", firstLockId := "b", secondLockId := "a",
      location := { file := "locks.c", line := 30, column := 5 }, heldLocks := {"b", "g"} }]

def twinFacts (orders : List LockOrderFact) : TUFacts where
  lockOrders := orders
  reachableThreadEntriesByFunction := fun functionId =>
    if functionId = "worker" then some {"worker"}
    else if functionId = "other" then some {"other"} else none

theorem gated_twin_hides_deadlock :
    ¬HidesNone twinOrders (addAll twinOrders) ∧
      (LockOrder.run (twinFacts twinOrders)).diagnostics.length = 1 ∧
      (LockOrder.run (twinFacts (addAll twinOrders))).diagnostics = [] := by
  exact ⟨by decide +kernel, by decide +kernel, by decide +kernel⟩

end ConcurrencyAnalyzer.FactsBuilder
