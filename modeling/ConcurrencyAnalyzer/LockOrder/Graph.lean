import ConcurrencyAnalyzer.LockOrder.Analyzer

namespace ConcurrencyAnalyzer.LockOrder

-- The locks numbered between two states lead only to locks numbered in the later one.
structure Extends (edges : List LockOrderFact) (before after : List String) : Prop where
  subset : before ⊆ after
  nodup : before.Nodup → after.Nodup
  closed : ∀ lockId ∈ after, lockId ∉ before →
    ∀ edge ∈ edgesFrom edges lockId, edge.secondLockId ∈ after

section Numbering

variable {edges : List LockOrderFact}

theorem Extends.refl (numbers : List String) : Extends edges numbers numbers :=
  ⟨List.Subset.refl _, id, fun _ h hn => absurd h hn⟩

theorem Extends.trans {first second third : List String} (h : Extends edges first second)
    (h' : Extends edges second third) : Extends edges first third := by
  refine ⟨List.Subset.trans h.subset h'.subset, h'.nodup ∘ h.nodup, ?_⟩
  intro lockId hm hn edge he
  by_cases hs : lockId ∈ second
  · exact h'.subset (h.closed lockId hs hn edge he)
  · exact h'.closed lockId hm hs edge he

-- Names still to be numbered, which each level of the numbering has fewer of.
def unnumbered (edges : List LockOrderFact) (numbers : List String) : Nat :=
  (lockNames edges \ numbers.toFinset).card

theorem unnumbered_anti (edges : List LockOrderFact) {before after : List String} (h : before ⊆ after) :
    unnumbered edges after ≤ unnumbered edges before := by
  apply Finset.card_le_card
  apply Finset.sdiff_subset_sdiff (Finset.Subset.refl _)
  intro lockId hl
  exact List.mem_toFinset.mpr (h (List.mem_toFinset.mp hl))

theorem unnumbered_append_lt {numbers : List String} {lockId : String}
    (hname : lockId ∈ lockNames edges) (hnew : lockId ∉ numbers) :
    unnumbered edges (numbers ++ [lockId]) < unnumbered edges numbers := by
  apply Finset.card_lt_card
  refine ⟨?_, fun hsub => ?_⟩
  · apply Finset.sdiff_subset_sdiff (Finset.Subset.refl _)
    intro other ho
    simp only [List.toFinset_append, Finset.mem_union]
    exact Or.inl ho
  · have hm := hsub (Finset.mem_sdiff.mpr ⟨hname, by simpa using hnew⟩)
    simp at hm

theorem second_mem_lockNames {edge : LockOrderFact} (he : edge ∈ edges) :
    edge.secondLockId ∈ lockNames edges := by
  simp only [lockNames, List.toFinset_append, Finset.mem_union, List.mem_toFinset, List.mem_map]
  exact Or.inr ⟨edge, he, rfl⟩

theorem first_mem_lockNames {edge : LockOrderFact} (he : edge ∈ edges) :
    edge.firstLockId ∈ lockNames edges := by
  simp only [lockNames, List.toFinset_append, Finset.mem_union, List.mem_toFinset, List.mem_map]
  exact Or.inl ⟨edge, he, rfl⟩

-- Numbering one lock after the other numbers them all, when numbering one does.
theorem foldl_extends (edges : List LockOrderFact) {β : Type*}
    (visit : List String → β → List String) (name : β → String)
    (items : List β) (numbers : List String)
    (hvisit : ∀ item ∈ items, ∀ current, numbers ⊆ current →
      Extends edges current (visit current item) ∧ name item ∈ visit current item) :
    Extends edges numbers (items.foldl visit numbers) ∧
      ∀ item ∈ items, name item ∈ items.foldl visit numbers := by
  induction items generalizing numbers with
  | nil => exact ⟨Extends.refl numbers, fun _ h => by cases h⟩
  | cons item items ih =>
      obtain ⟨hext, hname⟩ := hvisit item (List.mem_cons_self ..) numbers (List.Subset.refl _)
      obtain ⟨hrest, hnames⟩ := ih (visit numbers item) fun other ho current hc =>
        hvisit other (List.mem_cons_of_mem _ ho) current (List.Subset.trans hext.subset hc)
      refine ⟨hext.trans hrest, ?_⟩
      intro other ho
      rcases List.mem_cons.mp ho with rfl | ho
      · exact hrest.subset hname
      · exact hnames other ho

theorem number_extends (fuel : Nat) (lockId : String) (numbers : List String)
    (hname : lockId ∈ lockNames edges) (hfuel : unnumbered edges numbers < fuel) :
    Extends edges numbers (number edges fuel lockId numbers) ∧
      lockId ∈ number edges fuel lockId numbers := by
  induction fuel generalizing lockId numbers with
  | zero => omega
  | succ fuel ih =>
      unfold number
      split
      · rename_i hm
        exact ⟨Extends.refl numbers, hm⟩
      · rename_i hn
        have hlt := unnumbered_append_lt hname hn
        obtain ⟨hext, hseconds⟩ := foldl_extends edges
          (fun numbered edge => number edges fuel edge.secondLockId numbered)
          (fun edge => edge.secondLockId) (edgesFrom edges lockId) (numbers ++ [lockId])
          (by
            intro edge he current hc
            apply ih _ _ (second_mem_lockNames (List.mem_filter.mp he).1)
            have hfewer := unnumbered_anti edges hc
            omega)
        have hself := hext.subset (List.mem_append_right numbers (List.mem_singleton_self lockId))
        refine ⟨⟨List.Subset.trans (List.subset_append_left _ _) hext.subset, fun hnodup => ?_, ?_⟩, hself⟩
        · apply hext.nodup
          rw [List.nodup_append]
          refine ⟨hnodup, List.nodup_singleton _, ?_⟩
          intro other ho lock hl
          rw [List.mem_singleton] at hl
          rintro rfl
          exact hn (hl ▸ ho)
        · intro other hm hnot edge he
          by_cases hlock : other = lockId
          · subst hlock
            exact hseconds edge he
          · exact hext.closed other hm (by simp [hnot, hlock]) edge he

theorem lockNumbers_extends (edges : List LockOrderFact) :
    Extends edges [] (lockNumbers edges) ∧
      ∀ lockId ∈ orderedSet (edges.map (·.firstLockId)), lockId ∈ lockNumbers edges := by
  apply foldl_extends edges _ id
  intro lockId hl current _
  have hname : lockId ∈ lockNames edges := by
    rw [orderedSet, List.mem_insertionSort, List.mem_dedup, List.mem_map] at hl
    obtain ⟨edge, he, rfl⟩ := hl
    exact first_mem_lockNames he
  apply number_extends _ _ _ hname
  have hle : unnumbered edges current ≤ (lockNames edges).card :=
    Finset.card_le_card Finset.sdiff_subset
  omega

theorem lockNumbers_nodup (edges : List LockOrderFact) : (lockNumbers edges).Nodup :=
  (lockNumbers_extends edges).1.nodup List.nodup_nil

theorem first_mem_lockNumbers {edge : LockOrderFact} (he : edge ∈ edges) :
    edge.firstLockId ∈ lockNumbers edges := by
  apply (lockNumbers_extends edges).2
  rw [orderedSet, List.mem_insertionSort, List.mem_dedup]
  exact List.mem_map_of_mem he

theorem second_mem_lockNumbers {edge : LockOrderFact} (he : edge ∈ edges) :
    edge.secondLockId ∈ lockNumbers edges :=
  (lockNumbers_extends edges).1.closed _ (first_mem_lockNumbers he) List.not_mem_nil edge
    (List.mem_filter.mpr ⟨he, by simp⟩)

end Numbering

-- The number of a lock in the graph of the orders.
def lockNumber (edges : List LockOrderFact) (lockId : String) : Nat :=
  (lockNumbers edges).idxOf lockId

-- Some order recorded in the graph goes from one lock to another.
def Leads (graph : LockGraph) (lock target : Nat) (order : LockOrderFact) : Prop :=
  ∃ successor ∈ (graph[lock]?).getD [], successor.lock = target ∧ order ∈ successor.orders

section Graph

variable {edges : List LockOrderFact}

theorem lockNumber_inj {first second : String} (hf : first ∈ lockNumbers edges) :
    lockNumber edges first = lockNumber edges second ↔ first = second :=
  List.idxOf_inj hf

theorem mem_addSuccessorOrder (target : Nat) (order : LockOrderFact)
    (successors : List LockSuccessor) (lock : Nat) (other : LockOrderFact) :
    (∃ successor ∈ addSuccessorOrder target order successors,
        successor.lock = lock ∧ other ∈ successor.orders) ↔
      (∃ successor ∈ successors, successor.lock = lock ∧ other ∈ successor.orders) ∨
        (lock = target ∧ other = order) := by
  induction successors with
  | nil =>
      simp only [addSuccessorOrder, List.mem_singleton, exists_eq_left, List.not_mem_nil, false_and,
        exists_false, false_or]
      constructor
      · rintro ⟨rfl, h⟩
        exact ⟨rfl, h⟩
      · rintro ⟨rfl, h⟩
        exact ⟨rfl, h⟩
  | cons successor successors ih =>
      unfold addSuccessorOrder
      split
      · rename_i ht
        simp only [List.mem_cons, exists_eq_or_imp, List.mem_append, List.not_mem_nil, or_false]
        constructor
        · rintro (⟨hl, hm | hm⟩ | h)
          · exact Or.inl (Or.inl ⟨hl, hm⟩)
          · exact Or.inr ⟨hl.symm.trans ht, hm⟩
          · exact Or.inl (Or.inr h)
        · rintro ((⟨hl, hm⟩ | h) | ⟨hl, hm⟩)
          · exact Or.inl ⟨hl, Or.inl hm⟩
          · exact Or.inr h
          · exact Or.inl ⟨ht.trans hl.symm, Or.inr hm⟩
      · simp only [List.mem_cons, exists_eq_or_imp, ih]
        rw [or_assoc]

theorem mem_successorsOf (numbers : List String) (lockId : String) (lock : Nat)
    (order : LockOrderFact) :
    (∃ successor ∈ successorsOf numbers edges lockId,
        successor.lock = lock ∧ order ∈ successor.orders) ↔
      order ∈ edgesFrom edges lockId ∧ numbers.idxOf order.secondLockId = lock := by
  have hfold : ∀ (orders : List LockOrderFact) (successors : List LockSuccessor),
      (∃ successor ∈ orders.foldl (fun successors order =>
          addSuccessorOrder (numbers.idxOf order.secondLockId) order successors) successors,
          successor.lock = lock ∧ order ∈ successor.orders) ↔
        (∃ successor ∈ successors, successor.lock = lock ∧ order ∈ successor.orders) ∨
          (order ∈ orders ∧ numbers.idxOf order.secondLockId = lock) := by
    intro orders
    induction orders with
    | nil => simp
    | cons head orders ih =>
        intro successors
        rw [List.foldl_cons, ih, mem_addSuccessorOrder]
        constructor
        · rintro ((h | ⟨rfl, rfl⟩) | ⟨hm, hl⟩)
          · exact Or.inl h
          · exact Or.inr ⟨List.mem_cons_self .., rfl⟩
          · exact Or.inr ⟨List.mem_cons_of_mem _ hm, hl⟩
        · rintro (h | ⟨hm, hl⟩)
          · exact Or.inl (Or.inl h)
          · rcases List.mem_cons.mp hm with rfl | hm
            · exact Or.inl (Or.inr ⟨hl.symm, rfl⟩)
            · exact Or.inr ⟨hm, hl⟩
  rw [successorsOf, hfold]
  simp

theorem length_buildLockGraph (edges : List LockOrderFact) :
    (buildLockGraph edges).length = (lockNumbers edges).length := by
  simp [buildLockGraph]

-- The graph holds each order between the numbers of its two locks, and nothing else.
theorem leads_buildLockGraph (lock target : Nat) (order : LockOrderFact) :
    Leads (buildLockGraph edges) lock target order ↔
      order ∈ edges ∧ lockNumber edges order.firstLockId = lock ∧
        lockNumber edges order.secondLockId = target := by
  unfold Leads buildLockGraph
  rw [List.getElem?_map]
  constructor
  · cases hl : (lockNumbers edges)[lock]? with
    | none => simp
    | some lockId =>
        intro h
        obtain ⟨hm, ht⟩ := (mem_successorsOf _ _ _ _).mp h
        obtain ⟨he, hf⟩ := List.mem_filter.mp hm
        refine ⟨he, ?_, ht⟩
        obtain ⟨hlt, hget⟩ := List.getElem?_eq_some_iff.mp hl
        rw [lockNumber, of_decide_eq_true hf, ← hget]
        exact (lockNumbers_nodup edges).idxOf_getElem lock hlt
  · rintro ⟨he, rfl, ht⟩
    have hmem := first_mem_lockNumbers he
    have hlt := List.idxOf_lt_length_iff.mpr hmem
    have hget : (lockNumbers edges)[lockNumber edges order.firstLockId]? =
        some order.firstLockId := by
      rw [List.getElem?_eq_some_iff]
      exact ⟨hlt, List.getElem_idxOf hlt⟩
    rw [hget]
    exact (mem_successorsOf _ _ _ _).mpr ⟨List.mem_filter.mpr ⟨he, by simp⟩, ht⟩

theorem lt_length_of_leads {graph : LockGraph} {lock target : Nat} {order : LockOrderFact}
    (h : Leads graph lock target order) : lock < graph.length := by
  obtain ⟨successor, hs, _⟩ := h
  by_contra hlt
  rw [List.getElem?_eq_none (Nat.le_of_not_lt hlt)] at hs
  cases hs

theorem mem_predecessors_of_leads {graph : LockGraph} {lock target : Nat} {order : LockOrderFact}
    (h : Leads graph lock target order) : lock ∈ predecessors graph target := by
  have hlt := lt_length_of_leads h
  obtain ⟨successor, hs, ht, _⟩ := h
  rw [predecessors, List.mem_flatMap]
  refine ⟨lock, List.mem_range.mpr hlt, ?_⟩
  rw [List.mem_filterMap]
  exact ⟨successor, hs, by simp [ht]⟩

theorem predecessors_lt (graph : LockGraph) (target : Nat) :
    ∀ lock ∈ predecessors graph target, lock ∈ Finset.range graph.length := by
  intro lock hl
  rw [predecessors, List.mem_flatMap] at hl
  obtain ⟨other, ho, hm⟩ := hl
  rw [List.mem_filterMap] at hm
  obtain ⟨_, _, hif⟩ := hm
  split at hif
  · cases hif
    exact Finset.mem_range.mpr (List.mem_range.mp ho)
  · cases hif

-- A lock an order leads back from, toward `start` by locks numbered after it, is marked.
theorem mem_leadsToStart_of_leads {graph : LockGraph} {start : Nat} {lock : Nat}
    (h : Relation.TransGen
      (fun target lock => (∃ order, Leads graph lock target order) ∧ lock > start) start lock) :
    lock ∈ leadsToStart graph start := by
  apply Library.Search.mem_search_of_reaches (Finset.range graph.length) (predecessors_lt graph)
    (by simp)
  refine Relation.TransGen.mono ?_ start lock h
  rintro target lock ⟨⟨order, ho⟩, hgt⟩
  exact ⟨mem_predecessors_of_leads ho, by simpa using hgt⟩

end Graph

end ConcurrencyAnalyzer.LockOrder
