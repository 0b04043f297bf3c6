import ConcurrencyAnalyzer.DataRace.Checker

namespace ConcurrencyAnalyzer.DataRace

-- Two accesses that nothing orders, at least one of them a write.
structure Conflicts (facts : TUFacts) (lhs rhs : AccessFact) : Prop where
  write : isWrite lhs = true ∨ isWrite rhs = true
  overlap : lhs.region.mayOverlap rhs.region = true
  unowned : lhs.region.orderedWithElementOwner rhs.region = false
  notBothAtomic : isRaceFreeAtomicPair lhs rhs = false
  mixedPrecise : isMixedAtomicPair lhs rhs = true → hasPreciseRegions lhs rhs = true
  parallel : mayHappenInParallel lhs (entriesOf lhs facts) rhs (entriesOf rhs facts) facts = true
  shared : inOwnObjectsOfInstances lhs rhs = false
  unlocked : shareRecognizedLock lhs rhs = false
  unpublished : orderedByPublication lhs rhs = false

-- A plain write two of whose runs may overlap, under no lock.
structure RacesAlone (facts : TUFacts) (access : AccessFact) : Prop where
  write : isWrite access = true
  plain : access.isAtomic = false
  races : racesWithItself access (entriesOf access facts) facts = true
  unlocked : access.heldLocks = ∅

-- A plain write under no lock that two threads of one entry may make to one place.
structure SelfConcurrentWrite (facts : TUFacts) (access : AccessFact) : Prop where
  write : isWrite access = true
  plain : access.isAtomic = false
  selfConcurrent : isSelfConcurrent (entriesOf access facts) facts = true
  unowned : access.instanceOwner = ""
  overlap : access.region.mayOverlap access.region = true
  unlocked : access.heldLocks = ∅

section Predicates

variable {facts : TUFacts} {lhs rhs access : AccessFact}

theorem shareRecognizedLock_iff :
    shareRecognizedLock lhs rhs = true ↔ ∃ lock ∈ lhs.heldLocks, lock ∈ rhs.heldLocks := by
  unfold shareRecognizedLock
  split
  · rename_i h
    simp only [Bool.or_eq_true, decide_eq_true_eq] at h
    simp only [Bool.false_eq_true, false_iff]
    rintro ⟨lock, hl, hr⟩
    rcases h with h | h
    · rw [h] at hl
      exact Finset.notMem_empty _ hl
    · rw [h] at hr
      exact Finset.notMem_empty _ hr
  · exact decide_eq_true_iff

theorem shareRecognizedLock_self : shareRecognizedLock access access = false ↔
    access.heldLocks = ∅ := by
  rw [← Bool.not_eq_true, shareRecognizedLock_iff, Finset.eq_empty_iff_forall_notMem]
  simp

theorem shareRecognizedLock_comm : shareRecognizedLock lhs rhs = shareRecognizedLock rhs lhs := by
  rw [Bool.eq_iff_iff, shareRecognizedLock_iff, shareRecognizedLock_iff]
  constructor
  · rintro ⟨lock, hl, hr⟩
    exact ⟨lock, hr, hl⟩
  · rintro ⟨lock, hr, hl⟩
    exact ⟨lock, hl, hr⟩

theorem inOwnObjectsOfInstances_self : inOwnObjectsOfInstances access access = false ↔
    access.instanceOwner = "" := by
  simp [inOwnObjectsOfInstances]

theorem inOwnObjectsOfInstances_comm :
    inOwnObjectsOfInstances lhs rhs = inOwnObjectsOfInstances rhs lhs := by
  rw [Bool.eq_iff_iff]
  simp only [inOwnObjectsOfInstances, ne_eq, decide_not, Bool.and_eq_true, Bool.not_eq_true',
    decide_eq_false_iff_not, decide_eq_true_eq]
  constructor
  · rintro ⟨hne, heq⟩
    exact ⟨heq ▸ hne, heq.symm⟩
  · rintro ⟨hne, heq⟩
    exact ⟨heq ▸ hne, heq.symm⟩

theorem hasPreciseRegions_comm : hasPreciseRegions lhs rhs = hasPreciseRegions rhs lhs := by
  unfold hasPreciseRegions
  rw [Bool.or_comm]
  congr 1
  ac_rfl

-- Which of the two accesses comes first does not matter.
theorem Conflicts.symm (h : Conflicts facts lhs rhs) : Conflicts facts rhs lhs where
  write := h.write.symm
  overlap := by rw [MemoryRegion.mayOverlap_comm]; exact h.overlap
  unowned := by rw [MemoryRegion.orderedWithElementOwner_comm]; exact h.unowned
  notBothAtomic := by
    have hboth := h.notBothAtomic
    rwa [isRaceFreeAtomicPair, Bool.and_comm] at hboth
  mixedPrecise := by
    intro hmixed
    rw [hasPreciseRegions_comm]
    apply h.mixedPrecise
    rwa [isMixedAtomicPair, bne_comm]
  parallel := by rw [mayHappenInParallel_comm]; exact h.parallel
  shared := by rw [inOwnObjectsOfInstances_comm]; exact h.shared
  unlocked := by rw [shareRecognizedLock_comm]; exact h.unlocked
  unpublished := by
    have hordered := h.unpublished
    rwa [orderedByPublication, Bool.or_comm] at hordered

theorem isSelfConcurrentWrite_iff :
    isSelfConcurrentWrite facts access = true ↔ SelfConcurrentWrite facts access := by
  simp only [isSelfConcurrentWrite, Bool.and_eq_true, Bool.not_eq_true', and_assoc,
    inOwnObjectsOfInstances_self, shareRecognizedLock_self]
  constructor
  · rintro ⟨h1, h2, h3, h4, h5, h6⟩
    exact ⟨h1, h2, h3, h4, h5, h6⟩
  · rintro ⟨h1, h2, h3, h4, h5, h6⟩
    exact ⟨h1, h2, h3, h4, h5, h6⟩

end Predicates

section Pairs

variable {α : Type*}

theorem mem_orderedPairs {elements : List α} {first second : α} :
    (first, second) ∈ orderedPairs elements ↔
      ∃ i j : Nat, i < j ∧ elements[i]? = some first ∧ elements[j]? = some second := by
  induction elements with
  | nil => simp [orderedPairs]
  | cons head rest ih =>
      rw [orderedPairs, List.mem_append, ih, List.mem_map]
      constructor
      · rintro (⟨other, ho, heq⟩ | ⟨i, j, hlt, hi, hj⟩)
        · cases heq
          obtain ⟨j, hj⟩ := List.mem_iff_getElem?.mp ho
          exact ⟨0, j + 1, Nat.succ_pos j, rfl, hj⟩
        · exact ⟨i + 1, j + 1, Nat.succ_lt_succ hlt, hi, hj⟩
      · rintro ⟨i, j, hlt, hi, hj⟩
        cases j with
        | zero => omega
        | succ j =>
            cases i with
            | zero =>
                cases hi
                exact Or.inl ⟨second, List.mem_iff_getElem?.mpr ⟨j, hj⟩, rfl⟩
            | succ i => exact Or.inr ⟨i, j, Nat.lt_of_succ_lt_succ hlt, hi, hj⟩

theorem mem_orderedPairs_filter {elements : List α} {p : α → Bool} {first second : α} :
    (first, second) ∈ orderedPairs (elements.filter p) ↔
      (first, second) ∈ orderedPairs elements ∧ p first = true ∧ p second = true := by
  induction elements with
  | nil => simp [orderedPairs]
  | cons head rest ih =>
      by_cases hp : p head = true
      · simp only [List.filter_cons_of_pos hp, orderedPairs, List.mem_append, List.mem_map,
          List.mem_filter, ih, Prod.mk.injEq]
        constructor
        · rintro (⟨other, ⟨ho, hpo⟩, rfl, rfl⟩ | ⟨hm, h1, h2⟩)
          · exact ⟨Or.inl ⟨_, ho, rfl, rfl⟩, hp, hpo⟩
          · exact ⟨Or.inr hm, h1, h2⟩
        · rintro ⟨⟨other, ho, rfl, rfl⟩ | hm, h1, h2⟩
          · exact Or.inl ⟨_, ⟨ho, h2⟩, rfl, rfl⟩
          · exact Or.inr ⟨hm, h1, h2⟩
      · rw [List.filter_cons_of_neg hp, ih, orderedPairs, List.mem_append, List.mem_map]
        constructor
        · rintro ⟨hm, h1, h2⟩
          exact ⟨Or.inr hm, h1, h2⟩
        · rintro ⟨⟨other, ho, heq⟩ | hm, h1, h2⟩
          · cases heq
            exact absurd h1 hp
          · exact ⟨hm, h1, h2⟩

end Pairs

-- Two different places of the collected accesses, both of which participate, on one symbol.
def TwoAccesses (facts : TUFacts) (symbol : String) (lhs rhs : AccessFact) : Prop :=
  ∃ i j : Nat, i ≠ j ∧ facts.accesses[i]? = some lhs ∧ facts.accesses[j]? = some rhs ∧
    (participates lhs facts = true ∧ lhs.symbol = symbol) ∧
    (participates rhs facts = true ∧ rhs.symbol = symbol)

-- A participating access of a symbol.
def OneAccess (facts : TUFacts) (symbol : String) (access : AccessFact) : Prop :=
  access ∈ facts.accesses ∧ participates access facts = true ∧ access.symbol = symbol

section Accesses

variable {facts : TUFacts} {symbol : String} {lhs rhs access : AccessFact}

theorem mem_accessesOf : access ∈ accessesOf facts symbol ↔ OneAccess facts symbol access := by
  simp only [accessesOf, participating, List.mem_filter, decide_eq_true_eq, OneAccess, and_assoc]

theorem mem_orderedPairs_accessesOf :
    (lhs, rhs) ∈ orderedPairs (accessesOf facts symbol) ↔
      (lhs, rhs) ∈ orderedPairs facts.accesses ∧
        (participates lhs facts = true ∧ lhs.symbol = symbol) ∧
        (participates rhs facts = true ∧ rhs.symbol = symbol) := by
  simp only [accessesOf, participating, mem_orderedPairs_filter, decide_eq_true_eq]
  constructor
  · rintro ⟨⟨hm, h1, h2⟩, h3, h4⟩
    exact ⟨hm, ⟨h1, h3⟩, h2, h4⟩
  · rintro ⟨hm, ⟨h1, h3⟩, h2, h4⟩
    exact ⟨⟨hm, h1, h2⟩, h3, h4⟩

theorem twoAccesses_of_mem (h : (lhs, rhs) ∈ orderedPairs (accessesOf facts symbol)) :
    TwoAccesses facts symbol lhs rhs := by
  obtain ⟨hm, hl, hr⟩ := mem_orderedPairs_accessesOf.mp h
  obtain ⟨i, j, hlt, hi, hj⟩ := mem_orderedPairs.mp hm
  exact ⟨i, j, hlt.ne, hi, hj, hl, hr⟩

-- The loops take every two accesses of a symbol, in one of the two orders.
theorem TwoAccesses.mem (h : TwoAccesses facts symbol lhs rhs) :
    (lhs, rhs) ∈ orderedPairs (accessesOf facts symbol) ∨
      (rhs, lhs) ∈ orderedPairs (accessesOf facts symbol) := by
  obtain ⟨i, j, hne, hi, hj, hl, hr⟩ := h
  rw [mem_orderedPairs_accessesOf, mem_orderedPairs_accessesOf]
  rcases Nat.lt_or_gt_of_ne hne with hlt | hlt
  · exact Or.inl ⟨mem_orderedPairs.mpr ⟨i, j, hlt, hi, hj⟩, hl, hr⟩
  · exact Or.inr ⟨mem_orderedPairs.mpr ⟨j, i, hlt, hj, hi⟩, hr, hl⟩

end Accesses

end ConcurrencyAnalyzer.DataRace
