import ConcurrencyAnalyzer.DataRace.Conflicts

namespace ConcurrencyAnalyzer.DataRace

open Library

@[simp] theorem lhs_addSite (conflict : LocationConflict) (site : AccessFact) :
    (addSite conflict site).lhs = conflict.lhs := by
  unfold addSite
  split
  · rfl
  · split <;> rfl

@[simp] theorem rhs_addSite (conflict : LocationConflict) (site : AccessFact) :
    (addSite conflict site).rhs = conflict.rhs := by
  unfold addSite
  split
  · rfl
  · split <;> rfl

-- A location shows the new pair or the one it showed before.
theorem recordPair_shows (lhs rhs : AccessFact) (present : Option LocationConflict) :
    ((recordPair lhs rhs present).lhs = lhs ∧ (recordPair lhs rhs present).rhs = rhs) ∨
      ∃ conflict, present = some conflict ∧ (recordPair lhs rhs present).lhs = conflict.lhs ∧
        (recordPair lhs rhs present).rhs = conflict.rhs := by
  unfold recordPair
  simp only [lhs_addSite, rhs_addSite]
  cases present with
  | none => exact Or.inl ⟨rfl, rfl⟩
  | some conflict =>
      dsimp only
      split
      · exact Or.inl ⟨rfl, rfl⟩
      · exact Or.inr ⟨conflict, rfl, rfl, rfl⟩

section Steps

variable {facts : TUFacts} {scan : PairScan} {lhs rhs access : AccessFact}

-- What a round does with two accesses: nothing unless they conflict, and nothing with a guess once
-- an observed conflict on the symbol is at hand.
theorem comparePair_cases (facts : TUFacts) (scan : PairScan) (lhs rhs : AccessFact) :
    (¬Conflicts facts lhs rhs ∧ comparePair facts scan (lhs, rhs) = scan) ∨
    (Conflicts facts lhs rhs ∧ isPrecisePair lhs rhs = true ∧
      comparePair facts scan (lhs, rhs) = record facts { scan with
        preciseConflictSymbols := insert lhs.symbol scan.preciseConflictSymbols } lhs rhs) ∨
    (Conflicts facts lhs rhs ∧ isPrecisePair lhs rhs = false ∧
      lhs.symbol ∈ scan.preciseConflictSymbols ∧ comparePair facts scan (lhs, rhs) = scan) ∨
    (Conflicts facts lhs rhs ∧ isPrecisePair lhs rhs = false ∧
      comparePair facts scan (lhs, rhs) = record facts scan lhs rhs) := by
  unfold comparePair
  dsimp only
  split
  · rename_i h
    simp only [Bool.and_eq_true, Bool.not_eq_true'] at h
    exact Or.inl ⟨fun hc => by rcases hc.write with hw | hw <;> simp [h] at hw, rfl⟩
  rename_i hwrite
  split
  · rename_i h
    exact Or.inl ⟨fun hc => by simp [hc.overlap] at h, rfl⟩
  rename_i hoverlap
  split
  · rename_i h
    exact Or.inl ⟨fun hc => by simp [hc.unowned] at h, rfl⟩
  rename_i hunowned
  split
  · rename_i h
    exact Or.inl ⟨fun hc => by simp [hc.notBothAtomic] at h, rfl⟩
  rename_i hatomic
  split
  · rename_i h
    simp only [Bool.and_eq_true, Bool.not_eq_true'] at h
    exact Or.inl ⟨fun hc => by simp [hc.mixedPrecise h.1] at h, rfl⟩
  rename_i hmixed
  split
  · rename_i h
    exact Or.inl ⟨fun hc => by simp [hc.parallel] at h, rfl⟩
  rename_i hparallel
  split
  · rename_i h
    exact Or.inl ⟨fun hc => by simp [hc.shared] at h, rfl⟩
  rename_i hshared
  split
  · rename_i h
    exact Or.inl ⟨fun hc => by simp [hc.unlocked, hc.unpublished] at h, rfl⟩
  rename_i hordered
  have hconflicts : Conflicts facts lhs rhs := by
    simp only [Bool.and_eq_true, Bool.not_eq_true', not_and, Bool.not_eq_false, Bool.or_eq_true,
      not_or, Bool.not_eq_true] at *
    refine ⟨?_, hoverlap, hunowned, hatomic, hmixed, hparallel, hshared, hordered.1, hordered.2⟩
    cases hl : isWrite lhs with
    | true => exact Or.inl rfl
    | false => exact Or.inr (hwrite hl)
  split
  · rename_i hprecise
    exact Or.inr (Or.inl ⟨hconflicts, hprecise, rfl⟩)
  · rename_i hprecise
    rw [Bool.not_eq_true] at hprecise
    split
    · rename_i hseen
      exact Or.inr (Or.inr (Or.inl ⟨hconflicts, hprecise, hseen, rfl⟩))
    · exact Or.inr (Or.inr (Or.inr ⟨hconflicts, hprecise, rfl⟩))

theorem comparePair_of_not (hc : ¬Conflicts facts lhs rhs) :
    comparePair facts scan (lhs, rhs) = scan := by
  rcases comparePair_cases facts scan lhs rhs with ⟨_, heq⟩ | ⟨hyes, _⟩ | ⟨hyes, _⟩ | ⟨hyes, _⟩
  · exact heq
  all_goals exact absurd hyes hc

theorem comparePair_of_conflicts (hc : Conflicts facts lhs rhs) :
    comparePair facts scan (lhs, rhs) =
      if isPrecisePair lhs rhs = true then
        record facts { scan with
          preciseConflictSymbols := insert lhs.symbol scan.preciseConflictSymbols } lhs rhs
      else if lhs.symbol ∈ scan.preciseConflictSymbols then scan
      else record facts scan lhs rhs := by
  have hwrite : (!isWrite lhs && !isWrite rhs) = false := by
    rcases hc.write with hw | hw <;> simp [hw]
  have hmixed : (isMixedAtomicPair lhs rhs && !hasPreciseRegions lhs rhs) = false := by
    cases hm : isMixedAtomicPair lhs rhs with
    | true => simp [hc.mixedPrecise hm]
    | false => rfl
  unfold comparePair
  simp only [hwrite, hc.overlap, hc.unowned, hc.notBothAtomic, hmixed, hc.parallel, hc.shared,
    hc.unlocked, hc.unpublished, Bool.not_true, Bool.or_self, Bool.false_eq_true, if_false]

theorem compareWithItself_cases (facts : TUFacts) (scan : PairScan) (access : AccessFact) :
    (¬RacesAlone facts access ∧ compareWithItself facts scan access = scan) ∨
    (RacesAlone facts access ∧ isPrecisePair access access = false ∧
      access.symbol ∈ scan.preciseConflictSymbols ∧ compareWithItself facts scan access = scan) ∨
    (RacesAlone facts access ∧ locationKeyOf facts access access ∈ scan.conflictsByLocation.keys ∧
      compareWithItself facts scan access = scan) ∨
    (RacesAlone facts access ∧
      (isPrecisePair access access = true ∨ access.symbol ∉ scan.preciseConflictSymbols) ∧
      locationKeyOf facts access access ∉ scan.conflictsByLocation.keys ∧
      compareWithItself facts scan access = { scan with
        conflictsByLocation := scan.conflictsByLocation.alter (locationKeyOf facts access access)
          fun _ => LocationConflict.ofPair access access }) := by
  unfold compareWithItself
  split
  · rename_i h
    exact Or.inl ⟨fun hr => by simp [hr.write, hr.plain] at h, rfl⟩
  rename_i hplain
  split
  · rename_i h
    exact Or.inl ⟨fun hr => by simp [hr.races] at h, rfl⟩
  rename_i hraces
  split
  · rename_i h
    refine Or.inl ⟨fun hr => ?_, rfl⟩
    rw [shareRecognizedLock_self.mpr hr.unlocked] at h
    cases h
  rename_i hlock
  rw [Bool.not_eq_true] at hlock
  have halone : RacesAlone facts access := by
    simp only [Bool.or_eq_true, Bool.not_eq_true', not_or, Bool.not_eq_false,
      Bool.not_eq_true] at hplain hraces
    exact ⟨hplain.1, hplain.2, hraces, shareRecognizedLock_self.mp hlock⟩
  split
  · rename_i h
    simp only [Bool.and_eq_true, Bool.not_eq_true', decide_eq_true_eq] at h
    exact Or.inr (Or.inl ⟨halone, h.1, h.2, rfl⟩)
  · rename_i hguess
    split
    · rename_i hkey
      exact Or.inr (Or.inr (Or.inl ⟨halone, hkey, rfl⟩))
    · rename_i hkey
      refine Or.inr (Or.inr (Or.inr ⟨halone, ?_, hkey, rfl⟩))
      cases hprecise : isPrecisePair access access with
      | true => exact Or.inl rfl
      | false => exact Or.inr fun hseen => hguess (by simp [hprecise, hseen])

end Steps

-- What the rounds so far leave, over the pairs and the single accesses they took.
structure Scanned (facts : TUFacts) (pairs : List (AccessFact × AccessFact))
    (alone : List AccessFact) (scan : PairScan) : Prop where
  key : ∀ entry ∈ scan.conflictsByLocation.entries,
    entry.1 = locationKeyOf facts entry.2.lhs entry.2.rhs
  genuine : ∀ entry ∈ scan.conflictsByLocation.entries,
    ((entry.2.lhs, entry.2.rhs) ∈ pairs ∧ Conflicts facts entry.2.lhs entry.2.rhs) ∨
      (entry.2.lhs = entry.2.rhs ∧ entry.2.lhs ∈ alone ∧ RacesAlone facts entry.2.lhs)
  observed : ∀ symbol ∈ scan.preciseConflictSymbols, ∃ pair ∈ pairs, pair.1.symbol = symbol ∧
    Conflicts facts pair.1 pair.2 ∧ isPrecisePair pair.1 pair.2 = true ∧
    locationKeyOf facts pair.1 pair.2 ∈ scan.conflictsByLocation.keys
  pair_covered : ∀ pair ∈ pairs, Conflicts facts pair.1 pair.2 →
    locationKeyOf facts pair.1 pair.2 ∈ scan.conflictsByLocation.keys ∨
      (isPrecisePair pair.1 pair.2 = false ∧ pair.1.symbol ∈ scan.preciseConflictSymbols)
  alone_covered : ∀ access ∈ alone, RacesAlone facts access →
    locationKeyOf facts access access ∈ scan.conflictsByLocation.keys ∨
      (isPrecisePair access access = false ∧ access.symbol ∈ scan.preciseConflictSymbols)

section Invariant

variable {facts : TUFacts} {scan : PairScan} {pairs : List (AccessFact × AccessFact)}
  {alone : List AccessFact} {lhs rhs access : AccessFact}

theorem Scanned.initial (facts : TUFacts) : Scanned facts [] [] {} where
  key := by simp [OrderedMap.empty]
  genuine := by simp [OrderedMap.empty]
  observed := by simp
  pair_covered := by simp
  alone_covered := by simp

-- A round that leaves the scan as it is keeps what it says of the others.
theorem Scanned.skip_pair (h : Scanned facts pairs [] scan)
    (hcovered : Conflicts facts lhs rhs →
      isPrecisePair lhs rhs = false ∧ lhs.symbol ∈ scan.preciseConflictSymbols) :
    Scanned facts (pairs ++ [(lhs, rhs)]) [] scan where
  key := h.key
  genuine := by
    intro entry he
    rcases h.genuine entry he with ⟨hm, hc⟩ | halone
    · exact Or.inl ⟨List.mem_append_left _ hm, hc⟩
    · exact Or.inr halone
  observed := by
    intro symbol hs
    obtain ⟨pair, hm, hpair⟩ := h.observed symbol hs
    exact ⟨pair, List.mem_append_left _ hm, hpair⟩
  pair_covered := by
    intro pair hm hc
    rcases List.mem_append.mp hm with hm | hm
    · exact h.pair_covered pair hm hc
    · rw [List.mem_singleton] at hm
      subst hm
      exact Or.inr (hcovered hc)
  alone_covered := h.alone_covered

theorem Scanned.record_pair (h : Scanned facts pairs [] scan) (hc : Conflicts facts lhs rhs)
    (observed : Finset String)
    (hobserved : observed = scan.preciseConflictSymbols ∨
      (isPrecisePair lhs rhs = true ∧ observed = insert lhs.symbol scan.preciseConflictSymbols)) :
    Scanned facts (pairs ++ [(lhs, rhs)]) []
      (record facts { scan with preciseConflictSymbols := observed } lhs rhs) := by
  have hkeys : ∀ key, key ∈ scan.conflictsByLocation.keys →
      key ∈ (scan.conflictsByLocation.alter (locationKeyOf facts lhs rhs)
        (recordPair lhs rhs)).keys := fun key hk =>
    (OrderedMap.mem_keys_alter _ _ _ _).mpr (Or.inr hk)
  have hself : locationKeyOf facts lhs rhs ∈
      (scan.conflictsByLocation.alter (locationKeyOf facts lhs rhs) (recordPair lhs rhs)).keys :=
    (OrderedMap.mem_keys_alter _ _ _ _).mpr (Or.inl rfl)
  have hsub : ∀ symbol ∈ scan.preciseConflictSymbols, symbol ∈ observed := by
    intro symbol hs
    rcases hobserved with rfl | ⟨_, rfl⟩
    · exact hs
    · exact Finset.mem_insert_of_mem hs
  refine ⟨?_, ?_, ?_, ?_, by simp⟩
  · intro entry he
    rcases (OrderedMap.mem_alter _ _ _ _).mp he with ⟨_, hm⟩ | rfl
    · exact h.key entry hm
    · rcases recordPair_shows lhs rhs
        (scan.conflictsByLocation.find (locationKeyOf facts lhs rhs)) with
        ⟨hl, hr⟩ | ⟨conflict, hfind, hl, hr⟩
      · dsimp only
        rw [hl, hr]
      · dsimp only
        rw [hl, hr]
        exact h.key _ ((OrderedMap.find_eq_some_iff _ _ _).mp hfind)
  · intro entry he
    left
    rcases (OrderedMap.mem_alter _ _ _ _).mp he with ⟨_, hm⟩ | rfl
    · rcases h.genuine entry hm with ⟨hm, hc⟩ | ⟨_, hm, _⟩
      · exact ⟨List.mem_append_left _ hm, hc⟩
      · cases hm
    · rcases recordPair_shows lhs rhs
        (scan.conflictsByLocation.find (locationKeyOf facts lhs rhs)) with
        ⟨hl, hr⟩ | ⟨conflict, hfind, hl, hr⟩
      · dsimp only
        rw [hl, hr]
        exact ⟨List.mem_append_right _ (List.mem_singleton_self _), hc⟩
      · dsimp only
        rw [hl, hr]
        rcases h.genuine _ ((OrderedMap.find_eq_some_iff _ _ _).mp hfind) with
          ⟨hm, hc⟩ | ⟨_, hm, _⟩
        · exact ⟨List.mem_append_left _ hm, hc⟩
        · cases hm
  · intro symbol hs
    have hbefore : symbol ∈ scan.preciseConflictSymbols ∨
        (isPrecisePair lhs rhs = true ∧ symbol = lhs.symbol) := by
      rcases hobserved with rfl | ⟨hprecise, rfl⟩
      · exact Or.inl hs
      · rcases Finset.mem_insert.mp hs with hs | hs
        · exact Or.inr ⟨hprecise, hs⟩
        · exact Or.inl hs
    rcases hbefore with hbefore | ⟨hprecise, rfl⟩
    · obtain ⟨pair, hm, hsymbol, hcp, hp, hk⟩ := h.observed symbol hbefore
      exact ⟨pair, List.mem_append_left _ hm, hsymbol, hcp, hp, hkeys _ hk⟩
    · exact ⟨(lhs, rhs), List.mem_append_right _ (List.mem_singleton_self _), rfl, hc, hprecise,
        hself⟩
  · intro pair hm hcp
    rcases List.mem_append.mp hm with hm | hm
    · rcases h.pair_covered pair hm hcp with hk | ⟨hp, hs⟩
      · exact Or.inl (hkeys _ hk)
      · exact Or.inr ⟨hp, hsub _ hs⟩
    · rw [List.mem_singleton] at hm
      subst hm
      exact Or.inl hself

theorem Scanned.comparePair (h : Scanned facts pairs [] scan) (pair : AccessFact × AccessFact) :
    Scanned facts (pairs ++ [pair]) [] (comparePair facts scan pair) := by
  obtain ⟨lhs, rhs⟩ := pair
  rcases comparePair_cases facts scan lhs rhs with
    ⟨hno, heq⟩ | ⟨hc, hprecise, heq⟩ | ⟨_, hprecise, hseen, heq⟩ | ⟨hc, _, heq⟩
  · rw [heq]
    exact h.skip_pair fun hc => absurd hc hno
  · rw [heq]
    exact h.record_pair hc _ (Or.inr ⟨hprecise, rfl⟩)
  · rw [heq]
    exact h.skip_pair fun _ => ⟨hprecise, hseen⟩
  · rw [heq]
    exact h.record_pair hc scan.preciseConflictSymbols (Or.inl rfl)

theorem scanned_pairs (facts : TUFacts) (pairs : List (AccessFact × AccessFact)) :
    Scanned facts pairs [] (pairs.foldl (DataRace.comparePair facts) {}) := by
  induction pairs using List.reverseRecOn with
  | nil => exact Scanned.initial facts
  | append_singleton pairs pair ih =>
      rw [List.foldl_append]
      exact ih.comparePair pair

theorem Scanned.skip_alone (h : Scanned facts pairs alone scan)
    (hcovered : RacesAlone facts access →
      locationKeyOf facts access access ∈ scan.conflictsByLocation.keys ∨
        (isPrecisePair access access = false ∧ access.symbol ∈ scan.preciseConflictSymbols)) :
    Scanned facts pairs (alone ++ [access]) scan where
  key := h.key
  genuine := by
    intro entry he
    rcases h.genuine entry he with hpair | ⟨heq, hm, ha⟩
    · exact Or.inl hpair
    · exact Or.inr ⟨heq, List.mem_append_left _ hm, ha⟩
  observed := h.observed
  pair_covered := h.pair_covered
  alone_covered := by
    intro other hm ha
    rcases List.mem_append.mp hm with hm | hm
    · exact h.alone_covered other hm ha
    · rw [List.mem_singleton] at hm
      subst hm
      exact hcovered ha

theorem Scanned.record_alone (h : Scanned facts pairs alone scan) (ha : RacesAlone facts access) :
    Scanned facts pairs (alone ++ [access]) { scan with
      conflictsByLocation := scan.conflictsByLocation.alter (locationKeyOf facts access access)
        fun _ => LocationConflict.ofPair access access } := by
  have hkeys : ∀ key, key ∈ scan.conflictsByLocation.keys →
      key ∈ (scan.conflictsByLocation.alter (locationKeyOf facts access access)
        fun _ => LocationConflict.ofPair access access).keys := fun key hk =>
    (OrderedMap.mem_keys_alter _ _ _ _).mpr (Or.inr hk)
  refine ⟨?_, ?_, ?_, ?_, ?_⟩
  · intro entry he
    rcases (OrderedMap.mem_alter _ _ _ _).mp he with ⟨_, hm⟩ | rfl
    · exact h.key entry hm
    · rfl
  · intro entry he
    rcases (OrderedMap.mem_alter _ _ _ _).mp he with ⟨_, hm⟩ | rfl
    · rcases h.genuine entry hm with hpair | ⟨heq, hm, ha⟩
      · exact Or.inl hpair
      · exact Or.inr ⟨heq, List.mem_append_left _ hm, ha⟩
    · exact Or.inr ⟨rfl, List.mem_append_right _ (List.mem_singleton_self _), ha⟩
  · intro symbol hs
    obtain ⟨pair, hm, hsymbol, hc, hp, hk⟩ := h.observed symbol hs
    exact ⟨pair, hm, hsymbol, hc, hp, hkeys _ hk⟩
  · intro pair hm hc
    rcases h.pair_covered pair hm hc with hk | hs
    · exact Or.inl (hkeys _ hk)
    · exact Or.inr hs
  · intro other hm ha'
    rcases List.mem_append.mp hm with hm | hm
    · rcases h.alone_covered other hm ha' with hk | hs
      · exact Or.inl (hkeys _ hk)
      · exact Or.inr hs
    · rw [List.mem_singleton] at hm
      subst hm
      exact Or.inl ((OrderedMap.mem_keys_alter _ _ _ _).mpr (Or.inl rfl))

theorem Scanned.compareWithItself (h : Scanned facts pairs alone scan) (access : AccessFact) :
    Scanned facts pairs (alone ++ [access]) (compareWithItself facts scan access) := by
  rcases compareWithItself_cases facts scan access with
    ⟨hno, heq⟩ | ⟨_, hprecise, hseen, heq⟩ | ⟨_, hkey, heq⟩ | ⟨ha, _, _, heq⟩
  · rw [heq]
    exact h.skip_alone fun ha => absurd ha hno
  · rw [heq]
    exact h.skip_alone fun _ => Or.inr ⟨hprecise, hseen⟩
  · rw [heq]
    exact h.skip_alone fun _ => Or.inl hkey
  · rw [heq]
    exact h.record_alone ha

theorem Scanned.foldl_alone (h : Scanned facts pairs alone scan) (accesses : List AccessFact) :
    Scanned facts pairs (alone ++ accesses)
      (accesses.foldl (DataRace.compareWithItself facts) scan) := by
  induction accesses generalizing alone scan with
  | nil => simpa using h
  | cons access accesses ih =>
      have hnext := ih (h.compareWithItself access)
      rwa [List.append_assoc, List.singleton_append] at hnext

-- The loops over a symbol leave a map in which each location shows a conflict of its own.
theorem scanned_symbol (facts : TUFacts) (symbol : String) :
    ∃ scan, scan.conflictsByLocation = conflictsByLocation facts symbol ∧
      Scanned facts (orderedPairs (accessesOf facts symbol)) (accessesOf facts symbol) scan :=
  ⟨_, rfl, (scanned_pairs facts _).foldl_alone (accessesOf facts symbol)⟩

end Invariant

end ConcurrencyAnalyzer.DataRace
