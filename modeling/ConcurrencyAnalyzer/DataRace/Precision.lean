import ConcurrencyAnalyzer.DataRace.Theorems

namespace ConcurrencyAnalyzer.DataRace

open Library

-- Two accesses of a symbol that conflict.
def PairConflict (facts : TUFacts) (symbol : String) (lhs rhs : AccessFact) : Prop :=
  TwoAccesses facts symbol lhs rhs ∧ Conflicts facts lhs rhs

-- An access of a symbol two of whose runs conflict.
def AloneConflict (facts : TUFacts) (symbol : String) (access : AccessFact) : Prop :=
  OneAccess facts symbol access ∧ RacesAlone facts access

-- Some pair of the symbol conflicts with neither a guess nor a call's effect in it.
def HasPrecisePair (facts : TUFacts) (symbol : String) : Prop :=
  ∃ lhs rhs, PairConflict facts symbol lhs rhs ∧ isPrecisePair lhs rhs = true

@[simp] theorem isPrecise_addSite (conflict : LocationConflict) (site : AccessFact) :
    (addSite conflict site).isPrecise = conflict.isPrecise := by
  unfold addSite
  split
  · rfl
  · split <;> rfl

theorem isPrecisePair_comm (lhs rhs : AccessFact) :
    isPrecisePair lhs rhs = isPrecisePair rhs lhs := by
  unfold isPrecisePair
  ac_rfl

theorem PairConflict.symm {facts : TUFacts} {symbol : String} {lhs rhs : AccessFact}
    (h : PairConflict facts symbol lhs rhs) : PairConflict facts symbol rhs lhs := by
  obtain ⟨⟨i, j, hne, hi, hj, hl, hr⟩, hc⟩ := h
  exact ⟨⟨j, i, hne.symm, hj, hi, hr, hl⟩, hc.symm⟩

-- The comparison of two candidates begins with whether they are precise.
theorem isPrecise_of_not_ranking_lt {conflict candidate : LocationConflict}
    (hnot : ¬conflict.ranking < candidate.ranking) (hprecise : candidate.isPrecise = true) :
    conflict.isPrecise = true := by
  cases hconflict : conflict.isPrecise with
  | true => rfl
  | false =>
      apply absurd _ hnot
      simp [LocationConflict.ranking, hconflict, hprecise, List.cons_lt_cons_iff]

theorem isPrecise_of_ranking_lt {conflict candidate : LocationConflict}
    (hlt : conflict.ranking < candidate.ranking) (hprecise : conflict.isPrecise = true) :
    candidate.isPrecise = true := by
  cases hcandidate : candidate.isPrecise with
  | true => rfl
  | false => simp [LocationConflict.ranking, hcandidate, hprecise, List.cons_lt_cons_iff] at hlt

-- A location's flag is that of the pair it shows.
theorem isPrecise_recordPair (lhs rhs : AccessFact) {present : Option LocationConflict}
    (hpresent : ∀ conflict, present = some conflict →
      conflict.isPrecise = isPrecisePair conflict.lhs conflict.rhs) :
    (recordPair lhs rhs present).isPrecise =
      isPrecisePair (recordPair lhs rhs present).lhs (recordPair lhs rhs present).rhs := by
  unfold recordPair
  simp only [isPrecise_addSite, lhs_addSite, rhs_addSite]
  cases present with
  | none => rfl
  | some conflict =>
      dsimp only
      split
      · rfl
      · exact hpresent conflict rfl

-- A precise pair is never given up for an approximate one, and takes the place of any.
theorem recordPair_precise (lhs rhs : AccessFact) {present : Option LocationConflict}
    (hprecise : isPrecisePair lhs rhs = true ∨
      ∃ conflict, present = some conflict ∧ conflict.isPrecise = true) :
    (recordPair lhs rhs present).isPrecise = true := by
  unfold recordPair
  simp only [isPrecise_addSite]
  cases present with
  | none =>
      rcases hprecise with hprecise | ⟨_, hnone, _⟩
      · exact hprecise
      · cases hnone
  | some conflict =>
      dsimp only
      split
      · rename_i hlt
        rcases hprecise with hprecise | ⟨_, heq, hprecise⟩
        · exact hprecise
        · cases heq
          exact isPrecise_of_ranking_lt hlt hprecise
      · rename_i hnot
        rcases hprecise with hprecise | ⟨_, heq, hprecise⟩
        · exact isPrecise_of_not_ranking_lt hnot hprecise
        · cases heq
          exact hprecise

-- What the rounds over pairs leave of the precision of the conflicts they took.
structure Weighed (facts : TUFacts) (pairs : List (AccessFact × AccessFact))
    (scan : PairScan) : Prop where
  flagged : ∀ entry ∈ scan.conflictsByLocation.entries,
    entry.2.isPrecise = isPrecisePair entry.2.lhs entry.2.rhs
  seen : ∀ pair ∈ pairs, Conflicts facts pair.1 pair.2 → isPrecisePair pair.1 pair.2 = true →
    pair.1.symbol ∈ scan.preciseConflictSymbols
  shown : ∀ pair ∈ pairs, Conflicts facts pair.1 pair.2 → isPrecisePair pair.1 pair.2 = true →
    ∃ conflict, (locationKeyOf facts pair.1 pair.2, conflict) ∈ scan.conflictsByLocation.entries ∧
      conflict.isPrecise = true

section Pairs

variable {facts : TUFacts} {scan : PairScan} {pairs : List (AccessFact × AccessFact)}
  {lhs rhs : AccessFact}

theorem Weighed.skip (h : Weighed facts pairs scan)
    (hno : Conflicts facts lhs rhs → isPrecisePair lhs rhs = false) :
    Weighed facts (pairs ++ [(lhs, rhs)]) scan where
  flagged := h.flagged
  seen := by
    intro pair hm hc hp
    rcases List.mem_append.mp hm with hm | hm
    · exact h.seen pair hm hc hp
    · rw [List.mem_singleton] at hm
      subst hm
      simp [hno hc] at hp
  shown := by
    intro pair hm hc hp
    rcases List.mem_append.mp hm with hm | hm
    · exact h.shown pair hm hc hp
    · rw [List.mem_singleton] at hm
      subst hm
      simp [hno hc] at hp

theorem Weighed.record (h : Weighed facts pairs scan) (observed : Finset String)
    (hsub : scan.preciseConflictSymbols ⊆ observed)
    (hself : isPrecisePair lhs rhs = true → lhs.symbol ∈ observed) :
    Weighed facts (pairs ++ [(lhs, rhs)])
      (record facts { scan with preciseConflictSymbols := observed } lhs rhs) where
  flagged := by
    intro entry he
    rcases (OrderedMap.mem_alter _ _ _ _).mp he with ⟨_, hm⟩ | rfl
    · exact h.flagged entry hm
    · apply isPrecise_recordPair
      intro conflict hfind
      exact h.flagged _ ((OrderedMap.find_eq_some_iff _ _ _).mp hfind)
  seen := by
    intro pair hm hc hp
    rcases List.mem_append.mp hm with hm | hm
    · exact hsub (h.seen pair hm hc hp)
    · rw [List.mem_singleton] at hm
      subst hm
      exact hself hp
  shown := by
    intro pair hm hc hp
    have hnew : (isPrecisePair lhs rhs = true ∨ ∃ conflict,
        scan.conflictsByLocation.find (locationKeyOf facts lhs rhs) = some conflict ∧
          conflict.isPrecise = true) →
        ∃ conflict, (locationKeyOf facts lhs rhs, conflict) ∈
          (scan.conflictsByLocation.alter (locationKeyOf facts lhs rhs)
            (recordPair lhs rhs)).entries ∧ conflict.isPrecise = true := fun hprecise =>
      ⟨_, (OrderedMap.mem_alter _ _ _ _).mpr (Or.inr rfl), recordPair_precise lhs rhs hprecise⟩
    rcases List.mem_append.mp hm with hm | hm
    · obtain ⟨conflict, hentry, hprecise⟩ := h.shown pair hm hc hp
      by_cases hkey : locationKeyOf facts pair.1 pair.2 = locationKeyOf facts lhs rhs
      · rw [hkey] at hentry ⊢
        exact hnew (Or.inr ⟨conflict, (OrderedMap.find_eq_some_iff _ _ _).mpr hentry, hprecise⟩)
      · exact ⟨conflict, (OrderedMap.mem_alter _ _ _ _).mpr (Or.inl ⟨hkey, hentry⟩), hprecise⟩
    · rw [List.mem_singleton] at hm
      subst hm
      exact hnew (Or.inl hp)

theorem Weighed.comparePair (h : Weighed facts pairs scan) (pair : AccessFact × AccessFact) :
    Weighed facts (pairs ++ [pair]) (comparePair facts scan pair) := by
  obtain ⟨lhs, rhs⟩ := pair
  rcases comparePair_cases facts scan lhs rhs with
    ⟨hno, heq⟩ | ⟨_, _, heq⟩ | ⟨_, hguess, _, heq⟩ | ⟨_, hguess, heq⟩
  · rw [heq]
    exact h.skip fun hc => absurd hc hno
  · rw [heq]
    exact h.record _ (Finset.subset_insert _ _) fun _ => Finset.mem_insert_self _ _
  · rw [heq]
    exact h.skip fun _ => hguess
  · rw [heq]
    exact h.record scan.preciseConflictSymbols (Finset.Subset.refl _) fun hp => by simp [hguess] at hp

theorem weighed_pairs (facts : TUFacts) (pairs : List (AccessFact × AccessFact)) :
    Weighed facts pairs (pairs.foldl (DataRace.comparePair facts) {}) := by
  induction pairs using List.reverseRecOn with
  | nil => exact ⟨by simp [OrderedMap.empty], by simp, by simp⟩
  | append_singleton pairs pair ih =>
      rw [List.foldl_append]
      exact ih.comparePair pair

-- A location that has been reported stays so.
theorem keys_comparePair {key : String} (hkey : key ∈ scan.conflictsByLocation.keys)
    (pair : AccessFact × AccessFact) :
    key ∈ (DataRace.comparePair facts scan pair).conflictsByLocation.keys := by
  obtain ⟨lhs, rhs⟩ := pair
  have hrecord : ∀ observed, key ∈ (DataRace.record facts
      { scan with preciseConflictSymbols := observed } lhs rhs).conflictsByLocation.keys :=
    fun _ => (OrderedMap.mem_keys_alter _ _ _ _).mpr (Or.inr hkey)
  rcases comparePair_cases facts scan lhs rhs with
    ⟨_, heq⟩ | ⟨_, _, heq⟩ | ⟨_, _, _, heq⟩ | ⟨_, _, heq⟩
  · rwa [heq]
  · rw [heq]
    exact hrecord _
  · rwa [heq]
  · rw [heq]
    exact hrecord scan.preciseConflictSymbols

theorem keys_foldl_comparePair {key : String} (hkey : key ∈ scan.conflictsByLocation.keys)
    (pairs : List (AccessFact × AccessFact)) :
    key ∈ (pairs.foldl (DataRace.comparePair facts) scan).conflictsByLocation.keys := by
  induction pairs generalizing scan with
  | nil => exact hkey
  | cons pair pairs ih => exact ih (keys_comparePair hkey pair)

-- The first pair compared is recorded whatever its precision.
theorem first_pair_recorded (hc : Conflicts facts lhs rhs)
    (pairs : List (AccessFact × AccessFact)) :
    locationKeyOf facts lhs rhs ∈
      (((lhs, rhs) :: pairs).foldl (DataRace.comparePair facts) {}).conflictsByLocation.keys := by
  rw [List.foldl_cons]
  apply keys_foldl_comparePair
  have hself : ∀ scan, locationKeyOf facts lhs rhs ∈
      (DataRace.record facts scan lhs rhs).conflictsByLocation.keys :=
    fun _ => (OrderedMap.mem_keys_alter _ _ _ _).mpr (Or.inl rfl)
  rcases comparePair_cases facts {} lhs rhs with
    ⟨hno, _⟩ | ⟨_, _, heq⟩ | ⟨_, _, hseen, _⟩ | ⟨_, _, heq⟩
  · exact absurd hc hno
  · rw [heq]
    exact hself _
  · exact absurd hseen (Finset.notMem_empty _)
  · rw [heq]
    exact hself _

end Pairs

-- What the rounds over single accesses add to what the pairs left.
structure Extended (facts : TUFacts) (scan : PairScan) (alone : List AccessFact)
    (after : PairScan) : Prop where
  observed : after.preciseConflictSymbols = scan.preciseConflictSymbols
  kept : ∀ entry ∈ scan.conflictsByLocation.entries, entry ∈ after.conflictsByLocation.entries
  added : ∀ entry ∈ after.conflictsByLocation.entries,
    entry ∈ scan.conflictsByLocation.entries ∨ ∃ access ∈ alone, RacesAlone facts access ∧
      entry = (locationKeyOf facts access access, LocationConflict.ofPair access access) ∧
      (isPrecisePair access access = true ∨ access.symbol ∉ scan.preciseConflictSymbols)

section Alone

variable {facts : TUFacts} {scan after : PairScan} {alone : List AccessFact} {access : AccessFact}

theorem Extended.skip (h : Extended facts scan alone after) :
    Extended facts scan (alone ++ [access]) after where
  observed := h.observed
  kept := h.kept
  added := by
    intro entry he
    rcases h.added entry he with hm | ⟨other, ho, hother⟩
    · exact Or.inl hm
    · exact Or.inr ⟨other, List.mem_append_left _ ho, hother⟩

theorem Extended.compareWithItself (h : Extended facts scan alone after) (access : AccessFact) :
    Extended facts scan (alone ++ [access]) (compareWithItself facts after access) := by
  rcases compareWithItself_cases facts after access with
    ⟨_, heq⟩ | ⟨_, _, _, heq⟩ | ⟨_, _, heq⟩ | ⟨ha, hgood, hkey, heq⟩
  · rw [heq]
    exact h.skip
  · rw [heq]
    exact h.skip
  · rw [heq]
    exact h.skip
  · rw [heq]
    rw [h.observed] at hgood
    refine ⟨h.observed, ?_, ?_⟩
    · intro entry he
      refine (OrderedMap.mem_alter _ _ _ _).mpr (Or.inl ⟨?_, h.kept entry he⟩)
      rintro hsame
      exact hkey (hsame ▸ List.mem_map_of_mem (h.kept entry he))
    · intro entry he
      rcases (OrderedMap.mem_alter _ _ _ _).mp he with ⟨_, hm⟩ | rfl
      · have hskip : Extended facts scan (alone ++ [access]) after := h.skip
        exact hskip.added entry hm
      · exact Or.inr ⟨access, List.mem_append_right _ (List.mem_singleton_self _), ha, rfl, hgood⟩

theorem Extended.foldl (h : Extended facts scan alone after) (accesses : List AccessFact) :
    Extended facts scan (alone ++ accesses)
      (accesses.foldl (DataRace.compareWithItself facts) after) := by
  induction accesses generalizing alone after with
  | nil => simpa using h
  | cons access accesses ih =>
      have hnext := ih (h.compareWithItself access)
      rwa [List.append_assoc, List.singleton_append] at hnext

theorem extended_alone (facts : TUFacts) (scan : PairScan) (accesses : List AccessFact) :
    Extended facts scan accesses (accesses.foldl (DataRace.compareWithItself facts) scan) := by
  have hstart : Extended facts scan [] scan := ⟨rfl, fun _ he => he, fun _ he => Or.inl he⟩
  exact hstart.foldl accesses

-- A run of a single access whose precision does not rule it out has its location reported.
theorem first_alone_recorded (ha : RacesAlone facts access)
    (hgood : isPrecisePair access access = true ∨ access.symbol ∉ scan.preciseConflictSymbols) :
    locationKeyOf facts access access ∈
      (DataRace.compareWithItself facts scan access).conflictsByLocation.keys := by
  rcases compareWithItself_cases facts scan access with
    ⟨hno, _⟩ | ⟨_, hguess, hseen, _⟩ | ⟨_, hkey, heq⟩ | ⟨_, _, _, heq⟩
  · exact absurd ha hno
  · rcases hgood with hgood | hgood
    · simp [hguess] at hgood
    · exact absurd hseen hgood
  · rwa [heq]
  · rw [heq]
    exact (OrderedMap.mem_keys_alter _ _ _ _).mpr (Or.inl rfl)

end Alone

section Symbol

variable {facts : TUFacts} {symbol : String}

-- The scan the pairs of a symbol leave.
def pairScan (facts : TUFacts) (symbol : String) : PairScan :=
  (orderedPairs (accessesOf facts symbol)).foldl (comparePair facts) {}

theorem weighed_pairScan (facts : TUFacts) (symbol : String) :
    Weighed facts (orderedPairs (accessesOf facts symbol)) (pairScan facts symbol) :=
  weighed_pairs facts _

-- The symbols the pairs of a symbol mark are this one, where a precise pair conflicts.
theorem seen_iff : symbol ∈ (pairScan facts symbol).preciseConflictSymbols ↔
    HasPrecisePair facts symbol := by
  constructor
  · intro hs
    obtain ⟨pair, hm, _, hc, hp, _⟩ := (scanned_pairs facts _).observed symbol hs
    exact ⟨pair.1, pair.2, ⟨twoAccesses_of_mem hm, hc⟩, hp⟩
  · rintro ⟨lhs, rhs, ⟨htwo, hc⟩, hp⟩
    rcases htwo.mem with hm | hm
    · have hseen := (weighed_pairScan facts symbol).seen _ hm hc hp
      rwa [show lhs.symbol = symbol from (mem_orderedPairs_accessesOf.mp hm).2.1.2] at hseen
    · have hseen := (weighed_pairScan facts symbol).seen _ hm hc.symm
        (isPrecisePair_comm lhs rhs ▸ hp)
      rwa [show rhs.symbol = symbol from (mem_orderedPairs_accessesOf.mp hm).2.1.2] at hseen

-- An entry of the pairs shows a pair, a precise one where its location has one.
theorem pairScan_entry {entry : String × LocationConflict}
    (he : entry ∈ (pairScan facts symbol).conflictsByLocation.entries) :
    PairConflict facts symbol entry.2.lhs entry.2.rhs ∧
      entry.1 = locationKeyOf facts entry.2.lhs entry.2.rhs ∧
      ∀ lhs rhs, PairConflict facts symbol lhs rhs → isPrecisePair lhs rhs = true →
        locationKeyOf facts lhs rhs = entry.1 →
        isPrecisePair entry.2.lhs entry.2.rhs = true := by
  have hscan := scanned_pairs facts (orderedPairs (accessesOf facts symbol))
  have hweighed := weighed_pairScan facts symbol
  have hpair : PairConflict facts symbol entry.2.lhs entry.2.rhs := by
    rcases hscan.genuine entry he with ⟨hm, hc⟩ | ⟨_, hm, _⟩
    · exact ⟨twoAccesses_of_mem hm, hc⟩
    · cases hm
  refine ⟨hpair, hscan.key entry he, ?_⟩
  have hordered : ∀ lhs rhs, (lhs, rhs) ∈ orderedPairs (accessesOf facts symbol) →
      Conflicts facts lhs rhs → isPrecisePair lhs rhs = true →
      locationKeyOf facts lhs rhs = entry.1 →
      isPrecisePair entry.2.lhs entry.2.rhs = true := by
    intro lhs rhs hm hc hp hkey
    obtain ⟨conflict, hentry, hprecise⟩ := hweighed.shown _ hm hc hp
    rw [hkey] at hentry
    have hsame : conflict = entry.2 := by
      have hfirst := (OrderedMap.find_eq_some_iff _ _ _).mpr hentry
      have hsecond := (OrderedMap.find_eq_some_iff _ _ _).mpr he
      exact Option.some.inj (hfirst.symm.trans hsecond)
    rw [← hweighed.flagged entry he, ← hsame]
    exact hprecise
  rintro lhs rhs ⟨htwo, hc⟩ hp hkey
  rcases htwo.mem with hm | hm
  · exact hordered lhs rhs hm hc hp hkey
  · have hsymbols : rhs.symbol = lhs.symbol := by
      obtain ⟨_, _, _, _, _, hl, hr⟩ := htwo
      exact hr.2.trans hl.2.symm
    exact hordered rhs lhs hm hc.symm (isPrecisePair_comm lhs rhs ▸ hp)
      ((locationKeyOf_comm hsymbols).trans hkey)

-- What a symbol's map shows: a pair, approximate only where its location has no precise pair, or
-- a single access, approximate only where no precise pair of the symbol conflicts.
theorem shown_conflict {entry : String × LocationConflict}
    (he : entry ∈ (conflictsByLocation facts symbol).entries) :
    (PairConflict facts symbol entry.2.lhs entry.2.rhs ∧
      entry.1 = locationKeyOf facts entry.2.lhs entry.2.rhs ∧
      ∀ lhs rhs, PairConflict facts symbol lhs rhs → isPrecisePair lhs rhs = true →
        locationKeyOf facts lhs rhs = entry.1 → isPrecisePair entry.2.lhs entry.2.rhs = true) ∨
    (∃ access, AloneConflict facts symbol access ∧ entry.2.lhs = access ∧ entry.2.rhs = access ∧
      entry.1 = locationKeyOf facts access access ∧
      (HasPrecisePair facts symbol → isPrecisePair access access = true)) := by
  have hextended := extended_alone facts (pairScan facts symbol) (accessesOf facts symbol)
  rcases hextended.added entry he with hm | ⟨access, hm, ha, rfl, hgood⟩
  · exact Or.inl (pairScan_entry hm)
  · have hone := mem_accessesOf.mp hm
    refine Or.inr ⟨access, ⟨hone, ha⟩, rfl, rfl, rfl, ?_⟩
    intro hpair
    rcases hgood with hgood | hgood
    · exact hgood
    · rw [hone.2.2] at hgood
      exact absurd (seen_iff.mpr hpair) hgood

end Symbol

end ConcurrencyAnalyzer.DataRace
