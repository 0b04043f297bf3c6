import ConcurrencyAnalyzer.DataRace.OrderOfFacts
import ConcurrencyAnalyzer.FactsBuilder.Build

namespace ConcurrencyAnalyzer.DataRace

open FactsBuilder

-- The facts with the accesses left by the filter.
def preferProjected (facts : TUFacts) : TUFacts :=
  withAccesses facts (filterProjectedConcreteAccesses facts.accesses)

-- The filter leaves out an access that shows where it was lowered, beside one with its key that
-- shows another line.
def isDropped (facts : TUFacts) (access : AccessFact) : Bool :=
  decide (projectedAccessPreferenceKey access ∈
    (facts.accesses.filter FactsBuilder.hasDistinctUserLocation).map
      projectedAccessPreferenceKey) &&
    !FactsBuilder.hasDistinctUserLocation access

-- Some diagnostic of the run is on the symbol.
def Reported (facts : TUFacts) (symbol : String) : Prop :=
  ∃ diagnostic ∈ (run facts).diagnostics, onSymbol symbol diagnostic = true

-- The access conflicts with another one, with a run of itself or with another thread of an entry.
def Involved (facts : TUFacts) (symbol : String) (access : AccessFact) : Prop :=
  (∃ other, PairConflict facts symbol access other) ∨ AloneConflict facts symbol access ∨
    SharedEntryConflict facts symbol access

-- Some conflict of the symbol has no access the filter drops.
def KeptConflict (facts : TUFacts) (symbol : String) : Prop :=
  (∃ lhs rhs, PairConflict facts symbol lhs rhs ∧ isDropped facts lhs = false ∧
      isDropped facts rhs = false) ∨
    ∃ access, (AloneConflict facts symbol access ∨ SharedEntryConflict facts symbol access) ∧
      isDropped facts access = false

section Filter

variable {facts : TUFacts} {symbol : String} {lhs rhs access : AccessFact}

theorem accesses_preferProjected (facts : TUFacts) :
    (preferProjected facts).accesses = facts.accesses.filter fun access => !isDropped facts access :=
  rfl

theorem twoAccesses_preferProjected : TwoAccesses (preferProjected facts) symbol lhs rhs ↔
    TwoAccesses facts symbol lhs rhs ∧ isDropped facts lhs = false ∧
      isDropped facts rhs = false := by
  rw [twoAccesses_iff_subperm, twoAccesses_iff_subperm, pair_subperm_iff, pair_subperm_iff,
    accesses_preferProjected, mem_orderedPairs_filter, mem_orderedPairs_filter]
  simp only [Bool.not_eq_true']
  constructor
  · rintro ⟨⟨hm, hl, hr⟩ | ⟨hm, hr, hl⟩, hboth⟩
    · exact ⟨⟨Or.inl hm, hboth⟩, hl, hr⟩
    · exact ⟨⟨Or.inr hm, hboth⟩, hl, hr⟩
  · rintro ⟨⟨hm | hm, hboth⟩, hl, hr⟩
    · exact ⟨Or.inl ⟨hm, hl, hr⟩, hboth⟩
    · exact ⟨Or.inr ⟨hm, hr, hl⟩, hboth⟩

theorem oneAccess_preferProjected : OneAccess (preferProjected facts) symbol access ↔
    OneAccess facts symbol access ∧ isDropped facts access = false := by
  unfold OneAccess
  rw [accesses_preferProjected, List.mem_filter, Bool.not_eq_true']
  constructor
  · rintro ⟨⟨hm, hkept⟩, hboth⟩
    exact ⟨⟨hm, hboth⟩, hkept⟩
  · rintro ⟨⟨hm, hboth⟩, hkept⟩
    exact ⟨⟨hm, hkept⟩, hboth⟩

-- A report is a conflict of one of the three kinds.
theorem reported_iff : Reported facts symbol ↔
    (∃ lhs rhs, PairConflict facts symbol lhs rhs) ∨
      ∃ access, AloneConflict facts symbol access ∨ SharedEntryConflict facts symbol access := by
  unfold Reported
  rw [reports_iff facts symbol, hasConflict_iff, or_assoc, exists_or]
  exact Iff.rfl

theorem reported_preferProjected :
    Reported (preferProjected facts) symbol ↔ KeptConflict facts symbol := by
  rw [reported_iff]
  unfold KeptConflict PairConflict AloneConflict SharedEntryConflict
  simp only [twoAccesses_preferProjected, oneAccess_preferProjected]
  unfold preferProjected
  simp only [conflicts_withAccesses, racesAlone_withAccesses, selfConcurrentWrite_withAccesses]
  constructor
  · rintro (⟨lhs, rhs, ⟨htwo, hkept⟩, hc⟩ | ⟨access, ⟨⟨hone, hkept⟩, h⟩ | ⟨⟨hone, hkept⟩, h⟩⟩)
    · exact Or.inl ⟨lhs, rhs, ⟨htwo, hc⟩, hkept⟩
    · exact Or.inr ⟨access, Or.inl ⟨hone, h⟩, hkept⟩
    · exact Or.inr ⟨access, Or.inr ⟨hone, h⟩, hkept⟩
  · rintro (⟨lhs, rhs, ⟨htwo, hc⟩, hkept⟩ | ⟨access, ⟨hone, h⟩ | ⟨hone, h⟩, hkept⟩)
    · exact Or.inl ⟨lhs, rhs, ⟨htwo, hkept⟩, hc⟩
    · exact Or.inr ⟨access, Or.inl ⟨⟨hone, hkept⟩, h⟩⟩
    · exact Or.inr ⟨access, Or.inr ⟨⟨hone, hkept⟩, h⟩⟩

theorem Involved.reported (h : Involved facts symbol access) : Reported facts symbol := by
  rw [reported_iff]
  rcases h with ⟨other, hpair⟩ | halone | hshared
  · exact Or.inl ⟨access, other, hpair⟩
  · exact Or.inr ⟨access, Or.inl halone⟩
  · exact Or.inr ⟨access, Or.inr hshared⟩

-- A conflict involves a dropped access or is one of kept accesses.
theorem reported_cases (h : Reported facts symbol) : KeptConflict facts symbol ∨
    ∃ access, isDropped facts access = true ∧ Involved facts symbol access := by
  rcases reported_iff.mp h with ⟨lhs, rhs, hpair⟩ | ⟨access, hself⟩
  · cases hl : isDropped facts lhs with
    | true => exact Or.inr ⟨lhs, hl, Or.inl ⟨rhs, hpair⟩⟩
    | false =>
        cases hr : isDropped facts rhs with
        | true => exact Or.inr ⟨rhs, hr, Or.inl ⟨lhs, hpair.symm⟩⟩
        | false => exact Or.inl (Or.inl ⟨lhs, rhs, hpair, hl, hr⟩)
  · cases hd : isDropped facts access with
    | true => exact Or.inr ⟨access, hd, Or.inr hself⟩
    | false => exact Or.inl (Or.inr ⟨access, hself, hd⟩)

end Filter

-- What the checker reads of an access, less the place it shows.
structure ReadsAs (facts : TUFacts) (access twin : AccessFact) : Prop where
  symbol : twin.symbol = access.symbol
  region : twin.region = access.region
  kind : twin.kind = access.kind
  entries : facts.reachableThreadEntriesByFunction twin.functionId =
    facts.reachableThreadEntriesByFunction access.functionId
  isAtomic : twin.isAtomic = access.isAtomic
  coarseCallEffect : twin.coarseCallEffect = access.coarseCallEffect
  inRootTask : twin.inRootTask = access.inRootTask
  liveEntries : twin.liveEntries = access.liveEntries
  instanceOwner : twin.instanceOwner = access.instanceOwner
  heldLocks : twin.heldLocks = access.heldLocks
  beforeRelease : twin.beforeRelease = access.beforeRelease
  afterAcquire : twin.afterAcquire = access.afterAcquire

section Twins

variable {facts : TUFacts} {symbol : String} {lhs rhs twin access lhsTwin rhsTwin : AccessFact}

theorem ReadsAs.refl (facts : TUFacts) (access : AccessFact) : ReadsAs facts access access :=
  ⟨rfl, rfl, rfl, rfl, rfl, rfl, rfl, rfl, rfl, rfl, rfl, rfl⟩

theorem ReadsAs.entriesOf (h : ReadsAs facts access twin) :
    entriesOf twin facts = entriesOf access facts := by
  rw [DataRace.entriesOf, DataRace.entriesOf, h.entries]

theorem ReadsAs.participates (h : ReadsAs facts access twin) :
    participates twin facts = participates access facts := by
  rw [DataRace.participates, DataRace.participates, h.entries, h.inRootTask]

theorem ReadsAs.racesWithRootTask (h : ReadsAs facts access twin) (entries : ThreadEntrySet) :
    racesWithRootTask twin entries = racesWithRootTask access entries := by
  simp only [ConcurrencyAnalyzer.racesWithRootTask, TaskFact.inRootTask, TaskFact.liveEntries,
    h.inRootTask, h.liveEntries]

theorem ReadsAs.conflicts (hl : ReadsAs facts lhs lhsTwin) (hr : ReadsAs facts rhs rhsTwin)
    (h : Conflicts facts lhs rhs) : Conflicts facts lhsTwin rhsTwin where
  write := by simpa only [isWrite, hl.kind, hr.kind] using h.write
  overlap := by simpa only [hl.region, hr.region] using h.overlap
  unowned := by simpa only [hl.region, hr.region] using h.unowned
  notBothAtomic := by
    simpa only [isRaceFreeAtomicPair, hl.isAtomic, hr.isAtomic] using h.notBothAtomic
  mixedPrecise := by
    simpa only [isMixedAtomicPair, hasPreciseRegions, hl.isAtomic, hr.isAtomic, hl.region,
      hr.region, hl.coarseCallEffect, hr.coarseCallEffect] using h.mixedPrecise
  parallel := by
    have hparallel := h.parallel
    unfold mayHappenInParallel at hparallel ⊢
    rwa [hl.racesWithRootTask, hr.racesWithRootTask, hl.entriesOf, hr.entriesOf]
  shared := by
    simpa only [inOwnObjectsOfInstances, hl.instanceOwner, hr.instanceOwner] using h.shared
  unlocked := by simpa only [shareRecognizedLock, hl.heldLocks, hr.heldLocks] using h.unlocked
  unpublished := by
    simpa only [orderedByPublication, hl.beforeRelease, hr.beforeRelease, hl.afterAcquire,
      hr.afterAcquire] using h.unpublished

-- Two threads that may run at once are two entries or one that is spawned more than once.
theorem mayRunConcurrently_self {entries : ThreadEntrySet}
    (h : mayRunConcurrently entries entries facts = true) :
    (∃ lhsEntry ∈ entries, ∃ rhsEntry ∈ entries,
      lhsEntry < rhsEntry ∧ mayRunConcurrently {lhsEntry} {rhsEntry} facts = true) ∨
      isSelfConcurrent entries facts = true := by
  simp only [mayRunConcurrently, decide_eq_true_eq] at h
  obtain ⟨first, hfirst, second, hsecond, hrun⟩ := h
  rcases lt_trichotomy first second with hlt | rfl | hlt
  · refine Or.inl ⟨first, hfirst, second, hsecond, hlt, ?_⟩
    simpa [mayRunConcurrently] using hrun
  · right
    simp only [ne_eq, not_true_eq_false, if_false] at hrun
    exact decide_eq_true ⟨first, hfirst, hrun⟩
  · refine Or.inl ⟨second, hsecond, first, hfirst, hlt, ?_⟩
    simpa [mayRunConcurrently, hlt.ne, hlt.ne', makeEntryPair_comm second first] using hrun

-- Two accesses that read as one conflict only where the runs of that one do.
theorem self_conflict (h : Conflicts facts access access) (hbound : access.boundBySpawn = false) :
    RacesAlone facts access ∨ SelfConcurrentWrite facts access := by
  have hwrite : isWrite access = true := h.write.elim id id
  have hplain : access.isAtomic = false := by
    simpa [isRaceFreeAtomicPair] using h.notBothAtomic
  have hlocks := shareRecognizedLock_self.mp h.unlocked
  by_cases hraces : racesWithItself access (DataRace.entriesOf access facts) facts = true
  · exact Or.inl ⟨hwrite, hplain, hraces, hlocks⟩
  · refine Or.inr ⟨hwrite, hplain, ?_, inOwnObjectsOfInstances_self.mp h.shared, h.overlap, hlocks⟩
    have hparallel := h.parallel
    unfold racesWithItself at hraces
    rw [if_neg (by simp [hbound])] at hraces
    unfold mayHappenInParallel at hparallel
    by_cases hroot : racesWithRootTask access (DataRace.entriesOf access facts) = true
    · rw [if_pos hroot] at hraces
      exact absurd rfl hraces
    · rw [if_neg hroot, decide_eq_true_eq] at hraces
      rw [if_neg (by simpa using hroot)] at hparallel
      split at hparallel
      · cases hparallel
      · exact (mayRunConcurrently_self hparallel).resolve_left hraces

theorem ReadsAs.racesAlone (h : ReadsAs facts access twin) (hbound : twin.boundBySpawn = false)
    (hraces : RacesAlone facts access) : RacesAlone facts twin where
  write := by simpa only [isWrite, h.kind] using hraces.write
  plain := h.isAtomic.trans hraces.plain
  races := by
    have hself := hraces.races
    unfold racesWithItself at hself ⊢
    rw [if_neg (by simp [hbound]), h.racesWithRootTask, h.entriesOf]
    split at hself
    · cases hself
    · exact hself
  unlocked := h.heldLocks.trans hraces.unlocked

theorem ReadsAs.selfConcurrentWrite (h : ReadsAs facts access twin)
    (hshared : SelfConcurrentWrite facts access) : SelfConcurrentWrite facts twin where
  write := by simpa only [isWrite, h.kind] using hshared.write
  plain := h.isAtomic.trans hshared.plain
  selfConcurrent := by rw [h.entriesOf]; exact hshared.selfConcurrent
  unowned := h.instanceOwner.trans hshared.unowned
  overlap := by rw [h.region]; exact hshared.overlap
  unlocked := h.heldLocks.trans hshared.unlocked

theorem TwoAccesses.left (h : TwoAccesses facts symbol lhs rhs) : OneAccess facts symbol lhs := by
  obtain ⟨i, j, _, hi, _, hl, _⟩ := h
  exact ⟨List.mem_iff_getElem?.mpr ⟨i, hi⟩, hl⟩

-- Two accesses that are not the same are in two places.
theorem OneAccess.two (hl : OneAccess facts symbol lhs) (hr : OneAccess facts symbol rhs)
    (hne : lhs ≠ rhs) : TwoAccesses facts symbol lhs rhs := by
  obtain ⟨i, hi⟩ := List.mem_iff_getElem?.mp hl.1
  obtain ⟨j, hj⟩ := List.mem_iff_getElem?.mp hr.1
  refine ⟨i, j, ?_, hi, hj, hl.2, hr.2⟩
  rintro rfl
  rw [hi] at hj
  exact hne (Option.some.inj hj)

end Twins

-- Each dropped access that conflicts has a kept one that reads as it, and that no spawn binds.
def TwinsKept (facts : TUFacts) : Prop :=
  ∀ symbol access, isDropped facts access = true → Involved facts symbol access →
    ∃ twin ∈ facts.accesses, isDropped facts twin = false ∧ ReadsAs facts access twin ∧
      twin.boundBySpawn = false

section Kept

variable {facts : TUFacts} {symbol : String} {access : AccessFact}

theorem Involved.one (h : Involved facts symbol access) : OneAccess facts symbol access := by
  rcases h with ⟨_, htwo, _⟩ | ⟨hone, _⟩ | ⟨hone, _⟩
  · exact htwo.left
  · exact hone
  · exact hone

theorem TwinsKept.kept (htwins : TwinsKept facts) (hinvolved : Involved facts symbol access) :
    ∃ twin, OneAccess facts symbol twin ∧ isDropped facts twin = false ∧
      ReadsAs facts access twin ∧ (isDropped facts access = true → twin.boundBySpawn = false) := by
  obtain ⟨hm, hp, hs⟩ := hinvolved.one
  cases hd : isDropped facts access with
  | false => exact ⟨access, ⟨hm, hp, hs⟩, hd, ReadsAs.refl facts access, by simp⟩
  | true =>
      obtain ⟨twin, htm, htd, hreads, hbound⟩ := htwins symbol access hd hinvolved
      exact ⟨twin, ⟨htm, hreads.participates.trans hp, hreads.symbol.trans hs⟩, htd, hreads,
        fun _ => hbound⟩

end Kept

-- Where each conflicting access the filter drops leaves a twin, no symbol is lost: a symbol is lost only
-- through what the filter's key leaves out.
theorem prefer_projected_loses_nothing (facts : TUFacts) (htwins : TwinsKept facts) (symbol : String)
    (h : Reported facts symbol) : Reported (preferProjected facts) symbol := by
  rw [reported_preferProjected]
  rcases reported_cases h with hconflict | ⟨access, hdropped, hinvolved⟩
  · exact hconflict
  · obtain ⟨twin, ht, htd, hreads, hbound⟩ := htwins.kept hinvolved
    rcases hinvolved with ⟨other, hpair⟩ | ⟨_, halone⟩ | ⟨_, hshared⟩
    · obtain ⟨otherTwin, ho, hod, hother, _⟩ := htwins.kept (.inl ⟨access, hpair.symm⟩)
      have hconflicts : Conflicts facts twin otherTwin := hreads.conflicts hother hpair.2
      by_cases hsame : twin = otherTwin
      · subst hsame
        refine .inr ⟨twin, ?_, htd⟩
        rcases self_conflict hconflicts (hbound hdropped) with halone | hshared
        · exact .inl ⟨ht, halone⟩
        · exact .inr ⟨ht, hshared⟩
      · exact .inl ⟨twin, otherTwin, ⟨ht.two ho hsame, hconflicts⟩, htd, hod⟩
    · exact .inr ⟨twin, .inl ⟨ht, hreads.racesAlone (hbound hdropped) halone⟩, htd⟩
    · exact .inr ⟨twin, .inr ⟨ht, hreads.selfConcurrentWrite hshared⟩, htd⟩

-- A thread entry writes what its callers pass it. A function no thread runs calls it too, and the
-- copy of the write at that call shows the call's line.
def entryWrite : AccessFact where
  symbol := "counter"
  region := { byteSize := 4 }
  functionId := "bump"
  kind := .Write
  loweredLocation := { file := "bump.cpp", line := 3, column := 5, function := "bump" }
  userLocation := { file := "bump.cpp", line := 3, column := 5, function := "bump" }

def copyAtCall : AccessFact :=
  { entryWrite with
    functionId := "unused"
    userLocation := { file := "bump.cpp", line := 9, column := 5, function := "unused" } }

def bumpedByThreads : TUFacts where
  accesses := [entryWrite, copyAtCall]
  entryConcurrency := fun entry => if entry = "bump" then some { hasSpawnInLoop := true } else none
  reachableThreadEntriesByFunction := fun functionId =>
    if functionId = "bump" then some {"bump"} else none

-- The entry calls itself as well: the copy at that call is made by the same threads.
def copyInEntry : AccessFact :=
  { entryWrite with userLocation := { file := "bump.cpp", line := 7, column := 5, function := "bump" } }

def bumpedTwice : TUFacts := { bumpedByThreads with accesses := [entryWrite, copyInEntry] }

theorem bumpedTwice_race_kept :
    entryWrite ∉ (preferProjected bumpedTwice).accesses ∧
      Reported (preferProjected bumpedTwice) "counter" := by
  refine ⟨by decide, prefer_projected_loses_nothing bumpedTwice ?_ "counter" ?_⟩
  · intro symbol access hdropped hinvolved
    obtain ⟨hm, -, -⟩ := hinvolved.one
    have hentry : access = entryWrite := by
      rcases List.mem_cons.mp hm with rfl | hm
      · rfl
      · rw [List.mem_singleton.mp hm] at hdropped
        exact absurd hdropped (by decide)
    subst hentry
    exact ⟨copyInEntry, List.mem_cons_of_mem _ (List.mem_singleton_self _), by decide,
      ⟨rfl, rfl, rfl, rfl, rfl, rfl, rfl, rfl, rfl, rfl, rfl, rfl⟩, rfl⟩
  · refine Involved.reported (.inr (.inr ⟨⟨List.mem_cons_self .., rfl, rfl⟩, ?_⟩))
    exact ⟨rfl, rfl, by decide, rfl, by decide, rfl⟩

-- The write of the entry is dropped for a copy that no thread makes.
theorem projected_copy_hides_race :
    ¬∀ symbol, Reported bumpedByThreads symbol →
      Reported (preferProjected bumpedByThreads) symbol := by
  intro h
  have hinvolved : Involved bumpedByThreads "counter" entryWrite :=
    Or.inr (Or.inr ⟨⟨List.mem_cons_self .., rfl, rfl⟩,
      ⟨rfl, rfl, by decide, rfl, by decide, rfl⟩⟩)
  obtain ⟨diagnostic, hd, _⟩ := h "counter" hinvolved.reported
  revert hd
  have hnone : (run (preferProjected bumpedByThreads)).diagnostics = [] := by decide
  rw [hnone]
  exact List.not_mem_nil

end ConcurrencyAnalyzer.DataRace
