import ConcurrencyAnalyzer.DataRace.Projected

namespace ConcurrencyAnalyzer.DataRace

open FactsBuilder Library KeepFirst

-- The accesses of a unit as they are added one by one.
def mergeAccesses (accesses : List AccessFact) : List AccessFact :=
  accesses.foldl addConcreteAccess []

def mergedFacts (facts : TUFacts) (accesses : List AccessFact) : TUFacts :=
  withAccesses facts (mergeAccesses accesses)

-- The same symbols are reported in whatever order the accesses come, and one more takes none away.
structure MergesAlike (facts : TUFacts) (accesses : List AccessFact) : Prop where
  permuted : ∀ other : List AccessFact, other.Perm accesses → ∀ symbol,
    Reported (mergedFacts facts other) symbol ↔ Reported (mergedFacts facts accesses) symbol
  grows : ∀ access symbol, Reported (mergedFacts facts accesses) symbol →
    Reported (mergedFacts facts (accesses ++ [access])) symbol

def threadsUnder (accesses : List AccessFact) (threads : AccessFact → ThreadEntrySet)
    (key : String) : ThreadEntrySet :=
  (accesses.filter (accessFactKey · = key)).toFinset.biUnion threads

-- An access with the threads of all that share its key.
def united (accesses : List AccessFact) (first : AccessFact) : AccessFact :=
  { first with
    liveEntries := threadsUnder accesses (·.liveEntries) (accessFactKey first)
    startedEntries := threadsUnder accesses (·.startedEntries) (accessFactKey first) }

-- One access of each key, any that has it.
structure OnePerKey (accesses chosen : List AccessFact) : Prop where
  taken : ∀ access ∈ chosen, access ∈ accesses
  distinct : (chosen.map accessFactKey).Nodup
  each : ∀ access ∈ accesses, accessFactKey access ∈ chosen.map accessFactKey

def OnSymbol (facts : TUFacts) (symbol : String) (access : AccessFact) : Prop :=
  participates access facts = true ∧ access.symbol = symbol

-- Two of the chosen accesses conflict on the symbol, or one does on its own.
def ConflictAmong (facts : TUFacts) (accesses chosen : List AccessFact) (symbol : String) : Prop :=
  (∃ lhs ∈ chosen, ∃ rhs ∈ chosen, accessFactKey lhs ≠ accessFactKey rhs ∧
      OnSymbol facts symbol lhs ∧ OnSymbol facts symbol rhs ∧
      Conflicts facts (united accesses lhs) (united accesses rhs)) ∨
    ∃ access ∈ chosen, OnSymbol facts symbol access ∧
      (RacesAlone facts (united accesses access) ∨
        SelfConcurrentWrite facts (united accesses access))

-- Whichever access of each key stands for the others, the same symbols have conflicts.
def FirstsAgree (facts : TUFacts) (accesses : List AccessFact) : Prop :=
  ∀ symbol chosen other, OnePerKey accesses chosen → OnePerKey accesses other →
    ConflictAmong facts accesses chosen symbol → ConflictAmong facts accesses other symbol

section Threads

variable {accesses : List AccessFact} {first : AccessFact}

theorem foldl_mergeThreads (elements : List AccessFact) (first : AccessFact) :
    elements.foldl mergeThreads first =
      { first with
        liveEntries := first.liveEntries ∪ elements.toFinset.biUnion (·.liveEntries)
        startedEntries := first.startedEntries ∪ elements.toFinset.biUnion (·.startedEntries) } := by
  induction elements generalizing first with
  | nil => simp
  | cons element elements ih =>
      rw [List.foldl_cons, ih]
      simp [mergeThreads, Finset.biUnion_insert, Finset.union_assoc]

theorem threadsUnder_of_first {before after : List AccessFact}
    (h : FirstOfKey accessFactKey accesses before after first)
    (threads : AccessFact → ThreadEntrySet) :
    threads first ∪ (sameKey accessFactKey first after).toFinset.biUnion threads =
      threadsUnder accesses threads (accessFactKey first) := by
  rw [← Finset.biUnion_insert, ← List.toFinset_cons, threadsUnder]
  congr 1
  ext access
  rw [List.mem_toFinset, List.mem_toFinset, h.mem_iff, List.mem_filter, decide_eq_true_eq]

theorem foldl_mergeThreads_first {before after : List AccessFact}
    (h : FirstOfKey accessFactKey accesses before after first) :
    (sameKey accessFactKey first after).foldl mergeThreads first = united accesses first := by
  rw [foldl_mergeThreads, threadsUnder_of_first h (·.liveEntries),
    threadsUnder_of_first h (·.startedEntries)]
  rfl

theorem threadsUnder_perm {other : List AccessFact} (hperm : other.Perm accesses)
    (threads : AccessFact → ThreadEntrySet) (key : String) :
    threadsUnder other threads key = threadsUnder accesses threads key := by
  unfold threadsUnder
  congr 1
  ext access
  simp [hperm.mem_iff]

theorem united_perm {other : List AccessFact} (hperm : other.Perm accesses) (access : AccessFact) :
    united other access = united accesses access := by
  simp only [united, threadsUnder_perm hperm]

end Threads

-- The accesses that came first under their keys.
def firsts (accesses : List AccessFact) : List AccessFact :=
  accesses.foldl (keep accessFactKey fun first _ => first) []

section Firsts

variable {accesses chosen : List AccessFact}

theorem accessFactKey_mergeThreads (first access : AccessFact) :
    accessFactKey (mergeThreads first access) = accessFactKey first := rfl

theorem mem_firsts {access : AccessFact} : access ∈ firsts accesses ↔
    ∃ before after, FirstOfKey accessFactKey accesses before after access := by
  have hsame (elements : List AccessFact) (first : AccessFact) :
      elements.foldl (fun first _ => first) first = first := by
    induction elements with
    | nil => rfl
    | cons _ _ ih => exact ih
  rw [firsts, mem_foldl_keep (fun _ _ => rfl) accesses [] List.nodup_nil]
  constructor
  · rintro (⟨_, hnone, _⟩ | ⟨before, after, first, hfirst, _, rfl⟩)
    · exact absurd hnone List.not_mem_nil
    · rw [hsame]
      exact ⟨before, after, hfirst⟩
  · rintro ⟨before, after, hfirst⟩
    exact .inr ⟨before, after, access, hfirst, List.not_mem_nil, (hsame _ _).symm⟩

theorem mem_mergeAccesses {access : AccessFact} : access ∈ mergeAccesses accesses ↔
    ∃ first ∈ firsts accesses, united accesses first = access := by
  have hadd : mergeAccesses accesses = accesses.foldl (keep accessFactKey mergeThreads) [] := rfl
  rw [hadd, mem_foldl_keep accessFactKey_mergeThreads accesses [] List.nodup_nil]
  constructor
  · rintro (⟨_, hnone, _⟩ | ⟨before, after, first, hfirst, _, rfl⟩)
    · exact absurd hnone List.not_mem_nil
    · exact ⟨first, mem_firsts.mpr ⟨before, after, hfirst⟩, (foldl_mergeThreads_first hfirst).symm⟩
  · rintro ⟨first, hmem, rfl⟩
    obtain ⟨before, after, hfirst⟩ := mem_firsts.mp hmem
    exact .inr ⟨before, after, first, hfirst, List.not_mem_nil,
      (foldl_mergeThreads_first hfirst).symm⟩

theorem nodup_mergeAccesses (accesses : List AccessFact) :
    ((mergeAccesses accesses).map accessFactKey).Nodup := by
  unfold mergeAccesses
  induction accesses using List.reverseRecOn with
  | nil => exact List.nodup_nil
  | append_singleton accesses access ih =>
      rw [List.foldl_append]
      exact nodup_keep accessFactKey_mergeThreads access ih

theorem firsts_onePerKey (accesses : List AccessFact) : OnePerKey accesses (firsts accesses) where
  taken := by
    intro access hmem
    obtain ⟨before, after, hfirst⟩ := mem_firsts.mp hmem
    rw [hfirst.split]
    exact List.mem_append_right _ List.mem_cons_self
  distinct := by
    unfold firsts
    induction accesses using List.reverseRecOn with
    | nil => exact List.nodup_nil
    | append_singleton accesses access ih =>
        rw [List.foldl_append]
        exact nodup_keep (fun _ _ => rfl) access ih
  each := by
    intro access hmem
    obtain ⟨before, after, first, hfirst, hkey⟩ :
        ∃ before after first, FirstOfKey accessFactKey accesses before after first ∧
          accessFactKey first = accessFactKey access := exists_firstOfKey hmem
    exact hkey ▸ List.mem_map_of_mem (mem_firsts.mpr ⟨before, after, hfirst⟩)

-- Two accesses that each stand for a key are the same one under the same key.
theorem OnePerKey.eq_of_key (h : OnePerKey accesses chosen) {lhs rhs : AccessFact}
    (hl : lhs ∈ chosen) (hr : rhs ∈ chosen) (hkey : accessFactKey lhs = accessFactKey rhs) :
    lhs = rhs := List.inj_on_of_nodup_map h.distinct hl hr hkey

theorem OnePerKey.perm {other : List AccessFact} (h : OnePerKey accesses chosen)
    (hperm : other.Perm accesses) : OnePerKey other chosen where
  taken access hmem := hperm.mem_iff.mpr (h.taken access hmem)
  distinct := h.distinct
  each access hmem := h.each access (hperm.mem_iff.mp hmem)

-- The chosen accesses can come before all others, and are then the first of their keys.
theorem OnePerKey.come_first (h : OnePerKey accesses chosen) :
    ∃ other : List AccessFact, other.Perm accesses ∧
      ∀ access, access ∈ firsts other ↔ access ∈ chosen := by
  obtain ⟨sub, hsame, hsub⟩ :=
    List.subperm_of_subset (List.Nodup.of_map accessFactKey h.distinct) h.taken
  obtain ⟨rest, hrest⟩ := hsub.exists_perm_append
  have hperm : (chosen ++ rest).Perm accesses := (hrest.trans (hsame.append_right rest)).symm
  refine ⟨chosen ++ rest, hperm, ?_⟩
  have hfirst (access : AccessFact) (hmem : access ∈ chosen) :
      access ∈ firsts (chosen ++ rest) := by
    obtain ⟨before, after, hsplit⟩ := List.append_of_mem hmem
    refine mem_firsts.mpr ⟨before, after ++ rest, ?_, ?_⟩
    · rw [hsplit, List.append_assoc, List.cons_append]
    · intro element helement hkey
      have hdistinct := h.distinct
      rw [hsplit, List.map_append, List.map_cons, List.nodup_append] at hdistinct
      exact hdistinct.2.2 _ (List.mem_map_of_mem helement) _ List.mem_cons_self hkey
  intro access
  constructor
  · intro hmem
    obtain ⟨chosenFirst, hchosen, hkey⟩ :=
      List.mem_map.mp (h.each access (hperm.mem_iff.mp ((firsts_onePerKey _).taken access hmem)))
    have hsame := (firsts_onePerKey (chosen ++ rest)).eq_of_key (hfirst _ hchosen) hmem hkey
    exact hsame ▸ hchosen
  · exact hfirst access

end Firsts

section Reports

variable {facts : TUFacts} {accesses chosen other : List AccessFact} {symbol : String}

theorem oneAccess_mergedFacts {access : AccessFact} :
    OneAccess (mergedFacts facts accesses) symbol access ↔
      ∃ first ∈ firsts accesses, OnSymbol facts symbol first ∧ united accesses first = access := by
  unfold OneAccess
  have hmerged : access ∈ (mergedFacts facts accesses).accesses ↔
      access ∈ mergeAccesses accesses := Iff.rfl
  rw [hmerged, mem_mergeAccesses]
  constructor
  · rintro ⟨⟨first, hfirst, rfl⟩, hparticipates, hsymbol⟩
    exact ⟨first, hfirst, ⟨hparticipates, hsymbol⟩, rfl⟩
  · rintro ⟨first, hfirst, ⟨hparticipates, hsymbol⟩, rfl⟩
    exact ⟨⟨first, hfirst, rfl⟩, hparticipates, hsymbol⟩

-- Two places of the merged list hold accesses under two keys.
theorem twoAccesses_mergedFacts {lhs rhs : AccessFact} :
    TwoAccesses (mergedFacts facts accesses) symbol lhs rhs ↔
      OneAccess (mergedFacts facts accesses) symbol lhs ∧
        OneAccess (mergedFacts facts accesses) symbol rhs ∧
        accessFactKey lhs ≠ accessFactKey rhs := by
  have hnodup := nodup_mergeAccesses accesses
  constructor
  · rintro ⟨i, j, hne, hi, hj, hl, hr⟩
    refine ⟨⟨List.mem_of_getElem? hi, hl⟩, ⟨List.mem_of_getElem? hj, hr⟩, ?_⟩
    intro hkey
    have hi' : ((mergeAccesses accesses).map accessFactKey)[i]? = some (accessFactKey lhs) := by
      rw [List.getElem?_map, show (mergeAccesses accesses)[i]? = some lhs from hi]
      rfl
    have hj' : ((mergeAccesses accesses).map accessFactKey)[j]? = some (accessFactKey lhs) := by
      rw [List.getElem?_map, show (mergeAccesses accesses)[j]? = some rhs from hj, hkey]
      rfl
    have hlt : i < ((mergeAccesses accesses).map accessFactKey).length :=
      (List.getElem?_eq_some_iff.mp hi').1
    exact hne ((List.getElem?_inj hlt hnodup).mp (hi'.trans hj'.symm))
  · rintro ⟨⟨hlmem, hl⟩, ⟨hrmem, hr⟩, hkey⟩
    obtain ⟨i, hi⟩ := List.mem_iff_getElem?.mp hlmem
    obtain ⟨j, hj⟩ := List.mem_iff_getElem?.mp hrmem
    refine ⟨i, j, ?_, hi, hj, hl, hr⟩
    rintro rfl
    rw [hi, Option.some.injEq] at hj
    exact hkey (congrArg accessFactKey hj)

-- What is reported on the merged accesses is a conflict of those that came first.
theorem reported_mergedFacts : Reported (mergedFacts facts accesses) symbol ↔
    ConflictAmong facts accesses (firsts accesses) symbol := by
  rw [reported_iff]
  unfold ConflictAmong PairConflict AloneConflict SharedEntryConflict
  constructor
  · rintro (⟨lhs, rhs, htwo, hc⟩ | ⟨access, ⟨hone, h⟩ | ⟨hone, h⟩⟩)
    · obtain ⟨hl, hr, hkey⟩ := twoAccesses_mergedFacts.mp htwo
      obtain ⟨first, hfirst, honFirst, rfl⟩ := oneAccess_mergedFacts.mp hl
      obtain ⟨second, hsecond, honSecond, rfl⟩ := oneAccess_mergedFacts.mp hr
      exact .inl ⟨first, hfirst, second, hsecond, hkey, honFirst, honSecond,
        conflicts_withAccesses.mp hc⟩
    · obtain ⟨first, hfirst, hon, rfl⟩ := oneAccess_mergedFacts.mp hone
      exact .inr ⟨first, hfirst, hon, .inl (racesAlone_withAccesses.mp h)⟩
    · obtain ⟨first, hfirst, hon, rfl⟩ := oneAccess_mergedFacts.mp hone
      exact .inr ⟨first, hfirst, hon, .inr (selfConcurrentWrite_withAccesses.mp h)⟩
  · rintro (⟨lhs, hl, rhs, hr, hkey, honl, honr, hc⟩ | ⟨access, hmem, hon, h | h⟩)
    · refine .inl ⟨_, _, twoAccesses_mergedFacts.mpr ⟨oneAccess_mergedFacts.mpr ⟨lhs, hl, honl, rfl⟩,
        oneAccess_mergedFacts.mpr ⟨rhs, hr, honr, rfl⟩, hkey⟩, conflicts_withAccesses.mpr hc⟩
    · exact .inr ⟨_, .inl ⟨oneAccess_mergedFacts.mpr ⟨access, hmem, hon, rfl⟩,
        racesAlone_withAccesses.mpr h⟩⟩
    · exact .inr ⟨_, .inr ⟨oneAccess_mergedFacts.mpr ⟨access, hmem, hon, rfl⟩,
        selfConcurrentWrite_withAccesses.mpr h⟩⟩

-- Of the accesses only which are chosen and the threads under each key matter.
theorem conflictAmong_congr (hperm : other.Perm accesses) {otherChosen : List AccessFact}
    (hchosen : ∀ access, access ∈ otherChosen ↔ access ∈ chosen) :
    ConflictAmong facts other otherChosen symbol ↔ ConflictAmong facts accesses chosen symbol := by
  simp only [ConflictAmong, hchosen, united_perm hperm]

theorem permuted_iff_firstsAgree : (∀ other : List AccessFact, other.Perm accesses → ∀ symbol,
      Reported (mergedFacts facts other) symbol ↔ Reported (mergedFacts facts accesses) symbol) ↔
    FirstsAgree facts accesses := by
  constructor
  · intro h symbol chosen other hchosen hother hconflict
    obtain ⟨before, hbefore, hfirsts⟩ := hchosen.come_first
    obtain ⟨after, hafter, hothers⟩ := hother.come_first
    rw [← conflictAmong_congr hbefore hfirsts, ← reported_mergedFacts, h before hbefore,
      ← h after hafter, reported_mergedFacts, conflictAmong_congr hafter hothers] at hconflict
    exact hconflict
  · intro h other hperm symbol
    have hfirsts := (firsts_onePerKey other).perm hperm.symm
    rw [reported_mergedFacts, reported_mergedFacts, conflictAmong_congr hperm fun _ => Iff.rfl]
    exact ⟨h symbol _ _ hfirsts (firsts_onePerKey accesses),
      h symbol _ _ (firsts_onePerKey accesses) hfirsts⟩

end Reports

-- The same access beside more threads.
structure BesideMore (access more : AccessFact) : Prop where
  same : more = { access with liveEntries := more.liveEntries, startedEntries := more.startedEntries }
  live : access.liveEntries ⊆ more.liveEntries

section Growth

variable {facts : TUFacts} {accesses : List AccessFact} {symbol : String}
  {lhs rhs lhsMore rhsMore access more : AccessFact}

theorem united_besideMore (accesses : List AccessFact) (added access : AccessFact) :
    BesideMore (united accesses access) (united (accesses ++ [added]) access) where
  same := rfl
  live := by
    intro entry hentry
    obtain ⟨other, hother, hlive⟩ := Finset.mem_biUnion.mp hentry
    refine Finset.mem_biUnion.mpr ⟨other, ?_, hlive⟩
    rw [List.mem_toFinset, List.mem_filter] at hother ⊢
    exact ⟨List.mem_append_left _ hother.1, hother.2⟩

theorem BesideMore.racesWithRootTask (h : BesideMore access more) (entries : ThreadEntrySet)
    (hraces : racesWithRootTask access entries = true) : racesWithRootTask more entries = true := by
  rw [h.same]
  simp only [ConcurrencyAnalyzer.racesWithRootTask, TaskFact.inRootTask, TaskFact.liveEntries,
    Bool.and_eq_true, decide_eq_true_eq] at hraces ⊢
  obtain ⟨hroot, entry, hentry, hlive⟩ := hraces
  exact ⟨hroot, entry, hentry, h.live hlive⟩

theorem BesideMore.entriesOf (h : BesideMore access more) :
    entriesOf more facts = entriesOf access facts := by
  rw [h.same]
  rfl

theorem BesideMore.conflicts (hl : BesideMore lhs lhsMore) (hr : BesideMore rhs rhsMore)
    (h : Conflicts facts lhs rhs) : Conflicts facts lhsMore rhsMore where
  write := by
    rw [hl.same, hr.same]
    exact h.write
  overlap := by
    rw [hl.same, hr.same]
    exact h.overlap
  unowned := by
    rw [hl.same, hr.same]
    exact h.unowned
  notBothAtomic := by
    rw [hl.same, hr.same]
    exact h.notBothAtomic
  mixedPrecise := by
    rw [hl.same, hr.same]
    exact h.mixedPrecise
  parallel := by
    have hparallel := h.parallel
    unfold mayHappenInParallel at hparallel ⊢
    rw [hl.entriesOf, hr.entriesOf]
    split at hparallel
    · rename_i hroot
      rw [if_pos]
      rw [Bool.or_eq_true] at hroot ⊢
      exact hroot.imp (hl.racesWithRootTask _) (hr.racesWithRootTask _)
    · split
      · rfl
      · exact hparallel
  shared := by
    rw [hl.same, hr.same]
    exact h.shared
  unlocked := by
    rw [hl.same, hr.same]
    exact h.unlocked
  unpublished := by
    rw [hl.same, hr.same]
    exact h.unpublished

theorem BesideMore.racesAlone (hmore : BesideMore access more) (h : RacesAlone facts access) :
    RacesAlone facts more where
  write := by
    rw [hmore.same]
    exact h.write
  plain := by
    rw [hmore.same]
    exact h.plain
  races := by
    have hraces := h.races
    have hbound : more.boundBySpawn = access.boundBySpawn := by rw [hmore.same]
    unfold racesWithItself at hraces ⊢
    rw [hbound, hmore.entriesOf]
    split at hraces
    · cases hraces
    · rename_i hfree
      rw [if_neg hfree]
      split at hraces
      · rename_i hroot
        rw [if_pos (hmore.racesWithRootTask _ hroot)]
      · split
        · rfl
        · exact hraces
  unlocked := by
    rw [hmore.same]
    exact h.unlocked

theorem BesideMore.selfConcurrentWrite (hmore : BesideMore access more)
    (h : SelfConcurrentWrite facts access) : SelfConcurrentWrite facts more := by
  rw [hmore.same]
  exact ⟨h.write, h.plain, h.selfConcurrent, h.unowned, h.overlap, h.unlocked⟩

theorem firsts_append (accesses : List AccessFact) (added : AccessFact) :
    ∀ access ∈ firsts accesses, access ∈ firsts (accesses ++ [added]) := by
  intro access hmem
  obtain ⟨before, after, hfirst⟩ := mem_firsts.mp hmem
  refine mem_firsts.mpr ⟨before, after ++ [added], ?_, hfirst.fresh⟩
  conv_lhs => rw [hfirst.split]
  rw [List.append_assoc, List.cons_append]

-- One more access is one more that may conflict, or one more place where threads are seen to run.
theorem reported_append (added : AccessFact) (h : Reported (mergedFacts facts accesses) symbol) :
    Reported (mergedFacts facts (accesses ++ [added])) symbol := by
  rw [reported_mergedFacts] at h ⊢
  have hmore := united_besideMore accesses added
  have hfirsts := firsts_append accesses added
  rcases h with ⟨lhs, hl, rhs, hr, hkey, honl, honr, hc⟩ | ⟨access, hmem, hon, h⟩
  · exact .inl ⟨lhs, hfirsts lhs hl, rhs, hfirsts rhs hr, hkey, honl, honr,
      (hmore lhs).conflicts (hmore rhs) hc⟩
  · exact .inr ⟨access, hfirsts access hmem, hon,
      h.imp (hmore access).racesAlone (hmore access).selfConcurrentWrite⟩

end Growth

theorem mergesAlike_iff (facts : TUFacts) (accesses : List AccessFact) :
    MergesAlike facts accesses ↔ FirstsAgree facts accesses :=
  ⟨fun h => permuted_iff_firstsAgree.mp h.permuted,
    fun h => ⟨permuted_iff_firstsAgree.mpr h, fun added _ => reported_append added⟩⟩

-- Accesses under one key are read alike, but for whether they are bound by a spawn.
def KeysTell (facts : TUFacts) (accesses : List AccessFact) : Prop :=
  ∀ access ∈ accesses, ∀ twin ∈ accesses, accessFactKey twin = accessFactKey access →
    ReadsAs facts (united accesses access) (united accesses twin)

-- Accesses of the symbol conflict that do so whatever comes first under their keys.
def SureConflict (facts : TUFacts) (accesses : List AccessFact) (symbol : String) : Prop :=
  (∃ lhs ∈ accesses, ∃ rhs ∈ accesses, accessFactKey lhs ≠ accessFactKey rhs ∧
      OnSymbol facts symbol lhs ∧ OnSymbol facts symbol rhs ∧
      Conflicts facts (united accesses lhs) (united accesses rhs)) ∨
    (∃ access ∈ accesses, OnSymbol facts symbol access ∧
      SelfConcurrentWrite facts (united accesses access)) ∨
    ∃ access ∈ accesses, OnSymbol facts symbol access ∧ RacesAlone facts (united accesses access) ∧
      ∀ twin ∈ accesses, accessFactKey twin = accessFactKey access → twin.boundBySpawn = false

-- An access two of whose runs conflict has no twin that a spawn binds, or is not the only conflict
-- of its symbol.
def BoundTwinsCovered (facts : TUFacts) (accesses : List AccessFact) : Prop :=
  ∀ symbol, ∀ access ∈ accesses, ∀ twin ∈ accesses, accessFactKey twin = accessFactKey access →
    twin.boundBySpawn = true → OnSymbol facts symbol access →
    RacesAlone facts (united accesses access) → SureConflict facts accesses symbol

section Twins

variable {facts : TUFacts} {accesses chosen : List AccessFact} {symbol : String}
  {access twin : AccessFact}

theorem OnePerKey.exists_twin (h : OnePerKey accesses chosen) (hmem : access ∈ accesses) :
    ∃ twin ∈ chosen, accessFactKey twin = accessFactKey access :=
  List.mem_map.mp (h.each access hmem)

theorem exists_onePerKey_with (hmem : access ∈ accesses) :
    ∃ chosen, OnePerKey accesses chosen ∧ access ∈ chosen := by
  obtain ⟨before, after, hsplit⟩ := List.append_of_mem hmem
  have hperm : (access :: (before ++ after)).Perm accesses := hsplit ▸ List.perm_middle.symm
  exact ⟨firsts (access :: (before ++ after)), (firsts_onePerKey _).perm hperm.symm,
    mem_firsts.mpr ⟨[], before ++ after, rfl, fun _ hnone => absurd hnone List.not_mem_nil⟩⟩

-- With the accesses that spawns bind put first, another comes first only under a key of its own kind.
theorem exists_onePerKey_bound (accesses : List AccessFact) :
    ∃ chosen, OnePerKey accesses chosen ∧ ∀ access ∈ chosen, access.boundBySpawn = false →
      ∀ twin ∈ accesses, accessFactKey twin = accessFactKey access → twin.boundBySpawn = false := by
  set reordered := accesses.filter (·.boundBySpawn) ++ accesses.filter (!·.boundBySpawn)
    with hreordered
  have hperm : reordered.Perm accesses := List.filter_append_perm (·.boundBySpawn) accesses
  refine ⟨firsts reordered, (firsts_onePerKey reordered).perm hperm.symm, ?_⟩
  intro access hmem hfree twin htwin hkey
  by_contra hbound
  rw [Bool.not_eq_false] at hbound
  obtain ⟨before, after, hfirst⟩ := mem_firsts.mp hmem
  have hfront : twin ∈ accesses.filter (·.boundBySpawn) := List.mem_filter.mpr ⟨htwin, hbound⟩
  have hsplit := hreordered.symm.trans hfirst.split
  rcases List.append_eq_append_iff.mp hsplit with ⟨gap, hbefore, _⟩ | ⟨gap, hfilter, _⟩
  · exact hfirst.fresh twin (hbefore ▸ List.mem_append_left _ hfront) hkey
  · cases gap with
    | nil =>
        rw [List.append_nil] at hfilter
        exact hfirst.fresh twin (hfilter ▸ hfront) hkey
    | cons head gap =>
        rename_i hrest
        rw [List.cons_append, List.cons.injEq] at hrest
        have hhead : head ∈ accesses.filter (·.boundBySpawn) :=
          hfilter ▸ List.mem_append_right _ List.mem_cons_self
        have := (List.mem_filter.mp hhead).2
        rw [← hrest.1, hfree] at this
        cases this

theorem KeysTell.readsAs (h : KeysTell facts accesses) (hchosen : OnePerKey accesses chosen)
    (hmem : access ∈ accesses) : ∃ twin ∈ chosen, accessFactKey twin = accessFactKey access ∧
      ReadsAs facts (united accesses access) (united accesses twin) := by
  obtain ⟨twin, htwin, hkey⟩ := hchosen.exists_twin hmem
  exact ⟨twin, htwin, hkey, h access hmem twin (hchosen.taken twin htwin) hkey⟩

theorem OnSymbol.readsAs (h : OnSymbol facts symbol access)
    (htwin : ReadsAs facts (united accesses access) (united accesses twin)) :
    OnSymbol facts symbol twin :=
  ⟨htwin.participates.trans h.1, htwin.symbol.trans h.2⟩

theorem not_racesAlone_of_bound (h : access.boundBySpawn = true) : ¬RacesAlone facts access := by
  intro halone
  have hraces := halone.races
  unfold racesWithItself at hraces
  rw [if_pos h] at hraces
  cases hraces

theorem SureConflict.among (h : SureConflict facts accesses symbol) (hkeys : KeysTell facts accesses)
    (hchosen : OnePerKey accesses chosen) : ConflictAmong facts accesses chosen symbol := by
  rcases h with ⟨lhs, hl, rhs, hr, hkey, honl, honr, hc⟩ | ⟨access, hmem, hon, hshared⟩ |
    ⟨access, hmem, hon, halone, hfree⟩
  · obtain ⟨first, hfirst, hfirstKey, hfirstReads⟩ := hkeys.readsAs hchosen hl
    obtain ⟨second, hsecond, hsecondKey, hsecondReads⟩ := hkeys.readsAs hchosen hr
    exact .inl ⟨first, hfirst, second, hsecond, by rwa [hfirstKey, hsecondKey],
      honl.readsAs hfirstReads, honr.readsAs hsecondReads, hfirstReads.conflicts hsecondReads hc⟩
  · obtain ⟨twin, htwin, _, hreads⟩ := hkeys.readsAs hchosen hmem
    exact .inr ⟨twin, htwin, hon.readsAs hreads, .inr (hreads.selfConcurrentWrite hshared)⟩
  · obtain ⟨twin, htwin, hkey, hreads⟩ := hkeys.readsAs hchosen hmem
    exact .inr ⟨twin, htwin, hon.readsAs hreads,
      .inl (hreads.racesAlone (hfree twin (hchosen.taken twin htwin) hkey) halone)⟩

theorem firstsAgree_iff_covered (hkeys : KeysTell facts accesses) :
    FirstsAgree facts accesses ↔ BoundTwinsCovered facts accesses := by
  constructor
  · intro h symbol access hmem twin _ _ _ hon halone
    obtain ⟨chosen, hchosen, hin⟩ := exists_onePerKey_with hmem
    obtain ⟨bound, hbound, hfree⟩ := exists_onePerKey_bound accesses
    rcases h symbol chosen bound hchosen hbound (.inr ⟨access, hin, hon, .inl halone⟩) with
      ⟨lhs, hl, rhs, hr, hpair⟩ | ⟨other, hother, honOther, haloneOther | hshared⟩
    · exact .inl ⟨lhs, hbound.taken lhs hl, rhs, hbound.taken rhs hr, hpair⟩
    · refine .inr (.inr ⟨other, hbound.taken other hother, honOther, haloneOther, ?_⟩)
      apply hfree other hother
      by_contra hspawn
      have hbound : (united accesses other).boundBySpawn = true := by simpa [united] using hspawn
      exact not_racesAlone_of_bound hbound haloneOther
    · exact .inr (.inl ⟨other, hbound.taken other hother, honOther, hshared⟩)
  · intro h symbol chosen other hchosen hother hconflict
    rcases hconflict with ⟨lhs, hl, rhs, hr, hpair⟩ | ⟨access, hmem, hon, halone | hshared⟩
    · exact SureConflict.among
        (.inl ⟨lhs, hchosen.taken lhs hl, rhs, hchosen.taken rhs hr, hpair⟩) hkeys hother
    · obtain ⟨twin, htwin, hkey, hreads⟩ := hkeys.readsAs hother (hchosen.taken access hmem)
      cases hbound : twin.boundBySpawn with
      | false =>
          exact .inr ⟨twin, htwin, hon.readsAs hreads, .inl (hreads.racesAlone hbound halone)⟩
      | true =>
          exact (h symbol access (hchosen.taken access hmem) twin (hother.taken twin htwin) hkey
            hbound hon halone).among hkeys hother
    · exact SureConflict.among (.inr (.inl ⟨access, hchosen.taken access hmem, hon, hshared⟩)) hkeys
        hother

end Twins

-- The order in which accesses are merged decides nothing exactly when it does not matter which of
-- the accesses under one key is kept. Where these differ only in whether a spawn binds them, it
-- matters only for a symbol whose sole conflicts are runs of accesses with a bound twin.
theorem merge_order_free_iff (facts : TUFacts) (accesses : List AccessFact) :
    (MergesAlike facts accesses ↔ FirstsAgree facts accesses) ∧
      (KeysTell facts accesses →
        (MergesAlike facts accesses ↔ BoundTwinsCovered facts accesses)) :=
  ⟨mergesAlike_iff facts accesses,
    fun hkeys => (mergesAlike_iff facts accesses).trans (firstsAgree_iff_covered hkeys)⟩

-- A write of a thread's entry, which the initial thread also calls while that thread runs, and the
-- copy of it that the spawn binds.
def calledEntryWrite (bound : Bool) : AccessFact :=
  { symbol := "counter"
    functionId := "worker"
    kind := .Write
    region := { byteSize := 4 }
    inRootTask := true
    liveEntries := {"worker"}
    boundBySpawn := bound }

def calledEntryFacts : TUFacts where
  reachableThreadEntriesByFunction := fun functionId =>
    if functionId = "worker" then some {"worker"} else none

-- The race of the call with the thread is lost where the thread's copy comes first.
theorem merge_order_hides_race :
    ¬MergesAlike calledEntryFacts [calledEntryWrite false, calledEntryWrite true] := by
  intro h
  have hsame := h.permuted [calledEntryWrite true, calledEntryWrite false] (List.Perm.swap _ _ _)
    "counter"
  revert hsame
  unfold Reported
  decide

end ConcurrencyAnalyzer.DataRace
