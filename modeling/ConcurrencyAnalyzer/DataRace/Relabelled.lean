import ConcurrencyAnalyzer.DataRace.Scan
import Mathlib.Data.List.Find

namespace ConcurrencyAnalyzer.DataRace

open Library

-- What is said of an access beside what is accessed, where and how: the threads that may run then, and
-- the flags that order it.
structure Labels where
  liveEntries : ThreadEntrySet
  startedEntries : ThreadEntrySet
  beforeRelease : Finset String
  afterAcquire : Finset String

def relabel (labels : AccessFact → Labels) (access : AccessFact) : AccessFact :=
  { access with
    liveEntries := (labels access).liveEntries
    startedEntries := (labels access).startedEntries
    beforeRelease := (labels access).beforeRelease
    afterAcquire := (labels access).afterAcquire }

-- Facts with their accesses relabelled, so that what is asked of the accesses is answered alike.
structure Relabelled (here : String → Prop) (labels : AccessFact → Labels) (facts other : TUFacts) :
    Prop extends AnswerAlike here facts other where
  accesses : other.accesses = facts.accesses.map (relabel labels)
  contexts : ∀ access ∈ facts.accesses, other.reachableThreadEntriesByFunction access.functionId =
    facts.reachableThreadEntriesByFunction access.functionId
  entries : ∀ access ∈ facts.accesses, ∀ entry ∈ entriesOf access facts, here entry
  live : ∀ access ∈ facts.accesses, ∀ entry, here entry →
    (entry ∈ (labels access).liveEntries ↔ entry ∈ access.liveEntries)
  ordered : ∀ lhs ∈ facts.accesses, ∀ rhs ∈ facts.accesses,
    orderedByPublication (relabel labels lhs) (relabel labels rhs) = orderedByPublication lhs rhs

variable {here : String → Prop} {labels : AccessFact → Labels} {facts other : TUFacts}
  {lhs rhs access : AccessFact}

section Sites

variable (labels)

def LocationConflict.relabel (conflict : LocationConflict) : LocationConflict :=
  { conflict with
    lhs := DataRace.relabel labels conflict.lhs
    rhs := DataRace.relabel labels conflict.rhs }

theorem addSite_relabel (conflict : LocationConflict) (site : AccessFact) :
    addSite (conflict.relabel labels) (relabel labels site) = (addSite conflict site).relabel labels := by
  unfold addSite
  split
  · rename_i hfull
    rw [if_pos (show conflict.relatedSites.length ≥ kMaxRelatedConflictSites from hfull)]
  · rename_i hroom
    rw [if_neg (show ¬conflict.relatedSites.length ≥ kMaxRelatedConflictSites from hroom)]
    split
    · rename_i hseen
      rw [if_pos (show locationLabel site.userLocation ∈ conflict.seenSiteKeys from hseen)]
    · rename_i hnew
      rw [if_neg (show locationLabel site.userLocation ∉ conflict.seenSiteKeys from hnew)]
      rfl

theorem recordPair_relabel (lhs rhs : AccessFact) (present : Option LocationConflict) :
    recordPair (relabel labels lhs) (relabel labels rhs)
        (present.map (LocationConflict.relabel labels)) =
      (recordPair lhs rhs present).relabel labels := by
  unfold recordPair
  dsimp only
  rw [← addSite_relabel, ← addSite_relabel]
  cases present with
  | none => rfl
  | some conflict =>
      dsimp only [Option.map_some]
      congr 2
      by_cases hbetter : conflict.ranking < (LocationConflict.ofPair lhs rhs).ranking
      · rw [if_pos hbetter]
        exact if_pos hbetter
      · rw [if_neg hbetter]
        exact if_neg hbetter

end Sites

section Scans

variable (h : Relabelled here labels facts other)

include h

theorem entriesOf_relabel (haccess : access ∈ facts.accesses) :
    entriesOf (relabel labels access) other = entriesOf access facts :=
  congrArg (fun entries : Option ThreadEntrySet => entries.getD ∅) (h.contexts access haccess)

theorem participates_relabel (haccess : access ∈ facts.accesses) :
    participates (relabel labels access) other = participates access facts :=
  congrArg (fun entries : Option ThreadEntrySet => entries.isSome || access.inRootTask)
    (h.contexts access haccess)

theorem racesWithRootTask_relabel (hlhs : lhs ∈ facts.accesses) (hrhs : rhs ∈ facts.accesses) :
    racesWithRootTask (relabel labels lhs) (entriesOf rhs facts) =
      racesWithRootTask lhs (entriesOf rhs facts) :=
  racesWithRootTask_alike (h.entries rhs hrhs) rfl (h.live lhs hlhs)

theorem mayHappenInParallel_relabel (hlhs : lhs ∈ facts.accesses) (hrhs : rhs ∈ facts.accesses) :
    mayHappenInParallel (relabel labels lhs) (entriesOf (relabel labels lhs) other)
        (relabel labels rhs) (entriesOf (relabel labels rhs) other) other =
      mayHappenInParallel lhs (entriesOf lhs facts) rhs (entriesOf rhs facts) facts := by
  rw [entriesOf_relabel h hlhs, entriesOf_relabel h hrhs]
  exact mayHappenInParallel_alike h.toAnswerAlike (h.entries lhs hlhs) (h.entries rhs hrhs)
    (racesWithRootTask_relabel h hlhs hrhs) (racesWithRootTask_relabel h hrhs hlhs)

theorem racesWithItself_relabel (haccess : access ∈ facts.accesses) :
    racesWithItself (relabel labels access) (entriesOf (relabel labels access) other) other =
      racesWithItself access (entriesOf access facts) facts := by
  have hone (entry : String) (hentry : entry ∈ entriesOf access facts) :
      ∀ only ∈ ({entry} : ThreadEntrySet), here only := by
    intro only honly
    rw [Finset.mem_singleton.mp honly]
    exact h.entries access haccess entry hentry
  rw [entriesOf_relabel h haccess]
  unfold racesWithItself
  rw [racesWithRootTask_relabel h haccess haccess]
  congr 2
  rw [decide_eq_decide]
  refine exists_congr fun entry => and_congr_right fun hentry =>
    exists_congr fun beside => and_congr_right fun hbeside => and_congr_right fun _ => ?_
  rw [mayRunConcurrently_alike h.toAnswerAlike (hone entry hentry) (hone beside hbeside)]

theorem shareSelfConcurrentEntry_relabel (hlhs : lhs ∈ facts.accesses) :
    shareSelfConcurrentEntry (entriesOf lhs facts) (entriesOf rhs facts) other =
      shareSelfConcurrentEntry (entriesOf lhs facts) (entriesOf rhs facts) facts := by
  unfold shareSelfConcurrentEntry
  rw [decide_eq_decide]
  refine exists_congr fun entry => and_congr_right fun hentry => and_congr_right fun _ => ?_
  rw [h.counted entry (h.entries lhs hlhs entry hentry)]

theorem locationKeyOf_relabel (hlhs : lhs ∈ facts.accesses) (hrhs : rhs ∈ facts.accesses) :
    locationKeyOf other (relabel labels lhs) (relabel labels rhs) = locationKeyOf facts lhs rhs := by
  unfold locationKeyOf
  rw [entriesOf_relabel h hlhs, entriesOf_relabel h hrhs]
  rfl

def PairScan.relabel (labels : AccessFact → Labels) (scan : PairScan) : PairScan :=
  { scan with
    conflictsByLocation := scan.conflictsByLocation.mapValues (LocationConflict.relabel labels) }

theorem record_relabel (scan : PairScan) (hlhs : lhs ∈ facts.accesses) (hrhs : rhs ∈ facts.accesses) :
    record other (scan.relabel labels) (DataRace.relabel labels lhs) (DataRace.relabel labels rhs) =
      (record facts scan lhs rhs).relabel labels := by
  unfold record PairScan.relabel
  dsimp only
  rw [locationKeyOf_relabel h hlhs hrhs,
    OrderedMap.alter_mapValues _ (recordPair_relabel labels lhs rhs)]

theorem conflicts_relabel (hlhs : lhs ∈ facts.accesses) (hrhs : rhs ∈ facts.accesses) :
    Conflicts other (relabel labels lhs) (relabel labels rhs) ↔ Conflicts facts lhs rhs := by
  have hparallel := mayHappenInParallel_relabel h hlhs hrhs
  have hordered := h.ordered lhs hlhs rhs hrhs
  constructor
  · intro hc
    exact ⟨hc.write, hc.overlap, hc.unowned, hc.notBothAtomic, hc.mixedPrecise,
      hparallel ▸ hc.parallel, hc.shared, hc.unlocked, hordered ▸ hc.unpublished⟩
  · intro hc
    exact ⟨hc.write, hc.overlap, hc.unowned, hc.notBothAtomic, hc.mixedPrecise,
      hparallel.symm ▸ hc.parallel, hc.shared, hc.unlocked, hordered.symm ▸ hc.unpublished⟩

theorem comparePair_relabel (scan : PairScan) (hlhs : lhs ∈ facts.accesses)
    (hrhs : rhs ∈ facts.accesses) :
    comparePair other (scan.relabel labels) (relabel labels lhs, relabel labels rhs) =
      (comparePair facts scan (lhs, rhs)).relabel labels := by
  by_cases hc : Conflicts facts lhs rhs
  · rw [comparePair_of_conflicts hc, comparePair_of_conflicts ((conflicts_relabel h hlhs hrhs).mpr hc)]
    by_cases hprecise : isPrecisePair lhs rhs = true
    · rw [if_pos hprecise, if_pos (show isPrecisePair (relabel labels lhs) (relabel labels rhs) = true
        from hprecise)]
      exact record_relabel h { scan with
        preciseConflictSymbols := insert lhs.symbol scan.preciseConflictSymbols } hlhs hrhs
    · rw [if_neg hprecise, if_neg (show ¬isPrecisePair (relabel labels lhs) (relabel labels rhs) = true
        from hprecise)]
      by_cases hseen : lhs.symbol ∈ scan.preciseConflictSymbols
      · rw [if_pos hseen]
        exact if_pos hseen
      · rw [if_neg hseen, ← record_relabel h _ hlhs hrhs]
        exact if_neg hseen
  · rw [comparePair_of_not hc, comparePair_of_not ((conflicts_relabel h hlhs hrhs).not.mpr hc)]

theorem comparePairs_relabel (pairs : List (AccessFact × AccessFact)) (scan : PairScan)
    (hpairs : ∀ pair ∈ pairs, pair.1 ∈ facts.accesses ∧ pair.2 ∈ facts.accesses) :
    (pairs.map (Prod.map (relabel labels) (relabel labels))).foldl (comparePair other)
        (scan.relabel labels) = (pairs.foldl (comparePair facts) scan).relabel labels := by
  induction pairs generalizing scan with
  | nil => rfl
  | cons pair pairs ih =>
      obtain ⟨hlhs, hrhs⟩ := hpairs pair List.mem_cons_self
      rw [List.map_cons, List.foldl_cons, List.foldl_cons]
      have hone : comparePair other (scan.relabel labels) (pair.map (relabel labels) (relabel labels)) =
          (comparePair facts scan pair).relabel labels := comparePair_relabel h scan hlhs hrhs
      rw [hone]
      exact ih _ fun pair hpair => hpairs pair (List.mem_cons_of_mem _ hpair)

theorem compareWithItself_relabel (scan : PairScan) (haccess : access ∈ facts.accesses) :
    compareWithItself other (scan.relabel labels) (relabel labels access) =
      (compareWithItself facts scan access).relabel labels := by
  have hkeys : (scan.relabel labels).conflictsByLocation.keys = scan.conflictsByLocation.keys :=
    OrderedMap.keys_mapValues _ _
  unfold compareWithItself
  rw [racesWithItself_relabel h haccess, locationKeyOf_relabel h haccess haccess, hkeys]
  have hwrite : (!isWrite (relabel labels access) || (relabel labels access).isAtomic) =
      (!isWrite access || access.isAtomic) := rfl
  have hlocks : shareRecognizedLock (relabel labels access) (relabel labels access) =
      shareRecognizedLock access access := rfl
  have hprecise : (!isPrecisePair (relabel labels access) (relabel labels access) &&
      decide ((relabel labels access).symbol ∈ (scan.relabel labels).preciseConflictSymbols)) =
        (!isPrecisePair access access && decide (access.symbol ∈ scan.preciseConflictSymbols)) := rfl
  rw [hwrite, hlocks, hprecise]
  split
  · rfl
  · split
    · rfl
    · split
      · rfl
      · split
        · rfl
        · split
          · rfl
          · unfold PairScan.relabel
            dsimp only
            rw [← OrderedMap.alter_mapValues]
            exact fun _ => rfl

theorem comparesWithItself_relabel (accesses : List AccessFact) (scan : PairScan)
    (haccesses : ∀ access ∈ accesses, access ∈ facts.accesses) :
    (accesses.map (relabel labels)).foldl (compareWithItself other) (scan.relabel labels) =
      (accesses.foldl (compareWithItself facts) scan).relabel labels := by
  induction accesses generalizing scan with
  | nil => rfl
  | cons access accesses ih =>
      rw [List.map_cons, List.foldl_cons, List.foldl_cons,
        compareWithItself_relabel h scan (haccesses access List.mem_cons_self)]
      exact ih _ fun access haccess => haccesses access (List.mem_cons_of_mem _ haccess)

theorem participating_relabel :
    participating other = (participating facts).map (relabel labels) := by
  unfold participating
  rw [h.accesses, List.filter_map]
  congr 1
  exact List.filter_congr fun access haccess => participates_relabel h haccess

theorem symbols_relabel : symbols other = symbols facts := by
  unfold symbols
  rw [participating_relabel h, List.map_map]
  rfl

theorem accessesOf_relabel (symbol : String) :
    accessesOf other symbol = (accessesOf facts symbol).map (relabel labels) := by
  unfold accessesOf
  rw [participating_relabel h, List.filter_map]
  rfl

omit h in
theorem orderedPairs_map {α β : Type*} (change : α → β) (values : List α) :
    orderedPairs (values.map change) = (orderedPairs values).map (Prod.map change change) := by
  induction values with
  | nil => rfl
  | cons first rest ih =>
      rw [List.map_cons, orderedPairs, orderedPairs, List.map_append, ih, List.map_map, List.map_map]
      rfl

omit h in
theorem mem_of_accessesOf {symbol : String} (haccess : access ∈ accessesOf facts symbol) :
    access ∈ facts.accesses :=
  List.mem_of_mem_filter (List.mem_of_mem_filter haccess)

theorem conflictsByLocation_relabel (symbol : String) :
    conflictsByLocation other symbol =
      (conflictsByLocation facts symbol).mapValues (LocationConflict.relabel labels) := by
  have hpairs (pair : AccessFact × AccessFact) (hpair : pair ∈ orderedPairs (accessesOf facts symbol)) :
      pair.1 ∈ facts.accesses ∧ pair.2 ∈ facts.accesses := by
    obtain ⟨_, _, _, hlhs, hrhs, _, _⟩ := twoAccesses_of_mem hpair
    exact ⟨List.mem_of_getElem? hlhs, List.mem_of_getElem? hrhs⟩
  have hempty : ({} : PairScan) = ({} : PairScan).relabel labels := rfl
  unfold conflictsByLocation
  dsimp only
  rw [accessesOf_relabel h, orderedPairs_map, hempty, comparePairs_relabel h _ _ hpairs,
    comparesWithItself_relabel h _ _ fun _ => mem_of_accessesOf]
  rfl

theorem diagnostic_relabel {conflict : LocationConflict} (hlhs : conflict.lhs ∈ facts.accesses)
    (hrhs : conflict.rhs ∈ facts.accesses) :
    (conflict.relabel labels).diagnostic other = conflict.diagnostic facts := by
  have hkinds : collectConflictKinds (relabel labels conflict.lhs) (relabel labels conflict.rhs)
      (entriesOf conflict.lhs facts) (entriesOf conflict.rhs facts) other =
        collectConflictKinds conflict.lhs conflict.rhs (entriesOf conflict.lhs facts)
          (entriesOf conflict.rhs facts) facts := by
    unfold collectConflictKinds
    rw [shareSelfConcurrentEntry_relabel h hlhs]
    rfl
  unfold LocationConflict.diagnostic LocationConflict.relabel pairDiagnostic
  dsimp only
  rw [entriesOf_relabel h hlhs, entriesOf_relabel h hrhs, hkinds]
  rfl

theorem selfConcurrentDiagnostic_relabel (haccess : access ∈ facts.accesses) :
    selfConcurrentDiagnostic (relabel labels access) other = selfConcurrentDiagnostic access facts := by
  unfold selfConcurrentDiagnostic
  rw [entriesOf_relabel h haccess]
  rfl

theorem isSelfConcurrentWrite_relabel (haccess : access ∈ facts.accesses) :
    isSelfConcurrentWrite other (relabel labels access) = isSelfConcurrentWrite facts access := by
  unfold isSelfConcurrentWrite
  rw [entriesOf_relabel h haccess, isSelfConcurrent_alike h.toAnswerAlike (h.entries access haccess)]
  rfl

theorem symbolDiagnostics_relabel (symbol : String) :
    symbolDiagnostics other symbol = symbolDiagnostics facts symbol := by
  obtain ⟨scan, hscan, hscanned⟩ := scanned_symbol facts symbol
  have hshown (entry) (hentry : entry ∈ (conflictsByLocation facts symbol).entries) :
      entry.2.lhs ∈ facts.accesses ∧ entry.2.rhs ∈ facts.accesses := by
    rw [← hscan] at hentry
    rcases hscanned.genuine entry hentry with ⟨hpair, _⟩ | ⟨hsame, halone, _⟩
    · obtain ⟨_, _, _, hlhs, hrhs, _, _⟩ := twoAccesses_of_mem hpair
      exact ⟨List.mem_of_getElem? hlhs, List.mem_of_getElem? hrhs⟩
    · exact ⟨mem_of_accessesOf halone, hsame ▸ mem_of_accessesOf halone⟩
  have hfirst : ((accessesOf other symbol).find? (isSelfConcurrentWrite other)).map
        (selfConcurrentDiagnostic · other) =
      ((accessesOf facts symbol).find? (isSelfConcurrentWrite facts)).map
        (selfConcurrentDiagnostic · facts) := by
    have hsame : ∀ access ∈ accessesOf facts symbol,
        (isSelfConcurrentWrite other ∘ relabel labels) access = isSelfConcurrentWrite facts access :=
      fun access haccess => isSelfConcurrentWrite_relabel h (mem_of_accessesOf haccess)
    rw [accessesOf_relabel h, List.find?_map, Option.map_map, List.find?_congr hsame]
    refine Option.map_congr fun access haccess => ?_
    exact selfConcurrentDiagnostic_relabel h (mem_of_accessesOf (List.mem_of_find?_eq_some haccess))
  unfold symbolDiagnostics
  dsimp only
  rw [conflictsByLocation_relabel h, hfirst]
  unfold OrderedMap.mapValues
  dsimp only
  have hdiagnostics : (((conflictsByLocation facts symbol).entries.map fun entry =>
        (entry.1, entry.2.relabel labels)).map Prod.snd).map (·.diagnostic other) =
      ((conflictsByLocation facts symbol).entries.map Prod.snd).map (·.diagnostic facts) := by
    rw [List.map_map, List.map_map, List.map_map]
    exact List.map_congr_left fun entry hentry =>
      diagnostic_relabel h (hshown entry hentry).1 (hshown entry hentry).2
  rw [hdiagnostics, List.isEmpty_map, List.isEmpty_map, List.isEmpty_map]

-- The checker finds the same in facts whose accesses are relabelled.
theorem run_relabel : run other = run facts := by
  unfold run
  rw [symbols_relabel h]
  congr 1
  exact List.flatMap_congr fun symbol _ => symbolDiagnostics_relabel h symbol

end Scans

end ConcurrencyAnalyzer.DataRace
