import ConcurrencyAnalyzer.DataRace.Precision
import Mathlib.Data.List.Perm.Subperm
import Mathlib.Data.List.Permutation

namespace ConcurrencyAnalyzer.DataRace

open Library

-- The facts with another list of accesses.
def withAccesses (facts : TUFacts) (accesses : List AccessFact) : TUFacts :=
  { facts with accesses := accesses }

-- A write of a symbol that two threads of one entry make.
def SharedEntryConflict (facts : TUFacts) (symbol : String) (access : AccessFact) : Prop :=
  OneAccess facts symbol access ∧ SelfConcurrentWrite facts access

section Reordered

variable {facts : TUFacts} {symbol : String} {lhs rhs access : AccessFact}
  {accesses : List AccessFact}

theorem pair_sublist_iff {α : Type*} {elements : List α} {first second : α} :
    (first, second) ∈ orderedPairs elements ↔ [first, second].Sublist elements := by
  induction elements with
  | nil => simp [orderedPairs]
  | cons head rest ih =>
      rw [orderedPairs, List.mem_append, ih, List.sublist_cons_iff, or_comm]
      simp [eq_comm, and_comm]

theorem pair_subperm_iff {α : Type*} {elements : List α} {first second : α} :
    [first, second].Subperm elements ↔
      (first, second) ∈ orderedPairs elements ∨ (second, first) ∈ orderedPairs elements := by
  rw [pair_sublist_iff, pair_sublist_iff]
  constructor
  · rintro ⟨pair, hperm, hsub⟩
    rcases List.perm_pair.mp hperm with rfl | rfl
    · exact Or.inl hsub
    · exact Or.inr hsub
  · rintro (h | h)
    · exact h.subperm
    · exact ⟨_, List.Perm.swap _ _ _, h⟩

theorem twoAccesses_iff_subperm : TwoAccesses facts symbol lhs rhs ↔
    [lhs, rhs].Subperm facts.accesses ∧ (participates lhs facts = true ∧ lhs.symbol = symbol) ∧
      (participates rhs facts = true ∧ rhs.symbol = symbol) := by
  rw [pair_subperm_iff, mem_orderedPairs, mem_orderedPairs]
  constructor
  · rintro ⟨i, j, hne, hi, hj, hl, hr⟩
    refine ⟨?_, hl, hr⟩
    rcases Nat.lt_or_gt_of_ne hne with hlt | hlt
    · exact Or.inl ⟨i, j, hlt, hi, hj⟩
    · exact Or.inr ⟨j, i, hlt, hj, hi⟩
  · rintro ⟨⟨i, j, hlt, hi, hj⟩ | ⟨i, j, hlt, hi, hj⟩, hl, hr⟩
    · exact ⟨i, j, hlt.ne, hi, hj, hl, hr⟩
    · exact ⟨j, i, hlt.ne', hj, hi, hl, hr⟩

-- Whether two accesses conflict is not a matter of the list they are in.
theorem conflicts_withAccesses :
    Conflicts (withAccesses facts accesses) lhs rhs ↔ Conflicts facts lhs rhs :=
  ⟨fun h => ⟨h.write, h.overlap, h.unowned, h.notBothAtomic, h.mixedPrecise, h.parallel, h.shared,
      h.unlocked, h.unpublished⟩,
    fun h => ⟨h.write, h.overlap, h.unowned, h.notBothAtomic, h.mixedPrecise, h.parallel, h.shared,
      h.unlocked, h.unpublished⟩⟩

theorem racesAlone_withAccesses :
    RacesAlone (withAccesses facts accesses) access ↔ RacesAlone facts access :=
  ⟨fun h => ⟨h.write, h.plain, h.races, h.unlocked⟩,
    fun h => ⟨h.write, h.plain, h.races, h.unlocked⟩⟩

theorem selfConcurrentWrite_withAccesses :
    SelfConcurrentWrite (withAccesses facts accesses) access ↔ SelfConcurrentWrite facts access :=
  ⟨fun h => ⟨h.write, h.plain, h.selfConcurrent, h.unowned, h.overlap, h.unlocked⟩,
    fun h => ⟨h.write, h.plain, h.selfConcurrent, h.unowned, h.overlap, h.unlocked⟩⟩

theorem pairConflict_reordered (hperm : accesses.Perm facts.accesses) :
    PairConflict (withAccesses facts accesses) symbol lhs rhs ↔
      PairConflict facts symbol lhs rhs := by
  unfold PairConflict
  rw [twoAccesses_iff_subperm, twoAccesses_iff_subperm, conflicts_withAccesses]
  have hsub : [lhs, rhs].Subperm (withAccesses facts accesses).accesses ↔
      [lhs, rhs].Subperm facts.accesses := hperm.subperm_left
  rw [hsub]
  exact Iff.rfl

theorem oneAccess_reordered (hperm : accesses.Perm facts.accesses) :
    OneAccess (withAccesses facts accesses) symbol access ↔ OneAccess facts symbol access :=
  and_congr_left' hperm.mem_iff

theorem aloneConflict_reordered (hperm : accesses.Perm facts.accesses) :
    AloneConflict (withAccesses facts accesses) symbol access ↔
      AloneConflict facts symbol access := by
  rw [AloneConflict, AloneConflict, oneAccess_reordered hperm, racesAlone_withAccesses]

theorem sharedEntryConflict_reordered (hperm : accesses.Perm facts.accesses) :
    SharedEntryConflict (withAccesses facts accesses) symbol access ↔
      SharedEntryConflict facts symbol access := by
  rw [SharedEntryConflict, SharedEntryConflict, oneAccess_reordered hperm,
    selfConcurrentWrite_withAccesses]

theorem accessesOf_cons (hp : participates access facts = true) (hs : access.symbol = symbol)
    (rest : List AccessFact) : accessesOf (withAccesses facts (access :: rest)) symbol =
      access :: accessesOf (withAccesses facts rest) symbol := by
  have hfilter : ∀ accesses, accessesOf (withAccesses facts accesses) symbol =
      (accesses.filter (participates · facts)).filter (·.symbol = symbol) := fun _ => rfl
  have hkept : (access :: rest).filter (participates · facts) =
      access :: rest.filter (participates · facts) := List.filter_cons_of_pos hp
  rw [hfilter, hfilter, hkept, List.filter_cons_of_pos (by simpa using hs)]

-- The accesses can be listed with any one of them first, and with any two.
theorem OneAccess.first (h : OneAccess facts symbol access) :
    ∃ accesses rest, accesses.Perm facts.accesses ∧
      accessesOf (withAccesses facts accesses) symbol = access :: rest := by
  obtain ⟨hm, hp, hs⟩ := h
  obtain ⟨before, after, heq⟩ := List.append_of_mem hm
  exact ⟨access :: (before ++ after), _, heq ▸ List.perm_middle.symm, accessesOf_cons hp hs _⟩

theorem TwoAccesses.first (h : TwoAccesses facts symbol lhs rhs) :
    ∃ accesses rest, accesses.Perm facts.accesses ∧
      accessesOf (withAccesses facts accesses) symbol = lhs :: rhs :: rest := by
  obtain ⟨⟨pair, hpair, hsub⟩, hl, hr⟩ := twoAccesses_iff_subperm.mp h
  obtain ⟨others, hothers⟩ := hsub.exists_perm_append
  have hfirst : accessesOf (withAccesses facts (lhs :: rhs :: others)) symbol =
      lhs :: rhs :: accessesOf (withAccesses facts others) symbol := by
    rw [accessesOf_cons hl.1 hl.2, accessesOf_cons hr.1 hr.2]
  exact ⟨lhs :: rhs :: others, _, (hothers.trans (hpair.append_right others)).symm, hfirst⟩

end Reordered

-- The pairs of accesses the diagnostics of a symbol show.
def Reports (facts : TUFacts) (symbol : String) (lhs rhs : AccessFact) : Prop :=
  (∃ entry ∈ (conflictsByLocation facts symbol).entries, entry.2.lhs = lhs ∧ entry.2.rhs = rhs) ∨
    ((conflictsByLocation facts symbol).entries = [] ∧ lhs = rhs ∧
      (accessesOf facts symbol).find? (isSelfConcurrentWrite facts) = some lhs)

-- Each diagnostic of a symbol shows one of these pairs, and each pair is shown.
theorem symbolDiagnostics_show (facts : TUFacts) (symbol : String) :
    (∀ diagnostic ∈ symbolDiagnostics facts symbol, ∃ lhs rhs, Reports facts symbol lhs rhs ∧
      ((∃ additional sites, diagnostic = pairDiagnostic lhs rhs facts additional sites) ∨
        diagnostic = selfConcurrentDiagnostic lhs facts)) ∧
    ∀ lhs rhs, Reports facts symbol lhs rhs → ∃ diagnostic ∈ symbolDiagnostics facts symbol,
      (∃ additional sites, diagnostic = pairDiagnostic lhs rhs facts additional sites) ∨
        diagnostic = selfConcurrentDiagnostic lhs facts := by
  unfold symbolDiagnostics
  dsimp only
  split
  · rename_i hsome
    simp only [Bool.not_eq_true'] at hsome
    refine ⟨?_, ?_⟩
    · intro diagnostic hd
      simp only [List.map_map, List.mem_map, Function.comp_apply] at hd
      obtain ⟨entry, he, rfl⟩ := hd
      exact ⟨_, _, Or.inl ⟨entry, he, rfl, rfl⟩, Or.inl ⟨_, _, rfl⟩⟩
    · rintro lhs rhs (⟨entry, he, rfl, rfl⟩ | ⟨hnil, _⟩)
      · exact ⟨_, List.mem_map_of_mem (List.mem_map_of_mem he), Or.inl ⟨_, _, rfl⟩⟩
      · simp [hnil] at hsome
  · rename_i hnone
    have hnil : (conflictsByLocation facts symbol).entries = [] := by simpa using hnone
    refine ⟨?_, ?_⟩
    · intro diagnostic hd
      rw [Option.mem_toList, Option.map_eq_some_iff] at hd
      obtain ⟨access, hfind, rfl⟩ := hd
      exact ⟨access, access, Or.inr ⟨hnil, rfl, hfind⟩, Or.inr rfl⟩
    · rintro lhs rhs (⟨entry, he, _⟩ | ⟨_, rfl, hfind⟩)
      · rw [hnil] at he
        cases he
      · rw [hfind]
        exact ⟨_, List.mem_singleton_self _, Or.inr rfl⟩

-- A conflict of the symbol of any of the three kinds, seen rather than approximated.
def HasPreciseConflict (facts : TUFacts) (symbol : String) : Prop :=
  HasPrecisePair facts symbol ∨ ∃ access, isPrecisePair access access = true ∧
    (AloneConflict facts symbol access ∨ SharedEntryConflict facts symbol access)

-- A location of a symbol that some diagnostic of it is about.
def ReportsAt (facts : TUFacts) (symbol key : String) : Prop :=
  ∃ lhs rhs, Reports facts symbol lhs rhs ∧ locationKeyOf facts lhs rhs = key

-- Under every order of the accesses the same locations are reported, and nothing approximate is
-- beside a precise conflict.
structure OrderIndependent (facts : TUFacts) : Prop where
  sameLocations : ∀ accesses, accesses.Perm facts.accesses → ∀ symbol key,
    ReportsAt (withAccesses facts accesses) symbol key ↔ ReportsAt facts symbol key
  preciseOnly : ∀ accesses, accesses.Perm facts.accesses → ∀ symbol lhs rhs,
    Reports (withAccesses facts accesses) symbol lhs rhs → HasPreciseConflict facts symbol →
      isPrecisePair lhs rhs = true

-- Each approximate conflict is beside a precise pair at its own location, or beside nothing
-- precise.
structure GuessesCovered (facts : TUFacts) : Prop where
  besidePair : ∀ symbol, HasPrecisePair facts symbol → ∀ lhs rhs,
    PairConflict facts symbol lhs rhs → isPrecisePair lhs rhs = false →
    ∃ first second, PairConflict facts symbol first second ∧
      isPrecisePair first second = true ∧
      locationKeyOf facts first second = locationKeyOf facts lhs rhs
  besideAlone : ∀ symbol, ¬HasPrecisePair facts symbol → HasPreciseConflict facts symbol →
    (∀ lhs rhs, ¬PairConflict facts symbol lhs rhs) ∧
    (∀ access, AloneConflict facts symbol access → isPrecisePair access access = true) ∧
    (¬HasConflict facts symbol → ∀ access, SharedEntryConflict facts symbol access →
      isPrecisePair access access = true)

-- Where nothing else conflicts, one write shared by threads of an entry is reported: it does not matter
-- which.
structure NothingLeftToOrder (facts : TUFacts) : Prop extends GuessesCovered facts where
  oneLocation : ∀ symbol, ¬HasConflict facts symbol → ∀ access other,
    SharedEntryConflict facts symbol access → SharedEntryConflict facts symbol other →
      locationKeyOf facts access access = locationKeyOf facts other other

section Locations

variable {facts : TUFacts} {symbol : String} {lhs rhs access : AccessFact}

-- The locations reported, said without the order of the accesses.
theorem mem_keys_iff_of_covered (hcovered : GuessesCovered facts) (key : String) :
    key ∈ (conflictsByLocation facts symbol).keys ↔
      (∃ lhs rhs, PairConflict facts symbol lhs rhs ∧ key = locationKeyOf facts lhs rhs ∧
        (HasPrecisePair facts symbol → isPrecisePair lhs rhs = true)) ∨
      ∃ access, AloneConflict facts symbol access ∧ key = locationKeyOf facts access access ∧
        (HasPrecisePair facts symbol → isPrecisePair access access = true) := by
  have hreported : ∀ {lhs rhs : AccessFact},
      (HasPrecisePair facts symbol → isPrecisePair lhs rhs = true) →
      (key ∈ (conflictsByLocation facts symbol).keys ∨ (isPrecisePair lhs rhs = false ∧
        ∃ first second, TwoAccesses facts symbol first second ∧ Conflicts facts first second ∧
          isPrecisePair first second = true ∧
          locationKeyOf facts first second ∈ (conflictsByLocation facts symbol).keys)) →
      key ∈ (conflictsByLocation facts symbol).keys := by
    rintro lhs rhs hprecise (hk | ⟨hguess, first, second, htwo, hc, hp, _⟩)
    · exact hk
    · simp [hprecise ⟨first, second, ⟨htwo, hc⟩, hp⟩] at hguess
  constructor
  · intro hk
    obtain ⟨conflict, he⟩ := (OrderedMap.mem_keys_iff _ _).mp hk
    rcases shown_conflict he with ⟨hpair, hkey, _⟩ | ⟨access, ha, _, _, hkey, hprecise⟩
    · left
      by_cases hguess : HasPrecisePair facts symbol ∧
          isPrecisePair conflict.lhs conflict.rhs = false
      · obtain ⟨first, second, hfirst, hp, hsame⟩ :=
          hcovered.besidePair symbol hguess.1 _ _ hpair hguess.2
        exact ⟨first, second, hfirst, hkey.trans hsame.symm, fun _ => hp⟩
      · refine ⟨_, _, hpair, hkey, fun hpp => ?_⟩
        by_contra hp
        exact hguess ⟨hpp, by simpa using hp⟩
    · exact Or.inr ⟨access, ha, hkey, hprecise⟩
  · rintro (⟨lhs, rhs, hpair, rfl, hprecise⟩ | ⟨access, ha, rfl, hprecise⟩)
    · exact hreported hprecise (conflict_reported hpair.1 hpair.2)
    · exact hreported hprecise (alone_reported ha.1 ha.2)

theorem reportsAt_iff (facts : TUFacts) (symbol key : String) : ReportsAt facts symbol key ↔
    key ∈ (conflictsByLocation facts symbol).keys ∨
      ((conflictsByLocation facts symbol).entries = [] ∧
        ∃ access, (accessesOf facts symbol).find? (isSelfConcurrentWrite facts) = some access ∧
          locationKeyOf facts access access = key) := by
  have hshown {entry : String × LocationConflict}
      (he : entry ∈ (conflictsByLocation facts symbol).entries) :
      entry.1 = locationKeyOf facts entry.2.lhs entry.2.rhs := by
    rcases shown_conflict he with ⟨_, hkey, _⟩ | ⟨access, _, hl, hr, hkey, _⟩
    · exact hkey
    · rw [hl, hr]
      exact hkey
  constructor
  · rintro ⟨lhs, rhs, ⟨entry, he, rfl, rfl⟩ | ⟨hnil, rfl, hfind⟩, rfl⟩
    · exact .inl (hshown he ▸ (OrderedMap.mem_keys_iff _ _).mpr ⟨entry.2, he⟩)
    · exact .inr ⟨hnil, lhs, hfind, rfl⟩
  · rintro (hk | ⟨hnil, access, hfind, rfl⟩)
    · obtain ⟨conflict, he⟩ := (OrderedMap.mem_keys_iff _ _).mp hk
      exact ⟨conflict.lhs, conflict.rhs, .inl ⟨_, he, rfl, rfl⟩, (hshown he).symm⟩
    · exact ⟨access, access, .inr ⟨hnil, rfl, hfind⟩, rfl⟩

theorem reportsAt_of_conflict (h : HasConflict facts symbol) (key : String) :
    ReportsAt facts symbol key ↔ key ∈ (conflictsByLocation facts symbol).keys := by
  rw [reportsAt_iff]
  exact or_iff_left fun hnil => (entries_eq_nil_iff facts symbol).mp hnil.1 h

theorem sharedEntryConflict_of_find?
    (h : (accessesOf facts symbol).find? (isSelfConcurrentWrite facts) = some access) :
    SharedEntryConflict facts symbol access :=
  ⟨mem_accessesOf.mp (List.mem_of_find?_eq_some h), isSelfConcurrentWrite_iff.mp (List.find?_some h)⟩

-- Where nothing else conflicts, the first write that threads of one entry share is reported.
theorem reportsAt_of_no_conflict (h : ¬HasConflict facts symbol) (key : String) :
    ReportsAt facts symbol key ↔
      ∃ access, (accessesOf facts symbol).find? (isSelfConcurrentWrite facts) = some access ∧
        locationKeyOf facts access access = key := by
  have hnil := (entries_eq_nil_iff facts symbol).mpr h
  rw [reportsAt_iff]
  constructor
  · rintro (hk | ⟨_, haccess⟩)
    · obtain ⟨conflict, he⟩ := (OrderedMap.mem_keys_iff _ _).mp hk
      rw [hnil] at he
      cases he
    · exact haccess
  · exact fun haccess => .inr ⟨hnil, haccess⟩

theorem NothingLeftToOrder.reportsAt_iff (hnothing : NothingLeftToOrder facts)
    (h : ¬HasConflict facts symbol) (key : String) : ReportsAt facts symbol key ↔
      ∃ access, SharedEntryConflict facts symbol access ∧ locationKeyOf facts access access = key := by
  rw [reportsAt_of_no_conflict h]
  constructor
  · rintro ⟨access, hfind, hkey⟩
    exact ⟨access, sharedEntryConflict_of_find? hfind, hkey⟩
  · rintro ⟨access, hshared, rfl⟩
    cases hfind : (accessesOf facts symbol).find? (isSelfConcurrentWrite facts) with
    | none =>
        have hnot := List.find?_eq_none.mp hfind access (mem_accessesOf.mpr hshared.1)
        exact absurd (isSelfConcurrentWrite_iff.mpr hshared.2) hnot
    | some first =>
        exact ⟨first, rfl, hnothing.oneLocation symbol h first access
          (sharedEntryConflict_of_find? hfind) hshared⟩

theorem preciseOnly_of_covered (hcovered : GuessesCovered facts)
    (hreports : Reports facts symbol lhs rhs) (hprecise : HasPreciseConflict facts symbol) :
    isPrecisePair lhs rhs = true := by
  rcases hreports with ⟨entry, he, rfl, rfl⟩ | ⟨hnil, rfl, hfind⟩
  · rcases shown_conflict he with ⟨hpair, hkey, hshown⟩ | ⟨access, ha, hl, hr, _, hshown⟩
    · by_cases hpp : HasPrecisePair facts symbol
      · cases hp : isPrecisePair entry.2.lhs entry.2.rhs with
        | true => rfl
        | false =>
            obtain ⟨first, second, hfirst, hfp, hsame⟩ :=
              hcovered.besidePair symbol hpp _ _ hpair hp
            rw [← hp]
            exact hshown first second hfirst hfp (hsame.trans hkey.symm)
      · exact absurd hpair ((hcovered.besideAlone symbol hpp hprecise).1 _ _)
    · rw [hl, hr]
      by_cases hpp : HasPrecisePair facts symbol
      · exact hshown hpp
      · exact (hcovered.besideAlone symbol hpp hprecise).2.1 access ha
  · have hnone := (entries_eq_nil_iff facts symbol).mp hnil
    have hpp : ¬HasPrecisePair facts symbol := by
      rintro ⟨first, second, hpair, _⟩
      exact hnone (Or.inl ⟨first, second, hpair⟩)
    exact (hcovered.besideAlone symbol hpp hprecise).2.2 hnone lhs (sharedEntryConflict_of_find? hfind)

-- Two accesses put first are shown, or a pair with their location.
theorem first_pair_shown {rest : List AccessFact} (hc : Conflicts facts lhs rhs)
    (hfirst : accessesOf facts symbol = lhs :: rhs :: rest) :
    ∃ entry ∈ (conflictsByLocation facts symbol).entries,
      entry.1 = locationKeyOf facts lhs rhs ∧
        PairConflict facts symbol entry.2.lhs entry.2.rhs := by
  have hkey : locationKeyOf facts lhs rhs ∈ (pairScan facts symbol).conflictsByLocation.keys := by
    rw [pairScan, hfirst, orderedPairs, List.map_cons, List.cons_append]
    exact first_pair_recorded hc _
  obtain ⟨conflict, he⟩ := (OrderedMap.mem_keys_iff _ _).mp hkey
  have hextended := extended_alone facts (pairScan facts symbol) (accessesOf facts symbol)
  exact ⟨_, hextended.kept _ he, rfl, (pairScan_entry he).1⟩

-- A single access put first is shown, or a pair with its location.
theorem first_alone_shown {rest : List AccessFact} (ha : RacesAlone facts access)
    (hsymbol : access.symbol = symbol) (hpp : ¬HasPrecisePair facts symbol)
    (hfirst : accessesOf facts symbol = access :: rest) :
    ∃ entry ∈ (conflictsByLocation facts symbol).entries,
      PairConflict facts symbol entry.2.lhs entry.2.rhs ∨
        (entry.2.lhs = access ∧ entry.2.rhs = access) := by
  have hunseen : access.symbol ∉ (pairScan facts symbol).preciseConflictSymbols := by
    rw [hsymbol]
    exact fun hseen => hpp (seen_iff.mp hseen)
  have hkey : locationKeyOf facts access access ∈
      (compareWithItself facts (pairScan facts symbol) access).conflictsByLocation.keys :=
    first_alone_recorded ha (Or.inr hunseen)
  obtain ⟨conflict, he⟩ := (OrderedMap.mem_keys_iff _ _).mp hkey
  have hone := extended_alone facts (pairScan facts symbol) [access]
  have hrest := extended_alone facts
    (compareWithItself facts (pairScan facts symbol) access) rest
  have hfold : conflictsByLocation facts symbol = (rest.foldl (compareWithItself facts)
      (compareWithItself facts (pairScan facts symbol) access)).conflictsByLocation := by
    rw [conflictsByLocation, pairScan, hfirst]
    rfl
  refine ⟨_, hfold ▸ hrest.kept _ he, ?_⟩
  rcases hone.added _ he with hm | ⟨other, ho, _, heq, _⟩
  · exact Or.inl (pairScan_entry hm).1
  · rw [List.mem_singleton] at ho
    subst ho
    rw [Prod.mk.injEq] at heq
    rw [heq.2]
    exact Or.inr ⟨rfl, rfl⟩

section Reorderings

variable {accesses : List AccessFact}

theorem hasPrecisePair_reordered (hperm : accesses.Perm facts.accesses) :
    HasPrecisePair (withAccesses facts accesses) symbol ↔ HasPrecisePair facts symbol := by
  simp only [HasPrecisePair, pairConflict_reordered hperm]

theorem hasPreciseConflict_reordered (hperm : accesses.Perm facts.accesses) :
    HasPreciseConflict (withAccesses facts accesses) symbol ↔ HasPreciseConflict facts symbol := by
  simp only [HasPreciseConflict, hasPrecisePair_reordered hperm, aloneConflict_reordered hperm,
    sharedEntryConflict_reordered hperm]

theorem hasConflict_iff : HasConflict facts symbol ↔
    (∃ lhs rhs, PairConflict facts symbol lhs rhs) ∨
      ∃ access, AloneConflict facts symbol access := Iff.rfl

theorem hasConflict_reordered (hperm : accesses.Perm facts.accesses) :
    HasConflict (withAccesses facts accesses) symbol ↔ HasConflict facts symbol := by
  simp only [hasConflict_iff, pairConflict_reordered hperm, aloneConflict_reordered hperm]

theorem GuessesCovered.reordered (hcovered : GuessesCovered facts)
    (hperm : accesses.Perm facts.accesses) : GuessesCovered (withAccesses facts accesses) where
  besidePair := by
    intro symbol hpp lhs rhs hpair hguess
    rw [hasPrecisePair_reordered hperm] at hpp
    rw [pairConflict_reordered hperm] at hpair
    obtain ⟨first, second, hfirst, hp, hkey⟩ := hcovered.besidePair symbol hpp lhs rhs hpair hguess
    exact ⟨first, second, (pairConflict_reordered hperm).mpr hfirst, hp, hkey⟩
  besideAlone := by
    intro symbol hpp hprecise
    rw [hasPrecisePair_reordered hperm] at hpp
    rw [hasPreciseConflict_reordered hperm] at hprecise
    simp only [pairConflict_reordered hperm, aloneConflict_reordered hperm,
      hasConflict_reordered hperm, sharedEntryConflict_reordered hperm]
    exact hcovered.besideAlone symbol hpp hprecise

theorem NothingLeftToOrder.reordered (hnothing : NothingLeftToOrder facts)
    (hperm : accesses.Perm facts.accesses) : NothingLeftToOrder (withAccesses facts accesses) where
  toGuessesCovered := hnothing.toGuessesCovered.reordered hperm
  oneLocation := by
    intro symbol hnone access other haccess hother
    rw [hasConflict_reordered hperm] at hnone
    rw [sharedEntryConflict_reordered hperm] at haccess hother
    exact hnothing.oneLocation symbol hnone access other haccess hother

end Reorderings

-- An approximate pair can be met first, and is then reported.
theorem OrderIndependent.besidePair (h : OrderIndependent facts)
    (hprecise : HasPreciseConflict facts symbol) (hpair : PairConflict facts symbol lhs rhs) :
    ∃ first second, PairConflict facts symbol first second ∧
      isPrecisePair first second = true ∧
      locationKeyOf facts first second = locationKeyOf facts lhs rhs := by
  obtain ⟨accesses, rest, hperm, hfirst⟩ := hpair.1.first
  obtain ⟨entry, he, hkey, hshown⟩ :=
    first_pair_shown (conflicts_withAccesses.mpr hpair.2) hfirst
  refine ⟨entry.2.lhs, entry.2.rhs, (pairConflict_reordered hperm).mp hshown, ?_, ?_⟩
  · exact h.preciseOnly accesses hperm symbol _ _ (Or.inl ⟨entry, he, rfl, rfl⟩) hprecise
  · rcases shown_conflict he with ⟨_, hentry, _⟩ | ⟨access, _, hl, hr, hentry, _⟩
    · exact hentry.symm.trans hkey
    · rw [hl, hr]
      exact hentry.symm.trans hkey

theorem covered_of_orderIndependent (h : OrderIndependent facts) : GuessesCovered facts where
  besidePair := fun symbol hpp lhs rhs hpair _ => h.besidePair (Or.inl hpp) hpair
  besideAlone := by
    intro symbol hpp hprecise
    have hnopair : ∀ lhs rhs, ¬PairConflict facts symbol lhs rhs := by
      intro lhs rhs hpair
      obtain ⟨first, second, hfirst, hp, _⟩ := h.besidePair hprecise hpair
      exact hpp ⟨first, second, hfirst, hp⟩
    refine ⟨hnopair, ?_, ?_⟩
    · intro access ha
      obtain ⟨accesses, rest, hperm, hfirst⟩ := ha.1.first
      have hpp' : ¬HasPrecisePair (withAccesses facts accesses) symbol :=
        fun hpair => hpp ((hasPrecisePair_reordered hperm).mp hpair)
      obtain ⟨entry, he, hpair | ⟨hl, hr⟩⟩ :=
        first_alone_shown (racesAlone_withAccesses.mpr ha.2) ha.1.2.2 hpp' hfirst
      · exact absurd ((pairConflict_reordered hperm).mp hpair) (hnopair _ _)
      · exact h.preciseOnly accesses hperm symbol _ _ (Or.inl ⟨entry, he, hl, hr⟩) hprecise
    · intro hnone access hshared
      obtain ⟨accesses, rest, hperm, hfirst⟩ := hshared.1.first
      apply h.preciseOnly accesses hperm symbol access access (Or.inr ⟨?_, rfl, ?_⟩) hprecise
      · rw [entries_eq_nil_iff, hasConflict_reordered hperm]
        exact hnone
      · rw [hfirst, List.find?_cons_of_pos]
        exact isSelfConcurrentWrite_iff.mpr (selfConcurrentWrite_withAccesses.mpr hshared.2)

-- Each write that threads of one entry share can come first, and is then reported where nothing else is.
theorem reportsAt_of_shared (h : OrderIndependent facts) (hnone : ¬HasConflict facts symbol)
    (hshared : SharedEntryConflict facts symbol access) :
    ReportsAt facts symbol (locationKeyOf facts access access) := by
  obtain ⟨accesses, rest, hperm, hfirst⟩ := hshared.1.first
  refine (h.sameLocations accesses hperm symbol _).mp ?_
  rw [reportsAt_of_no_conflict (fun hconflict => hnone ((hasConflict_reordered hperm).mp hconflict))]
  refine ⟨access, ?_, rfl⟩
  rw [hfirst, List.find?_cons_of_pos]
  exact isSelfConcurrentWrite_iff.mpr (selfConcurrentWrite_withAccesses.mpr hshared.2)

theorem oneLocation_of_orderIndependent (h : OrderIndependent facts) : NothingLeftToOrder facts where
  toGuessesCovered := covered_of_orderIndependent h
  oneLocation := by
    intro symbol hnone access other haccess hother
    obtain ⟨first, hfind, hkey⟩ :=
      (reportsAt_of_no_conflict hnone _).mp (reportsAt_of_shared h hnone haccess)
    obtain ⟨second, hfind', hkey'⟩ :=
      (reportsAt_of_no_conflict hnone _).mp (reportsAt_of_shared h hnone hother)
    obtain rfl := Option.some_inj.mp (hfind.symm.trans hfind')
    exact hkey.symm.trans hkey'

-- The accesses' order does not matter exactly when neither an approximate conflict nor the choice of the
-- one write that is shown is left to the order.
theorem order_independent_iff (facts : TUFacts) : OrderIndependent facts ↔ NothingLeftToOrder facts := by
  constructor
  · exact oneLocation_of_orderIndependent
  · intro hnothing
    have hcovered := hnothing.toGuessesCovered
    refine ⟨?_, ?_⟩
    · intro accesses hperm symbol key
      by_cases hconflict : HasConflict facts symbol
      · rw [reportsAt_of_conflict ((hasConflict_reordered hperm).mpr hconflict),
          reportsAt_of_conflict hconflict, mem_keys_iff_of_covered (hcovered.reordered hperm),
          mem_keys_iff_of_covered hcovered]
        simp only [pairConflict_reordered hperm, aloneConflict_reordered hperm,
          hasPrecisePair_reordered hperm]
        exact Iff.rfl
      · rw [(hnothing.reordered hperm).reportsAt_iff
            (fun h => hconflict ((hasConflict_reordered hperm).mp h)), hnothing.reportsAt_iff hconflict]
        simp only [sharedEntryConflict_reordered hperm]
        exact Iff.rfl
    · intro accesses hperm symbol lhs rhs hreports hprecise
      exact preciseOnly_of_covered (hcovered.reordered hperm) hreports
        ((hasPreciseConflict_reordered hperm).mpr hprecise)

end Locations

-- Two threads write a global, one of them also through a call whose effect is only inferred.
def writeBySite (functionId : String) (coarse : Bool) : AccessFact :=
  { symbol := "counter"
    functionId := functionId
    kind := .Write
    region := { hasKnownOffset := !coarse, byteSize := 4 }
    coarseCallEffect := coarse }

def inferredBesideObserved : TUFacts where
  accesses := [writeBySite "first" false, writeBySite "second" false, writeBySite "second" true]
  reachableThreadEntriesByFunction := fun functionId =>
    if functionId = "first" ∨ functionId = "second" then some {functionId} else none

-- The inferred effect is dropped where it comes last and reported where it comes before.
theorem order_changes_report : ¬OrderIndependent inferredBesideObserved := by
  intro h
  have hsame := h.sameLocations
    [writeBySite "first" false, writeBySite "second" true, writeBySite "second" false]
    ((List.Perm.swap _ _ _).cons _) "counter" "counter[*]|first|second"
  rw [reportsAt_iff, reportsAt_iff] at hsame
  rcases hsame.mp (.inl (by decide)) with hkey | ⟨hnil, _⟩
  · exact absurd hkey (by decide)
  · have hone : ((conflictsByLocation inferredBesideObserved "counter").entries).length = 1 := by decide
    rw [hnil] at hone
    cases hone

end ConcurrencyAnalyzer.DataRace
