import ConcurrencyAnalyzer.DataRace.Scan

namespace ConcurrencyAnalyzer.DataRace

open Library

-- The diagnostic names this symbol as the one raced on.
def onSymbol (symbol : String) (diagnostic : Diagnostic) : Bool :=
  diagnostic.propertyAt "symbol" = some (.text symbol)

section Symbols

variable {facts : TUFacts} {symbol : String}

theorem propertyAt_accessProperties (diagnostic : Diagnostic) (lhs rhs : AccessFact)
    (lhsEntries rhsEntries conflictKinds variableAliasing : List String) :
    (accessProperties diagnostic lhs rhs lhsEntries rhsEntries conflictKinds
      variableAliasing).propertyAt "symbol" = some (.text lhs.symbol) := by
  simp [accessProperties, Diagnostic.propertyAt_property_of_ne]

theorem propertyAt_pairDiagnostic (lhs rhs : AccessFact) (facts : TUFacts)
    (additionalConflictingPairs : Nat) (relatedConflictSites : List RelatedLocation) :
    (pairDiagnostic lhs rhs facts additionalConflictingPairs relatedConflictSites).propertyAt
      "symbol" = some (.text lhs.symbol) := by
  simp [pairDiagnostic, Diagnostic.propertyAt_property_of_ne, propertyAt_accessProperties]

theorem propertyAt_selfConcurrentDiagnostic (access : AccessFact) (facts : TUFacts) :
    (selfConcurrentDiagnostic access facts).propertyAt "symbol" = some (.text access.symbol) := by
  simp [selfConcurrentDiagnostic, propertyAt_accessProperties]

-- Each location of a symbol shows two accesses of it that conflict, or one whose runs do.
theorem genuine_conflict {entry : String × LocationConflict}
    (he : entry ∈ (conflictsByLocation facts symbol).entries) :
    entry.1 = locationKeyOf facts entry.2.lhs entry.2.rhs ∧
      ((TwoAccesses facts symbol entry.2.lhs entry.2.rhs ∧
          Conflicts facts entry.2.lhs entry.2.rhs) ∨
        (entry.2.lhs = entry.2.rhs ∧ OneAccess facts symbol entry.2.lhs ∧
          RacesAlone facts entry.2.lhs)) := by
  obtain ⟨scan, hscan, h⟩ := scanned_symbol facts symbol
  rw [← hscan] at he
  refine ⟨h.key entry he, ?_⟩
  rcases h.genuine entry he with ⟨hm, hc⟩ | ⟨heq, hm, ha⟩
  · exact Or.inl ⟨twoAccesses_of_mem hm, hc⟩
  · exact Or.inr ⟨heq, mem_accessesOf.mp hm, ha⟩

theorem symbol_of_conflict {entry : String × LocationConflict}
    (he : entry ∈ (conflictsByLocation facts symbol).entries) : entry.2.lhs.symbol = symbol := by
  rcases (genuine_conflict he).2 with ⟨⟨_, _, _, _, _, hl, _⟩, _⟩ | ⟨_, hone, _⟩
  · exact hl.2
  · exact hone.2.2

theorem onSymbol_of_mem {diagnostic : Diagnostic} (hd : diagnostic ∈ symbolDiagnostics facts symbol) :
    diagnostic.propertyAt "symbol" = some (.text symbol) := by
  unfold symbolDiagnostics at hd
  dsimp only at hd
  split at hd
  · rw [List.map_map, List.mem_map] at hd
    obtain ⟨entry, he, rfl⟩ := hd
    rw [Function.comp_apply, LocationConflict.diagnostic, propertyAt_pairDiagnostic,
      symbol_of_conflict he]
  · rw [Option.mem_toList, Option.map_eq_some_iff] at hd
    obtain ⟨access, hfind, rfl⟩ := hd
    have hmem := mem_accessesOf.mp (List.mem_of_find?_eq_some hfind)
    rw [propertyAt_selfConcurrentDiagnostic, hmem.2.2]

theorem symbols_nodup (facts : TUFacts) : (symbols facts).Nodup := by
  rw [symbols, orderedSet, (List.perm_insertionSort _ _).nodup_iff]
  exact List.nodup_dedup _

theorem mem_symbols : symbol ∈ symbols facts ↔ ∃ access, OneAccess facts symbol access := by
  simp only [symbols, orderedSet, List.mem_insertionSort, List.mem_dedup, List.mem_map,
    participating, List.mem_filter, OneAccess, and_assoc]

theorem flatMap_eq_of_nodup {α β : Type*} {elements : List α} {f : α → List β} {element : α}
    (hnodup : elements.Nodup) (hmem : element ∈ elements)
    (hothers : ∀ other ∈ elements, other ≠ element → f other = []) :
    elements.flatMap f = f element := by
  induction elements with
  | nil => cases hmem
  | cons head rest ih =>
      obtain ⟨hnot, hrest⟩ := List.nodup_cons.mp hnodup
      rw [List.flatMap_cons]
      rcases List.mem_cons.mp hmem with rfl | hmem
      · have hnil : rest.flatMap f = [] := by
          rw [List.flatMap_eq_nil_iff]
          intro other ho
          exact hothers other (List.mem_cons_of_mem _ ho) (fun h => hnot (h ▸ ho))
        rw [hnil, List.append_nil]
      · rw [hothers head (List.mem_cons_self ..) (fun h => hnot (h ▸ hmem)), List.nil_append]
        exact ih hrest hmem fun other ho => hothers other (List.mem_cons_of_mem _ ho)

-- The diagnostics of the run on a symbol are those of the symbol's own round.
theorem filter_onSymbol (facts : TUFacts) (symbol : String) :
    (run facts).diagnostics.filter (onSymbol symbol) = symbolDiagnostics facts symbol := by
  have hsame : ∀ other, (symbolDiagnostics facts other).filter (onSymbol symbol) =
      if other = symbol then symbolDiagnostics facts other else [] := by
    intro other
    split
    · rename_i heq
      subst heq
      rw [List.filter_eq_self]
      intro diagnostic hd
      exact decide_eq_true (onSymbol_of_mem hd)
    · rename_i hne
      rw [List.filter_eq_nil_iff]
      intro diagnostic hd
      simp only [onSymbol, onSymbol_of_mem hd, Option.some.injEq, PropertyValue.text.injEq,
        decide_eq_true_eq]
      exact hne
  rw [run, List.filter_flatMap]
  simp only [hsame]
  by_cases hm : symbol ∈ symbols facts
  · rw [flatMap_eq_of_nodup (symbols_nodup facts) hm fun other _ hne => if_neg hne, if_pos rfl]
  · have hnone : accessesOf facts symbol = [] := by
      rw [List.eq_nil_iff_forall_not_mem]
      intro access ha
      exact hm (mem_symbols.mpr ⟨access, mem_accessesOf.mp ha⟩)
    have hempty : symbolDiagnostics facts symbol = [] := by
      simp [symbolDiagnostics, conflictsByLocation, hnone, orderedPairs, OrderedMap.empty]
    rw [hempty, List.flatMap_eq_nil_iff]
    intro other ho
    apply if_neg
    rintro rfl
    exact hm ho

theorem insertionSort_pair_comm (first second : String) :
    [first, second].insertionSort (· ≤ ·) = [second, first].insertionSort (· ≤ ·) := by
  simp only [List.insertionSort_cons, List.insertionSort_nil, List.orderedInsert]
  rcases lt_trichotomy first second with h | rfl | h
  · rw [if_pos h.le, if_neg (not_le.mpr h)]
  · rfl
  · rw [if_neg (not_le.mpr h), if_pos h.le]

theorem locationKeyOf_comm {lhs rhs : AccessFact} (hsymbol : lhs.symbol = rhs.symbol) :
    locationKeyOf facts lhs rhs = locationKeyOf facts rhs lhs := by
  unfold locationKeyOf conflictLocationKey locationPart
  rw [hsymbol, insertionSort_pair_comm, Bool.or_comm, min_comm]

-- A conflict has its location reported, or is a guess beside an observed conflict that has.
theorem ordered_conflict_reported {lhs rhs : AccessFact}
    (hmem : (lhs, rhs) ∈ orderedPairs (accessesOf facts symbol)) (hc : Conflicts facts lhs rhs) :
    locationKeyOf facts lhs rhs ∈ (conflictsByLocation facts symbol).keys ∨
      (isPrecisePair lhs rhs = false ∧ ∃ first second, TwoAccesses facts symbol first second ∧
        Conflicts facts first second ∧ isPrecisePair first second = true ∧
        locationKeyOf facts first second ∈ (conflictsByLocation facts symbol).keys) := by
  obtain ⟨scan, hscan, h⟩ := scanned_symbol facts symbol
  rw [← hscan]
  rcases h.pair_covered _ hmem hc with hk | ⟨hp, hs⟩
  · exact Or.inl hk
  · obtain ⟨pair, hm, _, hcp, hpp, hk⟩ := h.observed _ hs
    exact Or.inr ⟨hp, pair.1, pair.2, twoAccesses_of_mem hm, hcp, hpp, hk⟩

theorem conflict_reported {lhs rhs : AccessFact} (htwo : TwoAccesses facts symbol lhs rhs)
    (hc : Conflicts facts lhs rhs) :
    locationKeyOf facts lhs rhs ∈ (conflictsByLocation facts symbol).keys ∨
      (isPrecisePair lhs rhs = false ∧ ∃ first second, TwoAccesses facts symbol first second ∧
        Conflicts facts first second ∧ isPrecisePair first second = true ∧
        locationKeyOf facts first second ∈ (conflictsByLocation facts symbol).keys) := by
  rcases htwo.mem with hm | hm
  · exact ordered_conflict_reported hm hc
  · obtain ⟨_, _, _, _, _, hl, hr⟩ := htwo
    have hprecise : isPrecisePair lhs rhs = isPrecisePair rhs lhs := by
      unfold isPrecisePair
      ac_rfl
    rw [locationKeyOf_comm (hl.2.trans hr.2.symm), hprecise]
    exact ordered_conflict_reported hm hc.symm

theorem alone_reported {access : AccessFact} (hone : OneAccess facts symbol access)
    (ha : RacesAlone facts access) :
    locationKeyOf facts access access ∈ (conflictsByLocation facts symbol).keys ∨
      (isPrecisePair access access = false ∧ ∃ first second,
        TwoAccesses facts symbol first second ∧ Conflicts facts first second ∧
        isPrecisePair first second = true ∧
        locationKeyOf facts first second ∈ (conflictsByLocation facts symbol).keys) := by
  obtain ⟨scan, hscan, h⟩ := scanned_symbol facts symbol
  rw [← hscan]
  rcases h.alone_covered _ (mem_accessesOf.mpr hone) ha with hk | ⟨hp, hs⟩
  · exact Or.inl hk
  · obtain ⟨pair, hm, _, hcp, hpp, hk⟩ := h.observed _ hs
    exact Or.inr ⟨hp, pair.1, pair.2, twoAccesses_of_mem hm, hcp, hpp, hk⟩

-- Some pair or some single access of the symbol conflicts.
def HasConflict (facts : TUFacts) (symbol : String) : Prop :=
  (∃ lhs rhs, TwoAccesses facts symbol lhs rhs ∧ Conflicts facts lhs rhs) ∨
    ∃ access, OneAccess facts symbol access ∧ RacesAlone facts access

theorem entries_eq_nil_iff (facts : TUFacts) (symbol : String) :
    (conflictsByLocation facts symbol).entries = [] ↔ ¬HasConflict facts symbol := by
  have hsome : ∀ {key : String}, key ∈ (conflictsByLocation facts symbol).keys →
      (conflictsByLocation facts symbol).entries ≠ [] := by
    intro key hk hnil
    rw [OrderedMap.keys, hnil] at hk
    cases hk
  constructor
  · rintro hnil (⟨lhs, rhs, htwo, hc⟩ | ⟨access, hone, ha⟩)
    · rcases conflict_reported htwo hc with hk | ⟨_, _, _, _, _, _, hk⟩
      · exact hsome hk hnil
      · exact hsome hk hnil
    · rcases alone_reported hone ha with hk | ⟨_, _, _, _, _, _, hk⟩
      · exact hsome hk hnil
      · exact hsome hk hnil
  · intro hno
    rw [List.eq_nil_iff_forall_not_mem]
    intro entry he
    apply hno
    rcases (genuine_conflict he).2 with ⟨htwo, hc⟩ | ⟨_, hone, ha⟩
    · exact Or.inl ⟨_, _, htwo, hc⟩
    · exact Or.inr ⟨_, hone, ha⟩

theorem find_selfConcurrentWrite (facts : TUFacts) (symbol : String) :
    ((accessesOf facts symbol).find? (isSelfConcurrentWrite facts)).isSome = true ↔
      ∃ access, OneAccess facts symbol access ∧ SelfConcurrentWrite facts access := by
  rw [List.find?_isSome]
  simp only [mem_accessesOf, isSelfConcurrentWrite_iff]

theorem symbolDiagnostics_of_conflict (facts : TUFacts) {symbol : String}
    (h : HasConflict facts symbol) : symbolDiagnostics facts symbol =
      (conflictsByLocation facts symbol).entries.map fun entry => entry.2.diagnostic facts := by
  have hne : (conflictsByLocation facts symbol).entries ≠ [] :=
    fun hnil => (entries_eq_nil_iff facts symbol).mp hnil h
  rw [symbolDiagnostics]
  simp [hne]

theorem symbolDiagnostics_of_none (facts : TUFacts) {symbol : String}
    (h : ¬HasConflict facts symbol) : symbolDiagnostics facts symbol =
      (((accessesOf facts symbol).find? (isSelfConcurrentWrite facts)).map
        (selfConcurrentDiagnostic · facts)).toList := by
  rw [symbolDiagnostics, (entries_eq_nil_iff facts symbol).mpr h]
  simp

-- The run reports on a symbol exactly when some of its accesses conflict.
theorem reports_iff (facts : TUFacts) (symbol : String) :
    (∃ diagnostic ∈ (run facts).diagnostics, onSymbol symbol diagnostic = true) ↔
      HasConflict facts symbol ∨
        ∃ access, OneAccess facts symbol access ∧ SelfConcurrentWrite facts access := by
  have hmem : (∃ diagnostic ∈ (run facts).diagnostics, onSymbol symbol diagnostic = true) ↔
      symbolDiagnostics facts symbol ≠ [] := by
    rw [← filter_onSymbol facts symbol, Ne, List.filter_eq_nil_iff]
    simp
  rw [hmem]
  by_cases hsome : HasConflict facts symbol
  · rw [symbolDiagnostics_of_conflict facts hsome]
    simp only [ne_eq, List.map_eq_nil_iff, entries_eq_nil_iff, hsome, not_true_eq_false,
      not_false_eq_true, true_or]
  · rw [symbolDiagnostics_of_none facts hsome, ← find_selfConcurrentWrite]
    cases (accessesOf facts symbol).find? (isSelfConcurrentWrite facts) <;> simp [hsome]

end Symbols

-- The run reports on a symbol exactly when some of its accesses conflict. It reports one diagnostic
-- for each location key, showing two accesses with that key that conflict or one whose runs do, and
-- leaves a key out only when its accesses are guesses and an observed conflict is reported. Where
-- nothing conflicts it reports, once, a write that threads of one entry share.
theorem run_exact (facts : TUFacts) (symbol : String) :
    ((∃ diagnostic ∈ (run facts).diagnostics, onSymbol symbol diagnostic = true) ↔
      HasConflict facts symbol ∨
        ∃ access, OneAccess facts symbol access ∧ SelfConcurrentWrite facts access) ∧
    (HasConflict facts symbol →
      (run facts).diagnostics.filter (onSymbol symbol) =
        (conflictsByLocation facts symbol).entries.map fun entry => entry.2.diagnostic facts) ∧
    (conflictsByLocation facts symbol).keys.Nodup ∧
    (∀ entry ∈ (conflictsByLocation facts symbol).entries,
      entry.1 = locationKeyOf facts entry.2.lhs entry.2.rhs ∧
        ((TwoAccesses facts symbol entry.2.lhs entry.2.rhs ∧
            Conflicts facts entry.2.lhs entry.2.rhs) ∨
          (entry.2.lhs = entry.2.rhs ∧ OneAccess facts symbol entry.2.lhs ∧
            RacesAlone facts entry.2.lhs))) ∧
    (∀ lhs rhs, ((TwoAccesses facts symbol lhs rhs ∧ Conflicts facts lhs rhs) ∨
        (lhs = rhs ∧ OneAccess facts symbol lhs ∧ RacesAlone facts lhs)) →
      locationKeyOf facts lhs rhs ∈ (conflictsByLocation facts symbol).keys ∨
        (isPrecisePair lhs rhs = false ∧ ∃ first second, TwoAccesses facts symbol first second ∧
          Conflicts facts first second ∧ isPrecisePair first second = true ∧
          locationKeyOf facts first second ∈ (conflictsByLocation facts symbol).keys)) ∧
    (¬HasConflict facts symbol →
      (run facts).diagnostics.filter (onSymbol symbol) =
        (((accessesOf facts symbol).find? (isSelfConcurrentWrite facts)).map
          (selfConcurrentDiagnostic · facts)).toList) := by
  have hfilter := filter_onSymbol facts symbol
  refine ⟨reports_iff facts symbol, ?_, OrderedMap.keys_nodup _, fun _ => genuine_conflict, ?_, ?_⟩
  · intro hsome
    rw [hfilter, symbolDiagnostics_of_conflict facts hsome]
  · rintro lhs rhs (⟨htwo, hc⟩ | ⟨rfl, hone, ha⟩)
    · exact conflict_reported htwo hc
    · exact alone_reported hone ha
  · intro hnone
    rw [hfilter, symbolDiagnostics_of_none facts hnone]

end ConcurrencyAnalyzer.DataRace
