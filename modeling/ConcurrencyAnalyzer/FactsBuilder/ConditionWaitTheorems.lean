import ConcurrencyAnalyzer.FactsBuilder.ConditionWaits

namespace ConcurrencyAnalyzer.FactsBuilder

open Library Relation

theorem contains_iff {waits : UnguardedWaits} {functionId : String} :
    waits.contains functionId = true ↔ ∃ fact ∈ waits, fact.functionId = functionId := by
  simp [UnguardedWaits.contains]

theorem contains_emplace {waits : UnguardedWaits} {fact : ConditionWaitFact} {functionId : String} :
    (waits.emplace fact).contains functionId = true ↔
      waits.contains functionId = true ∨ fact.functionId = functionId := by
  unfold UnguardedWaits.emplace
  by_cases hknown : waits.contains fact.functionId = true
  · rw [if_pos hknown]
    constructor
    · exact Or.inl
    · rintro (h | h)
      · exact h
      · exact h ▸ hknown
  · rw [if_neg hknown]
    simp [UnguardedWaits.contains]

theorem contains_collectUnguarded {facts : List ConditionWaitFact} {functionId : String} :
    (collectUnguarded facts).contains functionId = true ↔
      ∃ fact ∈ facts, fact.guardedByLoop = false ∧ fact.functionId = functionId := by
  induction facts using List.reverseRecOn with
  | nil => simp [collectUnguarded, UnguardedWaits.contains]
  | append_singleton taken fact ih =>
      rw [collectUnguarded, List.foldl_append, List.foldl_cons, List.foldl_nil]
      show UnguardedWaits.contains (if fact.guardedByLoop = true then collectUnguarded taken
        else (collectUnguarded taken).emplace fact) functionId = true ↔ _
      by_cases hguarded : fact.guardedByLoop = true
      · rw [if_pos hguarded, ih]
        simp [or_and_right, exists_or, hguarded]
      · rw [if_neg hguarded, contains_emplace, ih]
        simp [or_and_right, exists_or, hguarded]

-- One call changes nothing, or tells its caller, which was not told and whose callee was.
theorem inheritWait_cases (waits : UnguardedWaits) (site : DirectCallSite) :
    (inheritWait waits site = waits ∧ (site.insideLoop = true ∨
      waits.contains site.callerFunctionId = true ∨ waits.contains site.calleeFunctionId = false)) ∨
    (site.insideLoop = false ∧ waits.contains site.callerFunctionId = false ∧
      waits.contains site.calleeFunctionId = true ∧
      ∃ fact, fact.functionId = site.callerFunctionId ∧ inheritWait waits site = waits ++ [fact]) := by
  unfold inheritWait
  by_cases hskip : (site.insideLoop || waits.contains site.callerFunctionId) = true
  · left
    rw [if_pos hskip]
    rcases Bool.or_eq_true _ _ ▸ hskip with hinside | hknown
    · exact ⟨rfl, Or.inl hinside⟩
    · exact ⟨rfl, Or.inr (Or.inl hknown)⟩
  · rw [if_neg hskip]
    have hopen : site.insideLoop = false ∧ waits.contains site.callerFunctionId = false := by
      simpa using hskip
    cases hcallee : waits.find site.calleeFunctionId with
    | none =>
        left
        refine ⟨rfl, Or.inr (Or.inr ?_)⟩
        simpa [UnguardedWaits.contains, UnguardedWaits.find] using hcallee
    | some fact =>
        right
        have hfact := List.find?_some hcallee
        refine ⟨hopen.1, hopen.2, ?_, { fact with
          functionId := site.callerFunctionId
          location := site.userLocation
          viaHelper := true }, rfl, ?_⟩
        · exact contains_iff.mpr ⟨fact, List.mem_of_find?_eq_some hcallee, by simpa using hfact⟩
        · show UnguardedWaits.emplace waits _ = _
          unfold UnguardedWaits.emplace
          rw [if_neg (by simp [hopen.2])]

-- Every function told is a carrier, each is told once, and those that wait themselves are told.
structure Told (sites : List DirectCallSite) (facts : List ConditionWaitFact)
    (waits : UnguardedWaits) : Prop where
  carrier : ∀ functionId, waits.contains functionId = true → Carrier sites facts functionId
  collected : ∀ fact ∈ facts, fact.guardedByLoop = false → waits.contains fact.functionId = true

variable {sites : List DirectCallSite} {facts : List ConditionWaitFact}

theorem told_collectUnguarded : Told sites facts (collectUnguarded facts) where
  carrier functionId h := by
    obtain ⟨fact, hmem, hunguarded, hsame⟩ := contains_collectUnguarded.mp h
    exact hsame ▸ Carrier.waits fact hmem hunguarded
  collected fact hmem hunguarded :=
    contains_collectUnguarded.mpr ⟨fact, hmem, hunguarded, rfl⟩

theorem Told.inherit {waits : UnguardedWaits} (h : Told sites facts waits) {site : DirectCallSite}
    (hsite : site ∈ sites) : Told sites facts (inheritWait waits site) := by
  rcases inheritWait_cases waits site with ⟨hsame, _⟩ | ⟨hopen, _, hcallee, fact, hcaller, hadded⟩
  · rwa [hsame]
  · rw [hadded]
    constructor
    · intro functionId hcontains
      have hcases : waits.contains functionId = true ∨ fact.functionId = functionId := by
        simpa [UnguardedWaits.contains] using hcontains
      rcases hcases with hknown | hnew
      · exact h.carrier functionId hknown
      · rw [← hnew, hcaller]
        exact .calls ⟨site, hsite, hopen, rfl, rfl⟩ (h.carrier _ hcallee)
    · intro other hmem hunguarded
      have hknown := h.collected other hmem hunguarded
      simp only [UnguardedWaits.contains, List.any_append, Bool.or_eq_true] at hknown ⊢
      exact Or.inl hknown

theorem Told.foldl {waits : UnguardedWaits} (h : Told sites facts waits)
    {some : List DirectCallSite} (hsome : ∀ site ∈ some, site ∈ sites) :
    Told sites facts (some.foldl inheritWait waits) := by
  induction some generalizing waits with
  | nil => exact h
  | cons site rest ih =>
      refine ih (h.inherit (hsome site (List.mem_cons_self ..))) ?_
      exact fun other hother => hsome other (List.mem_cons_of_mem _ hother)

-- The callers that are not told yet.
def untold (sites : List DirectCallSite) (waits : UnguardedWaits) : Finset String :=
  (sites.map (·.callerFunctionId)).toFinset.filter fun caller => waits.contains caller = false

theorem untold_inherit (waits : UnguardedWaits) {site : DirectCallSite} (hsite : site ∈ sites) :
    inheritWait waits site = waits ∨
      ((untold sites (inheritWait waits site)).card < (untold sites waits).card ∧
        waits.length < (inheritWait waits site).length) := by
  rcases inheritWait_cases waits site with ⟨hsame, _⟩ | ⟨_, hcaller, _, fact, hfact, hadded⟩
  · exact Or.inl hsame
  · right
    rw [hadded]
    refine ⟨Finset.card_lt_card (Finset.ssubset_iff_of_subset ?_ |>.mpr ?_), by simp⟩
    · intro caller hmem
      simp only [untold, Finset.mem_filter] at hmem ⊢
      refine ⟨hmem.1, ?_⟩
      have := hmem.2
      simp only [UnguardedWaits.contains, List.any_append, Bool.or_eq_false_iff] at this ⊢
      exact this.1
    · refine ⟨site.callerFunctionId, ?_, ?_⟩
      · rw [untold, Finset.mem_filter, List.mem_toFinset]
        exact ⟨List.mem_map_of_mem hsite, hcaller⟩
      · simp [untold, UnguardedWaits.contains, hfact]

theorem untold_le (waits : UnguardedWaits) : (untold sites waits).card ≤ sites.length := by
  refine (Finset.card_filter_le _ _).trans ?_
  exact (List.toFinset_card_le _).trans (by simp)

-- A round tells nobody new, or somebody.
theorem untold_foldl (waits : UnguardedWaits) {some : List DirectCallSite}
    (hsome : ∀ site ∈ some, site ∈ sites) :
    some.foldl inheritWait waits = waits ∨
      ((untold sites (some.foldl inheritWait waits)).card < (untold sites waits).card ∧
        waits.length < (some.foldl inheritWait waits).length) := by
  induction some generalizing waits with
  | nil => exact Or.inl rfl
  | cons site rest ih =>
      have hrest := ih (inheritWait waits site) fun other hother =>
        hsome other (List.mem_cons_of_mem _ hother)
      rw [List.foldl_cons]
      rcases untold_inherit waits (hsome site (List.mem_cons_self ..)) with hsame | ⟨hless, hmore⟩
      · rwa [hsame] at hrest ⊢
      · right
        rcases hrest with hsame | ⟨hless', hmore'⟩
        · rw [hsame]
          exact ⟨hless, hmore⟩
        · omega

-- `while (waitsChanged)` ends by itself, and then no call has a wait to hand on.
theorem propagateWaits_ends (sites : List DirectCallSite) (facts : List ConditionWaitFact) :
    Ends unchangedWaits (inheritWaits sites) (collectUnguarded facts)
      (propagateWaits sites facts) := by
  refine @settle_ends _ _ _ (fun _ => True) (fun waits => (untold sites waits).card) ?_ ?_ _ _
    ?_ ?_
  · exact fun _ _ => trivial
  · intro waits _ hchanged
    rcases @untold_foldl sites waits _ fun _ h => h with hsame | ⟨hless, _⟩
    · have hround : inheritWaits sites waits = waits := hsame
      simp [unchangedWaits, hround] at hchanged
    · exact hless
  · trivial
  · exact untold_le _

theorem propagateWaits_fixed : inheritWaits sites (propagateWaits sites facts) =
    propagateWaits sites facts := by
  obtain ⟨_, _, hunchanged, _⟩ := propagateWaits_ends sites facts
  have hlength : (propagateWaits sites facts).length =
      (inheritWaits sites (propagateWaits sites facts)).length := by
    simpa [unchangedWaits] using hunchanged
  rcases @untold_foldl sites (propagateWaits sites facts) _ fun _ h => h with
    hsame | ⟨_, hmore⟩
  · exact hsame
  · have hround : inheritWaits sites (propagateWaits sites facts) =
        sites.foldl inheritWait (propagateWaits sites facts) := rfl
    rw [hround] at hlength
    omega

theorem told_propagateWaits : Told sites facts (propagateWaits sites facts) :=
  settle_invariant (fun _ h => h.foldl fun _ hsite => hsite) _ told_collectUnguarded

theorem length_foldl_inherit (waits : UnguardedWaits) (some : List DirectCallSite) :
    waits.length ≤ (some.foldl inheritWait waits).length :=
  (@untold_foldl some waits _ fun _ h => h).elim (fun hsame => by rw [hsame])
    fun h => h.2.le

-- What a round leaves alone each of its calls does.
theorem inheritWait_of_foldl {waits : UnguardedWaits} {some : List DirectCallSite}
    (hsame : some.foldl inheritWait waits = waits) {site : DirectCallSite} (hsite : site ∈ some) :
    inheritWait waits site = waits := by
  induction some with
  | nil => exact absurd hsite List.not_mem_nil
  | cons first rest ih =>
      rw [List.foldl_cons] at hsame
      rcases @untold_inherit (first :: rest) waits _ (List.mem_cons_self ..) with
        hfirst | ⟨_, hmore⟩
      · rw [hfirst] at hsame
        rcases List.mem_cons.mp hsite with hsite | hsite
        · rwa [hsite]
        · exact ih hsame hsite
      · have hrest := length_foldl_inherit (inheritWait waits first) rest
        rw [hsame] at hrest
        omega

-- The functions told are the carriers.
theorem contains_propagateWaits {functionId : String} :
    (propagateWaits sites facts).contains functionId = true ↔ Carrier sites facts functionId := by
  refine ⟨told_propagateWaits.carrier functionId, ?_⟩
  intro hcarrier
  induction hcarrier with
  | waits fact hmem hunguarded => exact told_propagateWaits.collected fact hmem hunguarded
  | @calls caller callee hcall _ ih =>
      obtain ⟨site, hsite, hopen, hcaller, hcallee⟩ := hcall
      subst hcaller hcallee
      have hfixed := inheritWait_of_foldl (@propagateWaits_fixed _ facts) hsite
      rcases inheritWait_cases (propagateWaits sites facts) site with
        ⟨_, hinside | hknown | hnone⟩ | ⟨_, _, _, fact, _, hadded⟩
      · rw [hopen] at hinside
        contradiction
      · exact hknown
      · rw [ih] at hnone
        contradiction
      · rw [hfixed] at hadded
        simpa using congrArg List.length hadded

theorem Carrier.of_reaches {above functionId : String} (h : Carrier sites facts functionId)
    (hreaches : Reaches sites above functionId) : Carrier sites facts above := by
  induction hreaches using ReflTransGen.head_induction_on with
  | refl => exact h
  | head hcall _ ih => exact .calls hcall ih

-- A carrier that no loop calls is answered by whoever calls it.
theorem answered_iff {functionId : String} (hcarrier : Carrier sites facts functionId)
    (hopen : ¬CalledInLoop sites functionId) :
    functionId ∈ answeredByACaller sites (propagateWaits sites facts) ↔
      ∃ caller, CallsOutsideLoop sites caller functionId := by
  have houtside : ∀ site ∈ sites, site.calleeFunctionId = functionId → site.insideLoop = false := by
    intro site hsite hcallee
    by_contra hinside
    exact hopen ⟨site, hsite, by simpa using hinside, hcallee⟩
  simp only [answeredByACaller, Finset.mem_union, Finset.mem_sdiff, List.mem_toFinset, List.mem_map,
    List.mem_filter, contains_propagateWaits, Bool.not_eq_true']
  constructor
  · rintro (⟨site, ⟨⟨⟨hsite, _⟩, hloop⟩, _⟩, hcallee⟩ | ⟨⟨site, ⟨hsite, hcarried⟩, hcallee⟩, hnone⟩)
    · exact ⟨site.callerFunctionId, site, hsite, hloop, rfl, hcallee⟩
    · exact absurd ⟨site, ⟨⟨hsite, hcarried⟩, houtside site hsite hcallee⟩, hcallee⟩ hnone
  · rintro ⟨caller, site, hsite, hloop, hcaller, hcallee⟩
    left
    have hcarried : Carrier sites facts site.calleeFunctionId := by rwa [hcallee]
    have hfrom : Carrier sites facts site.callerFunctionId :=
      .calls ⟨site, hsite, hloop, rfl, rfl⟩ hcarried
    exact ⟨site, ⟨⟨⟨hsite, hcarried⟩, hloop⟩, hfrom⟩, hcallee⟩

theorem kept_iff {functionId : String} (hcarrier : Carrier sites facts functionId)
    (hopen : ¬CalledInLoop sites functionId) :
    (∃ fact ∈ keptWaits sites facts, fact.functionId = functionId) ↔
      ¬∃ caller, CallsOutsideLoop sites caller functionId := by
  rw [← answered_iff hcarrier hopen]
  simp only [keptWaits, List.mem_filter, decide_eq_true_eq]
  constructor
  · rintro ⟨fact, ⟨_, hkept⟩, hsame⟩
    rwa [hsame] at hkept
  · intro hkept
    obtain ⟨fact, hmem, hsame⟩ := contains_iff.mp (contains_propagateWaits.mpr hcarrier)
    exact ⟨fact, ⟨hmem, hsame ▸ hkept⟩, hsame⟩

-- The functions that reach one, which are finitely many.
def above (sites : List DirectCallSite) (functionId : String) : Finset String :=
  Components.reach ((sites.filter fun site => !site.insideLoop).map fun site =>
    (site.calleeFunctionId, site.callerFunctionId)) functionId

theorem mem_above_iff {functionId other : String} :
    other ∈ above sites functionId ↔ Reaches sites other functionId := by
  rw [above, Components.mem_reach_iff, Reaches, ← reflTransGen_swap]
  have hsame : Components.Arc ((sites.filter fun site => !site.insideLoop).map fun site =>
      (site.calleeFunctionId, site.callerFunctionId)) = Function.swap (CallsOutsideLoop sites) := by
    funext callee caller
    apply propext
    simp only [Components.Arc, CallsOutsideLoop, Function.swap, List.mem_map, List.mem_filter,
      Prod.mk.injEq, Bool.not_eq_true']
    grind
  rw [hsame]

-- What reaches a function without being reached from it has fewer functions above it.
theorem card_above_lt {functionId other : String} (hreaches : Reaches sites other functionId)
    (hback : ¬Reaches sites functionId other) :
    (above sites other).card < (above sites functionId).card := by
  apply Finset.card_lt_card
  refine ⟨?_, fun hsubset => hback (mem_above_iff.mp (hsubset (mem_above_iff.mpr .refl)))⟩
  intro caller hcaller
  exact mem_above_iff.mpr ((mem_above_iff.mp hcaller).trans hreaches)

theorem OpenAbove.of_reaches {functionId other : String} (h : OpenAbove sites facts functionId)
    (hreaches : Reaches sites other functionId) : OpenAbove sites facts other :=
  fun caller hcaller hcallerReaches => h caller hcaller (hcallerReaches.trans hreaches)

-- Going up from a carrier, and out of each cycle on the way, ends at one that nobody calls.
theorem exists_kept_above (hcycles : CyclesCalledFromOutside sites facts) (bound : Nat)
    {functionId : String} (hbound : (above sites functionId).card ≤ bound)
    (hcarrier : Carrier sites facts functionId) (hopen : OpenAbove sites facts functionId) :
    ∃ outermost, Carrier sites facts outermost ∧ Reaches sites outermost functionId ∧
      ∃ fact ∈ keptWaits sites facts, fact.functionId = outermost := by
  induction bound generalizing functionId with
  | zero =>
      have hself : functionId ∈ above sites functionId := mem_above_iff.mpr .refl
      have := Finset.card_pos.mpr ⟨functionId, hself⟩
      omega
  | succ bound ih =>
      have hup : ∀ other, Reaches sites other functionId → ¬Reaches sites functionId other →
          ∃ outermost, Carrier sites facts outermost ∧ Reaches sites outermost functionId ∧
            ∃ fact ∈ keptWaits sites facts, fact.functionId = outermost := by
        intro other hreaches hback
        have hless := card_above_lt hreaches hback
        obtain ⟨outermost, houtermost, habove, hkept⟩ :=
          ih (by omega) (hcarrier.of_reaches hreaches) (hopen.of_reaches hreaches)
        exact ⟨outermost, houtermost, habove.trans hreaches, hkept⟩
      by_cases hcalled : ∃ caller, CallsOutsideLoop sites caller functionId
      · obtain ⟨caller, hcall⟩ := hcalled
        by_cases hback : Reaches sites functionId caller
        · -- the caller is on a cycle with the function
          obtain ⟨other, hother, hotherBack⟩ :=
            hcycles functionId hcarrier hopen (TransGen.tail' hback hcall)
          exact hup other hother hotherBack
        · exact hup caller (.single hcall) hback
      · have hself := hopen functionId hcarrier .refl
        exact ⟨functionId, hcarrier, .refl, (kept_iff hcarrier hself).mpr hcalled⟩

-- A wait is lost exactly where a cycle of calls has no one outside it to answer.
theorem no_wait_lost_iff (sites : List DirectCallSite) (facts : List ConditionWaitFact) :
    NoWaitLost sites facts ↔ CyclesCalledFromOutside sites facts := by
  constructor
  · intro hkept functionId hcarrier hopen hcycle
    by_contra hnone
    obtain ⟨outermost, houtermost, hreaches, hfact⟩ := hkept functionId hcarrier hopen
    have hback : Reaches sites functionId outermost := by
      by_contra hback
      exact hnone ⟨outermost, hreaches, hback⟩
    -- whatever the cycle reaches is called by something
    obtain ⟨caller, _, hcall⟩ := TransGen.tail'_iff.mp (hcycle.trans_left hback)
    have hself := hopen outermost houtermost hreaches
    exact (kept_iff houtermost hself).mp hfact ⟨caller, hcall⟩
  · intro hcycles functionId hcarrier hopen
    exact exists_kept_above hcycles _ (Nat.le_refl _) hcarrier hopen

-- A thread body that waits and calls itself.
def recursiveWait : List DirectCallSite :=
  [{ call := 0, callerFunctionId := "worker", calleeFunctionId := "worker" }]

def recursiveWaitFacts : List ConditionWaitFact := [{ functionId := "worker" }]

theorem recursive_wait_lost : ¬NoWaitLost recursiveWait recursiveWaitFacts := by
  intro hkept
  have hcarrier : Carrier recursiveWait recursiveWaitFacts "worker" :=
    .waits { functionId := "worker" } (by simp [recursiveWaitFacts]) rfl
  have hopen : OpenAbove recursiveWait recursiveWaitFacts "worker" := by
    rintro above _ _ ⟨site, hsite, hloop, _⟩
    have hsite : site = _ := List.mem_singleton.mp hsite
    rw [hsite] at hloop
    contradiction
  obtain ⟨_, _, _, fact, hfact, _⟩ := hkept "worker" hcarrier hopen
  have hnone : (keptWaits recursiveWait recursiveWaitFacts).length = 0 := by decide
  rw [List.length_eq_zero_iff] at hnone
  rw [hnone] at hfact
  contradiction

end ConcurrencyAnalyzer.FactsBuilder
