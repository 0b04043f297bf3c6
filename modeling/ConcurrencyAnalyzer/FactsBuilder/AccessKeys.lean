import ConcurrencyAnalyzer.FactsBuilder.AccessCycles

namespace ConcurrencyAnalyzer.FactsBuilder

open Library Library.Saturation

section CycleUniverse

variable {seeds : Set ParameterizedAccess} {roots : Set RootBinding} {indices : Set LinearIndex}

def seedIndices (seeds : Set ParameterizedAccess) : Set LinearIndex :=
  {index | ∃ access ∈ seeds, access.root.index = some index}

def placeOffsets (seeds : Set ParameterizedAccess) (roots : Set RootBinding) : Set Int :=
  (fun access => access.fact.region.byteOffset) '' seeds ∪
    (fun root => root.designated.byteOffset) '' roots

-- The offsets of parameters, each also as an addition of zero leaves it.
def parameterOffsets (seeds : Set ParameterizedAccess) (roots : Set RootBinding) : Set Int :=
  placeOffsets seeds roots ∪ int64 '' placeOffsets seeds roots

def parameterIndexOffsets (seeds : Set ParameterizedAccess) : Set Int :=
  insert 0 ((fun index => index.offset) '' seedIndices seeds)

-- What calls around cycles make of some accesses.
def cycleUniverse (seeds : Set ParameterizedAccess) (roots : Set RootBinding)
    (indices : Set LinearIndex) : Universe where
  symbols := (fun access => access.root.symbol) '' seeds ∪ (fun root => root.symbol) '' roots
  argumentIndices :=
    (fun access => access.root.argumentIndex) '' seeds ∪ (fun root => root.argumentIndex) '' roots
  sizes := (fun access => access.fact.region.byteSize) '' seeds ∪
    (fun root => root.designated.byteSize) '' roots
  entries := (fun access => access.fact.region.elementEntry) '' seeds ∪
    (fun root => root.designated.elementEntry) '' roots
  offsets
    | .Argument => parameterOffsets seeds roots
    | .Global => parameterOffsets seeds roots ∪
        Set.image2 (fun offset root => int64 (offset + root.region.byteOffset))
          (parameterOffsets seeds roots) roots
  parameters := (fun index => index.parameter) '' (seedIndices seeds ∪ indices)
  scales := insert 0 ((fun index => index.scale) '' seedIndices seeds)
  indexOffsets
    | .Argument => parameterIndexOffsets seeds
    | .Global => parameterIndexOffsets seeds ∪
        Set.image2 (fun offset root => root.region.byteOffset + offset)
          (parameterIndexOffsets seeds) roots

theorem seedIndices_finite (h : seeds.Finite) : (seedIndices seeds).Finite := by
  apply (h.image fun access => access.root.index.getD {}).subset
  rintro index ⟨access, haccess, hindex⟩
  refine ⟨access, haccess, ?_⟩
  dsimp only
  rw [hindex]
  rfl

theorem parameterOffsets_finite (hseeds : seeds.Finite) (hroots : roots.Finite) :
    (parameterOffsets seeds roots).Finite := by
  have hplaces : (placeOffsets seeds roots).Finite := (hseeds.image _).union (hroots.image _)
  exact hplaces.union (hplaces.image _)

theorem parameterIndexOffsets_finite (hseeds : seeds.Finite) : (parameterIndexOffsets seeds).Finite :=
  ((seedIndices_finite hseeds).image _).insert 0

theorem cycleUniverse_finite (hseeds : seeds.Finite) (hroots : roots.Finite)
    (hindices : indices.Finite) : (cycleUniverse seeds roots indices).Finite where
  symbols := (hseeds.image _).union (hroots.image _)
  argumentIndices := (hseeds.image _).union (hroots.image _)
  sizes := (hseeds.image _).union (hroots.image _)
  entries := (hseeds.image _).union (hroots.image _)
  offsets := by
    intro kind
    have hoffsets := parameterOffsets_finite hseeds hroots
    cases kind with
    | Argument => exact hoffsets
    | Global => exact hoffsets.union (hoffsets.image2 _ hroots)
  parameters := ((seedIndices_finite hseeds).union hindices).image _
  scales := ((seedIndices_finite hseeds).image _).insert 0
  indexOffsets := by
    intro kind
    have hoffsets := parameterIndexOffsets_finite hseeds
    cases kind with
    | Argument => exact hoffsets
    | Global => exact hoffsets.union (hoffsets.image2 _ hroots)

theorem parameterOffsets_subset (kind : RootBindingKind) :
    parameterOffsets seeds roots ⊆ (cycleUniverse seeds roots indices).offsets kind := by
  cases kind with
  | Argument => exact subset_rfl
  | Global => exact Set.subset_union_left

theorem parameterIndexOffsets_subset (kind : RootBindingKind) :
    parameterIndexOffsets seeds ⊆ (cycleUniverse seeds roots indices).indexOffsets kind := by
  cases kind with
  | Argument => exact subset_rfl
  | Global => exact Set.subset_union_left

theorem cycleUniverse_closed : (cycleUniverse seeds roots indices).ClosedUnder roots indices where
  symbols root h := Or.inr ⟨root, h, rfl⟩
  argumentIndices root h := Or.inr ⟨root, h, rfl⟩
  designated root h :=
    ⟨Or.inr ⟨root, h, rfl⟩, Or.inr ⟨root, h, rfl⟩,
      fun _ => parameterOffsets_subset _ (Or.inl (Or.inr ⟨root, h, rfl⟩))⟩
  moved := by
    rintro offset (hplace | ⟨place, hplace, rfl⟩)
    · exact Or.inr ⟨offset, hplace, rfl⟩
    · rw [int64_idem]
      exact Or.inr ⟨place, hplace, rfl⟩
  named offset hoffset root hroot _ := Or.inr ⟨offset, hoffset, root, hroot, rfl⟩
  parameters index h := ⟨index, Or.inr h, rfl⟩
  zeroScale := Or.inl rfl
  zeroIndex kind := parameterIndexOffsets_subset kind (Or.inl rfl)
  namedIndex offset hoffset root hroot _ := Or.inr ⟨offset, hoffset, root, hroot, rfl⟩

theorem cycleUniverse_holds {access : ParameterizedAccess} (h : access ∈ seeds) :
    (cycleUniverse seeds roots indices).HoldsRoot access.root access.fact.region where
  symbol := Or.inl ⟨access, h, rfl⟩
  argumentIndex := Or.inl ⟨access, h, rfl⟩
  place :=
    ⟨Or.inl ⟨access, h, rfl⟩, Or.inl ⟨access, h, rfl⟩,
      fun _ => parameterOffsets_subset _ (Or.inl (Or.inl ⟨access, h, rfl⟩))⟩
  index := by
    intro index hindex
    have hseed : index ∈ seedIndices seeds := ⟨access, h, hindex⟩
    exact ⟨⟨index, Or.inl hseed, rfl⟩, Or.inr ⟨index, hseed, rfl⟩,
      parameterIndexOffsets_subset _ (Or.inr ⟨index, hseed, rfl⟩)⟩

end CycleUniverse

section Calls

variable {module : AccessModule}

def AccessModule.boundRoots (module : AccessModule) : Set RootBinding :=
  {root | ∃ call ∈ module.directCallBindings, ∃ position, call.argumentBinding position = some root}

def AccessModule.passedIndices (module : AccessModule) : Set LinearIndex :=
  {index | ∃ call ∈ module.directCallBindings, ∃ position, call.indexArgument position = some index}

theorem mem_of_getElem?_join {α : Type*} {elements : List (Option α)} {position : Nat} {element : α}
    (h : elements[position]?.join = some element) : some element ∈ elements := by
  cases hposition : elements[position]? with
  | none =>
      rw [hposition] at h
      cases h
  | some found =>
      rw [hposition] at h
      have hfound : found = some element := h
      exact hfound ▸ List.mem_of_getElem? hposition

theorem boundRoots_finite (module : AccessModule) : module.boundRoots.Finite := by
  have hall : {root : Option RootBinding |
      root ∈ module.directCallBindings.flatMap (·.argumentBindings)}.Finite := List.finite_toSet _
  apply (hall.preimage (Option.some_injective _).injOn).subset
  rintro root ⟨call, hcall, position, hroot⟩
  exact List.mem_flatMap.mpr ⟨call, hcall, mem_of_getElem?_join hroot⟩

theorem passedIndices_finite (module : AccessModule) : module.passedIndices.Finite := by
  have hall : {index : Option LinearIndex |
      index ∈ module.directCallBindings.flatMap (·.indexArguments)}.Finite := List.finite_toSet _
  apply (hall.preimage (Option.some_injective _).injOn).subset
  rintro index ⟨call, hcall, position, hindex⟩
  exact List.mem_flatMap.mpr ⟨call, hcall, mem_of_getElem?_join hindex⟩

theorem argumentBindingAt_closing {operand : CallOperand} {root : RootBinding}
    (h : argumentBindingAt true operand = some root) (hkind : root.kind = .Argument)
    (hknown : root.region.hasKnownOffset = true) : root.region.byteOffset = 0 := by
  obtain ⟨resolved, -, rfl⟩ := Option.map_eq_some_iff.mp h
  split at hkind
  · rename_i hmoved
    rw [if_pos hmoved] at hknown
    cases hknown
  · rename_i hunmoved
    rw [if_neg hunmoved] at hknown ⊢
    simp only [hkind, decide_true, Bool.true_and, hknown, Bool.not_true, Bool.false_or,
      decide_eq_true_eq, ne_eq, not_not] at hunmoved
    exact hunmoved

theorem indexArgumentAt_closing {operand : CallOperand} {position : Nat} {index : LinearIndex}
    (h : indexArgumentAt true position operand = some index) :
    index.parameter.isSome = true ∧ (index.widened = true ∨ index.scale = 1 ∧ index.offset = 0) := by
  unfold indexArgumentAt at h
  split at h
  · cases h
  · split at h
    · unfold widenedIndexArgument at h
      split at h
      · cases h
        exact ⟨rfl, Or.inl rfl⟩
      · split at h
        · cases h
          exact ⟨rfl, Or.inl rfl⟩
        · cases h
    · rename_i hkept
      simp only [Bool.true_and, Bool.not_eq_true', Bool.not_eq_false] at hkept
      rw [h] at hkept
      simp only [handsOnParameter, Bool.and_eq_true, decide_eq_true_eq] at hkept
      exact ⟨hkept.1.1, Or.inr ⟨hkept.1.2, hkept.2⟩⟩

theorem buildDirectCallBinding_eq_some {closesCycle : Bool} {site : AccessCallSite}
    {call : DirectCallBinding} (h : buildDirectCallBinding closesCycle site = some call) :
    call.callerFunctionId = site.callerFunctionId ∧ call.calleeFunctionId = site.calleeFunctionId ∧
      call.argumentBindings = site.operands.map (argumentBindingAt closesCycle) ∧
      call.indexArguments = site.operands.mapIdx (indexArgumentAt closesCycle) := by
  unfold buildDirectCallBinding at h
  split at h
  · cases h
    exact ⟨rfl, rfl, rfl, rfl⟩
  · cases h

theorem aroundCycle_of_closing {site : AccessCallSite} (hsite : site ∈ module.sites)
    (hcloses : module.closesCycle site = true) {call : DirectCallBinding}
    (hcall : buildDirectCallBinding true site = some call) :
    AroundCycle module.boundRoots module.passedIndices call := by
  have hmem : call ∈ module.directCallBindings :=
    List.mem_filterMap.mpr ⟨site, hsite, by rw [hcloses]; exact hcall⟩
  obtain ⟨-, -, harguments, hindices⟩ := buildDirectCallBinding_eq_some hcall
  refine ⟨fun position root hroot => ⟨call, hmem, position, hroot⟩, ?_,
    fun position index hindex => ⟨call, hmem, position, hindex⟩, ?_⟩
  · intro position root hroot
    have hbound := mem_of_getElem?_join hroot
    rw [harguments] at hbound
    obtain ⟨operand, -, hoperand⟩ := List.mem_map.mp hbound
    exact argumentBindingAt_closing hoperand
  · intro position index hindex
    have hpassed := mem_of_getElem?_join hindex
    rw [hindices] at hpassed
    obtain ⟨place, hplace, hoperand⟩ := List.mem_mapIdx.mp hpassed
    exact indexArgumentAt_closing hoperand

end Calls

section Cycles

variable {module : AccessModule} {seeds : Set ParameterizedAccess}

-- An access that calls around cycles make of `origin`.
def reseated (origin : ParameterizedAccess) (callerFunctionId : String) (root : RootBinding)
    (heldLocks : LockSet) (inRootTask : Bool) : ParameterizedAccess where
  root := root
  fact :=
    { origin.fact with
      functionId := callerFunctionId
      region := root.region
      heldLocks := heldLocks
      inRootTask := inRootTask
      userLocation := {}
      liveEntries := ∅
      startedEntries := ∅ }

namespace AccessModule

def moduleUniverse (module : AccessModule) (seeds : Set ParameterizedAccess) : Universe :=
  cycleUniverse seeds module.boundRoots module.passedIndices

def callers (module : AccessModule) : Set String :=
  {functionId | ∃ call ∈ module.directCallBindings, call.callerFunctionId = functionId}

def lockNames (module : AccessModule) (seeds : Set ParameterizedAccess) : Set String :=
  {lockId | ∃ access ∈ seeds, lockId ∈ access.fact.heldLocks} ∪
    {lockId | ∃ call ∈ module.directCallBindings, lockId ∈ call.callsiteHeldLocks} ∪
    {lockId | ∃ object ∈ module.boundRoots, ∃ place, lockId = lockIdAt object place}

def aroundCycles (module : AccessModule) (seeds : Set ParameterizedAccess) :
    Set ParameterizedAccess :=
  {access | ∃ origin ∈ seeds, ∃ functionId ∈ module.callers, ∃ root ∈
      {root | normalRoot root = root ∧ (module.moduleUniverse seeds).HoldsRoot root root.region},
      ∃ heldLocks ∈ {locks : LockSet | (locks : Set String) ⊆ module.lockNames seeds},
      ∃ inRootTask, access = reseated origin functionId root heldLocks inRootTask}

end AccessModule

theorem callers_finite (module : AccessModule) : module.callers.Finite := by
  have hall : {functionId | functionId ∈ module.directCallBindings.map (·.callerFunctionId)}.Finite :=
    List.finite_toSet _
  apply hall.subset
  rintro functionId ⟨call, hcall, rfl⟩
  exact List.mem_map_of_mem hcall

theorem lockNames_finite (module : AccessModule) (hseeds : seeds.Finite) :
    (module.lockNames seeds).Finite := by
  have hheld : (⋃ access ∈ seeds, (access.fact.heldLocks : Set String)).Finite :=
    hseeds.biUnion fun access _ => Finset.finite_toSet _
  have hcalls : (⋃ call ∈ {call | call ∈ module.directCallBindings},
      (call.callsiteHeldLocks : Set String)).Finite :=
    (List.finite_toSet _).biUnion fun call _ => Finset.finite_toSet _
  refine ((hheld.subset ?_).union (hcalls.subset ?_)).union (lockIds_finite (boundRoots_finite module))
  · rintro lockId ⟨access, haccess, hlock⟩
    simp only [Set.mem_iUnion]
    exact ⟨access, haccess, hlock⟩
  · rintro lockId ⟨call, hcall, hlock⟩
    simp only [Set.mem_iUnion]
    exact ⟨call, hcall, hlock⟩

theorem lockSets_finite {names : Set String} (h : names.Finite) :
    {locks : LockSet | (locks : Set String) ⊆ names}.Finite := by
  apply (Finset.finite_toSet h.toFinset.powerset).subset
  intro locks hlocks
  rw [Finset.mem_coe, Finset.mem_powerset]
  intro lockId hlock
  exact h.mem_toFinset.mpr (hlocks hlock)

theorem aroundCycles_finite (module : AccessModule) (hseeds : seeds.Finite) :
    (module.aroundCycles seeds).Finite := by
  have hroots := normalRoots_finite
    (cycleUniverse_finite hseeds (boundRoots_finite module) (passedIndices_finite module))
  have hall := (((hseeds.prod (callers_finite module)).prod hroots).prod
    (lockSets_finite (lockNames_finite module hseeds))).prod (Set.finite_univ (α := Bool))
  apply (hall.image fun parts :
      (((ParameterizedAccess × String) × RootBinding) × LockSet) × Bool =>
    reseated parts.1.1.1.1 parts.1.1.1.2 parts.1.1.2 parts.1.2 parts.2).subset
  rintro access ⟨origin, horigin, functionId, hcaller, root, hroot, heldLocks, hlocks, inRootTask, rfl⟩
  exact ⟨((((origin, functionId), root), heldLocks), inRootTask),
    ⟨⟨⟨⟨horigin, hcaller⟩, hroot⟩, hlocks⟩, trivial⟩, rfl⟩

theorem normalRoot_idem (root : RootBinding) : normalRoot (normalRoot root) = normalRoot root := by
  simp only [normalRoot, hideOffset_idem]

theorem holdsRoot_normalRoot {univ : Universe} {root : RootBinding}
    (h : univ.HoldsRoot root root.region) :
    univ.HoldsRoot (normalRoot root) (normalRoot root).region := by
  refine ⟨h.symbol, h.argumentIndex, ?_, h.index⟩
  have hplace := h.place
  simp only [normalRoot, hideOffset]
  split
  · exact hplace
  · rename_i hunknown
    exact ⟨hplace.size, hplace.entry, fun hknown => absurd hknown hunknown⟩

theorem locksAtCallSite_subset {call : DirectCallBinding} (hcall : call ∈ module.directCallBindings)
    {calleeLocks : LockSet} (h : (calleeLocks : Set String) ⊆ module.lockNames seeds) :
    (↑(locksAtCallSite calleeLocks call ∪ call.callsiteHeldLocks) : Set String) ⊆
      module.lockNames seeds := by
  intro lockId hlock
  rw [Finset.mem_coe, Finset.mem_union] at hlock
  rcases hlock with hlock | hlock
  · obtain ⟨calleeLock, hcallee, hlock⟩ := Finset.mem_biUnion.mp hlock
    split at hlock
    · rw [Finset.mem_singleton] at hlock
      exact hlock ▸ h hcallee
    · rename_i place _
      cases hobject : call.argumentBinding place.argumentIndex with
      | none =>
          rw [hobject] at hlock
          cases hlock
      | some object =>
          rw [hobject] at hlock
          exact Or.inr ⟨object, ⟨call, hcall, _, hobject⟩, place.place, Finset.mem_singleton.mp hlock⟩
  · exact Or.inl (Or.inr ⟨call, hcall, hlock⟩)

-- What makes an access one of the seeds or of what calls around cycles make of them.
theorem mem_closed_holds {access : ParameterizedAccess}
    (h : access ∈ seeds ∪ module.aroundCycles seeds) :
    (module.moduleUniverse seeds).HoldsRoot access.root access.fact.region ∧
      (access.fact.heldLocks : Set String) ⊆ module.lockNames seeds ∧
      ∃ origin ∈ seeds, ∀ functionId root heldLocks inRootTask,
        reseated access functionId root heldLocks inRootTask =
          reseated origin functionId root heldLocks inRootTask := by
  rcases h with hseed | ⟨origin, horigin, functionId, -, root, hroot, heldLocks, hlocks, inRootTask, rfl⟩
  · refine ⟨cycleUniverse_holds hseed, ?_, access, hseed, fun _ _ _ _ => rfl⟩
    intro lockId hlock
    exact Or.inl (Or.inl ⟨access, hseed, hlock⟩)
  · exact ⟨hroot.2, hlocks, origin, horigin, fun _ _ _ _ => rfl⟩

theorem projectAccess_eq_some {call : DirectCallBinding} {access projected : ParameterizedAccess}
    (h : projectAccess call access = some projected) :
    rootAtCall access call = some projected.root ∧
      normalAccess projected = reseated access call.callerFunctionId (normalRoot projected.root)
        (locksAtCallSite access.fact.heldLocks call ∪ call.callsiteHeldLocks) call.callerInRootTask := by
  unfold projectAccess at h
  cases hroot : rootAtCall access call with
  | none =>
      rw [hroot] at h
      cases h
  | some root =>
      rw [hroot] at h
      dsimp only at h
      split at h
      · cases h
      · cases h
        exact ⟨rfl, rfl⟩

theorem aroundCycles_closed {call : DirectCallBinding} (hcall : call ∈ module.directCallBindings)
    (haround : AroundCycle module.boundRoots module.passedIndices call)
    {access normal : ParameterizedAccess} (haccess : access ∈ seeds ∪ module.aroundCycles seeds)
    (h : (projectAccess call access).map normalAccess = some normal) :
    normal ∈ seeds ∪ module.aroundCycles seeds := by
  obtain ⟨projected, hproject, rfl⟩ := Option.map_eq_some_iff.mp h
  obtain ⟨hroot, hnormal⟩ := projectAccess_eq_some hproject
  obtain ⟨hholds, hlocks, origin, horigin, hsame⟩ := mem_closed_holds haccess
  have hreached := rootAtCall_around cycleUniverse_closed haround hholds hroot
  right
  rw [hnormal, hsame]
  exact ⟨origin, horigin, _, ⟨call, hcall, rfl⟩, _,
    ⟨normalRoot_idem projected.root, holdsRoot_normalRoot hreached⟩, _,
    locksAtCallSite_subset hcall hlocks, _, rfl⟩

end Cycles

section Keys

variable {module : AccessModule}

-- A callee's access becomes one of a caller.
def AccessModule.Projects (module : AccessModule) (access projected : ParameterizedAccess) : Prop :=
  ∃ call ∈ module.directCallBindings, call.calleeFunctionId = access.fact.functionId ∧
    projectAccess call access = some projected

def AccessModule.ProjectsNormal (module : AccessModule) (access normal : ParameterizedAccess) : Prop :=
  ∃ call ∈ module.directCallBindings, call.calleeFunctionId = access.fact.functionId ∧
    (projectAccess call access).map normalAccess = some normal

def AccessModule.ReachedNormal (module : AccessModule) : Set ParameterizedAccess :=
  {normal | Reached module.ProjectsNormal {normal | normal ∈ module.pending.map normalAccess} normal}

theorem mem_directCallBindings {call : DirectCallBinding} (h : call ∈ module.directCallBindings) :
    ∃ site ∈ module.sites, buildDirectCallBinding (module.closesCycle site) site = some call ∧
      Components.Arc module.arcs call.callerFunctionId call.calleeFunctionId ∧
      (module.closesCycle site = true ↔
        call.callerFunctionId ∈ Components.reach module.arcs call.calleeFunctionId) := by
  obtain ⟨site, hsite, hcall⟩ := List.mem_filterMap.mp h
  obtain ⟨hcaller, hcallee, -⟩ := buildDirectCallBinding_eq_some hcall
  refine ⟨site, hsite, hcall, ?_, ?_⟩
  · rw [hcaller, hcallee]
    exact List.mem_map.mpr ⟨site, hsite, rfl⟩
  · rw [hcaller, hcallee]
    simp [AccessModule.closesCycle]

-- What a function's caller reaches: it grows along the calls that close no cycle.
def AccessModule.reachCount (module : AccessModule) (access : ParameterizedAccess) : Nat :=
  (Components.reach module.arcs access.fact.functionId).card

theorem projectsNormal_cases {access normal : ParameterizedAccess}
    (h : module.ProjectsNormal access normal) :
    (∃ call ∈ module.directCallBindings,
        AroundCycle module.boundRoots module.passedIndices call ∧
        (projectAccess call access).map normalAccess = some normal) ∧
      module.reachCount access = module.reachCount normal ∨
    module.reachCount access < module.reachCount normal := by
  obtain ⟨call, hcall, hcallee, hproject⟩ := h
  obtain ⟨site, hsite, hbuild, harc, hcloses⟩ := mem_directCallBindings hcall
  have hfunction : normal.fact.functionId = call.callerFunctionId := by
    obtain ⟨projected, hprojected, rfl⟩ := Option.map_eq_some_iff.mp hproject
    rw [(projectAccess_eq_some hprojected).2]
    rfl
  unfold AccessModule.reachCount
  rw [hfunction, ← hcallee]
  cases hcycle : module.closesCycle site with
  | true =>
      left
      rw [hcycle] at hbuild
      refine ⟨⟨call, hcall, aroundCycle_of_closing hsite hcycle hbuild, hproject⟩, ?_⟩
      rw [Components.reach_eq_of_cycle harc (hcloses.mp hcycle)]
  | false =>
      right
      apply Components.card_reach_lt harc
      intro hreach
      rw [hcloses.mpr hreach] at hcycle
      cases hcycle

theorem projectsNormal_finite (access : ParameterizedAccess) :
    {normal | module.ProjectsNormal access normal}.Finite := by
  have hall : {normal | normal ∈ module.directCallBindings.filterMap fun call =>
      (projectAccess call access).map normalAccess}.Finite := List.finite_toSet _
  apply hall.subset
  rintro normal ⟨call, hcall, -, hproject⟩
  exact List.mem_filterMap.mpr ⟨call, hcall, hproject⟩

theorem reachedNormal_finite (module : AccessModule) : module.ReachedNormal.Finite := by
  apply reached_finite_of_rank module.reachCount (fun access normal =>
    ∃ call ∈ module.directCallBindings, AroundCycle module.boundRoots module.passedIndices call ∧
      (projectAccess call access).map normalAccess = some normal)
  · intro access _
    exact Nat.lt_succ_of_le (Components.card_reach_le access.fact.functionId)
  · exact List.finite_toSet _
  · exact projectsNormal_finite
  · intro access normal _ hstep
    exact projectsNormal_cases hstep
  · intro seeds hseeds
    refine ⟨seeds ∪ module.aroundCycles seeds, hseeds.union (aroundCycles_finite module hseeds),
      Set.subset_union_left, ?_⟩
    rintro access haccess normal ⟨call, hcall, haround, hproject⟩
    exact aroundCycles_closed hcall haround haccess hproject

theorem normalAccess_reached {access projected : ParameterizedAccess}
    (h : normalAccess access ∈ module.ReachedNormal) {call : DirectCallBinding}
    (hcall : call ∈ module.directCallBindings)
    (hcallee : call.calleeFunctionId = access.fact.functionId)
    (hproject : projectAccess call access = some projected) :
    normalAccess projected ∈ module.ReachedNormal := by
  apply Reached.step h
  refine ⟨call, hcall, hcallee, ?_⟩
  rw [projectAccess_normalAccess, hproject]
  rfl

end Keys

end ConcurrencyAnalyzer.FactsBuilder
