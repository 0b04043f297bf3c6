import ConcurrencyAnalyzer.TaskConcurrency.HandleTheorems
import ConcurrencyAnalyzer.TaskConcurrency.RunningThreads
import Mathlib.Data.List.ReduceOption

namespace ConcurrencyAnalyzer.TaskConcurrency

open Program Library Lifecycle

variable {module : TaskModule}

section Places

-- The names that handles have where they are filled or joined, and those that calls pass.
def namesInPlace (module : TaskModule) : List String :=
  (module.functions.flatMap fun found => found.spawns.map (·.handleGroupId) ++
      found.adoptions.map (·.handleGroupId) ++ found.joins.map (·.handleGroupId)) ++
    module.directCallSites.flatMap fun site => site.groups.reduceOption

theorem mem_field {α : Type} {field : TaskFunction → List α} {function : Nat} {element : α}
    (h : element ∈ (module.functions[function]?.map field).getD []) :
    function < module.functions.length ∧ ∃ found ∈ module.functions, element ∈ field found := by
  cases hfound : module.functions[function]? with
  | none =>
      rw [hfound] at h
      exact absurd h List.not_mem_nil
  | some found =>
      rw [hfound] at h
      exact ⟨(List.getElem?_eq_some_iff.mp hfound).1, found, List.mem_of_getElem? hfound, h⟩

theorem spawn_mem_namesInPlace {function : Nat} {spawn : SpawnSite}
    (h : spawn ∈ module.spawnsOf function) : spawn.handleGroupId ∈ namesInPlace module := by
  obtain ⟨_, found, hfound, hspawn⟩ := mem_field h
  refine List.mem_append_left _ (List.mem_flatMap.mpr ⟨found, hfound, ?_⟩)
  exact List.mem_append_left _ (List.mem_append_left _ (List.mem_map_of_mem hspawn))

theorem adoption_mem_namesInPlace {function : Nat} {adoption : AdoptionSite}
    (h : adoption ∈ module.adoptionsOf function) : adoption.handleGroupId ∈ namesInPlace module := by
  obtain ⟨_, found, hfound, hadoption⟩ := mem_field h
  refine List.mem_append_left _ (List.mem_flatMap.mpr ⟨found, hfound, ?_⟩)
  exact List.mem_append_left _ (List.mem_append_right _ (List.mem_map_of_mem hadoption))

theorem join_mem_namesInPlace {function : Nat} {join : JoinSite}
    (h : join ∈ module.joinsIn function) : join.handleGroupId ∈ namesInPlace module := by
  obtain ⟨_, found, hfound, hjoin⟩ := mem_field h
  refine List.mem_append_left _ (List.mem_flatMap.mpr ⟨found, hfound, ?_⟩)
  exact List.mem_append_right _ (List.mem_map_of_mem hjoin)

theorem group_mem_namesInPlace {site : DirectCallSite} (hsite : site ∈ module.directCallSites)
    {group : String} (h : some group ∈ site.groups) : group ∈ namesInPlace module := by
  refine List.mem_append_right _ (List.mem_flatMap.mpr ⟨site, hsite, ?_⟩)
  exact List.reduceOption_mem_iff.mpr h

theorem mem_callsOf {function : Nat} {site : DirectCallSite} (h : site ∈ module.callsOf function) :
    site ∈ module.directCallSites ∧ site.caller = function := by
  obtain ⟨hsite, hconditions⟩ := List.mem_filter.mp h
  rw [Bool.and_eq_true, decide_eq_true_eq] at hconditions
  exact ⟨hsite, hconditions.1⟩

theorem functionOf_lt {id : String} {function : Nat} (h : module.functionOf id = some function) :
    function < module.functions.length ∧ module.functions[function]?.map (·.id) = some id := by
  obtain ⟨hlt, hid, _⟩ := List.findIdx?_eq_some_iff_getElem.mp h
  refine ⟨hlt, ?_⟩
  rw [List.getElem?_eq_getElem hlt, Option.map_some, of_decide_eq_true hid]

theorem caller_lt {site : DirectCallSite} (h : site ∈ module.directCallSites) :
    site.caller < module.functions.length := by
  obtain ⟨found, hfound, _⟩ := Option.map_eq_some_iff.mp (module.callersNamed site h)
  exact (List.getElem?_eq_some_iff.mp hfound).1

end Places

section Summaries

variable {bound : Nat} (hbound : ∀ name ∈ namesInPlace module, name.toList.length ≤ bound)

theorem handlesAdded_mono (visit : SummaryVisit) : Monotone (handlesAdded module visit) := by
  intro facts other hle
  cases visit with
  | inPlace function => exact Finset.Subset.refl _
  | call site => exact Finset.biUnion_subset_biUnion_of_subset_left _ hle

-- The functions that facts may be of, and the handles they may be about.
def KnownHandle (module : TaskModule) (bound : Nat) (fact : HandleFact) : Prop :=
  fact.function < module.functions.length ∧ Bounded bound fact.handle

theorem finite_knownHandle (module : TaskModule) (bound : Nat) :
    {fact | KnownHandle module bound fact}.Finite := by
  have hfacts := ((Set.finite_lt_nat module.functions.length).prod
    ((List.finite_toSet [HandleEffect.started, .joined, .reported]).prod (finite_bounded bound))).image
      fun parts : Nat × HandleEffect × String => HandleFact.mk parts.1 parts.2.1 parts.2.2
  refine hfacts.subset fun fact hfact => ?_
  refine ⟨(fact.function, fact.effect, fact.handle), ⟨hfact.1, ?_, hfact.2⟩, rfl⟩
  cases fact.effect <;> simp

include hbound

theorem handlesInPlace_known {function : Nat} {fact : HandleFact}
    (h : fact ∈ handlesInPlace module function) : KnownHandle module bound fact := by
  unfold handlesInPlace at h
  rcases List.mem_append.mp h with hfilled | hjoined
  · rcases List.mem_append.mp hfilled with hspawned | hadopted
    · obtain ⟨spawn, hspawn, rfl⟩ := List.mem_map.mp hspawned
      exact ⟨(mem_field hspawn).1, bounded_of_length (hbound _ (spawn_mem_namesInPlace hspawn))⟩
    · obtain ⟨adoption, hadoption, rfl⟩ := List.mem_map.mp hadopted
      exact ⟨(mem_field hadoption).1,
        bounded_of_length (hbound _ (adoption_mem_namesInPlace hadoption))⟩
  · obtain ⟨join, hjoin, heffects⟩ := List.mem_flatMap.mp hjoined
    obtain ⟨effect, _, rfl⟩ := List.mem_map.mp heffects
    exact ⟨(mem_field hjoin).1, bounded_of_length (hbound _ (join_mem_namesInPlace hjoin))⟩

theorem handlesAtCall_known {site : DirectCallSite} (hsite : site ∈ module.directCallSites)
    {fact added : HandleFact} (hfact : KnownHandle module bound fact)
    (h : added ∈ handlesAtCall module site fact) : KnownHandle module bound added := by
  unfold handlesAtCall at h
  split at h
  · split at h
    · rename_i handle hrenamed
      obtain ⟨effect, _, rfl⟩ := List.mem_map.mp h
      refine ⟨caller_lt hsite, hfact.2.atCaller (fun group hgroup => ?_) hrenamed⟩
      exact hbound group (group_mem_namesInPlace hsite hgroup)
    · exact absurd h List.not_mem_nil
  · exact absurd h List.not_mem_nil

omit hbound in
theorem call_mem_directCallSites {order : List Nat} {site : DirectCallSite}
    (h : .call site ∈ order.flatMap (summaryVisits module)) : site ∈ module.directCallSites := by
  obtain ⟨function, _, hof⟩ := List.mem_flatMap.mp h
  rcases List.mem_cons.mp hof with heq | hcall
  · cases heq
  · obtain ⟨_, hcalls, heq⟩ := List.mem_map.mp hcall
    cases heq
    exact (mem_callsOf hcalls).1

theorem handlesAdded_known {order : List Nat} {visit : SummaryVisit}
    (hvisit : visit ∈ order.flatMap (summaryVisits module)) {facts : Finset HandleFact}
    (hfacts : ∀ fact ∈ facts, KnownHandle module bound fact) :
    ∀ fact ∈ handlesAdded module visit facts, KnownHandle module bound fact := by
  intro fact hfact
  cases visit with
  | inPlace other => exact handlesInPlace_known hbound (List.mem_toFinset.mp hfact)
  | call site =>
      have hsite := call_mem_directCallSites hvisit
      obtain ⟨through, hthrough, hadded⟩ := Finset.mem_biUnion.mp hfact
      exact handlesAtCall_known hbound hsite (hfacts through hthrough) (List.mem_toFinset.mp hadded)

omit hbound in
theorem exists_summarizeHandles (module : TaskModule) (order : List Nat) :
    ∃ bound, ∀ fuel, bound ≤ fuel →
      Ends Accumulation.unchanged (summaries module order).round ∅
          (summarizeHandles module order fuel) ∧
        IsLeast {facts | (summaries module order).Solves facts}
          (summarizeHandles module order fuel) := by
  obtain ⟨bound, hbound⟩ := exists_length_bound (namesInPlace module)
  exact Accumulation.exists_solve handlesAdded_mono (finite_knownHandle module bound)
    fun visit hvisit facts hfacts => handlesAdded_known hbound hvisit hfacts

end Summaries

section Leaks

variable {facts : Finset HandleFact}

-- The entries that spawns name, and those that calls pass.
def entriesNamed (module : TaskModule) : List String :=
  (module.functions.flatMap fun found => found.spawns.map (·.entryFunctionId)) ++
    entriesPassed module.includeExternalEntries module.directCallSites

theorem spawn_mem_entriesNamed {function : Nat} {spawn : SpawnSite}
    (h : spawn ∈ module.spawnsOf function) : spawn.entryFunctionId ∈ entriesNamed module := by
  obtain ⟨_, found, hfound, hspawn⟩ := mem_field h
  exact List.mem_append_left _ (List.mem_flatMap.mpr ⟨found, hfound, List.mem_map_of_mem hspawn⟩)

theorem entryAtCaller_mem_entriesNamed {site : DirectCallSite}
    (hsite : site ∈ module.directCallSites) {entry named : String}
    (hentry : entry ∈ entriesNamed module)
    (h : entryAtCaller module.includeExternalEntries entry site = some named) :
    named ∈ entriesNamed module := by
  rcases entryAtCaller_mem hsite h with rfl | hpassed
  · exact hentry
  · exact List.mem_append_right _ hpassed

theorem leakedFrom_mono : Monotone (leakedFrom module facts) := by
  intro leaked other hle function
  refine Finset.union_subset_union_right (Finset.biUnion_mono fun site _ => ?_)
  refine Finset.biUnion_subset_biUnion_of_subset_left _ ?_
  cases module.functionOf site.calleeFunctionId with
  | none => exact Finset.Subset.refl _
  | some callee => exact hle callee

-- The threads there may be, by handles of some kind.
def KnownThread (module : TaskModule) (Handle : String → Prop) (thread : ThreadInstance) : Prop :=
  thread.entryFunctionId ∈ entriesNamed module ∧ ∀ handle ∈ thread.handle, Handle handle

theorem finite_knownThread (module : TaskModule) {Handle : String → Prop}
    (h : {handle | Handle handle}.Finite) : {thread | KnownThread module Handle thread}.Finite := by
  have hhandles := (h.image some).insert none
  have hthreads := ((entriesNamed module).finite_toSet.prod hhandles).image
    fun parts : String × Option String => ThreadInstance.mk parts.1 parts.2
  refine hthreads.subset fun thread hthread => ?_
  refine ⟨(thread.entryFunctionId, thread.handle), ⟨hthread.1, ?_⟩, rfl⟩
  cases hhandle : thread.handle with
  | none => exact Set.mem_insert none _
  | some handle => exact Set.mem_insert_of_mem _ ⟨handle, hthread.2 handle hhandle, rfl⟩

variable {bound : Nat} (hbound : ∀ name ∈ namesInPlace module, name.toList.length ≤ bound)

include hbound

theorem spawnedInstance_known {function : Nat} {spawn : SpawnSite}
    (h : spawn ∈ module.spawnsOf function) :
    KnownThread module (Bounded bound) (spawnedInstance module facts function spawn) := by
  refine ⟨spawn_mem_entriesNamed h, fun handle hhandle => ?_⟩
  have hheld : spawnHandle module facts function spawn = some handle := hhandle
  unfold spawnHandle at hheld
  split at hheld
  · rw [← Option.some.inj hheld]
    exact bounded_of_length (hbound _ (spawn_mem_namesInPlace h))
  · cases hheld

theorem handleOf_bounded {site : DirectCallSite} (hsite : site ∈ module.directCallSites)
    {thread : ThreadInstance} (hthread : KnownThread module (Bounded bound) thread) {handle : String}
    (h : handleOf site thread = some handle) : Bounded bound handle := by
  obtain ⟨held, hheld, hrenamed⟩ := Option.bind_eq_some_iff.mp h
  exact (hthread.2 held hheld).atCaller
    (fun group hgroup => hbound group (group_mem_namesInPlace hsite hgroup)) hrenamed

theorem leakedThrough_known {function : Nat} {site : DirectCallSite}
    (hsite : site ∈ module.directCallSites) {thread left : ThreadInstance}
    (hthread : KnownThread module (Bounded bound) thread)
    (h : leakedThrough module facts function site thread = some left) :
    KnownThread module (Bounded bound) left := by
  obtain ⟨entry, hentry, hleft⟩ := Option.bind_eq_some_iff.mp h
  split at hleft
  · rw [← Option.some.inj hleft]
    refine ⟨entryAtCaller_mem_entriesNamed hsite hthread.1 hentry, fun handle hhandle => ?_⟩
    exact handleOf_bounded hbound hsite hthread (Option.filter_eq_some_iff.mp hhandle).1
  · cases hleft

theorem leakedFrom_known {leaked : Nat → Finset ThreadInstance}
    (hleaked : ∀ function, ∀ thread ∈ leaked function, KnownThread module (Bounded bound) thread)
    (function : Nat) :
    ∀ thread ∈ leakedFrom module facts leaked function, KnownThread module (Bounded bound) thread := by
  intro thread hthread
  rcases Finset.mem_union.mp hthread with hspawned | hcalled
  · obtain ⟨spawn, hspawn, rfl⟩ := List.mem_map.mp (List.mem_toFinset.mp hspawned)
    exact spawnedInstance_known hbound (List.mem_filter.mp hspawn).1
  · obtain ⟨site, hsite, hthrough⟩ := Finset.mem_biUnion.mp hcalled
    have hcalls := (List.mem_filter.mp (List.mem_toFinset.mp hsite)).1
    obtain ⟨held, hheld, hleft⟩ := Finset.mem_biUnion.mp hthrough
    refine leakedThrough_known hbound (mem_callsOf hcalls).1 ?_ (Option.mem_toFinset.mp hleft)
    cases hcallee : module.functionOf site.calleeFunctionId with
    | none =>
        rw [hcallee] at hheld
        exact absurd hheld (Finset.notMem_empty held)
    | some callee =>
        rw [hcallee] at hheld
        exact hleaked callee held hheld

omit hbound in
theorem exists_settleLeaks (module : TaskModule) (facts : Finset HandleFact) (order : List Nat) :
    ∃ bound, ∀ fuel, bound ≤ fuel →
      Ends (leaks module facts order).unchanged (leaks module facts order).round (fun _ => ∅)
          (settleLeaks module facts order fuel) ∧
        IsLeast {leaked | ∀ function ∈ order, leaked function = leakedFrom module facts leaked function}
          (settleLeaks module facts order fuel) := by
  obtain ⟨bound, hbound⟩ := exists_length_bound (namesInPlace module)
  have hknown (leaked : Nat → Finset ThreadInstance) (hleaked : ∀ function, ∀ thread ∈ leaked function,
      KnownThread module (Bounded bound) thread) (function : Nat) :
      ∀ thread ∈ (leaks module facts order).step leaked function,
        KnownThread module (Bounded bound) thread := leakedFrom_known hbound hleaked function
  exact Ascent.exists_solve leakedFrom_mono (finite_knownThread module (finite_bounded bound)) hknown

end Leaks

section Inheritance

variable {facts : Finset HandleFact} {leaked : Nat → Finset ThreadInstance}

theorem inheritedAdded_mono (site : DirectCallSite) :
    Monotone (inheritedAdded module facts leaked site) := by
  intro inherited other hle
  unfold inheritedAdded
  cases module.functionOf site.calleeFunctionId with
  | none => exact Finset.Subset.refl _
  | some callee =>
      refine Finset.image_subset_image (Finset.union_subset_union_right ?_)
      exact Finset.image_subset_image (Finset.filter_subset_filter _ hle)

-- The handles that a function receives: globals, and what hangs off its own parameters.
def Received (module : TaskModule) (path whole function : Nat) (handle : String) : Prop :=
  handle.toList.length ≤ whole ∧ (startsWith handle kGlobalStoragePrefix = true ∨
    ∃ id, module.functions[function]?.map (·.id) = some id ∧ HangsOff id path handle)

def KnownReceived (module : TaskModule) (entries : List String) (path whole : Nat)
    (received : Nat × ThreadInstance) : Prop :=
  received.1 < module.functions.length ∧ received.2.entryFunctionId ∈ entries ∧
    ∀ handle ∈ received.2.handle, Received module path whole received.1 handle

theorem finite_knownReceived (module : TaskModule) (entries : List String) (path whole : Nat) :
    {received | KnownReceived module entries path whole received}.Finite := by
  have hhandles := ((finite_texts whole).image some).insert none
  have hthreads := (entries.finite_toSet.prod hhandles).image
    fun parts : String × Option String => ThreadInstance.mk parts.1 parts.2
  refine ((Set.finite_lt_nat module.functions.length).prod hthreads).subset fun received h => ?_
  refine ⟨h.1, (received.2.entryFunctionId, received.2.handle), ⟨h.2.1, ?_⟩, rfl⟩
  cases hhandle : received.2.handle with
  | none => exact Set.mem_insert none _
  | some handle => exact Set.mem_insert_of_mem _ ⟨handle, (h.2.2 handle hhandle).1, rfl⟩

-- What the functions that make calls start themselves.
def startedAtCalls (module : TaskModule) (facts : Finset HandleFact)
    (leaked : Nat → Finset ThreadInstance) : Finset ThreadInstance :=
  module.directCallSites.toFinset.biUnion fun site =>
    startedAt module facts leaked site.caller site.call

-- What the parameters of callees are named.
def parameterNames (module : TaskModule) : List String :=
  module.directCallSites.flatMap fun site => (List.range site.groups.length).map
    (parameterGroup site.calleeFunctionId · "")

variable {path whole : Nat}
  (hpath : ∀ thread ∈ startedAtCalls module facts leaked, ∀ handle ∈ thread.handle,
    handle.toList.length ≤ path)
  (hwhole : ∀ name ∈ parameterNames module, name.toList.length + path ≤ whole) (hle : path ≤ whole)

include hwhole hle

-- A handle passed on has no longer path than it had, or than one the caller starts a thread with.
theorem received_of_passed {site : DirectCallSite} (hsite : site ∈ module.directCallSites)
    {callee : Nat} (hcallee : module.functionOf site.calleeFunctionId = some callee)
    {handle passed : String} (h : site.handleAtCallee handle = some passed)
    (hhandle : handle.toList.length ≤ path ∨ Received module path whole site.caller handle) :
    Received module path whole callee passed := by
  rcases handleAtCallee_cases h with ⟨rfl, hglobal⟩ |
    ⟨index, rest, group, hgroup, rfl, hrest, heq⟩
  · rcases hhandle with hshort | hreceived
    · exact ⟨hshort.trans hle, .inl hglobal⟩
    · exact ⟨hreceived.1, .inl hglobal⟩
  · have hlength : rest.toList.length ≤ path := by
      have hsuffix : rest.toList.length ≤ handle.toList.length := by
        rw [heq, String.toList_append, List.length_append]
        omega
      rcases hhandle with hshort | ⟨_, hglobal | ⟨id, hid, hoff⟩⟩
      · exact hsuffix.trans hshort
      · exfalso
        unfold DirectCallSite.handleAtCallee at h
        rw [if_pos hglobal, Option.some.injEq] at h
        rw [h] at hglobal
        obtain ⟨tail, htail⟩ := startsWith_iff.mp hglobal
        simp [kGlobalStoragePrefix, parameterGroup] at htail
      · rw [module.callersNamed site hsite, Option.some.injEq] at hid
        subst hid
        exact path_le_of_hangsOff (List.mem_of_getElem? hgroup) hoff hrest heq
    have hindex := (List.getElem?_eq_some_iff.mp hgroup).1
    have hname : parameterGroup site.calleeFunctionId index "" ∈ parameterNames module :=
      List.mem_flatMap.mpr ⟨site, hsite, List.mem_map_of_mem (List.mem_range.mpr hindex)⟩
    refine ⟨?_, .inr ⟨site.calleeFunctionId, (functionOf_lt hcallee).2, index, rest, rfl, hrest,
      hlength⟩⟩
    have hbound := hwhole _ hname
    have happend : (parameterGroup site.calleeFunctionId index rest).toList =
        (parameterGroup site.calleeFunctionId index "").toList ++ rest.toList := by
      simp [parameterGroup]
    rw [happend, List.length_append]
    omega

include hpath

theorem inheritedAdded_known {entries : List String}
    (hentries : ∀ thread ∈ startedAtCalls module facts leaked, thread.entryFunctionId ∈ entries)
    {site : DirectCallSite} (hsite : site ∈ module.directCallSites) {inherited : Inherited}
    (hinherited : ∀ received ∈ inherited, KnownReceived module entries path whole received) :
    ∀ received ∈ inheritedAdded module facts leaked site inherited,
      KnownReceived module entries path whole received := by
  intro received hreceived
  unfold inheritedAdded at hreceived
  split at hreceived
  · rename_i callee hcallee
    obtain ⟨thread, hthread, rfl⟩ := Finset.mem_image.mp hreceived
    refine ⟨(functionOf_lt hcallee).1, ?_⟩
    rcases Finset.mem_union.mp hthread with hstarted | hbefore
    · have hmem : thread ∈ startedAtCalls module facts leaked :=
        Finset.mem_biUnion.mpr ⟨site, List.mem_toFinset.mpr hsite, hstarted⟩
      refine ⟨hentries thread hmem, fun handle hhandle => ?_⟩
      obtain ⟨held, hheld, hpassed⟩ := Option.bind_eq_some_iff.mp hhandle
      exact received_of_passed hwhole hle hsite hcallee hpassed (.inl (hpath thread hmem held hheld))
    · obtain ⟨⟨function, other⟩, hother, rfl⟩ := Finset.mem_image.mp hbefore
      obtain ⟨hin, hcaller, _⟩ := Finset.mem_filter.mp hother
      dsimp only at hcaller
      subst hcaller
      have hknown := hinherited _ hin
      refine ⟨hknown.2.1, fun handle hhandle => ?_⟩
      obtain ⟨held, hheld, hpassed⟩ := Option.bind_eq_some_iff.mp hhandle
      exact received_of_passed hwhole hle hsite hcallee hpassed (.inr (hknown.2.2 held hheld))
  · exact absurd hreceived (Finset.notMem_empty received)

omit hpath hwhole hle in
theorem exists_settleInheritance (module : TaskModule) (facts : Finset HandleFact)
    (leaked : Nat → Finset ThreadInstance) :
    ∃ bound, ∀ fuel, bound ≤ fuel →
      Ends Accumulation.unchanged (inheritance module facts leaked).round ∅
          (settleInheritance module facts leaked fuel) ∧
        IsLeast {inherited | (inheritance module facts leaked).Solves inherited}
          (settleInheritance module facts leaked fuel) := by
  classical
  obtain ⟨path, hpath⟩ := exists_length_bound
    ((startedAtCalls module facts leaked).toList.filterMap (·.handle))
  obtain ⟨names, hnames⟩ := exists_length_bound (parameterNames module)
  have hstarted : ∀ thread ∈ startedAtCalls module facts leaked, ∀ handle ∈ thread.handle,
      handle.toList.length ≤ path := fun thread hthread handle hhandle =>
    hpath handle (List.mem_filterMap.mpr ⟨thread, Finset.mem_toList.mpr hthread, hhandle⟩)
  have hwhole : ∀ name ∈ parameterNames module, name.toList.length + path ≤ names + path :=
    fun name hname => Nat.add_le_add_right (hnames name hname) path
  have hentries : ∀ thread ∈ startedAtCalls module facts leaked, thread.entryFunctionId ∈
      (startedAtCalls module facts leaked).toList.map (·.entryFunctionId) :=
    fun thread hthread => List.mem_map_of_mem (Finset.mem_toList.mpr hthread)
  exact Accumulation.exists_solve inheritedAdded_mono (finite_knownReceived module _ _ _)
    fun site hsite inherited hinherited => inheritedAdded_known hstarted hwhole
      (Nat.le_add_left path names) hentries hsite hinherited

end Inheritance

section Starts

theorem startsAdded_mono (visit : SummaryVisit) : Monotone (startsAdded module visit) := by
  intro starts other hle
  cases visit with
  | inPlace function => exact Finset.Subset.refl _
  | call site => exact Finset.biUnion_subset_biUnion_of_subset_left _ hle

def KnownStart (module : TaskModule) (start : Nat × String) : Prop :=
  start.1 < module.functions.length ∧ start.2 ∈ entriesNamed module

theorem finite_knownStart (module : TaskModule) : {start | KnownStart module start}.Finite :=
  ((Set.finite_lt_nat module.functions.length).prod (entriesNamed module).finite_toSet).subset
    fun _ h => h

theorem startsAdded_known {order : List Nat} {visit : SummaryVisit}
    (hvisit : visit ∈ order.flatMap (summaryVisits module)) {starts : Starts}
    (hstarts : ∀ start ∈ starts, KnownStart module start) :
    ∀ start ∈ startsAdded module visit starts, KnownStart module start := by
  intro start hstart
  cases visit with
  | inPlace function =>
      obtain ⟨spawn, hspawn, rfl⟩ := List.mem_map.mp (List.mem_toFinset.mp hstart)
      exact ⟨(mem_field hspawn).1, spawn_mem_entriesNamed hspawn⟩
  | call site =>
      have hsite := call_mem_directCallSites hvisit
      obtain ⟨held, hheld, hadded⟩ := Finset.mem_biUnion.mp hstart
      split at hadded
      · obtain ⟨entry, hentry, rfl⟩ := Option.map_eq_some_iff.mp (Option.mem_toFinset.mp hadded)
        unfold atCaller at hentry
        split at hentry
        · cases hentry
        · exact ⟨caller_lt hsite,
            entryAtCaller_mem_entriesNamed hsite (hstarts held hheld).2 hentry⟩
      · exact absurd hadded (Finset.notMem_empty start)

theorem exists_settleStarts (module : TaskModule) (order : List Nat) :
    ∃ bound, ∀ fuel, bound ≤ fuel →
      Ends Accumulation.unchanged (entryStarts module order).round ∅ (settleStarts module order fuel) ∧
        IsLeast {starts | (entryStarts module order).Solves starts}
          (settleStarts module order fuel) :=
  Accumulation.exists_solve startsAdded_mono (finite_knownStart module)
    fun _ hvisit _ hstarts => startsAdded_known hvisit hstarts

end Starts

section Settlements

-- The functions of a module in the order that a walk of the map of them meets them.
structure WalkOrder (module : TaskModule) where
  functions : List Nat
  perm : functions.Perm (List.range module.functions.length)

theorem WalkOrder.mem_iff (order : WalkOrder module) {function : Nat} :
    function ∈ order.functions ↔ function < module.functions.length := by
  rw [order.perm.mem_iff, List.mem_range]

-- What functions do to handles is what they do in place and through their calls.
def HandleEquations (module : TaskModule) (facts : Finset HandleFact) : Prop :=
  ∀ fact, fact ∈ facts ↔ ∃ function < module.functions.length,
    ∃ visit ∈ summaryVisits module function, fact ∈ handlesAdded module visit facts

def LeakEquations (module : TaskModule) (facts : Finset HandleFact)
    (leaked : Nat → Finset ThreadInstance) : Prop :=
  ∀ function < module.functions.length, leaked function = leakedFrom module facts leaked function

def InheritanceEquations (module : TaskModule) (facts : Finset HandleFact)
    (leaked : Nat → Finset ThreadInstance) (inherited : Inherited) : Prop :=
  ∀ received, received ∈ inherited ↔
    ∃ site ∈ module.directCallSites, received ∈ inheritedAdded module facts leaked site inherited

def StartEquations (module : TaskModule) (starts : Starts) : Prop :=
  ∀ start, start ∈ starts ↔ ∃ function < module.functions.length,
    ∃ visit ∈ summaryVisits module function, start ∈ startsAdded module visit starts

theorem WalkOrder.solves_iff {φ : Type} [DecidableEq φ] (order : WalkOrder module)
    (adds : SummaryVisit → Finset φ → Finset φ) (facts : Finset φ) :
    (Accumulation.mk (order.functions.flatMap (summaryVisits module)) adds).Solves facts ↔
      ∀ fact, fact ∈ facts ↔ ∃ function < module.functions.length,
        ∃ visit ∈ summaryVisits module function, fact ∈ adds visit facts := by
  have hvisits (fact : φ) :
      (∃ visit ∈ order.functions.flatMap (summaryVisits module), fact ∈ adds visit facts) ↔
        ∃ function < module.functions.length, ∃ visit ∈ summaryVisits module function,
          fact ∈ adds visit facts := by
    constructor
    · rintro ⟨visit, hvisit, hfact⟩
      obtain ⟨function, hfunction, hof⟩ := List.mem_flatMap.mp hvisit
      exact ⟨function, order.mem_iff.mp hfunction, visit, hof, hfact⟩
    · rintro ⟨function, hlt, visit, hof, hfact⟩
      exact ⟨visit, List.mem_flatMap.mpr ⟨function, order.mem_iff.mpr hlt, hof⟩, hfact⟩
  unfold Accumulation.Solves
  simp only [hvisits]

-- Each settlement ends in the least solution of its equations, whatever order the functions are
-- walked in, and a handle renamed to a caller takes no more steps than a handle may.
theorem settlements_least (module : TaskModule) :
    (∀ site ∈ module.directCallSites, ∀ handle renamed, site.handleAtCaller handle = some renamed →
      renamed = handle ∨ renamed.toList.count '[' ≤ kMaxHandleSteps) ∧
    ∃ facts leaked inherited starts,
      IsLeast {facts | HandleEquations module facts} facts ∧
      IsLeast {leaked | LeakEquations module facts leaked} leaked ∧
      IsLeast {inherited | InheritanceEquations module facts leaked inherited} inherited ∧
      IsLeast {starts | StartEquations module starts} starts ∧
      ∀ order : WalkOrder module, ∃ bound, ∀ fuel, bound ≤ fuel →
        (Ends Accumulation.unchanged (summaries module order.functions).round ∅ facts ∧
          summarizeHandles module order.functions fuel = facts) ∧
        (Ends (leaks module facts order.functions).unchanged (leaks module facts order.functions).round
            (fun _ => ∅) leaked ∧
          settleLeaks module facts order.functions fuel = leaked) ∧
        (Ends Accumulation.unchanged (inheritance module facts leaked).round ∅ inherited ∧
          settleInheritance module facts leaked fuel = inherited) ∧
        Ends Accumulation.unchanged (entryStarts module order.functions).round ∅ starts ∧
          settleStarts module order.functions fuel = starts := by
  have hnameable : ∀ site ∈ module.directCallSites, ∀ handle renamed,
      site.handleAtCaller handle = some renamed →
        renamed = handle ∨ renamed.toList.count '[' ≤ kMaxHandleSteps := by
    intro site _ handle renamed hrenamed
    rcases handleAtCaller_nameable hrenamed with heq | hname
    · exact .inl heq
    · exact .inr (isNameableHandle_count hname)
  -- What each order settles is a least solution of equations that no order is in.
  have hfacts (order : WalkOrder module) : ∃ bound, ∀ fuel, bound ≤ fuel →
      Ends Accumulation.unchanged (summaries module order.functions).round ∅
          (summarizeHandles module order.functions fuel) ∧
        IsLeast {facts | HandleEquations module facts}
          (summarizeHandles module order.functions fuel) := by
    have hsame : {facts | (summaries module order.functions).Solves facts} =
        {facts | HandleEquations module facts} :=
      Set.ext fun facts => order.solves_iff (handlesAdded module) facts
    rw [← hsame]
    exact exists_summarizeHandles module order.functions
  have hstarts (order : WalkOrder module) : ∃ bound, ∀ fuel, bound ≤ fuel →
      Ends Accumulation.unchanged (entryStarts module order.functions).round ∅
          (settleStarts module order.functions fuel) ∧
        IsLeast {starts | StartEquations module starts}
          (settleStarts module order.functions fuel) := by
    have hsame : {starts | (entryStarts module order.functions).Solves starts} =
        {starts | StartEquations module starts} :=
      Set.ext fun starts => order.solves_iff (startsAdded module) starts
    rw [← hsame]
    exact exists_settleStarts module order.functions
  have hleaks (facts : Finset HandleFact) (order : WalkOrder module) : ∃ bound, ∀ fuel, bound ≤ fuel →
      Ends (leaks module facts order.functions).unchanged (leaks module facts order.functions).round
          (fun _ => ∅) (settleLeaks module facts order.functions fuel) ∧
        IsLeast {leaked | LeakEquations module facts leaked}
          (settleLeaks module facts order.functions fuel) := by
    have hsame : {leaked | ∀ function ∈ order.functions,
        leaked function = leakedFrom module facts leaked function} =
          {leaked | LeakEquations module facts leaked} := by
      ext leaked
      simp only [Set.mem_ofPred_eq, LeakEquations, order.mem_iff]
    rw [← hsame]
    exact exists_settleLeaks module facts order.functions
  let inOrder : WalkOrder module := ⟨List.range module.functions.length, List.Perm.refl _⟩
  obtain ⟨factsBound, hfactsInOrder⟩ := hfacts inOrder
  obtain ⟨_, hfactsLeast⟩ := hfactsInOrder factsBound le_rfl
  obtain ⟨leaksBound, hleaksInOrder⟩ := hleaks _ inOrder
  obtain ⟨_, hleaksLeast⟩ := hleaksInOrder leaksBound le_rfl
  obtain ⟨inheritedBound, hinherited⟩ := exists_settleInheritance module _ _
  obtain ⟨_, hinheritedLeast⟩ := hinherited inheritedBound le_rfl
  obtain ⟨startsBound, hstartsInOrder⟩ := hstarts inOrder
  obtain ⟨_, hstartsLeast⟩ := hstartsInOrder startsBound le_rfl
  refine ⟨hnameable, _, _, _, _, hfactsLeast, hleaksLeast, hinheritedLeast, hstartsLeast,
    fun order => ?_⟩
  obtain ⟨first, hfirst⟩ := hfacts order
  obtain ⟨second, hsecond⟩ := hleaks _ order
  obtain ⟨third, hthird⟩ := hstarts order
  refine ⟨max (max first second) (max third inheritedBound), fun fuel hfuel => ?_⟩
  simp only [sup_le_iff] at hfuel
  obtain ⟨hfactsEnds, hfactsOther⟩ := hfirst fuel hfuel.1.1
  obtain ⟨hleaksEnds, hleaksOther⟩ := hsecond fuel hfuel.1.2
  obtain ⟨hstartsEnds, hstartsOther⟩ := hthird fuel hfuel.2.1
  obtain ⟨hinheritedEnds, hinheritedOther⟩ := hinherited fuel hfuel.2.2
  have hfactsSame := hfactsOther.unique hfactsLeast
  have hleaksSame := hleaksOther.unique hleaksLeast
  have hinheritedSame := hinheritedOther.unique hinheritedLeast
  have hstartsSame := hstartsOther.unique hstartsLeast
  exact ⟨⟨hfactsSame ▸ hfactsEnds, hfactsSame⟩, ⟨hleaksSame ▸ hleaksEnds, hleaksSame⟩,
    ⟨hinheritedSame ▸ hinheritedEnds, hinheritedSame⟩, hstartsSame ▸ hstartsEnds, hstartsSame⟩

end Settlements

end ConcurrencyAnalyzer.TaskConcurrency
