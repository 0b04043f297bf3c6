import ConcurrencyAnalyzer.ThreadEntries.Module
import ConcurrencyAnalyzer.Library.QueueSearch

namespace ConcurrencyAnalyzer.ThreadEntries

open Library Relation

section Collect

variable (module : Module)

-- The destructor a call has the runtime run when the calling thread ends.
def registeredDestructor (call : Call) : Option String :=
  if call.kind = .ThreadExitDestructorRegistration then
    (call.operands.head?.bind resolveFunctionValue).filter module.defines
  else none

def destructorEdges : List (String × String) :=
  module.functions.flatMap fun function =>
    (function.calls.filterMap (registeredDestructor module)).map (function.id, ·)

def calleesByFunction (sites : List DirectCallSite) (functionId : String) : List String :=
  ((sites.map fun site => (site.callerFunctionId, site.calleeFunctionId)) ++
    destructorEdges module).filterMap fun edge => if edge.1 = functionId then some edge.2 else none

-- The functions in the order the search from an entry takes them up.
def functionsReachedFrom (sites : List DirectCallSite) (entry : String) : List String :=
  QueueSearch.walk (calleesByFunction module sites) (sites.length + (destructorEdges module).length + 2)
    (QueueSearch.start entry)

def insertEntry (entry : String) (contexts : String → Option ThreadEntrySet) (functionId : String) :
    String → Option ThreadEntrySet :=
  Function.update contexts functionId (some (insert entry ((contexts functionId).getD ∅)))

-- `entries` are the keys of the entry concurrency.
def collectThreadContexts (sites : List DirectCallSite) (entries : List String) :
    String → Option ThreadEntrySet :=
  entries.foldl (fun contexts entry =>
    (functionsReachedFrom module sites entry).foldl (insertEntry entry) contexts) fun _ => none

-- A function runs another in its own thread: it calls it, or leaves it to the end of the thread.
def RunsInThread (sites : List DirectCallSite) (caller callee : String) : Prop :=
  (∃ site ∈ sites, site.callerFunctionId = caller ∧ site.calleeFunctionId = callee) ∨
    ∃ function ∈ module.functions, function.id = caller ∧
      ∃ call ∈ function.calls, registeredDestructor module call = some callee

end Collect

variable {module : Module} {sites : List DirectCallSite}

theorem mem_calleesByFunction {caller callee : String} :
    callee ∈ calleesByFunction module sites caller ↔ RunsInThread module sites caller callee := by
  unfold calleesByFunction RunsInThread
  rw [List.mem_filterMap]
  constructor
  · rintro ⟨⟨source, target⟩, hmem, hsome⟩
    by_cases hcaller : source = caller
    · subst hcaller
      simp only [if_true, Option.some.injEq] at hsome
      subst hsome
      rcases List.mem_append.mp hmem with hsite | hedges
      · obtain ⟨site, hsite, hsame⟩ := List.mem_map.mp hsite
        obtain ⟨hcaller, hcallee⟩ := Prod.mk.inj hsame
        exact .inl ⟨site, hsite, hcaller, hcallee⟩
      · obtain ⟨function, hfunction, hedge⟩ := List.mem_flatMap.mp hedges
        obtain ⟨destructor, hdestructor, hsame⟩ := List.mem_map.mp hedge
        obtain ⟨hid, rfl⟩ := Prod.mk.inj hsame
        obtain ⟨call, hcall, hregistered⟩ := List.mem_filterMap.mp hdestructor
        exact .inr ⟨function, hfunction, hid, call, hcall, hregistered⟩
    · simp [hcaller] at hsome
  · rintro (⟨site, hsite, rfl, rfl⟩ | ⟨function, hfunction, rfl, call, hcall, hregistered⟩)
    · exact ⟨_, List.mem_append_left _ (List.mem_map_of_mem hsite), by simp⟩
    · refine ⟨(function.id, callee), List.mem_append_right _ (List.mem_flatMap.mpr ⟨function, hfunction, ?_⟩),
        by simp⟩
      exact List.mem_map.mpr ⟨callee, List.mem_filterMap.mpr ⟨call, hcall, hregistered⟩, rfl⟩

-- The search from an entry takes each function that runs in its threads once.
theorem functionsReachedFrom_exact (module : Module) (sites : List DirectCallSite) (entry : String) :
    (functionsReachedFrom module sites entry).Nodup ∧
      ∀ functionId, functionId ∈ functionsReachedFrom module sites entry ↔
        ReflTransGen (RunsInThread module sites) entry functionId := by
  let edges := (sites.map fun site => (site.callerFunctionId, site.calleeFunctionId)) ++
    destructorEdges module
  have hbound : ∀ caller, ∀ callee ∈ calleesByFunction module sites caller,
      callee ∈ insert entry (edges.map Prod.snd).toFinset := by
    intro caller callee hmem
    obtain ⟨edge, hedge, hsome⟩ := List.mem_filterMap.mp hmem
    refine Finset.mem_insert_of_mem (List.mem_toFinset.mpr (List.mem_map.mpr ⟨edge, hedge, ?_⟩))
    by_cases hcaller : edge.1 = caller
    · simpa [hcaller] using hsome
    · simp [hcaller] at hsome
  have hcard : (insert entry (edges.map Prod.snd).toFinset).card <
      sites.length + (destructorEdges module).length + 2 := by
    have hinsert := Finset.card_insert_le entry (edges.map Prod.snd).toFinset
    have hlist := List.toFinset_card_le (edges.map Prod.snd)
    simp only [edges, List.length_map, List.length_append] at hinsert hlist ⊢
    omega
  obtain ⟨hnodup, hmem⟩ := QueueSearch.walk_exact (Finset.mem_insert_self _ _) hbound hcard
  refine ⟨hnodup, fun functionId => (hmem functionId).trans ?_⟩
  simp only [mem_calleesByFunction]

theorem mem_foldl_insertEntry (entry : String) (functions : List String)
    (contexts : String → Option ThreadEntrySet) (functionId other : String) :
    other ∈ (functions.foldl (insertEntry entry) contexts functionId).getD ∅ ↔
      other ∈ (contexts functionId).getD ∅ ∨ other = entry ∧ functionId ∈ functions := by
  induction functions generalizing contexts with
  | nil => simp
  | cons first rest ih =>
      rw [List.foldl_cons, ih, List.mem_cons]
      unfold insertEntry
      by_cases hfirst : functionId = first
      · subst hfirst
        rw [Function.update_self, Option.getD_some, Finset.mem_insert]
        tauto
      · rw [Function.update_of_ne hfirst]
        tauto

theorem foldl_insertEntry_isSome (entry : String) (functions : List String)
    (contexts : String → Option ThreadEntrySet) (functionId : String) :
    (functions.foldl (insertEntry entry) contexts functionId).isSome =
      ((contexts functionId).isSome || decide (functionId ∈ functions)) := by
  induction functions generalizing contexts with
  | nil => simp
  | cons first rest ih =>
      rw [List.foldl_cons, ih]
      unfold insertEntry
      by_cases hfirst : functionId = first
      · subst hfirst
        simp
      · rw [Function.update_of_ne hfirst]
        simp [hfirst]

-- A function has the entries whose threads run it.
theorem mem_collectThreadContexts {entries : List String} {functionId entry : String} :
    entry ∈ (collectThreadContexts module sites entries functionId).getD ∅ ↔
      entry ∈ entries ∧ ReflTransGen (RunsInThread module sites) entry functionId := by
  have hfold (contexts : String → Option ThreadEntrySet) :
      entry ∈ (entries.foldl (fun contexts entry =>
        (functionsReachedFrom module sites entry).foldl (insertEntry entry) contexts) contexts
          functionId).getD ∅ ↔ entry ∈ (contexts functionId).getD ∅ ∨
            entry ∈ entries ∧ ReflTransGen (RunsInThread module sites) entry functionId := by
    induction entries generalizing contexts with
    | nil => simp
    | cons first rest ih =>
        rw [List.foldl_cons, ih, mem_foldl_insertEntry, (functionsReachedFrom_exact module sites first).2,
          List.mem_cons]
        constructor
        · rintro ((h | ⟨rfl, h⟩) | h)
          · exact .inl h
          · exact .inr ⟨.inl rfl, h⟩
          · exact .inr ⟨.inr h.1, h.2⟩
        · rintro (h | ⟨rfl | hmem, h⟩)
          · exact .inl (.inl h)
          · exact .inl (.inr ⟨rfl, h⟩)
          · exact .inr ⟨hmem, h⟩
  have h := hfold fun _ => none
  simpa [collectThreadContexts] using h

theorem exists_entry_of_context {entries : List String} {functionId : String}
    (h : (collectThreadContexts module sites entries functionId).isSome = true) :
    ∃ entry ∈ entries, ReflTransGen (RunsInThread module sites) entry functionId := by
  have hfold (contexts : String → Option ThreadEntrySet) :
      (entries.foldl (fun contexts entry =>
        (functionsReachedFrom module sites entry).foldl (insertEntry entry) contexts) contexts
          functionId).isSome = true →
        (contexts functionId).isSome = true ∨ ∃ entry ∈ entries,
          ReflTransGen (RunsInThread module sites) entry functionId := by
    clear h
    induction entries generalizing contexts with
    | nil => exact .inl
    | cons first rest ih =>
        intro h
        rcases ih _ h with hbefore | ⟨entry, hmem, hreached⟩
        · rw [foldl_insertEntry_isSome] at hbefore
          simp only [Bool.or_eq_true, decide_eq_true_eq] at hbefore
          rcases hbefore with hbefore | hreached
          · exact .inl hbefore
          · exact .inr ⟨first, List.mem_cons_self ..,
              ((functionsReachedFrom_exact module sites first).2 _).mp hreached⟩
        · exact .inr ⟨entry, List.mem_cons_of_mem _ hmem, hreached⟩
  simpa using hfold (fun _ => none) h

-- A function has the entries whose threads run it, and a set of its own only where there is one.
theorem collectThreadContexts_exact (module : Module) (sites : List DirectCallSite)
    (entries : List String) (functionId : String) :
    (∀ entry, entry ∈ (collectThreadContexts module sites entries functionId).getD ∅ ↔
      entry ∈ entries ∧ ReflTransGen (RunsInThread module sites) entry functionId) ∧
    collectThreadContexts module sites entries functionId ≠ some ∅ := by
  refine ⟨fun entry => mem_collectThreadContexts, fun hempty => ?_⟩
  obtain ⟨entry, hentry, hreached⟩ := exists_entry_of_context (by
    rw [hempty]
    rfl : (collectThreadContexts module sites entries functionId).isSome = true)
  have hin := mem_collectThreadContexts.mpr ⟨hentry, hreached⟩
  rw [hempty] at hin
  exact absurd hin (Finset.notMem_empty _)

end ConcurrencyAnalyzer.ThreadEntries
