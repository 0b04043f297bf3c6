import ConcurrencyAnalyzer.FactsBuilder.TranslationUnit
import ConcurrencyAnalyzer.Library.Components
import ConcurrencyAnalyzer.Library.StrongComponentSearch

namespace ConcurrencyAnalyzer.FactsBuilder

open Library Relation StrongComponents

-- The callees under a caller in `calleesByCaller`, one for each of its calls.
def calleesOf (sites : List DirectCallSite) (caller : String) : List String :=
  (sites.filter (·.callerFunctionId = caller)).map (·.calleeFunctionId)

-- An order in which an iteration over `calleesByCaller` meets the callers.
structure CallerOrder (sites : List DirectCallSite) where
  callers : List String
  nodup : callers.Nodup
  mem_iff : ∀ caller, caller ∈ callers ↔ ∃ site ∈ sites, site.callerFunctionId = caller

def CallerOrder.asListed (sites : List DirectCallSite) : CallerOrder sites where
  callers := (sites.map (·.callerFunctionId)).dedup
  nodup := List.nodup_dedup _
  mem_iff caller := by simp

-- `componentOf.at` throws for a function without a component.
def closingCall (componentOf : String → Option Nat) (closing : Finset InstructionId)
    (site : DirectCallSite) : Option (Finset InstructionId) := do
  let caller ← componentOf site.callerFunctionId
  let callee ← componentOf site.calleeFunctionId
  return if caller = callee then insert site.call closing else closing

-- The orders and components, which the source counts in `unsigned`, are fewer than the functions of
-- a module.
def callsClosingCycles (sites : List DirectCallSite) (order : CallerOrder sites) (fuel : Nat) :
    Option (Finset InstructionId) := do
  let final ← search (calleesOf sites) fuel order.callers
  sites.foldlM (closingCall final.componentOf) ∅

def callArcs (sites : List DirectCallSite) : List (String × String) :=
  sites.map fun site => (site.callerFunctionId, site.calleeFunctionId)

-- Through the calls listed, none of them included.
def LeadsTo (sites : List DirectCallSite) : String → String → Prop :=
  ReflTransGen (Components.Arc (callArcs sites))

variable {sites : List DirectCallSite}

theorem mem_calleesOf {caller callee : String} :
    callee ∈ calleesOf sites caller ↔ Components.Arc (callArcs sites) caller callee := by
  simp [calleesOf, Components.Arc, callArcs, and_assoc]

theorem reaches_calleesOf : Reaches (calleesOf sites) = LeadsTo sites := by
  have hsame : Arc (calleesOf sites) = Components.Arc (callArcs sites) := by
    funext caller callee
    exact propext mem_calleesOf
  rw [Reaches, hsame, LeadsTo]

theorem leadsTo_of_mem {site : DirectCallSite} (hsite : site ∈ sites) :
    LeadsTo sites site.callerFunctionId site.calleeFunctionId :=
  .single (List.mem_map_of_mem hsite)

-- The functions that the calls name.
def namedFunctions (sites : List DirectCallSite) : Finset String :=
  (sites.map (·.callerFunctionId)).toFinset ∪ (sites.map (·.calleeFunctionId)).toFinset

theorem callee_mem_namedFunctions {caller callee : String} (h : callee ∈ calleesOf sites caller) :
    callee ∈ namedFunctions sites := by
  obtain ⟨site, hsite, hsame⟩ := List.mem_map.mp h
  rw [namedFunctions, Finset.mem_union, List.mem_toFinset, List.mem_toFinset, ← hsame]
  exact Or.inr (List.mem_map_of_mem (List.mem_of_mem_filter hsite))

-- Where both ends of every call have a component, the loop over the calls throws nothing.
theorem exists_closing {componentOf : String → Option Nat} (calls : List DirectCallSite)
    (hcalls : ∀ site ∈ calls, componentOf site.callerFunctionId ≠ none ∧
      componentOf site.calleeFunctionId ≠ none) (closing : Finset InstructionId) :
    ∃ result, calls.foldlM (closingCall componentOf) closing = some result ∧
      ∀ call, call ∈ result ↔ call ∈ closing ∨ ∃ site ∈ calls, site.call = call ∧
        componentOf site.callerFunctionId = componentOf site.calleeFunctionId := by
  induction calls generalizing closing with
  | nil => exact ⟨closing, rfl, by simp⟩
  | cons site rest ih =>
      obtain ⟨hcaller, hcallee⟩ := hcalls site (List.mem_cons_self ..)
      obtain ⟨caller, hcaller⟩ := Option.ne_none_iff_exists'.mp hcaller
      obtain ⟨callee, hcallee⟩ := Option.ne_none_iff_exists'.mp hcallee
      have hsite : closingCall componentOf closing site =
          some (if caller = callee then insert site.call closing else closing) := by
        simp [closingCall, hcaller, hcallee]
      obtain ⟨result, hresult, hmem⟩ := ih (fun other hother =>
        hcalls other (List.mem_cons_of_mem _ hother))
        (if caller = callee then insert site.call closing else closing)
      refine ⟨result, ?_, fun call => ?_⟩
      · rw [List.foldlM_cons, hsite]
        exact hresult
      · rw [hmem, List.exists_mem_cons_iff, hcaller, hcallee, Option.some_inj]
        by_cases hsame : caller = callee
        · rw [if_pos hsame, Finset.mem_insert]
          grind
        · rw [if_neg hsame]
          simp [hsame]

-- Where no call is listed twice, what is found of one is what the summaries ask of it, which find the
-- functions its callee leads to.
theorem closing_iff_reach (hdistinct : (sites.map (·.call)).Nodup) {closing : Finset InstructionId}
    (hclosing : ∀ call, call ∈ closing ↔ ∃ site ∈ sites, site.call = call ∧
      LeadsTo sites site.calleeFunctionId site.callerFunctionId)
    {site : DirectCallSite} (hsite : site ∈ sites) :
    site.call ∈ closing ↔
      site.callerFunctionId ∈ Components.reach (callArcs sites) site.calleeFunctionId := by
  rw [hclosing, Components.mem_reach_iff]
  constructor
  · rintro ⟨other, hother, hcall, hback⟩
    have hsame : other = site := List.inj_on_of_nodup_map hdistinct hother hsite hcall
    rwa [hsame] at hback
  · intro hback
    exact ⟨site, hsite, rfl, hback⟩

-- Given enough fuel, the search finds the calls whose callee leads back to their caller.
theorem exists_closingCalls (order : CallerOrder sites) {fuel : Nat}
    (hfuel : enoughFuel (calleesOf sites) (namedFunctions sites) ≤ fuel) :
    ∃ closing, callsClosingCycles sites order fuel = some closing ∧
      ∀ call, call ∈ closing ↔ ∃ site ∈ sites, site.call = call ∧
        LeadsTo sites site.calleeFunctionId site.callerFunctionId := by
  have hroots : ∀ caller ∈ order.callers, caller ∈ namedFunctions sites := by
    intro caller hcaller
    obtain ⟨site, hsite, hsame⟩ := (order.mem_iff caller).mp hcaller
    rw [namedFunctions, Finset.mem_union, List.mem_toFinset, ← hsame]
    exact Or.inl (List.mem_map_of_mem hsite)
  obtain ⟨final, hfinal, hreached, hcomponents⟩ :=
    search_spec (fun _ _ _ => callee_mem_namedFunctions) hfuel hroots
  rw [reaches_calleesOf] at hreached hcomponents
  have hends : ∀ site ∈ sites, final.componentOf site.callerFunctionId ≠ none ∧
      final.componentOf site.calleeFunctionId ≠ none := by
    intro site hsite
    have hcaller := (order.mem_iff site.callerFunctionId).mpr ⟨site, hsite, rfl⟩
    exact ⟨hreached _ hcaller _ .refl, hreached _ hcaller _ (leadsTo_of_mem hsite)⟩
  obtain ⟨closing, hclosing, hmem⟩ := exists_closing sites hends ∅
  refine ⟨closing, ?_, fun call => ?_⟩
  · rw [callsClosingCycles, hfinal]
    exact hclosing
  · rw [hmem, or_iff_right (Finset.notMem_empty call)]
    constructor
    · rintro ⟨site, hsite, hcall, hsame⟩
      obtain ⟨hcaller, hcallee⟩ := hends site hsite
      exact ⟨site, hsite, hcall, ((hcomponents _ _ hcaller hcallee).mp hsame).2⟩
    · rintro ⟨site, hsite, hcall, hback⟩
      obtain ⟨hcaller, hcallee⟩ := hends site hsite
      refine ⟨site, hsite, hcall, (hcomponents _ _ hcaller hcallee).mpr ⟨?_, hback⟩⟩
      exact leadsTo_of_mem hsite

-- However the callers are met, the search ends, and a call is found if and only if its callee leads
-- back to its caller.
theorem calls_closing_cycles_exact (sites : List DirectCallSite) (order : CallerOrder sites) :
    ∃ bound, ∀ fuel, bound ≤ fuel → ∃ closing, callsClosingCycles sites order fuel = some closing ∧
      ∀ call, call ∈ closing ↔ ∃ site ∈ sites, site.call = call ∧
        LeadsTo sites site.calleeFunctionId site.callerFunctionId :=
  ⟨enoughFuel (calleesOf sites) (namedFunctions sites), fun _ hfuel => exists_closingCalls order hfuel⟩

-- A self call, two calls that close a cycle of two, and one that leaves it.
example :
    let sites : List DirectCallSite :=
      [⟨0, "f", "f", {}, {}, false⟩, ⟨1, "f", "g", {}, {}, false⟩, ⟨2, "g", "f", {}, {}, false⟩,
        ⟨3, "g", "h", {}, {}, false⟩]
    callsClosingCycles sites (.asListed sites) 10 = some {0, 1, 2} := by
  decide

end ConcurrencyAnalyzer.FactsBuilder
