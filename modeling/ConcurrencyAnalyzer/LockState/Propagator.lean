import ConcurrencyAnalyzer.Library.Ascent
import ConcurrencyAnalyzer.LockState.ScopeTracker

namespace ConcurrencyAnalyzer.LockState

open Program Library

-- A lock named after a parameter of the caller means nothing in the callee.
def locksForCallee (callerLocks : LockSet) : LockSet :=
  callerLocks.filter fun lockId => (parameterLockPlace lockId).isNone

-- The called functions, in the order the source happens to walk its map of them.
structure CalleeOrder (sites : List CallSite) where
  callees : List String
  complete : ∀ site ∈ sites, site.callee ∈ callees

def CalleeOrder.ofSites (sites : List CallSite) : CalleeOrder sites where
  callees := (sites.map (·.callee)).dedup
  complete _ hsite := List.mem_dedup.mpr (List.mem_map_of_mem hsite)

namespace LockStatePropagator

-- The loop over the callees, for any calls and any locks held at them.
section Calls

variable (localHeldLocks : CallSite → LockSet) (sites : List CallSite)

def incomingCalls (callee : String) : List CallSite :=
  sites.filter (·.callee = callee)

-- What a call hands to the callee: what the caller holds there, by what it is known to hold on entry.
def locksAtCall (entryLocks : String → LockSet) (site : CallSite) : LockSet :=
  locksForCallee (localHeldLocks site ∪ entryLocks site.caller)

def mergedEntryLocks (entryLocks : String → LockSet) : List CallSite → LockSet
  | [] => ∅
  | first :: rest =>
      rest.foldl (fun merged site => merged ∩ locksAtCall localHeldLocks entryLocks site)
        (locksAtCall localHeldLocks entryLocks first)

def callAscent (order : CalleeOrder sites) : Ascent String LockSet where
  keys := order.callees
  step entryLocks callee := mergedEntryLocks localHeldLocks entryLocks (incomingCalls sites callee)

-- Every lock held at some call.
def locksAtCalls : LockSet :=
  sites.foldr (fun site locks => localHeldLocks site ∪ locks) ∅

-- Each round but the last adds a lock to the entry of some function.
def entryLocksOf (order : CalleeOrder sites) : String → LockSet :=
  (callAscent localHeldLocks sites order).solve
    (order.callees.length * (locksAtCalls localHeldLocks sites).card) fun _ => ∅

end Calls

section Fixpoint

variable {localHeldLocks : CallSite → LockSet} {sites : List CallSite}

theorem mem_mergedEntryLocks {entryLocks : String → LockSet} {calls : List CallSite} {lock : String} :
    lock ∈ mergedEntryLocks localHeldLocks entryLocks calls ↔
      calls ≠ [] ∧ ∀ site ∈ calls, lock ∈ locksAtCall localHeldLocks entryLocks site := by
  have hfoldl (rest : List CallSite) (merged : LockSet) :
      lock ∈ rest.foldl (fun merged site => merged ∩ locksAtCall localHeldLocks entryLocks site)
          merged ↔
        lock ∈ merged ∧ ∀ site ∈ rest, lock ∈ locksAtCall localHeldLocks entryLocks site := by
    induction rest generalizing merged with
    | nil => simp
    | cons site rest ih =>
        rw [List.foldl_cons, ih, Finset.mem_inter, List.forall_mem_cons, and_assoc]
  cases calls with
  | nil => simp [mergedEntryLocks]
  | cons first rest => simp [mergedEntryLocks, hfoldl]

theorem mem_locksAtCall {entryLocks : String → LockSet} {site : CallSite} {lock : String} :
    lock ∈ locksAtCall localHeldLocks entryLocks site ↔
      (lock ∈ localHeldLocks site ∨ lock ∈ entryLocks site.caller) ∧
        parameterLockPlace lock = none := by
  simp [locksAtCall, locksForCallee]

theorem mem_incomingCalls {callee : String} {site : CallSite} :
    site ∈ incomingCalls sites callee ↔ site ∈ sites ∧ site.callee = callee := by
  simp [incomingCalls]

theorem locksAtCall_mono (site : CallSite) {entryLocks more : String → LockSet}
    (h : entryLocks ≤ more) :
    locksAtCall localHeldLocks entryLocks site ⊆ locksAtCall localHeldLocks more site :=
  Finset.filter_subset_filter _ (Finset.union_subset_union_right (h site.caller))

theorem callAscent_mono (order : CalleeOrder sites) :
    Monotone (callAscent localHeldLocks sites order).step := by
  intro entryLocks more h callee lock hlock
  obtain ⟨hcalled, hcalls⟩ := mem_mergedEntryLocks.mp hlock
  exact mem_mergedEntryLocks.mpr ⟨hcalled, fun site hsite => locksAtCall_mono site h (hcalls site hsite)⟩

theorem subset_locksAtCalls {site : CallSite} (hsite : site ∈ sites) :
    localHeldLocks site ⊆ locksAtCalls localHeldLocks sites := by
  unfold locksAtCalls
  induction sites with
  | nil => exact absurd hsite List.not_mem_nil
  | cons first rest ih =>
      rcases List.mem_cons.mp hsite with rfl | hsite
      · exact Finset.subset_union_left
      · exact (ih hsite).trans Finset.subset_union_right

theorem step_subset_locksAtCalls (order : CalleeOrder sites) {entryLocks : String → LockSet}
    (h : ∀ function, entryLocks function ≤ locksAtCalls localHeldLocks sites) (callee : String) :
    (callAscent localHeldLocks sites order).step entryLocks callee ≤
      locksAtCalls localHeldLocks sites := by
  intro lock hlock
  obtain ⟨hcalled, hcalls⟩ := mem_mergedEntryLocks.mp hlock
  obtain ⟨site, hsite⟩ := List.exists_mem_of_ne_nil _ hcalled
  rcases (mem_locksAtCall.mp (hcalls site hsite)).1 with hlocal | hentry
  · exact subset_locksAtCalls (mem_incomingCalls.mp hsite).1 hlocal
  · exact h site.caller hentry

theorem entryLocksOf_ends (order : CalleeOrder sites) :
    Ends (callAscent localHeldLocks sites order).unchanged
      (callAscent localHeldLocks sites order).round (fun _ => ∅)
      (entryLocksOf localHeldLocks sites order) :=
  Ascent.solve_ends Finset.card_strictMono (callAscent_mono order)
    (fun _ h => step_subset_locksAtCalls order h) (fun _ _ => Finset.empty_subset _)
    (fun _ => Finset.empty_subset _) le_rfl

theorem incomingCalls_eq_nil (order : CalleeOrder sites) {function : String}
    (h : function ∉ order.callees) : incomingCalls sites function = [] := by
  refine List.filter_eq_nil_iff.mpr fun site hsite hcallee => h ?_
  rw [← of_decide_eq_true hcallee]
  exact order.complete site hsite

-- Also a function that no round visits has what its equation gives it, which is nothing.
theorem entryLocksOf_fixed (order : CalleeOrder sites) (function : String) :
    entryLocksOf localHeldLocks sites order function =
      mergedEntryLocks localHeldLocks (entryLocksOf localHeldLocks sites order)
        (incomingCalls sites function) := by
  by_cases hcallee : function ∈ order.callees
  · exact Ascent.solve_fixed Finset.card_strictMono (callAscent_mono order)
      (fun _ h => step_subset_locksAtCalls order h) (fun _ _ => Finset.empty_subset _)
      (fun _ => Finset.empty_subset _) le_rfl hcallee
  · rw [incomingCalls_eq_nil order hcallee]
    have hkept (values : String → LockSet) (key : String)
        (hkey : key ∈ (callAscent localHeldLocks sites order).keys) (h : values function = ∅) :
        (callAscent localHeldLocks sites order).visit values key function = ∅ := by
      have hne : function ≠ key := fun heq => hcallee (heq ▸ hkey)
      rwa [Ascent.visit, Function.update_of_ne hne]
    exact Ascent.solve_invariant hkept _ rfl

end Fixpoint

variable (tracker : LockScopeTracker) (module : Module)

def localHeldLocks (site : CallSite) : LockSet :=
  ((module.functionWithId site.caller).bind fun caller =>
    tracker.collectHeldLocks caller site.block site.index).getD ∅

def entryLocksByFunction (order : CalleeOrder (collectDirectCallSites module)) : String → LockSet :=
  entryLocksOf (localHeldLocks tracker module) (collectDirectCallSites module) order

-- The locks of an access: those its function holds there and those it holds on entry.
def heldLocksOfAccess (order : CalleeOrder (collectDirectCallSites module)) (function : Function)
    (block index : Nat) : LockSet :=
  (tracker.collectHeldLocks function block index).getD ∅ ∪
    entryLocksByFunction tracker module order function.id

-- A lock held on entry is held at each call: by the caller there, or by the caller on entry.
theorem mem_entryLocks_of_call {tracker : LockScopeTracker} {module : Module}
    {order : CalleeOrder (collectDirectCallSites module)} {site : CallSite}
    (hsite : site ∈ collectDirectCallSites module) {lock : String}
    (hlock : lock ∈ entryLocksByFunction tracker module order site.callee) :
    lock ∈ localHeldLocks tracker module site ∨
      lock ∈ entryLocksByFunction tracker module order site.caller := by
  unfold entryLocksByFunction at hlock
  rw [entryLocksOf_fixed, mem_mergedEntryLocks] at hlock
  exact (mem_locksAtCall.mp (hlock.2 site (mem_incomingCalls.mpr ⟨hsite, rfl⟩))).1

-- Every path of the caller arrives at the call with the lock.
def HeldAtCall (lock : String) (site : CallSite) : Prop :=
  ∃ caller, module.functionWithId site.caller = some caller ∧
    ∀ held, LockScopeTracker.Arrives tracker caller site.block site.index held → lock ∈ held

-- Every chain of direct calls into the function passes a call made under the lock.
inductive EnteredUnder (lock : String) : String → Prop
  | calls {callee : String} (hcalled : incomingCalls (collectDirectCallSites module) callee ≠ [])
      (hnamed : parameterLockPlace lock = none)
      (hcalls : ∀ site ∈ incomingCalls (collectDirectCallSites module) callee,
        ¬HeldAtCall tracker module lock site → EnteredUnder lock site.caller) :
      EnteredUnder lock callee

theorem heldAtCall_of_local {lock : String} {site : CallSite}
    (h : lock ∈ localHeldLocks tracker module site) : HeldAtCall tracker module lock site := by
  unfold localHeldLocks at h
  cases hcaller : module.functionWithId site.caller with
  | none => simp [hcaller] at h
  | some caller =>
      refine ⟨caller, hcaller, fun held harrives => ?_⟩
      obtain ⟨_, known, hknown, hsubset⟩ :=
        LockScopeTracker.collectHeldLocks_of_arrives harrives
      rw [hcaller, Option.bind_some, hknown, Option.getD_some] at h
      exact hsubset h

theorem enteredUnder_of_mem_entryLocks {order : CalleeOrder (collectDirectCallSites module)}
    {lock function : String} (h : lock ∈ entryLocksByFunction tracker module order function) :
    EnteredUnder tracker module lock function := by
  have hvisit (entryLocks : String → LockSet) (callee : String)
      (_ : callee ∈ (callAscent (localHeldLocks tracker module) _ order).keys)
      (hbefore : ∀ function, ∀ lock ∈ entryLocks function, EnteredUnder tracker module lock function) :
      ∀ function, ∀ lock ∈ (callAscent (localHeldLocks tracker module) _ order).visit entryLocks callee
          function,
        EnteredUnder tracker module lock function := by
    intro function lock hlock
    by_cases hfunction : function = callee
    · subst hfunction
      rw [Ascent.visit, Function.update_self] at hlock
      obtain ⟨hcalled, hcalls⟩ := mem_mergedEntryLocks.mp hlock
      obtain ⟨site, hsite⟩ := List.exists_mem_of_ne_nil _ hcalled
      refine .calls hcalled (mem_locksAtCall.mp (hcalls site hsite)).2 fun caller hcaller hnot => ?_
      rcases (mem_locksAtCall.mp (hcalls caller hcaller)).1 with hlocal | hentry
      · exact absurd (heldAtCall_of_local tracker module hlocal) hnot
      · exact hbefore caller.caller lock hentry
    · rw [Ascent.visit, Function.update_of_ne hfunction] at hlock
      exact hbefore function lock hlock
  have hstart (function : String) : ∀ lock ∈ (∅ : LockSet), EnteredUnder tracker module lock function :=
    fun lock hlock => absurd hlock (Finset.notMem_empty lock)
  exact Ascent.solve_invariant hvisit _ hstart function lock h

end LockStatePropagator

end ConcurrencyAnalyzer.LockState
