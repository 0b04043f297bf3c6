import ConcurrencyAnalyzer.LockState.Propagator
import Mathlib.Data.Set.Lattice

namespace ConcurrencyAnalyzer.LockState

open Program Library

namespace LockScopeTracker

variable {tracker : LockScopeTracker} {function : Function}

theorem exists_arrives {block : Nat} (h : block ∈ function.reachable) :
    ∃ held, Arrives tracker function block 0 held := by
  have hreached : block ∈ (tracker.heldFlow function).function.reachable := h
  obtain ⟨_, held, hbrings⟩ := HeldFlow.exists_bringsWithin hreached
  exact ⟨held, HeldFlow.held_of_brings hbrings.brings⟩

-- A lock that a meet of the values of paths leaves out is left out by one of them.
theorem exists_notMem_of_meetOf {brought : LockSet → Prop} {known : LockSet}
    (h : Dataflow.MeetOf brought known) {lock : String} (hlock : lock ∉ known) :
    ∃ held, brought held ∧ lock ∉ held := by
  induction h with
  | value hvalue => exact ⟨_, hvalue, hlock⟩
  | @meet held other _ _ ih ihother =>
      have hmissed : ¬(lock ∈ held ∧ lock ∈ other) := by simpa using hlock
      by_cases hheld : lock ∈ held
      · exact ihother fun hother => hmissed ⟨hheld, hother⟩
      · exact ih hheld

-- Where the analysis leaves a lock out, some path arrives without it.
theorem exists_arrives_notMem {block index : Nat} {instruction : Instruction} {held : LockSet}
    (hinstruction : function.instructionAt block index = some instruction)
    (hheld : tracker.collectHeldLocks function block index = some held) {lock : String}
    (hlock : lock ∉ held) : ∃ path, Arrives tracker function block index path ∧ lock ∉ path := by
  have hwitnessed : (tracker.flow function).Witnessed (tracker.states function) :=
    Dataflow.witnessed_solve (fun block => HeldFlow.transfer_inter block) _
  obtain ⟨found, hfound, hat⟩ := Option.bind_eq_some_iff.mp hinstruction
  have hlt : index < found.instructions.length := (List.getElem?_eq_some_iff.mp hat).1
  unfold collectHeldLocks at hheld
  rw [hfound, Option.bind_some] at hheld
  cases hinput : (tracker.states function block).input with
  | top => simp [hinput] at hheld
  | coe known =>
      simp only [hinput, Option.some.injEq] at hheld
      subst hheld
      have hmeet := hwitnessed.input block known hinput
      have hpast : Dataflow.MeetOf (Arrives tracker function block index)
          ((tracker.heldFlow function).heldPast found index known) :=
        hmeet.map (HeldFlow.heldPast_inter found index) fun value hvalue =>
          (HeldFlow.held_of_brings hvalue).heldPast hfound hlt.le
      exact exists_notMem_of_meetOf hpast hlock

-- The loop ends, and finds before each instruction that is reached what all paths there hold.
theorem held_locks_meet_over_paths (tracker : LockScopeTracker) (function : Function) :
    Ends (tracker.flow function).unchanged (tracker.flow function).round (tracker.flow function).start
        (tracker.states function) ∧
      ∀ block index instruction, block ∈ function.reachable →
        function.instructionAt block index = some instruction →
        ∃ held, tracker.collectHeldLocks function block index = some held ∧
          (held : Set String) =
            ⋂ path ∈ {path : LockSet | Arrives tracker function block index path}, (path : Set String) := by
  refine ⟨states_end tracker function, fun block index instruction hreachable hinstruction => ?_⟩
  have hsome : ∃ held, Arrives tracker function block 0 held := exists_arrives hreachable
  obtain ⟨start, hstart⟩ := hsome
  obtain ⟨found, hfound, hat⟩ := Option.bind_eq_some_iff.mp hinstruction
  have hlt : index < found.instructions.length := (List.getElem?_eq_some_iff.mp hat).1
  obtain ⟨_, held, hheld, _⟩ := collectHeldLocks_of_arrives (hstart.heldPast hfound hlt.le)
  refine ⟨held, hheld, Set.Subset.antisymm ?_ ?_⟩
  · refine Set.subset_iInter₂ fun path hpath lock hlock => ?_
    obtain ⟨_, known, hknown, hsubset⟩ := collectHeldLocks_of_arrives hpath
    rw [hheld, Option.some.injEq] at hknown
    exact hsubset (hknown ▸ hlock)
  · intro lock hlock
    by_contra hmissed
    obtain ⟨path, hpath, hnot⟩ := exists_arrives_notMem hinstruction hheld hmissed
    exact hnot (Set.mem_iInter₂.mp hlock path hpath)

end LockScopeTracker

namespace LockStatePropagator

section EntryFamily

variable (localHeldLocks : CallSite → LockSet) (sites : List CallSite)

-- A function is entered with nothing where no call of it is recorded, and otherwise with what all its
-- calls hand to it.
def EntryFamily (entryLocks : String → LockSet) : Prop :=
  ∀ function, (entryLocks function : Set String) =
    if incomingCalls sites function = [] then ∅
    else ⋂ site ∈ {site | site ∈ incomingCalls sites function},
      (locksAtCall localHeldLocks entryLocks site : Set String)

end EntryFamily

section Least

variable {localHeldLocks : CallSite → LockSet} {sites : List CallSite}

theorem entryFamily_iff {entryLocks : String → LockSet} :
    EntryFamily localHeldLocks sites entryLocks ↔
      ∀ function, entryLocks function =
        mergedEntryLocks localHeldLocks entryLocks (incomingCalls sites function) := by
  refine forall_congr' fun function => ?_
  rw [← Finset.coe_inj]
  have hcommon : (mergedEntryLocks localHeldLocks entryLocks (incomingCalls sites function) : Set String) =
      if incomingCalls sites function = [] then ∅
      else ⋂ site ∈ {site | site ∈ incomingCalls sites function},
        (locksAtCall localHeldLocks entryLocks site : Set String) := by
    ext lock
    rw [Finset.mem_coe, mem_mergedEntryLocks]
    by_cases hcalled : incomingCalls sites function = []
    · simp [hcalled]
    · simp [hcalled]
  rw [hcommon]

-- The loop ends, in the least family of entry locks, whatever order the callees are visited in.
theorem entry_locks_least (localHeldLocks : CallSite → LockSet) (sites : List CallSite)
    (order : CalleeOrder sites) :
    Ends (callAscent localHeldLocks sites order).unchanged
        (callAscent localHeldLocks sites order).round (fun _ => ∅)
        (entryLocksOf localHeldLocks sites order) ∧
      IsLeast {entryLocks | EntryFamily localHeldLocks sites entryLocks}
        (entryLocksOf localHeldLocks sites order) ∧
      ∀ other : CalleeOrder sites,
        entryLocksOf localHeldLocks sites other = entryLocksOf localHeldLocks sites order := by
  have hleast (order : CalleeOrder sites) :
      IsLeast {entryLocks | EntryFamily localHeldLocks sites entryLocks}
        (entryLocksOf localHeldLocks sites order) := by
    refine ⟨entryFamily_iff.mpr (entryLocksOf_fixed order), fun entryLocks hfamily => ?_⟩
    refine Ascent.solve_le (callAscent_mono order) (fun callee _ => ?_) _
      fun _ => Finset.empty_subset _
    exact (entryFamily_iff.mp hfamily callee).ge
  exact ⟨entryLocksOf_ends order, hleast order, fun other => (hleast other).unique (hleast order)⟩

end Least

end LockStatePropagator

end ConcurrencyAnalyzer.LockState
