import ConcurrencyAnalyzer.LockState.HeldFlow

namespace ConcurrencyAnalyzer.LockState

open Program Library

structure LockScopeTracker where
  summaries : LockWrapperSummaries := fun _ => none
  sharedObjects : SharedObjectBindings := []
  designatesRecursiveLockType : Pointer → Bool := fun _ => false

namespace LockScopeTracker

variable (tracker : LockScopeTracker)

-- An object kept for lack of proof names no lock, nor does that of an entry a direct call also runs.
def sharedObjectOf (functionId : String) : Option SharedObjectBinding :=
  ((tracker.sharedObjects.find? (·.1 = functionId)).map (·.2)).filter fun binding =>
    !binding.keptForLackOfProof && !binding.runByDirectCalls

def resolver (functionId : String) : SynchronizationEffectResolver where
  functionId := functionId
  summaries := tracker.summaries
  sharedObject := tracker.sharedObjectOf functionId
  localObjects := sharedObjectNames tracker.sharedObjects .Local
  nameParameterFieldLocks := true
  designatesRecursiveLockType := tracker.designatesRecursiveLockType

variable (function : Function)

def changeAt (instruction : Instruction) : LockStateChange :=
  lockStateChangeFor (tracker.resolver function.id) function instruction

-- A function is entered with no lock of its own.
def heldFlow : HeldFlow where
  function := function
  changeAt := tracker.changeAt function
  initial := ∅

abbrev flow : Dataflow Nat LockSet := (tracker.heldFlow function).dataflow

-- Each round but the last lowers the state of a block, which can go down once for each lock, and
-- once from not being known.
def states : Dataflow.States Nat LockSet :=
  (tracker.flow function).solve
    (function.reachableBlocks.length * (2 * ((tracker.heldFlow function).lockNames.card + 1)))

-- The locks held before an instruction, nothing where the function never gets. The source writes
-- them down in every round; the last one, which changes no state, leaves these.
def collectHeldLocks (block index : Nat) : Option LockSet :=
  function.blocks[block]?.bind fun found =>
    match (tracker.states function block).input with
    | none => none
    | some held => some ((tracker.heldFlow function).heldPast found index held)

variable {tracker} {function}

theorem weight_start_le (tracker : LockScopeTracker) (function : Function) :
    (tracker.flow function).weight Finset.card (tracker.heldFlow function).lockNames
        (tracker.flow function).start ≤
      function.reachableBlocks.length * (2 * ((tracker.heldFlow function).lockNames.card + 1)) :=
  Nat.le_of_lt_succ (tracker.heldFlow function).weight_start_lt

-- The rounds of the source end.
theorem states_end (tracker : LockScopeTracker) (function : Function) :
    Ends (tracker.flow function).unchanged (tracker.flow function).round
      (tracker.flow function).start (tracker.states function) :=
  Dataflow.solve_ends Finset.card_strictMono (fun block => HeldFlow.transfer_mono block)
    (tracker.heldFlow function).initial_subset_lockNames
    (fun block _ hknown => HeldFlow.transfer_subset_lockNames block hknown)
    (weight_start_le tracker function)

-- They leave every reachable block in line with its predecessors.
theorem solved_states (tracker : LockScopeTracker) (function : Function) :
    (tracker.flow function).Solved (tracker.states function) :=
  Dataflow.solved_solve Finset.card_strictMono (fun block => HeldFlow.transfer_mono block)
    (tracker.heldFlow function).initial_subset_lockNames
    (fun block _ hknown => HeldFlow.transfer_subset_lockNames block hknown)
    (weight_start_le tracker function)

-- What the analysis takes to be held before an instruction.
section HeldLocks

variable {block index : Nat} {found : Block} {held : LockSet}

theorem collectHeldLocks_entry : tracker.collectHeldLocks function 0 0 = some ∅ := by
  have hentry : (tracker.states function 0).input = ((∅ : LockSet) : WithTop LockSet) :=
    (solved_states tracker function).entry
  unfold collectHeldLocks
  rw [List.getElem?_eq_getElem function.entryExists, hentry]
  rfl

theorem collectHeldLocks_next {instruction : Instruction}
    (hinstruction : function.instructionAt block index = some instruction)
    (h : tracker.collectHeldLocks function block index = some held) :
    tracker.collectHeldLocks function block (index + 1) =
      some (applyChange (tracker.changeAt function instruction) held) := by
  have hat : (tracker.heldFlow function).function.instructionAt block index = some instruction :=
    hinstruction
  unfold collectHeldLocks at h ⊢
  cases hblock : function.blocks[block]? with
  | none => simp [hblock] at h
  | some found =>
      simp only [hblock, Option.bind_some] at h ⊢
      cases hinput : (tracker.states function block).input with
      | top => simp [hinput] at h
      | coe input =>
          simp only [hinput, Option.some.injEq] at h ⊢
          subst h
          rw [HeldFlow.heldPast_succ hblock hat]
          rfl

theorem collectHeldLocks_branch {successor : Nat} (hreachable : block ∈ function.reachable)
    (hblock : function.blocks[block]? = some found) (hsuccessor : successor ∈ found.successors)
    (h : tracker.collectHeldLocks function block found.instructions.length = some held) :
    ∃ next, tracker.collectHeldLocks function successor 0 = some next ∧ next ⊆ held := by
  have hmem : successor ∈ function.successors block := by
    unfold Function.successors
    rwa [hblock]
  have hlt : block < function.blocks.length := (List.getElem?_eq_some_iff.mp hblock).1
  have hsuccessorLt := Function.successor_lt hmem
  have hblocks : block ∈ (tracker.flow function).blocks :=
    Function.mem_reachableBlocks.mpr ⟨hlt, hreachable⟩
  have hsuccessorBlocks : successor ∈ (tracker.flow function).blocks :=
    Function.mem_reachableBlocks.mpr
      ⟨hsuccessorLt, Function.reachable_successor hreachable hmem⟩
  have hsolved := solved_states tracker function
  have houtput : (tracker.states function block).output = (held : WithTop LockSet) := by
    rw [hsolved.output block hblocks]
    unfold collectHeldLocks at h
    cases hinput : (tracker.states function block).input with
    | top => simp [hblock, hinput] at h
    | coe input =>
        simp only [hblock, hinput, Option.bind_some, Option.some.injEq] at h
        rw [WithTop.map_coe, ← h]
        show (((tracker.heldFlow function).transfer block input : LockSet) : WithTop LockSet) = _
        rw [HeldFlow.transfer_of_block hblock]
  unfold collectHeldLocks
  rw [List.getElem?_eq_getElem hsuccessorLt, Option.bind_some]
  by_cases hentry : successor = 0
  · have hempty := hsolved.entry
    subst hentry
    rw [show (tracker.states function 0).input = ((∅ : LockSet) : WithTop LockSet) from hempty]
    exact ⟨∅, rfl, Finset.empty_subset held⟩
  · have hle : (tracker.states function successor).input ≤ (held : WithTop LockSet) := by
      rw [hsolved.input successor hsuccessorBlocks hentry, ← houtput]
      exact Dataflow.meet_le _ (Function.mem_predecessors hmem)
    cases hinput : (tracker.states function successor).input with
    | top =>
        rw [hinput] at hle
        exact absurd hle (WithTop.not_top_le_coe held)
    | coe next =>
        rw [hinput] at hle
        exact ⟨next, rfl, WithTop.coe_le_coe.mp hle⟩

end HeldLocks

-- The locks some path of the function from its entry arrives at an instruction with.
abbrev Arrives (tracker : LockScopeTracker) (function : Function) (block index : Nat)
    (held : LockSet) : Prop :=
  (tracker.heldFlow function).Held block index held

-- No path arrives without a lock the analysis takes to be held.
theorem collectHeldLocks_of_arrives {block index : Nat} {held : LockSet}
    (h : Arrives tracker function block index held) :
    block ∈ function.reachable ∧
      ∃ known, tracker.collectHeldLocks function block index = some known ∧ known ⊆ held := by
  induction h with
  | entry => exact ⟨function.entry_reachable, ∅, collectHeldLocks_entry, Finset.Subset.refl _⟩
  | next _ hinstruction ih =>
      obtain ⟨hreachable, known, hknown, hsubset⟩ := ih
      exact ⟨hreachable, _, collectHeldLocks_next hinstruction hknown, applyChange_mono _ hsubset⟩
  | @branch block _ found _ _ hfound hsuccessor _ ih =>
      have hblock : function.blocks[block]? = some found := hfound
      obtain ⟨hreachable, known, hknown, hsubset⟩ := ih
      obtain ⟨next, hnext, hle⟩ := collectHeldLocks_branch hreachable hfound hsuccessor hknown
      refine ⟨Function.reachable_successor hreachable ?_, next, hnext, hle.trans hsubset⟩
      unfold Function.successors
      rwa [hblock]

end LockScopeTracker

end ConcurrencyAnalyzer.LockState
