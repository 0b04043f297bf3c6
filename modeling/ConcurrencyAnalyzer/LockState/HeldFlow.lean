import ConcurrencyAnalyzer.Library.Rounds
import ConcurrencyAnalyzer.LockState.Effects
import Mathlib.Data.Finset.Lattice.Basic

namespace ConcurrencyAnalyzer.LockState

open Program Library

-- The locks held along a function, from what its instructions do to them and what it is entered
-- with.
structure HeldFlow where
  function : Function
  changeAt : Instruction → LockStateChange
  initial : LockSet

namespace HeldFlow

variable (flow : HeldFlow)

-- What the first `count` instructions of a block leave held.
def heldPast (block : Block) (count : Nat) (held : LockSet) : LockSet :=
  (block.instructions.take count).foldl
    (fun held instruction => applyChange (flow.changeAt instruction) held) held

def transfer (block : Nat) (held : LockSet) : LockSet :=
  match flow.function.blocks[block]? with
  | none => held
  | some found => flow.heldPast found found.instructions.length held

def dataflow : Dataflow Nat LockSet where
  blocks := flow.function.reachableBlocks
  predecessors := flow.function.predecessors
  transfer := flow.transfer
  entry := 0
  initial := flow.initial

-- Every lock the function may hold.
def lockNames : LockSet :=
  flow.initial ∪ ((flow.function.blocks.flatMap (·.instructions)).flatMap fun instruction =>
    (flow.changeAt instruction).acquired).toFinset

-- More rounds than can change the state of a block: it goes down once for each lock, and once from
-- not being known.
def rounds : Nat := flow.function.reachableBlocks.length * (2 * (flow.lockNames.card + 1)) + 1

-- The locks a path of the function arrives at an instruction with, where it may follow some branches
-- only.
inductive Arrives (follows : Nat → Nat → Prop) : Nat → Nat → LockSet → Prop
  | entry : Arrives follows 0 0 flow.initial
  | next {block index held instruction} : Arrives follows block index held →
      flow.function.instructionAt block index = some instruction →
      Arrives follows block (index + 1) (applyChange (flow.changeAt instruction) held)
  | branch {block held found successor} :
      Arrives follows block found.instructions.length held →
      flow.function.blocks[block]? = some found → successor ∈ found.successors →
      follows block successor → Arrives follows successor 0 held

-- Any path.
def Held (block index : Nat) (held : LockSet) : Prop :=
  flow.Arrives (fun _ _ => True) block index held

-- The locks a path arrives with that goes back, in the order of the blocks, at most some number of
-- times.
def HeldWithin (returns block index : Nat) (held : LockSet) : Prop :=
  ∃ found brought, flow.function.blocks[block]? = some found ∧ index < found.instructions.length ∧
    flow.dataflow.BringsWithin returns block brought ∧ flow.heldPast found index brought = held

-- The locks all those paths arrive with.
structure HeldByAll (returns block index : Nat) (common : LockSet) : Prop where
  reached : ∃ held, flow.HeldWithin returns block index held
  mem : ∀ lock, lock ∈ common ↔ ∀ held, flow.HeldWithin returns block index held → lock ∈ held

variable {flow}

theorem heldPast_inter (block : Block) (count : Nat) (held other : LockSet) :
    flow.heldPast block count (held ∩ other) =
      flow.heldPast block count held ∩ flow.heldPast block count other := by
  unfold heldPast
  induction block.instructions.take count generalizing held other with
  | nil => rfl
  | cons instruction rest ih =>
      rw [List.foldl_cons, applyChange_inter, ih, List.foldl_cons, List.foldl_cons]

theorem transfer_inter (block : Nat) (held other : LockSet) :
    flow.transfer block (held ∩ other) = flow.transfer block held ∩ flow.transfer block other := by
  unfold transfer
  cases flow.function.blocks[block]? with
  | none => rfl
  | some found => exact heldPast_inter found found.instructions.length held other

theorem transfer_of_block {block : Nat} {found : Block}
    (hfound : flow.function.blocks[block]? = some found) (held : LockSet) :
    flow.transfer block held = flow.heldPast found found.instructions.length held := by
  rw [transfer, hfound]

theorem transfer_mono (block : Nat) : Monotone (flow.transfer block) :=
  fun _ _ hle => by rw [← Finset.inter_eq_left, ← transfer_inter, Finset.inter_eq_left.mpr hle]

theorem heldPast_succ {block : Nat} {found : Block} {index : Nat} {instruction : Instruction}
    (hfound : flow.function.blocks[block]? = some found)
    (hinstruction : flow.function.instructionAt block index = some instruction) (held : LockSet) :
    flow.heldPast found (index + 1) held =
      applyChange (flow.changeAt instruction) (flow.heldPast found index held) := by
  rw [Function.instructionAt, hfound, Option.bind_some] at hinstruction
  unfold heldPast
  rw [List.take_add_one, hinstruction, Option.toList_some, List.foldl_append]
  rfl

theorem acquired_subset_lockNames {block : Block} (hblock : block ∈ flow.function.blocks)
    {instruction : Instruction} (hinstruction : instruction ∈ block.instructions) :
    (flow.changeAt instruction).acquired.toFinset ⊆ flow.lockNames := by
  intro lock hlock
  rw [List.mem_toFinset] at hlock
  exact Finset.mem_union_right _ (List.mem_toFinset.mpr (List.mem_flatMap.mpr
    ⟨instruction, List.mem_flatMap.mpr ⟨block, hblock, hinstruction⟩, hlock⟩))

theorem applyChange_subset_lockNames {block : Block} (hblock : block ∈ flow.function.blocks)
    {instruction : Instruction} (hinstruction : instruction ∈ block.instructions) {held : LockSet}
    (h : held ⊆ flow.lockNames) :
    applyChange (flow.changeAt instruction) held ⊆ flow.lockNames :=
  Finset.union_subset (Finset.sdiff_subset.trans h) (acquired_subset_lockNames hblock hinstruction)

theorem heldPast_subset_lockNames {block : Block} (hblock : block ∈ flow.function.blocks)
    (count : Nat) {held : LockSet} (h : held ⊆ flow.lockNames) :
    flow.heldPast block count held ⊆ flow.lockNames := by
  have hrun (instructions : List Instruction)
      (hinstructions : ∀ instruction ∈ instructions, instruction ∈ block.instructions)
      (before : LockSet) (hbefore : before ⊆ flow.lockNames) :
      instructions.foldl
          (fun held instruction => applyChange (flow.changeAt instruction) held) before ⊆
        flow.lockNames := by
    induction instructions generalizing before with
    | nil => exact hbefore
    | cons instruction rest ih =>
        refine ih (fun next hnext => hinstructions next (List.mem_cons_of_mem _ hnext)) _ ?_
        exact applyChange_subset_lockNames hblock (hinstructions instruction List.mem_cons_self)
          hbefore
  exact hrun _ (fun instruction hinstruction => List.mem_of_mem_take hinstruction) held h

theorem transfer_subset_lockNames (block : Nat) {held : LockSet} (h : held ⊆ flow.lockNames) :
    flow.transfer block held ⊆ flow.lockNames := by
  unfold transfer
  cases hblock : flow.function.blocks[block]? with
  | none => exact h
  | some found => exact heldPast_subset_lockNames (List.mem_of_getElem? hblock) _ h

theorem initial_subset_lockNames (flow : HeldFlow) : flow.initial ⊆ flow.lockNames :=
  Finset.subset_union_left

theorem reachableBlocks_nodup (function : Function) : function.reachableBlocks.Nodup :=
  List.nodup_range.filter _

theorem weight_start_lt (flow : HeldFlow) :
    flow.dataflow.weight Finset.card flow.lockNames flow.dataflow.start < flow.rounds := by
  have hheight (known : WithTop LockSet) (hknown : known = ⊤ ∨ known = (flow.initial : LockSet)) :
      Dataflow.height Finset.card flow.lockNames known ≤ flow.lockNames.card + 1 := by
    rcases hknown with rfl | rfl
    · exact le_rfl
    · exact (Finset.card_le_card flow.initial_subset_lockNames).trans (Nat.le_succ _)
  have hbound := List.sum_le_card_nsmul
    (flow.dataflow.blocks.map fun block =>
      Dataflow.height Finset.card flow.lockNames (flow.dataflow.start block).input +
        Dataflow.height Finset.card flow.lockNames (flow.dataflow.start block).output)
    (2 * (flow.lockNames.card + 1)) (by
      intro height hmem
      obtain ⟨block, _, rfl⟩ := List.mem_map.mp hmem
      have hinput := hheight (flow.dataflow.start block).input (by
        unfold Dataflow.start
        split
        · exact .inr rfl
        · exact .inl rfl)
      have houtput := hheight (flow.dataflow.start block).output (.inl rfl)
      omega)
  have hle : flow.dataflow.weight Finset.card flow.lockNames flow.dataflow.start ≤
      flow.function.reachableBlocks.length * (2 * (flow.lockNames.card + 1)) := by
    simpa [Dataflow.weight, dataflow] using hbound
  unfold rounds
  omega

theorem Arrives.subset_lockNames {follows : Nat → Nat → Prop} {block index : Nat} {held : LockSet}
    (h : flow.Arrives follows block index held) : held ⊆ flow.lockNames := by
  induction h with
  | entry => exact flow.initial_subset_lockNames
  | next _ hinstruction ih =>
      obtain ⟨found, hfound, hget⟩ := Option.bind_eq_some_iff.mp hinstruction
      exact applyChange_subset_lockNames (List.mem_of_getElem? hfound) (List.mem_of_getElem? hget) ih
  | branch _ _ _ _ ih => exact ih

-- A path through a block arrives behind each of its instructions.
theorem Arrives.heldPast {follows : Nat → Nat → Prop} {block : Nat} {found : Block} {held : LockSet}
    (h : flow.Arrives follows block 0 held) (hfound : flow.function.blocks[block]? = some found)
    {count : Nat} (hcount : count ≤ found.instructions.length) :
    flow.Arrives follows block count (flow.heldPast found count held) := by
  induction count with
  | zero => exact h
  | succ count ih =>
      have hlt : count < found.instructions.length := by omega
      have hinstruction :
          flow.function.instructionAt block count = some found.instructions[count] := by
        rw [Function.instructionAt, hfound, Option.bind_some, List.getElem?_eq_getElem hlt]
      rw [heldPast_succ hfound hinstruction]
      exact (ih (by omega)).next hinstruction

-- What the analysis meets at a block is what paths of the function bring there.
theorem held_of_brings {block : Nat} {held : LockSet} (h : flow.dataflow.Brings block held) :
    flow.Held block 0 held := by
  induction h with
  | entry => exact .entry
  | @step predecessor block value _ hpredecessor ih =>
      have hsuccessor : block ∈ flow.function.successors predecessor := by
        simpa using (List.mem_filter.mp hpredecessor).2
      unfold Function.successors at hsuccessor
      show flow.Held block 0 (flow.transfer predecessor value)
      unfold transfer
      cases hfound : flow.function.blocks[predecessor]? with
      | none => simp [hfound] at hsuccessor
      | some found =>
          rw [hfound] at hsuccessor
          exact (Arrives.heldPast ih hfound le_rfl).branch hfound hsuccessor trivial

-- Some path that does not come back to the entry brings something to each block that is reached.
theorem exists_bringsWithin {block : Nat} (h : block ∈ flow.function.reachable) :
    ∃ returns held, flow.dataflow.BringsWithin returns block held := by
  have hnext (element : Nat) (helement : element ∈ flow.function.reachable ∧
      ∃ returns held, flow.dataflow.BringsWithin returns element held) :
      ∀ successor ∈ flow.function.successors element, successor ∈ flow.function.reachable ∧
        ∃ returns held, flow.dataflow.BringsWithin returns successor held := by
    intro successor hsuccessor
    obtain ⟨hreachable, returns, held, hheld⟩ := helement
    refine ⟨Function.reachable_successor hreachable hsuccessor, ?_⟩
    have hmem : element ∈ flow.dataflow.predecessors successor :=
      Function.mem_predecessors hsuccessor
    have hblocks : element ∈ flow.dataflow.blocks :=
      Function.mem_reachableBlocks.mpr
        ⟨List.mem_range.mp (List.mem_filter.mp hmem).1, hreachable⟩
    by_cases hentry : successor = flow.dataflow.entry
    · subst hentry
      exact ⟨0, _, .entry 0⟩
    · by_cases hbefore : flow.dataflow.Before element successor
      · exact ⟨_, _, hheld.onward hmem hentry hblocks hbefore⟩
      · exact ⟨_, _, hheld.back hmem hentry hblocks hbefore⟩
  have hentry : ∀ element ∈ ({0} : Finset Nat), element ∈ flow.function.reachable ∧
      ∃ returns held, flow.dataflow.BringsWithin returns element held := by
    intro element helement
    rw [Finset.mem_singleton.mp helement]
    exact ⟨flow.function.entry_reachable, 0, _, .entry 0⟩
  refine (Search.search_sound hnext _ _ _ hentry ?_ block h).2
  intro element helement
  exact hentry element (by simpa using helement)

theorem HeldWithin.held {returns block index : Nat} {held : LockSet}
    (h : flow.HeldWithin returns block index held) : flow.Held block index held := by
  obtain ⟨found, brought, hfound, hindex, hbrings, rfl⟩ := h
  exact (held_of_brings hbrings.brings).heldPast hfound hindex.le

theorem HeldByAll.unique {returns block index : Nat} {common common' : LockSet}
    (h : flow.HeldByAll returns block index common)
    (h' : flow.HeldByAll returns block index common') : common = common' := by
  ext lock
  rw [h.mem, h'.mem]

theorem mem_of_isMeet {brought : LockSet → Prop} {common : LockSet}
    (h : Dataflow.IsMeet brought (common : WithTop LockSet)) (lock : String) :
    lock ∈ common ↔ ∀ held, brought held → lock ∈ held := by
  constructor
  · intro hlock held hheld
    exact WithTop.coe_le_coe.mp (h.below held hheld) hlock
  · intro hall
    have hmeet := h.meet common rfl
    generalize hcommon : common = value at hmeet ⊢
    clear hcommon h
    induction hmeet with
    | value hvalue => exact hall _ hvalue
    | meet _ _ ih ihother => exact Finset.mem_inter.mpr ⟨ih, ihother⟩

theorem blocks_nodup (flow : HeldFlow) : flow.dataflow.blocks.Nodup :=
  reachableBlocks_nodup flow.function

theorem mem_blocks_of_bringsWithin {returns block : Nat} {held : LockSet}
    (h : flow.dataflow.BringsWithin returns block held) : block ∈ flow.dataflow.blocks := by
  have hstep {predecessor block : Nat} (hblocks : predecessor ∈ flow.dataflow.blocks)
      (hmem : predecessor ∈ flow.dataflow.predecessors block) : block ∈ flow.dataflow.blocks := by
    have hsuccessor : block ∈ flow.function.successors predecessor := by
      simpa using (List.mem_filter.mp hmem).2
    exact Function.mem_reachableBlocks.mpr ⟨Function.successor_lt hsuccessor,
      Function.reachable_successor (Function.mem_reachableBlocks.mp hblocks).2 hsuccessor⟩
  cases h with
  | entry =>
      exact Function.mem_reachableBlocks.mpr
        ⟨flow.function.entryExists, flow.function.entry_reachable⟩
  | onward _ hmem _ hblocks _ => exact hstep hblocks hmem
  | back _ hmem _ hblocks _ => exact hstep hblocks hmem

section Rounds

variable {returns block index : Nat} {found : Block} {held common : LockSet}

theorem round_input_isMeet (flow : HeldFlow) (returns : Nat) (hblock : block ∈ flow.dataflow.blocks) :
    Dataflow.IsMeet (flow.dataflow.BringsWithin returns block)
      (flow.dataflow.round^[returns + 1] flow.dataflow.start block).input :=
  Dataflow.round_input_isMeet transfer_inter flow.blocks_nodup returns hblock

-- What a round finds at an instruction is what all the paths arrive with that the rounds so far could
-- follow.
theorem heldByAll_of_input (hblock : block ∈ flow.dataflow.blocks)
    (hfound : flow.function.blocks[block]? = some found) (hindex : index < found.instructions.length)
    (hinput : (flow.dataflow.round^[returns + 1] flow.dataflow.start block).input =
      (held : WithTop LockSet)) :
    flow.HeldByAll returns block index (flow.heldPast found index held) := by
  have hmeet := (round_input_isMeet flow returns hblock).map fun held other =>
    show flow.heldPast found index (held ∩ other) = _ from heldPast_inter found index held other
  rw [hinput, WithTop.map_coe] at hmeet
  have hsame (passed : LockSet) :
      (∃ brought, flow.dataflow.BringsWithin returns block brought ∧
        flow.heldPast found index brought = passed) ↔
      flow.HeldWithin returns block index passed := by
    constructor
    · rintro ⟨brought, hbrings, hpassed⟩
      exact ⟨found, brought, hfound, hindex, hbrings, hpassed⟩
    · rintro ⟨found', brought, hfound', _, hbrings, hpassed⟩
      rw [hfound, Option.some.injEq] at hfound'
      subst hfound'
      exact ⟨brought, hbrings, hpassed⟩
  replace hmeet := hmeet.congr hsame
  exact ⟨Dataflow.exists_of_meetOf (hmeet.meet _ rfl), mem_of_isMeet hmeet⟩

theorem input_of_bringsWithin (h : flow.dataflow.BringsWithin returns block held) :
    ∃ known : LockSet, (flow.dataflow.round^[returns + 1] flow.dataflow.start block).input =
      (known : WithTop LockSet) := by
  have hmeet := round_input_isMeet flow returns (mem_blocks_of_bringsWithin h)
  have hle := hmeet.below held h
  cases hinput : (flow.dataflow.round^[returns + 1] flow.dataflow.start block).input with
  | top =>
      rw [hinput] at hle
      exact absurd hle (WithTop.not_top_le_coe held)
  | coe known => exact ⟨known, rfl⟩

theorem HeldByAll.input (h : flow.HeldByAll returns block index common) :
    ∃ (found : Block) (held : LockSet), block ∈ flow.dataflow.blocks ∧ flow.function.blocks[block]? = some found ∧
      index < found.instructions.length ∧
      (flow.dataflow.round^[returns + 1] flow.dataflow.start block).input =
        (held : WithTop LockSet) ∧ flow.heldPast found index held = common := by
  obtain ⟨_, found, brought, hfound, hindex, hbrings, _⟩ := h.reached
  obtain ⟨held, hinput⟩ := input_of_bringsWithin hbrings
  have hblock := mem_blocks_of_bringsWithin hbrings
  exact ⟨found, held, hblock, hfound, hindex, hinput,
    (heldByAll_of_input hblock hfound hindex hinput).unique h⟩

-- There is a first round that gets to an instruction of a block that is reached.
theorem exists_heldByAll (hreachable : block ∈ flow.function.reachable)
    (hfound : flow.function.blocks[block]? = some found)
    (hindex : index < found.instructions.length) :
    ∃ returns common, flow.HeldByAll returns block index common := by
  obtain ⟨returns, held, hbrings⟩ := exists_bringsWithin hreachable
  obtain ⟨known, hinput⟩ := input_of_bringsWithin hbrings
  exact ⟨returns, _, heldByAll_of_input (mem_blocks_of_bringsWithin hbrings) hfound hindex hinput⟩

end Rounds

end HeldFlow

end ConcurrencyAnalyzer.LockState
