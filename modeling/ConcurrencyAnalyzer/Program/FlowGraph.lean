import Mathlib.Data.List.Basic

namespace ConcurrencyAnalyzer.Program

-- How control goes on past the last instruction of a block.
inductive Exit where
  | ret
  | branch (targets : List Nat)
  | invoke (normal unwind : Nat)
  deriving DecidableEq

-- The blocks gone on to, each with whether it is the unwind destination of an invoke.
def Exit.edges : Exit → List (Nat × Bool)
  | .ret => []
  | .branch targets => targets.map (·, false)
  | .invoke normal unwind => [(normal, false), (unwind, true)]

def Exit.successors (exit : Exit) : List Nat := exit.edges.map Prod.fst

-- A block by the number of its instructions, the last of which is its terminator.
structure FlowBlock where
  length : Nat
  exit : Exit
  hasTerminator : 0 < length := by decide
  deriving DecidableEq

-- The control flow of a function. Its first block is its entry.
structure FlowGraph where
  blocks : List FlowBlock
  entryExists : 0 < blocks.length := by decide
  successorsExist : ∀ block ∈ blocks, ∀ successor ∈ block.exit.successors,
    successor < blocks.length := by decide

-- An instruction, by its block and its place there.
structure Point where
  block : Nat
  index : Nat
  deriving DecidableEq

-- From one instruction to the next of its block, or along an edge.
inductive Move where
  | onward (point : Point)
  | edge (block successor : Nat) (unwinds : Bool)
  deriving DecidableEq

namespace FlowGraph

variable (graph : FlowGraph)

def length (block : Nat) : Nat := (graph.blocks[block]?.map (·.length)).getD 0

def exit (block : Nat) : Exit := (graph.blocks[block]?.map (·.exit)).getD .ret

def successors (block : Nat) : List Nat := (graph.exit block).successors

def last (block : Nat) : Point := ⟨block, graph.length block - 1⟩

-- Where an invoke goes on to when the call it makes does not complete.
def unwindDest (point : Point) : Option Nat :=
  if point.index + 1 = graph.length point.block then
    match graph.exit point.block with
    | .invoke _ unwind => some unwind
    | _ => none
  else none

-- Where an invoke goes on to once the call it makes has returned.
def normalDest (point : Point) : Option Nat :=
  if point.index + 1 = graph.length point.block then
    match graph.exit point.block with
    | .invoke normal _ => some normal
    | _ => none
  else none

structure Place extends Point where
  inside : index < graph.length block

inductive Takes : Move → Point → Point → Prop
  | onward {block index} : index + 1 < graph.length block →
      Takes (.onward ⟨block, index⟩) ⟨block, index⟩ ⟨block, index + 1⟩
  | edge {block successor unwinds} : (successor, unwinds) ∈ (graph.exit block).edges →
      Takes (.edge block successor unwinds) (graph.last block) ⟨successor, 0⟩

variable {graph}

theorem length_pos_iff {block : Nat} : 0 < graph.length block ↔ block < graph.blocks.length := by
  unfold length
  constructor
  · intro h
    by_contra hlarge
    simp [List.getElem?_eq_none (Nat.not_lt.mp hlarge)] at h
  · intro h
    rw [List.getElem?_eq_getElem h]
    exact (graph.blocks[block]).hasTerminator

theorem mem_edges_lt {block successor : Nat} {unwinds : Bool}
    (h : (successor, unwinds) ∈ (graph.exit block).edges) :
    block < graph.blocks.length ∧ successor < graph.blocks.length := by
  unfold exit at h
  by_cases hlt : block < graph.blocks.length
  · rw [List.getElem?_eq_getElem hlt] at h
    exact ⟨hlt, graph.successorsExist _ (List.getElem_mem hlt) _ (List.mem_map_of_mem h)⟩
  · rw [List.getElem?_eq_none (Nat.not_lt.mp hlt)] at h
    exact absurd h List.not_mem_nil

theorem successor_lt {block successor : Nat} (h : successor ∈ graph.successors block) :
    successor < graph.blocks.length := by
  obtain ⟨⟨_, unwinds⟩, hedge, rfl⟩ := List.mem_map.mp h
  exact (mem_edges_lt hedge).2

theorem unwindDest_eq_some {point : Point} {unwind : Nat}
    (h : graph.unwindDest point = some unwind) :
    point = graph.last point.block ∧ (unwind, true) ∈ (graph.exit point.block).edges ∧
      ∃ normal, graph.exit point.block = .invoke normal unwind := by
  unfold unwindDest at h
  split at h
  · rename_i hlast
    split at h
    · rename_i normal destination hexit
      rw [Option.some.injEq] at h
      subst h
      refine ⟨?_, by simp [hexit, Exit.edges], normal, hexit⟩
      obtain ⟨block, index⟩ := point
      simp only [last, Point.mk.injEq, true_and]
      dsimp only at hlast
      omega
    · cases h
  · cases h

theorem normalDest_eq_some {point : Point} {normal : Nat}
    (h : graph.normalDest point = some normal) :
    point = graph.last point.block ∧ (normal, false) ∈ (graph.exit point.block).edges := by
  unfold normalDest at h
  split at h
  · rename_i hlast
    split at h
    · rename_i destination unwind hexit
      rw [Option.some.injEq] at h
      subst h
      refine ⟨?_, by simp [hexit, Exit.edges]⟩
      obtain ⟨block, index⟩ := point
      simp only [last, Point.mk.injEq, true_and]
      dsimp only at hlast
      omega
    · cases h
  · cases h

-- An unwinding edge is that of an invoke.
theorem unwindDest_of_mem {block successor : Nat} (h : (successor, true) ∈ (graph.exit block).edges) :
    graph.unwindDest (graph.last block) = some successor := by
  have hpos : 0 < graph.length block := length_pos_iff.mpr (mem_edges_lt h).1
  have hlast : (graph.last block).index + 1 = graph.length (graph.last block).block := by
    simp only [last]
    omega
  unfold unwindDest
  rw [if_pos hlast]
  have hexit : graph.exit (graph.last block).block = graph.exit block := rfl
  rw [hexit]
  cases hcase : graph.exit block with
  | ret => simp [hcase, Exit.edges] at h
  | branch targets => simp [hcase, Exit.edges] at h
  | invoke normal unwind =>
      simp only [hcase, Exit.edges, List.mem_cons, Prod.mk.injEq, Bool.true_eq_false, and_false,
        List.not_mem_nil, or_false, false_or, and_true] at h
      rw [h]

-- A move stays among the instructions.
theorem Takes.inside {move : Move} {before after : Point} (h : graph.Takes move before after) :
    before.index < graph.length before.block ∧ after.index < graph.length after.block := by
  cases h with
  | onward hlt => exact ⟨by dsimp only; omega, hlt⟩
  | edge hedge =>
      obtain ⟨hblock, hsuccessor⟩ := mem_edges_lt hedge
      have hpos := length_pos_iff.mpr hblock
      refine ⟨?_, length_pos_iff.mpr hsuccessor⟩
      simp only [last]
      omega

end FlowGraph

end ConcurrencyAnalyzer.Program
