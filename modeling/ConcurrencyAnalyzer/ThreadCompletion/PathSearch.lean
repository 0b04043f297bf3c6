import ConcurrencyAnalyzer.Library.Worklist
import ConcurrencyAnalyzer.Library.Search
import ConcurrencyAnalyzer.Program.FlowGraph

namespace ConcurrencyAnalyzer.ThreadCompletion

open Program Library

-- Where a join has certainly waited: past an instruction, which for an invoke is along its normal
-- edge, or along an edge.
inductive JoinSuccess where
  | after (point : Point)
  | branch (block successor : Nat)
  deriving DecidableEq

-- The edges named are those of branches, and the instructions named are not returns.
structure Completions (graph : FlowGraph) where
  places : List JoinSuccess
  ofBranches : ∀ block successor, .branch block successor ∈ places →
    ∃ targets, graph.exit block = .branch targets
  notReturns : ∀ point, .after point ∈ places → point.index + 1 = graph.length point.block →
    graph.exit point.block ≠ .ret

-- A place a completion may be: the named edges are those of branches, and the named instructions are
-- not returns.
structure PlacedSuccess (graph : FlowGraph) (success : JoinSuccess) : Prop where
  ofBranch : ∀ block successor, success = .branch block successor → ∃ targets, graph.exit block = .branch targets
  notReturn : ∀ point, success = .after point → point.index + 1 = graph.length point.block →
    graph.exit point.block ≠ .ret

section Searches

variable (graph : FlowGraph)

-- Walks the `remaining` last instructions of a block: none when the walk comes to `point`, or to a
-- return where there is no point, before any completion, and else the successors it may go on to.
def reaches (completions : List JoinSuccess) (point : Option Point) (block : Nat) :
    Nat → Option (List Nat)
  | 0 =>
      if point = none ∧ graph.exit block = .ret then none
      else some ((graph.successors block).filter fun successor =>
        .branch block successor ∉ completions)
  | remaining + 1 =>
      let instruction : Point := ⟨block, graph.length block - (remaining + 1)⟩
      if point = some instruction then none
      else if .after instruction ∈ completions then some (graph.unwindDest instruction).toList
      else reaches completions point block remaining

def reachesBlock (completions : List JoinSuccess) (point : Option Point) (block : Nat) :
    Option (List Nat) :=
  reaches graph completions point block (graph.length block)

def completedOnEveryPath (start : Point) (completions : List JoinSuccess) (point : Option Point) :
    Bool :=
  match reaches graph completions point start.block (graph.length start.block - start.index) with
  | none => false
  | some next =>
      let entered := Search.mark (fun _ => true) ∅ [] next
      Search.probe (reachesBlock graph completions point) graph.blocks.length entered.1 entered.2

-- One round of the search past `first` instructions of a block: none when it comes to the target
-- first, and else the blocks it goes on to.
def goesOn (through target : Point) (block first : Nat) : Option (List Nat) :=
  let reachesThrough := through.block = block ∧ first ≤ through.index
  if (target.block = block ∧ first ≤ target.index) ∧
      (¬reachesThrough ∨ target.index < through.index) then none
  else if reachesThrough then some (graph.unwindDest through).toList
  else some (graph.successors block)

def goesOnWhole (through target : Point) (block : Nat) (_ : Unit) : Option (List (Nat × Unit)) :=
  (goesOn graph through target block 0).map (·.map (·, ()))

def passesThrough (start through target : Point) : Bool :=
  match goesOn graph through target start.block (start.index + 1) with
  | none => false
  | some next =>
      let fuel := next.length + ∑ block ∈ Finset.range graph.blocks.length,
        (1 + (graph.successors block).length)
      (Worklist.run (goesOnWhole graph through target) fuel (fun _ => none)
        (next.map (·, ())).reverse).isSome

end Searches

section Paths

variable {graph : FlowGraph}

def Completes (graph : FlowGraph) (completions : List JoinSuccess) : Move → Prop
  | .onward point => .after point ∈ completions
  | .edge block successor unwinds =>
      (.after (graph.last block) ∈ completions ∧ unwinds = false) ∨
        .branch block successor ∈ completions

-- The instructions a path comes to from a start before any completion.
inductive Uncompleted (graph : FlowGraph) (completions : List JoinSuccess) (start : Point) :
    Point → Prop
  | start : Uncompleted graph completions start start
  | move {place other move} : Uncompleted graph completions start place →
      graph.Takes move place other → ¬Completes graph completions move →
      Uncompleted graph completions start other

def PastThrough (graph : FlowGraph) (through : Point) : Move → Prop
  | .onward point => point = through
  | .edge block _ unwinds => graph.last block = through ∧ unwinds = false

-- The instructions a path comes to from just past a start before it goes past another.
inductive Before (graph : FlowGraph) (through start : Point) : Point → Prop
  | start {other move} : graph.Takes move start other → Before graph through start other
  | move {place other move} : Before graph through start place → graph.Takes move place other →
      ¬PastThrough graph through move → Before graph through start other

-- Where a path that looks for `point` ends: there, or at a return where there is none.
def Ends (graph : FlowGraph) (point : Option Point) (place : Point) : Prop :=
  point = some place ∨
    (point = none ∧ graph.exit place.block = .ret ∧ place = graph.last place.block)

end Paths

end ConcurrencyAnalyzer.ThreadCompletion
