import ConcurrencyAnalyzer.Library.Worklist
import ConcurrencyAnalyzer.Program.FlowGraph
import ConcurrencyAnalyzer.ThreadCompletion.PathSearch

namespace ConcurrencyAnalyzer.TaskConcurrency

open Program Library ThreadCompletion

-- Points past which a thread certainly no longer runs. It runs neither at the instructions of
-- `points` nor after them in their block.
structure Kills where
  points : List Point := []
  edges : List (Nat × Nat) := []

-- Ended once the instruction has returned: past a call, along an invoke's normal edge.
def Kills.after (graph : FlowGraph) (kills : Kills) (point : Point) : Kills :=
  match graph.normalDest point with
  | some normal => { kills with edges := (point.block, normal) :: kills.edges }
  | none => { kills with points := kills.points ++ [⟨point.block, point.index + 1⟩] }

def Kills.add (graph : FlowGraph) (kills : Kills) : JoinSuccess → Kills
  | .after point => kills.after graph point
  | .branch block successor => { kills with edges := (block, successor) :: kills.edges }

-- What ends a thread along one flood. Once its handle receives another thread, at one of the
-- restarts, what ends the thread of the handle no longer applies.
structure FloodKills where
  byHandle : Kills := {}
  always : Kills := {}
  restarts : List Point := []

namespace FloodKills

variable (kills : FloodKills)

def endsAt (named : Bool) (point : Point) : Bool :=
  point ∈ kills.always.points || (named && point ∈ kills.byHandle.points)

local instance : LawfulBEq (Nat × Nat) := inferInstance

def endsAlong (named : Bool) (edge : Nat × Nat) : Bool :=
  edge ∈ kills.always.edges || (named && edge ∈ kills.byHandle.edges)

-- Walks instructions of a block from `first`: the first one the thread no longer runs at, and
-- whether the handle still names it past those walked.
def walk (block : Nat) : Nat → Nat → Bool → Option Nat × Bool
  | 0, _, named => (none, named)
  | remaining + 1, first, named =>
      if kills.endsAt named ⟨block, first⟩ then (some first, named)
      else walk block remaining (first + 1) (named && ⟨block, first⟩ ∉ kills.restarts)

end FloodKills

-- Where a thread may be running in the function that holds it.
structure Reach where
  -- Blocks entered from their top, each with the first instruction the thread no longer runs at.
  fromTop : Nat → Option (Option Nat)
  -- The same blocks, each with whether every path entering it had the thread still in its handle.
  enteredNamed : Nat → Option Bool
  start : Option Point
  startEnd : Option Nat
  restarts : List Point

namespace Reach

def before (point : Point) (stop : Option Nat) : Bool := stop.all (point.index < ·)

variable (reach : Reach)

def fromStart (point : Point) : Bool :=
  reach.start.any fun start =>
    point.block = start.block && start.index < point.index && before point reach.startEnd

def enteredBefore (point : Point) : Bool := (reach.fromTop point.block).any (before point)

def contains (point : Point) : Bool := reach.enteredBefore point || reach.fromStart point

-- Whether no restart is met in as many instructions from `first` on.
def stillNamed (block : Nat) : Nat → Nat → Bool → Bool
  | 0, _, named => named
  | count + 1, first, named =>
      if named then stillNamed block count (first + 1) (⟨block, first⟩ ∉ reach.restarts) else false

def namedFromStart (point : Point) : Bool :=
  reach.start.any fun start =>
    reach.stillNamed point.block (point.index - (start.index + 1)) (start.index + 1) true

def namedFromTop (point : Point) : Bool :=
  (reach.enteredNamed point.block).any (reach.stillNamed point.block point.index 0)

def namedAt (point : Point) : Bool :=
  reach.contains point && (!reach.fromStart point || reach.namedFromStart point) &&
    (!reach.enteredBefore point || reach.namedFromTop point)

end Reach

section Flood

variable (graph : FlowGraph) (kills : FloodKills)

def walkFrom (block first : Nat) (named : Bool) : Option Nat × Bool :=
  kills.walk block (graph.length block - first) first named

def leave (block : Nat) (named : Bool) : List (Nat × Bool) :=
  ((graph.successors block).filter fun successor => !kills.endsAlong named (block, successor)).map
    (·, named)

-- What is entered past instructions of a block.
def leaveFrom (block first : Nat) (named : Bool) : List (Nat × Bool) :=
  match walkFrom graph kills block first named with
  | (none, past) => leave graph kills block past
  | (some _, _) => []

-- A start that throws started nothing.
def firstEntered : Option Point → List (Nat × Bool)
  | none => [(0, true)]
  | some start =>
      match graph.normalDest start with
      | some normal => [(normal, true)]
      | none => leaveFrom graph kills start.block (start.index + 1) true

def enter (block : Nat) (named : Bool) : Option (List (Nat × Bool)) :=
  some (leaveFrom graph kills block 0 named)

def floodFuel (pending : List (Nat × Bool)) : Nat :=
  pending.length + ∑ block ∈ Finset.range graph.blocks.length,
    2 * (1 + (graph.successors block).length)

-- The blocks entered, each with whether it was last entered named: it is entered again once it is
-- reached unnamed.
def reachedNamed (start : Option Point) : Nat → Option Bool :=
  let pending := firstEntered graph kills start
  (Worklist.run (enter graph kills) (floodFuel graph pending) (fun _ => none)
    pending.reverse).getD fun _ => none

def flood (start : Option Point) : Reach where
  fromTop block := (reachedNamed graph kills start block).map fun named =>
    (walkFrom graph kills block 0 named).1
  enteredNamed := reachedNamed graph kills start
  start := start
  startEnd := start.bind fun start => (walkFrom graph kills start.block (start.index + 1) true).1
  restarts := kills.restarts

end Flood

section Paths

variable (graph : FlowGraph) (kills : FloodKills)

-- Whether a kill that is active for a named thread, or for one no longer named, is on a move.
def Killed (named : Bool) : Move → Prop
  | .onward _ => False
  | .edge block successor _ => kills.endsAlong named (block, successor) = true

-- The places paths reach from a start with no active kill on the way, each with whether the path
-- passed no restart. Just past an invoke is its normal destination.
inductive Runs (start : Option Point) : Point → Bool → Prop
  | entry : start = none → kills.endsAt true ⟨0, 0⟩ = false → Runs start ⟨0, 0⟩ true
  | returned {place normal} : start = some place → graph.normalDest place = some normal →
      kills.endsAt true ⟨normal, 0⟩ = false → Runs start ⟨normal, 0⟩ true
  | past {place other move} : start = some place → graph.normalDest place = none →
      graph.Takes move place other → ¬Killed kills true move → kills.endsAt true other = false →
      Runs start other true
  | move {place other move named} : Runs start place named → graph.Takes move place other →
      ¬Killed kills (named && place ∉ kills.restarts) move →
      kills.endsAt (named && place ∉ kills.restarts) other = false →
      Runs start other (named && place ∉ kills.restarts)

end Paths

end ConcurrencyAnalyzer.TaskConcurrency
