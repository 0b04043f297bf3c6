import ConcurrencyAnalyzer.Library.Accumulation
import ConcurrencyAnalyzer.Program.FlowGraph
import Mathlib.Data.Set.Finite.Lattice
import Mathlib.Logic.Relation
import Mathlib.Order.Interval.Finset.Nat

namespace ConcurrencyAnalyzer.ThreadCompletion

open Program Library

inductive StartKind where
  | PThreadCreate
  | StdThreadCtor
  deriving DecidableEq, Repr

-- A call: what it starts, if it starts a thread, the function it names, where the module defines that,
-- and the parameter of the caller whose object it is handed first.
structure StarterCall where
  point : Point
  kind : Option StartKind := none
  callee : Option Nat := none
  firstObject : Option Nat := none
  deriving DecidableEq

def Onward (graph : FlowGraph) (before after : Point) : Prop :=
  ∃ move, graph.Takes move before after

-- A function with a body. What is said of reachability is no only where no path leads.
structure StarterFunction where
  graph : FlowGraph
  calls : List StarterCall
  argSize : Nat := 0
  isPotentiallyReachable : Point → Point → Bool
  reachable : ∀ first second, Relation.ReflTransGen (Onward graph) first second →
    isPotentiallyReachable first second = true

abbrev StarterModule := List StarterFunction

section Starters

variable (module : StarterModule)

def callsIn (function : Nat) : List StarterCall := (module[function]?.map (·.calls)).getD []

def startsThread (call : StarterCall) : Bool := call.kind.isSome

def callsStarter (starters : Finset Nat) (call : StarterCall) : Bool := call.callee.any (· ∈ starters)

def startsDirectly (starters : Finset Nat) (call : StarterCall) : Bool :=
  startsThread call || callsStarter starters call

def startersBy : Accumulation Nat Nat where
  visits := List.range module.length
  adds function starters :=
    if (callsIn module function).any (startsDirectly starters) then {function} else ∅

-- The functions that may start a thread, themselves or through functions that they name.
def threadStarters : Finset Nat := (startersBy module).solve module.length

abbrev Visiting := Finset (Nat × Nat)

-- Goes through the calls of a function, each of which that may start a thread is to be handed the
-- object first, with `into` for those it names.
def intoCalls (into : Visiting → Nat → Bool × Visiting) (index : Nat) :
    List StarterCall → Visiting → Bool × Visiting
  | [], visiting => (true, visiting)
  | call :: calls, visiting =>
      if !startsDirectly (threadStarters module) call then intoCalls into index calls visiting
      else if call.firstObject ≠ some index then (false, visiting)
      else
        match call.callee.filter (· ∈ threadStarters module) with
        | some callee =>
            if (into visiting callee).1 then intoCalls into index calls (into visiting callee).2
            else into visiting callee
        | none => intoCalls into index calls visiting

-- Whether every thread a function may start is started into the object that a parameter points to.
def startsOnlyInto : Nat → Visiting → Nat → Nat → Bool × Visiting
  | 0, visiting, _, _ => (false, visiting)
  | fuel + 1, visiting, function, index =>
      match module[function]? with
      | none => (false, visiting)
      | some found =>
          if found.argSize ≤ index ∨ (function, index) ∈ visiting then (false, visiting)
          else intoCalls module (fun visiting callee => startsOnlyInto fuel visiting callee 0) index
            found.calls (insert (function, index) visiting)

-- Each visit is of another function of the module.
def onlyInto (function : Nat) : Bool := (startsOnlyInto module (module.length + 1) ∅ function 0).1

def mayRepeat (found : StarterFunction) (point : Point) : Bool :=
  (found.graph.successors point.block).any fun successor =>
    found.isPotentiallyReachable ⟨successor, 0⟩ point

abbrev Known := Nat → Option Bool

-- Goes through the calls of a function, with `single` for those that may start a thread: the ones
-- that may, where each starts at most one.
def startingCalls (single : Known → Nat → Bool × Known) :
    List StarterCall → List StarterCall → Known → Option (List StarterCall) × Known
  | [], starts, known => (some starts, known)
  | call :: calls, starts, known =>
      if startsThread call then
        if call.kind ≠ some .StdThreadCtor ∨
            (call.callee.filter (· ∈ threadStarters module)).any (!onlyInto module ·) then
          (none, known)
        else startingCalls single calls (starts ++ [call]) known
      else
        match call.callee.filter (· ∈ threadStarters module) with
        | none => startingCalls single calls starts known
        | some callee =>
            if (single known callee).1 then
              startingCalls single calls (starts ++ [call]) (single known callee).2
            else (none, (single known callee).2)

-- None of the calls is reachable from another or from itself.
def excludeEachOther (found : StarterFunction) (starts : List StarterCall) : Bool :=
  starts.all fun start => !mayRepeat found start.point && starts.all fun other =>
    other = start || !found.isPotentiallyReachable start.point other.point

-- Whether a call to a function starts at most one thread. A recursion is refused, so no more calls are
-- nested than the module has functions.
def startsAtMostOneThread : Nat → Known → Nat → Bool × Known
  | 0, known, _ => (false, known)
  | fuel + 1, known, function =>
      match known function with
      | some result => (result, known)
      | none =>
          match module[function]? with
          | none => (false, known)
          | some found =>
              match startingCalls module (startsAtMostOneThread fuel) found.calls []
                  (Function.update known function (some false)) with
              | (none, known) => (false, known)
              | (some starts, known) =>
                  if excludeEachOther found starts then (true, Function.update known function (some true))
                  else (false, known)

end Starters

section Runs

variable (module : StarterModule)

-- A spawn, by its function and its place there.
abbrev Spawn := Nat × Point

-- A call in progress: about to run an instruction, or running it. A thread that is started into the
-- object of the parameter `built` is the one that whoever builds the object counts.
inductive Moment where
  | reached (built : Option Nat) (function : Nat) (point : Point)
  | running (built : Option Nat) (function : Nat) (point : Point)

-- Whether a call is handed the object being built.
def handsOn (built : Option Nat) (call : StarterCall) : Bool :=
  built.isSome && call.firstObject = built

def ownThread (built : Option Nat) (function : Nat) (call : StarterCall) : List Spawn :=
  if handsOn built call then [] else [(function, call.point)]

-- What a callee builds: the object it is handed first, where it starts the thread of that object or is
-- handed what the caller builds.
def builtBy (built : Option Nat) (call : StarterCall) : Option Nat :=
  if startsThread call || handsOn built call then some 0 else none

-- The threads that a call of a function has started by some moment, by their spawns. A call through a
-- pointer starts none, and neither does a function that the module only declares.
inductive Started : Moment → List Spawn → Prop
  | enter {built function} : Started (.reached built function ⟨0, 0⟩) []
  | onward {built function found point next threads} : module[function]? = some found →
      Started (.running built function point) threads → Onward found.graph point next →
      Started (.reached built function next) threads
  | runs {built function point threads} : Started (.reached built function point) threads →
      Started (.running built function point) threads
  | starts {built function call threads} : call ∈ callsIn module function → startsThread call = true →
      Started (.reached built function call.point) threads →
      Started (.running built function call.point) (threads ++ ownThread built function call)
  | startsThrough {built function call callee point threads inner} :
      call ∈ callsIn module function → startsThread call = true → call.callee = some callee →
      Started (.reached built function call.point) threads →
      Started (.running (builtBy built call) callee point) inner →
      Started (.running built function call.point) (threads ++ ownThread built function call ++ inner)
  | calls {built function call callee point threads inner} : call ∈ callsIn module function →
      startsThread call = false → call.callee = some callee →
      Started (.reached built function call.point) threads →
      Started (.running (builtBy built call) callee point) inner →
      Started (.running built function call.point) (threads ++ inner)

end Runs

end ConcurrencyAnalyzer.ThreadCompletion
