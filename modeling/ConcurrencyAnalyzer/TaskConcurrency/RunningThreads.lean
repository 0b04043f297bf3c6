import ConcurrencyAnalyzer.Library.Accumulation
import ConcurrencyAnalyzer.Library.Ascent
import ConcurrencyAnalyzer.TaskConcurrency.Flood
import ConcurrencyAnalyzer.TaskConcurrency.Handles

namespace ConcurrencyAnalyzer.TaskConcurrency

open Program Library ThreadCompletion

-- The handle is where the thread was created, or where a move carried it.
structure SpawnSite where
  instruction : Point
  handleGroupId : String
  entryFunctionId : String
  deriving DecidableEq

structure JoinSite where
  instruction : Point
  handleGroupId : String
  success : Option JoinSuccess
  -- Whether every return gives the status of the join.
  returnsResult : Bool := false
  deriving DecidableEq

structure AdoptionSite where
  instruction : Point
  handleGroupId : String
  deriving DecidableEq

-- A function with a body, and what other analyses say of it.
structure TaskFunction where
  id : String
  graph : FlowGraph
  spawns : List SpawnSite := []
  joins : List JoinSite := []
  adoptions : List AdoptionSite := []
  -- The returns that the entry leads to.
  returns : List Point := []
  -- Whether an instruction runs only once a success is certain.
  covers : JoinSuccess → Point → Bool
  inLoop : Nat → Bool := fun _ => false
  -- The proven completions of threads, by the calls that create or leave them.
  completions : List (Point × JoinSuccess) := []
  correlatedEdges : Point → List (Nat × Nat) := fun _ => []
  -- Whether it is a `std::thread` constructor that starts no thread but the one it constructs.
  selfContained : Bool := false

-- The functions a module defines and the calls that name their callees.
structure TaskModule where
  functions : List TaskFunction
  directCallSites : List DirectCallSite
  includeExternalEntries : Bool := false
  callersNamed : ∀ site ∈ directCallSites,
    functions[site.caller]?.map (·.id) = some site.callerFunctionId

namespace TaskModule

variable (module : TaskModule)

-- The first function of an id stands for it.
def functionOf (id : String) : Option Nat := module.functions.findIdx? (·.id = id)

def spawnsOf (function : Nat) : List SpawnSite :=
  (module.functions[function]?.map (·.spawns)).getD []

def joinsIn (function : Nat) : List JoinSite := (module.functions[function]?.map (·.joins)).getD []

def adoptionsOf (function : Nat) : List AdoptionSite :=
  (module.functions[function]?.map (·.adoptions)).getD []

def returnsOf (function : Nat) : List Point :=
  (module.functions[function]?.map (·.returns)).getD []

-- The calls of a function to functions with bodies.
def callsOf (function : Nat) : List DirectCallSite :=
  module.directCallSites.filter fun site =>
    site.caller = function && (module.functionOf site.calleeFunctionId).isSome

end TaskModule

-- What a function does to a handle it names: it may start a thread into it, joins it on every path to
-- a normal return, or joins it and returns the status of that join.
inductive HandleEffect where
  | started
  | joined
  | reported
  deriving DecidableEq

-- The summaries of the functions are all these facts together.
structure HandleFact where
  function : Nat
  effect : HandleEffect
  handle : String
  deriving DecidableEq

section Summaries

variable (module : TaskModule)

def onEveryPath (function : Nat) (success : JoinSuccess) : Bool :=
  module.functions[function]?.any fun found => found.returns.all (found.covers success)

def effectsOfJoin (function : Nat) (join : JoinSite) : List HandleEffect :=
  if isNameableHandle join.handleGroupId then
    (if join.returnsResult then [.reported] else []) ++
      if join.success.any (onEveryPath module function) then [.joined] else []
  else []

-- What a function does to handles in place.
def handlesInPlace (function : Nat) : List HandleFact :=
  (module.spawnsOf function).map (fun spawn => ⟨function, .started, spawn.handleGroupId⟩) ++
    (module.adoptionsOf function).map (fun adoption =>
      ⟨function, .started, adoption.handleGroupId⟩) ++
    (module.joinsIn function).flatMap fun join =>
      (effectsOfJoin module function join).map (⟨function, ·, join.handleGroupId⟩)

-- What a call does to a handle that its callee does something to. A call that reports a join is that
-- join, with its result as the status.
def effectsAtCall (site : DirectCallSite) : HandleEffect → List HandleEffect
  | .started => [.started]
  | .reported =>
      (if site.returnsResult then [.reported] else []) ++
        if site.statusSuccess.any (onEveryPath module site.caller) then [.joined] else []
  | .joined => if onEveryPath module site.caller (.after site.call) then [.joined] else []

def handlesAtCall (site : DirectCallSite) (fact : HandleFact) : List HandleFact :=
  if some fact.function = module.functionOf site.calleeFunctionId then
    match site.handleAtCaller fact.handle with
    | some handle => (effectsAtCall module site fact.effect).map (⟨site.caller, ·, handle⟩)
    | none => []
  else []

-- What a visit of a function goes through in turn.
inductive SummaryVisit where
  | inPlace (function : Nat)
  | call (site : DirectCallSite)

def summaryVisits (function : Nat) : List SummaryVisit :=
  .inPlace function :: (module.callsOf function).map .call

def handlesAdded : SummaryVisit → Finset HandleFact → Finset HandleFact
  | .inPlace function, _ => (handlesInPlace module function).toFinset
  | .call site, facts => facts.biUnion fun fact => (handlesAtCall module site fact).toFinset

def summaries (order : List Nat) : Accumulation SummaryVisit HandleFact where
  visits := order.flatMap (summaryVisits module)
  adds := handlesAdded module

-- Summarizes every function, the functions walked in some order.
def summarizeHandles (order : List Nat) (fuel : Nat) : Finset HandleFact :=
  (summaries module order).solve fuel

end Summaries

section Reaches

variable (module : TaskModule) (facts : Finset HandleFact)

-- Whether a callee does something to a handle that the caller names so.
def passes (site : DirectCallSite) (effect : HandleEffect) (handle : String) : Bool :=
  ∃ fact ∈ facts, some fact.function = module.functionOf site.calleeFunctionId ∧
    fact.effect = effect ∧ site.handleAtCaller fact.handle = some handle

-- The calls that join a handle, by where they have.
def joiningCalls (function : Nat) (handle : String) : List JoinSuccess :=
  (module.callsOf function).filterMap fun site =>
    if passes module facts site .joined handle then some (.after site.call)
    else if passes module facts site .reported handle then site.statusSuccess
    else none

def successesOf (function : Nat) (handle : String) : List JoinSuccess :=
  (module.joinsIn function).filterMap fun join =>
    if join.handleGroupId = handle then join.success else none

def killsAt (function : Nat) (successes : List JoinSuccess) : Kills :=
  match module.functions[function]? with
  | some found => successes.foldl (Kills.add found.graph) {}
  | none => {}

def joinsOf (function : Nat) (handle : String) : Kills :=
  killsAt module function
    (successesOf module function handle ++ joiningCalls module facts function handle)

-- A call that is one of the function's spawns, as a `std::thread` constructor is.
def isSpawn (function : Nat) (site : DirectCallSite) : Bool :=
  (module.spawnsOf function).any (·.instruction = site.call)

def countedBySpawn (function : Nat) (site : DirectCallSite) : Bool :=
  isSpawn module function site &&
    ((module.functionOf site.calleeFunctionId).bind (module.functions[·]?)).any (·.selfContained)

-- Where a function starts or moves a thread into a handle. The body of a spawn starts the thread that
-- the spawn already counts.
def startSites (function : Nat) (handle : String) : List Point :=
  ((module.spawnsOf function).filter (·.handleGroupId = handle)).map (·.instruction) ++
    ((module.adoptionsOf function).filter (·.handleGroupId = handle)).map (·.instruction) ++
    ((module.callsOf function).filter fun site =>
      !isSpawn module function site && passes module facts site .started handle).map (·.call)

def ambiguousIn (function : Nat) (handle : String) : Bool :=
  1 < (startSites module facts function handle).length ||
    (startSites module facts function handle).any fun site =>
      module.functions[function]?.any (·.inLoop site.block)

-- The handle a thread started in the function can be matched on.
def spawnHandle (function : Nat) (spawn : SpawnSite) : Option String :=
  if isNameableHandle spawn.handleGroupId && !ambiguousIn module facts function spawn.handleGroupId
  then some spawn.handleGroupId
  else none

def withCorrelated (function : Nat) (start : Point) (kills : Kills) : Kills :=
  match module.functions[function]? with
  | some found => { kills with edges := found.correlatedEdges start ++ kills.edges }
  | none => kills

def completionAt (function : Nat) (start : Point) : List JoinSuccess :=
  match module.functions[function]? with
  | some found => (found.completions.find? (·.1 = start)).toList.map Prod.snd
  | none => []

def floodIn (function : Nat) (start : Option Point) (kills : FloodKills) : Option Reach :=
  module.functions[function]?.map fun found => flood found.graph kills start

-- Without a handle a join in place ends the thread as long as its storage holds no other.
def spawnReach (function : Nat) (spawn : SpawnSite) : Option Reach :=
  floodIn module function (some spawn.instruction) {
    byHandle :=
      match spawnHandle module facts function spawn with
      | some handle => joinsOf module facts function handle
      | none => killsAt module function (successesOf module function spawn.handleGroupId)
    always := withCorrelated module function spawn.instruction
      (killsAt module function (completionAt module function spawn.instruction))
    restarts := startSites module facts function spawn.handleGroupId }

-- Whether the proven completion of a call ends a thread it leaves running, held at a handle. That of a
-- creation ends the thread held in the object it constructs.
def completionCovers (site : DirectCallSite) (handle : Option String) : Bool :=
  !site.createsThread ||
    handle.any fun held => (site.groups.head?.join).any fun object =>
      held = object || startsWith held (object ++ "[")

-- Where a thread that a call leaves running, or one running on entry, may still run.
def handleReach (function : Nat) (start : Option DirectCallSite) (handle : Option String) :
    Option Reach :=
  floodIn module function (start.map (·.call)) {
    byHandle :=
      match handle with
      | some held => joinsOf module facts function held
      | none => {}
    always :=
      match start with
      | some site => withCorrelated module function site.call
          (killsAt module function
            (if completionCovers site handle then completionAt module function site.call else []))
      | none => {}
    restarts :=
      match handle with
      | some held => startSites module facts function held
      | none => [] }

def reachesReturn (function : Nat) (reach : Option Reach) : Bool :=
  reach.any fun reach => (module.returnsOf function).any reach.contains

end Reaches

-- A running thread as one function sees it: the entry it runs and, when that function can name it, the
-- handle a join would take there.
structure ThreadInstance where
  entryFunctionId : String
  handle : Option String
  deriving DecidableEq

section Leaks

variable (module : TaskModule) (facts : Finset HandleFact)

def spawnedInstance (function : Nat) (spawn : SpawnSite) : ThreadInstance :=
  ⟨spawn.entryFunctionId, spawnHandle module facts function spawn⟩

def handleOf (site : DirectCallSite) (thread : ThreadInstance) : Option String :=
  thread.handle.bind site.handleAtCaller

-- The handle a join ends a thread through that a call leaves running: none where it is filled again.
def followedHandle (function : Nat) (site : DirectCallSite) (thread : ThreadInstance) :
    Option String :=
  (handleOf site thread).filter fun handle => !ambiguousIn module facts function handle

-- Whether a thread that a call leaves running leaves the caller too. Without a handle to follow it
-- does unless the caller joins anything at all.
def leavesCaller (function : Nat) (site : DirectCallSite) : Option String → Bool
  | some handle =>
      reachesReturn module function (handleReach module facts function (some site) (some handle))
  | none => (module.joinsIn function).isEmpty

def leakedThrough (function : Nat) (site : DirectCallSite) (thread : ThreadInstance) :
    Option ThreadInstance :=
  (entryAtCaller module.includeExternalEntries thread.entryFunctionId site).bind fun entry =>
    if leavesCaller module facts function site (followedHandle module facts function site thread) then
      some ⟨entry, followedHandle module facts function site thread⟩
    else none

-- What a function leaves running when it returns, named in its own frame.
def leakedFrom (leaked : Nat → Finset ThreadInstance) (function : Nat) : Finset ThreadInstance :=
  (((module.spawnsOf function).filter fun spawn =>
      reachesReturn module function (spawnReach module facts function spawn)).map
        (spawnedInstance module facts function)).toFinset ∪
    ((module.callsOf function).filter (!countedBySpawn module function ·)).toFinset.biUnion
      fun site => ((module.functionOf site.calleeFunctionId).map leaked).getD ∅ |>.biUnion
        fun thread => (leakedThrough module facts function site thread).toFinset

def leaks (order : List Nat) : Ascent Nat (Finset ThreadInstance) where
  keys := order
  step := leakedFrom module facts

-- Settles what every function leaves running once it returns.
def settleLeaks (order : List Nat) (fuel : Nat) : Nat → Finset ThreadInstance :=
  (leaks module facts order).solve fuel fun _ => ∅

end Leaks

section Inheritance

variable (module : TaskModule) (facts : Finset HandleFact) (leaked : Nat → Finset ThreadInstance)

-- A thread a call leaves running in its caller, and the storage holding it there.
structure IntroducedThread where
  site : DirectCallSite
  thread : ThreadInstance
  storage : Option String
  deriving DecidableEq

def introducedThrough (function : Nat) (site : DirectCallSite) (thread : ThreadInstance) :
    Option IntroducedThread :=
  (entryAtCaller module.includeExternalEntries thread.entryFunctionId site).map fun entry =>
    ⟨site, ⟨entry, followedHandle module facts function site thread⟩, handleOf site thread⟩

def introducedByCalls (function : Nat) : Finset IntroducedThread :=
  ((module.callsOf function).filter (!countedBySpawn module function ·)).toFinset.biUnion
    fun site => ((module.functionOf site.calleeFunctionId).map leaked).getD ∅ |>.biUnion
      fun thread => (introducedThrough module facts function site thread).toFinset

-- Where its storage still holds it on every path, a thread is named by that storage.
def introducedAt (function : Nat) (point : Point) (introduced : IntroducedThread) :
    Option ThreadInstance :=
  (handleReach module facts function (some introduced.site) introduced.storage).bind fun reach =>
    if !reach.contains point then none
    else if introduced.thread.handle = none && reach.namedAt point then
      some { introduced.thread with handle := introduced.storage }
    else some introduced.thread

-- The threads running at a point that the function started, itself or through a call.
def startedAt (function : Nat) (point : Point) : Finset ThreadInstance :=
  (((module.spawnsOf function).filter fun spawn =>
      (spawnReach module facts function spawn).any (·.contains point)).map
        (spawnedInstance module facts function)).toFinset ∪
    (introducedByCalls module facts leaked function).biUnion fun introduced =>
      (introducedAt module facts function point introduced).toFinset

-- The threads a function receives running, each with the function that does.
abbrev Inherited := Finset (Nat × ThreadInstance)

def inheritedAt (inherited : Inherited) (function : Nat) (point : Point) : Finset ThreadInstance :=
  (inherited.filter fun received => received.1 = function ∧
    (handleReach module facts function none received.2.handle).any (·.contains point)).image Prod.snd

def liveAt (inherited : Inherited) (function : Nat) (point : Point) : Finset ThreadInstance :=
  startedAt module facts leaked function point ∪ inheritedAt module facts inherited function point

def passedTo (site : DirectCallSite) (thread : ThreadInstance) : ThreadInstance :=
  ⟨thread.entryFunctionId, thread.handle.bind site.handleAtCallee⟩

def inheritedAdded (site : DirectCallSite) (inherited : Inherited) : Inherited :=
  match module.functionOf site.calleeFunctionId with
  | some callee => (liveAt module facts leaked inherited site.caller site.call).image fun thread =>
      (callee, passedTo site thread)
  | none => ∅

def inheritance : Accumulation DirectCallSite (Nat × ThreadInstance) where
  visits := module.directCallSites
  adds := inheritedAdded module facts leaked

-- Settles what every function receives running from the calls made to it.
def settleInheritance (fuel : Nat) : Inherited := (inheritance module facts leaked).solve fuel

end Inheritance

section Starts

variable (module : TaskModule)

-- The entries that functions start before they return, each with the function that does.
abbrev Starts := Finset (Nat × String)

def atCaller (site : DirectCallSite) (entry : String) : Option String :=
  if countedBySpawn module site.caller site then none
  else entryAtCaller module.includeExternalEntries entry site

def startsAdded : SummaryVisit → Starts → Starts
  | .inPlace function, _ =>
      ((module.spawnsOf function).map fun spawn => (function, spawn.entryFunctionId)).toFinset
  | .call site, starts => starts.biUnion fun start =>
      if some start.1 = module.functionOf site.calleeFunctionId then
        ((atCaller module site start.2).map (site.caller, ·)).toFinset
      else ∅

def entryStarts (order : List Nat) : Accumulation SummaryVisit (Nat × String) where
  visits := order.flatMap (summaryVisits module)
  adds := startsAdded module

-- Settles the entries that each function starts before it returns.
def settleStarts (order : List Nat) (fuel : Nat) : Starts := (entryStarts module order).solve fuel

end Starts

end ConcurrencyAnalyzer.TaskConcurrency
