import ConcurrencyAnalyzer.ThreadEntries.Module
import ConcurrencyAnalyzer.Library.KeyedGrowth
import ConcurrencyAnalyzer.Library.DecimalText
import ConcurrencyAnalyzer.Library.Delimiter

namespace ConcurrencyAnalyzer.ThreadEntries

open Library

-- A thread that a function starts on whatever function it is handed.
structure ParameterizedSpawn where
  argumentIndex : Nat
  location : SourceLocation
  insideLoop : Bool
  deriving DecidableEq

structure DirectFunctionCallBinding where
  callerFunctionId : String
  calleeFunctionId : String
  argumentBindings : List (Option FunctionBinding)
  location : SourceLocation
  insideLoop : Bool

def spawnKeyTail (location : SourceLocation) (insideLoop : Bool) : String :=
  "|" ++ location.file ++ "|" ++ toString location.line ++ "|" ++ toString location.column ++ "|" ++
    location.function ++ "|" ++ toString insideLoop.toNat

def parameterizedSpawnKey (spawn : ParameterizedSpawn) : String :=
  toString spawn.argumentIndex ++ spawnKeyTail spawn.location spawn.insideLoop

def concreteSpawnKey (spawn : SpawnFact) : String :=
  spawn.entryFunctionId ++ spawnKeyTail spawn.location spawn.insideLoop

-- The operand of a call that the thread it starts is to run.
def threadEntryValue (call : Call) : Option FunctionValue :=
  match call.kind with
  | .PThreadCreate => call.operands[2]?
  | .StdThreadCtor => call.operands[1]?
  | _ => none

def threadEntryBindingFromCall (call : Call) : Option FunctionBinding :=
  (threadEntryValue call).bind resolveFunctionBinding

-- A function is summarised under its id.
abbrev SpawnSummary := String × ParameterizedSpawn

def summaryKey (summary : SpawnSummary) : String × String :=
  (summary.1, parameterizedSpawnKey summary.2)

structure SpawnState where
  summaries : List SpawnSummary := []
  collection : ThreadSpawnCollection := {}

def addParameterizedSpawn (state : SpawnState) (functionId : String) (spawn : ParameterizedSpawn) :
    SpawnState :=
  { state with summaries := KeyedGrowth.insert summaryKey state.summaries (functionId, spawn) }

section Collect

variable (module : Module) (includeExternalEntries : Bool)

def addConcreteSpawn (collection : ThreadSpawnCollection) (fact : SpawnFact) : ThreadSpawnCollection :=
  if !module.defines fact.entryFunctionId && !includeExternalEntries then collection
  else if collection.spawns.any (concreteSpawnKey · = concreteSpawnKey fact) then collection
  else
    let concurrency := (collection.entryConcurrency fact.entryFunctionId).getD {}
    { spawns := collection.spawns ++ [fact]
      entryConcurrency := Function.update collection.entryConcurrency fact.entryFunctionId (some {
        staticSpawnCount := concurrency.staticSpawnCount + 1
        hasSpawnInLoop := concurrency.hasSpawnInLoop || fact.insideLoop }) }

def addSpawn (state : SpawnState) (functionId : String) (binding : FunctionBinding)
    (location : SourceLocation) (insideLoop : Bool) : SpawnState :=
  match binding with
  | .function entry =>
      let fact : SpawnFact := ⟨entry, location, insideLoop⟩
      { state with collection := addConcreteSpawn module includeExternalEntries state.collection fact }
  | .argument index => addParameterizedSpawn state functionId ⟨index, location, insideLoop⟩

-- The calls of the blocks that the entry of their function reaches.
def reachableCalls : List (Function × Block × Call) :=
  module.definitions.flatMap fun function =>
    function.reachableBlocks.flatMap fun block => block.calls.map fun call => (function, block, call)

def visitSpawn (state : SpawnState) (place : Function × Block × Call) : SpawnState :=
  match threadEntryBindingFromCall place.2.2 with
  | none => state
  | some binding =>
      addSpawn module includeExternalEntries state place.1.id binding place.2.2.loweredLocation
        place.2.1.insideLoop

def collectOwnSpawns : SpawnState :=
  (reachableCalls module).foldl (visitSpawn module includeExternalEntries) {}

def bindingOfSite (site : DirectCallSite) : Option DirectFunctionCallBinding :=
  (module.callWithId site.call).bind fun call =>
    let argumentBindings := call.operands.map resolveFunctionBinding
    if argumentBindings.any Option.isSome then
      some {
        callerFunctionId := site.callerFunctionId
        calleeFunctionId := site.calleeFunctionId
        argumentBindings := argumentBindings
        location := site.loweredLocation
        insideLoop := site.insideLoop }
    else none

def buildDirectCallBindings (sites : List DirectCallSite) : List DirectFunctionCallBinding :=
  sites.filterMap (bindingOfSite module)

def DirectFunctionCallBinding.argument (binding : DirectFunctionCallBinding) (index : Nat) :
    Option FunctionBinding :=
  binding.argumentBindings[index]?.join

-- A thread the callee starts on its parameter is one the call starts on its argument.
def handSpawn (binding : DirectFunctionCallBinding) (state : SpawnState) (spawn : ParameterizedSpawn) :
    SpawnState :=
  match binding.argument spawn.argumentIndex with
  | none => state
  | some handed =>
      addSpawn module includeExternalEntries state binding.callerFunctionId handed binding.location
        (spawn.insideLoop || binding.insideLoop)

def spawnsOf (summaries : List SpawnSummary) (functionId : String) : List ParameterizedSpawn :=
  (summaries.filter (·.1 = functionId)).map Prod.snd

-- What the callee is known to start when the turn of the call comes.
def handSpawns (state : SpawnState) (binding : DirectFunctionCallBinding) : SpawnState :=
  (spawnsOf state.summaries binding.calleeFunctionId).foldl
    (handSpawn module includeExternalEntries binding) state

def spawnRound (bindings : List DirectFunctionCallBinding) (state : SpawnState) : SpawnState :=
  bindings.foldl (handSpawns module includeExternalEntries) state

def unchangedSummaries (before after : SpawnState) : Bool :=
  KeyedGrowth.unchanged before.summaries after.summaries

-- What any call may have its caller summarised by.
def possibleSummaries (bindings : List DirectFunctionCallBinding) : List SpawnSummary :=
  bindings.flatMap fun binding => binding.argumentBindings.flatMap fun
    | some (.argument index) =>
        [true, false].map fun insideLoop =>
          (binding.callerFunctionId, ⟨index, binding.location, insideLoop⟩)
    | _ => []

-- As many rounds as there are summaries, and the one that leaves them alone.
def spawnRounds (bindings : List DirectFunctionCallBinding) (own : SpawnState) : Nat :=
  own.summaries.length + (possibleSummaries bindings).length + 1

def spawnLoop (sites : List DirectCallSite) : SpawnState :=
  let bindings := buildDirectCallBindings module sites
  let own := collectOwnSpawns module includeExternalEntries
  settleLast unchangedSummaries (spawnRound module includeExternalEntries bindings)
    (spawnRounds bindings own) own

def collectSpawns (sites : List DirectCallSite) : ThreadSpawnCollection :=
  (spawnLoop module includeExternalEntries sites).collection

end Collect

section Specification

variable (module : Module) (sites : List DirectCallSite)

-- The threads a function starts on its parameters, by itself or through the functions it calls.
inductive StartsParameter : String → ParameterizedSpawn → Prop
  | own {function block call index} : (function, block, call) ∈ reachableCalls module →
      threadEntryBindingFromCall call = some (.argument index) →
      StartsParameter function.id ⟨index, call.loweredLocation, block.insideLoop⟩
  | through {binding spawn index} : binding ∈ buildDirectCallBindings module sites →
      StartsParameter binding.calleeFunctionId spawn →
      binding.argument spawn.argumentIndex = some (.argument index) →
      StartsParameter binding.callerFunctionId
        ⟨index, binding.location, spawn.insideLoop || binding.insideLoop⟩

-- The threads started on a function known by name where they are started, or where it is handed on.
inductive StartsEntry : SpawnFact → Prop
  | own {function block call entry} : (function, block, call) ∈ reachableCalls module →
      threadEntryBindingFromCall call = some (.function entry) →
      StartsEntry ⟨entry, call.loweredLocation, block.insideLoop⟩
  | through {binding spawn entry} : binding ∈ buildDirectCallBindings module sites →
      StartsParameter module sites binding.calleeFunctionId spawn →
      binding.argument spawn.argumentIndex = some (.function entry) →
      StartsEntry ⟨entry, binding.location, spawn.insideLoop || binding.insideLoop⟩

end Specification

-- What the spawns of a collection make of an entry.
def concurrencyOf (spawns : List SpawnFact) (entry : String) : Option EntryConcurrencyInfo :=
  let own := spawns.filter (·.entryFunctionId = entry)
  if own.isEmpty then none else some ⟨own.length, own.any (·.insideLoop)⟩

end ConcurrencyAnalyzer.ThreadEntries
