import ConcurrencyAnalyzer.Facts
import Mathlib.Data.Finset.Union

namespace ConcurrencyAnalyzer

structure EntrySpawns where
  instanceCount : Nat := 0
  insideLoop : Bool := false
  deriving DecidableEq, Repr

-- The first unit a function appears in, and whether another one shows it too.
structure FunctionUnits where
  first : Nat
  several : Bool := false
  deriving DecidableEq, Repr

-- A hash map of the source whose size is asked for is a list of entries here, each key once; the
-- others are the functions they look up.
structure ProgramSymbolIndex where
  spawnSitesByEntry : List (String × EntrySpawns) := []
  unitsByFunction : String → Option FunctionUnits := fun _ => none
  definedGlobals : Finset String := ∅
  lockSummariesBySymbol : String → Option (List ParameterLockEffect) := fun _ => none
  resolvedHandleSymbols : Finset String := ∅
  joiningHelpersBySymbol : String → Option (List JoinedParameter) := fun _ => none
  reapsChildren : Bool := false

namespace ProgramSymbolIndex

-- `map[symbol]` with the counts of one more entry added to it.
def addSpawn (symbol : String) (concurrency : EntryConcurrencyInfo) :
    List (String × EntrySpawns) → List (String × EntrySpawns)
  | [] => [(symbol, ⟨concurrency.staticSpawnCount, concurrency.hasSpawnInLoop⟩)]
  | (key, spawns) :: rest =>
      if key = symbol then
        (key, ⟨spawns.instanceCount + concurrency.staticSpawnCount,
          spawns.insideLoop || concurrency.hasSpawnInLoop⟩) :: rest
      else (key, spawns) :: addSpawn symbol concurrency rest

-- The entries a unit starts are found through the symbols of its functions: one without a symbol
-- is skipped.
def addSpawns (entryConcurrency : String → Option EntryConcurrencyInfo)
    (sites : List (String × EntrySpawns)) (function : String × String) :
    List (String × EntrySpawns) :=
  match entryConcurrency function.1 with
  | none => sites
  | some concurrency => addSpawn function.2 concurrency sites

def addFunction (unit : Nat) (units : String → Option FunctionUnits) (symbol : String) :
    String → Option FunctionUnits :=
  match units symbol with
  | none => Function.update units symbol (some { first := unit })
  | some known =>
      if known.first = unit then units
      else Function.update units symbol (some { known with several := true })

-- `emplace` of what a unit publishes about the functions it defines: a symbol keeps the first.
def addPublished {α : Type} (declared : Finset String) (published : String → Option α)
    (known : String → Option α) (function : String × String) : String → Option α :=
  match published function.1 with
  | none => known
  | some summary =>
      if function.2 ∈ declared || (known function.2).isSome then known
      else Function.update known function.2 (some summary)

def addUnit (index : ProgramSymbolIndex) (unit : Nat) (facts : TUFacts) : ProgramSymbolIndex :=
  let program := facts.program
  let functions := program.functionSymbolsById
  { spawnSitesByEntry := functions.foldl (addSpawns facts.entryConcurrency) index.spawnSitesByEntry
    unitsByFunction := (functions.map Prod.snd).foldl (addFunction unit) index.unitsByFunction
    definedGlobals := index.definedGlobals ∪ program.definedGlobals
    lockSummariesBySymbol := functions.foldl
      (addPublished program.declaredFunctions facts.lockWrapperSummaries)
      index.lockSummariesBySymbol
    resolvedHandleSymbols := index.resolvedHandleSymbols ∪
      facts.resolvedGlobalHandleIds.biUnion fun handleGroupId =>
        (program.handleSymbolsByGroupId handleGroupId).elim ∅ ({·})
    joiningHelpersBySymbol := functions.foldl
      (addPublished program.declaredFunctions facts.joiningHelpers) index.joiningHelpersBySymbol
    reapsChildren := index.reapsChildren || facts.reapsChildProcesses }

def entrySpawns (index : ProgramSymbolIndex) (symbol : String) : Option EntrySpawns :=
  (index.spawnSitesByEntry.find? (·.1 = symbol)).map Prod.snd

def isThreadEntry (index : ProgramSymbolIndex) (symbol : String) : Bool :=
  (index.entrySpawns symbol).isSome

def spawnCount (index : ProgramSymbolIndex) (symbol : String) : Nat :=
  ((index.entrySpawns symbol).map (·.instanceCount)).getD 0

def spawnedInLoop (index : ProgramSymbolIndex) (symbol : String) : Bool :=
  ((index.entrySpawns symbol).map (·.insideLoop)).getD false

def appearsInSeveralUnits (index : ProgramSymbolIndex) (symbol : String) : Bool :=
  ((index.unitsByFunction symbol).map (·.several)).getD false

def programCreatesThreads (index : ProgramSymbolIndex) : Bool :=
  !index.spawnSitesByEntry.isEmpty

def programReapsChildren (index : ProgramSymbolIndex) : Bool :=
  index.reapsChildren

def isDefinedSomewhere (index : ProgramSymbolIndex) (symbol : String) : Bool :=
  symbol ∈ index.definedGlobals

def lockSummaryFor (index : ProgramSymbolIndex) (symbol : String) :
    Option (List ParameterLockEffect) :=
  index.lockSummariesBySymbol symbol

def resolvesHandleElsewhere (index : ProgramSymbolIndex) (symbol : String) : Bool :=
  symbol ∈ index.resolvedHandleSymbols

def joinedParametersOf (index : ProgramSymbolIndex) (symbol : String) :
    Option (List JoinedParameter) :=
  index.joiningHelpersBySymbol symbol

end ProgramSymbolIndex

end ConcurrencyAnalyzer
