import ConcurrencyAnalyzer.Checkers
import ConcurrencyAnalyzer.DataRace.Checker
import ConcurrencyAnalyzer.FactsBuilder.Build
import ConcurrencyAnalyzer.LockOrder.Analyzer
import ConcurrencyAnalyzer.MissingJoin.Detector
import Mathlib.Data.Prod.Lex

namespace ConcurrencyAnalyzer.CrossTU

open FactsBuilder

def declaresDefinedGlobal (facts : TUFacts) (index : ProgramSymbolIndex) : Bool :=
  decide (∃ global ∈ facts.program.declaredGlobals, index.isDefinedSomewhere global = true)

def forksBesideThreads (facts : TUFacts) (index : ProgramSymbolIndex) : Bool :=
  !facts.processForks.isEmpty && !facts.programCreatesThreads && index.programCreatesThreads

def forksReapedElsewhere (facts : TUFacts) (index : ProgramSymbolIndex) : Bool :=
  !facts.processForks.isEmpty && !facts.reapsChildProcesses && index.programReapsChildren

def createsResolvedHandle (facts : TUFacts) (index : ProgramSymbolIndex) : Bool :=
  facts.threadLifecycles.any fun fact =>
    fact.action = .Create &&
      ((facts.program.handleSymbolsByGroupId fact.handleGroupId).map
        index.resolvesHandleElsewhere).getD false

def declaresLockHelper (facts : TUFacts) (index : ProgramSymbolIndex) : Bool :=
  decide (∃ function ∈ facts.program.declaredFunctions,
    (index.lockSummaryFor function).isSome = true)

def declaresJoiningHelper (facts : TUFacts) (index : ProgramSymbolIndex) : Bool :=
  decide (∃ function ∈ facts.program.declaredFunctions,
    (index.joinedParametersOf function).isSome = true)

def settlesOnSharedFunction (facts : TUFacts) (index : ProgramSymbolIndex) : Bool :=
  decide (∃ symbol ∈ facts.program.settlingFunctions, index.appearsInSeveralUnits symbol = true)

-- One round of the last loop of the gate: an entry the program starts more often than the unit knows.
def startsMoreOften (facts : TUFacts) (index : ProgramSymbolIndex) (function : String × String) :
    Bool :=
  if function.2 ∈ facts.program.declaredFunctions || !index.isThreadEntry function.2 then false
  else
    match facts.entryConcurrency function.1 with
    | none => true
    | some concurrency =>
        concurrency.staticSpawnCount < index.spawnCount function.2 ||
          (index.spawnedInLoop function.2 && !concurrency.hasSpawnInLoop)

def crossTUChangesFacts (facts : TUFacts) (index : ProgramSymbolIndex)
    (selection : FactSelection) : Bool :=
  let channels := selection.channels
  if channels.externGlobals && declaresDefinedGlobal facts index then true
  else if channels.programThreads && forksBesideThreads facts index then true
  else if channels.programReaps && forksReapedElsewhere facts index then true
  else if channels.resolvedHandles && createsResolvedHandle facts index then true
  else if channels.helperLockEffects && declaresLockHelper facts index then true
  else if channels.helperJoins && declaresJoiningHelper facts index then true
  else if !channels.entryConcurrency then false
  else if settlesOnSharedFunction facts index then true
  else facts.program.functionSymbolsById.any (startsMoreOften facts index)

-- The rules the process-lifecycle checker reports, of which the disabled ones are erased.
def processRules : List RuleId :=
  [.ForkAfterThreadCreation, .UnreapedChildProcess, .ThreadArgumentEscapesFrame,
    .ThreadArgumentFreedEarly, .ThreadLocalOutlivesThread, .UnsafeSignalHandler]

-- The report of one unit before it is finalized, notices apart.
def unitDiagnostics (rules : List RuleId) (facts : TUFacts) : List Diagnostic :=
  (if .DataRaceGlobal ∈ rules then (DataRace.run facts).diagnostics else []) ++
    (if .DeadlockLockOrder ∈ rules then (LockOrder.run facts).diagnostics else []) ++
    (if .MissingJoin ∈ rules then (MissingJoin.run facts).diagnostics else []) ++
    (if .ConditionWaitWithoutPredicate ∈ rules then (ConditionWait.run facts).diagnostics
      else []) ++
    (if .WeakPublicationOrdering ∈ rules then (PublicationOrdering.run facts).diagnostics
      else []) ++
    (if processRules.any (· ∈ rules) then
      (ProcessLifecycle.run facts).diagnostics.filter (·.ruleId ∈ rules) else [])

def ruleRank : RuleId → Nat
  | .CompilerDiagnostic => 0
  | .DataRaceGlobal => 1
  | .MissingJoin => 2
  | .DeadlockLockOrder => 3
  | .ConditionWaitWithoutPredicate => 4
  | .ForkAfterThreadCreation => 5
  | .UnreapedChildProcess => 6
  | .ThreadArgumentEscapesFrame => 7
  | .UnsafeSignalHandler => 8
  | .WeakPublicationOrdering => 9
  | .ThreadArgumentFreedEarly => 10
  | .ThreadLocalOutlivesThread => 11

def sortKey (diagnostic : Diagnostic) : Nat ×ₗ String ×ₗ Nat ×ₗ Nat ×ₗ String :=
  toLex (ruleRank diagnostic.ruleId, toLex (diagnostic.location.file,
    toLex (diagnostic.location.line, toLex (diagnostic.location.column, diagnostic.message))))

-- Diagnostics that compare alike keep their order; the source leaves it open.
def finalizeReport (diagnostics : List Diagnostic) : List Diagnostic :=
  (diagnostics.insertionSort fun lhs rhs => sortKey lhs ≤ sortKey rhs).mapIdx fun place diagnostic =>
    { diagnostic with id := "diag-" ++ toString (place + 1) }

def diagnosticKey (diagnostic : Diagnostic) : String :=
  diagnostic.id ++ "|" ++ diagnostic.location.file ++ ":" ++ toString diagnostic.location.line ++
    ":" ++ toString diagnostic.location.column ++ "|" ++ diagnostic.message

-- `SingleTUConcurrencyAnalyzer::analyze`.
def analyzeUnit (rules : List RuleId) (unit : TranslationUnit) : List Diagnostic :=
  finalizeReport (unitDiagnostics rules (build unit (FactSelection.forRules rules false) none))

inductive Pass where
  | First
  | Second
  deriving DecidableEq, Repr

structure ProjectUnit where
  identifier : String
  module : TranslationUnit

-- A unit that loaded, under its number.
structure AnalysedUnit where
  number : Nat
  unit : ProjectUnit
  facts : TUFacts

structure ProjectAnalysis where
  diagnostics : List Diagnostic := []
  skippedIncompatibleModules : List String := []
  reanalyzedUnitCount : Nat := 0
  failedUnits : List String := []

section Project

variable (rules : List RuleId) (units : List ProjectUnit) (loads : Pass → Nat → Bool)

def selectionFor : FactSelection := FactSelection.forRules rules true

-- Every unit on its own against an empty index, in project mode.
def firstPass : List AnalysedUnit :=
  units.zipIdx.filterMap fun (unit, number) =>
    if loads .First number then
      some ⟨number, unit, build unit.module (selectionFor rules) (some {})⟩
    else none

def unitCountByAbi (abiKeys : List String) (abiKey : String) : Nat :=
  abiKeys.count abiKey

-- The first key in order among those with most units.
def dominantAbi (abiKeys : List String) : String :=
  match orderedSet abiKeys with
  | [] => ""
  | first :: rest => rest.foldl (fun best key =>
      if unitCountByAbi abiKeys best < unitCountByAbi abiKeys key then key else best) first

def isCompatible (analysed : List AnalysedUnit) (unit : AnalysedUnit) : Bool :=
  unit.facts.program.abiKey = dominantAbi (analysed.map (·.facts.program.abiKey))

def compatible : List AnalysedUnit :=
  (firstPass rules units loads).filter (isCompatible (firstPass rules units loads))

def programIndex : ProgramSymbolIndex :=
  (compatible rules units loads).foldl (fun index unit => index.addUnit unit.number unit.facts) {}

def isReanalyzed (unit : AnalysedUnit) : Bool :=
  crossTUChangesFacts unit.facts (programIndex rules units loads) (selectionFor rules)

-- A unit that fails in the second pass loses the facts of the first as well.
def secondPass : List AnalysedUnit :=
  (compatible rules units loads).filterMap fun unit =>
    if !isReanalyzed rules units loads unit then some unit
    else if loads .Second unit.number then
      some { unit with
        facts := build unit.unit.module (selectionFor rules) (some (programIndex rules units loads)) }
    else none

-- A copy of a diagnostic already reported is dropped.
def mergeDiagnostic (report : List Diagnostic) (diagnostic : Diagnostic) : List Diagnostic :=
  if report.any (diagnosticKey · = diagnosticKey diagnostic) then report
  else report ++ [diagnostic]

def mergeUnit (report : List Diagnostic) (unit : AnalysedUnit) : List Diagnostic :=
  (finalizeReport (unitDiagnostics rules unit.facts)).foldl mergeDiagnostic report

def analyze : ProjectAnalysis where
  diagnostics := (secondPass rules units loads).foldl (mergeUnit rules) []
  skippedIncompatibleModules :=
    ((firstPass rules units loads).filter fun unit =>
      !isCompatible (firstPass rules units loads) unit).map (·.unit.identifier)
  reanalyzedUnitCount := (compatible rules units loads).countP (isReanalyzed rules units loads)
  failedUnits :=
    (units.zipIdx.filter fun (_, number) =>
      !loads .First number ||
        ((compatible rules units loads).any fun unit =>
          unit.number = number && isReanalyzed rules units loads unit && !loads .Second number)).map
      (·.1.identifier)

end Project

-- What a diagnostic reports, without its id: the id numbers the diagnostics of one report.
def describeFinding (diagnostic : Diagnostic) : String :=
  diagnostic.location.file ++ ":" ++ toString diagnostic.location.line ++ ":" ++
    toString diagnostic.location.column ++ "|" ++ diagnostic.message

-- A rule's findings in a report, comparable between reports made with different rules. A copy of a
-- finding is the same finding.
def ruleFindings (diagnostics : List Diagnostic) (rule : RuleId) : Finset String :=
  ((diagnostics.filter (·.ruleId = rule)).map describeFinding).toFinset

end ConcurrencyAnalyzer.CrossTU
