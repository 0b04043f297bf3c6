import ConcurrencyAnalyzer.FactQueries
import ConcurrencyAnalyzer.Library.OrderedMap
import Mathlib.Data.Prod.Lex

namespace ConcurrencyAnalyzer.ReportBuilder

open Library (OrderedMap)

structure FunctionSummary where
  file : String := ""
  name : String := ""
  threadReachable : Bool := false
  threadEntries : List String := []
  sharedAccessCount : Option Nat := none
  protectedAccessCount : Option Nat := none
  writeAccessCount : Option Nat := none
  hasDiagnostics : Bool := false
  deriving DecidableEq, Repr

abbrev Functions := OrderedMap String FunctionSummary

def diagnosticKey (location : SourceLocation) : String :=
  if location.function ≠ "" then location.function else location.file

-- What `functions[key]` holds, an empty summary where there was none, once the name and the file it
-- lacks are filled in.
def ensureDiagnosticSummary (location : SourceLocation) (present : Option FunctionSummary) :
    FunctionSummary :=
  let summary := present.getD {}
  let summary :=
    if summary.name = "" then
      { summary with
        name := if location.function = "" then diagnosticKey location else location.function }
    else summary
  if summary.file = "" then { summary with file := location.file } else summary

def markDiagnostic (location : SourceLocation) (present : Option FunctionSummary) :
    FunctionSummary :=
  { ensureDiagnosticSummary location present with hasDiagnostics := true }

def markFunctionAt (functions : Functions) (location : SourceLocation) : Functions :=
  if location.function = "" then functions
  else functions.alter (diagnosticKey location) (markDiagnostic location)

def markDiagnosticFunctions (functions : Functions) (diagnostic : Diagnostic) : Functions :=
  (diagnostic.relatedLocations.map (·.location)).foldl markFunctionAt
    (markFunctionAt functions diagnostic.location)

def ensureSummary (functionId : String) (present : Option FunctionSummary) : FunctionSummary :=
  let summary := present.getD {}
  if summary.name = "" then { summary with name := functionId } else summary

-- The lines the loops over the accesses and over the lock orders share.
def nameAfter (location : SourceLocation) (summary : FunctionSummary) : FunctionSummary :=
  let summary :=
    if location.function ≠ "" then { summary with name := location.function } else summary
  if summary.file = "" ∧ location.file ≠ "" then { summary with file := location.file }
  else summary

def countOneMore (count : Option Nat) : Option Nat := some (count.getD 0 + 1)

def addAccess (access : AccessFact) (present : Option FunctionSummary) : FunctionSummary :=
  let summary := nameAfter access.userLocation (ensureSummary access.functionId present)
  { summary with
    sharedAccessCount := countOneMore summary.sharedAccessCount
    protectedAccessCount :=
      if access.heldLocks ≠ ∅ then countOneMore summary.protectedAccessCount
      else summary.protectedAccessCount
    writeAccessCount :=
      if access.kind = .Write then countOneMore summary.writeAccessCount
      else summary.writeAccessCount }

def addLockOrder (lockOrder : LockOrderFact) (present : Option FunctionSummary) : FunctionSummary :=
  nameAfter lockOrder.location (ensureSummary lockOrder.functionId present)

def addReachable (functionId : String) (entries : ThreadEntrySet)
    (present : Option FunctionSummary) : FunctionSummary :=
  { ensureSummary functionId present with
    threadReachable := true
    threadEntries := sortedThreadEntries entries }

-- An order in which an iteration over `reachableThreadEntriesByFunction` meets its entries.
structure ReachableOrder (facts : TUFacts) where
  entries : List (String × ThreadEntrySet)
  nodup : (entries.map Prod.fst).Nodup
  mem_iff : ∀ functionId reached, (functionId, reached) ∈ entries ↔
    facts.reachableThreadEntriesByFunction functionId = some reached

def fillCounts (accessesWereComputed : Bool) (summary : FunctionSummary) : FunctionSummary :=
  if accessesWereComputed then
    { summary with
      sharedAccessCount := some (summary.sharedAccessCount.getD 0)
      protectedAccessCount := some (summary.protectedAccessCount.getD 0)
      writeAccessCount := some (summary.writeAccessCount.getD 0) }
  else summary

def collectedFunctions (facts : TUFacts) (order : ReachableOrder facts)
    (diagnostics : List Diagnostic) : Functions :=
  let functions := facts.accesses.foldl
    (fun functions access => functions.alter access.functionId (addAccess access)) OrderedMap.empty
  let functions := facts.lockOrders.foldl
    (fun functions lockOrder => functions.alter lockOrder.functionId (addLockOrder lockOrder))
    functions
  let functions := order.entries.foldl
    (fun functions entry => functions.alter entry.1 (addReachable entry.1 entry.2)) functions
  diagnostics.foldl markDiagnosticFunctions functions

def summariesById (facts : TUFacts) (order : ReachableOrder facts) (diagnostics : List Diagnostic)
    (accessesWereComputed : Bool) : Functions :=
  (collectedFunctions facts order diagnostics).mapValues (fillCounts accessesWereComputed)

def shownAs (summary : FunctionSummary) : String × String := (summary.name, summary.file)

def buildFunctionSummaries (facts : TUFacts) (order : ReachableOrder facts)
    (diagnostics : List Diagnostic) (accessesWereComputed : Bool) : List FunctionSummary :=
  ((summariesById facts order diagnostics accessesWereComputed).entries.map Prod.snd).insertionSort
    fun lhs rhs => toLex (shownAs lhs) ≤ toLex (shownAs rhs)

end ConcurrencyAnalyzer.ReportBuilder
