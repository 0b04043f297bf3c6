import ConcurrencyAnalyzer.Facts
import ConcurrencyAnalyzer.Library.OrderedMap
import Mathlib.Data.Finset.Card

namespace ConcurrencyAnalyzer.MissingJoin

open Library

structure LifecycleSummary where
  handleKind : ThreadHandleKind := .PThread
  firstCreateLocation : SourceLocation := {}
  createCount : Nat := 0
  joinCount : Nat := 0
  detachCount : Nat := 0
  hasUnresolvedPath : Bool := false
  hasLoopedCreate : Bool := false
  hasEscapedHandle : Bool := false
  allCreatesResolvedOnAllPaths : Bool := true
  pathAnalysisApplies : Bool := true

-- The parent of each handle group; a group that was never united is its own.
abbrev HandleGroupAliases := String → String

-- The paths that `find` shortens on its way lead to the same root, so they are left as they are.
-- Each `unite` gives one root a parent: a path is no longer than there are facts.
def find (aliases : HandleGroupAliases) : Nat → String → String
  | 0, groupId => groupId
  | fuel + 1, groupId =>
      if aliases groupId = groupId then groupId else find aliases fuel (aliases groupId)

def isArgument (groupId : String) : Bool :=
  "arg:".toList.isPrefixOf groupId.toList

-- Which of two roots `unite` hangs under the other.
def hang (aliases : HandleGroupAliases) (lhsRoot rhsRoot : String) : HandleGroupAliases :=
  if lhsRoot = rhsRoot then aliases
  else if isArgument lhsRoot ≠ isArgument rhsRoot then
    if isArgument lhsRoot then Function.update aliases lhsRoot rhsRoot
    else Function.update aliases rhsRoot lhsRoot
  else if lhsRoot < rhsRoot then Function.update aliases rhsRoot lhsRoot
  else Function.update aliases lhsRoot rhsRoot

def unite (fuel : Nat) (aliases : HandleGroupAliases) (lhs rhs : String) : HandleGroupAliases :=
  hang aliases (find aliases fuel lhs) (find aliases fuel rhs)

def uniteMove (fuel : Nat) (aliases : HandleGroupAliases) (fact : ThreadLifecycleFact) :
    HandleGroupAliases :=
  match fact.action, fact.sourceHandleGroupId with
  | .Move, some source => unite fuel aliases fact.handleGroupId source
  | _, _ => aliases

def groupAliases (facts : List ThreadLifecycleFact) : HandleGroupAliases :=
  facts.foldl (uniteMove facts.length) id

def groupOf (facts : List ThreadLifecycleFact) (handleGroupId : String) : String :=
  find (groupAliases facts) facts.length handleGroupId

def hasNoCreateLocation (summary : LifecycleSummary) : Bool :=
  summary.firstCreateLocation.file = "" && summary.firstCreateLocation.line = 0

-- What one fact adds to the summary of its group.
def summarize (fact : ThreadLifecycleFact) (present : Option LifecycleSummary) :
    LifecycleSummary :=
  let summary := present.getD {}
  if fact.action = .Move then { summary with pathAnalysisApplies := false }
  else
    let summary :=
      { summary with
        handleKind := fact.handleKind
        pathAnalysisApplies := summary.pathAnalysisApplies && !fact.propagated
        firstCreateLocation :=
          if hasNoCreateLocation summary && fact.action = .Create then fact.location
          else summary.firstCreateLocation }
    match fact.action with
    | .Create =>
        { summary with
          createCount := summary.createCount + 1
          hasUnresolvedPath := summary.hasUnresolvedPath || !fact.resolvedOnAllPaths
          allCreatesResolvedOnAllPaths :=
            summary.allCreatesResolvedOnAllPaths && fact.resolvedOnAllPaths
          hasLoopedCreate := summary.hasLoopedCreate || fact.insideLoop
          hasEscapedHandle := summary.hasEscapedHandle || fact.escapedToUntrackedStorage
          firstCreateLocation :=
            if hasNoCreateLocation summary then fact.location else summary.firstCreateLocation }
    | .Join => { summary with joinCount := summary.joinCount + 1 }
    | .Detach => { summary with detachCount := summary.detachCount + 1 }
    | .Move => summary

def summariesByGroup (facts : List ThreadLifecycleFact) : OrderedMap String LifecycleSummary :=
  facts.foldl
    (fun summaries fact => summaries.alter (groupOf facts fact.handleGroupId) (summarize fact))
    OrderedMap.empty

def functionsByGroup (facts : List ThreadLifecycleFact) (groupId : String) : Finset String :=
  ((facts.filter fun fact => fact.action ≠ .Move && groupOf facts fact.handleGroupId = groupId).map
    (·.functionId)).toFinset

def handleKindLabel : ThreadHandleKind → String
  | .PThread => "pthread"
  | .StdThread => "std::thread"

def describeSummary (summary : LifecycleSummary) : String :=
  "creates=" ++ toString summary.createCount ++ ", joins=" ++ toString summary.joinCount ++
    ", detaches=" ++ toString summary.detachCount

def isUnbalanced (summary : LifecycleSummary) : Bool :=
  summary.joinCount + summary.detachCount < summary.createCount

def hasPathSignal (summary : LifecycleSummary) : Bool :=
  summary.pathAnalysisApplies && (summary.hasUnresolvedPath || summary.hasLoopedCreate) &&
    summary.createCount ≠ 0

def isReported (groupId : String) (summary : LifecycleSummary) : Bool :=
  !isArgument groupId && !summary.hasEscapedHandle &&
    !(isUnbalanced summary && summary.createCount ≠ 0 && summary.allCreatesResolvedOnAllPaths &&
      !summary.hasLoopedCreate) &&
    (isUnbalanced summary || hasPathSignal summary)

def outstandingCount (summary : LifecycleSummary) : Nat :=
  if isUnbalanced summary then summary.createCount - (summary.joinCount + summary.detachCount)
  else 1

def diagnostic (summary : LifecycleSummary) : Diagnostic :=
  let told : Diagnostic :=
    { Diagnostic.ofRule .MissingJoin with
      location := summary.firstCreateLocation
      message := "thread handle is not joined or detached before scope exit"
      notes := ["handle kind: " ++ handleKindLabel summary.handleKind,
        "lifecycle summary: " ++ describeSummary summary,
        "outstanding joinable handles: " ++ toString (outstandingCount summary)] }
  let explained :=
    if !isUnbalanced summary && summary.hasLoopedCreate then
      told.note ("the handle is created inside a loop while it is resolved outside it, so every " ++
        "iteration but the last leaks its thread")
    else if !isUnbalanced summary && summary.hasUnresolvedPath then
      told.note "at least one path leaves the creation without reaching a join or a detach"
    else told
  ((((explained.property "handleKind" (.text (handleKindLabel summary.handleKind))).property
    "createCount" (.number summary.createCount)).property
    "joinCount" (.number summary.joinCount)).property
    "detachCount" (.number summary.detachCount)).property
    "outstandingCount" (.number (outstandingCount summary))

def run (facts : TUFacts) : DiagnosticReport where
  diagnostics := (summariesByGroup facts.threadLifecycles).entries.filterMap fun (groupId, summary) =>
    let summary :=
      if 1 < (functionsByGroup facts.threadLifecycles groupId).card then
        { summary with pathAnalysisApplies := false }
      else summary
    if isReported groupId summary then some (diagnostic summary) else none

end ConcurrencyAnalyzer.MissingJoin
