import ConcurrencyAnalyzer.FactsBuilder.TranslationUnit
import ConcurrencyAnalyzer.Library.Components
import ConcurrencyAnalyzer.Library.Settle
import Mathlib.Data.Prod.Lex

namespace ConcurrencyAnalyzer.FactsBuilder

open Library Relation

-- The unguarded wait of each function that has one, which is told once for a function.
abbrev UnguardedWaits := List ConditionWaitFact

def UnguardedWaits.contains (waits : UnguardedWaits) (functionId : String) : Bool :=
  waits.any (·.functionId = functionId)

def UnguardedWaits.find (waits : UnguardedWaits) (functionId : String) : Option ConditionWaitFact :=
  List.find? (·.functionId = functionId) waits

def UnguardedWaits.emplace (waits : UnguardedWaits) (fact : ConditionWaitFact) : UnguardedWaits :=
  if waits.contains fact.functionId then waits else waits ++ [fact]

def collectUnguarded (facts : List ConditionWaitFact) : UnguardedWaits :=
  facts.foldl (fun waits fact => if fact.guardedByLoop then waits else waits.emplace fact) []

-- A call outside a loop hands the wait of its callee to a caller that has none yet.
def inheritWait (waits : UnguardedWaits) (site : DirectCallSite) : UnguardedWaits :=
  if site.insideLoop || waits.contains site.callerFunctionId then waits
  else
    match waits.find site.calleeFunctionId with
    | none => waits
    | some fact =>
        waits.emplace { fact with
          functionId := site.callerFunctionId
          location := site.userLocation
          viaHelper := true }

def inheritWaits (sites : List DirectCallSite) (waits : UnguardedWaits) : UnguardedWaits :=
  sites.foldl inheritWait waits

-- `waitsChanged` is left false by a round that tells no new function.
def unchangedWaits (waits after : UnguardedWaits) : Bool := waits.length = after.length

-- A round that tells a function tells the caller of some call: there are no more than calls.
def propagateWaits (sites : List DirectCallSite) (facts : List ConditionWaitFact) :
    UnguardedWaits :=
  settle unchangedWaits (inheritWaits sites) sites.length (collectUnguarded facts)

def answeredByACaller (sites : List DirectCallSite) (waits : UnguardedWaits) : Finset String :=
  let carried := sites.filter fun site => waits.contains site.calleeFunctionId
  let outside := carried.filter fun site => !site.insideLoop
  let answered := outside.filter fun site => waits.contains site.callerFunctionId
  let calledFromSomewhere := (carried.map (·.calleeFunctionId)).toFinset
  let calledOutsideALoop := (outside.map (·.calleeFunctionId)).toFinset
  (answered.map (·.calleeFunctionId)).toFinset ∪ (calledFromSomewhere \ calledOutsideALoop)

-- The waits that are kept, before those at no location of the user are left out.
def keptWaits (sites : List DirectCallSite) (facts : List ConditionWaitFact) : UnguardedWaits :=
  let waits := propagateWaits sites facts
  waits.filter fun fact => fact.functionId ∉ answeredByACaller sites waits

def waitSortKey (fact : ConditionWaitFact) : String ×ₗ Nat ×ₗ Nat ×ₗ String :=
  toLex (fact.location.file, toLex (fact.location.line, toLex (fact.location.column,
    fact.functionId)))

def conditionWaits (sites : List DirectCallSite) (facts : List ConditionWaitFact)
    (isLikelyUserLocation : SourceLocation → Bool) : List ConditionWaitFact :=
  ((keptWaits sites facts).filter fun fact => isLikelyUserLocation fact.location).insertionSort
    fun lhs rhs => waitSortKey lhs ≤ waitSortKey rhs

def CallsOutsideLoop (sites : List DirectCallSite) (caller callee : String) : Prop :=
  ∃ site ∈ sites, site.insideLoop = false ∧ site.callerFunctionId = caller ∧
    site.calleeFunctionId = callee

-- Through calls outside loops, as the wait travels outwards.
def Reaches (sites : List DirectCallSite) : String → String → Prop :=
  ReflTransGen (CallsOutsideLoop sites)

def CalledInLoop (sites : List DirectCallSite) (callee : String) : Prop :=
  ∃ site ∈ sites, site.insideLoop = true ∧ site.calleeFunctionId = callee

-- The functions that owe a loop around a wait: those that wait unguarded, and whoever calls one of
-- them outside a loop.
inductive Carrier (sites : List DirectCallSite) (facts : List ConditionWaitFact) : String → Prop
  | waits (fact : ConditionWaitFact) (hmem : fact ∈ facts) (hunguarded : fact.guardedByLoop = false) :
      Carrier sites facts fact.functionId
  | calls {caller callee : String} (hcall : CallsOutsideLoop sites caller callee)
      (hcallee : Carrier sites facts callee) : Carrier sites facts caller

-- No carrier that reaches the function, itself included, is called from inside a loop.
def OpenAbove (sites : List DirectCallSite) (facts : List ConditionWaitFact) (functionId : String) :
    Prop :=
  ∀ above, Carrier sites facts above → Reaches sites above functionId → ¬CalledInLoop sites above

-- Some carrier that reaches an unanswered one is kept.
def NoWaitLost (sites : List DirectCallSite) (facts : List ConditionWaitFact) : Prop :=
  ∀ functionId, Carrier sites facts functionId → OpenAbove sites facts functionId →
    ∃ above, Carrier sites facts above ∧ Reaches sites above functionId ∧
      ∃ fact ∈ keptWaits sites facts, fact.functionId = above

-- A carrier that calls itself through calls outside loops is reached from outside its cycle.
def CyclesCalledFromOutside (sites : List DirectCallSite) (facts : List ConditionWaitFact) : Prop :=
  ∀ functionId, Carrier sites facts functionId → OpenAbove sites facts functionId →
    TransGen (CallsOutsideLoop sites) functionId functionId →
      ∃ above, Reaches sites above functionId ∧ ¬Reaches sites functionId above

end ConcurrencyAnalyzer.FactsBuilder
