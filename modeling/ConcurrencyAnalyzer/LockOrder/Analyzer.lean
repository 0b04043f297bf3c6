import ConcurrencyAnalyzer.FactQueries
import ConcurrencyAnalyzer.Library.Search

namespace ConcurrencyAnalyzer.LockOrder

def entriesFor (fact : LockOrderFact) (facts : TUFacts) : ThreadEntrySet :=
  (facts.reachableThreadEntriesByFunction fact.functionId).getD ∅

def participatesInConcurrency (fact : LockOrderFact) (facts : TUFacts) : Bool :=
  (facts.reachableThreadEntriesByFunction fact.functionId).isSome || fact.inRootTask

def contextLabel (fact : LockOrderFact) (facts : TUFacts) : List String :=
  let entries := sortedThreadEntries (entriesFor fact facts)
  if entries.isEmpty && fact.inRootTask then [rootTaskId] else entries

-- The note on one order of a cycle, the first of them being the primary one.
def orderNote (label : String) (edge : LockOrderFact) (facts : TUFacts) : String :=
  label ++ ": acquire '" ++ edge.secondLockId ++ "' while holding '" ++ edge.firstLockId ++
    "' at " ++ locationLabel edge.location ++ " (thread entries: " ++
    joinValues (contextLabel edge facts) ++ ")"

def cycleMessage (length : Nat) : String :=
  if length = 2 then "potential deadlock caused by inconsistent lock acquisition order"
  else "potential deadlock caused by a cycle of " ++ toString length ++ " lock acquisitions"

-- A cycle has a first order: the source reads it without a test.
def firstOrder (cycle : List LockOrderFact) : LockOrderFact :=
  cycle.headD ⟨"", "", "", {}, ∅, false, ∅, ∅, false, false, false⟩

-- `emitCycleDiagnostic`.
def cycleDiagnostic (cycle : List LockOrderFact) (facts : TUFacts) : Diagnostic :=
  let first := firstOrder cycle
  let located := { Diagnostic.ofRule .DeadlockLockOrder with
    location := first.location, message := cycleMessage cycle.length }
  let noted := cycle.tail.foldl
    (fun diagnostic edge => (diagnostic.note (orderNote "conflicting order" edge facts)).relatedLocation
      "Conflicting lock order" edge.location)
    (located.note (orderNote "first order" first facts))
  ((((noted.property "firstLock" (.text first.firstLockId)).property "secondLock"
    (.text first.secondLockId)).property "cycleLocks"
    (.texts (cycle.map (·.firstLockId)))).property "firstThreadEntries"
    (.texts (contextLabel first facts))).property "secondThreadEntries"
    (.texts (contextLabel (cycle.getLastD first) facts))

def cycleLocks (cycle : List LockOrderFact) : LockSet :=
  (cycle.map (·.firstLockId) ++ cycle.map (·.secondLockId)).toFinset

-- The locks held at an acquisition of the cycle other than the cycle's own.
def gateCandidates (cycle : List LockOrderFact) (edge : LockOrderFact) : LockSet :=
  edge.heldLocks.filter (· ∉ cycleLocks cycle)

def hasCommonGateLock (cycle : List LockOrderFact) : Bool :=
  match cycle.map (gateCandidates cycle) with
  | [] => false
  | first :: rest => decide (rest.foldl (· ∩ ·) first ≠ ∅)

def isAddressOrdered (cycle : List LockOrderFact) : Bool :=
  cycle.all (·.lowerAddressFirst)

def edgeName (edge : LockOrderFact) : String :=
  edge.firstLockId ++ "->" ++ edge.secondLockId

def cycleKey (cycle : List LockOrderFact) : String :=
  String.join ((orderedSet (cycle.map edgeName)).map (· ++ "||"))

structure LockSuccessor where
  lock : Nat
  orders : List LockOrderFact

abbrev LockGraph := List (List LockSuccessor)

-- The orders of `edgesByFirstLock` under a lock, in the order they were collected.
def edgesFrom (edges : List LockOrderFact) (lockId : String) : List LockOrderFact :=
  edges.filter (·.firstLockId = lockId)

-- Numbers a lock not numbered yet, then the locks its orders lead to. A lock's number is its place
-- in the list.
def number (edges : List LockOrderFact) : Nat → String → List String → List String
  | 0, _, numbers => numbers
  | fuel + 1, lockId, numbers =>
      if lockId ∈ numbers then numbers
      else (edgesFrom edges lockId).foldl
        (fun numbered edge => number edges fuel edge.secondLockId numbered) (numbers ++ [lockId])

-- Every lock named by an order, which bounds the depth of the numbering.
def lockNames (edges : List LockOrderFact) : Finset String :=
  (edges.map (·.firstLockId) ++ edges.map (·.secondLockId)).toFinset

def lockNumbers (edges : List LockOrderFact) : List String :=
  (orderedSet (edges.map (·.firstLockId))).foldl
    (fun numbers lockId => number edges ((lockNames edges).card + 1) lockId numbers) []

-- Adds an order to the successor it leads to, a new one when there is none yet.
def addSuccessorOrder (target : Nat) (order : LockOrderFact) :
    List LockSuccessor → List LockSuccessor
  | [] => [⟨target, [order]⟩]
  | successor :: rest =>
      if successor.lock = target then
        { successor with orders := successor.orders ++ [order] } :: rest
      else successor :: addSuccessorOrder target order rest

def successorsOf (numbers : List String) (edges : List LockOrderFact) (lockId : String) :
    List LockSuccessor :=
  (edgesFrom edges lockId).foldl
    (fun successors order =>
      addSuccessorOrder (numbers.idxOf order.secondLockId) order successors) []

def buildLockGraph (edges : List LockOrderFact) : LockGraph :=
  (lockNumbers edges).map (successorsOf (lockNumbers edges) edges)

def mayHappenInParallelWithEach (order : LockOrderFact) (taken : List LockOrderFact)
    (facts : TUFacts) : Bool :=
  taken.all fun other =>
    mayHappenInParallel other (entriesFor other facts) order (entriesFor order facts) facts

def kMaxOrdersExaminedPerLock : Nat := 2 ^ 16

-- What the walks found so far.
structure Findings where
  diagnostics : List Diagnostic := []
  emittedCycleKeys : Finset String := ∅
  addressOrderedCycles : List (List LockOrderFact) := []
  addressOrderedKeys : Finset String := ∅

-- What the walks share: the orders and locks of the current path, the orders examined since the
-- walk from the current start began, and what was found.
structure WalkState where
  path : List LockOrderFact := []
  onPath : Finset Nat := ∅
  examined : Nat := 0
  found : Findings := {}

def emitOnce (facts : TUFacts) (found : Findings) (cycle : List LockOrderFact) : Findings :=
  if cycleKey cycle ∈ found.emittedCycleKeys then found
  else
    { found with
      emittedCycleKeys := insert (cycleKey cycle) found.emittedCycleKeys
      diagnostics := found.diagnostics ++ [cycleDiagnostic cycle facts] }

-- Judges the cycle an order into the start closes.
def closeCycle (facts : TUFacts) (found : Findings) (cycle : List LockOrderFact) : Findings :=
  if hasCommonGateLock cycle then found
  else if !isAddressOrdered cycle then emitOnce facts found cycle
  else if cycleKey cycle ∈ found.addressOrderedKeys then found
  else
    { found with
      addressOrderedKeys := insert (cycleKey cycle) found.addressOrderedKeys
      addressOrderedCycles := found.addressOrderedCycles ++ [cycle] }

section Walk

variable (facts : TUFacts) (start : Nat)

-- The orders into one successor. `descend` is the walk from the successor's lock.
def walkOrders (descend : WalkState → Bool × WalkState) (lock : Nat) :
    List LockOrderFact → WalkState → Bool × WalkState
  | [], state => (true, state)
  | order :: orders, state =>
      let state := { state with examined := state.examined + 1 }
      if state.examined > kMaxOrdersExaminedPerLock then (false, state)
      else if !mayHappenInParallelWithEach order state.path facts then
        walkOrders descend lock orders state
      else
        let pushed := { state with path := state.path ++ [order] }
        let walked : Bool × WalkState :=
          if lock ≠ start then
            let inner := descend { pushed with onPath := insert lock pushed.onPath }
            (inner.1, { inner.2 with onPath := inner.2.onPath.erase lock })
          else (true, { pushed with found := closeCycle facts pushed.found pushed.path })
        let popped := { walked.2 with path := walked.2.path.dropLast }
        if walked.1 then walkOrders descend lock orders popped else (false, popped)

def walkSuccessors (leadsToStart : Finset Nat) (descend : Nat → WalkState → Bool × WalkState) :
    List LockSuccessor → WalkState → Bool × WalkState
  | [], state => (true, state)
  | successor :: successors, state =>
      if successor.lock ≠ start ∧
          (successor.lock ∉ leadsToStart ∨ successor.lock ∈ state.onPath) then
        walkSuccessors leadsToStart descend successors state
      else
        let walked := walkOrders facts start (descend successor.lock) successor.lock
          successor.orders state
        if walked.1 then walkSuccessors leadsToStart descend successors walked.2
        else (false, walked.2)

-- False once the walk from `start` has examined its share of orders. A path holds each lock once,
-- so as many steps as there are locks are enough.
def walk (graph : LockGraph) (leadsToStart : Finset Nat) :
    Nat → Nat → WalkState → Bool × WalkState
  | 0, _, state => (true, state)
  | fuel + 1, lock, state =>
      walkSuccessors facts start leadsToStart (walk graph leadsToStart fuel)
        ((graph[lock]?).getD []) state

end Walk

def predecessors (graph : LockGraph) (target : Nat) : List Nat :=
  (List.range graph.length).flatMap fun lock =>
    ((graph[lock]?).getD []).filterMap fun successor =>
      if successor.lock = target then some lock else none

-- The locks numbered after `start` that orders between such locks lead back from. A lock is pending
-- at most once, and `start` once before any other.
def leadsToStart (graph : LockGraph) (start : Nat) : Finset Nat :=
  Library.Search.search (predecessors graph) (fun lock => lock > start) (graph.length + 1) ∅ [start]

def walkFrom (facts : TUFacts) (graph : LockGraph) (start : Nat) (state : WalkState) :
    Bool × WalkState :=
  walk facts start graph (leadsToStart graph start) graph.length start { state with examined := 0 }

def walkAll (facts : TUFacts) (graph : LockGraph) :
    List Nat → Bool × WalkState → Bool × WalkState
  | [], result => result
  | start :: starts, (complete, state) =>
      let walked := walkFrom facts graph start state
      walkAll facts graph starts (complete && walked.1, walked.2)

-- The diagnostics of the cycles, and whether every walk finished.
def reportDeadlockingCycles (facts : TUFacts) (graph : LockGraph) : Bool × List Diagnostic :=
  let walked := walkAll facts graph (List.range graph.length) (true, {})
  if walked.1 then (true, walked.2.found.diagnostics)
  else
    (false, (walked.2.found.addressOrderedCycles.foldl (emitOnce facts) walked.2.found).diagnostics)

def selfDeadlockDiagnostic (fact : LockOrderFact) : Diagnostic :=
  ((({ Diagnostic.ofRule .DeadlockLockOrder with
      location := fact.location
      message := "potential deadlock caused by reacquiring a non-recursive lock" }.relatedLocation
    "Reacquired lock" fact.location).note ("reacquires '" ++ fact.secondLockId ++
      "' while it is already held at " ++ locationLabel fact.location)).property
    "firstLock" (.text fact.firstLockId)).property "secondLock" (.text fact.secondLockId)

def cycleSearchLimitReached : AnalysisNotice where
  id := "cycle-search-limit-reached"
  ruleId := .DeadlockLockOrder
  message := "lock-order cycle search incomplete: exploration limit reached; some " ++
    "lock-order cycles may not be reported"

-- The orders that may take part in a cycle.
def cycleOrders (facts : TUFacts) : List LockOrderFact :=
  facts.lockOrders.filter fun fact =>
    fact.firstLockId ≠ fact.secondLockId && participatesInConcurrency fact facts

def selfDeadlocks (facts : TUFacts) : List LockOrderFact :=
  facts.lockOrders.filter fun fact =>
    fact.firstLockId = fact.secondLockId && decide (fact.secondLockId ∉ facts.recursiveLockIds)

def run (facts : TUFacts) : DiagnosticReport :=
  let searched := reportDeadlockingCycles facts (buildLockGraph (cycleOrders facts))
  { diagnostics := (selfDeadlocks facts).map selfDeadlockDiagnostic ++ searched.2
    notices := if searched.1 then [] else [cycleSearchLimitReached] }

end ConcurrencyAnalyzer.LockOrder
