import ConcurrencyAnalyzer.FactsBuilder.Build
import ConcurrencyAnalyzer.FactsBuilder.OpenLockOrders
import ConcurrencyAnalyzer.Library.Settle
import ConcurrencyAnalyzer.LockOrder.Collector

namespace ConcurrencyAnalyzer.FactsBuilder

open Library Program LockState LockOrder

-- What the lock orders of a unit are read from in the IR. `functions` are those with a body, and
-- `instructionAt` numbers the instructions of each in the module.
structure LockOrderIR where
  functions : List Function := []
  instructionAt : String → OrderSite → InstructionId := fun _ _ => 0
  userLocation : InstructionId → SourceLocation := fun _ => {}
  comparisonOf : String → Nat → Option AddressComparison := fun _ _ => none
  designatesRecursiveLockType : Pointer → Bool := fun _ => false
  callOperands : InstructionId → List Pointer := fun _ => []
  callsStandardLibrary : InstructionId → Bool := fun _ => false

-- An order as the analysis reads it: its key, and for an order on two locks those that may gate it.
def lockOrderIdentity (order : LockOrderFact) : String :=
  if order.firstLockId = order.secondLockId then lockOrderKey order
  else lockOrderKey order ++ String.join ((sortedNames (namedLocks order.heldLocks)).map ("|" ++ ·))

def isHeldThroughParameter (order : LockOrderFact) : Bool :=
  decide (∃ lockId ∈ order.heldLocks, (parameterLockPlace lockId).isSome)

section Inputs

variable (ir : LockOrderIR) (inputs : LockOrderInputs)

def bindingOf (functionId : String) : Option SharedObjectBinding :=
  (inputs.sharedObjectBindings.find? (·.1 = functionId)).map (·.2)

def entryLocks (functionId : String) : LockSet :=
  (inputs.lockPropagation.entryLocksByFunction functionId).getD ∅

def liveEntriesAt (instruction : InstructionId) : ThreadEntrySet :=
  (inputs.taskConcurrency.liveEntriesAtInstruction instruction).getD ∅

def startedEntriesAt (instruction : InstructionId) : ThreadEntrySet :=
  (inputs.taskConcurrency.startedEntriesAtInstruction instruction).getD ∅

def takesCalleeLockOrders (site : DirectCallSite) : Bool := !ir.callsStandardLibrary site.call

def runOnlyByDirectCalls (functionId : String) : Bool :=
  inputs.directCallSites.any fun site =>
    site.calleeFunctionId = functionId && takesCalleeLockOrders ir site &&
      (inputs.entryConcurrency functionId).isNone

def calledUnderDifferentLocks (functionId : String) : Bool :=
  inputs.directCallSites.any fun site =>
    site.calleeFunctionId = functionId &&
      match inputs.lockPropagation.effectiveHeldLocksByCall site.call,
          inputs.lockPropagation.entryLocksByFunction functionId with
      | some held, some entry =>
          decide (∃ lockId ∈ held, (parameterLockPlace lockId).isNone ∧ lockId ∉ entry)
      | _, _ => false

def spawnedApart (functionId : String) : Bool :=
  (bindingOf inputs functionId).any (·.runByDirectCalls)

def lockOrderCollector : LockOrderCollector where
  summaries := inputs.lockWrapperSummaries
  sharedObjects := inputs.sharedObjectBindings
  designatesRecursiveLockType := ir.designatesRecursiveLockType

def orderSource (function : Function) (spawnedThread : Bool) : OrderSource where
  function := function
  initialHeldLocks := entryLocks inputs function.id
  liveEntriesByInstruction site := liveEntriesAt inputs (ir.instructionAt function.id site)
  startedEntriesByInstruction site := startedEntriesAt inputs (ir.instructionAt function.id site)
  spawnedThread := spawnedThread
  userLocation site := ir.userLocation (ir.instructionAt function.id site)
  comparisonOf := ir.comparisonOf function.id

def functionLockOrders (function : Function) : List LockOrderFact :=
  ((lockOrderCollector ir inputs).collect (orderSource ir inputs function false)).map fun order =>
    { order with inRootTask := function.id ∈ inputs.taskConcurrency.rootTaskFunctions }

-- The spawned thread starts holding nothing, and nothing names its other parameters.
def spawnedThreadLockOrders (function : Function) : List LockOrderFact :=
  (lockOrderCollector ir inputs).collect (orderSource ir inputs function true)

-- A closed order that is judged at each call of its function: what gates it there, the function does
-- not know.
def judgedAtCalls (order : LockOrderFact) : Bool :=
  (runOnlyByDirectCalls ir inputs order.functionId || spawnedApart inputs order.functionId) &&
    order.firstLockId ≠ order.secondLockId &&
      (calledUnderDifferentLocks inputs order.functionId || isHeldThroughParameter order)

-- An object whose thread takes its orders at the calls of its entry apart.
def spawnedOn (functionId : String) : Option SharedObjectBinding :=
  (bindingOf inputs functionId).filter fun binding =>
    binding.keptForLackOfProof || binding.runByDirectCalls

def locksNamedAt (site : DirectCallSite) (object : Option SharedObjectBinding) :
    SynchronizationEffectResolver where
  functionId := site.callerFunctionId
  summaries := inputs.lockWrapperSummaries
  sharedObject := object
  localObjects := inputs.localObjectIds
  nameParameterFieldLocks := true
  designatesRecursiveLockType := ir.designatesRecursiveLockType

def passedLocks (site : DirectCallSite) (object : Option SharedObjectBinding) (index : Nat) :
    Option String :=
  (ir.callOperands site.call)[index]?.bind (locksNamedAt ir inputs site object).lockIdOf

def lockOrderCall (site : DirectCallSite) : LockOrderCall where
  callerFunctionId := site.callerFunctionId
  userLocation := site.userLocation
  passed := passedLocks ir inputs site
    (if (spawnedOn inputs site.callerFunctionId).isNone then bindingOf inputs site.callerFunctionId
    else none)
  heldAtCall := (inputs.lockPropagation.effectiveHeldLocksByCall site.call).getD ∅
  calleeEntryLocks := entryLocks inputs site.calleeFunctionId
  liveAtCall := liveEntriesAt inputs site.call
  startedAtCall := startedEntriesAt inputs site.call
  callerInRootTask := site.callerFunctionId ∈ inputs.taskConcurrency.rootTaskFunctions

-- The same call as the thread spawned on an object makes it.
def spawnedCall (site : DirectCallSite) (object : SharedObjectBinding) : LockOrderCall where
  callerFunctionId := site.callerFunctionId
  userLocation := site.userLocation
  passed := passedLocks ir inputs site (some object)
  heldAtCall := locksOnSharedObject (lockOrderCall ir inputs site).heldAtCall object
  calleeEntryLocks := entryLocks inputs site.calleeFunctionId
  liveAtCall := liveEntriesAt inputs site.call
  startedAtCall := startedEntriesAt inputs site.call

def orderCall (site : DirectCallSite) : OrderCall where
  calleeFunctionId := site.calleeFunctionId
  call := lockOrderCall ir inputs site
  runsItsOrders := (spawnedOn inputs site.callerFunctionId).all (·.runByDirectCalls)

-- The part of the unit that open orders are made of.
def lockOrderModule : LockOrderModule where
  calls := (inputs.directCallSites.filter (takesCalleeLockOrders ir)).map (orderCall ir inputs)
  collected := ir.functions.flatMap (functionLockOrders ir inputs)
  judgedAtCalls := judgedAtCalls ir inputs

end Inputs

structure LockOrderState where
  leftOpen : RoundState := {}
  lockOrders : List LockOrderFact := []

namespace LockOrderState

def takeOrder (throughRecursion : Bool) (state : LockOrderState) (order : LockOrderFact) :
    LockOrderState :=
  if isOpenLockOrder order then
    { state with leftOpen := state.leftOpen.receive ⟨order, throughRecursion⟩ }
  else { state with lockOrders := addLockOrder state.lockOrders order }

-- An order of the spawned thread, unless every run takes it alike. What the thread leaves open is no
-- order of its own.
def takeSpawnedOrder (sharedOrders : List String) (state : LockOrderState) (order : LockOrderFact) :
    LockOrderState :=
  if isOpenLockOrder order || lockOrderIdentity order ∈ sharedOrders then state
  else { state with lockOrders := addLockOrder state.lockOrders { order with boundBySpawn := true } }

end LockOrderState

section Pipeline

variable (ir : LockOrderIR) (inputs : LockOrderInputs)

def takeOwnOrder (state : LockOrderState) (order : LockOrderFact) : LockOrderState :=
  if !isOpenLockOrder order && judgedAtCalls ir inputs order then state
  else state.takeOrder false order

def visitFunction (state : LockOrderState) (function : Function) : LockOrderState :=
  let orders := functionLockOrders ir inputs function
  let own := orders.foldl (takeOwnOrder ir inputs) state
  if spawnedApart inputs function.id then
    let sharedOrders := (orders.filter fun order =>
      !isOpenLockOrder order && !judgedAtCalls ir inputs order).map lockOrderIdentity
    (spawnedThreadLockOrders ir inputs function).foldl
      (LockOrderState.takeSpawnedOrder sharedOrders) own
  else own

def startOrders : LockOrderState := ir.functions.foldl (visitFunction ir inputs) {}

-- Copied: in a recursion the caller is the callee, whose orders the call adds to.
def calleeOrders (state : LockOrderState) (site : DirectCallSite) : List LockOrderFact :=
  (state.leftOpen.openLockOrders site.calleeFunctionId).orders ++
    (lockOrderModule ir inputs).ordersJudgedAtCalls site.calleeFunctionId

-- The orders that the runs of the caller take at a call, that of its spawned thread apart.
def instancesAtCall (state : LockOrderState) (site : DirectCallSite) : List LockOrderFact :=
  if (orderCall ir inputs site).runsItsOrders then
    (calleeOrders ir inputs state site).flatMap (instantiateAtCall · (lockOrderCall ir inputs site))
  else []

def spawnedInstancesAtCall (state : LockOrderState) (site : DirectCallSite)
    (object : SharedObjectBinding) : List LockOrderFact :=
  ((calleeOrders ir inputs state site).flatMap
    (instantiateAtCall · (spawnedCall ir inputs site object))).map fun order =>
      { order with heldLocks := gatesAmong order.heldLocks (some object) }

def visitCall (state : LockOrderState) (site : DirectCallSite) : LockOrderState :=
  if !takesCalleeLockOrders ir site then state
  else
    let instances := instancesAtCall ir inputs state site
    let own := instances.foldl
      (LockOrderState.takeOrder ((lockOrderModule ir inputs).closesCycle (orderCall ir inputs site)))
      state
    match spawnedOn inputs site.callerFunctionId with
    | none => own
    | some object =>
        let sharedOrders := (instances.filter (!isOpenLockOrder ·)).map lockOrderIdentity
        (spawnedInstancesAtCall ir inputs state site object).foldl
          (LockOrderState.takeSpawnedOrder sharedOrders) own

def lockOrderRound (state : LockOrderState) : LockOrderState :=
  inputs.directCallSites.foldl (visitCall ir inputs)
    { state with leftOpen := { state.leftOpen with lockOrdersChanged := false } }

-- The loop `while (lockOrdersChanged)`, given up after `fuel` rounds.
def propagateLockOrders (fuel : Nat) : LockOrderState :=
  settleLast (fun _ next => !next.leftOpen.lockOrdersChanged) (lockOrderRound ir inputs) fuel
    (startOrders ir inputs)

def collectLockOrders (fuel : Nat) : List LockOrderFact :=
  (propagateLockOrders ir inputs fuel).lockOrders

end Pipeline

end ConcurrencyAnalyzer.FactsBuilder
