import ConcurrencyAnalyzer.FactsBuilder.AccessSummaries
import ConcurrencyAnalyzer.Library.Settle

namespace ConcurrencyAnalyzer.FactsBuilder

open Library

-- The bytes an instruction reaches past an operand of a call, or past the pointer of its own load or
-- store.
structure ReachedBytes where
  instruction : InstructionId
  operand : Option Nat := none
  offset : Int := 0
  byteSize : Nat

-- The guard of a static local, by the object it guards.
structure StaticGuard where
  object : String
  lockId : String
  hasLocalLinkage : Bool := false

-- What the placing of accesses reads off the IR. `constructedClassOf` is the class whose constructor a
-- call names, and `summaryOrder` the order in which the source happens to walk its map of summaries.
structure AccessIR where
  callOperands : InstructionId → List CallOperand := fun _ => []
  constructedClassOf : InstructionId → Option String := fun _ => none
  loadStoreSize : InstructionId → Option Nat := fun _ => none
  reachesElementBeforeHandOver : ElementPerThread → ReachedBytes → Bool := fun _ _ => false
  reachesElementOfJoinedThread : ThreadCompletionMap → ElementPerThread → ReachedBytes → Bool :=
    fun _ _ _ => false
  guards : List StaticGuard := []
  moduleIdentifier : String := ""
  summaryOrder : List String → List String := fun functionIds => functionIds

section Elements

variable (ir : AccessIR) (bindings : SharedObjectBindings) (completions : ThreadCompletionMap)

def reachesElementNoThreadHolds (reached : ReachedBytes) (symbol : String) :
    Option (ElementOwner × String) :=
  bindings.findSome? fun (entryFunctionId, binding) =>
    binding.elementPerThread.bind fun elements =>
      if binding.object.symbol ≠ symbol then none
      else if ir.reachesElementBeforeHandOver elements reached then
        some (.NotYetHandedOver, entryFunctionId)
      else if ir.reachesElementOfJoinedThread completions elements reached then
        some (.JoinedThisRound, entryFunctionId)
      else none

def loadOrStoreReachesElementNoThreadHolds (access : PendingAccess) :
    Option (ElementOwner × String) :=
  (ir.loadStoreSize access.instruction).bind fun byteSize =>
    reachesElementNoThreadHolds ir bindings completions
      { instruction := access.instruction, byteSize := byteSize } access.root.symbol

def placeIn (element : Option (ElementOwner × String)) (region : MemoryRegion) : MemoryRegion :=
  element.elim region fun (owner, entry) => region.placeInElement owner entry

end Elements

def entriesByConstructedClass (bindings : SharedObjectBindings) (constructedClass : String) :
    ThreadEntrySet :=
  ((bindings.filter fun entry =>
    entry.2.constructedClass ≠ "" && entry.2.constructedClass = constructedClass).map (·.1)).toFinset

section Inputs

variable (ir : AccessIR) (inputs : AccessInputs)

def namesObjectSharedWithThread (symbol : String) : Bool :=
  symbol ∈ inputs.sharedObjectIds || symbol ∈ inputs.localObjectIds

def entriesOnObjectConstructedBy (call : InstructionId) : ThreadEntrySet :=
  (ir.constructedClassOf call).elim ∅ (entriesByConstructedClass inputs.sharedObjectBindings)

-- A pending access with what the analyses know of its instruction. What a constructor call does to the
-- object it builds is out of reach of the threads its class started on objects built before.
def annotatedFact (pending : PendingAccess) : AccessFact :=
  let fact := pending.fact
  let instruction := pending.instruction
  let heldLocks := (inputs.heldLocksByAccess instruction).getD fact.heldLocks
  let constructed := if pending.callOperand = some 0 then
      entriesOnObjectConstructedBy ir inputs instruction
    else ∅
  { fact with
    beforeRelease := (inputs.ordering instruction).elim fact.beforeRelease (·.beforeRelease)
    afterAcquire := (inputs.ordering instruction).elim fact.afterAcquire (·.afterAcquire)
    heldLocks :=
      heldLocks ∪ (inputs.lockPropagation.entryLocksByFunction fact.functionId).getD ∅
    liveEntries :=
      (inputs.taskConcurrency.liveEntriesAtInstruction instruction).getD fact.liveEntries \
        constructed
    startedEntries :=
      (inputs.taskConcurrency.startedEntriesAtInstruction instruction).getD fact.startedEntries \
        constructed
    inRootTask := fact.functionId ∈ inputs.taskConcurrency.rootTaskFunctions }

def isNamed (root : RootBinding) : Bool := root.kind = .Global && root.index.isNone

def parameterizedAccess (pending : PendingAccess) : ParameterizedAccess where
  root := pending.root
  fact :=
    { annotatedFact ir inputs pending with
      region := pending.root.region
      allowCallsiteProjection := true }

def concreteAccess (pending : PendingAccess) : AccessFact :=
  { annotatedFact ir inputs pending with
    symbol := pending.root.symbol
    region := placeIn
      (loadOrStoreReachesElementNoThreadHolds ir inputs.sharedObjectBindings inputs.completions
        pending) pending.root.region
    sharedObject := namesObjectSharedWithThread inputs pending.root.symbol }

def accessCallSite (site : DirectCallSite) : AccessCallSite where
  callerFunctionId := site.callerFunctionId
  calleeFunctionId := site.calleeFunctionId
  operands := ir.callOperands site.call
  userLocation := site.userLocation
  heldLocks := (inputs.lockPropagation.effectiveHeldLocksByCall site.call).getD ∅
  callerInRootTask := site.callerFunctionId ∈ inputs.taskConcurrency.rootTaskFunctions
  liveAtCall := (inputs.taskConcurrency.liveEntriesAtInstruction site.call).getD ∅
  startedAtCall := (inputs.taskConcurrency.startedEntriesAtInstruction site.call).getD ∅
  entriesOnConstructedObject := entriesOnObjectConstructedBy ir inputs site.call

-- The part of the unit that summaries are made of.
def accessModule : AccessModule where
  sites := inputs.directCallSites.map (accessCallSite ir inputs)
  pending := (inputs.pendingAccesses.filter fun pending =>
    !pending.restatesCalleeAccesses && !isNamed pending.root).map (parameterizedAccess ir inputs)
  entries := ((inputs.directCallSites.map (·.calleeFunctionId)).filter fun functionId =>
    (inputs.entryConcurrency functionId).isSome).toFinset

-- A call that binds something, with the call itself.
structure BoundCall where
  call : InstructionId
  operandCount : Nat
  binding : DirectCallBinding

def boundCalls : List BoundCall :=
  inputs.directCallSites.filterMap fun site =>
    let callSite := accessCallSite ir inputs site
    (buildDirectCallBinding ((accessModule ir inputs).closesCycle callSite) callSite).map
      fun binding => ⟨site.call, callSite.operands.length, binding⟩

end Inputs

-- The accesses with a name of their own, and the summaries of those without.
structure PlacementState where
  concreteAccesses : List AccessFact := []
  summary : SummaryState := {}

section Placement

variable (ir : AccessIR) (inputs : AccessInputs)

-- A function some run of which no call starts gets no index for that run.
def unplacedAccess (access : ParameterizedAccess) : AccessFact :=
  { access.fact with
    symbol := access.root.symbol
    sharedObject := namesObjectSharedWithThread inputs access.root.symbol
    allowCallsiteProjection := false }

def addSummary (state : PlacementState) (access : ParameterizedAccess) : PlacementState :=
  if (accessModule ir inputs).summarizes access then
    { state with summary := state.summary.addParameterizedAccess access }
  else
    { state with
      concreteAccesses := addConcreteAccess state.concreteAccesses (unplacedAccess inputs access) }

def placePending (state : PlacementState) (pending : PendingAccess) : PlacementState :=
  if pending.restatesCalleeAccesses then state
  else if isNamed pending.root then
    { state with
      concreteAccesses :=
        addConcreteAccess state.concreteAccesses (concreteAccess ir inputs pending) }
  else addSummary ir inputs state (parameterizedAccess ir inputs pending)

-- The element that the argument of a call points into, where no running thread holds it.
def elementAtCall (bound : BoundCall) (access : ParameterizedAccess) (symbol : String) :
    Option (ElementOwner × String) :=
  let place := access.fact.region
  if access.root.kind ≠ .Global && access.root.index.isNone && place.hasKnownOffset &&
      access.root.argumentIndex < bound.operandCount then
    reachesElementNoThreadHolds ir inputs.sharedObjectBindings inputs.completions
      { instruction := bound.call
        operand := some access.root.argumentIndex
        offset := place.byteOffset
        byteSize := place.byteSize } symbol
  else none

-- A callee's access that gets a name of its own at the call.
def concreteAtCall (bound : BoundCall) (access : ParameterizedAccess)
    (root : RootBinding) : AccessFact :=
  let call := bound.binding
  let atCall := threadsAtCallFor access call
  let threads := threadsThroughCall access.fact.liveEntries access.fact.startedEntries atCall.1
    atCall.2
  let remapped := shouldRemapAccessToCallsite access.fact call.callsiteLocation
  { access.fact with
    functionId := call.callerFunctionId
    symbol := root.symbol
    sharedObject := namesObjectSharedWithThread inputs root.symbol
    region := placeIn (elementAtCall ir inputs bound access root.symbol) root.region
    heldLocks := locksAtCallSite access.fact.heldLocks call ∪ call.callsiteHeldLocks
    inRootTask := call.callerInRootTask
    liveEntries := threads.1
    startedEntries := threads.2
    userLocation := if remapped then call.callsiteLocation else access.fact.userLocation
    allowCallsiteProjection := !remapped }

def projectSummary (bound : BoundCall) (state : PlacementState)
    (access : ParameterizedAccess) : PlacementState :=
  match rootAtCall access bound.binding with
  | none => state
  | some root =>
      if isNamed root then
        { state with
          concreteAccesses :=
            addConcreteAccess state.concreteAccesses (concreteAtCall ir inputs bound access root) }
      else (projectAccess bound.binding access).elim state (addSummary ir inputs state)

-- The summary of the callee is copied before any of it is projected.
def visitBoundCall (state : PlacementState) (bound : BoundCall) : PlacementState :=
  (state.summary.summaries.filter (·.fact.functionId = bound.binding.calleeFunctionId)).foldl
    (projectSummary ir inputs bound) state

def startPlacement : PlacementState := inputs.pendingAccesses.foldl (placePending ir inputs) {}

def placementRound (state : PlacementState) : PlacementState :=
  (boundCalls ir inputs).foldl (visitBoundCall ir inputs)
    { state with summary := { state.summary with changed := false } }

-- The loop `while (changed)`, given up after `fuel` rounds.
def placement (fuel : Nat) : PlacementState :=
  settleLast (fun _ next => !next.summary.changed) (placementRound ir inputs) fuel
    (startPlacement ir inputs)

def summarizeAccesses (fuel : Nat) : AccessSummaries :=
  let state := placement ir inputs fuel
  { concreteAccesses := state.concreteAccesses
    summariesByFunction :=
      (ir.summaryOrder (state.summary.summaries.map (·.fact.functionId)).dedup).map
        fun functionId =>
          (functionId, state.summary.summaries.filter (·.fact.functionId = functionId)) }

end Placement

section Projection

def shouldProjectConcreteAccessToCallsite (access : AccessFact) (callsite : SourceLocation) : Bool :=
  if !access.allowCallsiteProjection then false
  else if callsite.file = "" && callsite.line = 0 then false
  else if access.userLocation.file = "" then true
  else if access.userLocation.file ≠ callsite.file then true
  else !hasDistinctUserLocation access && !sameSourceLocation access.userLocation callsite

def concreteThreadCount (access : AccessFact) : Nat :=
  access.liveEntries.card + access.startedEntries.card

-- What `addConcreteAccess` returns: whether anything changed.
def addsConcreteAccess (accesses : List AccessFact) (fact : AccessFact) : Bool :=
  KeepFirst.gains accessFactKey mergeThreads concreteThreadCount accesses fact

def remappedAccess (call : DirectCallBinding) (access : AccessFact) : AccessFact :=
  let threads := threadsThroughCall access.liveEntries access.startedEntries call.liveAtCall
    call.startedAtCall
  { access with
    functionId := call.callerFunctionId
    heldLocks := locksAtCallSite access.heldLocks call ∪ call.callsiteHeldLocks
    inRootTask := call.callerInRootTask
    instanceOwner := ""
    liveEntries := threads.1
    startedEntries := threads.2
    userLocation := call.callsiteLocation
    allowCallsiteProjection :=
      if call.callsiteLocation.file ≠ access.loweredLocation.file then false
      else access.allowCallsiteProjection }

structure ProjectionState where
  accesses : List AccessFact
  changed : Bool := false

def projectConcreteAccess (call : DirectCallBinding) (state : ProjectionState)
    (access : AccessFact) : ProjectionState :=
  if access.functionId = call.calleeFunctionId &&
      shouldProjectConcreteAccessToCallsite access call.callsiteLocation then
    { accesses := addConcreteAccess state.accesses (remappedAccess call access)
      changed := addsConcreteAccess state.accesses (remappedAccess call access) || state.changed }
  else state

variable (ir : AccessIR) (inputs : AccessInputs)

-- The calls that hand their callee an object.
def objectCalls : List DirectCallBinding :=
  ((boundCalls ir inputs).map (·.binding)).filter fun call =>
    call.argumentBindings.any (·.isSome)

-- Every call projects the accesses known before the round.
def projectionRound (state : ProjectionState) : ProjectionState :=
  (objectCalls ir inputs).foldl
    (fun next call => state.accesses.foldl (projectConcreteAccess call) next)
    { state with changed := false }

def projectAccesses (fuel : Nat) (accesses : List AccessFact) : List AccessFact :=
  (settleLast (fun _ next => !next.changed) (projectionRound ir inputs) fuel
    { accesses := accesses }).accesses

end Projection

section StaticInitialization

variable (ir : AccessIR)

-- A static local to this unit must not meet a namesake from another one.
def staticGuardKey (projectAnalysis : Bool) (guard : StaticGuard) : String :=
  let key := "static-init:" ++ guard.lockId
  if projectAnalysis && guard.hasLocalLinkage then ir.moduleIdentifier ++ "#" ++ key else key

def orderByGuard (projectAnalysis : Bool) (access : AccessFact) : AccessFact :=
  match ir.guards.find? (·.object = access.symbol) with
  | none => access
  | some guard =>
      let key := staticGuardKey ir projectAnalysis guard
      if guard.lockId ∈ access.heldLocks then
        { access with beforeRelease := insert key access.beforeRelease }
      else { access with afterAcquire := insert key access.afterAcquire }

def orderStaticInitialization (accesses : List AccessFact) (projectAnalysis : Bool) :
    List AccessFact :=
  accesses.map (orderByGuard ir projectAnalysis)

end StaticInitialization

end ConcurrencyAnalyzer.FactsBuilder
