import ConcurrencyAnalyzer.CrossTU.SymbolIndex
import ConcurrencyAnalyzer.FactsBuilder.Selection
import ConcurrencyAnalyzer.FactsBuilder.TranslationUnit
import ConcurrencyAnalyzer.Library.KeepFirst

namespace ConcurrencyAnalyzer.FactsBuilder

open Library

variable (unit : TranslationUnit) (selection : FactSelection) (program : Option ProgramSymbolIndex)

def accessFactKey (fact : AccessFact) : String :=
  fact.symbol ++ fact.region.identity ++ "|" ++ fact.functionId ++ "|" ++ fact.kind.label ++ "|" ++
    (if fact.isAtomic then "atomic" else "plain") ++ "|" ++ fact.aliasProvenance.label ++ "|" ++
    fact.loweredLocation.file ++ "|" ++ toString fact.loweredLocation.line ++ "|" ++
    toString fact.loweredLocation.column ++ "|" ++ fact.loweredLocation.function ++ "|" ++
    toString fact.coarseCallEffect.toNat ++ toString fact.guessedIdentity.toNat ++
    toString fact.sharedObject.toNat ++ toString fact.inRootTask.toNat ++ "|" ++
    fact.instanceOwner ++
    String.join ((sortedNames fact.heldLocks).map ("|lock:" ++ ·)) ++
    String.join ((sortedNames fact.beforeRelease).map ("|release:" ++ ·)) ++
    String.join ((sortedNames fact.afterAcquire).map ("|acquire:" ++ ·))

def mergeThreads (into fact : AccessFact) : AccessFact :=
  { into with
    liveEntries := into.liveEntries ∪ fact.liveEntries
    startedEntries := into.startedEntries ∪ fact.startedEntries }

def addConcreteAccess (accesses : List AccessFact) (fact : AccessFact) : List AccessFact :=
  KeepFirst.keep accessFactKey mergeThreads accesses fact

def projectedAccessPreferenceKey (fact : AccessFact) : String :=
  fact.symbol ++ fact.region.identity ++ "|" ++ fact.kind.label ++ "|" ++
    fact.loweredLocation.file ++ "|" ++ fact.aliasProvenance.label ++ "|" ++
    toString fact.loweredLocation.line ++ "|" ++ toString fact.loweredLocation.column ++ "|" ++
    fact.loweredLocation.function ++
    String.join ((sortedNames fact.heldLocks).map ("|lock:" ++ ·))

def hasDistinctUserLocation (access : AccessFact) : Bool :=
  !sameSourceLocation access.userLocation access.loweredLocation

def filterProjectedConcreteAccesses (accesses : List AccessFact) : List AccessFact :=
  let projectedKeys := (accesses.filter hasDistinctUserLocation).map projectedAccessPreferenceKey
  accesses.filter fun access =>
    !(projectedAccessPreferenceKey access ∈ projectedKeys && !hasDistinctUserLocation access)

def locksOnSharedObject (entryLocks : LockSet) (binding : SharedObjectBinding) : LockSet :=
  entryLocks.biUnion fun lockId =>
    match parameterLockPlace lockId with
    | none => {lockId}
    | some place =>
        if place.argumentIndex = binding.argumentIndex then {lockIdAt binding.object place.place}
        else ∅

-- The globals of the unit whose accesses are followed. `programDefined` is empty where the source
-- has no program index.
def shouldTrackSharedGlobal (programDefined : Finset String) (global : GlobalInfo) : Bool :=
  global.canBeSharedState && (!global.isDeclaration || global.symbol ∈ programDefined)

def programDefined : Finset String :=
  program.elim ∅ (·.definedGlobals)

def trackedGlobals : Finset String :=
  ((unit.globals.filter (shouldTrackSharedGlobal (programDefined program))).map (·.symbol)).toFinset

def directCallSites : List DirectCallSite :=
  if selection.directCallSites then unit.collectDirectCallSites else []

def spawnFacts : ThreadSpawnCollection :=
  if selection.spawns then
    unit.collectSpawns (directCallSites unit selection) program.isSome
  else {}

-- What the program says about the functions the unit only declares, by function id.
def seededFromProgram {α : Type} (known : String → Option α) (answer : String → Option α)
    (functionId : String) : Option α :=
  (known functionId).or
    ((unit.functions.find? fun function => function.id = functionId && function.isDeclaration).bind
      fun function => answer function.symbol)

def lockWrapperSummaries : LockWrapperSummaries :=
  if selection.lockWrapperSummaries then
    match program with
    | none => unit.collectLockWrapperSummaries
    | some index => seededFromProgram unit unit.collectLockWrapperSummaries index.lockSummaryFor
  else fun _ => none

def collectedBindings : SharedObjectBindings :=
  unit.collectSharedObjectBindings (directCallSites unit selection) (trackedGlobals unit program)
    (spawnFacts unit selection program).entryConcurrency

-- The functions other units may call that the object of a binding relies on.
def settlingSymbols (binding : SharedObjectBinding) : List String :=
  (binding.settledThrough.filter (!·.hasLocalLinkage)).map (·.symbol)

-- What one function of the module leaves of its binding once the program is known.
def settleBinding (index : ProgramSymbolIndex) (function : FunctionInfo)
    (binding : SharedObjectBinding) : Option SharedObjectBinding :=
  if (settlingSymbols binding).any index.appearsInSeveralUnits then none
  else if 1 < index.spawnCount function.symbol then
    some { binding with elementPerThread := none }
  else some binding

def functionWithId (functionId : String) : Option FunctionInfo :=
  unit.functions.find? (·.id = functionId)

def settleEntry (index : ProgramSymbolIndex) (entry : String × SharedObjectBinding) :
    Option (String × SharedObjectBinding) :=
  match functionWithId unit entry.1 with
  | none => some entry
  | some function => (settleBinding index function entry.2).map (entry.1, ·)

def sharedObjectBindings : SharedObjectBindings :=
  if selection.lockState then
    match program with
    | none => collectedBindings unit selection program
    | some index => (collectedBindings unit selection program).filterMap (settleEntry unit index)
  else []

def settlingFunctions : Finset String :=
  if selection.lockState && program.isSome then
    (((collectedBindings unit selection program).filter fun entry =>
      (functionWithId unit entry.1).isSome).flatMap fun entry => settlingSymbols entry.2).toFinset
  else ∅

-- The bindings as the lock state reads them, which asks nothing about the elements of an object.
def lockBindings : SharedObjectBindings :=
  (sharedObjectBindings unit selection program).map fun entry =>
    (entry.1, { entry.2 with elementPerThread := none })

def sharedObjectIds : Finset String :=
  sharedObjectNames (sharedObjectBindings unit selection program) .BehindPointer

def localObjectIds : Finset String :=
  sharedObjectNames (sharedObjectBindings unit selection program) .Local

def pendingAccesses : List PendingAccess :=
  if selection.accesses then
    unit.collectPendingAccesses (trackedGlobals unit program)
      (sharedObjectIds unit selection program) (localObjectIds unit selection program)
  else []

def heldLocksByAccess : InstructionId → Option LockSet :=
  if selection.accesses then
    unit.collectHeldLocks (lockWrapperSummaries unit selection program)
      (lockBindings unit selection program) (pendingAccesses unit selection program)
  else fun _ => none

def knownJoiningHelpers : JoiningHelpers :=
  match program with
  | none => fun _ => none
  | some index =>
      if selection.channels.helperJoins then
        seededFromProgram unit (fun _ => none) index.joinedParametersOf
      else fun _ => none

def joiningHelpers : JoiningHelpers :=
  if selection.readsCompletions then
    unit.collectJoiningHelpers (knownJoiningHelpers unit selection program)
  else fun _ => none

def completions : ThreadCompletionMap :=
  if selection.readsCompletions then
    unit.collectThreadCompletions (joiningHelpers unit selection program)
  else fun _ => none

def taskConcurrency : TaskConcurrencyResult :=
  if selection.taskConcurrency then
    unit.analyzeTaskConcurrency (directCallSites unit selection)
      (completions unit selection program) program.isSome
  else {}

-- What the unit publishes of the helpers it defines.
def publishedJoiningHelpers : JoiningHelpers := fun functionId =>
  if selection.channels.helperJoins &&
      unit.functions.any fun function => function.id = functionId && !function.isDeclaration then
    joiningHelpers unit selection program functionId
  else none

-- The number of instances of an entry that can be alive at once.
def correctSpawnCount (overlapping : Finset String) (entryId : String)
    (concurrency : EntryConcurrencyInfo) : EntryConcurrencyInfo :=
  { concurrency with
    staticSpawnCount :=
      if entryId ∈ overlapping then max concurrency.staticSpawnCount 2
      else min concurrency.staticSpawnCount 1 }

def unitEntryConcurrency : String → Option EntryConcurrencyInfo := fun entryId =>
  let concurrency := (spawnFacts unit selection program).entryConcurrency entryId
  if selection.threadEntries then
    concurrency.map
      (correctSpawnCount (taskConcurrency unit selection program).overlappingSpawnEntries entryId)
  else concurrency

-- The other half of an entry the program starts elsewhere.
def seedEntryConcurrency (index : ProgramSymbolIndex)
    (concurrencyOf : String → Option EntryConcurrencyInfo) (function : FunctionInfo) :
    String → Option EntryConcurrencyInfo :=
  if function.isDeclaration || !index.isThreadEntry function.symbol then concurrencyOf
  else
    let concurrency := (concurrencyOf function.id).getD {}
    Function.update concurrencyOf function.id (some
      { staticSpawnCount := max concurrency.staticSpawnCount (index.spawnCount function.symbol)
        hasSpawnInLoop := concurrency.hasSpawnInLoop || index.spawnedInLoop function.symbol })

def entryConcurrency : String → Option EntryConcurrencyInfo :=
  match program with
  | none => unitEntryConcurrency unit selection program
  | some index =>
      unit.functions.foldl (seedEntryConcurrency index) (unitEntryConcurrency unit selection program)

def reachableThreadEntriesByFunction : String → Option ThreadEntrySet :=
  if selection.threadEntries then
    unit.collectThreadContexts (directCallSites unit selection)
      (entryConcurrency unit selection program)
  else fun _ => none

def collectedLifecycles : List ThreadLifecycleFact :=
  if selection.threadLifecycles then
    unit.collectThreadLifecycles (directCallSites unit selection)
      (completions unit selection program)
  else []

def lifetimes : ThreadLifetimeFacts :=
  if selection.threadArgumentEscapes || selection.threadArgumentFrees ||
      selection.expiredThreadLocals then
    unit.collectThreadLifetimes (completions unit selection program)
  else {}

-- One round over the calls of the loop that carries an `exec` to the callers.
def reachExec (reaching : Finset String) (site : DirectCallSite) : Finset String :=
  if site.calleeFunctionId ∈ reaching then insert site.callerFunctionId reaching else reaching

-- A round that adds a function adds the caller of some call, so there are no more such rounds than
-- calls.
def functionsReachingExec (sites : List DirectCallSite) (reaching : Finset String) :
    Finset String :=
  (fun functions => sites.foldl reachExec functions)^[sites.length] reaching

def processForks : List ProcessForkFact :=
  let processes := unit.collectProcessLifecycle
  let reaching := functionsReachingExec (directCallSites unit selection)
    processes.functionsReachingExec
  if selection.processLifecycle then
    processes.forks.map fun fork => { fork with execReachable := fork.functionId ∈ reaching }
  else []

def isHandleNameCharacter (character : Char) : Bool :=
  character.isAlphanum || character = '_' || character = '.' || character = '$'

def globalOfStorageGroupId (handleGroupId : String) : Option GlobalInfo :=
  let text := handleGroupId.toList
  let start := "global:".toList
  if !start.isPrefixOf text then none
  else
    let name := (text.drop start.length).takeWhile isHandleNameCharacter
    if name.isEmpty then none
    else unit.globals.find? fun global => global.name = String.ofList name

def resolvesHandle (fact : ThreadLifecycleFact) : Bool :=
  (fact.action = .Join || fact.action = .Detach) &&
    (globalOfStorageGroupId unit fact.handleGroupId).isSome

def resolvedGlobalHandleIds : Finset String :=
  (((collectedLifecycles unit selection program).filter (resolvesHandle unit)).map
    (·.handleGroupId)).toFinset

-- A creation on a global that the program joins or detaches is not outstanding.
def isResolvedByProgram (index : ProgramSymbolIndex) (fact : ThreadLifecycleFact) : Bool :=
  fact.action = .Create &&
    ((globalOfStorageGroupId unit fact.handleGroupId).map fun handle =>
      index.resolvesHandleElsewhere handle.symbol).getD false

def threadLifecycles : List ThreadLifecycleFact :=
  match program with
  | none => collectedLifecycles unit selection program
  | some index =>
      (collectedLifecycles unit selection program).filter (!isResolvedByProgram unit index ·)

def lockPropagation : LockPropagationResult :=
  if selection.lockState then
    unit.propagateLockState (lockWrapperSummaries unit selection program)
      (lockBindings unit selection program) (directCallSites unit selection)
  else {}

def lockOrders : List LockOrderFact :=
  if selection.lockOrders then
    unit.collectLockOrders
      { directCallSites := directCallSites unit selection
        lockWrapperSummaries := lockWrapperSummaries unit selection program
        sharedObjectBindings := lockBindings unit selection program
        localObjectIds := localObjectIds unit selection program
        lockPropagation := lockPropagation unit selection program
        taskConcurrency := taskConcurrency unit selection program
        entryConcurrency := entryConcurrency unit selection program }
  else []

def handleSymbolsByGroupId (handleGroupId : String) : Option String :=
  let created := (threadLifecycles unit selection program).any fun fact =>
    fact.action = .Create && fact.handleGroupId = handleGroupId
  if handleGroupId ∈ resolvedGlobalHandleIds unit selection program || created then
    (globalOfStorageGroupId unit handleGroupId).map (·.symbol)
  else none

def collectProgramSymbolFacts : ProgramSymbolFacts where
  abiKey := unit.abiKey
  definedGlobals :=
    ((unit.globals.filter fun global => global.canBeSharedState && !global.isDeclaration).map
      (·.symbol)).toFinset
  declaredGlobals :=
    ((unit.globals.filter fun global => global.canBeSharedState && global.isDeclaration).map
      (·.symbol)).toFinset
  functionSymbolsById := unit.functions.map fun function => (function.id, function.symbol)
  declaredFunctions := ((unit.functions.filter (·.isDeclaration)).map (·.symbol)).toFinset
  settlingFunctions := settlingFunctions unit selection program
  handleSymbolsByGroupId := handleSymbolsByGroupId unit selection program

def publications : PublicationAnalysis :=
  unit.analyzePublications (pendingAccesses unit selection program)
    (directCallSites unit selection) (spawnFacts unit selection program).spawns program.isSome

def accessInputs : AccessInputs where
  directCallSites := directCallSites unit selection
  pendingAccesses := pendingAccesses unit selection program
  heldLocksByAccess := heldLocksByAccess unit selection program
  ordering := (publications unit selection program).ordering
  trackedGlobals := trackedGlobals unit program
  sharedObjectBindings := sharedObjectBindings unit selection program
  sharedObjectIds := sharedObjectIds unit selection program
  localObjectIds := localObjectIds unit selection program
  lockPropagation := lockPropagation unit selection program
  taskConcurrency := taskConcurrency unit selection program
  completions := completions unit selection program
  entryConcurrency := entryConcurrency unit selection program

-- An access through the parameter a thread receives its object on, as an access to that object.
def accessOfSpawnedThread (entryId : String) (binding : SharedObjectBinding)
    (access : ParameterizedAccess) : AccessFact :=
  let region := access.root.region.rebasedOn binding.object.region binding.object.designated
  { access.fact with
    symbol := binding.object.symbol
    region := if binding.elementPerThread.isSome then region.placeInElement .AccessingThread entryId
      else region
    heldLocks := locksOnSharedObject access.fact.heldLocks binding
    sharedObject := binding.kind ≠ .Global
    inRootTask := false
    boundBySpawn := true
    instanceOwner :=
      if binding.constructedClass ≠ "" then entryId else access.fact.instanceOwner }

def accessesOfSpawnedThreads (bindings : SharedObjectBindings)
    (summary : String × List ParameterizedAccess) : List AccessFact :=
  match bindings.find? (·.1 = summary.1) with
  | none => []
  | some (_, binding) =>
      (summary.2.filter fun access =>
        access.root.kind = .Argument && access.root.argumentIndex = binding.argumentIndex).map
        (accessOfSpawnedThread summary.1 binding)

def eraseParameterLocks (access : AccessFact) : AccessFact :=
  { access with
    heldLocks := access.heldLocks.filter fun lockId => (parameterLockPlace lockId).isNone }

-- The access pipeline, of which the accesses bound to a spawned thread's object are one part.
def placeAccesses (inputs : AccessInputs) (crossTU : Bool) : List AccessFact :=
  let summaries := unit.summarizeAccesses inputs
  let bound := summaries.summariesByFunction.flatMap
    (accessesOfSpawnedThreads inputs.sharedObjectBindings)
  let placed := bound.foldl addConcreteAccess summaries.concreteAccesses
  unit.orderStaticInitialization
    ((filterProjectedConcreteAccesses (unit.projectAccesses inputs placed)).map eraseParameterLocks)
    crossTU

def accesses : List AccessFact :=
  if selection.accesses then
    placeAccesses unit (accessInputs unit selection program) program.isSome
  else []

def build : TUFacts where
  spawns := (spawnFacts unit selection program).spawns
  accesses := accesses unit selection program
  lockOrders := lockOrders unit selection program
  threadLifecycles := threadLifecycles unit selection program
  conditionWaits :=
    if selection.conditionWaits then unit.collectConditionWaits (directCallSites unit selection)
    else []
  processForks := processForks unit selection
  threadArgumentEscapes :=
    if selection.threadArgumentEscapes then (lifetimes unit selection program).escapes else []
  threadArgumentFrees :=
    if selection.threadArgumentFrees then (lifetimes unit selection program).frees else []
  expiredThreadLocals :=
    if selection.expiredThreadLocals then (lifetimes unit selection program).expiredThreadLocals
    else []
  signalHandlers :=
    if selection.signalHandlers then unit.collectSignalHandlers (directCallSites unit selection)
    else []
  weakPublications :=
    if selection.accesses && selection.weakPublications then
      (publications unit selection program).weakPublications
    else []
  reapsChildProcesses := selection.processLifecycle &&
    (unit.collectProcessLifecycle.reapsChildren ||
      (program.map (·.programReapsChildren)).getD false)
  programCreatesThreads := selection.processLifecycle &&
    (!(spawnFacts unit selection program).spawns.isEmpty ||
      (program.map (·.programCreatesThreads)).getD false)
  entryConcurrency := entryConcurrency unit selection program
  lockWrapperSummaries := lockWrapperSummaries unit selection program
  joiningHelpers := publishedJoiningHelpers unit selection program
  resolvedGlobalHandleIds := resolvedGlobalHandleIds unit selection program
  reachableThreadEntriesByFunction := reachableThreadEntriesByFunction unit selection program
  recursiveLockIds := if selection.recursiveLockIds then unit.collectRecursiveLockIds else ∅
  sequencedEntryPairs := (taskConcurrency unit selection program).sequencedEntryPairs
  program := if selection.program then collectProgramSymbolFacts unit selection program else {}

end ConcurrencyAnalyzer.FactsBuilder
