import ConcurrencyAnalyzer.LockIds

namespace ConcurrencyAnalyzer

-- A function of a module: its `functionId`, its `programSymbol`, and what the builder asks of it.
structure FunctionInfo where
  id : String
  symbol : String
  isDeclaration : Bool := false
  hasLocalLinkage : Bool := false
  deriving DecidableEq, Repr

-- `name` is what `module.getGlobalVariable` finds the global by.
structure GlobalInfo where
  name : String
  symbol : String
  isDeclaration : Bool := false
  canBeSharedState : Bool := true
  deriving DecidableEq, Repr

-- What the classifier says a call does.
inductive CallKind where
  | Unknown
  | PThreadCreate
  | PThreadJoin
  | PThreadDetach
  | PThreadMutexLock
  | PThreadMutexUnlock
  | PThreadMutexTryLock
  | PThreadRwLockAcquire
  | PThreadRwLockTryAcquire
  | PThreadRwLockUnlock
  | PThreadSpinLock
  | PThreadSpinUnlock
  | PThreadSpinTryLock
  | PThreadMutexInit
  | PThreadMutexAttrSetType
  | StdThreadCtor
  | StdThreadMove
  | StdThreadJoin
  | StdThreadDetach
  | StdThreadDtor
  | StdJThreadCtor
  | StdMutexLock
  | StdMutexUnlock
  | StdMutexTryLock
  | StdLockGuardCtor
  | StdLockGuardDeferredCtor
  | StdLockGuardDtor
  | CondWaitWithoutPredicate
  | CondWaitWithPredicate
  | ProcessFork
  | ProcessExec
  | ProcessWait
  | StaticInitGuardAcquire
  | StaticInitGuardRelease
  | ThreadExitDestructorRegistration
  | PThreadOnce
  deriving DecidableEq, Repr

-- An instruction, numbered by its place in the module.
abbrev InstructionId := Nat

structure DirectCallSite where
  call : InstructionId
  callerFunctionId : String
  calleeFunctionId : String
  loweredLocation : SourceLocation := {}
  userLocation : SourceLocation := {}
  insideLoop : Bool := false

structure ThreadSpawnCollection where
  spawns : List SpawnFact := []
  entryConcurrency : String → Option EntryConcurrencyInfo := fun _ => none

inductive SharedObjectKind where
  | Global
  | Local
  | BehindPointer
  deriving DecidableEq, Repr

-- The loop, the counter and the pointer handed over are read off the spawn.
structure ElementPerThread where
  spawn : InstructionId
  deriving DecidableEq, Repr

structure SharedObjectBinding where
  object : RootBinding
  kind : SharedObjectKind := .BehindPointer
  argumentIndex : Nat := 0
  elementPerThread : Option ElementPerThread := none
  constructedClass : String := ""
  keptForLackOfProof : Bool := false
  runByDirectCalls : Bool := false
  settledThrough : List FunctionInfo := []

-- Entry function id to the shared object it is handed.
abbrev SharedObjectBindings := List (String × SharedObjectBinding)

def sharedObjectNames (bindings : SharedObjectBindings) (kind : SharedObjectKind) : Finset String :=
  ((bindings.filter (·.2.kind = kind)).map (·.2.object.symbol)).toFinset

structure PendingAccess where
  functionId : String
  instruction : InstructionId
  root : RootBinding
  fact : AccessFact
  restatesCalleeAccesses : Bool := false
  callOperand : Option Nat := none

structure ParameterizedAccess where
  root : RootBinding
  fact : AccessFact

structure TaskConcurrencyResult where
  rootTaskFunctions : Finset String := ∅
  liveEntriesAtInstruction : InstructionId → Option ThreadEntrySet := fun _ => none
  startedEntriesAtInstruction : InstructionId → Option ThreadEntrySet := fun _ => none
  sequencedEntryPairs : Finset EntryPair := ∅
  overlappingSpawnEntries : Finset String := ∅

-- What is known of the thread each spawn starts: the instructions past which it has ended.
abbrev ThreadCompletionMap := InstructionId → Option (Finset InstructionId)

structure LockPropagationResult where
  entryLocksByFunction : String → Option LockSet := fun _ => none
  effectiveHeldLocksByCall : InstructionId → Option LockSet := fun _ => none

structure ThreadLifetimeFacts where
  escapes : List ThreadArgumentEscapeFact := []
  frees : List ThreadArgumentFreeFact := []
  expiredThreadLocals : List ExpiredThreadLocalFact := []

structure ProcessLifecycleCollection where
  forks : List ProcessForkFact := []
  reapsChildren : Bool := false
  functionsReachingExec : Finset String := ∅

structure PublicationOrdering where
  beforeRelease : Finset String := ∅
  afterAcquire : Finset String := ∅

structure PublicationAnalysis where
  ordering : InstructionId → Option PublicationOrdering := fun _ => none
  weakPublications : List WeakPublicationFact := []

-- What the lock orders of a unit are taken from.
structure LockOrderInputs where
  directCallSites : List DirectCallSite
  lockWrapperSummaries : LockWrapperSummaries
  sharedObjectBindings : SharedObjectBindings
  localObjectIds : Finset String
  lockPropagation : LockPropagationResult
  taskConcurrency : TaskConcurrencyResult
  entryConcurrency : String → Option EntryConcurrencyInfo

-- What the accesses of a unit are placed by.
structure AccessInputs where
  directCallSites : List DirectCallSite
  pendingAccesses : List PendingAccess
  heldLocksByAccess : InstructionId → Option LockSet
  ordering : InstructionId → Option PublicationOrdering
  trackedGlobals : Finset String
  sharedObjectBindings : SharedObjectBindings
  sharedObjectIds : Finset String
  localObjectIds : Finset String
  lockPropagation : LockPropagationResult
  taskConcurrency : TaskConcurrencyResult
  completions : ThreadCompletionMap
  entryConcurrency : String → Option EntryConcurrencyInfo

-- The accesses placed before the spawns are looked at: those with a name of their own, and those each
-- function still makes through its parameters.
structure AccessSummaries where
  concreteAccesses : List AccessFact := []
  summariesByFunction : List (String × List ParameterizedAccess) := []

-- A module, as the builder sees it. Each collector is the function it computes of what the builder
-- hands it beside the module; the code that reads IR is behind these functions, and all that reads
-- the program index is not. A module names its functions apart.
structure TranslationUnit where
  abiKey : String := ""
  functions : List FunctionInfo := []
  globals : List GlobalInfo := []
  idInjective : ∀ function ∈ functions, ∀ other ∈ functions,
    function.id = other.id → function = other := by decide
  symbolInjective : ∀ function ∈ functions, ∀ other ∈ functions,
    function.symbol = other.symbol → function = other := by decide
  collectDirectCallSites : List DirectCallSite := []
  collectSpawns : List DirectCallSite → Bool → ThreadSpawnCollection := fun _ _ => {}
  collectLockWrapperSummaries : LockWrapperSummaries := fun _ => none
  collectSharedObjectBindings : List DirectCallSite → Finset String →
    (String → Option EntryConcurrencyInfo) → SharedObjectBindings := fun _ _ _ => []
  collectPendingAccesses : Finset String → Finset String → Finset String → List PendingAccess :=
    fun _ _ _ => []
  collectHeldLocks : LockWrapperSummaries → SharedObjectBindings → List PendingAccess →
    InstructionId → Option LockSet := fun _ _ _ _ => none
  collectJoiningHelpers : JoiningHelpers → JoiningHelpers := fun known => known
  collectThreadCompletions : JoiningHelpers → ThreadCompletionMap := fun _ _ => none
  analyzeTaskConcurrency : List DirectCallSite → ThreadCompletionMap → Bool →
    TaskConcurrencyResult := fun _ _ _ => {}
  collectThreadContexts : List DirectCallSite → (String → Option EntryConcurrencyInfo) →
    String → Option ThreadEntrySet := fun _ _ _ => none
  collectThreadLifecycles : List DirectCallSite → ThreadCompletionMap →
    List ThreadLifecycleFact := fun _ _ => []
  collectThreadLifetimes : ThreadCompletionMap → ThreadLifetimeFacts := fun _ => {}
  collectSignalHandlers : List DirectCallSite → List SignalHandlerFact := fun _ => []
  collectProcessLifecycle : ProcessLifecycleCollection := {}
  collectConditionWaits : List DirectCallSite → List ConditionWaitFact := fun _ => []
  propagateLockState : LockWrapperSummaries → SharedObjectBindings → List DirectCallSite →
    LockPropagationResult := fun _ _ _ => {}
  collectLockOrders : LockOrderInputs → List LockOrderFact := fun _ => []
  collectRecursiveLockIds : Finset String := ∅
  analyzePublications : List PendingAccess → List DirectCallSite → List SpawnFact → Bool →
    PublicationAnalysis := fun _ _ _ _ => {}
  summarizeAccesses : AccessInputs → AccessSummaries := fun _ => {}
  projectAccesses : AccessInputs → List AccessFact → List AccessFact := fun _ accesses => accesses
  orderStaticInitialization : List AccessFact → Bool → List AccessFact := fun accesses _ => accesses

end ConcurrencyAnalyzer
