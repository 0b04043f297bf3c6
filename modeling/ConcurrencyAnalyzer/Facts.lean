import ConcurrencyAnalyzer.Report
import Mathlib.Data.Finset.Basic
import Mathlib.Algebra.Group.Int.Defs
import Mathlib.Data.Int.Basic
import Mathlib.Data.String.Basic

namespace ConcurrencyAnalyzer

abbrev ThreadEntrySet := Finset String

abbrev LockSet := Finset String

-- The names of a set in the order a `std::set` iterates over them.
def sortedNames (names : Finset String) : List String :=
  Quot.liftOn names.val (List.insertionSort (· ≤ ·)) fun left right h =>
    (((List.perm_insertionSort _ left).trans h).trans (List.perm_insertionSort _ right).symm).eq_of_pairwise'
      (List.pairwise_insertionSort _ left) (List.pairwise_insertionSort _ right)

theorem mem_sortedNames {names : Finset String} {name : String} :
    name ∈ sortedNames names ↔ name ∈ names := by
  obtain ⟨names, hnodup⟩ := names
  induction names using Quot.inductionOn with
  | h names => exact List.mem_insertionSort _

def rootTaskId : String := "<main-task>"

-- A 64-bit signed value, as a cast or an addition leaves it.
def int64 (value : Int) : Int := Int.bmod value (2 ^ 64)

-- What a 64-bit signed number holds.
def FitsInt64 (value : Int) : Prop := -2 ^ 63 ≤ value ∧ value < 2 ^ 63

instance (value : Int) : Decidable (FitsInt64 value) :=
  inferInstanceAs (Decidable (_ ∧ _))

theorem int64_fits (value : Int) : FitsInt64 (int64 value) := by
  have hlow := Int.le_bmod (x := value) (Nat.two_pow_pos 64)
  have hhigh := Int.bmod_lt (x := value) (Nat.two_pow_pos 64)
  unfold FitsInt64 int64
  omega

theorem int64_of_fits {value : Int} (h : FitsInt64 value) : int64 value = value := by
  obtain ⟨hlow, hhigh⟩ := h
  unfold int64
  refine Int.bmod_eq_of_le ?_ ?_ <;> omega

structure EntryConcurrencyInfo where
  staticSpawnCount : Nat := 0
  hasSpawnInLoop : Bool := false
  deriving DecidableEq, Repr

def EntryConcurrencyInfo.isSelfConcurrent (info : EntryConcurrencyInfo) : Bool :=
  2 ≤ info.staticSpawnCount || info.hasSpawnInLoop

inductive ElementOwner where
  | None
  | AccessingThread
  | NotYetHandedOver
  | JoinedThisRound
  deriving DecidableEq, Repr

def heldBySpawningThread (owner : ElementOwner) : Bool :=
  owner = .NotYetHandedOver || owner = .JoinedThisRound

def ElementOwner.number : ElementOwner → Nat
  | .None => 0
  | .AccessingThread => 1
  | .NotYetHandedOver => 2
  | .JoinedThisRound => 3

structure MemoryRegion where
  hasKnownOffset : Bool := true
  byteOffset : Int := 0
  byteSize : Nat := 0
  elementOwner : ElementOwner := .None
  elementEntry : String := ""
  deriving DecidableEq, Repr

namespace MemoryRegion

-- One past the last byte, in the 64-bit arithmetic of the source.
def endOffset (region : MemoryRegion) : Int :=
  int64 (region.byteOffset + int64 region.byteSize)

def mayOverlap (region other : MemoryRegion) : Bool :=
  if region.elementOwner = .AccessingThread && other.elementOwner = .AccessingThread &&
      region.elementEntry = other.elementEntry then
    false
  else if !region.hasKnownOffset || !other.hasKnownOffset then
    true
  else if region.byteSize = 0 || other.byteSize = 0 then
    true
  else
    region.byteOffset < other.endOffset && other.byteOffset < region.endOffset

def rebasedOn (region argument designated : MemoryRegion) : MemoryRegion :=
  if region.hasKnownOffset && region.byteOffset = 0 && region.byteSize = 0 then
    designated
  else
    { region with
      hasKnownOffset := region.hasKnownOffset && argument.hasKnownOffset
      byteOffset := int64 (region.byteOffset + argument.byteOffset) }

def orderedWithElementOwner (region other : MemoryRegion) : Bool :=
  region.elementEntry = other.elementEntry &&
    ((region.elementOwner = .AccessingThread && heldBySpawningThread other.elementOwner) ||
      (other.elementOwner = .AccessingThread && heldBySpawningThread region.elementOwner))

def placeInElement (region : MemoryRegion) (owner : ElementOwner) (entry : String) :
    MemoryRegion :=
  if region.hasKnownOffset then region
  else { region with elementOwner := owner, elementEntry := entry }

def identity (region : MemoryRegion) : String :=
  (if region.hasKnownOffset then "@" ++ toString region.byteOffset else "@?") ++ "+" ++
    toString region.byteSize ++
    (if region.elementOwner = .None then ""
      else "/" ++ toString region.elementOwner.number ++ ":" ++ region.elementEntry)

def suffix (region : MemoryRegion) : String :=
  if region.hasKnownOffset then
    if region.byteOffset = 0 then "" else "+" ++ toString region.byteOffset
  else
    match region.elementOwner with
    | .AccessingThread => "[own]"
    | .NotYetHandedOver => "[next]"
    | .JoinedThisRound => "[joined]"
    | .None => "[*]"

theorem mayOverlap_comm (region other : MemoryRegion) :
    region.mayOverlap other = other.mayOverlap region := by
  unfold mayOverlap
  by_cases howner : region.elementOwner = .AccessingThread ∧
      other.elementOwner = .AccessingThread ∧ region.elementEntry = other.elementEntry
  · simp [howner]
  · have hswap : ¬(other.elementOwner = .AccessingThread ∧
        region.elementOwner = .AccessingThread ∧ other.elementEntry = region.elementEntry) :=
      fun h => howner ⟨h.2.1, h.1, h.2.2.symm⟩
    simp only [Bool.and_eq_true, decide_eq_true_eq, and_assoc, howner, hswap, if_false,
      Bool.or_comm (!other.hasKnownOffset), Bool.or_comm (decide (other.byteSize = 0)),
      Bool.and_comm (decide (other.byteOffset < region.endOffset))]

theorem orderedWithElementOwner_comm (region other : MemoryRegion) :
    region.orderedWithElementOwner other = other.orderedWithElementOwner region := by
  unfold orderedWithElementOwner
  rw [Bool.or_comm]
  congr 1
  exact decide_eq_decide.mpr eq_comm

end MemoryRegion

structure SpawnFact where
  entryFunctionId : String
  location : SourceLocation := {}
  insideLoop : Bool := false
  deriving DecidableEq, Repr

structure AccessFact where
  symbol : String := ""
  region : MemoryRegion := {}
  functionId : String := ""
  kind : AccessKind := .Read
  aliasProvenance : AliasProvenance := .Direct
  loweredLocation : SourceLocation := {}
  userLocation : SourceLocation := {}
  allowCallsiteProjection : Bool := false
  isAtomic : Bool := false
  coarseCallEffect : Bool := false
  guessedIdentity : Bool := false
  sharedObject : Bool := false
  inRootTask : Bool := false
  liveEntries : ThreadEntrySet := ∅
  startedEntries : ThreadEntrySet := ∅
  boundBySpawn : Bool := false
  instanceOwner : String := ""
  heldLocks : LockSet := ∅
  beforeRelease : Finset String := ∅
  afterAcquire : Finset String := ∅
  deriving DecidableEq

structure LockOrderFact where
  functionId : String
  firstLockId : String
  secondLockId : String
  location : SourceLocation := {}
  heldLocks : LockSet := ∅
  inRootTask : Bool := false
  liveEntries : ThreadEntrySet := ∅
  startedEntries : ThreadEntrySet := ∅
  lowerAddressFirst : Bool := false
  secondIsRecursive : Bool := false
  boundBySpawn : Bool := false
  deriving DecidableEq

-- An unordered pair, kept with the smaller name first.
abbrev EntryPair := String × String

def makeEntryPair (lhs rhs : String) : EntryPair :=
  if rhs < lhs then (rhs, lhs) else (lhs, rhs)

theorem makeEntryPair_comm (lhs rhs : String) : makeEntryPair lhs rhs = makeEntryPair rhs lhs := by
  unfold makeEntryPair
  rcases lt_trichotomy lhs rhs with h | h | h
  · simp [h, not_lt_of_gt h]
  · simp [h]
  · simp [h, not_lt_of_gt h]

inductive ThreadHandleKind where
  | PThread
  | StdThread
  deriving DecidableEq, Repr

inductive ThreadLifecycleAction where
  | Create
  | Join
  | Detach
  | Move
  deriving DecidableEq, Repr

structure ThreadLifecycleFact where
  handleKind : ThreadHandleKind := .PThread
  action : ThreadLifecycleAction := .Create
  handleGroupId : String
  sourceHandleGroupId : Option String := none
  functionId : String
  location : SourceLocation := {}
  resolvedOnAllPaths : Bool := true
  insideLoop : Bool := false
  escapedToUntrackedStorage : Bool := false
  propagated : Bool := false

structure ConditionWaitFact where
  functionId : String
  location : SourceLocation := {}
  loweredLocation : SourceLocation := {}
  guardedByLoop : Bool := false
  viaHelper : Bool := false

structure ThreadArgumentEscapeFact where
  functionId : String
  entryFunctionId : String := ""
  location : SourceLocation := {}

structure SignalHandlerFact where
  location : SourceLocation := {}
  handlerFunctionId : String
  unsafeCallLocation : SourceLocation := {}
  unsafeCallFunctionId : String := ""

structure ThreadArgumentFreeFact where
  functionId : String
  entryFunctionId : String := ""
  creationLocation : SourceLocation := {}
  freeLocation : SourceLocation := {}

structure ExpiredThreadLocalFact where
  functionId : String
  entryFunctionId : String
  threadLocal : String
  pointer : String
  publishLocation : SourceLocation := {}
  useLocation : SourceLocation := {}

structure WeakPublicationFact where
  flag : String
  data : List String
  storeReleases : Bool := false
  loadAcquires : Bool := false
  storeLocation : SourceLocation := {}
  loadLocation : SourceLocation := {}
  publisherFunctionId : String
  readerFunctionId : String

structure ProcessForkFact where
  functionId : String
  location : SourceLocation := {}
  execReachable : Bool := false

structure ParameterLockEffect where
  argumentIndex : Nat := 0
  acquires : Bool := true
  recursiveLock : Bool := false
  deriving DecidableEq, Repr

-- What each function does to the locks its callers pass it, by function id.
abbrev LockWrapperSummaries := String → Option (List ParameterLockEffect)

structure JoinedParameter where
  index : Nat := 0
  byValue : Bool := false
  offset : Int := 0
  ended : Bool := false
  reported : Bool := false
  deriving DecidableEq, Repr

-- The parameters each function joins, by function id.
abbrev JoiningHelpers := String → Option (List JoinedParameter)

-- Every entry but the function ids and the handle groups is a program symbol.
structure ProgramSymbolFacts where
  abiKey : String := ""
  definedGlobals : Finset String := ∅
  declaredGlobals : Finset String := ∅
  functionSymbolsById : List (String × String) := []
  declaredFunctions : Finset String := ∅
  settlingFunctions : Finset String := ∅
  handleSymbolsByGroupId : String → Option String := fun _ => none

structure TUFacts where
  spawns : List SpawnFact := []
  accesses : List AccessFact := []
  lockOrders : List LockOrderFact := []
  threadLifecycles : List ThreadLifecycleFact := []
  conditionWaits : List ConditionWaitFact := []
  processForks : List ProcessForkFact := []
  threadArgumentEscapes : List ThreadArgumentEscapeFact := []
  threadArgumentFrees : List ThreadArgumentFreeFact := []
  expiredThreadLocals : List ExpiredThreadLocalFact := []
  signalHandlers : List SignalHandlerFact := []
  weakPublications : List WeakPublicationFact := []
  reapsChildProcesses : Bool := false
  programCreatesThreads : Bool := false
  entryConcurrency : String → Option EntryConcurrencyInfo := fun _ => none
  lockWrapperSummaries : LockWrapperSummaries := fun _ => none
  joiningHelpers : JoiningHelpers := fun _ => none
  resolvedGlobalHandleIds : Finset String := ∅
  reachableThreadEntriesByFunction : String → Option ThreadEntrySet := fun _ => none
  recursiveLockIds : Finset String := ∅
  sequencedEntryPairs : Finset EntryPair := ∅
  program : ProgramSymbolFacts := {}

end ConcurrencyAnalyzer
