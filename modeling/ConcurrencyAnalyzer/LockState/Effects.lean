import ConcurrencyAnalyzer.FactsBuilder.TranslationUnit
import ConcurrencyAnalyzer.Program.Module

namespace ConcurrencyAnalyzer.LockState

open Program

-- Where a walk from a pointer back to what it points into ends.
inductive PathRoot where
  | global (name : String)
  | argument (index : Nat)
  | alloca (slot : String)
  deriving DecidableEq

-- An offset that is unknown stays so, whatever else is indexed.
def accumulateGepOffset (walk : MemoryRegion) (indices : List (Option Int)) (byteOffset : Int) :
    MemoryRegion :=
  if !walk.hasKnownOffset then walk
  else if indices.all Option.isSome then
    { walk with byteOffset := int64 (walk.byteOffset + byteOffset) }
  else { walk with hasKnownOffset := false }

def resolveCopiedValue (acceptsLocalStorage : Bool) (walk : MemoryRegion) :
    Pointer → Option (PathRoot × MemoryRegion)
  | .global name => some (.global name, walk)
  | .argument index => some (.argument index, walk)
  | .alloca slot => if acceptsLocalStorage then some (.alloca slot, walk) else none
  | .gep base indices byteOffset =>
      resolveCopiedValue acceptsLocalStorage (accumulateGepOffset walk indices byteOffset) base
  | .copied stored => resolveCopiedValue acceptsLocalStorage walk stored
  | .load _ => none
  | .other => none

-- The path the indices of a `gep` print to.
def printGepIndices (indices : List (Option Int)) : String :=
  String.join (indices.map fun
    | some index => "[" ++ toString index ++ "]"
    | none => "[*]")

-- A pointer that is not copied out of its slot stands for the slot itself.
def canonicalStorageGroupId (functionId : String) (path : String) : Pointer → Option String
  | .global name => some ("global:" ++ name ++ path)
  | .argument index => some ("arg:" ++ functionId ++ ":" ++ toString index ++ path)
  | .alloca slot => some ("stack:" ++ functionId ++ ":" ++ slot ++ path)
  | .gep base indices _ =>
      canonicalStorageGroupId functionId (printGepIndices indices ++ path) base
  | .copied stored => canonicalStorageGroupId functionId path stored
  | .load slot => canonicalStorageGroupId functionId path slot
  | .other => none

def localObjectName (functionId slot : String) : String :=
  "object:stack:" ++ functionId ++ ":" ++ slot

def canonicalLockId (value : Pointer) : Option String :=
  match resolveCopiedValue false {} value with
  | some (.global name, place) => some (name ++ place.suffix)
  | _ => none

def localObjectLockId (functionId : String) (localObjects : Finset String) (value : Pointer) :
    Option String :=
  match resolveCopiedValue true {} value with
  | some (.alloca slot, place) =>
      if localObjectName functionId slot ∈ localObjects then
        some (localObjectName functionId slot ++ place.suffix)
      else none
  | _ => none

def objectFieldLockId (argumentIndex : Nat) (object : RootBinding) (value : Pointer) :
    Option String :=
  match resolveCopiedValue false {} value with
  | some (.argument index, place) =>
      if index = argumentIndex then some (lockIdAt object place) else none
  | _ => none

def parameterFieldLockId (value : Pointer) : Option String :=
  match resolveCopiedValue false {} value with
  | some (.argument index, place) => some (lockIdAt (RootBinding.argument index {}) place)
  | _ => none

-- Takes no note of where in the object of the parameter the lock is.
def parameterLockId (value : Pointer) : Option String :=
  match resolveCopiedValue false {} value with
  | some (.argument index, _) => some (kParameterLockPrefix ++ toString index)
  | _ => none

-- Read and write acquisitions of one kind of lock are one kind of call.
def classifyCallee : LockFunction → CallKind
  | .pthread_mutex_lock => .PThreadMutexLock
  | .pthread_mutex_unlock => .PThreadMutexUnlock
  | .pthread_mutex_trylock | .pthread_mutex_timedlock => .PThreadMutexTryLock
  | .pthread_rwlock_rdlock | .pthread_rwlock_wrlock => .PThreadRwLockAcquire
  | .pthread_rwlock_tryrdlock | .pthread_rwlock_trywrlock | .pthread_rwlock_timedrdlock
  | .pthread_rwlock_timedwrlock => .PThreadRwLockTryAcquire
  | .pthread_rwlock_unlock => .PThreadRwLockUnlock
  | .pthread_spin_lock => .PThreadSpinLock
  | .pthread_spin_unlock => .PThreadSpinUnlock
  | .pthread_spin_trylock => .PThreadSpinTryLock
  | .mutex_lock | .mutex_lock_shared => .StdMutexLock
  | .mutex_unlock | .mutex_unlock_shared => .StdMutexUnlock
  | .mutex_try_lock | .mutex_try_lock_shared => .StdMutexTryLock
  | .cxa_guard_acquire => .StaticInitGuardAcquire
  | .cxa_guard_release | .cxa_guard_abort => .StaticInitGuardRelease

-- What an instruction passes to what it calls.
def callArguments : Instruction → List Pointer
  | .lock _ operand _ => [operand]
  | .guardCtor _ _ storage locks _ => storage :: locks
  | .guardDtor _ storage => [storage]
  | .call _ operands => operands
  | .spawn _ operands => operands
  | .access | .other => []

inductive LockEffectKind where
  | Acquire
  | TryAcquire
  | Release
  | GuardAcquire
  | GuardRelease
  deriving DecidableEq, Repr

structure LockEffect where
  kind : LockEffectKind := .Acquire
  lockIds : List String := []
  guardId : String := ""
  recursiveLock : Bool := false
  adoptsHeldLocks : Bool := false
  deriving DecidableEq, Repr

def plainLockEffect : CallKind → Option LockEffectKind
  | .PThreadMutexLock | .PThreadRwLockAcquire | .PThreadSpinLock | .StdMutexLock => some .Acquire
  | .PThreadMutexTryLock | .PThreadRwLockTryAcquire | .PThreadSpinTryLock | .StdMutexTryLock
  | .StaticInitGuardAcquire => some .TryAcquire
  | .PThreadMutexUnlock | .PThreadRwLockUnlock | .PThreadSpinUnlock | .StdMutexUnlock
  | .StaticInitGuardRelease => some .Release
  | _ => none

-- What a resolver is built with, for one function.
structure SynchronizationEffectResolver where
  functionId : String
  summaries : LockWrapperSummaries := fun _ => none
  nameParameterLocks : Bool := false
  sharedObject : Option SharedObjectBinding := none
  localObjects : Finset String := ∅
  nameParameterFieldLocks : Bool := false
  designatesRecursiveLockType : Pointer → Bool := fun _ => false

namespace SynchronizationEffectResolver

variable (resolver : SynchronizationEffectResolver)

def lockIdOf (value : Pointer) : Option String :=
  (canonicalLockId value).or <|
    (localObjectLockId resolver.functionId resolver.localObjects value).or <|
      (resolver.sharedObject.bind fun binding =>
        objectFieldLockId binding.argumentIndex binding.object value).or <|
        if resolver.nameParameterFieldLocks then parameterFieldLockId value
        else if resolver.nameParameterLocks then parameterLockId value
        else none

-- The effect on one argument, under the name the caller has for what it passed.
def summarizedEffect (operands : List Pointer) (parameter : ParameterLockEffect) :
    Option LockEffect :=
  operands[parameter.argumentIndex]?.bind fun operand =>
    (resolver.lockIdOf operand).map fun lockId =>
      { kind := if parameter.acquires then .Acquire else .Release
        lockIds := [lockId]
        recursiveLock := parameter.recursiveLock || resolver.designatesRecursiveLockType operand }

def summarizedEffects (callee : String) (operands : List Pointer) : List LockEffect :=
  match resolver.summaries callee with
  | none => []
  | some parameters => parameters.filterMap (resolver.summarizedEffect operands)

def plainEffects (function : LockFunction) (operand : Pointer) (recursiveLock : Bool) :
    List LockEffect :=
  match plainLockEffect (classifyCallee function), resolver.lockIdOf operand with
  | some kind, some lockId =>
      [{ kind := kind
         lockIds := [lockId]
         recursiveLock := resolver.designatesRecursiveLockType operand || recursiveLock }]
  | _, _ => []

def resolve : Instruction → List LockEffect
  | .lock function operand recursiveLock => resolver.plainEffects function operand recursiveLock
  | .guardCtor _ tag storage locks recursiveLock =>
      match canonicalStorageGroupId resolver.functionId "" storage with
      | none => []
      | some guardId =>
          -- A deferred constructor binds its lock without taking it.
          if tag = .defer_lock then []
          else
            let named := locks.filter fun lock => (resolver.lockIdOf lock).isSome
            if named = [] then []
            else
              [{ kind := .GuardAcquire
                 lockIds := named.filterMap resolver.lockIdOf
                 guardId := guardId
                 recursiveLock := named.any fun lock =>
                   resolver.designatesRecursiveLockType lock || recursiveLock
                 adoptsHeldLocks := tag = .adopt_lock }]
  | .guardDtor _ storage =>
      match canonicalStorageGroupId resolver.functionId "" storage with
      | none => []
      | some guardId => [{ kind := .GuardRelease, guardId := guardId }]
  | .call callee operands => resolver.summarizedEffects callee operands
  | .spawn _ _ => []
  | .access => []
  | .other => []

-- The locks a guard is bound to anywhere in the function.
def guardBindings (function : Function) (guardId : String) : List String :=
  ((function.blocks.flatMap (·.instructions)).flatMap resolver.resolve).flatMap fun effect =>
    if effect.kind = .GuardAcquire ∧ effect.guardId = guardId then effect.lockIds else []

end SynchronizationEffectResolver

structure LockStateChange where
  acquired : List String := []
  orderedAcquired : List String := []
  released : List String := []
  recursivelyAcquirable : List String := []

def LockStateChange.add (bound : String → List String) (change : LockStateChange)
    (effect : LockEffect) : LockStateChange :=
  let recursive := if effect.recursiveLock then effect.lockIds else []
  match effect.kind with
  | .Acquire | .GuardAcquire =>
      { change with
        acquired := change.acquired ++ effect.lockIds
        orderedAcquired := change.orderedAcquired ++
          if effect.adoptsHeldLocks then [] else effect.lockIds
        recursivelyAcquirable := change.recursivelyAcquirable ++ recursive }
  | .TryAcquire =>
      { change with
        acquired := change.acquired ++ effect.lockIds
        recursivelyAcquirable := change.recursivelyAcquirable ++ recursive }
  | .Release => { change with released := change.released ++ effect.lockIds }
  | .GuardRelease => { change with released := change.released ++ bound effect.guardId }

def lockStateChangeFor (resolver : SynchronizationEffectResolver) (function : Function)
    (instruction : Instruction) : LockStateChange :=
  (resolver.resolve instruction).foldl (LockStateChange.add (resolver.guardBindings function)) {}

-- The locks held past an instruction.
def applyChange (change : LockStateChange) (held : LockSet) : LockSet :=
  held \ change.released.toFinset ∪ change.acquired.toFinset

theorem applyChange_inter (change : LockStateChange) (held other : LockSet) :
    applyChange change (held ∩ other) = applyChange change held ∩ applyChange change other := by
  ext lock
  simp only [applyChange, Finset.mem_union, Finset.mem_sdiff, Finset.mem_inter]
  tauto

theorem applyChange_mono (change : LockStateChange) : Monotone (applyChange change) := by
  intro held more h
  exact Finset.union_subset_union_left (Finset.sdiff_subset_sdiff h (Finset.Subset.refl _))

end ConcurrencyAnalyzer.LockState
