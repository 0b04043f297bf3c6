import ConcurrencyAnalyzer.Facts
import ConcurrencyAnalyzer.Library.KeepFirst
import ConcurrencyAnalyzer.Library.Search

namespace ConcurrencyAnalyzer.Program

-- A pointer as the walks of the analysis see it, casts and aliases stripped. A variable index of a
-- `gep` is `none`, and `byteOffset` is what constant indices add up to. A pointer read back from a
-- local that is only loaded from and stored one value is `copied`, that value; any other is a `load`.
inductive Pointer where
  | global (name : String)
  | argument (index : Nat)
  | alloca (slot : String)
  | gep (base : Pointer) (indices : List (Option Int)) (byteOffset : Int)
  | copied (stored : Pointer)
  | load (slot : Pointer)
  | other
  deriving DecidableEq

-- The functions that take or release a lock, by the names the classifier reads.
inductive LockFunction where
  | pthread_mutex_lock
  | pthread_mutex_unlock
  | pthread_mutex_trylock
  | pthread_mutex_timedlock
  | pthread_rwlock_rdlock
  | pthread_rwlock_wrlock
  | pthread_rwlock_tryrdlock
  | pthread_rwlock_trywrlock
  | pthread_rwlock_timedrdlock
  | pthread_rwlock_timedwrlock
  | pthread_rwlock_unlock
  | pthread_spin_lock
  | pthread_spin_unlock
  | pthread_spin_trylock
  | mutex_lock
  | mutex_lock_shared
  | mutex_unlock
  | mutex_unlock_shared
  | mutex_try_lock
  | mutex_try_lock_shared
  | cxa_guard_acquire
  | cxa_guard_release
  | cxa_guard_abort
  deriving DecidableEq, Repr

inductive GuardTemplate where
  | lock_guard
  | unique_lock
  | scoped_lock
  | shared_lock
  deriving DecidableEq, Repr

-- The tag a guard constructor is given, if any.
inductive GuardTag where
  | none
  | defer_lock
  | adopt_lock
  | try_to_lock
  deriving DecidableEq, Repr

-- `recursiveLock` says that the function called is one of a lock its owner may take again.
inductive Instruction where
  | lock (function : LockFunction) (operand : Pointer) (recursiveLock : Bool)
  | guardCtor (guard : GuardTemplate) (tag : GuardTag) (storage : Pointer) (locks : List Pointer)
      (recursiveLock : Bool)
  | guardDtor (guard : GuardTemplate) (storage : Pointer)
  | call (callee : String) (operands : List Pointer)
  | spawn (entry : String) (operands : List Pointer)
  | access
  | other
  deriving DecidableEq

-- `unwind` is the successor that a block whose last instruction is an invoke goes on to when the call
-- does not complete.
structure Block where
  instructions : List Instruction := []
  successors : List Nat := []
  returns : Bool := false
  unwind : Option Nat := none
  deriving DecidableEq

-- A function with a body. Its first block is its entry.
structure Function where
  id : String
  blocks : List Block
  entryExists : 0 < blocks.length := by decide
  successorsExist : ∀ block ∈ blocks, ∀ successor ∈ block.successors, successor < blocks.length := by
    decide

namespace Function

def successors (function : Function) (block : Nat) : List Nat :=
  match function.blocks[block]? with
  | none => []
  | some found => found.successors

def predecessors (function : Function) (block : Nat) : List Nat :=
  (List.range function.blocks.length).filter fun predecessor =>
    block ∈ function.successors predecessor

def reachable (function : Function) : Finset Nat :=
  Library.Search.search function.successors (fun _ => true) (function.blocks.length + 1) {0} [0]

-- In the order of the function.
def reachableBlocks (function : Function) : List Nat :=
  (List.range function.blocks.length).filter (· ∈ function.reachable)

def instructionAt (function : Function) (block index : Nat) : Option Instruction :=
  function.blocks[block]?.bind fun found => found.instructions[index]?

-- Where an instruction that is an invoke unwinds to.
def unwindDest (function : Function) (block index : Nat) : Option Nat :=
  function.blocks[block]?.bind fun found =>
    if index + 1 = found.instructions.length then found.unwind.filter (· ∈ found.successors)
    else none

theorem successor_lt {function : Function} {block successor : Nat}
    (h : successor ∈ function.successors block) : successor < function.blocks.length := by
  unfold successors at h
  cases hblock : function.blocks[block]? with
  | none => simp [hblock] at h
  | some found =>
      rw [hblock] at h
      exact function.successorsExist found (List.mem_of_getElem? hblock) successor h

theorem unwindDest_eq_some {function : Function} {block index pad : Nat}
    (h : function.unwindDest block index = some pad) :
    ∃ found, function.blocks[block]? = some found ∧ index + 1 = found.instructions.length ∧
      found.unwind = some pad ∧ pad ∈ found.successors := by
  obtain ⟨found, hfound, hpad⟩ := Option.bind_eq_some_iff.mp h
  split at hpad
  · rename_i hlast
    obtain ⟨hunwind, hmem⟩ := Option.filter_eq_some_iff.mp hpad
    exact ⟨found, hfound, hlast, hunwind, by simpa using hmem⟩
  · cases hpad

theorem entry_reachable (function : Function) : 0 ∈ function.reachable :=
  Library.Search.subset_search _ _ _ _ _ (Finset.mem_singleton_self 0)

theorem reachable_successor {function : Function} {block successor : Nat}
    (hblock : block ∈ function.reachable) (h : successor ∈ function.successors block) :
    successor ∈ function.reachable :=
  Library.Search.next_mem_reached (fun _ _ => successor_lt) hblock h

theorem mem_reachableBlocks {function : Function} {block : Nat} :
    block ∈ function.reachableBlocks ↔ block < function.blocks.length ∧ block ∈ function.reachable := by
  simp [reachableBlocks]

theorem mem_predecessors {function : Function} {block predecessor : Nat}
    (h : block ∈ function.successors predecessor) : predecessor ∈ function.predecessors block := by
  have hlt : predecessor < function.blocks.length := by
    by_contra hlarge
    simp [successors, List.getElem?_eq_none (not_lt.mp hlarge)] at h
  simp [predecessors, hlt, h]

end Function

structure Module where
  functions : List Function
  idsDistinct : (functions.map (·.id)).Nodup := by decide

def Module.functionWithId (module : Module) (id : String) : Option Function :=
  module.functions.find? (·.id = id)

theorem Module.functionWithId_of_mem {module : Module} {function : Function}
    (h : function ∈ module.functions) : module.functionWithId function.id = some function :=
  Library.KeepFirst.find?_of_mem module.idsDistinct h

theorem Module.mem_of_functionWithId {module : Module} {id : String} {function : Function}
    (h : module.functionWithId id = some function) : function ∈ module.functions ∧ function.id = id :=
  ⟨List.mem_of_find?_eq_some h, by simpa using List.find?_some h⟩

-- A direct call of a function of the module, by its place.
structure CallSite where
  caller : String
  block : Nat
  index : Nat
  callee : String
  operands : List Pointer
  deriving DecidableEq

def callSitesOfBlock (module : Module) (function : Function) (block : Nat) : List CallSite :=
  match function.blocks[block]? with
  | none => []
  | some found =>
      found.instructions.zipIdx.filterMap fun
        | (.call callee operands, index) =>
            if (module.functionWithId callee).isSome then
              some ⟨function.id, block, index, callee, operands⟩
            else none
        | _ => none

def collectDirectCallSites (module : Module) : List CallSite :=
  module.functions.flatMap fun function =>
    function.reachableBlocks.flatMap (callSitesOfBlock module function)

theorem mem_collectDirectCallSites {module : Module} {caller callee : Function} {block index : Nat}
    {operands : List Pointer} (hcaller : caller ∈ module.functions)
    (hcallee : module.functionWithId callee.id = some callee) (hreachable : block ∈ caller.reachable)
    (hcall : caller.instructionAt block index = some (.call callee.id operands)) :
    ⟨caller.id, block, index, callee.id, operands⟩ ∈ collectDirectCallSites module := by
  unfold Function.instructionAt at hcall
  obtain ⟨found, hfound, hinstruction⟩ := Option.bind_eq_some_iff.mp hcall
  have hlt : block < caller.blocks.length := (List.getElem?_eq_some_iff.mp hfound).1
  refine List.mem_flatMap.mpr ⟨caller, hcaller, List.mem_flatMap.mpr
    ⟨block, Function.mem_reachableBlocks.mpr ⟨hlt, hreachable⟩, ?_⟩⟩
  unfold callSitesOfBlock
  rw [hfound]
  refine List.mem_filterMap.mpr ⟨(.call callee.id operands, index), ?_, ?_⟩
  · rw [List.mem_zipIdx_iff_getElem?]
    exact hinstruction
  · simp [hcallee]

end ConcurrencyAnalyzer.Program
