import ConcurrencyAnalyzer.Program.Module

namespace ConcurrencyAnalyzer.Program

-- Memory of its own: a global, a local of one activation of a function, or anything else.
inductive StorageObject where
  | global (name : String)
  | stack (activation : Nat) (slot : String)
  | heap (id : Nat)
  deriving DecidableEq

structure Place where
  object : StorageObject
  offset : Int := 0
  deriving DecidableEq

def Place.move (place : Place) (bytes : Int) : Place :=
  { place with offset := int64 (place.offset + bytes) }

inductive LockMode where
  | exclusive
  | shared
  deriving DecidableEq, Repr

-- What a lock function does to the lock it is handed.
inductive LockRole where
  | take
  | tryTake
  | release
  deriving DecidableEq, Repr

def LockFunction.role : LockFunction → LockRole
  | .pthread_mutex_lock | .pthread_rwlock_rdlock | .pthread_rwlock_wrlock | .pthread_spin_lock
  | .mutex_lock | .mutex_lock_shared => .take
  | .pthread_mutex_trylock | .pthread_mutex_timedlock | .pthread_rwlock_tryrdlock
  | .pthread_rwlock_trywrlock | .pthread_rwlock_timedrdlock | .pthread_rwlock_timedwrlock
  | .pthread_spin_trylock | .mutex_try_lock | .mutex_try_lock_shared
  | .cxa_guard_acquire => .tryTake
  | .pthread_mutex_unlock | .pthread_rwlock_unlock | .pthread_spin_unlock | .mutex_unlock
  | .mutex_unlock_shared | .cxa_guard_release | .cxa_guard_abort => .release

def LockFunction.mode : LockFunction → LockMode
  | .pthread_rwlock_rdlock | .pthread_rwlock_tryrdlock | .pthread_rwlock_timedrdlock
  | .mutex_lock_shared | .mutex_try_lock_shared => .shared
  | _ => .exclusive

def GuardTemplate.mode : GuardTemplate → LockMode
  | .shared_lock => .shared
  | _ => .exclusive

namespace Instruction

-- The locks an instruction takes when it succeeds.
def takes : Instruction → Option (List Pointer × LockMode)
  | .lock function operand _ =>
      if function.role = .release then none else some ([operand], function.mode)
  | .guardCtor guard tag _ locks _ =>
      if tag = .none ∨ tag = .try_to_lock then some (locks, guard.mode) else none
  | _ => none

-- The locks an instruction leaves untaken when it throws.
def attempts : Instruction → List Pointer
  | .lock function operand _ => if function.role = .release then [] else [operand]
  | .guardCtor _ _ _ locks _ => locks
  | _ => []

-- What an instruction may release: the lock it is handed, or whatever a guard is in charge of.
def mayRelease (instruction : Instruction) (denotes : Pointer → Place → Prop)
    (places : List Place) : Prop :=
  match instruction with
  | .lock function operand _ => function.role = .release ∧ ∃ place, denotes operand place ∧ places = [place]
  | .guardDtor _ _ => True
  | _ => False

def isPassive : Instruction → Bool
  | .guardCtor _ tag _ _ _ => tag = .defer_lock
  | .access | .other => true
  | _ => false

end Instruction

-- A lock an activation took, or was left with by a call it made, and still has.
structure Taken where
  operand : Pointer
  place : Place
  deriving DecidableEq

structure Frame where
  function : String
  activation : Nat
  arguments : List Place
  block : Nat := 0
  index : Nat := 0
  taken : List Taken := []
  -- The locks it last tried and failed to take, by itself or by a call that did not complete.
  missed : List Pointer := []
  -- Whether it, or a call it made, released a lock that one of its callers took.
  gaveUp : Bool := false

def Frame.advance (frame : Frame) : Frame :=
  { frame with index := frame.index + 1 }

-- What a pointer may point to.
inductive Extent where
  | anywhere
  | within (object : StorageObject)
  | exactly (place : Place)

def Frame.extent (frame : Frame) : Pointer → Extent
  | .global name => .exactly ⟨.global name, 0⟩
  | .argument index => frame.arguments[index]?.elim .anywhere .exactly
  | .alloca slot => .exactly ⟨.stack frame.activation slot, 0⟩
  | .gep base indices byteOffset =>
      match frame.extent base with
      | .exactly place =>
          if indices.all Option.isSome then .exactly (place.move byteOffset)
          else .within place.object
      | extent => extent
  | .copied stored => frame.extent stored
  | .load _ => .anywhere
  | .other => .anywhere

def Frame.Denotes (frame : Frame) (pointer : Pointer) (place : Place) : Prop :=
  match frame.extent pointer with
  | .anywhere => True
  | .within object => place.object = object
  | .exactly known => place = known

structure HeldLock where
  place : Place
  mode : LockMode
  deriving DecidableEq

-- The innermost activation first.
structure Thread where
  frames : List Frame
  held : List HeldLock := []

-- No activation counts a lock the thread does not hold as often.
def Thread.Backed (thread : Thread) : Prop :=
  ((thread.frames.flatMap (·.taken)).map (·.place)).Subperm (thread.held.map (·.place))

-- Takes away from each activation what it no longer has. Those above it gave it up.
def dropRecords : List Frame → List (List Taken) → List Frame
  | frame :: rest, gone :: drops =>
      { frame with
        taken := frame.taken.diff gone
        gaveUp := frame.gaveUp || drops.any (!·.isEmpty) } :: dropRecords rest drops
  | frames, _ => frames

def Module.instructionAt (module : Module) (frame : Frame) : Option Instruction :=
  (module.functionWithId frame.function).bind fun function =>
    function.instructionAt frame.block frame.index

def Module.unwindDest (module : Module) (frame : Frame) : Option Nat :=
  (module.functionWithId frame.function).bind fun function =>
    function.unwindDest frame.block frame.index

def Module.blockOf (module : Module) (frame : Frame) : Option Block :=
  (module.functionWithId frame.function).bind fun function => function.blocks[frame.block]?

-- A function of another module returns at any time.
def Module.Returns (module : Module) (frame : Frame) : Prop :=
  module.functionWithId frame.function = none ∨
    ∃ block, module.blockOf frame = some block ∧ block.returns = true ∧
      frame.index = block.instructions.length

-- What a thread does in a step, with what the records of its activations lose or gain by it.
inductive Action where
  | pass
  | take
  | miss
  | adopt (recorded : List Taken)
  | release (drops : List (List Taken))
  | outsideTake
  | enter
  | leave (handed : List Taken)
  | unwind
  | finish
  | branch
  | start (entry : String) (arguments : List Place)

-- A call of a function the module does not hold runs outside code, which takes and releases locks as
-- it likes. An attempt to take a lock may fail: it then returns without the lock, or unwinds.
inductive ThreadStep (module : Module) (free : Place → LockMode → Prop) (fresh : Nat) :
    Thread → Action → Thread → Prop
  | pass {frame rest held instruction} (hinstruction : module.instructionAt frame = some instruction)
      (hpassive : instruction.isPassive = true) :
      ThreadStep module free fresh ⟨frame :: rest, held⟩ .pass ⟨frame.advance :: rest, held⟩
  | take {frame rest held instruction operands mode places}
      (hinstruction : module.instructionAt frame = some instruction)
      (htakes : instruction.takes = some (operands, mode))
      (hplaces : List.Forall₂ frame.Denotes operands places)
      (hfree : ∀ place ∈ places, free place mode) :
      ThreadStep module free fresh ⟨frame :: rest, held⟩ .take
        ⟨{ frame.advance with
            taken := List.zipWith Taken.mk operands places ++ frame.taken
            missed := frame.missed.filter (· ∉ operands) } :: rest,
          places.map (⟨·, mode⟩) ++ held⟩
  | miss {frame rest held instruction operands mode}
      (hinstruction : module.instructionAt frame = some instruction)
      (htakes : instruction.takes = some (operands, mode)) :
      ThreadStep module free fresh ⟨frame :: rest, held⟩ .miss
        ⟨{ frame.advance with missed := operands ++ frame.missed } :: rest, held⟩
  | throw {frame rest held instruction pad}
      (hinstruction : module.instructionAt frame = some instruction)
      (hnotCall : ∀ callee operands, instruction ≠ .call callee operands)
      (hpad : module.unwindDest frame = some pad) :
      ThreadStep module free fresh ⟨frame :: rest, held⟩ .unwind
        ⟨{ frame with
            block := pad
            index := 0
            missed := instruction.attempts ++ frame.missed } :: rest, held⟩
  | adopt {frame rest held guard storage locks recursiveLock places recorded}
      (hinstruction : module.instructionAt frame =
        some (.guardCtor guard .adopt_lock storage locks recursiveLock))
      (hplaces : List.Forall₂ frame.Denotes locks places)
      (hheld : ∀ place ∈ places, place ∈ held.map (·.place))
      (hrecorded : recorded.Sublist (List.zipWith Taken.mk locks places))
      (hbacked : Thread.Backed
        ⟨{ frame.advance with taken := recorded ++ frame.taken } :: rest, held⟩) :
      ThreadStep module free fresh ⟨frame :: rest, held⟩ (.adopt recorded)
        ⟨{ frame.advance with taken := recorded ++ frame.taken } :: rest, held⟩
  | release {frame rest held instruction gone kept drops}
      (hinstruction : module.instructionAt frame = some instruction)
      (hrelease : instruction.mayRelease frame.Denotes (gone.map HeldLock.place))
      (hheld : held.Perm (gone ++ kept))
      (hbacked : Thread.Backed ⟨dropRecords (frame.advance :: rest) drops, kept⟩) :
      ThreadStep module free fresh ⟨frame :: rest, held⟩ (.release drops)
        ⟨dropRecords (frame.advance :: rest) drops, kept⟩
  | outsideTake {frame rest held place mode}
      (houtside : module.functionWithId frame.function = none) (hfree : free place mode) :
      ThreadStep module free fresh ⟨frame :: rest, held⟩ .outsideTake
        ⟨frame :: rest, ⟨place, mode⟩ :: held⟩
  | outsideRelease {frame rest held gone kept drops}
      (houtside : module.functionWithId frame.function = none) (hheld : held.Perm (gone ++ kept))
      (hbacked : Thread.Backed ⟨dropRecords (frame :: rest) drops, kept⟩) :
      ThreadStep module free fresh ⟨frame :: rest, held⟩ (.release drops)
        ⟨dropRecords (frame :: rest) drops, kept⟩
  | enter {frame rest held callee operands arguments}
      (hinstruction : module.instructionAt frame = some (.call callee operands))
      (harguments : List.Forall₂ frame.Denotes operands arguments) :
      ThreadStep module free fresh ⟨frame :: rest, held⟩ .enter
        ⟨{ function := callee, activation := fresh, arguments := arguments } :: frame :: rest, held⟩
  | leave {frame caller rest held callee operands handed} (hreturns : module.Returns frame)
      (hcall : module.instructionAt caller = some (.call callee operands))
      (hhanded : ∀ record ∈ handed, ∃ position : Nat, operands[position]? = some record.operand ∧
        frame.arguments[position]? = some record.place)
      (hbacked : Thread.Backed
        ⟨{ caller.advance with taken := handed ++ caller.taken } :: rest, held⟩) :
      ThreadStep module free fresh ⟨frame :: caller :: rest, held⟩ (.leave handed)
        ⟨{ caller.advance with taken := handed ++ caller.taken } :: rest, held⟩
  | unwind {popped frame rest held callee operands pad} (hpopped : popped ≠ [])
      (hcall : module.instructionAt frame = some (.call callee operands))
      (hpad : module.unwindDest frame = some pad) :
      ThreadStep module free fresh ⟨popped ++ frame :: rest, held⟩ .unwind
        ⟨{ frame with
            block := pad
            index := 0
            missed := operands.filter (· ∉ frame.taken.map (·.operand)) ++ frame.missed } :: rest,
          held⟩
  | finish {frame held} (hreturns : module.Returns frame) :
      ThreadStep module free fresh ⟨[frame], held⟩ .finish ⟨[], held⟩
  | branch {frame rest held block successor} (hblock : module.blockOf frame = some block)
      (hindex : frame.index = block.instructions.length)
      (hsuccessor : successor ∈ block.successors) (hcompleted : block.unwind ≠ some successor) :
      ThreadStep module free fresh ⟨frame :: rest, held⟩ .branch
        ⟨{ frame with block := successor, index := 0 } :: rest, held⟩
  | start {frame rest held entry operands arguments}
      (hinstruction : module.instructionAt frame = some (.spawn entry operands))
      (harguments : List.Forall₂ frame.Denotes operands arguments) :
      ThreadStep module free fresh ⟨frame :: rest, held⟩ (.start entry arguments)
        ⟨frame.advance :: rest, held⟩

-- Activations are numbered in the order they start in.
structure State where
  threads : List Thread
  fresh : Nat

def initialThread (entry : String) (activation : Nat) (arguments : List Place) : Thread where
  frames := [{ function := entry, activation := activation, arguments := arguments }]

def initialState (entry : String) : State where
  threads := [initialThread entry 0 []]
  fresh := 1

def Action.started (action : Action) (fresh : Nat) : List Thread :=
  match action with
  | .start entry arguments => [initialThread entry fresh arguments]
  | _ => []

-- Whether a thread may take a lock in a mode: no other thread holds it, or all hold it shared.
def State.Free (state : State) (runner : Nat) (place : Place) (mode : LockMode) : Prop :=
  ∀ number thread, number ≠ runner → state.threads[number]? = some thread →
    ∀ lock ∈ thread.held, lock.place = place → mode = .shared ∧ lock.mode = .shared

inductive Step (module : Module) : State → Nat → Action → State → Prop
  | run {state : State} {runner : Nat} {thread after : Thread} {action : Action}
      (hthread : state.threads[runner]? = some thread)
      (hstep : ThreadStep module (state.Free runner) state.fresh thread action after) :
      Step module state runner action
        { threads := state.threads.set runner after ++ action.started state.fresh
          fresh := state.fresh + 1 }

-- The states a program reaches by steps that all meet a condition on the state before them.
inductive Reachable (module : Module) (Meets : State → Nat → Action → Prop) (entry : String) :
    State → Prop
  | initial : Reachable module Meets entry (initialState entry)
  | step {state runner action after} : Reachable module Meets entry state →
      Meets state runner action → Step module state runner action after →
      Reachable module Meets entry after

end ConcurrencyAnalyzer.Program
