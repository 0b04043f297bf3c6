import ConcurrencyAnalyzer.LockState.Propagator
import ConcurrencyAnalyzer.Program.Execution

namespace ConcurrencyAnalyzer.LockState

open Program LockStatePropagator

variable (tracker : LockScopeTracker) (module : Module)

-- The name the analysis gives a lock in the function an activation runs.
def nameIn (frame : Frame) (operand : Pointer) : Option String :=
  (tracker.resolver frame.function).lockIdOf operand

-- What the analysis takes the instruction an activation is at to do to the locks.
def changeOf (frame : Frame) : LockStateChange :=
  match module.functionWithId frame.function, module.instructionAt frame with
  | some function, some instruction => tracker.changeAt function instruction
  | _, _ => {}

-- The locks the analysis takes an activation to hold by what its own function does.
def countedAt (frame : Frame) : LockSet :=
  ((module.functionWithId frame.function).bind fun function =>
    tracker.collectHeldLocks function frame.block frame.index).getD ∅

-- Every name the instruction adds is the name of a recorded lock.
def RecordsChange (frame : Frame) (records : List Taken) : Prop :=
  ∀ name ∈ (changeOf tracker module frame).acquired,
    ∃ record ∈ records, nameIn tracker frame record.operand = some name

-- An activation loses no lock but through an instruction of its own that names it, or a call of its
-- own that is summarised as releasing it.
def DropsCounted : List Frame → List (List Taken) → Prop
  | frame :: rest, gone :: drops =>
      (∀ record ∈ gone, ∀ name, nameIn tracker frame record.operand = some name →
        name ∈ (changeOf tracker module frame).released) ∧ DropsCounted rest drops
  | _, _ => True

def ThreadMeets (thread : Thread) : Action → Prop
  | .release drops => DropsCounted tracker module thread.frames drops
  -- What a guard adopts is a lock the activation took under that name, or one nobody counts.
  | .adopt recorded =>
      ∀ frame rest, thread.frames = frame :: rest →
        RecordsChange tracker module frame (recorded ++ frame.taken)
  -- A call leaves its caller the locks it is summarised as taking.
  | .leave handed =>
      ∀ frame caller rest, thread.frames = frame :: caller :: rest →
        RecordsChange tracker module caller (handed ++ caller.taken)
  -- No thread starts on a function that all its direct calls enter under some lock.
  | .start entry _ => ∀ lock, ¬EnteredUnder tracker module lock entry
  | _ => True

def Meets (state : State) (runner : Nat) (action : Action) : Prop :=
  ∀ thread, state.threads[runner]? = some thread → ThreadMeets tracker module thread action

-- Where an activation stands, no lock it failed to take, or that a call it made threw before taking, is
-- one that every path there takes.
def MissesCounted (frame : Frame) : Prop :=
  ∀ operand ∈ frame.missed, ∀ name, nameIn tracker frame operand = some name →
    ∀ function, module.functionWithId frame.function = some function →
      ∃ held, LockScopeTracker.Arrives tracker function frame.block frame.index held ∧ name ∉ held

-- No call in progress has released a lock for its caller, and no failed attempt is counted.
def AccessMeets (thread : Thread) : Prop :=
  ∀ frame ∈ thread.frames, frame.gaveUp = false ∧ MissesCounted tracker module frame

-- The thread holds a lock that the activation names so.
def HoldsNamed (thread : Thread) (frame : Frame) (name : String) : Prop :=
  ∃ operand place, nameIn tracker frame operand = some name ∧ frame.Denotes operand place ∧
    place ∈ thread.held.map (·.place)

-- A lock of an access is held: one its activation names so, or, unless its name is only good in that
-- activation, one that a caller does.
def HoldsLock (thread : Thread) (frame : Frame) (callers : List Frame) (name : String) : Prop :=
  HoldsNamed tracker thread frame name ∨
    (parameterLockPlace name = none ∧ ∃ caller ∈ callers, HoldsNamed tracker thread caller name)

end ConcurrencyAnalyzer.LockState
