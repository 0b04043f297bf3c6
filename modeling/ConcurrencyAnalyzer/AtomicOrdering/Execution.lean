import ConcurrencyAnalyzer.AtomicOrdering.Walks
import ConcurrencyAnalyzer.Program.Execution

namespace ConcurrencyAnalyzer.AtomicOrdering

open Program (Pointer Place)

-- `exposed` lists the locals whose address has been handed out.
structure Frame where
  function : String
  activation : Nat
  arguments : List Place := []
  block : Nat := 0
  index : Nat := 0
  registers : Site → Option APInt := fun _ => none
  locals : String → Option APInt := fun _ => none
  exposed : List String := []

namespace Frame

variable (frame : Frame)

def site : Site := (frame.block, frame.index)

def Denotes (pointer : Pointer) (place : Place) : Prop :=
  Program.Frame.Denotes
    { function := frame.function, activation := frame.activation, arguments := frame.arguments }
    pointer place

def Evaluates (value : Value) (result : APInt) : Prop :=
  match value with
  | .constant constant => result = constant
  | .result site => frame.registers site = some result
  | .address _ | .other => True

def advance : Frame := { frame with index := frame.index + 1 }

-- Past an instruction that computes a value.
def result (value : APInt) : Frame :=
  { frame with
    index := frame.index + 1
    registers := fun site => if site = frame.site then some value else frame.registers site }

def assign (slot : String) (value : APInt) : Frame :=
  { frame with
    index := frame.index + 1
    locals := fun other => if other = slot then some value else frame.locals other }

def expose (slots : List String) : Frame := { frame with exposed := slots ++ frame.exposed }

end Frame

-- `source` is the place among the events of the write a load returns the value of, `none` if there is none.
structure Read where
  place : Place
  source : Option Nat
  value : APInt

-- One instruction run or one edge taken.
structure Event where
  thread : Nat
  activation : Nat
  function : String
  mark : Mark
  writes : List (Place × APInt) := []
  read : Option Read := none

-- The memory a program starts with.
structure Memory (module : Module) where
  value : Place → APInt
  initialized : ∀ name global initializer, module.globalWithName name = some global →
    global.initializer = some initializer → value ⟨.global name, 0⟩ = initializer

-- A load returns what the place held at first, or the value of any write to it there has been.
def Returns {module : Module} (memory : Memory module) (events : List Event) (read : Read) : Prop :=
  match read.source with
  | none => read.value = memory.value read.place
  | some source => ∃ event, events[source]? = some event ∧ (read.place, read.value) ∈ event.writes

-- What running an instruction makes of an activation, and does to memory. `fresh` numbers a function
-- it enters or starts a thread on.
inductive Runs {module : Module} (memory : Memory module) (events : List Event) (fresh : Nat)
    (frame : Frame) :
    Instruction → Frame → List (Place × APInt) → Option Read → List Frame → List Frame → Prop
  -- Whoever was handed the address of a local may have written to it.
  | load {slot width value} (hvalue : slot ∉ frame.exposed → ∀ stored,
      frame.locals slot = some stored → value = stored.zextOrTrunc width) :
      Runs memory events fresh frame (.load slot width) (frame.result value) [] none [] []
  | assign {slot value result} (hvalue : frame.Evaluates value result) :
      Runs memory events fresh frame (.store (.alloca slot) value)
        ((frame.assign slot result).expose value.addressed) [] none [] []
  | store {target value result place} (htarget : ∀ slot, target ≠ .alloca slot)
      (hplace : frame.Denotes target place) (hvalue : frame.Evaluates value result) :
      Runs memory events fresh frame (.store target value)
        (frame.advance.expose (addressed target ++ value.addressed)) [(place, result)] none [] []
  | cast {operation operand width value result} (hoperand : frame.Evaluates operand value)
      (hresult : ∀ known, value.cast operation width = some known → result = known) :
      Runs memory events fresh frame (.cast operation operand width)
        ((frame.result result).expose operand.addressed) [] none [] []
  | binary {operation lhs rhs left right result} (hlhs : frame.Evaluates lhs left)
      (hrhs : frame.Evaluates rhs right)
      (hresult : ∀ known, operation.apply left right = some known → result = known) :
      Runs memory events fresh frame (.binary operation lhs rhs)
        ((frame.result result).expose (lhs.addressed ++ rhs.addressed)) [] none [] []
  | icmp {predicate lhs rhs left right result} (hlhs : frame.Evaluates lhs left)
      (hrhs : frame.Evaluates rhs right)
      (hresult : ∀ known, left.compare predicate right = some known → result = known) :
      Runs memory events fresh frame (.icmp predicate lhs rhs)
        ((frame.result result).expose (lhs.addressed ++ rhs.addressed)) [] none [] []
  | atomicLoad {object order width read} (hplace : frame.Denotes object read.place)
      (hreturns : Returns memory events read) :
      Runs memory events fresh frame (.atomicLoad object order width)
        ((frame.result (read.value.zextOrTrunc width)).expose (addressed object)) [] (some read) [] []
  | atomicStore {object order value result place} (hplace : frame.Denotes object place)
      (hvalue : frame.Evaluates value result) :
      Runs memory events fresh frame (.atomicStore object order value)
        (frame.advance.expose (addressed object ++ value.addressed)) [(place, result)] none [] []
  | readModifyWrite {object order result place written} (hplace : frame.Denotes object place) :
      Runs memory events fresh frame (.readModifyWrite object order)
        ((frame.result result).expose (addressed object)) [(place, written)] none [] []
  | fence {order} : Runs memory events fresh frame (.fence order) frame.advance [] none [] []
  -- The value a call returns is settled when it is entered. No fold looks into it.
  | call {callee operands arguments result}
      (harguments : List.Forall₂ frame.Denotes operands arguments) :
      Runs memory events fresh frame (.call callee operands)
        ((frame.result result).expose (operands.flatMap addressed)) [] none
        [{ function := callee, activation := fresh, arguments := arguments }] []
  | spawn {entry operands arguments} (harguments : List.Forall₂ frame.Denotes operands arguments) :
      Runs memory events fresh frame (.spawn entry operands)
        (frame.advance.expose (operands.flatMap addressed)) [] none []
        [{ function := entry, activation := fresh, arguments := arguments }]
  -- Outside code writes as it likes.
  | other {addresses result writes} :
      Runs memory events fresh frame (.other addresses) ((frame.result result).expose addresses) writes
        none [] []

def Terminator.Goes (frame : Frame) (terminator : Terminator) (successor : Nat) : Prop :=
  match terminator.condition with
  | none => successor ∈ terminator.successors
  | some condition => ∃ value, frame.Evaluates condition value ∧ terminator.select value = some successor

-- Each thread is its activations, the innermost first.
structure State where
  threads : List (List Frame)
  fresh : Nat
  events : List Event

def initialState (main : String) : State where
  threads := [[{ function := main, activation := 0 }]]
  fresh := 1
  events := []

-- A step of a thread, with the event it adds.
inductive Step {module : Module} (memory : Memory module) : State → Option Event → State → Prop
  | run {state : State} {runner : Nat} {frame after : Frame} {rest entered started : List Frame}
      {function : Function} {instruction : Instruction} {writes : List (Place × APInt)}
      {read : Option Read} {event : Event}
      (hthread : state.threads[runner]? = some (frame :: rest))
      (hfunction : module.functionWithId frame.function = some function)
      (hinstruction : function.instructionAt frame.site = some instruction)
      (hruns : Runs memory state.events state.fresh frame instruction after writes read entered
        started)
      (hevent : event = ⟨runner, frame.activation, frame.function, .ran frame.site, writes, read⟩) :
      Step memory state (some event)
        { threads := state.threads.set runner (entered ++ after :: rest) ++ started.map ([·])
          fresh := state.fresh + 1
          events := state.events ++ [event] }
  | branch {state : State} {runner : Nat} {frame : Frame} {rest : List Frame} {function : Function}
      {found : Block} {successor : Nat} {event : Event}
      (hthread : state.threads[runner]? = some (frame :: rest))
      (hfunction : module.functionWithId frame.function = some function)
      (hfound : function.blocks[frame.block]? = some found)
      (hindex : frame.index = found.instructions.length)
      (hgoes : found.terminator.Goes frame successor)
      (hevent : event = ⟨runner, frame.activation, frame.function, .took frame.block successor, [], none⟩) :
      Step memory state (some event)
        { threads := state.threads.set runner ({ frame with block := successor, index := 0 } :: rest)
          fresh := state.fresh + 1
          events := state.events ++ [event] }
  | leave {state : State} {runner : Nat} {frame : Frame} {rest : List Frame} {function : Function}
      {found : Block} (hthread : state.threads[runner]? = some (frame :: rest))
      (hfunction : module.functionWithId frame.function = some function)
      (hfound : function.blocks[frame.block]? = some found)
      (hindex : frame.index = found.instructions.length) (hreturns : found.terminator = .ret) :
      Step memory state none
        { threads := state.threads.set runner rest, fresh := state.fresh, events := state.events }

-- The states a program reaches by steps that all meet a condition on the state before them and the
-- event they add.
inductive Reachable {module : Module} (memory : Memory module) (Meets : State → Event → Prop)
    (main : String) : State → Prop
  | initial : Reachable memory Meets main (initialState main)
  | step {state event after} : Reachable memory Meets main state → Step memory state event after →
      (∀ added, event = some added → Meets state added) → Reachable memory Meets main after

section Order

variable (module : Module) (events : List Event)

-- The instruction an event ran.
def Event.instruction (event : Event) : Option Instruction :=
  match event.mark with
  | .ran site => (module.functionWithId event.function).bind fun function => function.instructionAt site
  | .took _ _ => none

def Event.operation (event : Event) : Option AtomicOperation :=
  (event.instruction module).bind operationOf

-- The store itself, or a fence of its thread before it.
def Releases (release store : Nat) : Prop :=
  ∃ first second order, events[release]? = some first ∧ events[store]? = some second ∧
    (second.operation module).map (·.kind) = some .Store ∧
    (first.operation module).bind (·.order) = some order ∧ releasesAtLeast order = true ∧
    (release = store ∨ release < store ∧ first.thread = second.thread ∧
      (first.operation module).map (·.kind) = some .Fence)

-- The load itself, or a fence of its thread after it.
def Acquires (load acquire : Nat) : Prop :=
  ∃ first second order, events[load]? = some first ∧ events[acquire]? = some second ∧
    (first.operation module).map (·.kind) = some .Load ∧
    (second.operation module).bind (·.order) = some order ∧ acquiresAtLeast order = true ∧
    (load = acquire ∨ load < acquire ∧ first.thread = second.thread ∧
      (second.operation module).map (·.kind) = some .Fence)

def ReadsFrom (load store : Nat) : Prop :=
  ∃ event read, events[load]? = some event ∧ event.read = some read ∧ read.source = some store

-- One event after another of its thread.
def ThreadOrder (first second : Nat) : Prop :=
  ∃ before after, events[first]? = some before ∧ events[second]? = some after ∧ first < second ∧
    before.thread = after.thread

inductive HappensBefore : Nat → Nat → Prop
  | program {first second} : ThreadOrder events first second → HappensBefore first second
  | synchronizes {release store load acquire} : Releases module events release store →
      ReadsFrom events load store → Acquires module events load acquire → HappensBefore release acquire
  | trans {first second third} : HappensBefore first second → HappensBefore second third →
      HappensBefore first third

end Order

end ConcurrencyAnalyzer.AtomicOrdering
