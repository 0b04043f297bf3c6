import ConcurrencyAnalyzer.FactsBuilder.Lifecycle
import ConcurrencyAnalyzer.ThreadCompletion.PathSearch
import ConcurrencyAnalyzer.ThreadEntries.Module

namespace ConcurrencyAnalyzer.ThreadArguments

open Program ThreadCompletion
open LockState (canonicalStorageGroupId)
open ThreadEntries (FunctionValue resolveFunctionValue)

-- A value, pointer casts stripped. Values of one shape are told apart by their number, and the value of
-- a load by where the load stands.
inductive Value where
  | null
  | alloca (slot : Nat)
  | global (name : String)
  | gep (number : Nat) (base : Value)
  | threadLocalAddress (number : Nat) (operand : Value)
  | load (point : Point) (pointer : Value)
  | other (number : Nat)
  deriving DecidableEq

def Value.underlyingObject : Value → Value
  | .gep _ base => base.underlyingObject
  | value => value

-- An operand, with what the copy walk makes of it: the pointer it goes back to, and the argument that
-- `resolveTrackedRoot` finds behind it.
structure Operand where
  value : Value
  pointer : Pointer := .other
  rootArgument : Option Nat := none
  isPointer : Bool := true
  deriving DecidableEq

-- A call with what the classifier says of it. `callable` is the operand that names the entry of a thread,
-- and `success` where a join has certainly waited, as its result proves it.
structure Call where
  kind : CallKind := .Unknown
  releasesMemory : Bool := false
  calledFunction : Option String := none
  callable : FunctionValue := .other
  operands : List Operand := []
  success : Option JoinSuccess := none
  userLocation : SourceLocation := {}
  deriving DecidableEq

inductive Instruction where
  | load (pointer : Operand)
  | store (stored pointer : Operand)
  | call (call : Call)
  | other (operands : List Operand)
  deriving DecidableEq

def Instruction.operands : Instruction → List Operand
  | .load pointer => [pointer]
  | .store stored pointer => [stored, pointer]
  | .call made => made.operands
  | .other used => used

structure Block where
  instructions : List (Instruction × SourceLocation)
  exit : Exit
  hasTerminator : 0 < instructions.length := by decide

def Block.flow (block : Block) : FlowBlock := ⟨block.instructions.length, block.exit, block.hasTerminator⟩

-- A function without blocks is a declaration.
structure Function where
  id : String
  displayName : String := ""
  argumentCount : Nat := 0
  blocks : List Block := []
  successorsExist : ∀ block ∈ blocks, ∀ successor ∈ block.exit.successors,
    successor < blocks.length := by decide

-- An instruction where it stands.
structure Placed where
  point : Point
  instruction : Instruction
  userLocation : SourceLocation
  deriving DecidableEq

theorem successors_loneReturn : ∀ flow ∈ ([⟨1, .ret, Nat.one_pos⟩] : List FlowBlock),
    ∀ successor ∈ flow.exit.successors, successor < 1 := by
  intro flow hflow successor hsuccessor
  rw [List.mem_singleton.mp hflow] at hsuccessor
  cases hsuccessor

namespace Function

variable (function : Function)

def isDeclaration : Bool := function.blocks.isEmpty

-- Of a declaration, a lone return.
def graph : FlowGraph :=
  if h : 0 < function.blocks.length then {
    blocks := function.blocks.map Block.flow
    entryExists := by rwa [List.length_map]
    successorsExist := by
      intro flow hflow
      obtain ⟨block, hblock, rfl⟩ := List.mem_map.mp hflow
      rw [List.length_map]
      exact function.successorsExist block hblock }
  else {
    blocks := [⟨1, .ret, Nat.one_pos⟩]
    entryExists := Nat.one_pos
    successorsExist := successors_loneReturn }

def instructionsOf (block : Block) (number : Nat) : List Placed :=
  block.instructions.zipIdx.map fun ((instruction, location), index) =>
    ⟨⟨number, index⟩, instruction, location⟩

def placedBlocks : List (List Placed) :=
  function.blocks.zipIdx.map fun (block, number) => instructionsOf block number

-- In the order of the function.
def instructions : List Placed := function.placedBlocks.flatten

-- The instructions that have a value for an operand, once for each.
def users (value : Value) : List Placed :=
  function.instructions.flatMap fun placed =>
    (placed.instruction.operands.filter (·.value = value)).map fun _ => placed

end Function

structure Global where
  name : String
  isThreadLocal : Bool := false
  isConstant : Bool := false
  isPointer : Bool := true
  usedByConstant : Bool := false
  deriving DecidableEq

structure Module where
  functions : List Function
  globals : List Global := []
  idsDistinct : (functions.map (·.id)).Nodup := by decide
  namesDistinct : (globals.map (·.name)).Nodup := by decide

def Module.functionWithId (module : Module) (id : String) : Option Function :=
  module.functions.find? (·.id = id)

def kHandleOperandIndex : Nat := 0

def kEntryOperandIndex : Nat := 2

def kArgumentOperandIndex : Nat := 3

def kStdThreadCallableOperandIndex : Nat := 1

-- Where the threads a creation starts have ended by the join-range proof. What is here is in place.
structure ThreadCompletions (module : Module) where
  ended : String → Point → Option JoinSuccess
  ofCompletions : ∀ function ∈ module.functions, ∀ point, ∀ success ∈ ended function.id point,
    PlacedSuccess function.graph success
  ofJoins : ∀ function ∈ module.functions, ∀ placed ∈ function.instructions, ∀ call,
    placed.instruction = .call call → ∀ success ∈ call.success, PlacedSuccess function.graph success

structure JoinSite where
  handleGroupId : String
  success : Option JoinSuccess
  deriving DecidableEq

structure Creation where
  point : Point
  call : Call
  deriving DecidableEq

section Functions

variable (function : Function)

def groupOf (operand : Operand) : Option String :=
  canonicalStorageGroupId function.id "" operand.pointer

def callOf (placed : Placed) : Option Creation :=
  match placed.instruction with
  | .call call => if kHandleOperandIndex < call.operands.length then some ⟨placed.point, call⟩ else none
  | _ => none

-- The calls that have a first operand, in order.
def calls : List Creation := function.instructions.filterMap callOf

def frees : List Creation := (calls function).filter (·.call.releasesMemory)

def isJoin (kind : CallKind) : Bool := kind = .PThreadJoin || kind = .StdThreadJoin

def joinSite (site : Creation) : Option JoinSite :=
  if !site.call.releasesMemory && isJoin site.call.kind then
    (site.call.operands.head?.bind (groupOf function)).map fun group => ⟨group, site.call.success⟩
  else none

def joins : List JoinSite := (calls function).filterMap (joinSite function)

def isCreation (call : Call) : Bool :=
  (call.kind = .PThreadCreate && kArgumentOperandIndex < call.operands.length) ||
    (call.kind = .StdThreadCtor && kStdThreadCallableOperandIndex < call.operands.length)

def creations : List Creation :=
  (calls function).filter fun site => !site.call.releasesMemory && isCreation site.call

def endsOf {module : Module} (completions : ThreadCompletions module) (creation : Creation) :
    List JoinSuccess :=
  (completions.ended function.id creation.point).toList ++
    match creation.call.operands.head?.bind (groupOf function) with
    | none => []
    | some handleGroupId =>
        (joins function).filterMap fun join =>
          if join.handleGroupId = handleGroupId then join.success else none

-- The point follows the creation, and every path between them passes one of the ends.
def endedAt (creation point : Point) (ends : List JoinSuccess) : Bool :=
  !completedOnEveryPath function.graph creation [] (some point) &&
    completedOnEveryPath function.graph creation ends (some point)

def isLocal : Value → Bool
  | .alloca _ => true
  | _ => false

-- Whether the address of another local is stored into a local or one of its fields.
def storesLocal (object : Value) : Bool :=
  function.instructions.any fun placed =>
    match placed.instruction with
    | .store stored pointer =>
        pointer.value.underlyingObject = object && isLocal stored.value.underlyingObject &&
          stored.value.underlyingObject ≠ object
    | _ => false

-- A pthread is handed its argument as it is. A `std::thread` copies what it is handed, so that what
-- escapes is an address inside one of the copies.
def escapingLocal (call : Call) : Bool :=
  if call.kind = .PThreadCreate then
    (call.operands[kArgumentOperandIndex]?).any fun operand => isLocal operand.value.underlyingObject
  else
    (call.operands.drop kStdThreadCallableOperandIndex).any fun operand =>
      isLocal operand.value.underlyingObject && storesLocal function operand.value.underlyingObject

variable (dominates : FlowGraph → Point → Point → Bool)

-- Every write to the slot comes before the first read or after `between`, and nothing takes its address.
def slotKept (slot : Nat) (firstLoad between : Point) : Bool :=
  (function.users (.alloca slot)).all fun placed =>
    match placed.instruction with
    | .load _ => true
    | .store _ pointer =>
        pointer.value = .alloca slot &&
          (dominates function.graph placed.point firstLoad || dominates function.graph between placed.point)
    | _ => false

def samePointer (first second : Value) (between : Point) : Bool :=
  first = second ||
    match first, second with
    | .load firstLoad (.alloca slot), .load _ (.alloca other) =>
        slot = other && slotKept function dominates slot firstLoad between
    | _, _ => false

-- The value of the one store to a slot that is otherwise loaded from.
def soleStoreTo (slot : Nat) : Option Value :=
  let stores := (function.users (.alloca slot)).filterMap fun placed =>
    match placed.instruction with
    | .load _ => none
    | .store stored pointer => some (if pointer.value = .alloca slot then some stored.value else none)
    | _ => some none
  match stores with
  | [some stored] => some stored
  | _ => none

def kMaxSlotHops : Nat := 8

def threadLocalBehind (module : Module) : Nat → Value → Option String
  | 0, _ => none
  | hops + 1, value =>
      match value with
      | .gep _ base => threadLocalBehind module hops base
      | .threadLocalAddress _ operand => threadLocalBehind module hops operand
      | .global name =>
          if module.globals.any fun global => global.name = name && global.isThreadLocal then some name else none
      | .load _ (.alloca slot) => (soleStoreTo function slot).bind (threadLocalBehind module hops)
      | _ => none

def readFrom (pointer : String) : Nat → Value → Bool
  | 0, _ => false
  | hops + 1, value =>
      match value with
      | .gep _ base => readFrom pointer hops base
      | .load _ (.global name) => name = pointer
      | .load _ (.alloca slot) => (soleStoreTo function slot).any (readFrom pointer hops)
      | _ => false

def usesArgument : Bool :=
  let designatesArgument (operand : Operand) : Bool := operand.rootArgument = some 0
  !function.isDeclaration && function.argumentCount ≠ 0 &&
    function.instructions.any fun placed =>
      match placed.instruction with
      | .load pointer | .store _ pointer => designatesArgument pointer
      | .call call => call.operands.any fun operand => operand.isPointer && designatesArgument operand
      | .other _ => false

end Functions

section Publications

variable (module : Module)

structure ThreadLocalPublication where
  pointer : String
  threadLocal : String
  entry : Function
  store : Placed

-- What a use of a pointer says: nothing, that it is no publication, or what is published.
inductive PointerUse where
  | harmless
  | disqualifies
  | publishes (function : Function) (store : Placed) (stored : Value)

def pointerUse (pointer : String) (function : Function) (placed : Placed) : PointerUse :=
  match placed.instruction with
  | .load _ => .harmless
  | .store stored address =>
      if address.value ≠ .global pointer then .disqualifies
      else if stored.value = .null then .harmless
      else .publishes function placed stored.value
  | _ => .disqualifies

def pointerUses (pointer : String) : List PointerUse :=
  module.functions.flatMap fun function =>
    (function.users (.global pointer)).map (pointerUse pointer function)

def isHarmless : PointerUse → Bool
  | .harmless => true
  | _ => false

-- A pointer that is only loaded from, cleared, and given one address, that of a thread-local.
def publicationOf (pointer : Global) : Option ThreadLocalPublication :=
  if pointer.isThreadLocal || pointer.isConstant || !pointer.isPointer || pointer.usedByConstant then none
  else
    match (pointerUses module pointer.name).filter (!isHarmless ·) with
    | [.publishes function store stored] =>
        (threadLocalBehind function module kMaxSlotHops stored).map fun threadLocal =>
          ⟨pointer.name, threadLocal, function, store⟩
    | _ => none

def threadLocalPublications : List ThreadLocalPublication :=
  module.globals.filterMap (publicationOf module)

def onlyRunsAsThreadEntry (entry : String) : Bool :=
  module.functions.all fun function =>
    function.instructions.all fun placed =>
      match placed.instruction with
      | .call call => call.calledFunction ≠ some entry
      | _ => true

def entryIndexOf (kind : CallKind) : Nat :=
  if kind = .PThreadCreate then kEntryOperandIndex else kStdThreadCallableOperandIndex

-- The entry a call starts a thread at, wherever the call stands.
def startedEntry (placed : Placed) : Option String :=
  match placed.instruction with
  | .call call =>
      if (call.kind = .PThreadCreate ∨ call.kind = .StdThreadCtor) ∧
          entryIndexOf call.kind < call.operands.length then
        resolveFunctionValue call.callable
      else none
  | _ => none

def startsByEntry (entry : String) : Nat :=
  (module.functions.flatMap fun function => function.instructions.filterMap startedEntry).count entry

end Publications

section Collect

variable {module : Module} (completions : ThreadCompletions module)
variable (dominates : FlowGraph → Point → Point → Bool)

def entryOf (call : Call) : Option Function :=
  (resolveFunctionValue call.callable).bind module.functionWithId

def entryName (call : Call) : String := ((@entryOf module call).map (·.displayName)).getD ""

-- The frame is gone while the thread may run when some way out of the function passes no end.
def escapeFact (function : Function) (creation : Creation) : Option ThreadArgumentEscapeFact :=
  if escapingLocal function creation.call &&
      !completedOnEveryPath function.graph creation.point (endsOf function completions creation) none then
    some {
      functionId := function.id
      entryFunctionId := @entryName module creation.call
      location := creation.call.userLocation }
  else none

def releasesArgument (function : Function) (creation : Creation) (argument : Operand) (release : Creation) :
    Bool :=
  dominates function.graph creation.point release.point &&
    !endedAt function creation.point release.point (endsOf function completions creation) &&
    (release.call.operands.head?).any fun released =>
      samePointer function dominates argument.value released.value release.point

def freeFact (function : Function) (creation : Creation) : Option ThreadArgumentFreeFact :=
  if creation.call.kind ≠ .PThreadCreate then none
  else
    (@entryOf module creation.call).bind fun entry =>
      (creation.call.operands[kArgumentOperandIndex]?).bind fun argument =>
        if usesArgument entry then
          ((frees function).find? (releasesArgument completions dominates function creation argument)).map
            fun release => {
              functionId := function.id
              entryFunctionId := entry.displayName
              creationLocation := creation.call.userLocation
              freeLocation := release.call.userLocation }
        else none

def entryCreations (function : Function) (publication : ThreadLocalPublication) : List Creation :=
  (creations function).filter fun creation =>
    resolveFunctionValue creation.call.callable = some publication.entry.id

def addressOf : Instruction → Option Value
  | .load pointer => some pointer.value
  | .store _ pointer => some pointer.value
  | _ => none

-- A read or write through the pointer once every thread that could have filled it has ended.
def isExpiredUse (function : Function) (publication : ThreadLocalPublication) (placed : Placed) : Bool :=
  (addressOf placed.instruction).any fun address =>
    address ≠ .global publication.pointer && readFrom function publication.pointer kMaxSlotHops address &&
      (entryCreations function publication).all fun creation =>
        endedAt function creation.point placed.point (endsOf function completions creation)

def expiredFact (function : Function) (publication : ThreadLocalPublication) :
    Option ExpiredThreadLocalFact :=
  let started := entryCreations function publication
  if started.isEmpty || !onlyRunsAsThreadEntry module publication.entry.id ||
      started.length ≠ startsByEntry module publication.entry.id then none
  else
    (function.placedBlocks.findSome? fun block => block.find? (isExpiredUse completions function publication)).map
      fun use => {
        functionId := function.id
        entryFunctionId := publication.entry.displayName
        threadLocal := publication.threadLocal
        pointer := publication.pointer
        publishLocation := publication.store.userLocation
        useLocation := use.userLocation }

structure ThreadLifetimeFacts where
  escapes : List ThreadArgumentEscapeFact
  frees : List ThreadArgumentFreeFact
  expiredThreadLocals : List ExpiredThreadLocalFact

-- The order of the publications is that of the globals here, and none in the source.
def collect : ThreadLifetimeFacts :=
  let defined := module.functions.filter (!·.isDeclaration)
  { escapes := defined.flatMap fun function =>
      (creations function).filterMap (escapeFact completions function)
    frees := defined.flatMap fun function =>
      (creations function).filterMap (freeFact completions dominates function)
    expiredThreadLocals := defined.flatMap fun function =>
      if (creations function).isEmpty then []
      else (threadLocalPublications module).filterMap (expiredFact completions function) }

end Collect

end ConcurrencyAnalyzer.ThreadArguments
