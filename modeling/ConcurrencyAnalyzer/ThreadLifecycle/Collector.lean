import ConcurrencyAnalyzer.FactsBuilder.Lifecycle
import ConcurrencyAnalyzer.ThreadEntries.Module
import ConcurrencyAnalyzer.ThreadLifecycle.Paths

namespace ConcurrencyAnalyzer.ThreadLifecycle

open Program
open LockState (canonicalStorageGroupId)

structure LifecycleDescriptor where
  handleKind : ThreadHandleKind := .PThread
  action : ThreadLifecycleAction := .Create
  operandIndex : Nat := 0
  sourceOperandIndex : Option Nat := none

def classifyLifecycle : CallKind → Option LifecycleDescriptor
  | .PThreadCreate => some { handleKind := .PThread, action := .Create }
  | .PThreadJoin => some { handleKind := .PThread, action := .Join }
  | .PThreadDetach => some { handleKind := .PThread, action := .Detach }
  | .StdThreadCtor => some { handleKind := .StdThread, action := .Create }
  | .StdThreadMove => some { handleKind := .StdThread, action := .Move, sourceOperandIndex := some 1 }
  | .StdThreadJoin => some { handleKind := .StdThread, action := .Join }
  | .StdThreadDetach => some { handleKind := .StdThread, action := .Detach }
  | _ => none

inductive OperandType where
  | pointer
  | integer
  | other
  deriving DecidableEq, Repr

structure Operand where
  value : Pointer
  type : OperandType := .pointer
  constant : Option Int := none
  deriving DecidableEq

-- A call with what the classifier says of it. A call made through a pointer-to-member on the object
-- itself, where the pair held is a constant, has the kind of the function it calls as its `member`,
-- beside the object. `isOpaque` says that the body of what is called is not here.
structure Call where
  id : InstructionId
  kind : CallKind := .Unknown
  member : Option (CallKind × Pointer) := none
  directCallee : Option String := none
  isOpaque : Bool := true
  isDebugOrMemory : Bool := false
  operands : List Operand := []
  userLocation : SourceLocation := {}
  deriving DecidableEq

-- An instruction that is no call is none.
structure Block where
  instructions : List (Option Call)
  exit : Exit
  hasTerminator : 0 < instructions.length := by decide

def Block.flow (block : Block) : FlowBlock := ⟨block.instructions.length, block.exit, block.hasTerminator⟩

-- A function with a body. `loopOf` has the blocks of the innermost loop a block is in.
structure Function where
  id : String
  blocks : List Block
  loopOf : Nat → Option (Finset Nat) := fun _ => none
  entryExists : 0 < blocks.length := by decide
  successorsExist : ∀ block ∈ blocks, ∀ successor ∈ block.exit.successors,
    successor < blocks.length := by decide

def Function.graph (function : Function) : FlowGraph where
  blocks := function.blocks.map Block.flow
  entryExists := by rw [List.length_map]; exact function.entryExists
  successorsExist := by
    intro flow hflow
    obtain ⟨block, hblock, rfl⟩ := List.mem_map.mp hflow
    rw [List.length_map]
    exact function.successorsExist block hblock

structure PlacedCall where
  point : Point
  call : Call
  deriving DecidableEq

def Block.calls (block : Block) (number : Nat) : List PlacedCall :=
  block.instructions.zipIdx.filterMap fun (instruction, index) =>
    instruction.map fun call => ⟨⟨number, index⟩, call⟩

-- In the order of the function.
def Function.calls (function : Function) : List PlacedCall :=
  function.blocks.zipIdx.flatMap fun (block, number) => block.calls number

structure Module where
  targetTriple : String := ""
  functions : List Function
  isLikelyUserLocation : SourceLocation → Bool := fun _ => true
  idsDistinct : (functions.map (·.id)).Nodup := by decide

def lifecycleKey (fact : ThreadLifecycleFact) : String :=
  toString (Lifecycle.handleKindNumber fact.handleKind) ++ "|" ++
    toString (Lifecycle.actionNumber fact.action) ++ "|" ++ fact.handleGroupId ++ "|" ++
    fact.sourceHandleGroupId.getD "" ++ "|" ++ fact.functionId ++ "|" ++ fact.location.file ++ "|" ++
    toString fact.location.line ++ "|" ++ toString fact.location.column

structure ResolvedCall where
  kind : CallKind := .Unknown
  object : Option Pointer := none

def resolveCall (call : Call) : ResolvedCall :=
  if call.kind ≠ .Unknown then { kind := call.kind }
  else
    match call.member with
    | some (kind, object) => { kind := kind, object := some object }
    | none => {}

def operandOf (call : Call) (index : Nat) : Pointer :=
  match index, (resolveCall call).object with
  | 0, some object => object
  | index, _ => (call.operands[index]?.map (·.value)).getD .other

-- The lifecycle operation a call is, where it has the operand the operation is on.
def descriptorOf (call : Call) : Option LifecycleDescriptor :=
  (classifyLifecycle (resolveCall call).kind).filter fun descriptor =>
    descriptor.operandIndex < call.operands.length

def transfersHandleOwnership (call : Call) : Bool :=
  match call.kind with
  | .PThreadCreate | .PThreadJoin | .PThreadDetach | .StdThreadCtor | .StdJThreadCtor
  | .StdThreadJoin | .StdThreadDetach | .StdThreadDtor => false
  | _ => !call.isDebugOrMemory

section Functions

variable (function : Function)

def groupOfOperand (call : Call) (index : Nat) : Option String :=
  canonicalStorageGroupId function.id "" (operandOf call index)

structure ResolutionSite where
  point : Point
  handleGroupId : String
  deriving DecidableEq

def resolutionSite (placed : PlacedCall) : Option ResolutionSite :=
  (descriptorOf placed.call).bind fun descriptor =>
    if descriptor.action = .Join ∨ descriptor.action = .Detach then
      (groupOfOperand function placed.call descriptor.operandIndex).map (⟨placed.point, ·⟩)
    else none

def resolutionSites : List ResolutionSite := function.calls.filterMap (resolutionSite function)

-- A move to storage that has no name puts the handle beyond reach.
def groupMovedAway (call : Call) : Option String :=
  (descriptorOf call).bind fun descriptor =>
    descriptor.sourceOperandIndex.bind fun source =>
      if source < call.operands.length ∧ groupOfOperand function call descriptor.operandIndex = none then
        (call.operands[source]?).bind fun operand => canonicalStorageGroupId function.id "" operand.value
      else none

def groupsHandedOver (call : Call) : List String :=
  if transfersHandleOwnership call then
    call.operands.filterMap fun operand =>
      if operand.type = .pointer ∨ (call.isOpaque ∧ operand.type = .integer) then
        canonicalStorageGroupId function.id "" operand.value
      else none
  else []

def escapedGroups : List String :=
  function.calls.flatMap fun placed =>
    (groupMovedAway function placed.call).toList ++ groupsHandedOver function placed.call

-- The search is the compiler library's own: around a block, from one block to another.
variable (isPotentiallyReachable : FlowGraph → Nat → Nat → Nat → Bool)

def coversEveryReturn (create site : Point) : Bool :=
  if site.block = create.block then create.index < site.index
  else
    function.graph.returnBlocks.all fun returnBlock =>
      returnBlock = site.block ||
        !isPotentiallyReachable function.graph create.block returnBlock site.block

def isResolvedOnAllPaths (create : Point) (handleGroupId : String) : Bool :=
  (resolutionSites function).any fun site =>
    site.handleGroupId = handleGroupId &&
      coversEveryReturn function isPotentiallyReachable create site.point

def isCreatedInLoopWithoutInnerResolution (create : Point) (handleGroupId : String) : Bool :=
  match function.loopOf create.block with
  | none => false
  | some createLoop =>
      (resolutionSites function).all fun site =>
        !(site.handleGroupId = handleGroupId && site.point.block ∈ createLoop)

end Functions

section Collect

variable (module : Module)

def detachedValue : Int :=
  if "apple".toList <:+: module.targetTriple.toList ∨ "darwin".toList <:+: module.targetTriple.toList then 2
  else 1

-- The attribute object a call sets to detached.
def groupSetDetached (function : Function) (call : Call) : Option String :=
  match call.operands with
  | attr :: state :: _ =>
      if call.directCallee.any (fun name => "pthread_attr_setdetachstate".toList <:+: name.toList) ∧
          state.constant = some (detachedValue module) then
        canonicalStorageGroupId function.id "" attr.value
      else none
  | _ => none

def collectDetachedAttributeGroups : List String :=
  module.functions.flatMap fun function =>
    function.calls.filterMap fun placed => groupSetDetached module function placed.call

def isDetachedAtCreation (function : Function) (call : Call) : Bool :=
  match call.operands[1]? with
  | none => false
  | some attr =>
      (canonicalStorageGroupId function.id "" attr.value).any fun group =>
        group ∈ collectDetachedAttributeGroups module

deriving instance DecidableEq for ThreadLifecycleFact

-- `detached` only when the creation is one that needs no join.
structure CollectedFact where
  fact : ThreadLifecycleFact
  detached : Bool
  deriving DecidableEq

variable (completions : Finset InstructionId)
variable (isPotentiallyReachable : FlowGraph → Nat → Nat → Nat → Bool)

def createdDetached (function : Function) (call : Call) : Bool :=
  (resolveCall call).kind = .PThreadCreate && isDetachedAtCreation module function call

-- What the path analysis says of a creation.
def creationFact (function : Function) (placed : PlacedCall) (handleGroupId : String)
    (fact : ThreadLifecycleFact) : ThreadLifecycleFact :=
  let detached := createdDetached module function placed.call
  let isCompleted : Bool := placed.call.id ∈ completions
  { fact with
    resolvedOnAllPaths := isCompleted || detached ||
      isResolvedOnAllPaths function isPotentiallyReachable placed.point handleGroupId
    insideLoop := !isCompleted && !detached &&
      isCreatedInLoopWithoutInnerResolution function placed.point handleGroupId
    escapedToUntrackedStorage := handleGroupId ∈ escapedGroups function }

-- No name where the operation has no source, and nothing where the source has no name.
def sourceGroup (function : Function) (call : Call) (descriptor : LifecycleDescriptor) :
    Option (Option String) :=
  match descriptor.sourceOperandIndex with
  | none => some none
  | some source =>
      if source < call.operands.length then (groupOfOperand function call source).map some else none

def isRuntimeOwnedLifecycle (fact : ThreadLifecycleFact) : Bool :=
  "arg:".toList.isPrefixOf fact.handleGroupId.toList && !module.isLikelyUserLocation fact.location

def factOf (function : Function) (placed : PlacedCall) : Option CollectedFact :=
  (descriptorOf placed.call).bind fun descriptor =>
    (groupOfOperand function placed.call descriptor.operandIndex).bind fun handleGroupId =>
      (sourceGroup function placed.call descriptor).bind fun sourceHandleGroupId =>
        let fact : ThreadLifecycleFact := {
          handleKind := descriptor.handleKind
          action := descriptor.action
          handleGroupId := handleGroupId
          sourceHandleGroupId := sourceHandleGroupId
          functionId := function.id
          location := placed.call.userLocation }
        let fact :=
          if descriptor.action = .Create then
            creationFact module completions isPotentiallyReachable function placed handleGroupId fact
          else fact
        if isRuntimeOwnedLifecycle module fact then none
        else some ⟨fact, createdDetached module function placed.call⟩

def detachFact (fact : ThreadLifecycleFact) : ThreadLifecycleFact :=
  { fact with action := .Detach, resolvedOnAllPaths := true, insideLoop := false }

-- The keys taken so far are those of the facts.
def addFact (facts : List ThreadLifecycleFact) (fact : ThreadLifecycleFact) :
    List ThreadLifecycleFact :=
  if lifecycleKey fact ∈ facts.map lifecycleKey then facts else facts ++ [fact]

-- A creation that is already told says nothing of its detachment either.
def addCollected (facts : List ThreadLifecycleFact) (collected : CollectedFact) :
    List ThreadLifecycleFact :=
  if lifecycleKey collected.fact ∈ facts.map lifecycleKey then facts
  else if collected.detached then addFact (facts ++ [collected.fact]) (detachFact collected.fact)
  else facts ++ [collected.fact]

def candidates : List CollectedFact :=
  module.functions.flatMap fun function =>
    function.calls.filterMap (factOf module completions isPotentiallyReachable function)

def collect : List ThreadLifecycleFact :=
  (candidates module completions isPotentiallyReachable).foldl addCollected []

end Collect

end ConcurrencyAnalyzer.ThreadLifecycle
