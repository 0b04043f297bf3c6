import ConcurrencyAnalyzer.Library.KeepFirst
import ConcurrencyAnalyzer.LockState.HeldFlow
import ConcurrencyAnalyzer.Program.Scalar

namespace ConcurrencyAnalyzer.Program.Predicate

def isRelational : Predicate → Bool
  | .ICMP_EQ | .ICMP_NE => false
  | _ => true

def swapped : Predicate → Predicate
  | .ICMP_EQ => .ICMP_EQ
  | .ICMP_NE => .ICMP_NE
  | .ICMP_UGT => .ICMP_ULT
  | .ICMP_UGE => .ICMP_ULE
  | .ICMP_ULT => .ICMP_UGT
  | .ICMP_ULE => .ICMP_UGE
  | .ICMP_SGT => .ICMP_SLT
  | .ICMP_SGE => .ICMP_SLE
  | .ICMP_SLT => .ICMP_SGT
  | .ICMP_SLE => .ICMP_SGE

def isLT : Predicate → Bool
  | .ICMP_ULT | .ICMP_SLT => true
  | _ => false

def isLE : Predicate → Bool
  | .ICMP_ULE | .ICMP_SLE => true
  | _ => false

end ConcurrencyAnalyzer.Program.Predicate

namespace ConcurrencyAnalyzer.LockOrder

open Program LockState Library

-- What a conditional branch compares, conversions of a pointer to an integer stripped.
structure AddressComparison where
  predicate : Predicate
  lhs : Pointer
  rhs : Pointer
  deriving DecidableEq

-- An instruction by its block and its place in it.
abbrev OrderSite := Nat × Nat

-- What the orders of a function are collected from. The comparison of a block is that of the branch
-- it ends with.
structure OrderSource where
  function : Function
  initialHeldLocks : LockSet := ∅
  liveEntriesByInstruction : OrderSite → ThreadEntrySet := fun _ => ∅
  startedEntriesByInstruction : OrderSite → ThreadEntrySet := fun _ => ∅
  spawnedThread : Bool := false
  userLocation : OrderSite → SourceLocation := fun _ => {}
  comparisonOf : Nat → Option AddressComparison := fun _ => none

structure LockOrderCollector where
  summaries : LockWrapperSummaries := fun _ => none
  sharedObjects : SharedObjectBindings := []
  designatesRecursiveLockType : Pointer → Bool := fun _ => false

-- An order with the acquisitions it stands for.
structure RecordedOrder where
  fact : LockOrderFact
  sites : List OrderSite
  deriving DecidableEq

def orderKey (fact : LockOrderFact) : String :=
  fact.functionId ++ "|" ++ fact.firstLockId ++ "|" ++ fact.secondLockId ++ "|" ++
    fact.location.file ++ "|" ++ toString fact.location.line ++ "|" ++
    toString fact.location.column

def RecordedOrder.key (order : RecordedOrder) : String := orderKey order.fact

def addSites (first order : RecordedOrder) : RecordedOrder :=
  { first with sites := first.sites ++ order.sites.filter (· ∉ first.sites) }

def keepOrder : List RecordedOrder → RecordedOrder → List RecordedOrder :=
  KeepFirst.keep RecordedOrder.key addSites

def gatesAmong (heldLocks : LockSet) (sharedObject : Option SharedObjectBinding) : LockSet :=
  match sharedObject with
  | none => heldLocks
  | some binding =>
      if !binding.keptForLackOfProof then heldLocks
      else heldLocks.filter fun lockId => (lockIdRoot lockId).symbol ≠ binding.object.symbol

def resolveBaseObject (value : Pointer) : Option PathRoot :=
  (resolveCopiedValue false {} value).map (·.1)

namespace LockOrderCollector

variable (collector : LockOrderCollector) (source : OrderSource)

-- An object is kept here even for lack of proof.
def sharedObject : Option SharedObjectBinding :=
  ((collector.sharedObjects.find? (·.1 = source.function.id)).map (·.2)).filter fun binding =>
    source.spawnedThread || !binding.runByDirectCalls

def effectResolver : SynchronizationEffectResolver where
  functionId := source.function.id
  summaries := collector.summaries
  sharedObject := collector.sharedObject source
  localObjects := sharedObjectNames collector.sharedObjects .Local
  nameParameterFieldLocks := true
  designatesRecursiveLockType := collector.designatesRecursiveLockType

def changeAt (instruction : Instruction) : LockStateChange :=
  lockStateChangeFor (collector.effectResolver source) source.function instruction

def heldFlow : HeldFlow where
  function := source.function
  changeAt := collector.changeAt source
  initial := insert kLocksHeldByCaller source.initialHeldLocks

def orderAt (site : OrderSite) (change : LockStateChange) (held : LockSet)
    (acquired heldLock : String) : RecordedOrder where
  fact :=
    { functionId := source.function.id
      firstLockId := heldLock
      secondLockId := acquired
      location := source.userLocation site
      heldLocks := gatesAmong held (collector.sharedObject source)
      liveEntries := source.liveEntriesByInstruction site
      startedEntries := source.startedEntriesByInstruction site
      secondIsRecursive := acquired ∈ change.recursivelyAcquirable }
  sites := [site]

-- The orders an instruction takes, where it is reached with some locks held.
def ordersAt (site : OrderSite) (held : LockSet) : List RecordedOrder :=
  match source.function.instructionAt site.1 site.2 with
  | none => []
  | some instruction =>
      let change := collector.changeAt source instruction
      let current := held \ change.released.toFinset
      change.orderedAcquired.flatMap fun acquired =>
        (sortedNames current).map (collector.orderAt source site change current acquired)

-- The orders a block takes, where it is entered with some locks held.
def ordersIn (block : Nat) (held : LockSet) : List RecordedOrder :=
  match source.function.blocks[block]? with
  | none => []
  | some found =>
      (List.range found.instructions.length).flatMap fun index =>
        collector.ordersAt source (block, index)
          ((collector.heldFlow source).heldPast found index held)

def recordOrders (block : Nat) (held : LockSet) (orders : List RecordedOrder) :
    List RecordedOrder :=
  (collector.ordersIn source block held).foldl keepOrder orders

-- The loop `while (changed)`, which writes orders down in every round.
def recordedOrders : List RecordedOrder :=
  ((collector.heldFlow source).dataflow.solveNoting (collector.recordOrders source)
    (collector.heldFlow source).rounds []).2

-- The object holding a lock that the instruction at a site acquires.
def lockedObject (site : OrderSite) (lockId : String) : Option PathRoot :=
  (source.function.instructionAt site.1 site.2).bind fun instruction =>
    ((callArguments instruction).find? fun operand =>
      (collector.effectResolver source).lockIdOf operand = some lockId).bind resolveBaseObject

def allFollow (start finish : Nat) (sites : List OrderSite) : Bool :=
  sites.all fun site => source.function.edgeDominates start finish site.1

-- Whether the branch of a block takes the orders of `forward` only where the object of their first
-- lock is at the lower address, and those of `backward` only where it is not.
def branchOrders (forward backward : List OrderSite) (firstObject secondObject : PathRoot)
    (block : Nat) : Bool :=
  match source.comparisonOf block, source.function.successors block with
  | some comparison, [whenTrue, whenFalse] =>
      let lhs := resolveBaseObject comparison.lhs
      let rhs := resolveBaseObject comparison.rhs
      let straight := lhs = some firstObject && rhs = some secondObject
      let swapped := lhs = some secondObject && rhs = some firstObject
      if !comparison.predicate.isRelational || straight = swapped then false
      else
        let predicate := if straight then comparison.predicate else comparison.predicate.swapped
        let firstLowerWhenTrue := predicate.isLT || predicate.isLE
        let firstLower := if firstLowerWhenTrue then whenTrue else whenFalse
        let secondLower := if firstLowerWhenTrue then whenFalse else whenTrue
        allFollow source block firstLower forward && allFollow source block secondLower backward
  | _, _ => false

def ordersLowerAddressFirst (forward backward : List OrderSite) (first second : String) : Bool :=
  match backward.head?.bind (collector.lockedObject source · first),
      forward.head?.bind (collector.lockedObject source · second) with
  | some firstObject, some secondObject =>
      (List.range source.function.blocks.length).any
        (branchOrders source forward backward firstObject secondObject)
  | _, _ => false

def opposite (lhs rhs : LockOrderFact) : Bool :=
  lhs.firstLockId = rhs.secondLockId && lhs.secondLockId = rhs.firstLockId

-- Whether two orders, the one recorded first given first, are told apart by the addresses.
def chosenByAddress (lhs rhs : RecordedOrder) : Bool :=
  opposite lhs.fact rhs.fact &&
    collector.ordersLowerAddressFirst source lhs.sites rhs.sites lhs.fact.firstLockId
      lhs.fact.secondLockId

def markedOrder (orders : List RecordedOrder) (order : RecordedOrder × Nat) : LockOrderFact :=
  { order.1.fact with
    lowerAddressFirst := orders.zipIdx.any fun other =>
      (order.2 < other.2 && collector.chosenByAddress source order.1 other.1) ||
        (other.2 < order.2 && collector.chosenByAddress source other.1 order.1) }

def collect : List LockOrderFact :=
  let orders := collector.recordedOrders source
  orders.zipIdx.map (collector.markedOrder source orders)

end LockOrderCollector

end ConcurrencyAnalyzer.LockOrder
