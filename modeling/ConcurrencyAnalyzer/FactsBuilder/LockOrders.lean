import ConcurrencyAnalyzer.LockIds
import ConcurrencyAnalyzer.Library.KeepFirst
import Mathlib.Data.Finset.Card
import Mathlib.Data.Finset.Union

namespace ConcurrencyAnalyzer.FactsBuilder

def kMaxOrdersOnLocksOnlyARecursionNames : Nat := 64

def isOpenLockOrder (order : LockOrderFact) : Bool :=
  namesCallerFrame order.firstLockId || namesCallerFrame order.secondLockId

def lockOrderKey (order : LockOrderFact) : String :=
  order.functionId ++ "|" ++ order.firstLockId ++ "|" ++ order.secondLockId ++ "|" ++
    order.location.file ++ "|" ++ toString order.location.line ++ "|" ++
    toString order.location.column ++
    (if order.lowerAddressFirst then "|lower-address-first" else "") ++
    (if order.boundBySpawn then "|bound-by-spawn" else "")

-- Unites the threads beside two orders with one key. Nothing else of the second is kept.
def uniteThreads (kept order : LockOrderFact) : LockOrderFact :=
  { kept with
    liveEntries := kept.liveEntries ∪ order.liveEntries
    startedEntries := kept.startedEntries ∪ order.startedEntries }

-- `indexByKey` maps each key to the place of the one order with that key, so that the order is found
-- here by its key.
def keepLockOrder (orders : List LockOrderFact) (order : LockOrderFact) : List LockOrderFact :=
  Library.KeepFirst.keep lockOrderKey uniteThreads orders order

-- What `keepLockOrder` returns: whether the orders gained something.
def keepsLockOrder (orders : List LockOrderFact) (order : LockOrderFact) : Bool :=
  match orders.find? (lockOrderKey · = lockOrderKey order) with
  | none => true
  | some kept =>
      let united := uniteThreads kept order
      united.liveEntries.card + united.startedEntries.card ≠
        kept.liveEntries.card + kept.startedEntries.card

-- The locks held at an acquisition that two threads may share as a gate.
def namedLocks (heldLocks : LockSet) : LockSet :=
  heldLocks.filter fun lockId => namesCallerFrame lockId = false

def eraseCallerFrame (order : LockOrderFact) : LockOrderFact :=
  { order with heldLocks := namedLocks order.heldLocks }

def addLockOrder (orders : List LockOrderFact) (order : LockOrderFact) : List LockOrderFact :=
  keepLockOrder orders (eraseCallerFrame order)

-- What a direct call says about the orders its callee leaves open. `passed` is the lock the caller's
-- own names give the argument at a place, where there is one.
structure LockOrderCall where
  callerFunctionId : String
  userLocation : SourceLocation := {}
  passed : Nat → Option String := fun _ => none
  heldAtCall : LockSet := ∅
  calleeEntryLocks : LockSet := ∅
  liveAtCall : ThreadEntrySet := ∅
  startedAtCall : ThreadEntrySet := ∅
  callerInRootTask : Bool := false

def lockAtCall (calleeLockId : String) (call : LockOrderCall) : Option String :=
  match parameterLockPlace calleeLockId with
  | none => some calleeLockId
  | some place =>
      (call.passed place.argumentIndex).map fun passed => lockIdAt (lockIdRoot passed) place.place

def threadsThroughCall (liveEntries startedEntries liveAtCall startedAtCall : ThreadEntrySet) :
    ThreadEntrySet × ThreadEntrySet :=
  let live := liveEntries.filter fun entry => entry ∈ startedEntries ∨ entry ∈ liveAtCall
  (live, live.filter fun entry => entry ∈ startedEntries ∨ entry ∈ startedAtCall)

-- The locks held at an acquisition of the callee, as the caller names them, with its own.
def heldThroughCall (order : LockOrderFact) (call : LockOrderCall) : LockSet :=
  call.heldAtCall ∪ (order.heldLocks.filter (· ≠ kLocksHeldByCaller)).biUnion
    fun lockId => (lockAtCall lockId call).elim ∅ fun held => {held}

-- The locks the order's first one stands for at the call, in the order of a `std::set`.
def firstsAtCall (order : LockOrderFact) (call : LockOrderCall) : List String :=
  if order.firstLockId = kLocksHeldByCaller then
    (sortedNames call.heldAtCall).filter (· ∉ call.calleeEntryLocks) ++ [kLocksHeldByCaller]
  else (lockAtCall order.firstLockId call).toList

def instantiateAtCall (order : LockOrderFact) (call : LockOrderCall) : List LockOrderFact :=
  match lockAtCall order.secondLockId call with
  | none => []
  | some second =>
      let threads := threadsThroughCall order.liveEntries order.startedEntries call.liveAtCall
        call.startedAtCall
      let aliasedByCall := order.firstLockId ≠ kLocksHeldByCaller ∧
        order.firstLockId ≠ order.secondLockId
      ((firstsAtCall order call).filter fun first =>
        ¬(first = second ∧ order.secondIsRecursive) ∧ ¬(first = second ∧ aliasedByCall)).map
          fun first =>
            { functionId := call.callerFunctionId
              firstLockId := first
              secondLockId := second
              location := call.userLocation
              heldLocks := heldThroughCall order call
              inRootTask := call.callerInRootTask
              liveEntries := threads.1
              startedEntries := threads.2
              lowerAddressFirst := order.lowerAddressFirst
              secondIsRecursive := order.secondIsRecursive }

end ConcurrencyAnalyzer.FactsBuilder
