import ConcurrencyAnalyzer.FactsBuilder.LockOrders
import ConcurrencyAnalyzer.Library.Components
import Mathlib.Logic.Function.Basic

namespace ConcurrencyAnalyzer.FactsBuilder

-- `indexByKey` is read off the orders.
structure OpenLockOrders where
  orders : List LockOrderFact := []
  lockIdsOutsideRecursion : Finset String := ∅
  ordersOnLocksOnlyARecursionNames : Nat := 0

def namedOutsideRecursion (leftOpen : OpenLockOrders) (order : LockOrderFact) : Bool :=
  order.firstLockId ∈ leftOpen.lockIdsOutsideRecursion &&
    order.secondLockId ∈ leftOpen.lockIdsOutsideRecursion

-- The open orders after one more, and whether they gained something.
def addOpenLockOrder (leftOpen : OpenLockOrders) (order : LockOrderFact) (throughRecursion : Bool) :
    OpenLockOrders × Bool :=
  let orders := keepLockOrder leftOpen.orders order
  let gained := keepsLockOrder leftOpen.orders order
  if !throughRecursion then
    ({ leftOpen with
        orders := orders
        lockIdsOutsideRecursion :=
          insert order.secondLockId (insert order.firstLockId leftOpen.lockIdsOutsideRecursion) },
      gained)
  else if namedOutsideRecursion leftOpen order then
    ({ leftOpen with orders := orders }, gained)
  else if kMaxOrdersOnLocksOnlyARecursionNames ≤ leftOpen.ordersOnLocksOnlyARecursionNames then
    (leftOpen, false)
  else
    ({ leftOpen with
        orders := orders
        ordersOnLocksOnlyARecursionNames :=
          leftOpen.ordersOnLocksOnlyARecursionNames + (orders.length - leftOpen.orders.length) },
      gained)

-- A direct call whose caller takes over the orders of its callee. `runsItsOrders` says that some run
-- of the caller is not the thread spawned on its object, whose orders are taken apart.
structure OrderCall where
  calleeFunctionId : String
  call : LockOrderCall
  runsItsOrders : Bool := true

-- `judgedAtCalls` tells the closed orders that are left to the calls of their function.
structure LockOrderModule where
  calls : List OrderCall
  collected : List LockOrderFact
  judgedAtCalls : LockOrderFact → Bool := fun _ => false

namespace LockOrderModule

def arcs (module : LockOrderModule) : List (String × String) :=
  module.calls.map fun site => (site.call.callerFunctionId, site.calleeFunctionId)

-- The caller and the callee share a component of the calls, which the source tells from the components
-- that Tarjan's algorithm numbers.
def closesCycle (module : LockOrderModule) (site : OrderCall) : Bool :=
  site.call.callerFunctionId ∈ Library.Components.reach module.arcs site.calleeFunctionId

def ordersJudgedAtCalls (module : LockOrderModule) (functionId : String) : List LockOrderFact :=
  module.collected.filter fun order =>
    order.functionId = functionId && !isOpenLockOrder order && module.judgedAtCalls order

end LockOrderModule

abbrev OpenByFunction := String → OpenLockOrders

-- An open order on its way to the function it names.
structure Arrival where
  order : LockOrderFact
  throughRecursion : Bool

structure RoundState where
  openLockOrders : OpenByFunction := fun _ => {}
  lockOrdersChanged : Bool := false

def RoundState.receive (state : RoundState) (arrival : Arrival) : RoundState :=
  let functionId := arrival.order.functionId
  let added := addOpenLockOrder (state.openLockOrders functionId) arrival.order
    arrival.throughRecursion
  { openLockOrders := Function.update state.openLockOrders functionId added.1
    lockOrdersChanged := added.2 || state.lockOrdersChanged }

namespace LockOrderModule

-- What a call brings its caller, out of a copy of the orders of its callee.
def arrivalsAtCall (module : LockOrderModule) (openLockOrders : OpenByFunction) (site : OrderCall) :
    List Arrival :=
  if site.runsItsOrders then
    let calleeOrders := (openLockOrders site.calleeFunctionId).orders ++
      module.ordersJudgedAtCalls site.calleeFunctionId
    ((calleeOrders.flatMap (instantiateAtCall · site.call)).filter isOpenLockOrder).map fun order =>
      ⟨order, module.closesCycle site⟩
  else []

def arrivalsOfCalls (module : LockOrderModule) : List OrderCall → RoundState → List Arrival
  | [], _ => []
  | site :: sites, state =>
      let arrivals := module.arrivalsAtCall state.openLockOrders site
      arrivals ++ module.arrivalsOfCalls sites (arrivals.foldl RoundState.receive state)

-- The orders each function takes itself.
def ownArrivals (module : LockOrderModule) : List Arrival :=
  (module.collected.filter isOpenLockOrder).map fun order => ⟨order, false⟩

def start (module : LockOrderModule) : OpenByFunction :=
  (module.ownArrivals.foldl RoundState.receive {}).openLockOrders

def round (module : LockOrderModule) (openLockOrders : OpenByFunction) : RoundState :=
  let state : RoundState := { openLockOrders := openLockOrders }
  (module.arrivalsOfCalls module.calls state).foldl RoundState.receive state

-- The loop, given up after `fuel` rounds.
def propagate (module : LockOrderModule) : Nat → OpenByFunction → Option OpenByFunction
  | 0, _ => none
  | fuel + 1, openLockOrders =>
      let state := module.round openLockOrders
      if state.lockOrdersChanged then module.propagate fuel state.openLockOrders
      else some state.openLockOrders

def after (module : LockOrderModule) : Nat → OpenByFunction
  | 0 => module.start
  | rounds + 1 => (module.round (module.after rounds)).openLockOrders

-- Everything that arrived in so many rounds.
def arrivals (module : LockOrderModule) : Nat → List Arrival
  | 0 => module.ownArrivals
  | rounds + 1 => module.arrivals rounds ++
      module.arrivalsOfCalls module.calls { openLockOrders := module.after rounds }

-- The open orders that calls of a kind yield, one call after the other.
inductive Derivable (module : LockOrderModule) (Followed : OrderCall → Prop) : LockOrderFact → Prop
  | own {order : LockOrderFact} (h : order ∈ module.collected) (hopen : isOpenLockOrder order) :
      Derivable module Followed order
  | atCall {order instantiated : LockOrderFact} {site : OrderCall}
      (h : Derivable module Followed order) (hsite : site ∈ module.calls) (hfollowed : Followed site)
      (hruns : site.runsItsOrders) (hcallee : order.functionId = site.calleeFunctionId)
      (hinstance : instantiated ∈ instantiateAtCall order site.call)
      (hopen : isOpenLockOrder instantiated) : Derivable module Followed instantiated

end LockOrderModule

-- Whether a call that closes a cycle brings a new order on a lock not yet named outside a recursion,
-- and the order is let in.
def admitsThroughRecursion (leftOpen : OpenLockOrders) (arrival : Arrival) : Bool :=
  arrival.throughRecursion && !namedOutsideRecursion leftOpen arrival.order &&
    leftOpen.orders.length <
      (addOpenLockOrder leftOpen arrival.order arrival.throughRecursion).1.orders.length

-- How many such orders a function lets in out of what arrives.
def admittedThroughRecursion (functionId : String) : RoundState → List Arrival → Nat
  | _, [] => 0
  | state, arrival :: arrivals =>
      (if arrival.order.functionId = functionId &&
          admitsThroughRecursion (state.openLockOrders functionId) arrival then 1 else 0) +
        admittedThroughRecursion functionId (state.receive arrival) arrivals

end ConcurrencyAnalyzer.FactsBuilder
