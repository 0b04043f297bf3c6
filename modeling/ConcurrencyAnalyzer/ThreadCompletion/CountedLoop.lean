import ConcurrencyAnalyzer.Facts
import ConcurrencyAnalyzer.Program.ScalarLoops
import ConcurrencyAnalyzer.TaskConcurrency.CorrelatedEdges
import ConcurrencyAnalyzer.ThreadCompletion.SlotRanges

namespace ConcurrencyAnalyzer.ThreadCompletion

open Program
open Slots (SlotRange checkedAdd checkedSub quotient)

section Values

variable (function : ScalarFunction)

abbrev uniqueStore (slot : String) : Option (Point × Operand) :=
  TaskConcurrency.onlyStore function slot

-- As many casts as there are instructions are stripped at most.
def stripIntegerCasts : Nat → Operand → Operand
  | steps + 1, .result point =>
      match function.instructionAt point with
      | some (.cast ⟨.ZExt, _, _⟩ operand) => stripIntegerCasts steps operand
      | some (.cast ⟨.SExt, _, _⟩ operand) => stripIntegerCasts steps operand
      | _ => .result point
  | _, value => value

-- The value that the only store of a local loaded from wrote.
def storedOnce (value : Operand) : Option Operand :=
  match value with
  | .result point =>
      match function.instructionAt point with
      | some (.load slot _) => (uniqueStore function slot).map Prod.snd
      | _ => none
  | _ => none

-- Only local copies that are written once are followed. Nothing where they lead around a cycle.
def followCopies : Nat → List Operand → Operand → Option Operand
  | 0, _, _ => none
  | steps + 1, visited, value =>
      if value ∈ visited then none
      else
        let stripped := stripIntegerCasts function function.instructions.length value
        match storedOnce function stripped with
        | none => some stripped
        | some stored => followCopies steps (value :: visited) stored

def invariantValue (value : Operand) : Option Operand :=
  followCopies function (function.instructions.length + 2) [] value

-- The value a load reads from a local written once, through such locals.
def followLocals : Nat → List Operand → Operand → Operand
  | 0, _, value => value
  | steps + 1, seen, value =>
      if value ∈ seen then value
      else
        match storedOnce function value with
        | none => value
        | some stored => followLocals steps (value :: seen) stored

def throughSingleStoreLocals (value : Operand) : Operand :=
  followLocals function (function.instructions.length + 2) [] value

end Values

section Addresses

variable (function : ScalarFunction)

-- An address: some bytes past an object, and an index that varies, with the bytes each step of it takes.
structure SlotAddress where
  object : Operand
  offset : Slots.Int64 := .wrapped 0
  index : Option (Operand × Int) := none
  deriving DecidableEq

-- Reads an address through its chain of element addresses, as many as there are instructions at most.
def elementsOf : Nat → SlotAddress → Option SlotAddress
  | 0, address => some address
  | steps + 1, address =>
      match address.object with
      | .result point =>
          match function.instructionAt point with
          | some (.cast ⟨.Reinterpret, _, _⟩ operand) => elementsOf steps { address with object := operand }
          | some (.element base (.constant width value) size) =>
              (checkedAdd address.offset (.wrapped (signedValue width value * size))).bind fun offset =>
                elementsOf steps { address with object := base, offset := offset }
          | some (.element base index size) =>
              if address.index.isSome then none
              else elementsOf steps { address with object := base, index := some (index, size) }
          | _ => some address
      | _ => some address

def slotAddress (pointer : Operand) : Option SlotAddress :=
  elementsOf function (function.instructions.length + 1) { object := pointer }

-- An address whose object is an address itself, read as one.
def joinAddresses (address inner : SlotAddress) : Option SlotAddress :=
  (checkedAdd inner.offset address.offset).bind fun offset =>
    if inner.index.isSome && address.index.isSome then none
    else some ⟨inner.object, offset, address.index.or inner.index⟩

def objectThroughLocals : Nat → SlotAddress → Option SlotAddress
  | 0, address => some address
  | steps + 1, address =>
      let object := throughSingleStoreLocals function address.object
      if object = address.object then some address
      else ((slotAddress function object).bind (joinAddresses address)).bind (objectThroughLocals steps)

def slotAddressThroughLocals (pointer : Operand) : Option SlotAddress :=
  (slotAddress function (throughSingleStoreLocals function pointer)).bind (objectThroughLocals function 4)

end Addresses

section Loops

variable (function : ScalarFunction) (header : Nat)

-- The comparison a header branches on, into the loop where it holds and out of it where it does not.
structure LoopTest where
  compare : Point
  predicate : Predicate
  width : Nat
  lhs : Operand
  rhs : Operand
  inside : Nat
  exit : Nat

def loopTest : Option LoopTest :=
  match function.terminatorOf header with
  | some (.conditional (.result compare) inside exit) =>
      match function.instructionAt compare with
      | some (.icmp predicate width lhs rhs) =>
          if function.inLoopOf header inside && !function.inLoopOf header exit then
            some ⟨compare, predicate, width, lhs, rhs, inside, exit⟩
          else none
      | _ => none
  | _ => none

def loadOf : Operand → Option (Point × String)
  | .result point =>
      match function.instructionAt point with
      | some (.load slot _) => some (point, slot)
      | _ => none
  | _ => none

-- The local a test reads, with its one store outside the loop and its one store inside.
structure SlotWrites where
  current : Point
  slot : String
  initial : Point × Operand
  advance : Point × Operand

def slotWrites (test : LoopTest) : Option SlotWrites :=
  (loadOf function test.lhs).bind fun (current, slot) =>
    if function.instructions.any fun entry => TaskConcurrency.usesElsewhere slot entry.2 then none
    else
      let stores := function.instructions.filterMap (TaskConcurrency.storeTo slot)
      match stores.filter (!function.inLoopOf header ·.1.block),
          stores.filter (function.inLoopOf header ·.1.block) with
      | [initial], [advance] =>
          if function.dominates initial.1 (function.endOf header) then
            some ⟨current, slot, initial, advance⟩
          else none
      | _, _ => none

-- The load of a local that a value is computed from, where that is the local plus one.
def raisesByOne (slot : String) : Operand → Option Point
  | .result step =>
      match function.instructionAt step with
      | some (.add _ old (.constant _ 1)) =>
          ((loadOf function old).filter (·.2 = slot)).map Prod.fst
      | _ => none
  | _ => none

def isLoadElsewhere : Operand → Bool
  | .result point => function.instructionAt point = some .loadElsewhere
  | _ => false

structure CountedLoop where
  induction : String
  begin : Operand
  finish : Operand
  predicate : Predicate
  increment : Point
  deriving DecidableEq

-- A local written more than once passes as the bound.
def countedLoop : Option CountedLoop :=
  (loopTest function header).bind fun test =>
    (function.getLoopLatch header).bind fun latch =>
      if test.predicate ≠ .ICMP_SLT ∧ test.predicate ≠ .ICMP_ULT then none
      else
        (slotWrites function header test).bind fun writes =>
          if function.dominates writes.advance.1 (function.endOf latch) &&
              (raisesByOne function writes.slot writes.advance.2).isSome then
            (invariantValue function writes.initial.2).bind fun begin =>
              (invariantValue function test.rhs).bind fun finish =>
                if isLoadElsewhere function finish then none
                else some ⟨writes.slot, begin, finish, test.predicate, writes.advance.1⟩
          else none

-- The load of a local that a value is computed from, where that is the local moved one element on, with
-- the bytes of an element.
def movesByOne (slot : String) : Operand → Option (Point × Nat)
  | .result step =>
      match function.instructionAt step with
      | some (.element old (.constant _ 1) size) =>
          ((loadOf function old).filter (·.2 = slot)).map fun moved => (moved.1, size)
      | _ => none
  | _ => none

-- The advance need not run every round.
def pointerSlots (element : Operand) : Option (SlotRange Operand) :=
  (loopTest function header).bind fun test =>
    (function.getLoopLatch header).bind fun _ =>
      if test.predicate ≠ .ICMP_NE then none
      else
        (slotWrites function header test).bind fun writes =>
          (movesByOne function writes.slot writes.advance.2).bind fun (_, size) =>
            (slotAddressThroughLocals function writes.initial.2).bind fun first =>
              (slotAddressThroughLocals function test.rhs).bind fun last =>
                let stride := Slots.Int64.wrapped size
                if hstride : stride.number ≤ 0 then none
                else if first.index.isSome ∨ last.index.isSome ∨ first.object ≠ last.object then none
                else
                  (checkedSub last.offset first.offset).bind fun span =>
                    if span.number < 0 ∨ span.number.tmod stride.number ≠ 0 then none
                    else
                      (loadOf function (throughSingleStoreLocals function element)).bind
                        fun (read, slot) =>
                          if slot = writes.slot ∧ function.dominates read writes.advance.1 then
                            (quotient span stride).map fun count =>
                              { array := first.object
                                origin := first.offset
                                stride := stride
                                begin := { index := some (.wrapped 0) }
                                finish := { index := some count }
                                predicate := .BAD_ICMP_PREDICATE
                                strideNonneg := Int.le_of_lt (Int.not_le.mp hstride) }
                          else none

end Loops

end ConcurrencyAnalyzer.ThreadCompletion
