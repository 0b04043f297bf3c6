import ConcurrencyAnalyzer.Program.Dominance
import ConcurrencyAnalyzer.Program.FlowGraph
import Mathlib.Algebra.Group.Int.Defs

namespace ConcurrencyAnalyzer.Program

-- `Reinterpret` is any cast that leaves the bits as they are.
inductive CastOp where
  | Trunc
  | ZExt
  | SExt
  | Reinterpret
  deriving DecidableEq, Repr

-- A cast between values of some bits.
structure Cast where
  op : CastOp
  source : Nat := 64
  target : Nat := 64
  deriving DecidableEq, Repr

def Cast.apply (cast : Cast) (value : Nat) : Nat :=
  match cast.op with
  | .Trunc => value % 2 ^ cast.target
  | .ZExt => value
  | .SExt =>
      if value < 2 ^ (cast.source - 1) then value else value + (2 ^ cast.target - 2 ^ cast.source)
  | .Reinterpret => value

inductive Predicate where
  | ICMP_EQ
  | ICMP_NE
  | ICMP_UGT
  | ICMP_UGE
  | ICMP_ULT
  | ICMP_ULE
  | ICMP_SGT
  | ICMP_SGE
  | ICMP_SLT
  | ICMP_SLE
  deriving DecidableEq, Repr

-- The number that a value of some bits is, with and without a sign.
def signedValue (width value : Nat) : Int := Int.bmod value (2 ^ width)

def unsignedValue (width value : Nat) : Nat := value % 2 ^ width

-- Whether it holds of two numbers of as many bits.
def Predicate.compares {width : Nat} (lhs rhs : BitVec width) : Predicate → Bool
  | .ICMP_EQ => lhs = rhs
  | .ICMP_NE => lhs ≠ rhs
  | .ICMP_UGT => rhs.ult lhs
  | .ICMP_UGE => rhs.ule lhs
  | .ICMP_ULT => lhs.ult rhs
  | .ICMP_ULE => lhs.ule rhs
  | .ICMP_SGT => rhs.slt lhs
  | .ICMP_SGE => rhs.sle lhs
  | .ICMP_SLT => lhs.slt rhs
  | .ICMP_SLE => lhs.sle rhs

def Predicate.holds (width : Nat) (predicate : Predicate) (lhs rhs : Nat) : Bool :=
  predicate.compares (BitVec.ofNat width lhs) (BitVec.ofNat width rhs)

-- A constant of a type, an argument, or the result of an instruction.
inductive Operand where
  | constant (width value : Nat)
  | argument (index : Nat)
  | result (point : Point)
  deriving DecidableEq

-- What a function does to scalars. A slot is a local variable, a load or store of it goes straight to
-- its address, and `other` is any other instruction, with the slots whose addresses it uses.
inductive Scalar where
  | load (slot : String) (width : Nat)
  | loadElsewhere
  | store (slot : String) (value : Operand) (width : Nat)
  | cast (cast : Cast) (value : Operand)
  | icmp (predicate : Predicate) (width : Nat) (lhs rhs : Operand)
  | add (width : Nat) (lhs rhs : Operand)
  | element (base index : Operand) (size : Nat)
  | phi
  | other (slots : List String)
  deriving DecidableEq

inductive Terminator where
  | ret
  | conditional (condition : Operand) (whenTrue whenFalse : Nat)
  | unconditional (targets : List Nat)
  deriving DecidableEq

def Terminator.successors : Terminator → List Nat
  | .ret => []
  | .conditional _ whenTrue whenFalse => [whenTrue, whenFalse]
  | .unconditional targets => targets

structure ScalarBlock where
  body : List Scalar
  terminator : Terminator
  deriving DecidableEq

structure ScalarFunction where
  blocks : List ScalarBlock
  entryExists : 0 < blocks.length := by decide
  successorsExist : ∀ block ∈ blocks, ∀ successor ∈ block.terminator.successors,
    successor < blocks.length := by decide

namespace ScalarFunction

variable (function : ScalarFunction)

def instructionAt (point : Point) : Option Scalar :=
  function.blocks[point.block]?.bind fun found => found.body[point.index]?

def terminatorOf (block : Nat) : Option Terminator := function.blocks[block]?.map (·.terminator)

def successors (block : Nat) : List Nat :=
  ((function.terminatorOf block).map Terminator.successors).getD []

-- The function as the walks over its blocks see it.
def skeleton : Function where
  id := ""
  blocks := function.blocks.map fun block => {
    instructions := block.body.map fun _ => .other
    successors := block.terminator.successors }
  entryExists := by
    rw [List.length_map]
    exact function.entryExists
  successorsExist := by
    intro block hblock successor hsuccessor
    obtain ⟨found, hfound, rfl⟩ := List.mem_map.mp hblock
    rw [List.length_map]
    exact function.successorsExist found hfound successor hsuccessor

-- The instructions, each with its place.
def instructions : List (Point × Scalar) :=
  function.blocks.zipIdx.flatMap fun (found, block) =>
    found.body.zipIdx.map fun (instruction, index) => (⟨block, index⟩, instruction)

-- An instruction dominates one after it in its block, and those of the blocks its block dominates.
def dominates (first second : Point) : Bool :=
  if first.block = second.block then first.index < second.index
  else function.skeleton.blockDominates first.block second.block

def reachesPast (stop block other : Nat) : Bool :=
  other ∈ Library.Search.search (function.skeleton.successorsPast stop) (fun _ => true)
    (function.blocks.length + 1) {block} [block]

-- An edge back to a block that dominates the one it leaves.
def isBackEdge (latch header : Nat) : Bool :=
  header ∈ function.successors latch && decide (latch ∈ function.skeleton.reachable) &&
    function.skeleton.blockDominates header latch

-- Whether a block is in the natural loop of a header: it is the header, or gets to the end of a back
-- edge without passing it.
def inLoopOf (header block : Nat) : Bool :=
  decide (block ∈ function.skeleton.reachable) &&
    (List.range function.blocks.length).any fun latch =>
      function.isBackEdge latch header &&
        (block = header || (latch ≠ header && function.reachesPast header block latch))

def getLoopFor (block : Nat) : Option Nat :=
  (List.range function.blocks.length).find? (function.inLoopOf · block)

end ScalarFunction

-- A call in progress: where it is, what its instructions gave last, what its slots hold, each with its
-- width, and the slots whose address has been handed out.
structure CallState where
  place : Point
  results : Point → Option Nat
  slots : String → Option (Nat × Nat)
  exposed : List String

inductive CallEvent where
  | ran (point : Point)
  | branched (block taken target : Nat)
  | went (block target : Nat)
  deriving DecidableEq

section Calls

variable (function : ScalarFunction) (arguments : Nat → Nat)

def CallState.value (arguments : Nat → Nat) (state : CallState) : Operand → Option Nat
  | .constant _ value => some value
  | .argument index => some (arguments index)
  | .result point => state.results point

-- The index of an element, of the bits of an address. A constant that is narrower is read with its sign.
def CallState.index (arguments : Nat → Nat) (state : CallState) : Operand → Option Int
  | .constant width value => some (signedValue width value)
  | operand => (state.value arguments operand).map Int.ofNat

-- What an instruction may give. A load of what was stored with another width may give anything, and
-- so may one of a slot whose address was handed out, which anyone may have written to.
def CallState.Gives (arguments : Nat → Nat) (state : CallState) : Scalar → Nat → Prop
  | .load slot width, value => slot ∉ state.exposed →
      ∀ stored, state.slots slot = some (stored, width) → value = stored
  | .cast op operand, value => ∃ given, state.value arguments operand = some given ∧ value = op.apply given
  | .icmp predicate width lhs rhs, value => ∃ left right,
      state.value arguments lhs = some left ∧ state.value arguments rhs = some right ∧
        value = if predicate.holds width left right then 1 else 0
  | .add width lhs rhs, value => ∃ left right, state.value arguments lhs = some left ∧
      state.value arguments rhs = some right ∧ value = (left + right) % 2 ^ width
  | .element base index size, value => ∃ (address : Nat) (count : Int),
      state.value arguments base = some address ∧ state.index arguments index = some count ∧
        value = ((address + count * size) % 2 ^ 64).toNat
  | .store .., _ => False
  | .loadElsewhere, _ => True
  | .phi, _ => True
  | .other _, _ => True

def CallState.initial : CallState := ⟨⟨0, 0⟩, fun _ => none, fun _ => none, []⟩

def Scalar.exposes : Scalar → List String
  | .other slots => slots
  | _ => []

inductive CallStep : CallState → CallEvent → CallState → Prop
  | gives {state instruction value} : function.instructionAt state.place = some instruction →
      state.Gives arguments instruction value →
      CallStep state (.ran state.place) { state with
        place := ⟨state.place.block, state.place.index + 1⟩
        results := Function.update state.results state.place (some value)
        exposed := instruction.exposes ++ state.exposed }
  | stores {state slot operand width value} :
      function.instructionAt state.place = some (.store slot operand width) →
      state.value arguments operand = some value →
      CallStep state (.ran state.place) { state with
        place := ⟨state.place.block, state.place.index + 1⟩
        slots := Function.update state.slots slot (some (value, width)) }
  | branches {state found condition whenTrue whenFalse value} :
      function.blocks[state.place.block]? = some found →
      state.place.index = found.body.length →
      found.terminator = .conditional condition whenTrue whenFalse →
      state.value arguments condition = some value →
      CallStep state
        (.branched state.place.block (if value ≠ 0 then 0 else 1)
          (if value ≠ 0 then whenTrue else whenFalse))
        { state with place := ⟨if value ≠ 0 then whenTrue else whenFalse, 0⟩ }
  | goes {state found targets target} : function.blocks[state.place.block]? = some found →
      state.place.index = found.body.length → found.terminator = .unconditional targets →
      target ∈ targets →
      CallStep state (.went state.place.block target) { state with place := ⟨target, 0⟩ }

-- A single call of the function, with what has happened in it.
inductive CallRun : List CallEvent → CallState → Prop
  | enter : CallRun [] .initial
  | step {events state event next} : CallRun events state →
      CallStep function arguments state event next → CallRun (events ++ [event]) next

end Calls

end ConcurrencyAnalyzer.Program
