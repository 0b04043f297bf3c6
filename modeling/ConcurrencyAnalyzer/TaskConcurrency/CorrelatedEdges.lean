import ConcurrencyAnalyzer.Program.ScalarCalls

namespace ConcurrencyAnalyzer.TaskConcurrency

open Program

section Conditions

variable (function : ScalarFunction)

def usesElsewhere (slot : String) : Scalar → Bool
  | .other slots => slot ∈ slots
  | _ => false

def storeTo (slot : String) : Point × Scalar → Option (Point × Operand)
  | (point, .store stored value _) => if stored = slot then some (point, value) else none
  | _ => none

-- The one store of a slot that is loaded from and otherwise left alone.
def onlyStore (slot : String) : Option (Point × Operand) :=
  if function.instructions.any fun entry => usesElsewhere slot entry.2 then none
  else
    match function.instructions.filterMap (storeTo slot) with
    | [only] => some only
    | _ => none

-- A value that one call evaluates alike each time, as far as loops tell.
def settledOperand : Operand → Option Operand
  | .constant width value => some (.constant width value)
  | .argument index => some (.argument index)
  | .result point =>
      match function.instructionAt point with
      | some (.load ..) => none
      | some .loadElsewhere => none
      | some .phi => none
      | some _ => if (function.getLoopFor point.block).isSome then none else some (.result point)
      | none => none

-- The value a condition operand stands for through casts and locals stored once.
def invariantOperand : Nat → Operand → Option Operand
  | 0, value => settledOperand function value
  | _ + 1, .constant width value => some (.constant width value)
  | _ + 1, .argument index => some (.argument index)
  | steps + 1, .result point =>
      match function.instructionAt point with
      | some (.cast _ operand) => invariantOperand steps operand
      | some (.load slot _) =>
          match onlyStore function slot with
          | some only =>
              if function.dominates only.1 point then invariantOperand steps only.2 else none
          | none => none
      | _ => settledOperand function (.result point)

def kOperandSteps : Nat := 8

structure InvariantCondition where
  predicate : Option Predicate
  lhs : Operand
  rhs : Option Operand
  deriving DecidableEq

def icmpOf : Operand → Option (Predicate × Nat × Operand × Operand)
  | .result point =>
      match function.instructionAt point with
      | some (.icmp predicate width lhs rhs) => some (predicate, width, lhs, rhs)
      | _ => none
  | _ => none

-- A condition every evaluation of which in one call is taken to give the same value.
def invariantCondition (block : Nat) : Option InvariantCondition :=
  match function.terminatorOf block with
  | some (.conditional condition _ _) =>
      match icmpOf function condition with
      | none => (invariantOperand function kOperandSteps condition).map fun tested =>
          ⟨none, tested, none⟩
      | some (predicate, _, lhs, rhs) =>
          (invariantOperand function kOperandSteps lhs).bind fun left =>
            (invariantOperand function kOperandSteps rhs).map fun right =>
              ⟨some predicate, left, some right⟩
  | _ => none

def branchSuccessor (block taken : Nat) : Option Nat :=
  match function.terminatorOf block with
  | some (.conditional _ whenTrue whenFalse) => some (if taken = 0 then whenTrue else whenFalse)
  | _ => none

-- The ways that the branches which led to the start took.
def knownConditions (start : Point) : List (InvariantCondition × Nat) :=
  (List.range function.blocks.length).flatMap fun block =>
    match invariantCondition function block with
    | none => []
    | some condition => [0, 1].filterMap fun taken =>
        match branchSuccessor function block taken with
        | some successor =>
            if branchSuccessor function block 0 ≠ branchSuccessor function block 1 ∧
                function.skeleton.edgeDominates block successor start.block then
              some (condition, taken)
            else none
        | none => none

-- The edges taken never to be taken by a thread started there.
def cutCorrelatedEdges (start : Point) : List (Nat × Nat) :=
  (List.range function.blocks.length).flatMap fun block =>
    match invariantCondition function block with
    | none => []
    | some condition => (knownConditions function start).filterMap fun known =>
        if known.1 = condition then
          (branchSuccessor function block (1 - known.2)).map (block, ·)
        else none

end Conditions

section Meaning

variable (function : ScalarFunction)

-- The casts between the value an operand stands for and the operand, the last one first.
def castsOf : Nat → Operand → List Cast
  | steps + 1, .result point =>
      match function.instructionAt point with
      | some (.cast cast operand) => cast :: castsOf steps operand
      | some (.load slot _) =>
          match onlyStore function slot with
          | some only => castsOf steps only.2
          | none => []
      | _ => []
  | _, _ => []

def applyCasts (casts : List Cast) (value : Nat) : Nat := casts.foldr Cast.apply value

-- Whether the locals on the way are read with the width they are written with.
def readsBack : Nat → Operand → Bool
  | steps + 1, .result point =>
      match function.instructionAt point with
      | some (.cast _ operand) => readsBack steps operand
      | some (.load slot width) =>
          match onlyStore function slot with
          | some only =>
              function.instructionAt only.1 = some (.store slot only.2 width) && readsBack steps only.2
          | none => true
      | _ => true
  | _, _ => true

def testedOperands (block : Nat) : List Operand :=
  match function.terminatorOf block with
  | some (.conditional condition _ _) =>
      match icmpOf function condition with
      | none => [condition]
      | some (_, _, lhs, rhs) => [lhs, rhs]
  | _ => []

-- What the key of a branch leaves out: the casts of each operand, and the width they are compared at.
structure LeftOut where
  lhs : List Cast := []
  rhs : List Cast := []
  width : Nat := 0
  deriving DecidableEq

def leftOut (block : Nat) : LeftOut :=
  match function.terminatorOf block with
  | some (.conditional condition _ _) =>
      match icmpOf function condition with
      | none => { lhs := castsOf function kOperandSteps condition }
      | some (_, width, lhs, rhs) =>
          ⟨castsOf function kOperandSteps lhs, castsOf function kOperandSteps rhs, width⟩
  | _ => {}

namespace InvariantCondition

variable (condition : InvariantCondition)

def operands : List Operand := condition.lhs :: condition.rhs.toList

-- What a key tests, at the values its operands have, under some casts.
def test (arguments : Nat → Nat) (state : CallState) (casts : LeftOut) : Option Bool :=
  match condition.predicate, condition.rhs with
  | some predicate, some rhs =>
      (state.value arguments condition.lhs).bind fun left =>
        (state.value arguments rhs).map fun right =>
          predicate.holds casts.width (applyCasts casts.lhs left) (applyCasts casts.rhs right)
  | _, _ => (state.value arguments condition.lhs).map fun value => applyCasts casts.lhs value ≠ 0

end InvariantCondition

-- An instruction that is on a cycle is in a loop that is found.
def InFoundLoop (root : Operand) : Prop :=
  ∀ point, root = .result point → point.block ∈ function.skeleton.reachable →
    function.Leads point.block point.block → (function.getLoopFor point.block).isSome = true

-- What is taken for granted of a branch with a key.
structure Plain (block : Nat) (condition : InvariantCondition) : Prop where
  loops : ∀ root ∈ condition.operands, InFoundLoop function root
  widths : ∀ operand ∈ testedOperands function block, readsBack function kOperandSteps operand = true

end Meaning

end ConcurrencyAnalyzer.TaskConcurrency
