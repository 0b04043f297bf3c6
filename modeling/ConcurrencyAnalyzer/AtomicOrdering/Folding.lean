import ConcurrencyAnalyzer.LockState.Effects
import ConcurrencyAnalyzer.Program.Scalar

namespace ConcurrencyAnalyzer.AtomicOrdering

open Program

structure APInt where
  width : Nat
  bits : BitVec width
  deriving DecidableEq

namespace APInt

def ofNat (width value : Nat) : APInt := ⟨width, BitVec.ofNat width value⟩

def zextOrTrunc (width : Nat) (value : APInt) : APInt := ⟨width, value.bits.setWidth width⟩

def sextOrTrunc (width : Nat) (value : APInt) : APInt := ⟨width, value.bits.signExtend width⟩

def isZero (value : APInt) : Bool := value.bits = 0

-- Two values of different widths have no result.
def combine {α : Type} (operation : (width : Nat) → BitVec width → BitVec width → α)
    (lhs rhs : APInt) : Option α :=
  if h : lhs.width = rhs.width then some (operation rhs.width (lhs.bits.cast h) rhs.bits) else none

def cast (op : CastOp) (width : Nat) (operand : APInt) : Option APInt :=
  match op with
  | .ZExt | .Trunc => some (operand.zextOrTrunc width)
  | .SExt => some (operand.sextOrTrunc width)
  | .Reinterpret => none

def compare (predicate : Predicate) (lhs rhs : APInt) : Option APInt :=
  combine (fun _ left right => ⟨1, BitVec.ofBool (predicate.compares left right)⟩) lhs rhs

end APInt

inductive BinaryOp where
  | And
  | Or
  | Xor
  | Add
  | Sub
  | Other
  deriving DecidableEq, Repr

def BinaryOp.apply (lhs rhs : APInt) : BinaryOp → Option APInt
  | .And => APInt.combine (fun width left right => ⟨width, left &&& right⟩) lhs rhs
  | .Or => APInt.combine (fun width left right => ⟨width, left ||| right⟩) lhs rhs
  | .Xor => APInt.combine (fun width left right => ⟨width, left ^^^ right⟩) lhs rhs
  | .Add => APInt.combine (fun width left right => ⟨width, left + right⟩) lhs rhs
  | .Sub => APInt.combine (fun width left right => ⟨width, left - right⟩) lhs rhs
  | .Other => none

-- An instruction by its block and its index there.
abbrev Site := Nat × Nat

-- Arguments and everything else that is neither a constant, an address nor computed in the function are
-- `other`.
inductive Value where
  | constant (value : APInt)
  | result (site : Site)
  | address (pointer : Pointer)
  | other
  deriving DecidableEq

-- Consume is folded into acquire.
inductive MemoryOrder where
  | Relaxed
  | Acquire
  | Release
  | AcquireRelease
  | SequentiallyConsistent
  deriving DecidableEq, Repr

def releasesAtLeast : MemoryOrder → Bool
  | .Release | .AcquireRelease | .SequentiallyConsistent => true
  | .Relaxed | .Acquire => false

def acquiresAtLeast : MemoryOrder → Bool
  | .Acquire | .AcquireRelease | .SequentiallyConsistent => true
  | .Relaxed | .Release => false

-- An atomic instruction and a call of a standard library member are one here, but for an instruction on
-- a local itself, which is a `load` or a `store`. An order that is not a constant at the operation is
-- `none`. `other` lists the locals whose address it uses, and stands for what no fold looks into: loads
-- from elsewhere, phis, calls of outside code, and what a terminator uses.
inductive Instruction where
  | load (slot : String) (width : Nat)
  | store (target : Pointer) (value : Value)
  | cast (operation : CastOp) (operand : Value) (width : Nat)
  | binary (operation : BinaryOp) (lhs rhs : Value)
  | icmp (predicate : Predicate) (lhs rhs : Value)
  | atomicLoad (object : Pointer) (order : Option MemoryOrder) (width : Nat)
  | atomicStore (object : Pointer) (order : Option MemoryOrder) (value : Value)
  | readModifyWrite (object : Pointer) (order : Option MemoryOrder)
  | fence (order : Option MemoryOrder)
  | call (callee : String) (operands : List Pointer)
  | spawn (entry : String) (operands : List Pointer)
  | other (addresses : List String)
  deriving DecidableEq

inductive Terminator where
  | branch (condition : Value) (ifTrue ifFalse : Nat)
  | switch (condition : Value) (cases : List (APInt × Nat)) (defaultDest : Nat)
  | other (targets : List Nat)
  | ret
  deriving DecidableEq

namespace Terminator

def successors : Terminator → List Nat
  | .branch _ ifTrue ifFalse => [ifTrue, ifFalse]
  | .switch _ cases defaultDest => defaultDest :: cases.map (·.2)
  | .other targets => targets
  | .ret => []

def condition : Terminator → Option Value
  | .branch condition _ _ => some condition
  | .switch condition _ _ => some condition
  | .other _ | .ret => none

-- The successor a value of the condition selects.
def select (value : APInt) : Terminator → Option Nat
  | .branch _ ifTrue ifFalse => some (if value.isZero then ifFalse else ifTrue)
  | .switch _ cases defaultDest =>
      some (((cases.find? (·.1 = value)).map (·.2)).getD defaultDest)
  | .other _ | .ret => none

theorem select_mem {terminator : Terminator} {value : APInt} {successor : Nat}
    (h : terminator.select value = some successor) : successor ∈ terminator.successors := by
  cases terminator with
  | branch condition ifTrue ifFalse =>
      rw [select, Option.some.injEq] at h
      subst h
      simp only [successors]
      split <;> simp
  | switch condition cases defaultDest =>
      rw [select, Option.some.injEq] at h
      subst h
      cases hfind : cases.find? (·.1 = value) with
      | none => exact List.mem_cons_self
      | some found =>
          exact List.mem_cons_of_mem _ (List.mem_map_of_mem (List.mem_of_find?_eq_some hfind))
  | other targets => cases h
  | ret => cases h

end Terminator

structure Block where
  instructions : List Instruction := []
  terminator : Terminator
  deriving DecidableEq

structure Function where
  id : String
  blocks : List Block
  entryExists : 0 < blocks.length := by decide
  successorsExist : ∀ block ∈ blocks, ∀ successor ∈ block.terminator.successors,
    successor < blocks.length := by decide

namespace Function

variable (function : Function)

def instructionAt (site : Site) : Option Instruction :=
  function.blocks[site.1]?.bind fun found => found.instructions[site.2]?

-- Every instruction with its place.
def sites : List (Site × Instruction) :=
  function.blocks.zipIdx.flatMap fun block =>
    block.1.instructions.zipIdx.map fun instruction => ((block.2, instruction.2), instruction.1)

-- The blocks and their edges alone.
def cfg : Program.Function where
  id := function.id
  blocks := function.blocks.map fun block => { successors := block.terminator.successors }
  entryExists := by
    rw [List.length_map]
    exact function.entryExists
  successorsExist := by
    intro block hblock successor hsuccessor
    obtain ⟨found, hfound, rfl⟩ := List.mem_map.mp hblock
    rw [List.length_map]
    exact function.successorsExist found hfound successor hsuccessor

end Function

-- The locals whose address a pointer is computed from. A load of a local uses no address of it.
def addressed : Pointer → List String
  | .alloca slot => [slot]
  | .gep base _ _ => addressed base
  | .copied stored => addressed stored
  | .load (.alloca _) => []
  | .load slot => addressed slot
  | .global _ | .argument _ | .other => []

def Value.addressed : Value → List String
  | .address pointer => AtomicOrdering.addressed pointer
  | .constant _ | .result _ | .other => []

-- Whether an instruction uses a local other than by loading it or storing to it.
def Instruction.usesAddress (slot : String) : Instruction → Bool
  | .store (.alloca _) value => slot ∈ value.addressed
  | .store target value => slot ∈ addressed target ++ value.addressed
  | .cast _ operand _ => slot ∈ operand.addressed
  | .binary _ lhs rhs | .icmp _ lhs rhs => slot ∈ lhs.addressed ++ rhs.addressed
  | .atomicLoad object _ _ | .readModifyWrite object _ => slot ∈ addressed object
  | .atomicStore object _ value => slot ∈ addressed object ++ value.addressed
  | .call _ operands | .spawn _ operands => slot ∈ operands.flatMap addressed
  | .other addresses => slot ∈ addresses
  | .load _ _ | .fence _ => false

def Function.escapes (function : Function) (slot : String) : Bool :=
  function.sites.any fun found => found.2.usesAddress slot

def Instruction.storesTo (slot : String) : Instruction → Option Value
  | .store (.alloca target) value => if target = slot then some value else none
  | _ => none

-- The width of what an instruction computes.
def Instruction.widthOf : Instruction → Nat
  | .load _ width | .cast _ _ width | .atomicLoad _ _ width => width
  | .icmp _ _ _ => 1
  | _ => 64

def kMaxFoldDepth : Nat := 16

structure ConstantFolder where
  function : Function
  live : Option (Finset Nat) := none
  substituted : Option (Site × APInt) := none

namespace ConstantFolder

variable (folder : ConstantFolder)

def counts (block : Nat) : Bool :=
  match folder.live with
  | none => true
  | some live => block ∈ live

def storesTo (slot : String) : List Value :=
  folder.function.sites.filterMap fun found =>
    if folder.counts found.1.1 then found.2.storesTo slot else none

-- A slot whose address is taken may change behind the fold.
def uniqueStore (slot : String) : Option Value :=
  if folder.function.escapes slot then none
  else
    match folder.storesTo slot with
    | [value] => some value
    | _ => none

def substitution (site : Site) : Option APInt :=
  folder.substituted.bind fun substituted =>
    if substituted.1 = site then some substituted.2 else none

-- The fuel is what is left of the depth.
def fold : Nat → Value → Option APInt
  | 0, _ => none
  | _ + 1, .constant value => some value
  | _ + 1, .address _ => none
  | _ + 1, .other => none
  | fuel + 1, .result site =>
      match folder.function.instructionAt site, folder.substitution site with
      | none, _ => none
      | some instruction, some constant => some (constant.zextOrTrunc instruction.widthOf)
      | some (.load slot width), none =>
          (folder.uniqueStore slot).bind fun stored =>
            (fold fuel stored).map (·.zextOrTrunc width)
      | some (.cast operation operand width), none =>
          (fold fuel operand).bind fun value => value.cast operation width
      | some (.binary operation lhs rhs), none =>
          (fold fuel lhs).bind fun left => (fold fuel rhs).bind fun right => operation.apply left right
      | some (.icmp predicate lhs rhs), none =>
          (fold fuel lhs).bind fun left => (fold fuel rhs).bind fun right =>
            left.compare predicate right
      | some _, none => none

-- Whether a fold comes across the value that is substituted.
def usedSubstitution : Nat → Value → Bool
  | 0, _ => false
  | fuel + 1, .result site =>
      match folder.function.instructionAt site, folder.substitution site with
      | none, _ => false
      | some _, some _ => true
      | some (.load slot _), none =>
          ((folder.uniqueStore slot).map (usedSubstitution fuel)).getD false
      | some (.cast _ operand _), none => usedSubstitution fuel operand
      | some (.binary _ lhs rhs), none => usedSubstitution fuel lhs || usedSubstitution fuel rhs
      | some (.icmp _ lhs rhs), none => usedSubstitution fuel lhs || usedSubstitution fuel rhs
      | some _, none => false
  | _ + 1, _ => false

def takenSuccessor (terminator : Terminator) : Option Nat :=
  terminator.condition.bind fun condition =>
    (folder.fold (kMaxFoldDepth + 1) condition).bind fun value => terminator.select value

def usesSubstitution (terminator : Terminator) : Bool :=
  (terminator.condition.map (folder.usedSubstitution (kMaxFoldDepth + 1))).getD false

end ConstantFolder

end ConcurrencyAnalyzer.AtomicOrdering
