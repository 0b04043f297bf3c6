import ConcurrencyAnalyzer.ThreadCompletion.SlotBounds
import Mathlib.Data.Set.Basic

namespace ConcurrencyAnalyzer.ThreadCompletion.Slots

section Arithmetic

def checkedAdd (first second : Int64) : Option Int64 := Int64.checked (first.number + second.number)

def checkedSub (first second : Int64) : Option Int64 := Int64.checked (first.number - second.number)

def checkedMulAdd (first second third : Int64) : Option Int64 :=
  (Int64.checked (first.number * second.number)).bind fun product => Int64.checked (product.number + third.number)

-- Division, of which the remainder is nothing wherever the quotient is.
def quotient (first second : Int64) : Option Int64 :=
  if second.number = 0 then none else Int64.checked (first.number.tdiv second.number)

def remainder (first second : Int64) : Option Int64 :=
  (quotient first second).bind fun _ => Int64.checked (first.number.tmod second.number)

end Arithmetic

inductive LoopPredicate where
  | ICMP_SLT
  | ICMP_ULT
  | BAD_ICMP_PREDICATE
  deriving DecidableEq, Repr

-- No range is built with a negative stride.
structure SlotRange (Value : Type) where
  array : Value
  origin : Int64
  stride : Int64
  begin : SlotBound Value
  finish : SlotBound Value
  predicate : LoopPredicate
  strideNonneg : 0 ≤ stride.number
  deriving DecidableEq

section Comparison

variable {Value : Type} [DecidableEq Value]

def atMost (lower upper : SlotBound Value) : Bool :=
  match lower.index, upper.index with
  | some lower, some upper => lower.number ≤ upper.number
  | _, _ => lower.value.isSome && lower.value = upper.value

-- A single slot is covered when the loop's grid of known bounds passes it. Nothing where an
-- operation overflows, here and below.
def coversSlot (visited filled : SlotRange Value) : Option Bool :=
  if visited.array ≠ filled.array ∨ visited.stride.number ≤ 0 then some false
  else
    match checkedSub filled.origin visited.origin with
    | none => some false
    | some shift =>
        (remainder shift visited.stride).bind fun rest =>
          if rest.number ≠ 0 then some false
          else
            match visited.begin.index, visited.finish.index with
            | some begin, some finish =>
                (quotient shift visited.stride).map fun slot =>
                  begin.number ≤ slot.number && slot.number < finish.number
            | _, _ => some false

def allKnown (visited filled : SlotRange Value) : Bool :=
  visited.begin.index.isSome && visited.finish.index.isSome && filled.begin.index.isSome &&
    filled.finish.index.isSome

def covers (visited filled : SlotRange Value) : Option Bool :=
  if filled.stride.number = 0 then coversSlot visited filled
  else
    let alike := allKnown visited filled || visited.predicate = filled.predicate ||
      filled.predicate = .BAD_ICMP_PREDICATE
    some (visited.array = filled.array && visited.origin = filled.origin &&
      visited.stride = filled.stride && alike && atMost visited.begin filled.begin &&
      atMost filled.finish visited.finish)

def knownSpan (range : SlotRange Value) : Option (Option (Int64 × Int64)) :=
  match range.begin.index, range.finish.index with
  | some begin, some finish =>
      if finish.number ≤ begin.number then some none
      else
        (Int64.checked (finish.number - 1)).map fun lastIndex =>
          (checkedMulAdd range.stride begin range.origin).bind fun first =>
            (checkedMulAdd range.stride lastIndex range.origin).map fun last => (first, last)
  | _, _ => some none

def spansApart (first second : Option (Int64 × Int64)) : Bool :=
  match first, second with
  | some a, some b => a.2.number < b.1.number || b.2.number < a.1.number
  | _, _ => false

-- Whether two ranges of known bounds name no slot in common.
def disjoint (first second : SlotRange Value) : Option Bool :=
  (knownSpan first).bind fun a =>
    (knownSpan second).bind fun b =>
      if first.stride.number = 0 ∨ second.stride.number = 0 then
        some (first.array = second.array && spansApart a b)
      else if first.array ≠ second.array ∨ first.stride.number ≤ 0 ∨
          first.stride ≠ second.stride then some false
      else
        match checkedSub first.origin second.origin with
        | none => some false
        | some shift =>
            (remainder shift first.stride).map fun rest => rest.number = 0 && spansApart a b

end Comparison

-- A bound of a range: an index that is known, as a count of rounds or of elements is, or what a
-- loop compares with.
inductive WrittenBound {Value : Type} (typeOf : Value → IntegerType) (bits : Nat) where
  | known (index : Int64)
  | written (operand : Written typeOf bits)

-- A range with its bounds as the loop writes them, for a counter of some bits. A count that is
-- compared with nothing is read as the address of its slot extends it.
structure WrittenRange {Value : Type} (typeOf : Value → IntegerType) where
  array : Value
  origin : Int64
  stride : Int64
  strideNonneg : 0 ≤ stride.number
  bits : Nat
  begin : WrittenBound typeOf bits
  finish : WrittenBound typeOf bits
  predicate : LoopPredicate
  countSigned : Bool

section Meaning

variable {Value : Type} {typeOf : Value → IntegerType}

def WrittenBound.bound {bits : Nat} : WrittenBound typeOf bits → SlotBound Value
  | .known index => { index := some index }
  | .written operand => slotBound (invariantValue operand)

def WrittenBound.reading {bits : Nat} (signed : Bool) (values : Values typeOf) :
    WrittenBound typeOf bits → Int
  | .known index => index.number
  | .written operand => readAs signed (operand.eval values)

-- What is added to a value of the bound that is negative.
def WrittenBound.lift {bits : Nat} (signed : Bool) : WrittenBound typeOf bits → Int
  | .known _ => 0
  | .written operand => liftAs signed operand

namespace WrittenRange

def range (written : WrittenRange typeOf) : SlotRange Value where
  array := written.array
  origin := written.origin
  stride := written.stride
  begin := written.begin.bound
  finish := written.finish.bound
  predicate := written.predicate
  strideNonneg := written.strideNonneg

def signed (written : WrittenRange typeOf) : Bool :=
  match written.predicate with
  | .ICMP_SLT => true
  | .ICMP_ULT => false
  | .BAD_ICMP_PREDICATE => written.countSigned

def beginsAt (written : WrittenRange typeOf) (values : Values typeOf) : Int :=
  written.begin.reading written.signed values

def finishesAt (written : WrittenRange typeOf) (values : Values typeOf) : Int :=
  written.finish.reading written.signed values

-- The handles `stride` bytes apart from `origin`, for the indices in `[begin, end)` as a loop
-- comparing with `predicate` runs over them.
def slots (written : WrittenRange typeOf) (values : Values typeOf) : Set (Value × Int) :=
  fun slot => ∃ index, written.beginsAt values ≤ index ∧ index < written.finishesAt values ∧
    slot = (written.array, written.origin.number + written.stride.number * index)

end WrittenRange

variable {bits : Nat} {signed : Bool} {bound : WrittenBound typeOf bits}

-- A known bound is what every comparison reads, a named one its value lifted.
theorem bound_cases (signed : Bool) (bound : WrittenBound typeOf bits) :
    (∃ index, bound.bound = { index := some index } ∧
        ∀ values, bound.reading signed values = index.number) ∨
      ∃ root, bound.bound = { value := some root } ∧
        ∀ values, bound.reading signed values =
          lifted (bound.lift signed) (root.number values) := by
  cases bound with
  | known index => exact Or.inl ⟨index, rfl, fun _ => rfl⟩
  | written operand =>
      rcases slotBound_cases typeOf (invariantValue operand) with
        ⟨index, hknown, hnonneg, hnumber⟩ | hnamed
      · refine Or.inl ⟨index, hknown, fun values => ?_⟩
        rw [WrittenBound.reading, readAs_eval, hnumber values, lifted_of_nonneg hnonneg]
      · exact Or.inr ⟨invariantValue operand, hnamed, fun values => readAs_eval values signed _⟩

theorem reading_of_index {index : Int64} (h : bound.bound.index = some index)
    (values : Values typeOf) : bound.reading signed values = index.number := by
  rcases bound_cases signed bound with ⟨known, hknown, hread⟩ | ⟨root, hnamed, -⟩
  · rw [hknown] at h
    rw [hread, Option.some.inj h]
  · simp [hnamed] at h

theorem reading_of_value {root : Root Value} (h : bound.bound.value = some root)
    (values : Values typeOf) :
    bound.reading signed values = lifted (bound.lift signed) (root.number values) := by
  rcases bound_cases signed bound with ⟨known, hknown, -⟩ | ⟨other, hnamed, hread⟩
  · simp [hknown] at h
  · rw [hnamed] at h
    rw [hread, Option.some.inj h]

theorem index_of_value {root : Root Value} (h : bound.bound.value = some root) :
    bound.bound.index = none := by
  rcases bound_cases true bound with ⟨index, hknown, -⟩ | ⟨other, hnamed, -⟩
  · simp [hknown] at h
  · rw [hnamed]

end Meaning

end ConcurrencyAnalyzer.ThreadCompletion.Slots
