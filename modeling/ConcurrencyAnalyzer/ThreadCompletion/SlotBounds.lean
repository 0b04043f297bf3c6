import ConcurrencyAnalyzer.Facts
import Mathlib.Algebra.Order.Ring.Int
import Mathlib.Tactic.Positivity

namespace ConcurrencyAnalyzer.ThreadCompletion.Slots

-- An `int64_t`.
structure Int64 where
  number : Int
  fits : FitsInt64 number
  deriving DecidableEq

-- The result of an operation. Nothing where it overflows.
def Int64.checked (number : Int) : Option Int64 :=
  if h : FitsInt64 number then some ⟨number, h⟩ else none

theorem checked_of_fits {number : Int} (h : FitsInt64 number) :
    Int64.checked number = some ⟨number, h⟩ :=
  dif_pos h

theorem number_of_checked {number : Int} {result : Int64} (h : Int64.checked number = some result) :
    result.number = number := by
  unfold Int64.checked at h
  by_cases hfits : FitsInt64 number
  · rw [dif_pos hfits] at h
    rw [← Option.some.inj h]
  · rw [dif_neg hfits] at h
    simp at h

-- What a conversion makes of a number.
def Int64.wrapped (number : Int) : Int64 := ⟨int64 number, int64_fits number⟩

structure IntegerType where
  bits : Nat
  positive : 0 < bits

-- An integer as a loop writes it. A local that is written once is a copy of what is stored to it.
inductive Written {Value : Type} (typeOf : Value → IntegerType) : Nat → Type where
  | constant {bits : Nat} (number : BitVec bits) : Written typeOf bits
  | value (named : Value) : Written typeOf (typeOf named).bits
  | sext {bits : Nat} (target : Nat) (wider : bits < target) (operand : Written typeOf bits) :
      Written typeOf target
  | zext {bits : Nat} (target : Nat) (wider : bits < target) (operand : Written typeOf bits) :
      Written typeOf target
  | copied {bits : Nat} (operand : Written typeOf bits) : Written typeOf bits

-- What a value names that no cast and no copy is.
inductive Root (Value : Type) where
  | constant (bits : Nat) (number : BitVec bits)
  | value (named : Value)
  deriving DecidableEq

-- A bound of a slot range: a known index, or a value that only equals itself.
structure SlotBound (Value : Type) where
  index : Option Int64 := none
  value : Option (Root Value) := none
  deriving DecidableEq

section Stripping

variable {Value : Type} {typeOf : Value → IntegerType}

def stripIntegerCasts : {bits : Nat} → Written typeOf bits → (source : Nat) × Written typeOf source
  | _, .sext _ _ operand => stripIntegerCasts operand
  | _, .zext _ _ operand => stripIntegerCasts operand
  | bits, operand => ⟨bits, operand⟩

def invariantValue : {bits : Nat} → Written typeOf bits → Root Value
  | bits, .constant number => .constant bits number
  | _, .value named => .value named
  | _, .sext _ _ operand => invariantValue operand
  | _, .zext _ _ operand => invariantValue operand
  | _, .copied operand => invariantValue operand

theorem fits_of_constant {bits : Nat} {number : BitVec bits} (h : number.toNat < 2 ^ 63) :
    FitsInt64 number.toNat := by
  unfold FitsInt64
  omega

-- A negative constant is left to identity.
def slotBound : Root Value → SlotBound Value
  | .constant bits number =>
      if h : ¬number.toInt < 0 ∧ number.toNat < 2 ^ 63 then
        { index := some ⟨number.toNat, fits_of_constant h.2⟩ }
      else { value := some (.constant bits number) }
  | .value named => { value := some (.value named) }

end Stripping

section Evaluation

variable {Value : Type} {typeOf : Value → IntegerType}

-- The bits of each value.
abbrev Values (typeOf : Value → IntegerType) : Type :=
  (value : Value) → BitVec (typeOf value).bits

def Written.eval (values : Values typeOf) : {bits : Nat} → Written typeOf bits → BitVec bits
  | _, .constant number => number
  | _, .value named => values named
  | _, .sext target _ operand => (operand.eval values).signExtend target
  | _, .zext target _ operand => (operand.eval values).setWidth target
  | _, .copied operand => operand.eval values

-- How a comparison reads its operands.
def readAs (signed : Bool) {bits : Nat} (number : BitVec bits) : Int :=
  if signed then number.toInt else number.toNat

def Root.number (values : Values typeOf) : Root Value → Int
  | .constant _ number => number.toInt
  | .value named => (values named).toInt

-- A number with something added below zero.
def lifted (lift number : Int) : Int := if number < 0 then number + lift else number

-- What the first zero extension adds to a negative number, which is nothing where there is none.
def zextLift : {bits : Nat} → Written typeOf bits → Int
  | _, .constant _ => 0
  | _, .value _ => 0
  | _, .sext _ _ operand => zextLift operand
  | _, @Written.zext _ _ bits _ _ operand =>
      if zextLift operand = 0 then 2 ^ bits else zextLift operand
  | _, .copied operand => zextLift operand

-- What the extensions and the comparison together add to a negative number.
def liftAs (signed : Bool) {bits : Nat} (operand : Written typeOf bits) : Int :=
  if !signed && zextLift operand = 0 then 2 ^ bits else zextLift operand

theorem lifted_of_nonneg {lift number : Int} (h : 0 ≤ number) : lifted lift number = number :=
  if_neg (by omega)

theorem lifted_of_neg {lift number : Int} (h : number < 0) :
    lifted lift number = number + lift :=
  if_pos h

theorem toNat_eq_lifted {bits : Nat} (number : BitVec bits) :
    (number.toNat : Int) = lifted (2 ^ bits) number.toInt := by
  have hlt : number.toNat < 2 ^ bits := number.isLt
  have hcast : (((2 ^ bits : Nat)) : Int) = 2 ^ bits := by norm_cast
  rw [lifted, BitVec.toInt_eq_toNat_cond]
  by_cases hhalf : 2 * number.toNat < 2 ^ bits
  · rw [if_pos hhalf, if_neg (by omega)]
  · rw [if_neg hhalf, if_pos (by omega)]
    omega

variable (values : Values typeOf)

-- A zero extension has been read without a sign, and is not negative again.
theorem toInt_eval {bits : Nat} (operand : Written typeOf bits) :
    (operand.eval values).toInt =
        lifted (zextLift operand) ((invariantValue operand).number values) ∧
      (zextLift operand ≠ 0 → 0 ≤ (operand.eval values).toInt) := by
  induction operand with
  | constant number =>
      refine ⟨?_, fun h => absurd rfl h⟩
      simp [Written.eval, invariantValue, Root.number, zextLift, lifted]
  | value named =>
      refine ⟨?_, fun h => absurd rfl h⟩
      simp [Written.eval, invariantValue, Root.number, zextLift, lifted]
  | sext target wider operand ih =>
      have hsame : ((Written.sext target wider operand).eval values).toInt =
          (operand.eval values).toInt := BitVec.toInt_signExtend_of_le (Nat.le_of_lt wider)
      rw [hsame]
      exact ih
  | @zext bits target wider operand ih =>
      obtain ⟨hread, hnonneg⟩ := ih
      have hsame : ((Written.zext target wider operand).eval values).toInt =
          ((operand.eval values).toNat : Int) := by
        have hnat : ((operand.eval values).setWidth target).toNat = (operand.eval values).toNat :=
          BitVec.toNat_setWidth_of_le (Nat.le_of_lt wider)
        have hlt : 2 * ((operand.eval values).setWidth target).toNat < 2 ^ target := by
          have hbits := (operand.eval values).isLt
          have hpow : 2 * 2 ^ bits ≤ 2 ^ target := by
            rw [← Nat.pow_succ']
            exact Nat.pow_le_pow_right (by omega) wider
          omega
        rw [Written.eval, BitVec.toInt_eq_toNat_of_lt hlt, hnat]
      rw [hsame]
      refine ⟨?_, fun _ => by omega⟩
      have hpositive : (0 : Int) < 2 ^ bits := by positivity
      rw [toNat_eq_lifted, hread, zextLift, invariantValue]
      by_cases hzero : zextLift operand = 0
      · simp [hzero, lifted]
      · rw [if_neg hzero, ← hread, lifted_of_nonneg (hnonneg hzero), hread]
  | copied operand ih => exact ih

-- What a comparison reads is the value itself, or the value lifted where it is negative.
theorem readAs_eval (signed : Bool) {bits : Nat} (operand : Written typeOf bits) :
    readAs signed (operand.eval values) =
      lifted (liftAs signed operand) ((invariantValue operand).number values) := by
  obtain ⟨hread, hnonneg⟩ := toInt_eval values operand
  cases signed with
  | true => simpa [readAs, liftAs] using hread
  | false =>
      have hunsigned : readAs false (operand.eval values) =
          ((operand.eval values).toNat : Int) := rfl
      rw [hunsigned, toNat_eq_lifted, liftAs]
      by_cases hzero : zextLift operand = 0
      · simp [hread, hzero, lifted]
      · rw [lifted_of_nonneg (hnonneg hzero), hread]
        simp [hzero]

omit values in
-- What is known is a constant that is not negative, which is one number however it is read.
theorem slotBound_cases (typeOf : Value → IntegerType) (root : Root Value) :
    (∃ index : Int64, slotBound root = { index := some index } ∧ 0 ≤ index.number ∧
      ∀ values : Values typeOf, root.number values = index.number) ∨
      slotBound root = { value := some root } := by
  cases root with
  | value named => exact Or.inr rfl
  | constant bits number =>
      by_cases hknown : ¬number.toInt < 0 ∧ number.toNat < 2 ^ 63
      · left
        refine ⟨⟨number.toNat, fits_of_constant hknown.2⟩, dif_pos hknown, by simp,
          fun values => ?_⟩
        show number.toInt = (number.toNat : Int)
        rw [toNat_eq_lifted, lifted_of_nonneg (by omega)]
      · right
        exact dif_neg hknown

-- What is lifted from a type comes out above it.
theorem le_zextLift {bits : Nat} (operand : Written typeOf bits) {named : Value}
    (hroot : invariantValue operand = .value named) :
    (typeOf named).bits ≤ bits ∧
      (zextLift operand ≠ 0 → 2 ^ (typeOf named).bits ≤ zextLift operand) := by
  induction operand with
  | constant number => exact absurd hroot (by simp [invariantValue])
  | value other =>
      obtain rfl : other = named := by simpa [invariantValue] using hroot
      exact ⟨Nat.le_refl _, fun h => absurd rfl h⟩
  | sext target wider operand ih =>
      obtain ⟨hbits, hlift⟩ := ih hroot
      exact ⟨by omega, hlift⟩
  | @zext bits target wider operand ih =>
      obtain ⟨hbits, hlift⟩ := ih hroot
      refine ⟨by omega, fun _ => ?_⟩
      rw [zextLift]
      by_cases hzero : zextLift operand = 0
      · rw [if_pos hzero]
        exact pow_le_pow_right₀ (by decide) hbits
      · rw [if_neg hzero]
        exact hlift hzero
  | copied operand ih => exact ih hroot

theorem le_liftAs {signed : Bool} {bits : Nat} (operand : Written typeOf bits) {named : Value}
    (hroot : invariantValue operand = .value named) (hlift : liftAs signed operand ≠ 0) :
    2 ^ (typeOf named).bits ≤ liftAs signed operand := by
  obtain ⟨hbits, hzext⟩ := le_zextLift operand hroot
  unfold liftAs at hlift ⊢
  by_cases hunsigned : (!signed && decide (zextLift operand = 0)) = true
  · rw [if_pos hunsigned]
    exact pow_le_pow_right₀ (by decide) hbits
  · rw [if_neg hunsigned] at hlift ⊢
    exact hzext hlift

end Evaluation

end ConcurrencyAnalyzer.ThreadCompletion.Slots
