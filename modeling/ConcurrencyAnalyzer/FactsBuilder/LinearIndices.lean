import ConcurrencyAnalyzer.FactsBuilder.AccessSummaries
import ConcurrencyAnalyzer.MemoryRegions

namespace ConcurrencyAnalyzer

namespace LinearIndex

-- The value of an index whose parameter holds `argument`.
def valueAt (index : LinearIndex) (argument : Int) : Int := index.offset + index.scale * argument

-- The value of an index by what the parameters of its function hold.
def value (index : LinearIndex) (parameters : Nat → Int) : Int :=
  match index.parameter with
  | none => index.offset
  | some parameter => index.valueAt (parameters parameter)

-- An index without a parameter is the constant `offset`.
def Constant (index : LinearIndex) : Prop := index.parameter = none → index.scale = 0

theorem value_of_constant {index : LinearIndex} (h : index.Constant) {parameters : Nat → Int}
    {argument : Int} (hargument : ∀ parameter ∈ index.parameter, parameters parameter = argument) :
    index.value parameters = index.valueAt argument := by
  unfold value
  cases hparameter : index.parameter with
  | none => simp [valueAt, h hparameter]
  | some parameter => rw [← hargument parameter hparameter]

end LinearIndex

namespace FactsBuilder

-- Some operation of `substituteLinearIndex` leaves the 64-bit numbers.
def Overflows (outer inner : LinearIndex) : Prop :=
  ¬FitsInt64 (outer.scale * inner.scale) ∨ ¬FitsInt64 (outer.scale * inner.offset) ∨
    ¬FitsInt64 (outer.offset + outer.scale * inner.offset)

instance (outer inner : LinearIndex) : Decidable (Overflows outer inner) :=
  inferInstanceAs (Decidable (_ ∨ _ ∨ _))

variable {outer inner : LinearIndex}

theorem substituteLinearIndex_widened (h : outer.widened = true ∨ inner.widened = true) :
    substituteLinearIndex outer inner = some { parameter := inner.parameter, widened := true } := by
  unfold substituteLinearIndex
  rw [if_pos (by simpa using h)]

theorem substituteLinearIndex_exact (houter : outer.widened = false) (hinner : inner.widened = false)
    (h : ¬Overflows outer inner) :
    substituteLinearIndex outer inner = some
      { parameter := inner.parameter
        scale := outer.scale * inner.scale
        offset := outer.offset + outer.scale * inner.offset } := by
  unfold Overflows at h
  rw [not_or, not_or, not_not, not_not, not_not] at h
  unfold substituteLinearIndex
  rw [if_neg (by simp [houter, hinner])]
  exact if_pos h

theorem substituteLinearIndex_overflow (houter : outer.widened = false)
    (hinner : inner.widened = false) (h : Overflows outer inner) :
    substituteLinearIndex outer inner = none := by
  unfold substituteLinearIndex
  rw [if_neg (by simp [houter, hinner])]
  refine if_neg fun hfits => ?_
  rcases h with hscale | hshift | hoffset
  · exact hscale hfits.1
  · exact hshift hfits.2.1
  · exact hoffset hfits.2.2

-- What a substitution gives, where it gives something.
theorem substituteLinearIndex_cases {index : LinearIndex}
    (h : substituteLinearIndex outer inner = some index) :
    ((outer.widened = true ∨ inner.widened = true) ∧
      index = { parameter := inner.parameter, widened := true }) ∨
    (outer.widened = false ∧ inner.widened = false ∧ index =
      { parameter := inner.parameter
        scale := outer.scale * inner.scale
        offset := outer.offset + outer.scale * inner.offset }) := by
  by_cases hwidened : outer.widened = true ∨ inner.widened = true
  · rw [substituteLinearIndex_widened hwidened] at h
    exact Or.inl ⟨hwidened, (Option.some.inj h).symm⟩
  · rw [not_or, Bool.not_eq_true, Bool.not_eq_true] at hwidened
    obtain ⟨houter, hinner⟩ := hwidened
    by_cases hoverflows : Overflows outer inner
    · rw [substituteLinearIndex_overflow houter hinner hoverflows] at h
      cases h
    · rw [substituteLinearIndex_exact houter hinner hoverflows] at h
      exact Or.inr ⟨houter, hinner, (Option.some.inj h).symm⟩

theorem widened_iff {index : LinearIndex} (h : substituteLinearIndex outer inner = some index) :
    index.widened = true ↔ outer.widened = true ∨ inner.widened = true := by
  rcases substituteLinearIndex_cases h with ⟨hwidened, rfl⟩ | ⟨houter, hinner, rfl⟩
  · exact iff_of_true rfl hwidened
  · simp [houter, hinner]

theorem parameter_of_substituted {index : LinearIndex}
    (h : substituteLinearIndex outer inner = some index) : index.parameter = inner.parameter := by
  rcases substituteLinearIndex_cases h with ⟨_, rfl⟩ | ⟨_, _, rfl⟩ <;> rfl

theorem constant_of_substituted {index : LinearIndex} (hinner : inner.Constant)
    (h : substituteLinearIndex outer inner = some index) : index.Constant := by
  intro hparameter
  rw [parameter_of_substituted h] at hparameter
  rcases substituteLinearIndex_cases h with ⟨_, rfl⟩ | ⟨_, _, rfl⟩
  · rfl
  · show outer.scale * inner.scale = 0
    rw [hinner hparameter, Int.mul_zero]

theorem value_of_substituted {index : LinearIndex} (houter : outer.widened = false)
    (hinner : inner.widened = false) (h : substituteLinearIndex outer inner = some index)
    (parameters : Nat → Int) : index.value parameters = outer.valueAt (inner.value parameters) := by
  rcases substituteLinearIndex_cases h with ⟨hwidened, _⟩ | ⟨_, _, rfl⟩
  · simp [houter, hinner] at hwidened
  · unfold LinearIndex.value
    cases inner.parameter with
    | none => rfl
    | some parameter =>
        simp only [LinearIndex.valueAt, Int.mul_add, Int.mul_assoc, Int.add_assoc]

-- The order in which a chain of calls is composed does not matter where nothing overflows.
theorem substituteLinearIndex_assoc {first second third front back left right : LinearIndex}
    (hfront : substituteLinearIndex first second = some front)
    (hleft : substituteLinearIndex front third = some left)
    (hback : substituteLinearIndex second third = some back)
    (hright : substituteLinearIndex first back = some right) : left = right := by
  have hparameter : left.parameter = right.parameter := by
    rw [parameter_of_substituted hleft, parameter_of_substituted hright,
      parameter_of_substituted hback]
  by_cases hwidened : first.widened = true ∨ second.widened = true ∨ third.widened = true
  · have hleftWidened : front.widened = true ∨ third.widened = true := by
      rw [widened_iff hfront, or_assoc]
      exact hwidened
    have hrightWidened : first.widened = true ∨ back.widened = true := by
      rw [widened_iff hback]
      exact hwidened
    rw [substituteLinearIndex_widened hleftWidened] at hleft
    rw [substituteLinearIndex_widened hrightWidened] at hright
    rw [← Option.some.inj hleft, ← Option.some.inj hright, parameter_of_substituted hback]
  · rw [not_or, not_or, Bool.not_eq_true, Bool.not_eq_true, Bool.not_eq_true] at hwidened
    obtain ⟨hfirst, hsecond, hthird⟩ := hwidened
    rcases substituteLinearIndex_cases hfront with ⟨h, _⟩ | ⟨_, _, rfl⟩
    · simp [hfirst, hsecond] at h
    rcases substituteLinearIndex_cases hback with ⟨h, _⟩ | ⟨_, _, rfl⟩
    · simp [hsecond, hthird] at h
    rcases substituteLinearIndex_cases hleft with ⟨h, _⟩ | ⟨_, _, rfl⟩
    · simp [hthird] at h
    rcases substituteLinearIndex_cases hright with ⟨h, _⟩ | ⟨_, _, rfl⟩
    · simp [hfirst] at h
    simp only [Int.mul_add, Int.mul_assoc, Int.add_assoc]

theorem linear_indices_compose :
    (∀ outer inner : LinearIndex, outer.widened = false → inner.widened = false →
      (¬Overflows outer inner → ∃ index, substituteLinearIndex outer inner = some index ∧
        index.widened = false ∧ (inner.Constant → index.Constant) ∧ ∀ parameters : Nat → Int,
          index.value parameters = outer.valueAt (inner.value parameters) ∧
            ∀ calleeParameters : Nat → Int, outer.Constant →
              (∀ parameter ∈ outer.parameter,
                calleeParameters parameter = inner.value parameters) →
              index.value parameters = outer.value calleeParameters) ∧
      (Overflows outer inner → substituteLinearIndex outer inner = none)) ∧
    (∀ first second third front back left right : LinearIndex,
      substituteLinearIndex first second = some front →
      substituteLinearIndex front third = some left →
      substituteLinearIndex second third = some back →
      substituteLinearIndex first back = some right → left = right) ∧
    ∀ outer inner : LinearIndex, outer.widened = true ∨ inner.widened = true →
      ∃ index, substituteLinearIndex outer inner = some index ∧ index.widened = true := by
  refine ⟨?_, ?_, ?_⟩
  · intro outer inner houter hinner
    refine ⟨fun hfits => ?_, substituteLinearIndex_overflow houter hinner⟩
    have hindex := substituteLinearIndex_exact houter hinner hfits
    refine ⟨_, hindex, rfl, fun hinner => constant_of_substituted hinner hindex, fun parameters => ?_⟩
    have hvalue := value_of_substituted houter hinner hindex parameters
    refine ⟨hvalue, fun calleeParameters hconstant hcallee => ?_⟩
    rw [hvalue, LinearIndex.value_of_constant hconstant hcallee]
  · intro first second third front back left right hfront hleft hback hright
    exact substituteLinearIndex_assoc hfront hleft hback hright
  · intro outer inner hwidened
    exact ⟨_, substituteLinearIndex_widened hwidened, rfl⟩

end FactsBuilder

end ConcurrencyAnalyzer
