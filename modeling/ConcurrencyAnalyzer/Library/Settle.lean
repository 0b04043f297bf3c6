import Mathlib.Logic.Function.Iterate
import Mathlib.Tactic.Common

namespace ConcurrencyAnalyzer.Library

universe u

variable {σ : Type u}

-- The loop `while (changed)`: a round is repeated until one leaves the state alone, and given up
-- after `fuel` rounds.
def settle (unchanged : σ → σ → Bool) (round : σ → σ) : Nat → σ → σ
  | 0, state => state
  | fuel + 1, state =>
      if unchanged state (round state) then state
      else settle unchanged round fuel (round state)

section Settle

variable {unchanged : σ → σ → Bool} {round : σ → σ} {Invariant : σ → Prop}

theorem settle_invariant (hround : ∀ state, Invariant state → Invariant (round state)) (fuel : Nat)
    {state : σ} (h : Invariant state) : Invariant (settle unchanged round fuel state) := by
  induction fuel generalizing state with
  | zero => exact h
  | succ fuel ih =>
      rw [settle]
      split
      · exact h
      · exact ih (hround state h)

-- The loop ends in `result` after some rounds, of which only the last leaves the state alone.
def Ends (unchanged : σ → σ → Bool) (round : σ → σ) (start result : σ) : Prop :=
  ∃ rounds, result = round^[rounds] start ∧ unchanged result (round result) = true ∧
    ∀ before < rounds, unchanged (round^[before] start) (round (round^[before] start)) = false

theorem Ends.now {state : σ} (hsettled : unchanged state (round state) = true) :
    Ends unchanged round state state :=
  ⟨0, rfl, hsettled, fun before hlt => absurd hlt (Nat.not_lt_zero before)⟩

theorem Ends.next {state result : σ} (hchanged : unchanged state (round state) = false)
    (h : Ends unchanged round (round state) result) : Ends unchanged round state result := by
  obtain ⟨rounds, hresult, hsettled, hbefore⟩ := h
  refine ⟨rounds + 1, hresult, hsettled, fun before hlt => ?_⟩
  cases before with
  | zero => exact hchanged
  | succ before => exact hbefore before (by omega)

-- The measure bounds the rounds that change the state, so with that much fuel the loop ends by
-- itself.
theorem settle_ends (measure : σ → Nat)
    (hround : ∀ state, Invariant state → Invariant (round state))
    (hless : ∀ state, Invariant state → unchanged state (round state) = false →
      measure (round state) < measure state)
    {fuel : Nat} {state : σ} (h : Invariant state) (hfuel : measure state ≤ fuel) :
    Ends unchanged round state (settle unchanged round fuel state) := by
  induction fuel generalizing state with
  | zero =>
      refine Ends.now ?_
      by_contra hchanged
      have := hless state h (by simpa using hchanged)
      omega
  | succ fuel ih =>
      rw [settle]
      by_cases hsettled : unchanged state (round state) = true
      · rw [if_pos hsettled]
        exact Ends.now hsettled
      · rw [if_neg hsettled]
        have hchanged : unchanged state (round state) = false := by simpa using hsettled
        have := hless state h hchanged
        exact (ih (hround state h) (by omega)).next hchanged

-- It ends in a state that one more round leaves alone.
theorem settle_fixed (measure : σ → Nat)
    (hround : ∀ state, Invariant state → Invariant (round state))
    (hsame : ∀ state, Invariant state → unchanged state (round state) = true → round state = state)
    (hless : ∀ state, Invariant state → unchanged state (round state) = false →
      measure (round state) < measure state)
    {fuel : Nat} {state : σ} (h : Invariant state) (hfuel : measure state ≤ fuel) :
    round (settle unchanged round fuel state) = settle unchanged round fuel state := by
  obtain ⟨_, _, hsettled, _⟩ := settle_ends measure hround hless h hfuel
  exact hsame _ (settle_invariant hround fuel h) hsettled

end Settle

section Passes

variable {α : Type*} {visit : σ → α → σ} {measure : σ → Nat}
  (hvisit : ∀ state element, visit state element = state ∨ measure (visit state element) < measure state)

include hvisit

-- Visits that each leave the state alone or lower a measure do so together.
theorem foldl_eq_or_lt (elements : List α) (state : σ) :
    elements.foldl visit state = state ∨ measure (elements.foldl visit state) < measure state := by
  induction elements generalizing state with
  | nil => exact .inl rfl
  | cons element elements ih =>
      rw [List.foldl_cons]
      rcases hvisit state element with hsame | hless
      · rw [hsame]
        exact ih state
      · right
        rcases ih (visit state element) with hrest | hrest
        · rwa [hrest]
        · omega

-- What all of them leave alone each of them does.
theorem visit_eq_of_foldl_eq {elements : List α} {state : σ}
    (hsame : elements.foldl visit state = state) {element : α} (hmem : element ∈ elements) :
    visit state element = state := by
  induction elements with
  | nil => exact absurd hmem List.not_mem_nil
  | cons first elements ih =>
      rw [List.foldl_cons] at hsame
      rcases hvisit state first with hfirst | hless
      · rw [hfirst] at hsame
        rcases List.mem_cons.mp hmem with rfl | hmem
        · exact hfirst
        · exact ih hsame hmem
      · have hrest := foldl_eq_or_lt hvisit elements (visit state first)
        rw [hsame] at hrest
        rcases hrest with hrest | hrest
        · rw [← hrest] at hless
          omega
        · omega

end Passes

-- The same loop where the last round counts too.
def settleLast (unchanged : σ → σ → Bool) (round : σ → σ) : Nat → σ → σ
  | 0, state => state
  | fuel + 1, state =>
      if unchanged state (round state) then round state
      else settleLast unchanged round fuel (round state)

-- The loop ends with a round that leaves the state alone, the first such one.
def EndsAfter (unchanged : σ → σ → Bool) (round : σ → σ) (start result : σ) : Prop :=
  ∃ rounds, result = round^[rounds + 1] start ∧
    unchanged (round^[rounds] start) (round^[rounds + 1] start) = true ∧
    ∀ before < rounds, unchanged (round^[before] start) (round^[before + 1] start) = false

section SettleLast

variable {unchanged : σ → σ → Bool} {round : σ → σ} {Invariant : σ → Prop}

theorem EndsAfter.now {state : σ} (hsettled : unchanged state (round state) = true) :
    EndsAfter unchanged round state (round state) :=
  ⟨0, rfl, hsettled, fun before hlt => absurd hlt (Nat.not_lt_zero before)⟩

theorem EndsAfter.next {state result : σ} (hchanged : unchanged state (round state) = false)
    (h : EndsAfter unchanged round (round state) result) : EndsAfter unchanged round state result := by
  obtain ⟨rounds, hresult, hsettled, hbefore⟩ := h
  refine ⟨rounds + 1, hresult, hsettled, fun before hlt => ?_⟩
  cases before with
  | zero => exact hchanged
  | succ before => exact hbefore before (by omega)

theorem settleLast_invariant (hround : ∀ state, Invariant state → Invariant (round state))
    (fuel : Nat) {state : σ} (h : Invariant state) :
    Invariant (settleLast unchanged round fuel state) := by
  induction fuel generalizing state with
  | zero => exact h
  | succ fuel ih =>
      rw [settleLast]
      split
      · exact hround state h
      · exact ih (hround state h)

-- A round known to leave the state alone ends the loop, or one before it.
theorem settleLast_ends_of_unchanged {rounds : Nat} {state : σ}
    (h : unchanged (round^[rounds] state) (round^[rounds + 1] state) = true) {fuel : Nat}
    (hfuel : rounds < fuel) :
    EndsAfter unchanged round state (settleLast unchanged round fuel state) := by
  induction fuel generalizing rounds state with
  | zero => exact absurd hfuel (Nat.not_lt_zero _)
  | succ fuel ih =>
      rw [settleLast]
      by_cases hsettled : unchanged state (round state) = true
      · rw [if_pos hsettled]
        exact EndsAfter.now hsettled
      · rw [if_neg hsettled]
        cases rounds with
        | zero => exact absurd h hsettled
        | succ rounds =>
            have hnext := @ih rounds (round state) h (by omega)
            exact hnext.next (by simpa using hsettled)

theorem settleLast_ends (measure : σ → Nat)
    (hround : ∀ state, Invariant state → Invariant (round state))
    (hless : ∀ state, Invariant state → unchanged state (round state) = false →
      measure (round state) < measure state)
    {fuel : Nat} {state : σ} (h : Invariant state) (hfuel : measure state < fuel) :
    EndsAfter unchanged round state (settleLast unchanged round fuel state) := by
  induction fuel generalizing state with
  | zero => exact absurd hfuel (Nat.not_lt_zero _)
  | succ fuel ih =>
      rw [settleLast]
      by_cases hsettled : unchanged state (round state) = true
      · rw [if_pos hsettled]
        exact EndsAfter.now hsettled
      · rw [if_neg hsettled]
        have hchanged : unchanged state (round state) = false := by simpa using hsettled
        have := hless state h hchanged
        exact (ih (hround state h) (by omega)).next hchanged

end SettleLast

end ConcurrencyAnalyzer.Library
