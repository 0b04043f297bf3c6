import ConcurrencyAnalyzer.Library.Settle
import Mathlib.Data.Set.Finite.Basic
import Mathlib.Order.Bounds.Basic

namespace ConcurrencyAnalyzer.Library

universe u v

-- Facts gathered by visits made in order, round after round, until a round finds no new fact. Each
-- visit sees what the visits before it found.
structure Accumulation (ν : Type u) (φ : Type v) where
  visits : List ν
  adds : ν → Finset φ → Finset φ

namespace Accumulation

variable {ν : Type u} {φ : Type v} [DecidableEq φ]

section Definitions

variable (accumulation : Accumulation ν φ)

def visit (facts : Finset φ) (visit : ν) : Finset φ := facts ∪ accumulation.adds visit facts

def round (facts : Finset φ) : Finset φ := accumulation.visits.foldl accumulation.visit facts

def unchanged (facts other : Finset φ) : Bool := facts = other

def solve (fuel : Nat) : Finset φ := settle unchanged accumulation.round fuel ∅

-- The facts are those that the visits find when they see them all.
def Solves (facts : Finset φ) : Prop :=
  ∀ fact, fact ∈ facts ↔ ∃ visit ∈ accumulation.visits, fact ∈ accumulation.adds visit facts

end Definitions

variable {accumulation : Accumulation ν φ}

theorem subset_foldl_visit (visits : List ν) (facts : Finset φ) :
    facts ⊆ visits.foldl accumulation.visit facts := by
  induction visits generalizing facts with
  | nil => exact Finset.Subset.refl facts
  | cons first visits ih => exact Finset.subset_union_left.trans (ih _)

theorem foldl_visit_forall {P : φ → Prop} {visits : List ν}
    (hadds : ∀ visit ∈ visits, ∀ facts, (∀ fact ∈ facts, P fact) →
      ∀ fact ∈ accumulation.adds visit facts, P fact)
    {facts : Finset φ} (h : ∀ fact ∈ facts, P fact) :
    ∀ fact ∈ visits.foldl accumulation.visit facts, P fact := by
  induction visits generalizing facts with
  | nil => exact h
  | cons first visits ih =>
      refine ih (fun visit hvisit => hadds visit (List.mem_cons_of_mem _ hvisit)) fun fact hfact => ?_
      rcases Finset.mem_union.mp hfact with hold | hnew
      · exact h fact hold
      · exact hadds first List.mem_cons_self facts h fact hnew

-- Visits that together find nothing new find nothing new each.
theorem adds_subset_of_foldl {visits : List ν} {facts : Finset φ}
    (hsame : visits.foldl accumulation.visit facts = facts) {visit : ν} (hvisit : visit ∈ visits) :
    accumulation.adds visit facts ⊆ facts := by
  induction visits with
  | nil => exact absurd hvisit List.not_mem_nil
  | cons first visits ih =>
      rw [List.foldl_cons] at hsame
      have hrest : accumulation.visit facts first ⊆ facts := by
        have hgrown := @subset_foldl_visit _ _ _ accumulation visits (accumulation.visit facts first)
        rwa [hsame] at hgrown
      have hfirst : accumulation.visit facts first = facts :=
        Finset.Subset.antisymm hrest Finset.subset_union_left
      rcases List.mem_cons.mp hvisit with rfl | hlater
      · exact Finset.subset_union_right.trans hrest
      · rw [hfirst] at hsame
        exact ih hsame hlater

variable (hmono : ∀ visit, Monotone (accumulation.adds visit))

include hmono

theorem foldl_visit_subset {visits : List ν} (hvisits : ∀ visit ∈ visits, visit ∈ accumulation.visits)
    {closed : Finset φ}
    (hclosed : ∀ visit ∈ accumulation.visits, accumulation.adds visit closed ⊆ closed)
    {facts : Finset φ} (hfacts : facts ⊆ closed) :
    visits.foldl accumulation.visit facts ⊆ closed := by
  induction visits generalizing facts with
  | nil => exact hfacts
  | cons first visits ih =>
      refine ih (fun visit hvisit => hvisits visit (List.mem_cons_of_mem _ hvisit)) ?_
      have hfirst := hclosed first (hvisits first List.mem_cons_self)
      exact Finset.union_subset hfacts ((hmono first hfacts).trans hfirst)

theorem solve_subset {closed : Finset φ}
    (hclosed : ∀ visit ∈ accumulation.visits, accumulation.adds visit closed ⊆ closed) (fuel : Nat) :
    accumulation.solve fuel ⊆ closed := by
  have hround (facts : Finset φ) (hfacts : facts ⊆ closed) : accumulation.round facts ⊆ closed :=
    foldl_visit_subset hmono (fun _ => id) hclosed hfacts
  exact settle_invariant hround fuel (Finset.empty_subset closed)

-- What the visits leave alone, and is within all that they leave alone, is the least solution.
theorem isLeast_of_closed {facts : Finset φ}
    (hclosed : ∀ visit ∈ accumulation.visits, accumulation.adds visit facts ⊆ facts)
    (hleast : ∀ closed : Finset φ,
      (∀ visit ∈ accumulation.visits, accumulation.adds visit closed ⊆ closed) → facts ⊆ closed) :
    IsLeast {facts | accumulation.Solves facts} facts := by
  classical
  constructor
  · intro fact
    constructor
    · intro hfact
      let found := facts.filter fun fact =>
        ∃ visit ∈ accumulation.visits, fact ∈ accumulation.adds visit facts
      have hfound : facts ⊆ found := by
        refine hleast found fun visit hvisit fact hadded => ?_
        have hwhole := hmono visit (Finset.filter_subset _ facts) hadded
        exact Finset.mem_filter.mpr ⟨hclosed visit hvisit hwhole, visit, hvisit, hwhole⟩
      exact (Finset.mem_filter.mp (hfound hfact)).2
    · rintro ⟨visit, hvisit, hadded⟩
      exact hclosed visit hvisit hadded
  · intro solution hsolution
    exact hleast solution fun visit hvisit fact hadded =>
      (hsolution fact).mpr ⟨visit, hvisit, hadded⟩

section Finite

variable {P : φ → Prop} (hfinite : {fact | P fact}.Finite)
  (hadds : ∀ visit ∈ accumulation.visits, ∀ facts, (∀ fact ∈ facts, P fact) →
    ∀ fact ∈ accumulation.adds visit facts, P fact)

include hadds

-- Where only finitely many facts can be found, the rounds end by themselves, in the least solution.
theorem solve_isLeast {fuel : Nat} (hfuel : hfinite.toFinset.card ≤ fuel) :
    Ends unchanged accumulation.round ∅ (accumulation.solve fuel) ∧
      IsLeast {facts | accumulation.Solves facts} (accumulation.solve fuel) := by
  classical
  have hround (facts : Finset φ) (h : ∀ fact ∈ facts, P fact) :
      ∀ fact ∈ accumulation.round facts, P fact := foldl_visit_forall hadds h
  have hless (facts : Finset φ) (h : ∀ fact ∈ facts, P fact)
      (hchanged : unchanged facts (accumulation.round facts) = false) :
      hfinite.toFinset.card - (accumulation.round facts).card <
        hfinite.toFinset.card - facts.card := by
    have hgrown := @subset_foldl_visit _ _ _ accumulation accumulation.visits facts
    have hne : facts ≠ accumulation.round facts := by simpa [unchanged] using hchanged
    have hmore := Finset.card_lt_card (hgrown.ssubset_of_ne hne)
    have hmost : (accumulation.round facts).card ≤ hfinite.toFinset.card := by
      refine Finset.card_le_card fun fact hfact => ?_
      rw [Set.Finite.mem_toFinset]
      exact hround facts h fact hfact
    unfold round at hmost ⊢
    omega
  have hnone : ∀ fact ∈ (∅ : Finset φ), P fact := fun fact h => absurd h (Finset.notMem_empty fact)
  have hfirst : hfinite.toFinset.card - (∅ : Finset φ).card ≤ fuel := by
    rw [Finset.card_empty]
    omega
  have hends : Ends unchanged accumulation.round ∅ (accumulation.solve fuel) :=
    settle_ends (fun facts => hfinite.toFinset.card - facts.card) hround hless hnone hfirst
  refine ⟨hends, isLeast_of_closed hmono (fun visit hvisit => ?_) fun closed hclosed =>
    solve_subset hmono hclosed fuel⟩
  have hfixed : accumulation.round (accumulation.solve fuel) = accumulation.solve fuel :=
    settle_fixed (fun facts => hfinite.toFinset.card - facts.card) hround
      (fun facts _ hsame => (of_decide_eq_true hsame).symm) hless hnone hfirst
  exact adds_subset_of_foldl hfixed hvisit

include hfinite

theorem exists_solve : ∃ bound, ∀ fuel, bound ≤ fuel →
    Ends unchanged accumulation.round ∅ (accumulation.solve fuel) ∧
      IsLeast {facts | accumulation.Solves facts} (accumulation.solve fuel) :=
  ⟨hfinite.toFinset.card, fun _ => solve_isLeast hmono hfinite hadds⟩

end Finite

end Accumulation

end ConcurrencyAnalyzer.Library
