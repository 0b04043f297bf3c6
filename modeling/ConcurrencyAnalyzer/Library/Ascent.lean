import ConcurrencyAnalyzer.Library.Settle
import Mathlib.Algebra.BigOperators.Group.List.Basic
import Mathlib.Algebra.Order.BigOperators.Group.List
import Mathlib.Algebra.Order.Group.Nat
import Mathlib.Data.Finset.Card
import Mathlib.Data.Set.Finite.Basic
import Mathlib.Order.Bounds.Basic
import Mathlib.Order.Monotone.Basic
import Mathlib.Algebra.GroupWithZero.Nat

namespace ConcurrencyAnalyzer.Library

universe u v

-- Values of some keys, each defined from the others. The keys are visited in order, and each visit
-- sees what the visits before it wrote.
structure Ascent (κ : Type u) (α : Type v) where
  keys : List κ
  step : (κ → α) → κ → α

namespace Ascent

variable {κ : Type u} {α : Type v} [DecidableEq κ]

section Definitions

variable (ascent : Ascent κ α)

def visit (values : κ → α) (key : κ) : κ → α :=
  Function.update values key (ascent.step values key)

def round (values : κ → α) : κ → α :=
  ascent.keys.foldl ascent.visit values

def unchanged [DecidableEq α] (values other : κ → α) : Bool :=
  ascent.keys.all fun key => values key = other key

def solve [DecidableEq α] (fuel : Nat) (values : κ → α) : κ → α :=
  settle ascent.unchanged ascent.round fuel values

end Definitions

variable {ascent : Ascent κ α}

theorem foldl_visit_of_notMem (keys : List κ) (values : κ → α) {key : κ} (h : key ∉ keys) :
    keys.foldl ascent.visit values key = values key := by
  induction keys generalizing values with
  | nil => rfl
  | cons first keys ih =>
      rw [List.mem_cons, not_or] at h
      rw [List.foldl_cons, ih _ h.2, visit, Function.update_of_ne h.1]

-- What every visit keeps holds of the solution.
theorem solve_invariant [DecidableEq α] {Invariant : (κ → α) → Prop}
    (hvisit : ∀ values, ∀ key ∈ ascent.keys, Invariant values → Invariant (ascent.visit values key))
    (fuel : Nat) {values : κ → α} (h : Invariant values) :
    Invariant (ascent.solve fuel values) := by
  have hfoldl (keys : List κ) (hkeys : ∀ key ∈ keys, key ∈ ascent.keys) (before : κ → α)
      (hbefore : Invariant before) : Invariant (keys.foldl ascent.visit before) := by
    induction keys generalizing before with
    | nil => exact hbefore
    | cons key keys ih =>
        exact ih (fun other hother => hkeys other (List.mem_cons_of_mem _ hother)) _
          (hvisit before key (hkeys key List.mem_cons_self) hbefore)
  exact settle_invariant (fun before => hfoldl ascent.keys (fun _ => id) before) fuel h

variable [PartialOrder α]

-- No key has more than its equation gives it.
def Ascending (ascent : Ascent κ α) (values : κ → α) : Prop :=
  ∀ key ∈ ascent.keys, values key ≤ ascent.step values key

theorem Ascending.le_visit {values : κ → α} (h : ascent.Ascending values) {key : κ}
    (hkey : key ∈ ascent.keys) : values ≤ ascent.visit values key := by
  intro other
  by_cases hother : other = key
  · subst hother
    rw [visit, Function.update_self]
    exact h other hkey
  · rw [visit, Function.update_of_ne hother]

section Monotone

variable (hmono : Monotone ascent.step)

include hmono

theorem Ascending.visit {values : κ → α} (h : ascent.Ascending values) {key : κ}
    (hkey : key ∈ ascent.keys) : ascent.Ascending (ascent.visit values key) := by
  intro other hother
  have hgrown := hmono (h.le_visit hkey) other
  refine le_trans ?_ hgrown
  by_cases heq : other = key
  · subst heq
    rw [Ascent.visit, Function.update_self]
  · rw [Ascent.visit, Function.update_of_ne heq]
    exact h other hother

theorem Ascending.foldl_visit {values : κ → α} (h : ascent.Ascending values) {keys : List κ}
    (hkeys : ∀ key ∈ keys, key ∈ ascent.keys) :
    ascent.Ascending (keys.foldl ascent.visit values) ∧ values ≤ keys.foldl ascent.visit values := by
  induction keys generalizing values with
  | nil => exact ⟨h, le_rfl⟩
  | cons key keys ih =>
      have hkey := hkeys key List.mem_cons_self
      obtain ⟨hascending, hle⟩ := ih (h.visit hmono hkey)
        fun other hother => hkeys other (List.mem_cons_of_mem _ hother)
      exact ⟨hascending, (h.le_visit hkey).trans hle⟩

theorem Ascending.step_eq_of_foldl {values : κ → α} (h : ascent.Ascending values) {keys : List κ}
    (hkeys : ∀ key ∈ keys, key ∈ ascent.keys) (hsame : keys.foldl ascent.visit values = values)
    {key : κ} (hkey : key ∈ keys) : values key = ascent.step values key := by
  induction keys generalizing values with
  | nil => exact absurd hkey List.not_mem_nil
  | cons first keys ih =>
      have hfirstKey := hkeys first List.mem_cons_self
      have hrestKeys : ∀ other ∈ keys, other ∈ ascent.keys :=
        fun other hother => hkeys other (List.mem_cons_of_mem _ hother)
      have hfirst : ascent.visit values first = values := by
        refine le_antisymm ?_ (h.le_visit hfirstKey)
        have hrest := ((h.visit hmono hfirstKey).foldl_visit hmono hrestKeys).2
        rwa [← List.foldl_cons, hsame] at hrest
      rcases List.mem_cons.mp hkey with rfl | hkey
      · have := congrFun hfirst key
        rw [Ascent.visit, Function.update_self] at this
        exact this.symm
      · refine ih h hrestKeys ?_ hkey
        rwa [List.foldl_cons, hfirst] at hsame

end Monotone

-- How much the values can still grow.
def slack (ascent : Ascent κ α) (rank : α → Nat) (most : α) (values : κ → α) : Nat :=
  (ascent.keys.map fun key => rank most - rank (values key)).sum

theorem foldl_visit_le {most : α}
    (hmost : ∀ values, (∀ key, values key ≤ most) → ∀ key, ascent.step values key ≤ most)
    (keys : List κ) {values : κ → α} (hvalues : ∀ key, values key ≤ most) (key : κ) :
    keys.foldl ascent.visit values key ≤ most := by
  induction keys generalizing values with
  | nil => exact hvalues key
  | cons first keys ih =>
      refine ih fun other => ?_
      by_cases hother : other = first
      · subst hother
        rw [visit, Function.update_self]
        exact hmost values hvalues other
      · rw [visit, Function.update_of_ne hother]
        exact hvalues other

omit [DecidableEq κ] in
theorem slack_lt {rank : α → Nat} {most : α} (hrank : StrictMono rank) {values other : κ → α}
    (hle : values ≤ other) (hother : ∀ key, other key ≤ most) {changed : κ}
    (hmem : changed ∈ ascent.keys) (hne : values changed ≠ other changed) :
    ascent.slack rank most other < ascent.slack rank most values := by
  refine List.sum_lt_sum _ _ (fun key _ => ?_) ⟨changed, hmem, ?_⟩
  · exact Nat.sub_le_sub_left (hrank.monotone (hle key)) _
  · have hgrown := hrank (lt_of_le_of_ne (hle changed) hne)
    have hbound := hrank.monotone (hother changed)
    omega

omit [DecidableEq κ] [PartialOrder α] in
theorem slack_le (rank : α → Nat) (most : α) (values : κ → α) :
    ascent.slack rank most values ≤ ascent.keys.length * rank most := by
  have hbound := List.sum_le_card_nsmul
    (ascent.keys.map fun key => rank most - rank (values key)) (rank most) (by
      intro height hheight
      obtain ⟨other, _, rfl⟩ := List.mem_map.mp hheight
      omega)
  simpa [slack] using hbound

section Rounds

variable [DecidableEq α] {rank : α → Nat} {most : α} (hrank : StrictMono rank)
  (hmono : Monotone ascent.step)
  (hmost : ∀ values, (∀ key, values key ≤ most) → ∀ key, ascent.step values key ≤ most)

include hmono hmost in
omit [DecidableEq α] in
theorem round_bounded {values : κ → α} (h : ascent.Ascending values ∧ ∀ key, values key ≤ most) :
    ascent.Ascending (ascent.round values) ∧ ∀ key, ascent.round values key ≤ most :=
  ⟨(h.1.foldl_visit hmono fun _ => id).1, foldl_visit_le hmost ascent.keys h.2⟩

include hrank hmono hmost in
theorem slack_round_lt {values : κ → α} (h : ascent.Ascending values ∧ ∀ key, values key ≤ most)
    (hchanged : ascent.unchanged values (ascent.round values) = false) :
    ascent.slack rank most (ascent.round values) < ascent.slack rank most values := by
  obtain ⟨changed, hmem, hne⟩ := List.all_eq_false.mp hchanged
  exact slack_lt hrank (h.1.foldl_visit hmono fun _ => id).2 (round_bounded hmono hmost h).2 hmem
    (by simpa using hne)

omit [PartialOrder α] in
theorem round_eq_of_unchanged {values : κ → α}
    (h : ascent.unchanged values (ascent.round values) = true) : ascent.round values = values := by
  funext other
  by_cases hother : other ∈ ascent.keys
  · exact (of_decide_eq_true (List.all_eq_true.mp h other hother)).symm
  · exact foldl_visit_of_notMem ascent.keys values hother

variable {values : κ → α} (h : ascent.Ascending values) (hvalues : ∀ key, values key ≤ most)
  {fuel : Nat} (hfuel : ascent.keys.length * rank most ≤ fuel)

include hrank hmono hmost h hvalues hfuel

-- With as much fuel as the values can grow, the rounds end by themselves.
theorem solve_ends : Ends ascent.unchanged ascent.round values (ascent.solve fuel values) := by
  have hround (before : κ → α) (hbefore : ascent.Ascending before ∧ ∀ key, before key ≤ most) :
      ascent.Ascending (ascent.round before) ∧ ∀ key, ascent.round before key ≤ most :=
    round_bounded hmono hmost hbefore
  exact settle_ends (ascent.slack rank most) hround (fun _ => slack_round_lt hrank hmono hmost)
    ⟨h, hvalues⟩ ((slack_le rank most values).trans hfuel)

-- Each key ends with what its equation gives it.
theorem solve_fixed {key : κ} (hkey : key ∈ ascent.keys) :
    ascent.solve fuel values key = ascent.step (ascent.solve fuel values) key := by
  have hround (before : κ → α) (hbefore : ascent.Ascending before ∧ ∀ key, before key ≤ most) :
      ascent.Ascending (ascent.round before) ∧ ∀ key, ascent.round before key ≤ most :=
    round_bounded hmono hmost hbefore
  have hfixed : ascent.round (ascent.solve fuel values) = ascent.solve fuel values :=
    settle_fixed (ascent.slack rank most) hround (fun _ _ => round_eq_of_unchanged)
      (fun _ => slack_round_lt hrank hmono hmost) ⟨h, hvalues⟩
      ((slack_le rank most values).trans hfuel)
  exact (settle_invariant hround fuel ⟨h, hvalues⟩).1.step_eq_of_foldl hmono (fun _ => id) hfixed hkey

end Rounds

-- No solution that has what the values start with has less than they end with.
theorem solve_le [DecidableEq α] (hmono : Monotone ascent.step) {solution : κ → α}
    (hsolution : ∀ key ∈ ascent.keys, ascent.step solution key ≤ solution key) (fuel : Nat)
    {values : κ → α} (hvalues : values ≤ solution) : ascent.solve fuel values ≤ solution := by
  have hvisit (before : κ → α) (key : κ) (hkey : key ∈ ascent.keys) (hbefore : before ≤ solution) :
      ascent.visit before key ≤ solution := by
    intro other
    by_cases hother : other = key
    · subst hother
      rw [visit, Function.update_self]
      exact (hmono hbefore other).trans (hsolution other hkey)
    · rw [visit, Function.update_of_ne hother]
      exact hbefore other
  exact solve_invariant hvisit fuel hvalues

section Sets

variable {φ : Type v} [DecidableEq φ] {sets : Ascent κ (Finset φ)}

-- Where only finitely many elements can come up, the rounds end by themselves, in the least solution.
theorem exists_solve (hmono : Monotone sets.step) {P : φ → Prop}
    (hfinite : {element | P element}.Finite)
    (hstep : ∀ values, (∀ key, ∀ element ∈ values key, P element) →
      ∀ key, ∀ element ∈ sets.step values key, P element) :
    ∃ bound, ∀ fuel, bound ≤ fuel →
      Ends sets.unchanged sets.round (fun _ => ∅) (sets.solve fuel fun _ => ∅) ∧
        IsLeast {values | ∀ key ∈ sets.keys, values key = sets.step values key}
          (sets.solve fuel fun _ => ∅) := by
  have hmost (values : κ → Finset φ) (hvalues : ∀ key, values key ≤ hfinite.toFinset) (key : κ) :
      sets.step values key ≤ hfinite.toFinset := by
    refine fun element helement => (Set.Finite.mem_toFinset hfinite).mpr ?_
    refine hstep values (fun other found hfound => ?_) key element helement
    exact (Set.Finite.mem_toFinset hfinite).mp (hvalues other hfound)
  have hstart : sets.Ascending fun _ => ∅ := fun key _ => Finset.empty_subset _
  have hnone : ∀ key : κ, (fun _ => ∅ : κ → Finset φ) key ≤ hfinite.toFinset :=
    fun _ => Finset.empty_subset _
  refine ⟨sets.keys.length * hfinite.toFinset.card, fun fuel hfuel => ⟨?_, ?_, ?_⟩⟩
  · exact solve_ends Finset.card_strictMono hmono hmost hstart hnone hfuel
  · exact fun key hkey => solve_fixed Finset.card_strictMono hmono hmost hstart hnone hfuel hkey
  · intro solution hsolution
    refine solve_le hmono (fun key hkey => ?_) fuel fun key => Finset.empty_subset _
    exact (hsolution key hkey).ge

end Sets

end Ascent

end ConcurrencyAnalyzer.Library
