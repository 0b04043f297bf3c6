import Mathlib.Order.Lattice.Nat
import Mathlib.Data.Set.Finite.Lattice
import Mathlib.Order.Interval.Finset.Nat
import Mathlib.Logic.Function.Iterate
import Mathlib.Logic.Relation

namespace ConcurrencyAnalyzer.Library.Saturation

open Relation

section Reached

variable {α ρ : Type*}

-- What is reached from the start by a chain of `n` steps.
def within (Step : α → α → Prop) (start : Set α) : Nat → Set α
  | 0 => start
  | n + 1 => {y | ∃ x ∈ within Step start n, Step x y}

def Reached (Step : α → α → Prop) (start : Set α) (x : α) : Prop :=
  ∃ s ∈ start, ReflTransGen Step s x

variable {Step : α → α → Prop} {start : Set α}

theorem Reached.of_mem {x : α} (h : x ∈ start) : Reached Step start x := ⟨x, h, .refl⟩

theorem Reached.step {x y : α} (h : Reached Step start x) (hstep : Step x y) :
    Reached Step start y := by
  obtain ⟨s, hs, hpath⟩ := h
  exact ⟨s, hs, hpath.tail hstep⟩

theorem Reached.induct {P : α → Prop} {x : α} (h : Reached Step start x) (hstart : ∀ s ∈ start, P s)
    (hstep : ∀ x y, P x → Step x y → P y) : P x := by
  obtain ⟨s, hs, hpath⟩ := h
  induction hpath with
  | refl => exact hstart s hs
  | tail _ hlast ih => exact hstep _ _ ih hlast

theorem within_finite (hstart : start.Finite) (hbranch : ∀ x, {y | Step x y}.Finite) (n : Nat) :
    (within Step start n).Finite := by
  induction n with
  | zero => exact hstart
  | succ n ih =>
      have hunion : within Step start (n + 1) = ⋃ x ∈ within Step start n, {y | Step x y} := by
        ext y
        simp [within]
      rw [hunion]
      exact ih.biUnion fun x _ => hbranch x

theorem reached_iff_within {x : α} : Reached Step start x ↔ ∃ n, x ∈ within Step start n := by
  constructor
  · intro h
    apply h.induct
    · intro s hs
      exact ⟨0, hs⟩
    · rintro x y ⟨n, hn⟩ hstep
      exact ⟨n + 1, x, hn, hstep⟩
  · rintro ⟨n, hn⟩
    induction n generalizing x with
    | zero => exact .of_mem hn
    | succ n ih =>
        obtain ⟨before, hbefore, hstep⟩ := hn
        exact (ih hbefore).step hstep

-- The elements along a chain of `n` steps.
theorem exists_path {n : Nat} {x : α} (h : x ∈ within Step start n) :
    ∃ path : Nat → α, path 0 ∈ start ∧ (∀ i < n, Step (path i) (path (i + 1))) ∧ path n = x := by
  induction n generalizing x with
  | zero => exact ⟨fun _ => x, h, fun i hi => by omega, rfl⟩
  | succ n ih =>
      obtain ⟨before, hbefore, hstep⟩ := h
      obtain ⟨path, hstart, hsteps, hend⟩ := ih hbefore
      refine ⟨fun i => if i ≤ n then path i else x, by simpa using hstart, ?_, by simp⟩
      intro i hi
      by_cases hlast : i = n
      · subst hlast
        have hnot : ¬i + 1 ≤ i := by omega
        simpa [hend, hnot] using hstep
      · have hle : i ≤ n := by omega
        have hle' : i + 1 ≤ n := by omega
        simpa [hle, hle'] using hsteps i (by omega)

theorem mem_within_of_path {path : Nat → α} {i k : Nat} (h : path i ∈ within Step start k) {n : Nat}
    (hsteps : ∀ j, i ≤ j → j < i + n → Step (path j) (path (j + 1))) :
    path (i + n) ∈ within Step start (k + n) := by
  induction n with
  | zero => exact h
  | succ n ih =>
      exact ⟨path (i + n), ih fun j hj hlt => hsteps j hj (by omega),
        hsteps (i + n) (by omega) (by omega)⟩

theorem transGen_of_path {path : Nat → α} {n : Nat}
    (hsteps : ∀ i < n, Step (path i) (path (i + 1))) {i j : Nat} (hij : i < j) (hj : j ≤ n) :
    TransGen Step (path i) (path j) := by
  induction j with
  | zero => omega
  | succ j ih =>
      have hlast := hsteps j (by omega)
      by_cases h : i = j
      · subst h
        exact .single hlast
      · exact (ih (by omega) (by omega)).tail hlast

-- A shortest chain meets no root twice where only the element itself comes back to its root, so the
-- roots bound its length.
theorem reached_finite (root : α → ρ) (hstart : start.Finite)
    (hbranch : ∀ x, {y | Step x y}.Finite) (hroots : (root '' {x | Reached Step start x}).Finite)
    (hreturn : ∀ x, Reached Step start x → ∀ y, TransGen Step x y → root x = root y → x = y) :
    {x | Reached Step start x}.Finite := by
  classical
  set bound := hroots.toFinset.card
  have hshort : ∀ x, Reached Step start x → ∃ n < bound, x ∈ within Step start n := by
    intro x hx
    have hwithin := reached_iff_within.mp hx
    obtain ⟨path, hfirst, hsteps, hend⟩ := exists_path (Nat.find_spec hwithin)
    set n := Nat.find hwithin
    have hreached : ∀ i ≤ n, path i ∈ within Step start i := by
      intro i hi
      have := mem_within_of_path (i := 0) (k := 0) (n := i) hfirst fun j _ hj => hsteps j (by omega)
      simpa using this
    have hdistinct : ∀ i j, i < j → j ≤ n → root (path i) ≠ root (path j) := by
      intro i j hij hj hroot
      have hsame := hreturn (path i) (reached_iff_within.mpr ⟨i, hreached i (by omega)⟩) (path j)
        (transGen_of_path hsteps hij hj) hroot
      have hcut : path (j + (n - j)) ∈ within Step start (i + (n - j)) := by
        apply mem_within_of_path
        · rw [← hsame]
          exact hreached i (by omega)
        · intro k hk hlt
          exact hsteps k (by omega)
      have hn : j + (n - j) = n := by omega
      rw [hn, hend] at hcut
      have hmin : n ≤ i + (n - j) := Nat.find_min' hwithin hcut
      omega
    refine ⟨n, ?_, Nat.find_spec hwithin⟩
    have hcard : (Finset.range (n + 1)).card ≤ bound := by
      apply Finset.card_le_card_of_injOn fun i => root (path i)
      · intro i hi
        rw [Finset.coe_range, Set.mem_Iio] at hi
        rw [Set.Finite.coe_toFinset]
        exact ⟨path i, reached_iff_within.mpr ⟨i, hreached i (by omega)⟩, rfl⟩
      · intro i hi j hj hroot
        rw [Finset.coe_range, Set.mem_Iio] at hi hj
        by_contra hne
        rcases Nat.lt_or_gt_of_ne hne with hlt | hlt
        · exact hdistinct i j hlt (by omega) hroot
        · exact hdistinct j i hlt (by omega) hroot.symm
    rw [Finset.card_range] at hcard
    omega
  have hunion : (⋃ n ∈ Set.Iio bound, within Step start n).Finite :=
    (Set.finite_Iio bound).biUnion fun n _ => within_finite hstart hbranch n
  apply hunion.subset
  intro x hx
  obtain ⟨n, hn, hmem⟩ := hshort x hx
  simp only [Set.mem_iUnion]
  exact ⟨n, hn, hmem⟩

-- Steps that leave the rank alone only ever lead through finitely many elements, and the others raise
-- it: rank by rank, what is reached is what those few steps make of what the ranks below lead to.
theorem reached_finite_of_rank (rank : α → Nat) (Around : α → α → Prop) {bound : Nat}
    (hrank : ∀ x, Reached Step start x → rank x < bound) (hstart : start.Finite)
    (hbranch : ∀ x, {y | Step x y}.Finite)
    (hstep : ∀ x y, Reached Step start x → Step x y → Around x y ∧ rank x = rank y ∨ rank x < rank y)
    (hclosed : ∀ seeds : Set α, seeds.Finite →
      ∃ closed : Set α, closed.Finite ∧ seeds ⊆ closed ∧ ∀ x ∈ closed, ∀ y, Around x y → y ∈ closed) :
    {x | Reached Step start x}.Finite := by
  have hranks : ∀ n, {x | Reached Step start x ∧ rank x < n}.Finite := by
    intro n
    induction n with
    | zero => simp
    | succ n ih =>
        have hnext : (⋃ x ∈ {x | Reached Step start x ∧ rank x < n}, {y | Step x y}).Finite :=
          ih.biUnion fun x _ => hbranch x
        obtain ⟨closed, hfinite, hseeds, haround⟩ := hclosed _ (hstart.union hnext)
        have hmem : ∀ x, Reached Step start x → rank x = n → x ∈ closed := by
          intro x hx
          have hboth : Reached Step start x ∧ (rank x = n → x ∈ closed) := by
            apply hx.induct
            · intro s hs
              exact ⟨.of_mem hs, fun _ => hseeds (Or.inl hs)⟩
            · rintro x y ⟨hreached, hx⟩ hxy
              refine ⟨hreached.step hxy, fun hy => ?_⟩
              rcases hstep x y hreached hxy with ⟨hround, hsame⟩ | hlt
              · exact haround x (hx (by omega)) y hround
              · apply hseeds
                right
                simp only [Set.mem_iUnion]
                exact ⟨x, ⟨hreached, by omega⟩, hxy⟩
          exact hboth.2
        apply (ih.union hfinite).subset
        rintro x ⟨hx, hlt⟩
        by_cases hrankx : rank x = n
        · exact Or.inr (hmem x hx hrankx)
        · exact Or.inl ⟨hx, by omega⟩
  apply (hranks bound).subset
  intro x hx
  exact ⟨hx, hrank x hx⟩

end Reached

section Rounds

variable {σ : Type*} {round : σ → σ} {Invariant : σ → Prop}

theorem iterate_invariant (hround : ∀ s, Invariant s → Invariant (round s)) {s : σ}
    (h : Invariant s) (n : Nat) : Invariant (round^[n] s) := by
  induction n with
  | zero => exact h
  | succ n ih =>
      rw [Function.iterate_succ_apply']
      exact hround _ ih

-- Rounds with a change make the measure grow, so a bound on it leaves only so many of them.
theorem exists_unchanged (Changed : σ → Prop) (measure : σ → Nat) (bound : Nat)
    (hround : ∀ s, Invariant s → Invariant (round s))
    (hbound : ∀ s, Invariant s → measure s ≤ bound)
    (hgrow : ∀ s, Invariant s → Changed s → measure s < measure (round s))
    {s : σ} (h : Invariant s) : ∃ n, ¬Changed (round^[n] s) := by
  by_contra hnone
  push Not at hnone
  have hmany : ∀ n, n ≤ measure (round^[n] s) := by
    intro n
    induction n with
    | zero => omega
    | succ n ih =>
        have := hgrow _ (iterate_invariant hround h n) (hnone n)
        rw [Function.iterate_succ_apply']
        omega
  have hlast := hbound _ (iterate_invariant hround h (bound + 1))
  have := hmany (bound + 1)
  omega

theorem exists_fixed (measure : σ → Nat) (bound : Nat)
    (hround : ∀ s, Invariant s → Invariant (round s))
    (hbound : ∀ s, Invariant s → measure s ≤ bound)
    (hgrow : ∀ s, Invariant s → round s ≠ s → measure s < measure (round s))
    {s : σ} (h : Invariant s) : ∃ n, round (round^[n] s) = round^[n] s := by
  obtain ⟨n, hn⟩ := exists_unchanged (fun s => round s ≠ s) measure bound hround hbound hgrow h
  exact ⟨n, not_not.mp hn⟩

-- Lists that only ever get longer, up to some length, stop at one of them.
theorem exists_longest {α : Type*} (lists : Nat → List α)
    (hgrow : ∀ {n m}, n ≤ m → lists n <+: lists m) {bound : Nat}
    (hbound : ∀ n, (lists n).length ≤ bound) : ∃ last, ∀ n, lists n <+: lists last := by
  have hlengths : BddAbove (Set.range fun n => (lists n).length) := by
    refine ⟨bound, ?_⟩
    rintro _ ⟨n, rfl⟩
    exact hbound n
  obtain ⟨last, hlast⟩ := Nat.sSup_mem (Set.range_nonempty _) hlengths
  refine ⟨last, fun n => ?_⟩
  have hlongest : (lists n).length ≤ (lists last).length := by
    dsimp only at hlast
    rw [hlast]
    exact le_csSup hlengths ⟨n, rfl⟩
  rcases Nat.le_total n last with h | h
  · exact hgrow h
  · rw [(hgrow h).eq_of_length_le hlongest]

end Rounds

end ConcurrencyAnalyzer.Library.Saturation
