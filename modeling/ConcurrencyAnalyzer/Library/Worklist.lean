import Mathlib.Algebra.Order.BigOperators.Group.Finset
import Mathlib.Order.Defs.LinearOrder

namespace ConcurrencyAnalyzer.Library.Worklist

variable {κ ℓ : Type*} [DecidableEq κ] [LinearOrder ℓ]

-- The key was visited at this level or at a lower one.
def covered (seen : κ → Option ℓ) (key : κ) (level : ℓ) : Bool :=
  (seen key).any (· ≤ level)

-- A stack of keys, each to be visited at a level. A visit gives what to stack, or gives the search up.
def run (visit : κ → ℓ → Option (List (κ × ℓ))) :
    Nat → (κ → Option ℓ) → List (κ × ℓ) → Option (κ → Option ℓ)
  | 0, seen, _ => some seen
  | _ + 1, seen, [] => some seen
  | fuel + 1, seen, (key, level) :: pending =>
      if covered seen key level then run visit fuel seen pending
      else
        match visit key level with
        | none => none
        | some next =>
            run visit fuel (Function.update seen key (some level)) (next.reverse ++ pending)

-- What visits lead to from a stack.
inductive Reaches (visit : κ → ℓ → Option (List (κ × ℓ))) (roots : List (κ × ℓ)) : κ → ℓ → Prop
  | root {key level} : (key, level) ∈ roots → Reaches visit roots key level
  | step {key level next successor lower} : Reaches visit roots key level →
      visit key level = some next → (successor, lower) ∈ next → Reaches visit roots successor lower

-- At a lower level a visit leads to no less.
def Weakens (visit : κ → ℓ → Option (List (κ × ℓ))) : Prop :=
  ∀ key lower level next, lower ≤ level → visit key level = some next →
    ∀ found, visit key lower = some found →
      ∀ successor reached, (successor, reached) ∈ next → ∃ below ≤ reached, (successor, below) ∈ found

variable {visit : κ → ℓ → Option (List (κ × ℓ))} {roots pending : List (κ × ℓ)}
  {seen : κ → Option ℓ}

omit [DecidableEq κ] in
theorem covered_iff {key : κ} {level : ℓ} :
    covered seen key level = true ↔ ∃ lower ≤ level, seen key = some lower := by
  unfold covered
  cases seen key with
  | none => simp
  | some lower => simp

section Sound

-- Only what visits lead to is marked.
theorem run_sound (fuel : Nat) (hpending : ∀ pair ∈ pending, Reaches visit roots pair.1 pair.2)
    (hseen : ∀ key level, seen key = some level → Reaches visit roots key level) :
    (run visit fuel seen pending = none →
      ∃ key level, Reaches visit roots key level ∧ visit key level = none) ∧
    ∀ result, run visit fuel seen pending = some result →
      ∀ key level, result key = some level → Reaches visit roots key level := by
  have hend : (some seen = none →
      ∃ key level, Reaches visit roots key level ∧ visit key level = none) ∧
      ∀ result, some seen = some result →
        ∀ key level, result key = some level → Reaches visit roots key level := by
    refine ⟨fun h => (by cases h), fun result h => ?_⟩
    cases h
    exact hseen
  induction fuel generalizing seen pending with
  | zero => exact hend
  | succ fuel ih =>
      cases pending with
      | nil => exact hend
      | cons pair pending =>
          obtain ⟨key, level⟩ := pair
          obtain ⟨hpair, hpending⟩ := List.forall_mem_cons.mp hpending
          unfold run
          by_cases hcovered : covered seen key level = true
          · rw [if_pos hcovered]
            exact ih hpending hseen hend
          · rw [if_neg hcovered]
            cases hvisit : visit key level with
            | none => exact ⟨fun _ => ⟨key, level, hpair, hvisit⟩, fun result h => by cases h⟩
            | some next =>
                have hmarked : ∀ other lower,
                    Function.update seen key (some level) other = some lower →
                      Reaches visit roots other lower := by
                  intro other lower hother
                  by_cases heq : other = key
                  · subst heq
                    rw [Function.update_self, Option.some.injEq] at hother
                    exact hother ▸ hpair
                  · rw [Function.update_of_ne heq] at hother
                    exact hseen other lower hother
                refine ih ?_ hmarked ⟨fun h => (by cases h), fun result h => ?_⟩
                · intro successor hmem
                  rcases List.mem_append.mp hmem with hnew | hold
                  · exact hpair.step hvisit (List.mem_reverse.mp hnew)
                  · exact hpending successor hold
                · cases h
                  exact hmarked

end Sound

section Complete

-- A pair is stacked or covered, each at this level or at a lower one.
def Owed (seen : κ → Option ℓ) (pending : List (κ × ℓ)) (key : κ) (level : ℓ) : Prop :=
  ∃ lower ≤ level, (key, lower) ∈ pending ∨ seen key = some lower

-- What every marked key leads to is owed, and so are the roots.
structure Closing (visit : κ → ℓ → Option (List (κ × ℓ))) (roots : List (κ × ℓ))
    (seen : κ → Option ℓ) (pending : List (κ × ℓ)) : Prop where
  roots : ∀ pair ∈ roots, Owed seen pending pair.1 pair.2
  visited : ∀ key level, seen key = some level → ∃ next, visit key level = some next ∧
    ∀ pair ∈ next, Owed seen pending pair.1 pair.2

omit [DecidableEq κ] in
theorem Closing.initial (roots : List (κ × ℓ)) : Closing visit roots (fun _ => none) roots where
  roots pair hmem := ⟨pair.2, le_rfl, .inl hmem⟩
  visited _ _ h := by cases h

omit [DecidableEq κ] in
-- A covered pair is owed nothing.
theorem Closing.skip {key : κ} {level : ℓ} (h : Closing visit roots seen ((key, level) :: pending))
    (hcovered : covered seen key level = true) : Closing visit roots seen pending := by
  have howed (other : κ) (high : ℓ) (hother : Owed seen ((key, level) :: pending) other high) :
      Owed seen pending other high := by
    obtain ⟨lower, hle, hmem | hseen⟩ := hother
    · rcases List.mem_cons.mp hmem with heq | hmem
      · rw [Prod.mk.injEq] at heq
        obtain ⟨rfl, rfl⟩ := heq
        obtain ⟨least, hleast, hseen⟩ := covered_iff.mp hcovered
        exact ⟨least, hleast.trans hle, .inr hseen⟩
      · exact ⟨lower, hle, .inl hmem⟩
    · exact ⟨lower, hle, .inr hseen⟩
  refine ⟨fun pair hmem => howed _ _ (h.roots pair hmem), ?_⟩
  intro other high hother
  obtain ⟨next, hvisit, hnext⟩ := h.visited other high hother
  exact ⟨next, hvisit, fun pair hmem => howed _ _ (hnext pair hmem)⟩

theorem Closing.mark {key : κ} {level : ℓ} {next : List (κ × ℓ)}
    (h : Closing visit roots seen ((key, level) :: pending))
    (hcovered : ¬covered seen key level = true) (hvisit : visit key level = some next) :
    Closing visit roots (Function.update seen key (some level)) (next.reverse ++ pending) := by
  have howed (other : κ) (high : ℓ) (hother : Owed seen ((key, level) :: pending) other high) :
      Owed (Function.update seen key (some level)) (next.reverse ++ pending) other high := by
    obtain ⟨lower, hle, hmem | hseen⟩ := hother
    · rcases List.mem_cons.mp hmem with heq | hmem
      · rw [Prod.mk.injEq] at heq
        obtain ⟨rfl, rfl⟩ := heq
        exact ⟨lower, hle, .inr (Function.update_self ..)⟩
      · exact ⟨lower, hle, .inl (List.mem_append_right _ hmem)⟩
    · by_cases heq : other = key
      · subst heq
        have hlt : level ≤ lower := by
          by_contra hnot
          exact hcovered (covered_iff.mpr ⟨lower, (not_le.mp hnot).le, hseen⟩)
        exact ⟨level, hlt.trans hle, .inr (Function.update_self ..)⟩
      · exact ⟨lower, hle, .inr (by rwa [Function.update_of_ne heq])⟩
  refine ⟨fun pair hmem => howed _ _ (h.roots pair hmem), ?_⟩
  intro other high hother
  by_cases heq : other = key
  · subst heq
    rw [Function.update_self, Option.some.injEq] at hother
    subst hother
    refine ⟨next, hvisit, fun pair hmem => ⟨pair.2, le_rfl, .inl ?_⟩⟩
    exact List.mem_append_left _ (List.mem_reverse.mpr hmem)
  · rw [Function.update_of_ne heq] at hother
    obtain ⟨found, hfound, hnext⟩ := h.visited other high hother
    exact ⟨found, hfound, fun pair hmem => howed _ _ (hnext pair hmem)⟩

omit [DecidableEq κ] in
-- With nothing left on the stack every pair that visits lead to is covered.
theorem Closing.covers (h : Closing visit roots seen []) (hweakens : Weakens visit) {key : κ}
    {level : ℓ} (hreaches : Reaches visit roots key level) :
    ∃ lower ≤ level, seen key = some lower ∧ ∃ next, visit key lower = some next := by
  have hmarked (other : κ) (high : ℓ) (howed : Owed seen [] other high) :
      ∃ lower ≤ high, seen other = some lower ∧ ∃ next, visit other lower = some next := by
    obtain ⟨lower, hle, hmem | hseen⟩ := howed
    · exact absurd hmem List.not_mem_nil
    · obtain ⟨next, hvisit, _⟩ := h.visited other lower hseen
      exact ⟨lower, hle, hseen, next, hvisit⟩
  induction hreaches with
  | root hmem => exact hmarked _ _ (h.roots _ hmem)
  | @step key level next successor reached _ hvisit hmem ih =>
      obtain ⟨lower, hle, hseen, _⟩ := ih
      obtain ⟨found, hfound, hnext⟩ := h.visited key lower hseen
      obtain ⟨below, hbelow, hin⟩ := hweakens key lower level next hle hvisit found hfound _ _ hmem
      obtain ⟨least, hleast, howed⟩ := hnext _ hin
      exact hmarked _ _ ⟨least, hleast.trans hbelow, howed⟩

end Complete

section Rounds

variable (rank : ℓ → Nat) (height : Nat) (bound : Finset κ) (width : κ → Nat)

-- How much lower the levels of a key can still get.
def slack (seen : κ → Option ℓ) (key : κ) : Nat := ((seen key).map rank).getD height

-- Stacked pairs, and those that visits may still stack, which each round has fewer of.
def measure (seen : κ → Option ℓ) (pending : List (κ × ℓ)) : Nat :=
  pending.length + ∑ key ∈ bound, slack rank height seen key * (1 + width key)

variable {rank height bound width}

theorem measure_visit {key : κ} {level : ℓ} {next : List (κ × ℓ)} (hrank : StrictMono rank)
    (hheight : ∀ level, rank level < height) (hkey : key ∈ bound)
    (hwidth : next.length ≤ width key) (hcovered : ¬covered seen key level = true) :
    measure rank height bound width (Function.update seen key (some level))
        (next.reverse ++ pending) <
      measure rank height bound width seen ((key, level) :: pending) := by
  have hless : rank level < slack rank height seen key := by
    unfold slack
    cases hseen : seen key with
    | none => exact hheight level
    | some high =>
        refine hrank (lt_of_not_ge fun hle => hcovered ?_)
        exact covered_iff.mpr ⟨high, hle, hseen⟩
  have hrest : ∑ other ∈ bound.erase key,
      slack rank height (Function.update seen key (some level)) other * (1 + width other) =
      ∑ other ∈ bound.erase key, slack rank height seen other * (1 + width other) := by
    refine Finset.sum_congr rfl fun other hother => ?_
    rw [slack, slack, Function.update_of_ne (Finset.ne_of_mem_erase hother)]
  have hself : slack rank height (Function.update seen key (some level)) key = rank level := by
    rw [slack, Function.update_self]
    rfl
  have hgain : rank level * (1 + width key) + (1 + width key) ≤
      slack rank height seen key * (1 + width key) := by
    rw [← Nat.succ_mul]
    exact Nat.mul_le_mul_right _ hless
  unfold measure
  rw [← Finset.add_sum_erase _ _ hkey, ← Finset.add_sum_erase bound
    (fun other => slack rank height seen other * (1 + width other)) hkey, hrest, hself]
  simp only [List.length_append, List.length_reverse, List.length_cons]
  omega

-- With as much fuel as the measure says, the loop ends with nothing left on the stack.
theorem run_closing (hrank : StrictMono rank) (hheight : ∀ level, rank level < height)
    (hkeys : ∀ key level next, visit key level = some next → ∀ pair ∈ next, pair.1 ∈ bound)
    (hwidth : ∀ key level next, visit key level = some next → next.length ≤ width key)
    {fuel : Nat} (hpending : ∀ pair ∈ pending, pair.1 ∈ bound)
    (hclosing : Closing visit roots seen pending)
    (hfuel : measure rank height bound width seen pending ≤ fuel) {result : κ → Option ℓ}
    (hrun : run visit fuel seen pending = some result) : Closing visit roots result [] := by
  induction fuel generalizing seen pending with
  | zero =>
      have hnil : pending = [] := List.length_eq_zero_iff.mp (by unfold measure at hfuel; omega)
      cases hrun
      exact hnil ▸ hclosing
  | succ fuel ih =>
      cases pending with
      | nil =>
          cases hrun
          exact hclosing
      | cons pair pending =>
          obtain ⟨key, level⟩ := pair
          obtain ⟨hkey, hpending⟩ := List.forall_mem_cons.mp hpending
          unfold run at hrun
          by_cases hcovered : covered seen key level = true
          · rw [if_pos hcovered] at hrun
            refine ih hpending (hclosing.skip hcovered) ?_ hrun
            unfold measure at hfuel ⊢
            rw [List.length_cons] at hfuel
            omega
          · rw [if_neg hcovered] at hrun
            cases hvisit : visit key level with
            | none =>
                rw [hvisit] at hrun
                cases hrun
            | some next =>
                rw [hvisit] at hrun
                refine ih ?_ (hclosing.mark hcovered hvisit) ?_ hrun
                · intro other hmem
                  rcases List.mem_append.mp hmem with hnew | hold
                  · exact hkeys key level next hvisit other (List.mem_reverse.mp hnew)
                  · exact hpending other hold
                · have hless : measure rank height bound width _ (next.reverse ++ pending) <
                      measure rank height bound width seen ((key, level) :: pending) :=
                    measure_visit hrank hheight hkey (hwidth key level next hvisit) hcovered
                  omega

-- Where no visit gives up, each key that visits lead to is marked at the lowest level they do.
theorem run_sound_and_covers (hrank : StrictMono rank) (hheight : ∀ level, rank level < height)
    (hkeys : ∀ key level next, visit key level = some next → ∀ pair ∈ next, pair.1 ∈ bound)
    (hwidth : ∀ key level next, visit key level = some next → next.length ≤ width key)
    (hroots : ∀ pair ∈ roots, pair.1 ∈ bound) (hweakens : Weakens visit)
    (htotal : ∀ key level, visit key level ≠ none) {fuel : Nat}
    (hfuel : roots.length + ∑ key ∈ bound, height * (1 + width key) ≤ fuel) :
    ∃ result, run visit fuel (fun _ => none) roots = some result ∧
      (∀ key level, result key = some level → Reaches visit roots key level) ∧
      ∀ key level, Reaches visit roots key level → ∃ lower ≤ level, result key = some lower := by
  have hnone : ∀ key level, (fun _ => none : κ → Option ℓ) key = some level →
      Reaches visit roots key level := fun _ _ h => by cases h
  have hsound := run_sound fuel (fun _ hmem => .root hmem) hnone
  cases hrun : run visit fuel (fun _ => none) roots with
  | none =>
      obtain ⟨key, level, _, hvisit⟩ := hsound.1 hrun
      exact absurd hvisit (htotal key level)
  | some result =>
      refine ⟨result, rfl, hsound.2 result hrun, fun key level hreaches => ?_⟩
      have hclosing : Closing visit roots result [] :=
        run_closing hrank hheight hkeys hwidth hroots (Closing.initial roots) hfuel hrun
      obtain ⟨lower, hle, hresult, _⟩ := hclosing.covers hweakens hreaches
      exact ⟨lower, hle, hresult⟩

end Rounds

section OneLevel

variable {visit : κ → Unit → Option (List (κ × Unit))} {roots : List (κ × Unit)} {bound : Finset κ}
  {width : κ → Nat}

-- Where there is one level, the search is given up exactly when some visit it leads to would.
theorem run_isSome_iff (hroots : ∀ pair ∈ roots, pair.1 ∈ bound)
    (hkeys : ∀ key level next, visit key level = some next → ∀ pair ∈ next, pair.1 ∈ bound)
    (hwidth : ∀ key level next, visit key level = some next → next.length ≤ width key) {fuel : Nat}
    (hfuel : roots.length + ∑ key ∈ bound, (1 + width key) ≤ fuel) :
    (run visit fuel (fun _ => none) roots).isSome = true ↔
      ∀ key, Reaches visit roots key () → visit key () ≠ none := by
  have hnone : ∀ key level, (fun _ => none : κ → Option Unit) key = some level →
      Reaches visit roots key level := fun _ _ h => by cases h
  cases hrun : run visit fuel (fun _ => none) roots with
  | none =>
      obtain ⟨key, _, hreaches, hnone⟩ := (run_sound fuel (fun _ hmem => .root hmem) hnone).1 hrun
      simp only [Option.isSome_none, Bool.false_eq_true, false_iff, not_forall, not_not]
      exact ⟨key, hreaches, hnone⟩
  | some result =>
      simp only [Option.isSome_some, true_iff]
      intro key hreaches
      have hrank : StrictMono fun _ : Unit => 0 := fun _ _ hlt => absurd hlt (lt_irrefl _)
      have hmeasure : measure (fun _ : Unit => 0) 1 bound width (fun _ => none) roots ≤ fuel := by
        simpa [measure, slack] using hfuel
      have hclosing : Closing visit roots result [] :=
        run_closing hrank (fun _ => Nat.one_pos) hkeys hwidth hroots (Closing.initial roots) hmeasure
          hrun
      have hweakens : Weakens visit := by
        intro key lower level next _ hnext found hfound successor reached hmem
        rw [hnext, Option.some.injEq] at hfound
        exact ⟨reached, le_rfl, hfound ▸ hmem⟩
      obtain ⟨_, _, _, next, hnext⟩ := hclosing.covers hweakens hreaches
      rw [hnext]
      exact Option.some_ne_none next

end OneLevel

end ConcurrencyAnalyzer.Library.Worklist
