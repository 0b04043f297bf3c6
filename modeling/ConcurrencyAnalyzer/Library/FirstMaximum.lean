import Mathlib.Data.List.Induction
import Mathlib.Order.Lattice

namespace ConcurrencyAnalyzer.Library.FirstMaximum

variable {α : Type*} (measure : α → Nat)

-- What is kept of two is the first, unless the second measures more.
def better (element : α) (present : Option α) : α :=
  match present with
  | none => element
  | some existing => if measure existing < measure element then element else existing

def keepBetter (present : Option α) (element : α) : Option α := some (better measure element present)

-- An element that measures more than all before it, and no less than those behind it.
def IsFirst (elements : List α) (best : α) : Prop :=
  ∃ before after, elements = before ++ best :: after ∧ (∀ other ∈ before, measure other < measure best) ∧
    ∀ other ∈ after, measure other ≤ measure best

variable {measure}

theorem IsFirst.mem {elements : List α} {best : α} (h : IsFirst measure elements best) :
    best ∈ elements := by
  obtain ⟨before, after, rfl, -⟩ := h
  simp

theorem IsFirst.le {elements : List α} {best other : α} (h : IsFirst measure elements best)
    (hother : other ∈ elements) : measure other ≤ measure best := by
  obtain ⟨before, after, rfl, hbefore, hafter⟩ := h
  rcases List.mem_append.mp hother with hmem | hmem
  · exact (hbefore other hmem).le
  · rcases List.mem_cons.mp hmem with rfl | hmem
    · exact le_rfl
    · exact hafter other hmem

theorem foldl_keepBetter {elements : List α} {best : α} :
    elements.foldl (keepBetter measure) none = some best ↔ IsFirst measure elements best := by
  induction elements using List.reverseRecOn generalizing best with
  | nil => simp [IsFirst]
  | append_singleton elements last ih =>
      rw [List.foldl_append, List.foldl_cons, List.foldl_nil]
      constructor
      · intro h
        cases hfold : elements.foldl (keepBetter measure) none with
        | none =>
            rw [hfold] at h
            obtain rfl := Option.some_inj.mp h
            cases elements using List.reverseRecOn with
            | nil => exact ⟨[], [], rfl, by simp, by simp⟩
            | append_singleton elements other => simp [List.foldl_append, keepBetter] at hfold
        | some found =>
            rw [hfold] at h
            have hfirst := ih.mp hfold
            have hbetter : (if measure found < measure last then last else found) = best :=
              Option.some_inj.mp h
            split at hbetter
            · rename_i hless
              subst hbetter
              exact ⟨elements, [], rfl, fun other hmem => (hfirst.le hmem).trans_lt hless, by simp⟩
            · rename_i hless
              subst hbetter
              obtain ⟨before, after, rfl, hbefore, hafter⟩ := hfirst
              refine ⟨before, after ++ [last], by simp, hbefore, fun other hmem => ?_⟩
              rcases List.mem_append.mp hmem with hmem | hmem
              · exact hafter other hmem
              · rw [List.mem_singleton.mp hmem]
                exact not_lt.mp hless
      · rintro ⟨before, after, hsplit, hbefore, hafter⟩
        cases after using List.reverseRecOn with
        | nil =>
            obtain ⟨rfl, hlast⟩ := List.append_inj' hsplit rfl
            obtain rfl := List.singleton_inj.mp hlast
            cases hfold : elements.foldl (keepBetter measure) none with
            | none => rfl
            | some found => simp [keepBetter, better, hbefore found (ih.mp hfold).mem]
        | append_singleton after other =>
            have hsplit : elements ++ [last] = (before ++ best :: after) ++ [other] := by simpa using hsplit
            obtain ⟨rfl, hlast⟩ := List.append_inj' hsplit rfl
            obtain rfl := List.singleton_inj.mp hlast
            have hfold := ih.mpr ⟨before, after, rfl, hbefore, fun other hmem =>
              hafter other (List.mem_append_left _ hmem)⟩
            have hle := hafter last (by simp)
            rw [hfold, keepBetter, better, if_neg (by omega)]

theorem foldl_keepBetter_isSome {elements : List α} (h : elements ≠ []) :
    ∃ best, elements.foldl (keepBetter measure) none = some best := by
  cases elements using List.reverseRecOn with
  | nil => exact absurd rfl h
  | append_singleton elements last =>
      rw [List.foldl_append]
      exact ⟨_, rfl⟩

end ConcurrencyAnalyzer.Library.FirstMaximum
