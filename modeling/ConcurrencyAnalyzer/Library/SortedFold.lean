import Mathlib.Data.List.Sort

namespace ConcurrencyAnalyzer.Library.SortedFold

variable {α β κ : Type*} {key : α → κ} {step : β → α → β}

-- The steps for two elements under one key may be taken in either order.
def KeyCommutes (key : α → κ) (step : β → α → β) (elements : List α) : Prop :=
  ∀ state, ∀ first ∈ elements, ∀ second ∈ elements, key first = key second →
    step (step state first) second = step (step state second) first

theorem KeyCommutes.subset {elements fewer : List α} (h : KeyCommutes key step elements)
    (hsubset : fewer ⊆ elements) : KeyCommutes key step fewer :=
  fun state first hfirst second hsecond =>
    h state first (hsubset hfirst) second (hsubset hsecond)

-- An element may be taken before all that stand in front of it under its key.
theorem foldl_move_front {front back : List α} {element : α}
    (h : KeyCommutes key step (front ++ element :: back))
    (hkey : ∀ other ∈ front, key other = key element) (state : β) :
    (front ++ element :: back).foldl step state = (element :: (front ++ back)).foldl step state := by
  induction front generalizing state with
  | nil => rfl
  | cons head front ih =>
      have hrest : KeyCommutes key step (front ++ element :: back) :=
        h.subset (List.subset_cons_self ..)
      have hswap : step (step state head) element = step (step state element) head :=
        h state head (by simp) element (by simp) (hkey head (by simp))
      rw [List.cons_append, List.foldl_cons,
        ih hrest (fun other hother => hkey other (List.mem_cons_of_mem _ hother))]
      simp only [List.cons_append, List.foldl_cons, hswap]

-- However a sort by the key places the elements of one key, the fold over them comes out the same.
theorem foldl_eq_of_sorted [LinearOrder κ] {left right : List α} (hcommutes : KeyCommutes key step left)
    (hperm : left.Perm right) (hleft : left.Pairwise fun first second => key first ≤ key second)
    (hright : right.Pairwise fun first second => key first ≤ key second) (state : β) :
    left.foldl step state = right.foldl step state := by
  induction left generalizing right state with
  | nil => rw [hperm.nil_eq]
  | cons element left ih =>
      obtain ⟨front, back, rfl⟩ := List.append_of_mem (hperm.subset (List.mem_cons_self ..))
      have hrest : left.Perm (front ++ back) :=
        List.Perm.cons_inv (hperm.trans List.perm_middle)
      obtain ⟨hleast, hleft⟩ := List.pairwise_cons.mp hleft
      have hfront : ∀ other ∈ front, key other = key element := by
        intro other hother
        have hbefore : key other ≤ key element :=
          (List.pairwise_append.mp hright).2.2 other hother element (List.mem_cons_self ..)
        have hafter : key element ≤ key other :=
          hleast other (hrest.symm.subset (List.mem_append_left _ hother))
        exact le_antisymm hbefore hafter
      rw [foldl_move_front (hcommutes.subset hperm.symm.subset) hfront, List.foldl_cons,
        List.foldl_cons]
      refine ih (hcommutes.subset (List.subset_cons_self ..)) hrest hleft ?_ _
      exact hright.sublist ((List.sublist_cons_self element back).append_left front)

end ConcurrencyAnalyzer.Library.SortedFold
