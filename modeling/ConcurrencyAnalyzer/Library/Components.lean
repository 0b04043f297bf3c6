import ConcurrencyAnalyzer.Library.Search

namespace ConcurrencyAnalyzer.Library.Components

open Relation

variable {α : Type*} [DecidableEq α]

def successors (arcs : List (α × α)) (vertex : α) : List α :=
  (arcs.filter (·.1 = vertex)).map (·.2)

def targets (arcs : List (α × α)) : Finset α := (arcs.map (·.2)).toFinset

-- What arcs lead to from a vertex, with the vertex itself.
def reach (arcs : List (α × α)) (vertex : α) : Finset α :=
  insert vertex (Search.search (successors arcs) (fun _ => true) ((targets arcs).card + 1) ∅ [vertex])

def Arc (arcs : List (α × α)) (before after : α) : Prop := (before, after) ∈ arcs

variable {arcs : List (α × α)}

theorem mem_successors {before after : α} : after ∈ successors arcs before ↔ Arc arcs before after := by
  simp [successors, Arc]

theorem successor_mem_targets {before after : α} (h : after ∈ successors arcs before) :
    after ∈ targets arcs := by
  have harc : (before, after) ∈ arcs := mem_successors.mp h
  exact List.mem_toFinset.mpr (List.mem_map_of_mem harc)

theorem mem_reach_iff {vertex other : α} :
    other ∈ reach arcs vertex ↔ ReflTransGen (Arc arcs) vertex other := by
  unfold reach
  rw [Finset.mem_insert]
  constructor
  · rintro (rfl | hmem)
    · exact .refl
    · exact Search.search_sound (fun _ hreached _ hnext => hreached.tail (mem_successors.mp hnext))
        _ ∅ [vertex] (by simp) (by simpa using ReflTransGen.refl) other hmem
  · intro hpath
    rcases reflTransGen_iff_eq_or_transGen.mp hpath with heq | hpath
    · exact Or.inl heq
    · right
      apply Search.mem_search_of_reaches (targets arcs) fun _ _ => successor_mem_targets
      · exact Nat.le_refl _
      · exact hpath.lift id fun before after harc => ⟨mem_successors.mpr harc, rfl⟩

theorem self_mem_reach (vertex : α) : vertex ∈ reach arcs vertex := mem_reach_iff.mpr .refl

-- An arc that closes no cycle leads to a vertex that reaches less.
theorem card_reach_lt {before after : α} (harc : Arc arcs before after)
    (hopen : before ∉ reach arcs after) : (reach arcs after).card < (reach arcs before).card := by
  apply Finset.card_lt_card
  refine ⟨?_, fun hsubset => hopen (hsubset (self_mem_reach before))⟩
  intro vertex hvertex
  exact mem_reach_iff.mpr ((mem_reach_iff.mp hvertex).head harc)

theorem card_reach_le (vertex : α) : (reach arcs vertex).card ≤ (targets arcs).card + 1 := by
  unfold reach
  refine (Finset.card_insert_le _ _).trans (Nat.succ_le_succ (Finset.card_le_card ?_))
  exact Search.search_subset _ _ _ (fun _ _ => successor_mem_targets) _ _ _ (Finset.empty_subset _)

theorem reach_eq_of_cycle {before after : α} (harc : Arc arcs before after)
    (hcycle : before ∈ reach arcs after) : reach arcs after = reach arcs before := by
  ext vertex
  rw [mem_reach_iff, mem_reach_iff]
  constructor
  · exact fun h => h.head harc
  · exact fun h => (mem_reach_iff.mp hcycle).trans h

end ConcurrencyAnalyzer.Library.Components
