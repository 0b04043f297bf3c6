import Mathlib.Data.Finset.Card
import Mathlib.Logic.Relation

namespace ConcurrencyAnalyzer.Library.Search

variable {α : Type*} [DecidableEq α]

-- Marks and stacks the allowed elements of a list that were not marked yet.
def mark (allowed : α → Bool) (marked : Finset α) (pending : List α) :
    List α → Finset α × List α
  | [] => (marked, pending)
  | element :: rest =>
      if allowed element ∧ element ∉ marked then
        mark allowed (insert element marked) (element :: pending) rest
      else mark allowed marked pending rest

-- A search along `next` with a stack of pending elements, each marked before it is stacked.
def search (next : α → List α) (allowed : α → Bool) : Nat → Finset α → List α → Finset α
  | 0, marked, _ => marked
  | _ + 1, marked, [] => marked
  | fuel + 1, marked, reached :: pending =>
      let round := mark allowed marked pending (next reached)
      search next allowed fuel round.1 round.2

theorem subset_mark (allowed : α → Bool) (elements : List α) (marked : Finset α)
    (pending : List α) : marked ⊆ (mark allowed marked pending elements).1 := by
  induction elements generalizing marked pending with
  | nil => exact Finset.Subset.refl _
  | cons element rest ih =>
      unfold mark
      split
      · exact (Finset.subset_insert _ _).trans (ih _ _)
      · exact ih _ _

theorem mem_mark_pending (allowed : α → Bool) (elements : List α) (marked : Finset α)
    (pending : List α) {element : α} (hp : element ∈ pending) :
    element ∈ (mark allowed marked pending elements).2 := by
  induction elements generalizing marked pending with
  | nil => exact hp
  | cons _ rest ih =>
      unfold mark
      split
      · exact ih _ _ (List.mem_cons_of_mem _ hp)
      · exact ih _ _ hp

theorem allowed_mem_mark (allowed : α → Bool) (elements : List α) (marked : Finset α)
    (pending : List α) {element : α} (he : element ∈ elements) (ha : allowed element) :
    element ∈ (mark allowed marked pending elements).1 := by
  induction elements generalizing marked pending with
  | nil => cases he
  | cons head rest ih =>
      unfold mark
      rcases List.mem_cons.mp he with rfl | he
      · split
        · exact subset_mark _ _ _ _ (Finset.mem_insert_self _ _)
        · rename_i hnot
          have hm : element ∈ marked := by
            by_contra hm
            exact hnot ⟨ha, hm⟩
          exact subset_mark _ _ _ _ hm
      · split
        · exact ih _ _ he
        · exact ih _ _ he

-- What a round marks is stacked too.
theorem mark_new_pending (allowed : α → Bool) (elements : List α) (marked : Finset α)
    (pending : List α) {element : α} (hm : element ∈ (mark allowed marked pending elements).1)
    (hn : element ∉ marked) : element ∈ (mark allowed marked pending elements).2 := by
  induction elements generalizing marked pending with
  | nil => exact absurd hm hn
  | cons head rest ih =>
      unfold mark at hm ⊢
      split at hm
      · rename_i hc
        simp only [hc, not_false_eq_true, and_self, if_true]
        by_cases he : element = head
        · subst he
          exact mem_mark_pending _ _ _ _ (List.mem_cons_self ..)
        · exact ih _ _ hm (by simp [he, hn])
      · rename_i hc
        simp only [hc, if_false]
        exact ih _ _ hm hn

theorem mark_allowed (allowed : α → Bool) (elements : List α) (marked : Finset α)
    (pending : List α) (hmarked : ∀ element ∈ marked, allowed element) :
    ∀ element ∈ (mark allowed marked pending elements).1, allowed element := by
  induction elements generalizing marked pending with
  | nil => exact hmarked
  | cons head rest ih =>
      unfold mark
      split
      · rename_i hc
        apply ih
        intro element he
        rcases Finset.mem_insert.mp he with rfl | he
        · exact hc.1
        · exact hmarked element he
      · exact ih _ _ hmarked

-- Stacked elements and elements of a bound still to be marked, which each round has fewer of.
theorem mark_measure (allowed : α → Bool) (bound : Finset α) (elements : List α)
    (marked : Finset α) (pending : List α) (hbound : ∀ element ∈ elements, element ∈ bound) :
    (mark allowed marked pending elements).2.length +
        (bound \ (mark allowed marked pending elements).1).card =
      pending.length + (bound \ marked).card := by
  induction elements generalizing marked pending with
  | nil => rfl
  | cons head rest ih =>
      have hrest : ∀ element ∈ rest, element ∈ bound :=
        fun element he => hbound element (List.mem_cons_of_mem _ he)
      unfold mark
      split
      · rename_i hc
        rw [ih _ _ hrest]
        have hmem : head ∈ bound \ marked :=
          Finset.mem_sdiff.mpr ⟨hbound head (List.mem_cons_self ..), hc.2⟩
        have herase : bound \ insert head marked = (bound \ marked).erase head := by
          ext element
          simp only [Finset.mem_sdiff, Finset.mem_insert, Finset.mem_erase]
          tauto
        have hcard := Finset.card_erase_add_one hmem
        rw [herase, List.length_cons]
        omega
      · exact ih _ _ hrest

-- Every marked element, and every root, is stacked or has all its allowed successors marked.
def Explored (next : α → List α) (allowed : α → Bool) (roots marked : Finset α)
    (pending : List α) : Prop :=
  ∀ element ∈ marked ∪ roots, element ∈ pending ∨
    ∀ successor ∈ next element, allowed successor → successor ∈ marked

theorem Explored.round {next : α → List α} {allowed : α → Bool} {roots marked : Finset α}
    {reached : α} {pending : List α}
    (hinv : Explored next allowed roots marked (reached :: pending)) :
    Explored next allowed roots (mark allowed marked pending (next reached)).1
      (mark allowed marked pending (next reached)).2 := by
  intro element he
  by_cases hold : element ∈ marked ∪ roots
  · rcases hinv element hold with hp | hdone
    · rcases List.mem_cons.mp hp with rfl | hp
      · right
        intro successor hs ha
        exact allowed_mem_mark _ _ _ _ hs ha
      · exact Or.inl (mem_mark_pending _ _ _ _ hp)
    · right
      intro successor hs ha
      exact subset_mark _ _ _ _ (hdone successor hs ha)
  · rw [Finset.mem_union, not_or] at hold
    rcases Finset.mem_union.mp he with he | he
    · exact Or.inl (mark_new_pending _ _ _ _ he hold.1)
    · exact absurd he hold.2

theorem subset_search (next : α → List α) (allowed : α → Bool) (fuel : Nat) (marked : Finset α)
    (pending : List α) : marked ⊆ search next allowed fuel marked pending := by
  induction fuel generalizing marked pending with
  | zero => exact Finset.Subset.refl _
  | succ fuel ih =>
      cases pending with
      | nil => exact Finset.Subset.refl _
      | cons reached pending => exact (subset_mark _ _ _ _).trans (ih _ _)

theorem mark_subset (allowed : α → Bool) (bound : Finset α) (elements : List α) (marked : Finset α)
    (pending : List α) (hbound : ∀ element ∈ elements, element ∈ bound) (hmarked : marked ⊆ bound) :
    (mark allowed marked pending elements).1 ⊆ bound := by
  induction elements generalizing marked pending with
  | nil => exact hmarked
  | cons head rest ih =>
      obtain ⟨hhead, hrest⟩ := List.forall_mem_cons.mp hbound
      unfold mark
      split
      · exact ih _ _ hrest (Finset.insert_subset hhead hmarked)
      · exact ih _ _ hrest hmarked

theorem search_subset (next : α → List α) (allowed : α → Bool) (bound : Finset α)
    (hbound : ∀ element, ∀ successor ∈ next element, successor ∈ bound) (fuel : Nat)
    (marked : Finset α) (pending : List α) (hmarked : marked ⊆ bound) :
    search next allowed fuel marked pending ⊆ bound := by
  induction fuel generalizing marked pending with
  | zero => exact hmarked
  | succ fuel ih =>
      cases pending with
      | nil => exact hmarked
      | cons reached pending =>
          exact ih _ _ (mark_subset _ _ _ _ _ (hbound reached) hmarked)

theorem search_allowed (next : α → List α) (allowed : α → Bool) (fuel : Nat) (marked : Finset α)
    (pending : List α) (hmarked : ∀ element ∈ marked, allowed element) :
    ∀ element ∈ search next allowed fuel marked pending, allowed element := by
  induction fuel generalizing marked pending with
  | zero => exact hmarked
  | succ fuel ih =>
      cases pending with
      | nil => exact hmarked
      | cons reached pending => exact ih _ _ (mark_allowed _ _ _ _ hmarked)

theorem mark_sound {P : α → Prop} (allowed : α → Bool) (elements : List α) (marked : Finset α)
    (pending : List α) (helements : ∀ element ∈ elements, P element)
    (hmarked : ∀ element ∈ marked, P element) (hpending : ∀ element ∈ pending, P element) :
    (∀ element ∈ (mark allowed marked pending elements).1, P element) ∧
      ∀ element ∈ (mark allowed marked pending elements).2, P element := by
  induction elements generalizing marked pending with
  | nil => exact ⟨hmarked, hpending⟩
  | cons head rest ih =>
      obtain ⟨hhead, hrest⟩ := List.forall_mem_cons.mp helements
      unfold mark
      split
      · apply ih _ _ hrest
        · exact fun element h => (Finset.mem_insert.mp h).elim (· ▸ hhead) (hmarked element)
        · exact List.forall_mem_cons.mpr ⟨hhead, hpending⟩
      · exact ih _ _ hrest hmarked hpending

-- What the steps keep true of what they lead to holds of everything a search marks.
theorem search_sound {P : α → Prop} {next : α → List α} {allowed : α → Bool}
    (hnext : ∀ element, P element → ∀ successor ∈ next element, P successor) (fuel : Nat)
    (marked : Finset α) (pending : List α) (hmarked : ∀ element ∈ marked, P element)
    (hpending : ∀ element ∈ pending, P element) :
    ∀ element ∈ search next allowed fuel marked pending, P element := by
  induction fuel generalizing marked pending with
  | zero => exact hmarked
  | succ fuel ih =>
      cases pending with
      | nil => exact hmarked
      | cons reached pending =>
          obtain ⟨hreached, hpending⟩ := List.forall_mem_cons.mp hpending
          obtain ⟨hm, hp⟩ := mark_sound allowed (next reached) marked pending
            (hnext reached hreached) hmarked hpending
          exact ih _ _ hm hp

-- A search that may take as many rounds as there are elements to stack leaves nothing unexplored.
theorem search_explored {next : α → List α} {allowed : α → Bool} {roots : Finset α}
    (bound : Finset α) (hbound : ∀ element, ∀ successor ∈ next element, successor ∈ bound)
    (fuel : Nat) (marked : Finset α) (pending : List α)
    (hinv : Explored next allowed roots marked pending)
    (hfuel : pending.length + (bound \ marked).card ≤ fuel) :
    ∀ element ∈ search next allowed fuel marked pending ∪ roots,
      ∀ successor ∈ next element, allowed successor →
        successor ∈ search next allowed fuel marked pending := by
  induction fuel generalizing marked pending with
  | zero =>
      have hp : pending = [] := List.length_eq_zero_iff.mp (by omega)
      subst hp
      intro element he
      rcases hinv element he with h | h
      · cases h
      · exact h
  | succ fuel ih =>
      cases pending with
      | nil =>
          intro element he
          rcases hinv element he with h | h
          · cases h
          · exact h
      | cons reached pending =>
          apply ih _ _ hinv.round
          have hm := mark_measure allowed bound (next reached) marked pending (hbound reached)
          rw [List.length_cons] at hfuel
          omega

-- From its roots, a search marks every element that allowed steps lead to.
theorem mem_search_of_reaches {next : α → List α} {allowed : α → Bool}
    (bound : Finset α) (hbound : ∀ element, ∀ successor ∈ next element, successor ∈ bound)
    {root : α} {fuel : Nat} (hfuel : bound.card + 1 ≤ fuel) {element : α}
    (hreach : Relation.TransGen (fun before after => after ∈ next before ∧ allowed after)
      root element) :
    element ∈ search next allowed fuel ∅ [root] := by
  have hinv : Explored next allowed {root} ∅ [root] := by
    intro other ho
    left
    simpa using ho
  have hclosed := search_explored bound hbound fuel ∅ [root] hinv (by simpa [Nat.add_comm] using hfuel)
  induction hreach with
  | single hstep =>
      exact hclosed root (by simp) _ hstep.1 hstep.2
  | tail _ hstep ih =>
      exact hclosed _ (Finset.mem_union_left _ ih) _ hstep.1 hstep.2

section Numbered

-- What steps among numbers below a size lead to from the first.
def reached (next : Nat → List Nat) (size : Nat) : Finset Nat :=
  search next (fun _ => true) (size + 1) {0} [0]

theorem zero_mem_reached (next : Nat → List Nat) (size : Nat) : 0 ∈ reached next size :=
  subset_search _ _ _ _ _ (Finset.mem_singleton_self 0)

theorem next_mem_reached {next : Nat → List Nat} {size : Nat}
    (hbound : ∀ element, ∀ successor ∈ next element, successor < size) {element successor : Nat}
    (helement : element ∈ reached next size) (h : successor ∈ next element) :
    successor ∈ reached next size := by
  have hrange (element : Nat) : ∀ successor ∈ next element, successor ∈ Finset.range size :=
    fun successor hsuccessor => Finset.mem_range.mpr (hbound element successor hsuccessor)
  have hexplored : Explored next (fun _ => true) ∅ {0} [0] := by
    intro element helement
    exact .inl (by simpa using helement)
  have hfuel : [0].length + (Finset.range size \ {0}).card ≤ size + 1 := by
    have := Finset.card_le_card (Finset.sdiff_subset : Finset.range size \ {0} ⊆ _)
    rw [Finset.card_range] at this
    simp only [List.length_singleton]
    omega
  exact search_explored _ hrange _ _ _ hexplored hfuel element (Finset.mem_union_left _ helement)
    successor h rfl

end Numbered

section Probe

-- The same search where looking at an element may give it up: whether it never does.
def probe (visit : α → Option (List α)) : Nat → Finset α → List α → Bool
  | 0, _, _ => true
  | _ + 1, _, [] => true
  | fuel + 1, marked, reached :: pending =>
      match visit reached with
      | none => false
      | some next =>
          let round := mark (fun _ => true) marked pending next
          probe visit fuel round.1 round.2

def onward (visit : α → Option (List α)) (element : α) : List α := (visit element).getD []

-- What looking at elements leads to.
inductive Found (visit : α → Option (List α)) (roots : List α) : α → Prop
  | root {element} : element ∈ roots → Found visit roots element
  | step {element next successor} : Found visit roots element → visit element = some next →
      successor ∈ next → Found visit roots successor

variable {visit : α → Option (List α)}

theorem mem_mark_pending_iff (elements : List α) (marked : Finset α) (pending : List α)
    {element : α} : element ∈ (mark (fun _ => true) marked pending elements).2 ↔
      element ∈ pending ∨
        (element ∈ (mark (fun _ => true) marked pending elements).1 ∧ element ∉ marked) := by
  constructor
  · intro h
    induction elements generalizing marked pending with
    | nil => exact .inl h
    | cons head rest ih =>
        unfold mark at h ⊢
        by_cases hc : head ∈ marked
        · simp only [hc, not_true_eq_false, and_false, if_false] at h ⊢
          exact ih _ _ h
        · simp only [hc, not_false_eq_true, and_self, if_true] at h ⊢
          rcases ih _ _ h with hp | ⟨hm, hnot⟩
          · rcases List.mem_cons.mp hp with rfl | hp
            · exact .inr ⟨subset_mark _ _ _ _ (Finset.mem_insert_self _ _), hc⟩
            · exact .inl hp
          · exact .inr ⟨hm, fun hold => hnot (Finset.mem_insert_of_mem hold)⟩
  · rintro (hp | ⟨hm, hnot⟩)
    · exact mem_mark_pending _ _ _ _ hp
    · exact mark_new_pending _ _ _ _ hm hnot

-- The search gives nothing up exactly when it would not at anything it marks.
theorem probe_iff (bound : Finset α) (hbound : ∀ element, ∀ successor ∈ onward visit element,
      successor ∈ bound) (fuel : Nat) (marked : Finset α) (pending : List α)
    (hfuel : pending.length + (bound \ marked).card ≤ fuel) :
    probe visit fuel marked pending = true ↔
      ∀ element, element ∈ pending ∨
        (element ∈ search (onward visit) (fun _ => true) fuel marked pending ∧ element ∉ marked) →
      visit element ≠ none := by
  induction fuel generalizing marked pending with
  | zero =>
      have hnil : pending = [] := List.length_eq_zero_iff.mp (by omega)
      subst hnil
      simp [probe, search]
  | succ fuel ih =>
      cases pending with
      | nil => simp [probe, search]
      | cons reached pending =>
          unfold probe
          cases hvisit : visit reached with
          | none =>
              simp only [Bool.false_eq_true, false_iff]
              exact fun h => h reached (.inl List.mem_cons_self) hvisit
          | some next =>
              have hnext : onward visit reached = next := by rw [onward, hvisit]; rfl
              have hmeasure := mark_measure (fun _ => true) bound next marked pending
                (hnext ▸ hbound reached)
              rw [List.length_cons] at hfuel
              dsimp only
              rw [ih _ _ (by omega), search, hnext]
              have hgrown := subset_mark (fun _ => true) next marked pending
              have hkept := subset_search (onward visit) (fun _ => true) fuel
                (mark (fun _ => true) marked pending next).1
                (mark (fun _ => true) marked pending next).2
              constructor
              · rintro h element (hmem | ⟨hmem, hnot⟩)
                · rcases List.mem_cons.mp hmem with rfl | hmem
                  · simp [hvisit]
                  · exact h element (.inl (mem_mark_pending _ _ _ _ hmem))
                · by_cases hnew : element ∈ (mark (fun _ => true) marked pending next).1
                  · exact h element (.inl (mark_new_pending _ _ _ _ hnew hnot))
                  · exact h element (.inr ⟨hmem, hnew⟩)
              · rintro h element (hmem | ⟨hmem, hnot⟩)
                · rcases (mem_mark_pending_iff next marked pending).mp hmem with hold | ⟨hnew, hnot⟩
                  · exact h element (.inl (List.mem_cons_of_mem _ hold))
                  · exact h element (.inr ⟨hkept hnew, hnot⟩)
                · exact h element (.inr ⟨hmem, fun hold => hnot (hgrown hold)⟩)

-- From some roots it gives nothing up exactly when it would not at anything they lead to.
theorem probe_roots_iff (bound : Finset α) (hbound : ∀ element, ∀ successor ∈ onward visit element,
      successor ∈ bound) {roots : List α} (hroots : ∀ root ∈ roots, root ∈ bound) {fuel : Nat}
    (hfuel : bound.card ≤ fuel) :
    probe visit fuel (mark (fun _ => true) ∅ [] roots).1 (mark (fun _ => true) ∅ [] roots).2 = true ↔
      ∀ element, Found visit roots element → visit element ≠ none := by
  have hmeasure := mark_measure (fun _ => true) bound roots ∅ [] hroots
  rw [List.length_nil, Finset.sdiff_empty, Nat.zero_add] at hmeasure
  rw [probe_iff bound hbound fuel _ _ (by omega)]
  set marked := (mark (fun _ => true) ∅ [] roots).1 with hmarked
  set pending := (mark (fun _ => true) ∅ [] roots).2 with hpending
  have hpend (element : α) : element ∈ pending ↔ element ∈ marked := by
    rw [hpending, mem_mark_pending_iff]
    simp [hmarked]
  have hsearch : ∀ element, element ∈ pending ∨
      (element ∈ search (onward visit) (fun _ => true) fuel marked pending ∧ element ∉ marked) ↔
      element ∈ search (onward visit) (fun _ => true) fuel marked pending := by
    intro element
    have hsub : element ∈ marked → element ∈ search (onward visit) (fun _ => true) fuel marked pending :=
      fun h => subset_search _ _ _ _ _ h
    rw [hpend]
    tauto
  have hsound := mark_sound (P := Found visit roots) (fun _ => true) roots ∅ []
    (fun element h => .root h) (by simp) (by simp)
  have hexplored : Explored (onward visit) (fun _ => true) ∅ marked pending :=
    fun element h => .inl ((hpend element).mpr (by simpa using h))
  have hclosed := search_explored bound hbound fuel marked pending hexplored (by omega)
  have hfound : ∀ element, element ∈ search (onward visit) (fun _ => true) fuel marked pending ↔
      Found visit roots element := by
    intro element
    constructor
    · refine search_sound ?_ fuel marked pending hsound.1 hsound.2 element
      intro reached hreached successor hsuccessor
      cases hvisit : visit reached with
      | none => simp [onward, hvisit] at hsuccessor
      | some next =>
          rw [onward, hvisit] at hsuccessor
          exact hreached.step hvisit hsuccessor
    · intro h
      induction h with
      | root hmem => exact subset_search _ _ _ _ _ (allowed_mem_mark _ _ _ _ hmem rfl)
      | step _ hvisit hmem ih =>
          exact hclosed _ (Finset.mem_union_left _ ih) _ (by rw [onward, hvisit]; exact hmem) rfl
  constructor
  · exact fun h element hreached => h element ((hsearch element).mpr ((hfound element).mpr hreached))
  · exact fun h element hreached => h element ((hfound element).mp ((hsearch element).mp hreached))

end Probe

end ConcurrencyAnalyzer.Library.Search
