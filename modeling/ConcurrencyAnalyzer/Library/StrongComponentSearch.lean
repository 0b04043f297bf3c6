import ConcurrencyAnalyzer.Library.StrongComponents
import Mathlib.Algebra.BigOperators.Group.Finset.Basic
import Mathlib.Algebra.Order.BigOperators.Group.Finset
import Mathlib.Algebra.GroupWithZero.Nat

namespace ConcurrencyAnalyzer.Library.StrongComponents

open Function Relation

variable {α : Type*} {successors : α → List α} {state : State α}

theorem Kept.reaches_top (h : Kept successors state) {visits : List (α × Nat)} {vertex : α}
    {next : Nat} (hvisits : state.visits = (vertex, next) :: visits) :
    ∀ visit ∈ state.visits, Reaches successors visit.1 vertex := by
  have hsorted := h.visits_sorted
  rw [hvisits, List.pairwise_cons] at hsorted
  have hvertex : vertex ∈ state.stack := h.visits_stack (vertex, next) (by simp [hvisits])
  intro visit hvisit
  refine h.reaches visit hvisit vertex hvertex ?_
  rw [hvisits] at hvisit
  rcases List.mem_cons.mp hvisit with hsame | hvisit
  · rw [hsame]
  · exact (hsorted.1 visit hvisit).le

variable [DecidableEq α]

-- A round that looks at a successor.
theorem Kept.look (h : Kept successors state) {visits : List (α × Nat)} {vertex successor : α}
    {next : Nat} (hvisits : state.visits = (vertex, next) :: visits)
    (hsuccessor : (successors vertex)[next]? = some successor) :
    Kept successors (state.step successors) := by
  have harc : Arc successors vertex successor := List.mem_of_getElem? hsuccessor
  unfold State.step
  simp only [hvisits, hsuccessor]
  by_cases hnew : state.order successor = none
  · rw [if_pos hnew]
    have hentered : Kept successors (state.enter successor) :=
      h.enter hnew fun visit hvisit => (h.reaches_top hvisits visit hvisit).tail harc
    have hvisits' : (state.enter successor).visits =
        [(successor, 0)] ++ (vertex, next) :: visits := by
      simp [State.enter, hvisits]
    refine hentered.advance hvisits' hsuccessor (by simp [State.enter]) fun _ => ?_
    exact ⟨(successor, 0), by simp, by simp [State.enter, State.orderOf]⟩
  · rw [if_neg hnew]
    have hfirst : state.visits = [] ++ (vertex, next) :: visits := hvisits
    by_cases hon : successor ∈ state.onStack
    · rw [if_pos hon]
      have hstack : successor ∈ state.stack := (h.onStack_iff successor).mp hon
      have hlowered := h.lower hstack (.single harc)
      refine hlowered.advance hfirst hsuccessor hnew fun _ => ?_
      refine ⟨(vertex, next), by simp, ?_⟩
      simp [State.lower, State.orderOf]
    · rw [if_neg hon]
      refine h.advance hfirst hsuccessor hnew fun hstack => ?_
      exact absurd ((h.onStack_iff successor).mpr hstack) hon

-- A round that ends the visit at the top.
theorem Kept.leave (h : Kept successors state) {visits : List (α × Nat)} {vertex : α} {next : Nat}
    (hvisits : state.visits = (vertex, next) :: visits)
    (hdone : (successors vertex)[next]? = none) : Kept successors (state.step successors) := by
  have hlength : (successors vertex).length ≤ next := List.getElem?_eq_none_iff.mp hdone
  have hsorted := h.visits_sorted
  rw [hvisits, List.pairwise_cons] at hsorted
  have hvertex : vertex ∈ state.stack := h.visits_stack (vertex, next) (by simp [hvisits])
  have hle := h.lowest_le vertex hvertex
  have hcallerStack : ∀ caller ∈ visits, caller.1 ∈ state.stack := fun caller hcaller =>
    h.visits_stack caller (by simp [hvisits, hcaller])
  have hkept : (state.leave vertex visits).lowest vertex = state.lowest vertex := by
    cases visits with
    | nil => rfl
    | cons caller rest =>
        have hless := hsorted.1 caller (List.mem_cons_self ..)
        have hne : vertex ≠ caller.1 := by
          rintro hsame
          rw [← hsame] at hless
          exact lt_irrefl _ hless
        simp [State.leave, State.lower, hne]
  have horder : (state.leave vertex visits).orderOf vertex = state.orderOf vertex := by
    cases visits <;> rfl
  unfold State.step
  simp only [hvisits, hdone, hkept, horder]
  by_cases hroot : state.lowest vertex = state.orderOf vertex
  · rw [if_neg (not_not.mpr hroot)]
    -- the visit below is of a smaller order, and hears nothing new
    have hsame : state.leave vertex visits = { state with visits := visits } := by
      cases visits with
      | nil => rfl
      | cons caller rest =>
          have hless := hsorted.1 caller (List.mem_cons_self ..)
          have hcaller := h.lowest_le caller.1 (hcallerStack caller (List.mem_cons_self ..))
          simp only at hless
          simp only [State.leave, State.lower]
          rw [min_eq_left (by omega), update_eq_self]
    rw [hsame]
    exact h.close hvisits hlength hroot
  · rw [if_pos hroot]
    have hlow : state.lowest vertex < state.orderOf vertex := by omega
    obtain ⟨low, hlowMem, hlowOrder, hreaches⟩ := h.lowest_reached vertex hvertex
    cases visits with
    | nil =>
        -- the lowest vertex is inside of some visit, which this one is not
        obtain ⟨visit, hvisit, hvisitLe⟩ := h.inside low hlowMem
        have hsame : visit = (vertex, next) := by simpa [hvisits] using hvisit
        rw [hsame] at hvisitLe
        simp only at hvisitLe
        omega
    | cons caller rest =>
        have hcallerReaches : Reaches successors caller.1 low :=
          (h.reaches_top hvisits caller (by simp [hvisits])).trans hreaches
        have hlowered := h.lower hlowMem hcallerReaches
        rw [hlowOrder] at hlowered
        have hbelow := hsorted.1 caller (List.mem_cons_self ..)
        have hne : vertex ≠ caller.1 := by
          rintro hsame
          rw [← hsame] at hbelow
          exact lt_irrefl _ hbelow
        have hlowest : (state.lower caller.1 (state.lowest vertex)).lowest vertex =
            state.lowest vertex := by
          simp [State.lower, hne]
        refine hlowered.drop hvisits hlength ?_ (List.mem_cons_self ..) ?_ ?_
        · rw [hlowest]
          exact hlow
        · intro visit hvisit
          rcases List.mem_cons.mp hvisit with hsame | hvisit
          · rw [hsame]
          · exact ((List.pairwise_cons.mp hsorted.2).1 visit hvisit).le
        · rw [hlowest]
          simp [State.lower]

theorem Kept.step (h : Kept successors state) (hvisits : state.visits ≠ []) :
    Kept successors (state.step successors) := by
  obtain ⟨⟨vertex, next⟩, visits, hvisits⟩ := List.exists_cons_of_ne_nil hvisits
  cases hsuccessor : (successors vertex)[next]? with
  | some successor => exact h.look hvisits hsuccessor
  | none => exact h.leave hvisits hsuccessor

section Ending

variable {bound : Finset α}
  (hclosed : ∀ before ∈ bound, ∀ after ∈ successors before, after ∈ bound)

-- The arcs to look at, and the visits to end.
def remaining (successors : α → List α) (bound : Finset α) (state : State α) : Nat :=
  (∑ vertex ∈ bound with state.order vertex = none, ((successors vertex).length + 1)) +
    (state.visits.map fun visit => (successors visit.1).length - visit.2 + 1).sum

theorem remaining_enter {vertex : α} (hbound : vertex ∈ bound) (hnew : state.order vertex = none) :
    remaining successors bound (state.enter vertex) = remaining successors bound state := by
  have hmem : vertex ∈ bound.filter fun vertex => state.order vertex = none :=
    Finset.mem_filter.mpr ⟨hbound, hnew⟩
  have herase : (bound.filter fun other => (state.enter vertex).order other = none) =
      (bound.filter fun other => state.order other = none).erase vertex := by
    ext other
    rw [Finset.mem_erase, Finset.mem_filter, Finset.mem_filter]
    by_cases hsame : other = vertex
    · simp [State.enter, hsame]
    · simp [State.enter, hsame]
  rw [remaining, remaining, herase, ← Finset.add_sum_erase _ _ hmem]
  simp only [State.enter, List.map_cons, List.sum_cons, Nat.sub_zero]
  omega

theorem popTo_same (root : α) (stack : List α) (state : State α) :
    (State.popTo root stack state).order = state.order ∧
      (State.popTo root stack state).visits = state.visits := by
  induction stack generalizing state with
  | nil => exact ⟨rfl, rfl⟩
  | cons member rest ih =>
      rw [State.popTo]
      by_cases hsame : member = root
      · rw [if_pos hsame]
        exact ⟨rfl, rfl⟩
      · rw [if_neg hsame]
        exact ih _

theorem leave_same (state : State α) (vertex : α) (visits : List (α × Nat)) :
    (state.leave vertex visits).order = state.order ∧
      (state.leave vertex visits).visits = visits := by
  cases visits <;> exact ⟨rfl, rfl⟩

-- A round orders at most the successor it looks at, and looks at an arc or ends a visit.
theorem step_remaining {visits : List (α × Nat)} {vertex : α} {next : Nat}
    (hvisits : state.visits = (vertex, next) :: visits)
    (hsuccessors : ∀ after ∈ successors vertex, after ∈ bound) :
    remaining successors bound (state.step successors) < remaining successors bound state ∧
      (∀ other, state.order other ≠ none → (state.step successors).order other ≠ none) ∧
      ∀ other, (state.step successors).order other ≠ none →
        state.order other ≠ none ∨ other ∈ bound := by
  unfold State.step
  simp only [hvisits]
  cases hsuccessor : (successors vertex)[next]? with
  | some successor =>
      have hmem : successor ∈ bound := hsuccessors successor (List.mem_of_getElem? hsuccessor)
      have hlength : next < (successors vertex).length := (List.getElem?_eq_some_iff.mp hsuccessor).1
      have hless : remaining successors bound { state with visits := (vertex, next + 1) :: visits } <
          remaining successors bound state := by
        simp only [remaining, hvisits, List.map_cons, List.sum_cons]
        omega
      simp only
      by_cases hnew : state.order successor = none
      · rw [if_pos hnew]
        refine ⟨?_, ?_, ?_⟩
        · have henter := @remaining_enter _ successors
            { state with visits := (vertex, next + 1) :: visits } _ bound successor hmem hnew
          exact henter.trans_lt hless
        · intro other hhas
          by_cases hsame : other = successor <;> simp [State.enter, hsame, hhas]
        · intro other hhas
          by_cases hsame : other = successor
          · exact Or.inr (hsame ▸ hmem)
          · exact Or.inl (by simpa [State.enter, hsame] using hhas)
      · rw [if_neg hnew]
        by_cases hon : successor ∈ state.onStack
        · rw [if_pos hon]
          exact ⟨hless, fun _ hhas => hhas, fun _ hhas => Or.inl hhas⟩
        · rw [if_neg hon]
          exact ⟨hless, fun _ hhas => hhas, fun _ hhas => Or.inl hhas⟩
  | none =>
      obtain ⟨horder, hleft⟩ := leave_same state vertex visits
      have hless : remaining successors bound (state.leave vertex visits) <
          remaining successors bound state := by
        simp only [remaining, horder, hleft, hvisits, List.map_cons, List.sum_cons]
        omega
      simp only
      by_cases hroot : (state.leave vertex visits).lowest vertex ≠
          (state.leave vertex visits).orderOf vertex
      · rw [if_pos hroot, horder]
        exact ⟨hless, fun _ hhas => hhas, fun _ hhas => Or.inl hhas⟩
      · rw [if_neg hroot]
        obtain ⟨hpopOrder, hpopVisits⟩ :=
          popTo_same vertex (state.leave vertex visits).stack (state.leave vertex visits)
        have hcloseOrder : ((state.leave vertex visits).closeComponent vertex).order = state.order :=
          hpopOrder.trans horder
        refine ⟨?_, ?_, ?_⟩
        · have hsame : remaining successors bound
              ((state.leave vertex visits).closeComponent vertex) =
                remaining successors bound (state.leave vertex visits) := by
            simp only [remaining, State.closeComponent, hpopOrder, hpopVisits]
          omega
        · rw [hcloseOrder]
          exact fun _ hhas => hhas
        · rw [hcloseOrder]
          exact fun _ hhas => Or.inl hhas

include hclosed in
-- With fuel for what remains, the loop ends by itself and leaves nothing without a component.
theorem explore_spec {fuel : Nat} (hkept : Kept successors state)
    (hbound : ∀ vertex, state.order vertex ≠ none → vertex ∈ bound)
    (hfuel : remaining successors bound state ≤ fuel) :
    ∃ final, state.explore successors fuel = some final ∧ Kept successors final ∧
      final.visits = [] ∧ (∀ vertex, final.order vertex ≠ none → vertex ∈ bound) ∧
      ∀ vertex, state.order vertex ≠ none → final.order vertex ≠ none := by
  induction fuel generalizing state with
  | zero =>
      cases hvisits : state.visits with
      | nil => exact ⟨state, by simp [State.explore, hvisits], hkept, hvisits, hbound, fun _ h => h⟩
      | cons visit visits =>
          simp only [remaining, hvisits, List.map_cons, List.sum_cons] at hfuel
          omega
  | succ fuel ih =>
      cases hvisits : state.visits with
      | nil => exact ⟨state, by simp [State.explore, hvisits], hkept, hvisits, hbound, fun _ h => h⟩
      | cons visit visits =>
          have hvertex : visit.1 ∈ bound := hbound visit.1
            (hkept.stack_ordered _ (hkept.visits_stack visit (by simp [hvisits])))
          have hfirst : state.visits = (visit.1, visit.2) :: visits := hvisits
          obtain ⟨hless, hmore, honly⟩ := step_remaining hfirst (hclosed visit.1 hvertex)
          have hnext : ∀ vertex, (state.step successors).order vertex ≠ none → vertex ∈ bound :=
            fun vertex hhas => (honly vertex hhas).elim (hbound vertex) id
          obtain ⟨final, hfinal, hfinalKept, hended, hfinalBound, hkeeps⟩ :=
            ih (hkept.step (by simp [hvisits])) hnext (by omega)
          refine ⟨final, ?_, hfinalKept, hended, hfinalBound, fun vertex hhas => ?_⟩
          · rw [State.explore, if_neg (by simp [hvisits]), hfinal]
          · exact hkeeps vertex (hmore vertex hhas)

def enoughFuel (successors : α → List α) (bound : Finset α) : Nat :=
  ∑ vertex ∈ bound, ((successors vertex).length + 1)

include hclosed in
theorem visitRoot_spec {fuel : Nat} (hfuel : enoughFuel successors bound ≤ fuel)
    (hkept : Kept successors state) (hended : state.visits = [])
    (hbound : ∀ vertex, state.order vertex ≠ none → vertex ∈ bound) {root : α}
    (hroot : root ∈ bound) :
    ∃ final, state.visitRoot successors fuel root = some final ∧ Kept successors final ∧
      final.visits = [] ∧ (∀ vertex, final.order vertex ≠ none → vertex ∈ bound) ∧
      (∀ vertex, state.order vertex ≠ none → final.order vertex ≠ none) ∧
      final.order root ≠ none := by
  unfold State.visitRoot
  by_cases hnew : state.order root = none
  · rw [if_pos hnew]
    have hentered : Kept successors (state.enter root) := hkept.enter hnew (by simp [hended])
    have hordered : ∀ vertex, (state.enter root).order vertex ≠ none ↔
        vertex = root ∨ state.order vertex ≠ none := by
      intro vertex
      by_cases hsame : vertex = root <;> simp [State.enter, hsame]
    have henough : remaining successors bound (state.enter root) ≤ fuel := by
      rw [remaining_enter hroot hnew]
      refine le_trans ?_ hfuel
      simp only [remaining, hended, List.map_nil, List.sum_nil, add_zero]
      exact Finset.sum_le_sum_of_subset (Finset.filter_subset _ _)
    obtain ⟨final, hfinal, hfinalKept, hfinalEnded, hfinalBound, hkeeps⟩ :=
      explore_spec hclosed hentered
        (fun vertex hhas => ((hordered vertex).mp hhas).elim (fun hsame => hsame ▸ hroot)
          (hbound vertex)) henough
    refine ⟨final, hfinal, hfinalKept, hfinalEnded, hfinalBound, fun vertex hhas => ?_, ?_⟩
    · exact hkeeps vertex ((hordered vertex).mpr (Or.inr hhas))
    · exact hkeeps root ((hordered root).mpr (Or.inl rfl))
  · rw [if_neg hnew]
    exact ⟨state, rfl, hkept, hended, hbound, fun _ h => h, hnew⟩

include hclosed in
theorem foldlM_visitRoot_spec {fuel : Nat} (hfuel : enoughFuel successors bound ≤ fuel)
    (roots : List α) (hroots : ∀ root ∈ roots, root ∈ bound) (hkept : Kept successors state)
    (hended : state.visits = []) (hbound : ∀ vertex, state.order vertex ≠ none → vertex ∈ bound) :
    ∃ final, roots.foldlM (State.visitRoot successors fuel) state = some final ∧
      Kept successors final ∧ final.visits = [] ∧
      (∀ vertex, state.order vertex ≠ none → final.order vertex ≠ none) ∧
      ∀ root ∈ roots, final.order root ≠ none := by
  induction roots generalizing state with
  | nil => exact ⟨state, rfl, hkept, hended, fun _ h => h, by simp⟩
  | cons root rest ih =>
      obtain ⟨visited, hvisited, hvisitedKept, hvisitedEnded, hvisitedBound, hkeeps, hrootOrder⟩ :=
        visitRoot_spec hclosed hfuel hkept hended hbound (hroots root (List.mem_cons_self ..))
      obtain ⟨final, hfinal, hfinalKept, hfinalEnded, hfinalKeeps, hrest⟩ :=
        ih (fun other hother => hroots other (List.mem_cons_of_mem _ hother)) hvisitedKept
          hvisitedEnded hvisitedBound
      refine ⟨final, ?_, hfinalKept, hfinalEnded, fun vertex hhas => hfinalKeeps _ (hkeeps _ hhas), ?_⟩
      · rw [List.foldlM_cons, hvisited]
        exact hfinal
      · intro other hother
        rcases List.mem_cons.mp hother with hsame | hother
        · rw [hsame]
          exact hfinalKeeps root hrootOrder
        · exact hrest other hother

include hclosed in
-- With enough fuel the search ends: what the roots lead to has a component, and two such vertices
-- have the same one if and only if each leads to the other.
theorem search_spec {fuel : Nat} (hfuel : enoughFuel successors bound ≤ fuel) {roots : List α}
    (hroots : ∀ root ∈ roots, root ∈ bound) :
    ∃ final, search successors fuel roots = some final ∧
      (∀ root ∈ roots, ∀ vertex, Reaches successors root vertex →
        final.componentOf vertex ≠ none) ∧
      ∀ vertex other, final.componentOf vertex ≠ none → final.componentOf other ≠ none →
        (final.componentOf vertex = final.componentOf other ↔
          Reaches successors vertex other ∧ Reaches successors other vertex) := by
  obtain ⟨final, hfinal, hkept, hended, _, hordered⟩ :=
    foldlM_visitRoot_spec hclosed hfuel roots hroots kept_initial rfl (by simp)
  have hstack : final.stack = [] := by
    rw [List.eq_nil_iff_forall_not_mem]
    intro vertex hmem
    obtain ⟨visit, hvisit, _⟩ := hkept.inside vertex hmem
    rw [hended] at hvisit
    contradiction
  refine ⟨final, hfinal, ?_, ?_⟩
  · intro root hroot vertex hreaches
    refine hkept.component_reaches ((hkept.component_iff root).mpr ⟨hordered root hroot, ?_⟩) hreaches
    simp [hstack]
  · intro vertex other hvertex hother
    obtain ⟨component, hcomponent⟩ := Option.ne_none_iff_exists'.mp hvertex
    obtain ⟨component', hcomponent'⟩ := Option.ne_none_iff_exists'.mp hother
    rw [hcomponent, hcomponent', Option.some_inj]
    exact hkept.component_eq_iff vertex other component component' hcomponent hcomponent'

end Ending

end ConcurrencyAnalyzer.Library.StrongComponents
