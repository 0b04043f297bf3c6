import Mathlib.Data.Finset.Basic
import Mathlib.Logic.Function.Basic
import Mathlib.Data.List.Pairwise
import Mathlib.Logic.Relation

namespace ConcurrencyAnalyzer.Library.StrongComponents

open Function Relation

-- A depth-first search without recursion: `visits` are the vertices it is inside of, each with the
-- place of the successor to look at next, and `stack` those that have no component yet. The last in
-- comes first in both.
structure State (α : Type*) where
  order : α → Option Nat := fun _ => none
  lowest : α → Nat := fun _ => 0
  componentOf : α → Option Nat := fun _ => none
  onStack : Finset α := ∅
  stack : List α := []
  nextOrder : Nat := 0
  nextComponent : Nat := 0
  visits : List (α × Nat) := []

namespace State

variable {α : Type*} [DecidableEq α]

def orderOf (state : State α) (vertex : α) : Nat := (state.order vertex).getD 0

def enter (state : State α) (vertex : α) : State α :=
  { state with
    order := update state.order vertex (some state.nextOrder)
    lowest := update state.lowest vertex state.nextOrder
    onStack := insert vertex state.onStack
    stack := vertex :: state.stack
    nextOrder := state.nextOrder + 1
    visits := (vertex, 0) :: state.visits }

def lower (state : State α) (vertex : α) (bound : Nat) : State α :=
  { state with lowest := update state.lowest vertex (min (state.lowest vertex) bound) }

-- The vertices down to `root` become a component.
def popTo (root : α) : List α → State α → State α
  | [], state => state
  | member :: rest, state =>
      let popped := { state with
        stack := rest
        onStack := state.onStack.erase member
        componentOf := update state.componentOf member (some state.nextComponent) }
      if member = root then popped else popTo root rest popped

def closeComponent (state : State α) (root : α) : State α :=
  let popped := popTo root state.stack state
  { popped with nextComponent := popped.nextComponent + 1 }

-- The visit at the top ends, and the one below it hears how low it came.
def leave (state : State α) (vertex : α) (visits : List (α × Nat)) : State α :=
  let left := { state with visits := visits }
  match visits with
  | [] => left
  | (caller, _) :: _ => left.lower caller (left.lowest vertex)

def step (successors : α → List α) (state : State α) : State α :=
  match state.visits with
  | [] => state
  | (vertex, next) :: visits =>
      match (successors vertex)[next]? with
      | some successor =>
          let looked := { state with visits := (vertex, next + 1) :: visits }
          if looked.order successor = none then looked.enter successor
          else if successor ∈ looked.onStack then
            looked.lower vertex (looked.orderOf successor)
          else looked
      | none =>
          let left := state.leave vertex visits
          if left.lowest vertex ≠ left.orderOf vertex then left else left.closeComponent vertex

-- The loop `while (!visits.empty())`, given up after `fuel` rounds.
def explore (successors : α → List α) : Nat → State α → Option (State α)
  | 0, state => if state.visits = [] then some state else none
  | fuel + 1, state =>
      if state.visits = [] then some state else explore successors fuel (state.step successors)

def visitRoot (successors : α → List α) (fuel : Nat) (state : State α) (root : α) :
    Option (State α) :=
  if state.order root = none then explore successors fuel (state.enter root) else some state

end State

def search {α : Type*} [DecidableEq α] (successors : α → List α) (fuel : Nat) (roots : List α) : Option (State α) :=
  roots.foldlM (State.visitRoot successors fuel) {}

variable {α : Type*} {successors : α → List α} {state : State α}

def Arc (successors : α → List α) (before after : α) : Prop := after ∈ successors before

abbrev Reaches (successors : α → List α) : α → α → Prop := ReflTransGen (Arc successors)

-- The arcs looked at so far: those of a vertex the search is inside of only up to its place there.
def Examined (successors : α → List α) (visits : List (α × Nat)) (before after : α) : Prop :=
  after ∈ successors before ∧
    ∀ next, (before, next) ∈ visits → after ∈ (successors before).take next

-- What the search keeps: `lowest` tells an order on the stack that is reached, it tells a smaller
-- one than its own of every vertex the search has left, and those of the visits from any one on
-- tell how low the arcs looked at above it lead.
structure Kept (successors : α → List α) (state : State α) : Prop where
  order_lt : ∀ vertex, state.order vertex ≠ none → state.orderOf vertex < state.nextOrder
  onStack_iff : ∀ vertex, vertex ∈ state.onStack ↔ vertex ∈ state.stack
  stack_ordered : ∀ vertex ∈ state.stack, state.order vertex ≠ none
  stack_sorted : state.stack.Pairwise fun later earlier =>
    state.orderOf earlier < state.orderOf later
  visits_sorted : state.visits.Pairwise fun later earlier =>
    state.orderOf earlier.1 < state.orderOf later.1
  visits_stack : ∀ visit ∈ state.visits, visit.1 ∈ state.stack
  inside : ∀ vertex ∈ state.stack, ∃ visit ∈ state.visits,
    state.orderOf visit.1 ≤ state.orderOf vertex
  reaches : ∀ visit ∈ state.visits, ∀ vertex ∈ state.stack,
    state.orderOf visit.1 ≤ state.orderOf vertex → Reaches successors visit.1 vertex
  component_iff : ∀ vertex, state.componentOf vertex ≠ none ↔
    state.order vertex ≠ none ∧ vertex ∉ state.stack
  component_closed : ∀ before after, state.componentOf before ≠ none →
    Arc successors before after → state.componentOf after ≠ none
  component_lt : ∀ vertex component, state.componentOf vertex = some component →
    component < state.nextComponent
  component_eq_iff : ∀ vertex other component component',
    state.componentOf vertex = some component → state.componentOf other = some component' →
      (component = component' ↔ Reaches successors vertex other ∧ Reaches successors other vertex)
  examined : ∀ before after, state.order before ≠ none →
    Examined successors state.visits before after → state.order after ≠ none
  lowest_le : ∀ vertex ∈ state.stack, state.lowest vertex ≤ state.orderOf vertex
  lowest_reached : ∀ vertex ∈ state.stack, ∃ other ∈ state.stack,
    state.orderOf other = state.lowest vertex ∧ Reaches successors vertex other
  lowest_lt : ∀ vertex ∈ state.stack, (∀ next, (vertex, next) ∉ state.visits) →
    state.lowest vertex < state.orderOf vertex
  lowest_covers : ∀ visit ∈ state.visits, ∀ before ∈ state.stack,
    state.orderOf visit.1 ≤ state.orderOf before → ∀ after ∈ state.stack,
      Examined successors state.visits before after → ∃ above ∈ state.visits,
        state.orderOf visit.1 ≤ state.orderOf above.1 ∧
          state.lowest above.1 ≤ state.orderOf after

theorem kept_initial : Kept successors ({} : State α) := by
  constructor <;> simp

theorem Examined.of_subset {visits more : List (α × Nat)} {before after : α}
    (h : Examined successors more before after)
    (hsubset : ∀ next, (before, next) ∈ visits → (before, next) ∈ more) :
    Examined successors visits before after :=
  ⟨h.1, fun next hvisit => h.2 next (hsubset next hvisit)⟩

theorem exists_visit_of_place {front back : List (α × Nat)} {vertex : α} {next other : Nat} :
    ∀ visit ∈ front ++ (vertex, next) :: back, ∃ same ∈ front ++ (vertex, other) :: back,
      same.1 = visit.1 := by
  intro visit hvisit
  simp only [List.mem_append, List.mem_cons] at hvisit
  rcases hvisit with hvisit | hsame | hvisit
  · exact ⟨visit, by simp [hvisit], rfl⟩
  · exact ⟨(vertex, other), by simp, by rw [hsame]⟩
  · exact ⟨visit, by simp [hvisit], rfl⟩

-- Moving a place on adds the arc to the successor there and no other.
theorem Kept.examined_advance (h : Kept successors state) {front back : List (α × Nat)}
    {vertex after : α} {next : Nat} (hvisits : state.visits = front ++ (vertex, next) :: back)
    (hafter : (successors vertex)[next]? = some after) {before other : α}
    (hlooked : Examined successors (front ++ (vertex, next + 1) :: back) before other) :
    Examined successors state.visits before other ∨ (before = vertex ∧ other = after) := by
  have hsorted := h.visits_sorted
  rw [hvisits, List.pairwise_append, List.pairwise_cons] at hsorted
  obtain ⟨_, ⟨hbackBelow, _⟩, hfrontAbove⟩ := hsorted
  by_cases hsame : before = vertex
  · subst hsame
    have htake := hlooked.2 (next + 1) (by simp)
    rw [List.take_add_one, hafter, List.mem_append] at htake
    rcases htake with htake | htake
    · refine Or.inl ⟨hlooked.1, ?_⟩
      intro place hvisit
      rw [hvisits] at hvisit
      simp only [List.mem_append, List.mem_cons, Prod.mk.injEq, true_and] at hvisit
      rcases hvisit with hvisit | hsame | hvisit
      · have := hfrontAbove _ hvisit (before, next) (by simp)
        simp at this
      · rwa [hsame]
      · have := hbackBelow _ hvisit
        simp at this
    · exact Or.inr ⟨rfl, by simpa using htake⟩
  · refine Or.inl (hlooked.of_subset ?_)
    intro place hvisit
    rw [hvisits] at hvisit
    simp only [List.mem_append, List.mem_cons, Prod.mk.injEq, hsame, false_and, false_or]
      at hvisit ⊢
    exact hvisit

-- The visits from any one on tell how low the next arc of a vertex leads too.
theorem Kept.covers_advance (h : Kept successors state) {front back : List (α × Nat)} {vertex after : α}
    {next : Nat} (hvisits : state.visits = front ++ (vertex, next) :: back)
    (hafter : (successors vertex)[next]? = some after)
    (hlow : after ∈ state.stack → ∃ above ∈ front ++ [(vertex, next)],
      state.lowest above.1 ≤ state.orderOf after)
    {visit : α × Nat} (hvisit : visit ∈ state.visits) {before other : α} (hbefore : before ∈ state.stack)
    (hle : state.orderOf visit.1 ≤ state.orderOf before) (hother : other ∈ state.stack)
    (hlooked : Examined successors (front ++ (vertex, next + 1) :: back) before other) :
    ∃ above ∈ state.visits, state.orderOf visit.1 ≤ state.orderOf above.1 ∧
      state.lowest above.1 ≤ state.orderOf other := by
  have hsorted := h.visits_sorted
  rw [hvisits, List.pairwise_append] at hsorted
  rcases h.examined_advance hvisits hafter hlooked with hlooked | ⟨hbeforeSame, hotherSame⟩
  · exact h.lowest_covers visit hvisit before hbefore hle other hother hlooked
  · rw [hotherSame] at hother ⊢
    rw [hbeforeSame] at hle
    obtain ⟨above, habove, hlowest⟩ := hlow hother
    have horder : state.orderOf vertex ≤ state.orderOf above.1 := by
      rcases List.mem_append.mp habove with habove | habove
      · exact (hsorted.2.2 above habove (vertex, next) (List.mem_cons_self ..)).le
      · rw [List.mem_singleton.mp habove]
    have hknown : above ∈ state.visits := by
      rw [hvisits]
      rcases List.mem_append.mp habove with habove | habove
      · simp [habove]
      · simp [List.mem_singleton.mp habove]
    exact ⟨above, hknown, hle.trans horder, hlowest⟩

-- The place of a visit moves past a successor, which has an order by now, and which its own visit
-- or one above it tells of while it is on the stack.
theorem Kept.advance (h : Kept successors state) {front back : List (α × Nat)} {vertex after : α}
    {next : Nat} (hvisits : state.visits = front ++ (vertex, next) :: back)
    (hafter : (successors vertex)[next]? = some after) (hordered : state.order after ≠ none)
    (hlow : after ∈ state.stack → ∃ above ∈ front ++ [(vertex, next)],
      state.lowest above.1 ≤ state.orderOf after) :
    Kept successors { state with visits := front ++ (vertex, next + 1) :: back } := by
  have hsorted := h.visits_sorted
  rw [hvisits, List.pairwise_append, List.pairwise_cons] at hsorted
  obtain ⟨hfrontSorted, ⟨hbackBelow, hbackSorted⟩, hfrontAbove⟩ := hsorted
  -- the visits are the same but for a place
  have hplaces : ∀ visit ∈ front ++ (vertex, next + 1) :: back, ∃ known ∈ state.visits,
      known.1 = visit.1 := by
    rw [hvisits]
    exact exists_visit_of_place
  have hback : ∀ known ∈ state.visits, ∃ visit ∈ front ++ (vertex, next + 1) :: back,
      visit.1 = known.1 := by
    rw [hvisits]
    exact exists_visit_of_place
  constructor
  case order_lt => exact h.order_lt
  case onStack_iff => exact h.onStack_iff
  case stack_ordered => exact h.stack_ordered
  case stack_sorted => exact h.stack_sorted
  case visits_sorted =>
    refine List.pairwise_append.mpr ⟨hfrontSorted, List.pairwise_cons.mpr ⟨hbackBelow, hbackSorted⟩, ?_⟩
    intro later hlater earlier hearlier
    rcases List.mem_cons.mp hearlier with hsame | hearlier
    · rw [hsame]
      exact hfrontAbove later hlater (vertex, next) (List.mem_cons_self ..)
    · exact hfrontAbove later hlater earlier (List.mem_cons_of_mem _ hearlier)
  case visits_stack =>
    intro visit hvisit
    obtain ⟨known, hknown, hsame⟩ := hplaces visit hvisit
    rw [← hsame]
    exact h.visits_stack known hknown
  case inside =>
    intro other hmem
    obtain ⟨known, hknown, hle⟩ := h.inside other hmem
    obtain ⟨visit, hvisit, hsame⟩ := hback known hknown
    exact ⟨visit, hvisit, by rw [hsame]; exact hle⟩
  case reaches =>
    intro visit hvisit
    obtain ⟨known, hknown, hsame⟩ := hplaces visit hvisit
    rw [← hsame]
    exact h.reaches known hknown
  case component_iff => exact h.component_iff
  case component_closed => exact h.component_closed
  case component_lt => exact h.component_lt
  case component_eq_iff => exact h.component_eq_iff
  case examined =>
    intro before after' hhas hlooked
    rcases h.examined_advance hvisits hafter hlooked with hlooked | ⟨_, hsame⟩
    · exact h.examined before after' hhas hlooked
    · rwa [hsame]
  case lowest_le => exact h.lowest_le
  case lowest_reached => exact h.lowest_reached
  case lowest_lt =>
    intro other hmem hleft
    refine h.lowest_lt other hmem fun next' hknown => ?_
    obtain ⟨⟨vertex', place⟩, hvisit, hsame⟩ := hback _ hknown
    have hsame : vertex' = other := hsame
    exact hleft place (hsame ▸ hvisit)
  case lowest_covers =>
    intro visit hvisit before hbefore hle after' hafter' hlooked
    obtain ⟨known, hknown, hsame⟩ := hplaces visit hvisit
    rw [← hsame] at hle ⊢
    obtain ⟨above, habove, horder, hlowest⟩ :=
      h.covers_advance hvisits hafter hlow hknown hbefore hle hafter' hlooked
    obtain ⟨visit', hvisit', hsame'⟩ := hback above habove
    exact ⟨visit', hvisit', by rw [hsame']; exact horder, by rw [hsame']; exact hlowest⟩

-- All arcs of a vertex whose visit ends have been looked at.
theorem examined_of_ended {visits : List (α × Nat)} {vertex : α} {next : Nat}
    (hdone : (successors vertex).length ≤ next) {before after : α}
    (h : Examined successors visits before after) :
    Examined successors ((vertex, next) :: visits) before after := by
  refine ⟨h.1, fun place hvisit => ?_⟩
  rcases List.mem_cons.mp hvisit with hsame | hvisit
  · obtain ⟨hbefore, hplace⟩ := Prod.mk.injEq .. ▸ hsame
    rw [hbefore, hplace, List.take_of_length_le hdone, ← hbefore]
    exact h.1
  · exact h.2 place hvisit

-- The visit at the top ends at a vertex that reaches below it; the next visit has heard how low.
theorem Kept.drop (h : Kept successors state) {visits : List (α × Nat)} {vertex : α} {next : Nat}
    (hvisits : state.visits = (vertex, next) :: visits)
    (hdone : (successors vertex).length ≤ next)
    (hlow : state.lowest vertex < state.orderOf vertex) {caller : α × Nat} (hcaller : caller ∈ visits)
    (htop : ∀ visit ∈ visits, state.orderOf visit.1 ≤ state.orderOf caller.1)
    (hheard : state.lowest caller.1 ≤ state.lowest vertex) :
    Kept successors { state with visits := visits } := by
  have hsorted := h.visits_sorted
  rw [hvisits, List.pairwise_cons] at hsorted
  have hkept : ∀ visit ∈ visits, visit ∈ state.visits := fun visit hvisit => by
    rw [hvisits]
    exact List.mem_cons_of_mem _ hvisit
  have hcases : ∀ visit ∈ state.visits, visit = (vertex, next) ∨ visit ∈ visits := fun visit hvisit => by
    rw [hvisits] at hvisit
    exact List.mem_cons.mp hvisit
  have hlooked : ∀ before after, Examined successors visits before after →
      Examined successors state.visits before after := fun before after hlooked => by
    rw [hvisits]
    exact examined_of_ended hdone hlooked
  constructor
  case order_lt => exact h.order_lt
  case onStack_iff => exact h.onStack_iff
  case stack_ordered => exact h.stack_ordered
  case stack_sorted => exact h.stack_sorted
  case visits_sorted => exact hsorted.2
  case visits_stack => exact fun visit hvisit => h.visits_stack visit (hkept visit hvisit)
  case inside =>
    intro other hmem
    obtain ⟨visit, hvisit, hle⟩ := h.inside other hmem
    rcases hcases visit hvisit with hsame | hvisit
    · have hless := hsorted.1 caller hcaller
      rw [hsame] at hle
      exact ⟨caller, hcaller, (hless.trans_le hle).le⟩
    · exact ⟨visit, hvisit, hle⟩
  case reaches => exact fun visit hvisit => h.reaches visit (hkept visit hvisit)
  case component_iff => exact h.component_iff
  case component_closed => exact h.component_closed
  case component_lt => exact h.component_lt
  case component_eq_iff => exact h.component_eq_iff
  case examined =>
    exact fun before after hhas hexamined => h.examined before after hhas (hlooked _ _ hexamined)
  case lowest_le => exact h.lowest_le
  case lowest_reached => exact h.lowest_reached
  case lowest_lt =>
    intro other hmem hleft
    by_cases hsame : other = vertex
    · rw [hsame]
      exact hlow
    · refine h.lowest_lt other hmem fun place hvisit => ?_
      rcases hcases _ hvisit with heq | hvisit
      · exact hsame (congrArg Prod.fst heq)
      · exact hleft place hvisit
  case lowest_covers =>
    intro visit hvisit before hbefore hle after hafter hexamined
    obtain ⟨above, habove, horder, hlowest⟩ := h.lowest_covers visit (hkept visit hvisit) before
      hbefore hle after hafter (hlooked _ _ hexamined)
    rcases hcases above habove with hsame | habove
    · rw [hsame] at hlowest
      exact ⟨caller, hcaller, htop visit hvisit, hheard.trans hlowest⟩
    · exact ⟨above, habove, horder, hlowest⟩

-- The vertices from the root of a component on.
structure Closing (successors : α → List α) (state : State α) (root : α) : Prop where
  reached : ∀ vertex ∈ state.stack, state.orderOf root ≤ state.orderOf vertex →
    Reaches successors root vertex
  stays : ∀ before after, Arc successors before after → before ∈ state.stack →
    state.orderOf root ≤ state.orderOf before →
      (after ∈ state.stack ∧ state.orderOf root ≤ state.orderOf after) ∨
        state.componentOf after ≠ none
  reaches : ∀ vertex ∈ state.stack, state.orderOf root ≤ state.orderOf vertex →
    Reaches successors vertex root

theorem Kept.component_reaches (h : Kept successors state) {vertex other : α}
    (hvertex : state.componentOf vertex ≠ none) (hreaches : Reaches successors vertex other) :
    state.componentOf other ≠ none := by
  induction hreaches with
  | refl => exact hvertex
  | tail _ harc ih => exact h.component_closed _ _ ih harc

section Ending

variable (h : Kept successors state) {visits : List (α × Nat)} {root : α} {next : Nat}
  (hvisits : state.visits = (root, next) :: visits)

include h hvisits

-- The other visits are of vertices entered before the one at the top.
theorem Kept.not_visited_from_top {vertex : α} (hle : state.orderOf root ≤ state.orderOf vertex)
    (hne : vertex ≠ root) (place : Nat) : (vertex, place) ∉ state.visits := by
  have hsorted := h.visits_sorted
  rw [hvisits, List.pairwise_cons] at hsorted
  intro hother
  rw [hvisits] at hother
  rcases List.mem_cons.mp hother with hsame | hother
  · exact hne (congrArg Prod.fst hsame)
  · have hless := hsorted.1 _ hother
    simp only at hless
    omega

variable (hdone : (successors root).length ≤ next)

include hdone

-- So each arc from there on has been looked at.
theorem Kept.examined_from_top {before after : α} (hle : state.orderOf root ≤ state.orderOf before)
    (harc : Arc successors before after) : Examined successors state.visits before after := by
  have hsorted := h.visits_sorted
  rw [hvisits, List.pairwise_cons] at hsorted
  refine ⟨harc, fun place hplace => ?_⟩
  by_cases hsame : before = root
  · subst hsame
    rw [hvisits] at hplace
    rcases List.mem_cons.mp hplace with heq | hplace
    · rw [(Prod.mk.inj heq).2, List.take_of_length_le hdone]
      exact harc
    · have hless := hsorted.1 _ hplace
      simp at hless
  · exact absurd hplace (h.not_visited_from_top hvisits hle hsame place)

variable (hlow : state.lowest root = state.orderOf root)

include hlow

-- Where the visit at the top has not come lower than its own vertex, no arc from there on leads below
-- it, but to what is closed.
theorem Kept.stays_from_top {before after : α} (harc : Arc successors before after)
    (hbefore : before ∈ state.stack) (hle : state.orderOf root ≤ state.orderOf before) :
    (after ∈ state.stack ∧ state.orderOf root ≤ state.orderOf after) ∨
      state.componentOf after ≠ none := by
  have hsorted := h.visits_sorted
  rw [hvisits, List.pairwise_cons] at hsorted
  have hexamined := h.examined_from_top hvisits hdone hle harc
  have hordered := h.examined before after (h.stack_ordered before hbefore) hexamined
  by_cases hafter : after ∈ state.stack
  · obtain ⟨above, habove, horder, hlowest⟩ := h.lowest_covers (root, next)
      (by simp [hvisits]) before hbefore hle after hafter hexamined
    rw [hvisits] at habove
    rcases List.mem_cons.mp habove with hsame | habove
    · rw [hsame, hlow] at hlowest
      exact Or.inl ⟨hafter, hlowest⟩
    · have hless := hsorted.1 above habove
      simp only at hless horder
      omega
  · exact Or.inr ((h.component_iff after).mpr ⟨hordered, hafter⟩)

theorem Kept.reaches_from_top {vertex other : α} (hreaches : Reaches successors vertex other)
    (hvertex : vertex ∈ state.stack) (hle : state.orderOf root ≤ state.orderOf vertex)
    (hother : other ∈ state.stack) : state.orderOf root ≤ state.orderOf other := by
  have hends : (other ∈ state.stack ∧ state.orderOf root ≤ state.orderOf other) ∨
      state.componentOf other ≠ none := by
    clear hother
    induction hreaches with
    | refl => exact Or.inl ⟨hvertex, hle⟩
    | tail _ harc ih =>
        rcases ih with ⟨hmem, hle⟩ | hclosed
        · exact h.stays_from_top hvisits hdone hlow harc hmem hle
        · exact Or.inr (h.component_closed _ _ hclosed harc)
  rcases hends with ⟨_, hle⟩ | hclosed
  · exact hle
  · exact absurd hother ((h.component_iff other).mp hclosed).2

-- Each vertex from there on reaches one of a smaller order, and so down to the root.
theorem Kept.leads_back_to_top (vertex : α) (hvertex : vertex ∈ state.stack)
    (hle : state.orderOf root ≤ state.orderOf vertex) : Reaches successors vertex root := by
  generalize horder : state.orderOf vertex = order
  induction order using Nat.strong_induction_on generalizing vertex with
  | _ order ih =>
      by_cases hsame : vertex = root
      · rw [hsame]
      · have hless := h.lowest_lt vertex hvertex (h.not_visited_from_top hvisits hle hsame)
        obtain ⟨low, hlowMem, hlowOrder, hreaches⟩ := h.lowest_reached vertex hvertex
        have hlowLe := h.reaches_from_top hvisits hdone hlow hreaches hvertex hle hlowMem
        exact hreaches.trans (ih (state.orderOf low) (by omega) low hlowMem hlowLe rfl)

-- Nothing from the root on leads below it, and everything from there on leads back to it.
theorem Kept.closing : Closing successors state root where
  reached := h.reaches (root, next) (by simp [hvisits])
  stays := fun _ _ => h.stays_from_top hvisits hdone hlow
  reaches := h.leads_back_to_top hvisits hdone hlow

end Ending

variable [DecidableEq α]

theorem orderOf_enter_self (state : State α) (vertex : α) :
    (state.enter vertex).orderOf vertex = state.nextOrder := by
  simp [State.enter, State.orderOf]

theorem orderOf_enter_of_ne (state : State α) {vertex other : α} (hne : other ≠ vertex) :
    (state.enter vertex).orderOf other = state.orderOf other := by
  simp [State.enter, State.orderOf, hne]

theorem order_enter_ne_none_iff (state : State α) (vertex other : α) :
    (state.enter vertex).order other ≠ none ↔ other = vertex ∨ state.order other ≠ none := by
  by_cases hsame : other = vertex <;> simp [State.enter, hsame]

theorem lowest_enter_self (state : State α) (vertex : α) :
    (state.enter vertex).lowest vertex = state.nextOrder := by
  simp [State.enter]

theorem lowest_enter_of_ne (state : State α) {vertex other : α} (hne : other ≠ vertex) :
    (state.enter vertex).lowest other = state.lowest other := by
  simp [State.enter, hne]

-- No arc of an entered vertex has been looked at.
theorem Examined.of_enter {vertex before after : α}
    (hlooked : Examined successors (state.enter vertex).visits before after) :
    before ≠ vertex ∧ Examined successors state.visits before after := by
  refine ⟨?_, hlooked.of_subset fun next hvisit => List.mem_cons_of_mem _ hvisit⟩
  rintro rfl
  have hnothing := hlooked.2 0 (List.mem_cons_self ..)
  simp at hnothing

section Entering

variable (h : Kept successors state) {vertex other : α} (hnew : state.order vertex = none)

include h hnew

-- What is on the stack keeps its order, and comes before the vertex that is entered.
omit [DecidableEq α] in
theorem Kept.ne_of_mem_stack (hmem : other ∈ state.stack) : other ≠ vertex := by
  rintro rfl
  exact h.stack_ordered other hmem hnew

theorem Kept.orderOf_enter (hmem : other ∈ state.stack) :
    (state.enter vertex).orderOf other = state.orderOf other :=
  orderOf_enter_of_ne state (h.ne_of_mem_stack hnew hmem)

theorem Kept.lowest_enter (hmem : other ∈ state.stack) :
    (state.enter vertex).lowest other = state.lowest other :=
  lowest_enter_of_ne state (h.ne_of_mem_stack hnew hmem)

omit hnew in
theorem Kept.lt_orderOf_enter (hmem : other ∈ state.stack) :
    state.orderOf other < (state.enter vertex).orderOf vertex := by
  rw [orderOf_enter_self]
  exact h.order_lt other (h.stack_ordered other hmem)

omit hnew in
theorem Kept.enter_order_lt (hhas : (state.enter vertex).order other ≠ none) :
    (state.enter vertex).orderOf other < state.nextOrder + 1 := by
  by_cases hsame : other = vertex
  · rw [hsame, orderOf_enter_self]
    omega
  · have hlt := h.order_lt other (((order_enter_ne_none_iff state vertex other).mp hhas).resolve_left hsame)
    rw [orderOf_enter_of_ne state hsame]
    omega

-- The vertex comes to lie on top, of the stack and of the visits.
theorem Kept.enter_sorted {β : Type*} (place : β → α) {first : β} {entries : List β}
    (hfirst : place first = vertex) (hmem : ∀ entry ∈ entries, place entry ∈ state.stack)
    (hsorted : entries.Pairwise fun later earlier =>
      state.orderOf (place earlier) < state.orderOf (place later)) :
    (first :: entries).Pairwise fun later earlier =>
      (state.enter vertex).orderOf (place earlier) < (state.enter vertex).orderOf (place later) := by
  refine List.pairwise_cons.mpr ⟨fun entry hentry => ?_, hsorted.imp_of_mem ?_⟩
  · rw [hfirst, h.orderOf_enter hnew (hmem entry hentry)]
    exact h.lt_orderOf_enter (hmem entry hentry)
  · intro later earlier hlater hearlier hlt
    rwa [h.orderOf_enter hnew (hmem later hlater), h.orderOf_enter hnew (hmem earlier hearlier)]

theorem Kept.enter_inside (hmem : other ∈ (state.enter vertex).stack) :
    ∃ visit ∈ (state.enter vertex).visits,
      (state.enter vertex).orderOf visit.1 ≤ (state.enter vertex).orderOf other := by
  rcases List.mem_cons.mp hmem with hsame | hmem
  · exact ⟨(vertex, 0), List.mem_cons_self .., by rw [hsame]⟩
  · obtain ⟨visit, hvisit, hle⟩ := h.inside other hmem
    refine ⟨visit, List.mem_cons_of_mem _ hvisit, ?_⟩
    rwa [h.orderOf_enter hnew (h.visits_stack visit hvisit), h.orderOf_enter hnew hmem]

theorem Kept.enter_reaches (hreaches : ∀ visit ∈ state.visits, Reaches successors visit.1 vertex)
    {visit : α × Nat} (hvisit : visit ∈ (state.enter vertex).visits)
    (hmem : other ∈ (state.enter vertex).stack)
    (hle : (state.enter vertex).orderOf visit.1 ≤ (state.enter vertex).orderOf other) :
    Reaches successors visit.1 other := by
  rcases List.mem_cons.mp hvisit with hsame | hseen <;> rcases List.mem_cons.mp hmem with hnext | hmem
  · rw [hsame, hnext]
  · rw [hsame, h.orderOf_enter hnew hmem] at hle
    exact absurd hle (not_le.mpr (h.lt_orderOf_enter hmem))
  · rw [hnext]
    exact hreaches visit hseen
  · rw [h.orderOf_enter hnew (h.visits_stack visit hseen), h.orderOf_enter hnew hmem] at hle
    exact h.reaches visit hseen other hmem hle

theorem Kept.enter_component_iff : (state.enter vertex).componentOf other ≠ none ↔
    (state.enter vertex).order other ≠ none ∧ other ∉ (state.enter vertex).stack := by
  rw [order_enter_ne_none_iff]
  show state.componentOf other ≠ none ↔ _ ∧ other ∉ vertex :: state.stack
  rw [h.component_iff, List.mem_cons, not_or]
  constructor
  · rintro ⟨hhas, hmem⟩
    exact ⟨Or.inr hhas, fun hsame => hhas (hsame ▸ hnew), hmem⟩
  · rintro ⟨hhas, hne, hmem⟩
    exact ⟨hhas.resolve_left hne, hmem⟩

theorem Kept.enter_lowest_le (hmem : other ∈ (state.enter vertex).stack) :
    (state.enter vertex).lowest other ≤ (state.enter vertex).orderOf other := by
  rcases List.mem_cons.mp hmem with rfl | hmem
  · rw [orderOf_enter_self, lowest_enter_self]
  · rw [h.orderOf_enter hnew hmem, h.lowest_enter hnew hmem]
    exact h.lowest_le other hmem

theorem Kept.enter_lowest_reached (hmem : other ∈ (state.enter vertex).stack) :
    ∃ low ∈ (state.enter vertex).stack,
      (state.enter vertex).orderOf low = (state.enter vertex).lowest other ∧
        Reaches successors other low := by
  rcases List.mem_cons.mp hmem with rfl | hmem
  · refine ⟨other, List.mem_cons_self .., ?_, .refl⟩
    rw [orderOf_enter_self, lowest_enter_self]
  · obtain ⟨low, hlow, horder, hreach⟩ := h.lowest_reached other hmem
    refine ⟨low, List.mem_cons_of_mem _ hlow, ?_, hreach⟩
    rw [h.orderOf_enter hnew hlow, horder, h.lowest_enter hnew hmem]

theorem Kept.enter_lowest_lt (hmem : other ∈ (state.enter vertex).stack)
    (hleft : ∀ next, (other, next) ∉ (state.enter vertex).visits) :
    (state.enter vertex).lowest other < (state.enter vertex).orderOf other := by
  rcases List.mem_cons.mp hmem with rfl | hmem
  · exact absurd (List.mem_cons_self ..) (hleft 0)
  · rw [h.orderOf_enter hnew hmem, h.lowest_enter hnew hmem]
    exact h.lowest_lt other hmem fun next hvisit => hleft next (List.mem_cons_of_mem _ hvisit)

-- No arc leads from the vertex yet, and none that was looked at leads to it.
theorem Kept.enter_covers {visit : α × Nat} (hvisit : visit ∈ (state.enter vertex).visits)
    {before after : α} (hbefore : before ∈ (state.enter vertex).stack)
    (hle : (state.enter vertex).orderOf visit.1 ≤ (state.enter vertex).orderOf before)
    (hafter : after ∈ (state.enter vertex).stack)
    (hlooked : Examined successors (state.enter vertex).visits before after) :
    ∃ above ∈ (state.enter vertex).visits,
      (state.enter vertex).orderOf visit.1 ≤ (state.enter vertex).orderOf above.1 ∧
        (state.enter vertex).lowest above.1 ≤ (state.enter vertex).orderOf after := by
  obtain ⟨hne, hlooked⟩ := hlooked.of_enter
  have hbefore : before ∈ state.stack := (List.mem_cons.mp hbefore).resolve_left hne
  have hafterNe : after ≠ vertex := fun hsame =>
    h.examined before after (h.stack_ordered before hbefore) hlooked (hsame ▸ hnew)
  have hafter : after ∈ state.stack := (List.mem_cons.mp hafter).resolve_left hafterNe
  rw [h.orderOf_enter hnew hbefore] at hle
  rcases List.mem_cons.mp hvisit with rfl | hvisit
  · exact absurd hle (not_le.mpr (h.lt_orderOf_enter hbefore))
  · have hplaced := h.visits_stack visit hvisit
    rw [h.orderOf_enter hnew hplaced] at hle
    obtain ⟨above, habove, horder, hlow⟩ :=
      h.lowest_covers visit hvisit before hbefore hle after hafter hlooked
    have haboveStack := h.visits_stack above habove
    refine ⟨above, List.mem_cons_of_mem _ habove, ?_, ?_⟩
    · rwa [h.orderOf_enter hnew hplaced, h.orderOf_enter hnew haboveStack]
    · rwa [h.orderOf_enter hnew hafter, h.lowest_enter hnew haboveStack]

-- A vertex without an order is entered, which the search can reach from wherever it is.
theorem Kept.enter (hreaches : ∀ visit ∈ state.visits, Reaches successors visit.1 vertex) :
    Kept successors (state.enter vertex) where
  order_lt _ hhas := h.enter_order_lt hhas
  onStack_iff other := by simp [State.enter, h.onStack_iff]
  stack_ordered other hmem := by
    rw [order_enter_ne_none_iff]
    exact (List.mem_cons.mp hmem).imp id (h.stack_ordered other)
  stack_sorted := h.enter_sorted hnew id rfl (fun _ hmem => hmem) h.stack_sorted
  visits_sorted := h.enter_sorted hnew Prod.fst rfl h.visits_stack h.visits_sorted
  visits_stack visit hvisit := by
    rcases List.mem_cons.mp hvisit with rfl | hvisit
    · exact List.mem_cons_self ..
    · exact List.mem_cons_of_mem _ (h.visits_stack visit hvisit)
  inside _ hmem := h.enter_inside hnew hmem
  reaches _ hvisit _ hmem hle := h.enter_reaches hnew hreaches hvisit hmem hle
  component_iff _ := h.enter_component_iff hnew
  component_closed := h.component_closed
  component_lt := h.component_lt
  component_eq_iff := h.component_eq_iff
  examined before after hhas hlooked := by
    obtain ⟨hne, hlooked⟩ := hlooked.of_enter
    rw [order_enter_ne_none_iff] at hhas ⊢
    exact Or.inr (h.examined before after (hhas.resolve_left hne) hlooked)
  lowest_le _ hmem := h.enter_lowest_le hnew hmem
  lowest_reached _ hmem := h.enter_lowest_reached hnew hmem
  lowest_lt _ hmem hleft := h.enter_lowest_lt hnew hmem hleft
  lowest_covers _ hvisit _ hbefore hle _ hafter hlooked :=
    h.enter_covers hnew hvisit hbefore hle hafter hlooked

end Entering

-- A vertex hears of an order on the stack that it reaches.
theorem Kept.lower (h : Kept successors state) {vertex other : α} (hother : other ∈ state.stack)
    (hreach : Reaches successors vertex other) :
    Kept successors (state.lower vertex (state.orderOf other)) := by
  have hle : ∀ vertex', (state.lower vertex (state.orderOf other)).lowest vertex' ≤
      state.lowest vertex' := by
    intro vertex'
    by_cases hsame : vertex' = vertex <;> simp [State.lower, hsame]
  constructor
  case order_lt => exact h.order_lt
  case onStack_iff => exact h.onStack_iff
  case stack_ordered => exact h.stack_ordered
  case stack_sorted => exact h.stack_sorted
  case visits_sorted => exact h.visits_sorted
  case visits_stack => exact h.visits_stack
  case inside => exact h.inside
  case reaches => exact h.reaches
  case component_iff => exact h.component_iff
  case component_closed => exact h.component_closed
  case component_lt => exact h.component_lt
  case component_eq_iff => exact h.component_eq_iff
  case examined => exact h.examined
  case lowest_le => exact fun vertex' hmem => (hle vertex').trans (h.lowest_le vertex' hmem)
  case lowest_lt =>
    exact fun vertex' hmem hleft => (hle vertex').trans_lt (h.lowest_lt vertex' hmem hleft)
  case lowest_reached =>
    intro vertex' hmem
    obtain ⟨low, hlow, horder, hlowReach⟩ := h.lowest_reached vertex' hmem
    show ∃ low ∈ state.stack, state.orderOf low =
      update state.lowest vertex (min (state.lowest vertex) (state.orderOf other)) vertex' ∧ _
    by_cases hsame : vertex' = vertex
    · rw [hsame, update_self]
      rw [hsame] at horder hlowReach
      by_cases hless : state.lowest vertex ≤ state.orderOf other
      · exact ⟨low, hlow, by omega, hlowReach⟩
      · exact ⟨other, hother, by omega, hreach⟩
    · rw [update_of_ne hsame]
      exact ⟨low, hlow, horder, hlowReach⟩
  case lowest_covers =>
    intro visit hvisit before hbefore hvisitLe after hafter hlooked
    obtain ⟨above, habove, horder, hlow⟩ :=
      h.lowest_covers visit hvisit before hbefore hvisitLe after hafter hlooked
    exact ⟨above, habove, horder, (hle above.1).trans hlow⟩

theorem popTo_append (state : State α) {front back : List α} {root : α} (hfront : root ∉ front) :
    State.popTo root (front ++ root :: back) state = { state with
      stack := back
      onStack := state.onStack \ (front ++ [root]).toFinset
      componentOf := fun vertex =>
        if vertex ∈ front ++ [root] then some state.nextComponent else state.componentOf vertex } := by
  induction front generalizing state with
  | nil =>
      rw [List.nil_append, State.popTo, if_pos rfl]
      congr 1
      · funext vertex
        simp [update_apply]
      · ext vertex
        simp [and_comm]
  | cons member front ih =>
      have hne : member ≠ root := fun hsame => hfront (hsame ▸ List.mem_cons_self ..)
      rw [List.cons_append, State.popTo, if_neg hne,
        ih _ (fun hmem => hfront (List.mem_cons_of_mem _ hmem))]
      congr 1
      · funext vertex
        by_cases hsame : vertex = member
        · simp [hsame]
        · simp [hsame]
      · ext vertex
        simp only [List.cons_append, List.toFinset_cons, Finset.mem_sdiff, Finset.mem_erase,
          Finset.mem_insert]
        tauto

-- The stack at the root of a component: what the closing pops, and what is left below it.
structure Parted (state : State α) (root : α) (front back : List α) : Prop where
  stack : state.stack = front ++ root :: back
  apart : root ∉ front
  popped_iff : ∀ vertex, vertex ∈ front ++ [root] ↔
    vertex ∈ state.stack ∧ state.orderOf root ≤ state.orderOf vertex
  left_iff : ∀ vertex, vertex ∈ back ↔
    vertex ∈ state.stack ∧ state.orderOf vertex < state.orderOf root
  left_sorted : back.Pairwise fun later earlier => state.orderOf earlier < state.orderOf later

omit [DecidableEq α] in
theorem Kept.parted (h : Kept successors state) {root : α} (hroot : root ∈ state.stack) :
    ∃ front back, Parted state root front back := by
  obtain ⟨front, back, hstack⟩ := List.append_of_mem hroot
  have hsorted := h.stack_sorted
  rw [hstack, List.pairwise_append, List.pairwise_cons] at hsorted
  obtain ⟨_, ⟨hbackBelow, hbackSorted⟩, hfrontAbove⟩ := hsorted
  have habove : ∀ vertex ∈ front, state.orderOf root < state.orderOf vertex := fun vertex hmem =>
    hfrontAbove vertex hmem root (List.mem_cons_self ..)
  refine ⟨front, back, hstack, fun hmem => lt_irrefl _ (habove root hmem), ?_, ?_, hbackSorted⟩
  · intro vertex
    rw [hstack]
    simp only [List.mem_append, List.mem_cons, List.not_mem_nil, or_false]
    constructor
    · rintro (hmem | hsame)
      · exact ⟨Or.inl hmem, (habove vertex hmem).le⟩
      · exact ⟨Or.inr (Or.inl hsame), by rw [hsame]⟩
    · rintro ⟨hmem | hsame | hmem, hle⟩
      · exact Or.inl hmem
      · exact Or.inr hsame
      · have := hbackBelow vertex hmem
        omega
  · intro vertex
    constructor
    · intro hmem
      exact ⟨by simp [hstack, hmem], hbackBelow vertex hmem⟩
    · rintro ⟨hmem, hlt⟩
      rw [hstack] at hmem
      simp only [List.mem_append, List.mem_cons] at hmem
      rcases hmem with hmem | hsame | hmem
      · have := habove vertex hmem
        omega
      · rw [hsame] at hlt
        omega
      · exact hmem

section Closed

variable {root : α} {front back : List α}

-- The components once those down to the root have become one.
def closedComponents (state : State α) (popped : List α) (vertex : α) : Option Nat :=
  if vertex ∈ popped then some state.nextComponent else state.componentOf vertex

theorem closeComponent_eq (hparted : Parted state root front back) (visits : List (α × Nat)) :
    State.closeComponent { state with visits := visits } root = { state with
      visits := visits
      stack := back
      onStack := state.onStack \ (front ++ [root]).toFinset
      componentOf := closedComponents state (front ++ [root])
      nextComponent := state.nextComponent + 1 } := by
  unfold State.closeComponent
  simp only [hparted.stack]
  rw [popTo_append _ hparted.apart]
  rfl

theorem closedComponents_ne_none_iff (h : Kept successors state)
    (hparted : Parted state root front back) (vertex : α) :
    closedComponents state (front ++ [root]) vertex ≠ none ↔
      state.order vertex ≠ none ∧ vertex ∉ back := by
  unfold closedComponents
  by_cases hmem : vertex ∈ front ++ [root]
  · rw [if_pos hmem]
    obtain ⟨hstackMem, hle⟩ := (hparted.popped_iff vertex).mp hmem
    refine ⟨fun _ => ⟨h.stack_ordered vertex hstackMem, fun hin => ?_⟩, fun _ => by simp⟩
    have := ((hparted.left_iff vertex).mp hin).2
    omega
  · rw [if_neg hmem, h.component_iff, hparted.left_iff]
    constructor
    · rintro ⟨hhas, hnot⟩
      exact ⟨hhas, fun hin => hnot hin.1⟩
    · rintro ⟨hhas, hnot⟩
      refine ⟨hhas, fun hin => hmem ((hparted.popped_iff vertex).mpr ⟨hin, ?_⟩)⟩
      by_contra hlt
      exact hnot ⟨hin, by omega⟩

theorem closedComponents_closed (h : Kept successors state)
    (hparted : Parted state root front back) (hclosing : Closing successors state root)
    {before after : α} (hbefore : closedComponents state (front ++ [root]) before ≠ none)
    (harc : Arc successors before after) :
    closedComponents state (front ++ [root]) after ≠ none := by
  unfold closedComponents at hbefore ⊢
  by_cases hafter : after ∈ front ++ [root]
  · simp [hafter]
  · rw [if_neg hafter]
    by_cases hmem : before ∈ front ++ [root]
    · obtain ⟨hstackMem, hle⟩ := (hparted.popped_iff before).mp hmem
      exact (hclosing.stays before after harc hstackMem hle).resolve_left
        fun hin => hafter ((hparted.popped_iff after).mpr hin)
    · rw [if_neg hmem] at hbefore
      exact h.component_closed before after hbefore harc

theorem closedComponents_lt (h : Kept successors state) {popped : List α} {vertex : α}
    {component : Nat} (hcomponent : closedComponents state popped vertex = some component) :
    component < state.nextComponent + 1 := by
  unfold closedComponents at hcomponent
  by_cases hmem : vertex ∈ popped
  · rw [if_pos hmem] at hcomponent
    have := Option.some.inj hcomponent
    omega
  · rw [if_neg hmem] at hcomponent
    have := h.component_lt vertex component hcomponent
    omega

theorem closedComponents_eq_iff (h : Kept successors state)
    (hparted : Parted state root front back) (hclosing : Closing successors state root)
    {vertex other : α} {component component' : Nat}
    (hvertex : closedComponents state (front ++ [root]) vertex = some component)
    (hother : closedComponents state (front ++ [root]) other = some component') :
    component = component' ↔ Reaches successors vertex other ∧ Reaches successors other vertex := by
  -- a vertex of an older component does not lead to the new one
  have hapart : ∀ older newer component, state.componentOf older = some component →
      newer ∈ front ++ [root] → ¬Reaches successors older newer := by
    intro older newer component holder hnewer hreaches
    have hsome := h.component_reaches (by simp [holder]) hreaches
    exact ((h.component_iff newer).mp hsome).2 ((hparted.popped_iff newer).mp hnewer).1
  unfold closedComponents at hvertex hother
  by_cases hmem : vertex ∈ front ++ [root]
  · rw [if_pos hmem] at hvertex
    by_cases hmem' : other ∈ front ++ [root]
    · rw [if_pos hmem'] at hother
      obtain ⟨hin, hle⟩ := (hparted.popped_iff vertex).mp hmem
      obtain ⟨hin', hle'⟩ := (hparted.popped_iff other).mp hmem'
      have hsame : component = component' := by
        rw [← Option.some.inj hvertex, ← Option.some.inj hother]
      refine iff_of_true hsame ⟨?_, ?_⟩
      · exact (hclosing.reaches vertex hin hle).trans (hclosing.reached other hin' hle')
      · exact (hclosing.reaches other hin' hle').trans (hclosing.reached vertex hin hle)
    · rw [if_neg hmem'] at hother
      have hlt := h.component_lt other component' hother
      have hnew := Option.some.inj hvertex
      refine iff_of_false (by omega) fun hboth => hapart _ _ _ hother hmem hboth.2
  · rw [if_neg hmem] at hvertex
    by_cases hmem' : other ∈ front ++ [root]
    · rw [if_pos hmem'] at hother
      have hlt := h.component_lt vertex component hvertex
      have hnew := Option.some.inj hother
      refine iff_of_false (by omega) fun hboth => hapart _ _ _ hvertex hmem' hboth.1
    · rw [if_neg hmem'] at hother
      exact h.component_eq_iff vertex other component component' hvertex hother

end Closed

-- A visit ends at the root of a component, and what it left on the stack goes with it.
theorem Kept.close (h : Kept successors state) {visits : List (α × Nat)} {root : α} {next : Nat}
    (hvisits : state.visits = (root, next) :: visits)
    (hdone : (successors root).length ≤ next)
    (hlow : state.lowest root = state.orderOf root) :
    Kept successors (State.closeComponent { state with visits := visits } root) := by
  have hclosing := h.closing hvisits hdone hlow
  have hsorted := h.visits_sorted
  rw [hvisits, List.pairwise_cons] at hsorted
  have hroot : root ∈ state.stack := h.visits_stack (root, next) (by simp [hvisits])
  obtain ⟨front, back, hparted⟩ := h.parted hroot
  have hpopped := hparted.popped_iff
  have hback := hparted.left_iff
  rw [closeComponent_eq hparted]
  have hkept : ∀ visit ∈ visits, visit ∈ state.visits := fun visit hvisit => by
    rw [hvisits]
    exact List.mem_cons_of_mem _ hvisit
  have hlooked : ∀ before after, Examined successors visits before after →
      Examined successors state.visits before after := fun before after hlooked => by
    rw [hvisits]
    exact examined_of_ended hdone hlooked
  constructor
  case order_lt => exact h.order_lt
  case onStack_iff =>
    intro vertex
    simp only [Finset.mem_sdiff, List.mem_toFinset, h.onStack_iff, hpopped, hback]
    constructor
    · rintro ⟨hmem, hnot⟩
      exact ⟨hmem, by by_contra hle; exact hnot ⟨hmem, by omega⟩⟩
    · rintro ⟨hmem, hlt⟩
      exact ⟨hmem, fun hpop => by omega⟩
  case stack_ordered => exact fun vertex hmem => h.stack_ordered vertex ((hback vertex).mp hmem).1
  case stack_sorted => exact hparted.left_sorted
  case visits_sorted => exact hsorted.2
  case visits_stack =>
    intro visit hvisit
    exact (hback visit.1).mpr ⟨h.visits_stack visit (hkept visit hvisit), hsorted.1 visit hvisit⟩
  case inside =>
    intro vertex hmem
    obtain ⟨hstackMem, hlt⟩ := (hback vertex).mp hmem
    obtain ⟨visit, hvisit, hle⟩ := h.inside vertex hstackMem
    rw [hvisits] at hvisit
    rcases List.mem_cons.mp hvisit with hsame | hvisit
    · rw [hsame] at hle
      simp only at hle
      omega
    · exact ⟨visit, hvisit, hle⟩
  case reaches =>
    exact fun visit hvisit vertex hmem =>
      h.reaches visit (hkept visit hvisit) vertex ((hback vertex).mp hmem).1
  case component_iff => exact closedComponents_ne_none_iff h hparted
  case component_closed => exact fun _ _ => closedComponents_closed h hparted hclosing
  case component_lt => exact fun _ _ => closedComponents_lt h
  case component_eq_iff => exact fun _ _ _ _ => closedComponents_eq_iff h hparted hclosing
  case examined =>
    exact fun before after hhas hexamined => h.examined before after hhas (hlooked _ _ hexamined)
  case lowest_le => exact fun vertex hmem => h.lowest_le vertex ((hback vertex).mp hmem).1
  case lowest_reached =>
    intro vertex hmem
    obtain ⟨hin, hlt⟩ := (hback vertex).mp hmem
    obtain ⟨low, hlowMem, horder, hreaches⟩ := h.lowest_reached vertex hin
    have hle := h.lowest_le vertex hin
    refine ⟨low, (hback low).mpr ⟨hlowMem, ?_⟩, horder, hreaches⟩
    omega
  case lowest_lt =>
    intro vertex hmem hleft
    obtain ⟨hin, hlt⟩ := (hback vertex).mp hmem
    refine h.lowest_lt vertex hin fun place hvisit => ?_
    rw [hvisits] at hvisit
    rcases List.mem_cons.mp hvisit with hsame | hvisit
    · rw [(Prod.mk.inj hsame).1] at hlt
      omega
    · exact hleft place hvisit
  case lowest_covers =>
    intro visit hvisit before hbefore hle after hafter hexamined
    obtain ⟨hafterIn, hafterLt⟩ := (hback after).mp hafter
    obtain ⟨above, habove, horder, hlowest⟩ := h.lowest_covers visit (hkept visit hvisit) before
      ((hback before).mp hbefore).1 hle after hafterIn (hlooked _ _ hexamined)
    rw [hvisits] at habove
    rcases List.mem_cons.mp habove with hsame | habove
    · rw [hsame, hlow] at hlowest
      have hlt : state.orderOf after < state.orderOf root := hafterLt
      omega
    · exact ⟨above, habove, horder, hlowest⟩

end ConcurrencyAnalyzer.Library.StrongComponents
