import Mathlib.Data.Finset.Card
import Mathlib.Data.List.Nodup
import Mathlib.Logic.Relation

namespace ConcurrencyAnalyzer.Library.QueueSearch

open Relation

variable {α : Type*} [DecidableEq α] (next : α → List α)

structure State (α : Type*) where
  taken : List α := []
  queue : List α
  visited : Finset α

-- An element is visited once, and then queued last.
def State.visit (state : State α) (element : α) : State α :=
  if element ∈ state.visited then state
  else { state with queue := state.queue ++ [element], visited := insert element state.visited }

-- The elements in the order the queue gives them up.
def walk : Nat → State α → List α
  | 0, state => state.taken
  | fuel + 1, state =>
      match state.queue with
      | [] => state.taken
      | first :: rest =>
          walk fuel ((next first).foldl State.visit
            { state with taken := state.taken ++ [first], queue := rest })

def start (root : α) : State α where
  queue := [root]
  visited := {root}

variable {next} {root : α} {state : State α} {bound : Finset α}

-- What holds between two elements the queue gives up.
structure Searched (next : α → List α) (root : α) (bound : Finset α) (state : State α) : Prop where
  nodup : (state.taken ++ state.queue).Nodup
  visited : ∀ element, element ∈ state.visited ↔ element ∈ state.taken ++ state.queue
  inside : ∀ element ∈ state.visited, element ∈ bound
  sound : ∀ element ∈ state.visited, ReflTransGen (fun before after => after ∈ next before) root element
  root : root ∈ state.visited

theorem Searched.visit (h : Searched next root bound state) {element : α} (hbound : element ∈ bound)
    (hreached : ReflTransGen (fun before after => after ∈ next before) root element) :
    Searched next root bound (state.visit element) := by
  unfold State.visit
  by_cases hknown : element ∈ state.visited
  · rwa [if_pos hknown]
  · rw [if_neg hknown]
    have hnew : element ∉ state.taken ++ state.queue := fun hmem => hknown ((h.visited element).mpr hmem)
    refine ⟨?_, fun other => ?_, ?_, ?_, Finset.mem_insert_of_mem h.root⟩
    · simp only
      rw [← List.append_assoc, List.nodup_append]
      refine ⟨h.nodup, by simp, ?_⟩
      rintro other hother _ hsame rfl
      obtain rfl : other = element := by simpa using hsame
      exact hnew hother
    · simp only
      rw [Finset.mem_insert, h.visited, ← List.append_assoc, List.mem_append (s := _ ++ _),
        List.mem_singleton, or_comm]
    · intro other hother
      rcases Finset.mem_insert.mp hother with rfl | hold
      · exact hbound
      · exact h.inside other hold
    · intro other hother
      rcases Finset.mem_insert.mp hother with rfl | hold
      · exact hreached
      · exact h.sound other hold

omit [DecidableEq α] in
private theorem nodup_rotate {first : α} {taken rest : List α} :
    (taken ++ first :: rest).Nodup ↔ ((taken ++ [first]) ++ rest).Nodup := by
  rw [List.append_assoc, List.singleton_append]

theorem foldl_visit_taken (elements : List α) (state : State α) :
    (elements.foldl State.visit state).taken = state.taken := by
  induction elements generalizing state with
  | nil => rfl
  | cons element rest ih =>
      rw [List.foldl_cons, ih]
      unfold State.visit
      split <;> rfl

theorem mem_foldl_visit (elements : List α) (state : State α) (element : α) :
    element ∈ (elements.foldl State.visit state).visited ↔
      element ∈ state.visited ∨ element ∈ elements := by
  induction elements generalizing state with
  | nil => simp
  | cons first rest ih =>
      rw [List.foldl_cons, ih, List.mem_cons, ← or_assoc]
      refine or_congr_left ?_
      unfold State.visit
      split
      · rename_i hknown
        refine ⟨.inl, ?_⟩
        rintro (h | rfl)
        · exact h
        · exact hknown
      · rw [Finset.mem_insert, or_comm]

-- What the queue gives up is followed at once by the visits of its successors.
structure Followed (next : α → List α) (state : State α) : Prop where
  followed : ∀ element ∈ state.taken, ∀ successor ∈ next element, successor ∈ state.visited

-- With fuel for every element, the walk gives each element that is reached once, and no other.
theorem walk_exact (hroot : root ∈ bound) (hbound : ∀ element, ∀ successor ∈ next element, successor ∈ bound)
    {fuel : Nat} (hfuel : bound.card < fuel) :
    (walk next fuel (start root)).Nodup ∧ ∀ element, element ∈ walk next fuel (start root) ↔
      ReflTransGen (fun before after => after ∈ next before) root element := by
  have hrun : ∀ fuel (state : State α), Searched next root bound state → Followed next state →
      bound.card < fuel + state.taken.length →
      (walk next fuel state).Nodup ∧ ∀ element, element ∈ walk next fuel state ↔
        ReflTransGen (fun before after => after ∈ next before) root element := by
    intro fuel
    induction fuel with
    | zero =>
        -- So many elements are not there to be given up.
        intro state h _ hless
        have hnodup := (List.nodup_append.mp h.nodup).1
        have hcard : state.taken.length ≤ bound.card := by
          rw [← List.toFinset_card_of_nodup hnodup]
          refine Finset.card_le_card fun element hmem => h.inside element ((h.visited element).mpr ?_)
          exact List.mem_append_left _ (List.mem_toFinset.mp hmem)
        omega
    | succ fuel ih =>
        intro state h hfollowed hless
        unfold walk
        cases hqueue : state.queue with
        | nil =>
            have hnodup := h.nodup
            rw [hqueue, List.append_nil] at hnodup
            refine ⟨hnodup, fun element => ⟨fun hmem => ?_, fun hreached => ?_⟩⟩
            · exact h.sound element ((h.visited element).mpr (List.mem_append_left _ hmem))
            · -- The queue is empty, so that everything visited has been followed.
              have hvisited : ∀ element, element ∈ state.visited ↔ element ∈ state.taken := fun element => by
                rw [h.visited, hqueue, List.append_nil]
              rw [← hvisited]
              induction hreached with
              | refl => exact h.root
              | tail _ hstep hbefore => exact hfollowed.followed _ ((hvisited _).mp hbefore) _ hstep
        | cons first rest =>
            have hfirst : first ∈ state.visited := (h.visited first).mpr (by simp [hqueue])
            have hmoved : Searched next root bound
                { state with taken := state.taken ++ [first], queue := rest } := by
              refine ⟨?_, fun element => ?_, h.inside, h.sound, h.root⟩
              · have hnodup := h.nodup
                rw [hqueue] at hnodup
                exact nodup_rotate.mp hnodup
              · rw [h.visited, hqueue]
                simp
            refine ih _ ?_ ?_ ?_
            · refine List.foldlRecOn (motive := Searched next root bound) _ _ hmoved ?_
              intro state hstate successor hsuccessor
              exact hstate.visit (hbound first successor hsuccessor)
                ((h.sound first hfirst).tail hsuccessor)
            · refine ⟨fun element hmem successor hsuccessor => ?_⟩
              rw [foldl_visit_taken, List.mem_append, List.mem_singleton] at hmem
              rw [mem_foldl_visit]
              rcases hmem with hold | rfl
              · exact .inl (hfollowed.followed element hold successor hsuccessor)
              · exact .inr hsuccessor
            · rw [foldl_visit_taken, List.length_append, List.length_singleton]
              omega
  refine hrun fuel (start root) ⟨by simp [start], by simp [start], ?_, ?_, by simp [start]⟩ ⟨by simp [start]⟩
    (by simpa [start] using hfuel)
  · intro element hmem
    rwa [Finset.mem_singleton.mp hmem]
  · intro element hmem
    rw [Finset.mem_singleton.mp hmem]

end ConcurrencyAnalyzer.Library.QueueSearch
