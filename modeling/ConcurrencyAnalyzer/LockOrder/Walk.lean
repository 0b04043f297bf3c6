import ConcurrencyAnalyzer.LockOrder.Graph

namespace ConcurrencyAnalyzer.LockOrder

-- What a walk does beside following orders: it counts an order, or judges a path it closed.
inductive Visit where
  | examine
  | close (cycle : List LockOrderFact)
deriving DecidableEq

-- What a walk leaves of the visits: the count of the orders, and what was found.
abbrev Progress := Nat × Findings

-- The visits in turn, until the count passes the share of one walk.
def replay (facts : TUFacts) : List Visit → Progress → Bool × Progress
  | [], progress => (true, progress)
  | .examine :: visits, (examined, found) =>
      if examined + 1 > kMaxOrdersExaminedPerLock then (false, (examined + 1, found))
      else replay facts visits (examined + 1, found)
  | .close cycle :: visits, (examined, found) =>
      replay facts visits (examined, closeCycle facts found cycle)

theorem replay_append (facts : TUFacts) (visits others : List Visit) (progress : Progress) :
    replay facts (visits ++ others) progress =
      if (replay facts visits progress).1 then
        replay facts others (replay facts visits progress).2
      else replay facts visits progress := by
  induction visits generalizing progress with
  | nil => rfl
  | cons visit visits ih =>
      cases visit with
      | close cycle =>
          simp only [List.cons_append, replay]
          exact ih _
      | examine =>
          simp only [List.cons_append, replay]
          split
          · rfl
          · exact ih _

section Visits

variable (facts : TUFacts) (start : Nat)

def orderVisits (descend : List LockOrderFact → List Visit) (lock : Nat)
    (path : List LockOrderFact) (order : LockOrderFact) : List Visit :=
  .examine ::
    if mayHappenInParallelWithEach order path facts then
      if lock ≠ start then descend (path ++ [order]) else [.close (path ++ [order])]
    else []

def successorVisits (leads : Finset Nat)
    (descend : Nat → List LockOrderFact → Finset Nat → List Visit)
    (path : List LockOrderFact) (onPath : Finset Nat) (successor : LockSuccessor) : List Visit :=
  if successor.lock ≠ start ∧ (successor.lock ∉ leads ∨ successor.lock ∈ onPath) then []
  else successor.orders.flatMap (orderVisits facts start
    (fun extended => descend successor.lock extended (insert successor.lock onPath))
    successor.lock path)

-- The visits of a walk that nothing cuts.
def visits (graph : LockGraph) (leads : Finset Nat) :
    Nat → Nat → List LockOrderFact → Finset Nat → List Visit
  | 0, _, _, _ => []
  | fuel + 1, lock, path, onPath =>
      ((graph[lock]?).getD []).flatMap
        (successorVisits facts start leads (visits graph leads fuel) path onPath)

end Visits

-- A walk's state after the visits, the path and its locks being as they were.
def WalkState.resume (state : WalkState) (result : Bool × Progress) : Bool × WalkState :=
  (result.1, { state with examined := result.2.1, found := result.2.2 })

section Replay

variable {facts : TUFacts} {start : Nat}

theorem walkOrders_eq_replay (descend : WalkState → Bool × WalkState)
    (later : List LockOrderFact → Finset Nat → List Visit) (lock : Nat)
    (hdescend : ∀ state : WalkState, descend state =
      state.resume (replay facts (later state.path state.onPath) (state.examined, state.found)))
    (orders : List LockOrderFact) (state : WalkState)
    (hlock : lock ≠ start → lock ∉ state.onPath) :
    walkOrders facts start descend lock orders state =
      state.resume (replay facts (orders.flatMap (orderVisits facts start
        (fun path => later path (insert lock state.onPath)) lock state.path))
        (state.examined, state.found)) := by
  induction orders generalizing state with
  | nil => rfl
  | cons order orders ih =>
      rw [List.flatMap_cons, walkOrders, orderVisits, List.cons_append]
      simp only [replay]
      by_cases hshare : state.examined + 1 > kMaxOrdersExaminedPerLock
      · simp only [hshare, if_true, WalkState.resume]
      · simp only [hshare, if_false]
        by_cases hparallel : mayHappenInParallelWithEach order state.path facts = true
        · simp only [hparallel, Bool.not_true, Bool.false_eq_true, if_false, if_true]
          by_cases hclose : lock = start
          · simp only [hclose, ne_eq, not_true_eq_false, if_false, if_true, List.cons_append,
              List.nil_append, replay, List.dropLast_concat]
            subst hclose
            exact ih _ (fun h => absurd rfl h)
          · have hnot := hlock hclose
            simp only [ne_eq, hclose, not_false_eq_true, if_true, hdescend, replay_append,
              WalkState.resume, List.dropLast_concat, Finset.erase_insert hnot]
            split
            · exact ih _ (fun _ => hnot)
            · rename_i hcut
              rw [Bool.eq_false_iff.mpr hcut]
        · simp only [hparallel, Bool.not_false, if_true, Bool.false_eq_true, if_false,
            List.nil_append]
          exact ih _ hlock

theorem walkSuccessors_eq_replay (leads : Finset Nat)
    (descend : Nat → WalkState → Bool × WalkState)
    (later : Nat → List LockOrderFact → Finset Nat → List Visit)
    (hdescend : ∀ (lock : Nat) (state : WalkState), descend lock state =
      state.resume (replay facts (later lock state.path state.onPath)
        (state.examined, state.found)))
    (successors : List LockSuccessor) (state : WalkState) :
    walkSuccessors facts start leads descend successors state =
      state.resume (replay facts (successors.flatMap
        (successorVisits facts start leads later state.path state.onPath))
        (state.examined, state.found)) := by
  induction successors generalizing state with
  | nil => rfl
  | cons successor successors ih =>
      rw [List.flatMap_cons, walkSuccessors, successorVisits]
      split
      · rw [List.nil_append]
        exact ih state
      · rename_i hskip
        have hlock : successor.lock ≠ start → successor.lock ∉ state.onPath :=
          fun hne hon => hskip ⟨hne, Or.inr hon⟩
        rw [walkOrders_eq_replay (descend successor.lock) (later successor.lock) successor.lock
          (hdescend successor.lock) successor.orders state hlock, replay_append]
        generalize replay facts (successor.orders.flatMap _) (state.examined, state.found) = result
        obtain ⟨complete, progress⟩ := result
        cases complete with
        | false => rfl
        | true => exact ih _

-- A walk replays its visits and, cut or not, leaves the path and its locks as it found them.
theorem walk_eq_replay (graph : LockGraph) (leads : Finset Nat) (fuel lock : Nat)
    (state : WalkState) :
    walk facts start graph leads fuel lock state =
      state.resume (replay facts
        (visits facts start graph leads fuel lock state.path state.onPath)
        (state.examined, state.found)) := by
  induction fuel generalizing lock state with
  | zero => rfl
  | succ fuel ih =>
      rw [walk, visits]
      exact walkSuccessors_eq_replay leads _ _ ih _ state

-- Whether a walk is cut depends on the number of its orders only.
theorem replay_complete (visits : List Visit) (progress : Progress)
    (hshare : progress.1 ≤ kMaxOrdersExaminedPerLock) :
    (replay facts visits progress).1 = true ↔
      progress.1 + visits.count .examine ≤ kMaxOrdersExaminedPerLock := by
  induction visits generalizing progress with
  | nil => simpa [replay] using hshare
  | cons visit visits ih =>
      obtain ⟨examined, found⟩ := progress
      cases visit with
      | close cycle =>
          rw [replay, List.count_cons_of_ne (by simp)]
          exact ih _ hshare
      | examine =>
          rw [replay, List.count_cons_self]
          split
          · rename_i hcut
            simp only [Bool.false_eq_true, false_iff]
            omega
          · rename_i hcut
            rw [ih _ (by dsimp only; omega)]
            dsimp only
            omega

-- The cycles closed by some visits.
def closings (visits : List Visit) : List (List LockOrderFact) :=
  visits.filterMap fun visit =>
    match visit with
    | .examine => none
    | .close cycle => some cycle

theorem mem_closings {visits : List Visit} {cycle : List LockOrderFact} :
    cycle ∈ closings visits ↔ .close cycle ∈ visits := by
  rw [closings, List.mem_filterMap]
  constructor
  · rintro ⟨visit, hv, hc⟩
    cases visit with
    | examine => cases hc
    | close other =>
        cases hc
        exact hv
  · intro h
    exact ⟨_, h, rfl⟩

-- A walk judges the first of the cycles it would close, and all of them when it is not cut.
theorem replay_found (facts : TUFacts) (visits : List Visit) (progress : Progress) :
    ∃ judged, judged <+: closings visits ∧
      (replay facts visits progress).2.2 = judged.foldl (closeCycle facts) progress.2 ∧
      ((replay facts visits progress).1 = true → judged = closings visits) := by
  induction visits generalizing progress with
  | nil => exact ⟨[], List.prefix_rfl, rfl, fun _ => rfl⟩
  | cons visit visits ih =>
      obtain ⟨examined, found⟩ := progress
      cases visit with
      | close cycle =>
          obtain ⟨judged, hexamined, hfound, hall⟩ := ih (examined, closeCycle facts found cycle)
          refine ⟨cycle :: judged, ?_, hfound, fun h => ?_⟩
          · exact List.cons_prefix_cons.mpr ⟨rfl, hexamined⟩
          · rw [hall h]
            rfl
      | examine =>
          rw [replay]
          split
          · exact ⟨[], List.nil_prefix, rfl, fun h => by cases h⟩
          · exact ih _

end Replay

end ConcurrencyAnalyzer.LockOrder
