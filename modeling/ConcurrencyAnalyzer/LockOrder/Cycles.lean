import ConcurrencyAnalyzer.LockOrder.CycleKey
import ConcurrencyAnalyzer.LockOrder.Walk

namespace ConcurrencyAnalyzer.LockOrder

-- The orders taken from one lock to another, and the locks passed on the way.
inductive Route (edges : List LockOrderFact) (finish : Nat) :
    Nat → List Nat → List LockOrderFact → Prop where
  | last {order : LockOrderFact} (hmem : order ∈ edges)
      (hsecond : lockNumber edges order.secondLockId = finish) :
      Route edges finish (lockNumber edges order.firstLockId) [] [order]
  | step {order : LockOrderFact} {locks : List Nat} {orders : List LockOrderFact}
      (hmem : order ∈ edges)
      (hrest : Route edges finish (lockNumber edges order.secondLockId) locks orders) :
      Route edges finish (lockNumber edges order.firstLockId)
        (lockNumber edges order.secondLockId :: locks) (order :: orders)

-- Two orders that may be taken at the same time.
def Parallel (facts : TUFacts) (order other : LockOrderFact) : Prop :=
  mayHappenInParallel order (entriesFor order facts) other (entriesFor other facts) facts = true

section Closing

variable {facts : TUFacts} {edges : List LockOrderFact} {start : Nat} {leads : Finset Nat}

theorem mayHappenInParallelWithEach_iff (order : LockOrderFact) (taken : List LockOrderFact) :
    mayHappenInParallelWithEach order taken facts = true ↔
      ∀ other ∈ taken, Parallel facts other order := by
  rw [mayHappenInParallelWithEach, List.all_eq_true]
  rfl

theorem pairwise_append_singleton {path : List LockOrderFact}
    (hpath : path.Pairwise (Parallel facts)) (order : LockOrderFact) :
    (path ++ [order]).Pairwise (Parallel facts) ↔
      mayHappenInParallelWithEach order path facts = true := by
  rw [mayHappenInParallelWithEach_iff, List.pairwise_append]
  simp [hpath]

-- One level of the walk: an order is taken toward the start or toward a lock not passed yet.
theorem close_mem_visits_succ (graph : LockGraph) (fuel lock : Nat)
    (path : List LockOrderFact) (onPath : Finset Nat) (cycle : List LockOrderFact) :
    .close cycle ∈ visits facts start graph leads (fuel + 1) lock path onPath ↔
      ∃ target order, Leads graph lock target order ∧
        mayHappenInParallelWithEach order path facts = true ∧
        ((target = start ∧ cycle = path ++ [order]) ∨
          (target ≠ start ∧ target ∈ leads ∧ target ∉ onPath ∧
            .close cycle ∈ visits facts start graph leads fuel target (path ++ [order])
              (insert target onPath))) := by
  rw [visits, List.mem_flatMap]
  constructor
  · rintro ⟨successor, hs, hv⟩
    unfold successorVisits at hv
    split at hv
    · cases hv
    · rename_i hskip
      rw [List.mem_flatMap] at hv
      obtain ⟨order, ho, hv⟩ := hv
      refine ⟨successor.lock, order, ⟨successor, hs, rfl, ho⟩, ?_⟩
      simp only [orderVisits, List.mem_cons, reduceCtorEq, false_or] at hv
      split at hv
      · rename_i hparallel
        refine ⟨hparallel, ?_⟩
        split at hv
        · rename_i hne
          rw [not_and, not_or, not_not] at hskip
          obtain ⟨hleads, hon⟩ := hskip hne
          exact Or.inr ⟨hne, hleads, hon, hv⟩
        · rename_i heq
          rw [List.mem_singleton, Visit.close.injEq] at hv
          exact Or.inl ⟨not_not.mp heq, hv⟩
      · cases hv
  · rintro ⟨target, order, ⟨successor, hs, rfl, ho⟩, hparallel, hnext⟩
    refine ⟨successor, hs, ?_⟩
    unfold successorVisits
    rcases hnext with ⟨heq, rfl⟩ | ⟨hne, hleads, hon, hv⟩
    · rw [if_neg (fun h => h.1 heq), List.mem_flatMap]
      exact ⟨order, ho, by simp [orderVisits, hparallel, heq]⟩
    · rw [if_neg (fun h => h.2.elim (fun h => h hleads) hon), List.mem_flatMap]
      refine ⟨order, ho, ?_⟩
      simp only [orderVisits, hparallel, if_true, ne_eq, hne, not_false_eq_true, List.mem_cons]
      exact Or.inr hv

-- A walk closes the routes back to its start that pass new locks leading there and whose orders may
-- all be taken at the same time.
theorem close_mem_visits (fuel lock : Nat) (path : List LockOrderFact) (onPath : Finset Nat)
    (hpath : path.Pairwise (Parallel facts)) (cycle : List LockOrderFact) :
    .close cycle ∈ visits facts start (buildLockGraph edges) leads fuel lock path onPath ↔
      ∃ locks orders, cycle = path ++ orders ∧ Route edges start lock locks orders ∧
        locks.Nodup ∧ (∀ passed ∈ locks, passed ≠ start ∧ passed ∈ leads ∧ passed ∉ onPath) ∧
        locks.length < fuel ∧ cycle.Pairwise (Parallel facts) := by
  induction fuel generalizing lock path onPath with
  | zero => simp [visits]
  | succ fuel ih =>
      rw [close_mem_visits_succ]
      constructor
      · rintro ⟨target, order, hleads, hparallel, hnext⟩
        obtain ⟨hmem, rfl, rfl⟩ := (leads_buildLockGraph _ _ _).mp hleads
        have hpath' := (pairwise_append_singleton hpath order).mpr hparallel
        rcases hnext with ⟨heq, rfl⟩ | ⟨hne, hin, hon, hv⟩
        · exact ⟨[], [order], rfl, Route.last hmem heq, List.nodup_nil,
            fun _ h => absurd h List.not_mem_nil, Nat.succ_pos fuel, hpath'⟩
        · obtain ⟨locks, orders, rfl, hroute, hnodup, hlocks, hlen, hpair⟩ :=
            (ih _ _ _ hpath').mp hv
          refine ⟨_, order :: orders, by simp, Route.step hmem hroute, ?_, ?_, by simpa using hlen,
            hpair⟩
          · refine List.nodup_cons.mpr ⟨fun h => ?_, hnodup⟩
            exact (hlocks _ h).2.2 (Finset.mem_insert_self _ _)
          · intro passed hp
            rcases List.mem_cons.mp hp with rfl | hp
            · exact ⟨hne, hin, hon⟩
            · obtain ⟨h1, h2, h3⟩ := hlocks passed hp
              exact ⟨h1, h2, fun h => h3 (Finset.mem_insert_of_mem h)⟩
      · rintro ⟨locks, orders, rfl, hroute, hnodup, hlocks, hlen, hpair⟩
        cases hroute with
        | @last order hmem hsecond =>
            refine ⟨start, order, (leads_buildLockGraph _ _ _).mpr ⟨hmem, rfl, hsecond⟩, ?_,
              Or.inl ⟨rfl, rfl⟩⟩
            exact (pairwise_append_singleton hpath order).mp hpair
        | @step order locks orders hmem hrest =>
            have hassoc : path ++ order :: orders = (path ++ [order]) ++ orders := by simp
            have hpath' : (path ++ [order]).Pairwise (Parallel facts) := by
              rw [hassoc] at hpair
              exact (List.pairwise_append.mp hpair).1
            obtain ⟨hnew, hnodup⟩ := List.nodup_cons.mp hnodup
            obtain ⟨⟨hne, hin, hon⟩, hlocks⟩ := List.forall_mem_cons.mp hlocks
            refine ⟨_, order, (leads_buildLockGraph _ _ _).mpr ⟨hmem, rfl, rfl⟩,
              (pairwise_append_singleton hpath order).mp hpath', Or.inr ⟨hne, hin, hon, ?_⟩⟩
            rw [ih _ _ _ hpath']
            refine ⟨locks, orders, hassoc, hrest, hnodup, ?_, by simpa using hlen, hpair⟩
            intro passed hp
            obtain ⟨h1, h2, h3⟩ := hlocks passed hp
            refine ⟨h1, h2, fun h => ?_⟩
            rcases Finset.mem_insert.mp h with rfl | h
            · exact hnew hp
            · exact h3 h

end Closing

section Routes

variable {edges : List LockOrderFact} {start lock : Nat} {locks : List Nat}
  {orders : List LockOrderFact}

theorem Route.firsts (h : Route edges start lock locks orders) :
    orders.map (fun order => lockNumber edges order.firstLockId) = lock :: locks := by
  induction h with
  | last _ _ => rfl
  | step _ _ ih => rw [List.map_cons, ih]

theorem Route.seconds (h : Route edges start lock locks orders) :
    orders.map (fun order => lockNumber edges order.secondLockId) = locks ++ [start] := by
  induction h with
  | last _ hsecond => simp [hsecond]
  | step _ _ ih => rw [List.map_cons, ih, List.cons_append]

theorem Route.mem (h : Route edges start lock locks orders) : ∀ order ∈ orders, order ∈ edges := by
  induction h with
  | last hmem _ => simpa using hmem
  | step hmem _ ih => exact List.forall_mem_cons.mpr ⟨hmem, ih⟩

theorem Route.of_map (hmem : ∀ order ∈ orders, order ∈ edges)
    (hfirsts : orders.map (fun order => lockNumber edges order.firstLockId) = lock :: locks)
    (hseconds : orders.map (fun order => lockNumber edges order.secondLockId) = locks ++ [start]) :
    Route edges start lock locks orders := by
  induction orders generalizing lock locks with
  | nil => cases hfirsts
  | cons order orders ih =>
      obtain ⟨hm, hmem⟩ := List.forall_mem_cons.mp hmem
      simp only [List.map_cons, List.cons.injEq] at hfirsts hseconds
      obtain ⟨rfl, hfirsts⟩ := hfirsts
      cases locks with
      | nil =>
          rw [List.map_eq_nil_iff] at hfirsts
          subst hfirsts
          simp only [List.map_nil, List.nil_append, List.cons.injEq, and_true] at hseconds
          exact Route.last hm hseconds
      | cons next locks =>
          simp only [List.cons_append, List.cons.injEq] at hseconds
          obtain ⟨rfl, hseconds⟩ := hseconds
          exact Route.step hm (ih hmem hfirsts hseconds)

-- On a route by locks numbered after the start, each of them leads to the start.
theorem Route.leads (h : Route edges start lock locks orders)
    (hafter : ∀ passed ∈ lock :: locks, start < passed) :
    ∀ passed ∈ lock :: locks, Relation.TransGen
      (fun target lock => (∃ order, Leads (buildLockGraph edges) lock target order) ∧ lock > start)
      start passed := by
  induction h with
  | @last order hmem hsecond =>
      intro passed hp
      rw [List.mem_singleton] at hp
      subst hp
      apply Relation.TransGen.single
      exact ⟨⟨order, (leads_buildLockGraph _ _ _).mpr ⟨hmem, rfl, hsecond⟩⟩,
        hafter _ (List.mem_cons_self ..)⟩
  | @step order locks orders hmem hrest ih =>
      obtain ⟨hhead, htail⟩ := List.forall_mem_cons.mp hafter
      have hleads := ih htail
      refine List.forall_mem_cons.mpr ⟨?_, hleads⟩
      apply (hleads _ (List.mem_cons_self ..)).tail
      exact ⟨⟨order, (leads_buildLockGraph _ _ _).mpr ⟨hmem, rfl, rfl⟩⟩, hhead⟩

-- Routes that leave each lock alike pass the same locks.
theorem Route.locks_eq {locks' : List Nat} {orders' : List LockOrderFact}
    (h : Route edges start lock locks orders) (h' : Route edges start lock locks' orders')
    (hsame : ∀ order ∈ orders, ∀ order' ∈ orders',
      lockNumber edges order.firstLockId = lockNumber edges order'.firstLockId →
        lockNumber edges order.secondLockId = lockNumber edges order'.secondLockId)
    (hstart : start ∉ locks) (hstart' : start ∉ locks') : locks = locks' := by
  induction h generalizing locks' orders' with
  | @last order hmem hsecond =>
      generalize hlock : lockNumber edges order.firstLockId = lock at h'
      cases h' with
      | last _ _ => rfl
      | @step order' locks' orders' _ _ =>
          have heq := hsame order (List.mem_cons_self ..) order' (List.mem_cons_self ..) hlock
          rw [← heq, hsecond] at hstart'
          exact absurd (List.mem_cons_self ..) hstart'
  | @step order locks orders hmem hrest ih =>
      generalize hlock : lockNumber edges order.firstLockId = lock at h'
      cases h' with
      | @last order' _ hsecond =>
          have heq := hsame order (List.mem_cons_self ..) order' (List.mem_cons_self ..) hlock
          rw [heq, hsecond] at hstart
          exact absurd (List.mem_cons_self ..) hstart
      | @step order' locks' orders' _ hrest' =>
          have heq := hsame order (List.mem_cons_self ..) order' (List.mem_cons_self ..) hlock
          rw [← heq] at hrest' ⊢
          rw [ih hrest' (fun order hm order' hm' => hsame order (List.mem_cons_of_mem _ hm) order'
            (List.mem_cons_of_mem _ hm')) (fun h => hstart (List.mem_cons_of_mem _ h))
            (fun h => hstart' (List.mem_cons_of_mem _ h))]

end Routes

-- The locks of a cycle, from the lowest-numbered one on.
def FromLowest (edges : List LockOrderFact) (start : Nat) (locks : List String) : Prop :=
  ∃ rest, locks.map (lockNumber edges) = start :: rest ∧ ∀ passed ∈ rest, start < passed

section Walk

variable {facts : TUFacts} {edges cycle : List LockOrderFact} {start : Nat}

-- The cycles the walk from a lock closes when it is not cut, in turn.
def walkClosings (facts : TUFacts) (edges : List LockOrderFact) (start : Nat) :
    List (List LockOrderFact) :=
  closings (visits facts start (buildLockGraph edges) (leadsToStart (buildLockGraph edges) start)
    (buildLockGraph edges).length start [] ∅)

theorem lockNumber_lt {order : LockOrderFact} (hmem : order ∈ edges) :
    lockNumber edges order.firstLockId < (buildLockGraph edges).length := by
  rw [length_buildLockGraph]
  exact List.idxOf_lt_length_iff.mpr (first_mem_lockNumbers hmem)

theorem lt_of_mem_leadsToStart {graph : LockGraph} {lock : Nat}
    (h : lock ∈ leadsToStart graph start) : start < lock := by
  have hallowed := Library.Search.search_allowed (predecessors graph)
    (fun lock => lock > start) (graph.length + 1) ∅ [start] (by simp) lock h
  simpa using hallowed

theorem map_lockNumber_firsts (cycle : List LockOrderFact) :
    (cycle.map (·.firstLockId)).map (lockNumber edges) =
      cycle.map fun order => lockNumber edges order.firstLockId := by
  simp

theorem map_lockNumber_seconds (cycle : List LockOrderFact) :
    (cycle.map (·.secondLockId)).map (lockNumber edges) =
      cycle.map fun order => lockNumber edges order.secondLockId := by
  simp

theorem map_lockNumber_inj (edges : List LockOrderFact) {first second : List String}
    (hfirst : ∀ lockId ∈ first, lockId ∈ lockNumbers edges)
    (h : first.map (lockNumber edges) = second.map (lockNumber edges)) : first = second := by
  induction first generalizing second with
  | nil =>
      cases second with
      | nil => rfl
      | cons _ _ => cases h
  | cons lockId first ih =>
      cases second with
      | nil => cases h
      | cons other second =>
          simp only [List.map_cons, List.cons.injEq] at h
          obtain ⟨hlock, hfirst⟩ := List.forall_mem_cons.mp hfirst
          rw [(lockNumber_inj hlock).mp h.1, ih hfirst h.2]

theorem IsCycle.firsts_numbered (hc : IsCycle edges cycle) :
    ∀ lockId ∈ cycle.map (·.firstLockId), lockId ∈ lockNumbers edges := by
  intro lockId hl
  obtain ⟨order, ho, rfl⟩ := List.mem_map.mp hl
  exact first_mem_lockNumbers (hc.mem order ho)

theorem IsCycle.numbers_nodup (hc : IsCycle edges cycle) :
    ((cycle.map (·.firstLockId)).map (lockNumber edges)).Nodup := by
  apply List.Nodup.map_on _ hc.nodup
  intro first hf second _ h
  exact (lockNumber_inj (hc.firsts_numbered first hf)).mp h

theorem Route.isCycle {locks : List Nat} (hroute : Route edges start start locks cycle)
    (hnodup : (start :: locks).Nodup) : IsCycle edges cycle := by
  have hfirsts := hroute.firsts
  have hseconds := hroute.seconds
  rw [← map_lockNumber_firsts] at hfirsts
  rw [← map_lockNumber_seconds] at hseconds
  refine ⟨?_, hroute.mem, ?_, ?_⟩
  · rintro rfl
    cases hroute
  · apply map_lockNumber_inj edges
    · intro lockId hl
      obtain ⟨order, ho, rfl⟩ := List.mem_map.mp hl
      exact second_mem_lockNumbers (hroute.mem order ho)
    · rw [List.map_rotate, hfirsts, hseconds, List.rotate_cons_succ, List.rotate_zero]
  · apply List.Nodup.of_map (lockNumber edges)
    rw [hfirsts]
    exact hnodup

theorem IsCycle.route (hc : IsCycle edges cycle) {locks : List Nat}
    (hfirsts : (cycle.map (·.firstLockId)).map (lockNumber edges) = start :: locks) :
    Route edges start start locks cycle := by
  apply Route.of_map hc.mem
  · rw [← map_lockNumber_firsts, hfirsts]
  · rw [← map_lockNumber_seconds, hc.closed, List.map_rotate, hfirsts, List.rotate_cons_succ,
      List.rotate_zero]

-- The walk from a lock closes the choices of orders that may be taken at the same time, one between
-- each two successive locks of a cycle, for the cycles whose lowest-numbered lock it is.
theorem mem_walkClosings :
    cycle ∈ walkClosings facts edges start ↔
      IsCycle edges cycle ∧ FromLowest edges start (cycle.map (·.firstLockId)) ∧
        cycle.Pairwise (Parallel facts) := by
  rw [walkClosings, mem_closings, close_mem_visits _ _ _ _ List.Pairwise.nil]
  constructor
  · rintro ⟨locks, orders, rfl, hroute, hnodup, hlocks, _, hpair⟩
    have hstart : (start :: locks).Nodup :=
      List.nodup_cons.mpr ⟨fun h => (hlocks start h).1 rfl, hnodup⟩
    refine ⟨hroute.isCycle hstart, ⟨locks, ?_, ?_⟩, hpair⟩
    · rw [map_lockNumber_firsts, hroute.firsts]
    · intro passed hp
      exact lt_of_mem_leadsToStart (hlocks passed hp).2.1
  · rintro ⟨hc, ⟨locks, hfirsts, hafter⟩, hpair⟩
    have hroute := hc.route hfirsts
    have hnodup := hc.numbers_nodup
    rw [hfirsts] at hnodup
    refine ⟨locks, cycle, rfl, hroute, (List.nodup_cons.mp hnodup).2, ?_, ?_, hpair⟩
    · intro passed hp
      refine ⟨(hafter passed hp).ne', ?_, Finset.notMem_empty _⟩
      cases hroute with
      | last _ _ => cases hp
      | step _ hrest => exact mem_leadsToStart_of_leads (hrest.leads hafter passed hp)
    · have hsub : (start :: locks).toFinset ⊆ Finset.range (buildLockGraph edges).length := by
        intro lock hl
        rw [List.mem_toFinset, ← hfirsts, map_lockNumber_firsts] at hl
        obtain ⟨order, ho, rfl⟩ := List.mem_map.mp hl
        exact Finset.mem_range.mpr (lockNumber_lt (hc.mem order ho))
      have hcard := Finset.card_le_card hsub
      rw [List.toFinset_card_of_nodup hnodup, Finset.card_range, List.length_cons] at hcard
      exact hcard

end Walk

section Fuel

variable {facts : TUFacts} {graph : LockGraph} {start : Nat} {leads : Finset Nat}

-- A path holds each lock once and the start never, so a walk as deep as there are locks is whole.
theorem visits_succ_fuel (hstart : start < graph.length)
    (hleads : ∀ lock ∈ leads, lock < graph.length) (fuel lock : Nat)
    (path : List LockOrderFact) (onPath : Finset Nat)
    (hon : ∀ passed ∈ onPath, passed < graph.length ∧ passed ≠ start)
    (hfuel : graph.length ≤ fuel + onPath.card) :
    visits facts start graph leads (fuel + 1) lock path onPath =
      visits facts start graph leads fuel lock path onPath := by
  induction fuel generalizing lock path onPath with
  | zero =>
      have hsub : insert start onPath ⊆ Finset.range graph.length := by
        intro passed hp
        rcases Finset.mem_insert.mp hp with rfl | hp
        · exact Finset.mem_range.mpr hstart
        · exact Finset.mem_range.mpr (hon passed hp).1
      have hcard := Finset.card_le_card hsub
      rw [Finset.card_insert_of_notMem fun h => (hon start h).2 rfl, Finset.card_range] at hcard
      omega
  | succ fuel ih =>
      rw [visits, visits]
      apply List.flatMap_congr
      intro successor _
      unfold successorVisits
      split
      · rfl
      · rename_i hskip
        apply List.flatMap_congr
        intro order _
        unfold orderVisits
        by_cases hclose : successor.lock = start
        · simp only [hclose, ne_eq, not_true_eq_false, if_false]
        · rw [not_and, not_or, not_not] at hskip
          obtain ⟨hin, hnot⟩ := hskip hclose
          dsimp only
          rw [ih]
          · intro passed hp
            rcases Finset.mem_insert.mp hp with rfl | hp
            · exact ⟨hleads _ hin, hclose⟩
            · exact hon passed hp
          · rw [Finset.card_insert_of_notMem hnot]
            omega

theorem walk_enough_fuel (hstart : start < graph.length) (more lock : Nat) (state : WalkState)
    (hon : state.onPath = ∅) :
    walk facts start graph (leadsToStart graph start) (graph.length + more) lock state =
      walk facts start graph (leadsToStart graph start) graph.length lock state := by
  induction more with
  | zero => rfl
  | succ more ih =>
      rw [← ih, walk_eq_replay, walk_eq_replay, hon, ← Nat.add_assoc,
        visits_succ_fuel hstart _ _ _ _ _ (by simp) (by omega)]
      intro passed hp
      have hsub := Library.Search.search_subset (predecessors graph) (fun lock => lock > start)
        (Finset.range graph.length) (predecessors_lt graph) (graph.length + 1) ∅ [start] (by simp) hp
      exact Finset.mem_range.mp hsub

end Fuel

section Lowest

variable {edges cycle other : List LockOrderFact} {start start' : Nat}

theorem FromLowest.unique {locks locks' : List String} (h : FromLowest edges start locks)
    (h' : FromLowest edges start' locks') (hsub : locks ⊆ locks') (hsub' : locks' ⊆ locks) :
    start = start' := by
  obtain ⟨rest, hmap, hafter⟩ := h
  obtain ⟨rest', hmap', hafter'⟩ := h'
  have hle : ∀ lock ∈ start :: rest, start ≤ lock := by
    intro lock hl
    rcases List.mem_cons.mp hl with rfl | hl
    · exact le_refl _
    · exact (hafter lock hl).le
  have hle' : ∀ lock ∈ start' :: rest', start' ≤ lock := by
    intro lock hl
    rcases List.mem_cons.mp hl with rfl | hl
    · exact le_refl _
    · exact (hafter' lock hl).le
  apply le_antisymm
  · apply hle
    rw [← hmap]
    apply List.map_subset _ hsub'
    rw [hmap']
    exact List.mem_cons_self ..
  · apply hle'
    rw [← hmap']
    apply List.map_subset _ hsub
    rw [hmap]
    exact List.mem_cons_self ..

-- Two cycles through the same pairs of locks, both from their lowest lock, pass the locks alike.
theorem IsCycle.firsts_eq (hc : IsCycle edges cycle) (ho : IsCycle edges other)
    (hperm : (cycle.map edgeText).Perm (other.map edgeText))
    (hlow : FromLowest edges start (cycle.map (·.firstLockId)))
    (hlow' : FromLowest edges start (other.map (·.firstLockId))) :
    cycle.map (·.firstLockId) = other.map (·.firstLockId) := by
  obtain ⟨rest, hmap, hafter⟩ := hlow
  obtain ⟨rest', hmap', hafter'⟩ := hlow'
  have hsame : ∀ order ∈ cycle, ∀ order' ∈ other,
      lockNumber edges order.firstLockId = lockNumber edges order'.firstLockId →
        lockNumber edges order.secondLockId = lockNumber edges order'.secondLockId := by
    intro order hm order' hm' hfirst
    obtain ⟨twin, ht, htext⟩ := List.mem_map.mp (hperm.subset (List.mem_map_of_mem hm))
    simp only [edgeText, Prod.mk.injEq, String.toList_inj] at htext
    have heq : twin = order' := by
      apply List.inj_on_of_nodup_map ho.nodup ht hm'
      rw [htext.1]
      exact (lockNumber_inj (first_mem_lockNumbers (hc.mem order hm))).mp hfirst
    rw [← htext.2, heq]
  apply map_lockNumber_inj edges hc.firsts_numbered
  rw [hmap, hmap', (hc.route hmap).locks_eq (ho.route hmap') hsame
    (fun h => lt_irrefl _ (hafter start h)) (fun h => lt_irrefl _ (hafter' start h))]

end Lowest

end ConcurrencyAnalyzer.LockOrder
