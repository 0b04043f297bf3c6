import ConcurrencyAnalyzer.LockOrder.Theorems

namespace ConcurrencyAnalyzer.LockOrder

-- What is said of an order beside the locks and the place: the threads that may run then.
def relabel (labels : LockOrderFact → ThreadEntrySet × ThreadEntrySet) (order : LockOrderFact) :
    LockOrderFact :=
  { order with liveEntries := (labels order).1, startedEntries := (labels order).2 }

-- Facts with their orders relabelled, so that what is asked of the orders is answered alike.
structure Relabelled (here : String → Prop) (labels : LockOrderFact → ThreadEntrySet × ThreadEntrySet)
    (facts other : TUFacts) : Prop extends AnswerAlike here facts other where
  lockOrders : other.lockOrders = facts.lockOrders.map (relabel labels)
  recursive : other.recursiveLockIds = facts.recursiveLockIds
  contexts : ∀ order ∈ facts.lockOrders, other.reachableThreadEntriesByFunction order.functionId =
    facts.reachableThreadEntriesByFunction order.functionId
  entries : ∀ order ∈ facts.lockOrders, ∀ entry ∈ entriesFor order facts, here entry
  live : ∀ order ∈ facts.lockOrders, ∀ entry, here entry →
    (entry ∈ (labels order).1 ↔ entry ∈ order.liveEntries)

section Graph

variable (labels : LockOrderFact → ThreadEntrySet × ThreadEntrySet)

def LockSuccessor.relabel (successor : LockSuccessor) : LockSuccessor :=
  { successor with orders := successor.orders.map (LockOrder.relabel labels) }

def LockGraph.relabel (graph : LockGraph) : LockGraph :=
  graph.map (List.map (LockSuccessor.relabel labels))

theorem edgesFrom_relabel (edges : List LockOrderFact) (lockId : String) :
    edgesFrom (edges.map (relabel labels)) lockId = (edgesFrom edges lockId).map (relabel labels) := by
  unfold edgesFrom
  rw [List.filter_map]
  rfl

theorem number_relabel (edges : List LockOrderFact) (fuel : Nat) (lockId : String)
    (numbers : List String) :
    number (edges.map (relabel labels)) fuel lockId numbers = number edges fuel lockId numbers := by
  induction fuel generalizing lockId numbers with
  | zero => rfl
  | succ fuel ih =>
      unfold number
      rw [edgesFrom_relabel, List.foldl_map]
      simp only [ih]
      rfl

theorem lockNames_relabel (edges : List LockOrderFact) :
    lockNames (edges.map (relabel labels)) = lockNames edges := by
  unfold lockNames
  rw [List.map_map, List.map_map]
  rfl

theorem lockNumbers_relabel (edges : List LockOrderFact) :
    lockNumbers (edges.map (relabel labels)) = lockNumbers edges := by
  unfold lockNumbers
  rw [lockNames_relabel, List.map_map]
  simp only [number_relabel]
  rfl

theorem addSuccessorOrder_relabel (target : Nat) (order : LockOrderFact)
    (successors : List LockSuccessor) :
    addSuccessorOrder target (relabel labels order) (successors.map (LockSuccessor.relabel labels)) =
      (addSuccessorOrder target order successors).map (LockSuccessor.relabel labels) := by
  induction successors with
  | nil => rfl
  | cons successor successors ih =>
      rw [List.map_cons]
      unfold addSuccessorOrder
      by_cases htarget : successor.lock = target
      · rw [if_pos htarget, if_pos (show (successor.relabel labels).lock = target from htarget),
          List.map_cons]
        unfold LockSuccessor.relabel
        rw [List.map_append]
        rfl
      · rw [if_neg htarget, if_neg (show (successor.relabel labels).lock ≠ target from htarget), ih,
          List.map_cons]

theorem successorsOf_relabel (numbers : List String) (edges : List LockOrderFact) (lockId : String) :
    successorsOf numbers (edges.map (relabel labels)) lockId =
      (successorsOf numbers edges lockId).map (LockSuccessor.relabel labels) := by
  have hfold (orders : List LockOrderFact) (successors : List LockSuccessor) :
      (orders.map (relabel labels)).foldl (fun successors order =>
          addSuccessorOrder (numbers.idxOf order.secondLockId) order successors)
        (successors.map (LockSuccessor.relabel labels)) =
      (orders.foldl (fun successors order =>
          addSuccessorOrder (numbers.idxOf order.secondLockId) order successors) successors).map
        (LockSuccessor.relabel labels) := by
    induction orders generalizing successors with
    | nil => rfl
    | cons order orders ih =>
        rw [List.map_cons, List.foldl_cons, List.foldl_cons, ← ih, ← addSuccessorOrder_relabel]
        rfl
  unfold successorsOf
  rw [edgesFrom_relabel]
  exact hfold (edgesFrom edges lockId) []

theorem buildLockGraph_relabel (edges : List LockOrderFact) :
    buildLockGraph (edges.map (relabel labels)) = (buildLockGraph edges).relabel labels := by
  unfold buildLockGraph LockGraph.relabel
  rw [lockNumbers_relabel, List.map_map]
  exact List.map_congr_left fun lockId _ => successorsOf_relabel labels _ edges lockId

theorem successors_relabel (graph : LockGraph) (lock : Nat) :
    (((graph.relabel labels)[lock]?).getD []) =
      ((graph[lock]?).getD []).map (LockSuccessor.relabel labels) := by
  unfold LockGraph.relabel
  rw [List.getElem?_map]
  cases graph[lock]? <;> rfl

theorem length_relabel (graph : LockGraph) : (graph.relabel labels).length = graph.length :=
  List.length_map _

theorem leadsToStart_relabel (graph : LockGraph) (start : Nat) :
    leadsToStart (graph.relabel labels) start = leadsToStart graph start := by
  have hpredecessors : predecessors (graph.relabel labels) = predecessors graph := by
    funext target
    unfold predecessors
    rw [length_relabel]
    refine List.flatMap_congr fun lock _ => ?_
    rw [successors_relabel, List.filterMap_map]
    rfl
  unfold leadsToStart
  rw [hpredecessors, length_relabel]

end Graph

def Visit.relabel (labels : LockOrderFact → ThreadEntrySet × ThreadEntrySet) : Visit → Visit
  | .examine => .examine
  | .close cycle => .close (cycle.map (LockOrder.relabel labels))

def Findings.relabel (labels : LockOrderFact → ThreadEntrySet × ThreadEntrySet) (found : Findings) :
    Findings :=
  { found with
    addressOrderedCycles := found.addressOrderedCycles.map (List.map (LockOrder.relabel labels)) }

section Cycles

variable (labels : LockOrderFact → ThreadEntrySet × ThreadEntrySet) (cycle : List LockOrderFact)

theorem cycleKey_relabel : cycleKey (cycle.map (relabel labels)) = cycleKey cycle := by
  unfold cycleKey
  rw [List.map_map]
  rfl

theorem cycleLocks_relabel : cycleLocks (cycle.map (relabel labels)) = cycleLocks cycle := by
  unfold cycleLocks
  rw [List.map_map, List.map_map]
  rfl

theorem isAddressOrdered_relabel :
    isAddressOrdered (cycle.map (relabel labels)) = isAddressOrdered cycle := by
  unfold isAddressOrdered
  rw [List.all_map]
  rfl

theorem hasCommonGateLock_relabel :
    hasCommonGateLock (cycle.map (relabel labels)) = hasCommonGateLock cycle := by
  have hcandidates : gateCandidates (cycle.map (relabel labels)) ∘ relabel labels =
      gateCandidates cycle := by
    funext edge
    rw [Function.comp_apply, gateCandidates, cycleLocks_relabel]
    rfl
  unfold hasCommonGateLock
  rw [List.map_map, hcandidates]

end Cycles

def WalkState.relabel (labels : LockOrderFact → ThreadEntrySet × ThreadEntrySet)
    (state : WalkState) : WalkState :=
  { state with
    path := state.path.map (LockOrder.relabel labels)
    found := state.found.relabel labels }

-- A cycle of orders that the facts hold.
def Holds (facts : TUFacts) (cycle : List LockOrderFact) : Prop :=
  cycle ≠ [] ∧ ∀ order ∈ cycle, order ∈ facts.lockOrders

theorem holds_of_walkClosings {facts : TUFacts} {edges cycle : List LockOrderFact} {start : Nat}
    (hedges : ∀ edge ∈ edges, edge ∈ facts.lockOrders) (h : cycle ∈ walkClosings facts edges start) :
    Holds facts cycle :=
  have hcycle := (mem_walkClosings.mp h).1
  ⟨hcycle.nonempty, fun order horder => hedges order (hcycle.mem order horder)⟩

section Walks

variable {here : String → Prop} {labels : LockOrderFact → ThreadEntrySet × ThreadEntrySet}
  {facts other : TUFacts} (h : Relabelled here labels facts other) {order : LockOrderFact}
  {path cycle : List LockOrderFact}

include h

theorem entriesFor_relabel (horder : order ∈ facts.lockOrders) :
    entriesFor (relabel labels order) other = entriesFor order facts :=
  congrArg (fun entries : Option ThreadEntrySet => entries.getD ∅) (h.contexts order horder)

theorem participatesInConcurrency_relabel (horder : order ∈ facts.lockOrders) :
    participatesInConcurrency (relabel labels order) other = participatesInConcurrency order facts :=
  congrArg (fun entries : Option ThreadEntrySet => entries.isSome || order.inRootTask)
    (h.contexts order horder)

theorem racesWithRootTask_relabel {beside : LockOrderFact} (horder : order ∈ facts.lockOrders)
    (hbeside : beside ∈ facts.lockOrders) :
    racesWithRootTask (relabel labels order) (entriesFor beside facts) =
      racesWithRootTask order (entriesFor beside facts) :=
  racesWithRootTask_alike (h.entries beside hbeside) rfl (h.live order horder)

theorem mayHappenInParallelWithEach_relabel (horder : order ∈ facts.lockOrders)
    (hpath : ∀ taken ∈ path, taken ∈ facts.lockOrders) :
    mayHappenInParallelWithEach (relabel labels order) (path.map (relabel labels)) other =
      mayHappenInParallelWithEach order path facts := by
  have hone (taken : LockOrderFact) (htaken : taken ∈ path) :
      mayHappenInParallel (relabel labels taken) (entriesFor (relabel labels taken) other)
          (relabel labels order) (entriesFor (relabel labels order) other) other =
        mayHappenInParallel taken (entriesFor taken facts) order (entriesFor order facts) facts := by
    have hin := hpath taken htaken
    rw [entriesFor_relabel h hin, entriesFor_relabel h horder]
    exact mayHappenInParallel_alike h.toAnswerAlike (h.entries taken hin) (h.entries order horder)
      (racesWithRootTask_relabel h hin horder) (racesWithRootTask_relabel h horder hin)
  unfold mayHappenInParallelWithEach
  rw [List.all_map, Bool.eq_iff_iff, List.all_eq_true, List.all_eq_true]
  exact forall₂_congr fun taken htaken => by rw [Function.comp_apply, hone taken htaken]

theorem contextLabel_relabel (horder : order ∈ facts.lockOrders) :
    contextLabel (relabel labels order) other = contextLabel order facts := by
  unfold contextLabel
  rw [entriesFor_relabel h horder]
  rfl

theorem orderNote_relabel (label : String) (horder : order ∈ facts.lockOrders) :
    orderNote label (relabel labels order) other = orderNote label order facts := by
  unfold orderNote
  rw [contextLabel_relabel h horder]
  rfl

theorem cycleDiagnostic_relabel (hcycle : Holds facts cycle) :
    cycleDiagnostic (cycle.map (relabel labels)) other = cycleDiagnostic cycle facts := by
  obtain ⟨hne, hmem⟩ := hcycle
  cases cycle with
  | nil => exact absurd rfl hne
  | cons first rest =>
      have hfirst := hmem first List.mem_cons_self
      have hnotes (diagnostic : Diagnostic) (edges : List LockOrderFact)
          (hedges : ∀ edge ∈ edges, edge ∈ facts.lockOrders) :
          (edges.map (relabel labels)).foldl (fun diagnostic edge =>
              (diagnostic.note (orderNote "conflicting order" edge other)).relatedLocation
                "Conflicting lock order" edge.location) diagnostic =
            edges.foldl (fun diagnostic edge =>
              (diagnostic.note (orderNote "conflicting order" edge facts)).relatedLocation
                "Conflicting lock order" edge.location) diagnostic := by
        rw [List.foldl_map]
        refine List.foldl_ext _ _ _ fun diagnostic edge hedge => ?_
        rw [orderNote_relabel h _ (hedges edge hedge)]
        rfl
      have hlast : contextLabel (((first :: rest).map (relabel labels)).getLastD (relabel labels first))
          other = contextLabel ((first :: rest).getLastD first) facts := by
        rw [List.getLastD_eq_getLast?, List.getLast?_map, List.getLastD_eq_getLast?,
          List.getLast?_eq_some_getLast (List.cons_ne_nil first rest)]
        exact contextLabel_relabel h (hmem _ (List.getLast_mem _))
      unfold cycleDiagnostic
      simp only [firstOrder, List.map_cons, List.headD_cons, List.tail_cons] at hlast ⊢
      rw [hlast, contextLabel_relabel h hfirst, orderNote_relabel h _ hfirst,
        hnotes _ rest fun edge hedge => hmem edge (List.mem_cons_of_mem _ hedge), List.length_cons,
        List.length_cons, List.length_map, List.map_map]
      rfl

theorem orderVisits_relabel (start : Nat) {descend later : List LockOrderFact → List Visit}
    (lock : Nat) (horder : order ∈ facts.lockOrders)
    (hpath : ∀ taken ∈ path, taken ∈ facts.lockOrders)
    (hlater : ∀ extended : List LockOrderFact, (∀ taken ∈ extended, taken ∈ facts.lockOrders) →
      later (extended.map (relabel labels)) = (descend extended).map (Visit.relabel labels)) :
    orderVisits other start later lock (path.map (relabel labels)) (relabel labels order) =
      (orderVisits facts start descend lock path order).map (Visit.relabel labels) := by
  have hextended : ∀ taken ∈ path ++ [order], taken ∈ facts.lockOrders := by
    intro taken htaken
    rcases List.mem_append.mp htaken with hin | hlast
    · exact hpath taken hin
    · exact List.mem_singleton.mp hlast ▸ horder
  have hmap : path.map (relabel labels) ++ [relabel labels order] =
      (path ++ [order]).map (relabel labels) := by
    rw [List.map_append, List.map_singleton]
  unfold orderVisits
  rw [mayHappenInParallelWithEach_relabel h horder hpath, hmap, hlater _ hextended]
  split
  · split <;> rfl
  · rfl

theorem visits_relabel (start : Nat) (leads : Finset Nat) {graph : LockGraph}
    (hgraph : ∀ (lock : Nat) (successor : LockSuccessor), successor ∈ (graph[lock]?).getD [] →
      ∀ order ∈ successor.orders, order ∈ facts.lockOrders)
    (fuel lock : Nat) (onPath : Finset Nat) (hpath : ∀ taken ∈ path, taken ∈ facts.lockOrders) :
    visits other start (graph.relabel labels) leads fuel lock (path.map (relabel labels)) onPath =
      (visits facts start graph leads fuel lock path onPath).map (Visit.relabel labels) := by
  induction fuel generalizing lock path onPath with
  | zero => rfl
  | succ fuel ih =>
      unfold visits
      rw [successors_relabel, List.flatMap_map, List.map_flatMap]
      refine List.flatMap_congr fun successor hsuccessor => ?_
      unfold successorVisits
      rw [show (successor.relabel labels).lock = successor.lock from rfl]
      split
      · rfl
      · rw [show (successor.relabel labels).orders = successor.orders.map (relabel labels) from rfl,
          List.flatMap_map, List.map_flatMap]
        refine List.flatMap_congr fun order horder => ?_
        exact orderVisits_relabel h start _ (hgraph lock successor hsuccessor order horder) hpath
          fun extended hextended => ih _ _ hextended

theorem emitOnce_relabel (found : Findings) (hcycle : Holds facts cycle) :
    emitOnce other (found.relabel labels) (cycle.map (relabel labels)) =
      (emitOnce facts found cycle).relabel labels := by
  unfold emitOnce
  rw [cycleKey_relabel, cycleDiagnostic_relabel h hcycle]
  by_cases hemitted : cycleKey cycle ∈ found.emittedCycleKeys
  · rw [if_pos hemitted]
    exact if_pos hemitted
  · rw [if_neg hemitted]
    exact if_neg hemitted

theorem closeCycle_relabel (found : Findings) (hcycle : Holds facts cycle) :
    closeCycle other (found.relabel labels) (cycle.map (relabel labels)) =
      (closeCycle facts found cycle).relabel labels := by
  unfold closeCycle
  rw [hasCommonGateLock_relabel, isAddressOrdered_relabel, cycleKey_relabel,
    emitOnce_relabel h found hcycle]
  by_cases hgate : hasCommonGateLock cycle = true
  · rw [if_pos hgate, if_pos hgate]
  · rw [if_neg hgate, if_neg hgate]
    by_cases hordered : (!isAddressOrdered cycle) = true
    · rw [if_pos hordered, if_pos hordered]
    · rw [if_neg hordered, if_neg hordered]
      by_cases hkept : cycleKey cycle ∈ found.addressOrderedKeys
      · rw [if_pos hkept]
        exact if_pos hkept
      · rw [if_neg hkept]
        refine (if_neg hkept).trans ?_
        simp only [Findings.relabel, List.map_append, List.map_singleton]

theorem replay_relabel (visits : List Visit) (examined : Nat) (found : Findings)
    (hholds : ∀ cycle, .close cycle ∈ visits → Holds facts cycle) :
    replay other (visits.map (Visit.relabel labels)) (examined, found.relabel labels) =
      ((replay facts visits (examined, found)).1, (replay facts visits (examined, found)).2.1,
        (replay facts visits (examined, found)).2.2.relabel labels) := by
  induction visits generalizing examined found with
  | nil => rfl
  | cons visit visits ih =>
      have hrest := fun cycle hmem => hholds cycle (List.mem_cons_of_mem _ hmem)
      cases visit with
      | examine =>
          rw [List.map_cons, Visit.relabel, replay, replay]
          split
          · rfl
          · exact ih _ _ hrest
      | close cycle =>
          rw [List.map_cons, Visit.relabel, replay, replay,
            closeCycle_relabel h found (hholds cycle List.mem_cons_self)]
          exact ih _ _ hrest

section Search

variable {edges : List LockOrderFact} (hedges : ∀ edge ∈ edges, edge ∈ facts.lockOrders)

include hedges

theorem walkFrom_relabel (start : Nat) (state : WalkState) (hpath : state.path = [])
    (hon : state.onPath = ∅) :
    walkFrom other ((buildLockGraph edges).relabel labels) start (state.relabel labels) =
      ((walkFrom facts (buildLockGraph edges) start state).1,
        (walkFrom facts (buildLockGraph edges) start state).2.relabel labels) := by
  have hgraph (lock : Nat) (successor : LockSuccessor)
      (hmem : successor ∈ ((buildLockGraph edges)[lock]?).getD []) (order : LockOrderFact)
      (horder : order ∈ successor.orders) : order ∈ facts.lockOrders :=
    hedges order ((leads_buildLockGraph lock _ order).mp ⟨successor, hmem, rfl, horder⟩).1
  have hnone : ∀ taken ∈ ([] : List LockOrderFact), taken ∈ facts.lockOrders :=
    fun _ hin => absurd hin List.not_mem_nil
  have hvisits := visits_relabel h start (leadsToStart (buildLockGraph edges) start) hgraph
    (buildLockGraph edges).length start ∅ hnone
  have hholds (cycle : List LockOrderFact)
      (hclose : .close cycle ∈ visits facts start (buildLockGraph edges)
        (leadsToStart (buildLockGraph edges) start) (buildLockGraph edges).length start [] ∅) :
      Holds facts cycle := holds_of_walkClosings hedges (mem_closings.mpr hclose)
  rw [walkFrom_eq_replay, walkFrom_eq_replay, leadsToStart_relabel, length_relabel, hpath, hon,
    show (state.relabel labels).path = state.path.map (relabel labels) from rfl,
    show (state.relabel labels).onPath = state.onPath from rfl,
    show (state.relabel labels).found = state.found.relabel labels from rfl, hpath, hon, hvisits,
    replay_relabel h _ 0 state.found hholds]
  rfl

theorem walkAll_relabel (starts : List Nat) (complete : Bool) (state : WalkState)
    (hpath : state.path = []) (hon : state.onPath = ∅) :
    walkAll other ((buildLockGraph edges).relabel labels) starts (complete, state.relabel labels) =
      ((walkAll facts (buildLockGraph edges) starts (complete, state)).1,
        (walkAll facts (buildLockGraph edges) starts (complete, state)).2.relabel labels) := by
  induction starts generalizing complete state with
  | nil => rfl
  | cons start starts ih =>
      obtain ⟨hleft, hleftOn⟩ := walkFrom_path facts start (buildLockGraph edges) state
      unfold walkAll
      rw [walkFrom_relabel h hedges start state hpath hon]
      exact ih _ _ (hleft.trans hpath) (hleftOn.trans hon)

-- The cycles kept back until a walk is cut are cycles that some walk closed.
theorem reportDeadlockingCycles_relabel :
    reportDeadlockingCycles other ((buildLockGraph edges).relabel labels) =
      reportDeadlockingCycles facts (buildLockGraph edges) := by
  have hkept : ∀ cycle ∈ (walkAll facts (buildLockGraph edges)
      (List.range (buildLockGraph edges).length) (true, {})).2.found.addressOrderedCycles,
      Holds facts cycle := by
    intro cycle hcycle
    obtain ⟨judged, hwalked⟩ := walkedTo facts edges (buildLockGraph edges).length
    obtain ⟨reported, hjudged⟩ := judged_foldl facts judged
    rw [hwalked.found] at hcycle
    obtain ⟨start, -, hclosing⟩ := hwalked.mem_of_judged cycle (hjudged.mem_of_kept cycle hcycle).1
    exact holds_of_walkClosings hedges hclosing
  have hemit (cycles : List (List LockOrderFact)) (found : Findings)
      (hcycles : ∀ cycle ∈ cycles, Holds facts cycle) :
      (cycles.map (List.map (relabel labels))).foldl (emitOnce other) (found.relabel labels) =
        (cycles.foldl (emitOnce facts) found).relabel labels := by
    induction cycles generalizing found with
    | nil => rfl
    | cons cycle cycles ih =>
        rw [List.map_cons, List.foldl_cons, List.foldl_cons,
          emitOnce_relabel h found (hcycles cycle List.mem_cons_self)]
        exact ih _ fun other hother => hcycles other (List.mem_cons_of_mem _ hother)
  have hwalked : walkAll other ((buildLockGraph edges).relabel labels)
      (List.range ((buildLockGraph edges).relabel labels).length) (true, {}) =
        ((walkAll facts (buildLockGraph edges) (List.range (buildLockGraph edges).length) (true, {})).1,
          (walkAll facts (buildLockGraph edges) (List.range (buildLockGraph edges).length)
            (true, {})).2.relabel labels) := by
    rw [length_relabel]
    exact walkAll_relabel h hedges _ true {} rfl rfl
  unfold reportDeadlockingCycles
  rw [hwalked]
  dsimp only
  split
  · rfl
  · have hlast := congrArg Findings.diagnostics (hemit _ (walkAll facts (buildLockGraph edges)
      (List.range (buildLockGraph edges).length) (true, {})).2.found hkept)
    exact congrArg (Prod.mk false) hlast

end Search

theorem cycleOrders_relabel : cycleOrders other = (cycleOrders facts).map (relabel labels) := by
  unfold cycleOrders
  rw [h.lockOrders, List.filter_map]
  refine congrArg _ (List.filter_congr fun order horder => ?_)
  rw [Function.comp_apply, participatesInConcurrency_relabel h horder]
  rfl

theorem selfDeadlocks_relabel :
    (selfDeadlocks other).map selfDeadlockDiagnostic =
      (selfDeadlocks facts).map selfDeadlockDiagnostic := by
  unfold selfDeadlocks
  rw [h.lockOrders, h.recursive, List.filter_map, List.map_map]
  rfl

-- What is said of the threads behind an order does not show where the questions are answered alike.
theorem run_relabel : run other = run facts := by
  have hedges : ∀ edge ∈ cycleOrders facts, edge ∈ facts.lockOrders :=
    fun _ hedge => List.mem_of_mem_filter hedge
  unfold run
  rw [cycleOrders_relabel h, buildLockGraph_relabel, selfDeadlocks_relabel h,
    reportDeadlockingCycles_relabel h hedges]

end Walks

end ConcurrencyAnalyzer.LockOrder
