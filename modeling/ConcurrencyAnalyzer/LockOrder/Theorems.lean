import ConcurrencyAnalyzer.LockOrder.Findings

namespace ConcurrencyAnalyzer.LockOrder

-- The state the walk from a lock begins in, after the walks from the locks numbered before it.
def stateBefore (facts : TUFacts) (start : Nat) : WalkState :=
  (walkAll facts (buildLockGraph (cycleOrders facts)) (List.range start) (true, {})).2

-- The walk from a lock stopped at its share of orders.
def walkCut (facts : TUFacts) (start : Nat) : Bool :=
  !(walkFrom facts (buildLockGraph (cycleOrders facts)) start (stateBefore facts start)).1

-- One order for each two successive locks of a cycle, the last lock being followed by the first.
structure IsChoice (edges : List LockOrderFact) (locks : List String)
    (choice : List LockOrderFact) : Prop where
  mem : ∀ order ∈ choice, order ∈ edges
  firsts : choice.map (·.firstLockId) = locks
  seconds : choice.map (·.secondLockId) = locks.rotate 1

-- An elementary cycle of locks, listed from its lowest-numbered lock.
structure ElementaryCycle (edges : List LockOrderFact) (start : Nat) (locks : List String) :
    Prop where
  lowest : FromLowest edges start locks
  nodup : locks.Nodup
  length : 2 ≤ locks.length
  joined : ∃ choice, IsChoice edges locks choice

-- The orders may all be taken at the same time, and nothing else keeps them apart.
structure MayDeadlock (facts : TUFacts) (choice : List LockOrderFact) : Prop where
  parallel : choice.Pairwise (Parallel facts)
  ungated : hasCommonGateLock choice = false

-- The diagnostic names these locks as the locks of its cycle, from whichever of them on.
def reportsCycle (locks : List String) (diagnostic : Diagnostic) : Bool :=
  match diagnostic.propertyAt "cycleLocks" with
  | some (.texts names) => decide (names ~r locks)
  | _ => false

section Walks

variable {facts : TUFacts} {edges : List LockOrderFact}

theorem walkFrom_eq_replay (facts : TUFacts) (graph : LockGraph) (start : Nat)
    (state : WalkState) :
    walkFrom facts graph start state =
      state.resume (replay facts (visits facts start graph (leadsToStart graph start) graph.length
        start state.path state.onPath) (0, state.found)) := by
  rw [walkFrom, walk_eq_replay]
  rfl

-- The orders a walk that nothing cuts examines.
def walkShare (facts : TUFacts) (edges : List LockOrderFact) (start : Nat) : Nat :=
  (visits facts start (buildLockGraph edges) (leadsToStart (buildLockGraph edges) start)
    (buildLockGraph edges).length start [] ∅).count .examine

-- Whether a walk is cut does not depend on the walks before it.
theorem walkFrom_complete (facts : TUFacts) (edges : List LockOrderFact) (start : Nat)
    (state : WalkState) (hpath : state.path = []) (hon : state.onPath = ∅) :
    (walkFrom facts (buildLockGraph edges) start state).1 = true ↔
      walkShare facts edges start ≤ kMaxOrdersExaminedPerLock := by
  rw [walkFrom_eq_replay, hpath, hon, WalkState.resume]
  dsimp only
  rw [replay_complete _ _ (Nat.zero_le _), Nat.zero_add, walkShare]

theorem walkFrom_found (facts : TUFacts) (edges : List LockOrderFact) (start : Nat)
    (state : WalkState) (hpath : state.path = []) (hon : state.onPath = ∅) :
    ∃ judged, judged ⊆ walkClosings facts edges start ∧
      (walkFrom facts (buildLockGraph edges) start state).2.found =
        judged.foldl (closeCycle facts) state.found ∧
      (walkShare facts edges start ≤ kMaxOrdersExaminedPerLock →
        walkClosings facts edges start ⊆ judged) := by
  obtain ⟨judged, hexamined, hfound, hall⟩ := replay_found facts
    (visits facts start (buildLockGraph edges) (leadsToStart (buildLockGraph edges) start)
      (buildLockGraph edges).length start [] ∅) (0, state.found)
  refine ⟨judged, hexamined.subset, ?_, fun hshare => ?_⟩
  · rw [walkFrom_eq_replay, hpath, hon]
    exact hfound
  · rw [hall ((replay_complete _ _ (Nat.zero_le _)).mpr (by rwa [Nat.zero_add]))]
    exact List.Subset.refl _

theorem walkFrom_path (facts : TUFacts) (start : Nat) (graph : LockGraph) (state : WalkState) :
    (walkFrom facts graph start state).2.path = state.path ∧
      (walkFrom facts graph start state).2.onPath = state.onPath := by
  rw [walkFrom_eq_replay]
  exact ⟨rfl, rfl⟩

theorem walkAll_append (graph : LockGraph) (starts others : List Nat)
    (result : Bool × WalkState) :
    walkAll facts graph (starts ++ others) result =
      walkAll facts graph others (walkAll facts graph starts result) := by
  induction starts generalizing result with
  | nil => rfl
  | cons start starts ih =>
      obtain ⟨complete, state⟩ := result
      exact ih _

-- What the walks from the first locks leave.
structure WalkedTo (facts : TUFacts) (edges : List LockOrderFact) (count : Nat)
    (result : Bool × WalkState) (judged : List (List LockOrderFact)) : Prop where
  path : result.2.path = []
  onPath : result.2.onPath = ∅
  found : result.2.found = judged.foldl (closeCycle facts) {}
  mem_of_judged : ∀ cycle ∈ judged, ∃ start < count, cycle ∈ walkClosings facts edges start
  judged_of_mem : ∀ start < count, walkShare facts edges start ≤ kMaxOrdersExaminedPerLock →
    ∀ cycle ∈ walkClosings facts edges start, cycle ∈ judged
  complete : result.1 = true ↔
    ∀ start < count, walkShare facts edges start ≤ kMaxOrdersExaminedPerLock

theorem WalkedTo.next {count : Nat} {result : Bool × WalkState}
    {judged : List (List LockOrderFact)} (h : WalkedTo facts edges count result judged) :
    ∃ judged', WalkedTo facts edges (count + 1)
      (walkAll facts (buildLockGraph edges) [count] result) judged' := by
  obtain ⟨done, state⟩ := result
  obtain ⟨more, hsub, hfound, hall⟩ :=
    walkFrom_found facts edges count state h.path h.onPath
  have hpath := walkFrom_path facts count (buildLockGraph edges) state
  have hcomplete := walkFrom_complete facts edges count state h.path h.onPath
  refine ⟨judged ++ more, ?_, ?_, ?_, ?_, ?_, ?_⟩
  · exact hpath.1.trans h.path
  · exact hpath.2.trans h.onPath
  · rw [List.foldl_append, ← h.found]
    exact hfound
  · intro cycle hc
    rcases List.mem_append.mp hc with hc | hc
    · obtain ⟨start, hlt, hm⟩ := h.mem_of_judged cycle hc
      exact ⟨start, by omega, hm⟩
    · exact ⟨count, by omega, hsub hc⟩
  · intro start hlt hshare cycle hc
    rcases Nat.lt_succ_iff_lt_or_eq.mp hlt with hlt | rfl
    · exact List.mem_append_left _ (h.judged_of_mem start hlt hshare cycle hc)
    · exact List.mem_append_right _ (hall hshare hc)
  · simp only [walkAll, Bool.and_eq_true, h.complete, hcomplete]
    constructor
    · rintro ⟨hbefore, hlast⟩ start hlt
      rcases Nat.lt_succ_iff_lt_or_eq.mp hlt with hlt | rfl
      · exact hbefore start hlt
      · exact hlast
    · intro hevery
      exact ⟨fun start hlt => hevery start (by omega), hevery count (by omega)⟩

theorem walkedTo (facts : TUFacts) (edges : List LockOrderFact) (count : Nat) :
    ∃ judged, WalkedTo facts edges count
      (walkAll facts (buildLockGraph edges) (List.range count) (true, {})) judged := by
  induction count with
  | zero => exact ⟨[], rfl, rfl, rfl, by simp, by simp, by simp [walkAll]⟩
  | succ count ih =>
      obtain ⟨judged, h⟩ := ih
      rw [List.range_succ, walkAll_append]
      exact h.next

theorem walkCut_eq_false (facts : TUFacts) (start : Nat) :
    walkCut facts start = false ↔
      walkShare facts (cycleOrders facts) start ≤ kMaxOrdersExaminedPerLock := by
  obtain ⟨_, h⟩ := walkedTo facts (cycleOrders facts) start
  rw [walkCut, Bool.not_eq_false']
  exact walkFrom_complete facts _ start _ h.path h.onPath

-- Some walk stopped at its share of orders.
def SomeWalkCut (facts : TUFacts) : Prop :=
  ∃ start < (buildLockGraph (cycleOrders facts)).length, walkCut facts start = true

theorem complete_iff (facts : TUFacts) :
    (walkAll facts (buildLockGraph (cycleOrders facts))
      (List.range (buildLockGraph (cycleOrders facts)).length) (true, {})).1 = true ↔
      ¬SomeWalkCut facts := by
  obtain ⟨_, h⟩ := walkedTo facts (cycleOrders facts) (buildLockGraph (cycleOrders facts)).length
  rw [h.complete, SomeWalkCut]
  constructor
  · rintro hall ⟨start, hlt, hcut⟩
    rw [(walkCut_eq_false facts start).mpr (hall start hlt)] at hcut
    cases hcut
  · intro hnone start hlt
    rw [← walkCut_eq_false, ← Bool.not_eq_true]
    exact fun hcut => hnone ⟨start, hlt, hcut⟩

-- The cycles behind the report: those some walk closed without a common gate, one for each key,
-- made of lower addresses first only when some walk was cut.
structure Reported (facts : TUFacts) (reported : List (List LockOrderFact)) : Prop where
  diagnostics : (reportDeadlockingCycles facts (buildLockGraph (cycleOrders facts))).2 =
    reported.map fun cycle => cycleDiagnostic cycle facts
  nodup : (reported.map cycleKey).Nodup
  closed : ∀ cycle ∈ reported, ∃ start < (buildLockGraph (cycleOrders facts)).length,
    cycle ∈ walkClosings facts (cycleOrders facts) start
  ungated : ∀ cycle ∈ reported, hasCommonGateLock cycle = false
  address : ∀ cycle ∈ reported, isAddressOrdered cycle = true → SomeWalkCut facts
  key : ∀ start < (buildLockGraph (cycleOrders facts)).length, walkCut facts start = false →
    ∀ cycle ∈ walkClosings facts (cycleOrders facts) start, hasCommonGateLock cycle = false →
      (isAddressOrdered cycle = true → SomeWalkCut facts) → cycleKey cycle ∈ reported.map cycleKey

theorem exists_reported (facts : TUFacts) : ∃ reported, Reported facts reported := by
  obtain ⟨judged, h⟩ :=
    walkedTo facts (cycleOrders facts) (buildLockGraph (cycleOrders facts)).length
  obtain ⟨reported, hjudged⟩ := judged_foldl facts judged
  have hcomplete := complete_iff facts
  rw [← h.found] at hjudged
  by_cases hcut : SomeWalkCut facts
  · have hdone := Bool.eq_false_iff.mpr fun hdone => hcomplete.mp hdone hcut
    obtain ⟨all, hall, hsub, hfrom, hkeys⟩ := hjudged.emitted.foldl_emitOnce
      (walkAll facts (buildLockGraph (cycleOrders facts))
        (List.range (buildLockGraph (cycleOrders facts)).length) (true, {})).2.found.addressOrderedCycles
    have hmem : ∀ cycle ∈ all, cycle ∈ judged ∧ hasCommonGateLock cycle = false := by
      intro cycle hc
      rcases hfrom cycle hc with hc | hc
      · exact ⟨(hjudged.mem_of_reported cycle hc).1, (hjudged.mem_of_reported cycle hc).2.1⟩
      · exact ⟨(hjudged.mem_of_kept cycle hc).1, (hjudged.mem_of_kept cycle hc).2.1⟩
    refine ⟨all, ?_, hall.nodup, fun cycle hc => h.mem_of_judged cycle (hmem cycle hc).1,
      fun cycle hc => (hmem cycle hc).2, fun _ _ _ => hcut, ?_⟩
    · rw [reportDeadlockingCycles, hdone]
      exact hall.diagnostics
    · intro start hlt hnot cycle hc hgate _
      have hj := h.judged_of_mem start hlt ((walkCut_eq_false facts start).mp hnot) cycle hc
      cases ha : isAddressOrdered cycle with
      | false => exact List.map_subset _ hsub (hjudged.reported_key cycle hj hgate ha)
      | true =>
          obtain ⟨kept, hk, hkey⟩ := List.mem_map.mp (hjudged.kept_key cycle hj hgate ha)
          rw [← hkey]
          exact hkeys kept hk
  · have hdone := hcomplete.mpr hcut
    refine ⟨reported, ?_, hjudged.emitted.nodup,
      fun cycle hc => h.mem_of_judged cycle (hjudged.mem_of_reported cycle hc).1,
      fun cycle hc => (hjudged.mem_of_reported cycle hc).2.1, ?_, ?_⟩
    · rw [reportDeadlockingCycles, hdone]
      exact hjudged.emitted.diagnostics
    · intro cycle hc ha
      rw [(hjudged.mem_of_reported cycle hc).2.2] at ha
      cases ha
    · intro start hlt hnot cycle hc hgate ha
      have hj := h.judged_of_mem start hlt ((walkCut_eq_false facts start).mp hnot) cycle hc
      exact hjudged.reported_key cycle hj hgate (Bool.eq_false_iff.mpr fun h => hcut (ha h))

end Walks

section Cycles

variable {facts : TUFacts} {edges cycle other : List LockOrderFact} {start start' : Nat}
  {locks : List String}

theorem IsCycle.isChoice (hc : IsCycle edges cycle) :
    IsChoice edges (cycle.map (·.firstLockId)) cycle :=
  ⟨hc.mem, rfl, hc.closed⟩

theorem IsChoice.isCycle {choice : List LockOrderFact} (h : IsChoice edges locks choice)
    (hnodup : locks.Nodup) (hlocks : locks ≠ []) : IsCycle edges choice := by
  obtain ⟨hmem, rfl, hseconds⟩ := h
  refine ⟨?_, hmem, hseconds, hnodup⟩
  rintro rfl
  exact hlocks rfl

-- A choice of orders has the key of its locks.
theorem IsCycle.cycleKey_eq (hc : IsCycle edges cycle) (ho : IsCycle edges other)
    (h : cycle.map (·.firstLockId) = other.map (·.firstLockId)) :
    cycleKey cycle = cycleKey other := by
  have hnames : ∀ {orders : List LockOrderFact}, IsCycle edges orders →
      orders.map edgeName = List.zipWith (fun first second => first ++ "->" ++ second)
        (orders.map (·.firstLockId)) ((orders.map (·.firstLockId)).rotate 1) := by
    intro orders horders
    rw [← horders.closed, List.zipWith_map, List.zipWith_self]
    rfl
  rw [cycleKey, cycleKey, hnames hc, hnames ho, h]

theorem two_le_length (hc : IsCycle (cycleOrders facts) cycle) : 2 ≤ cycle.length := by
  have hclosed := hc.closed
  match cycle, hc.nonempty with
  | [order], _ =>
      have hmem := hc.mem order (List.mem_singleton_self order)
      have hne := (List.mem_filter.mp hmem).2
      simp only [List.map_cons, List.map_nil, List.rotate_singleton, List.cons.injEq,
        and_true] at hclosed
      simp [hclosed] at hne
  | _ :: _ :: _, _ => simp

-- A rotation of a cycle's locks that also begins with the lowest-numbered one is the cycle itself.
theorem FromLowest.eq_of_isRotated {names : List String} (h : FromLowest edges start names)
    (h' : FromLowest edges start' locks) (hnodup : names.Nodup)
    (hnumbered : ∀ lockId ∈ names, lockId ∈ lockNumbers edges) (hrot : names ~r locks) :
    start = start' ∧ names = locks := by
  have hstart := h.unique h' hrot.perm.subset hrot.perm.symm.subset
  subst hstart
  refine ⟨rfl, ?_⟩
  obtain ⟨rest, hmap, _⟩ := h
  obtain ⟨rest', hmap', _⟩ := h'
  cases names with
  | nil => cases hmap
  | cons name names =>
      cases locks with
      | nil => cases hmap'
      | cons lock locks =>
          simp only [List.map_cons, List.cons.injEq] at hmap hmap'
          have hhead : name = lock :=
            (lockNumber_inj (hnumbered name (List.mem_cons_self ..))).mp
              (hmap.1.trans hmap'.1.symm)
          subst hhead
          obtain ⟨count, hcount⟩ := hrot
          have hlt : count % (name :: names).length < (name :: names).length :=
            Nat.mod_lt _ (by simp)
          rw [← List.rotate_mod] at hcount
          have hfirst := List.head?_rotate hlt
          rw [hcount, List.head?_cons, List.getElem?_eq_getElem hlt, Option.some.injEq] at hfirst
          have hpos : 0 < (name :: names).length := by simp
          have hzero : 0 = count % (name :: names).length := by
            apply (hnodup.getElem_inj_iff).mp
            · exact hfirst
            · exact hpos
          rw [← hzero, List.rotate_zero] at hcount
          exact hcount

theorem reportsCycle_cycleDiagnostic (cycle : List LockOrderFact) (facts : TUFacts) :
    reportsCycle locks (cycleDiagnostic cycle facts) =
      decide ((cycle.map (·.firstLockId)) ~r locks) := by
  simp [reportsCycle, cycleDiagnostic, Diagnostic.propertyAt_property_of_ne]

theorem propertyAt_cycleLocks (cycle : List LockOrderFact) (facts : TUFacts) :
    (cycleDiagnostic cycle facts).propertyAt "cycleLocks" =
      some (.texts (cycle.map (·.firstLockId))) := by
  simp [cycleDiagnostic, Diagnostic.propertyAt_property_of_ne]

theorem propertyAt_selfDeadlock (fact : LockOrderFact) :
    (selfDeadlockDiagnostic fact).propertyAt "cycleLocks" = none := by
  simp only [selfDeadlockDiagnostic, Diagnostic.propertyAt_property_of_ne, ne_eq, String.reduceEq,
    not_false_eq_true]
  rfl

theorem reportsCycle_selfDeadlock (fact : LockOrderFact) :
    reportsCycle locks (selfDeadlockDiagnostic fact) = false := by
  rw [reportsCycle, propertyAt_selfDeadlock]

end Cycles

section Report

variable {facts : TUFacts} {reported : List (List LockOrderFact)} {start : Nat}
  {locks : List String}

theorem Reported.diagnostics_run (h : Reported facts reported) :
    (run facts).diagnostics = (selfDeadlocks facts).map selfDeadlockDiagnostic ++
      reported.map fun cycle => cycleDiagnostic cycle facts := by
  rw [run, h.diagnostics]

theorem Reported.countP_reportsCycle (h : Reported facts reported) (locks : List String) :
    (run facts).diagnostics.countP (reportsCycle locks) =
      reported.countP fun cycle => decide ((cycle.map (·.firstLockId)) ~r locks) := by
  have hself : ((selfDeadlocks facts).map selfDeadlockDiagnostic).countP (reportsCycle locks) =
      0 := by
    rw [List.countP_eq_zero]
    intro diagnostic hd
    obtain ⟨fact, _, rfl⟩ := List.mem_map.mp hd
    simp [reportsCycle_selfDeadlock]
  rw [h.diagnostics_run, List.countP_append, hself, Nat.zero_add, List.countP_map]
  apply List.countP_congr
  intro cycle _
  rw [Function.comp_apply, reportsCycle_cycleDiagnostic]

theorem elementaryCycle_of_closing {cycle : List LockOrderFact}
    (hc : cycle ∈ walkClosings facts (cycleOrders facts) start) :
    ElementaryCycle (cycleOrders facts) start (cycle.map (·.firstLockId)) := by
  obtain ⟨hcycle, hlow, _⟩ := mem_walkClosings.mp hc
  exact ⟨hlow, hcycle.nodup, by simpa using two_le_length hcycle, ⟨cycle, hcycle.isChoice⟩⟩

-- A reported cycle through the locks of an elementary one is a choice of its orders.
theorem Reported.isChoice (h : Reported facts reported)
    (hlocks : ElementaryCycle (cycleOrders facts) start locks) {cycle : List LockOrderFact}
    (hc : cycle ∈ reported) (hrot : (cycle.map (·.firstLockId)) ~r locks) :
    IsChoice (cycleOrders facts) locks cycle ∧ MayDeadlock facts cycle := by
  obtain ⟨start', _, hclosing⟩ := h.closed cycle hc
  obtain ⟨hcycle, hlow, hpair⟩ := mem_walkClosings.mp hclosing
  obtain ⟨_, heq⟩ := hlow.eq_of_isRotated hlocks.lowest hcycle.nodup hcycle.firsts_numbered hrot
  exact ⟨heq ▸ hcycle.isChoice, hpair, h.ungated cycle hc⟩

theorem countP_le_one {α β : Type*} [DecidableEq β] {f : α → β} {p : α → Bool} {elements : List α}
    (key : β) (hnodup : (elements.map f).Nodup)
    (hp : ∀ element ∈ elements, p element = true → f element = key) :
    elements.countP p ≤ 1 := by
  calc elements.countP p ≤ (elements.map f).count key := by
        rw [List.count, List.countP_map]
        apply List.countP_mono_left
        intro element he h
        simpa using hp element he h
    _ ≤ 1 := List.nodup_iff_count_le_one.mp hnodup key

theorem Reported.count_le_one (h : Reported facts reported)
    (hlocks : ElementaryCycle (cycleOrders facts) start locks) :
    (run facts).diagnostics.countP (reportsCycle locks) ≤ 1 := by
  rw [h.countP_reportsCycle]
  obtain ⟨choice, hchoice⟩ := hlocks.joined
  have hne : locks ≠ [] := List.ne_nil_of_length_pos (by have := hlocks.length; omega)
  apply countP_le_one (cycleKey choice) h.nodup
  intro cycle hc hrot
  obtain ⟨hcycle, _⟩ := h.isChoice hlocks hc (of_decide_eq_true hrot)
  apply (hcycle.isCycle hlocks.nodup hne).cycleKey_eq (hchoice.isCycle hlocks.nodup hne)
  rw [hcycle.firsts, hchoice.firsts]

-- A choice that may deadlock has its cycle reported, unless it is made of lower addresses first
-- and every walk finished.
theorem Reported.count_pos (h : Reported facts reported)
    (hclean : CleanOrders (cycleOrders facts))
    (hstart : start < (buildLockGraph (cycleOrders facts)).length)
    (hcut : walkCut facts start = false)
    (hlocks : ElementaryCycle (cycleOrders facts) start locks) {choice : List LockOrderFact}
    (hchoice : IsChoice (cycleOrders facts) locks choice) (hdead : MayDeadlock facts choice)
    (haddress : isAddressOrdered choice = true → SomeWalkCut facts) :
    0 < (run facts).diagnostics.countP (reportsCycle locks) := by
  rw [h.countP_reportsCycle, List.countP_pos_iff]
  have hne : locks ≠ [] := List.ne_nil_of_length_pos (by have := hlocks.length; omega)
  have hcycle := hchoice.isCycle hlocks.nodup hne
  have hlow : FromLowest (cycleOrders facts) start (choice.map (·.firstLockId)) :=
    hchoice.firsts ▸ hlocks.lowest
  have hclosing := mem_walkClosings.mpr ⟨hcycle, hlow, hdead.parallel⟩
  obtain ⟨twin, ht, hkey⟩ :=
    List.mem_map.mp (h.key start hstart hcut choice hclosing hdead.ungated haddress)
  refine ⟨twin, ht, ?_⟩
  obtain ⟨start', _, hclosing'⟩ := h.closed twin ht
  obtain ⟨htwin, hlow', _⟩ := mem_walkClosings.mp hclosing'
  have hperm := htwin.perm_of_cycleKey_eq hcycle hclean hkey
  have hfirsts : ∀ {orders others : List LockOrderFact},
      (orders.map edgeText).Perm (others.map edgeText) →
        orders.map (·.firstLockId) ⊆ others.map (·.firstLockId) := by
    intro orders others hp lockId hl
    obtain ⟨order, ho, rfl⟩ := List.mem_map.mp hl
    obtain ⟨other, hm, htext⟩ := List.mem_map.mp (hp.subset (List.mem_map_of_mem ho))
    simp only [edgeText, Prod.mk.injEq, String.toList_inj] at htext
    exact List.mem_map.mpr ⟨other, hm, htext.1⟩
  have hsame := hlow'.unique hlow (hfirsts hperm) (hfirsts hperm.symm)
  subst hsame
  rw [htwin.firsts_eq hcycle hperm hlow' hlow, hchoice.firsts]
  exact decide_eq_true (List.IsRotated.refl _)

end Report

-- The report on a lock whose walk was not cut holds, once each, the cycles of which it is the lowest
-- lock and that some choice of orders makes deadlock, and no other. A choice made of lower addresses
-- first counts only when another walk was cut.
theorem cycles_reported_once (facts : TUFacts) (hclean : CleanOrders (cycleOrders facts))
    (start : Nat) (hstart : start < (buildLockGraph (cycleOrders facts)).length)
    (hcut : walkCut facts start = false) :
    (∀ locks, ElementaryCycle (cycleOrders facts) start locks →
      (run facts).diagnostics.countP (reportsCycle locks) ≤ 1 ∧
      ((run facts).diagnostics.countP (reportsCycle locks) = 1 ↔
        (∃ choice, IsChoice (cycleOrders facts) locks choice ∧ MayDeadlock facts choice ∧
          isAddressOrdered choice = false) ∨
        ((∃ other < (buildLockGraph (cycleOrders facts)).length, other ≠ start ∧
            walkCut facts other = true) ∧
          ∃ choice, IsChoice (cycleOrders facts) locks choice ∧ MayDeadlock facts choice))) ∧
    (∀ diagnostic ∈ (run facts).diagnostics, ∀ locks,
      diagnostic.propertyAt "cycleLocks" = some (.texts locks) →
        ∃ lowest, ElementaryCycle (cycleOrders facts) lowest locks) ∧
    (∀ (other : Nat) (state : WalkState),
      (walkFrom facts (buildLockGraph (cycleOrders facts)) other state).2.path = state.path ∧
        (walkFrom facts (buildLockGraph (cycleOrders facts)) other state).2.onPath =
          state.onPath) ∧
    (cycleSearchLimitReached ∈ (run facts).notices ↔
      ∃ other < (buildLockGraph (cycleOrders facts)).length, walkCut facts other = true) := by
  obtain ⟨reported, h⟩ := exists_reported facts
  have hother : SomeWalkCut facts ↔
      ∃ other < (buildLockGraph (cycleOrders facts)).length, other ≠ start ∧
        walkCut facts other = true := by
    constructor
    · rintro ⟨other, hlt, hc⟩
      refine ⟨other, hlt, ?_, hc⟩
      rintro rfl
      rw [hcut] at hc
      cases hc
    · rintro ⟨other, hlt, _, hc⟩
      exact ⟨other, hlt, hc⟩
  rw [← hother]
  refine ⟨?_, ?_, fun other state => walkFrom_path facts other _ state, ?_⟩
  · intro locks hlocks
    have hle := h.count_le_one hlocks
    refine ⟨hle, fun hone => ?_, ?_⟩
    · have hpos : 0 < (run facts).diagnostics.countP (reportsCycle locks) := by omega
      rw [h.countP_reportsCycle, List.countP_pos_iff] at hpos
      obtain ⟨cycle, hc, hrot⟩ := hpos
      obtain ⟨hchoice, hdead⟩ := h.isChoice hlocks hc (of_decide_eq_true hrot)
      cases ha : isAddressOrdered cycle with
      | false => exact Or.inl ⟨cycle, hchoice, hdead, ha⟩
      | true => exact Or.inr ⟨h.address cycle hc ha, cycle, hchoice, hdead⟩
    · rintro (⟨choice, hchoice, hdead, ha⟩ | ⟨hsome, choice, hchoice, hdead⟩)
      · have hpos := h.count_pos hclean hstart hcut hlocks hchoice hdead
          (fun h => by rw [ha] at h; cases h)
        omega
      · have hpos := h.count_pos hclean hstart hcut hlocks hchoice hdead (fun _ => hsome)
        omega
  · intro diagnostic hd locks hp
    rw [h.diagnostics_run, List.mem_append] at hd
    rcases hd with hd | hd
    · obtain ⟨fact, _, rfl⟩ := List.mem_map.mp hd
      rw [propertyAt_selfDeadlock] at hp
      cases hp
    · obtain ⟨cycle, hc, rfl⟩ := List.mem_map.mp hd
      rw [propertyAt_cycleLocks] at hp
      cases hp
      obtain ⟨lowest, _, hclosing⟩ := h.closed cycle hc
      exact ⟨lowest, elementaryCycle_of_closing hclosing⟩
  · have hcomplete := complete_iff facts
    simp only [run, reportDeadlockingCycles]
    by_cases hsome : SomeWalkCut facts
    · have hdone := Bool.eq_false_iff.mpr fun hdone => hcomplete.mp hdone hsome
      simp only [hdone, Bool.false_eq_true, if_false, List.mem_singleton, true_iff]
      exact hsome
    · have hdone := hcomplete.mpr hsome
      simp only [hdone, if_true, List.not_mem_nil, false_iff]
      exact hsome

-- Two functions, each a thread's, that take two locks in opposite orders.
def inversion : TUFacts where
  lockOrders := [
    { functionId := "f", firstLockId := "a", secondLockId := "b", heldLocks := {"a"} },
    { functionId := "g", firstLockId := "b", secondLockId := "a", heldLocks := {"b"} }]
  reachableThreadEntriesByFunction := fun functionId =>
    if functionId = "f" then some {"f"} else if functionId = "g" then some {"g"} else none

theorem inversion_reported_once :
    (run inversion).diagnostics.countP (reportsCycle ["a", "b"]) = 1 := by
  have hclean : CleanOrders (cycleOrders inversion) := by
    unfold CleanOrders CleanLockId CleanField
    decide
  have hchoice : IsChoice (cycleOrders inversion) ["a", "b"] (cycleOrders inversion) :=
    ⟨by decide, by decide, by decide⟩
  have hlocks : ElementaryCycle (cycleOrders inversion) 0 ["a", "b"] :=
    ⟨⟨[1], by decide, by decide⟩, by decide, by decide, ⟨_, hchoice⟩⟩
  have hdead : MayDeadlock inversion (cycleOrders inversion) :=
    ⟨by unfold Parallel; decide, by decide⟩
  exact (((cycles_reported_once inversion hclean 0 (by decide) (by decide +kernel)).1 _ hlocks).2).mpr
    (Or.inl ⟨_, hchoice, hdead, by decide⟩)

section Gates

variable {facts : TUFacts} {cycle : List LockOrderFact}

-- A lock every order of an ungated cycle holds is one of the cycle's own.
theorem mem_cycleLocks_of_ungated (hungated : hasCommonGateLock cycle = false)
    (hnonempty : cycle ≠ []) {lock : String} (hheld : ∀ order ∈ cycle, lock ∈ order.heldLocks) :
    lock ∈ cycleLocks cycle := by
  by_contra hout
  have hgate : hasCommonGateLock cycle = true := by
    refine (hasCommonGateLock_iff cycle).mpr ⟨hnonempty, lock, ?_⟩
    intro order ho
    exact Finset.mem_filter.mpr ⟨hheld order ho, hout⟩
  rw [hungated] at hgate
  cases hgate

-- The locks of an inversion are the first locks of its two orders.
theorem cycleLocks_inversion {first second : LockOrderFact} {edges : List LockOrderFact}
    (hcycle : IsCycle edges [first, second]) :
    cycleLocks [first, second] = {first.firstLockId, second.firstLockId} := by
  have hclosed : [first.secondLockId, second.secondLockId] =
      [second.firstLockId, first.firstLockId] := by simpa using hcycle.closed
  simp only [List.cons.injEq, and_true] at hclosed
  ext lock
  simp only [cycleLocks, List.map_cons, List.map_nil, hclosed.1, hclosed.2, List.mem_toFinset,
    List.mem_append, List.mem_cons, List.not_mem_nil, or_false, Finset.mem_insert,
    Finset.mem_singleton]
  tauto

end Gates

-- Each reported cycle is a choice of orders that may be taken in parallel and that share no gate: no
-- lock but the cycle's own is held at all of them, so two orders of an inversion share none.
theorem reported_cycles_ungated (facts : TUFacts) :
    ∃ reported : List (List LockOrderFact),
      (run facts).diagnostics = (selfDeadlocks facts).map selfDeadlockDiagnostic ++
        reported.map (cycleDiagnostic · facts) ∧
      ∀ cycle ∈ reported, IsCycle (cycleOrders facts) cycle ∧ cycle.Pairwise (Parallel facts) ∧
        (∀ lock, (∀ order ∈ cycle, lock ∈ order.heldLocks) → lock ∈ cycleLocks cycle) ∧
        ∀ first second, cycle = [first, second] → ∀ lock ∈ first.heldLocks,
          lock ∈ second.heldLocks → lock = first.firstLockId ∨ lock = second.firstLockId := by
  obtain ⟨reported, h⟩ := exists_reported facts
  refine ⟨reported, h.diagnostics_run, ?_⟩
  intro cycle hc
  obtain ⟨start, _, hclosing⟩ := h.closed cycle hc
  obtain ⟨hcycle, _, hpair⟩ := mem_walkClosings.mp hclosing
  have hown : ∀ lock, (∀ order ∈ cycle, lock ∈ order.heldLocks) → lock ∈ cycleLocks cycle :=
    fun _ => mem_cycleLocks_of_ungated (h.ungated cycle hc) hcycle.nonempty
  refine ⟨hcycle, hpair, hown, ?_⟩
  rintro first second rfl lock hfirst hsecond
  have hmem := hown lock (by simp [hfirst, hsecond])
  rw [cycleLocks_inversion hcycle, Finset.mem_insert, Finset.mem_singleton] at hmem
  exact hmem

-- Three threads close a cycle of three locks, two of them under one more lock.
def gatedPair : TUFacts where
  lockOrders := [
    { functionId := "f", firstLockId := "a", secondLockId := "b", heldLocks := {"a", "outer"} },
    { functionId := "g", firstLockId := "b", secondLockId := "c", heldLocks := {"b", "outer"} },
    { functionId := "h", firstLockId := "c", secondLockId := "a", heldLocks := {"c"} }]
  reachableThreadEntriesByFunction := fun functionId =>
    if functionId = "f" ∨ functionId = "g" ∨ functionId = "h" then some {functionId} else none

-- The two orders under the further lock exclude each other, and the cycle is reported.
theorem outer_lock_of_two_orders : ¬∀ facts : TUFacts,
    ∃ reported : List (List LockOrderFact),
      (run facts).diagnostics = (selfDeadlocks facts).map selfDeadlockDiagnostic ++
        reported.map (cycleDiagnostic · facts) ∧
      ∀ cycle ∈ reported, IsCycle (cycleOrders facts) cycle ∧
        cycle.Pairwise fun order other => Disjoint order.heldLocks other.heldLocks := by
  intro h
  obtain ⟨reported, hdiagnostics, hdisjoint⟩ := h gatedPair
  have hshown : (run gatedPair).diagnostics.map (·.propertyAt "cycleLocks") =
      [some (.texts ["a", "b", "c"])] := by decide +kernel
  have hself : selfDeadlocks gatedPair = [] := by decide
  rw [hdiagnostics, hself, List.map_nil, List.nil_append, List.map_map] at hshown
  obtain ⟨cycle, rfl⟩ := List.length_eq_one_iff.mp (by simpa using congrArg List.length hshown)
  obtain ⟨hcycle, hpair⟩ := hdisjoint cycle (List.mem_singleton_self cycle)
  have hfirsts : cycle.map (·.firstLockId) = ["a", "b", "c"] := by
    simpa [propertyAt_cycleLocks] using hshown
  have horders : ∀ order ∈ cycleOrders gatedPair, order.firstLockId = "a" ∨ order.firstLockId = "b" →
      "outer" ∈ order.heldLocks := by decide
  obtain ⟨first, rest, rfl, hfirst, hrest⟩ := List.map_eq_cons_iff.mp hfirsts
  obtain ⟨second, others, rfl, hsecond, _⟩ := List.map_eq_cons_iff.mp hrest
  have houter := horders first (hcycle.mem first (by simp)) (Or.inl hfirst)
  have houter' := horders second (hcycle.mem second (by simp)) (Or.inr hsecond)
  exact Finset.disjoint_left.mp ((List.pairwise_cons.mp hpair).1 second (by simp)) houter houter'

end ConcurrencyAnalyzer.LockOrder
