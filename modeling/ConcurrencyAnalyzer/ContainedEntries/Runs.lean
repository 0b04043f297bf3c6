import ConcurrencyAnalyzer.ThreadCompletion.PathTheorems
import ConcurrencyAnalyzer.ThreadLifecycle.Paths
import ConcurrencyAnalyzer.ContainedEntries.Occurrences

namespace ConcurrencyAnalyzer.ThreadCompletion

open Program Library Relation

section Paths

variable {graph : FlowGraph} {completions : List JoinSuccess} {first middle last point : Point}

theorem Uncompleted.trans (h : Uncompleted graph completions first middle)
    (hrest : Uncompleted graph completions middle last) : Uncompleted graph completions first last := by
  induction hrest with
  | start => exact h
  | move _ htakes hnot ih => exact ih.move htakes hnot

theorem Uncompleted.follows (h : Uncompleted graph completions first last) :
    ReflTransGen graph.Follows first last := by
  induction h with
  | start => exact .refl
  | move _ htakes _ ih => exact ih.tail ⟨_, htakes⟩

theorem not_completes_nil {move : Move} : ¬Completes graph [] move := by
  cases move <;> simp [Completes]

theorem Uncompleted.goes_on (h : Uncompleted graph [] first middle)
    (hrest : ReflTransGen graph.Follows middle last) : Uncompleted graph [] first last := by
  induction hrest with
  | refl => exact h
  | tail _ hstep ih =>
      obtain ⟨move, htakes⟩ := hstep
      exact ih.move htakes not_completes_nil

-- What moves past a point stands there.
theorem at_of_completes {move : Move} {before after : Point} (htakes : graph.Takes move before after)
    (h : Completes graph [.after point] move) : before = point := by
  cases htakes with
  | onward _ => simpa [Completes] using h
  | edge _ => simpa [Completes] using (show _ ∨ _ from h).resolve_right (by simp) |>.1

-- A way goes past no point but one that leads on to its end.
theorem Uncompleted.past_or (point : Point) (h : Uncompleted graph [] first last) :
    Uncompleted graph [.after point] first last ∨ TransGen graph.Follows point last := by
  induction h with
  | start => exact .inl .start
  | @move before after move _ htakes _ ih =>
      rcases ih with hclear | hpast
      · by_cases hcompletes : Completes graph [.after point] move
        · right
          rw [← at_of_completes htakes hcompletes]
          exact .single ⟨move, htakes⟩
        · exact .inl (hclear.move htakes hcompletes)
      · exact .inr (hpast.tail ⟨move, htakes⟩)

end Paths

section Invokes

variable {graph : FlowGraph} {point first last : Point} {normal index : Nat}

-- Only the invoke goes on to where it goes on to.
structure OnlyEntered (graph : FlowGraph) (point : Point) (normal : Nat) : Prop where
  inner : normal ≠ 0
  edge : ∀ block unwinds, (normal, unwinds) ∈ (graph.exit block).edges → block = point.block ∧ unwinds = false

-- A way that does not go past the invoke does not come to where it goes on to.
theorem Uncompleted.stays_out (hnormal : graph.normalDest point = some normal)
    (honly : OnlyEntered graph point normal) (hfirst : first.block ≠ normal)
    (h : Uncompleted graph [.after point] first last) :
    last.block ≠ normal ∧ Uncompleted graph [.after ⟨normal, index⟩] first last := by
  induction h with
  | start => exact ⟨hfirst, .start⟩
  | @move before after move _ htakes hnot ih =>
      refine ⟨?_, ih.2.move htakes ?_⟩
      · cases htakes with
        | onward _ => exact ih.1
        | @edge block successor unwinds hedge =>
            rintro rfl
            obtain ⟨rfl, rfl⟩ := honly.edge block unwinds hedge
            exact hnot (.inl ⟨by simp [(FlowGraph.normalDest_eq_some hnormal).1.symm], rfl⟩)
      · intro hcompletes
        exact ih.1 (congrArg Point.block (at_of_completes htakes hcompletes))

theorem reaches_of_clear {completions : List JoinSuccess} {block : Nat}
    (hclear : ∀ index, .after ⟨block, index⟩ ∉ completions) (remaining : Nat) :
    reaches graph completions none block remaining =
      if graph.exit block = .ret then none
      else some ((graph.successors block).filter fun successor => .branch block successor ∉ completions) := by
  induction remaining with
  | zero => simp [reaches]
  | succ remaining ih =>
      rw [reaches]
      simp [hclear, ih]

theorem successor_lt_of_reaches_list {completions : List JoinSuccess} {point : Option Point} {block remaining : Nat}
    {next : List Nat} (h : reaches graph completions point block remaining = some next) :
    ∀ successor ∈ next, successor < graph.blocks.length := by
  induction remaining with
  | zero =>
      unfold reaches at h
      split at h
      · cases h
      · intro successor hsuccessor
        rw [← Option.some_inj.mp h] at hsuccessor
        exact FlowGraph.successor_lt (List.mem_of_mem_filter hsuccessor)
  | succ remaining ih =>
      unfold reaches at h
      dsimp only at h
      split at h
      · cases h
      · split at h
        · intro successor hsuccessor
          rw [← Option.some_inj.mp h, Option.mem_toList] at hsuccessor
          exact (FlowGraph.mem_edges_lt (FlowGraph.unwindDest_eq_some hsuccessor).2.1).2
        · exact ih h

-- A search that ends where an invoke goes on to finds every way that the invoke is not gone past on.
theorem completed_of_normalDest (hinside : point.index < graph.length point.block)
    (hnormal : graph.normalDest point = some normal) (honly : OnlyEntered graph point normal)
    (houter : point.block ≠ normal)
    (h : completedOnEveryPath graph point [.after ⟨normal, index⟩] none = true)
    (huncompleted : Uncompleted graph [.after point] point last) : ¬Ends graph none last := by
  obtain ⟨hlast, hedge⟩ := FlowGraph.normalDest_eq_some hnormal
  have hclear {block : Nat} (hblock : block ≠ normal) (other : Nat) :
      JoinSuccess.after ⟨block, other⟩ ∉ [JoinSuccess.after ⟨normal, index⟩] := by
    simp [hblock]
  have hbranch (block successor : Nat) :
      JoinSuccess.branch block successor ∉ [JoinSuccess.after ⟨normal, index⟩] := by simp
  have hexit {block successor : Nat} {unwinds : Bool}
      (hsuccessor : (successor, unwinds) ∈ (graph.exit block).edges) : graph.exit block ≠ .ret := by
    intro hret
    rw [hret] at hsuccessor
    cases hsuccessor
  unfold completedOnEveryPath at h
  rw [reaches_of_clear (hclear houter), if_neg (hexit hedge)] at h
  dsimp only at h
  set roots := (graph.successors point.block).filter fun successor =>
    decide (JoinSuccess.branch point.block successor ∉ [JoinSuccess.after ⟨normal, index⟩]) with hroots
  have hlt : ∀ root ∈ roots, root ∈ Finset.range graph.blocks.length := fun root hroot =>
    Finset.mem_range.mpr (FlowGraph.successor_lt (List.mem_of_mem_filter hroot))
  have honward (block : Nat) :
      ∀ successor ∈ Search.onward (reachesBlock graph [.after ⟨normal, index⟩] none) block,
        successor ∈ Finset.range graph.blocks.length := by
    intro successor hsuccessor
    unfold Search.onward reachesBlock at hsuccessor
    cases hvisit : reaches graph [.after ⟨normal, index⟩] none block (graph.length block) with
    | none => simp [hvisit] at hsuccessor
    | some next =>
        rw [hvisit, Option.getD_some] at hsuccessor
        exact Finset.mem_range.mpr (successor_lt_of_reaches_list hvisit _ hsuccessor)
  rw [Search.probe_roots_iff (Finset.range graph.blocks.length) honward hlt (Finset.card_range _).le] at h
  have hvisit {block : Nat} (hblock : block ≠ normal) :
      reachesBlock graph [.after ⟨normal, index⟩] none block = _ :=
    reaches_of_clear (hclear hblock) (graph.length block)
  -- past the invoke, each way is in blocks the search finds
  have hfound : last = point ∨ (last.block ≠ normal ∧
      Search.Found (reachesBlock graph [.after ⟨normal, index⟩] none) roots last.block) := by
    induction huncompleted with
    | start => exact .inl rfl
    | @move before after move _ htakes hnot ih =>
        right
        cases htakes with
        | onward _ =>
            rcases ih with rfl | hrest
            · exact absurd (by simp [Completes]) hnot
            · exact hrest
        | @edge block successor unwinds hsuccessor =>
            have hentered : successor ≠ normal := by
              rintro rfl
              obtain ⟨rfl, rfl⟩ := honly.edge block unwinds hsuccessor
              exact hnot (.inl ⟨by simp [hlast.symm], rfl⟩)
            refine ⟨hentered, ?_⟩
            have hnext : successor ∈ (graph.successors block).filter fun successor =>
                decide (JoinSuccess.branch block successor ∉ [JoinSuccess.after ⟨normal, index⟩]) :=
              List.mem_filter.mpr ⟨List.mem_map_of_mem hsuccessor, decide_eq_true (hbranch _ _)⟩
            rcases ih with hstart | ⟨hblock, hbefore⟩
            · obtain rfl : block = point.block := congrArg Point.block hstart
              exact .root hnext
            · exact hbefore.step ((hvisit hblock).trans (if_neg (hexit hsuccessor))) hnext
  rintro (hnone | ⟨-, hret, -⟩)
  · cases hnone
  · rcases hfound with rfl | ⟨hblock, hreached⟩
    · exact hexit hedge hret
    · exact h _ hreached ((hvisit hblock).trans (if_pos hret))

end Invokes

end ConcurrencyAnalyzer.ThreadCompletion

namespace ConcurrencyAnalyzer.ContainedEntries

open Program ThreadCompletion Library Relation

section Graphs

variable {function : Function} {placed : PlacedCall} {point : Point} {block : Nat}

theorem graph_length : function.graph.length block =
    (function.blocks[block]?.map (·.instructions.length)).getD 0 := by
  unfold FlowGraph.length Function.graph
  rw [List.getElem?_map, Option.map_map]
  rfl

theorem graph_exit : function.graph.exit block = (function.blocks[block]?.map (·.exit)).getD .ret := by
  unfold FlowGraph.exit Function.graph
  rw [List.getElem?_map, Option.map_map]
  rfl

theorem inside_of_mem (h : placed ∈ function.calls) :
    placed.point.index < function.graph.length placed.point.block := by
  obtain ⟨block, hblock, hinstruction⟩ := mem_calls.mp h
  rw [graph_length, hblock]
  exact (List.getElem?_eq_some_iff.mp hinstruction).1

-- A call stands where a function goes on.
theorem placed_after (h : placed ∈ function.calls) : PlacedSuccess function.graph (.after placed.point) where
  ofBranch _ _ hsame := by cases hsame
  notReturn point hsame hlast hret := by
    obtain rfl := JoinSuccess.after.inj hsame
    obtain ⟨block, hblock, hinstruction⟩ := mem_calls.mp h
    rw [graph_length, hblock, Option.map_some, Option.getD_some] at hlast
    rw [graph_exit, hblock, Option.map_some, Option.getD_some] at hret
    have hplain := block.returnsPlainly hret
    rw [List.getLast?_eq_getElem?, ← hlast, Nat.add_sub_cancel, hinstruction] at hplain
    cases hplain

theorem reached_inside {start : Point} (hstart : Uncompleted function.graph [] start ⟨block, 0⟩) {index : Nat}
    (hindex : index < function.graph.length block) : Uncompleted function.graph [] start ⟨block, index⟩ := by
  induction index with
  | zero => exact hstart
  | succ index ih => exact (ih (by omega)).move (.onward hindex) not_completes_nil

-- The blocks the search finds are those the entry leads to.
theorem reached_of_reachable (h : block ∈ function.reachable) :
    Uncompleted function.graph [] ⟨0, 0⟩ ⟨block, 0⟩ := by
  refine Search.search_sound (P := fun block => Uncompleted function.graph [] ⟨0, 0⟩ ⟨block, 0⟩) ?_ _ {0} [0]
    ?_ ?_ block h
  · intro block hblock successor hsuccessor
    obtain ⟨⟨_, unwinds⟩, hedge, rfl⟩ := List.mem_map.mp hsuccessor
    have hpos := FlowGraph.length_pos_iff.mpr (FlowGraph.mem_edges_lt hedge).1
    exact (reached_inside hblock (Nat.sub_lt hpos Nat.one_pos)).move (.edge hedge) not_completes_nil
  · intro block hblock
    rw [Finset.mem_singleton.mp hblock]
    exact .start
  · intro block hblock
    rw [List.mem_singleton.mp hblock]
    exact .start

theorem reachable_of_reached (h : Uncompleted function.graph [] ⟨0, 0⟩ point) :
    point.block ∈ function.reachable := by
  induction h with
  | start => exact Search.zero_mem_reached _ _
  | move _ htakes _ ih =>
      cases htakes with
      | onward _ => exact ih
      | edge hedge =>
          refine Search.next_mem_reached (fun _ successor hsuccessor => ?_) ih (List.mem_map_of_mem hedge)
          have hlt := FlowGraph.successor_lt hsuccessor
          rwa [Function.graph, List.length_map] at hlt

theorem reached_of_mem (h : placed ∈ function.reachableCalls) :
    Uncompleted function.graph [] ⟨0, 0⟩ placed.point := by
  obtain ⟨hcall, hblock⟩ := mem_reachableCalls.mp h
  exact reached_inside (reached_of_reachable hblock) (inside_of_mem hcall)

end Graphs

section Steps

-- An activation of a function. `bound` is what the analysis makes of its arguments, and `started` has the
-- threads it started, itself or by what it called, each with the call of it that did.
structure Activation where
  function : Function
  bound : Bindings := []
  point : Point := ⟨0, 0⟩
  calledDirectly : Bool := false
  unwinding : Bool := false
  started : List (Point × Nat) := []

-- Innermost activation first. `traced` says that the analysis reads the entry where the thread is started.
structure Thread where
  entry : String
  traced : Bool
  activations : List Activation

def Thread.Running (thread : Thread) : Prop := thread.activations ≠ []

def Activation.AtCall (act : Activation) (call : Call) : Prop := ⟨act.point, call⟩ ∈ act.function.calls

-- What an activation has started once one it called is left.
def Activation.carry (outer inner : Activation) : List (Point × Nat) :=
  if inner.calledDirectly then outer.started ++ inner.started.map fun start => (outer.point, start.2)
  else outer.started

variable (module : Module) (completions : ThreadCompletionMap)

-- A completion is gone past only when what its call started, in that activation, has ended.
def Waits (process : List Thread) (act : Activation) (move : Move) : Prop :=
  ∀ place number, (place, number) ∈ act.started →
    ∀ success, completions ⟨act.function.id, place⟩ = some success →
    Completes act.function.graph [success] move → ∀ thread, process[number]? = some thread → ¬thread.Running

-- One step of a thread. Code outside the module may come back to what it has the address of, any call may
-- throw, and a thread may end anywhere. The call of a creation or a constructor that starts a thread is not
-- followed.
inductive StackStep (process : List Thread) : List Activation → List Activation → Prop
  | move {act rest move next} : act.unwinding = false → act.function.graph.Takes move act.point next →
      Waits completions process act move →
      StackStep process (act :: rest) ({ act with point := next } :: rest)
  | call {act rest call callee} : act.unwinding = false → act.AtCall call → isSpawn call.kind = false →
      call.directCallee = some callee.id → callee ∈ module.functions →
      StackStep process (act :: rest)
        ({ function := callee, bound := boundBy call act.bound, calledDirectly := true } :: act :: rest)
  | callOut {act rest call callee} : act.unwinding = false → act.AtCall call → callee ∈ module.functions →
      callee.hasAddressTaken = true → StackStep process (act :: rest) ({ function := callee } :: act :: rest)
  | raise {act rest call} : act.AtCall call → act.function.graph.normalDest act.point = none →
      StackStep process (act :: rest) ({ act with unwinding := true } :: rest)
  | back {inner outer rest move next} : inner.unwinding = false → inner.calledDirectly = true →
      Ends inner.function.graph none inner.point → outer.function.graph.Takes move outer.point next →
      Completes outer.function.graph [.after outer.point] move → Waits completions process outer move →
      StackStep process (inner :: outer :: rest) ({ outer with point := next, started := outer.carry inner } :: rest)
  | backOut {inner outer rest} : inner.unwinding = false → inner.calledDirectly = false →
      Ends inner.function.graph none inner.point → StackStep process (inner :: outer :: rest) (outer :: rest)
  | caught {inner outer rest block unwind next} : inner.unwinding = true →
      outer.function.graph.Takes (.edge block unwind true) outer.point next →
      Waits completions process outer (.edge block unwind true) →
      StackStep process (inner :: outer :: rest) ({ outer with point := next, started := outer.carry inner } :: rest)
  | unwind {inner outer rest} : inner.unwinding = true → outer.function.graph.normalDest outer.point = none →
      StackStep process (inner :: outer :: rest)
        ({ outer with unwinding := true, started := outer.carry inner } :: rest)
  | exit {activations} : StackStep process activations []

def Thread.starts (thread : Thread) (act : Activation) (rest : List Activation) (number : Nat) : Thread :=
  { thread with activations := { act with started := act.started ++ [(act.point, number)] } :: rest }

def started (act : Activation) (call : Call) (entry : Function) : Thread where
  entry := entry.id
  traced := spawnEntry call act.bound = some entry.id
  activations := [{ function := entry }]

-- One step of a process: of one of its threads, or the start of another.
inductive Step : List Thread → List Thread → Prop
  | run {process : List Thread} {number thread activations} : process[number]? = some thread →
      StackStep module completions process thread.activations activations →
      Step process (process.set number { thread with activations := activations })
  | start {process : List Thread} {number thread act rest call entry} : process[number]? = some thread →
      thread.activations = act :: rest → act.unwinding = false → act.AtCall call → isSpawn call.kind = true →
      handsOver act.function call = false → entry ∈ module.functions → entry.hasAddressTaken = true →
      Step process (process.set number (thread.starts act rest process.length) ++ [started act call entry])

-- The threads a process begins with.
def begun (initial : List Function) : List Thread :=
  initial.map fun function => { entry := function.id, traced := false, activations := [{ function := function }] }

def Reached (initial : List Function) (process : List Thread) : Prop :=
  ReflTransGen (Step module completions) (begun initial) process

end Steps

section Stacks

-- How an activation was entered from those below it.
def Enters (Base : Function → Prop) (act : Activation) : List Activation → Prop
  | [] => act.calledDirectly = false ∧ act.bound = [] ∧ Base act.function
  | outer :: _ => outer.unwinding = false ∧
      if act.calledDirectly then
        ∃ call, outer.AtCall call ∧ isSpawn call.kind = false ∧ call.directCallee = some act.function.id ∧
          act.bound = boundBy call outer.bound
      else act.bound = [] ∧ act.function.hasAddressTaken = true

inductive Stacked (module : Module) (Base : Function → Prop) : List Activation → Prop
  | nil : Stacked module Base []
  | cons {act rest} : act.function ∈ module.functions →
      Uncompleted act.function.graph [] ⟨0, 0⟩ act.point → Enters Base act rest → Stacked module Base rest →
      Stacked module Base (act :: rest)

variable {module : Module} {completions : ThreadCompletionMap} {Base : Function → Prop}
  {act : Activation} {rest before after : List Activation} {occurrence : Occurrence}

theorem Stacked.under (h : Stacked module Base (act :: rest)) : Stacked module Base rest := by
  cases h
  assumption

theorem Stacked.split {upper : List Activation} (h : Stacked module Base (upper ++ act :: rest)) :
    Stacked module Base (act :: rest) := by
  induction upper with
  | nil => exact h
  | cons _ upper ih => exact ih h.under

-- The top of a stack goes on in its function.
theorem Stacked.top (h : Stacked module Base (act :: rest)) {changed : Activation}
    (hfunction : changed.function = act.function) (hbound : changed.bound = act.bound)
    (hdirectly : changed.calledDirectly = act.calledDirectly)
    (hreached : ReflTransGen act.function.graph.Follows act.point changed.point) :
    Stacked module Base (changed :: rest) := by
  cases h with
  | cons hmem hbegun henters hrest =>
      refine .cons (hfunction ▸ hmem) ?_ ?_ hrest
      · rw [hfunction]
        exact hbegun.goes_on hreached
      · unfold Enters at henters ⊢
        rwa [hfunction, hbound, hdirectly]

theorem Stacked.step {process : List Thread} (hstep : StackStep module completions process before after)
    (h : Stacked module Base before) : Stacked module Base after := by
  cases hstep with
  | move _ htakes _ => exact h.top rfl rfl rfl (.single ⟨_, htakes⟩)
  | call hrunning hcall hplain hcallee hmem =>
      refine .cons hmem .start ⟨hrunning, ?_⟩ h
      rw [if_pos rfl]
      exact ⟨_, hcall, hplain, hcallee, rfl⟩
  | callOut hrunning _ hmem haddress =>
      refine .cons hmem .start ⟨hrunning, ?_⟩ h
      rw [if_neg (by simp)]
      exact ⟨rfl, haddress⟩
  | raise _ _ => exact h.top rfl rfl rfl .refl
  | back _ _ _ htakes _ _ => exact h.under.top rfl rfl rfl (.single ⟨_, htakes⟩)
  | backOut _ _ _ => exact h.under
  | caught _ htakes _ => exact h.under.top rfl rfl rfl (.single ⟨_, htakes⟩)
  | unwind _ _ => exact h.under.top rfl rfl rfl .refl
  | exit => exact .nil

-- The activation that only direct calls lead from to what is started, and the calls on the way.
def baseOf (module : Module) : Activation → List Activation → Occurrence → Function × Occurrence
  | act, [], occurrence => (act.function, occurrence)
  | act, outer :: rest, occurrence =>
      if act.calledDirectly then baseOf module outer rest (throughCall module outer.function outer.point occurrence)
      else (act.function, occurrence)

-- The call an activation made of the one above it.
theorem Enters.follows {outer : Activation} (h : Stacked module Base (act :: outer :: rest))
    (hdirectly : act.calledDirectly = true) :
    ∃ call, Follows module outer.function ⟨outer.point, call⟩ act.function ∧
      act.bound = boundBy call outer.bound := by
  cases h with
  | cons hmem _ henters hbelow =>
      cases hbelow with
      | cons _ hreached _ _ =>
          obtain ⟨-, hentered⟩ := henters
          rw [if_pos hdirectly] at hentered
          obtain ⟨call, hcall, hplain, hcallee, hbound⟩ := hentered
          have hplaced := mem_reachableCalls.mpr ⟨hcall, reachable_of_reached hreached⟩
          exact ⟨call, ⟨⟨hplaced, hcallee, hmem⟩, hplain⟩, hbound⟩

theorem base_spawns (hstack : Stacked module Base (act :: rest))
    (h : Spawns module completions act.function act.bound occurrence) :
    (baseOf module act rest occurrence).1 ∈ module.functions ∧
      Spawns module completions (baseOf module act rest occurrence).1 [] (baseOf module act rest occurrence).2 ∧
      (baseOf module act rest occurrence).2.entry = occurrence.entry ∧
      ((baseOf module act rest occurrence).1.hasAddressTaken = true ∨
        Base (baseOf module act rest occurrence).1) := by
  induction rest generalizing act occurrence with
  | nil =>
      cases hstack with
      | cons hmem _ henters _ =>
          obtain ⟨-, hbound, hbase⟩ := henters
          exact ⟨hmem, hbound ▸ h, rfl, .inr hbase⟩
  | cons outer rest ih =>
      unfold baseOf
      by_cases hdirectly : act.calledDirectly = true
      · obtain ⟨call, hfollows, hbound⟩ := Enters.follows hstack hdirectly
        rw [if_pos hdirectly]
        exact ih hstack.under (.through hfollows (hbound ▸ h))
      · rw [if_neg hdirectly]
        cases hstack with
        | cons hmem _ henters _ =>
            obtain ⟨-, hentered⟩ := henters
            rw [if_neg hdirectly] at hentered
            exact ⟨hmem, hentered.1 ▸ h, rfl, .inl hentered.2⟩

end Stacks

end ConcurrencyAnalyzer.ContainedEntries
