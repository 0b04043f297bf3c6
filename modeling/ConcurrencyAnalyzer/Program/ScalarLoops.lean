import ConcurrencyAnalyzer.Program.ScalarCalls

namespace ConcurrencyAnalyzer.Program

namespace ScalarFunction

variable (function : ScalarFunction)

def lengthOf (block : Nat) : Nat := (function.blocks[block]?.map (·.body.length)).getD 0

-- The end of a block, where its terminator is.
def endOf (block : Nat) : Point := ⟨block, function.lengthOf block⟩

-- The edges from the loop of a header back to it, by the blocks they leave.
def latchesOf (header : Nat) : List Nat :=
  (List.range function.blocks.length).flatMap fun block =>
    ((function.successors block).filter fun successor =>
      successor = header && function.inLoopOf header block).map fun _ => block

-- The only one, if there is only one.
def getLoopLatch (header : Nat) : Option Nat :=
  match function.latchesOf header with
  | [latch] => some latch
  | _ => none

end ScalarFunction

section Operands

-- Each result is of an instruction that runs before those that use it.
def DefinedBeforeUse (function : ScalarFunction) : Prop :=
  (∀ point instruction, function.instructionAt point = some instruction →
    ∀ used, .result used ∈ instruction.operands →
      (function.instructionAt used).isSome = true ∧ function.dominates used point = true) ∧
  ∀ block condition whenTrue whenFalse,
    function.terminatorOf block = some (.conditional condition whenTrue whenFalse) →
      ∀ used, condition = .result used →
        (function.instructionAt used).isSome = true ∧
          function.dominates used (function.endOf block) = true

def ScalarFunction.checksUse (function : ScalarFunction) (place : Point) : Operand → Bool
  | .result used => (function.instructionAt used).isSome && function.dominates used place
  | _ => true

def ScalarFunction.checksBranch (function : ScalarFunction) (block : Nat) : Bool :=
  match function.terminatorOf block with
  | some (.conditional condition _ _) => function.checksUse (function.endOf block) condition
  | _ => true

theorem DefinedBeforeUse.of_checks {function : ScalarFunction}
    (hinstructions : ∀ entry ∈ function.instructions, ∀ operand ∈ entry.2.operands,
      function.checksUse entry.1 operand = true)
    (hbranches : ∀ block < function.blocks.length, function.checksBranch block = true) :
    DefinedBeforeUse function := by
  constructor
  · intro point instruction hinstruction used hused
    have hcheck := hinstructions (point, instruction) (ScalarFunction.mem_instructions.mpr hinstruction)
      (.result used) hused
    unfold ScalarFunction.checksUse at hcheck
    rw [Bool.and_eq_true] at hcheck
    exact hcheck
  · rintro block condition whenTrue whenFalse hterminator used rfl
    have hblock : block < function.blocks.length := by
      unfold ScalarFunction.terminatorOf at hterminator
      obtain ⟨found, hfound, _⟩ := Option.map_eq_some_iff.mp hterminator
      exact (List.getElem?_eq_some_iff.mp hfound).1
    have hcheck := hbranches block hblock
    unfold ScalarFunction.checksBranch at hcheck
    rw [hterminator] at hcheck
    dsimp only at hcheck
    unfold ScalarFunction.checksUse at hcheck
    rw [Bool.and_eq_true] at hcheck
    exact hcheck

end Operands

section NaturalLoops

variable {function : ScalarFunction} {header block successor : Nat}

theorem ScalarFunction.block_lt_of_successor (h : successor ∈ function.successors block) :
    block < function.blocks.length ∧ successor < function.blocks.length := by
  unfold ScalarFunction.successors ScalarFunction.terminatorOf at h
  cases hfound : function.blocks[block]? with
  | none =>
      rw [hfound] at h
      exact absurd h List.not_mem_nil
  | some found =>
      rw [hfound] at h
      exact ⟨(List.getElem?_eq_some_iff.mp hfound).1,
        function.successorsExist found (List.mem_of_getElem? hfound) successor h⟩

theorem ScalarFunction.successorsPast_mem {stop : Nat} (hne : block ≠ stop) :
    function.skeleton.successorsPast stop block = function.successors block := by
  unfold Function.successorsPast
  rw [if_neg hne, ScalarFunction.skeleton_successors]

theorem ScalarFunction.successorsPast_lt (stop : Nat) (element : Nat) :
    ∀ next ∈ function.skeleton.successorsPast stop element, next < function.blocks.length := by
  intro next hnext
  by_cases heq : element = stop
  · unfold Function.successorsPast at hnext
    rw [if_pos heq] at hnext
    exact absurd hnext List.not_mem_nil
  · rw [ScalarFunction.successorsPast_mem heq] at hnext
    exact (ScalarFunction.block_lt_of_successor hnext).2

-- What a search from a block marks is what a path leads to that goes on past no block `stop`.
theorem ScalarFunction.reachesPast_iff {stop other : Nat} :
    function.reachesPast stop block other = true ↔
      Relation.ReflTransGen (fun before after => after ∈ function.skeleton.successorsPast stop before)
        block other := by
  unfold ScalarFunction.reachesPast
  rw [decide_eq_true_eq]
  constructor
  · intro hmem
    refine Library.Search.search_sound (P := fun found => Relation.ReflTransGen
      (fun before after => after ∈ function.skeleton.successorsPast stop before) block found)
      (fun before hbefore after hafter => hbefore.tail hafter) _ _ _ ?_ ?_ other hmem
    · intro found hfound
      rw [Finset.mem_singleton.mp hfound]
    · intro found hfound
      rw [List.mem_singleton.mp hfound]
  · intro hpath
    have hexplored : Library.Search.Explored (function.skeleton.successorsPast stop) (fun _ => true) ∅
        {block} [block] := by
      intro element helement
      exact .inl (by simpa using helement)
    have hrange (element : Nat) : ∀ next ∈ function.skeleton.successorsPast stop element,
        next ∈ Finset.range function.blocks.length :=
      fun next hnext => Finset.mem_range.mpr (ScalarFunction.successorsPast_lt stop element next hnext)
    have hfuel : [block].length + (Finset.range function.blocks.length \ {block}).card ≤
        function.blocks.length + 1 := by
      have hcard := Finset.card_le_card
        (Finset.sdiff_subset : Finset.range function.blocks.length \ {block} ⊆ _)
      rw [Finset.card_range] at hcard
      simp only [List.length_singleton]
      omega
    have hclosed := Library.Search.search_explored _ hrange _ _ _ hexplored hfuel
    induction hpath with
    | refl => exact Library.Search.subset_search _ _ _ _ _ (Finset.mem_singleton_self block)
    | tail _ hstep ih => exact hclosed _ (Finset.mem_union_left _ ih) _ hstep rfl

theorem ScalarFunction.inLoopOf_iff :
    function.inLoopOf header block = true ↔ block ∈ function.skeleton.reachable ∧
      ∃ latch, function.isBackEdge latch header = true ∧
        (block = header ∨ latch ≠ header ∧ function.reachesPast header block latch = true) := by
  unfold ScalarFunction.inLoopOf
  rw [Bool.and_eq_true, decide_eq_true_eq, List.any_eq_true]
  refine and_congr_right fun _ => ⟨?_, ?_⟩
  · rintro ⟨latch, _, hlatch⟩
    simp only [Bool.and_eq_true, Bool.or_eq_true, decide_eq_true_eq] at hlatch
    exact ⟨latch, hlatch.1, hlatch.2⟩
  · rintro ⟨latch, hback, hin⟩
    refine ⟨latch, ?_, ?_⟩
    · have hsuccessor : header ∈ function.successors latch := by
        unfold ScalarFunction.isBackEdge at hback
        simp only [Bool.and_eq_true, decide_eq_true_eq] at hback
        exact hback.1.1
      exact List.mem_range.mpr (ScalarFunction.block_lt_of_successor hsuccessor).1
    · simp only [Bool.and_eq_true, Bool.or_eq_true, decide_eq_true_eq]
      exact ⟨hback, hin⟩

-- A loop has its header in it.
theorem ScalarFunction.inLoopOf_header (h : function.inLoopOf header block = true) :
    function.inLoopOf header header = true := by
  obtain ⟨_, latch, hback, _⟩ := ScalarFunction.inLoopOf_iff.mp h
  refine ScalarFunction.inLoopOf_iff.mpr ⟨?_, latch, hback, .inl rfl⟩
  unfold ScalarFunction.isBackEdge at hback
  simp only [Bool.and_eq_true, decide_eq_true_eq] at hback
  refine Function.reachable_successor hback.1.2 ?_
  rw [ScalarFunction.skeleton_successors]
  exact hback.1.1

-- A loop is entered through its header.
theorem ScalarFunction.inLoop_of_successor (hreachable : block ∈ function.skeleton.reachable)
    (hsuccessor : successor ∈ function.successors block) (hne : successor ≠ header)
    (h : function.inLoopOf header successor = true) : function.inLoopOf header block = true := by
  obtain ⟨_, latch, hback, hin⟩ := ScalarFunction.inLoopOf_iff.mp h
  obtain ⟨hlatch, hpath⟩ := hin.resolve_left hne
  refine ScalarFunction.inLoopOf_iff.mpr ⟨hreachable, latch, hback, ?_⟩
  by_cases heq : block = header
  · exact .inl heq
  · refine .inr ⟨hlatch, ?_⟩
    rw [ScalarFunction.reachesPast_iff] at hpath ⊢
    refine Relation.ReflTransGen.head ?_ hpath
    rw [ScalarFunction.successorsPast_mem heq]
    exact hsuccessor

-- The entry is in no loop but one it is the header of.
theorem ScalarFunction.entry_not_inLoop (hne : header ≠ 0) : function.inLoopOf header 0 = false := by
  by_contra h
  rw [Bool.not_eq_false] at h
  obtain ⟨_, latch, hback, hin⟩ := ScalarFunction.inLoopOf_iff.mp h
  obtain ⟨hlatch, hpath⟩ := hin.resolve_left (Ne.symm hne)
  unfold ScalarFunction.isBackEdge at hback
  simp only [Bool.and_eq_true, decide_eq_true_eq] at hback
  have hdominates := hback.2
  simp only [Function.blockDominates, Bool.or_eq_true, decide_eq_true_eq] at hdominates
  have hnot := hdominates.resolve_left hlatch
  have hlength : function.skeleton.blocks.length = function.blocks.length := by
    unfold ScalarFunction.skeleton
    rw [List.length_map]
  unfold ScalarFunction.reachesPast at hpath
  rw [hlength] at hnot
  exact hnot (of_decide_eq_true hpath)

theorem ScalarFunction.latch_of_edge {latch : Nat} (hlatch : function.getLoopLatch header = some latch)
    (hsuccessor : header ∈ function.successors block) (hin : function.inLoopOf header block = true) :
    block = latch := by
  have hmem : block ∈ function.latchesOf header := by
    refine List.mem_flatMap.mpr ⟨block, ?_, List.mem_map.mpr ⟨header, ?_, rfl⟩⟩
    · exact List.mem_range.mpr (ScalarFunction.block_lt_of_successor hsuccessor).1
    · rw [List.mem_filter]
      simp [hsuccessor, hin]
  unfold ScalarFunction.getLoopLatch at hlatch
  split at hlatch
  · rename_i only hlatches
    rw [hlatches, List.mem_singleton] at hmem
    rw [hmem]
    exact Option.some.inj hlatch
  · cases hlatch

end NaturalLoops

-- A loop, with the test its header ends in, and the values that its counter is to start with, when it is
-- entered, and to end with, when it is tested.
structure WatchedLoop where
  header : Nat
  compare : Point
  lhs : Operand
  rhs : Operand
  begins : CallState → Nat
  ends : Nat → CallState → Nat

-- What has been seen of a loop: whether its header was entered, what has happened since it was last,
-- and, since the loop was last entered from outside, what its counter was to start with, what it was to
-- end with by the last test, and what its tests compared.
structure Watch where
  arrived : Bool := false
  since : List CallEvent := []
  start : Nat := 0
  finish : Nat := 0
  tests : List (Nat × Nat) := []
  deriving DecidableEq

section Watches

variable (function : ScalarFunction) (arguments : Nat → Nat) (loop : WatchedLoop)

def Watch.goes (watch : Watch) (state : CallState) (event : CallEvent) (block target : Nat) : Watch :=
  if target = loop.header then
    if function.inLoopOf loop.header block then { watch with arrived := true, since := [] }
    else { arrived := true, start := loop.begins state }
  else { watch with since := watch.since ++ [event] }

def Watch.after (watch : Watch) (state : CallState) : CallEvent → Watch
  | .ran point => { watch with
      since := watch.since ++ [.ran point]
      finish := if point = loop.compare then loop.ends watch.start state else watch.finish
      tests :=
        if point = loop.compare then
          watch.tests ++ [((state.value arguments loop.lhs).getD 0,
            (state.value arguments loop.rhs).getD 0)]
        else watch.tests }
  | .branched block taken target =>
      watch.goes function loop state (.branched block taken target) block target
  | .went block target => watch.goes function loop state (.went block target) block target

-- A call each step of which meets a condition, with what has been seen of the loop.
inductive Rounds (Meets : List CallEvent → Watch → CallState → CallEvent → Prop) :
    List CallEvent → CallState → Watch → Prop
  | enter : Rounds Meets [] .initial {}
  | step {events state watch event next} : Rounds Meets events state watch →
      CallStep function arguments state event next → Meets events watch state event →
      Rounds Meets (events ++ [event]) next (watch.after function arguments loop state event)

variable {function arguments loop} {Meets : List CallEvent → Watch → CallState → CallEvent → Prop}
  {events : List CallEvent} {state next : CallState} {watch : Watch} {event : CallEvent}

theorem Rounds.run (h : Rounds function arguments loop Meets events state watch) :
    CallRun function arguments events state := by
  induction h with
  | enter => exact .enter
  | step _ hstep _ ih => exact .step ih hstep

-- What a step does to what is seen of the loop.
theorem CallStep.watch_cases (hstep : CallStep function arguments state event next) (watch : Watch) :
    (event = .ran state.place ∧ next.place = ⟨state.place.block, state.place.index + 1⟩ ∧
      (watch.after function arguments loop state event).arrived = watch.arrived ∧
      (watch.after function arguments loop state event).since = watch.since ++ [.ran state.place] ∧
      (watch.after function arguments loop state event).start = watch.start) ∨
    (∃ target, target ∈ function.successors state.place.block ∧ next.place = ⟨target, 0⟩ ∧
      (∀ point, event ≠ .ran point) ∧ next.results = state.results ∧ next.slots = state.slots ∧
      watch.after function arguments loop state event =
        watch.goes function loop state event state.place.block target) := by
  rcases hstep.cases with ⟨rfl, _, hplace⟩ | ⟨found, target, hfound, _, htarget, hcrosses, hplace, hnot,
    hresults, hslots⟩
  · exact .inl ⟨rfl, hplace, rfl, rfl, rfl⟩
  · refine .inr ⟨target, ?_, hplace, hnot, hresults, hslots, ?_⟩
    · rw [ScalarFunction.successors_of_block hfound]
      exact htarget
    · rcases hcrosses with ⟨taken, hmem⟩ | hmem
      · rw [← List.mem_singleton.mp hmem]
        rfl
      · rw [← List.mem_singleton.mp hmem]
        rfl

theorem Watch.goes_again (loop : WatchedLoop) {block target : Nat} (htarget : target = loop.header)
    (hin : function.inLoopOf loop.header block = true) :
    watch.goes function loop state event block target = { watch with arrived := true, since := [] } := by
  unfold Watch.goes
  rw [if_pos htarget, if_pos hin]

theorem Watch.goes_in (loop : WatchedLoop) {block target : Nat} (htarget : target = loop.header)
    (hout : function.inLoopOf loop.header block = false) :
    watch.goes function loop state event block target =
      { arrived := true, start := loop.begins state } := by
  unfold Watch.goes
  rw [if_pos htarget, if_neg (Bool.not_eq_true _ ▸ hout)]

theorem Watch.goes_on (loop : WatchedLoop) {block target : Nat} (htarget : target ≠ loop.header) :
    watch.goes function loop state event block target =
      { watch with since := watch.since ++ [event] } := by
  unfold Watch.goes
  rw [if_neg htarget]

theorem Watch.since_of_header (loop : WatchedLoop) {block target : Nat}
    (htarget : target = loop.header) :
    (watch.goes function loop state event block target).since = [] := by
  unfold Watch.goes
  rw [if_pos htarget]
  split <;> rfl

-- A call leaves a block from its end.
theorem CallStep.at_end (hstep : CallStep function arguments state event next)
    (hnot : ∀ point, event ≠ .ran point) : state.place = function.endOf state.place.block := by
  rcases hstep.cases with ⟨heq, _, _⟩ | ⟨found, _, hfound, hindex, _⟩
  · exact absurd heq (hnot _)
  · unfold ScalarFunction.endOf ScalarFunction.lengthOf
    rw [hfound, Option.map_some, Option.getD_some, ← hindex]

-- What the last test was to end with is told from where the loop started.
theorem Rounds.finish_cases (h : Rounds function arguments loop Meets events state watch)
    (htests : watch.tests ≠ []) : ∃ seen, watch.finish = loop.ends watch.start seen := by
  induction h with
  | enter => exact absurd rfl htests
  | @step events state watch event next _ hstep _ ih =>
      rcases @CallStep.watch_cases _ _ loop _ _ _ hstep watch with
        ⟨rfl, _, _, _, hstart⟩ | ⟨target, _, _, _, _, _, hafter⟩
      · rw [hstart]
        unfold Watch.after at htests ⊢
        dsimp only at htests ⊢
        split
        · exact ⟨state, rfl⟩
        · rename_i hne
          rw [if_neg hne] at htests
          exact ih htests
      · rw [hafter] at htests ⊢
        unfold Watch.goes at htests ⊢
        split
        · rename_i htarget
          rw [if_pos htarget] at htests
          split
          · rename_i hin
            rw [if_pos hin] at htests
            exact ih htests
          · rename_i hout
            rw [if_neg hout] at htests
            exact absurd rfl htests
        · rename_i htarget
          rw [if_neg htarget] at htests
          exact ih htests

section Seen

variable (hheader : loop.header ≠ 0)

include hheader

-- Before the header is entered nothing in the loop has run.
theorem Rounds.before_arrival (h : Rounds function arguments loop Meets events state watch)
    (hnot : watch.arrived = false) :
    function.inLoopOf loop.header state.place.block = false ∧
      ∀ point, .ran point ∈ events → function.inLoopOf loop.header point.block = false := by
  induction h with
  | enter =>
      exact ⟨ScalarFunction.entry_not_inLoop hheader, fun _ hran => absurd hran List.not_mem_nil⟩
  | @step events state watch event next hrounds hstep _ ih =>
      rcases hstep.watch_cases watch with ⟨rfl, hplace, harrived, _, _⟩ |
        ⟨target, htarget, hplace, hnotRan, _, _, hafter⟩
      · rw [harrived] at hnot
        obtain ⟨hblock, hran⟩ := ih hnot
        refine ⟨by rw [hplace]; exact hblock, fun point hpoint => ?_⟩
        rcases List.mem_append.mp hpoint with hbefore | hnow
        · exact hran point hbefore
        · rw [List.mem_singleton, CallEvent.ran.injEq] at hnow
          rw [hnow]
          exact hblock
      · rw [hafter] at hnot
        have hne : target ≠ loop.header := by
          rintro rfl
          unfold Watch.goes at hnot
          rw [if_pos rfl] at hnot
          split at hnot <;> cases hnot
        have hbefore : watch.arrived = false := by
          unfold Watch.goes at hnot
          rw [if_neg hne] at hnot
          exact hnot
        obtain ⟨hblock, hran⟩ := ih hbefore
        refine ⟨?_, fun point hpoint => ?_⟩
        · rw [hplace]
          by_contra hin
          rw [Bool.not_eq_false] at hin
          rw [ScalarFunction.inLoop_of_successor hrounds.run.reachable htarget hne hin] at hblock
          cases hblock
        · rcases List.mem_append.mp hpoint with hearlier | hnow
          · exact hran point hearlier
          · exact absurd (List.mem_singleton.mp hnow).symm (hnotRan point)

omit hheader in
-- What had not run when the header was first entered, and has not run since it was last, was not
-- passed on the way.
theorem Rounds.avoids (h : Rounds function arguments loop Meets events state watch) {point : Point}
    (hfirst : ∀ events state watch, Rounds function arguments loop Meets events state watch →
      watch.arrived = false → .ran point ∉ events) (harrived : watch.arrived = true) :
    function.skeleton.Avoids point.block point.index loop.header 0 ∧
      (.ran point ∉ watch.since →
        function.skeleton.Avoids point.block point.index state.place.block state.place.index) := by
  induction h with
  | enter => cases harrived
  | @step events state watch event next hrounds hstep _ ih =>
      rcases hstep.watch_cases watch with ⟨rfl, _, hsame, hsince, _⟩ |
        ⟨target, _, hplace, hnotRan, _, _, hafter⟩
      · rw [hsame] at harrived
        obtain ⟨hheaderAvoids, havoids⟩ := ih harrived
        refine ⟨hheaderAvoids, fun hnot => ?_⟩
        rw [hsince, List.mem_append, List.mem_singleton, not_or] at hnot
        exact hstep.avoids (fun heq => hnot.2 heq.symm) (havoids hnot.1)
      · rw [hafter] at harrived ⊢
        by_cases htarget : target = loop.header
        · have havoidsNext : function.skeleton.Avoids point.block point.index loop.header 0 := by
            by_cases hbefore : watch.arrived = true
            · exact (ih hbefore).1
            · rw [Bool.not_eq_true] at hbefore
              have hnever := hfirst _ _ _ hrounds hbefore
              have hnext := hstep.avoids (hnotRan point) (hrounds.run.avoids hnever)
              rw [hplace, htarget] at hnext
              exact hnext
          refine ⟨havoidsNext, fun _ => ?_⟩
          rw [hplace, htarget]
          exact havoidsNext
        · unfold Watch.goes at harrived ⊢
          rw [if_neg htarget] at harrived ⊢
          obtain ⟨hheaderAvoids, havoids⟩ := ih harrived
          refine ⟨hheaderAvoids, fun hnot => ?_⟩
          rw [List.mem_append, not_or] at hnot
          exact hstep.avoids (hnotRan point) (havoids hnot.1)

omit hheader in
-- In each round the instructions that dominate where a call is have run anew.
theorem Rounds.ran_since (h : Rounds function arguments loop Meets events state watch) {point : Point}
    (hfirst : ∀ events state watch, Rounds function arguments loop Meets events state watch →
      watch.arrived = false → .ran point ∉ events) (harrived : watch.arrived = true)
    (hinstruction : (function.instructionAt point).isSome = true)
    (hdominates : function.dominates point state.place = true) : .ran point ∈ watch.since := by
  obtain ⟨instruction, hinstruction⟩ := Option.isSome_iff_exists.mp hinstruction
  by_contra hnot
  exact ScalarFunction.not_avoids_of_dominates hinstruction hdominates
    ((h.avoids hfirst harrived).2 hnot)

theorem Rounds.never_before (point : Point) (hin : function.inLoopOf loop.header point.block = true)
    (events : List CallEvent) (state : CallState) (watch : Watch)
    (h : Rounds function arguments loop Meets events state watch) (hnot : watch.arrived = false) :
    .ran point ∉ events := by
  intro hran
  rw [(h.before_arrival hheader hnot).2 point hran] at hin
  cases hin

omit hheader in
-- While a call is in the loop, all that has run since its header was entered is in the loop, and
-- while it is in the header, that is what stands before.
theorem Rounds.since_inside (h : Rounds function arguments loop Meets events state watch)
    (harrived : watch.arrived = true) :
    (function.inLoopOf loop.header state.place.block = true → ∀ point, .ran point ∈ watch.since →
      function.inLoopOf loop.header point.block = true) ∧
    (state.place.block = loop.header → ∀ point, .ran point ∈ watch.since →
      point.block = loop.header ∧ point.index < state.place.index) := by
  induction h with
  | enter => cases harrived
  | @step events state watch event next hrounds hstep _ ih =>
      rcases hstep.watch_cases watch with ⟨rfl, hplace, hsame, hsince, _⟩ |
        ⟨target, htarget, hplace, hnotRan, _, _, hafter⟩
      · rw [hsame] at harrived
        obtain ⟨hinside, hheaderOnly⟩ := ih harrived
        rw [hsince, hplace]
        refine ⟨fun hin point hran => ?_, fun hblock point hran => ?_⟩
        · rcases List.mem_append.mp hran with hbefore | hnow
          · exact hinside hin point hbefore
          · rw [List.mem_singleton, CallEvent.ran.injEq] at hnow
            rw [hnow]
            exact hin
        · rcases List.mem_append.mp hran with hbefore | hnow
          · obtain ⟨heq, hlt⟩ := hheaderOnly hblock point hbefore
            exact ⟨heq, Nat.lt_succ_of_lt hlt⟩
          · rw [List.mem_singleton, CallEvent.ran.injEq] at hnow
            rw [hnow]
            exact ⟨hblock, Nat.lt_succ_self _⟩
      · rw [hafter] at harrived ⊢
        by_cases hheaderTarget : target = loop.header
        · rw [Watch.since_of_header loop hheaderTarget]
          exact ⟨fun _ _ hran => absurd hran List.not_mem_nil,
            fun _ _ hran => absurd hran List.not_mem_nil⟩
        · unfold Watch.goes at harrived ⊢
          rw [if_neg hheaderTarget] at harrived ⊢
          rw [hplace]
          refine ⟨fun hin point hran => ?_, fun hblock => absurd hblock hheaderTarget⟩
          have hbefore := ScalarFunction.inLoop_of_successor hrounds.run.reachable htarget hheaderTarget hin
          rcases List.mem_append.mp hran with hearlier | hnow
          · exact (ih harrived).1 hbefore point hearlier
          · exact absurd (List.mem_singleton.mp hnow).symm (hnotRan point)

omit hheader in
-- A round that has left the loop stays outside until the header is entered again.
theorem Rounds.left (h : Rounds function arguments loop Meets events state watch)
    {block taken target : Nat} (hleft : .branched block taken target ∈ watch.since)
    (htarget : function.inLoopOf loop.header target = false) :
    function.inLoopOf loop.header state.place.block = false := by
  induction h with
  | enter => exact absurd hleft List.not_mem_nil
  | @step events state watch event next hrounds hstep _ ih =>
      rcases hstep.watch_cases watch with ⟨rfl, hplace, _, hsince, _⟩ |
        ⟨other, hother, hplace, hnotRan, _, _, hafter⟩
      · rw [hsince] at hleft
        rw [hplace]
        rcases List.mem_append.mp hleft with hbefore | hnow
        · exact ih hbefore
        · cases List.mem_singleton.mp hnow
      · rw [hafter] at hleft
        by_cases hheaderTarget : other = loop.header
        · rw [Watch.since_of_header loop hheaderTarget] at hleft
          exact absurd hleft List.not_mem_nil
        · unfold Watch.goes at hleft
          rw [if_neg hheaderTarget] at hleft
          rw [hplace]
          rcases List.mem_append.mp hleft with hbefore | hnow
          · have houtside := ih hbefore
            by_contra hin
            rw [Bool.not_eq_false] at hin
            rw [ScalarFunction.inLoop_of_successor hrounds.run.reachable hother hheaderTarget hin]
              at houtside
            cases houtside
          · rw [List.mem_singleton] at hnow
            cases hstep with
            | gives _ _ => exact absurd rfl (hnotRan _)
            | stores _ _ => exact absurd rfl (hnotRan _)
            | goes _ _ _ _ => cases hnow
            | branches _ _ _ _ =>
                rw [CallEvent.branched.injEq] at hnow
                rw [Point.mk.injEq] at hplace
                rw [← hplace.1, ← hnow.2.2]
                exact htarget

end Seen

section Executed

variable (function arguments loop) (Meets)
variable [∀ events watch state event, Decidable (Meets events watch state event)]

def watchFor : Nat → List CallEvent × CallState × Watch
  | 0 => ([], .initial, {})
  | steps + 1 =>
      let before := watchFor steps
      match execute function arguments before.2.1 with
      | some result =>
          if Meets before.1 before.2.2 before.2.1 result.1 then
            (before.1 ++ [result.1], result.2,
              before.2.2.after function arguments loop before.2.1 result.1)
          else before
      | none => before

theorem watchFor_rounds (steps : Nat) :
    Rounds function arguments loop Meets (watchFor function arguments loop Meets steps).1
      (watchFor function arguments loop Meets steps).2.1
      (watchFor function arguments loop Meets steps).2.2 := by
  induction steps with
  | zero => exact .enter
  | succ steps ih =>
      unfold watchFor
      dsimp only
      split
      · rename_i result hresult
        split
        · rename_i hmeets
          exact .step ih (step_of_execute hresult) hmeets
        · exact ih
      · exact ih

end Executed

end Watches

end ConcurrencyAnalyzer.Program
