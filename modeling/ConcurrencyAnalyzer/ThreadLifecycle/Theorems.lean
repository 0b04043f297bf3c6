import ConcurrencyAnalyzer.ThreadLifecycle.Collector
import ConcurrencyAnalyzer.ThreadLifecycle.Silence

namespace ConcurrencyAnalyzer.ThreadLifecycle

open Program

-- No path around a block is denied; what is denied may be more.
def KeepsPaths (isPotentiallyReachable : FlowGraph → Nat → Nat → Nat → Bool) : Prop :=
  ∀ graph : FlowGraph, ∀ start finish excluded, start ≠ excluded →
    graph.Around excluded start finish → isPotentiallyReachable graph start finish excluded = true

theorem keepsPaths_reachableAround : KeepsPaths FlowGraph.reachableAround :=
  fun _ _ _ _ _ => FlowGraph.reachableAround_iff.mpr

-- What is said of the ways around a block to the returns of a function is right.
def FindsPaths (isPotentiallyReachable : FlowGraph → Nat → Nat → Nat → Bool) (graph : FlowGraph)
    (start excluded : Nat) : Prop :=
  ∀ finish ∈ graph.returnBlocks, isPotentiallyReachable graph start finish excluded = true →
    graph.Around excluded start finish

-- Where a join or a detach of a handle stands.
def Resolves (function : Function) (handleGroupId : String) (site : Point) : Prop :=
  ⟨site, handleGroupId⟩ ∈ resolutionSites function

section Paths

variable {function : Function} {isPotentiallyReachable : FlowGraph → Nat → Nat → Nat → Bool}
variable {create site final : Point} {after : List Point} {handleGroupId : String}

theorem mem_blockCalls {block : Block} {number : Nat} {placed : PlacedCall} :
    placed ∈ block.calls number ↔
      placed.point.block = number ∧ block.instructions[placed.point.index]? = some (some placed.call) := by
  unfold Block.calls
  rw [List.mem_filterMap]
  constructor
  · rintro ⟨⟨instruction, index⟩, hmem, hplaced⟩
    obtain ⟨call, rfl, rfl⟩ := Option.map_eq_some_iff.mp hplaced
    exact ⟨rfl, List.mem_zipIdx_iff_getElem?.mp hmem⟩
  · rintro ⟨rfl, hget⟩
    exact ⟨(some placed.call, placed.point.index), List.mem_zipIdx_iff_getElem?.mpr hget, rfl⟩

theorem mem_calls {placed : PlacedCall} :
    placed ∈ function.calls ↔ ∃ block, function.blocks[placed.point.block]? = some block ∧
      block.instructions[placed.point.index]? = some (some placed.call) := by
  unfold Function.calls
  rw [List.mem_flatMap]
  constructor
  · rintro ⟨⟨block, number⟩, hmem, hplaced⟩
    obtain ⟨rfl, hget⟩ := mem_blockCalls.mp hplaced
    exact ⟨block, List.mem_zipIdx_iff_getElem?.mp hmem, hget⟩
  · rintro ⟨block, hblock, hget⟩
    exact ⟨(block, placed.point.block), List.mem_zipIdx_iff_getElem?.mpr hblock, mem_blockCalls.mpr ⟨rfl, hget⟩⟩

theorem inside_of_mem_calls {placed : PlacedCall} (h : placed ∈ function.calls) :
    placed.point.index < function.graph.length placed.point.block := by
  obtain ⟨block, hblock, hget⟩ := mem_calls.mp h
  have hflow : function.graph.blocks[placed.point.block]? = some block.flow := by
    show (function.blocks.map Block.flow)[placed.point.block]? = _
    rw [List.getElem?_map, hblock]
    rfl
  unfold FlowGraph.length
  rw [hflow]
  exact (List.getElem?_eq_some_iff.mp hget).1

-- A site is a call that joins or detaches the handle.
theorem resolves_iff : Resolves function handleGroupId site ↔
    ∃ call descriptor, ⟨site, call⟩ ∈ function.calls ∧ descriptorOf call = some descriptor ∧
      (descriptor.action = .Join ∨ descriptor.action = .Detach) ∧
      groupOfOperand function call descriptor.operandIndex = some handleGroupId := by
  unfold Resolves resolutionSites
  rw [List.mem_filterMap]
  constructor
  · rintro ⟨placed, hmem, hsite⟩
    obtain ⟨descriptor, hdescriptor, hsite⟩ := Option.bind_eq_some_iff.mp hsite
    by_cases haction : descriptor.action = .Join ∨ descriptor.action = .Detach
    · rw [if_pos haction] at hsite
      obtain ⟨group, hgroup, hsame⟩ := Option.map_eq_some_iff.mp hsite
      obtain ⟨rfl, rfl⟩ := ResolutionSite.mk.inj hsame
      exact ⟨placed.call, descriptor, hmem, hdescriptor, haction, hgroup⟩
    · rw [if_neg haction] at hsite
      cases hsite
  · rintro ⟨call, descriptor, hmem, hdescriptor, haction, hgroup⟩
    refine ⟨⟨site, call⟩, hmem, Option.bind_eq_some_iff.mpr ⟨descriptor, hdescriptor, ?_⟩⟩
    rw [if_pos haction, hgroup]
    rfl

theorem Resolves.inside (h : Resolves function handleGroupId site) :
    site.index < function.graph.length site.block := by
  obtain ⟨call, _, hmem, -⟩ := resolves_iff.mp h
  exact inside_of_mem_calls hmem

theorem passes_of_coversEveryReturn (hkeeps : KeepsPaths isPotentiallyReachable)
    (hsite : site.index < function.graph.length site.block)
    (h : coversEveryReturn function isPotentiallyReachable create site = true)
    (hrun : function.graph.ReturningRun create after final) : site ∈ after := by
  unfold coversEveryReturn at h
  by_cases hblock : site.block = create.block
  · rw [if_pos hblock, decide_eq_true_eq] at h
    rcases hrun.passes_or_around hsite fun _ => h.le with hmem | ⟨hne, -⟩
    · refine (List.mem_cons.mp hmem).resolve_left fun hsame => ?_
      rw [hsame] at h
      exact lt_irrefl _ h
    · exact absurd hblock.symm hne
  · rw [if_neg hblock, List.all_eq_true] at h
    rcases hrun.passes_or_around hsite fun hsame => absurd hsame.symm hblock with
      hmem | ⟨hne, hfinal, hpath⟩
    · exact (List.mem_cons.mp hmem).resolve_left fun hsame => hblock (congrArg Point.block hsame)
    · have hcovered := h _ hrun.returns.block_mem
      simp [hfinal, hkeeps _ _ _ _ hne hpath] at hcovered

-- A site that is not covering is gone around by some run.
theorem coversEveryReturn_of_passes
    (hfinds : FindsPaths isPotentiallyReachable function.graph create.block site.block)
    (hcreate : create.index < function.graph.length create.block)
    (hreturns : ∃ after final, function.graph.ReturningRun create after final)
    (hpasses : ∀ after final, function.graph.ReturningRun create after final → site ∈ after) :
    coversEveryReturn function isPotentiallyReachable create site = true := by
  unfold coversEveryReturn
  by_cases hblock : site.block = create.block
  · rw [if_pos hblock, decide_eq_true_eq]
    obtain ⟨_, _, hrun⟩ := hreturns
    obtain ⟨passed, other, honward, hpassed⟩ := FlowGraph.exists_run_onward hcreate hrun
    exact hpassed site (hpasses passed other honward) hblock
  · rw [if_neg hblock, List.all_eq_true]
    intro returnBlock hreturn
    by_contra hcontra
    simp only [Bool.or_eq_true, decide_eq_true_eq, not_or, Bool.not_eq_true', Bool.not_eq_false] at hcontra
    have hpath := hfinds returnBlock hreturn hcontra.2
    obtain ⟨passed, other, hrun, haround⟩ :=
      FlowGraph.exists_run_around hpath hreturn (Ne.symm hblock) create.index hcreate
    exact haround site (hpasses passed other hrun) rfl

-- A creation that counts as resolved has one join or detach of its handle that every run from it to a
-- return passes, and has it counted so where the ways around that one are told right. Two that only
-- together leave no way past are not seen.
theorem isResolvedOnAllPaths_passed (function : Function)
    (isPotentiallyReachable : FlowGraph → Nat → Nat → Nat → Bool)
    (hkeeps : KeepsPaths isPotentiallyReachable) (placed : PlacedCall) (hplaced : placed ∈ function.calls)
    (hreturns : ∃ after final, function.graph.ReturningRun placed.point after final)
    (handleGroupId : String) :
    (isResolvedOnAllPaths function isPotentiallyReachable placed.point handleGroupId = true →
      ∃ site, Resolves function handleGroupId site ∧
        ∀ after final, function.graph.ReturningRun placed.point after final → site ∈ after) ∧
      ∀ site, Resolves function handleGroupId site →
        (∀ after final, function.graph.ReturningRun placed.point after final → site ∈ after) →
        FindsPaths isPotentiallyReachable function.graph placed.point.block site.block →
          isResolvedOnAllPaths function isPotentiallyReachable placed.point handleGroupId = true := by
  unfold isResolvedOnAllPaths
  rw [List.any_eq_true]
  constructor
  · rintro ⟨⟨site, group⟩, hmem, h⟩
    simp only [Bool.and_eq_true, decide_eq_true_eq] at h
    obtain ⟨rfl, hcovers⟩ := h
    exact ⟨site, hmem, fun after final hrun =>
      passes_of_coversEveryReturn hkeeps (Resolves.inside hmem) hcovers hrun⟩
  · intro site hresolves hpasses hfinds
    refine ⟨⟨site, handleGroupId⟩, hresolves, ?_⟩
    simp only [decide_true, Bool.true_and]
    exact coversEveryReturn_of_passes hfinds (inside_of_mem_calls hplaced) hreturns hpasses

end Paths

section Facts

variable {module : Module} {completions : Finset InstructionId}
variable {isPotentiallyReachable : FlowGraph → Nat → Nat → Nat → Bool}
variable {function : Function} {placed : PlacedCall} {collected : CollectedFact}

-- What the fact of a call says.
structure Describes (module : Module) (completions : Finset InstructionId)
    (isPotentiallyReachable : FlowGraph → Nat → Nat → Nat → Bool) (function : Function) (placed : PlacedCall)
    (fact : ThreadLifecycleFact) : Prop where
  functionId : fact.functionId = function.id
  propagated : fact.propagated = false
  resolved : fact.action = .Create → fact.resolvedOnAllPaths =
    (decide (placed.call.id ∈ completions) || createdDetached module function placed.call ||
      isResolvedOnAllPaths function isPotentiallyReachable placed.point fact.handleGroupId)
  looped : fact.action = .Create → fact.insideLoop =
    (!decide (placed.call.id ∈ completions) && !createdDetached module function placed.call &&
      isCreatedInLoopWithoutInnerResolution function placed.point fact.handleGroupId)
  escaped : fact.action = .Create →
    fact.escapedToUntrackedStorage = decide (fact.handleGroupId ∈ escapedGroups function)

theorem describes_of_factOf
    (h : factOf module completions isPotentiallyReachable function placed = some collected) :
    Describes module completions isPotentiallyReachable function placed collected.fact := by
  obtain ⟨descriptor, -, h⟩ := Option.bind_eq_some_iff.mp h
  obtain ⟨handleGroupId, -, h⟩ := Option.bind_eq_some_iff.mp h
  obtain ⟨source, -, h⟩ := Option.bind_eq_some_iff.mp h
  dsimp only at h
  by_cases hcreates : descriptor.action = .Create
  · rw [if_pos hcreates] at h
    split at h
    · cases h
    · obtain rfl := Option.some_inj.mp h
      exact ⟨rfl, rfl, fun _ => rfl, fun _ => rfl, fun _ => rfl⟩
  · rw [if_neg hcreates] at h
    split at h
    · cases h
    · obtain rfl := Option.some_inj.mp h
      exact ⟨rfl, rfl, fun hcreate => absurd hcreate hcreates, fun hcreate => absurd hcreate hcreates,
        fun hcreate => absurd hcreate hcreates⟩

theorem mem_candidates :
    collected ∈ candidates module completions isPotentiallyReachable ↔
      ∃ function ∈ module.functions, ∃ placed ∈ function.calls,
        factOf module completions isPotentiallyReachable function placed = some collected := by
  simp only [candidates, List.mem_flatMap, List.mem_filterMap]

theorem digit_handleKindNumber (kind : ThreadHandleKind) :
    ∃ digit, (toString (Lifecycle.handleKindNumber kind)).toList = [digit] := by
  cases kind <;> exact ⟨_, rfl⟩

theorem actionNumber_injective (action other : ThreadLifecycleAction) :
    ∀ {rest otherRest : List Char}, (toString (Lifecycle.actionNumber action)).toList ++ rest =
      (toString (Lifecycle.actionNumber other)).toList ++ otherRest → action = other := by
  intro rest otherRest h
  cases action <;> cases other <;> first | rfl | (exact absurd (List.cons.inj h).1 (by decide))

-- A key shows what is done.
theorem action_of_lifecycleKey {fact other : ThreadLifecycleFact}
    (h : lifecycleKey fact = lifecycleKey other) : fact.action = other.action := by
  have hlist := congrArg String.toList h
  obtain ⟨digit, hdigit⟩ := digit_handleKindNumber fact.handleKind
  obtain ⟨otherDigit, hotherDigit⟩ := digit_handleKindNumber other.handleKind
  simp only [lifecycleKey, String.toList_append, List.append_assoc, hdigit, hotherDigit] at hlist
  have hrest := (List.cons.inj hlist).2
  exact actionNumber_injective _ _ (List.append_cancel_left hrest)

theorem subset_addCollected (facts : List ThreadLifecycleFact) (collected : CollectedFact) :
    facts ⊆ addCollected facts collected := by
  intro fact hfact
  unfold addCollected addFact
  split
  · exact hfact
  · split
    · split <;> simp [hfact]
    · simp [hfact]

theorem mem_addCollected {facts : List ThreadLifecycleFact} {fact : ThreadLifecycleFact}
    (h : fact ∈ addCollected facts collected) :
    fact ∈ facts ∨ fact = collected.fact ∨ fact = detachFact collected.fact := by
  unfold addCollected addFact at h
  split at h
  · exact .inl h
  · split at h
    · split at h
      · simp only [List.mem_append, List.mem_singleton] at h
        exact h.imp_right .inl
      · simp only [List.mem_append, List.mem_singleton, or_assoc] at h
        exact h
    · simp only [List.mem_append, List.mem_singleton] at h
      exact h.imp_right .inl

-- Each fact is that of a call, or the detachment of a creation.
theorem mem_foldl_addCollected (arrivals : List CollectedFact) {facts : List ThreadLifecycleFact}
    {fact : ThreadLifecycleFact} (h : fact ∈ arrivals.foldl addCollected facts) :
    fact ∈ facts ∨ ∃ collected ∈ arrivals, fact = collected.fact ∨ fact = detachFact collected.fact := by
  induction arrivals generalizing facts with
  | nil => exact .inl h
  | cons collected rest ih =>
      rcases ih h with hmem | ⟨other, hother, hfact⟩
      · exact (mem_addCollected hmem).imp_right fun hfact => ⟨collected, List.mem_cons_self .., hfact⟩
      · exact .inr ⟨other, List.mem_cons_of_mem _ hother, hfact⟩

theorem subset_foldl_addCollected (arrivals : List CollectedFact) (facts : List ThreadLifecycleFact) :
    facts ⊆ arrivals.foldl addCollected facts := by
  induction arrivals generalizing facts with
  | nil => exact fun _ h => h
  | cons collected rest ih => exact List.Subset.trans (subset_addCollected facts collected) (ih _)

-- A creation is told when none with its key came before.
theorem mem_foldl_of_apart (arrivals : List CollectedFact) {facts : List ThreadLifecycleFact}
    (hcollected : collected ∈ arrivals) (hcreates : collected.fact.action = .Create)
    (hapart : ∀ other ∈ arrivals, lifecycleKey other.fact = lifecycleKey collected.fact →
      other.fact = collected.fact)
    (hfacts : ∀ fact ∈ facts, lifecycleKey fact = lifecycleKey collected.fact → fact = collected.fact) :
    collected.fact ∈ arrivals.foldl addCollected facts := by
  induction arrivals generalizing facts with
  | nil => cases hcollected
  | cons first rest ih =>
      obtain ⟨hfirst, hrest⟩ := List.forall_mem_cons.mp hapart
      rcases List.mem_cons.mp hcollected with rfl | hmem
      · refine subset_foldl_addCollected rest _ ?_
        unfold addCollected addFact
        split
        · rename_i htaken
          obtain ⟨fact, hfact, hkey⟩ := List.mem_map.mp htaken
          exact hfacts fact hfact hkey ▸ hfact
        · split
          · split <;> simp
          · simp
      · refine ih hmem hrest fun fact hfact hkey => ?_
        rcases mem_addCollected hfact with hold | rfl | rfl
        · exact hfacts fact hold hkey
        · exact hfirst hkey
        · -- the detachment of another creation is no creation
          have haction := (action_of_lifecycleKey hkey).trans hcreates
          cases haction

theorem mem_collect {fact : ThreadLifecycleFact}
    (h : fact ∈ collect module completions isPotentiallyReachable) :
    fact.propagated = false ∧ (fact.action = .Create →
      ∃ function ∈ module.functions, ∃ placed ∈ function.calls,
        Describes module completions isPotentiallyReachable function placed fact) := by
  obtain ⟨collected, hcollected, hfact⟩ :=
    (mem_foldl_addCollected _ h).resolve_left List.not_mem_nil
  obtain ⟨function, hfunction, placed, hplaced, hfactOf⟩ := mem_candidates.mp hcollected
  have hdescribes := describes_of_factOf hfactOf
  rcases hfact with rfl | rfl
  · exact ⟨hdescribes.propagated, fun _ => ⟨function, hfunction, placed, hplaced, hdescribes⟩⟩
  · exact ⟨hdescribes.propagated, fun hcreates => by cases hcreates⟩

end Facts

open MissingJoin (groupOf isArgument members reportedGroups)

-- Of a handle one function deals with, moved nowhere, nothing is reported only if it gets away, or if
-- each creation ends in itself or has a join or a detach that no run gets past on its way to a return.
theorem silent_creations_resolved (module : Module) (completions : Finset InstructionId)
    (isPotentiallyReachable : FlowGraph → Nat → Nat → Nat → Bool) (hkeeps : KeepsPaths isPotentiallyReachable)
    (facts : List ThreadLifecycleFact) (hfacts : collect module completions isPotentiallyReachable ⊆ facts)
    {function : Function} (hfunction : function ∈ module.functions)
    {placed : PlacedCall} (hplaced : placed ∈ function.calls) {collected : CollectedFact}
    (hfact : factOf module completions isPotentiallyReachable function placed = some collected)
    (hcreates : collected.fact.action = .Create)
    (hapart : ∀ other ∈ candidates module completions isPotentiallyReachable,
      lifecycleKey other.fact = lifecycleKey collected.fact → other.fact = collected.fact)
    (hlocal : isArgument collected.fact.handleGroupId = false)
    (hown : ∀ fact ∈ members facts (groupOf facts collected.fact.handleGroupId),
      fact ∈ collect module completions isPotentiallyReachable ∧ fact.functionId = function.id ∧
        fact.action ≠ .Move)
    (hsilent : ∀ reported ∈ reportedGroups facts,
      reported.groupId ≠ groupOf facts collected.fact.handleGroupId) :
    collected.fact.handleGroupId ∈ escapedGroups function ∨ placed.call.id ∈ completions ∨
      createdDetached module function placed.call = true ∨
      ((∃ site, Resolves function collected.fact.handleGroupId site ∧
          ∀ after final, function.graph.ReturningRun placed.point after final → site ∈ after) ∧
        ∀ loop, function.loopOf placed.point.block = some loop →
          ∃ site, Resolves function collected.fact.handleGroupId site ∧ site.block ∈ loop) := by
  have hlone : MissingJoin.Lone facts function.id (groupOf facts collected.fact.handleGroupId) := by
    intro fact hmem
    obtain ⟨hcollect, hid, hmove⟩ := hown fact hmem
    exact ⟨hmove, (mem_collect hcollect).1, hid⟩
  have hgroup := MissingJoin.groupOf_of_lone hlone
  have hdescribes := describes_of_factOf hfact
  have hcollected : collected.fact ∈ facts := hfacts (mem_foldl_of_apart _
    (mem_candidates.mpr ⟨function, hfunction, placed, hplaced, hfact⟩) hcreates hapart (by simp))
  have hcreation : collected.fact ∈ MissingJoin.creations facts
      (groupOf facts collected.fact.handleGroupId) :=
    List.mem_filter.mpr ⟨List.mem_filter.mpr ⟨hcollected, decide_eq_true rfl⟩, decide_eq_true hcreates⟩
  have hargument : isArgument (groupOf facts collected.fact.handleGroupId) = false := by rwa [hgroup]
  rcases (MissingJoin.silent_iff hargument hlone).mp hsilent with ⟨fact, hmem, hescaped⟩ | hresolved
  · -- every creation of the group is one of the function, of the same handle
    left
    obtain ⟨hmember, haction⟩ := List.mem_filter.mp hmem
    obtain ⟨hfactMem, hsame⟩ := List.mem_filter.mp hmember
    have hhandle := MissingJoin.group_eq_of_lone hlone (of_decide_eq_true hsame)
    obtain ⟨hcollect, hid, -⟩ := hown fact hmember
    obtain ⟨other, hother, otherPlaced, -, hotherDescribes⟩ := (mem_collect hcollect).2 (of_decide_eq_true haction)
    have hfunctionSame : other = function :=
      List.inj_on_of_nodup_map module.idsDistinct hother hfunction (hotherDescribes.functionId.symm.trans hid)
    have hflag := hotherDescribes.escaped (of_decide_eq_true haction)
    rw [hescaped, hhandle, hfunctionSame] at hflag
    exact of_decide_eq_true hflag.symm
  · right
    obtain ⟨hpaths, hloop⟩ := hresolved _ hcreation
    rw [hdescribes.resolved hcreates] at hpaths
    rw [hdescribes.looped hcreates] at hloop
    by_cases hcompleted : placed.call.id ∈ completions
    · exact .inl hcompleted
    · right
      by_cases hdetached : createdDetached module function placed.call = true
      · exact .inl hdetached
      · right
        simp only [hcompleted, hdetached, decide_false, Bool.false_or, Bool.not_false, Bool.true_and] at hpaths hloop
        refine ⟨?_, fun loop hin => ?_⟩
        · obtain ⟨⟨site, group⟩, hmem, hsite⟩ := List.any_eq_true.mp hpaths
          simp only [Bool.and_eq_true, decide_eq_true_eq] at hsite
          obtain ⟨rfl, hcovers⟩ := hsite
          exact ⟨site, hmem, fun after final hrun =>
            passes_of_coversEveryReturn hkeeps (Resolves.inside hmem) hcovers hrun⟩
        · unfold isCreatedInLoopWithoutInnerResolution at hloop
          rw [hin] at hloop
          obtain ⟨⟨site, group⟩, hmem, hsite⟩ := List.all_eq_false.mp hloop
          simp only [Bool.not_eq_true, Bool.not_eq_false', Bool.and_eq_true, decide_eq_true_eq] at hsite
          obtain ⟨rfl, hinside⟩ := hsite
          exact ⟨site, hmem, hinside⟩

section Shared

-- Two creations on branches that exclude each other share the join behind them.
def sharedHandle : Operand := ⟨.alloca "t", .pointer, none⟩

def sharedCreation (id line : Nat) : Call where
  id := id
  kind := .PThreadCreate
  operands := [sharedHandle, ⟨.other, .pointer, none⟩]
  userLocation := { file := "a.c", line := line }

def sharedJoin : Call where
  id := 3
  kind := .PThreadJoin
  operands := [⟨.load (.alloca "t"), .integer, none⟩]
  userLocation := { file := "a.c", line := 9 }

def sharing : Function where
  id := "start"
  blocks := [
    { instructions := [none], exit := .branch [1, 2] },
    { instructions := [some (sharedCreation 1 5), none], exit := .branch [3] },
    { instructions := [some (sharedCreation 2 7), none], exit := .branch [3] },
    { instructions := [some sharedJoin, none], exit := .ret }]

theorem sharing_returns : sharing.graph.ReturningRun ⟨1, 0⟩ [⟨1, 1⟩, ⟨3, 0⟩, ⟨3, 1⟩] ⟨3, 1⟩ := by
  refine ⟨?_, rfl, by decide, rfl, rfl⟩
  refine List.isChain_cons_cons.mpr ⟨⟨_, .onward (by decide)⟩, ?_⟩
  refine List.isChain_cons_cons.mpr ⟨⟨_, @FlowGraph.Takes.edge sharing.graph 1 3 false (by decide)⟩, ?_⟩
  exact List.isChain_cons_cons.mpr ⟨⟨_, .onward (by decide)⟩, List.isChain_singleton _⟩

theorem isResolvedOnAllPaths_passed_sharing :
    (∃ site, Resolves sharing "stack:start:t" site ∧ ∀ after final,
      sharing.graph.ReturningRun ⟨1, 0⟩ after final → site ∈ after) ∧
      isResolvedOnAllPaths sharing FlowGraph.reachableAround ⟨1, 0⟩ "stack:start:t" = true := by
  have hpassed := isResolvedOnAllPaths_passed sharing FlowGraph.reachableAround
    keepsPaths_reachableAround ⟨⟨1, 0⟩, sharedCreation 1 5⟩ (by decide) ⟨_, _, sharing_returns⟩
    "stack:start:t"
  obtain ⟨site, hresolves, hpasses⟩ := hpassed.1 (by decide +kernel)
  exact ⟨⟨site, hresolves, hpasses⟩, hpassed.2 site hresolves hpasses fun _ _ =>
    FlowGraph.reachableAround_iff.mp⟩

def sharingModule : Module where
  functions := [sharing]

def sharedFacts : List ThreadLifecycleFact := collect sharingModule ∅ FlowGraph.reachableAround

def sharedFact : CollectedFact where
  fact := {
    handleGroupId := "stack:start:t"
    functionId := "start"
    location := { file := "a.c", line := 5 } }
  detached := false

theorem silent_creations_resolved_sharing :
    sharedFacts.length = 3 ∧ ∃ site, Resolves sharing "stack:start:t" site ∧
      ∀ after final, sharing.graph.ReturningRun ⟨1, 0⟩ after final → site ∈ after := by
  refine ⟨by decide +kernel, ?_⟩
  have hall := @silent_creations_resolved sharingModule ∅ FlowGraph.reachableAround
    keepsPaths_reachableAround sharedFacts (fun _ h => h) sharing (List.mem_singleton_self _)
    ⟨⟨1, 0⟩, sharedCreation 1 5⟩ (by decide) sharedFact (by decide +kernel) rfl (by decide +kernel) (by decide)
    (by decide +kernel) (by decide +kernel)
  rcases hall with hescaped | hcompleted | hdetached | ⟨hresolved, -⟩
  · exact absurd hescaped (by decide +kernel)
  · cases hcompleted
  · exact absurd hdetached (by decide +kernel)
  · exact hresolved

end Shared

end ConcurrencyAnalyzer.ThreadLifecycle
