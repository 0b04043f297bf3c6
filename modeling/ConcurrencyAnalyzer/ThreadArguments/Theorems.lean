import ConcurrencyAnalyzer.ThreadArguments.Collector
import ConcurrencyAnalyzer.ThreadCompletion.PathTheorems
import ConcurrencyAnalyzer.ThreadLifecycle.Paths
import ConcurrencyAnalyzer.Library.Dominance

namespace ConcurrencyAnalyzer.ThreadArguments

open Program ThreadCompletion
open ThreadEntries (resolveFunctionValue)

section Instructions

variable {function : Function} {placed : Placed} {creation : Creation}

theorem mem_instructions :
    placed ∈ function.instructions ↔ ∃ block, function.blocks[placed.point.block]? = some block ∧
      block.instructions[placed.point.index]? = some (placed.instruction, placed.userLocation) := by
  unfold Function.instructions Function.placedBlocks
  rw [List.mem_flatten]
  constructor
  · rintro ⟨places, hplaces, hmem⟩
    obtain ⟨⟨block, number⟩, hblock, rfl⟩ := List.mem_map.mp hplaces
    obtain ⟨⟨⟨instruction, location⟩, index⟩, hinstruction, rfl⟩ := List.mem_map.mp hmem
    exact ⟨block, List.mem_zipIdx_iff_getElem?.mp hblock, List.mem_zipIdx_iff_getElem?.mp hinstruction⟩
  · rintro ⟨block, hblock, hinstruction⟩
    refine ⟨_, List.mem_map.mpr ⟨(block, placed.point.block), List.mem_zipIdx_iff_getElem?.mpr hblock, rfl⟩, ?_⟩
    exact List.mem_map.mpr ⟨((placed.instruction, placed.userLocation), placed.point.index),
      List.mem_zipIdx_iff_getElem?.mpr hinstruction, rfl⟩

theorem graph_blocks (h : 0 < function.blocks.length) :
    function.graph.blocks = function.blocks.map Block.flow := by
  unfold Function.graph
  rw [dif_pos h]

theorem inside_of_mem (h : placed ∈ function.instructions) :
    placed.point.index < function.graph.length placed.point.block := by
  obtain ⟨block, hblock, hinstruction⟩ := mem_instructions.mp h
  have hpos : 0 < function.blocks.length :=
    Nat.zero_lt_of_lt (List.getElem?_eq_some_iff.mp hblock).1
  unfold FlowGraph.length
  rw [graph_blocks hpos, List.getElem?_map, hblock]
  exact (List.getElem?_eq_some_iff.mp hinstruction).1

theorem mem_callsOf : creation ∈ calls function ↔
    ∃ placed ∈ function.instructions, placed.point = creation.point ∧
      placed.instruction = .call creation.call ∧ kHandleOperandIndex < creation.call.operands.length := by
  unfold calls
  rw [List.mem_filterMap]
  refine exists_congr fun placed => and_congr_right fun _ => ?_
  unfold callOf
  constructor
  · intro h
    split at h
    · rename_i call hcall
      split at h
      · rename_i hoperands
        obtain rfl := Option.some_inj.mp h
        exact ⟨rfl, hcall, hoperands⟩
      · cases h
    · cases h
  · rintro ⟨hpoint, hcall, hoperands⟩
    rw [hcall]
    simp only [hoperands, if_true, hpoint]

theorem inside_of_creation (h : creation ∈ creations function) :
    creation.point.index < function.graph.length creation.point.block := by
  obtain ⟨placed, hmem, hpoint, -⟩ := mem_callsOf.mp (List.mem_of_mem_filter h)
  exact hpoint ▸ inside_of_mem hmem

theorem defined_of_creation (h : creation ∈ creations function) : function.isDeclaration = false := by
  obtain ⟨placed, hmem, -⟩ := mem_callsOf.mp (List.mem_of_mem_filter h)
  obtain ⟨block, hblock, -⟩ := mem_instructions.mp hmem
  unfold Function.isDeclaration
  rw [List.isEmpty_eq_false_iff]
  rintro hnil
  simp [hnil] at hblock

end Instructions

section Ends

variable {module : Module} {completions : ThreadCompletions module} {function : Function}
variable {creation : Creation}

theorem placed_endsOf (hfunction : function ∈ module.functions) {success : JoinSuccess}
    (h : success ∈ endsOf function completions creation) : PlacedSuccess function.graph success := by
  unfold endsOf at h
  rcases List.mem_append.mp h with hcompleted | hjoined
  · exact completions.ofCompletions function hfunction creation.point success (by simpa using hcompleted)
  · split at hjoined
    · cases hjoined
    · rename_i handleGroupId _
      obtain ⟨join, hjoin, hsuccess⟩ := List.mem_filterMap.mp hjoined
      split at hsuccess
      · obtain ⟨site, hsite, hsome⟩ := List.mem_filterMap.mp hjoin
        unfold joinSite at hsome
        split at hsome
        · obtain ⟨group, -, rfl⟩ := Option.map_eq_some_iff.mp hsome
          obtain ⟨placed, hplaced, -, hcall, -⟩ := mem_callsOf.mp hsite
          exact completions.ofJoins function hfunction placed hplaced site.call hcall success hsuccess
        · cases hsome
      · cases hsuccess

theorem completed_iff (completions : ThreadCompletions module) (hfunction : function ∈ module.functions)
    (hcreation : creation ∈ creations function) (point : Option Point) :
    completedOnEveryPath function.graph creation.point (endsOf function completions creation) point = true ↔
      ∀ place, Uncompleted function.graph (endsOf function completions creation) creation.point place →
        ¬Ends function.graph point place :=
  completedOnEveryPath_iff_of_placed (fun _ h => placed_endsOf hfunction h) point (inside_of_creation hcreation)

theorem ends_some_iff {graph : FlowGraph} {point place : Point} : Ends graph (some point) place ↔ point = place := by
  simp [Ends]

-- A thread has ended at a point that its creation leads to, by ways that all pass one of its ends.
theorem endedAt_iff (completions : ThreadCompletions module) (hfunction : function ∈ module.functions)
    (hcreation : creation ∈ creations function) (point : Point) :
    endedAt function creation.point point (endsOf function completions creation) = true ↔
      Uncompleted function.graph [] creation.point point ∧
        ¬Uncompleted function.graph (endsOf function completions creation) creation.point point := by
  have hfollows := @completedOnEveryPath_iff_of_placed function.graph [] (by simp) (some point) creation.point
    (inside_of_creation hcreation)
  have hends := completed_iff completions hfunction hcreation (some point)
  simp only [ends_some_iff] at hfollows hends
  unfold endedAt
  rw [Bool.and_eq_true, Bool.not_eq_true', ← Bool.not_eq_true, hends]
  change ¬completedOnEveryPath function.graph creation.point [] (some point) = true ∧ _ ↔ _
  rw [show completedOnEveryPath function.graph creation.point [] (some point) = true ↔ _ from hfollows]
  constructor
  · rintro ⟨hreached, hpassed⟩
    push Not at hreached
    obtain ⟨place, hplace, rfl⟩ := hreached
    exact ⟨hplace, fun h => hpassed _ h rfl⟩
  · rintro ⟨hreached, hpassed⟩
    refine ⟨fun h => h _ hreached rfl, fun place hplace hsame => hpassed (hsame ▸ hplace)⟩

end Ends

section Escapes

variable {module : Module}

-- An escape is told of each creation that hands its thread a local, or what holds the address of one,
-- and from which a way leads to a return past no end of the thread.
theorem escapes_exact (completions : ThreadCompletions module)
    (dominates : FlowGraph → Point → Point → Bool) (fact : ThreadArgumentEscapeFact) :
    fact ∈ (collect completions dominates).escapes ↔
      ∃ function ∈ module.functions, ∃ creation ∈ creations function,
        escapingLocal function creation.call = true ∧
        (∃ place, Uncompleted function.graph (endsOf function completions creation) creation.point place ∧
          Ends function.graph none place) ∧
        fact = {
          functionId := function.id
          entryFunctionId := @entryName module creation.call
          location := creation.call.userLocation } := by
  unfold collect
  simp only [List.mem_flatMap, List.mem_filterMap]
  constructor
  · rintro ⟨function, hfunction, creation, hcreation, hfact⟩
    have hdefined := (List.mem_filter.mp hfunction).1
    unfold escapeFact at hfact
    split at hfact
    · rename_i hescapes
      simp only [Bool.and_eq_true, Bool.not_eq_true'] at hescapes
      refine ⟨function, hdefined, creation, hcreation, hescapes.1, ?_, (Option.some_inj.mp hfact).symm⟩
      have hopen := (completed_iff completions hdefined hcreation none).not.mp
        (by simp [hescapes.2])
      push Not at hopen
      exact hopen
    · cases hfact
  · rintro ⟨function, hfunction, creation, hcreation, hescapes, ⟨place, hplace, hends⟩, rfl⟩
    refine ⟨function, ?_, creation, hcreation, ?_⟩
    · simp [hfunction, defined_of_creation hcreation]
    · unfold escapeFact
      have hopen : completedOnEveryPath function.graph creation.point
          (endsOf function completions creation) none = false := by
        rw [← Bool.not_eq_true, completed_iff completions hfunction hcreation]
        exact fun h => h place hplace hends
      rw [hescapes, hopen]
      rfl

end Escapes

section Frees

open Library.Dominance (Dominates Run)

variable {module : Module} {function : Function} {creation release : Creation}

-- A way of the function from its entry to an instruction.
abbrev Way (function : Function) (before : List Point) (last : Point) : Prop :=
  Run function.graph.Follows ⟨0, 0⟩ before last

-- A value is computed before it is used.
def ReadBefore (function : Function) (load use : Point) : Prop :=
  (∃ placed ∈ function.instructions, placed.point = load ∧ ∃ pointer, placed.instruction = .load pointer) ∧
    Dominates function.graph.Follows ⟨0, 0⟩ load use

def WritesSlot (function : Function) (slot : Nat) (place : Point) : Prop :=
  ∃ placed ∈ function.instructions, placed.point = place ∧ ∃ stored pointer,
    placed.instruction = .store stored pointer ∧ pointer.value = .alloca slot

-- The values calls are handed are read on every way to them.
def ReadsBeforeUse (function : Function) : Prop :=
  ∀ site ∈ calls function, ∀ operand ∈ site.call.operands, ∀ load pointer,
    operand.value = .load load pointer → ReadBefore function load site.point

-- What is freed is what the thread was handed: one value, or a slot that is not written from the read
-- handed to a creation to the next release, and that nothing else has the address of. What is released
-- is read in between too, where its read follows the other.
def HandedOn (function : Function) (creation release : Point) (argument released : Value) : Prop :=
  argument = released ∨ ∃ slot firstLoad secondLoad,
    argument = .load firstLoad (.alloca slot) ∧ released = .load secondLoad (.alloca slot) ∧
    (∀ placed ∈ function.users (.alloca slot), (∃ pointer, placed.instruction = .load pointer) ∨
      WritesSlot function slot placed.point) ∧
    ∀ before middle rest, Way function (before ++ firstLoad :: middle ++ creation :: rest) release →
      firstLoad ∉ middle → creation ∉ middle → creation ∉ rest → release ∉ rest →
        (∀ place ∈ middle ++ rest, ¬WritesSlot function slot place) ∧
          (Dominates function.graph.Follows ⟨0, 0⟩ firstLoad secondLoad → secondLoad ∈ middle ++ rest)

theorem mem_users {value : Value} {placed : Placed} :
    placed ∈ function.users value ↔
      placed ∈ function.instructions ∧ ∃ operand ∈ placed.instruction.operands, operand.value = value := by
  unfold Function.users
  simp only [List.mem_flatMap, List.mem_map, List.mem_filter, decide_eq_true_eq]
  constructor
  · rintro ⟨other, hother, operand, hoperand, rfl⟩
    exact ⟨hother, operand, hoperand⟩
  · rintro ⟨hplaced, operand, hoperand⟩
    exact ⟨placed, hplaced, operand, hoperand, rfl⟩

-- One instruction stands at a point.
theorem instruction_unique {placed other : Placed} (h : placed ∈ function.instructions)
    (hother : other ∈ function.instructions) (hpoint : placed.point = other.point) :
    placed.instruction = other.instruction := by
  obtain ⟨block, hblock, hinstruction⟩ := mem_instructions.mp h
  obtain ⟨otherBlock, hotherBlock, hotherInstruction⟩ := mem_instructions.mp hother
  rw [hpoint, hotherBlock, Option.some_inj] at hblock
  subst hblock
  rw [hpoint, hotherInstruction, Option.some_inj] at hinstruction
  exact (congrArg Prod.fst hinstruction).symm

theorem uncompleted_of_chain {graph : FlowGraph} {first last : Point} (after : List Point)
    (h : (first :: (after ++ [last])).IsChain graph.Follows) : Uncompleted graph [] first last := by
  have hmove {before next : Point} (hreached : Uncompleted graph [] first before)
      (hstep : graph.Follows before next) : Uncompleted graph [] first next := by
    obtain ⟨move, htakes⟩ := hstep
    refine hreached.move htakes ?_
    cases move <;> simp [Completes]
  induction after using List.reverseRecOn generalizing last with
  | nil => exact hmove .start (List.isChain_pair.mp h)
  | append_singleton after place ih =>
      have hsplit : first :: (after ++ [place] ++ [last]) = (first :: (after ++ [place])) ++ [last] := by simp
      rw [hsplit, List.isChain_append] at h
      refine hmove (ih h.1) (h.2.2 place ?_ last (by simp))
      rw [← List.cons_append, List.getLast?_append, List.getLast?_singleton]
      rfl

theorem mem_frees : release ∈ frees function ↔
    release ∈ calls function ∧ release.call.releasesMemory = true := by
  simp [frees]

theorem call_of_creation (h : creation ∈ creations function) :
    ∃ placed ∈ function.instructions, placed.point = creation.point ∧
      placed.instruction = .call creation.call ∧ creation.call.releasesMemory = false := by
  obtain ⟨hcall, hcreates⟩ := List.mem_filter.mp h
  obtain ⟨placed, hplaced, hpoint, hinstruction, -⟩ := mem_callsOf.mp hcall
  simp only [Bool.and_eq_true, Bool.not_eq_true'] at hcreates
  exact ⟨placed, hplaced, hpoint, hinstruction, hcreates.1⟩

theorem point_ne_release (hcreation : creation ∈ creations function) (hrelease : release ∈ frees function) :
    creation.point ≠ release.point := by
  intro hsame
  obtain ⟨placed, hplaced, hpoint, hinstruction, hkeeps⟩ := call_of_creation hcreation
  obtain ⟨hcall, hreleases⟩ := mem_frees.mp hrelease
  obtain ⟨other, hother, hotherPoint, hotherInstruction, -⟩ := mem_callsOf.mp hcall
  have hunique := instruction_unique hplaced hother (hpoint.trans (hsame.trans hotherPoint.symm))
  rw [hinstruction, hotherInstruction] at hunique
  rw [Instruction.call.inj hunique, hreleases] at hkeeps
  cases hkeeps

theorem ne_of_call {call : Call} {place : Point} {placed other : Placed} (hplaced : placed ∈ function.instructions)
    (hcall : placed.instruction = .call call) (hother : other ∈ function.instructions)
    (hplace : other.point = place) (hne : ∀ made, other.instruction ≠ .call made) : place ≠ placed.point := by
  rintro rfl
  exact hne call ((instruction_unique hother hplaced hplace).trans hcall)

-- On the way from one read to the release, a second read between the two is passed.
theorem passes_second {first second : Point} {before after : List Point}
    (hfirst : Dominates function.graph.Follows ⟨0, 0⟩ first second) (hne : first ≠ second)
    (hsecond : Dominates function.graph.Follows ⟨0, 0⟩ second release.point)
    (hrelease : second ≠ release.point) (hway : Way function (before ++ first :: after) release.point) :
    second ∈ after := by
  have hmem : second ∈ before ++ first :: after := (List.mem_append.mp (hsecond _ hway)).resolve_right
    fun hlast => hrelease (List.mem_singleton.mp hlast)
  obtain ⟨front, back, hsplit⟩ := List.append_of_mem hmem
  have hpassed := hfirst.between hsecond hne (hsplit ▸ hway).front hway.back
  exact (List.mem_append.mp hpassed).resolve_right fun hlast => hrelease (List.mem_singleton.mp hlast)

theorem handedOn_of_samePointer {dominates : FlowGraph → Point → Point → Bool}
    (hdominates : ∀ graph first second, dominates graph first second = true →
      Dominates graph.Follows ⟨0, 0⟩ first second)
    (hcreation : creation ∈ creations function) (hrelease : release ∈ frees function)
    {argument released : Operand} (hargument : argument ∈ creation.call.operands)
    (hreleased : released ∈ release.call.operands) (hread : ReadsBeforeUse function)
    (hfreed : dominates function.graph creation.point release.point = true)
    (hsame : samePointer function dominates argument.value released.value release.point = true) :
    HandedOn function creation.point release.point argument.value released.value := by
  by_cases hvalue : argument.value = released.value
  · exact .inl hvalue
  · right
    unfold samePointer at hsame
    rw [decide_eq_false hvalue, Bool.false_or] at hsame
    split at hsame
    · rename_i firstLoad slot secondLoad other hfirstValue hsecondValue
      simp only [Bool.and_eq_true, decide_eq_true_eq] at hsame
      obtain ⟨rfl, hkept⟩ := hsame
      unfold slotKept at hkept
      rw [List.all_eq_true] at hkept
      have hcall : creation ∈ calls function := List.mem_of_mem_filter hcreation
      obtain ⟨⟨loaded, hloaded, hloadPoint, pointer, hload⟩, hbefore⟩ :=
        hread creation hcall argument hargument firstLoad _ hfirstValue
      obtain ⟨⟨again, hagain, hagainPoint, address, hagainLoad⟩, hagainBefore⟩ :=
        hread release (mem_frees.mp hrelease).1 released hreleased secondLoad _ hsecondValue
      obtain ⟨made, hmade, hmadePoint, hmadeCall, -⟩ := call_of_creation hcreation
      obtain ⟨freed, hfreedMem, hfreedPoint, hfreedCall, -⟩ := mem_callsOf.mp (mem_frees.mp hrelease).1
      refine ⟨slot, firstLoad, secondLoad, hfirstValue, hsecondValue, fun placed hplaced => ?_, ?_⟩
      · have huser := hkept placed hplaced
        split at huser
        · rename_i pointer hinstruction
          exact .inl ⟨pointer, hinstruction⟩
        · rename_i stored pointer hinstruction
          simp only [Bool.and_eq_true, decide_eq_true_eq] at huser
          exact .inr ⟨placed, (mem_users.mp hplaced).1, rfl, stored, pointer, hinstruction, huser.1⟩
        · cases huser
      · intro before middle rest hway hfresh hmiddle hrest hlast
        have hloadNe : firstLoad ≠ creation.point := hmadePoint ▸
          ne_of_call hmade hmadeCall hloaded hloadPoint (by simp [hload])
        have hloadRelease : firstLoad ≠ release.point := hfreedPoint ▸
          ne_of_call hfreedMem hfreedCall hloaded hloadPoint (by simp [hload])
        refine ⟨?_, fun hlater => ?_⟩
        · rintro place hplace ⟨placed, hplaced, rfl, stored, pointer, hstore, hslot⟩
          have huser := hkept placed
            (mem_users.mpr ⟨hplaced, pointer, by simp [hstore, Instruction.operands], hslot⟩)
          rw [hstore] at huser
          simp only [Bool.and_eq_true, Bool.or_eq_true] at huser
          have hwriteRelease : placed.point ≠ release.point := hfreedPoint ▸
            ne_of_call hfreedMem hfreedCall hplaced rfl (by simp [hstore])
          obtain ⟨hmiddleFree, hrestFree⟩ := hway.not_between hbefore (hdominates _ _ _ hfreed)
            (huser.2.imp (hdominates _ _ _) (hdominates _ _ _)) hfresh hmiddle hrest hlast hloadNe
            (point_ne_release hcreation hrelease) hloadRelease hwriteRelease
          rcases List.mem_append.mp hplace with hmem | hmem
          · exact hmiddleFree hmem
          · exact hrestFree hmem
        · have hne : firstLoad ≠ secondLoad := fun hloads => hvalue (by rw [hfirstValue, hsecondValue, hloads])
          have hagainRelease : secondLoad ≠ release.point := hfreedPoint ▸
            ne_of_call hfreedMem hfreedCall hagain hagainPoint (by simp [hagainLoad])
          have hagainCreation : secondLoad ≠ creation.point := hmadePoint ▸
            ne_of_call hmade hmadeCall hagain hagainPoint (by simp [hagainLoad])
          have hsplit : before ++ firstLoad :: middle ++ creation.point :: rest =
              before ++ firstLoad :: (middle ++ creation.point :: rest) := by simp
          have hpassed := passes_second hlater hne hagainBefore hagainRelease (hsplit ▸ hway)
          simp only [List.mem_append, List.mem_cons] at hpassed ⊢
          exact hpassed.imp_right fun hmem => hmem.resolve_left hagainCreation
    · cases hsame

-- A free that is told of comes after the creation on every way to it, and on some such way, where there is
-- any, past no end of the thread. It is of what the thread was handed and uses.
theorem frees_while_running (completions : ThreadCompletions module)
    (dominates : FlowGraph → Point → Point → Bool)
    (hdominates : ∀ graph first second, dominates graph first second = true →
      Dominates graph.Follows ⟨0, 0⟩ first second)
    (hread : ∀ function ∈ module.functions, ReadsBeforeUse function)
    (fact : ThreadArgumentFreeFact) (hfact : fact ∈ (collect completions dominates).frees) :
    ∃ function ∈ module.functions, ∃ creation ∈ creations function, ∃ release ∈ frees function,
      ∃ entry argument released, @entryOf module creation.call = some entry ∧ usesArgument entry = true ∧
        creation.call.operands[kArgumentOperandIndex]? = some argument ∧
        release.call.operands.head? = some released ∧
        fact = {
          functionId := function.id
          entryFunctionId := entry.displayName
          creationLocation := creation.call.userLocation
          freeLocation := release.call.userLocation } ∧
        Dominates function.graph.Follows ⟨0, 0⟩ creation.point release.point ∧
        HandedOn function creation.point release.point argument.value released.value ∧
        ∀ before, Way function before release.point →
          Uncompleted function.graph (endsOf function completions creation) creation.point release.point := by
  unfold collect at hfact
  simp only [List.mem_flatMap, List.mem_filterMap] at hfact
  obtain ⟨function, hdefined, creation, hcreation, hfact⟩ := hfact
  have hfunction := (List.mem_filter.mp hdefined).1
  unfold freeFact at hfact
  split at hfact
  · cases hfact
  · obtain ⟨entry, hentry, hfact⟩ := Option.bind_eq_some_iff.mp hfact
    obtain ⟨argument, hargument, hfact⟩ := Option.bind_eq_some_iff.mp hfact
    split at hfact
    · rename_i huses
      obtain ⟨release, hfind, rfl⟩ := Option.map_eq_some_iff.mp hfact
      have hrelease := List.mem_of_find?_eq_some hfind
      have hreleases := List.find?_some hfind
      simp only [releasesArgument, Bool.and_eq_true, Bool.not_eq_true', Option.any_eq_true] at hreleases
      obtain ⟨⟨hfreed, hrunning⟩, released, hreleased, hsame⟩ := hreleases
      refine ⟨function, hfunction, creation, hcreation, release, hrelease, entry, argument, released,
        hentry, huses, hargument, hreleased, rfl, hdominates _ _ _ hfreed, ?_, fun before hway => ?_⟩
      · exact handedOn_of_samePointer hdominates hcreation hrelease (List.mem_of_getElem? hargument)
          (List.mem_of_head? hreleased) (hread function hfunction) hfreed hsame
      · have hpassed := hdominates _ _ _ hfreed before hway
        have hmem : creation.point ∈ before := (List.mem_append.mp hpassed).resolve_right fun hlast =>
          point_ne_release hcreation hrelease (List.mem_singleton.mp hlast)
        obtain ⟨front, back, rfl⟩ := List.append_of_mem hmem
        have hfollows := uncompleted_of_chain back hway.back
        by_contra hended
        have hends := (endedAt_iff completions hfunction hcreation release.point).mpr
          ⟨hfollows, hended⟩
        rw [hends] at hrunning
        cases hrunning
    · cases hfact

section Handed

-- An order that holds of two instructions of one block.
def inBlock (_ : FlowGraph) (first second : Point) : Bool :=
  first.block = second.block && decide (first.index ≤ second.index)

theorem dominates_inBlock (graph : FlowGraph) (first second : Point)
    (h : inBlock graph first second = true) : Dominates graph.Follows ⟨0, 0⟩ first second := by
  obtain ⟨block, index⟩ := first
  simp only [inBlock, Bool.and_eq_true, decide_eq_true_eq] at h
  intro before hrun
  induction before using List.reverseRecOn generalizing second with
  | nil =>
      obtain rfl : second = ⟨0, 0⟩ := by simpa using hrun.head
      obtain ⟨rfl, hindex⟩ := h
      rw [Nat.le_zero.mp hindex]
      exact List.mem_singleton_self _
  | append_singleton before place ih =>
      obtain ⟨move, htakes⟩ : graph.Follows place second := List.isChain_pair.mp hrun.back
      cases htakes with
      | @onward next past _ =>
          by_cases hlast : index = past + 1
          · subst hlast
            obtain rfl : block = next := h.1
            simp
          · refine List.mem_append_left _ (ih ⟨next, past⟩ ⟨h.1, ?_⟩ hrun.front)
            have hle : index ≤ past + 1 := h.2
            show index ≤ past
            omega
      | edge _ =>
          obtain ⟨rfl, hindex⟩ := h
          rw [Nat.le_zero.mp hindex]
          simp

-- A worker reads what it is handed, and its creator frees that while the worker may run.
def handedSlot (index : Nat) : Operand where
  value := .load ⟨0, index⟩ (.alloca 0)

def reader : Function where
  id := "reader"
  argumentCount := 1
  blocks := [{
    instructions := [(.load { value := .other 0, rootArgument := some 0 }, {}), (.other [], {})]
    exit := .ret }]

def handingOver : Call where
  kind := .PThreadCreate
  callable := .function "reader"
  operands := [{ value := .alloca 1, pointer := .alloca "t" }, { value := .null }, { value := .other 1 }, handedSlot 1]
  userLocation := { file := "a.c", line := 5 }

def freeing : Call where
  releasesMemory := true
  operands := [handedSlot 3]
  userLocation := { file := "a.c", line := 6 }

def handing : Function where
  id := "start"
  blocks := [{
    instructions := [(.store { value := .other 0 } { value := .alloca 0 }, {}), (.load { value := .alloca 0 }, {}),
      (.call handingOver, {}), (.load { value := .alloca 0 }, {}), (.call freeing, {}), (.other [], {})]
    exit := .ret }]

def handingModule : Module where
  functions := [reader, handing]

-- The joins that name an instruction name one that another follows in its block.
def waitsInside (function : Function) (placed : Placed) : Bool :=
  match placed.instruction with
  | .call call => call.success.all fun
    | .after point => point.index + 1 ≠ function.graph.length point.block
    | .branch _ _ => false
  | _ => true

def joinsAlone (module : Module)
    (h : module.functions.all (fun function => function.instructions.all (waitsInside function)) = true) :
    ThreadCompletions module where
  ended _ _ := none
  ofCompletions := by simp
  ofJoins function hfunction placed hplaced call hcall success hsuccess := by
    have hinside := List.all_eq_true.mp (List.all_eq_true.mp h function hfunction) placed hplaced
    simp only [waitsInside, hcall, Option.mem_def.mp hsuccess, Option.all_some] at hinside
    cases success with
    | after point =>
        refine ⟨by simp, fun other hsame hend => absurd hend ?_⟩
        obtain rfl := JoinSuccess.after.inj hsame
        simpa using hinside
    | branch => cases hinside

def handingCompletions : ThreadCompletions handingModule := joinsAlone handingModule (by decide +kernel)

theorem call_handing {function : Function} {site : Creation} (hfunction : function ∈ handingModule.functions)
    (h : site ∈ calls function) :
    function = handing ∧ (site = ⟨⟨0, 2⟩, handingOver⟩ ∨ site = ⟨⟨0, 4⟩, freeing⟩) := by
  rcases List.mem_cons.mp hfunction with rfl | hfunction
  · rw [show calls reader = [] by decide +kernel] at h
    cases h
  · obtain rfl := List.mem_singleton.mp hfunction
    rw [show calls handing = [⟨⟨0, 2⟩, handingOver⟩, ⟨⟨0, 4⟩, freeing⟩] by decide +kernel] at h
    exact ⟨rfl, by simpa using h⟩

theorem readsBeforeUse_handing : ∀ function ∈ handingModule.functions, ReadsBeforeUse function := by
  intro function hfunction site hsite operand hoperand load pointer hvalue
  have hread (index : Nat) (hmem : ⟨⟨0, index⟩, .load { value := .alloca 0 }, {}⟩ ∈ handing.instructions)
      (last : Nat) (hle : index ≤ last) : ReadBefore handing ⟨0, index⟩ ⟨0, last⟩ :=
    ⟨⟨_, hmem, rfl, _, rfl⟩, dominates_inBlock handing.graph _ _ (by simpa [inBlock] using hle)⟩
  obtain ⟨rfl, rfl | rfl⟩ := call_handing hfunction hsite
  · have hload : load = ⟨0, 1⟩ := by
      simp only [handingOver, handedSlot, List.mem_cons, List.not_mem_nil, or_false] at hoperand
      rcases hoperand with rfl | rfl | rfl | rfl <;> cases hvalue
      rfl
    exact hload ▸ hread 1 (by decide +kernel) 2 (by decide)
  · have hload : load = ⟨0, 3⟩ := by
      simp only [freeing, handedSlot, List.mem_singleton] at hoperand
      subst hoperand
      cases hvalue
      rfl
    exact hload ▸ hread 3 (by decide +kernel) 4 (by decide)

theorem frees_while_running_handing :
    Dominates handing.graph.Follows ⟨0, 0⟩ ⟨0, 2⟩ ⟨0, 4⟩ ∧
      HandedOn handing ⟨0, 2⟩ ⟨0, 4⟩ (handedSlot 1).value (handedSlot 3).value := by
  obtain ⟨function, hfunction, creation, hcreation, release, hrelease, entry, argument, released, -, -, hargument,
      hreleased, -, hdominates, hhanded, -⟩ :=
    frees_while_running handingCompletions inBlock dominates_inBlock readsBeforeUse_handing
      ⟨"start", "", handingOver.userLocation, freeing.userLocation⟩ (.head _)
  obtain ⟨rfl, -⟩ := call_handing hfunction (List.mem_of_mem_filter hcreation)
  rw [show creations handing = [⟨⟨0, 2⟩, handingOver⟩] by decide +kernel, List.mem_singleton] at hcreation
  rw [show frees handing = [⟨⟨0, 4⟩, freeing⟩] by decide +kernel, List.mem_singleton] at hrelease
  subst hcreation hrelease
  obtain rfl : handedSlot 1 = argument := Option.some_inj.mp hargument
  obtain rfl : handedSlot 3 = released := Option.some_inj.mp hreleased
  exact ⟨hdominates, hhanded⟩

end Handed

end Frees

section Expired

variable {module : Module} {function : Function} {publication : ThreadLocalPublication}

def startsHere (entry : String) (placed : Placed) : Bool := startedEntry placed = some entry

-- A place of a creation that starts an entry, as `entryCreations` finds it.
def createsHere (entry : String) (placed : Placed) : Bool :=
  (callOf placed).any fun creation =>
    !creation.call.releasesMemory && isCreation creation.call &&
      resolveFunctionValue creation.call.callable = some entry

theorem startsByEntry_eq (entry : String) : startsByEntry module entry =
    (module.functions.map fun function => function.instructions.countP (startsHere entry)).sum := by
  unfold startsByEntry
  rw [List.count_flatMap]
  congr 1
  refine List.map_congr_left fun function _ => ?_
  rw [Function.comp_apply, List.count, List.countP_filterMap]
  refine List.countP_congr fun placed _ => ?_
  cases hentry : startedEntry placed <;> simp [startsHere, hentry]

theorem length_entryCreations : (entryCreations function publication).length =
    function.instructions.countP (createsHere publication.entry.id) := by
  unfold entryCreations creations calls
  rw [List.filter_filter, ← List.countP_eq_length_filter, List.countP_filterMap]
  refine List.countP_congr fun placed _ => ?_
  unfold createsHere
  cases callOf placed <;> simp [and_comm, and_assoc]

theorem startsHere_of_createsHere {entry : String} {placed : Placed} (h : createsHere entry placed = true) :
    startsHere entry placed = true := by
  unfold createsHere at h
  obtain ⟨creation, hcall, hcreates⟩ := Option.any_eq_true _ _ |>.mp h
  unfold callOf at hcall
  split at hcall
  · rename_i call hinstruction
    split at hcall
    · obtain rfl := Option.some_inj.mp hcall
      simp only [Bool.and_eq_true, isCreation, Bool.or_eq_true, decide_eq_true_eq] at hcreates
      obtain ⟨⟨-, hkind⟩, hentry⟩ := hcreates
      have hstarts : (call.kind = .PThreadCreate ∨ call.kind = .StdThreadCtor) ∧
          entryIndexOf call.kind < call.operands.length := by
        rcases hkind with ⟨hkind, hoperands⟩ | ⟨hkind, hoperands⟩
        · refine ⟨.inl hkind, ?_⟩
          rw [entryIndexOf, if_pos hkind]
          exact Nat.lt_of_succ_lt hoperands
        · refine ⟨.inr hkind, ?_⟩
          rw [entryIndexOf, if_neg (by simp [hkind])]
          exact hoperands
      have hstarted : startedEntry placed = some entry := by
        unfold startedEntry
        rw [hinstruction]
        dsimp only
        rw [if_pos hstarts, hentry]
      exact decide_eq_true hstarted
    · cases hcall
  · cases hcall

theorem countP_le_sum {count : Function → Nat} (h : function ∈ module.functions) :
    ∃ rest : List Function, (module.functions.map count).sum = count function + (rest.map count).sum ∧
      ∀ other ∈ module.functions, other = function ∨ other ∈ rest := by
  obtain ⟨front, back, hsplit⟩ := List.append_of_mem h
  refine ⟨front ++ back, ?_, fun other hother => ?_⟩
  · rw [hsplit, List.map_append, List.map_cons, List.sum_append, List.sum_cons, List.map_append, List.sum_append]
    omega
  · rw [hsplit] at hother
    simpa [or_comm, or_left_comm] using hother

-- Where the creations of a function are as many as the starts of an entry, no start is elsewhere.
theorem starts_are_creations (hfunction : function ∈ module.functions)
    (hcount : (entryCreations function publication).length = startsByEntry module publication.entry.id)
    {other : Function} (hother : other ∈ module.functions) {start : Placed}
    (hstart : start ∈ other.instructions) (hstarts : startedEntry start = some publication.entry.id) :
    other = function ∧ ∃ creation ∈ entryCreations function publication, creation.point = start.point := by
  rw [length_entryCreations, startsByEntry_eq] at hcount
  obtain ⟨rest, hsum, hrest⟩ := @countP_le_sum module function
    (fun function => function.instructions.countP (startsHere publication.entry.id)) hfunction
  have hle : function.instructions.countP (createsHere publication.entry.id) ≤
      function.instructions.countP (startsHere publication.entry.id) :=
    List.countP_mono_left fun placed _ h => startsHere_of_createsHere h
  have hhere : startsHere publication.entry.id start = true := decide_eq_true hstarts
  have hsame : other = function := by
    refine (hrest other hother).resolve_right fun hmem => ?_
    have hpos : 0 < other.instructions.countP (startsHere publication.entry.id) :=
      List.countP_pos_iff.mpr ⟨start, hstart, hhere⟩
    have hpart := List.single_le_sum (l := rest.map fun function =>
      function.instructions.countP (startsHere publication.entry.id)) (by simp) _ (List.mem_map_of_mem hmem)
    omega
  subst hsame
  refine ⟨rfl, ?_⟩
  -- as many of the instructions pass the narrower test as the wider, so the same do
  have hall : other.instructions.countP (createsHere publication.entry.id) =
      other.instructions.countP (startsHere publication.entry.id) := by omega
  have hfilter : other.instructions.filter (createsHere publication.entry.id) =
      other.instructions.filter (startsHere publication.entry.id) := by
    refine (List.monotone_filter_right _ fun placed h => startsHere_of_createsHere h).eq_of_length ?_
    rwa [List.countP_eq_length_filter, List.countP_eq_length_filter] at hall
  have hcreates : createsHere publication.entry.id start = true := by
    have hmem : start ∈ other.instructions.filter (startsHere publication.entry.id) :=
      List.mem_filter.mpr ⟨hstart, hhere⟩
    rw [← hfilter] at hmem
    exact (List.mem_filter.mp hmem).2
  obtain ⟨creation, hcall, hcreates⟩ := Option.any_eq_true _ _ |>.mp hcreates
  simp only [Bool.and_eq_true, decide_eq_true_eq] at hcreates
  refine ⟨creation, ?_, ?_⟩
  · refine List.mem_filter.mpr ⟨List.mem_filter.mpr ⟨List.mem_filterMap.mpr ⟨start, hstart, hcall⟩, ?_⟩, ?_⟩
    · simp [hcreates.1.1, hcreates.1.2]
    · simp [hcreates.2]
  · unfold callOf at hcall
    split at hcall
    · split at hcall
      · rw [← Option.some_inj.mp hcall]
      · cases hcall
    · cases hcall

-- Whatever is written to a published pointer, apart from null, is written by one store.
theorem written_once (h : publication ∈ threadLocalPublications module) {other : Function}
    (hother : other ∈ module.functions) {placed : Placed}
    (hplaced : placed ∈ other.users (.global publication.pointer)) :
    (∃ pointer, placed.instruction = .load pointer) ∨
      (∃ stored pointer, placed.instruction = .store stored pointer ∧ stored.value = .null) ∨
      (other = publication.entry ∧ placed = publication.store) := by
  obtain ⟨global, -, hpublication⟩ := List.mem_filterMap.mp h
  unfold publicationOf at hpublication
  split at hpublication
  · cases hpublication
  · split at hpublication
    · rename_i function store stored huses
      obtain ⟨threadLocal, -, rfl⟩ := Option.map_eq_some_iff.mp hpublication
      have hmem : pointerUse global.name other placed ∈ pointerUses module global.name :=
        List.mem_flatMap.mpr ⟨other, hother, List.mem_map_of_mem hplaced⟩
      by_cases hharmless : isHarmless (pointerUse global.name other placed) = true
      · unfold pointerUse at hharmless
        split at hharmless
        · exact .inl ⟨_, ‹_›⟩
        · rename_i value address hstore
          split at hharmless
          · cases hharmless
          · split at hharmless
            · exact .inr (.inl ⟨value, address, hstore, ‹_›⟩)
            · cases hharmless
        · cases hharmless
      · have hkept : pointerUse global.name other placed ∈
            (pointerUses module global.name).filter (!isHarmless ·) :=
          List.mem_filter.mpr ⟨hmem, by simpa using hharmless⟩
        rw [huses, List.mem_singleton] at hkept
        unfold pointerUse at hkept
        split at hkept
        · cases hkept
        · split at hkept
          · cases hkept
          · split at hkept
            · cases hkept
            · obtain ⟨rfl, rfl, -⟩ := PointerUse.publishes.inj hkept
              exact .inr (.inr ⟨rfl, rfl⟩)
        · cases hkept
    · cases hpublication

-- A use of a thread-local that is told of reads through a pointer that one store of its entry fills, and
-- every thread the program starts at that entry is started on the way there and has ended before.
theorem expired_uses_ended (completions : ThreadCompletions module)
    (dominates : FlowGraph → Point → Point → Bool) (fact : ExpiredThreadLocalFact)
    (hfact : fact ∈ (collect completions dominates).expiredThreadLocals) :
    ∃ function ∈ module.functions, ∃ publication ∈ threadLocalPublications module,
      ∃ use ∈ function.instructions, ∃ address,
        fact = {
          functionId := function.id
          entryFunctionId := publication.entry.displayName
          threadLocal := publication.threadLocal
          pointer := publication.pointer
          publishLocation := publication.store.userLocation
          useLocation := use.userLocation } ∧
        addressOf use.instruction = some address ∧
        readFrom function publication.pointer kMaxSlotHops address = true ∧
        onlyRunsAsThreadEntry module publication.entry.id = true ∧
        (∀ other ∈ module.functions, ∀ placed ∈ other.users (.global publication.pointer),
          (∃ pointer, placed.instruction = .load pointer) ∨
            (∃ stored pointer, placed.instruction = .store stored pointer ∧ stored.value = .null) ∨
            (other = publication.entry ∧ placed = publication.store)) ∧
        ∀ other ∈ module.functions, ∀ start ∈ other.instructions,
          startedEntry start = some publication.entry.id →
            other = function ∧ ∃ creation ∈ creations function, creation.point = start.point ∧
              Uncompleted function.graph [] start.point use.point ∧
              ¬Uncompleted function.graph (endsOf function completions creation) start.point use.point := by
  unfold collect at hfact
  simp only [List.mem_flatMap] at hfact
  obtain ⟨function, hdefined, hfact⟩ := hfact
  have hfunction := (List.mem_filter.mp hdefined).1
  split at hfact
  · cases hfact
  · obtain ⟨publication, hpublication, hfact⟩ := List.mem_filterMap.mp hfact
    unfold expiredFact at hfact
    dsimp only at hfact
    split at hfact
    · cases hfact
    · rename_i hnone
      simp only [Bool.or_eq_true, Bool.not_eq_true', decide_eq_true_eq, not_or, Bool.not_eq_false,
        ne_eq, not_not] at hnone
      obtain ⟨⟨-, hentry⟩, hcount⟩ := hnone
      obtain ⟨use, huse, rfl⟩ := Option.map_eq_some_iff.mp hfact
      obtain ⟨block, hblock, hfind⟩ := List.exists_of_findSome?_eq_some huse
      have hmem : use ∈ function.instructions :=
        List.mem_flatten.mpr ⟨block, hblock, List.mem_of_find?_eq_some hfind⟩
      have hexpired := List.find?_some hfind
      unfold isExpiredUse at hexpired
      obtain ⟨address, haddress, hexpired⟩ := Option.any_eq_true _ _ |>.mp hexpired
      simp only [Bool.and_eq_true, List.all_eq_true] at hexpired
      obtain ⟨⟨-, hread⟩, hended⟩ := hexpired
      refine ⟨function, hfunction, publication, hpublication, use, hmem, address, rfl, haddress, hread,
        hentry, fun other hother placed hplaced => written_once hpublication hother hplaced,
        fun other hother start hstart hstarts => ?_⟩
      obtain ⟨hsame, creation, hcreation, hpoint⟩ :=
        starts_are_creations hfunction hcount hother hstart hstarts
      have hcreates := List.mem_of_mem_filter hcreation
      obtain ⟨hreached, hpassed⟩ :=
        (endedAt_iff completions hfunction hcreates use.point).mp (hended creation hcreation)
      exact ⟨hsame, creation, hcreates, hpoint, hpoint ▸ hreached, hpoint ▸ hpassed⟩

section Published

-- A worker publishes the address of a thread-local, which is read through once the worker is joined.
def publisher : Function where
  id := "publisher"
  blocks := [{
    instructions := [
      (.store { value := .threadLocalAddress 0 (.global "cell") } { value := .global "shown" },
        { file := "a.c", line := 2 }), (.other [], {})]
    exit := .ret }]

def publishing : Call where
  kind := .PThreadCreate
  callable := .function "publisher"
  operands := [{ value := .alloca 1, pointer := .alloca "t" }, { value := .null }, { value := .other 1 },
    { value := .null }]

def waiting : Call where
  kind := .PThreadJoin
  operands := [{ value := .load ⟨0, 1⟩ (.alloca 1), pointer := .load (.alloca "t") }, { value := .null }]
  success := some (.after ⟨0, 2⟩)

def waited : Function where
  id := "start"
  blocks := [{
    instructions := [(.call publishing, {}), (.load { value := .alloca 1 }, {}), (.call waiting, {}),
      (.load { value := .global "shown" }, {}),
      (.load { value := .load ⟨0, 3⟩ (.global "shown") }, { file := "a.c", line := 9 }), (.other [], {})]
    exit := .ret }]

def publishingModule : Module where
  functions := [publisher, waited]
  globals := [{ name := "cell", isThreadLocal := true }, { name := "shown" }]

def publishedFact : ExpiredThreadLocalFact where
  functionId := "start"
  entryFunctionId := ""
  threadLocal := "cell"
  pointer := "shown"
  publishLocation := { file := "a.c", line := 2 }
  useLocation := { file := "a.c", line := 9 }

def publishingCompletions : ThreadCompletions publishingModule := joinsAlone publishingModule (by decide +kernel)

def publishingStore : Placed where
  point := ⟨0, 0⟩
  instruction := .store { value := .threadLocalAddress 0 (.global "cell") } { value := .global "shown" }
  userLocation := { file := "a.c", line := 2 }

theorem expired_uses_ended_publishing : ∃ use ∈ waited.instructions,
    use.userLocation = publishedFact.useLocation ∧
      Uncompleted waited.graph [] ⟨0, 0⟩ use.point ∧
      ¬Uncompleted waited.graph [.after ⟨0, 2⟩] ⟨0, 0⟩ use.point := by
  obtain ⟨function, hfunction, publication, hpublication, use, huse, address, hfact, -, -, -, -, hstarts⟩ :=
    expired_uses_ended publishingCompletions inBlock publishedFact (.head _)
  obtain rfl := List.mem_singleton.mp
    (show publication ∈ [⟨"shown", "cell", publisher, publishingStore⟩] from hpublication)
  obtain ⟨rfl, creation, hcreation, hpoint, hreached, hpassed⟩ := hstarts waited (.tail _ (.head _))
    ⟨⟨0, 0⟩, .call publishing, {}⟩ (by decide +kernel) rfl
  rw [show creations waited = [⟨⟨0, 0⟩, publishing⟩] by decide +kernel, List.mem_singleton] at hcreation
  subst hcreation
  rw [show endsOf waited publishingCompletions ⟨⟨0, 0⟩, publishing⟩ = [.after ⟨0, 2⟩] by decide +kernel] at hpassed
  exact ⟨use, huse, (congrArg ExpiredThreadLocalFact.useLocation hfact).symm, hreached, hpassed⟩

end Published

end Expired

end ConcurrencyAnalyzer.ThreadArguments
