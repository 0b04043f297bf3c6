import ConcurrencyAnalyzer.Program.Scalar

namespace ConcurrencyAnalyzer.Program

section Places

variable {function : ScalarFunction} {arguments : Nat → Nat} {events : List CallEvent}
  {state next : CallState} {event : CallEvent}

theorem ScalarFunction.mem_instructions {point : Point} {instruction : Scalar} :
    (point, instruction) ∈ function.instructions ↔
      function.instructionAt point = some instruction := by
  unfold instructions instructionAt
  simp only [List.mem_flatMap, List.mem_map, Prod.exists, List.mem_zipIdx_iff_getElem?,
    Option.bind_eq_some_iff]
  constructor
  · rintro ⟨found, block, hfound, other, index, hother, heq⟩
    rw [Prod.mk.injEq] at heq
    obtain ⟨rfl, rfl⟩ := heq
    exact ⟨found, hfound, hother⟩
  · rintro ⟨found, hfound, hinstruction⟩
    exact ⟨found, point.block, hfound, instruction, point.index, hinstruction, rfl⟩

theorem ScalarFunction.skeleton_block {block : Nat} {found : ScalarBlock}
    (hfound : function.blocks[block]? = some found) :
    function.skeleton.blocks[block]? = some {
      instructions := found.body.map fun _ => .other
      successors := found.terminator.successors } := by
  unfold skeleton
  rw [List.getElem?_map, hfound, Option.map_some]

theorem ScalarFunction.successors_of_block {block : Nat} {found : ScalarBlock}
    (hfound : function.blocks[block]? = some found) :
    function.successors block = found.terminator.successors := by
  unfold successors terminatorOf
  rw [hfound, Option.map_some, Option.map_some, Option.getD_some]

theorem ScalarFunction.skeleton_successors (block : Nat) :
    function.skeleton.successors block = function.successors block := by
  cases hfound : function.blocks[block]? with
  | none =>
      unfold Function.successors successors terminatorOf skeleton
      rw [List.getElem?_map, hfound]
      rfl
  | some found =>
      rw [successors_of_block hfound, Function.successors, skeleton_block hfound]

theorem ScalarFunction.skeleton_instructionAt {point : Point} {instruction : Scalar}
    (h : function.instructionAt point = some instruction) :
    function.skeleton.instructionAt point.block point.index = some .other := by
  obtain ⟨found, hfound, hinstruction⟩ := Option.bind_eq_some_iff.mp h
  unfold Function.instructionAt
  rw [skeleton_block hfound, Option.bind_some, List.getElem?_map, hinstruction, Option.map_some]

theorem ScalarFunction.skeleton_unwindDest (block index : Nat) :
    function.skeleton.unwindDest block index = none := by
  unfold Function.unwindDest
  cases hfound : function.blocks[block]? with
  | none => simp [skeleton, List.getElem?_map, hfound]
  | some found => simp [skeleton_block hfound]

-- An edge was gone along.
def Crosses (events : List CallEvent) (block target : Nat) : Prop :=
  (∃ taken, .branched block taken target ∈ events) ∨ .went block target ∈ events

theorem Crosses.append {block target : Nat} (h : Crosses events block target)
    (later : List CallEvent) : Crosses (events ++ later) block target := by
  rcases h with ⟨taken, hmem⟩ | hmem
  · exact .inl ⟨taken, List.mem_append_left _ hmem⟩
  · exact .inr (List.mem_append_left _ hmem)

-- What a step does to where a call is.
theorem CallStep.cases (h : CallStep function arguments state event next) :
    (event = .ran state.place ∧ (∃ instruction, function.instructionAt state.place = some instruction) ∧
      next.place = ⟨state.place.block, state.place.index + 1⟩) ∨
    (∃ found target, function.blocks[state.place.block]? = some found ∧
      state.place.index = found.body.length ∧ target ∈ found.terminator.successors ∧
      Crosses [event] state.place.block target ∧ next.place = ⟨target, 0⟩ ∧
      (∀ point, event ≠ .ran point) ∧ next.results = state.results ∧ next.slots = state.slots) := by
  cases h with
  | gives hinstruction _ => exact .inl ⟨rfl, ⟨_, hinstruction⟩, rfl⟩
  | stores hinstruction _ => exact .inl ⟨rfl, ⟨_, hinstruction⟩, rfl⟩
  | @branches found condition whenTrue whenFalse value hfound hindex hterminator _ =>
      refine .inr ⟨found, if value ≠ 0 then whenTrue else whenFalse, hfound, hindex, ?_, ?_, rfl,
        fun _ => by rintro ⟨⟩, rfl, rfl⟩
      · rw [hterminator, Terminator.successors]
        split <;> simp
      · exact .inl ⟨_, List.mem_singleton_self _⟩
  | @goes found targets target hfound hindex hterminator htarget =>
      refine .inr ⟨found, target, hfound, hindex, ?_, ?_, rfl, fun _ => by rintro ⟨⟩, rfl, rfl⟩
      · rw [hterminator, Terminator.successors]
        exact htarget
      · exact .inr (List.mem_singleton_self _)

-- A branch on a condition goes by its value.
theorem CallStep.branches_on (h : CallStep function arguments state event next)
    (hnot : ∀ point, event ≠ .ran point) {condition : Operand} {whenTrue whenFalse : Nat}
    (hterminator : function.terminatorOf state.place.block =
      some (.conditional condition whenTrue whenFalse)) :
    ∃ value, state.value arguments condition = some value ∧
      event = .branched state.place.block (if value ≠ 0 then 0 else 1)
        (if value ≠ 0 then whenTrue else whenFalse) ∧
      next.place = ⟨if value ≠ 0 then whenTrue else whenFalse, 0⟩ := by
  unfold ScalarFunction.terminatorOf at hterminator
  cases h with
  | gives _ _ => exact absurd rfl (hnot _)
  | stores _ _ => exact absurd rfl (hnot _)
  | goes hfound _ hunconditional _ =>
      rw [hfound, Option.map_some, hunconditional] at hterminator
      cases hterminator
  | @branches found _ _ _ value hfound _ hconditional hvalue =>
      rw [hfound, Option.map_some, hconditional, Option.some.injEq,
        Terminator.conditional.injEq] at hterminator
      obtain ⟨rfl, rfl, rfl⟩ := hterminator
      exact ⟨value, hvalue, rfl, rfl⟩

theorem CallStep.branched_block {block taken target : Nat}
    (h : CallStep function arguments state (.branched block taken target) next) :
    block = state.place.block := by
  cases h
  rfl

-- A step past anything but an instruction keeps a path clear of it.
theorem CallStep.avoids (hstep : CallStep function arguments state event next) {point : Point}
    (hnot : event ≠ .ran point)
    (h : function.skeleton.Avoids point.block point.index state.place.block state.place.index) :
    function.skeleton.Avoids point.block point.index next.place.block next.place.index := by
  rcases hstep.cases with ⟨rfl, ⟨instruction, hinstruction⟩, hplace⟩ |
    ⟨found, target, hfound, hindex, htarget, _, hplace, _⟩
  · rw [hplace]
    refine .next h (ScalarFunction.skeleton_instructionAt hinstruction) fun heq => hnot ?_
    rw [Prod.mk.injEq] at heq
    obtain ⟨block, index⟩ := point
    dsimp only at heq
    rw [← heq.1, ← heq.2]
  · rw [hplace]
    refine .branch ?_ (ScalarFunction.skeleton_block hfound) htarget
    rw [List.length_map, ← hindex]
    exact h

-- An instruction that has not run was not passed on the way.
theorem CallRun.avoids (h : CallRun function arguments events state) {point : Point}
    (hnot : .ran point ∉ events) :
    function.skeleton.Avoids point.block point.index state.place.block state.place.index := by
  induction h with
  | enter => exact .entry
  | @step events state event next _ hstep ih =>
      rw [List.mem_append, List.mem_singleton, not_or] at hnot
      exact hstep.avoids (fun heq => hnot.2 heq.symm) (ih hnot.1)

-- The blocks got to are entered along the edges gone along.
theorem CallRun.enters (h : CallRun function arguments events state) :
    function.skeleton.Enters (Crosses events) state.place.block := by
  induction h with
  | enter => exact .entry
  | @step events state event next _ hstep ih =>
      have hbefore := ih.mono fun _ _ hcrosses => hcrosses.append [event]
      rcases hstep.cases with ⟨rfl, _, hplace⟩ | ⟨found, target, hfound, _, htarget, hcrosses, hplace, _⟩
      · rw [hplace]
        exact hbefore
      · rw [hplace]
        refine .branch hbefore ?_ ?_
        · rw [ScalarFunction.skeleton_successors, ScalarFunction.successors_of_block hfound]
          exact htarget
        · rcases hcrosses with ⟨taken, hmem⟩ | hmem
          · exact .inl ⟨taken, List.mem_append_right _ hmem⟩
          · exact .inr (List.mem_append_right _ hmem)

-- Where a call is can be reached.
theorem CallRun.reachable (h : CallRun function arguments events state) :
    state.place.block ∈ function.skeleton.reachable := by
  have hreached {block : Nat} (henters : function.skeleton.Enters (Crosses events) block) :
      block ∈ function.skeleton.reachable := by
    induction henters with
    | entry => exact Function.entry_reachable _
    | branch _ hsuccessor _ ih => exact Function.reachable_successor ih hsuccessor
  exact hreached h.enters

-- No path gets to a place without the instructions that dominate it.
theorem ScalarFunction.not_avoids_of_dominates {first place : Point} {dominating : Scalar}
    (hfirst : function.instructionAt first = some dominating)
    (hdominates : function.dominates first place = true) :
    ¬function.skeleton.Avoids first.block first.index place.block place.index := by
  intro havoids
  obtain ⟨found, hfound, hfirstIndex⟩ := Option.bind_eq_some_iff.mp hfirst
  have hindex : first.index < (found.body.map fun _ => Instruction.other).length := by
    rw [List.length_map]
    exact (List.getElem?_eq_some_iff.mp hfirstIndex).1
  obtain ⟨hbefore, hmem⟩ := havoids.before (ScalarFunction.skeleton_block hfound) hindex
    (ScalarFunction.skeleton_unwindDest _ _)
  unfold ScalarFunction.dominates at hdominates
  split at hdominates
  · rename_i hblock
    have hle := hbefore hblock.symm
    rw [decide_eq_true_eq] at hdominates
    omega
  · rename_i hblock
    simp only [Function.blockDominates, Bool.or_eq_true, decide_eq_true_eq] at hdominates
    rcases hdominates with heq | hnotMem
    · exact hblock heq.symm
    · exact hnotMem hmem

-- The instructions that dominate where a call is have run.
theorem CallRun.ran_of_dominates (h : CallRun function arguments events state) {first : Point}
    {dominating : Scalar} (hfirst : function.instructionAt first = some dominating)
    (hdominates : function.dominates first state.place = true) : .ran first ∈ events := by
  by_contra hnot
  exact ScalarFunction.not_avoids_of_dominates hfirst hdominates (h.avoids hnot)

-- With what has run, the instructions that dominate it have.
theorem CallRun.ran_of_ran (h : CallRun function arguments events state) {first point : Point}
    {dominating : Scalar} (hfirst : function.instructionAt first = some dominating)
    (hdominates : function.dominates first point = true) (hran : .ran point ∈ events) :
    .ran first ∈ events := by
  induction h with
  | enter => exact absurd hran List.not_mem_nil
  | @step events state event next hrun hstep ih =>
      refine List.mem_append_left _ ?_
      rcases List.mem_append.mp hran with hbefore | hnow
      · exact ih hbefore
      · rw [List.mem_singleton] at hnow
        rcases hstep.cases with ⟨heq, _, _⟩ | ⟨_, _, _, _, _, _, _, hnot, _⟩
        · rw [heq, CallEvent.ran.injEq] at hnow
          rw [hnow] at hdominates
          exact hrun.ran_of_dominates hfirst hdominates
        · exact absurd hnow.symm (hnot point)

-- Where a call is at an instruction of a block that an edge dominates, it has gone along the edge.
theorem CallRun.crosses_of_edgeDominates (h : CallRun function arguments events state)
    {block successor : Nat}
    (hdominates : function.skeleton.edgeDominates block successor state.place.block = true) :
    Crosses events block successor := by
  by_contra hnot
  exact Function.not_enters_of_edgeDominates hdominates hnot h.enters

-- What has run ran with the edges that dominate its block gone along.
theorem CallRun.crosses_of_ran (h : CallRun function arguments events state) {point : Point}
    (hran : .ran point ∈ events) {block successor : Nat}
    (hdominates : function.skeleton.edgeDominates block successor point.block = true) :
    Crosses events block successor := by
  induction h with
  | enter => exact absurd hran List.not_mem_nil
  | @step events state event next hrun hstep ih =>
      rcases List.mem_append.mp hran with hbefore | hnow
      · exact (ih hbefore).append [event]
      · rw [List.mem_singleton] at hnow
        have hplace : point = state.place := by
          rcases hstep.cases with ⟨heq, _, _⟩ | ⟨_, _, _, _, _, _, _, hnot, _⟩
          · rw [heq, CallEvent.ran.injEq] at hnow
            exact hnow
          · exact absurd hnow.symm (hnot point)
        subst hplace
        exact (hrun.crosses_of_edgeDominates hdominates).append [event]

-- A path along edges, of one or more.
def ScalarFunction.Leads (function : ScalarFunction) : Nat → Nat → Prop :=
  Relation.TransGen fun block successor => successor ∈ function.successors block

-- From what has run a path leads to where the call is.
theorem CallRun.leads (h : CallRun function arguments events state) {point : Point}
    (hran : .ran point ∈ events) :
    (point.block = state.place.block ∧ point.index < state.place.index) ∨
      function.Leads point.block state.place.block := by
  induction h with
  | enter => exact absurd hran List.not_mem_nil
  | @step events state event next _ hstep ih =>
      rcases hstep.cases with ⟨rfl, _, hplace⟩ | ⟨found, target, hfound, _, htarget, _, hplace, hnot, _⟩
      · rw [hplace]
        rcases List.mem_append.mp hran with hbefore | hnow
        · rcases ih hbefore with ⟨hblock, hindex⟩ | hleads
          · exact .inl ⟨hblock, Nat.lt_succ_of_lt hindex⟩
          · exact .inr hleads
        · rw [List.mem_singleton, CallEvent.ran.injEq] at hnow
          rw [hnow]
          exact .inl ⟨rfl, Nat.lt_succ_self _⟩
      · have hsuccessor : target ∈ function.successors state.place.block := by
          rw [ScalarFunction.successors_of_block hfound]
          exact htarget
        have hbefore : .ran point ∈ events := by
          rcases List.mem_append.mp hran with hbefore | hnow
          · exact hbefore
          · exact absurd (List.mem_singleton.mp hnow).symm (hnot point)
        rw [hplace]
        rcases ih hbefore with ⟨hblock, _⟩ | hleads
        · rw [hblock]
          exact .inr (.single hsuccessor)
        · exact .inr (hleads.tail hsuccessor)

-- What runs again is on a cycle.
theorem CallRun.leads_back (h : CallRun function arguments events state)
    (hran : .ran state.place ∈ events) : function.Leads state.place.block state.place.block := by
  rcases h.leads hran with ⟨_, hindex⟩ | hleads
  · exact absurd hindex (lt_irrefl _)
  · exact hleads

-- An instruction has a result only once it has run.
theorem CallRun.ran_of_result (h : CallRun function arguments events state) {point : Point}
    {value : Nat} (hresult : state.results point = some value) : .ran point ∈ events := by
  induction h with
  | enter => cases hresult
  | @step events state event next _ hstep ih =>
      cases hstep with
      | gives _ _ =>
          dsimp only at hresult
          by_cases heq : point = state.place
          · exact List.mem_append_right _ (heq ▸ List.mem_singleton_self _)
          · rw [Function.update_of_ne heq] at hresult
            exact List.mem_append_left _ (ih hresult)
      | stores _ _ => exact List.mem_append_left _ (ih hresult)
      | branches _ _ _ _ => exact List.mem_append_left _ (ih hresult)
      | goes _ _ _ _ => exact List.mem_append_left _ (ih hresult)

-- An edge of a branch on a condition is gone along by branching.
theorem CallRun.branched_of_crosses (h : CallRun function arguments events state)
    {block target : Nat} {condition : Operand} {whenTrue whenFalse : Nat}
    (hterminator : function.terminatorOf block = some (.conditional condition whenTrue whenFalse))
    (hcrosses : Crosses events block target) : ∃ taken, .branched block taken target ∈ events := by
  rcases hcrosses with hbranched | hwent
  · exact hbranched
  · induction h with
    | enter => exact absurd hwent List.not_mem_nil
    | @step events state event next _ hstep ih =>
        rcases List.mem_append.mp hwent with hbefore | hnow
        · obtain ⟨taken, hbranched⟩ := ih hbefore
          exact ⟨taken, List.mem_append_left _ hbranched⟩
        · rw [List.mem_singleton] at hnow
          cases hstep with
          | gives _ _ => cases hnow
          | stores _ _ => cases hnow
          | branches _ _ _ _ => cases hnow
          | goes hfound _ hunconditional _ =>
              rw [CallEvent.went.injEq] at hnow
              rw [ScalarFunction.terminatorOf, hnow.1, hfound, Option.map_some,
                hunconditional] at hterminator
              cases hterminator

theorem CallRun.taken_le (h : CallRun function arguments events state) {block taken target : Nat}
    (hbranched : .branched block taken target ∈ events) : taken ≤ 1 := by
  induction h with
  | enter => exact absurd hbranched List.not_mem_nil
  | step _ hstep ih =>
      rcases List.mem_append.mp hbranched with hbefore | hnow
      · exact ih hbefore
      · rw [List.mem_singleton] at hnow
        cases hstep with
        | gives _ _ => cases hnow
        | stores _ _ => cases hnow
        | goes _ _ _ _ => cases hnow
        | branches _ _ _ _ =>
            rw [CallEvent.branched.injEq] at hnow
            rw [hnow.2.1]
            split <;> omega

end Places

section Values

def Scalar.operands : Scalar → List Operand
  | .store _ value _ => [value]
  | .cast _ value => [value]
  | .icmp _ _ lhs rhs => [lhs, rhs]
  | .add _ lhs rhs => [lhs, rhs]
  | .element base index _ => [base, index]
  | _ => []

-- What has happened since an instruction last ran, the latest first.
def sinceLast (events : List CallEvent) (point : Point) : List CallEvent :=
  events.reverse.takeWhile (· ≠ .ran point)

-- What an instruction used has not been computed again.
def staysSince (events : List CallEvent) (point : Point) : Operand → Bool
  | .result used => used ≠ point && decide (.ran used ∉ sinceLast events point)
  | _ => true

variable {function : ScalarFunction} {arguments : Nat → Nat} {events : List CallEvent}
  {state next : CallState} {event : CallEvent} {point : Point} {operand : Operand}
  {instruction : Scalar} {value : Nat} {slot : String}

theorem sinceLast_other (hne : event ≠ .ran point) :
    sinceLast (events ++ [event]) point = event :: sinceLast events point := by
  simp [sinceLast, hne]

theorem staysSince_append (hne : event ≠ .ran point)
    (h : staysSince (events ++ [event]) point operand = true) :
    staysSince events point operand = true ∧ ∀ used, operand = .result used → event ≠ .ran used := by
  cases operand with
  | constant width value => exact ⟨rfl, fun _ hused => by cases hused⟩
  | argument index => exact ⟨rfl, fun _ hused => by cases hused⟩
  | result used =>
      simp only [staysSince, sinceLast_other hne, Bool.and_eq_true, decide_eq_true_eq, List.mem_cons,
        not_or] at h ⊢
      refine ⟨⟨h.1, h.2.2⟩, ?_⟩
      rintro _ ⟨⟩ rfl
      exact h.2.1 rfl

-- A step changes the value of no operand but the result of what ran.
theorem CallStep.value_of_ne (hstep : CallStep function arguments state event next)
    (hne : ∀ used, operand = .result used → event ≠ .ran used) :
    next.value arguments operand = state.value arguments operand := by
  cases operand with
  | constant width value => rfl
  | argument index => rfl
  | result used =>
      cases hstep with
      | gives _ _ =>
          have hused : used ≠ state.place := fun heq => hne used rfl (heq ▸ rfl)
          exact Function.update_of_ne hused _ _
      | stores _ _ => rfl
      | branches _ _ _ _ => rfl
      | goes _ _ _ _ => rfl

theorem CallStep.slots_of_ne (hstep : CallStep function arguments state event next)
    (hne : ∀ write value width, function.instructionAt write = some (.store slot value width) →
      event ≠ .ran write) : next.slots slot = state.slots slot := by
  cases hstep with
  | gives _ _ => rfl
  | @stores stored _ _ _ hinstruction _ =>
      have hslot : slot ≠ stored := by
        rintro rfl
        exact hne _ _ _ hinstruction rfl
      exact Function.update_of_ne hslot _ _
  | branches _ _ _ _ => rfl
  | goes _ _ _ _ => rfl

theorem CallStep.exposed_subset (hstep : CallStep function arguments state event next) :
    state.exposed ⊆ next.exposed := by
  cases hstep with
  | gives _ _ => exact List.subset_append_right _ _
  | stores _ _ => exact List.Subset.refl _
  | branches _ _ _ _ => exact List.Subset.refl _
  | goes _ _ _ _ => exact List.Subset.refl _

-- An instruction gives again what it gave, while its operands and the slot it loads stay.
theorem CallState.Gives.congr (h : state.Gives arguments instruction value)
    (hoperands : ∀ operand ∈ instruction.operands,
      next.value arguments operand = state.value arguments operand)
    (hslots : ∀ slot width, instruction = .load slot width → next.slots slot = state.slots slot)
    (hexposed : state.exposed ⊆ next.exposed) : next.Gives arguments instruction value := by
  cases instruction with
  | load slot width =>
      intro hkept stored hstored
      rw [hslots slot width rfl] at hstored
      exact h (fun hmem => hkept (hexposed hmem)) stored hstored
  | cast op operand =>
      obtain ⟨given, hgiven, rfl⟩ := h
      exact ⟨given, (hoperands operand (by simp [Scalar.operands])).trans hgiven, rfl⟩
  | icmp predicate width lhs rhs =>
      obtain ⟨left, right, hleft, hright, rfl⟩ := h
      exact ⟨left, right, (hoperands lhs (by simp [Scalar.operands])).trans hleft,
        (hoperands rhs (by simp [Scalar.operands])).trans hright, rfl⟩
  | add width lhs rhs =>
      obtain ⟨left, right, hleft, hright, rfl⟩ := h
      exact ⟨left, right, (hoperands lhs (by simp [Scalar.operands])).trans hleft,
        (hoperands rhs (by simp [Scalar.operands])).trans hright, rfl⟩
  | element base index size =>
      obtain ⟨address, count, hbase, hindex, rfl⟩ := h
      have hsame := hoperands index (by simp [Scalar.operands])
      refine ⟨address, count, (hoperands base (by simp [Scalar.operands])).trans hbase, ?_, rfl⟩
      cases index with
      | constant width number => exact hindex
      | argument number => exact hindex
      | result used =>
          simp only [CallState.index, hsame] at hindex ⊢
          exact hindex
  | store slot operand width => cases h
  | loadElsewhere => trivial
  | phi => trivial
  | other slots => trivial

theorem CallRun.not_store_of_result (h : CallRun function arguments events state)
    (hresult : state.results point = some value) {written : Operand} {width : Nat} :
    function.instructionAt point ≠ some (.store slot written width) := by
  intro hstore
  induction h with
  | enter => cases hresult
  | @step events state event next _ hstep ih =>
      cases hstep with
      | gives hinstruction hgives =>
          dsimp only at hresult
          by_cases heq : point = state.place
          · rw [heq, hinstruction, Option.some.injEq] at hstore
            subst hstore
            exact hgives
          · rw [Function.update_of_ne heq] at hresult
            exact ih hresult
      | stores _ _ => exact ih hresult
      | branches _ _ _ _ => exact ih hresult
      | goes _ _ _ _ => exact ih hresult

-- The result of an instruction is what it would give now, unless what it used was computed again or
-- the slot it loaded was stored to again.
theorem CallRun.gives_again (h : CallRun function arguments events state)
    (hinstruction : function.instructionAt point = some instruction)
    (hresult : state.results point = some value)
    (hstays : ∀ operand ∈ instruction.operands, staysSince events point operand = true)
    (hslots : ∀ slot width, instruction = .load slot width → ∀ write written writtenWidth,
      function.instructionAt write = some (.store slot written writtenWidth) →
        .ran write ∉ sinceLast events point) : state.Gives arguments instruction value := by
  induction h with
  | enter => cases hresult
  | @step events state event next hrun hstep ih =>
      by_cases heq : event = .ran point
      · subst heq
        have hother (operand : Operand) (hoperand : operand ∈ instruction.operands) :
            operand ≠ .result point := by
          rintro rfl
          have hself := hstays _ hoperand
          simp [staysSince] at hself
        cases hstep with
        | gives hfound hgives =>
            rw [hinstruction, Option.some.injEq] at hfound
            subst hfound
            dsimp only at hresult
            rw [Function.update_self, Option.some.injEq] at hresult
            subst hresult
            refine hgives.congr (fun operand hoperand => ?_) (fun _ _ _ => rfl)
              (List.subset_append_right _ _)
            cases operand with
            | constant width number => rfl
            | argument number => rfl
            | result used =>
                have hused : used ≠ state.place := fun heq => hother _ hoperand (heq ▸ rfl)
                exact Function.update_of_ne hused _ _
        | stores hfound _ => exact absurd hfound (hrun.not_store_of_result hresult)
      · have hsame : state.results point = some value := by
          have hvalue : next.value arguments (.result point) = state.value arguments (.result point) :=
            hstep.value_of_ne (by rintro _ ⟨⟩; exact heq)
          exact hvalue.symm.trans hresult
        have hbefore := ih hsame
          (fun operand hoperand => (staysSince_append heq (hstays operand hoperand)).1)
          (fun slot width hload write written writtenWidth hstore hmem => by
            refine hslots slot width hload write written writtenWidth hstore ?_
            rw [sinceLast_other heq]
            exact List.mem_cons_of_mem _ hmem)
        refine hbefore.congr (fun operand hoperand => ?_) (fun slot width hload => ?_)
          hstep.exposed_subset
        · exact hstep.value_of_ne (staysSince_append heq (hstays operand hoperand)).2
        · refine hstep.slots_of_ne fun write written writtenWidth hstore hnow => ?_
          refine hslots slot width hload write written writtenWidth hstore ?_
          rw [sinceLast_other heq, hnow]
          exact List.mem_cons_self

-- A slot holds what its last store would write now, unless that was computed again.
theorem CallRun.stores_again (h : CallRun function arguments events state) {width : Nat}
    (hinstruction : function.instructionAt point = some (.store slot operand width))
    (hran : .ran point ∈ events) (hstays : staysSince events point operand = true)
    (honly : ∀ write written writtenWidth,
      function.instructionAt write = some (.store slot written writtenWidth) →
        write = point ∨ .ran write ∉ sinceLast events point) :
    ∃ held, state.slots slot = some (held, width) ∧ state.value arguments operand = some held := by
  induction h with
  | enter => exact absurd hran List.not_mem_nil
  | @step events state event next hrun hstep ih =>
      by_cases heq : event = .ran point
      · subst heq
        cases hstep with
        | gives hfound hgives =>
            rw [hinstruction, Option.some.injEq] at hfound
            subst hfound
            cases hgives
        | @stores stored written writtenWidth held hfound hvalue =>
            rw [hinstruction, Option.some.injEq, Scalar.store.injEq] at hfound
            obtain ⟨rfl, rfl, rfl⟩ := hfound
            exact ⟨held, Function.update_self _ _ _, by cases operand <;> exact hvalue⟩
      · obtain ⟨held, hheld, hvalue⟩ := ih
          ((List.mem_append.mp hran).resolve_right fun hnow =>
            heq (List.mem_singleton.mp hnow).symm)
          (staysSince_append heq hstays).1
          (fun write written writtenWidth hstore => by
            refine (honly write written writtenWidth hstore).imp_right fun hnot hmem => hnot ?_
            rw [sinceLast_other heq]
            exact List.mem_cons_of_mem _ hmem)
        refine ⟨held, ?_, ?_⟩
        · rw [← hheld]
          refine hstep.slots_of_ne fun write written writtenWidth hstore hnow => ?_
          rcases honly write written writtenWidth hstore with rfl | hnot
          · exact heq hnow
          · rw [sinceLast_other heq, hnow] at hnot
            exact hnot List.mem_cons_self
        · rw [← hvalue]
          exact hstep.value_of_ne (staysSince_append heq hstays).2

-- Only a slot that an instruction uses the address of is ever handed out.
theorem CallRun.exposed_of_mem (h : CallRun function arguments events state)
    (hslot : slot ∈ state.exposed) :
    ∃ point slots, function.instructionAt point = some (.other slots) ∧ slot ∈ slots := by
  induction h with
  | enter => exact absurd hslot List.not_mem_nil
  | @step events state event next _ hstep ih =>
      cases hstep with
      | @gives instruction value hinstruction _ =>
          rcases List.mem_append.mp hslot with hnow | hbefore
          · cases instruction with
            | other slots => exact ⟨state.place, slots, hinstruction, hnow⟩
            | _ => exact absurd hnow List.not_mem_nil
          · exact ih hbefore
      | stores _ _ => exact ih hslot
      | branches _ _ _ _ => exact ih hslot
      | goes _ _ _ _ => exact ih hslot

end Values

section Executed

variable (function : ScalarFunction) (arguments : Nat → Nat)

-- What an instruction gives in the run that makes 0 of whatever the values do not tell.
def CallState.given (state : CallState) : Scalar → Option Nat
  | .load slot width =>
      match state.slots slot with
      | some (stored, written) => some (if written = width then stored else 0)
      | none => some 0
  | .cast op operand => (state.value arguments operand).map op.apply
  | .icmp predicate width lhs rhs =>
      (state.value arguments lhs).bind fun left =>
        (state.value arguments rhs).map fun right => if predicate.holds width left right then 1 else 0
  | .add width lhs rhs =>
      (state.value arguments lhs).bind fun left =>
        (state.value arguments rhs).map fun right => (left + right) % 2 ^ width
  | .element base index size =>
      (state.value arguments base).bind fun address =>
        (state.index arguments index).map fun count => ((address + count * size) % 2 ^ 64).toNat
  | .store .. => none
  | _ => some 0

theorem CallState.gives_of_given {state : CallState} {instruction : Scalar} {value : Nat}
    (h : state.given arguments instruction = some value) : state.Gives arguments instruction value := by
  cases instruction with
  | load slot width =>
      intro _ stored hstored
      simpa [given, hstored] using h.symm
  | cast op operand =>
      obtain ⟨held, hheld, rfl⟩ := Option.map_eq_some_iff.mp h
      exact ⟨held, hheld, rfl⟩
  | icmp predicate width lhs rhs =>
      obtain ⟨left, hleft, hrest⟩ := Option.bind_eq_some_iff.mp h
      obtain ⟨right, hright, rfl⟩ := Option.map_eq_some_iff.mp hrest
      exact ⟨left, right, hleft, hright, rfl⟩
  | add width lhs rhs =>
      obtain ⟨left, hleft, hrest⟩ := Option.bind_eq_some_iff.mp h
      obtain ⟨right, hright, rfl⟩ := Option.map_eq_some_iff.mp hrest
      exact ⟨left, right, hleft, hright, rfl⟩
  | element base index size =>
      obtain ⟨left, hleft, hrest⟩ := Option.bind_eq_some_iff.mp h
      obtain ⟨right, hright, rfl⟩ := Option.map_eq_some_iff.mp hrest
      exact ⟨left, right, hleft, hright, rfl⟩
  | store slot operand width => cases h
  | loadElsewhere => trivial
  | phi => trivial
  | other slots => trivial

def execute (state : CallState) : Option (CallEvent × CallState) :=
  match function.instructionAt state.place with
  | some (.store slot operand width) =>
      (state.value arguments operand).map fun value => (.ran state.place, { state with
        place := ⟨state.place.block, state.place.index + 1⟩
        slots := Function.update state.slots slot (some (value, width)) })
  | some instruction =>
      (state.given arguments instruction).map fun value => (.ran state.place, { state with
        place := ⟨state.place.block, state.place.index + 1⟩
        results := Function.update state.results state.place (some value)
        exposed := instruction.exposes ++ state.exposed })
  | none =>
      match function.blocks[state.place.block]? with
      | none => none
      | some found =>
          if state.place.index = found.body.length then
            match found.terminator with
            | .conditional condition whenTrue whenFalse =>
                (state.value arguments condition).map fun value =>
                  (.branched state.place.block (if value ≠ 0 then 0 else 1)
                    (if value ≠ 0 then whenTrue else whenFalse),
                    { state with place := ⟨if value ≠ 0 then whenTrue else whenFalse, 0⟩ })
            | .unconditional (target :: _) =>
                some (.went state.place.block target, { state with place := ⟨target, 0⟩ })
            | _ => none
          else none

variable {function arguments}

theorem step_of_execute {state : CallState} {result : CallEvent × CallState}
    (h : execute function arguments state = some result) :
    CallStep function arguments state result.1 result.2 := by
  unfold execute at h
  split at h
  · rename_i slot operand width hinstruction
    obtain ⟨value, hvalue, rfl⟩ := Option.map_eq_some_iff.mp h
    exact .stores hinstruction hvalue
  · rename_i instruction _ hinstruction
    obtain ⟨value, hvalue, rfl⟩ := Option.map_eq_some_iff.mp h
    exact .gives hinstruction (CallState.gives_of_given arguments hvalue)
  · split at h
    · cases h
    · rename_i found hfound
      split at h
      · rename_i hindex
        split at h
        · rename_i condition whenTrue whenFalse hterminator
          obtain ⟨value, hvalue, rfl⟩ := Option.map_eq_some_iff.mp h
          exact .branches hfound hindex hterminator hvalue
        · rename_i target targets hterminator
          cases h
          exact .goes hfound hindex hterminator (List.mem_cons_self ..)
        · cases h
      · cases h

variable (function arguments)

def executeFor : Nat → List CallEvent × CallState
  | 0 => ([], .initial)
  | steps + 1 =>
      let before := executeFor steps
      match execute function arguments before.2 with
      | some result => (before.1 ++ [result.1], result.2)
      | none => before

theorem executeFor_run (steps : Nat) :
    CallRun function arguments (executeFor function arguments steps).1
      (executeFor function arguments steps).2 := by
  induction steps with
  | zero => exact .enter
  | succ steps ih =>
      unfold executeFor
      dsimp only
      split
      · rename_i result hresult
        exact .step ih (step_of_execute hresult)
      · exact ih

end Executed

end ConcurrencyAnalyzer.Program
