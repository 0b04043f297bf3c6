import ConcurrencyAnalyzer.TaskConcurrency.CorrelatedEdges

namespace ConcurrencyAnalyzer.TaskConcurrency

open Program

section Operands

variable {function : ScalarFunction}

theorem settled_of_invariantOperand {steps : Nat} {operand root : Operand}
    (h : invariantOperand function steps operand = some root) :
    settledOperand function root = some root := by
  have hsettled {value : Operand} (hvalue : settledOperand function value = some root) :
      settledOperand function root = some root := by
    have heq : root = value := by
      unfold settledOperand at hvalue
      split at hvalue
      · exact (Option.some.inj hvalue).symm
      · exact (Option.some.inj hvalue).symm
      · split at hvalue
        · cases hvalue
        · cases hvalue
        · cases hvalue
        · split at hvalue
          · cases hvalue
          · exact (Option.some.inj hvalue).symm
        · cases hvalue
    rw [heq] at hvalue ⊢
    exact hvalue
  induction steps generalizing operand with
  | zero => exact hsettled h
  | succ steps ih =>
      cases operand with
      | constant width value =>
          cases h
          rfl
      | argument index =>
          cases h
          rfl
      | result point =>
          unfold invariantOperand at h
          split at h
          · exact ih h
          · split at h
            · split at h
              · exact ih h
              · cases h
            · cases h
          · exact hsettled h

-- The store is the only one, and nothing else uses the slot but loads of it.
theorem onlyStore_spec {slot : String} {only : Point × Operand}
    (h : onlyStore function slot = some only) :
    (∃ width, function.instructionAt only.1 = some (.store slot only.2 width)) ∧
      ∀ point operand width, function.instructionAt point = some (.store slot operand width) →
        (point, operand) = only := by
  unfold onlyStore at h
  split at h
  · cases h
  · split at h
    · rename_i found hstores
      cases h
      have hmem (point : Point) (operand : Operand) :
          (point, operand) ∈ function.instructions.filterMap (storeTo slot) ↔
            ∃ width, function.instructionAt point = some (.store slot operand width) := by
        rw [List.mem_filterMap]
        constructor
        · rintro ⟨⟨other, instruction⟩, hin, hstore⟩
          unfold storeTo at hstore
          split at hstore
          · rename_i stored value width heq
            rw [Prod.mk.injEq] at heq
            obtain ⟨rfl, rfl⟩ := heq
            split at hstore
            · rename_i hslot
              rw [Option.some.injEq, Prod.mk.injEq] at hstore
              obtain ⟨rfl, rfl⟩ := hstore
              subst hslot
              exact ⟨width, ScalarFunction.mem_instructions.mp hin⟩
            · cases hstore
          · cases hstore
        · rintro ⟨width, hinstruction⟩
          refine ⟨(point, .store slot operand width),
            ScalarFunction.mem_instructions.mpr hinstruction, ?_⟩
          simp [storeTo]
      rw [hstores] at hmem
      refine ⟨(hmem only.1 only.2).mp (List.mem_singleton_self _), fun point operand width hother => ?_⟩
      exact List.mem_singleton.mp ((hmem point operand).mpr ⟨width, hother⟩)
    · cases h

-- The address of a slot that is stored once is never handed out.
theorem not_exposed_of_onlyStore {arguments : Nat → Nat} {events : List CallEvent} {state : CallState}
    (hrun : CallRun function arguments events state) {slot : String} {only : Point × Operand}
    (h : onlyStore function slot = some only) : slot ∉ state.exposed := by
  intro hmem
  obtain ⟨point, slots, hother, hslot⟩ := hrun.exposed_of_mem hmem
  have huses : (function.instructions.any fun entry => usesElsewhere slot entry.2) = true :=
    List.any_eq_true.mpr ⟨(point, .other slots), ScalarFunction.mem_instructions.mpr hother,
      decide_eq_true hslot⟩
  rw [onlyStore, if_pos huses] at h
  cases h

-- An operand leads to the value it stands for, through locals read as they are written.
structure Followed (function : ScalarFunction) (steps : Nat) (operand root : Operand) : Prop where
  stands : invariantOperand function steps operand = some root
  reads : readsBack function steps operand = true
  loops : InFoundLoop function root

end Operands

section Calls

variable {function : ScalarFunction} {arguments : Nat → Nat} {events : List CallEvent}
  {state next : CallState} {event : CallEvent}

-- What an operand stands for keeps its value through the call.
theorem settled_persists (hrun : CallRun function arguments events state)
    (hstep : CallStep function arguments state event next) {root : Operand}
    (hroot : settledOperand function root = some root) (hloops : InFoundLoop function root) {value : Nat}
    (hvalue : state.value arguments root = some value) : next.value arguments root = some value := by
  cases root with
  | constant width held => exact hvalue
  | argument index => exact hvalue
  | result point =>
      -- The instruction would run again, so it would be on a cycle, which is a loop.
      have hne : point ≠ state.place := by
        rintro rfl
        have hloop := hloops _ rfl hrun.reachable (hrun.leads_back (hrun.ran_of_result hvalue))
        unfold settledOperand at hroot
        dsimp only at hroot
        split at hroot
        · cases hroot
        · cases hroot
        · cases hroot
        · rw [if_pos hloop] at hroot
          cases hroot
        · cases hroot
      have hresult : state.results point = some value := hvalue
      change next.results point = some value
      cases hstep with
      | gives _ _ =>
          dsimp only
          rwa [Function.update_of_ne hne]
      | stores _ _ => exact hresult
      | branches _ _ _ _ => exact hresult
      | goes _ _ _ _ => exact hresult

-- A value is what casts make of the value some operand has.
def ComesFrom (arguments : Nat → Nat) (state : CallState) (root : Operand) (casts : List Cast)
    (value : Nat) : Prop :=
  ∃ given, state.value arguments root = some given ∧ value = applyCasts casts given

-- What operands stand for, what slots stored once hold, and what comparisons gave, as long as each
-- operand stands for a value that stays.
structure Traced (function : ScalarFunction) (arguments : Nat → Nat) (events : List CallEvent)
    (state : CallState) : Prop where
  operands : ∀ steps operand root value, Followed function steps operand root →
    state.value arguments operand = some value →
      ComesFrom arguments state root (castsOf function steps operand) value
  slots : ∀ slot only held width, onlyStore function slot = some only →
    state.slots slot = some (held, width) →
      function.instructionAt only.1 = some (.store slot only.2 width) ∧
        ∀ steps root, Followed function steps only.2 root →
          ComesFrom arguments state root (castsOf function steps only.2) held
  filled : ∀ slot only, onlyStore function slot = some only → .ran only.1 ∈ events →
    (state.slots slot).isSome = true
  tests : ∀ point predicate width lhs rhs value left right,
    function.instructionAt point = some (.icmp predicate width lhs rhs) →
      state.results point = some value →
        Followed function kOperandSteps lhs left → Followed function kOperandSteps rhs right →
          ∃ first second, ComesFrom arguments state left (castsOf function kOperandSteps lhs) first ∧
            ComesFrom arguments state right (castsOf function kOperandSteps rhs) second ∧
              value = if predicate.holds width first second then 1 else 0

theorem ComesFrom.step (hrun : CallRun function arguments events state)
    (hstep : CallStep function arguments state event next) {steps : Nat} {operand root : Operand}
    (hroot : Followed function steps operand root) {casts : List Cast} {value : Nat}
    (h : ComesFrom arguments state root casts value) : ComesFrom arguments next root casts value := by
  obtain ⟨given, hgiven, rfl⟩ := h
  have hsettled := settled_of_invariantOperand hroot.stands
  exact ⟨given, settled_persists hrun hstep hsettled hroot.loops hgiven, rfl⟩

theorem Traced.initial : Traced function arguments [] .initial where
  operands steps operand root value hroot hvalue := by
    have hstands := hroot.stands
    cases operand with
    | constant width held =>
        cases steps <;> cases hstands <;> exact ⟨value, hvalue, rfl⟩
    | argument index =>
        cases steps <;> cases hstands <;> exact ⟨value, hvalue, rfl⟩
    | result point => cases hvalue
  slots _ _ _ _ _ hheld := by cases hheld
  filled _ _ _ hran := absurd hran List.not_mem_nil
  tests _ _ _ _ _ _ _ _ _ hvalue := by cases hvalue

-- An instruction that is no cast and no load of a local stands for itself or for nothing.
theorem eq_of_settledOperand {point : Point} {root : Operand}
    (h : settledOperand function (.result point) = some root) : root = .result point := by
  unfold settledOperand at h
  dsimp only at h
  split at h
  · cases h
  · cases h
  · cases h
  · split at h
    · cases h
    · exact (Option.some.inj h).symm
  · cases h

-- What a load of a local that is stored once gives comes from what the store wrote.
theorem Traced.gives_load (hrun : CallRun function arguments events state)
    (h : Traced function arguments events state) {slot : String} {width given : Nat}
    (hinstruction : function.instructionAt state.place = some (.load slot width))
    (hgives : state.Gives arguments (.load slot width) given) {steps : Nat} {root : Operand}
    (hroot : Followed function (steps + 1) (.result state.place) root) :
    ComesFrom arguments state root (castsOf function (steps + 1) (.result state.place)) given := by
  obtain ⟨hstands, hreads, hloops⟩ := hroot
  unfold invariantOperand at hstands
  unfold readsBack at hreads
  unfold castsOf
  rw [hinstruction] at hstands hreads ⊢
  dsimp only at hstands hreads ⊢
  cases honly : onlyStore function slot with
  | none =>
      rw [honly] at hstands
      cases hstands
  | some only =>
      rw [honly] at hstands hreads
      dsimp only at hstands hreads ⊢
      rw [Bool.and_eq_true, decide_eq_true_eq] at hreads
      split at hstands
      · rename_i hdominates
        have hran := hrun.ran_of_dominates hreads.1 hdominates
        obtain ⟨⟨held, heldWidth⟩, hheld⟩ :=
          Option.isSome_iff_exists.mp (h.filled slot only honly hran)
        obtain ⟨hstore, hcomes⟩ := h.slots slot only held heldWidth honly hheld
        rw [hreads.1, Option.some.injEq, Scalar.store.injEq] at hstore
        obtain ⟨_, _, rfl⟩ := hstore
        rw [hgives (not_exposed_of_onlyStore hrun honly) held hheld]
        exact hcomes steps root ⟨hstands, hreads.2, hloops⟩
      · cases hstands

-- What an instruction gives comes from the value its result stands for.
theorem Traced.gives (hrun : CallRun function arguments events state)
    (h : Traced function arguments events state) {instruction : Scalar} {given : Nat}
    (hinstruction : function.instructionAt state.place = some instruction)
    (hgives : state.Gives arguments instruction given) {steps : Nat} {root : Operand}
    (hroot : Followed function steps (.result state.place) root) :
    root = .result state.place ∧ castsOf function steps (.result state.place) = [] ∨
      ComesFrom arguments state root (castsOf function steps (.result state.place)) given := by
  cases steps with
  | zero => exact .inl ⟨eq_of_settledOperand hroot.stands, rfl⟩
  | succ steps =>
      have hstands := hroot.stands
      have hreads := hroot.reads
      unfold invariantOperand at hstands
      unfold readsBack at hreads
      rw [hinstruction] at hstands hreads
      cases instruction with
      | cast op operand =>
          obtain ⟨inner, hinner, rfl⟩ := hgives
          obtain ⟨held, hheld, rfl⟩ :=
            h.operands steps operand root inner ⟨hstands, hreads, hroot.loops⟩ hinner
          refine .inr ⟨held, hheld, ?_⟩
          rw [castsOf, hinstruction]
          rfl
      | load slot width => exact .inr (h.gives_load hrun hinstruction hgives hroot)
      | icmp predicate width lhs rhs =>
          exact .inl ⟨eq_of_settledOperand hstands, by rw [castsOf, hinstruction]⟩
      | add width lhs rhs => exact .inl ⟨eq_of_settledOperand hstands, by rw [castsOf, hinstruction]⟩
      | element base index size =>
          exact .inl ⟨eq_of_settledOperand hstands, by rw [castsOf, hinstruction]⟩
      | other slots => exact .inl ⟨eq_of_settledOperand hstands, by rw [castsOf, hinstruction]⟩
      | store slot value width =>
          exact .inl ⟨eq_of_settledOperand hstands, by rw [castsOf, hinstruction]⟩
      | loadElsewhere => exact .inl ⟨eq_of_settledOperand hstands, by rw [castsOf, hinstruction]⟩
      | phi => exact .inl ⟨eq_of_settledOperand hstands, by rw [castsOf, hinstruction]⟩

theorem Traced.step_operands (hrun : CallRun function arguments events state)
    (hstep : CallStep function arguments state event next)
    (h : Traced function arguments events state) {steps : Nat} {operand root : Operand} {value : Nat}
    (hroot : Followed function steps operand root)
    (hvalue : next.value arguments operand = some value) :
    ComesFrom arguments next root (castsOf function steps operand) value := by
  have hbefore (hsame : state.value arguments operand = some value) :
      ComesFrom arguments next root (castsOf function steps operand) value :=
    (h.operands steps operand root value hroot hsame).step hrun hstep hroot
  by_cases hown : operand = .result state.place
  · subst hown
    cases hstep with
    | @gives instruction given hinstruction hgives =>
        have hgiven : value = given := by
          change Function.update state.results state.place (some given) state.place = some value at hvalue
          rw [Function.update_self, Option.some.injEq] at hvalue
          exact hvalue.symm
        subst hgiven
        rcases h.gives hrun hinstruction hgives hroot with ⟨rfl, hcasts⟩ | hgiven
        · exact ⟨value, hvalue, by rw [hcasts]; rfl⟩
        · exact hgiven.step hrun (.gives hinstruction hgives) hroot
    | stores _ _ => exact hbefore hvalue
    | branches _ _ _ _ => exact hbefore hvalue
    | goes _ _ _ _ => exact hbefore hvalue
  · refine hbefore ((hstep.value_of_ne fun used hused hran => hown ?_).symm.trans hvalue)
    rcases hstep.cases with ⟨hevent, _⟩ | ⟨_, _, _, _, _, _, _, hnot, _⟩
    · rw [hevent, CallEvent.ran.injEq] at hran
      rw [hused, hran]
    · exact absurd hran (hnot used)

theorem Traced.step_slots (hrun : CallRun function arguments events state)
    (hstep : CallStep function arguments state event next)
    (h : Traced function arguments events state) {slot : String} {only : Point × Operand}
    {held width : Nat} (honly : onlyStore function slot = some only)
    (hheld : next.slots slot = some (held, width)) :
    function.instructionAt only.1 = some (.store slot only.2 width) ∧
      ∀ steps root, Followed function steps only.2 root →
        ComesFrom arguments next root (castsOf function steps only.2) held := by
  have hbefore (hsame : state.slots slot = some (held, width)) :
      function.instructionAt only.1 = some (.store slot only.2 width) ∧
        ∀ steps root, Followed function steps only.2 root →
          ComesFrom arguments next root (castsOf function steps only.2) held := by
    obtain ⟨hstore, hcomes⟩ := h.slots slot only held width honly hsame
    exact ⟨hstore, fun steps root hroot => (hcomes steps root hroot).step hrun hstep hroot⟩
  have hcomes {steps : Nat} {operand root : Operand} {value : Nat}
      (hroot : Followed function steps operand root)
      (hvalue : state.value arguments operand = some value) :
      ComesFrom arguments next root (castsOf function steps operand) value :=
    (h.operands steps operand root value hroot hvalue).step hrun hstep hroot
  cases hstep with
  | @stores stored operand written value hinstruction hvalue =>
      dsimp only at hheld
      by_cases hslot : slot = stored
      · subst hslot
        rw [Function.update_self, Option.some.injEq, Prod.mk.injEq] at hheld
        obtain ⟨rfl, rfl⟩ := hheld
        have honlyStore := (onlyStore_spec honly).2 _ _ _ hinstruction
        subst honlyStore
        exact ⟨hinstruction, fun steps root hroot => hcomes hroot hvalue⟩
      · rw [Function.update_of_ne hslot] at hheld
        exact hbefore hheld
  | gives _ _ => exact hbefore hheld
  | branches _ _ _ _ => exact hbefore hheld
  | goes _ _ _ _ => exact hbefore hheld

theorem Traced.step_filled (hstep : CallStep function arguments state event next)
    (h : Traced function arguments events state) {slot : String} {only : Point × Operand}
    (honly : onlyStore function slot = some only) (hran : .ran only.1 ∈ events ++ [event]) :
    (next.slots slot).isSome = true := by
  obtain ⟨⟨width, hstore⟩, _⟩ := onlyStore_spec honly
  rcases List.mem_append.mp hran with hbefore | hnow
  · have hfilled := h.filled slot only honly hbefore
    cases hstep with
    | @stores stored operand written value _ _ =>
        dsimp only
        by_cases hslot : slot = stored
        · subst hslot
          rw [Function.update_self]
          rfl
        · rwa [Function.update_of_ne hslot]
    | gives _ _ => exact hfilled
    | branches _ _ _ _ => exact hfilled
    | goes _ _ _ _ => exact hfilled
  · rw [List.mem_singleton] at hnow
    cases hstep with
    | gives hinstruction hgives =>
        rw [CallEvent.ran.injEq] at hnow
        rw [← hnow, hstore] at hinstruction
        cases hinstruction
        cases hgives
    | branches _ _ _ _ => cases hnow
    | goes _ _ _ _ => cases hnow
    | stores hinstruction _ =>
        rw [CallEvent.ran.injEq] at hnow
        rw [← hnow, hstore] at hinstruction
        cases hinstruction
        dsimp only
        rw [Function.update_self]
        rfl

theorem Traced.step_tests (hrun : CallRun function arguments events state)
    (hstep : CallStep function arguments state event next)
    (h : Traced function arguments events state) {point : Point} {predicate : Predicate}
    {width value : Nat} {lhs rhs left right : Operand}
    (hinstruction : function.instructionAt point = some (.icmp predicate width lhs rhs))
    (hvalue : next.results point = some value)
    (hleft : Followed function kOperandSteps lhs left)
    (hright : Followed function kOperandSteps rhs right) :
    ∃ first second, ComesFrom arguments next left (castsOf function kOperandSteps lhs) first ∧
      ComesFrom arguments next right (castsOf function kOperandSteps rhs) second ∧
        value = if predicate.holds width first second then 1 else 0 := by
  have hbefore (hsame : state.results point = some value) :
      ∃ first second, ComesFrom arguments next left (castsOf function kOperandSteps lhs) first ∧
        ComesFrom arguments next right (castsOf function kOperandSteps rhs) second ∧
          value = if predicate.holds width first second then 1 else 0 := by
    obtain ⟨first, second, hfirst, hsecond, heq⟩ :=
      h.tests point predicate width lhs rhs value left right hinstruction hsame hleft hright
    exact ⟨first, second, hfirst.step hrun hstep hleft, hsecond.step hrun hstep hright, heq⟩
  cases hstep with
  | @gives found given hfound hgives =>
      dsimp only at hvalue
      by_cases hown : point = state.place
      · subst hown
        rw [Function.update_self, Option.some.injEq] at hvalue
        rw [hinstruction, Option.some.injEq] at hfound
        subst hfound
        have hstep := CallStep.gives hinstruction hgives
        obtain ⟨first, second, hfirst, hsecond, rfl⟩ := hgives
        have hfirstComes := h.operands _ _ _ _ hleft hfirst
        have hsecondComes := h.operands _ _ _ _ hright hsecond
        exact ⟨first, second, hfirstComes.step hrun hstep hleft,
          hsecondComes.step hrun hstep hright, hvalue.symm⟩
      · rw [Function.update_of_ne hown] at hvalue
        exact hbefore hvalue
  | stores _ _ => exact hbefore hvalue
  | branches _ _ _ _ => exact hbefore hvalue
  | goes _ _ _ _ => exact hbefore hvalue

-- What operands stand for stays through a call.
theorem call_traced (hrun : CallRun function arguments events state) :
    Traced function arguments events state := by
  induction hrun with
  | enter => exact .initial
  | step hrun hstep ih =>
      refine ⟨fun steps operand root value hroot hvalue => ?_, fun slot only held width honly hheld => ?_,
        fun slot only honly hran => ?_, fun point predicate width lhs rhs value left right hpoint hvalue
          hleft hright => ?_⟩
      · exact ih.step_operands hrun hstep hroot hvalue
      · exact ih.step_slots hrun hstep honly hheld
      · exact ih.step_filled hstep honly hran
      · exact ih.step_tests hrun hstep hpoint hvalue hleft hright

-- The operands of a key are what those of its branch stand for.
theorem invariantCondition_spec {block : Nat} {condition : InvariantCondition}
    (h : invariantCondition function block = some condition) :
    ∃ operand whenTrue whenFalse,
      function.terminatorOf block = some (.conditional operand whenTrue whenFalse) ∧
      ((icmpOf function operand = none ∧ condition.predicate = none ∧ condition.rhs = none ∧
          invariantOperand function kOperandSteps operand = some condition.lhs) ∨
        ∃ predicate width lhs rhs right, icmpOf function operand = some (predicate, width, lhs, rhs) ∧
          condition.predicate = some predicate ∧ condition.rhs = some right ∧
          invariantOperand function kOperandSteps lhs = some condition.lhs ∧
          invariantOperand function kOperandSteps rhs = some right) := by
  unfold invariantCondition at h
  split at h
  · rename_i operand whenTrue whenFalse hterminator
    refine ⟨operand, whenTrue, whenFalse, hterminator, ?_⟩
    split at h
    · rename_i hicmp
      obtain ⟨tested, htested, rfl⟩ := Option.map_eq_some_iff.mp h
      exact .inl ⟨hicmp, rfl, rfl, htested⟩
    · rename_i predicate width lhs rhs hicmp
      obtain ⟨left, hleft, hrest⟩ := Option.bind_eq_some_iff.mp h
      obtain ⟨right, hright, rfl⟩ := Option.map_eq_some_iff.mp hrest
      exact .inr ⟨predicate, width, lhs, rhs, right, hicmp, rfl, rfl, hleft, hright⟩
  · cases h

theorem icmpOf_spec {operand lhs rhs : Operand} {predicate : Predicate} {width : Nat}
    (h : icmpOf function operand = some (predicate, width, lhs, rhs)) :
    ∃ point, operand = .result point ∧
      function.instructionAt point = some (.icmp predicate width lhs rhs) := by
  unfold icmpOf at h
  split at h
  · rename_i point
    split at h
    · rename_i hpoint
      cases h
      exact ⟨point, rfl, hpoint⟩
    · cases h
  · cases h

theorem test_persists (hrun : CallRun function arguments events state)
    (hstep : CallStep function arguments state event next) {block : Nat}
    {condition : InvariantCondition} (hcondition : invariantCondition function block = some condition)
    (hplain : Plain function block condition) {casts : LeftOut} {holds : Bool}
    (h : condition.test arguments state casts = some holds) :
    condition.test arguments next casts = some holds := by
  obtain ⟨operand, _, _, _, hkey⟩ := invariantCondition_spec hcondition
  have hleftLoops := hplain.loops condition.lhs List.mem_cons_self
  unfold InvariantCondition.test at h ⊢
  rcases hkey with ⟨_, hpredicate, hrhs, hleft⟩ |
    ⟨predicate, width, lhs, rhs, right, _, hpredicate, hrhs, hleft, hright⟩
  · rw [hpredicate, hrhs] at h ⊢
    dsimp only at h ⊢
    obtain ⟨value, hvalue, rfl⟩ := Option.map_eq_some_iff.mp h
    rw [settled_persists hrun hstep (settled_of_invariantOperand hleft) hleftLoops hvalue,
      Option.map_some]
  · have hrightLoops := hplain.loops right (by simp [InvariantCondition.operands, hrhs])
    rw [hpredicate, hrhs] at h ⊢
    dsimp only at h ⊢
    obtain ⟨first, hfirst, hrest⟩ := Option.bind_eq_some_iff.mp h
    obtain ⟨second, hsecond, rfl⟩ := Option.map_eq_some_iff.mp hrest
    rw [settled_persists hrun hstep (settled_of_invariantOperand hleft) hleftLoops hfirst,
      Option.bind_some,
      settled_persists hrun hstep (settled_of_invariantOperand hright) hrightLoops hsecond,
      Option.map_some]

-- What a branch tests is what its key does, under the casts it leaves out.
theorem Traced.test (h : Traced function arguments events state) {block : Nat} {operand : Operand}
    {whenTrue whenFalse value : Nat}
    (hterminator : function.terminatorOf block = some (.conditional operand whenTrue whenFalse))
    (hvalue : state.value arguments operand = some value) {condition : InvariantCondition}
    (hcondition : invariantCondition function block = some condition)
    (hplain : Plain function block condition) :
    condition.test arguments state (leftOut function block) = some (decide (value ≠ 0)) := by
  obtain ⟨tested, _, _, hof, hkey⟩ := invariantCondition_spec hcondition
  rw [hterminator, Option.some.injEq, Terminator.conditional.injEq] at hof
  obtain ⟨rfl, _, _⟩ := hof
  have hwidths := hplain.widths
  have hleftLoops := hplain.loops condition.lhs List.mem_cons_self
  unfold testedOperands at hwidths
  unfold InvariantCondition.test leftOut
  rw [hterminator] at hwidths ⊢
  rcases hkey with ⟨hicmp, hpredicate, hrhs, hleft⟩ |
    ⟨predicate, width, lhs, rhs, right, hicmp, hpredicate, hrhs, hleft, hright⟩
  · simp only [hicmp, List.mem_singleton, forall_eq] at hwidths
    obtain ⟨given, hgiven, rfl⟩ :=
      h.operands _ _ _ _ ⟨hleft, hwidths, hleftLoops⟩ hvalue
    simp only [hicmp, hpredicate, hgiven, Option.map_some]
  · have hrightLoops := hplain.loops right (by simp [InvariantCondition.operands, hrhs])
    simp only [hicmp, List.mem_cons, List.not_mem_nil, or_false, forall_eq_or_imp, forall_eq] at hwidths
    obtain ⟨point, rfl, hpoint⟩ := icmpOf_spec hicmp
    obtain ⟨_, _, ⟨first, hfirst, rfl⟩, ⟨second, hsecond, rfl⟩, rfl⟩ :=
      h.tests _ _ _ _ _ _ _ _ hpoint hvalue ⟨hleft, hwidths.1, hleftLoops⟩
        ⟨hright, hwidths.2, hrightLoops⟩
    simp only [hicmp, hpredicate, hrhs, hfirst, hsecond, Option.bind_some, Option.map_some]
    cases predicate.holds width (applyCasts (castsOf function kOperandSteps lhs) first)
      (applyCasts (castsOf function kOperandSteps rhs) second) <;> simp

-- Each branch goes the way of what its key tests.
theorem test_of_branched (hrun : CallRun function arguments events state)
    {block taken target : Nat} (hbranched : .branched block taken target ∈ events)
    {condition : InvariantCondition} (hcondition : invariantCondition function block = some condition)
    (hplain : Plain function block condition) :
    condition.test arguments state (leftOut function block) = some (decide (taken = 0)) ∧
      branchSuccessor function block taken = some target := by
  induction hrun with
  | enter => exact absurd hbranched List.not_mem_nil
  | @step events state event next hrun hstep ih =>
      rcases List.mem_append.mp hbranched with hbefore | hnow
      · obtain ⟨htest, hsuccessor⟩ := ih hbefore
        exact ⟨test_persists hrun hstep hcondition hplain htest, hsuccessor⟩
      · rw [List.mem_singleton] at hnow
        suffices h : condition.test arguments state (leftOut function block) =
              some (decide (taken = 0)) ∧ branchSuccessor function block taken = some target from
          ⟨test_persists hrun hstep hcondition hplain h.1, h.2⟩
        cases hstep with
        | gives _ _ => cases hnow
        | stores _ _ => cases hnow
        | goes _ _ _ _ => cases hnow
        | @branches found operand whenTrue whenFalse value hfound _ hterminator hvalue =>
            rw [CallEvent.branched.injEq] at hnow
            obtain ⟨rfl, rfl, rfl⟩ := hnow
            have hof : function.terminatorOf state.place.block =
                some (.conditional operand whenTrue whenFalse) := by
              rw [ScalarFunction.terminatorOf, hfound, Option.map_some, hterminator]
            rw [(call_traced hrun).test hof hvalue hcondition hplain, branchSuccessor, hof]
            by_cases hvalue : value ≠ 0
            · simp [hvalue]
            · simp [hvalue]

end Calls

section Correlated

-- Two branches go the same way whenever a call comes to them.
def GoAlike (events : List CallEvent) (block other : Nat) : Prop :=
  ∀ taken otherTaken target otherTarget, .branched block taken target ∈ events →
    .branched other otherTaken otherTarget ∈ events → taken = otherTaken

-- The casts that the key of two branches leaves out make no difference between them, at the values that
-- its operands have in a call that comes to both.
def CastsAgree (function : ScalarFunction) (arguments : Nat → Nat) (events : List CallEvent)
    (state : CallState) (condition : InvariantCondition) (block other : Nat) : Prop :=
  ∀ taken otherTaken target otherTarget, .branched block taken target ∈ events →
    .branched other otherTaken otherTarget ∈ events →
      condition.test arguments state (leftOut function block) =
        condition.test arguments state (leftOut function other)

def LedTo (function : ScalarFunction) (start : Point) (block : Nat) : Prop :=
  ∃ taken successor, branchSuccessor function block taken = some successor ∧
    function.skeleton.edgeDominates block successor start.block = true

variable {function : ScalarFunction} {arguments : Nat → Nat} {events : List CallEvent}
  {state : CallState}

theorem mem_cutCorrelatedEdges {start : Point} {block target : Nat}
    (h : (block, target) ∈ cutCorrelatedEdges function start) :
    ∃ condition other taken successor, invariantCondition function block = some condition ∧
      branchSuccessor function block (1 - taken) = some target ∧ taken ≤ 1 ∧
        invariantCondition function other = some condition ∧
          branchSuccessor function other taken = some successor ∧
            branchSuccessor function other 0 ≠ branchSuccessor function other 1 ∧
              function.skeleton.edgeDominates other successor start.block = true := by
  obtain ⟨branch, _, h⟩ := List.mem_flatMap.mp h
  split at h
  · exact absurd h List.not_mem_nil
  · rename_i condition hcondition
    obtain ⟨⟨known, taken⟩, hknown, hcut⟩ := List.mem_filterMap.mp h
    dsimp only at hcut
    split at hcut
    · rename_i heq
      obtain ⟨successor, hsuccessor, hedge⟩ := Option.map_eq_some_iff.mp hcut
      rw [Prod.mk.injEq] at hedge
      obtain ⟨rfl, rfl⟩ := hedge
      obtain ⟨other, _, hother⟩ := List.mem_flatMap.mp hknown
      split at hother
      · exact absurd hother List.not_mem_nil
      · rename_i otherCondition hotherCondition
        obtain ⟨way, hway, hreached⟩ := List.mem_filterMap.mp hother
        split at hreached
        · rename_i reached hsuccessorOther
          split at hreached
          · rename_i hdominates
            rw [Option.some.injEq, Prod.mk.injEq] at hreached
            obtain ⟨rfl, rfl⟩ := hreached
            refine ⟨condition, other, way, reached, hcondition, hsuccessor, ?_, heq ▸ hotherCondition,
              hsuccessorOther, hdominates⟩
            simp only [List.mem_cons, List.not_mem_nil, or_false] at hway
            omega
          · cases hreached
        · cases hreached
    · cases hcut

-- Where every edge goes forward there is no cycle.
theorem inFoundLoop_of_forward
    (h : ∀ block, ∀ successor ∈ function.successors block, block < successor) (root : Operand) :
    InFoundLoop function root := by
  have hleads {block other : Nat} (hleads : function.Leads block other) : block < other := by
    induction hleads with
    | single hsuccessor => exact h _ _ hsuccessor
    | tail _ hsuccessor ih => exact lt_trans ih (h _ _ hsuccessor)
  exact fun _ _ _ hcycle => absurd (hleads hcycle) (lt_irrefl _)

theorem goAlike_iff (hrun : CallRun function arguments events state) {block other : Nat}
    {condition : InvariantCondition} (hblock : invariantCondition function block = some condition)
    (hother : invariantCondition function other = some condition)
    (hplain : Plain function block condition) (hotherPlain : Plain function other condition) :
    GoAlike events block other ↔ CastsAgree function arguments events state condition block other := by
  refine forall_congr' fun taken => forall_congr' fun otherTaken => forall_congr' fun target =>
    forall_congr' fun otherTarget => forall_congr' fun hbranched => forall_congr' fun hotherBranched => ?_
  rw [(test_of_branched hrun hbranched hblock hplain).1,
    (test_of_branched hrun hotherBranched hother hotherPlain).1, Option.some.injEq, decide_eq_decide]
  have hle := hrun.taken_le hbranched
  have hotherLe := hrun.taken_le hotherBranched
  omega

-- A branch that takes an edge to where it goes the other way has only one way to go.
theorem taken_eq_of_successor (hrun : CallRun function arguments events state)
    {block taken other target : Nat} (hbranched : .branched block taken target ∈ events)
    {condition : InvariantCondition} (hcondition : invariantCondition function block = some condition)
    (hplain : Plain function block condition) (hother : other ≤ 1)
    (htwoWay : branchSuccessor function block 0 ≠ branchSuccessor function block 1)
    (htarget : branchSuccessor function block other = some target) : taken = other := by
  have hle := hrun.taken_le hbranched
  have hreached := (test_of_branched hrun hbranched hcondition hplain).2
  by_contra hne
  rw [← htarget] at hreached
  obtain ⟨rfl, rfl⟩ | ⟨rfl, rfl⟩ : (taken = 0 ∧ other = 1) ∨ (taken = 1 ∧ other = 0) := by omega
  · exact htwoWay hreached
  · exact htwoWay hreached.symm

theorem correlated_edges (hrun : CallRun function arguments events state) :
    (∀ block other condition, invariantCondition function block = some condition →
      invariantCondition function other = some condition → Plain function block condition →
        Plain function other condition →
          (GoAlike events block other ↔
            CastsAgree function arguments events state condition block other)) ∧
      ∀ start, .ran start ∈ events → ∀ block condition,
        invariantCondition function block = some condition → Plain function block condition →
          branchSuccessor function block 0 ≠ branchSuccessor function block 1 →
            (∀ other, invariantCondition function other = some condition → LedTo function start other →
              Plain function other condition ∧
                CastsAgree function arguments events state condition other block) →
              ∀ target, (block, target) ∈ cutCorrelatedEdges function start →
                ¬Crosses events block target := by
  refine ⟨fun block other condition hblock hother hplain hotherPlain =>
    goAlike_iff hrun hblock hother hplain hotherPlain, ?_⟩
  intro start hran block condition hblock hplain htwoWay hagree target hcut hcrosses
  obtain ⟨found, other, taken, successor, hfound, htarget, hle, hother, hsuccessor, hotherTwoWay,
    hdominates⟩ := mem_cutCorrelatedEdges hcut
  rw [hblock, Option.some.injEq] at hfound
  subst hfound
  obtain ⟨hotherPlain, hcasts⟩ := hagree other hother ⟨taken, successor, hsuccessor, hdominates⟩
  -- The branch that led to the start went the way it is known for, and the later one as well.
  obtain ⟨_, _, _, hotherTerminator, _⟩ := invariantCondition_spec hother
  obtain ⟨otherTaken, hotherBranched⟩ :=
    hrun.branched_of_crosses hotherTerminator (hrun.crosses_of_ran hran hdominates)
  have hway : otherTaken = taken :=
    taken_eq_of_successor hrun hotherBranched hother hotherPlain hle hotherTwoWay hsuccessor
  obtain ⟨_, _, _, hterminator, _⟩ := invariantCondition_spec hblock
  obtain ⟨blockTaken, hbranched⟩ := hrun.branched_of_crosses hterminator hcrosses
  have hsame : otherTaken = blockTaken :=
    (goAlike_iff hrun hother hblock hotherPlain hplain).mpr hcasts _ _ _ _ hotherBranched hbranched
  have hcut : blockTaken = 1 - taken :=
    taken_eq_of_successor hrun hbranched hblock hplain (by omega) htwoWay htarget
  omega

-- `if (x == 0) { start(); if (x == 0) … else … }`.
def testedTwice : ScalarFunction where
  blocks := [
    ⟨[.icmp .ICMP_EQ 32 (.argument 0) (.constant 32 0)], .conditional (.result ⟨0, 0⟩) 1 2⟩,
    ⟨[.other [], .icmp .ICMP_EQ 32 (.argument 0) (.constant 32 0)],
      .conditional (.result ⟨1, 1⟩) 2 3⟩,
    ⟨[], .ret⟩,
    ⟨[], .ret⟩]

theorem testedTwice_forward :
    ∀ block, ∀ successor ∈ testedTwice.successors block, block < successor := by
  intro block successor hsuccessor
  have hforward : ∀ block < 4, ∀ successor ∈ testedTwice.successors block, block < successor := by
    decide
  by_cases hblock : block < 4
  · exact hforward block hblock successor hsuccessor
  · rw [ScalarFunction.successors, ScalarFunction.terminatorOf,
      List.getElem?_eq_none (Nat.le_of_not_lt hblock)] at hsuccessor
    cases hsuccessor

def zeroTest : InvariantCondition := ⟨some .ICMP_EQ, .argument 0, some (.constant 32 0)⟩

theorem testedTwice_plain {block : Nat} (hblock : block < 2) : Plain testedTwice block zeroTest where
  loops root _ := inFoundLoop_of_forward testedTwice_forward root
  widths := by
    have hwidths : ∀ block < 2, ∀ operand ∈ testedOperands testedTwice block,
        readsBack testedTwice kOperandSteps operand = true := by decide
    exact hwidths block hblock

theorem correlated_edges_testedTwice :
    ∃ events state, CallRun testedTwice (fun _ => 0) events state ∧ .ran ⟨1, 0⟩ ∈ events ∧
      (1, 3) ∈ cutCorrelatedEdges testedTwice ⟨1, 0⟩ ∧ GoAlike events 0 1 ∧
        ¬Crosses events 1 3 := by
  have hrun := executeFor_run testedTwice (fun _ => 0) 5
  have hevents : (executeFor testedTwice (fun _ => 0) 5).1 =
      [.ran ⟨0, 0⟩, .branched 0 0 1, .ran ⟨1, 0⟩, .ran ⟨1, 1⟩, .branched 1 0 2] := by decide
  have hcut : (1, 3) ∈ cutCorrelatedEdges testedTwice ⟨1, 0⟩ := by decide
  have hfirst : invariantCondition testedTwice 0 = some zeroTest := by decide
  have hsecond : invariantCondition testedTwice 1 = some zeroTest := by decide
  have hcasts (block other : Nat) (hblock : block < 2) (hother : other < 2) :
      leftOut testedTwice block = leftOut testedTwice other := by
    have hsame : ∀ block < 2, leftOut testedTwice block = ⟨[], [], 32⟩ := by decide
    rw [hsame block hblock, hsame other hother]
  rw [hevents] at hrun
  obtain ⟨hagree, hnot⟩ := correlated_edges hrun
  refine ⟨_, _, hrun, by decide, hcut, ?_, ?_⟩
  · refine (hagree 0 1 zeroTest hfirst hsecond (testedTwice_plain (by decide))
      (testedTwice_plain (by decide))).mpr fun _ _ _ _ _ _ => ?_
    rw [hcasts 0 1 (by decide) (by decide)]
  · refine hnot ⟨1, 0⟩ (by decide) 1 zeroTest hsecond (testedTwice_plain (by decide)) (by decide)
      (fun other hother _ => ?_) 3 hcut
    have hone : other < 2 := by
      obtain ⟨_, _, _, hterminator, _⟩ := invariantCondition_spec hother
      by_contra hlarge
      by_cases hlast : other < 4
      · have hreturns : ∀ block < 4, ¬block < 2 → testedTwice.terminatorOf block = some .ret := by decide
        rw [hreturns other hlast hlarge] at hterminator
        cases hterminator
      · rw [ScalarFunction.terminatorOf, List.getElem?_eq_none (Nat.le_of_not_lt hlast)] at hterminator
        cases hterminator
    refine ⟨testedTwice_plain hone, fun _ _ _ _ _ _ => ?_⟩
    rw [hcasts other 1 hone (by decide)]

-- `if ((char)x == 0) { start(); if (x == 0) … else … }`.
def narrowedThenWhole : ScalarFunction where
  blocks := [
    ⟨[.cast ⟨.Trunc, 32, 8⟩ (.argument 0), .cast ⟨.SExt, 8, 32⟩ (.result ⟨0, 0⟩),
      .icmp .ICMP_EQ 32 (.result ⟨0, 1⟩) (.constant 32 0)], .conditional (.result ⟨0, 2⟩) 1 2⟩,
    ⟨[.other [], .icmp .ICMP_EQ 32 (.argument 0) (.constant 32 0)],
      .conditional (.result ⟨1, 1⟩) 2 3⟩,
    ⟨[], .ret⟩,
    ⟨[], .ret⟩]

-- With 256 the first is zero and the second is not, and the edge cut from the start is gone along.
theorem correlated_edges_crossed :
    ∃ events state, CallRun narrowedThenWhole (fun _ => 256) events state ∧
      invariantCondition narrowedThenWhole 0 = invariantCondition narrowedThenWhole 1 ∧
        (invariantCondition narrowedThenWhole 0).isSome ∧ ¬GoAlike events 0 1 ∧ .ran ⟨1, 0⟩ ∈ events ∧
        (1, 3) ∈ cutCorrelatedEdges narrowedThenWhole ⟨1, 0⟩ ∧ Crosses events 1 3 := by
  have hrun := executeFor_run narrowedThenWhole (fun _ => 256) 7
  have hevents : (executeFor narrowedThenWhole (fun _ => 256) 7).1 =
      [.ran ⟨0, 0⟩, .ran ⟨0, 1⟩, .ran ⟨0, 2⟩, .branched 0 0 1, .ran ⟨1, 0⟩, .ran ⟨1, 1⟩,
        .branched 1 1 3] := by decide
  rw [hevents] at hrun
  refine ⟨_, _, hrun, by decide, by decide, fun hagree => ?_, by decide, by decide, .inl ⟨1, by decide⟩⟩
  have hsame : 0 = 1 := hagree 0 1 1 3 (by decide) (by decide)
  cases hsame

end Correlated

end ConcurrencyAnalyzer.TaskConcurrency
