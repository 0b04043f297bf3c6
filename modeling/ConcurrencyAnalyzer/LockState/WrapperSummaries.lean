import ConcurrencyAnalyzer.LockState.HeldLocks
import ConcurrencyAnalyzer.Program.Dominance
import Mathlib.Logic.Function.Iterate

namespace ConcurrencyAnalyzer.LockState

open Program

def kMaxRounds : Nat := 4

def parameterPlaceholder (argumentIndex : Nat) : String := "%arg" ++ toString argumentIndex

-- A module, with the arguments of its functions that are of pointer type.
structure WrapperModule where
  module : Module
  pointerArguments : String → List Nat
  designatesRecursiveLockType : Pointer → Bool := fun _ => false

def isAcquisition : LockEffectKind → Bool
  | .Acquire | .TryAcquire | .GuardAcquire => true
  | .Release | .GuardRelease => false

section Function

variable (resolver : SynchronizationEffectResolver) (function : Function)

-- The effects of a function, each with the instruction that has it.
def effectsByInstruction : List ((Nat × Nat) × LockEffect) :=
  (List.range function.blocks.length).flatMap fun block =>
    match function.blocks[block]? with
    | none => []
    | some found => found.instructions.zipIdx.flatMap fun instruction =>
        (resolver.resolve instruction.1).map fun effect => ((block, instruction.2), effect)

def effectsOn (argumentIndex : Nat) : List ((Nat × Nat) × LockEffect) :=
  (effectsByInstruction resolver function).filter fun effect =>
    parameterPlaceholder argumentIndex ∈ effect.2.lockIds

-- Whether every path out of the function has been past an effect.
def dominatesReturns (effectSite : Nat × Nat) : Bool :=
  (List.range function.blocks.length).all fun place =>
    match function.blocks[place]? with
    | none => true
    | some found =>
        !found.returns || function.instructionDominates effectSite.1 effectSite.2 place

-- A lock touched more than once, or not at all, is past what a summary can describe. A guard is
-- released under no name, so that its destructor touches nothing.
def netEffectOnParameter (argumentIndex : Nat) : Option ParameterLockEffect :=
  match effectsOn resolver function argumentIndex with
  | [(site, effect)] =>
      if dominatesReturns function site then
        some
          { argumentIndex := argumentIndex
            acquires := isAcquisition effect.kind
            recursiveLock := isAcquisition effect.kind && effect.recursiveLock }
      else none
  | _ => none

end Function

namespace WrapperModule

variable (wrappers : WrapperModule)

def resolver (summaries : LockWrapperSummaries) (functionId : String) :
    SynchronizationEffectResolver where
  functionId := functionId
  summaries := summaries
  nameParameterLocks := true
  designatesRecursiveLockType := wrappers.designatesRecursiveLockType

-- The summaries of a round, from those of the one before.
def discovered (summaries : LockWrapperSummaries) : LockWrapperSummaries := fun functionId =>
  match wrappers.module.functionWithId functionId with
  | none => none
  | some function =>
      let parameterEffects := (wrappers.pointerArguments functionId).filterMap
        (netEffectOnParameter (wrappers.resolver summaries functionId) function)
      if parameterEffects = [] then none else some parameterEffects

def unchanged (summaries discovered : LockWrapperSummaries) : Bool :=
  wrappers.module.functions.all fun function => summaries function.id = discovered function.id

def rounds : Nat → LockWrapperSummaries → LockWrapperSummaries
  | 0, summaries => summaries
  | count + 1, summaries =>
      if wrappers.unchanged summaries (wrappers.discovered summaries) then summaries
      else rounds count (wrappers.discovered summaries)

def collectLockWrapperSummaries : LockWrapperSummaries :=
  wrappers.rounds kMaxRounds fun _ => none

-- The summaries some rounds leave.
def summariesAfter (count : Nat) : LockWrapperSummaries :=
  wrappers.discovered^[count] fun _ => none

-- How many rounds are made until one changes nothing.
def roundsFrom : Nat → Nat → Nat
  | 0, count => count
  | fuel + 1, count =>
      if wrappers.unchanged (wrappers.summariesAfter count) (wrappers.summariesAfter (count + 1)) then
        count
      else roundsFrom fuel (count + 1)

def roundsMade : Nat := wrappers.roundsFrom kMaxRounds 0

end WrapperModule

section Theorems

variable {resolver : SynchronizationEffectResolver} {function : Function} {argumentIndex : Nat}

theorem mem_effectsByInstruction {site : Nat × Nat} {effect : LockEffect} :
    (site, effect) ∈ effectsByInstruction resolver function ↔
      ∃ instruction, function.instructionAt site.1 site.2 = some instruction ∧
        effect ∈ resolver.resolve instruction := by
  unfold effectsByInstruction
  simp only [List.mem_flatMap, List.mem_range]
  constructor
  · rintro ⟨block, _, hmem⟩
    cases hfound : function.blocks[block]? with
    | none =>
        rw [hfound] at hmem
        exact absurd hmem List.not_mem_nil
    | some found =>
        rw [hfound] at hmem
        obtain ⟨⟨instruction, index⟩, hinstruction, hmem⟩ := List.mem_flatMap.mp hmem
        obtain ⟨other, heffect, hsame⟩ := List.mem_map.mp hmem
        cases hsame
        refine ⟨instruction, ?_, heffect⟩
        rw [Function.instructionAt, hfound, Option.bind_some]
        exact List.mem_zipIdx_iff_getElem?.mp hinstruction
  · rintro ⟨instruction, hinstruction, heffect⟩
    obtain ⟨found, hfound, hget⟩ := Option.bind_eq_some_iff.mp hinstruction
    refine ⟨site.1, (List.getElem?_eq_some_iff.mp hfound).1, ?_⟩
    rw [hfound]
    exact List.mem_flatMap.mpr ⟨(instruction, site.2), List.mem_zipIdx_iff_getElem?.mpr hget,
      List.mem_map.mpr ⟨effect, heffect, rfl⟩⟩

-- The one effect a summary is made of, and where the function has it.
structure SoleEffect (resolver : SynchronizationEffectResolver) (function : Function)
    (argumentIndex : Nat) (acquires : Bool) (site : Nat × Nat) : Prop where
  sole : ∃ effect, effectsOn resolver function argumentIndex = [(site, effect)] ∧
    isAcquisition effect.kind = acquires
  returns : dominatesReturns function site = true

theorem soleEffect_of_netEffect {effect : ParameterLockEffect}
    (h : netEffectOnParameter resolver function argumentIndex = some effect) :
    effect.argumentIndex = argumentIndex ∧
      ∃ site, SoleEffect resolver function argumentIndex effect.acquires site := by
  unfold netEffectOnParameter at h
  split at h
  · rename_i site found hsole
    split at h
    · rename_i hreturns
      rw [Option.some.injEq] at h
      subst h
      exact ⟨rfl, site, ⟨found, hsole, rfl⟩, hreturns⟩
    · cases h
  · cases h

variable {acquires : Bool} {site : Nat × Nat}

theorem SoleEffect.exists_effect (h : SoleEffect resolver function argumentIndex acquires site) :
    ∃ instruction effect, function.instructionAt site.1 site.2 = some instruction ∧
      effect ∈ resolver.resolve instruction ∧ parameterPlaceholder argumentIndex ∈ effect.lockIds ∧
      isAcquisition effect.kind = acquires := by
  obtain ⟨effect, hsole, hacquires⟩ := h.sole
  have hmem : (site, effect) ∈ effectsOn resolver function argumentIndex := by
    rw [hsole]
    exact List.mem_singleton_self _
  obtain ⟨hmem, hnamed⟩ := List.mem_filter.mp hmem
  obtain ⟨instruction, hinstruction, heffect⟩ := mem_effectsByInstruction.mp hmem
  exact ⟨instruction, effect, hinstruction, heffect, by simpa using hnamed, hacquires⟩

-- A path out of the function has been past the effect.
theorem SoleEffect.not_avoids (h : SoleEffect resolver function argumentIndex acquires site)
    {block : Nat} {found : Block} (hfound : function.blocks[block]? = some found)
    (hreturns : found.returns = true) :
    ¬function.Avoids site.1 site.2 block found.instructions.length := by
  obtain ⟨instruction, _, hinstruction, _⟩ := h.exists_effect
  obtain ⟨holds, hholds, hget⟩ := Option.bind_eq_some_iff.mp hinstruction
  have hdominates := List.all_eq_true.mp h.returns block
    (List.mem_range.mpr (List.getElem?_eq_some_iff.mp hfound).1)
  rw [hfound] at hdominates
  simp only [hreturns, Bool.not_true, Bool.false_or] at hdominates
  exact Function.not_avoids_of_instructionDominates hholds (List.getElem?_eq_some_iff.mp hget).1 hfound
    hdominates

-- No other instruction has an effect on the argument.
theorem SoleEffect.unnamed (h : SoleEffect resolver function argumentIndex acquires site)
    {other : Nat × Nat} (hother : other ≠ site) {instruction : Instruction}
    (hinstruction : function.instructionAt other.1 other.2 = some instruction) :
    ∀ effect ∈ resolver.resolve instruction, parameterPlaceholder argumentIndex ∉ effect.lockIds := by
  intro effect heffect hnamed
  obtain ⟨found, hsole, _⟩ := h.sole
  have hmem : (other, effect) ∈ effectsOn resolver function argumentIndex :=
    List.mem_filter.mpr
      ⟨mem_effectsByInstruction.mpr ⟨instruction, hinstruction, heffect⟩, by simpa using hnamed⟩
  rw [hsole, List.mem_singleton, Prod.mk.injEq] at hmem
  exact hother hmem.1

-- What an effect that names a lock comes of: a lock function, a guard constructor or a call of a
-- wrapper.
inductive Touches (resolver : SynchronizationEffectResolver) (name : String) :
    Instruction → Bool → Prop
  | lock {function operand recursiveLock} (hname : resolver.lockIdOf operand = some name) :
      Touches resolver name (.lock function operand recursiveLock) (function.role ≠ .release)
  | guardCtor {guard tag storage locks recursiveLock lock} (htag : tag ≠ .defer_lock)
      (hlock : lock ∈ locks) (hname : resolver.lockIdOf lock = some name) :
      Touches resolver name (.guardCtor guard tag storage locks recursiveLock) true
  | call {callee operands parameters parameter operand}
      (hsummary : resolver.summaries callee = some parameters) (hparameter : parameter ∈ parameters)
      (hoperand : operands[parameter.argumentIndex]? = some operand)
      (hname : resolver.lockIdOf operand = some name) :
      Touches resolver name (.call callee operands) parameter.acquires

theorem touches_of_resolve {instruction : Instruction} {effect : LockEffect} {name : String}
    (h : effect ∈ resolver.resolve instruction) (hname : name ∈ effect.lockIds) :
    Touches resolver name instruction (isAcquisition effect.kind) := by
  cases instruction with
  | lock lockFunction operand recursiveLock =>
      simp only [SynchronizationEffectResolver.resolve, SynchronizationEffectResolver.plainEffects,
        plainLockEffect_role] at h
      cases hoperand : resolver.lockIdOf operand with
      | none => simp [hoperand] at h
      | some lockId =>
          simp only [hoperand, List.mem_singleton] at h
          subst h
          rw [List.mem_singleton] at hname
          have htouches : Touches resolver name (.lock lockFunction operand recursiveLock)
              (lockFunction.role ≠ .release) := .lock (hname ▸ hoperand)
          cases hrole : lockFunction.role <;> simpa [hrole, isAcquisition] using htouches
  | guardCtor guard tag storage locks recursiveLock =>
      simp only [SynchronizationEffectResolver.resolve] at h
      split at h
      · exact absurd h List.not_mem_nil
      · split at h
        · exact absurd h List.not_mem_nil
        · rename_i htag
          split at h
          · exact absurd h List.not_mem_nil
          · rw [List.mem_singleton] at h
            subst h
            obtain ⟨lock, hlock, hlockName⟩ := List.mem_filterMap.mp hname
            exact .guardCtor htag (List.mem_of_mem_filter hlock) hlockName
  | guardDtor guard storage =>
      simp only [SynchronizationEffectResolver.resolve] at h
      split at h
      · exact absurd h List.not_mem_nil
      · rw [List.mem_singleton] at h
        subst h
        exact absurd hname List.not_mem_nil
  | call callee operands =>
      simp only [SynchronizationEffectResolver.resolve,
        SynchronizationEffectResolver.summarizedEffects] at h
      split at h
      · exact absurd h List.not_mem_nil
      · rename_i parameters hsummary
        obtain ⟨parameter, hparameter, heffect⟩ := List.mem_filterMap.mp h
        obtain ⟨operand, hoperand, heffect⟩ := Option.bind_eq_some_iff.mp heffect
        obtain ⟨lockId, hlockId, rfl⟩ := Option.map_eq_some_iff.mp heffect
        rw [List.mem_singleton] at hname
        have htouches := Touches.call hsummary hparameter hoperand (hname ▸ hlockId)
        cases hacquires : parameter.acquires <;> simpa [hacquires, isAcquisition] using htouches
  | _ => exact absurd h List.not_mem_nil

variable {wrappers : WrapperModule}

theorem rounds_eq (fuel count : Nat) :
    wrappers.rounds fuel (wrappers.summariesAfter count) =
      wrappers.summariesAfter (wrappers.roundsFrom fuel count) := by
  induction fuel generalizing count with
  | zero => rfl
  | succ fuel ih =>
      rw [WrapperModule.rounds, WrapperModule.roundsFrom,
        show wrappers.discovered (wrappers.summariesAfter count) = wrappers.summariesAfter (count + 1)
          from (Function.iterate_succ_apply' _ _ _).symm]
      split
      · rfl
      · exact ih (count + 1)

theorem collectLockWrapperSummaries_eq :
    wrappers.collectLockWrapperSummaries = wrappers.summariesAfter wrappers.roundsMade :=
  rounds_eq kMaxRounds 0

theorem netEffect_of_discovered {summaries : LockWrapperSummaries} {functionId : String}
    {effects : List ParameterLockEffect}
    (h : wrappers.discovered summaries functionId = some effects) {effect : ParameterLockEffect}
    (heffect : effect ∈ effects) :
    ∃ function, wrappers.module.functionWithId functionId = some function ∧
      netEffectOnParameter (wrappers.resolver summaries functionId) function effect.argumentIndex =
        some effect := by
  unfold WrapperModule.discovered at h
  cases hfunction : wrappers.module.functionWithId functionId with
  | none => simp [hfunction] at h
  | some function =>
      simp only [hfunction] at h
      split at h
      · cases h
      · rw [Option.some.injEq] at h
        subst h
        obtain ⟨argumentIndex, _, hnet⟩ := List.mem_filterMap.mp heffect
        refine ⟨function, rfl, ?_⟩
        rw [(soleEffect_of_netEffect hnet).1]
        exact hnet

-- What a round says of a function is the sole effect under the summaries of the round before.
theorem netEffect_of_summary {count : Nat} {functionId : String} {effects : List ParameterLockEffect}
    (h : wrappers.summariesAfter count functionId = some effects) {effect : ParameterLockEffect}
    (heffect : effect ∈ effects) :
    ∃ fewer function, count = fewer + 1 ∧ wrappers.module.functionWithId functionId = some function ∧
      netEffectOnParameter (wrappers.resolver (wrappers.summariesAfter fewer) functionId) function
        effect.argumentIndex = some effect := by
  cases count with
  | zero => cases h
  | succ fewer =>
      have hdiscovered : wrappers.discovered (wrappers.summariesAfter fewer) functionId =
          some effects := by
        rw [← h, WrapperModule.summariesAfter, WrapperModule.summariesAfter,
          Function.iterate_succ_apply']
      obtain ⟨function, hfunction, hnet⟩ := netEffect_of_discovered hdiscovered heffect
      exact ⟨fewer, function, rfl, hfunction, hnet⟩

end Theorems

end ConcurrencyAnalyzer.LockState
