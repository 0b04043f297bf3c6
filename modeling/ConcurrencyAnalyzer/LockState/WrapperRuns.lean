import ConcurrencyAnalyzer.LockState.WrapperSummaries
import Mathlib.Data.List.Chain

namespace ConcurrencyAnalyzer.LockState

open Program

section Conditions

variable (wrappers : WrapperModule)

-- The effects the last summaries rest on, with where they happen: the one effect of a function the
-- last round summarises, and, where that is a call, the one effect of the function called in the
-- round before.
inductive Relied : Nat → String → Nat → Bool → Nat × Nat → Prop
  | last {round functionId function argumentIndex acquires site}
      (hround : wrappers.roundsMade = round + 1)
      (hfunction : wrappers.module.functionWithId functionId = some function)
      (hsole : SoleEffect (wrappers.resolver (wrappers.summariesAfter round) functionId) function
        argumentIndex acquires site) :
      Relied round functionId argumentIndex acquires site
  | callee {round caller calling callerIndex acquires site callee operands operand function
        argumentIndex calleeSite}
      (hcaller : Relied (round + 1) caller callerIndex acquires site)
      (hcalling : wrappers.module.functionWithId caller = some calling)
      (hcall : calling.instructionAt site.1 site.2 = some (.call callee operands))
      (hoperand : operands[argumentIndex]? = some operand)
      (hname : (wrappers.resolver (wrappers.summariesAfter (round + 1)) caller).lockIdOf operand =
        some (parameterPlaceholder callerIndex))
      (hfunction : wrappers.module.functionWithId callee = some function)
      (hsole : SoleEffect (wrappers.resolver (wrappers.summariesAfter round) callee) function
        argumentIndex acquires calleeSite) :
      Relied round callee argumentIndex acquires calleeSite

-- An activation is to leave a lock taken, or released, by what it does at a site.
def Owes (frame : Frame) (place : Place) (acquires : Bool) (site : Nat × Nat) : Prop :=
  ∃ round argumentIndex, Relied wrappers round frame.function argumentIndex acquires site ∧
    frame.arguments[argumentIndex]? = some place

-- Some path to where an activation stands has not been past a site.
def MayAvoid (frame : Frame) (site : Nat × Nat) : Prop :=
  ∃ function, wrappers.module.functionWithId frame.function = some function ∧
    function.Avoids site.1 site.2 frame.block frame.index

def Settled (held : List HeldLock) (place : Place) (acquires : Bool) : Prop :=
  place ∈ held.map (·.place) ↔ acquires = true

-- The instruction an activation is at has no effect, as far as a round knows, that names an argument.
def Unnamed (round : Nat) (frame : Frame) (argumentIndex : Nat) : Prop :=
  ∀ instruction, wrappers.module.instructionAt frame = some instruction →
    ∀ effect ∈ (wrappers.resolver (wrappers.summariesAfter round) frame.function).resolve instruction,
      parameterPlaceholder argumentIndex ∉ effect.lockIds

-- What an activation did to a lock of its caller's at a site that is behind it is not undone where it
-- stands at an instruction that names no such lock.
def KeepsFor (held kept : List HeldLock) (frame : Frame) : Prop :=
  ∀ round argumentIndex acquires site place,
    Relied wrappers round frame.function argumentIndex acquires site →
      frame.arguments[argumentIndex]? = some place → Unnamed wrappers round frame argumentIndex →
        ¬MayAvoid wrappers frame site → Settled held place acquires → Settled kept place acquires

-- A lock named after a parameter at a site is what the parameter points to, not a part of it.
def TakesWhole (frame : Frame) : Prop :=
  ∀ round argumentIndex acquires,
    Relied wrappers round frame.function argumentIndex acquires (frame.block, frame.index) →
      ∀ place, frame.arguments[argumentIndex]? = some place →
        ∀ instruction, wrappers.module.instructionAt frame = some instruction →
          ∀ operand ∈ callArguments instruction,
            (wrappers.resolver (wrappers.summariesAfter round) frame.function).lockIdOf operand =
              some (parameterPlaceholder argumentIndex) →
            frame.extent operand = .exactly place

-- What a step does where wrappers are under way.
structure Honours (thread : Thread) (action : Action) (after : Thread) : Prop where
  keeps : ∀ frame ∈ thread.frames, KeepsFor wrappers thread.held after.held frame
  whole : ∀ frame ∈ thread.frames, TakesWhole wrappers frame
  -- No attempt to take a lock at a site returns without it.
  succeeds : action = .miss → ∀ frame ∈ thread.frames.head?, ∀ place acquires,
    ¬Owes wrappers frame place acquires (frame.block, frame.index)
  -- A lock released at a site is not held more than once.
  once : ∀ drops, action = .release drops → ∀ frame ∈ thread.frames.head?, ∀ place,
    Owes wrappers frame place false (frame.block, frame.index) →
      (thread.held.map (·.place)).count place ≤ 1

-- The states a program reaches by such steps.
inductive HonouringRun (entry : String) : State → Prop
  | initial : HonouringRun entry (initialState entry)
  | step {state runner action after thread next} : HonouringRun entry state →
      Step wrappers.module state runner action after → state.threads[runner]? = some thread →
      after.threads[runner]? = some next → Honours wrappers thread action next →
      HonouringRun entry after

def FrameSettles (held : List HeldLock) (frame : Frame) : Prop :=
  ∀ place acquires site, Owes wrappers frame place acquires site →
    Settled held place acquires ∨ MayAvoid wrappers frame site

def CalledBy (frame caller : Frame) : Prop :=
  ∃ operands, wrappers.module.instructionAt caller = some (.call frame.function operands) ∧
    List.Forall₂ caller.Denotes operands frame.arguments

-- An activation stands where a path of its function gets.
def Arrived (frame : Frame) : Prop :=
  ∀ function, wrappers.module.functionWithId frame.function = some function →
    function.Gets frame.block frame.index

structure ThreadSettles (thread : Thread) : Prop where
  arrived : ∀ frame ∈ thread.frames, Arrived wrappers frame
  settles : ∀ frame ∈ thread.frames, FrameSettles wrappers thread.held frame
  called : thread.frames.IsChain (CalledBy wrappers)

end Conditions

-- An activation that stays where it is.
structure Unmoved (frame after : Frame) : Prop where
  function : after.function = frame.function
  activation : after.activation = frame.activation
  arguments : after.arguments = frame.arguments
  block : after.block = frame.block
  index : after.index = frame.index

theorem unmoved_refl (frames : List Frame) : List.Forall₂ Unmoved frames frames :=
  List.forall₂_same.mpr fun _ _ => ⟨rfl, rfl, rfl, rfl, rfl⟩

theorem dropRecords_unmoved (frames : List Frame) (drops : List (List Taken)) :
    List.Forall₂ Unmoved frames (dropRecords frames drops) := by
  induction frames generalizing drops with
  | nil => cases drops <;> exact .nil
  | cons frame rest ih =>
      cases drops with
      | nil => exact unmoved_refl (frame :: rest)
      | cons gone drops => exact .cons ⟨rfl, rfl, rfl, rfl, rfl⟩ (ih drops)

variable {wrappers : WrapperModule}

theorem Relied.sole {round argumentIndex : Nat} {functionId : String} {acquires : Bool}
    {site : Nat × Nat} (h : Relied wrappers round functionId argumentIndex acquires site) :
    ∃ function, wrappers.module.functionWithId functionId = some function ∧
      SoleEffect (wrappers.resolver (wrappers.summariesAfter round) functionId) function argumentIndex
        acquires site := by
  cases h with
  | last _ hfunction hsole => exact ⟨_, hfunction, hsole⟩
  | callee _ _ _ _ _ hfunction hsole => exact ⟨_, hfunction, hsole⟩

section Frames

variable {frame after caller : Frame} {held kept : List HeldLock} {instruction : Instruction}

theorem Owes.congr {place : Place} {acquires : Bool} {site : Nat × Nat}
    (h : Owes wrappers after place acquires site) (hfunction : after.function = frame.function)
    (harguments : after.arguments = frame.arguments) : Owes wrappers frame place acquires site := by
  unfold Owes at h ⊢
  rwa [hfunction, harguments] at h

theorem MayAvoid.congr {site : Nat × Nat} (h : MayAvoid wrappers frame site)
    (hunmoved : Unmoved frame after) : MayAvoid wrappers after site := by
  unfold MayAvoid at h ⊢
  rwa [hunmoved.function, hunmoved.block, hunmoved.index]

theorem CalledBy.congr {callerAfter : Frame} (h : CalledBy wrappers frame caller)
    (hfunction : after.function = frame.function) (harguments : after.arguments = frame.arguments)
    (hunmoved : Unmoved caller callerAfter) : CalledBy wrappers after callerAfter := by
  obtain ⟨operands, hcall, hplaces⟩ := h
  refine ⟨operands, ?_, ?_⟩
  · rw [hfunction, instructionAt_congr hunmoved.function hunmoved.block hunmoved.index]
    exact hcall
  · rw [harguments]
    exact forall₂_denotes_congr hplaces hunmoved.arguments hunmoved.activation

theorem Arrived.congr (h : Arrived wrappers frame) (hunmoved : Unmoved frame after) :
    Arrived wrappers after := by
  unfold Arrived at h ⊢
  rwa [hunmoved.function, hunmoved.block, hunmoved.index]

theorem Arrived.next (h : Arrived wrappers frame)
    (hinstruction : wrappers.module.instructionAt frame = some instruction)
    (hfunction : after.function = frame.function) (hblock : after.block = frame.block)
    (hindex : after.index = frame.index + 1) : Arrived wrappers after := by
  intro function hfound
  rw [hfunction] at hfound
  obtain ⟨other, hother, hget⟩ := functionWithId_of_instructionAt hinstruction
  rw [hfound, Option.some.injEq] at hother
  subst hother
  rw [hblock, hindex]
  exact (h function hfound).next hget

-- What an activation owes at a site that is not where it stands is kept: where it stands nothing names
-- the lock, as the site has the only effect on it.
theorem KeepsFor.settled {place : Place} {acquires : Bool} {site : Nat × Nat}
    (h : KeepsFor wrappers held kept frame) (howes : Owes wrappers frame place acquires site)
    (hsite : site ≠ (frame.block, frame.index)) (havoid : ¬MayAvoid wrappers frame site)
    (hsettled : Settled held place acquires) : Settled kept place acquires := by
  obtain ⟨round, argumentIndex, hrelied, hplace⟩ := howes
  refine h round argumentIndex acquires site place hrelied hplace ?_ havoid hsettled
  intro found hfound
  obtain ⟨function, hfunction, hsole⟩ := hrelied.sole
  obtain ⟨other, hother, hget⟩ := functionWithId_of_instructionAt hfound
  rw [hfunction, Option.some.injEq] at hother
  subst hother
  exact hsole.unnamed (Ne.symm hsite) hget

-- Some path to a site has not been past it.
theorem Owes.mayAvoid_here {place : Place} {acquires : Bool}
    (h : Owes wrappers frame place acquires (frame.block, frame.index))
    (harrived : Arrived wrappers frame) : MayAvoid wrappers frame (frame.block, frame.index) := by
  obtain ⟨round, argumentIndex, hrelied, _⟩ := h
  obtain ⟨function, hfunction, _⟩ := hrelied.sole
  exact ⟨function, hfunction, (harrived function hfunction).avoids⟩

theorem FrameSettles.stay (h : FrameSettles wrappers held frame) (harrived : Arrived wrappers frame)
    (hunmoved : Unmoved frame after) (hkeeps : KeepsFor wrappers held kept frame) :
    FrameSettles wrappers kept after := by
  intro place acquires site howes
  have howes := howes.congr hunmoved.function hunmoved.arguments
  by_cases havoid : MayAvoid wrappers frame site
  · exact .inr (havoid.congr hunmoved)
  · have hsite : site ≠ (frame.block, frame.index) := by
      rintro rfl
      exact havoid (howes.mayAvoid_here harrived)
    exact .inl (hkeeps.settled howes hsite havoid ((h place acquires site howes).resolve_right havoid))

-- Past an instruction, an activation has done what it owes there.
theorem FrameSettles.next (h : FrameSettles wrappers held frame)
    (hinstruction : wrappers.module.instructionAt frame = some instruction)
    (hfunction : after.function = frame.function) (harguments : after.arguments = frame.arguments)
    (hblock : after.block = frame.block) (hindex : after.index = frame.index + 1)
    (hkeeps : KeepsFor wrappers held kept frame)
    (hsite : ∀ place acquires, Owes wrappers frame place acquires (frame.block, frame.index) →
      Settled kept place acquires) : FrameSettles wrappers kept after := by
  intro place acquires site howes
  have howes := howes.congr hfunction harguments
  by_cases hat : site = (frame.block, frame.index)
  · subst hat
    exact .inl (hsite place acquires howes)
  · by_cases havoid : MayAvoid wrappers frame site
    · obtain ⟨function, hfound, havoids⟩ := havoid
      obtain ⟨other, hother, hget⟩ := functionWithId_of_instructionAt hinstruction
      rw [hfound, Option.some.injEq] at hother
      subst hother
      refine .inr ⟨function, hfunction ▸ hfound, ?_⟩
      rw [hblock, hindex]
      exact havoids.next hget (Ne.symm hat)
    · exact .inl (hkeeps.settled howes hat havoid ((h place acquires site howes).resolve_right havoid))

-- An activation that unwinds has not been past the instruction it unwinds from.
theorem FrameSettles.unwound {pad : Nat} {missed : List Pointer}
    (h : FrameSettles wrappers held frame) (hpad : wrappers.module.unwindDest frame = some pad) :
    FrameSettles wrappers held { frame with block := pad, index := 0, missed := missed } := by
  intro place acquires site howes
  refine (h place acquires site (howes.congr rfl rfl)).imp_right ?_
  rintro ⟨function, hfound, havoids⟩
  obtain ⟨other, hother, hunwinds⟩ := Option.bind_eq_some_iff.mp hpad
  rw [hfound, Option.some.injEq] at hother
  subst hother
  exact ⟨function, hfound, havoids.unwound hunwinds⟩

theorem Arrived.unwound {pad : Nat} {missed : List Pointer} (h : Arrived wrappers frame)
    (hpad : wrappers.module.unwindDest frame = some pad) :
    Arrived wrappers { frame with block := pad, index := 0, missed := missed } := by
  intro function hfound
  obtain ⟨other, hother, hunwinds⟩ := Option.bind_eq_some_iff.mp hpad
  rw [show wrappers.module.functionWithId frame.function = some function from hfound,
    Option.some.injEq] at hother
  subst hother
  exact Function.Avoids.unwound (h function hfound) hunwinds

theorem FrameSettles.branch {block : Block} {successor : Nat} (h : FrameSettles wrappers held frame)
    (hblock : wrappers.module.blockOf frame = some block)
    (hindex : frame.index = block.instructions.length) (hsuccessor : successor ∈ block.successors) :
    FrameSettles wrappers held { frame with block := successor, index := 0 } := by
  intro place acquires site howes
  refine (h place acquires site (howes.congr rfl rfl)).imp_right ?_
  rintro ⟨function, hfound, havoids⟩
  obtain ⟨other, hother, hget⟩ := Option.bind_eq_some_iff.mp hblock
  rw [hfound, Option.some.injEq] at hother
  subst hother
  rw [hindex] at havoids
  exact ⟨function, hfound, havoids.branch hget hsuccessor⟩

theorem Arrived.branch {block : Block} {successor : Nat} (h : Arrived wrappers frame)
    (hblock : wrappers.module.blockOf frame = some block)
    (hindex : frame.index = block.instructions.length) (hsuccessor : successor ∈ block.successors) :
    Arrived wrappers { frame with block := successor, index := 0 } := by
  intro function hfound
  obtain ⟨other, hother, hget⟩ := Option.bind_eq_some_iff.mp hblock
  rw [show wrappers.module.functionWithId frame.function = some function from hfound,
    Option.some.injEq] at hother
  subst hother
  have harrived := h function hfound
  rw [hindex] at harrived
  exact Function.Avoids.branch harrived hget hsuccessor

theorem arrived_entry (functionId : String) (activation : Nat) (arguments : List Place) :
    Arrived wrappers { function := functionId, activation := activation, arguments := arguments } :=
  fun _ _ => .entry

-- An activation that starts has everything before it.
theorem frameSettles_entry (held : List HeldLock) (functionId : String) (activation : Nat)
    (arguments : List Place) :
    FrameSettles wrappers held
      { function := functionId, activation := activation, arguments := arguments } := by
  rintro place acquires site ⟨round, argumentIndex, hrelied, _⟩
  obtain ⟨function, hfunction, _⟩ := hrelied.sole
  exact .inr ⟨function, hfunction, .entry⟩

-- A function returns past its effects.
theorem FrameSettles.returns (h : FrameSettles wrappers held frame)
    (hreturns : wrappers.module.Returns frame) {place : Place} {acquires : Bool} {site : Nat × Nat}
    (howes : Owes wrappers frame place acquires site) : Settled held place acquires := by
  refine (h place acquires site howes).resolve_right ?_
  obtain ⟨round, argumentIndex, hrelied, _⟩ := howes
  obtain ⟨function, hfunction, hsole⟩ := hrelied.sole
  rintro ⟨other, hother, havoids⟩
  rw [hfunction, Option.some.injEq] at hother
  subst hother
  rcases hreturns with houtside | ⟨block, hblock, hends, hindex⟩
  · rw [houtside] at hfunction
    cases hfunction
  · obtain ⟨runs, hruns, hget⟩ := Option.bind_eq_some_iff.mp hblock
    rw [hfunction, Option.some.injEq] at hruns
    subst hruns
    rw [hindex] at havoids
    exact hsole.not_avoids hget hends havoids

end Frames

section Sites

variable {frame : Frame} {held : List HeldLock} {instruction : Instruction} {round argumentIndex : Nat}
  {acquires : Bool} {place : Place}

theorem Relied.touches
    (h : Relied wrappers round frame.function argumentIndex acquires (frame.block, frame.index))
    (hinstruction : wrappers.module.instructionAt frame = some instruction) :
    Touches (wrappers.resolver (wrappers.summariesAfter round) frame.function)
      (parameterPlaceholder argumentIndex) instruction acquires := by
  obtain ⟨function, hfunction, hsole⟩ := h.sole
  obtain ⟨found, effect, hfound, heffect, hnamed, rfl⟩ := hsole.exists_effect
  obtain ⟨other, hother, hget⟩ := functionWithId_of_instructionAt hinstruction
  rw [hfunction, Option.some.injEq] at hother
  subst hother
  rw [show function.instructionAt frame.block frame.index = some found from hfound,
    Option.some.injEq] at hget
  subst hget
  exact touches_of_resolve heffect hnamed

theorem mem_of_exactly {operand : Pointer} {operands : List Pointer} {places : List Place}
    (h : List.Forall₂ frame.Denotes operands places) (hoperand : operand ∈ operands)
    (hwhole : frame.extent operand = .exactly place) : place ∈ places := by
  induction h with
  | nil => exact absurd hoperand List.not_mem_nil
  | @cons first known operands places hdenotes _ ih =>
      rcases List.mem_cons.mp hoperand with rfl | hoperand
      · have hsame : known = place := by
          unfold Frame.Denotes at hdenotes
          rwa [hwhole] at hdenotes
        exact hsame ▸ List.mem_cons_self
      · exact List.mem_cons_of_mem _ (ih hoperand)

theorem settled_take {operands : List Pointer} {mode : LockMode} {places : List Place}
    (hwhole : TakesWhole wrappers frame)
    (hinstruction : wrappers.module.instructionAt frame = some instruction)
    (htakes : instruction.takes = some (operands, mode))
    (hplaces : List.Forall₂ frame.Denotes operands places)
    (howes : Owes wrappers frame place acquires (frame.block, frame.index)) :
    Settled (places.map (⟨·, mode⟩) ++ held) place acquires := by
  obtain ⟨round, argumentIndex, hrelied, hplace⟩ := howes
  have hwhole := hwhole round argumentIndex acquires hrelied place hplace instruction hinstruction
  have hmem (h : place ∈ places) :
      place ∈ (places.map (fun taken => (⟨taken, mode⟩ : HeldLock)) ++ held).map (·.place) := by
    rw [List.map_append, List.mem_append]
    exact .inl (List.mem_map.mpr ⟨⟨place, mode⟩, List.mem_map_of_mem h, rfl⟩)
  cases hrelied.touches hinstruction with
  | @lock function operand recursiveLock hname =>
      simp only [Instruction.takes] at htakes
      split at htakes
      · cases htakes
      · rename_i hrole
        simp only [Option.some.injEq, Prod.mk.injEq] at htakes
        obtain ⟨rfl, _⟩ := htakes
        have hplaced := mem_of_exactly hplaces List.mem_cons_self
          (hwhole operand List.mem_cons_self hname)
        exact iff_of_true (hmem hplaced) (by simp [hrole])
  | @guardCtor guard tag storage locks recursiveLock lock _ hlock hname =>
      simp only [Instruction.takes] at htakes
      split at htakes
      · simp only [Option.some.injEq, Prod.mk.injEq] at htakes
        obtain ⟨rfl, _⟩ := htakes
        have hplaced := mem_of_exactly hplaces hlock
          (hwhole lock (List.mem_cons_of_mem storage hlock) hname)
        exact iff_of_true (hmem hplaced) rfl
      · cases htakes
  | call _ _ _ _ => cases htakes

theorem settled_adopt {guard : GuardTemplate} {storage : Pointer} {locks : List Pointer}
    {recursiveLock : Bool} {places : List Place} (hwhole : TakesWhole wrappers frame)
    (hinstruction : wrappers.module.instructionAt frame =
      some (.guardCtor guard .adopt_lock storage locks recursiveLock))
    (hplaces : List.Forall₂ frame.Denotes locks places)
    (hheld : ∀ place ∈ places, place ∈ held.map (·.place))
    (howes : Owes wrappers frame place acquires (frame.block, frame.index)) :
    Settled held place acquires := by
  obtain ⟨round, argumentIndex, hrelied, hplace⟩ := howes
  have hwhole := hwhole round argumentIndex acquires hrelied place hplace _ hinstruction
  cases hrelied.touches hinstruction with
  | @guardCtor _ _ _ _ _ lock _ hlock hname =>
      have hplaced := mem_of_exactly hplaces hlock
        (hwhole lock (List.mem_cons_of_mem storage hlock) hname)
      exact iff_of_true (hheld place hplaced) rfl

theorem settled_release {gone kept : List HeldLock} (hwhole : TakesWhole wrappers frame)
    (hinstruction : wrappers.module.instructionAt frame = some instruction)
    (hrelease : instruction.mayRelease frame.Denotes (gone.map HeldLock.place))
    (hheld : held.Perm (gone ++ kept))
    (honce : ∀ place, Owes wrappers frame place false (frame.block, frame.index) →
      (held.map (·.place)).count place ≤ 1)
    (howes : Owes wrappers frame place acquires (frame.block, frame.index)) :
    Settled kept place acquires := by
  obtain ⟨round, argumentIndex, hrelied, hplace⟩ := howes
  have hwhole := hwhole round argumentIndex acquires hrelied place hplace instruction hinstruction
  have htouches := hrelied.touches hinstruction
  cases htouches with
  | @lock function operand recursiveLock hname =>
      obtain ⟨hrole, known, hdenotes, hgone⟩ := hrelease
      have hacquires : decide (function.role ≠ .release) = false := by simp [hrole]
      rw [hacquires] at hrelied ⊢
      have hknown : place = known := by
        have := mem_of_exactly (.cons hdenotes .nil) List.mem_cons_self
          (hwhole operand List.mem_cons_self hname)
        exact List.mem_singleton.mp this
      subst hknown
      have hcount := honce place ⟨round, argumentIndex, hrelied, hplace⟩
      rw [(hheld.map (·.place)).count_eq, List.map_append, List.count_append, hgone,
        List.count_singleton_self] at hcount
      exact iff_of_false (List.count_eq_zero.mp (by omega)) (by simp)
  | guardCtor _ _ _ => exact absurd hrelease id
  | call _ _ _ _ => exact absurd hrelease id

-- A wrapper that returns has done for its caller what the call is summarised as.
theorem settled_leave {caller : Frame} {callee : String} {operands : List Pointer}
    (hsettles : FrameSettles wrappers held frame) (hreturns : wrappers.module.Returns frame)
    (hcalled : CalledBy wrappers frame caller) (hwhole : TakesWhole wrappers caller)
    (hcall : wrappers.module.instructionAt caller = some (.call callee operands))
    (howes : Owes wrappers caller place acquires (caller.block, caller.index)) :
    Settled held place acquires := by
  obtain ⟨round, argumentIndex, hrelied, hplace⟩ := howes
  have hwhole := hwhole round argumentIndex acquires hrelied place hplace _ hcall
  obtain ⟨passed, hpassed, hplaces⟩ := hcalled
  rw [hcall, Option.some.injEq, Instruction.call.injEq] at hpassed
  obtain ⟨rfl, rfl⟩ := hpassed
  obtain ⟨calling, hcalling, hget⟩ := functionWithId_of_instructionAt hcall
  cases hrelied.touches hcall with
  | @call _ _ parameters parameter operand hsummary hparameter hoperand hname =>
      obtain ⟨fewer, function, rfl, hfunction, hnet⟩ := netEffect_of_summary hsummary hparameter
      obtain ⟨_, site, hsole⟩ := soleEffect_of_netEffect hnet
      obtain ⟨hlt, hoperandAt⟩ := List.getElem?_eq_some_iff.mp hoperand
      have hargument : frame.arguments[parameter.argumentIndex]? = some place := by
        have hltPlaces := hplaces.length_eq ▸ hlt
        have hdenotes := hplaces.get hlt hltPlaces
        rw [List.get_eq_getElem, List.get_eq_getElem, hoperandAt] at hdenotes
        unfold Frame.Denotes at hdenotes
        rw [hwhole operand (List.mem_of_getElem? hoperand) hname] at hdenotes
        exact List.getElem?_eq_some_iff.mpr ⟨hltPlaces, hdenotes⟩
      exact hsettles.returns hreturns
        ⟨fewer, parameter.argumentIndex,
          .callee hrelied hcalling hget hoperand hname hfunction hsole, hargument⟩

end Sites

section Steps

variable {free : Place → LockMode → Prop} {fresh : Nat} {frame after : Frame} {rest stays : List Frame}
  {held kept : List HeldLock} {action : Action} {instruction : Instruction}

theorem calledBy_chain (h : (frame :: rest).IsChain (CalledBy wrappers))
    (hfunction : after.function = frame.function) (harguments : after.arguments = frame.arguments)
    (hstays : List.Forall₂ Unmoved rest stays) : (after :: stays).IsChain (CalledBy wrappers) := by
  induction hstays generalizing frame after with
  | nil => exact .singleton after
  | cons hunmoved _ ih =>
      rw [List.isChain_cons_cons] at h ⊢
      exact ⟨h.1.congr hfunction harguments hunmoved, ih h.2 hunmoved.function hunmoved.arguments⟩

theorem arrived_stays (h : ∀ frame ∈ rest, Arrived wrappers frame)
    (hstays : List.Forall₂ Unmoved rest stays) : ∀ frame ∈ stays, Arrived wrappers frame := by
  induction hstays with
  | nil => exact fun _ hmem => absurd hmem List.not_mem_nil
  | cons hunmoved _ ih =>
      rw [List.forall_mem_cons] at h ⊢
      exact ⟨h.1.congr hunmoved, ih h.2⟩

theorem frameSettles_stays (h : ∀ frame ∈ rest, FrameSettles wrappers held frame)
    (harrived : ∀ frame ∈ rest, Arrived wrappers frame)
    (hkeeps : ∀ frame ∈ rest, KeepsFor wrappers held kept frame)
    (hstays : List.Forall₂ Unmoved rest stays) : ∀ frame ∈ stays, FrameSettles wrappers kept frame := by
  induction hstays with
  | nil => exact fun _ hmem => absurd hmem List.not_mem_nil
  | cons hunmoved _ ih =>
      rw [List.forall_mem_cons] at h harrived hkeeps ⊢
      exact ⟨h.1.stay harrived.1 hunmoved hkeeps.1, ih h.2 harrived.2 hkeeps.2⟩

-- The innermost activation moves on, the others stay where they are.
theorem ThreadSettles.next (h : ThreadSettles wrappers ⟨frame :: rest, held⟩)
    (hhonours : Honours wrappers ⟨frame :: rest, held⟩ action ⟨after :: stays, kept⟩)
    (hinstruction : wrappers.module.instructionAt frame = some instruction)
    (hfunction : after.function = frame.function) (harguments : after.arguments = frame.arguments)
    (hblock : after.block = frame.block) (hindex : after.index = frame.index + 1)
    (hstays : List.Forall₂ Unmoved rest stays)
    (hsite : ∀ place acquires, Owes wrappers frame place acquires (frame.block, frame.index) →
      Settled kept place acquires) : ThreadSettles wrappers ⟨after :: stays, kept⟩ where
  arrived := by
    have harrived := h.arrived
    rw [List.forall_mem_cons] at harrived ⊢
    exact ⟨harrived.1.next hinstruction hfunction hblock hindex, arrived_stays harrived.2 hstays⟩
  settles := by
    have harrived := h.arrived
    have hsettles := h.settles
    have hkeeps := hhonours.keeps
    rw [List.forall_mem_cons] at harrived hsettles hkeeps ⊢
    exact ⟨hsettles.1.next hinstruction hfunction harguments hblock hindex hkeeps.1 hsite,
      frameSettles_stays hsettles.2 harrived.2 hkeeps.2 hstays⟩
  called := calledBy_chain h.called hfunction harguments hstays

-- An activation that unwinds, those above it being gone.
theorem ThreadSettles.unwound {popped : List Frame} {pad : Nat} {missed : List Pointer}
    (h : ThreadSettles wrappers ⟨popped ++ frame :: rest, held⟩)
    (hpad : wrappers.module.unwindDest frame = some pad) :
    ThreadSettles wrappers
      ⟨{ frame with block := pad, index := 0, missed := missed } :: rest, held⟩ where
  arrived := by
    have harrived := fun other hother => h.arrived other (List.mem_append_right popped hother)
    rw [List.forall_mem_cons] at harrived ⊢
    exact ⟨harrived.1.unwound hpad, harrived.2⟩
  settles := by
    have hsettles := fun other hother => h.settles other (List.mem_append_right popped hother)
    rw [List.forall_mem_cons] at hsettles ⊢
    exact ⟨hsettles.1.unwound hpad, hsettles.2⟩
  called := calledBy_chain (List.isChain_append.mp h.called).2.1 rfl rfl (unmoved_refl _)

-- An instruction that touches no lock is no site.
theorem settled_of_untouched (hinstruction : wrappers.module.instructionAt frame = some instruction)
    (huntouched : ∀ resolver name acquires, ¬Touches resolver name instruction acquires)
    {place : Place} {acquires : Bool}
    (howes : Owes wrappers frame place acquires (frame.block, frame.index)) :
    Settled kept place acquires := by
  obtain ⟨round, argumentIndex, hrelied, _⟩ := howes
  exact absurd (hrelied.touches hinstruction) (huntouched _ _ _)

theorem not_touches_of_passive (h : instruction.isPassive = true)
    (resolver : SynchronizationEffectResolver) (name : String) (acquires : Bool) :
    ¬Touches resolver name instruction acquires := by
  intro htouches
  cases htouches with
  | lock _ => cases h
  | guardCtor htag _ _ => exact htag (by simpa [Instruction.isPassive] using h)
  | call _ _ _ _ => cases h

-- The step lemma.
theorem ThreadSettles.step {thread next : Thread} (h : ThreadSettles wrappers thread)
    (hhonours : Honours wrappers thread action next)
    (hstep : ThreadStep wrappers.module free fresh thread action next) :
    ThreadSettles wrappers next := by
  cases hstep with
  | pass hinstruction hpassive =>
      exact h.next hhonours hinstruction rfl rfl rfl rfl (unmoved_refl _) fun _ _ =>
        settled_of_untouched hinstruction (not_touches_of_passive hpassive)
  | take hinstruction htakes hplaces _ =>
      exact h.next hhonours hinstruction rfl rfl rfl rfl (unmoved_refl _) fun _ _ =>
        settled_take (hhonours.whole _ List.mem_cons_self) hinstruction htakes hplaces
  | miss hinstruction _ =>
      exact h.next hhonours hinstruction rfl rfl rfl rfl (unmoved_refl _) fun place acquires howes =>
        absurd howes (hhonours.succeeds rfl _ rfl place acquires)
  | adopt hinstruction hplaces hheld _ _ =>
      exact h.next hhonours hinstruction rfl rfl rfl rfl (unmoved_refl _) fun _ _ =>
        settled_adopt (hhonours.whole _ List.mem_cons_self) hinstruction hplaces hheld
  | @release frame rest held instruction gone kept drops hinstruction hrelease hheld _ =>
      cases drops with
      | nil =>
          exact h.next hhonours hinstruction rfl rfl rfl rfl (unmoved_refl _) fun _ _ =>
            settled_release (hhonours.whole _ List.mem_cons_self) hinstruction hrelease hheld
              (hhonours.once _ rfl _ rfl)
      | cons lost drops =>
          exact h.next hhonours hinstruction rfl rfl rfl rfl (dropRecords_unmoved rest drops)
            fun _ _ => settled_release (hhonours.whole _ List.mem_cons_self) hinstruction hrelease
              hheld (hhonours.once _ rfl _ rfl)
  | throw _ _ hpad => exact ThreadSettles.unwound (show ThreadSettles wrappers ⟨[] ++ _ :: _, _⟩ from h) hpad
  | unwind _ _ hpad => exact h.unwound hpad
  | outsideTake _ _ =>
      exact ⟨h.arrived, frameSettles_stays h.settles h.arrived hhonours.keeps (unmoved_refl _),
        h.called⟩
  | @outsideRelease frame rest held gone kept drops _ _ _ =>
      have hunmoved := dropRecords_unmoved (frame :: rest) drops
      refine ⟨arrived_stays h.arrived hunmoved,
        frameSettles_stays h.settles h.arrived hhonours.keeps hunmoved, ?_⟩
      cases drops with
      | nil => exact h.called
      | cons lost drops => exact calledBy_chain h.called rfl rfl (dropRecords_unmoved rest drops)
  | enter hinstruction harguments =>
      refine ⟨?_, ?_, List.isChain_cons_cons.mpr ⟨⟨_, hinstruction, harguments⟩, h.called⟩⟩
      · rw [List.forall_mem_cons]
        exact ⟨arrived_entry _ _ _, h.arrived⟩
      · rw [List.forall_mem_cons]
        exact ⟨frameSettles_entry _ _ _ _, h.settles⟩
  | @leave frame caller rest held callee operands handed hreturns hcall _ _ =>
      have hcalled := List.isChain_cons_cons.mp h.called
      have hsettles := List.forall_mem_cons.mp h.settles
      have hwhole := hhonours.whole caller (List.mem_cons_of_mem _ List.mem_cons_self)
      have hcallers := List.forall_mem_cons.mp hsettles.2
      have harrived := List.forall_mem_cons.mp (List.forall_mem_cons.mp h.arrived).2
      refine ⟨?_, ?_, calledBy_chain hcalled.2 rfl rfl (unmoved_refl _)⟩
      · rw [List.forall_mem_cons]
        exact ⟨harrived.1.next hcall rfl rfl rfl, harrived.2⟩
      · rw [List.forall_mem_cons]
        refine ⟨hcallers.1.next hcall rfl rfl rfl rfl (fun _ _ _ _ _ _ _ _ _ hsettled => hsettled) ?_,
          hcallers.2⟩
        exact fun _ _ => settled_leave hsettles.1 hreturns hcalled.1 hwhole hcall
  | finish _ =>
      exact ⟨fun _ hmem => absurd hmem List.not_mem_nil, fun _ hmem => absurd hmem List.not_mem_nil,
        .nil⟩
  | branch hblock hindex hsuccessor _ =>
      have harrived := List.forall_mem_cons.mp h.arrived
      have hsettles := List.forall_mem_cons.mp h.settles
      refine ⟨?_, ?_, calledBy_chain h.called rfl rfl (unmoved_refl _)⟩
      · rw [List.forall_mem_cons]
        exact ⟨harrived.1.branch hblock hindex hsuccessor, harrived.2⟩
      · rw [List.forall_mem_cons]
        exact ⟨hsettles.1.branch hblock hindex hsuccessor, hsettles.2⟩
  | start hinstruction _ =>
      refine h.next hhonours hinstruction rfl rfl rfl rfl (unmoved_refl _) fun _ _ =>
        settled_of_untouched hinstruction ?_
      intro resolver name acquires htouches
      cases htouches

end Steps

section Runs

theorem threadSettles_initial (entry : String) (activation : Nat) (arguments : List Place) :
    ThreadSettles wrappers (initialThread entry activation arguments) where
  arrived := by
    intro frame hframe
    rw [initialThread, List.mem_singleton] at hframe
    subst hframe
    exact arrived_entry entry activation arguments
  settles := by
    intro frame hframe
    rw [initialThread, List.mem_singleton] at hframe
    subst hframe
    exact frameSettles_entry [] entry activation arguments
  called := .singleton _

theorem threadSettles_run {entry : String} {state : State} (h : HonouringRun wrappers entry state) :
    ∀ thread ∈ state.threads, ThreadSettles wrappers thread := by
  induction h with
  | initial =>
      intro thread hthread
      rw [initialState, List.mem_singleton] at hthread
      subst hthread
      exact threadSettles_initial entry 0 []
  | @step state runner action after thread next _ hstep hthread hnext hhonours ih =>
      obtain ⟨hfound, hrun⟩ := hstep
      rw [hthread, Option.some.injEq] at hfound
      subst hfound
      have hlt := (List.getElem?_eq_some_iff.mp hthread).1
      rw [List.getElem?_append_left (by simpa using hlt), List.getElem?_set_self hlt,
        Option.some.injEq] at hnext
      subst hnext
      intro other hother
      rcases List.mem_append.mp hother with hset | hstarted
      · rcases List.mem_or_eq_of_mem_set hset with hother | rfl
        · exact ih other hother
        · exact (ih thread (List.mem_of_getElem? hthread)).step hhonours hrun
      · cases hrun with
        | @start _ _ _ started _ arguments _ _ =>
            rw [Action.started, List.mem_singleton] at hstarted
            subst hstarted
            exact threadSettles_initial started state.fresh arguments
        | _ => exact absurd hstarted List.not_mem_nil

-- In a run whose steps honour what wrappers are relied on for, a function that is about to return has
-- done to its argument what its summary says.
theorem summaries_sound_of_honouring (wrappers : WrapperModule) (entry : String) (state : State)
    (hrun : HonouringRun wrappers entry state) (thread : Thread) (hthread : thread ∈ state.threads)
    (frame : Frame) (callers : List Frame) (hframes : thread.frames = frame :: callers)
    (hreturns : wrappers.module.Returns frame) (effects : List ParameterLockEffect)
    (hsummary : wrappers.collectLockWrapperSummaries frame.function = some effects)
    (effect : ParameterLockEffect) (heffect : effect ∈ effects) (place : Place)
    (hplace : frame.arguments[effect.argumentIndex]? = some place) :
    place ∈ thread.held.map (·.place) ↔ effect.acquires = true := by
  have hsettles := (threadSettles_run hrun thread hthread).settles frame
    (hframes ▸ List.mem_cons_self)
  rw [collectLockWrapperSummaries_eq] at hsummary
  obtain ⟨round, function, hround, hfunction, hnet⟩ := netEffect_of_summary hsummary heffect
  obtain ⟨_, site, hsole⟩ := soleEffect_of_netEffect hnet
  exact hsettles.returns hreturns
    ⟨round, effect.argumentIndex, .last hround hfunction hsole, hplace⟩

end Runs

section Examples

-- `main` calls a function on the address of `m`.
def callingWrapper (body : List Instruction) : WrapperModule where
  module :=
    { functions :=
        [{ id := "main", blocks := [{ instructions := [.call "f" [.global "m"]], returns := true }] },
         { id := "f"
           blocks := [{ instructions := body, returns := true }]
           entryExists := Nat.zero_lt_one
           successorsExist := by simp }]
      idsDistinct := by simp }
  pointerArguments functionId := if functionId = "f" then [0] else []

def placeOfM : Place := ⟨.global "m", 0⟩

def mainCalling : Frame where
  function := "main"
  activation := 0
  arguments := []

def inWrapper (index : Nat) (taken : List Taken) : Frame where
  function := "f"
  activation := 1
  arguments := [placeOfM]
  index := index
  taken := taken

def tookM : List Taken := [⟨.argument 0, placeOfM⟩]

def enteredWrapper : State where
  threads := [⟨[inWrapper 0 [], mainCalling], []⟩]
  fresh := 2

def tookInWrapper : State where
  threads := [⟨[inWrapper 1 tookM, mainCalling], [⟨placeOfM, .exclusive⟩]⟩]
  fresh := 3

theorem callingWrapper_enters (body : List Instruction) :
    Step (callingWrapper body).module (initialState "main") 0 .enter enteredWrapper :=
  .run rfl (.enter rfl (.cons rfl .nil))

theorem inWrapper_denotes :
    List.Forall₂ (inWrapper 0 []).Denotes [.argument 0] [placeOfM] := .cons rfl .nil

theorem enteredWrapper_free (mode : LockMode) : ∀ place ∈ [placeOfM], enteredWrapper.Free 0 place mode := by
  intro place _ number thread hnumber hthread
  have hlt := (List.getElem?_eq_some_iff.mp hthread).1
  simp only [enteredWrapper, List.length_singleton] at hlt
  omega

-- `f` takes its argument and nothing else.
def plainWrapper : WrapperModule :=
  callingWrapper [.lock .pthread_mutex_lock (.argument 0) false]

theorem plainWrapper_takes : Step plainWrapper.module enteredWrapper 0 .take tookInWrapper := by
  have htake : ThreadStep plainWrapper.module (enteredWrapper.Free 0) 2
      ⟨[inWrapper 0 [], mainCalling], []⟩ .take
      ⟨[inWrapper 1 tookM, mainCalling], [⟨placeOfM, .exclusive⟩]⟩ :=
    .take rfl rfl inWrapper_denotes (enteredWrapper_free .exclusive)
  exact .run rfl htake

theorem plainWrapper_runs : HonouringRun plainWrapper "main" tookInWrapper := by
  have henter : Honours plainWrapper ⟨[mainCalling], []⟩ .enter
      ⟨[inWrapper 0 [], mainCalling], []⟩ := by
    refine ⟨fun _ _ _ _ _ _ _ _ _ _ _ hsettled => hsettled, ?_, fun h => (by cases h),
      fun _ h => (by cases h)⟩
    intro frame hframe round argumentIndex acquires _ place hplace
    rw [List.mem_singleton] at hframe
    subst hframe
    cases hplace
  have htake : Honours plainWrapper ⟨[inWrapper 0 [], mainCalling], []⟩ .take
      ⟨[inWrapper 1 tookM, mainCalling], [⟨placeOfM, .exclusive⟩]⟩ := by
    refine ⟨?_, ?_, fun h => (by cases h), fun _ h => (by cases h)⟩
    · intro frame hframe round argumentIndex acquires site place hrelied hplace _ havoid
      simp only [List.mem_cons, List.not_mem_nil, or_false] at hframe
      rcases hframe with rfl | rfl
      · obtain ⟨function, hfunction, _⟩ := hrelied.sole
        exact absurd ⟨function, hfunction, .entry⟩ havoid
      · cases hplace
    · intro frame hframe round argumentIndex acquires _ place hplace instruction hinstruction operand
        hoperand _
      simp only [List.mem_cons, List.not_mem_nil, or_false] at hframe
      rcases hframe with rfl | rfl
      · have hat : instruction = .lock .pthread_mutex_lock (.argument 0) false :=
          (Option.some.inj hinstruction).symm
        subst hat
        have hargument : operand = .argument 0 := List.mem_singleton.mp hoperand
        subst hargument
        obtain ⟨hlt, hget⟩ := List.getElem?_eq_some_iff.mp hplace
        have hfirst : argumentIndex = 0 := by simpa [inWrapper] using hlt
        subst hfirst
        exact congrArg Extent.exactly hget
      · cases hplace
  exact .step (.step .initial (callingWrapper_enters _) rfl rfl henter) plainWrapper_takes rfl rfl htake

theorem plainWrapper_holds_m :
    plainWrapper.collectLockWrapperSummaries "f" = some [⟨0, true, false⟩] ∧
      (placeOfM ∈ [(⟨placeOfM, .exclusive⟩ : HeldLock)].map (·.place) ↔ true = true) := by
  have hsummary : plainWrapper.collectLockWrapperSummaries "f" = some [⟨0, true, false⟩] := by
    decide +kernel
  exact ⟨hsummary, summaries_sound_of_honouring plainWrapper "main" tookInWrapper plainWrapper_runs _
    List.mem_cons_self (inWrapper 1 tookM) _ rfl (.inr ⟨_, rfl, rfl, rfl⟩) _ hsummary _
    List.mem_cons_self placeOfM rfl⟩

-- `f` returns past the lock, and past the handler of an attempt to take it that threw.
def handlingWrapper : WrapperModule :=
  { callingWrapper [] with
    module :=
      { functions :=
          [{ id := "f"
             blocks :=
              [{ instructions := [.lock .mutex_lock (.argument 0) false], successors := [1, 2]
                 unwind := some 2 },
               { returns := true }, { returns := true }] }] } }

-- The handler is on a way out that is not past the lock.
example : handlingWrapper.collectLockWrapperSummaries "f" = none := by decide +kernel

-- `f` holds its argument in a scope of its own.
def scopedWrapper : WrapperModule :=
  callingWrapper
    [.guardCtor .lock_guard .none (.alloca "guard") [.argument 0] false,
      .guardDtor .lock_guard (.alloca "guard")]

-- The guard's destructor names no lock, so the constructor counts as the one effect of `f`: it is
-- summarised as taking a lock that it returns without.
theorem scopedWrapper_returns_without_m :
    scopedWrapper.collectLockWrapperSummaries "f" = some [⟨0, true, false⟩] ∧
      ∃ state, Reachable scopedWrapper.module (fun _ _ _ => True) "main" state ∧
        ∃ thread ∈ state.threads, ∃ frame callers, thread.frames = frame :: callers ∧
          frame.function = "f" ∧ scopedWrapper.module.Returns frame ∧
          frame.arguments[0]? = some placeOfM ∧ placeOfM ∉ thread.held.map (·.place) := by
  have htake : ThreadStep scopedWrapper.module (enteredWrapper.Free 0) 2
      ⟨[inWrapper 0 [], mainCalling], []⟩ .take
      ⟨[inWrapper 1 tookM, mainCalling], [⟨placeOfM, .exclusive⟩]⟩ :=
    .take rfl rfl inWrapper_denotes (enteredWrapper_free .exclusive)
  have htook : Step scopedWrapper.module enteredWrapper 0 .take tookInWrapper := .run rfl htake
  have hrelease : ThreadStep scopedWrapper.module (tookInWrapper.Free 0) 3
      ⟨[inWrapper 1 tookM, mainCalling], [⟨placeOfM, .exclusive⟩]⟩ (.release [tookM])
      ⟨[inWrapper 2 [], mainCalling], []⟩ := by
    have hbacked : Thread.Backed
        ⟨dropRecords [(inWrapper 1 tookM).advance, mainCalling] [tookM], []⟩ := List.nil_subperm
    have hheld : [(⟨placeOfM, .exclusive⟩ : HeldLock)].Perm
        ([⟨placeOfM, .exclusive⟩] ++ []) := .refl _
    exact .release rfl trivial hheld hbacked
  refine ⟨by decide +kernel, _, .step (.step (.step .initial trivial (callingWrapper_enters _)) trivial
    htook) trivial (.run rfl hrelease), _, List.mem_cons_self, inWrapper 2 [], _, rfl, rfl,
    .inr ⟨_, rfl, rfl, rfl⟩, rfl, List.not_mem_nil⟩

end Examples

end ConcurrencyAnalyzer.LockState
