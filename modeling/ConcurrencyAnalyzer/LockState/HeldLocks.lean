import ConcurrencyAnalyzer.LockState.Conditions

namespace ConcurrencyAnalyzer.LockState

open Program LockStatePropagator

variable {tracker : LockScopeTracker} {module : Module}

-- What the instructions of a program are to the analysis.
section Changes

theorem plainLockEffect_role (function : LockFunction) :
    plainLockEffect (classifyCallee function) = some (match function.role with
      | .take => .Acquire
      | .tryTake => .TryAcquire
      | .release => .Release) := by
  cases function <;> rfl

variable (tracker) (function : Function)

theorem changeAt_lock (lockFunction : LockFunction) (operand : Pointer) (recursiveLock : Bool) :
    (tracker.changeAt function (.lock lockFunction operand recursiveLock)).acquired =
        (if lockFunction.role = .release then []
          else ((tracker.resolver function.id).lockIdOf operand).toList) ∧
      (tracker.changeAt function (.lock lockFunction operand recursiveLock)).released =
        (if lockFunction.role = .release then
          ((tracker.resolver function.id).lockIdOf operand).toList
          else []) := by
  unfold LockScopeTracker.changeAt lockStateChangeFor
  simp only [SynchronizationEffectResolver.resolve, SynchronizationEffectResolver.plainEffects,
    plainLockEffect_role]
  cases (tracker.resolver function.id).lockIdOf operand <;> cases lockFunction.role <;>
    simp [LockStateChange.add]

theorem changeAt_guardCtor (guard : GuardTemplate) (tag : GuardTag) (storage : Pointer)
    (locks : List Pointer) (recursiveLock : Bool) :
    (∀ name ∈ (tracker.changeAt function (.guardCtor guard tag storage locks recursiveLock)).acquired,
        ∃ lock ∈ locks, (tracker.resolver function.id).lockIdOf lock = some name) ∧
      (tracker.changeAt function (.guardCtor guard tag storage locks recursiveLock)).released = [] := by
  unfold LockScopeTracker.changeAt lockStateChangeFor
  simp only [SynchronizationEffectResolver.resolve]
  cases canonicalStorageGroupId (tracker.resolver function.id).functionId "" storage with
  | none => simp
  | some guardId =>
      simp only []
      split
      · simp
      · split
        · simp
        · simp only [List.foldl_cons, List.foldl_nil, LockStateChange.add, List.nil_append,
            List.mem_filterMap, List.mem_filter]
          exact ⟨fun name ⟨lock, ⟨hlock, _⟩, hname⟩ => ⟨lock, hlock, hname⟩, trivial⟩

theorem changeAt_passive {instruction : Instruction} (h : instruction.isPassive = true) :
    (tracker.changeAt function instruction).acquired = [] ∧
      (tracker.changeAt function instruction).released = [] := by
  cases instruction with
  | guardCtor guard tag storage locks recursiveLock =>
      have htag : tag = .defer_lock := by simpa [Instruction.isPassive] using h
      subst htag
      unfold LockScopeTracker.changeAt lockStateChangeFor
      simp only [SynchronizationEffectResolver.resolve]
      cases canonicalStorageGroupId (tracker.resolver function.id).functionId "" storage <;> simp
  | access => exact ⟨rfl, rfl⟩
  | other => exact ⟨rfl, rfl⟩
  | _ => exact absurd h (by simp [Instruction.isPassive])

-- What an instruction that takes locks adds to the held ones are names of what it takes.
theorem changeAt_takes {instruction : Instruction} {operands : List Pointer} {mode : LockMode}
    (h : instruction.takes = some (operands, mode)) :
    (∀ name ∈ (tracker.changeAt function instruction).acquired,
        ∃ operand ∈ operands, (tracker.resolver function.id).lockIdOf operand = some name) ∧
      (tracker.changeAt function instruction).released = [] := by
  cases instruction with
  | lock lockFunction operand recursiveLock =>
      simp only [Instruction.takes] at h
      split at h
      · exact absurd h (by simp)
      · have hoperands : [operand] = operands := by
          simp only [Option.some.injEq, Prod.mk.injEq] at h
          exact h.1
        obtain ⟨hacquired, hreleased⟩ := changeAt_lock tracker function lockFunction operand
          recursiveLock
        rw [hacquired, hreleased, if_neg ‹_›, if_neg ‹_›, ← hoperands]
        refine ⟨fun name hname => ⟨operand, List.mem_singleton_self operand, ?_⟩, rfl⟩
        exact Option.mem_toList.mp hname
  | guardCtor guard tag storage locks recursiveLock =>
      simp only [Instruction.takes] at h
      split at h
      · have hlocks : locks = operands := by
          simp only [Option.some.injEq, Prod.mk.injEq] at h
          exact h.1
        exact hlocks ▸ changeAt_guardCtor tracker function guard tag storage locks recursiveLock
      · exact absurd h (by simp)
  | _ => exact absurd h (by simp [Instruction.takes])

-- An instruction that releases locks takes none.
theorem changeAt_mayRelease {instruction : Instruction} {denotes : Pointer → Place → Prop}
    {places : List Place} (h : instruction.mayRelease denotes places) :
    (tracker.changeAt function instruction).acquired = [] := by
  cases instruction with
  | lock lockFunction operand recursiveLock =>
      rw [(changeAt_lock tracker function lockFunction operand recursiveLock).1, if_pos h.1]
  | guardDtor guard storage =>
      unfold LockScopeTracker.changeAt lockStateChangeFor
      simp only [SynchronizationEffectResolver.resolve]
      cases canonicalStorageGroupId (tracker.resolver function.id).functionId "" storage <;>
        simp [LockStateChange.add]
  | _ => exact absurd h (by simp [Instruction.mayRelease])

theorem acquired_foldl {bound : String → List String} {effects : List LockEffect}
    {change : LockStateChange} {name : String}
    (h : name ∈ (effects.foldl (LockStateChange.add bound) change).acquired) :
    name ∈ change.acquired ∨ ∃ effect ∈ effects, name ∈ effect.lockIds := by
  induction effects generalizing change with
  | nil => exact .inl h
  | cons effect rest ih =>
      rcases ih h with hadded | ⟨other, hother, hname⟩
      · have hone : name ∈ change.acquired ∨ name ∈ effect.lockIds := by
          unfold LockStateChange.add at hadded
          cases hkind : effect.kind <;> simp only [hkind, List.mem_append] at hadded <;> tauto
        exact hone.imp_right fun hname => ⟨effect, List.mem_cons_self, hname⟩
      · exact .inr ⟨other, List.mem_cons_of_mem effect hother, hname⟩

-- A call takes, as far as the analysis knows, locks it is handed.
theorem changeAt_call (callee : String) (operands : List Pointer) :
    ∀ name ∈ (tracker.changeAt function (.call callee operands)).acquired,
      ∃ operand ∈ operands, (tracker.resolver function.id).lockIdOf operand = some name := by
  intro name hname
  rcases acquired_foldl hname with hnone | ⟨effect, heffect, hnamed⟩
  · exact absurd hnone List.not_mem_nil
  · simp only [SynchronizationEffectResolver.resolve,
      SynchronizationEffectResolver.summarizedEffects] at heffect
    split at heffect
    · exact absurd heffect List.not_mem_nil
    · obtain ⟨parameter, _, hsummarized⟩ := List.mem_filterMap.mp heffect
      obtain ⟨operand, hoperand, heffect⟩ := Option.bind_eq_some_iff.mp hsummarized
      obtain ⟨lockId, hlockId, rfl⟩ := Option.map_eq_some_iff.mp heffect
      rw [List.mem_singleton] at hnamed
      exact ⟨operand, List.mem_of_getElem? hoperand, hnamed ▸ hlockId⟩

-- What an instruction other than a call adds are names of what it attempts to take.
theorem changeAt_attempts {instruction : Instruction}
    (h : ∀ callee operands, instruction ≠ .call callee operands) :
    ∀ name ∈ (tracker.changeAt function instruction).acquired,
      ∃ operand ∈ instruction.attempts, (tracker.resolver function.id).lockIdOf operand = some name := by
  cases instruction with
  | lock lockFunction operand recursiveLock =>
      intro name hname
      rw [(changeAt_lock tracker function lockFunction operand recursiveLock).1] at hname
      simp only [Instruction.attempts]
      split at hname
      · exact absurd hname List.not_mem_nil
      · rename_i hrole
        rw [if_neg hrole]
        exact ⟨operand, List.mem_singleton_self operand, Option.mem_toList.mp hname⟩
  | guardCtor guard tag storage locks recursiveLock =>
      exact (changeAt_guardCtor tracker function guard tag storage locks recursiveLock).1
  | guardDtor guard storage =>
      have hrelease : (Instruction.guardDtor guard storage).mayRelease (fun _ _ => True) [] := trivial
      simp [changeAt_mayRelease tracker function hrelease]
  | call callee operands => exact absurd rfl (h callee operands)
  | _ => exact fun _ hname => absurd hname List.not_mem_nil

end Changes

theorem extent_congr {frame after : Frame} (harguments : after.arguments = frame.arguments)
    (hactivation : after.activation = frame.activation) (pointer : Pointer) :
    after.extent pointer = frame.extent pointer := by
  induction pointer with
  | argument index => rw [Frame.extent, Frame.extent, harguments]
  | alloca slot => rw [Frame.extent, Frame.extent, hactivation]
  | gep base indices byteOffset ih => rw [Frame.extent, Frame.extent, ih]
  | copied stored ih => rw [Frame.extent, Frame.extent, ih]
  | _ => rfl

theorem denotes_congr {frame after : Frame} {pointer : Pointer} {place : Place}
    (h : frame.Denotes pointer place) (harguments : after.arguments = frame.arguments)
    (hactivation : after.activation = frame.activation) : after.Denotes pointer place := by
  unfold Frame.Denotes
  rw [extent_congr harguments hactivation]
  exact h

theorem forall₂_denotes_congr {frame after : Frame} {operands : List Pointer} {places : List Place}
    (h : List.Forall₂ frame.Denotes operands places) (harguments : after.arguments = frame.arguments)
    (hactivation : after.activation = frame.activation) :
    List.Forall₂ after.Denotes operands places := by
  induction h with
  | nil => exact .nil
  | cons hdenotes _ ih => exact .cons (denotes_congr hdenotes harguments hactivation) ih

variable (tracker module)

-- The function gets where the activation is, as far as the analysis can tell.
def Placed (frame : Frame) : Prop :=
  ∀ function, module.functionWithId frame.function = some function →
    frame.block ∈ function.reachable ∧
      ∃ held, tracker.collectHeldLocks function frame.block frame.index = some held

def Recorded (frame : Frame) (name : String) : Prop :=
  ∃ record ∈ frame.taken, nameIn tracker frame record.operand = some name

def Missed (frame : Frame) (name : String) : Prop :=
  ∃ operand ∈ frame.missed, nameIn tracker frame operand = some name

-- Every counted lock is one the activation took, or tried to. Where it stands at a call that gave up
-- locks for it, those the call is known to release may be gone.
def FrameCounts (loose : Bool) (frame : Frame) : Prop :=
  ∀ name ∈ countedAt tracker module frame, Recorded tracker frame name ∨ Missed tracker frame name ∨
    (loose = true ∧ name ∈ (changeOf tracker module frame).released)

def StackCounts : Bool → List Frame → Prop
  | _, [] => True
  | loose, frame :: rest =>
      Placed tracker module frame ∧ FrameCounts tracker module loose frame ∧
        StackCounts frame.gaveUp rest

-- Each activation was called by the one below it, and the last one starts a thread.
def Linked : List Frame → Prop
  | [] => True
  | [frame] => ∀ lock, ¬EnteredUnder tracker module lock frame.function
  | frame :: caller :: rest =>
      (∃ operands, module.instructionAt caller = some (.call frame.function operands) ∧
        List.Forall₂ caller.Denotes operands frame.arguments) ∧ Linked (caller :: rest)

structure ThreadCounts (thread : Thread) : Prop where
  backed : thread.Backed
  counts : StackCounts tracker module false thread.frames
  linked : Linked tracker module thread.frames
  denotes : ∀ frame ∈ thread.frames, ∀ record ∈ frame.taken,
    frame.Denotes record.operand record.place

variable {tracker module}

section Frames

variable {frame after : Frame} {instruction : Instruction} {loose : Bool}

theorem instructionAt_congr (hfunction : after.function = frame.function)
    (hblock : after.block = frame.block) (hindex : after.index = frame.index) :
    module.instructionAt after = module.instructionAt frame := by
  rw [Module.instructionAt, hfunction, hblock, hindex, Module.instructionAt]

theorem changeOf_eq {function : Function}
    (hfunction : module.functionWithId frame.function = some function)
    (hinstruction : module.instructionAt frame = some instruction) :
    changeOf tracker module frame = tracker.changeAt function instruction := by
  rw [changeOf, hfunction, hinstruction]

theorem functionWithId_of_instructionAt (h : module.instructionAt frame = some instruction) :
    ∃ function, module.functionWithId frame.function = some function ∧
      function.instructionAt frame.block frame.index = some instruction :=
  Option.bind_eq_some_iff.mp h

theorem acquired_of_takes {operands : List Pointer} {mode : LockMode}
    (hinstruction : module.instructionAt frame = some instruction)
    (htakes : instruction.takes = some (operands, mode)) :
    ∀ name ∈ (changeOf tracker module frame).acquired,
      ∃ operand ∈ operands, (tracker.resolver frame.function).lockIdOf operand = some name := by
  obtain ⟨function, hfound, _⟩ := functionWithId_of_instructionAt hinstruction
  have hid : function.id = frame.function := (Module.mem_of_functionWithId hfound).2
  obtain ⟨hacquired, _⟩ := changeAt_takes tracker function htakes
  rwa [← changeOf_eq hfound hinstruction, hid] at hacquired

theorem Placed.next (h : Placed tracker module frame)
    (hinstruction : module.instructionAt frame = some instruction)
    (hfunction : after.function = frame.function) (hblock : after.block = frame.block)
    (hindex : after.index = frame.index + 1) : Placed tracker module after := by
  obtain ⟨function, hfound, hat⟩ := functionWithId_of_instructionAt hinstruction
  obtain ⟨hreachable, held, hheld⟩ := h function hfound
  intro other hother
  rw [hfunction, hfound, Option.some.injEq] at hother
  subst hother
  rw [hblock, hindex]
  exact ⟨hreachable, _, LockScopeTracker.collectHeldLocks_next hat hheld⟩

-- Past an instruction the analysis counts what it counted before, less what the instruction
-- releases and with what it takes.
theorem Placed.countedAt_next (h : Placed tracker module frame)
    (hinstruction : module.instructionAt frame = some instruction)
    (hfunction : after.function = frame.function) (hblock : after.block = frame.block)
    (hindex : after.index = frame.index + 1) :
    countedAt tracker module after =
      applyChange (changeOf tracker module frame) (countedAt tracker module frame) := by
  obtain ⟨function, hfound, hat⟩ := functionWithId_of_instructionAt hinstruction
  obtain ⟨hreachable, held, hheld⟩ := h function hfound
  have hnext := LockScopeTracker.collectHeldLocks_next hat hheld
  rw [countedAt, hfunction, hfound, hblock, hindex, Option.bind_some, hnext, Option.getD_some,
    countedAt, hfound, Option.bind_some, hheld, Option.getD_some, changeOf_eq hfound hinstruction]

theorem FrameCounts.next (hplaced : Placed tracker module frame)
    (h : FrameCounts tracker module loose frame)
    (hinstruction : module.instructionAt frame = some instruction)
    (hfunction : after.function = frame.function) (hblock : after.block = frame.block)
    (hindex : after.index = frame.index + 1)
    (hkept : ∀ name, name ∉ (changeOf tracker module frame).released →
      Recorded tracker frame name ∨ Missed tracker frame name →
        Recorded tracker after name ∨ Missed tracker after name)
    (hnew : ∀ name ∈ (changeOf tracker module frame).acquired,
      Recorded tracker after name ∨ Missed tracker after name) :
    FrameCounts tracker module false after := by
  intro name hname
  rw [hplaced.countedAt_next hinstruction hfunction hblock hindex, applyChange, Finset.mem_union,
    Finset.mem_sdiff, List.mem_toFinset, List.mem_toFinset] at hname
  rcases hname with ⟨hcounted, hreleased⟩ | hacquired
  · rcases h name hcounted with hrecorded | hmissed | ⟨_, hgone⟩
    · exact (hkept name hreleased (.inl hrecorded)).imp_right .inl
    · exact (hkept name hreleased (.inr hmissed)).imp_right .inl
    · exact absurd hgone hreleased
  · exact (hnew name hacquired).imp_right .inl

theorem placed_branch {block : Block} {successor : Nat} (h : Placed tracker module frame)
    (hblock : module.blockOf frame = some block) (hindex : frame.index = block.instructions.length)
    (hsuccessor : successor ∈ block.successors) :
    Placed tracker module { frame with block := successor, index := 0 } ∧
      countedAt tracker module { frame with block := successor, index := 0 } ⊆
        countedAt tracker module frame := by
  obtain ⟨function, hfound, hat⟩ := Option.bind_eq_some_iff.mp hblock
  obtain ⟨hreachable, held, hheld⟩ := h function hfound
  rw [hindex] at hheld
  obtain ⟨next, hnext, hsubset⟩ :=
    LockScopeTracker.collectHeldLocks_branch hreachable hat hsuccessor hheld
  constructor
  · intro other hother
    rw [show module.functionWithId frame.function = some other from hother,
      Option.some.injEq] at hfound
    subst hfound
    refine ⟨Function.reachable_successor hreachable ?_, next, hnext⟩
    unfold Function.successors
    rwa [hat]
  · rw [countedAt, countedAt, hfound, Option.bind_some, Option.bind_some, hnext, hindex, hheld]
    exact hsubset

theorem placed_entry (function : String) (activation : Nat) (arguments : List Place) :
    Placed tracker module { function := function, activation := activation, arguments := arguments } :=
  fun found _ => ⟨found.entry_reachable, ∅, LockScopeTracker.collectHeldLocks_entry⟩

theorem frameCounts_entry (function : String) (activation : Nat) (arguments : List Place) :
    FrameCounts tracker module loose
      { function := function, activation := activation, arguments := arguments } := by
  intro name hname
  unfold countedAt at hname
  cases hfound : module.functionWithId function with
  | none => simp [hfound] at hname
  | some found =>
      have hentry : tracker.collectHeldLocks found 0 0 = some ∅ :=
        LockScopeTracker.collectHeldLocks_entry
      simp [hfound, hentry] at hname

end Frames

section Stacks

variable {frame after : Frame} {rest : List Frame}

theorem recorded_of_diff {gone : List Taken}
    (hgone : ∀ record ∈ gone, ∀ name, nameIn tracker frame record.operand = some name →
      name ∈ (changeOf tracker module frame).released)
    {name : String} (hname : name ∉ (changeOf tracker module frame).released)
    (h : Recorded tracker frame name) :
    ∃ record ∈ frame.taken.diff gone, nameIn tracker frame record.operand = some name := by
  obtain ⟨record, hrecord, hnamed⟩ := h
  exact ⟨record, List.mem_diff_of_mem hrecord fun hmem => hname (hgone record hmem name hnamed), hnamed⟩

-- An activation that loses a lock stands at a call known to release it, and what it called gave it
-- up.
theorem stackCounts_drop {frames : List Frame} {drops : List (List Taken)} {loose : Bool}
    (h : StackCounts tracker module loose frames) (hdrops : DropsCounted tracker module frames drops) :
    StackCounts tracker module (loose || drops.any (!·.isEmpty)) (dropRecords frames drops) := by
  induction frames generalizing drops loose with
  | nil => trivial
  | cons frame rest ih =>
      cases drops with
      | nil => simpa [dropRecords] using h
      | cons gone drops =>
          obtain ⟨hplaced, hcounts, hrest⟩ := h
          obtain ⟨hgone, hdrops⟩ := hdrops
          refine ⟨hplaced, fun name hname => ?_, ih hrest hdrops⟩
          by_cases hreleased : name ∈ (changeOf tracker module frame).released
          · by_cases hempty : gone = []
            · subst hempty
              rcases hcounts name hname with hrecorded | hmissed | ⟨hloose, _⟩
              · exact .inl hrecorded
              · exact .inr (.inl hmissed)
              · exact .inr (.inr ⟨by simp [hloose], hreleased⟩)
            · exact .inr (.inr ⟨by simp [hempty], hreleased⟩)
          · rcases hcounts name hname with hrecorded | hmissed | ⟨_, hnot⟩
            · exact .inl (recorded_of_diff hgone hreleased hrecorded)
            · exact .inr (.inl hmissed)
            · exact absurd hnot hreleased

theorem Linked.top (h : Linked tracker module (frame :: rest))
    (hfunction : after.function = frame.function) (harguments : after.arguments = frame.arguments) :
    Linked tracker module (after :: rest) := by
  cases rest with
  | nil =>
      rw [Linked, hfunction]
      exact h
  | cons caller rest =>
      rw [Linked, hfunction, harguments]
      exact h

theorem Linked.tail (h : Linked tracker module (frame :: after :: rest)) :
    Linked tracker module (after :: rest) := h.2

theorem Linked.drop {frames : List Frame} (h : Linked tracker module frames)
    (drops : List (List Taken)) : Linked tracker module (dropRecords frames drops) := by
  induction frames generalizing drops with
  | nil => cases drops <;> exact h
  | cons frame rest ih =>
      cases drops with
      | nil => exact h
      | cons gone drops =>
          cases rest with
          | nil => exact h.top rfl rfl
          | cons caller rest =>
              have hrest := ih h.tail drops
              obtain ⟨operands, hcall, harguments⟩ := h.1
              cases drops with
              | nil => exact ⟨⟨operands, hcall, harguments⟩, hrest⟩
              | cons next drops =>
                  refine ⟨⟨operands, ?_, ?_⟩, hrest⟩
                  · rw [← hcall]
                    exact instructionAt_congr rfl rfl rfl
                  · exact forall₂_denotes_congr harguments rfl rfl

theorem dropRecords_denotes {frames : List Frame} (drops : List (List Taken))
    (h : ∀ frame ∈ frames, ∀ record ∈ frame.taken, frame.Denotes record.operand record.place) :
    ∀ frame ∈ dropRecords frames drops, ∀ record ∈ frame.taken,
      frame.Denotes record.operand record.place := by
  induction frames generalizing drops with
  | nil => cases drops <;> exact h
  | cons frame rest ih =>
      cases drops with
      | nil => exact h
      | cons gone drops =>
          rw [List.forall_mem_cons] at h
          rw [dropRecords, List.forall_mem_cons]
          refine ⟨fun record hrecord => ?_, ih drops h.2⟩
          exact denotes_congr (h.1 record (List.diff_subset _ _ hrecord)) rfl rfl

end Stacks

theorem place_held_of_backed {thread : Thread} (h : thread.Backed) {frame : Frame}
    (hframe : frame ∈ thread.frames) {record : Taken} (hrecord : record ∈ frame.taken) :
    record.place ∈ thread.held.map (·.place) :=
  h.subset (List.mem_map_of_mem (List.mem_flatMap.mpr ⟨frame, hframe, hrecord⟩))

theorem map_place_zipWith {frame : Frame} {operands : List Pointer} {places : List Place}
    (h : List.Forall₂ frame.Denotes operands places) :
    (List.zipWith Taken.mk operands places).map (·.place) = places := by
  induction h with
  | nil => rfl
  | cons _ _ ih => simpa using ih

theorem mem_zipWith_taken {frame : Frame} {operands : List Pointer} {places : List Place}
    (h : List.Forall₂ frame.Denotes operands places) :
    (∀ operand ∈ operands, ∃ record ∈ List.zipWith Taken.mk operands places,
        record.operand = operand) ∧
      ∀ record ∈ List.zipWith Taken.mk operands places, frame.Denotes record.operand record.place := by
  induction h with
  | nil => simp
  | @cons operand place operands places hdenotes _ ih =>
      rw [List.zipWith_cons_cons, List.forall_mem_cons, List.forall_mem_cons]
      refine ⟨⟨⟨⟨operand, place⟩, List.mem_cons_self, rfl⟩, fun next hnext => ?_⟩, hdenotes, ih.2⟩
      obtain ⟨record, hrecord, hoperand⟩ := ih.1 next hnext
      exact ⟨record, List.mem_cons_of_mem _ hrecord, hoperand⟩

section Steps

variable {free : Place → LockMode → Prop} {fresh : Nat} {frame after : Frame} {rest : List Frame}
  {held : List HeldLock}

-- The innermost activation moves on, the others stay as they are.
theorem ThreadCounts.next {kept : List HeldLock} {instruction : Instruction}
    (h : ThreadCounts tracker module ⟨frame :: rest, held⟩)
    (hinstruction : module.instructionAt frame = some instruction)
    (hfunction : after.function = frame.function) (harguments : after.arguments = frame.arguments)
    (hblock : after.block = frame.block) (hindex : after.index = frame.index + 1)
    (hgaveUp : after.gaveUp = frame.gaveUp) (hbacked : Thread.Backed ⟨after :: rest, kept⟩)
    (hkept : ∀ name, name ∉ (changeOf tracker module frame).released →
      Recorded tracker frame name ∨ Missed tracker frame name →
        Recorded tracker after name ∨ Missed tracker after name)
    (hnew : ∀ name ∈ (changeOf tracker module frame).acquired,
      Recorded tracker after name ∨ Missed tracker after name)
    (hdenotes : ∀ record ∈ after.taken, after.Denotes record.operand record.place) :
    ThreadCounts tracker module ⟨after :: rest, kept⟩ where
  backed := hbacked
  counts := by
    obtain ⟨hplaced, hcounts, hrest⟩ := h.counts
    refine ⟨hplaced.next hinstruction hfunction hblock hindex,
      hcounts.next hplaced hinstruction hfunction hblock hindex hkept hnew, ?_⟩
    rw [hgaveUp]
    exact hrest
  linked := h.linked.top hfunction harguments
  denotes := by
    rw [List.forall_mem_cons]
    exact ⟨hdenotes, (List.forall_mem_cons.mp h.denotes).2⟩

theorem ThreadCounts.pass {instruction : Instruction}
    (h : ThreadCounts tracker module ⟨frame :: rest, held⟩)
    (hinstruction : module.instructionAt frame = some instruction)
    (hacquired : (changeOf tracker module frame).acquired = []) :
    ThreadCounts tracker module ⟨frame.advance :: rest, held⟩ :=
  h.next hinstruction rfl rfl rfl rfl rfl h.backed (fun _ _ hrecorded => hrecorded)
    (by simp [hacquired])
    fun record hrecord =>
      denotes_congr (h.denotes frame List.mem_cons_self record hrecord) rfl rfl

theorem ThreadCounts.take {instruction : Instruction} {operands : List Pointer} {mode : LockMode}
    {places : List Place} (h : ThreadCounts tracker module ⟨frame :: rest, held⟩)
    (hinstruction : module.instructionAt frame = some instruction)
    (htakes : instruction.takes = some (operands, mode))
    (hplaces : List.Forall₂ frame.Denotes operands places) :
    ThreadCounts tracker module
      ⟨{ frame.advance with
          taken := List.zipWith Taken.mk operands places ++ frame.taken
          missed := frame.missed.filter (· ∉ operands) } :: rest,
        places.map (⟨·, mode⟩) ++ held⟩ := by
  have hacquired := @acquired_of_takes tracker _ _ _ _ _ hinstruction htakes
  obtain ⟨hrecords, hdenotes⟩ := mem_zipWith_taken hplaces
  refine h.next hinstruction rfl rfl rfl rfl rfl ?_ ?_ ?_ ?_
  · have hbacked := h.backed
    unfold Thread.Backed at hbacked ⊢
    simp only [List.flatMap_cons, List.map_append, List.append_assoc, List.map_map] at hbacked ⊢
    rw [map_place_zipWith hplaces]
    have hmap : places.map (HeldLock.place ∘ fun place => (⟨place, mode⟩ : HeldLock)) = places := by
      simp [Function.comp_def]
    rw [hmap]
    exact (List.subperm_append_left places).mpr hbacked
  · rintro name _ (⟨record, hrecord, hname⟩ | ⟨operand, hoperand, hname⟩)
    · exact .inl ⟨record, List.mem_append_right _ hrecord, hname⟩
    · by_cases hmem : operand ∈ operands
      · obtain ⟨record, hrecord, rfl⟩ := hrecords operand hmem
        exact .inl ⟨record, List.mem_append_left _ hrecord, hname⟩
      · exact .inr ⟨operand, List.mem_filter.mpr ⟨hoperand, by simpa using hmem⟩, hname⟩
  · intro name hname
    obtain ⟨operand, hoperand, hnamed⟩ := hacquired name hname
    obtain ⟨record, hrecord, rfl⟩ := hrecords operand hoperand
    exact .inl ⟨record, List.mem_append_left _ hrecord, hnamed⟩
  · intro record hrecord
    rcases List.mem_append.mp hrecord with hrecord | hrecord
    · exact denotes_congr (hdenotes record hrecord) rfl rfl
    · exact denotes_congr (h.denotes frame List.mem_cons_self record hrecord) rfl rfl

theorem ThreadCounts.miss {instruction : Instruction} {operands : List Pointer} {mode : LockMode}
    (h : ThreadCounts tracker module ⟨frame :: rest, held⟩)
    (hinstruction : module.instructionAt frame = some instruction)
    (htakes : instruction.takes = some (operands, mode)) :
    ThreadCounts tracker module
      ⟨{ frame.advance with missed := operands ++ frame.missed } :: rest, held⟩ := by
  have hacquired := @acquired_of_takes tracker _ _ _ _ _ hinstruction htakes
  refine h.next hinstruction rfl rfl rfl rfl rfl h.backed ?_ ?_ ?_
  · rintro name _ (hrecorded | ⟨operand, hoperand, hname⟩)
    · exact .inl hrecorded
    · exact .inr ⟨operand, List.mem_append_right _ hoperand, hname⟩
  · intro name hname
    obtain ⟨operand, hoperand, hnamed⟩ := hacquired name hname
    exact .inr ⟨operand, List.mem_append_left _ hoperand, hnamed⟩
  · exact fun record hrecord =>
      denotes_congr (h.denotes frame List.mem_cons_self record hrecord) rfl rfl

theorem ThreadCounts.adopt {guard : GuardTemplate} {storage : Pointer} {locks : List Pointer}
    {recursiveLock : Bool} {places : List Place} {recorded : List Taken}
    (h : ThreadCounts tracker module ⟨frame :: rest, held⟩)
    (hinstruction : module.instructionAt frame =
      some (.guardCtor guard .adopt_lock storage locks recursiveLock))
    (hplaces : List.Forall₂ frame.Denotes locks places)
    (hrecorded : recorded.Sublist (List.zipWith Taken.mk locks places))
    (hbacked : Thread.Backed ⟨{ frame.advance with taken := recorded ++ frame.taken } :: rest, held⟩)
    (hmeets : RecordsChange tracker module frame (recorded ++ frame.taken)) :
    ThreadCounts tracker module
      ⟨{ frame.advance with taken := recorded ++ frame.taken } :: rest, held⟩ := by
  refine h.next hinstruction rfl rfl rfl rfl rfl hbacked ?_ (fun name hname => .inl (hmeets name hname)) ?_
  · rintro name _ (⟨record, hrecord, hname⟩ | hmissed)
    · exact .inl ⟨record, List.mem_append_right _ hrecord, hname⟩
    · exact .inr hmissed
  · intro record hrecord
    rcases List.mem_append.mp hrecord with hrecord | hrecord
    · exact denotes_congr ((mem_zipWith_taken hplaces).2 record (hrecorded.subset hrecord)) rfl rfl
    · exact denotes_congr (h.denotes frame List.mem_cons_self record hrecord) rfl rfl

theorem ThreadCounts.release {instruction : Instruction} {gone : List Place} {kept : List HeldLock}
    {drops : List (List Taken)} (h : ThreadCounts tracker module ⟨frame :: rest, held⟩)
    (hinstruction : module.instructionAt frame = some instruction)
    (hrelease : instruction.mayRelease frame.Denotes gone)
    (hbacked : Thread.Backed ⟨dropRecords (frame.advance :: rest) drops, kept⟩)
    (hmeets : DropsCounted tracker module (frame :: rest) drops) :
    ThreadCounts tracker module ⟨dropRecords (frame.advance :: rest) drops, kept⟩ where
  backed := hbacked
  counts := by
    obtain ⟨function, hfound, _⟩ := functionWithId_of_instructionAt hinstruction
    have hacquired : (changeOf tracker module frame).acquired = [] := by
      rw [changeOf_eq hfound hinstruction]
      exact changeAt_mayRelease tracker function hrelease
    obtain ⟨hplaced, hcounts, hrest⟩ := h.counts
    cases drops with
    | nil =>
        refine ⟨hplaced.next hinstruction rfl rfl rfl, ?_, hrest⟩
        exact hcounts.next hplaced hinstruction rfl rfl rfl (fun _ _ hrecorded => hrecorded)
          (by simp [hacquired])
    | cons gone drops =>
        refine ⟨hplaced.next hinstruction rfl rfl rfl, ?_, stackCounts_drop hrest hmeets.2⟩
        refine hcounts.next hplaced hinstruction rfl rfl rfl (fun name hname => ?_)
          (by simp [hacquired])
        rintro (hrecorded | hmissed)
        · exact .inl (recorded_of_diff hmeets.1 hname hrecorded)
        · exact .inr hmissed
  linked := by
    have hlinked : Linked tracker module (frame.advance :: rest) := h.linked.top rfl rfl
    exact hlinked.drop drops
  denotes := by
    refine dropRecords_denotes drops ?_
    rw [List.forall_mem_cons]
    refine ⟨fun record hrecord => ?_, (List.forall_mem_cons.mp h.denotes).2⟩
    exact denotes_congr (h.denotes frame List.mem_cons_self record hrecord) rfl rfl

-- The analysis counts nothing for code it does not have.
theorem countedAt_outside (houtside : module.functionWithId frame.function = none) :
    countedAt tracker module frame = ∅ := by
  rw [countedAt, houtside]
  rfl

theorem ThreadCounts.outsideRelease {kept : List HeldLock} {drops : List (List Taken)}
    (h : ThreadCounts tracker module ⟨frame :: rest, held⟩)
    (houtside : module.functionWithId frame.function = none)
    (hbacked : Thread.Backed ⟨dropRecords (frame :: rest) drops, kept⟩)
    (hmeets : DropsCounted tracker module (frame :: rest) drops) :
    ThreadCounts tracker module ⟨dropRecords (frame :: rest) drops, kept⟩ where
  backed := hbacked
  counts := by
    obtain ⟨hplaced, hcounts, hrest⟩ := h.counts
    cases drops with
    | nil => exact ⟨hplaced, hcounts, hrest⟩
    | cons gone drops =>
        refine ⟨hplaced, fun name hname => ?_, stackCounts_drop hrest hmeets.2⟩
        have hcounted : name ∈ countedAt tracker module frame := hname
        rw [countedAt_outside houtside] at hcounted
        exact absurd hcounted (Finset.notMem_empty name)
  linked := h.linked.drop drops
  denotes := dropRecords_denotes drops h.denotes

theorem ThreadCounts.enter {callee : String} {operands : List Pointer} {arguments : List Place}
    (h : ThreadCounts tracker module ⟨frame :: rest, held⟩)
    (hinstruction : module.instructionAt frame = some (.call callee operands))
    (harguments : List.Forall₂ frame.Denotes operands arguments) (activation : Nat) :
    ThreadCounts tracker module
      ⟨{ function := callee, activation := activation, arguments := arguments } :: frame :: rest,
        held⟩ where
  backed := h.backed
  counts := ⟨placed_entry callee activation arguments,
    frameCounts_entry callee activation arguments, h.counts⟩
  linked := ⟨⟨operands, hinstruction, harguments⟩, h.linked⟩
  denotes := by
    rw [List.forall_mem_cons]
    exact ⟨by simp, h.denotes⟩

theorem ThreadCounts.leave {caller : Frame} {callee : String} {operands : List Pointer}
    {handed : List Taken} (h : ThreadCounts tracker module ⟨frame :: caller :: rest, held⟩)
    (hcall : module.instructionAt caller = some (.call callee operands))
    (hhanded : ∀ record ∈ handed, ∃ position : Nat, operands[position]? = some record.operand ∧
      frame.arguments[position]? = some record.place)
    (hbacked : Thread.Backed ⟨{ caller.advance with taken := handed ++ caller.taken } :: rest, held⟩)
    (hmeets : RecordsChange tracker module caller (handed ++ caller.taken)) :
    ThreadCounts tracker module
      ⟨{ caller.advance with taken := handed ++ caller.taken } :: rest, held⟩ where
  backed := hbacked
  counts := by
    obtain ⟨_, _, hplaced, hcounts, hrest⟩ := h.counts
    refine ⟨hplaced.next hcall rfl rfl rfl, ?_, hrest⟩
    refine hcounts.next hplaced hcall rfl rfl rfl (fun name _ => ?_)
      fun name hname => .inl (hmeets name hname)
    rintro (⟨record, hrecord, hname⟩ | hmissed)
    · exact .inl ⟨record, List.mem_append_right _ hrecord, hname⟩
    · exact .inr hmissed
  linked := h.linked.tail.top rfl rfl
  denotes := by
    obtain ⟨passed, hpassed, harguments⟩ := h.linked.1
    have hsame : passed = operands := by
      rw [hcall, Option.some.injEq, Instruction.call.injEq] at hpassed
      exact hpassed.2.symm
    subst hsame
    have hframes := (List.forall_mem_cons.mp h.denotes).2
    rw [List.forall_mem_cons] at hframes ⊢
    refine ⟨fun record hrecord => ?_, hframes.2⟩
    rcases List.mem_append.mp hrecord with hrecord | hrecord
    · obtain ⟨position, hoperand, hplace⟩ := hhanded record hrecord
      obtain ⟨hlt, hoperand⟩ := List.getElem?_eq_some_iff.mp hoperand
      obtain ⟨hplaceLt, hplace⟩ := List.getElem?_eq_some_iff.mp hplace
      have hdenotes := harguments.get hlt hplaceLt
      rw [List.get_eq_getElem, List.get_eq_getElem, hoperand, hplace] at hdenotes
      exact denotes_congr hdenotes rfl rfl
    · exact denotes_congr (hframes.1 record hrecord) rfl rfl

theorem ThreadCounts.branch {block : Block} {successor : Nat}
    (h : ThreadCounts tracker module ⟨frame :: rest, held⟩)
    (hblock : module.blockOf frame = some block) (hindex : frame.index = block.instructions.length)
    (hsuccessor : successor ∈ block.successors) :
    ThreadCounts tracker module ⟨{ frame with block := successor, index := 0 } :: rest, held⟩ where
  backed := h.backed
  counts := by
    obtain ⟨hplaced, hcounts, hrest⟩ := h.counts
    obtain ⟨hnext, hsubset⟩ := placed_branch hplaced hblock hindex hsuccessor
    refine ⟨hnext, fun name hname => ?_, hrest⟩
    rcases hcounts name (hsubset hname) with hrecorded | hmissed | ⟨hloose, _⟩
    · exact .inl hrecorded
    · exact .inr (.inl hmissed)
    · exact absurd hloose (by simp)
  linked := h.linked.top rfl rfl
  denotes := by
    rw [List.forall_mem_cons]
    refine ⟨fun record hrecord => ?_, (List.forall_mem_cons.mp h.denotes).2⟩
    exact denotes_congr (h.denotes frame List.mem_cons_self record hrecord) rfl rfl

-- An activation that unwinds has attempted what it has not taken.
theorem threadCounts_unwound {loose : Bool} {instruction : Instruction} {attempted : List Pointer}
    {pad : Nat} (hstack : StackCounts tracker module loose (frame :: rest))
    (hlinked : Linked tracker module (frame :: rest)) (hbacked : Thread.Backed ⟨frame :: rest, held⟩)
    (hdenotes : ∀ other ∈ frame :: rest, ∀ record ∈ other.taken,
      other.Denotes record.operand record.place)
    (hinstruction : module.instructionAt frame = some instruction)
    (hpad : module.unwindDest frame = some pad)
    (hnew : ∀ name ∈ (changeOf tracker module frame).acquired, Recorded tracker frame name ∨
      ∃ operand ∈ attempted, nameIn tracker frame operand = some name) :
    ThreadCounts tracker module
      ⟨{ frame with block := pad, index := 0, missed := attempted ++ frame.missed } :: rest, held⟩ := by
  obtain ⟨function, hfound, hunwinds⟩ := Option.bind_eq_some_iff.mp hpad
  obtain ⟨block, hblock, hlast, _, hsuccessor⟩ := Function.unwindDest_eq_some hunwinds
  obtain ⟨hplaced, hcounts, hrest⟩ := hstack
  have hpast : ThreadCounts tracker module
      ⟨{ frame.advance with missed := attempted ++ frame.missed } :: rest, held⟩ := by
    refine ⟨hbacked, ⟨hplaced.next hinstruction rfl rfl rfl, ?_, hrest⟩, hlinked.top rfl rfl, ?_⟩
    · refine hcounts.next hplaced hinstruction rfl rfl rfl (fun name _ => ?_) fun name hname => ?_
      · rintro (hrecorded | ⟨operand, hoperand, hname⟩)
        · exact .inl hrecorded
        · exact .inr ⟨operand, List.mem_append_right _ hoperand, hname⟩
      · exact (hnew name hname).imp_right fun ⟨operand, hoperand, hnamed⟩ =>
          ⟨operand, List.mem_append_left _ hoperand, hnamed⟩
    · rw [List.forall_mem_cons] at hdenotes ⊢
      exact ⟨fun record hrecord => denotes_congr (hdenotes.1 record hrecord) rfl rfl, hdenotes.2⟩
  have hat : module.blockOf { frame.advance with missed := attempted ++ frame.missed } = some block :=
    Option.bind_eq_some_iff.mpr ⟨function, hfound, hblock⟩
  exact hpast.branch hat hlast hsuccessor

theorem ThreadCounts.throw {instruction : Instruction} {pad : Nat}
    (h : ThreadCounts tracker module ⟨frame :: rest, held⟩)
    (hinstruction : module.instructionAt frame = some instruction)
    (hnotCall : ∀ callee operands, instruction ≠ .call callee operands)
    (hpad : module.unwindDest frame = some pad) :
    ThreadCounts tracker module
      ⟨{ frame with block := pad, index := 0, missed := instruction.attempts ++ frame.missed } :: rest,
        held⟩ := by
  refine threadCounts_unwound h.counts h.linked h.backed h.denotes hinstruction hpad fun name hname => ?_
  obtain ⟨function, hfound, _⟩ := functionWithId_of_instructionAt hinstruction
  have hid : function.id = frame.function := (Module.mem_of_functionWithId hfound).2
  rw [changeOf_eq hfound hinstruction] at hname
  obtain ⟨operand, hoperand, hnamed⟩ := changeAt_attempts tracker function hnotCall name hname
  rw [hid] at hnamed
  exact .inr ⟨operand, hoperand, hnamed⟩

theorem StackCounts.popped {loose : Bool} {popped : List Frame}
    (h : StackCounts tracker module loose (popped ++ rest)) :
    ∃ loose, StackCounts tracker module loose rest := by
  induction popped generalizing loose with
  | nil => exact ⟨loose, h⟩
  | cons frame popped ih => exact ih h.2.2

theorem Linked.popped {popped : List Frame} (h : Linked tracker module (popped ++ frame :: rest)) :
    Linked tracker module (frame :: rest) := by
  induction popped with
  | nil => exact h
  | cons first popped ih =>
      cases popped with
      | nil => exact ih h.2
      | cons second popped => exact ih h.2

-- What a call that does not complete was to take, its caller has attempted or has already.
theorem ThreadCounts.unwind {popped : List Frame} {callee : String} {operands : List Pointer}
    {pad : Nat} (h : ThreadCounts tracker module ⟨popped ++ frame :: rest, held⟩)
    (hcall : module.instructionAt frame = some (.call callee operands))
    (hpad : module.unwindDest frame = some pad) :
    ThreadCounts tracker module
      ⟨{ frame with
          block := pad
          index := 0
          missed := operands.filter (· ∉ frame.taken.map (·.operand)) ++ frame.missed } :: rest,
        held⟩ := by
  have hstack : ∃ loose, StackCounts tracker module loose (frame :: rest) := h.counts.popped
  obtain ⟨loose, hstack⟩ := hstack
  have hlinked : Linked tracker module (frame :: rest) := h.linked.popped
  have hbacked : Thread.Backed ⟨frame :: rest, held⟩ := by
    refine List.Subperm.trans ?_ h.backed
    refine (List.Sublist.map _ ?_).subperm
    rw [List.flatMap_append]
    exact List.sublist_append_right _ _
  refine threadCounts_unwound hstack hlinked hbacked
    (fun other hother => h.denotes other (List.mem_append_right _ hother)) hcall hpad fun name hname => ?_
  obtain ⟨function, hfound, _⟩ := functionWithId_of_instructionAt hcall
  have hid : function.id = frame.function := (Module.mem_of_functionWithId hfound).2
  rw [changeOf_eq hfound hcall] at hname
  obtain ⟨operand, hoperand, hnamed⟩ := changeAt_call tracker function callee operands name hname
  rw [hid] at hnamed
  by_cases hrecorded : operand ∈ frame.taken.map (·.operand)
  · obtain ⟨record, hrecord, rfl⟩ := List.mem_map.mp hrecorded
    exact .inl ⟨record, hrecord, hnamed⟩
  · exact .inr ⟨operand, List.mem_filter.mpr ⟨hoperand, by simpa using hrecorded⟩, hnamed⟩

theorem threadCounts_initial {entry : String} (hentry : ∀ lock, ¬EnteredUnder tracker module lock entry)
    (activation : Nat) (arguments : List Place) :
    ThreadCounts tracker module (initialThread entry activation arguments) where
  backed := List.nil_subperm
  counts := ⟨placed_entry entry activation arguments,
    frameCounts_entry entry activation arguments, trivial⟩
  linked := hentry
  denotes := by simp [initialThread]

-- One step of a thread that meets the conditions keeps its locks counted.
theorem ThreadCounts.step {thread after : Thread} {action : Action}
    (h : ThreadCounts tracker module thread) (hmeets : ThreadMeets tracker module thread action)
    (hstep : ThreadStep module free fresh thread action after) : ThreadCounts tracker module after := by
  cases hstep with
  | pass hinstruction hpassive =>
      obtain ⟨function, hfound, _⟩ := functionWithId_of_instructionAt hinstruction
      refine h.pass hinstruction ?_
      rw [changeOf_eq hfound hinstruction]
      exact (changeAt_passive tracker function hpassive).1
  | take hinstruction htakes hplaces _ => exact h.take hinstruction htakes hplaces
  | miss hinstruction htakes => exact h.miss hinstruction htakes
  | throw hinstruction hnotCall hpad => exact h.throw hinstruction hnotCall hpad
  | unwind _ hcall hpad => exact h.unwind hcall hpad
  | adopt hinstruction hplaces _ hrecorded hbacked =>
      exact h.adopt hinstruction hplaces hrecorded hbacked (hmeets _ _ rfl)
  | release hinstruction hrelease _ hbacked => exact h.release hinstruction hrelease hbacked hmeets
  | outsideTake _ _ =>
      refine ⟨h.backed.trans ?_, h.counts, h.linked, h.denotes⟩
      exact (List.sublist_cons_self _ _).subperm
  | outsideRelease houtside _ hbacked => exact h.outsideRelease houtside hbacked hmeets
  | enter hinstruction harguments => exact h.enter hinstruction harguments fresh
  | leave _ hcall hhanded hbacked => exact h.leave hcall hhanded hbacked (hmeets _ _ _ rfl)
  | finish _ => exact ⟨List.nil_subperm, trivial, trivial, by simp⟩
  | branch hblock hindex hsuccessor _ => exact h.branch hblock hindex hsuccessor
  | start hinstruction _ =>
      obtain ⟨function, hfound, _⟩ := functionWithId_of_instructionAt hinstruction
      refine h.pass hinstruction ?_
      rw [changeOf_eq hfound hinstruction]
      rfl

end Steps

end ConcurrencyAnalyzer.LockState
