import ConcurrencyAnalyzer.FactsBuilder.AccessSummaries
import ConcurrencyAnalyzer.LockState.Conditions

namespace ConcurrencyAnalyzer.LockState

open Program FactsBuilder

-- A global is named by an identifier, and the objects of the analysis by names with a colon.
def Identifier (name : String) : Prop := PlainName name ∧ ':' ∉ name.toList

-- The globals of a program have identifiers for names. Its parameters are numbered by 32 bits, and an
-- activation has an argument for each.
def Compiled (frame : Frame) : Pointer → Prop
  | .global name => Identifier name
  | .argument index => index < 2 ^ 32 ∧ index < frame.arguments.length
  | .alloca _ => True
  | .gep base _ _ => Compiled frame base
  | .copied stored => Compiled frame stored
  | .load slot => Compiled frame slot
  | .other => True

section Arguments

variable (tracker : LockScopeTracker)

def resolveTrackedRoot (operand : Pointer) : Option RootBinding :=
  match resolveCopiedValue false {} operand with
  | some (.global name, place) => some (RootBinding.global name place)
  | some (.argument index, place) => some (RootBinding.argument index place)
  | _ => none

def resolveLocalObjectRoot (functionId : String) (localObjects : Finset String) (operand : Pointer) :
    Option RootBinding :=
  match resolveCopiedValue true {} operand with
  | some (.alloca slot, place) =>
      if localObjectName functionId slot ∈ localObjects then
        some (RootBinding.global (localObjectName functionId slot) place)
      else none
  | _ => none

-- Only a pointer read out of the slot is the object.
def sharedObjectArgument (functionId : String) (sharedObjects : Finset String) :
    Pointer → Option RootBinding
  | .load slot =>
      (canonicalStorageGroupId functionId "" slot).bind fun slotId =>
        if slotId ∈ sharedObjects then some (RootBinding.global slotId {}) else none
  | _ => none

-- What a call in the function passes. The analysis leaves some of these objects without a name: those
-- it takes for synchronization and globals it does not track.
def callOperand (functionId : String) (operand : Pointer) : CallOperand where
  root := (resolveTrackedRoot operand).or <|
    (resolveLocalObjectRoot functionId (sharedObjectNames tracker.sharedObjects .Local) operand).or <|
      sharedObjectArgument functionId (sharedObjectNames tracker.sharedObjects .BehindPointer) operand

end Arguments

section Describes

variable (tracker : LockScopeTracker) (module : Module) (stack : List Frame)

-- A lock id, in the function of the innermost of these activations of a stack, is one of the lock at a
-- place: the function names it so, a caller does by a name that is good in any function, or a call in
-- it makes it out of the name the callee has.
inductive Describes : List Frame → String → Place → Prop
  | named {frame : Frame} {callers : List Frame} {operand : Pointer} {lockId : String} {place : Place}
      (hcompiled : Compiled frame operand) (hname : nameIn tracker frame operand = some lockId)
      (hdenotes : frame.Denotes operand place) : Describes (frame :: callers) lockId place
  | inherited {frame : Frame} {callers : List Frame} {lockId : String} {place : Place}
      (hname : parameterLockPlace lockId = none) (h : Describes callers lockId place) :
      Describes (frame :: callers) lockId place
  | atCall {frame caller : Frame} {callers : List Frame} {lockId callee : String} {place argument : Place}
      {parameter : ParameterLockPlace} {operands : List Pointer} {operand : Pointer}
      {closesCycle : Bool} {object : RootBinding} (hstack : frame :: caller :: callers <:+ stack)
      (h : Describes (frame :: caller :: callers) lockId place)
      (hparameter : parameterLockPlace lockId = some parameter)
      (hcall : module.instructionAt caller = some (.call callee operands))
      (hoperand : operands[parameter.argumentIndex]? = some operand) (hcompiled : Compiled caller operand)
      (hargument : frame.arguments[parameter.argumentIndex]? = some argument)
      (hdenotes : caller.Denotes operand argument)
      (hobject : argumentBindingAt closesCycle (callOperand tracker caller.function operand) =
        some object) :
      Describes (caller :: callers) (lockIdAt object parameter.place) place

-- What the name of storage stands for in a stack: where it starts.
inductive Stands (symbol : String) : Place → Prop
  | global (hname : Identifier symbol) : Stands symbol ⟨.global symbol, 0⟩
  | localObject {frame : Frame} {slot : String} (hframe : frame ∈ stack)
      (hname : symbol = localObjectName frame.function slot)
      (hobject : symbol ∈ sharedObjectNames tracker.sharedObjects .Local) :
      Stands symbol ⟨.stack frame.activation slot, 0⟩
  | bound {frame : Frame} {binding : SharedObjectBinding} {argument base : Place}
      (hframe : frame ∈ stack) (hbinding : tracker.sharedObjectOf frame.function = some binding)
      (hname : symbol = binding.object.symbol) (hknown : binding.object.region.hasKnownOffset = true)
      (hargument : frame.arguments[binding.argumentIndex]? = some argument)
      (hobject : argument.object = base.object)
      (hoffset : int64 argument.offset = int64 (base.offset + binding.object.region.byteOffset)) :
      Stands symbol base
  | read {frame caller : Frame} {callers : List Frame} {callee : String} {operands : List Pointer}
      {position : Nat} {slot : Pointer} {argument : Place}
      (hstack : frame :: caller :: callers <:+ stack)
      (hcall : module.instructionAt caller = some (.call callee operands))
      (hoperand : operands[position]? = some (.load slot))
      (hname : canonicalStorageGroupId caller.function "" slot = some symbol)
      (hobject : symbol ∈ sharedObjectNames tracker.sharedObjects .BehindPointer)
      (hargument : frame.arguments[position]? = some argument) : Stands symbol argument

end Describes

section Walks

variable {frame : Frame}

-- Where what a walk ends at starts.
def PathRoot.base (frame : Frame) : PathRoot → Option Place
  | .global name => some ⟨.global name, 0⟩
  | .argument index => frame.arguments[index]?
  | .alloca slot => some ⟨.stack frame.activation slot, 0⟩

-- A place at some bytes into another.
structure LiesAt (base : Place) (offset : Int) (place : Place) : Prop where
  object : place.object = base.object
  offset : int64 place.offset = int64 (base.offset + offset)

theorem int64_add (value more : Int) : int64 (int64 value + more) = int64 (value + more) :=
  Int.bmod_add_bmod

theorem int64_add_sub (more value less : Int) :
    int64 (more + (int64 value - less)) = int64 (more + value - less) := by
  have hfirst : more + (int64 value - less) = int64 value + (more - less) := by omega
  rw [hfirst, int64_add]
  congr 1
  omega

theorem accumulateGepOffset_known {walk : MemoryRegion} {indices : List (Option Int)}
    {byteOffset : Int} (h : (accumulateGepOffset walk indices byteOffset).hasKnownOffset = true) :
    walk.hasKnownOffset = true ∧ indices.all Option.isSome = true ∧
      (accumulateGepOffset walk indices byteOffset).byteOffset = int64 (walk.byteOffset + byteOffset) := by
  unfold accumulateGepOffset at h ⊢
  cases hknown : walk.hasKnownOffset with
  | false => simp [hknown] at h
  | true =>
      cases hindices : indices.all Option.isSome with
      | false => simp [hknown, hindices] at h
      | true => simp

theorem resolveCopiedValue_known {acceptsLocalStorage : Bool} {pointer : Pointer} {root : PathRoot}
    {walk place : MemoryRegion}
    (h : resolveCopiedValue acceptsLocalStorage walk pointer = some (root, place))
    (hknown : place.hasKnownOffset = true) :
    walk.hasKnownOffset = true ∧ ∀ base, root.base frame = some base →
      ∃ known, frame.extent pointer = .exactly known ∧ known.object = base.object ∧
        int64 place.byteOffset = int64 (walk.byteOffset + (known.offset - base.offset)) := by
  induction pointer generalizing walk with
  | global name =>
      cases h
      refine ⟨hknown, fun base hbase => ⟨base, ?_, rfl, by rw [Int.sub_self, Int.add_zero]⟩⟩
      cases hbase
      rfl
  | argument index =>
      cases h
      refine ⟨hknown, fun base hbase => ⟨base, ?_, rfl, by rw [Int.sub_self, Int.add_zero]⟩⟩
      rw [Frame.extent, show frame.arguments[index]? = some base from hbase]
      rfl
  | alloca slot =>
      unfold resolveCopiedValue at h
      split at h
      · cases h
        refine ⟨hknown, fun base hbase => ⟨base, ?_, rfl, by rw [Int.sub_self, Int.add_zero]⟩⟩
        cases hbase
        rfl
      · cases h
  | gep inner indices byteOffset ih =>
      obtain ⟨hwalk, hinner⟩ := ih h
      obtain ⟨hbefore, hindices, hoffset⟩ := accumulateGepOffset_known hwalk
      refine ⟨hbefore, fun base hbase => ?_⟩
      obtain ⟨known, hextent, hobject, hplace⟩ := hinner base hbase
      refine ⟨known.move byteOffset, ?_, hobject, ?_⟩
      · rw [Frame.extent, hextent]
        simp [hindices]
      · rw [hplace, hoffset, int64_add, Place.move, int64_add_sub]
        congr 1
        omega
  | copied stored ih =>
      unfold resolveCopiedValue at h
      unfold Frame.extent
      exact ih h
  | load slot => cases h
  | other => cases h

theorem resolveCopiedValue_place {acceptsLocalStorage : Bool} {pointer : Pointer} {root : PathRoot}
    {walk place : MemoryRegion}
    (h : resolveCopiedValue acceptsLocalStorage walk pointer = some (root, place))
    (howner : walk.elementOwner = .None) (hoffset : int64 walk.byteOffset = walk.byteOffset) :
    place.elementOwner = .None ∧ int64 place.byteOffset = place.byteOffset := by
  induction pointer generalizing walk with
  | global name =>
      cases h
      exact ⟨howner, hoffset⟩
  | argument index =>
      cases h
      exact ⟨howner, hoffset⟩
  | alloca slot =>
      unfold resolveCopiedValue at h
      split at h
      · cases h
        exact ⟨howner, hoffset⟩
      · cases h
  | gep inner indices byteOffset ih =>
      apply ih h
      · unfold accumulateGepOffset
        split
        · exact howner
        · split <;> exact howner
      · unfold accumulateGepOffset
        split
        · exact hoffset
        · split
          · exact Int.bmod_bmod
          · exact hoffset
  | copied stored ih => exact ih h howner hoffset
  | load slot => cases h
  | other => cases h

-- What a walk from a pointer of the program may end at.
def PathRoot.Compiled (frame : Frame) : PathRoot → Prop
  | .global name => Identifier name
  | .argument index => index < 2 ^ 32 ∧ index < frame.arguments.length
  | .alloca _ => True

theorem resolveCopiedValue_compiled {acceptsLocalStorage : Bool} {pointer : Pointer}
    (hcompiled : LockState.Compiled frame pointer) {root : PathRoot} {walk place : MemoryRegion}
    (h : resolveCopiedValue acceptsLocalStorage walk pointer = some (root, place)) :
    root.Compiled frame := by
  induction pointer generalizing walk with
  | global name =>
      cases h
      exact hcompiled
  | argument index =>
      cases h
      exact hcompiled
  | alloca slot =>
      unfold resolveCopiedValue at h
      split at h
      · cases h
        trivial
      · cases h
  | gep inner indices byteOffset ih => exact ih hcompiled h
  | copied stored ih => exact ih hcompiled h
  | load slot => cases h
  | other => cases h

-- What a pointer points to lies where its walk says, where that is known.
theorem liesAt_of_walk {acceptsLocalStorage : Bool} {pointer : Pointer} {root : PathRoot}
    {place : MemoryRegion}
    (h : resolveCopiedValue acceptsLocalStorage {} pointer = some (root, place))
    (hknown : place.hasKnownOffset = true) {base target : Place} (hbase : root.base frame = some base)
    (hdenotes : frame.Denotes pointer target) : LiesAt base place.byteOffset target := by
  obtain ⟨known, hextent, hobject, hoffset⟩ := (resolveCopiedValue_known h hknown).2 base hbase
  unfold Frame.Denotes at hdenotes
  rw [hextent] at hdenotes
  subst hdenotes
  refine ⟨hobject, ?_⟩
  have hsum : int64 (base.offset + place.byteOffset) =
      int64 (base.offset + int64 (0 + (target.offset - base.offset))) := by
    rw [← hoffset]
    exact Int.add_bmod_bmod.symm
  rw [hsum, show int64 (base.offset + int64 (0 + (target.offset - base.offset))) =
    int64 (base.offset + (0 + (target.offset - base.offset))) from Int.add_bmod_bmod]
  congr 1
  omega

end Walks

section Reads

variable (tracker : LockScopeTracker) (module : Module) (stack : List Frame)

-- How a lock id is read: by the storage it is in, or by a parameter of the innermost activation.
inductive Reads : List Frame → String → Place → Prop
  | storage {frames : List Frame} {symbol : String} {offset : Option Int} {place : Place}
      (hplain : PlainName symbol) (hrange : ∀ value ∈ offset, int64 value = value)
      (hplace : ∀ value ∈ offset, ∃ base, Stands tracker module stack symbol base ∧
        LiesAt base value place) : Reads frames (symbol ++ offsetText offset) place
  | parameter {frame : Frame} {callers : List Frame} {index : Nat} {offset : Option Int} {place : Place}
      (hindex : index < 2 ^ 32) (hrange : ∀ value ∈ offset, int64 value = value)
      (hplace : ∀ value ∈ offset, ∀ argument, frame.arguments[index]? = some argument →
        LiesAt argument value place) :
      Reads (frame :: callers) (kParameterLockPrefix ++ toString index ++ offsetText offset) place

variable {tracker module stack}

theorem lockIdAt_eq (object : RootBinding) (place : MemoryRegion) :
    lockIdAt object place = (match object.kind with
      | .Argument => kParameterLockPrefix ++ toString object.argumentIndex
      | .Global => object.symbol) ++
        offsetText (if object.region.hasKnownOffset && place.hasKnownOffset then
          some (int64 (object.region.byteOffset + place.byteOffset)) else none) := by
  unfold lockIdAt
  dsimp only
  rw [suffix_eq rfl]
  cases object.kind <;> rfl

-- The objects of a tracker have names of their own.
def PlainObjects (tracker : LockScopeTracker) : Prop :=
  ∀ entry ∈ tracker.sharedObjects, PlainName entry.2.object.symbol ∧ entry.2.object.kind = .Global

theorem plainName_of_mem (hobjects : PlainObjects tracker) {kind : SharedObjectKind} {symbol : String}
    (h : symbol ∈ sharedObjectNames tracker.sharedObjects kind) : PlainName symbol := by
  obtain ⟨entry, hentry, rfl⟩ := List.mem_map.mp (List.mem_toFinset.mp h)
  exact (hobjects entry (List.mem_filter.mp hentry).1).1

theorem plainObject_of_sharedObjectOf (hobjects : PlainObjects tracker) {functionId : String}
    {binding : SharedObjectBinding} (h : tracker.sharedObjectOf functionId = some binding) :
    PlainName binding.object.symbol ∧ binding.object.kind = .Global := by
  unfold LockScopeTracker.sharedObjectOf at h
  obtain ⟨entry, hentry, rfl⟩ := Option.map_eq_some_iff.mp (Option.filter_eq_some_iff.mp h).1
  exact hobjects entry (List.mem_of_find?_eq_some hentry)

variable {frame : Frame} {callers : List Frame} {operand : Pointer} {lockId : String} {place : Place}

theorem mem_knownOffset {region : MemoryRegion} {value : Int} (h : value ∈ region.knownOffset) :
    region.hasKnownOffset = true ∧ region.byteOffset = value := by
  unfold MemoryRegion.knownOffset at h
  split at h
  · rename_i hknown
    exact ⟨hknown, Option.some.inj h⟩
  · cases h

theorem reads_global (hcompiled : Compiled frame operand)
    (hname : canonicalLockId operand = some lockId) (hdenotes : frame.Denotes operand place) :
    Reads tracker module stack (frame :: callers) lockId place := by
  unfold canonicalLockId at hname
  split at hname
  · rename_i name region hwalk
    cases hname
    obtain ⟨howner, hoffset⟩ := resolveCopiedValue_place hwalk rfl rfl
    have hidentifier : Identifier name := resolveCopiedValue_compiled hcompiled hwalk
    rw [suffix_eq howner]
    refine .storage hidentifier.1 ?_ ?_
    · intro value hvalue
      rw [← (mem_knownOffset hvalue).2]
      exact hoffset
    · intro value hvalue
      obtain ⟨hknown, rfl⟩ := mem_knownOffset hvalue
      exact ⟨_, .global hidentifier, liesAt_of_walk hwalk hknown rfl hdenotes⟩
  · cases hname

theorem reads_localObject (hobjects : PlainObjects tracker) (hframe : frame ∈ stack)
    (hname : localObjectLockId frame.function (sharedObjectNames tracker.sharedObjects .Local) operand =
      some lockId) (hdenotes : frame.Denotes operand place) :
    Reads tracker module stack (frame :: callers) lockId place := by
  unfold localObjectLockId at hname
  split at hname
  · rename_i slot region hwalk
    split at hname
    · rename_i hobject
      cases hname
      obtain ⟨howner, hoffset⟩ := resolveCopiedValue_place hwalk rfl rfl
      rw [suffix_eq howner]
      refine .storage (plainName_of_mem hobjects hobject) ?_ ?_
      · intro value hvalue
        rw [← (mem_knownOffset hvalue).2]
        exact hoffset
      · intro value hvalue
        obtain ⟨hknown, rfl⟩ := mem_knownOffset hvalue
        exact ⟨_, .localObject hframe rfl hobject,
          liesAt_of_walk hwalk hknown rfl hdenotes⟩
    · cases hname
  · cases hname

theorem mem_sumOffset {object region : MemoryRegion} {value : Int}
    (h : value ∈ (if object.hasKnownOffset && region.hasKnownOffset then
      some (int64 (object.byteOffset + region.byteOffset)) else none)) :
    object.hasKnownOffset = true ∧ region.hasKnownOffset = true ∧
      int64 (object.byteOffset + region.byteOffset) = value := by
  split at h
  · rename_i hknown
    rw [Bool.and_eq_true] at hknown
    exact ⟨hknown.1, hknown.2, Option.some.inj h⟩
  · cases h

theorem reads_boundObject (hobjects : PlainObjects tracker) (hcompiled : Compiled frame operand)
    (hframe : frame ∈ stack) {binding : SharedObjectBinding}
    (hbinding : tracker.sharedObjectOf frame.function = some binding)
    (hname : objectFieldLockId binding.argumentIndex binding.object operand = some lockId)
    (hdenotes : frame.Denotes operand place) :
    Reads tracker module stack (frame :: callers) lockId place := by
  unfold objectFieldLockId at hname
  split at hname
  · rename_i index region hwalk
    split at hname
    · rename_i hindex
      cases hname
      obtain ⟨hplain, hkind⟩ := plainObject_of_sharedObjectOf hobjects hbinding
      have hcount : index < frame.arguments.length := (resolveCopiedValue_compiled hcompiled hwalk).2
      have hargument := List.getElem?_eq_getElem hcount
      rw [lockIdAt_eq, hkind]
      refine .storage hplain ?_ ?_
      · intro value hvalue
        rw [← (mem_sumOffset hvalue).2.2]
        exact Int.bmod_bmod
      · intro value hvalue
        obtain ⟨hobject, hknown, rfl⟩ := mem_sumOffset hvalue
        have hlies := liesAt_of_walk hwalk hknown hargument hdenotes
        set argument := frame.arguments[index]
        set base : Place := ⟨argument.object, argument.offset - binding.object.region.byteOffset⟩
        have hstart : argument.offset = base.offset + binding.object.region.byteOffset :=
          (Int.sub_add_cancel _ _).symm
        have hstands : Stands tracker module stack binding.object.symbol base :=
          .bound hframe hbinding rfl hobject (hindex ▸ hargument)
            (show argument.object = base.object from rfl) (congrArg int64 hstart)
        refine ⟨base, hstands, hlies.object, ?_⟩
        rw [hlies.offset, hstart, Int.add_assoc]
        exact Int.add_bmod_bmod.symm
    · cases hname
  · cases hname

theorem reads_parameter (hcompiled : Compiled frame operand)
    (hname : parameterFieldLockId operand = some lockId) (hdenotes : frame.Denotes operand place) :
    Reads tracker module stack (frame :: callers) lockId place := by
  unfold parameterFieldLockId at hname
  split at hname
  · rename_i index region hwalk
    cases hname
    rw [lockIdAt_eq]
    refine .parameter (resolveCopiedValue_compiled hcompiled hwalk).1 ?_ ?_
    · intro value hvalue
      rw [← (mem_sumOffset hvalue).2.2]
      exact Int.bmod_bmod
    · intro value hvalue argument hargument
      obtain ⟨-, hknown, rfl⟩ := mem_sumOffset hvalue
      have hlies := liesAt_of_walk hwalk hknown hargument hdenotes
      refine ⟨hlies.object, ?_⟩
      rw [hlies.offset]
      refine Eq.trans ?_ Int.add_bmod_bmod.symm
      simp [int64, RootBinding.argument]
  · cases hname

theorem reads_named (hobjects : PlainObjects tracker) (hframe : frame ∈ stack)
    (hcompiled : Compiled frame operand)
    (hname : nameIn tracker frame operand = some lockId) (hdenotes : frame.Denotes operand place) :
    Reads tracker module stack (frame :: callers) lockId place := by
  unfold nameIn SynchronizationEffectResolver.lockIdOf LockScopeTracker.resolver at hname
  simp only [if_true] at hname
  rcases Option.or_eq_some_iff.mp hname with hglobal | ⟨-, hname⟩
  · exact reads_global hcompiled hglobal hdenotes
  rcases Option.or_eq_some_iff.mp hname with hlocal | ⟨-, hname⟩
  · exact reads_localObject hobjects hframe hlocal hdenotes
  rcases Option.or_eq_some_iff.mp hname with hbound | ⟨-, hparameter⟩
  · obtain ⟨binding, hbinding, hfield⟩ := Option.bind_eq_some_iff.mp hbound
    exact reads_boundObject hobjects hcompiled hframe hbinding hfield hdenotes
  · exact reads_parameter hcompiled hparameter hdenotes

end Reads

section AtCall

variable {tracker : LockScopeTracker} {module : Module} {stack : List Frame} {caller : Frame}
  {callers : List Frame} {argument place : Place}

theorem LiesAt.trans {base : Place} {offset more : Int} (h : LiesAt base offset argument)
    (h' : LiesAt argument more place) : LiesAt base (int64 (offset + more)) place := by
  refine ⟨h'.object.trans h.object, ?_⟩
  calc int64 place.offset = int64 (argument.offset + more) := h'.offset
    _ = int64 (int64 argument.offset + more) := (int64_add _ _).symm
    _ = int64 (int64 (base.offset + offset) + more) := by rw [h.offset]
    _ = int64 (base.offset + offset + more) := int64_add _ _
    _ = int64 (base.offset + (offset + more)) := by rw [Int.add_assoc]
    _ = int64 (base.offset + int64 (offset + more)) := Int.add_bmod_bmod.symm

-- The object a call passes is the argument the callee is handed.
def RootLies (tracker : LockScopeTracker) (module : Module) (stack : List Frame) (caller : Frame)
    (root : RootBinding) (argument : Place) : Prop :=
  match root.kind with
  | .Global => PlainName root.symbol ∧ (root.region.hasKnownOffset = true →
      ∃ base, Stands tracker module stack root.symbol base ∧
        LiesAt base root.region.byteOffset argument)
  | .Argument => root.argumentIndex < 2 ^ 32 ∧ (root.region.hasKnownOffset = true →
      ∀ outer, caller.arguments[root.argumentIndex]? = some outer →
        LiesAt outer root.region.byteOffset argument)

theorem rootLies_tracked {operand : Pointer} {root : RootBinding} (hcompiled : Compiled caller operand)
    (hdenotes : caller.Denotes operand argument) (h : resolveTrackedRoot operand = some root) :
    RootLies tracker module stack caller root argument := by
  unfold resolveTrackedRoot at h
  split at h
  · rename_i name region hwalk
    cases h
    have hidentifier : Identifier name := resolveCopiedValue_compiled hcompiled hwalk
    exact ⟨hidentifier.1, fun hknown => ⟨_, .global hidentifier,
      liesAt_of_walk hwalk hknown rfl hdenotes⟩⟩
  · rename_i index region hwalk
    cases h
    exact ⟨(resolveCopiedValue_compiled hcompiled hwalk).1, fun hknown outer houter =>
      liesAt_of_walk hwalk hknown houter hdenotes⟩
  · cases h

theorem rootLies_local {operand : Pointer} {root : RootBinding} (hobjects : PlainObjects tracker)
    (hcaller : caller ∈ stack) (hdenotes : caller.Denotes operand argument)
    (h : resolveLocalObjectRoot caller.function (sharedObjectNames tracker.sharedObjects .Local)
      operand = some root) : RootLies tracker module stack caller root argument := by
  unfold resolveLocalObjectRoot at h
  split at h
  · rename_i slot region hwalk
    split at h
    · rename_i hobject
      cases h
      exact ⟨plainName_of_mem hobjects hobject, fun hknown => ⟨_, .localObject hcaller rfl hobject,
        liesAt_of_walk hwalk hknown rfl hdenotes⟩⟩
    · cases h
  · cases h

theorem rootLies_shared {frame : Frame} {callee : String} {operands : List Pointer} {position : Nat}
    {operand : Pointer} {root : RootBinding} (hobjects : PlainObjects tracker)
    (hstack : frame :: caller :: callers <:+ stack)
    (hcall : module.instructionAt caller = some (.call callee operands))
    (hoperand : operands[position]? = some operand)
    (hargument : frame.arguments[position]? = some argument)
    (h : sharedObjectArgument caller.function
      (sharedObjectNames tracker.sharedObjects .BehindPointer) operand = some root) :
    RootLies tracker module stack caller root argument := by
  cases operand with
  | load slot =>
      obtain ⟨symbol, hname, hsome⟩ := Option.bind_eq_some_iff.mp h
      split at hsome
      · rename_i hobject
        cases hsome
        refine ⟨plainName_of_mem hobjects hobject, fun _ => ⟨argument,
          .read hstack hcall hoperand hname hobject hargument, rfl, ?_⟩⟩
        exact congrArg int64 (Int.add_zero argument.offset).symm
      · cases hsome
  | _ => cases h

theorem rootLies_binding {operand : CallOperand} {closesCycle : Bool} {object : RootBinding}
    (hroot : ∀ root, operand.root = some root → RootLies tracker module stack caller root argument)
    (h : argumentBindingAt closesCycle operand = some object) :
    RootLies tracker module stack caller object argument := by
  obtain ⟨root, hsome, rfl⟩ := Option.map_eq_some_iff.mp h
  have hlies := hroot root hsome
  split
  · rename_i hwidened
    have hkind : root.kind = .Argument := by
      simp only [Bool.and_eq_true, decide_eq_true_eq] at hwidened
      exact hwidened.1.1
    unfold RootLies at hlies ⊢
    rw [hkind] at hlies
    dsimp only
    rw [hkind]
    exact ⟨hlies.1, fun hknown => by cases hknown⟩
  · exact hlies

theorem reads_atCall {object : RootBinding} (hobject : RootLies tracker module stack caller object argument)
    {offset : Option Int} (hplace : ∀ value ∈ offset, LiesAt argument value place) :
    Reads tracker module stack (caller :: callers) (lockIdAt object (placeAt offset)) place := by
  have hrange : ∀ value ∈ (if object.region.hasKnownOffset && (placeAt offset).hasKnownOffset then
      some (int64 (object.region.byteOffset + (placeAt offset).byteOffset)) else none),
      int64 value = value := by
    intro value hvalue
    rw [← (mem_sumOffset hvalue).2.2]
    exact Int.bmod_bmod
  have hinner : (placeAt offset).hasKnownOffset = true →
      LiesAt argument (placeAt offset).byteOffset place := by
    intro hknown
    cases offset with
    | none => cases hknown
    | some value => exact hplace value rfl
  unfold RootLies at hobject
  rw [lockIdAt_eq]
  cases hkind : object.kind with
  | Global =>
      rw [hkind] at hobject
      refine .storage hobject.1 hrange ?_
      intro value hvalue
      obtain ⟨hknown, hinside, rfl⟩ := mem_sumOffset hvalue
      obtain ⟨base, hstands, hlies⟩ := hobject.2 hknown
      exact ⟨base, hstands, hlies.trans (hinner hinside)⟩
  | Argument =>
      rw [hkind] at hobject
      refine .parameter hobject.1 hrange ?_
      intro value hvalue outer houter
      obtain ⟨hknown, hinside, rfl⟩ := mem_sumOffset hvalue
      exact (hobject.2 hknown outer houter).trans (hinner hinside)

theorem reads_of_describes (hobjects : PlainObjects tracker) {frames : List Frame} {lockId : String}
    (h : Describes tracker module stack frames lockId place) (hframes : frames <:+ stack) :
    Reads tracker module stack frames lockId place := by
  induction h with
  | named hcompiled hname hdenotes =>
      exact reads_named hobjects (hframes.subset (List.mem_cons_self ..)) hcompiled hname hdenotes
  | inherited hname _ ih =>
      cases ih ((List.suffix_cons ..).trans hframes) with
      | storage hplain hrange hplace => exact .storage hplain hrange hplace
      | parameter hindex hrange _ =>
          rw [parameterLockPlace_parameter hindex hrange] at hname
          cases hname
  | @atCall frame caller callers lockId callee place argument parameter operands operand closesCycle
      object hstack _ hparameter hcall hoperand hcompiled hargument hdenotes hobject ih =>
      cases ih hstack with
      | storage hplain hrange _ =>
          rw [parameterLockPlace_storage hplain] at hparameter
          cases hparameter
      | parameter hindex hrange hplace =>
          rw [parameterLockPlace_parameter hindex hrange] at hparameter
          cases hparameter
          have hcaller : caller ∈ stack :=
            hstack.subset (List.mem_cons_of_mem _ (List.mem_cons_self ..))
          refine reads_atCall (rootLies_binding ?_ hobject) fun value hvalue =>
            hplace value hvalue argument hargument
          intro root hroot
          rcases Option.or_eq_some_iff.mp hroot with htracked | ⟨-, hroot⟩
          · exact rootLies_tracked hcompiled hdenotes htracked
          rcases Option.or_eq_some_iff.mp hroot with hlocal | ⟨-, hshared⟩
          · exact rootLies_local hobjects hcaller hdenotes hlocal
          · exact rootLies_shared hobjects hstack hcall hoperand hargument hshared

end AtCall

end ConcurrencyAnalyzer.LockState
