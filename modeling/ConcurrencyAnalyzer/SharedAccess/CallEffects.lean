import ConcurrencyAnalyzer.LockIds
import ConcurrencyAnalyzer.Library.KeepFirst

namespace ConcurrencyAnalyzer.SharedAccess

open Library

namespace ParameterFootprint

structure Range where
  begin : Int := 0
  stop : Int := 0
  isAtomic : Bool := false
  deriving DecidableEq, Repr

-- Bytes read and written, apart. A flag is set when that may be anywhere in the object.
structure Extent where
  reads : List Range := []
  writes : List Range := []
  readsWholeObject : Bool := false
  writesWholeObject : Bool := false
  deriving DecidableEq, Repr

def Extent.wholeObject (extent : Extent) : AccessKind → Bool
  | .Read => extent.readsWholeObject
  | .Write => extent.writesWholeObject

def Extent.ranges (extent : Extent) : AccessKind → List Range
  | .Read => extent.reads
  | .Write => extent.writes

end ParameterFootprint

-- What a function may do to the object one of its pointer parameters designates, and the part of it
-- that none of its own accesses shows at a call.
structure ParameterFootprint where
  all : ParameterFootprint.Extent := {}
  unshown : ParameterFootprint.Extent := {}
  deriving DecidableEq, Repr

-- A pointer argument, with the object it leads into and what the call may do to what it points to.
structure CallArgument where
  number : Nat
  root : Option RootBinding
  allowed : Option AccessKind

structure DefinedCallee where
  argSize : Nat
  footprint : Nat → ParameterFootprint

-- A call, with whether its effects are inferred, and its callee where a definition of it is called
-- directly.
structure EffectCall where
  inferred : Bool
  arguments : List CallArgument
  callee : Option DefinedCallee

structure CallEffect where
  operand : Nat
  root : RootBinding
  kind : AccessKind
  isAtomic : Bool
  restates : Bool
  deriving DecidableEq, Repr

def rootBindingKey (binding : RootBinding) : String :=
  match binding.kind with
  | .Global => "global:" ++ binding.symbol ++ binding.region.suffix
  | .Argument => "argument:" ++ toString binding.argumentIndex ++ binding.region.suffix

def callEffectKey (binding : RootBinding) (kind : AccessKind) : String :=
  rootBindingKey binding ++ "|" ++ kind.label

def CallEffect.key (effect : CallEffect) : String :=
  callEffectKey effect.root effect.kind ++ if effect.isAtomic then "|a" else ""

section Effects

variable (argument : Nat) (root : RootBinding)

-- The index does not describe a region placed without it.
def effectAt (region : MemoryRegion) (kind : AccessKind) (isAtomic restates : Bool) : CallEffect where
  operand := argument
  root := { root with region := region, index := none }
  kind := kind
  isAtomic := isAtomic
  restates := restates

def regionOf (range : ParameterFootprint.Range) : MemoryRegion where
  byteOffset := range.begin
  byteSize := (int64 (range.stop - range.begin) % 2 ^ 64).toNat

def placed (range : ParameterFootprint.Range) : MemoryRegion :=
  (regionOf range).rebasedOn root.region root.designated

def effectsOfKind (extent : ParameterFootprint.Extent) (restates : Bool) (kind : AccessKind) :
    List CallEffect :=
  if extent.wholeObject kind then [effectAt argument root root.designated kind false restates]
  else
    (extent.ranges kind).map fun range =>
      effectAt argument root (placed root range) kind range.isAtomic restates

-- Alias analysis may still prove the callee leaves the object unwritten.
def effectsOfExtent (allowed : AccessKind) (extent : ParameterFootprint.Extent) (restates : Bool) :
    List CallEffect :=
  ([.Read, .Write].filter fun kind => !(kind = .Write && allowed = .Read)).flatMap
    (effectsOfKind argument root extent restates)

end Effects

def EffectCall.footprint (call : EffectCall) (number : Nat) : Option ParameterFootprint :=
  match call.callee with
  | some callee => if number < callee.argSize then some (callee.footprint number) else none
  | none => none

def effectsOfArgument (call : EffectCall) (argument : CallArgument) : List CallEffect :=
  match argument.root, argument.allowed with
  | some root, some allowed =>
      match call.footprint argument.number with
      | none => [effectAt argument.number root root.designated allowed false false]
      | some footprint =>
          effectsOfExtent argument.number root allowed footprint.unshown false ++
            effectsOfExtent argument.number root allowed footprint.all true
  | _, _ => []

-- The effects of the arguments, in the order they are met.
def effectsOf (call : EffectCall) : List CallEffect :=
  if call.inferred then call.arguments.flatMap (effectsOfArgument call) else []

-- Keeps the effects whose keys were not seen.
def appendEffects : List String → List CallEffect → List CallEffect
  | _, [] => []
  | seen, effect :: effects =>
      if effect.key ∈ seen then appendEffects seen effects
      else effect :: appendEffects (effect.key :: seen) effects

def appendCallMemoryEffectAccesses (call : EffectCall) : List CallEffect :=
  appendEffects [] (effectsOf call)

section Coverage

-- A byte of the object that a region names. A region of unknown place or extent names each.
def Names (region : MemoryRegion) (byte : Int) : Prop :=
  region.hasKnownOffset = true → region.byteSize ≠ 0 →
    region.byteOffset ≤ byte ∧ byte < region.byteOffset + region.byteSize

def SameObject (root other : RootBinding) : Prop :=
  root.kind = other.kind ∧ root.symbol = other.symbol ∧ root.argumentIndex = other.argumentIndex

def Covers (effect : CallEffect) (root : RootBinding) (kind : AccessKind) (isAtomic : Bool)
    (byte : Int) : Prop :=
  SameObject effect.root root ∧ effect.kind = kind ∧ effect.isAtomic = isAtomic ∧
    Names effect.root.region byte

-- A byte of its argument's object that an extent says a call touches. Where the extent is the whole
-- object, that is one access which is not atomic.
def Touches (extent : ParameterFootprint.Extent) (root : RootBinding) (kind : AccessKind)
    (isAtomic : Bool) (byte : Int) : Prop :=
  if extent.wholeObject kind then isAtomic = false ∧ Names root.designated byte
  else ∃ range ∈ extent.ranges kind, range.isAtomic = isAtomic ∧ Names (placed root range) byte

-- A byte of the object its argument leads into that a call may touch, by the footprint of the
-- parameter, or by the object designated where there is none.
def MayTouch (call : EffectCall) (argument : CallArgument) (root : RootBinding) (kind : AccessKind)
    (isAtomic : Bool) (byte : Int) : Prop :=
  call.inferred = true ∧ argument.root = some root ∧ ∃ allowed, argument.allowed = some allowed ∧
    match call.footprint argument.number with
    | none => kind = allowed ∧ isAtomic = false ∧ Names root.designated byte
    | some footprint => (kind = .Write → allowed = .Write) ∧
        (Touches footprint.unshown root kind isAtomic byte ∨
          Touches footprint.all root kind isAtomic byte)

def EffectsCover (call : EffectCall) : Prop :=
  ∀ argument ∈ call.arguments, ∀ root kind isAtomic byte,
    MayTouch call argument root kind isAtomic byte →
      ∃ effect ∈ appendCallMemoryEffectAccesses call, Covers effect root kind isAtomic byte

end Coverage

section Places

-- One access a call may make: the object, with the bytes of it as its region, and how.
structure Touch where
  root : RootBinding
  kind : AccessKind
  isAtomic : Bool

variable (root : RootBinding)

def touchAt (region : MemoryRegion) (kind : AccessKind) (isAtomic : Bool) : Touch where
  root := { root with region := region, index := none }
  kind := kind
  isAtomic := isAtomic

def touchesOfExtent (extent : ParameterFootprint.Extent) (kind : AccessKind) : List Touch :=
  if extent.wholeObject kind then [touchAt root root.designated kind false]
  else (extent.ranges kind).map fun range => touchAt root (placed root range) kind range.isAtomic

def touchesAllowed (allowed : AccessKind) (extent : ParameterFootprint.Extent) : List Touch :=
  match allowed with
  | .Read => touchesOfExtent root extent .Read
  | .Write => touchesOfExtent root extent .Read ++ touchesOfExtent root extent .Write

-- What an argument lets the call touch: what no access shows, then all of it, reads before writes.
def CallArgument.touches (call : EffectCall) (argument : CallArgument) : List Touch :=
  match argument.root, argument.allowed with
  | some root, some allowed =>
      match call.footprint argument.number with
      | none => [touchAt root root.designated allowed false]
      | some footprint =>
          touchesAllowed root allowed footprint.unshown ++ touchesAllowed root allowed footprint.all
  | _, _ => []

def EffectCall.touches (call : EffectCall) : List Touch :=
  if call.inferred then call.arguments.flatMap (CallArgument.touches call) else []

def SamePlace (region other : MemoryRegion) : Prop :=
  region.hasKnownOffset = other.hasKnownOffset ∧
    (region.hasKnownOffset = true → region.byteOffset = other.byteOffset) ∧
    (region.hasKnownOffset = false → region.elementOwner = other.elementOwner)

-- Two globals whose names differ may read alike once the place is written after each.
def RunTogether (root other : RootBinding) : Prop :=
  root.symbol ≠ other.symbol ∧
    root.symbol ++ root.region.suffix = other.symbol ++ other.region.suffix

-- Where two accesses begin in one place, however far each of them reaches.
def Meets (touch other : Touch) : Prop :=
  touch.kind = other.kind ∧ touch.isAtomic = other.isAtomic ∧
    touch.root.kind = other.root.kind ∧
      (touch.root.kind = .Argument → touch.root.argumentIndex = other.root.argumentIndex ∧
        SamePlace touch.root.region other.root.region) ∧
      (touch.root.kind = .Global → RunTogether touch.root other.root ∨
        (touch.root.symbol = other.root.symbol ∧
          SamePlace touch.root.region other.root.region))

-- Of the accesses that begin in one place, the first a call makes.
structure FirstThere (call : EffectCall) (before after : List Touch) (touch : Touch) : Prop where
  split : call.touches = before ++ touch :: after
  fresh : ∀ earlier ∈ before, ¬Meets earlier touch

-- What an access reaches past the first that begins where it does is reached by one that begins
-- elsewhere, where none before it does.
def ReachedElsewhere (call : EffectCall) : Prop :=
  ∀ before between after first touch,
    FirstThere call before (between ++ touch :: after) first → Meets first touch →
      ∀ byte, Names touch.root.region byte →
        (SameObject first.root touch.root → ¬Names first.root.region byte) →
          ∃ earlier later other, FirstThere call earlier later other ∧ SameObject other.root touch.root ∧
            other.kind = touch.kind ∧ other.isAtomic = touch.isAtomic ∧ Names other.root.region byte

end Places

end ConcurrencyAnalyzer.SharedAccess
