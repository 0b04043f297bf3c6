import ConcurrencyAnalyzer.SharedAccess.CallEffects
import ConcurrencyAnalyzer.Library.Memo
import Mathlib.Data.List.Sort

namespace ConcurrencyAnalyzer.SharedAccess

open Library

namespace ParameterFootprint

def Extent.touchWhole (extent : Extent) : AccessKind → Extent
  | .Read => { extent with readsWholeObject := true }
  | .Write => { extent with writesWholeObject := true }

def Extent.addRange (extent : Extent) (kind : AccessKind) (range : Range) : Extent :=
  match kind with
  | .Read => { extent with reads := extent.reads ++ [range] }
  | .Write => { extent with writes := extent.writes ++ [range] }

def Extent.readsAnything (extent : Extent) : Bool := extent.readsWholeObject || !extent.reads.isEmpty

def Extent.writesAnything (extent : Extent) : Bool :=
  extent.writesWholeObject || !extent.writes.isEmpty

def Extent.touchesAnything (extent : Extent) : AccessKind → Bool
  | .Read => extent.readsAnything
  | .Write => extent.writesAnything

def kMaxRangesPerKind : Nat := 16

-- Unites a range with the last one kept where it begins inside it.
def mergeRange (merged : List Range) (range : Range) : List Range :=
  match merged.getLast? with
  | some last =>
      if range.begin < last.stop then
        merged.dropLast ++ [{ last with
          stop := max last.stop range.stop, isAtomic := last.isAtomic && range.isAtomic }]
      else merged ++ [range]
  | none => [range]

def spanOf (first : Range) (merged : List Range) : Range :=
  merged.foldl (fun span range => { span with
    stop := max span.stop range.stop, isAtomic := span.isAtomic && range.isAtomic })
    { first with isAtomic := true }

def mergeRanges (ranges : List Range) : List Range :=
  let sorted := ranges.insertionSort fun lhs rhs => lhs.begin ≤ rhs.begin
  let merged := sorted.foldl mergeRange []
  match merged with
  | [] => []
  | first :: _ => if kMaxRangesPerKind < merged.length then [spanOf first merged] else merged

def Extent.merged (extent : Extent) : Extent :=
  { extent with reads := mergeRanges extent.reads, writes := mergeRanges extent.writes }

def Extent.whole : Extent where
  readsWholeObject := true
  writesWholeObject := true

end ParameterFootprint

namespace ParameterFootprint

def wholeObject : ParameterFootprint where
  all := .whole
  unshown := .whole

variable (footprint : ParameterFootprint)

def escape : ParameterFootprint where
  all := (footprint.all.touchWhole .Read).touchWhole .Write
  unshown := (footprint.unshown.touchWhole .Read).touchWhole .Write

def touchAll (kind : AccessKind) : ParameterFootprint :=
  { footprint with all := footprint.all.touchWhole kind }

def touchUnshown (kind : AccessKind) : ParameterFootprint :=
  { footprint with unshown := footprint.unshown.touchWhole kind }

def addAll (kind : AccessKind) (range : Range) : ParameterFootprint :=
  { footprint with all := footprint.all.addRange kind range }

def addUnshown (kind : AccessKind) (range : Range) : ParameterFootprint :=
  { footprint with unshown := footprint.unshown.addRange kind range }

def rangeOf (region : MemoryRegion) (isAtomic : Bool) : Range where
  begin := region.byteOffset
  stop := region.endOffset
  isAtomic := isAtomic

-- An access the function makes itself, with where the path places it, and whether a call places it.
def touchOwnAccess (place : Option MemoryRegion) (placedAtCalls : Bool) (kind : AccessKind)
    (isAtomic : Bool) : ParameterFootprint :=
  match place with
  | some region => footprint.addAll kind (rangeOf region isAtomic)
  | none =>
      let touched := footprint.touchAll kind
      if placedAtCalls then touched else touched.touchUnshown kind

def touchDesignated (root : RootBinding) (kind : AccessKind) : ParameterFootprint :=
  if !root.designated.hasKnownOffset || root.designated.byteSize = 0 then footprint.touchAll kind
  else footprint.addAll kind (rangeOf root.designated false)

def touchThreadHandle (root : Option RootBinding) : ParameterFootprint :=
  match root with
  | some root =>
      if !root.designated.hasKnownOffset || root.designated.byteSize = 0 then
        (footprint.touchAll .Write).touchUnshown .Write
      else
        let handle := rangeOf root.designated false
        (footprint.addAll .Write handle).addUnshown .Write handle
  | none => (footprint.touchAll .Write).touchUnshown .Write

def touchAnywhere (callee : ParameterFootprint) (shown : Bool) (kind : AccessKind) :
    ParameterFootprint :=
  if !callee.all.touchesAnything kind then footprint
  else
    let touched := footprint.touchAll kind
    if shown then touched else touched.touchUnshown kind

def shifted (shift : Int) (range : Range) : Range :=
  { range with begin := int64 (range.begin + shift), stop := int64 (range.stop + shift) }

-- What a callee does to the bytes it is handed, which begin where its argument points.
def touchShifted (callee : ParameterFootprint) (shift : Int) : ParameterFootprint :=
  { footprint with all := { footprint.all with
      reads := footprint.all.reads ++ callee.all.reads.map (shifted shift)
      writes := footprint.all.writes ++ callee.all.writes.map (shifted shift) } }

def touchThroughCallee (root : Option RootBinding) (callee : ParameterFootprint) :
    ParameterFootprint :=
  match root with
  | none => (footprint.touchAnywhere callee false .Read).touchAnywhere callee false .Write
  | some root =>
      if !root.region.hasKnownOffset then
        (footprint.touchAnywhere callee true .Read).touchAnywhere callee true .Write
      else
        let shifted := footprint.touchShifted callee root.region.byteOffset
        let reads := if callee.all.readsWholeObject then shifted.touchDesignated root .Read
          else shifted
        if callee.all.writesWholeObject then reads.touchDesignated root .Write else reads

def touchThroughDeclaration (root : Option RootBinding) (kind : AccessKind) : ParameterFootprint :=
  match root with
  | none => (footprint.touchAll kind).touchUnshown kind
  | some root => footprint.touchDesignated root kind

def merged : ParameterFootprint where
  all := footprint.all.merged
  unshown := footprint.unshown.merged

end ParameterFootprint

-- A function, and one of its parameters.
abbrev ParameterKey := String × Nat

-- What a use of a value derived from a parameter does to the object, in the order uses are met. A root
-- is there where the pointer used is placed in the object.
inductive FootprintStep where
  | ownAccess (place : Option MemoryRegion) (placedAtCalls : Bool) (kind : AccessKind)
      (isAtomic : Bool)
  | threadHandle (root : Option RootBinding)
  | throughCallee (callee : ParameterKey) (root : Option RootBinding)
  | throughDeclaration (root : Option RootBinding) (kind : AccessKind)
  | escape
  deriving DecidableEq, Repr

def FootprintStep.apply (step : FootprintStep) (callee : ParameterFootprint)
    (footprint : ParameterFootprint) : ParameterFootprint :=
  match step with
  | .ownAccess place placedAtCalls kind isAtomic =>
      footprint.touchOwnAccess place placedAtCalls kind isAtomic
  | .threadHandle root => footprint.touchThreadHandle root
  | .throughCallee _ root => footprint.touchThroughCallee root callee
  | .throughDeclaration root kind => footprint.touchThroughDeclaration root kind
  | .escape => footprint.escape

def FootprintStep.callee : FootprintStep → Option ParameterKey
  | .throughCallee callee _ => some callee
  | _ => none

-- The parameters of the functions a module defines, each with what its uses do.
structure FootprintModule where
  parameters : List (ParameterKey × List FootprintStep)

def FootprintModule.steps (module : FootprintModule) (key : ParameterKey) :
    Option (List FootprintStep) :=
  (module.parameters.find? (·.1 = key)).map Prod.snd

-- Footprints are computed on demand and kept. A parameter reached again while its own footprint is
-- being computed may do anything, and so may one of a function that is not defined.
def FootprintModule.footprints (module : FootprintModule) :
    Memo.Recursion ParameterKey FootprintStep ParameterFootprint ParameterFootprint where
  keys := (module.parameters.map Prod.fst).toFinset
  body := module.steps
  asks := FootprintStep.callee
  apply := FootprintStep.apply
  initial := {}
  finish := ParameterFootprint.merged
  placeholder := .wholeObject
  finite key h := by
    obtain ⟨parameter, hfind⟩ := Option.isSome_iff_exists.mp (Option.isSome_map ▸ h)
    refine List.mem_toFinset.mpr (List.mem_map.mpr ⟨parameter, List.mem_of_find?_eq_some hfind, ?_⟩)
    simpa using List.find?_some hfind

-- What `ParameterFootprints::of` answers after other queries.
def footprintAfter (module : FootprintModule) (earlier : List ParameterKey) (key : ParameterKey) :
    ParameterFootprint :=
  Memo.answerAfter module.footprints earlier key

theorem footprints_order_free_iff (module : FootprintModule) :
    (∀ earlier others key, footprintAfter module earlier key = footprintAfter module others key) ↔
      Memo.PlaceholderUnseen module.footprints :=
  Memo.orderFree_iff_unseen module.footprints

def fieldOfParameter : RootBinding where
  kind := .Argument
  region := { byteOffset := 8 }
  designated := { byteOffset := 8, byteSize := 8 }

-- A function hands a field of its object to another, which hands it back as a whole.
def handedBack : FootprintModule where
  parameters := [(("f", 0), [.throughCallee ("g", 0) (some fieldOfParameter)]),
    (("g", 0), [.throughCallee ("f", 0) (some (.argument 0 {}))])]

theorem footprints_order_seen :
    ¬∀ earlier others key,
      footprintAfter handedBack earlier key = footprintAfter handedBack others key := by
  intro hfree
  exact absurd (hfree [("f", 0)] [] ("g", 0)) (by decide)

end ConcurrencyAnalyzer.SharedAccess
