import ConcurrencyAnalyzer.FactsBuilder.AccessSummaries
import ConcurrencyAnalyzer.Library.Saturation
import Mathlib.Data.Finite.Prod
import Mathlib.Data.Int.Interval
import Mathlib.Data.Set.Finite.Powerset
import Mathlib.Data.Int.ConditionallyCompleteOrder

namespace ConcurrencyAnalyzer.FactsBuilder

open Library

section Universe

-- What the roots of accesses are made of. Offsets are told apart by the kind of the root: around a
-- cycle, an access goes over from a parameter to a global at most once.
structure Universe where
  symbols : Set String
  argumentIndices : Set Nat
  sizes : Set Nat
  entries : Set String
  offsets : RootBindingKind → Set Int
  parameters : Set (Option Nat)
  scales : Set Int
  indexOffsets : RootBindingKind → Set Int

namespace Universe

structure HoldsPlace (univ : Universe) (kind : RootBindingKind) (place : MemoryRegion) : Prop where
  size : place.byteSize ∈ univ.sizes
  entry : place.elementEntry ∈ univ.entries
  offset : place.hasKnownOffset = true → place.byteOffset ∈ univ.offsets kind

structure HoldsIndex (univ : Universe) (kind : RootBindingKind) (index : LinearIndex) : Prop where
  parameter : index.parameter ∈ univ.parameters
  scale : index.scale ∈ univ.scales
  offset : index.offset ∈ univ.indexOffsets kind

structure HoldsRoot (univ : Universe) (root : RootBinding) (place : MemoryRegion) : Prop where
  symbol : root.symbol ∈ univ.symbols
  argumentIndex : root.argumentIndex ∈ univ.argumentIndices
  place : univ.HoldsPlace root.kind place
  index : ∀ index ∈ root.index, univ.HoldsIndex root.kind index

structure Finite (univ : Universe) : Prop where
  symbols : univ.symbols.Finite
  argumentIndices : univ.argumentIndices.Finite
  sizes : univ.sizes.Finite
  entries : univ.entries.Finite
  offsets : ∀ kind, (univ.offsets kind).Finite
  parameters : univ.parameters.Finite
  scales : univ.scales.Finite
  indexOffsets : ∀ kind, (univ.indexOffsets kind).Finite

-- What a call that closes a cycle passes leads nowhere else.
structure ClosedUnder (univ : Universe) (roots : Set RootBinding) (indices : Set LinearIndex) :
    Prop where
  symbols : ∀ root ∈ roots, root.symbol ∈ univ.symbols
  argumentIndices : ∀ root ∈ roots, root.argumentIndex ∈ univ.argumentIndices
  designated : ∀ root ∈ roots, univ.HoldsPlace root.kind root.designated
  moved : ∀ offset ∈ univ.offsets .Argument, int64 offset ∈ univ.offsets .Argument
  named : ∀ offset ∈ univ.offsets .Argument, ∀ root ∈ roots, root.kind = .Global →
    int64 (offset + root.region.byteOffset) ∈ univ.offsets .Global
  parameters : ∀ index ∈ indices, index.parameter ∈ univ.parameters
  zeroScale : 0 ∈ univ.scales
  zeroIndex : ∀ kind, 0 ∈ univ.indexOffsets kind
  namedIndex : ∀ offset ∈ univ.indexOffsets .Argument, ∀ root ∈ roots, root.kind = .Global →
    root.region.byteOffset + offset ∈ univ.indexOffsets .Global

end Universe

variable {univ : Universe} {roots : Set RootBinding} {indices : Set LinearIndex}

-- A call that closes a cycle hands pointers on unmoved or at an unknown place, and indices unchanged or
-- widened.
structure AroundCycle (roots : Set RootBinding) (indices : Set LinearIndex)
    (call : DirectCallBinding) : Prop where
  bound : ∀ position, ∀ root ∈ call.argumentBinding position, root ∈ roots
  unmoved : ∀ position, ∀ root ∈ call.argumentBinding position, root.kind = .Argument →
    root.region.hasKnownOffset = true → root.region.byteOffset = 0
  passed : ∀ position, ∀ index ∈ call.indexArgument position, index ∈ indices
  waiting : ∀ position, ∀ index ∈ call.indexArgument position, index.parameter.isSome = true ∧
    (index.widened = true ∨ index.scale = 1 ∧ index.offset = 0)

theorem holdsIndex_widened (hclosed : univ.ClosedUnder roots indices) {kind : RootBindingKind}
    {parameter : Option Nat} (h : parameter ∈ univ.parameters) :
    univ.HoldsIndex kind { parameter := parameter, widened := true } :=
  ⟨h, hclosed.zeroScale, hclosed.zeroIndex kind⟩

-- An index handed on keeps its scale and its offset.
theorem holdsIndex_substitute (hclosed : univ.ClosedUnder roots indices) {kind : RootBindingKind}
    {outer inner result : LinearIndex} (houter : univ.HoldsIndex kind outer)
    (hinner : inner.parameter ∈ univ.parameters)
    (hkept : inner.widened = true ∨ inner.scale = 1 ∧ inner.offset = 0)
    (h : substituteLinearIndex outer inner = some result) :
    univ.HoldsIndex kind result ∧ result.parameter = inner.parameter := by
  unfold substituteLinearIndex at h
  split at h
  · cases h
    exact ⟨holdsIndex_widened hclosed hinner, rfl⟩
  · rename_i hplain
    simp only [Bool.or_eq_true, not_or] at hplain
    obtain ⟨hscale, hoffset⟩ := hkept.resolve_left hplain.2
    dsimp only at h
    split at h
    · cases h
      refine ⟨⟨hinner, ?_, ?_⟩, rfl⟩
      · rw [hscale, Int.mul_one]
        exact houter.scale
      · rw [hoffset, Int.mul_zero, Int.add_zero]
        exact houter.offset
    · cases h

theorem holdsIndex_rebased (hclosed : univ.ClosedUnder roots indices) {object : RootBinding}
    (hobject : object ∈ roots)
    (hunmoved : object.kind = .Argument → object.region.byteOffset = 0)
    {index result : LinearIndex} (hindex : univ.HoldsIndex .Argument index)
    (h : substituteLinearIndex { scale := 1, offset := object.region.byteOffset } index =
      some result) : univ.HoldsIndex object.kind result := by
  unfold substituteLinearIndex at h
  split at h
  · cases h
    exact holdsIndex_widened hclosed hindex.parameter
  · dsimp only at h
    split at h
    · cases h
      simp only [Int.one_mul]
      refine ⟨hindex.parameter, hindex.scale, ?_⟩
      cases hkind : object.kind with
      | Argument =>
          dsimp only
          rw [hunmoved hkind, Int.zero_add]
          exact hindex.offset
      | Global => exact hclosed.namedIndex _ hindex.offset object hobject hkind
    · cases h

theorem holdsPlace_rebased (hclosed : univ.ClosedUnder roots indices) {object : RootBinding}
    (hobject : object ∈ roots)
    (hunmoved : object.kind = .Argument → object.region.hasKnownOffset = true →
      object.region.byteOffset = 0) {place : MemoryRegion}
    (hplace : univ.HoldsPlace .Argument place) :
    univ.HoldsPlace object.kind (place.rebasedOn object.region object.designated) := by
  unfold MemoryRegion.rebasedOn
  split
  · exact hclosed.designated object hobject
  · refine ⟨hplace.size, hplace.entry, fun hknown => ?_⟩
    simp only [Bool.and_eq_true] at hknown
    have hoffset := hplace.offset hknown.1
    cases hkind : object.kind with
    | Argument =>
        dsimp only
        rw [hunmoved hkind hknown.2, Int.add_zero]
        exact hclosed.moved _ hoffset
    | Global => exact hclosed.named _ hoffset object hobject hkind

-- Around a cycle no index settles a place, and none waits on anything new.
theorem indexAtCall_around (hclosed : univ.ClosedUnder roots indices) {call : DirectCallBinding}
    (haround : AroundCycle roots indices call) {kind : RootBindingKind} {index : Option LinearIndex}
    (hindex : ∀ waiting ∈ index, univ.HoldsIndex kind waiting) (place : MemoryRegion) :
    (indexAtCall index place call).2 = place ∧
      ∀ waiting ∈ (indexAtCall index place call).1, univ.HoldsIndex kind waiting := by
  unfold indexAtCall
  split
  · exact ⟨rfl, fun waiting h => by cases h⟩
  · rename_i substituted hsubstituted
    obtain ⟨waiting, hwaiting, hbind⟩ := Option.bind_eq_some_iff.mp hsubstituted
    obtain ⟨passed, hpassed, hresult⟩ := Option.bind_eq_some_iff.mp hbind
    obtain ⟨parameter, -, hargument⟩ := Option.bind_eq_some_iff.mp hpassed
    have hkept := haround.waiting parameter passed hargument
    have hparameter := hclosed.parameters passed (haround.passed parameter passed hargument)
    obtain ⟨hholds, hsame⟩ := holdsIndex_substitute hclosed (hindex waiting hwaiting) hparameter
      hkept.2 hresult
    have hwaits : substituted.parameter.isSome = true := by
      rw [hsame]
      exact hkept.1
    rw [if_pos hwaits]
    refine ⟨rfl, fun other hother => ?_⟩
    cases hother
    exact hholds

theorem rootAtCall_around (hclosed : univ.ClosedUnder roots indices) {call : DirectCallBinding}
    (haround : AroundCycle roots indices call) {access : ParameterizedAccess}
    (h : univ.HoldsRoot access.root access.fact.region) {root : RootBinding}
    (hroot : rootAtCall access call = some root) : univ.HoldsRoot root root.region := by
  obtain ⟨hplace, hindex⟩ := indexAtCall_around hclosed haround h.index access.fact.region
  unfold rootAtCall at hroot
  dsimp only at hroot
  rw [hplace] at hroot
  have hregion := h.place
  cases hkind : access.root.kind with
  | Global =>
      rw [hkind] at hroot hregion hindex
      cases hroot
      exact ⟨h.symbol, h.argumentIndex, hregion, hindex⟩
  | Argument =>
      rw [hkind] at hroot
      obtain ⟨object, hobject, rfl⟩ := Option.map_eq_some_iff.mp hroot
      have hbound := haround.bound _ object hobject
      have hunmoved := haround.unmoved _ object hobject
      rw [hkind] at hregion hindex
      refine ⟨hclosed.symbols object hbound, hclosed.argumentIndices object hbound,
        holdsPlace_rebased hclosed hbound hunmoved hregion, ?_⟩
      intro index hmem
      dsimp only at hmem
      split at hmem
      · rename_i hknown
        obtain ⟨waiting, hwaiting, hresult⟩ := Option.bind_eq_some_iff.mp hmem
        exact holdsIndex_rebased hclosed hbound (fun hargument => hunmoved hargument hknown)
          (hindex waiting hwaiting) hresult
      · cases hmem

end Universe

section Normal

-- An offset that is unknown names nothing.
def hideOffset (region : MemoryRegion) : MemoryRegion :=
  if region.hasKnownOffset then region else { region with byteOffset := 0 }

def normalRoot (root : RootBinding) : RootBinding :=
  { root with region := hideOffset root.region, designated := {} }

-- An access without what its key leaves out and calls change.
def normalAccess (access : ParameterizedAccess) : ParameterizedAccess where
  root := normalRoot access.root
  fact :=
    { access.fact with
      region := hideOffset access.fact.region
      userLocation := {}
      liveEntries := ∅
      startedEntries := ∅ }

theorem hideOffset_idem (region : MemoryRegion) : hideOffset (hideOffset region) = hideOffset region := by
  cases h : region.hasKnownOffset <;> simp [hideOffset, h]

theorem identity_hideOffset (region : MemoryRegion) : (hideOffset region).identity = region.identity := by
  unfold hideOffset
  split
  · rfl
  · rename_i h
    simp [MemoryRegion.identity, h]

theorem summaryKey_normalAccess (access : ParameterizedAccess) :
    summaryKey (normalAccess access) = summaryKey access := by
  have hroot : rootBindingKey (normalRoot access.root) = rootBindingKey access.root := by
    simp only [rootBindingKey, normalRoot, identity_hideOffset]
  have hfact : accessFactKey (normalAccess access).fact = accessFactKey access.fact := by
    unfold accessFactKey normalAccess
    dsimp only
    rw [identity_hideOffset]
  change (access.fact.functionId, rootBindingKey (normalRoot access.root) ++ "|" ++
    accessFactKey (normalAccess access).fact) = _
  rw [hroot, hfact]
  rfl

theorem hideOffset_known {region other : MemoryRegion} (h : hideOffset region = hideOffset other) :
    region.hasKnownOffset = other.hasKnownOffset := by
  have hkept : ∀ region : MemoryRegion, (hideOffset region).hasKnownOffset = region.hasKnownOffset := by
    intro region
    unfold hideOffset
    split <;> rfl
  rw [← hkept region, h, hkept other]

theorem hideOffset_rebasedOn {place other : MemoryRegion} (h : hideOffset place = hideOffset other)
    (argument designated : MemoryRegion) :
    hideOffset (place.rebasedOn argument designated) =
      hideOffset (other.rebasedOn argument designated) := by
  have hknown := hideOffset_known h
  cases hplace : place.hasKnownOffset with
  | true =>
      have hother := hknown.symm.trans hplace
      simp only [hideOffset, hplace, hother, if_true] at h
      rw [h]
  | false =>
      have hother := hknown.symm.trans hplace
      simp only [hideOffset, hplace, hother, Bool.false_eq_true, if_false, MemoryRegion.mk.injEq] at h
      simp [MemoryRegion.rebasedOn, hideOffset, hplace, hother, h]

theorem indexAtCall_hideOffset (index : Option LinearIndex) (place : MemoryRegion)
    (call : DirectCallBinding) :
    (indexAtCall index (hideOffset place) call).1 = (indexAtCall index place call).1 ∧
      hideOffset (indexAtCall index (hideOffset place) call).2 =
        hideOffset (indexAtCall index place call).2 := by
  unfold indexAtCall
  split
  · exact ⟨rfl, hideOffset_idem place⟩
  · split
    · exact ⟨rfl, hideOffset_idem place⟩
    · split
      · exact ⟨rfl, hideOffset_idem place⟩
      · refine ⟨rfl, ?_⟩
        unfold hideOffset
        split <;> simp

theorem rootAtCall_normalAccess (access : ParameterizedAccess) (call : DirectCallBinding) :
    (rootAtCall (normalAccess access) call).map normalRoot =
      (rootAtCall access call).map normalRoot := by
  obtain ⟨hindex, hplace⟩ := indexAtCall_hideOffset access.root.index access.fact.region call
  unfold rootAtCall
  simp only [normalAccess, normalRoot]
  rw [hindex]
  cases access.root.kind with
  | Global => simp [normalRoot, hplace]
  | Argument =>
      simp only [Option.map_map]
      cases call.argumentBinding access.root.argumentIndex with
      | none => rfl
      | some object =>
          simp only [Option.map_some, normalRoot, Function.comp_apply]
          rw [hideOffset_rebasedOn hplace]

-- What an access is at a call is told by its normal form.
theorem projectAccess_normalAccess (call : DirectCallBinding) (access : ParameterizedAccess) :
    (projectAccess call (normalAccess access)).map normalAccess =
      (projectAccess call access).map normalAccess := by
  have hroot := rootAtCall_normalAccess access call
  unfold projectAccess
  cases hnormal : rootAtCall (normalAccess access) call with
  | none =>
      rw [hnormal] at hroot
      cases hplain : rootAtCall access call with
      | none => rfl
      | some root =>
          rw [hplain] at hroot
          cases hroot
  | some normal =>
      rw [hnormal] at hroot
      cases hplain : rootAtCall access call with
      | none =>
          rw [hplain] at hroot
          cases hroot
      | some root =>
          rw [hplain] at hroot
          have hsame : normalRoot normal = normalRoot root := Option.some.inj hroot
          have hkind : normal.kind = root.kind := congrArg (·.kind) hsame
          have hindex : normal.index = root.index := congrArg (·.index) hsame
          have hregion : hideOffset normal.region = hideOffset root.region :=
            congrArg (·.region) hsame
          dsimp only
          rw [hkind, hindex]
          split
          · rfl
          · simp only [Option.map_some, normalAccess, hregion]
            rw [hsame]

end Normal

section Finite

theorem normalPlaces_finite {univ : Universe} (h : univ.Finite) (kind : RootBindingKind) :
    {place | hideOffset place = place ∧ univ.HoldsPlace kind place}.Finite := by
  have howners : ({.None, .AccessingThread, .NotYetHandedOver, .JoinedThisRound} :
      Set ElementOwner).Finite := Set.toFinite _
  have hall := (((((h.offsets kind).insert 0).prod h.sizes).prod howners).prod h.entries).prod
    (Set.finite_univ (α := Bool))
  apply (hall.image fun parts : (((Int × Nat) × ElementOwner) × String) × Bool =>
    ({ hasKnownOffset := parts.2
       byteOffset := parts.1.1.1.1
       byteSize := parts.1.1.1.2
       elementOwner := parts.1.1.2
       elementEntry := parts.1.2 } : MemoryRegion)).subset
  rintro place ⟨hnormal, hholds⟩
  refine ⟨((((place.byteOffset, place.byteSize), place.elementOwner), place.elementEntry),
    place.hasKnownOffset), ⟨⟨⟨⟨?_, hholds.size⟩, ?_⟩, hholds.entry⟩, trivial⟩, rfl⟩
  · cases hknown : place.hasKnownOffset with
    | true => exact Or.inr (hholds.offset hknown)
    | false =>
        left
        have := congrArg (·.byteOffset) hnormal
        simpa [hideOffset, hknown] using this.symm
  · cases place.elementOwner <;> simp

theorem indices_finite {univ : Universe} (h : univ.Finite) (kind : RootBindingKind) :
    {index : Option LinearIndex | ∀ waiting ∈ index, univ.HoldsIndex kind waiting}.Finite := by
  have hall := (((h.parameters.prod h.scales).prod (h.indexOffsets kind)).prod
    (Set.finite_univ (α := Bool))).image
      fun parts : ((Option Nat × Int) × Int) × Bool =>
        ({ parameter := parts.1.1.1
           scale := parts.1.1.2
           offset := parts.1.2
           widened := parts.2 } : LinearIndex)
  apply ((hall.image some).insert none).subset
  intro index hindex
  cases index with
  | none => exact Or.inl rfl
  | some waiting =>
      have hholds := hindex waiting rfl
      exact Or.inr ⟨waiting, ⟨(((waiting.parameter, waiting.scale), waiting.offset), waiting.widened),
        ⟨⟨⟨hholds.parameter, hholds.scale⟩, hholds.offset⟩, trivial⟩, rfl⟩, rfl⟩

theorem normalRoots_finite {univ : Universe} (h : univ.Finite) :
    {root | normalRoot root = root ∧ univ.HoldsRoot root root.region}.Finite := by
  have hkind : ∀ kind, {root | root.kind = kind ∧ normalRoot root = root ∧
      univ.HoldsRoot root root.region}.Finite := by
    intro kind
    have hall := (((h.symbols.prod h.argumentIndices).prod (normalPlaces_finite h kind)).prod
      (indices_finite h kind)).image
        fun parts : ((String × Nat) × MemoryRegion) × Option LinearIndex =>
          ({ kind := kind
             symbol := parts.1.1.1
             argumentIndex := parts.1.1.2
             region := parts.1.2
             index := parts.2 } : RootBinding)
    apply hall.subset
    rintro root ⟨rfl, hnormal, hholds⟩
    refine ⟨(((root.symbol, root.argumentIndex), root.region), root.index),
      ⟨⟨⟨hholds.symbol, hholds.argumentIndex⟩, ⟨congrArg (·.region) hnormal, hholds.place⟩⟩,
        hholds.index⟩, ?_⟩
    have hdesignated : root.designated = {} := (congrArg (·.designated) hnormal).symm
    rw [← hdesignated]
  apply ((hkind .Global).union (hkind .Argument)).subset
  rintro root ⟨hnormal, hholds⟩
  cases hroot : root.kind with
  | Global => exact Or.inl ⟨hroot, hnormal, hholds⟩
  | Argument => exact Or.inr ⟨hroot, hnormal, hholds⟩

theorem int64_mem_range (value : Int) : int64 value ∈ Set.Icc (-2 ^ 63 : Int) (2 ^ 63) :=
  Set.mem_Icc.mpr ⟨(int64_range value).1, (int64_range value).2.le⟩

theorem int64_idem (value : Int) : int64 (int64 value) = int64 value := Int.bmod_bmod

-- A lock of a named object, or of a parameter's, is told by 64 bits and whether they are known.
theorem lockIds_finite {roots : Set RootBinding} (h : roots.Finite) :
    {lockId | ∃ object ∈ roots, ∃ place, lockId = lockIdAt object place}.Finite := by
  have hpositions := ((Set.finite_univ (α := Bool)).prod (Set.finite_Icc (-2 ^ 63 : Int) (2 ^ 63))).image
    fun parts : Bool × Int => ({ hasKnownOffset := parts.1, byteOffset := parts.2 } : MemoryRegion)
  have hall := (h.prod hpositions).image fun parts : RootBinding × MemoryRegion =>
    lockIdAt { parts.1 with region := {} } parts.2
  apply hall.subset
  rintro _ ⟨object, hobject, place, rfl⟩
  refine ⟨(object, { hasKnownOffset := object.region.hasKnownOffset && place.hasKnownOffset
                     byteOffset := int64 (object.region.byteOffset + place.byteOffset) }),
    ⟨hobject, ⟨(_, _), ⟨trivial, int64_mem_range _⟩, rfl⟩⟩, ?_⟩
  simp [lockIdAt, int64_idem]

end Finite

end ConcurrencyAnalyzer.FactsBuilder
