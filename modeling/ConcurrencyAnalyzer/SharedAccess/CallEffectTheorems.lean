import ConcurrencyAnalyzer.SharedAccess.CallEffects

namespace ConcurrencyAnalyzer.SharedAccess

open Library

section Kept

theorem mem_appendEffects_iff (seen : List String) (effects : List CallEffect) (effect : CallEffect) :
    effect ∈ appendEffects seen effects ↔
      ∃ before after, KeepFirst.FirstOfKey CallEffect.key effects before after effect ∧
        effect.key ∉ seen := by
  induction effects generalizing seen with
  | nil =>
      simp only [appendEffects, List.not_mem_nil, false_iff]
      rintro ⟨before, after, hfirst, _⟩
      have hsplit := hfirst.split
      simp at hsplit
  | cons head effects ih =>
      have hlater {before after : List CallEffect} (hne : head.key ≠ effect.key)
          (hfirst : KeepFirst.FirstOfKey CallEffect.key effects before after effect) :
          KeepFirst.FirstOfKey CallEffect.key (head :: effects) (head :: before) after effect :=
        ⟨by rw [hfirst.split, List.cons_append], List.forall_mem_cons.mpr ⟨hne, hfirst.fresh⟩⟩
      have hcases {before after : List CallEffect}
          (hfirst : KeepFirst.FirstOfKey CallEffect.key (head :: effects) before after effect) :
          effect = head ∨ (head.key ≠ effect.key ∧ ∃ rest,
            KeepFirst.FirstOfKey CallEffect.key effects rest after effect) := by
        obtain ⟨hsplit, hfresh⟩ := hfirst
        cases before with
        | nil =>
            rw [List.nil_append, List.cons.injEq] at hsplit
            exact .inl hsplit.1.symm
        | cons other rest =>
            rw [List.cons_append, List.cons.injEq] at hsplit
            obtain ⟨rfl, hsplit⟩ := hsplit
            obtain ⟨hne, hfresh⟩ := List.forall_mem_cons.mp hfresh
            exact .inr ⟨hne, rest, hsplit, hfresh⟩
      unfold appendEffects
      by_cases hseen : head.key ∈ seen
      · rw [if_pos hseen, ih]
        constructor
        · rintro ⟨before, after, hfirst, hnot⟩
          have hne : head.key ≠ effect.key := fun heq => hnot (heq ▸ hseen)
          exact ⟨head :: before, after, hlater hne hfirst, hnot⟩
        · rintro ⟨before, after, hfirst, hnot⟩
          rcases hcases hfirst with rfl | ⟨_, rest, hrest⟩
          · exact absurd hseen hnot
          · exact ⟨rest, after, hrest, hnot⟩
      · rw [if_neg hseen, List.mem_cons, ih]
        constructor
        · rintro (rfl | ⟨before, after, hfirst, hnot⟩)
          · exact ⟨[], effects, ⟨rfl, fun _ hmem => absurd hmem List.not_mem_nil⟩, hseen⟩
          · rw [List.mem_cons, not_or] at hnot
            obtain ⟨hne, hnot⟩ := hnot
            exact ⟨head :: before, after, hlater (Ne.symm hne) hfirst, hnot⟩
        · rintro ⟨before, after, hfirst, hnot⟩
          rcases hcases hfirst with rfl | ⟨hne, rest, hrest⟩
          · exact .inl rfl
          · refine .inr ⟨rest, after, hrest, ?_⟩
            rw [List.mem_cons, not_or]
            exact ⟨hne.symm, hnot⟩

theorem mem_appendCallMemoryEffectAccesses_iff (call : EffectCall) (effect : CallEffect) :
    effect ∈ appendCallMemoryEffectAccesses call ↔
      ∃ before after, KeepFirst.FirstOfKey CallEffect.key (effectsOf call) before after effect := by
  unfold appendCallMemoryEffectAccesses
  rw [mem_appendEffects_iff]
  simp only [List.not_mem_nil, not_false_eq_true, and_true]

end Kept

section Touched

variable {call : EffectCall} {argument : CallArgument} {root : RootBinding}

-- An effect that tells of a byte of the object is one the extent says is touched, and conversely.
theorem touches_iff {number : Nat} {extent : ParameterFootprint.Extent} {restates : Bool}
    {kind : AccessKind} {isAtomic : Bool} {byte : Int} :
    Touches extent root kind isAtomic byte ↔
      ∃ effect ∈ effectsOfKind number root extent restates kind,
        Covers effect root kind isAtomic byte := by
  unfold Touches effectsOfKind
  cases extent.wholeObject kind with
  | true =>
      simp only [if_true, List.mem_singleton, exists_eq_left]
      constructor
      · rintro ⟨rfl, hnames⟩
        exact ⟨⟨rfl, rfl, rfl⟩, rfl, rfl, hnames⟩
      · rintro ⟨_, _, hatomic, hnames⟩
        exact ⟨hatomic.symm, hnames⟩
  | false =>
      simp only [Bool.false_eq_true, if_false, List.mem_map, exists_exists_and_eq_and]
      refine exists_congr fun range => and_congr_right fun _ => ?_
      constructor
      · rintro ⟨hatomic, hnames⟩
        exact ⟨⟨rfl, rfl, rfl⟩, rfl, hatomic, hnames⟩
      · rintro ⟨_, _, hatomic, hnames⟩
        exact ⟨hatomic, hnames⟩

theorem extent_touches_iff {number : Nat} {extent : ParameterFootprint.Extent} {restates : Bool}
    {allowed kind : AccessKind} {isAtomic : Bool} {byte : Int} :
    ((kind = .Write → allowed = .Write) ∧ Touches extent root kind isAtomic byte) ↔
      ∃ effect ∈ effectsOfExtent number root allowed extent restates,
        Covers effect root kind isAtomic byte := by
  have hkind {other : AccessKind} {effect : CallEffect}
      (hmem : effect ∈ effectsOfKind number root extent restates other) : effect.kind = other := by
    unfold effectsOfKind at hmem
    split at hmem
    · rw [List.mem_singleton] at hmem
      rw [hmem, effectAt]
    · obtain ⟨range, _, rfl⟩ := List.mem_map.mp hmem
      rfl
  rw [@touches_iff root number extent restates]
  unfold effectsOfExtent
  simp only [List.mem_flatMap, List.mem_filter, List.mem_cons, List.not_mem_nil, or_false]
  constructor
  · rintro ⟨hallowed, effect, hmem, hcovers⟩
    refine ⟨effect, ⟨kind, ⟨?_, ?_⟩, hmem⟩, hcovers⟩
    · cases kind <;> simp
    · cases kind with
      | Read => rfl
      | Write => rw [hallowed rfl]; rfl
  · rintro ⟨effect, ⟨other, ⟨_, hfilter⟩, hmem⟩, hcovers⟩
    obtain rfl : other = kind := (hkind hmem).symm.trans hcovers.2.1
    refine ⟨?_, effect, hmem, hcovers⟩
    rintro rfl
    cases allowed with
    | Write => rfl
    | Read => simp at hfilter

theorem mayTouch_iff {kind : AccessKind} {isAtomic : Bool} {byte : Int} :
    MayTouch call argument root kind isAtomic byte ↔
      call.inferred = true ∧ argument.root = some root ∧
        ∃ effect ∈ effectsOfArgument call argument, Covers effect root kind isAtomic byte := by
  unfold MayTouch effectsOfArgument
  refine and_congr_right fun _ => and_congr_right fun hroot => ?_
  cases hallowed : argument.allowed with
  | none => simp [hroot]
  | some allowed =>
      simp only [hroot, Option.some.injEq, exists_eq_left']
      cases call.footprint argument.number with
      | none =>
          simp only [List.mem_singleton, exists_eq_left]
          constructor
          · rintro ⟨rfl, rfl, hnames⟩
            exact ⟨⟨rfl, rfl, rfl⟩, rfl, rfl, hnames⟩
          · rintro ⟨_, hkind, hatomic, hnames⟩
            exact ⟨hkind.symm, hatomic.symm, hnames⟩
      | some footprint =>
          simp only [List.mem_append, or_and_right, exists_or]
          rw [and_or_left, @extent_touches_iff root argument.number _ false,
            @extent_touches_iff root argument.number _ true]

-- The effects of an argument are on the object it leads into.
theorem sameObject_of_mem {effect : CallEffect} (hmem : effect ∈ effectsOfArgument call argument) :
    ∃ root, argument.root = some root ∧ SameObject effect.root root := by
  unfold effectsOfArgument at hmem
  split at hmem
  · rename_i root allowed hroot _
    have hsame (region : MemoryRegion) (kind : AccessKind) (isAtomic restates : Bool) :
        SameObject (effectAt argument.number root region kind isAtomic restates).root root :=
      ⟨rfl, rfl, rfl⟩
    have hextent {extent : ParameterFootprint.Extent} {restates : Bool}
        (hmem : effect ∈ effectsOfExtent argument.number root allowed extent restates) :
        SameObject effect.root root := by
      obtain ⟨kind, _, hmem⟩ := List.mem_flatMap.mp hmem
      unfold effectsOfKind at hmem
      split at hmem
      · exact List.mem_singleton.mp hmem ▸ hsame _ _ _ _
      · obtain ⟨range, _, rfl⟩ := List.mem_map.mp hmem
        exact hsame _ _ _ _
    refine ⟨root, hroot, ?_⟩
    split at hmem
    · exact List.mem_singleton.mp hmem ▸ hsame _ _ _ _
    · exact (List.mem_append.mp hmem).elim hextent hextent
  · exact absurd hmem List.not_mem_nil

theorem mem_effectsOf_iff {effect : CallEffect} :
    effect ∈ effectsOf call ↔
      call.inferred = true ∧ ∃ argument ∈ call.arguments, effect ∈ effectsOfArgument call argument := by
  unfold effectsOf
  cases call.inferred with
  | true => simp
  | false => simp

theorem SameObject.symm {root other : RootBinding} (h : SameObject root other) :
    SameObject other root := ⟨h.1.symm, h.2.1.symm, h.2.2.symm⟩

theorem SameObject.trans {root other last : RootBinding} (h : SameObject root other)
    (hnext : SameObject other last) : SameObject root last :=
  ⟨h.1.trans hnext.1, h.2.1.trans hnext.2.1, h.2.2.trans hnext.2.2⟩

-- The accesses cover what a call may touch when they cover what each of its effects names.
theorem effectsCover_iff_effects :
    EffectsCover call ↔ ∀ effect ∈ effectsOf call, ∀ byte, Names effect.root.region byte →
      ∃ kept ∈ appendCallMemoryEffectAccesses call,
        Covers kept effect.root effect.kind effect.isAtomic byte := by
  constructor
  · intro hcover effect hmem byte hnames
    obtain ⟨hinferred, argument, hargument, hmem⟩ := mem_effectsOf_iff.mp hmem
    obtain ⟨root, hroot, hsame⟩ := sameObject_of_mem hmem
    have htouch : MayTouch call argument root effect.kind effect.isAtomic byte :=
      mayTouch_iff.mpr ⟨hinferred, hroot, effect, hmem, hsame, rfl, rfl, hnames⟩
    obtain ⟨kept, hkept, hobject, hrest⟩ := hcover argument hargument root _ _ byte htouch
    exact ⟨kept, hkept, hobject.trans hsame.symm, hrest⟩
  · intro hcover argument hargument root kind isAtomic byte htouch
    obtain ⟨hinferred, hroot, effect, hmem, hsame, rfl, rfl, hnames⟩ := mayTouch_iff.mp htouch
    have heffect : effect ∈ effectsOf call :=
      mem_effectsOf_iff.mpr ⟨hinferred, argument, hargument, hmem⟩
    obtain ⟨kept, hkept, hobject, hrest⟩ := hcover effect heffect byte hnames
    exact ⟨kept, hkept, hobject.trans hsame, hrest⟩

end Touched

section Places

theorem suffix_known_ne {region other : MemoryRegion} (hknown : region.hasKnownOffset = true)
    (hunknown : other.hasKnownOffset = false) : region.suffix ≠ other.suffix := by
  intro heq
  have hlists := congrArg String.toList heq
  unfold MemoryRegion.suffix at hlists
  rw [hknown, hunknown] at hlists
  by_cases hzero : region.byteOffset = 0
  · cases howner : other.elementOwner <;> simp [hzero, howner] at hlists
  · cases howner : other.elementOwner <;> simp [hzero, howner] at hlists

theorem suffix_eq_iff (region other : MemoryRegion) :
    region.suffix = other.suffix ↔ SamePlace region other := by
  have hknown {offset offset' : Int} :
      (if offset = 0 then "" else "+" ++ toString offset) =
        (if offset' = 0 then "" else "+" ++ toString offset') ↔ offset = offset' := by
    refine ⟨fun heq => ?_, fun heq => by rw [heq]⟩
    have hlists := congrArg String.toList heq
    by_cases hzero : offset = 0 <;> by_cases hzero' : offset' = 0
    · rw [hzero, hzero']
    · simp [hzero, hzero'] at hlists
    · simp [hzero, hzero'] at hlists
    · rw [if_neg hzero, if_neg hzero', String.toList_append, String.toList_append] at hlists
      exact intText_injective (List.append_cancel_left hlists)
  cases hregion : region.hasKnownOffset <;> cases hother : other.hasKnownOffset
  · unfold MemoryRegion.suffix SamePlace
    rw [hregion, hother]
    cases region.elementOwner <;> cases other.elementOwner <;> simp
  · simpa [SamePlace, hregion, hother] using (suffix_known_ne hother hregion).symm
  · simpa [SamePlace, hregion, hother] using suffix_known_ne hregion hother
  · unfold MemoryRegion.suffix SamePlace
    rw [hregion, hother]
    simpa using hknown

theorem suffix_head (region : MemoryRegion) :
    ∀ first ∈ region.suffix.toList.head?, first.isDigit = false := by
  unfold MemoryRegion.suffix
  split
  · split
    · simp
    · rw [String.toList_append]
      rintro first ⟨⟩
      rfl
  · split <;> simp

-- The kind and the atomicity stand at the end of a key, and no end is the end of another.
theorem key_split {text other : String} {kind otherKind : AccessKind} {isAtomic otherAtomic : Bool} :
    (text ++ "|" ++ kind.label ++ if isAtomic then "|a" else "") =
        (other ++ "|" ++ otherKind.label ++ if otherAtomic then "|a" else "") ↔
      text = other ∧ kind = otherKind ∧ isAtomic = otherAtomic := by
  refine ⟨fun heq => ?_, fun ⟨htext, hkind, hatomic⟩ => by rw [htext, hkind, hatomic]⟩
  have hreversed := congrArg (fun key : String => key.toList.reverse) heq
  cases kind <;> cases otherKind <;> cases isAtomic <;> cases otherAtomic <;>
    simp [AccessKind.label] at hreversed ⊢
  all_goals exact String.ext hreversed

theorem rootBindingKey_eq_iff (root other : RootBinding) :
    rootBindingKey root = rootBindingKey other ↔
      root.kind = other.kind ∧
        (root.kind = .Argument → root.argumentIndex = other.argumentIndex ∧
          SamePlace root.region other.region) ∧
        (root.kind = .Global → RunTogether root other ∨
          (root.symbol = other.symbol ∧ SamePlace root.region other.region)) := by
  have happart (text rest : String) : "global:" ++ text ≠ "argument:" ++ rest := by
    intro heq
    have hlists := congrArg String.toList heq
    rw [String.toList_append, String.toList_append] at hlists
    exact absurd (List.cons.inj hlists).1 (by decide)
  unfold rootBindingKey
  cases hkind : root.kind <;> cases hother : other.kind
  · simp only [true_and, reduceCtorEq, forall_const, false_implies, String.append_assoc,
      String.append_right_inj]
    constructor
    · intro heq
      by_cases hsymbol : root.symbol = other.symbol
      · rw [hsymbol, String.append_right_inj] at heq
        exact .inr ⟨hsymbol, (suffix_eq_iff _ _).mp heq⟩
      · exact .inl ⟨hsymbol, heq⟩
    · rintro (⟨_, heq⟩ | ⟨hsymbol, hplace⟩)
      · exact heq
      · rw [hsymbol, (suffix_eq_iff _ _).mpr hplace]
  · simpa [String.append_assoc] using happart _ _
  · simpa [String.append_assoc] using (happart _ _).symm
  · simp only [true_and, reduceCtorEq, forall_const, false_implies, and_true, String.append_assoc,
      String.append_right_inj]
    constructor
    · intro heq
      have hlists := congrArg String.toList heq
      rw [String.toList_append, String.toList_append, toList_natText, toList_natText] at hlists
      have hdigits := takeWhile_toDigits_append root.argumentIndex (suffix_head root.region)
      have hdigits' := takeWhile_toDigits_append other.argumentIndex (suffix_head other.region)
      rw [hlists] at hdigits
      refine ⟨toDigits_injective (hdigits.1.symm.trans hdigits'.1), (suffix_eq_iff _ _).mp ?_⟩
      exact String.ext (hdigits.2.symm.trans hdigits'.2)
    · rintro ⟨hindex, hplace⟩
      rw [hindex, (suffix_eq_iff _ _).mpr hplace]

def CallEffect.touch (effect : CallEffect) : Touch where
  root := effect.root
  kind := effect.kind
  isAtomic := effect.isAtomic

theorem key_eq_iff_meets (effect other : CallEffect) :
    effect.key = other.key ↔ Meets effect.touch other.touch := by
  unfold CallEffect.key callEffectKey Meets
  rw [key_split, rootBindingKey_eq_iff]
  simp only [CallEffect.touch]
  tauto

end Places

section Touches

variable (call : EffectCall) (number : Nat) (root : RootBinding)

theorem map_touch_effectsOfKind (extent : ParameterFootprint.Extent) (restates : Bool)
    (kind : AccessKind) :
    (effectsOfKind number root extent restates kind).map CallEffect.touch =
      touchesOfExtent root extent kind := by
  unfold effectsOfKind touchesOfExtent
  split
  · rfl
  · rw [List.map_map]
    rfl

theorem map_touch_effectsOfExtent (allowed : AccessKind) (extent : ParameterFootprint.Extent)
    (restates : Bool) :
    (effectsOfExtent number root allowed extent restates).map CallEffect.touch =
      touchesAllowed root allowed extent := by
  unfold effectsOfExtent touchesAllowed
  rw [List.map_flatMap]
  simp only [map_touch_effectsOfKind]
  cases allowed <;> simp

theorem map_touch_effectsOfArgument (argument : CallArgument) :
    (effectsOfArgument call argument).map CallEffect.touch = argument.touches call := by
  unfold effectsOfArgument CallArgument.touches
  split
  · split
    · rfl
    · rw [List.map_append, map_touch_effectsOfExtent, map_touch_effectsOfExtent]
  · rfl

theorem map_touch_effectsOf : (effectsOf call).map CallEffect.touch = call.touches := by
  unfold effectsOf EffectCall.touches
  split
  · rw [List.map_flatMap]
    simp only [map_touch_effectsOfArgument]
  · rfl

variable {call}

-- The first effects of their keys are the accesses before which none begins where they do.
theorem firstThere_iff {touch : Touch} :
    (∃ before after, FirstThere call before after touch) ↔
      ∃ before after effect,
        KeepFirst.FirstOfKey CallEffect.key (effectsOf call) before after effect ∧
          effect.touch = touch := by
  constructor
  · rintro ⟨before, after, hsplit, hfresh⟩
    rw [← map_touch_effectsOf] at hsplit
    obtain ⟨before, rest, heffects, rfl, hrest⟩ := List.map_eq_append_iff.mp hsplit
    obtain ⟨effect, after, rfl, htouch, rfl⟩ := List.map_eq_cons_iff.mp hrest
    refine ⟨before, after, effect, ⟨heffects, fun earlier hearlier heq => ?_⟩, htouch⟩
    refine hfresh earlier.touch (List.mem_map_of_mem hearlier) ?_
    exact htouch ▸ (key_eq_iff_meets earlier effect).mp heq
  · rintro ⟨before, after, effect, ⟨hsplit, hfresh⟩, rfl⟩
    refine ⟨before.map CallEffect.touch, after.map CallEffect.touch, ?_, ?_⟩
    · rw [← map_touch_effectsOf, hsplit, List.map_append, List.map_cons]
    · intro earlier hearlier hmeets
      obtain ⟨other, hother, rfl⟩ := List.mem_map.mp hearlier
      exact hfresh other hother ((key_eq_iff_meets other effect).mpr hmeets)

-- An access is the first that begins where it does, or comes after that one.
theorem exists_firstThere {effect : CallEffect} (hmem : effect ∈ effectsOf call) :
    ∃ before after touch, FirstThere call before after touch ∧ Meets touch effect.touch ∧
      (touch = effect.touch ∨ ∃ between rest, after = between ++ effect.touch :: rest) := by
  obtain ⟨before, after, first, hfirst, hkey⟩ :
      ∃ before after first, KeepFirst.FirstOfKey CallEffect.key (effectsOf call) before after first ∧
        first.key = effect.key := KeepFirst.exists_firstOfKey hmem
  have hmeets := (key_eq_iff_meets first effect).mp hkey
  obtain ⟨before, after, hthere⟩ := firstThere_iff.mpr ⟨before, after, first, hfirst, rfl⟩
  refine ⟨before, after, first.touch, hthere, hmeets, ?_⟩
  have htouch : effect.touch ∈ call.touches := map_touch_effectsOf call ▸ List.mem_map_of_mem hmem
  rw [hthere.split, List.mem_append, List.mem_cons] at htouch
  rcases htouch with hbefore | heq | hafter
  · have hself : Meets effect.touch first.touch := (key_eq_iff_meets effect first).mp hkey.symm
    exact absurd hself (hthere.fresh effect.touch hbefore)
  · exact .inl heq.symm
  · exact .inr (List.append_of_mem hafter)

end Touches

section Coverage

-- What the accesses emitted for a call cover, told by the first of those that begin in one place.
theorem kept_covers_iff {call : EffectCall} {root : RootBinding} {kind : AccessKind}
    {isAtomic : Bool} {byte : Int} :
    (∃ kept ∈ appendCallMemoryEffectAccesses call, Covers kept root kind isAtomic byte) ↔
      ∃ before after touch, FirstThere call before after touch ∧ SameObject touch.root root ∧
        touch.kind = kind ∧ touch.isAtomic = isAtomic ∧ Names touch.root.region byte := by
  constructor
  · rintro ⟨kept, hkept, hcovers⟩
    obtain ⟨before, after, hfirst⟩ := (mem_appendCallMemoryEffectAccesses_iff call kept).mp hkept
    obtain ⟨before, after, hthere⟩ := firstThere_iff.mpr ⟨before, after, kept, hfirst, rfl⟩
    exact ⟨before, after, kept.touch, hthere, hcovers⟩
  · rintro ⟨before, after, touch, hthere, hcovers⟩
    obtain ⟨before, after, kept, hfirst, rfl⟩ := firstThere_iff.mp ⟨before, after, hthere⟩
    refine ⟨kept, ?_, hcovers⟩
    exact (mem_appendCallMemoryEffectAccesses_iff call kept).mpr ⟨before, after, hfirst⟩

theorem effects_cover_iff (call : EffectCall) : EffectsCover call ↔ ReachedElsewhere call := by
  rw [effectsCover_iff_effects]
  simp only [kept_covers_iff]
  constructor
  · intro hcover before between after first touch hfirst _ byte hnames _
    have hmem : touch ∈ (effectsOf call).map CallEffect.touch := by
      rw [map_touch_effectsOf, hfirst.split]
      simp
    obtain ⟨effect, heffect, rfl⟩ := List.mem_map.mp hmem
    exact hcover effect heffect byte hnames
  · intro helsewhere effect hmem byte hnames
    obtain ⟨before, after, touch, hthere, hmeets, hplace⟩ := exists_firstThere hmem
    by_cases hnamed : SameObject touch.root effect.root ∧ Names touch.root.region byte
    · exact ⟨before, after, touch, hthere, hnamed.1, hmeets.1, hmeets.2.1, hnamed.2⟩
    · rw [not_and] at hnamed
      rcases hplace with rfl | ⟨between, rest, rfl⟩
      · exact absurd hnames (hnamed ⟨rfl, rfl, rfl⟩)
      · exact helsewhere before between rest touch effect.touch hthere hmeets byte hnames hnamed

-- A field of an object, and the object, handed to a function without a body.
def fieldAndObject : EffectCall where
  inferred := true
  arguments := [
    ⟨0, some { symbol := "g", designated := { byteSize := 4 } }, some .Write⟩,
    ⟨1, some { symbol := "g", designated := { byteSize := 64 } }, some .Write⟩]
  callee := none

theorem effects_cover_not_object : ¬EffectsCover fieldAndObject := by
  intro hcover
  have htouch : MayTouch fieldAndObject
      ⟨1, some { symbol := "g", designated := { byteSize := 64 } }, some .Write⟩
      { symbol := "g", designated := { byteSize := 64 } } .Write false 8 := by
    refine ⟨rfl, rfl, .Write, rfl, rfl, rfl, fun _ _ => ?_⟩
    decide
  obtain ⟨effect, hmem, _, _, _, hnames⟩ :=
    hcover _ (List.mem_cons_of_mem _ (List.mem_singleton_self _)) _ _ _ _ htouch
  have hkept : appendCallMemoryEffectAccesses fieldAndObject =
      [effectAt 0 { symbol := "g", designated := { byteSize := 4 } } { byteSize := 4 } .Write false
        false] := by decide
  rw [hkept, List.mem_singleton] at hmem
  subst hmem
  have hbounds := hnames rfl (by decide)
  exact absurd hbounds.2 (by decide)

end Coverage

end ConcurrencyAnalyzer.SharedAccess
