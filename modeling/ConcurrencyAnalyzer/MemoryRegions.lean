import ConcurrencyAnalyzer.Library.Delimiter
import ConcurrencyAnalyzer.LockIds
import Mathlib.Algebra.Order.Ring.Int
import Mathlib.Data.Int.ConditionallyCompleteOrder
import Mathlib.Order.CompletePartialOrder
import Mathlib.Order.ConditionallyCompleteLattice.Basic
import Mathlib.Order.Interval.Set.LinearOrder

namespace ConcurrencyAnalyzer

open Library

namespace MemoryRegion

-- A region of known offset and size.
structure IsRange (region : MemoryRegion) : Prop where
  known : region.hasKnownOffset = true
  sized : region.byteSize ≠ 0

def bytes (region : MemoryRegion) : Set Int :=
  Set.Ico region.byteOffset (region.byteOffset + region.byteSize)

def EndFits (region : MemoryRegion) : Prop := FitsInt64 (region.byteOffset + region.byteSize)

-- Two threads of one entry, each in the element it was handed.
def OwnElements (region other : MemoryRegion) : Prop :=
  region.elementOwner = .AccessingThread ∧ other.elementOwner = .AccessingThread ∧
    region.elementEntry = other.elementEntry

instance (region : MemoryRegion) : Decidable region.EndFits :=
  inferInstanceAs (Decidable (FitsInt64 _))

instance (region other : MemoryRegion) : Decidable (OwnElements region other) :=
  inferInstanceAs (Decidable (_ ∧ _))

section Overlap

variable {region other argument designated : MemoryRegion}

theorem mayOverlap_of_own (h : OwnElements region other) : region.mayOverlap other = false := by
  obtain ⟨howner, howner', hentry⟩ := h
  unfold mayOverlap
  rw [if_pos (by simp [howner, howner', hentry])]

theorem mayOverlap_of_not_own (h : ¬OwnElements region other) :
    region.mayOverlap other =
      if !region.hasKnownOffset || !other.hasKnownOffset then true
      else if region.byteSize = 0 || other.byteSize = 0 then true
      else region.byteOffset < other.endOffset && other.byteOffset < region.endOffset := by
  unfold mayOverlap
  rw [if_neg]
  rwa [Bool.and_eq_true, Bool.and_eq_true, decide_eq_true_eq, decide_eq_true_eq,
    decide_eq_true_eq, and_assoc]

theorem not_own_of_overlap (h : region.mayOverlap other = true) : ¬OwnElements region other := by
  intro hown
  rw [mayOverlap_of_own hown] at h
  cases h

theorem mayOverlap_of_unknown (hown : ¬OwnElements region other)
    (hunknown : region.hasKnownOffset = false) : region.mayOverlap other = true := by
  rw [mayOverlap_of_not_own hown, if_pos (by simp [hunknown])]

theorem mayOverlap_of_ranges (hregion : region.IsRange) (hother : other.IsRange)
    (hown : ¬OwnElements region other) :
    region.mayOverlap other = true ↔
      region.byteOffset < other.endOffset ∧ other.byteOffset < region.endOffset := by
  rw [mayOverlap_of_not_own hown, if_neg (by simp [hregion.known, hother.known]),
    if_neg (by simp [hregion.sized, hother.sized]), Bool.and_eq_true, decide_eq_true_eq,
    decide_eq_true_eq]

theorem endOffset_of_fits (h : region.EndFits) :
    region.endOffset = region.byteOffset + region.byteSize := by
  unfold endOffset int64
  rw [Int.add_bmod_bmod]
  exact int64_of_fits h

theorem bytes_inter_nonempty (hregion : region.byteSize ≠ 0) (hother : other.byteSize ≠ 0) :
    (region.bytes ∩ other.bytes).Nonempty ↔
      region.byteOffset < other.byteOffset + other.byteSize ∧
        other.byteOffset < region.byteOffset + region.byteSize := by
  unfold bytes
  rw [Set.Ico_inter_Ico, Set.nonempty_Ico]
  omega

theorem mayOverlap_iff_bytes (hregion : region.IsRange) (hother : other.IsRange)
    (hown : ¬OwnElements region other) (hend : region.EndFits) (hend' : other.EndFits) :
    region.mayOverlap other = true ↔ (region.bytes ∩ other.bytes).Nonempty := by
  rw [mayOverlap_of_ranges hregion hother hown, endOffset_of_fits hend, endOffset_of_fits hend',
    bytes_inter_nonempty hregion.sized hother.sized]

end Overlap

section Rebasing

variable {region other argument designated designated' : MemoryRegion}

theorem rebasedOn_of_sized (hsized : region.byteSize ≠ 0) (argument designated : MemoryRegion) :
    region.rebasedOn argument designated = { region with
      hasKnownOffset := region.hasKnownOffset && argument.hasKnownOffset
      byteOffset := int64 (region.byteOffset + argument.byteOffset) } := by
  unfold rebasedOn
  rw [if_neg (by simp [hsized])]

theorem isRange_rebasedOn (h : region.IsRange) (hargument : argument.hasKnownOffset = true) :
    (region.rebasedOn argument designated).IsRange := by
  rw [rebasedOn_of_sized h.sized]
  exact ⟨by simp [h.known, hargument], h.sized⟩

theorem own_rebasedOn_iff (hsized : region.byteSize ≠ 0) (hsized' : other.byteSize ≠ 0) :
    OwnElements (region.rebasedOn argument designated) (other.rebasedOn argument designated') ↔
      OwnElements region other := by
  rw [rebasedOn_of_sized hsized, rebasedOn_of_sized hsized']
  rfl

-- Both ranges move by the same number of bytes.
theorem mayOverlap_rebasedOn (hregion : region.IsRange) (hother : other.IsRange)
    (hargument : argument.hasKnownOffset = true) (hend : region.EndFits) (hend' : other.EndFits)
    (hsum : FitsInt64 (region.byteOffset + argument.byteOffset))
    (hsum' : FitsInt64 (other.byteOffset + argument.byteOffset))
    (hmoved : (region.rebasedOn argument designated).EndFits)
    (hmoved' : (other.rebasedOn argument designated').EndFits) :
    (region.rebasedOn argument designated).mayOverlap (other.rebasedOn argument designated') =
      region.mayOverlap other := by
  by_cases hown : OwnElements region other
  · rw [mayOverlap_of_own hown,
      mayOverlap_of_own ((own_rebasedOn_iff hregion.sized hother.sized).mpr hown)]
  · have hown' : ¬OwnElements (region.rebasedOn argument designated)
        (other.rebasedOn argument designated') :=
      fun h => hown ((own_rebasedOn_iff hregion.sized hother.sized).mp h)
    rw [Bool.eq_iff_iff, mayOverlap_of_ranges hregion hother hown,
      mayOverlap_of_ranges (isRange_rebasedOn hregion hargument)
        (isRange_rebasedOn hother hargument) hown',
      endOffset_of_fits hend, endOffset_of_fits hend', endOffset_of_fits hmoved,
      endOffset_of_fits hmoved', rebasedOn_of_sized hregion.sized,
      rebasedOn_of_sized hother.sized]
    dsimp only
    rw [int64_of_fits hsum, int64_of_fits hsum']
    omega

theorem rebasedOn_rebasedOn {next sum designated'' : MemoryRegion} (h : region.IsRange)
    (hargument : argument.hasKnownOffset = true) (hnext : next.hasKnownOffset = true)
    (hsum : sum.hasKnownOffset = true)
    (hoffset : sum.byteOffset = argument.byteOffset + next.byteOffset) :
    (region.rebasedOn argument designated).rebasedOn next designated' =
      region.rebasedOn sum designated'' := by
  have hoffsets : int64 (int64 (region.byteOffset + argument.byteOffset) + next.byteOffset) =
      int64 (region.byteOffset + sum.byteOffset) := by
    unfold int64
    rw [Int.bmod_add_bmod, hoffset, Int.add_assoc]
  have hsized : (region.rebasedOn argument designated).byteSize ≠ 0 := by
    rw [rebasedOn_of_sized h.sized]
    exact h.sized
  rw [rebasedOn_of_sized hsized, rebasedOn_of_sized h.sized, rebasedOn_of_sized h.sized]
  simp [hargument, hnext, hsum, hoffsets]

theorem overlap_of_rebasedOn_unknown (hsized : region.byteSize ≠ 0)
    (hargument : argument.hasKnownOffset = false) (h : region.mayOverlap other = true) :
    (region.rebasedOn argument designated).mayOverlap other = true := by
  rw [rebasedOn_of_sized hsized]
  refine mayOverlap_of_unknown ?_ ?_
  · show ¬OwnElements region other
    exact not_own_of_overlap h
  · simp [hargument]

theorem overlap_rebasedOn_unknown (hsized : region.byteSize ≠ 0) (hsized' : other.byteSize ≠ 0)
    (hargument : argument.hasKnownOffset = false) (h : region.mayOverlap other = true) :
    (region.rebasedOn argument designated).mayOverlap (other.rebasedOn argument designated') =
      true := by
  refine mayOverlap_of_unknown ?_ ?_
  · rw [own_rebasedOn_iff hsized hsized']
    exact not_own_of_overlap h
  · rw [rebasedOn_of_sized hsized]
    simp [hargument]

end Rebasing

section Identity

-- What stands in a key before the size of the region.
def placeText (region : MemoryRegion) : List Char :=
  if region.hasKnownOffset then (toString region.byteOffset).toList else ['?']

-- What stands in it after the size.
def ownerText (region : MemoryRegion) : List Char :=
  if region.elementOwner = .None then []
  else '/' :: (toString region.elementOwner.number).toList ++ ':' :: region.elementEntry.toList

theorem identity_toList (region : MemoryRegion) :
    region.identity.toList = '@' :: (region.placeText ++
      '+' :: ((toString region.byteSize).toList ++ region.ownerText)) := by
  unfold identity placeText ownerText
  by_cases hnone : region.elementOwner = .None
  · cases region.hasKnownOffset <;> simp [hnone]
  · cases region.hasKnownOffset <;> simp [hnone]

theorem plus_notMem_placeText (region : MemoryRegion) : '+' ∉ region.placeText := by
  unfold placeText
  split
  · exact notMem_intText (by decide) (by decide) _
  · decide

theorem placeText_injective {region same : MemoryRegion} (h : region.placeText = same.placeText) :
    region.hasKnownOffset = same.hasKnownOffset ∧
      (region.hasKnownOffset = true → region.byteOffset = same.byteOffset) := by
  have hquestion (number : Int) : (toString number).toList ≠ ['?'] := by
    intro heq
    exact notMem_intText (by decide) (by decide) number (heq ▸ List.mem_singleton_self '?')
  unfold placeText at h
  cases hknown : region.hasKnownOffset <;> cases hknown' : same.hasKnownOffset <;>
    simp only [hknown, hknown', if_true, Bool.false_eq_true, if_false] at h
  · exact ⟨rfl, fun h => by cases h⟩
  · exact absurd h.symm (hquestion _)
  · exact absurd h (hquestion _)
  · exact ⟨rfl, fun _ => intText_injective h⟩

theorem number_injective {owner other : ElementOwner} (h : owner.number = other.number) :
    owner = other := by
  cases owner <;> cases other <;> first | rfl | cases h

theorem ownerText_injective {region same : MemoryRegion} (h : region.ownerText = same.ownerText) :
    region.elementOwner = same.elementOwner ∧
      (region.elementOwner ≠ .None → region.elementEntry = same.elementEntry) := by
  unfold ownerText at h
  by_cases hnone : region.elementOwner = .None <;> by_cases hnone' : same.elementOwner = .None
  · exact ⟨hnone.trans hnone'.symm, fun hne => absurd hnone hne⟩
  · rw [if_pos hnone, if_neg hnone'] at h
    cases h
  · rw [if_neg hnone, if_pos hnone'] at h
    cases h
  · rw [if_neg hnone, if_neg hnone', List.cons_append, List.cons_append, List.cons.injEq] at h
    have hcolon : ∀ number : Nat, ':' ∉ (toString number).toList := notMem_natText (by decide)
    obtain ⟨hnumber, hentry⟩ := Delimiter.split_single (hcolon _) (hcolon _) h.2
    exact ⟨number_injective (natText_injective hnumber), fun _ => String.toList_inj.mp hentry⟩

theorem ownerText_head (region : MemoryRegion) :
    ∀ first ∈ region.ownerText.head?, first.isDigit = false := by
  unfold ownerText
  split
  · simp
  · intro first hfirst
    obtain rfl := Option.some.inj hfirst
    decide

-- The key tells everything but the offset of an unknown place and the entry of no owner.
structure SameKey (region same : MemoryRegion) : Prop where
  known : region.hasKnownOffset = same.hasKnownOffset
  offset : region.hasKnownOffset = true → region.byteOffset = same.byteOffset
  size : region.byteSize = same.byteSize
  owner : region.elementOwner = same.elementOwner
  entry : region.elementOwner ≠ .None → region.elementEntry = same.elementEntry

theorem sameKey_of_identity {region same : MemoryRegion} (h : region.identity = same.identity) :
    SameKey region same := by
  rw [← String.toList_inj, identity_toList, identity_toList, List.cons.injEq] at h
  obtain ⟨hplace, hrest⟩ := Delimiter.split_single (plus_notMem_placeText _)
    (plus_notMem_placeText _) h.2
  have hdigits (region : MemoryRegion) : ∀ c ∈ (toString region.byteSize).toList, c.isDigit = true :=
    fun _ => isDigit_of_mem_natText
  have hsplit (region : MemoryRegion) := takeWhile_digits (hdigits region) region.ownerText_head
  have hsize : (toString region.byteSize).toList = (toString same.byteSize).toList := by
    rw [← (hsplit region).1, hrest, (hsplit same).1]
  have howner : region.ownerText = same.ownerText := by
    rw [← (hsplit region).2, hrest, (hsplit same).2]
  exact ⟨(placeText_injective hplace).1, (placeText_injective hplace).2, natText_injective hsize,
    (ownerText_injective howner).1, (ownerText_injective howner).2⟩

end Identity

section Alike

variable {region same : MemoryRegion}

theorem SameKey.own_iff (h : SameKey region same) (other : MemoryRegion) :
    OwnElements region other ↔ OwnElements same other := by
  unfold OwnElements
  rw [← h.owner]
  refine and_congr_right fun howner => ?_
  rw [h.entry (by simp [howner])]

theorem SameKey.mayOverlap_eq (h : SameKey region same) (other : MemoryRegion) :
    region.mayOverlap other = same.mayOverlap other := by
  by_cases hown : OwnElements region other
  · rw [mayOverlap_of_own hown, mayOverlap_of_own ((h.own_iff other).mp hown)]
  · have hown' := (not_congr (h.own_iff other)).mp hown
    by_cases hknown : region.hasKnownOffset = true
    · have hend : region.endOffset = same.endOffset := by
        unfold endOffset
        rw [h.offset hknown, h.size]
      rw [mayOverlap_of_not_own hown, mayOverlap_of_not_own hown', ← h.known, ← h.size,
        ← h.offset hknown, hend]
    · rw [Bool.not_eq_true] at hknown
      rw [mayOverlap_of_unknown hown hknown, mayOverlap_of_unknown hown' (h.known ▸ hknown)]

-- Without an owner, no pair is ordered by owners.
theorem orderedWithElementOwner_of_none (howner : region.elementOwner = .None)
    (other : MemoryRegion) : region.orderedWithElementOwner other = false := by
  simp [orderedWithElementOwner, heldBySpawningThread, howner]

theorem SameKey.ordered_eq (h : SameKey region same) (other : MemoryRegion) :
    region.orderedWithElementOwner other = same.orderedWithElementOwner other := by
  by_cases hnone : region.elementOwner = .None
  · rw [orderedWithElementOwner_of_none hnone,
      orderedWithElementOwner_of_none (h.owner.symm.trans hnone)]
  · unfold orderedWithElementOwner
    rw [h.entry hnone, h.owner]

end Alike

theorem regions_are_byte_ranges :
    (∀ region other : MemoryRegion, region.mayOverlap other = other.mayOverlap region) ∧
    (∀ region other : MemoryRegion, region.IsRange → other.IsRange → ¬OwnElements region other →
      region.EndFits → other.EndFits →
        (region.mayOverlap other = true ↔ (region.bytes ∩ other.bytes).Nonempty)) ∧
    (∀ region same : MemoryRegion, region.identity = same.identity → ∀ other : MemoryRegion,
      region.mayOverlap other = same.mayOverlap other ∧
        region.orderedWithElementOwner other = same.orderedWithElementOwner other) ∧
    (∀ region other argument designated designated' : MemoryRegion,
      region.IsRange → other.IsRange → argument.hasKnownOffset = true →
      region.EndFits → other.EndFits →
      FitsInt64 (region.byteOffset + argument.byteOffset) →
      FitsInt64 (other.byteOffset + argument.byteOffset) →
      (region.rebasedOn argument designated).EndFits →
      (other.rebasedOn argument designated').EndFits →
        (region.rebasedOn argument designated).mayOverlap (other.rebasedOn argument designated') =
          region.mayOverlap other) ∧
    (∀ region argument next sum designated designated' designated'' : MemoryRegion,
      region.IsRange → argument.hasKnownOffset = true → next.hasKnownOffset = true →
      sum.hasKnownOffset = true → sum.byteOffset = argument.byteOffset + next.byteOffset →
        (region.rebasedOn argument designated).rebasedOn next designated' =
          region.rebasedOn sum designated'') ∧
    ∀ region other argument designated designated' : MemoryRegion,
      region.IsRange → other.IsRange → argument.hasKnownOffset = false →
      region.mayOverlap other = true →
        (region.rebasedOn argument designated).mayOverlap other = true ∧
          (region.rebasedOn argument designated).mayOverlap
            (other.rebasedOn argument designated') = true := by
  refine ⟨mayOverlap_comm, ?_, ?_, ?_, ?_, ?_⟩
  · intro region other hregion hother hown hend hend'
    exact mayOverlap_iff_bytes hregion hother hown hend hend'
  · intro region same hidentity other
    have hkey := sameKey_of_identity hidentity
    exact ⟨hkey.mayOverlap_eq other, hkey.ordered_eq other⟩
  · intro region other argument designated designated' hregion hother hargument hend hend' hsum
      hsum' hmoved hmoved'
    exact mayOverlap_rebasedOn hregion hother hargument hend hend' hsum hsum' hmoved hmoved'
  · intro region argument next sum designated designated' designated'' hregion hargument hnext hsum
      hoffset
    exact rebasedOn_rebasedOn hregion hargument hnext hsum hoffset
  · intro region other argument designated designated' hregion hother hargument hoverlap
    exact ⟨overlap_of_rebasedOn_unknown hregion.sized hargument hoverlap,
      overlap_rebasedOn_unknown hregion.sized hother.sized hargument hoverlap⟩

end MemoryRegion

end ConcurrencyAnalyzer
