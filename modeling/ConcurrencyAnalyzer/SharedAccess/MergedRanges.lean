import ConcurrencyAnalyzer.SharedAccess.ParameterFootprints
import ConcurrencyAnalyzer.Library.SortedFold

namespace ConcurrencyAnalyzer.SharedAccess.ParameterFootprint

open Library

def Range.Holds (range : Range) (byte : Int) : Prop := range.begin ≤ byte ∧ byte < range.stop

def Range.Overlaps (range other : Range) : Prop := ∃ byte, range.Holds byte ∧ other.Holds byte

-- The ranges before the bound is looked at.
def separate (sorted : List Range) : List Range := sorted.foldl mergeRange []

def bounded (merged : List Range) : List Range :=
  match merged with
  | [] => []
  | first :: _ => if kMaxRangesPerKind < merged.length then [spanOf first merged] else merged

-- `mergeRanges` past its sort, which places the ranges that begin together in any order.
def mergeSorted (sorted : List Range) : List Range := bounded (separate sorted)

def sortedByBegin (ranges : List Range) : List Range :=
  ranges.insertionSort fun lhs rhs => lhs.begin ≤ rhs.begin

theorem mergeRanges_eq (ranges : List Range) :
    mergeRanges ranges = mergeSorted (sortedByBegin ranges) := by
  rfl

theorem perm_sortedByBegin (ranges : List Range) : (sortedByBegin ranges).Perm ranges :=
  List.perm_insertionSort _ ranges

theorem pairwise_sortedByBegin (ranges : List Range) :
    (sortedByBegin ranges).Pairwise fun lhs rhs => lhs.begin ≤ rhs.begin := by
  have : Std.Total (fun lhs rhs : Range => lhs.begin ≤ rhs.begin) :=
    ⟨fun lhs rhs => le_total lhs.begin rhs.begin⟩
  have : IsTrans Range (fun lhs rhs => lhs.begin ≤ rhs.begin) :=
    ⟨fun _ _ _ h h' => le_trans h h'⟩
  exact List.pairwise_insertionSort _ ranges

@[simp] theorem mergeRange_nil (range : Range) : mergeRange [] range = [range] := by
  rfl

theorem mergeRange_snoc (merged : List Range) (last range : Range) :
    mergeRange (merged ++ [last]) range =
      if range.begin < last.stop then
        merged ++ [{ last with
          stop := max last.stop range.stop, isAtomic := last.isAtomic && range.isAtomic }]
      else merged ++ [last] ++ [range] := by
  simp [mergeRange]

-- What the merge keeps of the ranges `taken` so far.
structure Merged (taken merged : List Range) : Prop where
  inhabited : ∀ range ∈ merged, range.begin < range.stop
  apart : merged.Pairwise fun range later => range.stop ≤ later.begin
  begins : ∀ range ∈ merged, ∃ input ∈ taken, input.begin = range.begin
  holds : ∀ byte, (∃ input ∈ taken, input.Holds byte) ↔ ∃ range ∈ merged, range.Holds byte
  atomic : ∀ range ∈ merged, range.isAtomic = true →
    ∀ input ∈ taken, input.Overlaps range → input.isAtomic = true

theorem merged_nil : Merged [] [] := by
  constructor <;> simp

-- A range that begins inside the last one kept.
theorem Merged.extend {taken merged : List Range} {last range : Range}
    (h : Merged taken (merged ++ [last])) (hinhabited : range.begin < range.stop)
    (hlast : ∀ input ∈ taken, input.begin ≤ range.begin) (hinside : range.begin < last.stop) :
    Merged (taken ++ [range]) (merged ++ [{ last with
      stop := max last.stop range.stop, isAtomic := last.isAtomic && range.isAtomic }]) := by
  have hbegin : last.begin ≤ range.begin := by
    obtain ⟨input, hinput, hsame⟩ := h.begins last (by simp)
    have := hlast input hinput
    omega
  have hbefore : ∀ earlier ∈ merged, earlier.stop ≤ last.begin := fun earlier hearlier =>
    (List.pairwise_append.mp h.apart).2.2 earlier hearlier last (by simp)
  have hlastInhabited := h.inhabited last (by simp)
  constructor
  case inhabited =>
    intro kept hkept
    rcases List.mem_append.mp hkept with hkept | hkept
    · exact h.inhabited kept (by simp [hkept])
    · have hkept : kept = _ := List.mem_singleton.mp hkept
      subst hkept
      show last.begin < max last.stop range.stop
      omega
  case apart =>
    refine List.pairwise_append.mpr ⟨(List.pairwise_append.mp h.apart).1, by simp, ?_⟩
    intro earlier hearlier kept hkept
    have hkept : kept = _ := List.mem_singleton.mp hkept
    subst hkept
    exact hbefore earlier hearlier
  case begins =>
    intro kept hkept
    rcases List.mem_append.mp hkept with hkept | hkept
    · obtain ⟨input, hinput, hsame⟩ := h.begins kept (by simp [hkept])
      exact ⟨input, by simp [hinput], hsame⟩
    · have hkept : kept = _ := List.mem_singleton.mp hkept
      subst hkept
      obtain ⟨input, hinput, hsame⟩ := h.begins last (by simp)
      exact ⟨input, by simp [hinput], hsame⟩
  case holds =>
    intro byte
    have hsplit : (∃ input ∈ taken ++ [range], input.Holds byte) ↔
        (∃ kept ∈ merged ++ [last], kept.Holds byte) ∨ range.Holds byte := by
      rw [← h.holds byte]
      simp [or_and_right, exists_or]
    rw [hsplit]
    simp only [List.mem_append, List.mem_singleton, or_and_right, exists_or, exists_eq_left,
      or_assoc]
    apply or_congr_right
    simp only [Range.Holds]
    omega
  case atomic =>
    intro kept hkept hatomic input hinput hoverlap
    obtain ⟨byte, hbyteInput, hbyteKept⟩ := hoverlap
    rcases List.mem_append.mp hkept with hkept | hkept
    · rcases List.mem_append.mp hinput with hinput | hinput
      · exact h.atomic kept (by simp [hkept]) hatomic input hinput ⟨byte, hbyteInput, hbyteKept⟩
      · -- the new range begins past every range before the last
        have hinput : input = range := List.mem_singleton.mp hinput
        have hends := hbefore kept hkept
        simp only [Range.Holds, hinput] at hbyteInput hbyteKept
        omega
    · have hkept : kept = _ := List.mem_singleton.mp hkept
      subst hkept
      have hboth : last.isAtomic = true ∧ range.isAtomic = true := by simpa using hatomic
      rcases List.mem_append.mp hinput with hinput | hinput
      · -- a byte of an earlier input is in a range kept before, and past its begin only in the last
        obtain ⟨holder, hholder, hholds⟩ := (h.holds byte).mp ⟨input, hinput, hbyteInput⟩
        rcases List.mem_append.mp hholder with hholder | hholder
        · have hends := hbefore holder hholder
          have hfrom : last.begin ≤ byte := hbyteKept.1
          simp only [Range.Holds] at hholds
          omega
        · have hholder : holder = last := List.mem_singleton.mp hholder
          subst hholder
          exact h.atomic holder (by simp) hboth.1 input hinput ⟨byte, hbyteInput, hholds⟩
      · have hinput : input = range := List.mem_singleton.mp hinput
        rw [hinput]
        exact hboth.2

-- A range that begins past all that are kept.
theorem Merged.append {taken merged : List Range} {range : Range} (h : Merged taken merged)
    (hinhabited : range.begin < range.stop)
    (hpast : ∀ kept ∈ merged, kept.stop ≤ range.begin) :
    Merged (taken ++ [range]) (merged ++ [range]) := by
  constructor
  case inhabited =>
    intro kept hkept
    rcases List.mem_append.mp hkept with hkept | hkept
    · exact h.inhabited kept hkept
    · rwa [List.mem_singleton.mp hkept]
  case apart =>
    refine List.pairwise_append.mpr ⟨h.apart, by simp, ?_⟩
    intro kept hkept later hlater
    rw [List.mem_singleton.mp hlater]
    exact hpast kept hkept
  case begins =>
    intro kept hkept
    rcases List.mem_append.mp hkept with hkept | hkept
    · obtain ⟨input, hinput, hsame⟩ := h.begins kept hkept
      exact ⟨input, by simp [hinput], hsame⟩
    · exact ⟨range, by simp, by rw [List.mem_singleton.mp hkept]⟩
  case holds =>
    intro byte
    have := h.holds byte
    simp only [List.mem_append, List.mem_singleton, or_and_right, exists_or, exists_eq_left]
    rw [this]
  case atomic =>
    intro kept hkept hatomic input hinput hoverlap
    obtain ⟨byte, hbyteInput, hbyteKept⟩ := hoverlap
    rcases List.mem_append.mp hkept with hkept | hkept
    · rcases List.mem_append.mp hinput with hinput | hinput
      · exact h.atomic kept hkept hatomic input hinput ⟨byte, hbyteInput, hbyteKept⟩
      · have hends := hpast kept hkept
        simp only [Range.Holds, List.mem_singleton.mp hinput] at hbyteInput hbyteKept
        omega
    · rcases List.mem_append.mp hinput with hinput | hinput
      · -- a byte of an earlier input is in a range kept before, which ends before the new one
        obtain ⟨holder, hholder, hholds⟩ := (h.holds byte).mp ⟨input, hinput, hbyteInput⟩
        have hends := hpast holder hholder
        simp only [Range.Holds, List.mem_singleton.mp hkept] at hholds hbyteKept
        omega
      · rw [List.mem_singleton.mp hinput, ← List.mem_singleton.mp hkept]
        exact hatomic

theorem Merged.mergeRange {taken merged : List Range} {range : Range} (h : Merged taken merged)
    (hinhabited : range.begin < range.stop) (hlast : ∀ input ∈ taken, input.begin ≤ range.begin) :
    Merged (taken ++ [range]) (mergeRange merged range) := by
  rcases List.eq_nil_or_concat merged with hnil | ⟨earlier, last, hlastOf⟩
  · subst hnil
    exact h.append hinhabited (by simp)
  · rw [List.concat_eq_append] at hlastOf
    subst hlastOf
    rw [mergeRange_snoc]
    by_cases hinside : range.begin < last.stop
    · rw [if_pos hinside]
      exact h.extend hinhabited hlast hinside
    · rw [if_neg hinside]
      refine h.append hinhabited ?_
      intro kept hkept
      rcases List.mem_append.mp hkept with hkept | hkept
      · have hbefore := (List.pairwise_append.mp h.apart).2.2 kept hkept last (by simp)
        have hlastInhabited := h.inhabited last (by simp)
        omega
      · rw [List.mem_singleton.mp hkept]
        omega

theorem merged_separate {sorted : List Range} (hinhabited : ∀ range ∈ sorted, range.begin < range.stop)
    (hsorted : sorted.Pairwise fun lhs rhs => lhs.begin ≤ rhs.begin) :
    Merged sorted (separate sorted) := by
  induction sorted using List.reverseRecOn with
  | nil => exact merged_nil
  | append_singleton taken range ih =>
      obtain ⟨htaken, _, hlast⟩ := List.pairwise_append.mp hsorted
      have hstep := (ih (fun input hinput => hinhabited input (by simp [hinput])) htaken).mergeRange
        (hinhabited range (by simp)) (fun input hinput => hlast input hinput range (by simp))
      simpa [separate, List.foldl_append] using hstep

-- Ranges that lie apart in order are left as they are.
theorem separate_of_apart {merged : List Range}
    (hapart : merged.Pairwise fun range later => range.stop ≤ later.begin) :
    separate merged = merged := by
  induction merged using List.reverseRecOn with
  | nil => rfl
  | append_singleton earlier range ih =>
      obtain ⟨hearlier, _, hbefore⟩ := List.pairwise_append.mp hapart
      have hkept : earlier.foldl ParameterFootprint.mergeRange [] = earlier := ih hearlier
      rw [separate, List.foldl_append, hkept, List.foldl_cons, List.foldl_nil]
      rcases List.eq_nil_or_concat earlier with hnil | ⟨front, last, hlast⟩
      · rw [hnil, mergeRange_nil, List.nil_append]
      · rw [List.concat_eq_append] at hlast
        have hpast := hbefore last (by simp [hlast]) range (by simp)
        rw [hlast, mergeRange_snoc, if_neg (by omega)]

theorem mergeRange_comm (merged : List Range) {range other : Range}
    (hinhabited : range.begin < range.stop) (hother : other.begin < other.stop)
    (hsame : range.begin = other.begin) :
    mergeRange (mergeRange merged range) other = mergeRange (mergeRange merged other) range := by
  rcases List.eq_nil_or_concat merged with hnil | ⟨earlier, last, hlast⟩
  · subst hnil
    have hrange := mergeRange_snoc [] range other
    have hotherRange := mergeRange_snoc [] other range
    simp only [List.nil_append] at hrange hotherRange
    rw [mergeRange_nil, mergeRange_nil, hrange, hotherRange, if_pos (by omega), if_pos (by omega)]
    simp [hsame, max_comm, Bool.and_comm]
  · rw [List.concat_eq_append] at hlast
    subst hlast
    by_cases hinside : range.begin < last.stop
    · have hotherInside : other.begin < last.stop := by omega
      rw [mergeRange_snoc, if_pos hinside, mergeRange_snoc, if_pos (by simp; omega),
        mergeRange_snoc, if_pos hotherInside, mergeRange_snoc, if_pos (by simp; omega)]
      simp [max_right_comm, Bool.and_right_comm]
    · have hotherPast : ¬other.begin < last.stop := by omega
      rw [mergeRange_snoc, if_neg hinside, mergeRange_snoc, if_pos (by omega),
        mergeRange_snoc, if_neg hotherPast, mergeRange_snoc, if_pos (by omega)]
      simp [hsame, max_comm, Bool.and_comm]

-- Whatever order the sort leaves ranges that begin together in, the merge is the same.
theorem separate_eq_of_sorted {left right : List Range}
    (hinhabited : ∀ range ∈ left, range.begin < range.stop) (hperm : left.Perm right)
    (hleft : left.Pairwise fun lhs rhs => lhs.begin ≤ rhs.begin)
    (hright : right.Pairwise fun lhs rhs => lhs.begin ≤ rhs.begin) :
    separate left = separate right := by
  refine SortedFold.foldl_eq_of_sorted ?_ hperm hleft hright []
  intro merged range hrange other hother hsame
  exact mergeRange_comm merged (hinhabited range hrange) (hinhabited other hother) hsame

theorem foldl_span (merged : List Range) (span : Range) :
    let result := merged.foldl (fun span range => { span with
      stop := max span.stop range.stop, isAtomic := span.isAtomic && range.isAtomic }) span
    result.begin = span.begin ∧ span.stop ≤ result.stop ∧
      (∀ range ∈ merged, range.stop ≤ result.stop) ∧
      (result.isAtomic = true → span.isAtomic = true ∧ ∀ range ∈ merged, range.isAtomic = true) := by
  induction merged generalizing span with
  | nil => simp
  | cons head rest ih =>
      obtain ⟨hbegin, hstop, hrest, hatomic⟩ := ih { span with
        stop := max span.stop head.stop, isAtomic := span.isAtomic && head.isAtomic }
      rw [List.foldl_cons]
      refine ⟨hbegin, le_trans (le_max_left _ _) hstop, ?_, ?_⟩
      · intro range hrange
        rcases List.mem_cons.mp hrange with hhead | hrange
        · rw [hhead]
          exact le_trans (le_max_right _ _) hstop
        · exact hrest range hrange
      · intro h
        obtain ⟨hspan, hall⟩ := hatomic h
        have hboth : span.isAtomic = true ∧ head.isAtomic = true := by simpa using hspan
        exact ⟨hboth.1, List.forall_mem_cons.mpr ⟨hboth.2, hall⟩⟩

theorem spanOf_spec (first : Range) (merged : List Range) :
    (spanOf first merged).begin = first.begin ∧ first.stop ≤ (spanOf first merged).stop ∧
      (∀ range ∈ merged, range.stop ≤ (spanOf first merged).stop) ∧
      ((spanOf first merged).isAtomic = true → ∀ range ∈ merged, range.isAtomic = true) := by
  obtain ⟨hbegin, hstop, hall, hatomic⟩ := foldl_span merged { first with isAtomic := true }
  exact ⟨hbegin, hstop, hall, fun h => (hatomic h).2⟩

section Bound

variable {taken merged : List Range}

theorem bounded_of_length_le (hlength : merged.length ≤ kMaxRangesPerKind) :
    bounded merged = merged := by
  cases merged with
  | nil => rfl
  | cons first rest => exact if_neg (by omega)

-- Past the bound one range is left, which begins with the first and ends with the last to end.
theorem Merged.bounded_of_lt (h : Merged taken merged) (hlength : kMaxRangesPerKind < merged.length) :
    ∃ span, bounded merged = [span] ∧ span.begin < span.stop ∧
      (∀ byte, (∃ range ∈ merged, range.Holds byte) → span.Holds byte) ∧
      (span.isAtomic = true → ∀ range ∈ merged, range.isAtomic = true) := by
  cases merged with
  | nil => simp at hlength
  | cons first rest =>
      obtain ⟨hbegin, hstop, hall, hatomic⟩ := spanOf_spec first (first :: rest)
      refine ⟨spanOf first (first :: rest), if_pos hlength, ?_, ?_, hatomic⟩
      · have hfirst := h.inhabited first (by simp)
        omega
      · rintro byte ⟨range, hrange, hholds⟩
        have hends := hall range hrange
        have hfrom : first.begin ≤ range.begin := by
          rcases List.mem_cons.mp hrange with hsame | hlater
          · rw [hsame]
          · have hbefore := (List.pairwise_cons.mp h.apart).1 range hlater
            have hfirst := h.inhabited first (by simp)
            omega
        simp only [Range.Holds] at hholds ⊢
        omega

theorem Merged.bounded_inhabited (h : Merged taken merged) :
    ∀ range ∈ bounded merged, range.begin < range.stop := by
  by_cases hlength : merged.length ≤ kMaxRangesPerKind
  · rw [bounded_of_length_le hlength]
    exact h.inhabited
  · obtain ⟨span, hspan, hinhabited, _⟩ := h.bounded_of_lt (by omega)
    simpa [hspan] using hinhabited

theorem Merged.bounded_apart (h : Merged taken merged) :
    (bounded merged).Pairwise fun range later => range.stop ≤ later.begin := by
  by_cases hlength : merged.length ≤ kMaxRangesPerKind
  · rw [bounded_of_length_le hlength]
    exact h.apart
  · obtain ⟨span, hspan, _⟩ := h.bounded_of_lt (by omega)
    simp [hspan]

theorem Merged.length_bounded (h : Merged taken merged) :
    (bounded merged).length ≤ kMaxRangesPerKind := by
  by_cases hlength : merged.length ≤ kMaxRangesPerKind
  · rwa [bounded_of_length_le hlength]
  · obtain ⟨span, hspan, _⟩ := h.bounded_of_lt (by omega)
    simp [hspan, kMaxRangesPerKind]

theorem Merged.bounded_covers (h : Merged taken merged) {input : Range} (hinput : input ∈ taken)
    {byte : Int} (hbyte : input.Holds byte) : ∃ range ∈ bounded merged, range.Holds byte := by
  have hmerged := (h.holds byte).mp ⟨input, hinput, hbyte⟩
  by_cases hlength : merged.length ≤ kMaxRangesPerKind
  · rwa [bounded_of_length_le hlength]
  · obtain ⟨span, hspan, _, hcovers, _⟩ := h.bounded_of_lt (by omega)
    exact ⟨span, by simp [hspan], hcovers byte hmerged⟩

theorem Merged.bounded_atomic (h : Merged taken merged)
    (hinhabited : ∀ input ∈ taken, input.begin < input.stop) {range input : Range}
    (hrange : range ∈ bounded merged) (hatomic : range.isAtomic = true) (hinput : input ∈ taken)
    (hoverlaps : input.Overlaps range) : input.isAtomic = true := by
  by_cases hlength : merged.length ≤ kMaxRangesPerKind
  · rw [bounded_of_length_le hlength] at hrange
    exact h.atomic range hrange hatomic input hinput hoverlaps
  · obtain ⟨span, hspan, _, _, hall⟩ := h.bounded_of_lt (by omega)
    have hsame : range = span := by simpa [hspan] using hrange
    subst hsame
    -- the span stands for every range kept, so also for the one with the first byte of the input
    have hfirst : input.Holds input.begin := ⟨le_refl _, hinhabited input hinput⟩
    obtain ⟨holder, hholder, hholds⟩ := (h.holds input.begin).mp ⟨input, hinput, hfirst⟩
    exact h.atomic holder hholder (hall hatomic holder hholder) input hinput
      ⟨input.begin, hfirst, hholds⟩

end Bound

section Result

variable {ranges : List Range}

theorem merged_mergeRanges (hinhabited : ∀ range ∈ ranges, range.begin < range.stop) :
    Merged ranges (separate (sortedByBegin ranges)) := by
  have hperm := perm_sortedByBegin ranges
  have h := merged_separate (fun range hrange => hinhabited range (hperm.subset hrange))
    (pairwise_sortedByBegin ranges)
  constructor
  case inhabited => exact h.inhabited
  case apart => exact h.apart
  case begins =>
    intro range hrange
    obtain ⟨input, hinput, hsame⟩ := h.begins range hrange
    exact ⟨input, hperm.subset hinput, hsame⟩
  case holds =>
    intro byte
    rw [← h.holds byte]
    simp only [hperm.mem_iff]
  case atomic =>
    intro range hrange hatomic input hinput
    exact h.atomic range hrange hatomic input (hperm.symm.subset hinput)

theorem mergeSorted_eq (hinhabited : ∀ range ∈ ranges, range.begin < range.stop)
    {sorted : List Range} (hperm : sorted.Perm ranges)
    (hsorted : sorted.Pairwise fun lhs rhs => lhs.begin ≤ rhs.begin) :
    mergeSorted sorted = mergeRanges ranges := by
  rw [mergeRanges_eq, mergeSorted, mergeSorted]
  congr 1
  apply separate_eq_of_sorted
  · intro range hrange
    exact hinhabited range (hperm.subset hrange)
  · exact hperm.trans (perm_sortedByBegin ranges).symm
  · exact hsorted
  · exact pairwise_sortedByBegin ranges

theorem mergeRanges_of_apart (hinhabited : ∀ range ∈ ranges, range.begin < range.stop)
    (hapart : ranges.Pairwise fun range later => range.stop ≤ later.begin)
    (hlength : ranges.length ≤ kMaxRangesPerKind) : mergeRanges ranges = ranges := by
  have hsorted : ranges.Pairwise fun lhs rhs => lhs.begin ≤ rhs.begin :=
    hapart.imp_of_mem fun hrange _ hbefore => by
      have := hinhabited _ hrange
      omega
  rw [← mergeSorted_eq hinhabited (List.Perm.refl ranges) hsorted, mergeSorted,
    separate_of_apart hapart, bounded_of_length_le hlength]

theorem mergeRanges_normal_form (hinhabited : ∀ range ∈ ranges, range.begin < range.stop) :
    (mergeRanges ranges).Pairwise
        (fun range later => range.begin < later.begin ∧ ¬range.Overlaps later) ∧
      (mergeRanges ranges).length ≤ kMaxRangesPerKind ∧
      (∀ byte, (∃ input ∈ ranges, input.Holds byte) →
        ∃ range ∈ mergeRanges ranges, range.Holds byte) ∧
      ((separate (sortedByBegin ranges)).length ≤ kMaxRangesPerKind →
        ∀ byte, (∃ range ∈ mergeRanges ranges, range.Holds byte) →
          ∃ input ∈ ranges, input.Holds byte) ∧
      (∀ range ∈ mergeRanges ranges, range.isAtomic = true →
        ∀ input ∈ ranges, input.Overlaps range → input.isAtomic = true) ∧
      (∀ sorted, sorted.Perm ranges →
        sorted.Pairwise (fun lhs rhs => lhs.begin ≤ rhs.begin) →
          mergeSorted sorted = mergeRanges ranges) ∧
      (∀ others, others.Perm ranges → mergeRanges others = mergeRanges ranges) ∧
      mergeRanges (mergeRanges ranges) = mergeRanges ranges := by
  have h := merged_mergeRanges hinhabited
  have hresult : mergeRanges ranges = bounded (separate (sortedByBegin ranges)) :=
    mergeRanges_eq ranges
  have hkept : ∀ range ∈ mergeRanges ranges, range.begin < range.stop := by
    rw [hresult]
    exact h.bounded_inhabited
  have hapart : (mergeRanges ranges).Pairwise fun range later => range.stop ≤ later.begin := by
    rw [hresult]
    exact h.bounded_apart
  have hlength : (mergeRanges ranges).length ≤ kMaxRangesPerKind := by
    rw [hresult]
    exact h.length_bounded
  refine ⟨?_, hlength, ?_, ?_, ?_, fun sorted => mergeSorted_eq hinhabited, ?_, ?_⟩
  · apply hapart.imp_of_mem
    intro range later hrange _ hbefore
    have := hkept range hrange
    refine ⟨by omega, ?_⟩
    rintro ⟨byte, hbyte, hlater⟩
    simp only [Range.Holds] at hbyte hlater
    omega
  · rintro byte ⟨input, hinput, hbyte⟩
    rw [hresult]
    exact h.bounded_covers hinput hbyte
  · intro hfew byte
    rw [hresult, bounded_of_length_le hfew]
    exact (h.holds byte).mpr
  · rw [hresult]
    intro range hrange hatomic input hinput hoverlaps
    exact h.bounded_atomic hinhabited hrange hatomic hinput hoverlaps
  · intro others hperm
    rw [mergeRanges_eq others]
    exact mergeSorted_eq hinhabited ((perm_sortedByBegin others).trans hperm)
      (pairwise_sortedByBegin others)
  · exact mergeRanges_of_apart hkept hapart hlength

end Result

-- Nested, touching and tied ranges.
theorem mergeRanges_normal_form_mixed :
    mergeRanges [⟨4, 8, true⟩, ⟨0, 4, true⟩, ⟨0, 2, false⟩, ⟨5, 6, true⟩] =
      [⟨0, 4, false⟩, ⟨4, 8, true⟩] ∧
    mergeRanges [⟨0, 4, false⟩, ⟨4, 8, true⟩] = [⟨0, 4, false⟩, ⟨4, 8, true⟩] := by
  have hmixed : mergeRanges [⟨4, 8, true⟩, ⟨0, 4, true⟩, ⟨0, 2, false⟩, ⟨5, 6, true⟩] =
      [⟨0, 4, false⟩, ⟨4, 8, true⟩] := by
    decide
  have hagain := (@mergeRanges_normal_form
    [⟨4, 8, true⟩, ⟨0, 4, true⟩, ⟨0, 2, false⟩, ⟨5, 6, true⟩] (by decide)).2.2.2.2.2.2.2
  rw [hmixed] at hagain
  exact ⟨hmixed, hagain⟩

end ConcurrencyAnalyzer.SharedAccess.ParameterFootprint
