import ConcurrencyAnalyzer.ThreadCompletion.SlotAgreement

namespace ConcurrencyAnalyzer.ThreadCompletion.Slots

section Overflow

theorem tdiv_between {first second : Int} (h : 0 < second) :
    (first < 0 → first ≤ first.tdiv second ∧ first.tdiv second ≤ 0) ∧
      (0 ≤ first → 0 ≤ first.tdiv second ∧ first.tdiv second ≤ first) := by
  constructor
  · intro hneg
    have hflip : first.tdiv second = -((-first).tdiv second) := by
      rw [Int.neg_tdiv, Int.neg_neg]
    have hnonneg := Int.tdiv_nonneg (show 0 ≤ -first by omega) (Int.le_of_lt h)
    have hle := @Int.tdiv_le_self (-first) second (by omega)
    omega
  · intro hpos
    exact ⟨Int.tdiv_nonneg hpos (Int.le_of_lt h), Int.tdiv_le_self _ hpos⟩

-- A division by what is positive does not overflow.
theorem divide_of_pos {first second : Int64} (h : 0 < second.number) :
    ∃ whole rest, quotient first second = some whole ∧ remainder first second = some rest ∧
      first.number = second.number * whole.number + rest.number := by
  obtain ⟨hlow, hhigh⟩ := first.fits
  obtain ⟨-, hsecond⟩ := second.fits
  obtain ⟨hbelow, habove⟩ := @tdiv_between first.number _ h
  have hwhole : FitsInt64 (first.number.tdiv second.number) := by
    unfold FitsInt64
    by_cases hneg : first.number < 0
    · have hbounds := hbelow hneg
      omega
    · have hbounds := habove (by omega)
      omega
  have hrest : FitsInt64 (first.number.tmod second.number) := by
    unfold FitsInt64
    have hlt := Int.tmod_lt_of_pos first.number h
    have hflip := Int.tmod_lt_of_pos (-first.number) h
    rw [Int.neg_tmod] at hflip
    omega
  have hquotient : quotient first second = some ⟨_, hwhole⟩ := by
    rw [quotient, if_neg (by omega), checked_of_fits hwhole]
  refine ⟨⟨_, hwhole⟩, ⟨_, hrest⟩, hquotient, ?_, ?_⟩
  · rw [remainder, hquotient]
    exact checked_of_fits hrest
  · exact (Int.mul_tdiv_add_tmod first.number second.number).symm

end Overflow

section Answers

variable {Value : Type} [DecidableEq Value] {typeOf : Value → IntegerType}

omit [DecidableEq Value] in
-- A range of known bounds that is not empty spans from its first slot to its last one.
theorem knownSpan_cases (range : SlotRange Value) :
    ∃ span, knownSpan range = some span ∧ ∀ first last, span = some (first, last) →
      ∃ begin finish, range.begin.index = some begin ∧ range.finish.index = some finish ∧
        first.number = range.origin.number + range.stride.number * begin.number ∧
        last.number = range.origin.number + range.stride.number * (finish.number - 1) := by
  unfold knownSpan
  split
  · rename_i begin finish hbegin hfinish
    by_cases hempty : finish.number ≤ begin.number
    · exact ⟨none, if_pos hempty, by simp⟩
    · rw [if_neg hempty]
      obtain ⟨hlow, -⟩ := begin.fits
      obtain ⟨-, hhigh⟩ := finish.fits
      have hfits : FitsInt64 (finish.number - 1) := by
        unfold FitsInt64
        omega
      refine ⟨_, by rw [checked_of_fits hfits]; rfl, fun first last hspan => ?_⟩
      obtain ⟨begins, hbegins, hspan⟩ := Option.bind_eq_some_iff.mp hspan
      obtain ⟨lasts, hlasts, hspan⟩ := Option.map_eq_some_iff.mp hspan
      obtain ⟨rfl, rfl⟩ : begins = first ∧ lasts = last := by simpa using hspan
      unfold checkedMulAdd at hbegins hlasts
      obtain ⟨product, hproduct, hsum⟩ := Option.bind_eq_some_iff.mp hbegins
      obtain ⟨other, hother, htotal⟩ := Option.bind_eq_some_iff.mp hlasts
      refine ⟨begin, finish, hbegin, hfinish, ?_, ?_⟩
      · rw [number_of_checked hsum, number_of_checked hproduct]
        exact Int.add_comm _ _
      · rw [number_of_checked htotal, number_of_checked hother]
        exact Int.add_comm _ _
  · exact ⟨none, rfl, by simp⟩

theorem covers_ne_none (visited filled : SlotRange Value) : covers visited filled ≠ none := by
  unfold covers
  by_cases hsingle : filled.stride.number = 0
  · rw [if_pos hsingle]
    unfold coversSlot
    by_cases hgrid : visited.array ≠ filled.array ∨ visited.stride.number ≤ 0
    · simp [if_pos hgrid]
    · rw [if_neg hgrid]
      cases hshift : checkedSub filled.origin visited.origin with
      | none => simp
      | some shift =>
          obtain ⟨whole, rest, hwhole, hrest, -⟩ :=
            @divide_of_pos shift visited.stride (by omega)
          simp only [hrest, hwhole, Option.bind_some]
          split
          · simp
          · split <;> simp
  · simp [if_neg hsingle]

theorem disjoint_ne_none (first second : SlotRange Value) : disjoint first second ≠ none := by
  obtain ⟨a, ha, -⟩ := knownSpan_cases first
  obtain ⟨b, hb, -⟩ := knownSpan_cases second
  unfold disjoint
  rw [ha, hb]
  simp only [Option.bind_some]
  split
  · simp
  · split
    · simp
    · rename_i hgrid
      cases hshift : checkedSub first.origin second.origin with
      | none => simp
      | some shift =>
          obtain ⟨whole, rest, -, hrest, -⟩ := @divide_of_pos shift first.stride (by omega)
          simp [hrest]

omit [DecidableEq Value] in
-- A slot of a range of known bounds is between the first and the last one.
theorem slot_in_span {written : WrittenRange typeOf} {first last : Int64} {slot : Value × Int}
    (hspan : knownSpan written.range = some (some (first, last))) (values : Values typeOf)
    (hslot : slot ∈ written.slots values) :
    slot.1 = written.array ∧ first.number ≤ slot.2 ∧ slot.2 ≤ last.number := by
  obtain ⟨span, hknown, hends⟩ := knownSpan_cases written.range
  rw [hspan] at hknown
  obtain ⟨begin, finish, hbegin, hfinish, hfirst, hlast⟩ :=
    hends first last (Option.some.inj hknown).symm
  obtain ⟨index, hlow, hhigh, rfl⟩ := hslot
  unfold WrittenRange.beginsAt at hlow
  unfold WrittenRange.finishesAt at hhigh
  rw [reading_of_index hbegin] at hlow
  rw [reading_of_index hfinish] at hhigh
  have hstride := written.strideNonneg
  refine ⟨rfl, ?_, ?_⟩
  · rw [hfirst]
    exact Int.add_le_add_left (Int.mul_le_mul_of_nonneg_left hlow hstride) _
  · rw [hlast]
    exact Int.add_le_add_left (Int.mul_le_mul_of_nonneg_left (by omega) hstride) _

theorem disjoint_sound {first second : WrittenRange typeOf}
    (h : disjoint first.range second.range = some true) (values : Values typeOf)
    (slot : Value × Int) : ¬(slot ∈ first.slots values ∧ slot ∈ second.slots values) := by
  rintro ⟨hfirst, hsecond⟩
  obtain ⟨a, ha, -⟩ := knownSpan_cases first.range
  obtain ⟨b, hb, -⟩ := knownSpan_cases second.range
  -- Every answer that two ranges are disjoint has their spans apart.
  have hapart : spansApart a b = true := by
    unfold disjoint at h
    rw [ha, hb] at h
    simp only [Option.bind_some] at h
    split at h
    · simp only [Option.some.injEq, Bool.and_eq_true] at h
      exact h.2
    · split at h
      · simp at h
      · cases hshift : checkedSub first.range.origin second.range.origin with
        | none => simp [hshift] at h
        | some shift =>
            rw [hshift] at h
            obtain ⟨rest, -, hrest⟩ := Option.map_eq_some_iff.mp h
            rw [Bool.and_eq_true] at hrest
            exact hrest.2
  unfold spansApart at hapart
  split at hapart
  · rename_i a b
    obtain ⟨-, hlow, hhigh⟩ := slot_in_span ha values hfirst
    obtain ⟨-, hlow', hhigh'⟩ := slot_in_span hb values hsecond
    simp only [Bool.or_eq_true, decide_eq_true_eq] at hapart
    omega
  · simp at hapart

-- A slot on the grid of a loop of known bounds is one of the loop's.
theorem coversSlot_sound {visited filled : WrittenRange typeOf}
    (hsingle : filled.stride.number = 0)
    (h : coversSlot visited.range filled.range = some true) (values : Values typeOf) :
    filled.slots values ⊆ visited.slots values := by
  rintro slot ⟨index, -, -, rfl⟩
  unfold coversSlot at h
  by_cases hgrid : visited.range.array ≠ filled.range.array ∨ visited.range.stride.number ≤ 0
  · simp [if_pos hgrid] at h
  · rw [if_neg hgrid] at h
    push Not at hgrid
    obtain ⟨harray, hstride⟩ := hgrid
    cases hshift : checkedSub filled.range.origin visited.range.origin with
    | none => simp [hshift] at h
    | some shift =>
        obtain ⟨whole, rest, hwhole, hrest, hdivided⟩ := @divide_of_pos shift _ hstride
        rw [hshift] at h
        simp only [hrest, hwhole, Option.bind_some] at h
        have hshifted : shift.number = filled.origin.number - visited.origin.number :=
          number_of_checked hshift
        by_cases hzero : rest.number ≠ 0
        · simp [if_pos hzero] at h
        · rw [if_neg hzero] at h
          split at h
          · rename_i begin finish hbegin hfinish
            simp only [Option.map_some, Option.some.injEq, Bool.and_eq_true,
              decide_eq_true_eq] at h
            refine ⟨whole.number, ?_, ?_, ?_⟩
            · rw [WrittenRange.beginsAt, reading_of_index hbegin]
              exact h.1
            · rw [WrittenRange.finishesAt, reading_of_index hfinish]
              exact h.2
            · have hsame : visited.array = filled.array := harray
              have hoffset : visited.origin.number + visited.stride.number * whole.number =
                  filled.origin.number := by
                have hscaled : shift.number = visited.stride.number * whole.number + rest.number :=
                  hdivided
                omega
              rw [hsingle, Int.zero_mul, Int.add_zero, hsame, hoffset]
          · simp at h

-- What two loops have in common that one is said to cover the other.
theorem covers_loop {visited filled : WrittenRange typeOf} (hloop : filled.stride.number ≠ 0)
    (h : covers visited.range filled.range = some true) :
    visited.array = filled.array ∧ visited.origin = filled.origin ∧
      visited.stride = filled.stride ∧
      atMost visited.begin.bound filled.begin.bound = true ∧
      atMost filled.finish.bound visited.finish.bound = true := by
  unfold covers at h
  rw [if_neg (show ¬filled.range.stride.number = 0 from hloop)] at h
  simp only [Option.some.injEq, Bool.and_eq_true, decide_eq_true_eq] at h
  obtain ⟨⟨⟨⟨⟨harray, horigin⟩, hstride⟩, -⟩, hbegin⟩, hfinish⟩ := h
  exact ⟨harray, horigin, hstride, hbegin, hfinish⟩

omit [DecidableEq Value] in
-- Loops of one grid fill no slot the other misses where they run over indices of the other.
theorem slots_subset_iff {visited filled : WrittenRange typeOf}
    (harray : visited.array = filled.array) (horigin : visited.origin = filled.origin)
    (hstride : visited.stride = filled.stride) (hloop : filled.stride.number ≠ 0)
    (values : Values typeOf) :
    filled.slots values ⊆ visited.slots values ↔
      (filled.beginsAt values < filled.finishesAt values →
        visited.beginsAt values ≤ filled.beginsAt values ∧
          filled.finishesAt values ≤ visited.finishesAt values) := by
  have hmem : ∀ index, (filled.array, filled.origin.number + filled.stride.number * index) ∈
      visited.slots values ↔
        visited.beginsAt values ≤ index ∧ index < visited.finishesAt values := by
    intro index
    constructor
    · rintro ⟨other, hlow, hhigh, hslot⟩
      rw [harray, horigin, hstride] at hslot
      obtain ⟨-, hoffset⟩ := Prod.mk.inj hslot
      have hscaled : filled.stride.number * index = filled.stride.number * other := by omega
      obtain rfl : index = other := Int.eq_of_mul_eq_mul_left hloop hscaled
      exact ⟨hlow, hhigh⟩
    · rintro ⟨hlow, hhigh⟩
      exact ⟨index, hlow, hhigh, by rw [harray, horigin, hstride]⟩
  constructor
  · intro hsubset hruns
    have hfirst := (hmem (filled.beginsAt values)).mp
      (hsubset ⟨_, Int.le_refl _, hruns, rfl⟩)
    have hlast := (hmem (filled.finishesAt values - 1)).mp
      (hsubset ⟨_, by omega, by omega, rfl⟩)
    omega
  · rintro hinside slot ⟨index, hlow, hhigh, rfl⟩
    obtain ⟨hbegin, hfinish⟩ := hinside (by omega)
    exact (hmem index).mpr ⟨by omega, by omega⟩

end Answers

section Meaning

variable {Value : Type} [DecidableEq Value] {typeOf : Value → IntegerType}

-- Under all values, what is covered is visited, what is disjoint shares no slot, and nothing
-- overflows.
structure MeansWhatItSays (first second : WrittenRange typeOf) : Prop where
  covered : covers first.range second.range = some true →
    ∀ values, second.slots values ⊆ first.slots values
  apart : disjoint first.range second.range = some true →
    ∀ values slot, ¬(slot ∈ first.slots values ∧ slot ∈ second.slots values)
  computed : covers first.range second.range ≠ none ∧ disjoint first.range second.range ≠ none

theorem slot_ranges_mean_iff (first second : WrittenRange typeOf) :
    MeansWhatItSays first second ↔
      (covers first.range second.range = some true → second.stride.number ≠ 0 →
        BeginsAgree first second ∧ FinishesAgree first second) := by
  constructor
  · intro h hcovers hloop
    obtain ⟨harray, horigin, hstride, hbegin, hfinish⟩ := covers_loop hloop hcovers
    have hsubset values := (slots_subset_iff harray horigin hstride hloop values).mp
      (h.covered hcovers values)
    constructor
    · by_contra hdisagree
      obtain ⟨values, hruns, hmissed⟩ := exists_begin_missed hbegin hdisagree
      have hinside := hsubset values hruns
      omega
    · by_contra hdisagree
      obtain ⟨values, hruns, hmissed⟩ := exists_finish_missed hfinish hdisagree
      have hinside := hsubset values hruns
      omega
  · intro h
    refine ⟨fun hcovers values => ?_,
      fun hdisjoint values slot => disjoint_sound hdisjoint values slot, covers_ne_none _ _,
      disjoint_ne_none _ _⟩
    by_cases hsingle : second.stride.number = 0
    · unfold covers at hcovers
      rw [if_pos (show second.range.stride.number = 0 from hsingle)] at hcovers
      exact coversSlot_sound hsingle hcovers values
    · obtain ⟨harray, horigin, hstride, hbegin, hfinish⟩ := covers_loop hsingle hcovers
      obtain ⟨hbegins, hfinishes⟩ := h hcovers hsingle
      rw [slots_subset_iff harray horigin hstride hsingle]
      intro hruns
      exact ⟨beginsAt_le hbegin hbegins values hruns,
        finishesAt_le hfinish hfinishes values hruns⟩

end Meaning

section Extensions

-- `n` has 32 bits, and so does whatever else there is.
def ints (_ : String) : IntegerType := ⟨32, by decide⟩

def longsUpTo (bound : Written ints 64) : WrittenRange ints where
  array := "threads"
  origin := ⟨0, by decide⟩
  stride := ⟨8, by decide⟩
  strideNonneg := by decide
  bits := 64
  begin := .written (.constant 0)
  finish := .written bound
  predicate := .ICMP_SLT
  countSigned := true

-- `for (long i = 0; i < (unsigned)n; ++i) pthread_create(&threads[i], ...)`
def spawnLoop : WrittenRange ints :=
  longsUpTo (.zext 64 (by decide) (.copied (@Written.value _ ints "n")))

-- `for (long i = 0; i < n; ++i) pthread_join(threads[i], ...)`
def joinLoop : WrittenRange ints :=
  longsUpTo (.sext 64 (by decide) (.copied (@Written.value _ ints "n")))

-- With -1 for `n`, the one loop has 2^32 - 1 rounds, and the other one none.
theorem unsigned_bound_not_covered :
    covers joinLoop.range spawnLoop.range = some true ∧
      ∃ values, ("threads", 0) ∈ spawnLoop.slots values ∧
        ("threads", 0) ∉ joinLoop.slots values := by
  refine ⟨by decide, fun _ => BitVec.ofInt 32 (-1), ⟨0, by decide, by decide, rfl⟩, ?_⟩
  rintro ⟨index, hlow, hhigh, -⟩
  have hbegin : joinLoop.beginsAt (fun _ => BitVec.ofInt 32 (-1)) = 0 := by decide
  have hfinish : joinLoop.finishesAt (fun _ => BitVec.ofInt 32 (-1)) = -1 := by decide
  omega

end Extensions

end ConcurrencyAnalyzer.ThreadCompletion.Slots
