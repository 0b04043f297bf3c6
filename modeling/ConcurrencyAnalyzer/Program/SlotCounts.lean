import ConcurrencyAnalyzer.Program.SlotLoops
import Mathlib.Data.List.Destutter

namespace ConcurrencyAnalyzer.Program

section Repeats

variable [DecidableEq α] {first last next : α} {values : List α}

theorem destutter'_repeat (first last : α) (values : List α) :
    (values ++ [last, last]).destutter' (· ≠ ·) first = (values ++ [last]).destutter' (· ≠ ·) first := by
  induction values generalizing first with
  | nil =>
      by_cases h : first = last <;> simp [List.destutter', h]
  | cons value values ih =>
      simp only [List.cons_append, List.destutter', ih]

theorem destutter'_other (first : α) (values : List α) (hne : last ≠ next) :
    (values ++ [last, next]).destutter' (· ≠ ·) first =
      (values ++ [last]).destutter' (· ≠ ·) first ++ [next] := by
  induction values generalizing first with
  | nil =>
      by_cases h : first = last
      · subst h
        simp [List.destutter', hne]
      · simp [List.destutter', h, hne]
  | cons value values ih =>
      simp only [List.cons_append, List.destutter', ih]
      split <;> rfl

-- A value that comes again is no new one.
theorem destutter_repeat (values : List α) (last : α) :
    (values ++ [last, last]).destutter (· ≠ ·) = (values ++ [last]).destutter (· ≠ ·) := by
  cases values with
  | nil => simp
  | cons first values =>
      rw [List.cons_append, List.destutter_cons', destutter'_repeat]
      rfl

-- One that differs from the last is.
theorem destutter_other (values : List α) (hne : last ≠ next) :
    (values ++ [last, next]).destutter (· ≠ ·) = (values ++ [last]).destutter (· ≠ ·) ++ [next] := by
  cases values with
  | nil => simp [hne]
  | cons first values =>
      rw [List.cons_append, List.destutter_cons', destutter'_other _ _ hne]
      rfl

end Repeats

-- The number that a comparison takes a value for.
def Predicate.reading (width value : Nat) : Predicate → Int
  | .ICMP_SLT => signedValue width value
  | _ => unsignedValue width value

section Readings

variable {predicate : Predicate} {width counter bound : Nat}

-- Only the bits that are compared tell.
theorem Predicate.reading_congr {first second : Nat}
    (h : first % 2 ^ width = second % 2 ^ width) :
    predicate.reading width first = predicate.reading width second := by
  have hsigned : signedValue width first = signedValue width second := by
    unfold signedValue
    rw [← Int.emod_bmod (x := first), ← Int.emod_bmod (x := second)]
    rw [← Int.natCast_mod, ← Int.natCast_mod, h]
  have hunsigned : unsignedValue width first = unsignedValue width second := h
  cases predicate <;> first | exact hsigned | exact congrArg Int.ofNat hunsigned

theorem Predicate.holds_iff_reading (hpredicate : predicate = .ICMP_SLT ∨ predicate = .ICMP_ULT) :
    predicate.holds width counter bound = true ↔
      predicate.reading width counter < predicate.reading width bound := by
  rcases hpredicate with rfl | rfl
  · simp only [Predicate.holds, Predicate.compares, Predicate.reading, BitVec.slt, signedValue,
      decide_eq_true_eq]
    rw [BitVec.toInt_ofNat', BitVec.toInt_ofNat']
  · simp only [Predicate.holds, Predicate.compares, Predicate.reading, BitVec.ult, unsignedValue,
      BitVec.toNat_ofNat, decide_eq_true_eq, Int.ofNat_lt]

theorem Predicate.holds_ne :
    Predicate.ICMP_NE.holds width counter bound = true ↔ counter % 2 ^ width ≠ bound % 2 ^ width := by
  simp only [Predicate.holds, Predicate.compares, ne_eq, ← BitVec.toNat_inj, BitVec.toNat_ofNat,
    decide_eq_true_eq]

-- Below a bound a counter can be raised by one.
theorem Predicate.reading_raised (hpredicate : predicate = .ICMP_SLT ∨ predicate = .ICMP_ULT)
    (hholds : predicate.holds width counter bound = true) :
    predicate.reading width ((counter + 1) % 2 ^ width) = predicate.reading width counter + 1 := by
  have hlt := (Predicate.holds_iff_reading hpredicate).mp hholds
  have hpositive : 0 < 2 ^ width := Nat.two_pow_pos width
  rcases hpredicate with rfl | rfl
  · unfold Predicate.reading signedValue at *
    have hlow := Int.le_bmod (x := counter) hpositive
    have hhigh := Int.bmod_lt (x := bound) hpositive
    dsimp only at *
    rw [Int.natCast_mod, Int.emod_bmod, Int.natCast_add, ← Int.bmod_add_bmod]
    exact Int.bmod_eq_of_le (by omega) (by omega)
  · unfold Predicate.reading unsignedValue at *
    dsimp only at *
    have hbound := Nat.mod_lt bound hpositive
    have hraised : (counter + 1) % 2 ^ width = counter % 2 ^ width + 1 := by
      rw [← Nat.mod_add_mod]
      exact Nat.mod_eq_of_lt (by omega)
    rw [Nat.mod_mod, hraised]
    push_cast
    rfl

end Readings

namespace SlotLoop

variable {function : ScalarFunction} {loop : SlotLoop function} {start counter bound : Nat}
  {tests : List (Nat × Nat)}

section Counters

variable (reading : Nat → Int)
  (hreading : ∀ first second, first % 2 ^ loop.width = second % 2 ^ loop.width →
    reading first = reading second)
  (hholds : ∀ counter bound, loop.holds counter bound = true ↔ reading counter < reading bound)
  (hnext : ∀ counter bound, loop.holds counter bound = true →
    reading (loop.next counter) = reading counter + 1)
  (halways : loop.always = true)

include hreading hholds hnext halways

-- What is raised each round counts the rounds.
theorem Follows.counts (h : loop.Follows start tests counter)
    (hbound : ∀ test ∈ tests, reading test.2 = reading bound) :
    tests.map (fun test => reading test.1) =
        (List.range tests.length).map (fun round : Nat => reading start + round) ∧
      reading counter = reading start + tests.length ∧
      (tests ≠ [] → reading counter ≤ reading bound) := by
  induction h with
  | first hstart => exact ⟨rfl, by simp [hreading _ _ hstart], fun hnone => absurd rfl hnone⟩
  | @next tests counter tested after _ hheld hmoves ih =>
      obtain ⟨hreads, hcounter, _⟩ := ih fun test htest => hbound test (List.mem_append_left _ htest)
      have htested : reading tested = reading bound :=
        hbound (counter, tested) (List.mem_append_right _ (by simp))
      have hafter : after = loop.next counter := by
        rcases hmoves with hmoved | ⟨hnot, _⟩
        · exact hmoved
        · rw [halways] at hnot
          cases hnot
      have hraised := hnext counter tested hheld
      have hlt := (hholds counter tested).mp hheld
      rw [hafter, hraised]
      refine ⟨?_, ?_, fun _ => ?_⟩
      · rw [List.map_append, hreads, List.length_append, List.length_singleton, List.range_succ,
          List.map_append, List.map_singleton, List.map_singleton, hcounter]
      · rw [hcounter, List.length_append, List.length_singleton]
        omega
      · rw [← htested]
        omega

-- A loop left by its test has counted from its start to its bound.
theorem Follows.counts_to (h : loop.Follows start tests counter) {last : Nat}
    (hlast : reading last = reading bound) (hbound : ∀ test ∈ tests, reading test.2 = reading bound)
    (hfails : loop.holds counter last = false) :
    (tests ++ [(counter, last)]).map (fun test => reading test.1) =
      (List.range ((reading bound - reading start).toNat + 1)).map
        (fun round : Nat => reading start + round) := by
  obtain ⟨hreads, hcounter, hle⟩ := h.counts reading hreading hholds hnext halways hbound
  have hlength : (reading bound - reading start).toNat = tests.length := by
    have hnot : ¬reading counter < reading last := by
      rw [← hholds, hfails]
      exact Bool.false_ne_true
    by_cases hnone : tests = []
    · rw [hnone, List.length_nil] at hcounter ⊢
      omega
    · have hat := hle hnone
      omega
  rw [hlength, List.map_append, hreads, List.map_singleton, hcounter, List.range_succ, List.map_append,
    List.map_singleton]

end Counters

-- Where a cursor is after so many steps of some bytes.
def position (start stride : Nat) (steps : Nat) : Nat := (start + steps * stride) % 2 ^ 64

theorem position_succ (start stride steps : Nat) :
    (position start stride steps + stride) % 2 ^ 64 = position start stride (steps + 1) := by
  unfold position
  rw [Nat.mod_add_mod, Nat.add_mul, Nat.one_mul, Nat.add_assoc]

theorem position_inj (start : Nat) {stride count : Nat} (hspan : count * stride < 2 ^ 64) (hstride : 0 < stride)
    {first second : Nat} (hfirst : first ≤ second) (hsecond : second ≤ count)
    (h : position start stride first = position start stride second) : first = second := by
  unfold position at h
  have hle := Nat.mul_le_mul_right stride hfirst
  have hlt := Nat.mul_le_mul_right stride hsecond
  refine Nat.eq_of_mul_eq_mul_right hstride ?_
  omega

section Cursors

variable {stride count : Nat} (hwidth : loop.width = 64)
  (hholds : ∀ counter bound, loop.holds counter bound = true ↔ counter % 2 ^ 64 ≠ bound % 2 ^ 64)
  (hnext : ∀ counter, loop.next counter = (counter + stride) % 2 ^ 64)
  (hspan : count * stride < 2 ^ 64) (hstride : 0 < stride)

include hwidth hholds hnext hspan hstride

-- What moves on by one element at most each round passes each position in turn.
theorem Follows.visits (h : loop.Follows start tests counter)
    (hbound : ∀ test ∈ tests, test.2 % 2 ^ 64 = position start stride count) :
    ∃ steps ≤ count, counter % 2 ^ 64 = position start stride steps ∧
      (tests.map (fun test : Nat × Nat => test.1 % 2 ^ 64) ++ [counter % 2 ^ 64]).destutter (· ≠ ·) =
        (List.range (steps + 1)).map (position start stride) := by
  induction h with
  | @first counter hstart =>
      have hfirst : counter % 2 ^ 64 = position start stride 0 := by
        rw [hwidth] at hstart
        unfold position
        rw [Nat.zero_mul, Nat.add_zero, hstart]
      refine ⟨0, Nat.zero_le count, hfirst, ?_⟩
      rw [List.map_nil, List.nil_append, List.destutter_singleton, List.range_one, List.map_singleton,
        ← hfirst]
  | @next tests counter tested after _ hheld hmoves ih =>
      obtain ⟨steps, hsteps, hcounter, hvisited⟩ :=
        ih fun test htest => hbound test (List.mem_append_left _ htest)
      have htested : tested % 2 ^ 64 = position start stride count :=
        hbound (counter, tested) (List.mem_append_right _ (by simp))
      have hbefore : steps < count := by
        refine lt_of_le_of_ne hsteps fun hend => ?_
        rw [hholds, htested, hcounter, hend] at hheld
        exact hheld rfl
      rw [List.map_append, List.map_singleton, List.append_assoc, List.singleton_append]
      rcases hmoves with hmoved | ⟨_, hsame⟩
      · have hafter : after % 2 ^ 64 = position start stride (steps + 1) := by
          rw [hmoved, hnext, Nat.mod_mod, ← Nat.mod_add_mod, hcounter, position_succ]
        have hne : counter % 2 ^ 64 ≠ after % 2 ^ 64 := by
          rw [hcounter, hafter]
          intro heq
          have hsame := position_inj start hspan hstride (Nat.le_succ steps) hbefore heq
          omega
        refine ⟨steps + 1, hbefore, hafter, ?_⟩
        rw [destutter_other _ hne, hvisited, List.range_succ (n := steps + 1), List.map_append,
          List.map_singleton, hafter]
      · refine ⟨steps, hsteps, hsame ▸ hcounter, ?_⟩
        rw [hsame, destutter_repeat, hvisited]

-- A loop left by its test has passed them all.
theorem Follows.visits_all (h : loop.Follows start tests counter)
    (hbound : ∀ test ∈ tests, test.2 % 2 ^ 64 = position start stride count) {last : Nat}
    (hlast : last % 2 ^ 64 = position start stride count) (hfails : loop.holds counter last = false) :
    ((tests ++ [(counter, last)]).map fun test => test.1 % 2 ^ 64).destutter (· ≠ ·) =
      (List.range (count + 1)).map (position start stride) := by
  obtain ⟨steps, hsteps, hcounter, hvisited⟩ := h.visits hwidth hholds hnext hspan hstride hbound
  have hend : steps = count := by
    refine position_inj start hspan hstride hsteps (le_refl count) ?_
    have hnot : ¬counter % 2 ^ 64 ≠ last % 2 ^ 64 := by
      rw [← hholds, hfails]
      exact Bool.false_ne_true
    rw [not_not, hcounter, hlast] at hnot
    exact hnot
  rw [List.map_append, List.map_singleton, hvisited, hend]

end Cursors

end SlotLoop

end ConcurrencyAnalyzer.Program
