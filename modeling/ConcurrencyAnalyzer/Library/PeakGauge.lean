import Mathlib.Data.List.Count
import Mathlib.Order.Lattice.Nat
import Mathlib.Order.MinMax
import Mathlib.Algebra.GroupWithZero.Nat

namespace ConcurrencyAnalyzer.Library.PeakGauge

-- A counter of the parties inside, and a register of the most it ever counted.
structure Gauge where
  live : Nat := 0
  peak : Nat := 0
  deriving DecidableEq

-- Where a party is in its visit.
inductive Visit
  | Away
  | Counted (now : Nat)
  | Raising (now seen : Nat)
  | Inside
  deriving DecidableEq

-- The counts a party has not yet left in the register.
def Visit.announced : Visit → Nat
  | .Counted now | .Raising now _ => now
  | .Away | .Inside => 0

def Visit.isCounted (visit : Visit) : Bool :=
  visit ≠ .Away

-- One atomic operation of one party. A weak exchange may also fail where nobody wrote, and then
-- nothing changes at all.
inductive Move : Gauge → Visit → Gauge → Visit → Prop
  | count {gauge} :
      Move gauge .Away { gauge with live := gauge.live + 1 } (.Counted (gauge.live + 1))
  | read {gauge now} : Move gauge (.Counted now) gauge (.Raising now gauge.peak)
  | exchange {gauge now} :
      gauge.peak < now → Move gauge (.Raising now gauge.peak) { gauge with peak := now } .Inside
  | lose {gauge now seen} :
      seen < now → Move gauge (.Raising now seen) gauge (.Raising now gauge.peak)
  | reach {gauge now seen} : now ≤ seen → Move gauge (.Raising now seen) gauge .Inside
  | leave {gauge} : Move gauge .Inside { gauge with live := gauge.live - 1 } .Away

-- Between the most parties ever inside and the register stand the parties still raising it.
structure Accurate (most : Nat) (gauge : Gauge) (visits : List Visit) : Prop where
  live : gauge.live = visits.countP Visit.isCounted
  live_le : gauge.live ≤ most
  peak_le : gauge.peak ≤ most
  seen_le : ∀ now seen, .Raising now seen ∈ visits → seen ≤ gauge.peak
  announced_le : ∀ visit ∈ visits, visit.announced ≤ most
  reached : most ≤ gauge.peak ∨ ∃ visit ∈ visits, most ≤ visit.announced

section Moves

variable {most : Nat} {gauge next : Gauge} {visits front back : List Visit} {visit after : Visit}

-- Once nobody is raising the register, it holds the most there ever were.
theorem Accurate.peak_eq (h : Accurate most gauge visits)
    (hsettled : ∀ visit ∈ visits, visit.announced = 0) : gauge.peak = most := by
  refine le_antisymm h.peak_le ?_
  rcases h.reached with hreached | ⟨visit, hmem, hreached⟩
  · exact hreached
  · rw [hsettled visit hmem] at hreached
    omega

theorem Accurate.start (visits : List Visit) (h : ∀ visit ∈ visits, visit = .Away) (gauge : Gauge)
    (hlive : gauge.live = 0) : Accurate gauge.peak gauge visits where
  live := by
    rw [hlive, eq_comm, List.countP_eq_zero]
    intro visit hmem
    simp [h visit hmem, Visit.isCounted]
  live_le := by omega
  peak_le := le_rfl
  seen_le := fun now seen hmem => by cases h _ hmem
  announced_le := fun visit hmem => by
    rw [h visit hmem]
    exact Nat.zero_le _
  reached := .inl le_rfl

private theorem countP_middle (front back : List Visit) (visit : Visit) :
    (front ++ visit :: back).countP Visit.isCounted =
      (front ++ back).countP Visit.isCounted + if visit.isCounted then 1 else 0 := by
  rw [List.countP_append, List.countP_cons, List.countP_append]
  omega

-- What a move does to the register and to what its party still has to leave there.
theorem Move.cases_peak (h : Move gauge visit next after) :
    gauge.peak ≤ next.peak ∧ next.peak ≤ max gauge.peak visit.announced ∧
      (visit = .Away ∧ next.live = gauge.live + 1 ∧ after.announced = next.live ∨
        next.live ≤ gauge.live ∧ after.announced ≤ visit.announced) := by
  cases h with
  | count => exact ⟨le_rfl, le_max_left _ _, .inl ⟨rfl, rfl, rfl⟩⟩
  | read => exact ⟨le_rfl, le_max_left _ _, .inr ⟨le_rfl, le_rfl⟩⟩
  | exchange hlt => exact ⟨hlt.le, le_max_right _ _, .inr ⟨le_rfl, Nat.zero_le _⟩⟩
  | lose _ => exact ⟨le_rfl, le_max_left _ _, .inr ⟨le_rfl, le_rfl⟩⟩
  | reach _ => exact ⟨le_rfl, le_max_left _ _, .inr ⟨le_rfl, Nat.zero_le _⟩⟩
  | leave => exact ⟨le_rfl, le_max_left _ _, .inr ⟨Nat.sub_le _ _, le_rfl⟩⟩

theorem Move.live_eq (h : Move gauge visit next after) (rest : Nat)
    (hlive : gauge.live = rest + if visit.isCounted then 1 else 0) :
    next.live = rest + if after.isCounted then 1 else 0 := by
  cases h <;> simp [Visit.isCounted] at hlive ⊢ <;> omega

-- A party gives up its count only once the register holds as much.
theorem Move.announced_kept (h : Move gauge visit next after)
    (hseen : ∀ now seen, visit = .Raising now seen → seen ≤ gauge.peak) :
    visit.announced ≤ next.peak ∨ visit.announced ≤ after.announced := by
  cases h with
  | count => exact .inl (Nat.zero_le _)
  | read => exact .inr le_rfl
  | exchange _ => exact .inl le_rfl
  | lose _ => exact .inr le_rfl
  | reach hle => exact .inl (hle.trans (hseen _ _ rfl))
  | leave => exact .inl (Nat.zero_le _)

theorem Move.seen_le (h : Move gauge visit next after) {now seen : Nat}
    (hafter : after = .Raising now seen) : seen ≤ next.peak := by
  cases h <;> cases hafter <;> exact le_rfl

-- The step of every interleaving: whichever party moves, the gauge stays accurate.
theorem Accurate.move (h : Accurate most gauge (front ++ visit :: back))
    (hmove : Move gauge visit next after) :
    Accurate (max most next.live) next (front ++ after :: back) := by
  have hmem : visit ∈ front ++ visit :: back := by simp
  obtain ⟨hraised, hpeak, hcounts⟩ := hmove.cases_peak
  have hannounced := h.announced_le visit hmem
  have hother : ∀ other ∈ front ++ after :: back,
      other = after ∨ other ∈ front ++ visit :: back := by
    intro other hother
    simp only [List.mem_append, List.mem_cons] at hother ⊢
    tauto
  refine ⟨?_, le_max_right _ _, ?_, ?_, ?_, ?_⟩
  · have hlive := h.live
    rw [countP_middle] at hlive ⊢
    exact hmove.live_eq _ hlive
  · have := h.peak_le
    omega
  · intro now seen hraising
    rcases hother _ hraising with hafter | hold
    · exact hmove.seen_le hafter.symm
    · exact (h.seen_le now seen hold).trans hraised
  · intro other hmember
    rcases hother other hmember with rfl | hold
    · omega
    · exact (h.announced_le other hold).trans (le_max_left _ _)
  · have hlive := h.live_le
    rcases hcounts with ⟨rfl, hcounted, hafter⟩ | ⟨hleft, -⟩
    -- The party that just came in may itself be the one that makes a new most.
    · by_cases hnew : most ≤ next.live
      · refine .inr ⟨after, by simp, ?_⟩
        omega
      · rcases h.reached with hreached | ⟨other, hother, hreached⟩
        · exact .inl (by omega)
        · refine .inr ⟨other, ?_, by omega⟩
          have hne : other ≠ .Away := by
            rintro rfl
            simp only [Visit.announced] at hreached
            omega
          simp only [List.mem_append, List.mem_cons, hne, false_or] at hother ⊢
          tauto
    · rcases h.reached with hreached | ⟨other, hother, hreached⟩
      · exact .inl (by omega)
      · simp only [List.mem_append, List.mem_cons] at hother
        rcases hother with hfront | rfl | hback
        · exact .inr ⟨other, by simp [hfront], by omega⟩
        · have hseen : ∀ now seen, other = .Raising now seen → seen ≤ gauge.peak := by
            rintro now seen rfl
            exact h.seen_le now seen hmem
          rcases hmove.announced_kept hseen with hkept | hkept
          · exact .inl (by omega)
          · exact .inr ⟨after, by simp, by omega⟩
        · exact .inr ⟨other, by simp [hback], by omega⟩

-- A party whose visit stands changes nothing.
theorem Accurate.still (h : Accurate most gauge visits) : Accurate (max most gauge.live) gauge visits := by
  rwa [max_eq_left h.live_le]

-- A failed exchange of a party either changes nothing or takes it closer to its count.
theorem Move.lose_cases {now seen : Nat} (hlt : seen < now) (hseen : seen ≤ gauge.peak) :
    Visit.Raising now gauge.peak = .Raising now seen ∨ now - gauge.peak < now - seen := by
  rcases hseen.eq_or_lt with rfl | hless
  · exact .inl rfl
  · exact .inr (by omega)

end Moves

end ConcurrencyAnalyzer.Library.PeakGauge
