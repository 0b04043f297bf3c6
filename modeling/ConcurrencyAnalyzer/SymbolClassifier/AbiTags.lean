import Mathlib.Data.List.Basic
import Mathlib.Logic.Relation
import Mathlib.Algebra.Group.Nat.Defs

namespace ConcurrencyAnalyzer.SymbolClassifier

open Relation

abbrev Bytes := List UInt8

-- The character that opens a tag.
def tagLetter : UInt8 := 66

def isDigit (byte : UInt8) : Bool := 48 ≤ byte && byte ≤ 57

def decimal (digits : Bytes) : Nat :=
  digits.foldl (fun value digit => 10 * value + (digit.toNat - 48)) 0

-- The number in an `unsigned long`, which has 64 bits. Nothing where it throws.
def stoul (digits : Bytes) : Option Nat :=
  if decimal digits < 2 ^ 64 then some (decimal digits) else none

-- The digits from a place on, which the inner loop goes over.
def digitsFrom (name : Bytes) (index : Nat) : Bytes := (name.drop index).takeWhile isDigit

inductive Move where
  | copy
  | jump (next : Nat)
  deriving DecidableEq, Repr

-- What an iteration does at an index. The sum is a `std::size_t`. Nothing where it throws.
def moveAt (name : Bytes) (index : Nat) : Option Move :=
  if name[index]? ≠ some tagLetter || !name[index + 1]?.any isDigit then some .copy
  else
    let digits := digitsFrom name (index + 1)
    let digitsEnd := index + 1 + digits.length
    (stoul digits).map fun tagLength =>
      let next := (digitsEnd + tagLength) % 2 ^ 64
      if name.length < next then .copy else .jump next

structure ScanState where
  index : Nat := 0
  stripped : Bytes := []
  deriving DecidableEq, Repr

def stepAt (name : Bytes) (state : ScanState) : Option ScanState :=
  (moveAt name state.index).map fun move =>
    match move with
    | .copy => ⟨state.index + 1, state.stripped ++ name[state.index]?.toList⟩
    | .jump next => { state with index := next }

inductive Outcome where
  | returned (stripped : Bytes)
  | thrown
  | running
  deriving DecidableEq, Repr

def scanFrom (name : Bytes) : Nat → ScanState → Outcome
  | fuel, state =>
      if name.length ≤ state.index then .returned state.stripped
      else
        match fuel with
        | 0 => .running
        | fuel + 1 =>
            match stepAt name state with
            | none => .thrown
            | some next => scanFrom name fuel next

def stripAbiTags (fuel : Nat) (name : Bytes) : Outcome := scanFrom name fuel {}

-- Where the scan goes from an index inside the name.
def Next (name : Bytes) (index next : Nat) : Prop :=
  index < name.length ∧
    ((moveAt name index = some .copy ∧ next = index + 1) ∨ moveAt name index = some (.jump next))

def Visited (name : Bytes) : Nat → Prop := ReflTransGen (Next name) 0

-- The scan ends with a name, and no step of it goes back.
structure ScansForward (name : Bytes) : Prop where
  returns : ∃ bound stripped, ∀ fuel, bound ≤ fuel → stripAbiTags fuel name = .returned stripped
  forward : ∀ index next, Visited name index → Next name index next → index ≤ next

section Steps

variable {name : Bytes}

theorem scanFrom_returned {state : ScanState} (h : name.length ≤ state.index) (fuel : Nat) :
    scanFrom name fuel state = .returned state.stripped := by
  unfold scanFrom
  rw [if_pos h]

theorem scanFrom_zero {state : ScanState} (h : state.index < name.length) :
    scanFrom name 0 state = .running := by
  unfold scanFrom
  rw [if_neg (by omega)]

theorem scanFrom_succ {state : ScanState} (h : state.index < name.length) (fuel : Nat) :
    scanFrom name (fuel + 1) state =
      match stepAt name state with
      | none => .thrown
      | some next => scanFrom name fuel next := by
  rw [scanFrom, if_neg (by omega)]

theorem scanFrom_of_stepAt {state next : ScanState} (h : state.index < name.length)
    (hstep : stepAt name state = some next) (fuel : Nat) :
    scanFrom name (fuel + 1) state = scanFrom name fuel next := by
  rw [scanFrom_succ h, hstep]

-- More fuel changes nothing where the scan has ended.
theorem scanFrom_of_le {less fuel : Nat} (hle : less ≤ fuel) (state : ScanState)
    (h : scanFrom name less state ≠ .running) :
    scanFrom name fuel state = scanFrom name less state := by
  induction less generalizing fuel state with
  | zero =>
      by_cases hindex : state.index < name.length
      · exact absurd (scanFrom_zero hindex) h
      · rw [scanFrom_returned (by omega), scanFrom_returned (by omega)]
  | succ less ih =>
      by_cases hindex : state.index < name.length
      · obtain ⟨more, rfl⟩ : ∃ more, fuel = more + 1 := ⟨fuel - 1, by omega⟩
        rw [scanFrom_succ hindex] at h ⊢
        rw [scanFrom_succ hindex]
        cases hstep : stepAt name state with
        | none => rfl
        | some next =>
            rw [hstep] at h
            exact ih (by omega) next h
      · rw [scanFrom_returned (by omega), scanFrom_returned (by omega)]

-- Where the scan goes does not depend on what it has copied.
theorem next_iff_stepAt {index next : Nat} (stripped : Bytes) (h : index < name.length) :
    Next name index next ↔
      ∃ stripped', stepAt name ⟨index, stripped⟩ = some ⟨next, stripped'⟩ := by
  unfold Next stepAt
  cases hmove : moveAt name index with
  | none => simp
  | some move =>
      cases move with
      | copy => simp [h, eq_comm]
      | jump target => simp [h]

theorem next_unique {index next other : Nat} (h : Next name index next)
    (h' : Next name index other) : next = other := by
  rcases h with ⟨-, ⟨hmove, rfl⟩ | hmove⟩ <;> rcases h' with ⟨-, ⟨hmove', rfl⟩ | hmove'⟩ <;>
    simp_all

theorem exists_next {index : Nat} (h : index < name.length) (hmove : moveAt name index ≠ none) :
    ∃ next, Next name index next := by
  obtain ⟨move, hmove⟩ := Option.ne_none_iff_exists'.mp hmove
  cases move with
  | copy => exact ⟨index + 1, h, Or.inl ⟨hmove, rfl⟩⟩
  | jump next => exact ⟨next, h, Or.inr hmove⟩

-- The scan gets to every place it visits, however much fuel is left.
theorem exists_scan_of_visited {index : Nat} (h : Visited name index) :
    ∃ steps stripped, ∀ fuel,
      stripAbiTags (fuel + steps) name = scanFrom name fuel ⟨index, stripped⟩ := by
  induction h with
  | refl => exact ⟨0, [], fun fuel => rfl⟩
  | tail _ hnext ih =>
      obtain ⟨steps, stripped, ih⟩ := ih
      obtain ⟨stripped', hstep⟩ := (next_iff_stepAt stripped hnext.1).mp hnext
      refine ⟨steps + 1, stripped', fun fuel => ?_⟩
      rw [Nat.add_comm steps 1, ← Nat.add_assoc, ih, scanFrom_of_stepAt hnext.1 hstep]

theorem scan_of_returns {index : Nat} (h : ScansForward name) (hvisited : Visited name index) :
    ∃ bound stripped result, ∀ fuel, bound ≤ fuel →
      scanFrom name fuel ⟨index, stripped⟩ = .returned result := by
  obtain ⟨bound, result, hreturns⟩ := h.returns
  obtain ⟨steps, stripped, hscan⟩ := exists_scan_of_visited hvisited
  refine ⟨bound, stripped, result, fun fuel hfuel => ?_⟩
  rw [← hscan]
  exact hreturns _ (by omega)

-- A scan that ends goes on from every place inside the name that it visits.
theorem exists_next_of_scansForward {index : Nat} (h : ScansForward name)
    (hvisited : Visited name index) (hindex : index < name.length) :
    ∃ next, Next name index next ∧ index < next := by
  obtain ⟨bound, stripped, result, hreturns⟩ := scan_of_returns h hvisited
  have hmove : moveAt name index ≠ none := by
    intro hnone
    have hfuel := hreturns (bound + 1) (by omega)
    rw [scanFrom_succ hindex, stepAt, hnone] at hfuel
    simp at hfuel
  obtain ⟨next, hnext⟩ := exists_next hindex hmove
  refine ⟨next, hnext, Nat.lt_of_le_of_ne (h.forward _ _ hvisited hnext) ?_⟩
  -- A step to where it is repeats itself for ever.
  rintro rfl
  have hjump : moveAt name index = some (.jump index) := by
    rcases hnext.2 with ⟨-, hsame⟩ | hjump
    · omega
    · exact hjump
  have hrunning : ∀ fuel, scanFrom name fuel ⟨index, stripped⟩ = .running := by
    intro fuel
    induction fuel with
    | zero => exact scanFrom_zero hindex
    | succ fuel ih =>
        rw [scanFrom_succ hindex, stepAt, hjump]
        exact ih
  have hend := hreturns bound (Nat.le_refl _)
  rw [hrunning bound] at hend
  exact Outcome.noConfusion hend

-- A scan all of whose steps go forward ends, with the length of the name as fuel, and what each
-- step keeps of the text copied holds at the end.
theorem exists_returned_from (Inside : Nat → Prop) (Copied : Nat → Bytes → Prop)
    (hforward : ∀ index, Inside index → index < name.length →
      ∃ next, Next name index next ∧ index < next ∧ Inside next)
    (hcopied : ∀ state next, Inside state.index → state.index < name.length →
      Copied state.index state.stripped → stepAt name state = some next →
      Copied next.index next.stripped)
    (state : ScanState) (hinside : Inside state.index)
    (hstart : Copied state.index state.stripped) :
    ∃ final : ScanState, Inside final.index ∧ name.length ≤ final.index ∧
      Copied final.index final.stripped ∧
      ∀ fuel, name.length - state.index ≤ fuel →
        scanFrom name fuel state = .returned final.stripped := by
  -- By induction on what is left of the name.
  induction hleft : name.length - state.index using Nat.strongRecOn generalizing state with
  | ind left ih =>
      by_cases hindex : state.index < name.length
      · obtain ⟨next, hnext, hlt, hnextInside⟩ := hforward state.index hinside hindex
        obtain ⟨stripped, hstep⟩ := (next_iff_stepAt state.stripped hindex).mp hnext
        have hnextCopied := hcopied state ⟨next, stripped⟩ hinside hindex hstart hstep
        obtain ⟨final, hfinal, hend, hfinalCopied, hreturned⟩ :=
          ih (name.length - next) (by omega) ⟨next, stripped⟩ hnextInside hnextCopied rfl
        refine ⟨final, hfinal, hend, hfinalCopied, fun fuel hfuel => ?_⟩
        obtain ⟨less, rfl⟩ : ∃ less, fuel = less + 1 := ⟨fuel - 1, by omega⟩
        rw [scanFrom_of_stepAt hindex hstep]
        exact hreturned less (by omega)
      · refine ⟨state, hinside, by omega, hstart, fun fuel _ => ?_⟩
        exact scanFrom_returned (by omega) fuel

theorem exists_returned (Inside : Nat → Prop) (Copied : Nat → Bytes → Prop)
    (hforward : ∀ index, Inside index → index < name.length →
      ∃ next, Next name index next ∧ index < next ∧ Inside next)
    (hcopied : ∀ state next, Inside state.index → state.index < name.length →
      Copied state.index state.stripped → stepAt name state = some next →
      Copied next.index next.stripped)
    (hinside : Inside 0) (hstart : Copied 0 []) :
    ∃ final : ScanState, Inside final.index ∧ name.length ≤ final.index ∧
      Copied final.index final.stripped ∧
      ∀ fuel, name.length ≤ fuel → stripAbiTags fuel name = .returned final.stripped :=
  exists_returned_from Inside Copied hforward hcopied {} hinside hstart

-- Of two places the scan visits, it gets to one from the other.
theorem visited_total {index other : Nat} (h : Visited name index) (h' : Visited name other) :
    ReflTransGen (Next name) index other ∨ ReflTransGen (Next name) other index :=
  ReflTransGen.total_of_right_unique (fun _ _ _ => next_unique) h h'

end Steps

end ConcurrencyAnalyzer.SymbolClassifier
