import ConcurrencyAnalyzer.Program.SlotCounts
import ConcurrencyAnalyzer.ThreadCompletion.CurrentValues
import Mathlib.Algebra.Group.Int.Defs

namespace ConcurrencyAnalyzer.ThreadCompletion

open Program
open Slots (SlotRange quotient)

section Walks

variable (function : ScalarFunction) (header : Nat)

-- The instruction whose result is stored, with the load it moves on from.
def movedFrom : Operand → Option (Point × Point)
  | .result step =>
      match function.instructionAt step with
      | some (.add _ (.result moved) _) => some (step, moved)
      | some (.element (.result moved) _ _) => some (step, moved)
      | _ => none
  | _ => none

-- The test of a loop and what moves its slot on, as `countedLoop` and `pointerSlots` find them.
def slotWalk : Option SlotWalk :=
  (loopTest function header).bind fun test =>
    (slotWrites function header test).bind fun writes =>
      (movedFrom function writes.advance.2).map fun (step, moved) => {
        header := header
        inside := test.inside
        exit := test.exit
        predicate := test.predicate
        width := test.width
        slot := writes.slot
        initial := writes.initial.1
        begin := writes.initial.2
        compare := test.compare
        current := writes.current
        rhs := test.rhs
        moved := moved
        step := step
        advance := writes.advance.1 }

-- How many bits an instruction reads or gives. An index of one bit steps back where it is set.
def widthAt (point : Point) : Option Nat :=
  match function.instructionAt point with
  | some (.load _ width) => some width
  | some (.store _ _ width) => some width
  | some (.add width _ _) => some width
  | some (.element _ (.constant width _) _) => if 1 < width then some 64 else none
  | _ => none

-- The test and the advance both read the slot in the loop, the test before the advance, and all at the
-- width that is written.
def readsInRound (walk : SlotWalk) : Bool :=
  walk.compare.block = walk.header && walk.current.block = walk.header &&
    function.inLoopOf walk.header walk.moved.block &&
    (walk.advance.block ≠ walk.header || walk.current.index < walk.advance.index) &&
    [walk.initial, walk.current, walk.moved, walk.step, walk.advance].all fun point =>
      widthAt function point = some walk.width

end Walks

section Recognized

variable {function : ScalarFunction} {header : Nat} {test : LoopTest} {writes : SlotWrites}

theorem loopTest_spec (h : loopTest function header = some test) :
    function.terminatorOf header =
        some (.conditional (.result test.compare) test.inside test.exit) ∧
      function.instructionAt test.compare =
        some (.icmp test.predicate test.width test.lhs test.rhs) ∧
      function.inLoopOf header test.inside = true ∧ function.inLoopOf header test.exit = false := by
  unfold loopTest at h
  split at h
  · rename_i compare inside exit hterminator
    split at h
    · rename_i predicate width lhs rhs hcompare
      split at h
      · rename_i hloop
        rw [Option.some.injEq] at h
        subst h
        rw [Bool.and_eq_true, Bool.not_eq_true'] at hloop
        exact ⟨hterminator, hcompare, hloop⟩
      · cases h
    · cases h
  · cases h

theorem loadOf_spec {value : Operand} {point : Point} {slot : String}
    (h : loadOf function value = some (point, slot)) :
    value = .result point ∧ ∃ width, function.instructionAt point = some (.load slot width) := by
  unfold loadOf at h
  split at h
  · split at h
    · rename_i other _ width hload
      rw [Option.some.injEq, Prod.mk.injEq] at h
      obtain ⟨rfl, rfl⟩ := h
      exact ⟨rfl, width, hload⟩
    · cases h
  · cases h

theorem mem_stores {slot : String} {point : Point} {value : Operand} :
    (point, value) ∈ function.instructions.filterMap (TaskConcurrency.storeTo slot) ↔
      ∃ width, function.instructionAt point = some (.store slot value width) := by
  rw [List.mem_filterMap]
  constructor
  · rintro ⟨⟨place, instruction⟩, hmem, hstore⟩
    unfold TaskConcurrency.storeTo at hstore
    split at hstore
    · rename_i heq
      rw [Prod.mk.injEq] at heq
      obtain ⟨rfl, rfl⟩ := heq
      split at hstore
      · rename_i hslot
        rw [Option.some.injEq, Prod.mk.injEq] at hstore
        obtain ⟨rfl, rfl⟩ := hstore
        subst hslot
        exact ⟨_, ScalarFunction.mem_instructions.mp hmem⟩
      · cases hstore
    · cases hstore
  · rintro ⟨width, hinstruction⟩
    refine ⟨(point, .store slot value width), ScalarFunction.mem_instructions.mpr hinstruction, ?_⟩
    simp [TaskConcurrency.storeTo]

-- What `slotWrites` finds of a local, and that nothing else is done with it.
structure Writes (function : ScalarFunction) (header : Nat) (writes : SlotWrites) : Prop where
  current_at : ∃ width, function.instructionAt writes.current = some (.load writes.slot width)
  initial_at : ∃ width,
    function.instructionAt writes.initial.1 = some (.store writes.slot writes.initial.2 width)
  initial_out : function.inLoopOf header writes.initial.1.block = false
  initial_first : function.dominates writes.initial.1 (function.endOf header) = true
  advance_at : ∃ width,
    function.instructionAt writes.advance.1 = some (.store writes.slot writes.advance.2 width)
  advance_in : function.inLoopOf header writes.advance.1.block = true
  only_store : ∀ point value width,
    function.instructionAt point = some (.store writes.slot value width) →
      point = writes.advance.1 ∨ point = writes.initial.1
  kept : ∀ point slots, function.instructionAt point = some (.other slots) → writes.slot ∉ slots

theorem slotWrites_spec (h : slotWrites function header test = some writes) :
    test.lhs = .result writes.current ∧ Writes function header writes := by
  unfold slotWrites at h
  obtain ⟨⟨current, slot⟩, hload, hrest⟩ := Option.bind_eq_some_iff.mp h
  obtain ⟨hlhs, hcurrent⟩ := loadOf_spec hload
  dsimp only at hrest
  split at hrest
  · cases hrest
  · rename_i hkept
    split at hrest
    · rename_i initial advance hinitial hadvance
      split at hrest
      · rename_i hdominates
        rw [Option.some.injEq] at hrest
        subst hrest
        have hinitialMem : initial ∈ function.instructions.filterMap (TaskConcurrency.storeTo slot) ∧
            (!function.inLoopOf header initial.1.block) = true :=
          List.mem_filter.mp (hinitial ▸ List.mem_singleton_self initial)
        have hadvanceMem : advance ∈ function.instructions.filterMap (TaskConcurrency.storeTo slot) ∧
            function.inLoopOf header advance.1.block = true :=
          List.mem_filter.mp (hadvance ▸ List.mem_singleton_self advance)
        refine ⟨hlhs, hcurrent, mem_stores.mp hinitialMem.1, ?_, hdominates,
          mem_stores.mp hadvanceMem.1, hadvanceMem.2, ?_, ?_⟩
        · rw [← Bool.not_eq_true']
          exact hinitialMem.2
        · intro point value width hstore
          have hmem := mem_stores.mpr ⟨width, hstore⟩
          cases hin : function.inLoopOf header point.block with
          | true =>
              have honly : (point, value) ∈ [advance] := by
                rw [← hadvance]
                exact List.mem_filter.mpr ⟨hmem, hin⟩
              exact .inl (congrArg Prod.fst (List.mem_singleton.mp honly))
          | false =>
              have honly : (point, value) ∈ [initial] := by
                rw [← hinitial]
                exact List.mem_filter.mpr ⟨hmem, by rw [hin]; rfl⟩
              exact .inr (congrArg Prod.fst (List.mem_singleton.mp honly))
        · intro point slots hother hslot
          refine hkept (List.any_eq_true.mpr
            ⟨(point, .other slots), ScalarFunction.mem_instructions.mpr hother, ?_⟩)
          exact decide_eq_true hslot
      · cases hrest
    · cases hrest

-- No loop whose header a store outside it dominates is the one of the entry.
theorem header_ne_of_dominates {initial : Point} (hin : function.inLoopOf header header = true)
    (hout : function.inLoopOf header initial.block = false)
    (hdominates : function.dominates initial (function.endOf header) = true) : header ≠ 0 := by
  rintro rfl
  have hne : initial.block ≠ 0 := by
    intro heq
    rw [heq, hin] at hout
    cases hout
  unfold ScalarFunction.dominates at hdominates
  rw [if_neg (show initial.block ≠ (function.endOf 0).block from hne)] at hdominates
  simp only [Function.blockDominates, Bool.or_eq_true, decide_eq_true_eq] at hdominates
  rcases hdominates with heq | hnot
  · exact hne heq.symm
  · exact hnot (Library.Search.subset_search _ _ _ _ _ (Finset.mem_singleton_self 0))

theorem movedFrom_spec {value : Operand} {step moved : Point}
    (h : movedFrom function value = some (step, moved)) :
    value = .result step ∧
      ((∃ width rhs, function.instructionAt step = some (.add width (.result moved) rhs)) ∨
        ∃ index size, function.instructionAt step = some (.element (.result moved) index size)) := by
  unfold movedFrom at h
  split at h
  · split at h
    · rename_i width _ rhs hadd
      rw [Option.some.injEq, Prod.mk.injEq] at h
      obtain ⟨rfl, rfl⟩ := h
      exact ⟨rfl, .inl ⟨width, rhs, hadd⟩⟩
    · rename_i _ index size helement
      rw [Option.some.injEq, Prod.mk.injEq] at h
      obtain ⟨rfl, rfl⟩ := h
      exact ⟨rfl, .inr ⟨index, size, helement⟩⟩
    · cases h
  · cases h

theorem movedFrom_add {step moved : Point} {width : Nat} {rhs : Operand}
    (h : function.instructionAt step = some (.add width (.result moved) rhs)) :
    movedFrom function (.result step) = some (step, moved) := by
  unfold movedFrom
  dsimp only
  rw [h]

theorem movedFrom_element {step moved : Point} {index : Operand} {size : Nat}
    (h : function.instructionAt step = some (.element (.result moved) index size)) :
    movedFrom function (.result step) = some (step, moved) := by
  unfold movedFrom
  dsimp only
  rw [h]

theorem slotWalk_spec {walk : SlotWalk} (h : slotWalk function header = some walk) :
    ∃ test writes, loopTest function header = some test ∧
      slotWrites function header test = some writes ∧
      movedFrom function writes.advance.2 = some (walk.step, walk.moved) ∧
      walk = ⟨header, test.inside, test.exit, test.predicate, test.width, writes.slot,
        writes.initial.1, writes.initial.2, test.compare, writes.current, test.rhs, walk.moved, walk.step,
        writes.advance.1⟩ := by
  obtain ⟨test, htest, hrest⟩ := Option.bind_eq_some_iff.mp h
  obtain ⟨writes, hwrites, hrest⟩ := Option.bind_eq_some_iff.mp hrest
  obtain ⟨⟨step, moved⟩, hmoved, rfl⟩ := Option.map_eq_some_iff.mp hrest
  exact ⟨test, writes, htest, hwrites, hmoved, rfl⟩

theorem widthAt_store {point : Point} {slot : String} {value : Operand} {width other : Nat}
    (hstore : function.instructionAt point = some (.store slot value width))
    (hwidth : widthAt function point = some other) : width = other := by
  unfold widthAt at hwidth
  rw [hstore] at hwidth
  exact Option.some.inj hwidth

theorem widthAt_load {point : Point} {slot : String} {width other : Nat}
    (hload : function.instructionAt point = some (.load slot width))
    (hwidth : widthAt function point = some other) : width = other := by
  unfold widthAt at hwidth
  rw [hload] at hwidth
  exact Option.some.inj hwidth

theorem width_of_reads {walk : SlotWalk} (hreads : readsInRound function walk = true) :
    ∀ point ∈ [walk.initial, walk.current, walk.moved, walk.step, walk.advance],
      widthAt function point = some walk.width := by
  intro point hpoint
  unfold readsInRound at hreads
  rw [Bool.and_eq_true, List.all_eq_true] at hreads
  exact of_decide_eq_true (hreads.2 point hpoint)

-- A loop that reads its slot in each round, and steps it in a known way.
theorem exists_slotLoop (next : Nat → Nat) (always : Bool) {walk : SlotWalk}
    (hwalk : slotWalk function header = some walk) (hreads : readsInRound function walk = true)
    {stepping : Scalar}
    (hstep : function.instructionAt walk.step = some stepping)
    (huses : .result walk.moved ∈ stepping.operands)
    (hnotStore : ∀ slot operand width, stepping ≠ .store slot operand width)
    (hgives : ∀ (arguments : Nat → Nat) (state : CallState) old value,
      state.results walk.moved = some old → state.Gives arguments stepping value → value = next old)
    (hmoved : ∃ width, function.instructionAt walk.moved = some (.load walk.slot width))
    (hround : always = true → ∃ latch, function.getLoopLatch walk.header = some latch ∧
      function.dominates walk.advance (function.endOf latch) = true) :
    ∃ loop : SlotLoop function, loop.toSlotWalk = walk ∧ loop.next = next ∧ loop.always = always := by
  obtain ⟨test, writes, htest, hwrites, hfrom, heq⟩ := slotWalk_spec hwalk
  obtain ⟨hterminator, hcompare, hinside, hexit⟩ := loopTest_spec htest
  obtain ⟨hlhs, hfound⟩ := slotWrites_spec hwrites
  obtain ⟨width, hcurrent⟩ := hfound.current_at
  obtain ⟨begun, hinitial⟩ := hfound.initial_at
  obtain ⟨written, hadvance⟩ := hfound.advance_at
  obtain ⟨hvalue, _⟩ := movedFrom_spec hfrom
  obtain ⟨movedWidth, hmoved⟩ := hmoved
  have hwidths := width_of_reads hreads
  unfold readsInRound at hreads
  simp only [Bool.and_eq_true, Bool.or_eq_true, decide_eq_true_eq] at hreads
  obtain ⟨⟨⟨⟨hcompareIn, hcurrentIn⟩, hmovedIn⟩, hfirst⟩, _⟩ := hreads
  have hcurrentWidth := hwidths walk.current (by simp)
  have hmovedWidth := hwidths walk.moved (by simp)
  have hadvanceWidth := hwidths walk.advance (by simp)
  have hinitialWidth := hwidths walk.initial (by simp)
  have hheaderIn := ScalarFunction.inLoopOf_header hinside
  have hheader := header_ne_of_dominates hheaderIn hfound.initial_out hfound.initial_first
  rw [hvalue] at hadvance
  rw [hlhs] at hcompare
  refine ⟨{
    toSlotWalk := walk
    stepping := stepping
    next := next
    always := always
    header_ne := by rw [heq]; exact hheader
    branches := by rw [heq]; exact hterminator
    stays := by rw [heq]; exact hinside
    leaves := by rw [heq]; exact hexit
    compare_at := by rw [heq]; exact hcompare
    current_at := ?_
    moved_at := ?_
    step_at := hstep
    advance_at := ?_
    initial_at := ?_
    initial_out := by rw [heq]; exact hfound.initial_out
    initial_first := ?_
    kept := by rw [heq]; exact hfound.kept
    uses_moved := huses
    not_store := hnotStore
    gives_next := hgives
    only_store := by rw [heq]; exact hfound.only_store
    compare_in := hcompareIn
    current_in := hcurrentIn
    moved_in := hmovedIn
    advance_in := by rw [heq]; exact hfound.advance_in
    current_first := fun hblock => hfirst.resolve_left fun hne => hne hblock
    every_round := hround }, rfl, rfl, rfl⟩
  · have hat : function.instructionAt walk.current = some (.load walk.slot width) := by
      rw [heq]
      exact hcurrent
    rw [hat, widthAt_load hat hcurrentWidth]
  · rw [hmoved, widthAt_load hmoved hmovedWidth]
  · have hat : function.instructionAt walk.advance =
        some (.store walk.slot (.result walk.step) written) := by
      rw [heq]
      exact hadvance
    rw [hat, widthAt_store hat hadvanceWidth]
  · have hat : function.instructionAt walk.initial = some (.store walk.slot walk.begin begun) := by
      rw [heq]
      exact hinitial
    rw [hat, widthAt_store hat hinitialWidth]
  · have hne : writes.initial.1.block ≠ (function.endOf header).block := by
      intro hsame
      have hout := hfound.initial_out
      rw [hsame] at hout
      rw [show (function.endOf header).block = header from rfl, hheaderIn] at hout
      cases hout
    have hfirst := hfound.initial_first
    unfold ScalarFunction.dominates at hfirst
    rw [if_neg hne] at hfirst
    rw [heq]
    exact hfirst

theorem raisesByOne_spec {slot : String} {value : Operand} {old : Point}
    (h : raisesByOne function slot value = some old) :
    ∃ step width constant, value = .result step ∧
      function.instructionAt step = some (.add width (.result old) (.constant constant 1)) ∧
      ∃ read, function.instructionAt old = some (.load slot read) := by
  unfold raisesByOne at h
  split at h
  · split at h
    · rename_i width lhs constant hadd
      obtain ⟨⟨point, loaded⟩, hfilter, rfl⟩ := Option.map_eq_some_iff.mp h
      obtain ⟨hload, hslot⟩ := Option.filter_eq_some_iff.mp hfilter
      rw [decide_eq_true_eq] at hslot
      obtain ⟨rfl, hread⟩ := loadOf_spec hload
      subst hslot
      exact ⟨_, width, constant, rfl, hadd, hread⟩
    · cases h
  · cases h

theorem movesByOne_spec {slot : String} {value : Operand} {old : Point} {size : Nat}
    (h : movesByOne function slot value = some (old, size)) :
    ∃ step constant, value = .result step ∧
      function.instructionAt step = some (.element (.result old) (.constant constant 1) size) ∧
      ∃ read, function.instructionAt old = some (.load slot read) := by
  unfold movesByOne at h
  split at h
  · split at h
    · rename_i base constant bytes helement
      obtain ⟨⟨point, loaded⟩, hfilter, heq⟩ := Option.map_eq_some_iff.mp h
      rw [Prod.mk.injEq] at heq
      obtain ⟨rfl, rfl⟩ := heq
      obtain ⟨hload, hslot⟩ := Option.filter_eq_some_iff.mp hfilter
      rw [decide_eq_true_eq] at hslot
      obtain ⟨rfl, hread⟩ := loadOf_spec hload
      subst hslot
      exact ⟨_, constant, rfl, helement, hread⟩
    · cases h
  · cases h

-- A loop that `countedLoop` takes raises its counter each round.
theorem slotLoop_of_countedLoop {walk : SlotWalk} {counted : CountedLoop}
    (hwalk : slotWalk function header = some walk) (hreads : readsInRound function walk = true)
    (hcounted : countedLoop function header = some counted) :
    ∃ loop : SlotLoop function, loop.toSlotWalk = walk ∧
      loop.next = (fun counter => (counter + 1) % 2 ^ walk.width) ∧ loop.always = true ∧
      counted.predicate = walk.predicate ∧
      (walk.predicate = .ICMP_SLT ∨ walk.predicate = .ICMP_ULT) ∧
      invariantValue function walk.begin = some counted.begin ∧
      invariantValue function walk.rhs = some counted.finish := by
  obtain ⟨test, writes, htest, hwrites, hfrom, heq⟩ := slotWalk_spec hwalk
  unfold countedLoop at hcounted
  rw [htest, Option.bind_some] at hcounted
  obtain ⟨latch, hlatch, hcounted⟩ := Option.bind_eq_some_iff.mp hcounted
  split at hcounted
  · cases hcounted
  · rename_i hpredicate
    rw [hwrites, Option.bind_some] at hcounted
    split at hcounted
    · rename_i hraises
      rw [Bool.and_eq_true, Option.isSome_iff_exists] at hraises
      obtain ⟨hdominates, old, hraises⟩ := hraises
      obtain ⟨begin, hbegin, hcounted⟩ := Option.bind_eq_some_iff.mp hcounted
      obtain ⟨finish, hfinish, hcounted⟩ := Option.bind_eq_some_iff.mp hcounted
      split at hcounted
      · cases hcounted
      · rw [Option.some.injEq] at hcounted
        subst hcounted
        obtain ⟨step, width, constant, hvalue, hadd, hread⟩ := raisesByOne_spec hraises
        rw [hvalue, movedFrom_add hadd, Option.some.injEq, Prod.mk.injEq] at hfrom
        obtain ⟨rfl, rfl⟩ := hfrom
        have hwidth : width = walk.width := by
          have hstepWidth := width_of_reads hreads walk.step (by simp)
          unfold widthAt at hstepWidth
          rw [hadd] at hstepWidth
          exact Option.some.inj hstepWidth
        have hslot : walk.slot = writes.slot := by rw [heq]
        have hpredicates : walk.predicate = .ICMP_SLT ∨ walk.predicate = .ICMP_ULT := by
          rw [heq]
          by_contra hother
          rw [not_or] at hother
          exact hpredicate hother
        obtain ⟨loop, hloop, hnext, halways⟩ : ∃ loop : SlotLoop function, loop.toSlotWalk = walk ∧
            loop.next = (fun counter => (counter + 1) % 2 ^ walk.width) ∧ loop.always = true := by
          refine exists_slotLoop _ true hwalk hreads hadd (by simp [Scalar.operands]) ?_ ?_ ?_ ?_
          · intro _ _ _ hstore
            cases hstore
          · rintro arguments state value given hold ⟨left, right, hleft, hright, rfl⟩
            have hsame : state.results walk.moved = some left := hleft
            rw [hold, Option.some.injEq] at hsame
            rw [hsame, hwidth, ← Option.some.inj hright]
          · rw [hslot]
            exact hread
          · intro _
            refine ⟨latch, ?_, ?_⟩
            · rw [heq]
              exact hlatch
            · rw [heq]
              exact hdominates
        refine ⟨loop, hloop, hnext, halways, ?_, hpredicates, ?_, ?_⟩
        · rw [heq]
        · rw [heq]
          exact hbegin
        · rw [heq]
          exact hfinish
    · cases hcounted

-- The index a range begins with, and as many slots as it has, where its bounds are known.
def Slots.SlotRange.first (range : SlotRange Operand) : Int := (range.begin.index.map (·.number)).getD 0

def Slots.SlotRange.length (range : SlotRange Operand) : Nat :=
  ((range.finish.index.map (·.number)).getD 0 - range.first).toNat

-- The addresses a cursor starts at and is compared with are so many elements of one object apart.
structure Spans (function : ScalarFunction) (walk : SlotWalk) (range : SlotRange Operand) : Prop where
  first : slotAddressThroughLocals function walk.begin = some ⟨range.array, range.origin, none⟩
  last : ∃ offset, slotAddressThroughLocals function walk.rhs = some ⟨range.array, offset, none⟩ ∧
    offset.number = range.origin.number + range.length * range.stride.number
  stride : 0 < range.stride.number
  begins : range.first = 0
  span : range.length * range.stride.number < 2 ^ 63

theorem signedValue_one {width : Nat} (h : 1 < width) : signedValue width 1 = 1 := by
  unfold signedValue
  have hpower : 2 ^ 2 ≤ 2 ^ width := Nat.pow_le_pow_right (by decide) h
  exact Int.bmod_eq_of_le (by omega) (by omega)

-- A pointer is moved by what fits a signed number.
theorem wrapped_added {size counter : Nat} (h : 0 < (Slots.Int64.wrapped size).number) :
    (((counter : Int) + size) % 2 ^ 64).toNat =
      (counter + (Slots.Int64.wrapped size).number.toNat) % 2 ^ 64 := by
  have hsame := int64_modEq size
  unfold Int.ModEq at hsame
  unfold Slots.Int64.wrapped at h ⊢
  dsimp only at h ⊢
  omega

-- What is left of a span without a rest is as many elements.
theorem count_of_span {span stride count : Slots.Int64} (hpositive : 0 < stride.number)
    (hspan : 0 ≤ span.number) (hrest : span.number.tmod stride.number = 0)
    (hcount : quotient span stride = some count) :
    0 ≤ count.number ∧ count.number * stride.number = span.number := by
  unfold quotient at hcount
  rw [if_neg (Int.ne_of_gt hpositive)] at hcount
  rw [Slots.number_of_checked hcount]
  exact ⟨Int.tdiv_nonneg hspan (Int.le_of_lt hpositive),
    Int.tdiv_mul_cancel (Int.dvd_of_tmod_eq_zero hrest)⟩

-- A loop that `pointerSlots` takes moves its cursor on by an element, some rounds.
theorem slotLoop_of_pointerSlots {walk : SlotWalk} {element : Operand} {range : SlotRange Operand}
    (hwalk : slotWalk function header = some walk) (hreads : readsInRound function walk = true)
    (hslots : pointerSlots function header element = some range) :
    ∃ loop : SlotLoop function, loop.toSlotWalk = walk ∧
      loop.next = (fun counter => (counter + range.stride.number.toNat) % 2 ^ 64) ∧
      walk.predicate = .ICMP_NE ∧ walk.width = 64 ∧ Spans function walk range := by
  obtain ⟨test, writes, htest, hwrites, hfrom, heq⟩ := slotWalk_spec hwalk
  unfold pointerSlots at hslots
  rw [htest, Option.bind_some] at hslots
  obtain ⟨latch, hlatch, hslots⟩ := Option.bind_eq_some_iff.mp hslots
  split at hslots
  · cases hslots
  · rename_i hpredicate
    rw [hwrites, Option.bind_some] at hslots
    obtain ⟨⟨old, size⟩, hmoves, hslots⟩ := Option.bind_eq_some_iff.mp hslots
    obtain ⟨⟨object, origin, index⟩, hfirst, hslots⟩ := Option.bind_eq_some_iff.mp hslots
    obtain ⟨⟨other, offset, varies⟩, hlast, hslots⟩ := Option.bind_eq_some_iff.mp hslots
    dsimp only at hslots
    split at hslots
    · cases hslots
    · rename_i hstride
      split at hslots
      · cases hslots
      · rename_i hobjects
        obtain ⟨span, hspan, hslots⟩ := Option.bind_eq_some_iff.mp hslots
        split at hslots
        · cases hslots
        · rename_i hwhole
          obtain ⟨⟨read, slot⟩, _, hslots⟩ := Option.bind_eq_some_iff.mp hslots
          dsimp only at hslots
          split at hslots
          · obtain ⟨count, hcount, hrange⟩ := Option.map_eq_some_iff.mp hslots
            subst hrange
            obtain ⟨step, constant, hvalue, helement, hread⟩ := movesByOne_spec hmoves
            rw [hvalue, movedFrom_element helement, Option.some.injEq, Prod.mk.injEq] at hfrom
            obtain ⟨rfl, rfl⟩ := hfrom
            have hslot : walk.slot = writes.slot := by rw [heq]
            have hpredicates : walk.predicate = .ICMP_NE := by
              rw [heq]
              exact not_not.mp hpredicate
            have hwidths : 1 < constant ∧ walk.width = 64 := by
              have hstepWidth := width_of_reads hreads walk.step (by simp)
              unfold widthAt at hstepWidth
              rw [helement] at hstepWidth
              dsimp only at hstepWidth
              split at hstepWidth
              · rename_i hwide
                exact ⟨hwide, (Option.some.inj hstepWidth).symm⟩
              · cases hstepWidth
            have hpositive : 0 < (Slots.Int64.wrapped size).number := Int.not_le.mp hstride
            obtain ⟨loop, hloop, hnext, _⟩ : ∃ loop : SlotLoop function, loop.toSlotWalk = walk ∧
                loop.next = (fun counter => (counter + (Slots.Int64.wrapped size).number.toNat) % 2 ^ 64) ∧
                  loop.always = false := by
              refine exists_slotLoop _ false hwalk hreads helement (by simp [Scalar.operands]) ?_ ?_ ?_ ?_
              · intro _ _ _ hstore
                cases hstore
              · rintro arguments state value given hold ⟨left, right, hleft, hright, rfl⟩
                have hsame : state.results walk.moved = some left := hleft
                rw [hold, Option.some.injEq] at hsame
                have hone : right = 1 := by
                  rw [← signedValue_one hwidths.1]
                  exact (Option.some.inj hright).symm
                rw [hsame, hone, Int.one_mul]
                exact wrapped_added hpositive
              · rw [hslot]
                exact hread
              · exact fun hnever => absurd hnever Bool.false_ne_true
            simp only [not_or, Option.not_isSome_iff_eq_none, not_not] at hobjects
            obtain ⟨rfl, rfl, rfl⟩ := hobjects
            rw [not_or] at hwhole
            obtain ⟨hcounted, hexact⟩ := count_of_span hpositive (not_lt.mp hwhole.1)
              (not_not.mp hwhole.2) hcount
            have hlength : ((count.number - 0).toNat : Int) * (Slots.Int64.wrapped size).number =
                span.number := by
              rw [Int.sub_zero, Int.toNat_of_nonneg hcounted, hexact]
            have hsum : span.number = offset.number - origin.number := Slots.number_of_checked hspan
            refine ⟨loop, hloop, hnext, hpredicates, hwidths.2, ?_, ⟨offset, ?_, ?_⟩, hpositive, rfl, ?_⟩
            · rw [heq]
              exact hfirst
            · rw [heq]
              exact hlast
            · refine Eq.trans ?_ (congrArg (origin.number + ·) hlength.symm)
              omega
            · exact lt_of_eq_of_lt hlength span.fits.2
          · cases hslots

end Recognized

section Counts

variable (function : ScalarFunction) (walk : SlotWalk) (arguments : Nat → Nat)

-- What the counter of a loop is to start with, and what its tests are to compare it with: what is found
-- for them, extended as they are.
def CountedLoop.beginsAt (counted : CountedLoop) (state : CallState) : Nat :=
  extend function walk.begin ((state.value arguments counted.begin).getD 0)

def CountedLoop.finishesAt (counted : CountedLoop) (_start : Nat) (state : CallState) : Nat :=
  extend function walk.rhs ((state.value arguments counted.finish).getD 0)

-- The same of a cursor, as addresses.
def Slots.SlotRange.beginsAt (range : SlotRange Operand) (state : CallState) : Nat :=
  ((((state.value arguments range.array).getD 0 : Nat) +
    (range.origin.number + range.stride.number * range.first)) % 2 ^ 64).toNat

def Slots.SlotRange.finishesAt (range : SlotRange Operand) (start : Nat) (_state : CallState) : Nat :=
  SlotLoop.position start range.stride.number.toNat range.length

-- The tests since a loop was entered read every number from its begin to its end, each once, the end
-- by the test that left it.
def CountedLoop.Counts (counted : CountedLoop) (width : Nat) (watch : Watch) : Prop :=
  watch.tests.map (fun test => counted.predicate.reading width test.1) =
    (List.range ((counted.predicate.reading width watch.finish -
      counted.predicate.reading width watch.start).toNat + 1)).map
        fun round : Nat => counted.predicate.reading width watch.start + round

-- They read the address of every element and of the end in turn, one again only where it stayed.
def Slots.SlotRange.Visits (range : SlotRange Operand) (watch : Watch) : Prop :=
  (watch.tests.map fun test => test.1 % 2 ^ 64).destutter (· ≠ ·) =
    (List.range (range.length + 1)).map (SlotLoop.position watch.start range.stride.number.toNat)

-- What leads a counter to its begin and its end, through extensions and locals stored once, is current
-- where they are used.
def countsOn : List CallEvent → Watch → CallState → CallEvent → Prop :=
  walk.meets function arguments (isCurrent function extensionOf)

-- For a cursor, what leads to its begin is still current at each test.
def visitsOn (events : List CallEvent) (watch : Watch) (state : CallState) (event : CallEvent) : Prop :=
  walk.meets function arguments (isCurrent function displacementOf) events watch state event ∧
    (event = .ran walk.compare → isCurrent function displacementOf events walk.begin = true)

instance (events : List CallEvent) (watch : Watch) (state : CallState) (event : CallEvent) :
    Decidable (countsOn function walk arguments events watch state event) :=
  inferInstanceAs (Decidable (SlotWalk.meets ..))

instance (events : List CallEvent) (watch : Watch) (state : CallState) (event : CallEvent) :
    Decidable (visitsOn function walk arguments events watch state event) :=
  inferInstanceAs (Decidable (_ ∧ (_ → _)))

end Counts

section Left

variable {function : ScalarFunction} {header : Nat} {walk : SlotWalk} {arguments : Nat → Nat}
  {events : List CallEvent} {state : CallState} {watch : Watch}

-- What the begin of a counter stands for, it has where it is current.
theorem CountedLoop.stands_begin {counted : CountedLoop}
    (hbegin : invariantValue function walk.begin = some counted.begin) :
    Stands function arguments (isCurrent function extensionOf) walk.begin walk.width
      (counted.beginsAt function walk arguments) := by
  intro events state value hrun hcurrent hvalue
  rw [value_of_invariantValue hrun hbegin hcurrent hvalue]
  rfl

theorem counts_of_left (hdefined : DefinedBeforeUse function)
    (hwalk : slotWalk function header = some walk) (hreads : readsInRound function walk = true)
    {counted : CountedLoop} (hcounted : countedLoop function header = some counted)
    (hrounds : Rounds function arguments (walk.watched (counted.beginsAt function walk arguments)
      (counted.finishesAt function walk arguments)) (countsOn function walk arguments) events state watch)
    (hleft : .branched walk.header 1 walk.exit ∈ watch.since) : counted.Counts walk.width watch := by
  obtain ⟨loop, rfl, hnext, halways, hpredicate, hpredicates, hbegin, hfinish⟩ :=
    slotLoop_of_countedLoop hwalk hreads hcounted
  have hmeets : ∀ events watch state event,
      countsOn function loop.toSlotWalk arguments events watch state event →
        loop.meets function arguments (isCurrent function extensionOf) events watch state event :=
    fun _ _ _ _ hmet => hmet
  have hbound := SlotLoop.one_bound hmeets (fun events state watch bound hbefore hplace hmet hvalue => by
    rw [value_of_invariantValue hbefore.run hfinish (hmet.2 rfl).1 hvalue]
    rfl) hrounds
  obtain ⟨earlier, counter, bound, htests, hfollows, hfails⟩ :=
    SlotLoop.tests_of_left hmeets (CountedLoop.stands_begin hbegin) hdefined hrounds hleft
  unfold CountedLoop.Counts
  rw [htests, hpredicate]
  refine SlotLoop.Follows.counts_to (loop.predicate.reading loop.width ·) ?_ ?_ ?_ halways hfollows ?_ ?_
    hfails
  · exact fun _ _ => Predicate.reading_congr
  · exact fun counter bound => Predicate.holds_iff_reading hpredicates
  · intro counter bound hholds
    rw [hnext]
    exact Predicate.reading_raised hpredicates hholds
  · exact Predicate.reading_congr (hbound (counter, bound) (by rw [htests]; simp))
  · intro test htest
    exact Predicate.reading_congr (hbound test (by rw [htests]; exact List.mem_append_left _ htest))

-- What the begin of a cursor stands for, it has where it is current.
theorem stands_begin_of_spans {range : SlotRange Operand} (hspans : Spans function walk range) :
    Stands function arguments (isCurrent function displacementOf) walk.begin 64
      (range.beginsAt arguments) := by
  intro events state value hrun hcurrent hvalue
  obtain ⟨given, hgiven, hpast⟩ := value_of_slotAddressThroughLocals hrun hspans.first rfl hcurrent hvalue
  unfold SlotRange.beginsAt
  rw [hgiven, hspans.begins, Int.mul_zero, Int.add_zero]
  unfold Past Int.ModEq at hpast
  dsimp only at hpast
  rw [Option.getD_some, ← hpast]
  omega

-- Where both ends of a cursor are current, they are as far apart as the elements take.
theorem ends_after_of_spans {range : SlotRange Operand} (hspans : Spans function walk range)
    (hrun : CallRun function arguments events state)
    (hbegin : isCurrent function displacementOf events walk.begin = true)
    (hend : isCurrent function displacementOf events walk.rhs = true) {first bound start : Nat}
    (hfirst : state.value arguments walk.begin = some first)
    (hbound : state.value arguments walk.rhs = some bound) (hstart : first % 2 ^ 64 = start % 2 ^ 64) :
    bound % 2 ^ 64 = SlotLoop.position start range.stride.number.toNat range.length := by
  obtain ⟨offset, hlastAddress, hoffset⟩ := hspans.last
  obtain ⟨given, hgiven, hpast⟩ := value_of_slotAddressThroughLocals hrun hspans.first rfl hbegin hfirst
  obtain ⟨other, hother, hlast⟩ := value_of_slotAddressThroughLocals hrun hlastAddress rfl hend hbound
  rw [hgiven, Option.some.injEq] at hother
  subst hother
  have hcast : ((range.length * range.stride.number.toNat : Nat) : Int) =
      range.length * range.stride.number := by
    rw [Int.natCast_mul, Int.toNat_of_nonneg range.strideNonneg]
  unfold Past Int.ModEq at hpast hlast
  unfold SlotLoop.position
  dsimp only at hpast hlast
  omega

theorem visits_of_left (hdefined : DefinedBeforeUse function)
    (hwalk : slotWalk function header = some walk) (hreads : readsInRound function walk = true)
    {element : Operand} {range : SlotRange Operand} (hslots : pointerSlots function header element = some range)
    (hrounds : Rounds function arguments (walk.watched (range.beginsAt arguments) range.finishesAt)
      (visitsOn function walk arguments) events state watch)
    (hleft : .branched walk.header 1 walk.exit ∈ watch.since) : range.Visits watch := by
  obtain ⟨loop, rfl, hnext, hpredicate, hwidth, hspans⟩ := slotLoop_of_pointerSlots hwalk hreads hslots
  have hmeets : ∀ events watch state event,
      visitsOn function loop.toSlotWalk arguments events watch state event →
        loop.meets function arguments (isCurrent function displacementOf) events watch state event :=
    fun _ _ _ _ hmet => hmet.1
  have hbegins : Stands function arguments (isCurrent function displacementOf) loop.begin loop.width
      (range.beginsAt arguments) := by
    rw [hwidth]
    exact stands_begin_of_spans hspans
  have hend (events state watch bound)
      (hbefore : Rounds function arguments (loop.watched (range.beginsAt arguments) range.finishesAt)
        (visitsOn function loop.toSlotWalk arguments) events state watch)
      (hplace : state.place = loop.compare)
      (hmet : visitsOn function loop.toSlotWalk arguments events watch state (.ran loop.compare))
      (hbound : state.value arguments loop.rhs = some bound) :
      bound % 2 ^ loop.width = range.finishesAt watch.start state % 2 ^ loop.width := by
    have hin : function.inLoopOf loop.header state.place.block = true := by
      rw [hplace, loop.compare_in]
      exact ScalarFunction.inLoopOf_header loop.stays
    obtain ⟨first, hfirst, hstart⟩ := SlotLoop.begin_kept hmeets hbegins hdefined hbefore hin
    rw [hwidth] at hstart ⊢
    rw [ends_after_of_spans hspans hbefore.run (hmet.2 rfl) (hmet.1.2 rfl).1 hfirst hbound hstart]
    exact (Nat.mod_mod _ _).symm
  have hbound := SlotLoop.one_bound hmeets hend hrounds
  rw [hwidth] at hbound
  obtain ⟨earlier, counter, bound, htests, hfollows, hfails⟩ :=
    SlotLoop.tests_of_left hmeets hbegins hdefined hrounds hleft
  obtain ⟨seen, hfinish⟩ := hrounds.finish_cases (by rw [htests]; simp)
  have hposition (test) (htest : test ∈ watch.tests) :
      test.2 % 2 ^ 64 = SlotLoop.position watch.start range.stride.number.toNat range.length := by
    rw [hbound test htest, hfinish]
    exact Nat.mod_mod _ _
  unfold SlotRange.Visits
  rw [htests]
  have hstride := hspans.stride
  refine SlotLoop.Follows.visits_all hwidth ?_ ?_ ?_ (by omega) hfollows ?_ ?_ hfails
  · intro counter bound
    unfold SlotLoop.holds
    rw [hpredicate, hwidth, Predicate.holds_ne]
  · intro counter
    rw [hnext]
  · have hcast : ((range.length * range.stride.number.toNat : Nat) : Int) =
        range.length * range.stride.number := by
      rw [Int.natCast_mul, Int.toNat_of_nonneg range.strideNonneg]
    have hspan := hspans.span
    omega
  · intro test htest
    exact hposition test (by rw [htests]; exact List.mem_append_left _ htest)
  · exact hposition (counter, bound) (by rw [htests]; simp)

-- Where a loop is entered with its slot as the store before it left it, moves the slot once a round at
-- most and compares it with one end, and what leads to begin and end is current, it counts.
theorem counting_loops (hdefined : DefinedBeforeUse function)
    (hwalk : slotWalk function header = some walk) (hreads : readsInRound function walk = true) :
    (∀ counted, countedLoop function header = some counted → ∀ events state watch,
      Rounds function arguments (walk.watched (counted.beginsAt function walk arguments)
        (counted.finishesAt function walk arguments)) (countsOn function walk arguments)
        events state watch →
      .branched walk.header 1 walk.exit ∈ watch.since → counted.Counts walk.width watch) ∧
    ∀ element range, pointerSlots function header element = some range → ∀ events state watch,
      Rounds function arguments (walk.watched (range.beginsAt arguments) range.finishesAt)
        (visitsOn function walk arguments) events state watch →
      .branched walk.header 1 walk.exit ∈ watch.since → range.Visits watch :=
  ⟨fun _ hcounted _ _ _ hrounds hleft => counts_of_left hdefined hwalk hreads hcounted hrounds hleft,
    fun _ _ hslots _ _ _ hrounds hleft => visits_of_left hdefined hwalk hreads hslots hrounds hleft⟩

end Left

section Counting

def zeroToTwo : ScalarFunction where
  blocks := [⟨[.store "i" (.constant 32 0) 32], .unconditional [1]⟩,
    ⟨[.load "i" 32, .icmp .ICMP_SLT 32 (.result ⟨1, 0⟩) (.constant 32 2)],
      .conditional (.result ⟨1, 1⟩) 2 3⟩,
    ⟨[.load "i" 32, .add 32 (.result ⟨2, 0⟩) (.constant 32 1), .store "i" (.result ⟨2, 1⟩) 32],
      .unconditional [1]⟩,
    ⟨[], .ret⟩]

def zeroToTwoWalk : SlotWalk where
  header := 1
  inside := 2
  exit := 3
  predicate := .ICMP_SLT
  width := 32
  slot := "i"
  initial := ⟨0, 0⟩
  begin := .constant 32 0
  compare := ⟨1, 1⟩
  current := ⟨1, 0⟩
  rhs := .constant 32 2
  moved := ⟨2, 0⟩
  step := ⟨2, 1⟩
  advance := ⟨2, 2⟩

def zeroToTwoLoop : CountedLoop := ⟨"i", .constant 32 0, .constant 32 2, .ICMP_SLT, ⟨2, 2⟩⟩

def twoElements : ScalarFunction where
  blocks := [⟨[.element (.argument 0) (.constant 64 2) 8, .store "p" (.argument 0) 64],
      .unconditional [1]⟩,
    ⟨[.load "p" 64, .icmp .ICMP_NE 64 (.result ⟨1, 0⟩) (.result ⟨0, 0⟩)],
      .conditional (.result ⟨1, 1⟩) 2 3⟩,
    ⟨[.load "p" 64, .load "p" 64, .element (.result ⟨2, 1⟩) (.constant 64 1) 8,
      .store "p" (.result ⟨2, 2⟩) 64], .unconditional [1]⟩,
    ⟨[], .ret⟩]

def twoElementsWalk : SlotWalk where
  header := 1
  inside := 2
  exit := 3
  predicate := .ICMP_NE
  width := 64
  slot := "p"
  initial := ⟨0, 1⟩
  begin := .argument 0
  compare := ⟨1, 1⟩
  current := ⟨1, 0⟩
  rhs := .result ⟨0, 0⟩
  moved := ⟨2, 1⟩
  step := ⟨2, 2⟩
  advance := ⟨2, 3⟩

def twoElementsRange : SlotRange Operand where
  array := .argument 0
  origin := .wrapped 0
  stride := .wrapped 8
  begin := { index := some (.wrapped 0) }
  finish := { index := some (.wrapped 2) }
  predicate := .BAD_ICMP_PREDICATE
  strideNonneg := by decide

-- A counter from 0 to 2, and a cursor over two elements.
theorem counting_loops_left :
    (∃ events state watch, Rounds zeroToTwo (fun _ => 0) (zeroToTwoWalk.watched
        (zeroToTwoLoop.beginsAt zeroToTwo zeroToTwoWalk fun _ => 0)
        (zeroToTwoLoop.finishesAt zeroToTwo zeroToTwoWalk fun _ => 0))
        (countsOn zeroToTwo zeroToTwoWalk fun _ => 0) events state watch ∧
      watch.tests = [(0, 2), (1, 2), (2, 2)] ∧ zeroToTwoLoop.Counts 32 watch) ∧
    ∃ events state watch, Rounds twoElements (fun _ => 4096) (twoElementsWalk.watched
        (twoElementsRange.beginsAt fun _ => 4096) twoElementsRange.finishesAt)
        (visitsOn twoElements twoElementsWalk fun _ => 4096) events state watch ∧
      watch.tests = [(4096, 4112), (4104, 4112), (4112, 4112)] ∧ twoElementsRange.Visits watch := by
  constructor
  · refine ⟨_, _, _, watchFor_rounds _ _ _ _ 22, by decide +kernel, ?_⟩
    refine (@counting_loops zeroToTwo 1 zeroToTwoWalk (fun _ => 0) ?_ ?_ ?_).1 _ ?_ _ _ _
      (watchFor_rounds _ _ _ _ 22) ?_
    · exact .of_checks (by decide +kernel) (by decide +kernel)
    · decide +kernel
    · decide +kernel
    · decide +kernel
    · decide +kernel
  · refine ⟨_, _, _, watchFor_rounds _ _ _ _ 25, by decide +kernel, ?_⟩
    refine (@counting_loops twoElements 1 twoElementsWalk (fun _ => 4096) ?_ ?_ ?_).2
      (.result ⟨2, 0⟩) _ ?_ _ _ _
      (watchFor_rounds _ _ _ _ 25) ?_
    · exact .of_checks (by decide +kernel) (by decide +kernel)
    · decide +kernel
    · decide +kernel
    · decide +kernel
    · decide +kernel

end Counting

section Skipping

-- The counter is raised twice in each round, by an inner loop.
def advancedInside : ScalarFunction where
  blocks := [⟨[.store "i" (.constant 32 0) 32], .unconditional [1]⟩,
    ⟨[.load "i" 32, .icmp .ICMP_SLT 32 (.result ⟨1, 0⟩) (.constant 32 4)],
      .conditional (.result ⟨1, 1⟩) 2 3⟩,
    ⟨[.load "i" 32, .add 32 (.result ⟨2, 0⟩) (.constant 32 1), .store "i" (.result ⟨2, 1⟩) 32,
      .load "i" 32, .cast ⟨.Trunc, 32, 1⟩ (.result ⟨2, 3⟩)], .conditional (.result ⟨2, 4⟩) 2 1⟩,
    ⟨[], .ret⟩]

def advancedInsideWalk : SlotWalk := { zeroToTwoWalk with rhs := .constant 32 4 }

def advancedInsideLoop : CountedLoop := ⟨"i", .constant 32 0, .constant 32 4, .ICMP_SLT, ⟨2, 2⟩⟩

theorem counting_loops_skip : ¬∀ (function : ScalarFunction) (header : Nat) (walk : SlotWalk)
    (counted : CountedLoop) (arguments : Nat → Nat) (events : List CallEvent) (state : CallState)
    (watch : Watch), DefinedBeforeUse function → slotWalk function header = some walk →
      readsInRound function walk = true → countedLoop function header = some counted →
      Rounds function arguments (walk.watched (counted.beginsAt function walk arguments)
        (counted.finishesAt function walk arguments)) (fun _ _ _ _ => True) events state watch →
      .branched walk.header 1 walk.exit ∈ watch.since → counted.Counts walk.width watch := by
  intro hclaim
  have hreads := hclaim advancedInside 1 advancedInsideWalk advancedInsideLoop
    (fun _ => 0) _ _ _ (.of_checks (by decide +kernel) (by decide +kernel)) (by decide +kernel)
    (by decide +kernel) (by decide +kernel) (watchFor_rounds _ _ _ _ 40) (by decide +kernel)
  unfold CountedLoop.Counts at hreads
  exact absurd hreads (by decide +kernel)

end Skipping

end ConcurrencyAnalyzer.ThreadCompletion
