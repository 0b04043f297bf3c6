import ConcurrencyAnalyzer.TaskConcurrency.CorrelatedTheorems
import ConcurrencyAnalyzer.ThreadCompletion.CountedLoop
import Mathlib.Data.Int.ModEq
import Mathlib.Tactic.Convert
import Mathlib.Tactic.Ring

namespace ConcurrencyAnalyzer.ThreadCompletion

open Program
open Slots (number_of_checked)

section Ways

-- What an instruction extends that only extends an integer.
def extensionOf : Scalar → Option Operand
  | .cast ⟨.ZExt, _, _⟩ operand => some operand
  | .cast ⟨.SExt, _, _⟩ operand => some operand
  | _ => none

-- What an instruction moves that only moves an address by a known number of bytes.
def displacementOf : Scalar → Option Operand
  | .cast ⟨.Reinterpret, _, _⟩ operand => some operand
  | .element base (.constant ..) _ => some base
  | _ => none

variable (function : ScalarFunction) (through : Scalar → Option Operand) (events : List CallEvent)

-- Whether an operand is what it would be if it was computed now, through some instructions and locals
-- stored once: nothing on the way was computed or stored again since it was used, and the locals are
-- read with the width they are written with.
def isCurrentWithin : Nat → Operand → Bool
  | 0, _ => false
  | steps + 1, .result point =>
      match function.instructionAt point with
      | some (.load slot width) =>
          match uniqueStore function slot with
          | some (write, stored) =>
              function.instructionAt write = some (.store slot stored width) &&
                (.ran write ∈ events && .ran write ∉ sinceLast events point) &&
                staysSince events write stored && isCurrentWithin steps stored
          | none => true
      | some instruction =>
          match through instruction with
          | some operand => staysSince events point operand && isCurrentWithin steps operand
          | none => true
      | none => true
  | _ + 1, _ => true

-- No way is longer than there are instructions.
def isCurrent (operand : Operand) : Bool :=
  isCurrentWithin function through events (function.instructions.length + 1) operand

-- A value under the extensions on the way to an operand.
def extendWithin : Nat → Operand → Nat → Nat
  | steps + 1, .result point, value =>
      match function.instructionAt point with
      | some (.cast ⟨.ZExt, _, _⟩ operand) => extendWithin steps operand value
      | some (.cast ⟨.SExt, source, target⟩ operand) =>
          Cast.apply ⟨.SExt, source, target⟩ (extendWithin steps operand value)
      | some (.load slot _) =>
          match uniqueStore function slot with
          | some (_, stored) => extendWithin steps stored value
          | none => value
      | _ => value
  | _, _, value => value

def extend (operand : Operand) (value : Nat) : Nat :=
  extendWithin function (function.instructions.length + 1) operand value

end Ways

section Currency

variable {function : ScalarFunction} {through : Scalar → Option Operand} {arguments : Nat → Nat}
  {events : List CallEvent} {state : CallState} {point : Point} {operand : Operand} {steps value : Nat}

-- A load of a local that is stored once has the value that was stored.
theorem stored_of_current (hrun : CallRun function arguments events state) {slot : String} {width : Nat}
    (hload : function.instructionAt point = some (.load slot width)) {only : Point × Operand}
    (honly : uniqueStore function slot = some only)
    (hcurrent : isCurrentWithin function through events (steps + 1) (.result point) = true)
    (hvalue : state.value arguments (.result point) = some value) :
    state.value arguments only.2 = some value ∧
      isCurrentWithin function through events steps only.2 = true := by
  unfold isCurrentWithin at hcurrent
  rw [hload] at hcurrent
  dsimp only at hcurrent
  rw [honly] at hcurrent
  simp only [Bool.and_eq_true, decide_eq_true_eq] at hcurrent
  obtain ⟨⟨⟨hstore, hran, hsince⟩, hstays⟩, hrest⟩ := hcurrent
  obtain ⟨_, hunique⟩ := TaskConcurrency.onlyStore_spec honly
  have hsame (write : Point) (written : Operand) (writtenWidth : Nat)
      (hwrite : function.instructionAt write = some (.store slot written writtenWidth)) :
      write = only.1 := congrArg Prod.fst (hunique write written writtenWidth hwrite)
  obtain ⟨held, hheld, hstored⟩ := hrun.stores_again hstore hran hstays
    fun write written writtenWidth hwrite => .inl (hsame write written writtenWidth hwrite)
  have hgives : state.Gives arguments (.load slot width) value := by
    refine hrun.gives_again hload hvalue (fun _ hnone => absurd hnone List.not_mem_nil) ?_
    rintro _ _ ⟨⟩ write written writtenWidth hwrite
    rw [hsame write written writtenWidth hwrite]
    exact hsince
  rw [hgives (TaskConcurrency.not_exposed_of_onlyStore hrun honly) held hheld]
  exact ⟨hstored, hrest⟩

-- An instruction that is followed has given what it would give now.
theorem gives_of_current (hrun : CallRun function arguments events state) {instruction : Scalar}
    (hat : function.instructionAt point = some instruction) (hthrough : through instruction = some operand)
    (hload : ∀ slot width, instruction ≠ .load slot width)
    (huses : ∀ used ∈ instruction.operands, used = operand ∨ ∃ width number, used = .constant width number)
    (hcurrent : isCurrentWithin function through events (steps + 1) (.result point) = true)
    (hvalue : state.value arguments (.result point) = some value) :
    state.Gives arguments instruction value ∧
      isCurrentWithin function through events steps operand = true := by
  have hboth : staysSince events point operand = true ∧
      isCurrentWithin function through events steps operand = true := by
    unfold isCurrentWithin at hcurrent
    rw [hat] at hcurrent
    cases instruction with
    | load slot width => exact absurd rfl (hload slot width)
    | _ => simpa only [hthrough, Bool.and_eq_true] using hcurrent
  refine ⟨hrun.gives_again hat hvalue (fun used hused => ?_) fun slot width heq => ?_, hboth.2⟩
  · rcases huses used hused with rfl | ⟨_, _, rfl⟩
    · exact hboth.1
    · rfl
  · exact absurd heq (hload slot width)

end Currency

section Integers

variable {function : ScalarFunction}

-- What an extension extends.
def castSource (function : ScalarFunction) : Operand → Option Operand
  | .result point => (function.instructionAt point).bind extensionOf
  | _ => none

theorem stripIntegerCasts_of_none (steps : Nat) {operand : Operand}
    (h : castSource function operand = none) : stripIntegerCasts function steps operand = operand := by
  cases steps with
  | zero => cases operand <;> rfl
  | succ steps =>
      cases operand with
      | constant bits number => rfl
      | argument index => rfl
      | result point =>
          rw [castSource] at h
          unfold stripIntegerCasts
          cases hat : function.instructionAt point with
          | none => rfl
          | some instruction =>
              rw [hat, Option.bind_some] at h
              cases instruction with
              | cast cast source =>
                  obtain ⟨op, _, _⟩ := cast
                  cases op <;> first | rfl | cases h
              | _ => rfl

theorem stripIntegerCasts_succ (steps : Nat) {operand source : Operand}
    (h : castSource function operand = some source) :
    stripIntegerCasts function (steps + 1) operand = stripIntegerCasts function steps source := by
  cases operand with
  | constant bits number => cases h
  | argument index => cases h
  | result point =>
      rw [castSource] at h
      cases hat : function.instructionAt point with
      | none =>
          rw [hat] at h
          cases h
      | some instruction =>
          rw [hat, Option.bind_some] at h
          rw [stripIntegerCasts, hat]
          cases instruction with
          | cast cast operand =>
              obtain ⟨op, _, _⟩ := cast
              cases op <;> first | (cases h; rfl) | cases h
          | _ => cases h

variable {arguments : Nat → Nat} {events : List CallEvent} {state : CallState}
  {operand root : Operand} {steps fuel value : Nat}

-- A value of an operand is what comes of the value of another under the extensions in between.
structure Extends (function : ScalarFunction) (fuel : Nat) (operand : Operand) (value : Nat)
    (less : Nat) (found : Operand) (given : Nat) : Prop where
  le : less ≤ fuel
  extends_from : ∀ source, given = extendWithin function less found source →
    value = extendWithin function fuel operand source

theorem extends_castSource (hrun : CallRun function arguments events state) {source : Operand}
    (hsource : castSource function operand = some source)
    (hcurrent : isCurrentWithin function extensionOf events (fuel + 1) operand = true)
    (hvalue : state.value arguments operand = some value) :
    isCurrentWithin function extensionOf events fuel source = true ∧
      ∃ given, state.value arguments source = some given ∧
        Extends function (fuel + 1) operand value fuel source given := by
  cases operand with
  | constant bits number => cases hsource
  | argument index => cases hsource
  | result point =>
      obtain ⟨instruction, hat, hextension⟩ := Option.bind_eq_some_iff.mp hsource
      cases instruction with
      | cast cast operand =>
          obtain ⟨op, bits, target⟩ := cast
          have hsame : operand = source := by
            cases op <;> first | exact Option.some.inj hextension | cases hextension
          subst hsame
          obtain ⟨⟨given, hgiven, rfl⟩, hrest⟩ := gives_of_current hrun hat hextension
            (fun _ _ heq => by cases heq) (by simp [Scalar.operands]) hcurrent hvalue
          refine ⟨hrest, given, hgiven, Nat.le_succ fuel, fun source hfrom => ?_⟩
          rw [extendWithin, hat]
          cases op with
          | ZExt => exact hfrom
          | SExt => exact congrArg (Cast.apply ⟨.SExt, bits, target⟩) hfrom
          | Trunc => cases hextension
          | Reinterpret => cases hextension
      | _ => cases hextension

theorem storedOnce_spec {stored : Operand} (h : storedOnce function operand = some stored) :
    ∃ point slot width only, operand = .result point ∧
      function.instructionAt point = some (.load slot width) ∧ uniqueStore function slot = some only ∧
        only.2 = stored := by
  unfold storedOnce at h
  split at h
  · split at h
    · rename_i slot width hload
      obtain ⟨only, honly, hstored⟩ := Option.map_eq_some_iff.mp h
      exact ⟨_, slot, width, only, rfl, hload, honly, hstored⟩
    · cases h
  · cases h

theorem extends_stored (hrun : CallRun function arguments events state) {stored : Operand}
    (hstored : storedOnce function operand = some stored)
    (hcurrent : isCurrentWithin function extensionOf events (fuel + 1) operand = true)
    (hvalue : state.value arguments operand = some value) :
    isCurrentWithin function extensionOf events fuel stored = true ∧
      state.value arguments stored = some value ∧
        Extends function (fuel + 1) operand value fuel stored value := by
  obtain ⟨point, slot, width, only, rfl, hload, honly, rfl⟩ := storedOnce_spec hstored
  obtain ⟨hwritten, hrest⟩ := stored_of_current hrun hload honly hcurrent hvalue
  refine ⟨hrest, hwritten, Nat.le_succ fuel, fun source hfrom => ?_⟩
  rw [extendWithin, hload]
  dsimp only
  rw [honly]
  exact hfrom

theorem Extends.trans {middle less : Nat} {between found : Operand} {among given : Nat}
    (h : Extends function fuel operand value middle between among)
    (hthen : Extends function middle between among less found given) :
    Extends function fuel operand value less found given :=
  ⟨hthen.le.trans h.le, fun source hfrom => h.extends_from source (hthen.extends_from source hfrom)⟩

-- With steps for every extension, all are stripped.
theorem extends_stripIntegerCasts (hrun : CallRun function arguments events state)
    (hcurrent : isCurrentWithin function extensionOf events fuel operand = true)
    (hfuel : fuel ≤ steps + 1) (hvalue : state.value arguments operand = some value) :
    castSource function (stripIntegerCasts function steps operand) = none ∧ ∃ less given,
      isCurrentWithin function extensionOf events less (stripIntegerCasts function steps operand) =
        true ∧
      state.value arguments (stripIntegerCasts function steps operand) = some given ∧
      Extends function fuel operand value less (stripIntegerCasts function steps operand) given := by
  induction steps generalizing fuel operand value with
  | zero =>
      cases hsource : castSource function operand with
      | none =>
          rw [stripIntegerCasts_of_none 0 hsource]
          exact ⟨hsource, fuel, value, hcurrent, hvalue, le_refl fuel, fun _ h => h⟩
      | some source =>
          cases fuel with
          | zero => cases hcurrent
          | succ fuel =>
              have hnone : fuel = 0 := by omega
              subst hnone
              cases (extends_castSource hrun hsource hcurrent hvalue).1
  | succ steps ih =>
      cases hsource : castSource function operand with
      | none =>
          rw [stripIntegerCasts_of_none _ hsource]
          exact ⟨hsource, fuel, value, hcurrent, hvalue, le_refl fuel, fun _ h => h⟩
      | some source =>
          cases fuel with
          | zero => cases hcurrent
          | succ fuel =>
              obtain ⟨hrest, among, hamong, hextends⟩ :=
                extends_castSource hrun hsource hcurrent hvalue
              obtain ⟨hnone, less, given, hless, hgiven, hthen⟩ := ih hrest (by omega) hamong
              rw [stripIntegerCasts_succ steps hsource]
              exact ⟨hnone, less, given, hless, hgiven, hextends.trans hthen⟩

-- What is neither an extension nor a copy is not extended.
theorem extendWithin_root (hcast : castSource function operand = none)
    (hstored : storedOnce function operand = none) (fuel source : Nat) :
    extendWithin function fuel operand source = source := by
  cases fuel with
  | zero => cases operand <;> rfl
  | succ fuel =>
      cases operand with
      | constant bits number => rfl
      | argument index => rfl
      | result point =>
          rw [castSource] at hcast
          rw [storedOnce] at hstored
          unfold extendWithin
          cases hat : function.instructionAt point with
          | none => rfl
          | some instruction =>
              rw [hat, Option.bind_some] at hcast
              rw [hat] at hstored
              cases instruction with
              | cast cast source =>
                  obtain ⟨op, _, _⟩ := cast
                  cases op <;> first | rfl | cases hcast
              | load slot width =>
                  dsimp only at hstored ⊢
                  rw [Option.map_eq_none_iff] at hstored
                  rw [hstored]
              | _ => rfl

theorem value_of_followCopies (hrun : CallRun function arguments events state) {visited : List Operand}
    (h : followCopies function steps visited operand = some root)
    (hcurrent : isCurrentWithin function extensionOf events fuel operand = true)
    (hfuel : fuel ≤ function.instructions.length + 1)
    (hvalue : state.value arguments operand = some value) :
    ∃ given, state.value arguments root = some given ∧
      value = extendWithin function fuel operand given := by
  induction steps generalizing fuel operand value visited with
  | zero => cases h
  | succ steps ih =>
      unfold followCopies at h
      split at h
      · cases h
      · obtain ⟨hcast, less, given, hless, hgiven, hextends⟩ :=
          extends_stripIntegerCasts hrun hcurrent hfuel hvalue
        dsimp only at h
        split at h
        · rename_i hnone
          rw [Option.some.injEq] at h
          subst h
          exact ⟨given, hgiven,
            hextends.extends_from given (extendWithin_root hcast hnone less given).symm⟩
        · rename_i stored hstored
          cases less with
          | zero => cases hless
          | succ less =>
              obtain ⟨hrest, hwritten, hthen⟩ := extends_stored hrun hstored hless hgiven
              have hle := hextends.le
              obtain ⟨found, hfound, hfrom⟩ := ih h hrest (by omega) hwritten
              exact ⟨found, hfound, (hextends.trans hthen).extends_from found hfrom⟩

-- A value that is current is the one that the search finds, under the extensions on the way.
theorem value_of_invariantValue (hrun : CallRun function arguments events state)
    (h : invariantValue function operand = some root)
    (hcurrent : isCurrent function extensionOf events operand = true)
    (hvalue : state.value arguments operand = some value) :
    value = extend function operand ((state.value arguments root).getD 0) := by
  obtain ⟨given, hgiven, hfrom⟩ := value_of_followCopies hrun h hcurrent (le_refl _) hvalue
  rw [hgiven]
  exact hfrom

end Integers

section Addresses

variable {function : ScalarFunction} {arguments : Nat → Nat} {events : List CallEvent}
  {state : CallState} {operand : Operand} {address found : SlotAddress} {steps fuel value : Nat}

-- A pointer is some bytes past another, as far as addresses go.
def Past (value given : Nat) (offset : Int) : Prop := (value : Int) ≡ given + offset [ZMOD 2 ^ 64]

theorem Past.trans {between given : Nat} {first second : Int} (h : Past value between first)
    (hthen : Past between given second) : Past value given (second + first) := by
  have hsum := Int.ModEq.trans h (Int.ModEq.add_right first hthen)
  rw [Int.add_assoc] at hsum
  exact hsum

theorem int64_modEq (number : Int) : int64 number ≡ number [ZMOD 2 ^ 64] := by
  unfold int64 Int.ModEq
  exact Int.bmod_emod

-- A local that is stored once has the value that was stored.
theorem value_of_followLocals (hrun : CallRun function arguments events state) {seen : List Operand}
    (hcurrent : isCurrentWithin function displacementOf events fuel operand = true)
    (hvalue : state.value arguments operand = some value) :
    state.value arguments (followLocals function steps seen operand) = some value ∧ ∃ less,
      isCurrentWithin function displacementOf events less (followLocals function steps seen operand) =
        true := by
  induction steps generalizing fuel operand seen with
  | zero => exact ⟨hvalue, fuel, hcurrent⟩
  | succ steps ih =>
      unfold followLocals
      split
      · exact ⟨hvalue, fuel, hcurrent⟩
      · split
        · exact ⟨hvalue, fuel, hcurrent⟩
        · rename_i stored hstored
          cases fuel with
          | zero => cases hcurrent
          | succ fuel =>
              obtain ⟨point, slot, width, only, rfl, hload, honly, rfl⟩ := storedOnce_spec hstored
              obtain ⟨hwritten, hrest⟩ := stored_of_current hrun hload honly hcurrent hvalue
              exact ih hrest hwritten

theorem value_of_throughSingleStoreLocals (hrun : CallRun function arguments events state)
    (hcurrent : isCurrentWithin function displacementOf events fuel operand = true)
    (hvalue : state.value arguments operand = some value) :
    state.value arguments (throughSingleStoreLocals function operand) = some value ∧ ∃ less,
      isCurrentWithin function displacementOf events less (throughSingleStoreLocals function operand) =
        true :=
  value_of_followLocals hrun hcurrent hvalue

-- An index that varies is kept.
theorem index_of_elementsOf (h : elementsOf function steps address = some found)
    (hnone : found.index = none) : address.index = none := by
  induction steps generalizing address with
  | zero =>
      cases h
      exact hnone
  | succ steps ih =>
      unfold elementsOf at h
      split at h
      · split at h
        · have hindex := ih h
          exact hindex
        · obtain ⟨offset, _, hrest⟩ := Option.bind_eq_some_iff.mp h
          have hindex := ih hrest
          exact hindex
        · split at h
          · cases h
          · cases ih h
        · cases h
          exact hnone
      · cases h
        exact hnone

-- An address without an index that varies is some bytes past its object.
theorem value_of_elementsOf (hrun : CallRun function arguments events state)
    (h : elementsOf function steps address = some found) (hnone : found.index = none)
    (hcurrent : isCurrentWithin function displacementOf events fuel address.object = true)
    (hvalue : state.value arguments address.object = some value) :
    ∃ less given, isCurrentWithin function displacementOf events less found.object = true ∧
      state.value arguments found.object = some given ∧
        Past value given (found.offset.number - address.offset.number) := by
  induction steps generalizing fuel address value with
  | zero =>
      cases h
      refine ⟨fuel, value, hcurrent, hvalue, ?_⟩
      unfold Past
      rw [Int.sub_self, Int.add_zero]
  | succ steps ih =>
      have hself (hsame : address = found) : ∃ less given,
          isCurrentWithin function displacementOf events less found.object = true ∧
            state.value arguments found.object = some given ∧
              Past value given (found.offset.number - address.offset.number) := by
        subst hsame
        refine ⟨fuel, value, hcurrent, hvalue, ?_⟩
        unfold Past
        rw [Int.sub_self, Int.add_zero]
      unfold elementsOf at h
      split at h
      · rename_i point hobject
        rw [hobject] at hcurrent hvalue
        cases fuel with
        | zero => cases hcurrent
        | succ fuel =>
            split at h
            · rename_i source hat
              obtain ⟨⟨given, hgiven, rfl⟩, hrest⟩ := gives_of_current hrun hat rfl
                (fun _ _ heq => by cases heq) (by simp [Scalar.operands]) hcurrent hvalue
              obtain ⟨less, start, hless, hstart, hpast⟩ := ih h hrest hgiven
              exact ⟨less, start, hless, hstart, hpast⟩
            · rename_i base width number size hat
              obtain ⟨offset, hoffset, hfurther⟩ := Option.bind_eq_some_iff.mp h
              obtain ⟨⟨start, count, hstart, hcount, hmoved⟩, hrest⟩ := gives_of_current hrun hat rfl
                (fun _ _ heq => by cases heq) (by simp [Scalar.operands]) hcurrent hvalue
              obtain ⟨less, given, hless, hgiven, hpast⟩ := ih hfurther hrest hstart
              refine ⟨less, given, hless, hgiven, ?_⟩
              have hnumber : count = signedValue width number := (Option.some.inj hcount).symm
              have hfirst : Past value start (int64 (signedValue width number * size)) := by
                unfold Past
                rw [hmoved, Int.toNat_of_nonneg (Int.emod_nonneg _ (by norm_num)), hnumber]
                exact (Int.mod_modEq _ _).trans (Int.ModEq.add_left _ (int64_modEq _).symm)
              have hsum : offset.number = address.offset.number + int64 (signedValue width number * size) :=
                number_of_checked hoffset
              have hboth := hfirst.trans hpast
              rw [hsum] at hboth
              convert hboth using 1
              ring
            · split at h
              · cases h
              · cases index_of_elementsOf h hnone
            · exact hself (Option.some.inj h)
      · exact hself (Option.some.inj h)

theorem value_of_slotAddress (hrun : CallRun function arguments events state)
    (h : slotAddress function operand = some found) (hnone : found.index = none)
    (hcurrent : isCurrentWithin function displacementOf events fuel operand = true)
    (hvalue : state.value arguments operand = some value) :
    ∃ less given, isCurrentWithin function displacementOf events less found.object = true ∧
      state.value arguments found.object = some given ∧ Past value given found.offset.number := by
  have hwalked : elementsOf function (function.instructions.length + 1) { object := operand } =
      some found := h
  obtain ⟨less, given, hless, hgiven, hpast⟩ := value_of_elementsOf hrun hwalked hnone hcurrent hvalue
  have hzero : (Slots.Int64.wrapped 0).number = 0 := by decide
  rw [hzero, Int.sub_zero] at hpast
  exact ⟨less, given, hless, hgiven, hpast⟩

theorem index_of_objectThroughLocals (h : objectThroughLocals function steps address = some found)
    (hnone : found.index = none) : address.index = none := by
  induction steps generalizing address with
  | zero =>
      cases h
      exact hnone
  | succ steps ih =>
      unfold objectThroughLocals at h
      dsimp only at h
      split at h
      · cases h
        exact hnone
      · obtain ⟨joined, hjoined, hrest⟩ := Option.bind_eq_some_iff.mp h
        obtain ⟨inner, _, hjoin⟩ := Option.bind_eq_some_iff.mp hjoined
        obtain ⟨offset, _, hjoin⟩ := Option.bind_eq_some_iff.mp hjoin
        split at hjoin
        · cases hjoin
        · cases hjoin
          exact (Option.or_eq_none_iff.mp (ih hrest)).1

-- Its object is followed through locals that are stored once, to an address again.
theorem value_of_objectThroughLocals (hrun : CallRun function arguments events state)
    (h : objectThroughLocals function steps address = some found) (hnone : found.index = none)
    (hcurrent : isCurrentWithin function displacementOf events fuel address.object = true)
    (hvalue : state.value arguments address.object = some value) :
    ∃ given, state.value arguments found.object = some given ∧
      Past value given (found.offset.number - address.offset.number) := by
  induction steps generalizing fuel address value with
  | zero =>
      cases h
      refine ⟨value, hvalue, ?_⟩
      unfold Past
      rw [Int.sub_self, Int.add_zero]
  | succ steps ih =>
      unfold objectThroughLocals at h
      dsimp only at h
      split at h
      · cases h
        refine ⟨value, hvalue, ?_⟩
        unfold Past
        rw [Int.sub_self, Int.add_zero]
      · obtain ⟨joined, hjoined, hrest⟩ := Option.bind_eq_some_iff.mp h
        obtain ⟨inner, hinner, hjoin⟩ := Option.bind_eq_some_iff.mp hjoined
        obtain ⟨offset, hoffset, hjoin⟩ := Option.bind_eq_some_iff.mp hjoin
        split at hjoin
        · cases hjoin
        · cases hjoin
          have hindex := (Option.or_eq_none_iff.mp (index_of_objectThroughLocals hrest hnone)).2
          obtain ⟨hread, less, hless⟩ := value_of_throughSingleStoreLocals hrun hcurrent hvalue
          obtain ⟨less, start, hless, hstart, hfirst⟩ :=
            value_of_slotAddress hrun hinner hindex hless hread
          obtain ⟨given, hgiven, hpast⟩ := ih hrest hless hstart
          refine ⟨given, hgiven, ?_⟩
          have hboth := hfirst.trans hpast
          have hsum : offset.number = inner.offset.number + address.offset.number :=
            number_of_checked hoffset
          rw [hsum] at hboth
          convert hboth using 1
          ring

theorem value_of_slotAddressThroughLocals (hrun : CallRun function arguments events state)
    (h : slotAddressThroughLocals function operand = some found) (hnone : found.index = none)
    (hcurrent : isCurrent function displacementOf events operand = true)
    (hvalue : state.value arguments operand = some value) :
    ∃ given, state.value arguments found.object = some given ∧ Past value given found.offset.number := by
  obtain ⟨inner, hinner, hthrough⟩ := Option.bind_eq_some_iff.mp h
  have hindex := index_of_objectThroughLocals hthrough hnone
  obtain ⟨hread, less, hless⟩ := value_of_throughSingleStoreLocals hrun hcurrent hvalue
  obtain ⟨less, start, hless, hstart, hfirst⟩ := value_of_slotAddress hrun hinner hindex hless hread
  obtain ⟨given, hgiven, hpast⟩ := value_of_objectThroughLocals hrun hthrough hnone hless hstart
  refine ⟨given, hgiven, ?_⟩
  have hboth := hfirst.trans hpast
  convert hboth using 1
  ring

end Addresses

end ConcurrencyAnalyzer.ThreadCompletion
