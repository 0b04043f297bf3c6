import ConcurrencyAnalyzer.ThreadCompletion.CurrentValues
import ConcurrencyAnalyzer.ThreadCompletion.SlotBounds

namespace ConcurrencyAnalyzer.ThreadCompletion.Slots

open Program

section Spelling

variable (function : ScalarFunction) (typeOf : Operand → IntegerType)

-- What the search goes on with from an operand.
def nextOperand (operand : Operand) : Option Operand :=
  (castSource function operand).or (storedOnce function operand)

-- How a function writes an operand.
inductive Spells : {bits : Nat} → Operand → Written typeOf bits → Prop where
  | constant (bits number : Nat) :
      Spells (.constant bits number) (.constant (BitVec.ofNat bits number))
  | value (operand : Operand) : (∀ bits number, operand ≠ .constant bits number) →
      nextOperand function operand = none → Spells operand (.value operand)
  | sext {bits target : Nat} {point : Point} {source : Operand} {written : Written typeOf bits}
      (wider : bits < target) :
      function.instructionAt point = some (.cast ⟨.SExt, bits, target⟩ source) →
        Spells source written → Spells (.result point) (.sext target wider written)
  | zext {bits target : Nat} {point : Point} {source : Operand} {written : Written typeOf bits}
      (wider : bits < target) :
      function.instructionAt point = some (.cast ⟨.ZExt, bits, target⟩ source) →
        Spells source written → Spells (.result point) (.zext target wider written)
  | copied {bits : Nat} {operand stored : Operand} {written : Written typeOf bits} :
      storedOnce function operand = some stored →
        Spells stored written → Spells operand (.copied written)

def rootOf : Operand → Root Operand
  | .constant bits number => .constant bits (BitVec.ofNat bits number)
  | operand => .value operand

end Spelling

section Following

variable {function : ScalarFunction} {typeOf : Operand → IntegerType}

def Written.depth : {bits : Nat} → Written typeOf bits → Nat
  | _, .constant _ => 0
  | _, .value _ => 0
  | _, .sext _ _ operand => operand.depth + 1
  | _, .zext _ _ operand => operand.depth + 1
  | _, .copied operand => operand.depth + 1

-- A local that is written once is loaded, and no cast.
theorem castSource_of_stored {operand stored : Operand}
    (h : storedOnce function operand = some stored) : castSource function operand = none := by
  cases operand with
  | constant bits number => rfl
  | argument index => rfl
  | result point =>
      cases hinstruction : function.instructionAt point with
      | none => simp [castSource, extensionOf, hinstruction]
      | some instruction =>
          cases instruction with
          | cast op source => simp [storedOnce, hinstruction] at h
          | _ => simp [castSource, extensionOf, hinstruction]

theorem instruction_of_next {operand next : Operand}
    (h : nextOperand function operand = some next) :
    ∃ point, operand = .result point ∧ (function.instructionAt point).isSome = true := by
  cases operand with
  | constant bits number => simp [nextOperand, castSource, storedOnce] at h
  | argument index => simp [nextOperand, castSource, storedOnce] at h
  | result point =>
      refine ⟨point, rfl, ?_⟩
      cases hinstruction : function.instructionAt point with
      | none => simp [nextOperand, castSource, storedOnce, hinstruction] at h
      | some instruction => rfl

-- The search goes down what is written, one layer at a time.
theorem next_of_spells {bits : Nat} {operand : Operand} {written : Written typeOf bits}
    (h : Spells function typeOf operand written) :
    (written.depth = 0 ∧ nextOperand function operand = none ∧
        rootOf operand = invariantValue written) ∨
      ∃ (inner : Nat) (next : Operand) (rest : Written typeOf inner),
        nextOperand function operand = some next ∧ Spells function typeOf next rest ∧
          written.depth = rest.depth + 1 ∧ invariantValue written = invariantValue rest := by
  cases h with
  | constant bits number => exact Or.inl ⟨rfl, rfl, rfl⟩
  | value operand hconstant hnone =>
      refine Or.inl ⟨rfl, hnone, ?_⟩
      cases operand with
      | constant bits number => exact absurd rfl (hconstant bits number)
      | argument index => rfl
      | result point => rfl
  | sext wider hinstruction hrest =>
      exact Or.inr ⟨_, _, _, by simp [nextOperand, castSource, extensionOf, hinstruction], hrest, rfl, rfl⟩
  | zext wider hinstruction hrest =>
      exact Or.inr ⟨_, _, _, by simp [nextOperand, castSource, extensionOf, hinstruction], hrest, rfl, rfl⟩
  | copied hstored hrest =>
      exact Or.inr ⟨_, _, _, by simp [nextOperand, castSource_of_stored hstored, hstored], hrest,
        rfl, rfl⟩

-- An operand is written to one depth.
theorem depth_unique {bits other : Nat} {operand : Operand} {written : Written typeOf bits}
    {again : Written typeOf other} (h : Spells function typeOf operand written)
    (h' : Spells function typeOf operand again) : written.depth = again.depth := by
  induction hdepth : written.depth generalizing bits other operand written again with
  | zero =>
      rcases next_of_spells h with ⟨-, hnone, -⟩ | ⟨_, _, _, -, -, hmore, -⟩
      · rcases next_of_spells h' with ⟨hzero, -⟩ | ⟨_, _, _, hnext, -⟩
        · exact hzero.symm
        · rw [hnone] at hnext
          simp at hnext
      · omega
  | succ depth ih =>
      rcases next_of_spells h with ⟨hzero, -⟩ | ⟨_, next, rest, hnext, hrest, hmore, -⟩
      · omega
      · rcases next_of_spells h' with ⟨-, hnone, -⟩ | ⟨_, next', rest', hnext', hrest', hmore', -⟩
        · rw [hnone] at hnext
          simp at hnext
        · obtain rfl : next = next' := Option.some.inj (hnext.symm.trans hnext')
          have hsame := ih hrest hrest' (by omega)
          omega

-- Each layer is an instruction of its own.
theorem exists_layers {bits : Nat} {operand : Operand} {written : Written typeOf bits}
    (h : Spells function typeOf operand written) :
    ∃ points : List Point, points.length = written.depth ∧ points.Nodup ∧
      ∀ point ∈ points, (function.instructionAt point).isSome = true ∧
        ∃ (inner : Nat) (rest : Written typeOf inner),
          Spells function typeOf (.result point) rest ∧ rest.depth ≤ written.depth := by
  induction hdepth : written.depth generalizing bits operand written with
  | zero => exact ⟨[], rfl, List.nodup_nil, by simp⟩
  | succ depth ih =>
      rcases next_of_spells h with ⟨hzero, -⟩ | ⟨_, next, rest, hnext, hrest, hmore, -⟩
      · omega
      · obtain ⟨points, hlength, hnodup, hpoints⟩ := ih hrest (by omega)
        obtain ⟨point, rfl, hinstruction⟩ := instruction_of_next hnext
        refine ⟨point :: points, by simp [hlength], ?_, ?_⟩
        · refine List.nodup_cons.mpr ⟨fun hmem => ?_, hnodup⟩
          obtain ⟨-, _, below, hbelow, hle⟩ := hpoints point hmem
          have hsame := depth_unique h hbelow
          omega
        · intro other hother
          rcases List.mem_cons.mp hother with rfl | hother
          · exact ⟨hinstruction, _, _, h, by omega⟩
          · obtain ⟨hsome, inner, below, hbelow, hle⟩ := hpoints other hother
            exact ⟨hsome, inner, below, hbelow, by omega⟩

theorem depth_le {bits : Nat} {operand : Operand} {written : Written typeOf bits}
    (h : Spells function typeOf operand written) :
    written.depth ≤ function.instructions.length := by
  obtain ⟨points, hlength, hnodup, hpoints⟩ := exists_layers h
  have hsubset : points ⊆ function.instructions.map Prod.fst := by
    intro point hpoint
    obtain ⟨instruction, hinstruction⟩ := Option.isSome_iff_exists.mp (hpoints point hpoint).1
    exact List.mem_map.mpr ⟨(point, instruction),
      ScalarFunction.mem_instructions.mpr hinstruction, rfl⟩
  have hle := (hnodup.subperm hsubset).length_le
  rw [List.length_map] at hle
  omega

-- With steps for every layer, all extensions are stripped, and what is left names the same value.
theorem exists_stripped {bits : Nat} {operand : Operand} {written : Written typeOf bits}
    (h : Spells function typeOf operand written) {steps : Nat} (hsteps : written.depth ≤ steps) :
    ∃ (inner : Nat) (rest : Written typeOf inner),
      Spells function typeOf (ThreadCompletion.stripIntegerCasts function steps operand) rest ∧
        castSource function (ThreadCompletion.stripIntegerCasts function steps operand) = none ∧
          rest.depth ≤ written.depth ∧ invariantValue written = invariantValue rest := by
  induction steps generalizing bits operand written with
  | zero =>
      have hstay : ThreadCompletion.stripIntegerCasts function 0 operand = operand := by
        cases operand <;> rfl
      rw [hstay]
      rcases next_of_spells h with ⟨-, hnone, -⟩ | ⟨_, _, _, -, -, hmore, -⟩
      · exact ⟨bits, written, h, (Option.or_eq_none_iff.mp hnone).1, Nat.le_refl _, rfl⟩
      · omega
  | succ steps ih =>
      cases hcast : castSource function operand with
      | none =>
          rw [stripIntegerCasts_of_none _ hcast]
          exact ⟨bits, written, h, hcast, Nat.le_refl _, rfl⟩
      | some source =>
          rw [stripIntegerCasts_succ steps hcast]
          have hnext : nextOperand function operand = some source := by simp [nextOperand, hcast]
          rcases next_of_spells h with ⟨-, hnone, -⟩ | ⟨_, next, rest, hsome, hrest, hdepth, hroot⟩
          · rw [hnext] at hnone
            simp at hnone
          · obtain rfl : source = next := Option.some.inj (hnext.symm.trans hsome)
            obtain ⟨inner, last, hlast, hstripped, hle, hsame⟩ := ih hrest (by omega)
            exact ⟨inner, last, hlast, hstripped, by omega, hroot.trans hsame⟩

-- No operand is come back to, since each one is written deeper than those that follow.
theorem followCopies_of_spells {bits : Nat} {operand : Operand} {written : Written typeOf bits}
    (h : Spells function typeOf operand written) {steps : Nat} (hsteps : written.depth < steps)
    {visited : List Operand} (hvisited : ∀ before ∈ visited, ∃ (outer : Nat)
      (whole : Written typeOf outer), Spells function typeOf before whole ∧
        written.depth < whole.depth) :
    ∃ found, followCopies function steps visited operand = some found ∧
      rootOf found = invariantValue written := by
  induction steps generalizing bits operand written visited with
  | zero => omega
  | succ steps ih =>
      have hfresh : operand ∉ visited := by
        intro hmem
        obtain ⟨_, whole, hwhole, hdeeper⟩ := hvisited operand hmem
        have hsame := depth_unique h hwhole
        omega
      obtain ⟨inner, rest, hrest, hstripped, hle, hroot⟩ := exists_stripped h (depth_le h)
      rw [followCopies, if_neg hfresh]
      dsimp only
      have hnextOf : nextOperand function (ThreadCompletion.stripIntegerCasts function
          function.instructions.length operand) = storedOnce function
            (ThreadCompletion.stripIntegerCasts function function.instructions.length operand) := by
        rw [nextOperand, hstripped, Option.none_or]
      rcases next_of_spells hrest with
        ⟨-, hnone, hfound⟩ | ⟨_, next, below, hnext, hbelow, hdepth, hsame⟩
      · rw [hnextOf] at hnone
        rw [hnone]
        exact ⟨_, rfl, hfound.trans hroot.symm⟩
      · rw [hnextOf] at hnext
        rw [hnext]
        obtain ⟨found, hfollowed, hfound⟩ := @ih _ next below hbelow (by omega)
          (operand :: visited) (by
            intro before hbefore
            rcases List.mem_cons.mp hbefore with rfl | hbefore
            · exact ⟨bits, written, h, by omega⟩
            · obtain ⟨outer, whole, hwhole, hdeeper⟩ := hvisited before hbefore
              exact ⟨outer, whole, hwhole, by omega⟩)
        exact ⟨found, hfollowed, by rw [hfound, hroot, hsame]⟩

-- The value that bounds are compared by is the one that the search finds in the function.
theorem invariantValue_of_spells {bits : Nat} {operand : Operand} {written : Written typeOf bits}
    (h : Spells function typeOf operand written) :
    ∃ found, ThreadCompletion.invariantValue function operand = some found ∧
      rootOf found = invariantValue written := by
  have hlayers := depth_le h
  exact followCopies_of_spells h (by omega) (by simp)

end Following

section Extended

def copiedBound : ScalarFunction where
  blocks := [⟨[.store "n" (.argument 0) 32, .load "n" 32, .cast ⟨.SExt, 32, 64⟩ (.result ⟨0, 1⟩)], .ret⟩]

-- A local that keeps an argument, extended.
theorem invariantValue_of_spells_copied :
    ∃ found, ThreadCompletion.invariantValue copiedBound (.result ⟨0, 2⟩) = some found ∧
      rootOf found = .value (.argument 0) := by
  have hargument : Spells copiedBound (fun _ => ⟨32, by decide⟩) (.argument 0) (.value (.argument 0)) :=
    .value (.argument 0) (fun _ _ => Operand.noConfusion) rfl
  have hcopied : Spells copiedBound (fun _ => ⟨32, by decide⟩) (.result ⟨0, 1⟩)
      (.copied (.value (.argument 0))) :=
    .copied (by decide) hargument
  have hextended : Spells copiedBound (fun _ => ⟨32, by decide⟩) (.result ⟨0, 2⟩)
      (.sext 64 (by decide) (.copied (.value (.argument 0)))) :=
    .sext (by decide) rfl hcopied
  exact invariantValue_of_spells hextended

end Extended

end ConcurrencyAnalyzer.ThreadCompletion.Slots
