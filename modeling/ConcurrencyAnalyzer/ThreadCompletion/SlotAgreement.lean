import ConcurrencyAnalyzer.ThreadCompletion.SlotRanges

namespace ConcurrencyAnalyzer.ThreadCompletion.Slots

section Extremes

variable {Value : Type} {typeOf : Value → IntegerType}

-- The numbers that a root stands for under some values.
def Root.Takes (typeOf : Value → IntegerType) (number : Int) : Root Value → Prop
  | .constant _ fixed => number = fixed.toInt
  | .value named =>
      -2 ^ ((typeOf named).bits - 1) ≤ number ∧ number < 2 ^ ((typeOf named).bits - 1)

def Root.MayBeNegative : Root Value → Prop
  | .constant _ number => number.toInt < 0
  | .value _ => True

def Root.leastNegative (typeOf : Value → IntegerType) : Root Value → Int
  | .constant _ number => number.toInt
  | .value named => -2 ^ ((typeOf named).bits - 1)

def Root.greatestNegative : Root Value → Int
  | .constant _ number => number.toInt
  | .value _ => -1

namespace WrittenBound

variable {bits : Nat} (signed : Bool) (bound : WrittenBound typeOf bits)

-- The least and the greatest number that a comparison reads a bound as.
def lowest : Int :=
  match bound.bound.index, bound.bound.value with
  | some index, _ => index.number
  | none, some (.constant _ number) => lifted (bound.lift signed) number.toInt
  | none, some (.value named) =>
      if bound.lift signed = 0 then -2 ^ ((typeOf named).bits - 1) else 0
  | none, none => 0

def highest : Int :=
  match bound.bound.index, bound.bound.value with
  | some index, _ => index.number
  | none, some (.constant _ number) => lifted (bound.lift signed) number.toInt
  | none, some (.value named) =>
      if bound.lift signed = 0 then 2 ^ ((typeOf named).bits - 1) - 1 else bound.lift signed - 1
  | none, none => 0

end WrittenBound

theorem two_pow_bits (named : Value) :
    (2 : Int) ^ (typeOf named).bits = 2 * 2 ^ ((typeOf named).bits - 1) := by
  have hpositive := (typeOf named).positive
  rw [← pow_succ', Nat.sub_add_cancel hpositive]

theorem half_pos (named : Value) : (0 : Int) < 2 ^ ((typeOf named).bits - 1) := by positivity

theorem takes_number (values : Values typeOf) (root : Root Value) :
    root.Takes typeOf (root.number values) := by
  cases root with
  | constant bits number => rfl
  | value named => exact ⟨BitVec.le_toInt _, BitVec.toInt_lt⟩

theorem leastNegative_le (values : Values typeOf) (root : Root Value) :
    root.leastNegative typeOf ≤ root.number values := by
  cases root with
  | constant bits number => exact Int.le_refl _
  | value named => exact BitVec.le_toInt _

theorem le_greatestNegative (values : Values typeOf) (root : Root Value)
    (h : root.number values < 0) : root.number values ≤ root.greatestNegative := by
  cases root with
  | constant bits number => exact Int.le_refl _
  | value named =>
      show (values named).toInt ≤ -1
      have hneg : (values named).toInt < 0 := h
      omega

theorem mayBeNegative_of_neg (values : Values typeOf) (root : Root Value)
    (h : root.number values < 0) : root.MayBeNegative := by
  cases root with
  | constant bits number => exact h
  | value named => trivial

theorem takes_negative {root : Root Value} (h : root.MayBeNegative) :
    (root.Takes typeOf (root.leastNegative typeOf) ∧ root.leastNegative typeOf < 0) ∧
      root.Takes typeOf root.greatestNegative ∧ root.greatestNegative < 0 := by
  cases root with
  | constant bits number => exact ⟨⟨rfl, h⟩, rfl, h⟩
  | value named =>
      have hhalf := @half_pos _ typeOf named
      refine ⟨⟨⟨Int.le_refl _, ?_⟩, ?_⟩, ⟨?_, ?_⟩, ?_⟩
      · show -2 ^ ((typeOf named).bits - 1) < 2 ^ ((typeOf named).bits - 1)
        omega
      · show -2 ^ ((typeOf named).bits - 1) < 0
        omega
      · show -2 ^ ((typeOf named).bits - 1) ≤ -1
        omega
      · show -1 < 2 ^ ((typeOf named).bits - 1)
        omega
      · show (-1 : Int) < 0
        decide

-- One root and all other values take what numbers they can at once.
theorem exists_values [DecidableEq Value] {root : Root Value} {number : Int}
    (hroot : root.Takes typeOf number) (others : Value → Int)
    (hothers : ∀ named, (Root.value named).Takes typeOf (others named)) :
    ∃ values : Values typeOf, root.number values = number ∧
      ∀ named, Root.value named ≠ root → (values named).toInt = others named := by
  have hread : ∀ (named : Value) (taken : Int), (Root.value named).Takes typeOf taken →
      (BitVec.ofInt (typeOf named).bits taken).toInt = taken := by
    intro named taken htaken
    exact BitVec.toInt_ofInt_eq_self (typeOf named).positive htaken.1 htaken.2
  refine ⟨fun named => BitVec.ofInt _ (if Root.value named = root then number else others named),
    ?_, ?_⟩
  · cases root with
    | constant bits constant => exact hroot.symm
    | value named =>
        show (BitVec.ofInt _ (if Root.value named = Root.value named then number else _)).toInt = _
        rw [if_pos rfl, hread named number hroot]
  · intro named hne
    show (BitVec.ofInt _ (if Root.value named = root then number else others named)).toInt = _
    rw [if_neg hne, hread named _ (hothers named)]

variable {bits : Nat} {signed : Bool} (bound : WrittenBound typeOf bits)

-- A lift is as large as the type it lifts from, or none.
theorem le_lift {named : Value} (hbound : bound.bound.value = some (.value named))
    (hlift : bound.lift signed ≠ 0) : 2 ^ (typeOf named).bits ≤ bound.lift signed := by
  cases bound with
  | known index => simp [WrittenBound.bound] at hbound
  | written operand =>
      apply le_liftAs operand _ hlift
      rw [WrittenBound.bound] at hbound
      rcases slotBound_cases typeOf (invariantValue operand) with ⟨index, hknown, -⟩ | hnamed
      · simp [hknown] at hbound
      · rw [hnamed] at hbound
        exact Option.some.inj hbound

-- A bound is read as one number always, or it varies with a value.
theorem bound_shape (signed : Bool) (bound : WrittenBound typeOf bits) :
    (∃ number, bound.lowest signed = number ∧ bound.highest signed = number ∧
        ∀ values, bound.reading signed values = number) ∨
      ∃ named, bound.bound.value = some (.value named) ∧
        bound.lowest signed =
          (if bound.lift signed = 0 then -2 ^ ((typeOf named).bits - 1) else 0) ∧
        bound.highest signed =
          (if bound.lift signed = 0 then 2 ^ ((typeOf named).bits - 1) - 1
            else bound.lift signed - 1) ∧
        ∀ values, bound.reading signed values =
          lifted (bound.lift signed) (values named).toInt := by
  unfold WrittenBound.lowest WrittenBound.highest
  rcases bound_cases signed bound with ⟨index, hknown, hread⟩ | ⟨root, hnamed, hread⟩
  · left
    exact ⟨index.number, by rw [hknown], by rw [hknown], hread⟩
  · cases root with
    | constant width number =>
        left
        exact ⟨_, by rw [hnamed], by rw [hnamed], hread⟩
    | value named =>
        right
        exact ⟨named, by rw [hnamed], by rw [hnamed], by rw [hnamed], hread⟩

theorem reading_between (values : Values typeOf) :
    bound.lowest signed ≤ bound.reading signed values ∧
      bound.reading signed values ≤ bound.highest signed := by
  rcases bound_shape signed bound with
    ⟨number, hlow, hhigh, hread⟩ | ⟨named, hvalue, hlow, hhigh, hread⟩
  · rw [hlow, hhigh, hread]
    omega
  · obtain ⟨hleast, hgreatest⟩ := takes_number values (Root.value named)
    simp only [Root.number] at hleast hgreatest
    have hlift := @le_lift _ _ _ signed bound named hvalue
    have hpow := @two_pow_bits _ typeOf named
    rw [hlow, hhigh, hread]
    unfold lifted
    by_cases hzero : bound.lift signed = 0
    · rw [if_pos hzero, if_pos hzero]
      split <;> omega
    · rw [if_neg hzero, if_neg hzero]
      split <;> omega

variable [DecidableEq Value]

-- A bound is read as the least or the greatest it can be while another root is any number that it
-- takes.
theorem exists_lowest {root : Root Value} {number : Int} (hroot : root.Takes typeOf number)
    (hother : bound.bound.value ≠ some root) :
    ∃ values : Values typeOf, root.number values = number ∧
      bound.reading signed values = bound.lowest signed := by
  obtain ⟨values, hnumber, hothers⟩ := @exists_values _ typeOf _ _ _ hroot
    (fun named => if bound.lift signed = 0 then -2 ^ ((typeOf named).bits - 1) else 0) (by
      intro named
      have hhalf := @half_pos _ typeOf named
      simp only [Root.Takes]
      split <;> omega)
  refine ⟨values, hnumber, ?_⟩
  rcases bound_shape signed bound with
    ⟨fixed, hlow, -, hread⟩ | ⟨named, hvalue, hlow, -, hread⟩
  · rw [hlow, hread]
  · have hhalf := @half_pos _ typeOf named
    rw [hlow, hread, hothers named fun hsame => hother (hsame ▸ hvalue)]
    unfold lifted
    split <;> omega

theorem exists_highest {root : Root Value} {number : Int} (hroot : root.Takes typeOf number)
    (hother : bound.bound.value ≠ some root) :
    ∃ values : Values typeOf, root.number values = number ∧
      bound.reading signed values = bound.highest signed := by
  obtain ⟨values, hnumber, hothers⟩ := @exists_values _ typeOf _ _ _ hroot
    (fun named => if bound.lift signed = 0 then 2 ^ ((typeOf named).bits - 1) - 1 else -1) (by
      intro named
      have hhalf := @half_pos _ typeOf named
      simp only [Root.Takes]
      split <;> omega)
  refine ⟨values, hnumber, ?_⟩
  rcases bound_shape signed bound with
    ⟨fixed, -, hhigh, hread⟩ | ⟨named, hvalue, -, hhigh, hread⟩
  · rw [hhigh, hread]
  · have hhalf := @half_pos _ typeOf named
    rw [hhigh, hread, hothers named fun hsame => hother (hsame ▸ hvalue)]
    unfold lifted
    split <;> omega

end Extremes

section Stopping

variable {Value : Type} [DecidableEq Value] {typeOf : Value → IntegerType}

-- A range names no slot where the value it begins at, or ends at, is negative.
def WrittenRange.StopsBelowBegin (written : WrittenRange typeOf) (root : Root Value) : Prop :=
  if written.finish.bound.value = some root then
    written.finish.lift written.signed ≤ written.begin.lift written.signed
  else
    written.finish.highest written.signed ≤
      root.leastNegative typeOf + written.begin.lift written.signed

def WrittenRange.StopsBelowFinish (written : WrittenRange typeOf) (root : Root Value) : Prop :=
  if written.begin.bound.value = some root then
    written.finish.lift written.signed ≤ written.begin.lift written.signed
  else
    root.greatestNegative + written.finish.lift written.signed ≤
      written.begin.lowest written.signed

variable {written : WrittenRange typeOf} {root : Root Value} {values : Values typeOf}

omit [DecidableEq Value] in
theorem beginsAt_of_neg (hbegin : written.begin.bound.value = some root)
    (hneg : root.number values < 0) :
    written.beginsAt values = root.number values + written.begin.lift written.signed := by
  rw [WrittenRange.beginsAt, reading_of_value hbegin, lifted_of_neg hneg]

omit [DecidableEq Value] in
theorem finishesAt_of_neg (hfinish : written.finish.bound.value = some root)
    (hneg : root.number values < 0) :
    written.finishesAt values = root.number values + written.finish.lift written.signed := by
  rw [WrittenRange.finishesAt, reading_of_value hfinish, lifted_of_neg hneg]

theorem empty_below_begin (hbegin : written.begin.bound.value = some root)
    (h : written.StopsBelowBegin root) (hneg : root.number values < 0) :
    written.finishesAt values ≤ written.beginsAt values := by
  rw [beginsAt_of_neg hbegin hneg]
  unfold WrittenRange.StopsBelowBegin at h
  by_cases hsame : written.finish.bound.value = some root
  · rw [if_pos hsame] at h
    rw [finishesAt_of_neg hsame hneg]
    omega
  · rw [if_neg hsame] at h
    have hhighest := (@reading_between _ _ _ written.signed written.finish values).2
    have hleast := leastNegative_le values root
    unfold WrittenRange.finishesAt
    omega

theorem empty_below_finish (hfinish : written.finish.bound.value = some root)
    (h : written.StopsBelowFinish root) (hneg : root.number values < 0) :
    written.finishesAt values ≤ written.beginsAt values := by
  rw [finishesAt_of_neg hfinish hneg]
  unfold WrittenRange.StopsBelowFinish at h
  by_cases hsame : written.begin.bound.value = some root
  · rw [if_pos hsame] at h
    rw [beginsAt_of_neg hsame hneg]
    omega
  · rw [if_neg hsame] at h
    have hlowest := (@reading_between _ _ _ written.signed written.begin values).1
    have hgreatest := le_greatestNegative values root hneg
    unfold WrittenRange.beginsAt
    omega

omit [DecidableEq Value] in
theorem takes_zero (named : Value) : (Root.value named).Takes typeOf 0 := by
  have hhalf := @half_pos _ typeOf named
  simp only [Root.Takes]
  omega

-- A range that does not stop names slots for some negative value of the bound.
theorem exists_runs_below_begin (hbegin : written.begin.bound.value = some root)
    (hnegative : root.MayBeNegative) (h : ¬written.StopsBelowBegin root) :
    ∃ values : Values typeOf, root.number values < 0 ∧
      written.beginsAt values < written.finishesAt values := by
  obtain ⟨⟨htakes, hneg⟩, -⟩ := @takes_negative _ typeOf _ hnegative
  unfold WrittenRange.StopsBelowBegin at h
  by_cases hsame : written.finish.bound.value = some root
  · rw [if_pos hsame] at h
    obtain ⟨values, hnumber, -⟩ := exists_values htakes (fun _ => 0) takes_zero
    rw [← hnumber] at hneg
    refine ⟨values, hneg, ?_⟩
    rw [beginsAt_of_neg hbegin hneg, finishesAt_of_neg hsame hneg]
    omega
  · rw [if_neg hsame] at h
    obtain ⟨values, hnumber, hhighest⟩ :=
      @exists_highest _ typeOf _ written.signed written.finish _ _ _ htakes hsame
    refine ⟨values, by omega, ?_⟩
    rw [beginsAt_of_neg hbegin (by omega), WrittenRange.finishesAt, hhighest]
    omega

theorem exists_runs_below_finish (hfinish : written.finish.bound.value = some root)
    (hnegative : root.MayBeNegative) (h : ¬written.StopsBelowFinish root) :
    ∃ values : Values typeOf, root.number values < 0 ∧
      written.beginsAt values < written.finishesAt values := by
  obtain ⟨-, htakes, hneg⟩ := @takes_negative _ typeOf _ hnegative
  unfold WrittenRange.StopsBelowFinish at h
  by_cases hsame : written.begin.bound.value = some root
  · rw [if_pos hsame] at h
    obtain ⟨values, hnumber, -⟩ := exists_values htakes (fun _ => 0) takes_zero
    rw [← hnumber] at hneg
    refine ⟨values, hneg, ?_⟩
    rw [beginsAt_of_neg hsame hneg, finishesAt_of_neg hfinish hneg]
    omega
  · rw [if_neg hsame] at h
    obtain ⟨values, hnumber, hlowest⟩ :=
      @exists_lowest _ typeOf _ written.signed written.begin _ _ _ htakes hsame
    refine ⟨values, by omega, ?_⟩
    rw [finishesAt_of_neg hfinish (by omega), WrittenRange.beginsAt, hlowest]
    omega

end Stopping

section Agreement

variable {Value : Type} [DecidableEq Value] {typeOf : Value → IntegerType}

-- The value both ranges begin at is lifted no further by the loop that visits.
def BeginsAgree (visited filled : WrittenRange typeOf) : Prop :=
  ∀ root, filled.begin.bound.value = some root → root.MayBeNegative →
    visited.begin.lift visited.signed ≤ filled.begin.lift filled.signed ∨
      filled.StopsBelowBegin root

-- The value both ranges end at is lifted no further by the loop that fills.
def FinishesAgree (visited filled : WrittenRange typeOf) : Prop :=
  ∀ root, filled.finish.bound.value = some root → root.MayBeNegative →
    filled.finish.lift filled.signed ≤ visited.finish.lift visited.signed ∨
      filled.StopsBelowFinish root

variable {visited filled : WrittenRange typeOf}

theorem atMost_cases {lower upper : SlotBound Value} (h : atMost lower upper = true) :
    (∃ low high, lower.index = some low ∧ upper.index = some high ∧ low.number ≤ high.number) ∨
      ∃ root, lower.value = some root ∧ upper.value = some root := by
  unfold atMost at h
  split at h
  · rename_i low high hlow hhigh
    exact Or.inl ⟨low, high, hlow, hhigh, by simpa using h⟩
  · simp only [Bool.and_eq_true, decide_eq_true_eq, Option.isSome_iff_exists] at h
    obtain ⟨⟨root, hroot⟩, hsame⟩ := h
    exact Or.inr ⟨root, hroot, by rw [← hsame, hroot]⟩

-- Two bounds that are compared and one of which is named are named alike.
theorem value_of_atMost {lower upper : SlotBound Value} (hat : atMost lower upper = true)
    (h : lower.index = none ∨ upper.index = none) : lower.value = upper.value := by
  rcases atMost_cases hat with ⟨low, high, hlow, hhigh, -⟩ | ⟨root, hlower, hupper⟩
  · simp [hlow, hhigh] at h
  · rw [hlower, hupper]

theorem beginsAt_le (hat : atMost visited.begin.bound filled.begin.bound = true)
    (h : BeginsAgree visited filled) (values : Values typeOf)
    (hruns : filled.beginsAt values < filled.finishesAt values) :
    visited.beginsAt values ≤ filled.beginsAt values := by
  rcases atMost_cases hat with ⟨low, high, hlow, hhigh, hle⟩ | ⟨root, hvisited, hfilled⟩
  · rw [WrittenRange.beginsAt, WrittenRange.beginsAt, reading_of_index hlow,
      reading_of_index hhigh]
    exact hle
  · by_cases hneg : root.number values < 0
    · rcases h root hfilled (mayBeNegative_of_neg values root hneg) with hlift | hstops
      · rw [beginsAt_of_neg hvisited hneg, beginsAt_of_neg hfilled hneg]
        omega
      · have hempty := empty_below_begin hfilled hstops hneg
        omega
    · rw [WrittenRange.beginsAt, WrittenRange.beginsAt, reading_of_value hvisited,
        reading_of_value hfilled, lifted_of_nonneg (by omega), lifted_of_nonneg (by omega)]

theorem finishesAt_le (hat : atMost filled.finish.bound visited.finish.bound = true)
    (h : FinishesAgree visited filled) (values : Values typeOf)
    (hruns : filled.beginsAt values < filled.finishesAt values) :
    filled.finishesAt values ≤ visited.finishesAt values := by
  rcases atMost_cases hat with ⟨low, high, hlow, hhigh, hle⟩ | ⟨root, hfilled, hvisited⟩
  · rw [WrittenRange.finishesAt, WrittenRange.finishesAt, reading_of_index hlow,
      reading_of_index hhigh]
    exact hle
  · by_cases hneg : root.number values < 0
    · rcases h root hfilled (mayBeNegative_of_neg values root hneg) with hlift | hstops
      · rw [finishesAt_of_neg hvisited hneg, finishesAt_of_neg hfilled hneg]
        omega
      · have hempty := empty_below_finish hfilled hstops hneg
        omega
    · rw [WrittenRange.finishesAt, WrittenRange.finishesAt, reading_of_value hvisited,
        reading_of_value hfilled, lifted_of_nonneg (by omega), lifted_of_nonneg (by omega)]

-- Where the begins disagree, some values make the loop that fills begin before the other one.
theorem exists_begin_missed (hat : atMost visited.begin.bound filled.begin.bound = true)
    (h : ¬BeginsAgree visited filled) :
    ∃ values : Values typeOf, filled.beginsAt values < filled.finishesAt values ∧
      filled.beginsAt values < visited.beginsAt values := by
  unfold BeginsAgree at h
  push Not at h
  obtain ⟨root, hfilled, hnegative, hlift, hstops⟩ := h
  have hvisited := value_of_atMost hat (Or.inr (index_of_value hfilled))
  obtain ⟨values, hneg, hruns⟩ := exists_runs_below_begin hfilled hnegative hstops
  refine ⟨values, hruns, ?_⟩
  rw [beginsAt_of_neg hfilled hneg, beginsAt_of_neg (hvisited.trans hfilled) hneg]
  omega

theorem exists_finish_missed (hat : atMost filled.finish.bound visited.finish.bound = true)
    (h : ¬FinishesAgree visited filled) :
    ∃ values : Values typeOf, filled.beginsAt values < filled.finishesAt values ∧
      visited.finishesAt values < filled.finishesAt values := by
  unfold FinishesAgree at h
  push Not at h
  obtain ⟨root, hfilled, hnegative, hlift, hstops⟩ := h
  have hvisited := value_of_atMost hat (Or.inl (index_of_value hfilled))
  obtain ⟨values, hneg, hruns⟩ := exists_runs_below_finish hfilled hnegative hstops
  refine ⟨values, hruns, ?_⟩
  rw [finishesAt_of_neg hfilled hneg, finishesAt_of_neg (hvisited.symm.trans hfilled) hneg]
  omega

end Agreement

end ConcurrencyAnalyzer.ThreadCompletion.Slots
