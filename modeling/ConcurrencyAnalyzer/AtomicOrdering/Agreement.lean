import ConcurrencyAnalyzer.AtomicOrdering.Execution

namespace ConcurrencyAnalyzer.AtomicOrdering

namespace Function

theorem mem_sites {function : Function} {site : Site} {instruction : Instruction} :
    (site, instruction) ∈ function.sites ↔ function.instructionAt site = some instruction := by
  unfold sites instructionAt
  rw [List.mem_flatMap, Option.bind_eq_some_iff]
  constructor
  · rintro ⟨⟨found, block⟩, hfound, hmem⟩
    obtain ⟨⟨other, index⟩, hother, hsame⟩ := List.mem_map.mp hmem
    cases hsame
    exact ⟨found, List.mem_zipIdx_iff_getElem?.mp hfound, List.mem_zipIdx_iff_getElem?.mp hother⟩
  · rintro ⟨found, hfound, hget⟩
    exact ⟨(found, site.1), List.mem_zipIdx_iff_getElem?.mpr hfound,
      List.mem_map.mpr ⟨(instruction, site.2), List.mem_zipIdx_iff_getElem?.mpr hget, rfl⟩⟩

theorem mem_liveSites {function : Function} {site : Site} {instruction : Instruction} :
    (site, instruction) ∈ function.liveSites ↔
      function.instructionAt site = some instruction ∧ site.1 ∈ function.liveBlocks := by
  rw [liveSites, List.mem_filter, mem_sites, decide_eq_true_eq]

end Function

-- An instruction hands out the address of no local but one it uses the address of.
theorem escapes_of_usesAddress {function : Function} {site : Site} {instruction : Instruction}
    (h : function.instructionAt site = some instruction) {slot : String}
    (huses : instruction.usesAddress slot = true) : function.escapes slot = true :=
  List.any_eq_true.mpr ⟨_, Function.mem_sites.mpr h, huses⟩

-- What an activation computed is what a fold makes of it, and no fold looks through a local it has
-- handed out.
structure Agrees (folder : ConstantFolder) (frame : Frame) : Prop where
  registers : ∀ site value, frame.registers site = some value → ∀ fuel known,
    folder.fold fuel (.result site) = some known → value = known
  locals : ∀ slot value, frame.locals slot = some value → ∀ stored,
    folder.uniqueStore slot = some stored → ∀ fuel known, folder.fold fuel stored = some known →
      value = known
  exposed : ∀ slot ∈ frame.exposed, folder.function.escapes slot = true

variable {folder : ConstantFolder} {frame : Frame}

theorem agrees_fresh (folder : ConstantFolder) (function : String) (activation : Nat)
    (arguments : List Program.Place) :
    Agrees folder { function := function, activation := activation, arguments := arguments } where
  registers _ _ h := by cases h
  locals _ _ h := by cases h
  exposed _ h := by cases h

theorem Agrees.congr {after : Frame} (h : Agrees folder frame)
    (hregisters : after.registers = frame.registers) (hlocals : after.locals = frame.locals)
    (hexposed : after.exposed = frame.exposed) : Agrees folder after where
  registers := by
    rw [hregisters]
    exact h.registers
  locals := by
    rw [hlocals]
    exact h.locals
  exposed := by
    rw [hexposed]
    exact h.exposed

theorem Agrees.expose (h : Agrees folder frame) {slots : List String}
    (hslots : ∀ slot ∈ slots, folder.function.escapes slot = true) :
    Agrees folder (frame.expose slots) where
  registers := h.registers
  locals := h.locals
  exposed slot hslot := by
    rcases List.mem_append.mp hslot with hslot | hslot
    · exact hslots slot hslot
    · exact h.exposed slot hslot

theorem Agrees.evaluates (h : Agrees folder frame) {value : Value} {result : APInt}
    (hvalue : frame.Evaluates value result) {fuel : Nat} {known : APInt}
    (hfold : folder.fold fuel value = some known) : result = known := by
  cases fuel with
  | zero =>
      rw [ConstantFolder.fold] at hfold
      cases hfold
  | succ fuel =>
      cases value with
      | constant constant =>
          rw [ConstantFolder.fold, Option.some.injEq] at hfold
          exact hvalue.trans hfold
      | result site => exact h.registers site result hvalue (fuel + 1) known hfold
      | address pointer =>
          rw [ConstantFolder.fold] at hfold
          cases hfold
      | other =>
          rw [ConstantFolder.fold] at hfold
          cases hfold

-- What a fold makes of two operands is what comes of their values.
theorem Agrees.evaluates_both (h : Agrees folder frame) {lhs rhs : Value} {left right : APInt}
    (hlhs : frame.Evaluates lhs left) (hrhs : frame.Evaluates rhs right) {fuel : Nat}
    {combine : APInt → APInt → Option APInt} {known : APInt}
    (hfold : ((folder.fold fuel lhs).bind fun first =>
      (folder.fold fuel rhs).bind fun second => combine first second) = some known) :
    combine left right = some known := by
  obtain ⟨first, hfirst, hfold⟩ := Option.bind_eq_some_iff.mp hfold
  obtain ⟨second, hsecond, hfold⟩ := Option.bind_eq_some_iff.mp hfold
  rwa [← h.evaluates hlhs hfirst, ← h.evaluates hrhs hsecond] at hfold

theorem Agrees.result (h : Agrees folder frame) {value : APInt}
    (hvalue : ∀ fuel known, folder.fold fuel (.result frame.site) = some known → value = known) :
    Agrees folder (frame.result value) where
  registers site other hother fuel known hfold := by
    simp only [Frame.result] at hother
    split at hother
    · rename_i hsite
      rw [Option.some.injEq] at hother
      subst hother hsite
      exact hvalue fuel known hfold
    · exact h.registers site other hother fuel known hfold
  locals := h.locals
  exposed := h.exposed

-- The one store a fold looks at is the store that was run.
theorem storesTo_of_counts {slot : String} {value stored : Value} {site : Site}
    (hinstruction : folder.function.instructionAt site = some (.store (.alloca slot) value))
    (hcounts : folder.counts site.1 = true) (hstored : folder.uniqueStore slot = some stored) :
    value = stored := by
  have hmem : value ∈ folder.storesTo slot := by
    refine List.mem_filterMap.mpr ⟨_, Function.mem_sites.mpr hinstruction, ?_⟩
    rw [if_pos hcounts]
    exact if_pos rfl
  unfold ConstantFolder.uniqueStore at hstored
  split at hstored
  · cases hstored
  · split at hstored
    · rename_i hsingle
      rw [Option.some.injEq] at hstored
      subst hstored
      rwa [hsingle, List.mem_singleton] at hmem
    · cases hstored

theorem not_escapes_of_uniqueStore {slot : String} {stored : Value}
    (h : folder.uniqueStore slot = some stored) : folder.function.escapes slot = false := by
  unfold ConstantFolder.uniqueStore at h
  split at h
  · cases h
  · rename_i hnot
    exact Bool.not_eq_true _ ▸ hnot

section Runs

variable {module : Module} {memory : Memory module} {events : List Event} {fresh : Nat}
  {after : Frame} {instruction : Instruction} {writes : List (Program.Place × APInt)}
  {read : Option Read} {entered started : List Frame}

-- A value that is computed agrees with what a fold makes of the instruction, if what is substituted for
-- it is what it computes.
theorem Agrees.computed (h : Agrees folder frame)
    (hinstruction : folder.function.instructionAt frame.site = some instruction) {value : APInt}
    (hsubstituted : ∀ constant, folder.substitution frame.site = some constant →
      value = constant.zextOrTrunc instruction.widthOf)
    (hvalue : folder.substitution frame.site = none → ∀ fuel known,
      folder.fold (fuel + 1) (.result frame.site) = some known → value = known) :
    Agrees folder (frame.result value) := by
  refine h.result fun fuel known hfold => ?_
  cases fuel with
  | zero =>
      rw [ConstantFolder.fold] at hfold
      cases hfold
  | succ fuel =>
      cases hsubstitution : folder.substitution frame.site with
      | none => exact hvalue hsubstitution fuel known hfold
      | some constant =>
          simp only [ConstantFolder.fold, hinstruction, hsubstitution, Option.some.injEq] at hfold
          exact (hsubstituted constant hsubstitution).trans hfold

-- The step lemma: an instruction that runs computes what a fold makes of it, if what is substituted
-- for it is what it computes and it loads no local that was not stored to.
theorem Agrees.runs (h : Agrees folder frame)
    (hinstruction : folder.function.instructionAt frame.site = some instruction)
    (hruns : Runs memory events fresh frame instruction after writes read entered started)
    (hcounts : folder.counts frame.block = true)
    (hstored : ∀ slot width, instruction = .load slot width →
      folder.function.escapes slot = false → (frame.locals slot).isSome = true)
    (hsubstituted : ∀ constant, folder.substitution frame.site = some constant →
      after.registers frame.site = some (constant.zextOrTrunc instruction.widthOf)) :
    Agrees folder after := by
  have hexposes {slot : String} (huses : instruction.usesAddress slot = true) :=
    escapes_of_usesAddress hinstruction huses
  have hcomputed {value : APInt} (hafter : after.registers frame.site = some value) (constant : APInt)
      (hconstant : folder.substitution frame.site = some constant) :
      value = constant.zextOrTrunc instruction.widthOf :=
    Option.some.inj (hafter.symm.trans (hsubstituted constant hconstant))
  have hresult {value : APInt} (hafter : after.registers frame.site = some value)
      (hnone : folder.substitution frame.site = none →
        ∀ fuel, folder.fold (fuel + 1) (.result frame.site) = none) :
      Agrees folder (frame.result value) := by
    refine h.computed hinstruction (hcomputed hafter) fun hsubstitution fuel known hfold => ?_
    rw [hnone hsubstitution fuel] at hfold
    cases hfold
  have hadvanced : Agrees folder frame.advance := h.congr rfl rfl rfl
  cases hruns with
  | @load slot width value hvalue =>
      refine h.computed hinstruction (hcomputed (if_pos rfl)) fun hnone fuel known hfold => ?_
      simp only [ConstantFolder.fold, hinstruction, hnone] at hfold
      obtain ⟨stored, hunique, hfold⟩ := Option.bind_eq_some_iff.mp hfold
      obtain ⟨inner, hinner, rfl⟩ := Option.map_eq_some_iff.mp hfold
      have hescapes := not_escapes_of_uniqueStore hunique
      have hkept : slot ∉ frame.exposed := fun hslot => by
        rw [h.exposed slot hslot] at hescapes
        cases hescapes
      obtain ⟨held, hheld⟩ := Option.isSome_iff_exists.mp (hstored slot width rfl hescapes)
      rw [hvalue hkept held hheld, h.locals slot held hheld stored hunique fuel inner hinner]
  | @assign slot value result hvalue =>
      have hassigned : Agrees folder (frame.assign slot result) := by
        refine ⟨h.registers, fun other found hfound stored hunique fuel known hfold => ?_, h.exposed⟩
        simp only [Frame.assign] at hfound
        split at hfound
        · rename_i hslot
          rw [Option.some.injEq] at hfound
          subst hfound hslot
          have hsame := storesTo_of_counts hinstruction hcounts hunique
          subst hsame
          exact h.evaluates hvalue hfold
        · exact h.locals other found hfound stored hunique fuel known hfold
      exact hassigned.expose fun _ hslot => hexposes (decide_eq_true hslot)
  | @store target value _ _ htarget _ _ =>
      refine hadvanced.expose fun slot hslot => hexposes ?_
      cases target with
      | alloca other => exact absurd rfl (htarget other)
      | _ => exact decide_eq_true hslot
  | @cast operation operand width value result hoperand happly =>
      refine Agrees.expose ?_ fun _ hslot => hexposes (decide_eq_true hslot)
      refine h.computed hinstruction (hcomputed (if_pos rfl)) fun hnone fuel known hfold => ?_
      simp only [ConstantFolder.fold, hinstruction, hnone] at hfold
      obtain ⟨inner, hinner, hfold⟩ := Option.bind_eq_some_iff.mp hfold
      rw [← h.evaluates hoperand hinner] at hfold
      exact happly known hfold
  | @binary operation lhs rhs left right result hlhs hrhs happly =>
      refine Agrees.expose ?_ fun _ hslot => hexposes (decide_eq_true hslot)
      refine h.computed hinstruction (hcomputed (if_pos rfl)) fun hnone fuel known hfold => ?_
      simp only [ConstantFolder.fold, hinstruction, hnone] at hfold
      exact happly known (h.evaluates_both hlhs hrhs hfold)
  | @icmp predicate lhs rhs left right result hlhs hrhs happly =>
      refine Agrees.expose ?_ fun _ hslot => hexposes (decide_eq_true hslot)
      refine h.computed hinstruction (hcomputed (if_pos rfl)) fun hnone fuel known hfold => ?_
      simp only [ConstantFolder.fold, hinstruction, hnone] at hfold
      exact happly known (h.evaluates_both hlhs hrhs hfold)
  | atomicLoad _ _ =>
      refine Agrees.expose (hresult (if_pos rfl) fun hnone fuel => ?_)
        fun _ hslot => hexposes (decide_eq_true hslot)
      simp only [ConstantFolder.fold, hinstruction, hnone]
  | readModifyWrite _ =>
      refine Agrees.expose (hresult (if_pos rfl) fun hnone fuel => ?_)
        fun _ hslot => hexposes (decide_eq_true hslot)
      simp only [ConstantFolder.fold, hinstruction, hnone]
  | call _ =>
      refine Agrees.expose (hresult (if_pos rfl) fun hnone fuel => ?_)
        fun _ hslot => hexposes (decide_eq_true hslot)
      simp only [ConstantFolder.fold, hinstruction, hnone]
  | other =>
      refine Agrees.expose (hresult (if_pos rfl) fun hnone fuel => ?_)
        fun _ hslot => hexposes (decide_eq_true hslot)
      simp only [ConstantFolder.fold, hinstruction, hnone]
  | atomicStore _ _ => exact hadvanced.expose fun _ hslot => hexposes (decide_eq_true hslot)
  | spawn _ => exact hadvanced.expose fun _ hslot => hexposes (decide_eq_true hslot)
  | fence => exact hadvanced

-- Where control goes on a condition that folds.
theorem Agrees.goes (h : Agrees folder frame) {terminator : Terminator} {successor : Nat}
    (hgoes : terminator.Goes frame successor) {taken : Nat}
    (htaken : folder.takenSuccessor terminator = some taken) : successor = taken := by
  obtain ⟨condition, hcondition, htaken⟩ := Option.bind_eq_some_iff.mp htaken
  obtain ⟨value, hfold, hselect⟩ := Option.bind_eq_some_iff.mp htaken
  simp only [Terminator.Goes, hcondition] at hgoes
  obtain ⟨found, hfound, hsuccessor⟩ := hgoes
  rw [h.evaluates hfound hfold, hselect, Option.some.injEq] at hsuccessor
  exact hsuccessor.symm

-- Control stays on live edges.
theorem liveSuccessors_of_goes {function : Function} (h : Agrees { function := function } frame)
    {block : Nat} {found : Block} (hfound : function.blocks[block]? = some found) {successor : Nat}
    (hgoes : found.terminator.Goes frame successor) : successor ∈ function.liveSuccessors block := by
  have hmem : successor ∈ found.terminator.successors := by
    unfold Terminator.Goes at hgoes
    split at hgoes
    · exact hgoes
    · obtain ⟨value, _, hselect⟩ := hgoes
      exact Terminator.select_mem hselect
  unfold Function.liveSuccessors
  rw [hfound]
  simp only []
  split
  · rename_i condition cases defaultDest hswitch
    rw [hswitch] at hgoes
    split
    · rename_i taken htaken
      exact List.mem_singleton.mpr (h.goes hgoes htaken)
    · exact hmem
  · exact hmem

end Runs

end ConcurrencyAnalyzer.AtomicOrdering
