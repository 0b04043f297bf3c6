import ConcurrencyAnalyzer.FactsBuilder.LifecycleTermination

namespace ConcurrencyAnalyzer.Lifecycle

open Program LockState Library Library.Saturation Relation

section Parsing

-- A path never continues the number of the parameter it hangs off.
def NoDigitFirst (path : String) : Prop :=
  ∀ first ∈ path.toList.head?, first.isDigit = false

theorem noDigitFirst_empty : NoDigitFirst "" := by
  intro first h
  cases h

theorem NoDigitFirst.append {path rest : String} (hpath : NoDigitFirst path)
    (hrest : NoDigitFirst rest) : NoDigitFirst (path ++ rest) := by
  intro first h
  rw [String.toList_append] at h
  cases htext : path.toList with
  | nil =>
      rw [htext, List.nil_append] at h
      exact hrest first h
  | cons head tail =>
      apply hpath first
      rw [htext, List.cons_append] at h
      rw [htext]
      exact h

-- The name of what is at a path of a parameter.
def parameterGroup (functionId : String) (index : Nat) (path : String) : String :=
  "arg:" ++ functionId ++ ":" ++ toString index ++ path

-- The name of what belongs to no parameter starts otherwise.
def Opaque (group : String) : Prop :=
  ∃ first rest, group.toList = first :: rest ∧ first ≠ 'a'

theorem parameterGroup_toList (functionId : String) (index : Nat) (path : String) :
    (parameterGroup functionId index path).toList =
      ("arg:" ++ functionId ++ ":").toList ++ (Nat.toDigits 10 index ++ path.toList) := by
  simp [parameterGroup]

theorem parse_parameterGroup {functionId path : String} {index : Nat} (hindex : index < 2 ^ 32)
    (hpath : NoDigitFirst path) :
    parseLifecycleArgumentBinding functionId (parameterGroup functionId index path) =
      some ⟨index, path⟩ := by
  obtain ⟨htake, hdrop⟩ := takeWhile_toDigits_append index hpath
  have hsmall : ¬2 ^ 64 ≤ index := by omega
  unfold parseLifecycleArgumentBinding
  simp only [parameterGroup_toList, List.drop_left, htake, hdrop, isEmpty_toDigits,
    decimalValue_toDigits, hsmall, Nat.mod_eq_of_lt hindex]
  simp

theorem parse_opaqueGroup {functionId group : String} (h : Opaque group) :
    parseLifecycleArgumentBinding functionId group = none := by
  obtain ⟨first, rest, htext, hfirst⟩ := h
  unfold parseLifecycleArgumentBinding
  simp only [htext]
  rw [if_pos]
  have : ("arg:" ++ functionId ++ ":").toList = 'a' :: ("rg:" ++ functionId ++ ":").toList := by
    simp
  rw [this]
  simp [List.isPrefixOf, Ne.symm hfirst]

theorem Opaque.append {group : String} (h : Opaque group) (rest : String) :
    Opaque (group ++ rest) := by
  obtain ⟨first, tail, htext, hfirst⟩ := h
  exact ⟨first, tail ++ rest.toList, by simp [htext], hfirst⟩

theorem parameterGroup_append (functionId : String) (index : Nat) (path rest : String) :
    parameterGroup functionId index path ++ rest = parameterGroup functionId index (path ++ rest) := by
  simp [parameterGroup, String.append_assoc]

-- A name as one function has it: a path of a parameter of the function, or no parameter's.
def CanonicalIn (functionId : String) (count : Nat) (group : String) : Prop :=
  (∃ index path, group = parameterGroup functionId index path ∧ index < count ∧
    NoDigitFirst path) ∨ Opaque group

theorem CanonicalIn.append {functionId group : String} {count : Nat}
    (h : CanonicalIn functionId count group) {rest : String} (hrest : NoDigitFirst rest) :
    CanonicalIn functionId count (group ++ rest) := by
  rcases h with ⟨index, path, rfl, hindex, hpath⟩ | h
  · exact Or.inl ⟨index, path ++ rest, parameterGroup_append .., hindex, hpath.append hrest⟩
  · exact Or.inr (h.append rest)

theorem noDigitFirst_printGepIndices (indices : List (Option Int)) :
    NoDigitFirst (printGepIndices indices) := by
  unfold printGepIndices
  cases indices with
  | nil => exact noDigitFirst_empty
  | cons index indices =>
      intro first h
      cases index with
      | none =>
          have hfirst : first = '[' := by simpa [String.join_cons] using h.symm
          rw [hfirst]
          decide
      | some index =>
          have hfirst : first = '[' := by simpa [String.join_cons] using h.symm
          rw [hfirst]
          decide

theorem canonicalIn_of_pointer {functionId group path : String} {count : Nat} {pointer : Pointer}
    (huses : usesParametersBelow count pointer) (hpath : NoDigitFirst path)
    (h : canonicalStorageGroupId functionId path pointer = some group) :
    CanonicalIn functionId count group := by
  induction pointer generalizing path with
  | global name =>
      cases h
      exact Or.inr ⟨'g', _, by simp; rfl, by decide⟩
  | argument index =>
      cases h
      exact Or.inl ⟨index, path, rfl, by simpa [usesParametersBelow] using huses, hpath⟩
  | alloca slot =>
      cases h
      exact Or.inr ⟨'s', _, by simp; rfl, by decide⟩
  | gep base indices _ ih =>
      exact ih huses ((noDigitFirst_printGepIndices indices).append hpath) h
  | copied stored ih => exact ih huses hpath h
  | load slot ih => exact ih huses hpath h
  | other => cases h

theorem NamedIn.canonicalIn {parameterCount : String → Nat} {functionId group : String}
    (h : NamedIn parameterCount functionId group) :
    CanonicalIn functionId (parameterCount functionId) group := by
  obtain ⟨pointer, huses, hgroup⟩ := h
  exact canonicalIn_of_pointer huses noDigitFirst_empty hgroup

end Parsing

section Extension

variable {module : LifecycleModule}

def HandleNames.extend (names : HandleNames) (path sourcePath : String) : HandleNames where
  functionId := names.functionId
  handleGroupId := names.handleGroupId ++ path
  sourceHandleGroupId := names.sourceHandleGroupId.map (· ++ sourcePath)

theorem HandleNames.extend_extend (names : HandleNames) (path sourcePath rest sourceRest : String) :
    (names.extend path sourcePath).extend rest sourceRest =
      names.extend (path ++ rest) (sourcePath ++ sourceRest) := by
  simp only [HandleNames.extend, Option.map_map, String.append_assoc]
  congr
  funext source
  exact String.append_assoc

def LifecycleModule.Canonical (module : LifecycleModule) (names : HandleNames) : Prop :=
  CanonicalIn names.functionId (module.parameterCount names.functionId) names.handleGroupId ∧
    ∀ source ∈ names.sourceHandleGroupId,
      CanonicalIn names.functionId (module.parameterCount names.functionId) source

theorem callerGroup_canonicalIn {call : LifecycleCall} (hcall : call ∈ module.calls) {index : Nat}
    {group : String} (h : call.callerGroup index = some group) :
    CanonicalIn call.callerFunctionId (module.parameterCount call.callerFunctionId) group := by
  obtain ⟨pointer, hpointer, hgroup⟩ := Option.bind_eq_some_iff.mp h
  have huses := module.argumentsOfCaller call hcall pointer (List.mem_of_getElem? hpointer)
  exact canonicalIn_of_pointer huses noDigitFirst_empty hgroup

theorem parse_of_canonicalIn {functionId group : String}
    (h : CanonicalIn functionId (module.parameterCount functionId) group)
    {binding : LifecycleArgumentBinding}
    (hparse : parseLifecycleArgumentBinding functionId group = some binding) :
    group = parameterGroup functionId binding.argumentIndex binding.suffix ∧
      binding.argumentIndex < module.parameterCount functionId ∧ NoDigitFirst binding.suffix := by
  have hfits := module.countFits functionId
  rcases h with ⟨index, path, rfl, hindex, hpath⟩ | hgroup
  · rw [parse_parameterGroup (by omega) hpath] at hparse
    cases hparse
    exact ⟨rfl, hindex, hpath⟩
  · rw [parse_opaqueGroup hgroup] at hparse
    cases hparse

theorem parse_append_of_canonicalIn {functionId group : String}
    (h : CanonicalIn functionId (module.parameterCount functionId) group) {rest : String}
    (hrest : NoDigitFirst rest) :
    parseLifecycleArgumentBinding functionId (group ++ rest) =
      (parseLifecycleArgumentBinding functionId group).map fun binding =>
        { binding with suffix := binding.suffix ++ rest } := by
  have hfits := module.countFits functionId
  rcases h with ⟨index, path, rfl, hindex, hpath⟩ | hgroup
  · rw [parameterGroup_append, parse_parameterGroup (by omega) hpath,
      parse_parameterGroup (by omega) (hpath.append hrest)]
    rfl
  · rw [parse_opaqueGroup hgroup, parse_opaqueGroup (hgroup.append rest)]
    rfl

-- What hangs off a parameter is renamed, since a call passes an argument for each; all else stays.
theorem sourceAtCall_extend {call : LifecycleCall} (hcall : call ∈ module.calls) {source : String}
    (h : CanonicalIn call.calleeFunctionId (module.parameterCount call.calleeFunctionId) source)
    {rest : String} (hrest : NoDigitFirst rest) :
    sourceAtCall call call.calleeFunctionId (source ++ rest) =
      (sourceAtCall call call.calleeFunctionId source).map (· ++ rest) := by
  have hpassed := module.argumentsPassed call hcall
  unfold sourceAtCall
  rw [parse_append_of_canonicalIn h hrest]
  cases hparse : parseLifecycleArgumentBinding call.calleeFunctionId source with
  | none => rfl
  | some binding =>
      obtain ⟨-, hindex, -⟩ := parse_of_canonicalIn h hparse
      have hin : ¬call.arguments.length ≤ binding.argumentIndex := by omega
      simp only [Option.map_some, if_neg hin, Option.map_map]
      congr
      funext group
      simp [String.append_assoc]

theorem namesAtCall_extend {call : LifecycleCall} (hcall : call ∈ module.calls)
    {names : HandleNames} (hcallee : call.calleeFunctionId = names.functionId)
    (h : module.Canonical names) {path sourcePath : String} (hpath : NoDigitFirst path)
    (hsourcePath : NoDigitFirst sourcePath) :
    namesAtCall call (names.extend path sourcePath) =
      (namesAtCall call names).map (·.extend path sourcePath) := by
  unfold namesAtCall
  simp only [HandleNames.extend]
  rw [parse_append_of_canonicalIn h.1 hpath]
  cases hparse : parseLifecycleArgumentBinding names.functionId names.handleGroupId with
  | none => rfl
  | some binding =>
      simp only [Option.map_some]
      cases hgroup : call.callerGroup binding.argumentIndex with
      | none => rfl
      | some group =>
          cases hsource : names.sourceHandleGroupId with
          | none => simp [String.append_assoc]
          | some source =>
              have hcanonical := h.2 source hsource
              rw [← hcallee] at hcanonical
              simp only [Option.map_some, ← hcallee,
                sourceAtCall_extend hcall hcanonical hsourcePath, Option.map_map]
              cases sourceAtCall call call.calleeFunctionId source with
              | none => rfl
              | some renamed => simp [String.append_assoc]

theorem nameStep_extend {names next : HandleNames} (h : module.Canonical names)
    (hstep : NameStep module.calls names next) {path sourcePath : String}
    (hpath : NoDigitFirst path) (hsourcePath : NoDigitFirst sourcePath) :
    NameStep module.calls (names.extend path sourcePath) (next.extend path sourcePath) := by
  obtain ⟨call, hcall, hcallee, hnames⟩ := hstep
  refine ⟨call, hcall, hcallee, ?_⟩
  rw [namesAtCall_extend hcall hcallee h hpath hsourcePath, hnames]
  rfl

theorem nameStep_of_extend {names later : HandleNames} (h : module.Canonical names)
    {path sourcePath : String} (hpath : NoDigitFirst path) (hsourcePath : NoDigitFirst sourcePath)
    (hstep : NameStep module.calls (names.extend path sourcePath) later) :
    ∃ next, NameStep module.calls names next ∧ later = next.extend path sourcePath := by
  obtain ⟨call, hcall, hcallee, hnames⟩ := hstep
  change call.calleeFunctionId = names.functionId at hcallee
  rw [namesAtCall_extend hcall hcallee h hpath hsourcePath] at hnames
  obtain ⟨next, hnext, rfl⟩ := Option.map_eq_some_iff.mp hnames
  exact ⟨next, ⟨call, hcall, hcallee, hnext⟩, rfl⟩

theorem sourceAtCall_canonical {call : LifecycleCall} (hcall : call ∈ module.calls)
    {source renamed : String}
    (h : CanonicalIn call.calleeFunctionId (module.parameterCount call.calleeFunctionId) source)
    (hrenamed : sourceAtCall call call.calleeFunctionId source = some renamed) :
    CanonicalIn call.callerFunctionId (module.parameterCount call.callerFunctionId) renamed := by
  have hpassed := module.argumentsPassed call hcall
  have hfits := module.countFits call.calleeFunctionId
  unfold sourceAtCall at hrenamed
  rcases h with ⟨index, path, rfl, hindex, hpath⟩ | hgroup
  · rw [parse_parameterGroup (by omega) hpath] at hrenamed
    have hin : ¬call.arguments.length ≤ index := by omega
    simp only [if_neg hin] at hrenamed
    obtain ⟨group, hgroup, rfl⟩ := Option.map_eq_some_iff.mp hrenamed
    exact (callerGroup_canonicalIn hcall hgroup).append hpath
  · rw [parse_opaqueGroup hgroup] at hrenamed
    cases hrenamed
    exact Or.inr hgroup

theorem canonical_step {names next : HandleNames} (h : module.Canonical names)
    (hstep : NameStep module.calls names next) : module.Canonical next := by
  obtain ⟨call, hcall, hcallee, hnames⟩ := hstep
  obtain ⟨binding, group, hparse, hgroup, hcaller, hhandle, hsources⟩ := namesAtCall_eq_some hnames
  obtain ⟨-, -, hsuffix⟩ := parse_of_canonicalIn h.1 hparse
  constructor
  · rw [hcaller, hhandle]
    exact (callerGroup_canonicalIn hcall hgroup).append hsuffix
  · intro source hsource
    rcases hsources with ⟨-, hnone⟩ | ⟨old, renamed, hold, hrenamed, hnew⟩
    · rw [hnone] at hsource
      cases hsource
    · rw [hnew] at hsource
      cases hsource
      have hcanonical := h.2 old hold
      rw [← hcallee] at hcanonical hrenamed
      rw [hcaller]
      exact sourceAtCall_canonical hcall hcanonical hrenamed

theorem canonical_of_named {names : HandleNames} (h : module.Named names) :
    module.Canonical names := by
  apply h.induct
  · rintro _ ⟨fact, hfact, rfl⟩
    exact ⟨(module.handlesNamed fact hfact).canonicalIn,
      fun source hsource => (module.sourcesNamed fact hfact source hsource).canonicalIn⟩
  · exact fun names next => canonical_step

theorem canonical_transGen {names next : HandleNames} (h : module.Canonical names)
    (hsteps : TransGen (NameStep module.calls) names next) : module.Canonical next := by
  induction hsteps with
  | single hstep => exact canonical_step h hstep
  | tail _ hstep ih => exact canonical_step ih hstep

theorem transGen_extend {names next : HandleNames} (h : module.Canonical names)
    (hsteps : TransGen (NameStep module.calls) names next) {path sourcePath : String}
    (hpath : NoDigitFirst path) (hsourcePath : NoDigitFirst sourcePath) :
    TransGen (NameStep module.calls) (names.extend path sourcePath)
      (next.extend path sourcePath) := by
  induction hsteps with
  | single hstep => exact .single (nameStep_extend h hstep hpath hsourcePath)
  | tail hsteps hstep ih =>
      exact ih.tail (nameStep_extend (canonical_transGen h hsteps) hstep hpath hsourcePath)

theorem transGen_of_extend {names later : HandleNames} (h : module.Canonical names)
    {path sourcePath : String} (hpath : NoDigitFirst path) (hsourcePath : NoDigitFirst sourcePath)
    (hsteps : TransGen (NameStep module.calls) (names.extend path sourcePath) later) :
    ∃ next, TransGen (NameStep module.calls) names next ∧ later = next.extend path sourcePath := by
  induction hsteps with
  | single hstep =>
      obtain ⟨next, hnext, rfl⟩ := nameStep_of_extend h hpath hsourcePath hstep
      exact ⟨next, .single hnext, rfl⟩
  | tail _ hstep ih =>
      obtain ⟨middle, hmiddle, rfl⟩ := ih
      obtain ⟨next, hnext, rfl⟩ :=
        nameStep_of_extend (canonical_transGen h hmiddle) hpath hsourcePath hstep
      exact ⟨next, hmiddle.tail hnext, rfl⟩

theorem root_extend {names : HandleNames} (h : module.Canonical names) {path sourcePath : String}
    (hpath : NoDigitFirst path) (hsourcePath : NoDigitFirst sourcePath) :
    (names.extend path sourcePath).root = names.root := by
  simp only [HandleNames.root, HandleNames.extend]
  rw [parse_append_of_canonicalIn h.1 hpath, Option.map_map]
  cases hsource : names.sourceHandleGroupId with
  | none => rfl
  | some source =>
      simp only [Option.map_some, Option.bind_some]
      rw [parse_append_of_canonicalIn (h.2 source hsource) hsourcePath, Option.map_map]
      rfl

end Extension

section Pumping

variable {module : LifecycleModule}

-- Names with nothing after the parameters they hang off.
structure Bare (module : LifecycleModule) (names : HandleNames) : Prop where
  canonical : module.Canonical names
  handle : ∃ index, names.handleGroupId = parameterGroup names.functionId index "" ∧ index < 2 ^ 32
  source : ∀ source ∈ names.sourceHandleGroupId,
    Opaque source ∨ ∃ index, source = parameterGroup names.functionId index "" ∧ index < 2 ^ 32

theorem exists_bare {names next : HandleNames} (h : module.Canonical names)
    (hstep : NameStep module.calls names next) :
    ∃ bare path sourcePath, Bare module bare ∧ NoDigitFirst path ∧ NoDigitFirst sourcePath ∧
      names = bare.extend path sourcePath := by
  obtain ⟨call, hcall, hcallee, hnames⟩ := hstep
  obtain ⟨binding, -, hparse, -⟩ := namesAtCall_eq_some hnames
  obtain ⟨hhandle, hindex, hsuffix⟩ := parse_of_canonicalIn h.1 hparse
  have hfits := module.countFits names.functionId
  have hbareHandle : CanonicalIn names.functionId (module.parameterCount names.functionId)
      (parameterGroup names.functionId binding.argumentIndex "") :=
    Or.inl ⟨binding.argumentIndex, "", rfl, hindex, noDigitFirst_empty⟩
  have hsplit : names.handleGroupId =
      parameterGroup names.functionId binding.argumentIndex "" ++ binding.suffix := by
    rw [hhandle, parameterGroup_append, String.empty_append]
  cases hsource : names.sourceHandleGroupId with
  | none =>
      refine ⟨⟨names.functionId, parameterGroup names.functionId binding.argumentIndex "", none⟩,
        binding.suffix, "", ⟨⟨hbareHandle, by simp⟩, ⟨_, rfl, by omega⟩, by simp⟩, hsuffix,
        noDigitFirst_empty, ?_⟩
      simp [HandleNames.extend, ← hsplit, ← hsource]
  | some source =>
      rcases h.2 source hsource with ⟨index, path, rfl, hsourceIndex, hpath⟩ | hgroup
      · refine ⟨⟨names.functionId, parameterGroup names.functionId binding.argumentIndex "",
          some (parameterGroup names.functionId index "")⟩, binding.suffix, path,
          ⟨⟨hbareHandle, ?_⟩, ⟨_, rfl, by omega⟩, ?_⟩, hsuffix, hpath, ?_⟩
        · intro other hother
          cases hother
          exact Or.inl ⟨index, "", rfl, hsourceIndex, noDigitFirst_empty⟩
        · intro other hother
          cases hother
          exact Or.inr ⟨index, rfl, by omega⟩
        · simp [HandleNames.extend, ← hsplit, parameterGroup_append, ← hsource]
      · refine ⟨⟨names.functionId, parameterGroup names.functionId binding.argumentIndex "",
          some source⟩, binding.suffix, "", ⟨⟨hbareHandle, ?_⟩, ⟨_, rfl, by omega⟩, ?_⟩, hsuffix,
          noDigitFirst_empty, ?_⟩
        · intro other hother
          cases hother
          exact Or.inr hgroup
        · intro other hother
          cases hother
          exact Or.inl hgroup
        · simp [HandleNames.extend, ← hsplit, ← hsource]

theorem source_transGen {names next : HandleNames}
    (hsteps : TransGen (NameStep module.calls) names next) :
    (names.sourceHandleGroupId = none → next.sourceHandleGroupId = none) ∧
      ∀ source, names.sourceHandleGroupId = some source → Opaque source →
        next.sourceHandleGroupId = some source := by
  have hone : ∀ names next, NameStep module.calls names next →
      (names.sourceHandleGroupId = none → next.sourceHandleGroupId = none) ∧
        ∀ source, names.sourceHandleGroupId = some source → Opaque source →
          next.sourceHandleGroupId = some source := by
    rintro names next ⟨call, hcall, hcallee, hnames⟩
    obtain ⟨-, -, -, -, -, -, ⟨hnone, hnext⟩ | ⟨old, renamed, hold, hrenamed, hnext⟩⟩ :=
      namesAtCall_eq_some hnames
    · refine ⟨fun _ => hnext, ?_⟩
      intro source hsource
      rw [hnone] at hsource
      cases hsource
    · refine ⟨fun hnone => ?_, ?_⟩
      · rw [hold] at hnone
        cases hnone
      · intro source hsource hgroup
        rw [hold] at hsource
        cases hsource
        rw [sourceAtCall, parse_opaqueGroup hgroup] at hrenamed
        rw [hnext, ← hrenamed]
  induction hsteps with
  | single hstep => exact hone _ _ hstep
  | tail _ hstep ih =>
      obtain ⟨hnone, hgroup⟩ := hone _ _ hstep
      exact ⟨fun h => hnone (ih.1 h), fun source h ho => hgroup source (ih.2 source h ho) ho⟩

-- A chain that comes back to the parameters it left has put a path behind each of the two names.
theorem return_extends {bare later : HandleNames} (hbare : Bare module bare)
    (hsteps : TransGen (NameStep module.calls) bare later) (hroot : bare.root = later.root) :
    ∃ path sourcePath, NoDigitFirst path ∧ NoDigitFirst sourcePath ∧
      later = bare.extend path sourcePath ∧
      (bare.sourceHandleGroupId = none → sourcePath = "") := by
  have hlater := canonical_transGen hbare.canonical hsteps
  obtain ⟨hnone, hgroup⟩ := source_transGen hsteps
  obtain ⟨index, hhandle, hindex⟩ := hbare.handle
  simp only [HandleNames.root, Prod.mk.injEq] at hroot
  obtain ⟨hfunction, hhandleRoot, hsourceRoot⟩ := hroot
  rw [hhandle, parse_parameterGroup hindex noDigitFirst_empty] at hhandleRoot
  obtain ⟨binding, hparse, hsame⟩ := Option.map_eq_some_iff.mp hhandleRoot.symm
  obtain ⟨hlaterHandle, -, hsuffix⟩ := parse_of_canonicalIn hlater.1 hparse
  have hpath : later.handleGroupId = bare.handleGroupId ++ binding.suffix := by
    rw [hlaterHandle, hhandle, parameterGroup_append, String.empty_append, hsame, hfunction]
  have hextends : ∀ sourcePath,
      later.sourceHandleGroupId = bare.sourceHandleGroupId.map (· ++ sourcePath) →
      later = bare.extend binding.suffix sourcePath := by
    intro sourcePath hsource
    cases later
    simp_all [HandleNames.extend]
  cases hsource : bare.sourceHandleGroupId with
  | none =>
      refine ⟨binding.suffix, "", hsuffix, noDigitFirst_empty, hextends "" ?_, fun _ => rfl⟩
      rw [hnone hsource, hsource]
      rfl
  | some source =>
      rcases hbare.source source hsource with hop | ⟨place, rfl, hplace⟩
      · refine ⟨binding.suffix, "", hsuffix, noDigitFirst_empty, hextends "" ?_, by simp⟩
        rw [hgroup source hsource hop, hsource]
        simp
      · rw [hsource, Option.bind_some, parse_parameterGroup hplace noDigitFirst_empty] at hsourceRoot
        obtain ⟨laterSource, hlaterSource, hmap⟩ := Option.bind_eq_some_iff.mp hsourceRoot.symm
        obtain ⟨sourceBinding, hsourceParse, hsourceSame⟩ := Option.map_eq_some_iff.mp hmap
        obtain ⟨heq, -, hsourceSuffix⟩ :=
          parse_of_canonicalIn (hlater.2 laterSource hlaterSource) hsourceParse
        refine ⟨binding.suffix, sourceBinding.suffix, hsuffix, hsourceSuffix, hextends _ ?_, by simp⟩
        rw [hlaterSource, hsource, heq, Option.map_some, parameterGroup_append, String.empty_append,
          hsourceSame, hfunction]

theorem named_transGen {names later : HandleNames} (h : module.Named names)
    (hsteps : TransGen (NameStep module.calls) names later) : module.Named later := by
  induction hsteps with
  | single hstep => exact h.step hstep
  | tail _ hstep ih => exact ih.step hstep

def HandleNames.size (names : HandleNames) : Nat :=
  names.handleGroupId.length + (names.sourceHandleGroupId.elim 0 String.length)

theorem size_extend_lt {bare : HandleNames} {path sourcePath rest sourceRest : String}
    (hnone : bare.sourceHandleGroupId = none → sourcePath = "")
    (hchanged : bare.extend rest sourceRest ≠ bare.extend (path ++ rest) (sourcePath ++ sourceRest))
    (other otherSource : String) :
    (bare.extend other otherSource).size <
      (bare.extend (path ++ other) (sourcePath ++ otherSource)).size := by
  have hnonempty : path ≠ "" ∨ sourcePath ≠ "" := by
    by_contra hempty
    push Not at hempty
    apply hchanged
    rw [hempty.1, hempty.2, String.empty_append, String.empty_append]
  have hlength : ∀ text : String, text ≠ "" → 0 < text.length := by
    intro text htext
    exact Nat.pos_of_ne_zero fun h => htext (String.length_eq_zero_iff.mp h)
  simp only [HandleNames.size, HandleNames.extend, String.length_append]
  cases hsource : bare.sourceHandleGroupId with
  | none =>
      rcases hnonempty with hpath | hsourcePath
      · have := hlength path hpath
        simp only [Option.map_none, Option.elim_none]
        omega
      · exact absurd (hnone hsource) hsourcePath
  | some source =>
      simp only [Option.map_some, Option.elim_some, String.length_append]
      rcases hnonempty with hpath | hsourcePath
      · have := hlength path hpath
        omega
      · have := hlength sourcePath hsourcePath
        omega

-- A chain that came back under another name can be gone along again, and the name grows each time.
theorem named_unbounded (h : ¬module.ReturnsUnrenamed) (n : Nat) :
    ∃ names, module.Named names ∧ n ≤ names.size := by
  unfold LifecycleModule.ReturnsUnrenamed at h
  push Not at h
  obtain ⟨names, hnamed, later, hsteps, hroot, hne⟩ := h
  have hcanonical := canonical_of_named hnamed
  obtain ⟨next, hfirst, -⟩ := TransGen.head'_iff.mp hsteps
  obtain ⟨bare, rest, sourceRest, hbare, hrest, hsourceRest, rfl⟩ := exists_bare hcanonical hfirst
  obtain ⟨middle, hmiddle, rfl⟩ := transGen_of_extend hbare.canonical hrest hsourceRest hsteps
  have hmiddleCanonical := canonical_transGen hbare.canonical hmiddle
  rw [root_extend hbare.canonical hrest hsourceRest,
    root_extend hmiddleCanonical hrest hsourceRest] at hroot
  obtain ⟨path, sourcePath, hpath, hsourcePath, rfl, hnone⟩ := return_extends hbare hmiddle hroot
  rw [HandleNames.extend_extend] at hne
  have hpump : ∃ other otherSource, NoDigitFirst other ∧ NoDigitFirst otherSource ∧
      module.Named (bare.extend other otherSource) ∧ n ≤ (bare.extend other otherSource).size := by
    induction n with
    | zero => exact ⟨rest, sourceRest, hrest, hsourceRest, hnamed, Nat.zero_le _⟩
    | succ n ih =>
        obtain ⟨other, otherSource, hother, hotherSource, hmore, hsize⟩ := ih
        refine ⟨path ++ other, sourcePath ++ otherSource, hpath.append hother,
          hsourcePath.append hotherSource, ?_, ?_⟩
        · rw [← HandleNames.extend_extend]
          exact named_transGen hmore (transGen_extend hbare.canonical hmiddle hother hotherSource)
        · have := size_extend_lt hnone hne other otherSource
          omega
  obtain ⟨other, otherSource, -, -, hmore, hsize⟩ := hpump
  exact ⟨_, hmore, hsize⟩

end Pumping

end ConcurrencyAnalyzer.Lifecycle
