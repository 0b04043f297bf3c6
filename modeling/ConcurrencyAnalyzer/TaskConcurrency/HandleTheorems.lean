import ConcurrencyAnalyzer.FactsBuilder.LifecycleRecursion
import ConcurrencyAnalyzer.TaskConcurrency.Handles
import Mathlib.Data.Set.Finite.List

namespace ConcurrencyAnalyzer.TaskConcurrency

open Program LockState Lifecycle Library

section Texts

theorem startsWith_iff {text start : String} :
    startsWith text start = true ↔ start.toList <+: text.toList := by
  rw [startsWith, List.isPrefixOf_iff_prefix]

theorem finite_texts (bound : Nat) : {text : String | text.toList.length ≤ bound}.Finite := by
  have hchars : Finite Char := by
    refine Finite.of_injective (fun char : Char => (⟨char.toNat, char.val.toNat_lt⟩ : Fin (2 ^ 32))) ?_
    intro first second h
    have heq : first.toNat = second.toNat := congrArg Fin.val h
    exact Char.toNat_inj.mp heq
  refine Set.Finite.of_injOn (f := String.toList) (fun text htext => htext) ?_
    (List.finite_length_le Char bound)
  exact fun first _ second _ heq => String.toList_inj.mp heq

-- Some number bounds the lengths of finitely many texts.
theorem exists_length_bound (texts : List String) :
    ∃ bound, ∀ text ∈ texts, text.toList.length ≤ bound := by
  induction texts with
  | nil => exact ⟨0, fun text h => absurd h List.not_mem_nil⟩
  | cons first texts ih =>
      obtain ⟨bound, hbound⟩ := ih
      refine ⟨max bound first.toList.length, fun text htext => ?_⟩
      rcases List.mem_cons.mp htext with rfl | hlater
      · exact le_max_right _ _
      · exact (hbound text hlater).trans (le_max_left _ _)

end Texts

section Callers

-- Each path that a text ends in takes a step for every so many characters.
def PathsBounded (bound : Nat) (text : List Char) : Prop :=
  ∀ path, path <:+ text → isPath path = true → path.length ≤ path.count '[' * bound

theorem count_pos_of_isPath {path : List Char} (h : isPath path = true) (hne : path ≠ []) :
    1 ≤ path.count '[' := by
  cases path with
  | nil => exact absurd rfl hne
  | cons first rest =>
      have hfirst : first = '[' := by simpa [isPath] using h
      rw [hfirst, List.count_cons_self]
      omega

theorem pathsBounded_of_length {bound : Nat} {text : List Char} (h : text.length ≤ bound) :
    PathsBounded bound text := by
  intro path hsuffix hpath
  have hle := hsuffix.length_le
  by_cases hne : path = []
  · rw [hne]
    exact Nat.zero_le _
  · have hcount := count_pos_of_isPath hpath hne
    calc path.length ≤ bound := hle.trans h
      _ = 1 * bound := (Nat.one_mul bound).symm
      _ ≤ path.count '[' * bound := Nat.mul_le_mul_right bound hcount

theorem PathsBounded.append {bound : Nat} {argument text path : List Char}
    (h : PathsBounded bound text) (hargument : argument.length ≤ bound) (hsuffix : path <:+ text)
    (hpath : isPath path = true) : PathsBounded bound (argument ++ path) := by
  intro longer hlonger hlongerPath
  rcases List.suffix_or_suffix_of_suffix hlonger (List.suffix_append argument path) with hin | hin
  · exact h longer (hin.trans hsuffix) hlongerPath
  · obtain ⟨start, rfl⟩ := hin
    have hshort := h path hsuffix hpath
    have hstart : start.length ≤ argument.length := by
      have hlength := hlonger.length_le
      rw [List.length_append, List.length_append] at hlength
      omega
    by_cases hne : start = []
    · rw [hne, List.nil_append]
      exact hshort
    · have hcount : 1 ≤ start.count '[' := by
        refine count_pos_of_isPath ?_ hne
        cases start with
        | nil => exact absurd rfl hne
        | cons first rest => exact hlongerPath
      rw [List.length_append, List.count_append, Nat.add_mul]
      have hmore := Nat.mul_le_mul_right bound hcount
      omega

-- What the callers of a function may come to name a handle.
structure Bounded (bound : Nat) (handle : String) : Prop where
  paths : PathsBounded bound handle.toList
  length : handle.toList.length ≤ (kMaxHandleSteps + 1) * bound

theorem bounded_of_length {bound : Nat} {handle : String} (h : handle.toList.length ≤ bound) :
    Bounded bound handle where
  paths := pathsBounded_of_length h
  length := by
    rw [Nat.add_mul, Nat.one_mul]
    omega

theorem finite_bounded (bound : Nat) : {handle | Bounded bound handle}.Finite :=
  (finite_texts _).subset fun _ h => h.length

theorem parameterPlaceOf_path {handle function path : String} {index : Nat}
    (h : parameterPlaceOf handle function = some (index, path)) :
    path.toList <:+ handle.toList ∧ isPath path.toList = true := by
  unfold parameterPlaceOf at h
  dsimp only at h
  split at h
  · cases h
  · split at h
    · cases h
    · rename_i hpath
      rw [Option.some.injEq, Prod.mk.injEq] at h
      obtain ⟨_, rfl⟩ := h
      simp only [Bool.or_eq_true, not_or, Bool.not_eq_true', Bool.not_eq_false] at hpath
      rw [String.toList_ofList]
      exact ⟨(List.dropWhile_suffix _).trans (List.drop_suffix _ _), hpath.1.2⟩

theorem isNameableHandle_count {handle : String} (h : isNameableHandle handle = true) :
    handle.toList.count '[' ≤ kMaxHandleSteps := by
  unfold isNameableHandle at h
  exact (of_decide_eq_true h).2

variable {site : DirectCallSite}

-- A name of a callee is global, or becomes nameable storage that an argument leads to.
theorem handleAtCaller_cases {handle renamed : String}
    (h : site.handleAtCaller handle = some renamed) :
    (renamed = handle ∧ startsWith handle kGlobalStoragePrefix = true) ∨
      ∃ index path group, parameterPlaceOf handle site.calleeFunctionId = some (index, path) ∧
        site.groups[index]? = some (some group) ∧ renamed = group ++ path ∧
          isNameableHandle renamed = true := by
  unfold DirectCallSite.handleAtCaller at h
  split at h
  · rename_i hglobal
    exact .inl ⟨(Option.some.inj h).symm, hglobal⟩
  · obtain ⟨⟨index, path⟩, hplace, hrest⟩ := Option.bind_eq_some_iff.mp h
    obtain ⟨group, hgroup, hname⟩ := Option.bind_eq_some_iff.mp hrest
    split at hname
    · rename_i hnameable
      obtain rfl := Option.some.inj hname
      exact .inr ⟨index, path, group, hplace, Option.join_eq_some_iff.mp hgroup, rfl, hnameable⟩
    · cases hname

-- A handle renamed to a caller takes no more steps than a handle may.
theorem handleAtCaller_nameable {handle renamed : String}
    (h : site.handleAtCaller handle = some renamed) :
    renamed = handle ∨ isNameableHandle renamed = true := by
  rcases handleAtCaller_cases h with ⟨heq, _⟩ | ⟨index, path, group, _, _, _, hnameable⟩
  · exact .inl heq
  · exact .inr hnameable

theorem Bounded.atCaller {bound : Nat} {handle renamed : String} (h : Bounded bound handle)
    (hgroups : ∀ group, some group ∈ site.groups → group.toList.length ≤ bound)
    (hrenamed : site.handleAtCaller handle = some renamed) : Bounded bound renamed := by
  rcases handleAtCaller_cases hrenamed with
    ⟨rfl, _⟩ | ⟨index, path, group, hplace, hgroup, rfl, hnameable⟩
  · exact h
  · obtain ⟨hsuffix, hpath⟩ := parameterPlaceOf_path hplace
    have hlength := hgroups group (List.mem_of_getElem? hgroup)
    refine ⟨?_, ?_⟩
    · rw [String.toList_append]
      exact h.paths.append hlength hsuffix hpath
    · have hshort := h.paths path.toList hsuffix hpath
      have hcount := isNameableHandle_count hnameable
      rw [String.toList_append, List.count_append] at hcount
      rw [String.toList_append, List.length_append, Nat.add_mul]
      have hmore := Nat.mul_le_mul_right bound (Nat.le_of_add_left_le hcount)
      omega

end Callers

section Callees

-- A name of storage reached through a parameter of a function, with a path of bounded length.
def HangsOff (function : String) (bound : Nat) (handle : String) : Prop :=
  ∃ index path, handle = parameterGroup function index path ∧ isPath path.toList = true ∧
    path.toList.length ≤ bound

theorem noDigitFirst_of_isPath {path : String} (h : isPath path.toList = true) :
    NoDigitFirst path := by
  intro first hfirst
  have hbracket : first = '[' := by
    unfold isPath at h
    rw [Option.mem_def] at hfirst
    rw [hfirst] at h
    simpa using h
  rw [hbracket]
  decide

variable {site : DirectCallSite}

theorem exists_usesParametersBelow (pointer : Pointer) :
    ∃ count, usesParametersBelow count pointer = true := by
  induction pointer with
  | argument index => exact ⟨index + 1, by simp [usesParametersBelow]⟩
  | gep base indices offset ih => exact ih
  | copied stored ih => exact ih
  | load slot ih => exact ih
  | global name => exact ⟨0, rfl⟩
  | alloca slot => exact ⟨0, rfl⟩
  | other => exact ⟨0, rfl⟩

theorem group_cases {group : String} (h : some group ∈ site.groups) :
    (∃ index path, group = parameterGroup site.callerFunctionId index path ∧ NoDigitFirst path) ∨
      Opaque group := by
  obtain ⟨argument, _, hgroup⟩ := List.mem_map.mp h
  obtain ⟨count, hcount⟩ := exists_usesParametersBelow argument.pointer
  rcases canonicalIn_of_pointer hcount noDigitFirst_empty hgroup with
    ⟨index, path, heq, _, hpath⟩ | hopaque
  · exact .inl ⟨index, path, heq, hpath⟩
  · exact .inr hopaque

theorem pathPast_spec {handle path : String} {argument : Option String}
    (h : DirectCallSite.pathPast handle argument = some path) :
    isPath path.toList = true ∧
      ∃ group, argument = some group ∧ handle = group ++ path := by
  unfold DirectCallSite.pathPast at h
  obtain ⟨group, hgroup, hpast⟩ := Option.bind_eq_some_iff.mp h
  split at hpast
  · rename_i hconditions
    rw [Bool.and_eq_true, Bool.and_eq_true, startsWith_iff] at hconditions
    obtain ⟨⟨_, rest, hrest⟩, hpath⟩ := hconditions
    rw [← hrest, List.drop_left] at hpast hpath
    obtain rfl := Option.some.inj hpast
    refine ⟨by rwa [String.toList_ofList], group, hgroup, ?_⟩
    rw [← String.toList_inj, String.toList_append, String.toList_ofList, hrest]
  · cases hpast

-- Past what a call passes, what hangs off a parameter of the caller has no more path than it had.
theorem path_le_of_hangsOff {bound : Nat} {handle path : String} {group : String}
    (hgroup : some group ∈ site.groups) (h : HangsOff site.callerFunctionId bound handle)
    (hpath : isPath path.toList = true) (heq : handle = group ++ path) :
    path.toList.length ≤ bound := by
  obtain ⟨index, whole, rfl, hwhole, hle⟩ := h
  rw [← String.toList_inj, String.toList_append] at heq
  rcases group_cases hgroup with ⟨other, start, rfl, hnoDigit⟩ | ⟨first, rest, hfirst, hne⟩
  · have hrest : NoDigitFirst (start ++ path) := hnoDigit.append (noDigitFirst_of_isPath hpath)
    rw [parameterGroup_toList, parameterGroup_toList, List.append_assoc, List.append_cancel_left_eq,
      List.append_assoc] at heq
    have hdrop := congrArg (List.dropWhile Char.isDigit) heq
    rw [(takeWhile_toDigits_append index (noDigitFirst_of_isPath hwhole)).2,
      ← String.toList_append, (takeWhile_toDigits_append other hrest).2,
      String.toList_append] at hdrop
    rw [hdrop, List.length_append] at hle
    omega
  · rw [parameterGroup_toList, hfirst] at heq
    have hhead : 'a' = first := by
      have := congrArg List.head? heq
      simpa using this
    exact absurd hhead.symm hne

-- What a handle becomes in a callee hangs off the parameter of an argument that leads to it.
theorem handleAtCallee_cases {handle passed : String}
    (h : site.handleAtCallee handle = some passed) :
    (passed = handle ∧ startsWith handle kGlobalStoragePrefix = true) ∨
      ∃ (index : Nat) (path group : String), site.groups[index]? = some (some group) ∧
        passed = parameterGroup site.calleeFunctionId index path ∧ isPath path.toList = true ∧
          handle = group ++ path := by
  unfold DirectCallSite.handleAtCallee at h
  split at h
  · rename_i hglobal
    exact .inl ⟨(Option.some.inj h).symm, hglobal⟩
  · obtain ⟨⟨argument, index⟩, hmem, hfound⟩ := List.exists_of_findSome?_eq_some h
    obtain ⟨path, hpast, heq⟩ := Option.map_eq_some_iff.mp hfound
    obtain ⟨hpath, group, rfl, hhandle⟩ := pathPast_spec hpast
    exact .inr ⟨index, path, group, List.mem_zipIdx_iff_getElem?.mp hmem, heq.symm, hpath, hhandle⟩

end Callees

section Entries

theorem entryAtCaller_cases {includeExternalEntries : Bool} {entry named : String}
    {site : DirectCallSite} (h : entryAtCaller includeExternalEntries entry site = some named) :
    named = entry ∨ ∃ argument ∈ site.arguments, ∃ binding, argument.binding = some binding ∧
      passedEntry includeExternalEntries site.callerFunctionId binding = some named := by
  unfold entryAtCaller at h
  split at h
  · exact .inl (Option.some.inj h).symm
  · obtain ⟨binding, hbinding, hpassed⟩ := Option.bind_eq_some_iff.mp h
    obtain ⟨argument, hargument, hbound⟩ := Option.bind_eq_some_iff.mp hbinding
    exact .inr ⟨argument, List.mem_of_getElem? hargument, binding, hbound, hpassed⟩

-- The entries that calls pass.
def entriesPassed (includeExternalEntries : Bool) (sites : List DirectCallSite) : List String :=
  sites.flatMap fun site => site.arguments.filterMap fun argument =>
    argument.binding.bind (passedEntry includeExternalEntries site.callerFunctionId)

theorem entryAtCaller_mem {includeExternalEntries : Bool} {entry named : String}
    {site : DirectCallSite} {sites : List DirectCallSite} (hsite : site ∈ sites)
    (h : entryAtCaller includeExternalEntries entry site = some named) :
    named = entry ∨ named ∈ entriesPassed includeExternalEntries sites := by
  rcases entryAtCaller_cases h with rfl | ⟨argument, hargument, binding, hbinding, hpassed⟩
  · exact .inl rfl
  · refine .inr (List.mem_flatMap.mpr ⟨site, hsite, List.mem_filterMap.mpr ⟨argument, hargument, ?_⟩⟩)
    rw [hbinding, Option.bind_some, hpassed]

end Entries

section Places

-- What a function names through a parameter reads back as that parameter and the path past it.
theorem parameterPlaceOf_parameterGroup {function path : String} {index : Nat}
    (hindex : index < 2 ^ 32) (hpath : isPath path.toList = true) :
    parameterPlaceOf (parameterGroup function index path) function = some (index, path) := by
  have htext : (parameterGroup function index path).toList =
      (kParameterStoragePrefix ++ function ++ ":").toList ++
        (Nat.toDigits 10 index ++ path.toList) := parameterGroup_toList function index path
  obtain ⟨htake, hdrop⟩ := takeWhile_toDigits_append index (noDigitFirst_of_isPath hpath)
  have hstart : startsWith (parameterGroup function index path)
      (kParameterStoragePrefix ++ function ++ ":") = true := by
    rw [startsWith_iff, htext]
    exact List.prefix_append _ _
  have hsmall : ¬2 ^ 64 ≤ index := by omega
  unfold parameterPlaceOf
  simp only [hstart, htext, List.drop_left, htake, hdrop, isEmpty_toDigits, hpath,
    decimalValue_toDigits, hsmall, Nat.mod_eq_of_lt hindex, String.ofList_toList]
  simp

theorem parameterGroup_not_global (function : String) (index : Nat) (path : String) :
    startsWith (parameterGroup function index path) kGlobalStoragePrefix = false := by
  rw [Bool.eq_false_iff, ne_eq, startsWith_iff]
  rintro ⟨rest, hrest⟩
  have hfirst := congrArg List.head? hrest
  simp [parameterGroup, kGlobalStoragePrefix] at hfirst

-- A part that a nameable handle begins with is nameable.
theorem isNameableHandle_of_append {group path : String}
    (h : isNameableHandle (group ++ path) = true) : isNameableHandle group = true := by
  unfold isNameableHandle at h ⊢
  obtain ⟨hknown, hcount⟩ := of_decide_eq_true h
  rw [String.toList_append] at hknown hcount
  rw [List.count_append] at hcount
  refine decide_eq_true ⟨?_, by omega⟩
  intro hunknown
  exact hknown (hunknown.trans (List.prefix_append _ _).isInfix)

end Places

section Renamings

variable {site : DirectCallSite}

theorem handleAtCaller_global {handle : String}
    (h : startsWith handle kGlobalStoragePrefix = true) : site.handleAtCaller handle = some handle := by
  rw [DirectCallSite.handleAtCaller, if_pos h]

theorem handleAtCallee_global {handle : String}
    (h : startsWith handle kGlobalStoragePrefix = true) : site.handleAtCallee handle = some handle := by
  rw [DirectCallSite.handleAtCallee, if_pos h]

-- A parameter's name becomes what the call passes there, and the path past it stays.
theorem handleAtCaller_parameterGroup {group path : String} {index : Nat} (hindex : index < 2 ^ 32)
    (hpath : isPath path.toList = true) (hgroup : site.groups[index]? = some (some group))
    (hnameable : isNameableHandle (group ++ path) = true) :
    site.handleAtCaller (parameterGroup site.calleeFunctionId index path) = some (group ++ path) := by
  rw [DirectCallSite.handleAtCaller, if_neg (by rw [parameterGroup_not_global]; decide),
    parameterPlaceOf_parameterGroup hindex hpath]
  simp only [Option.bind_some, hgroup, Option.join_some, hnameable, if_true]

-- What one argument of the call leads to, the callee names through that argument or one before it.
theorem handleAtCallee_isSome {group path : String} {index : Nat}
    (hgroup : site.groups[index]? = some (some group)) (hpath : isPath path.toList = true)
    (hnameable : isNameableHandle group = true) :
    (site.handleAtCallee (group ++ path)).isSome = true := by
  unfold DirectCallSite.handleAtCallee
  split
  · rfl
  · rw [List.findSome?_isSome_iff]
    refine ⟨(some group, index), List.mem_zipIdx_iff_getElem?.mpr hgroup, ?_⟩
    have hstart : startsWith (group ++ path) group = true := by
      rw [startsWith_iff, String.toList_append]
      exact List.prefix_append _ _
    have hpast : DirectCallSite.pathPast (group ++ path) (some group) = some path := by
      rw [DirectCallSite.pathPast, Option.bind_some, hnameable, hstart, String.toList_append,
        List.drop_left, hpath]
      simp
    simp only [hpast, Option.map_some, Option.isSome_some]

-- A call passes no more arguments than an unsigned number counts.
theorem index_lt_of_getElem? {index : Nat} {argument : Option String}
    (hcount : site.arguments.length < 2 ^ 32) (h : site.groups[index]? = some argument) :
    index < 2 ^ 32 := by
  have hlt := (List.getElem?_eq_some_iff.mp h).1
  rw [DirectCallSite.groups, List.length_map] at hlt
  exact hlt.trans hcount

theorem handleAtCaller_of_handleAtCallee {handle named : String}
    (hcount : site.arguments.length < 2 ^ 32) (hnameable : isNameableHandle handle = true)
    (h : site.handleAtCallee handle = some named) : site.handleAtCaller named = some handle := by
  rcases handleAtCallee_cases h with ⟨rfl, hglobal⟩ | ⟨index, path, group, hgroup, rfl, hpath, rfl⟩
  · exact handleAtCaller_global hglobal
  · exact handleAtCaller_parameterGroup (index_lt_of_getElem? hcount hgroup) hpath hgroup hnameable

theorem handleAtCallee_of_handleAtCaller {calleeHandle handle : String}
    (hcount : site.arguments.length < 2 ^ 32) (h : site.handleAtCaller calleeHandle = some handle) :
    ∃ named, site.handleAtCallee handle = some named ∧ site.handleAtCaller named = some handle := by
  rcases handleAtCaller_cases h with
    ⟨rfl, hglobal⟩ | ⟨index, path, group, hplace, hgroup, rfl, hnameable⟩
  · exact ⟨handle, handleAtCallee_global hglobal, handleAtCaller_global hglobal⟩
  · have hpath := (parameterPlaceOf_path hplace).2
    have hfound := handleAtCallee_isSome hgroup hpath (isNameableHandle_of_append hnameable)
    obtain ⟨named, hnamed⟩ := Option.isSome_iff_exists.mp hfound
    exact ⟨named, hnamed, handleAtCaller_of_handleAtCallee hcount hnameable hnamed⟩

-- Whatever the arguments of a call alias, a name taken into the callee comes back as it was.
theorem handles_round_trip (site : DirectCallSite) (hcount : site.arguments.length < 2 ^ 32) :
    (∀ handle, isNameableHandle handle = true → ∀ named, site.handleAtCallee handle = some named →
        site.handleAtCaller named = some handle) ∧
      ∀ calleeHandle handle, site.handleAtCaller calleeHandle = some handle →
        ∃ named, site.handleAtCallee handle = some named ∧
          site.handleAtCaller named = some handle := by
  refine ⟨?_, ?_⟩
  · intro handle hnameable named hnamed
    exact handleAtCaller_of_handleAtCallee hcount hnameable hnamed
  · intro calleeHandle handle hhandle
    exact handleAtCallee_of_handleAtCaller hcount hhandle

-- A call that hands one object over on two parameters and a field of it on a third.
def aliasingCall : DirectCallSite where
  caller := 0
  callerFunctionId := "start"
  call := ⟨0, 0⟩
  calleeFunctionId := "stop"
  arguments := [⟨.argument 12, none⟩, ⟨.argument 12, none⟩, ⟨.gep (.argument 12) [some 1] 8, none⟩]

theorem handles_round_trip_aliased :
    aliasingCall.handleAtCaller "arg:stop:0[1]" = some "arg:start:12[1]" ∧
      ∃ named, aliasingCall.handleAtCallee "arg:start:12[1]" = some named ∧
        aliasingCall.handleAtCaller named = some "arg:start:12[1]" := by
  have hround := handles_round_trip aliasingCall (by decide)
  have hpassed : aliasingCall.handleAtCallee "arg:start:12[1]" = some "arg:stop:0[1]" := by
    decide +kernel
  have hback : aliasingCall.handleAtCaller "arg:stop:2" = some "arg:start:12[1]" := by
    decide +kernel
  exact ⟨hround.1 "arg:start:12[1]" (by decide) "arg:stop:0[1]" hpassed,
    hround.2 "arg:stop:2" "arg:start:12[1]" hback⟩

end Renamings

end ConcurrencyAnalyzer.TaskConcurrency
