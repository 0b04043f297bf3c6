import ConcurrencyAnalyzer.FactsBuilder.LifecycleRecursion

namespace ConcurrencyAnalyzer.Lifecycle

open Program LockState Library Library.Saturation Relation

variable {module : LifecycleModule}

def WithoutBar (text : String) : Prop := '|' ∉ text.toList

instance : DecidablePred WithoutBar := fun text => inferInstanceAs (Decidable ('|' ∉ text.toList))

structure NamesWithoutBars (names : HandleNames) : Prop where
  functionId : WithoutBar names.functionId
  handle : WithoutBar names.handleGroupId
  source : ∀ source ∈ names.sourceHandleGroupId, WithoutBar source

-- No name of the module holds the character that ends the parts of a key.
structure LifecycleModule.WithoutBars (module : LifecycleModule) : Prop where
  collected : ∀ fact ∈ module.collected, NamesWithoutBars (handleNames fact)
  callers : ∀ call ∈ module.calls, WithoutBar call.callerFunctionId
  groups : ∀ call ∈ module.calls, ∀ index, ∀ group ∈ call.callerGroup index, WithoutBar group

theorem WithoutBar.append {text rest : String} (htext : WithoutBar text) (hrest : WithoutBar rest) :
    WithoutBar (text ++ rest) := by
  unfold WithoutBar at *
  rw [String.toList_append, List.mem_append]
  exact not_or.mpr ⟨htext, hrest⟩

theorem withoutBar_suffix {functionId group : String} {binding : LifecycleArgumentBinding}
    (h : parseLifecycleArgumentBinding functionId group = some binding) (hgroup : WithoutBar group) :
    WithoutBar binding.suffix := by
  unfold parseLifecycleArgumentBinding at h
  dsimp only at h
  split at h
  · cases h
  · split at h
    · cases h
    · cases h
      intro hbar
      rw [String.toList_ofList] at hbar
      exact hgroup (List.mem_of_mem_drop ((List.dropWhile_sublist _).subset hbar))

theorem namesWithoutBars_step {names next : HandleNames} (hmodule : module.WithoutBars)
    (h : NamesWithoutBars names) (hstep : NameStep module.calls names next) :
    NamesWithoutBars next := by
  obtain ⟨call, hcall, hcallee, hnames⟩ := hstep
  obtain ⟨binding, group, hparse, hgroup, hcaller, hhandle, hsources⟩ := namesAtCall_eq_some hnames
  refine ⟨hcaller ▸ hmodule.callers call hcall, ?_, ?_⟩
  · rw [hhandle]
    exact (hmodule.groups call hcall _ group hgroup).append (withoutBar_suffix hparse h.handle)
  · intro source hsource
    rcases hsources with ⟨-, hnone⟩ | ⟨old, renamed, hold, hrenamed, hnew⟩
    · rw [hnone] at hsource
      cases hsource
    · rw [hnew] at hsource
      cases hsource
      have hplain := h.source old hold
      unfold sourceAtCall at hrenamed
      split at hrenamed
      · cases hrenamed
        exact hplain
      · rename_i sourceBinding hsourceParse
        split at hrenamed
        · cases hrenamed
          exact hplain
        · obtain ⟨sourceGroup, hsourceGroup, rfl⟩ := Option.map_eq_some_iff.mp hrenamed
          exact (hmodule.groups call hcall _ sourceGroup hsourceGroup).append
            (withoutBar_suffix hsourceParse hplain)

theorem namesWithoutBars_of_named (hmodule : module.WithoutBars) {names : HandleNames}
    (h : module.Named names) : NamesWithoutBars names := by
  apply h.induct
  · rintro _ ⟨fact, hfact, rfl⟩
    exact hmodule.collected fact hfact
  · exact fun names next => namesWithoutBars_step hmodule

theorem CanonicalIn.ne_empty {functionId group : String} {count : Nat}
    (h : CanonicalIn functionId count group) : group ≠ "" := by
  rintro rfl
  rcases h with ⟨index, path, heq, -⟩ | ⟨first, rest, htext, -⟩
  · have := congrArg String.toList heq
    simp [parameterGroup] at this
  · simp at htext

theorem source_eq_of_getD_eq {names other : HandleNames} (h : module.Canonical names)
    (ho : module.Canonical other)
    (heq : names.sourceHandleGroupId.getD "" = other.sourceHandleGroupId.getD "") :
    names.sourceHandleGroupId = other.sourceHandleGroupId := by
  cases hsource : names.sourceHandleGroupId with
  | none =>
      cases hother : other.sourceHandleGroupId with
      | none => rfl
      | some source =>
          rw [hsource, hother] at heq
          exact absurd heq.symm (ho.2 source hother).ne_empty
  | some source =>
      cases hother : other.sourceHandleGroupId with
      | none =>
          rw [hsource, hother] at heq
          exact absurd heq (h.2 source hsource).ne_empty
      | some otherSource =>
          rw [hsource, hother] at heq
          exact congrArg some heq

-- The parts of a key, each ended by a bar.
theorem toList_lifecycleFactKey (fact : ThreadLifecycleFact) : ∃ rest,
    (lifecycleFactKey fact).toList = (toString (handleKindNumber fact.handleKind)).toList ++ '|' ::
      ((toString (actionNumber fact.action)).toList ++ '|' :: (fact.handleGroupId.toList ++ '|' ::
        (fact.functionId.toList ++ '|' ::
          ((fact.sourceHandleGroupId.getD "").toList ++ '|' :: rest)))) := by
  refine ⟨(fact.location.file ++ "|" ++ toString fact.location.line ++ "|" ++
    toString fact.location.column ++ "|" ++ fact.location.function).toList, ?_⟩
  have hbar : "|".toList = ['|'] := rfl
  unfold lifecycleFactKey
  simp only [String.toList_append, hbar, List.append_assoc, List.cons_append, List.nil_append]

theorem withoutBar_handleKindNumber (kind : ThreadHandleKind) :
    WithoutBar (toString (handleKindNumber kind)) := by
  cases kind <;> decide

theorem withoutBar_actionNumber (action : ThreadLifecycleAction) :
    WithoutBar (toString (actionNumber action)) := by
  cases action <;> decide

theorem withoutBar_getD {names : HandleNames} (h : NamesWithoutBars names) :
    WithoutBar (names.sourceHandleGroupId.getD "") := by
  cases hsource : names.sourceHandleGroupId with
  | none => decide
  | some source => exact h.source source hsource

theorem handleNames_eq_of_key_eq {fact other : ThreadLifecycleFact}
    (hfact : NamesWithoutBars (handleNames fact)) (hother : NamesWithoutBars (handleNames other))
    (hcanonical : module.Canonical (handleNames fact))
    (hotherCanonical : module.Canonical (handleNames other))
    (h : lifecycleFactKey fact = lifecycleFactKey other) : handleNames fact = handleNames other := by
  obtain ⟨rest, hkey⟩ := toList_lifecycleFactKey fact
  obtain ⟨otherRest, hotherKey⟩ := toList_lifecycleFactKey other
  have htext := congrArg String.toList h
  rw [hkey, hotherKey] at htext
  obtain ⟨-, htext⟩ := Delimiter.split_single (withoutBar_handleKindNumber _)
    (withoutBar_handleKindNumber _) htext
  obtain ⟨-, htext⟩ := Delimiter.split_single (withoutBar_actionNumber _)
    (withoutBar_actionNumber _) htext
  obtain ⟨hhandle, htext⟩ := Delimiter.split_single hfact.handle hother.handle htext
  obtain ⟨hfunction, htext⟩ := Delimiter.split_single hfact.functionId hother.functionId htext
  obtain ⟨hsource, -⟩ := Delimiter.split_single (withoutBar_getD hfact) (withoutBar_getD hother) htext
  have hsame := source_eq_of_getD_eq hcanonical hotherCanonical (String.toList_injective hsource)
  simp only [handleNames, HandleNames.mk.injEq]
  exact ⟨String.toList_injective hfunction, String.toList_injective hhandle, hsame⟩

theorem kept_after (module : LifecycleModule) (rounds : Nat) : Kept module (module.after rounds) :=
  iterate_invariant (fun _ => kept_lifecycleRound) (kept_start module) rounds

theorem prefix_after (module : LifecycleModule) (rounds : Nat) :
    module.start <+: module.after rounds := by
  induction rounds with
  | zero => exact List.prefix_rfl
  | succ rounds ih =>
      unfold LifecycleModule.after at ih ⊢
      rw [Function.iterate_succ_apply']
      exact ih.trans (prefix_lifecycleRound _ _)

-- What a round leaves alone holds every name there is.
theorem named_mem_of_fixed (hmodule : module.WithoutBars) {rounds : Nat}
    (hfixed : lifecycleRound module.calls (module.after rounds) = module.after rounds)
    {names : HandleNames} (h : module.Named names) :
    names ∈ (module.after rounds).map handleNames := by
  have hkept := kept_after module rounds
  have hnames : ∀ fact, module.Named (handleNames fact) →
      lifecycleFactKey fact ∈ (module.after rounds).map lifecycleFactKey →
      handleNames fact ∈ (module.after rounds).map handleNames := by
    intro fact hnamed hkey
    obtain ⟨other, hother, hsame⟩ := List.mem_map.mp hkey
    have hotherNamed := named_of_reachedFact (hkept.reached other hother)
    rw [handleNames_eq_of_key_eq (namesWithoutBars_of_named hmodule hnamed)
      (namesWithoutBars_of_named hmodule hotherNamed) (canonical_of_named hnamed)
      (canonical_of_named hotherNamed) hsame.symm]
    exact List.mem_map_of_mem hother
  have hboth : module.Named names ∧ names ∈ (module.after rounds).map handleNames := by
    apply h.induct
    · rintro _ ⟨fact, hfact, rfl⟩
      have hnamed : module.Named (handleNames fact) := .of_mem ⟨fact, hfact, rfl⟩
      refine ⟨hnamed, hnames fact hnamed ?_⟩
      exact ((prefix_after module rounds).map lifecycleFactKey).subset (key_mem_foldl_add hfact [])
    · rintro names next ⟨hnamed, hmem⟩ hstep
      have hnext := hnamed.step hstep
      refine ⟨hnext, ?_⟩
      obtain ⟨fact, hfact, rfl⟩ := List.mem_map.mp hmem
      obtain ⟨call, hcall, hcallee, hatCall⟩ := hstep
      obtain ⟨projected, hprojected⟩ : ∃ projected, projectLifecycle call fact = some projected := by
        rw [projectLifecycle, hatCall]
        exact ⟨_, rfl⟩
      have hsame : handleNames projected = next := by
        have := (projectLifecycle_eq_some hprojected).1
        rw [hatCall] at this
        exact (Option.some.inj this).symm
      rw [← hsame] at hnext ⊢
      exact hnames projected hnext (key_mem_of_fixed hfixed hfact ⟨call, hcall, hcallee, hprojected⟩)
  exact hboth.2

theorem returnsUnrenamed_of_settles (hmodule : module.WithoutBars) (h : module.Settles) :
    module.ReturnsUnrenamed := by
  by_contra hrenamed
  obtain ⟨rounds, hfixed⟩ := h
  have hsizes : {size | size ∈ (module.after rounds).map fun fact => (handleNames fact).size}.Finite :=
    List.finite_toSet _
  obtain ⟨bound, hbound⟩ := hsizes.bddAbove
  obtain ⟨names, hnamed, hsize⟩ := named_unbounded hrenamed (bound + 1)
  obtain ⟨fact, hfact, rfl⟩ := List.mem_map.mp (named_mem_of_fixed hmodule hfixed hnamed)
  have : (handleNames fact).size ≤ bound := hbound (List.mem_map.mpr ⟨fact, hfact, rfl⟩)
  omega

-- The loop ends exactly where no handle comes back to the parameters it hangs off under another name.
-- The names need no bars only for the direction from the loop to the handles.
theorem lifecycle_settles_iff (module : LifecycleModule) :
    (module.ReturnsUnrenamed → module.Settles) ∧
      (module.WithoutBars → (module.Settles ↔ module.ReturnsUnrenamed)) := by
  refine ⟨settles_of_returnsUnrenamed, fun hbars => ⟨?_, settles_of_returnsUnrenamed⟩⟩
  exact returnsUnrenamed_of_settles hbars

-- `join_all(n)` joins `n->t` and calls itself on `next`.
def joinAll (next : Pointer) (huses : usesParametersBelow 1 next) : LifecycleModule where
  parameterCount := fun _ => 1
  calls := [⟨"join_all", "join_all", [next], {}⟩]
  collected := [{ action := .Join, handleGroupId := "arg:join_all:0[0][1]", functionId := "join_all" }]
  countFits := fun _ => by decide
  argumentsPassed := by simp
  argumentsOfCaller := by simpa using huses
  handlesNamed := by
    intro fact hfact
    rw [List.mem_singleton.mp hfact]
    exact ⟨.load (.gep (.argument 0) [some 0, some 1] 8), by decide, by decide⟩
  sourcesNamed := by simp

def collectedJoin : HandleNames := ⟨"join_all", "arg:join_all:0[0][1]", none⟩

theorem joinAll_named (next : Pointer) (huses : usesParametersBelow 1 next) :
    (joinAll next huses).Named collectedJoin :=
  .of_mem ⟨_, List.mem_singleton_self _, rfl⟩

theorem joinAll_argument_step {names : HandleNames}
    (h : NameStep (joinAll (.argument 0) rfl).calls collectedJoin names) : names = collectedJoin := by
  obtain ⟨call, hcall, -, hnames⟩ := h
  rw [List.mem_singleton.mp hcall] at hnames
  have hsame : namesAtCall ⟨"join_all", "join_all", [.argument 0], {}⟩ collectedJoin =
      some collectedJoin := by decide
  rw [hsame] at hnames
  exact (Option.some.inj hnames).symm

theorem joinAll_argument_returnsUnrenamed : (joinAll (.argument 0) rfl).ReturnsUnrenamed := by
  have hnamed : ∀ names, (joinAll (.argument 0) rfl).Named names → names = collectedJoin := by
    intro names h
    apply h.induct
    · rintro _ ⟨fact, hfact, rfl⟩
      rw [List.mem_singleton.mp hfact]
      rfl
    · rintro names next rfl hstep
      exact joinAll_argument_step hstep
  intro names h later hsteps _
  rw [hnamed names h, hnamed later (named_transGen h hsteps)]

theorem joinAll_withoutBars {next : Pointer} {huses : usesParametersBelow 1 next} {group : String}
    (hgroup : canonicalStorageGroupId "join_all" "" next = some group) (hbar : WithoutBar group) :
    (joinAll next huses).WithoutBars where
  collected := by
    intro fact hfact
    rw [List.mem_singleton.mp hfact]
    exact ⟨by decide, by decide, by simp [handleNames]⟩
  callers := by
    intro call hcall
    rw [List.mem_singleton.mp hcall]
    change WithoutBar "join_all"
    decide
  groups := by
    intro call hcall index other hother
    rw [List.mem_singleton.mp hcall] at hother
    cases index with
    | zero =>
        change canonicalStorageGroupId "join_all" "" next = some other at hother
        rw [hgroup] at hother
        cases hother
        exact hbar
    | succ index => cases hother

theorem joinAll_argument_settles : (joinAll (.argument 0) rfl).Settles ∧
    ((joinAll (.argument 0) rfl).Settles ↔ (joinAll (.argument 0) rfl).ReturnsUnrenamed) :=
  ⟨(lifecycle_settles_iff _).1 joinAll_argument_returnsUnrenamed,
    (lifecycle_settles_iff _).2 (joinAll_withoutBars rfl (by decide))⟩

-- `n->next`.
def nextNode : Pointer := .load (.gep (.argument 0) [some 0, some 0] 0)

theorem joinAll_nextNode_never_settles : ¬(joinAll nextNode rfl).Settles := by
  intro hsettles
  have hreturns := returnsUnrenamed_of_settles (joinAll_withoutBars rfl (by decide)) hsettles
  have hstep : NameStep (joinAll nextNode rfl).calls collectedJoin
      ⟨"join_all", "arg:join_all:0[0][0][0][1]", none⟩ :=
    ⟨_, List.mem_singleton_self _, rfl, by decide⟩
  have hsame := hreturns collectedJoin (joinAll_named nextNode rfl) _ (.single hstep) (by decide)
  exact absurd hsame (by decide)

end ConcurrencyAnalyzer.Lifecycle
