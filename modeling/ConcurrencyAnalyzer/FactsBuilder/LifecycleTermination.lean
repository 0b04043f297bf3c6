import Mathlib.Data.Finite.Prod
import ConcurrencyAnalyzer.FactsBuilder.Lifecycle
import ConcurrencyAnalyzer.Library.Delimiter
import ConcurrencyAnalyzer.Library.Saturation

namespace ConcurrencyAnalyzer.Lifecycle

open Program LockState Library.Saturation Relation

section Rounds

variable {calls : List LifecycleCall} {facts : List ThreadLifecycleFact}

theorem mem_addLifecycleFact {fact other : ThreadLifecycleFact}
    (h : other ∈ addLifecycleFact facts fact) : other ∈ facts ∨ other = fact := by
  unfold addLifecycleFact at h
  split at h
  · exact Or.inl h
  · simpa using h

theorem prefix_addLifecycleFact (facts : List ThreadLifecycleFact) (fact : ThreadLifecycleFact) :
    facts <+: addLifecycleFact facts fact := by
  unfold addLifecycleFact
  split
  · exact List.prefix_rfl
  · exact List.prefix_append _ _

theorem key_mem_addLifecycleFact (facts : List ThreadLifecycleFact) (fact : ThreadLifecycleFact) :
    lifecycleFactKey fact ∈ (addLifecycleFact facts fact).map lifecycleFactKey := by
  unfold addLifecycleFact
  split
  · assumption
  · simp

theorem nodup_addLifecycleFact (fact : ThreadLifecycleFact)
    (h : (facts.map lifecycleFactKey).Nodup) :
    ((addLifecycleFact facts fact).map lifecycleFactKey).Nodup := by
  unfold addLifecycleFact
  split
  · exact h
  · rename_i hnew
    rw [List.map_append, List.nodup_append]
    refine ⟨h, List.nodup_singleton _, ?_⟩
    intro key hkey other hother
    rw [List.map_singleton, List.mem_singleton] at hother
    subst hother
    intro heq
    exact hnew (heq ▸ hkey)

theorem prefix_foldl_add (added facts : List ThreadLifecycleFact) :
    facts <+: added.foldl addLifecycleFact facts := by
  induction added generalizing facts with
  | nil => exact List.prefix_rfl
  | cons fact added ih => exact (prefix_addLifecycleFact facts fact).trans (ih _)

theorem mem_foldl_add {added : List ThreadLifecycleFact} {other : ThreadLifecycleFact}
    (h : other ∈ added.foldl addLifecycleFact facts) : other ∈ facts ∨ other ∈ added := by
  induction added generalizing facts with
  | nil => exact Or.inl h
  | cons fact added ih =>
      rcases ih h with hold | hadded
      · rcases mem_addLifecycleFact hold with hold | rfl
        · exact Or.inl hold
        · exact Or.inr (List.mem_cons_self ..)
      · exact Or.inr (List.mem_cons_of_mem _ hadded)

theorem key_mem_foldl_add {added : List ThreadLifecycleFact} {fact : ThreadLifecycleFact}
    (h : fact ∈ added) (facts : List ThreadLifecycleFact) :
    lifecycleFactKey fact ∈ (added.foldl addLifecycleFact facts).map lifecycleFactKey := by
  induction added generalizing facts with
  | nil => cases h
  | cons first added ih =>
      rcases List.mem_cons.mp h with rfl | h
      · have hgrown := prefix_foldl_add added (addLifecycleFact facts fact)
        exact (hgrown.map lifecycleFactKey).subset (key_mem_addLifecycleFact facts fact)
      · exact ih h _

theorem nodup_foldl_add (added : List ThreadLifecycleFact)
    (h : (facts.map lifecycleFactKey).Nodup) :
    ((added.foldl addLifecycleFact facts).map lifecycleFactKey).Nodup := by
  induction added generalizing facts with
  | nil => exact h
  | cons fact added ih => exact ih (nodup_addLifecycleFact fact h)

theorem prefix_lifecycleRound (calls : List LifecycleCall) (facts : List ThreadLifecycleFact) :
    facts <+: lifecycleRound calls facts := by
  unfold lifecycleRound
  induction calls generalizing facts with
  | nil => exact List.prefix_rfl
  | cons call calls ih => exact (prefix_foldl_add _ facts).trans (ih _)

theorem nodup_lifecycleRound (h : (facts.map lifecycleFactKey).Nodup) :
    ((lifecycleRound calls facts).map lifecycleFactKey).Nodup := by
  unfold lifecycleRound
  induction calls generalizing facts with
  | nil => exact h
  | cons call calls ih => exact ih (nodup_foldl_add _ h)

-- One fact projected onto one call of the function it is in.
def FactStep (calls : List LifecycleCall) (fact next : ThreadLifecycleFact) : Prop :=
  ∃ call ∈ calls, call.calleeFunctionId = fact.functionId ∧ projectLifecycle call fact = some next

theorem mem_projectOntoCall {call : LifecycleCall} {fact : ThreadLifecycleFact}
    (h : fact ∈ projectOntoCall facts call) :
    fact ∈ facts ∨ ∃ from_ ∈ facts, call.calleeFunctionId = from_.functionId ∧
      projectLifecycle call from_ = some fact := by
  rcases mem_foldl_add h with hold | hadded
  · exact Or.inl hold
  · obtain ⟨from_, hfrom, hproject⟩ := List.mem_filterMap.mp hadded
    rw [List.mem_filter] at hfrom
    have hcallee := of_decide_eq_true hfrom.2
    exact Or.inr ⟨from_, hfrom.1, hcallee.symm, hproject⟩

theorem forall_mem_lifecycleRound {P : ThreadLifecycleFact → Prop}
    (hstep : ∀ fact next, P fact → FactStep calls fact next → P next)
    (h : ∀ fact ∈ facts, P fact) : ∀ fact ∈ lifecycleRound calls facts, P fact := by
  unfold lifecycleRound
  have hfold : ∀ visited : List LifecycleCall, (∀ call ∈ visited, call ∈ calls) →
      ∀ facts : List ThreadLifecycleFact, (∀ fact ∈ facts, P fact) →
      ∀ fact ∈ visited.foldl projectOntoCall facts, P fact := by
    intro visited
    induction visited with
    | nil => exact fun _ _ h => h
    | cons call visited ih =>
        intro hcalls facts h
        apply ih fun other hother => hcalls other (List.mem_cons_of_mem _ hother)
        intro fact hfact
        rcases mem_projectOntoCall hfact with hold | ⟨from_, hfrom, hcallee, hproject⟩
        · exact h fact hold
        · exact hstep from_ fact (h from_ hfrom)
            ⟨call, hcalls call (List.mem_cons_self ..), hcallee, hproject⟩
  exact hfold calls (fun _ h => h) facts h

-- A round that adds nothing has a fact under the key of every projection.
theorem key_mem_of_fixed (hfixed : lifecycleRound calls facts = facts)
    {fact next : ThreadLifecycleFact} (hfact : fact ∈ facts) (hstep : FactStep calls fact next) :
    lifecycleFactKey next ∈ facts.map lifecycleFactKey := by
  obtain ⟨call, hcall, hcallee, hproject⟩ := hstep
  obtain ⟨before, after, rfl⟩ := List.append_of_mem hcall
  unfold lifecycleRound at hfixed
  rw [List.foldl_append, List.foldl_cons] at hfixed
  have hbefore : facts <+: before.foldl projectOntoCall facts := prefix_lifecycleRound before facts
  have hmiddle := prefix_foldl_add (((before.foldl projectOntoCall facts).filter
    (·.functionId = call.calleeFunctionId)).filterMap (projectLifecycle call))
    (before.foldl projectOntoCall facts)
  have hafter := prefix_lifecycleRound after
    (projectOntoCall (before.foldl projectOntoCall facts) call)
  unfold lifecycleRound at hafter
  rw [hfixed] at hafter
  have hadded : next ∈ ((before.foldl projectOntoCall facts).filter
      (·.functionId = call.calleeFunctionId)).filterMap (projectLifecycle call) := by
    refine List.mem_filterMap.mpr ⟨fact, List.mem_filter.mpr ⟨hbefore.subset hfact, ?_⟩, hproject⟩
    exact decide_eq_true hcallee.symm
  have hkey := key_mem_foldl_add hadded (before.foldl projectOntoCall facts)
  exact (hafter.map lifecycleFactKey).subset hkey

end Rounds

section Names

-- The function a name is in, and the parameters it and its source hang off.
def HandleNames.root (names : HandleNames) : String × Option Nat × Option Nat :=
  (names.functionId,
    (parseLifecycleArgumentBinding names.functionId names.handleGroupId).map (·.argumentIndex),
    names.sourceHandleGroupId.bind fun source =>
      (parseLifecycleArgumentBinding names.functionId source).map (·.argumentIndex))

def NameStep (calls : List LifecycleCall) (names next : HandleNames) : Prop :=
  ∃ call ∈ calls, call.calleeFunctionId = names.functionId ∧ namesAtCall call names = some next

def LifecycleModule.Named (module : LifecycleModule) : HandleNames → Prop :=
  Reached (NameStep module.calls) {names | ∃ fact ∈ module.collected, handleNames fact = names}

-- What a collected handle is called along a chain of calls, it is called again whenever the chain comes
-- back to the same parameters of the same function: no recursion hands on a part of what it was handed.
def LifecycleModule.ReturnsUnrenamed (module : LifecycleModule) : Prop :=
  ∀ names, module.Named names → ∀ later, TransGen (NameStep module.calls) names later →
    names.root = later.root → names = later

theorem namesAtCall_eq_some {call : LifecycleCall} {names next : HandleNames}
    (h : namesAtCall call names = some next) :
    ∃ binding group,
      parseLifecycleArgumentBinding names.functionId names.handleGroupId = some binding ∧
      call.callerGroup binding.argumentIndex = some group ∧
      next.functionId = call.callerFunctionId ∧ next.handleGroupId = group ++ binding.suffix ∧
      (names.sourceHandleGroupId = none ∧ next.sourceHandleGroupId = none ∨
        ∃ source renamed, names.sourceHandleGroupId = some source ∧
          sourceAtCall call names.functionId source = some renamed ∧
          next.sourceHandleGroupId = some renamed) := by
  unfold namesAtCall at h
  split at h
  · cases h
  · rename_i binding hbinding
    split at h
    · cases h
    · rename_i group hgroup
      split at h
      · rename_i hsource
        cases h
        exact ⟨binding, group, hbinding, hgroup, rfl, rfl, Or.inl ⟨hsource, rfl⟩⟩
      · rename_i source hsource
        obtain ⟨renamed, hrenamed, rfl⟩ := Option.map_eq_some_iff.mp h
        exact ⟨binding, group, hbinding, hgroup, rfl, rfl,
          Or.inr ⟨source, renamed, hsource, hrenamed, rfl⟩⟩

theorem projectLifecycle_eq_some {call : LifecycleCall} {fact next : ThreadLifecycleFact}
    (h : projectLifecycle call fact = some next) :
    namesAtCall call (handleNames fact) = some (handleNames next) ∧
      next.handleKind = fact.handleKind ∧ next.action = fact.action ∧
      next.resolvedOnAllPaths = fact.resolvedOnAllPaths ∧ next.insideLoop = fact.insideLoop ∧
      next.escapedToUntrackedStorage = fact.escapedToUntrackedStorage ∧
      (next.location = fact.location ∨ next.location = call.userLocation) := by
  obtain ⟨names, hnames, rfl⟩ := Option.map_eq_some_iff.mp h
  refine ⟨hnames, rfl, rfl, rfl, rfl, rfl, ?_⟩
  dsimp only
  split
  · exact Or.inr rfl
  · exact Or.inl rfl

theorem nameStep_of_factStep {calls : List LifecycleCall} {fact next : ThreadLifecycleFact}
    (h : FactStep calls fact next) : NameStep calls (handleNames fact) (handleNames next) := by
  obtain ⟨call, hcall, hcallee, hproject⟩ := h
  exact ⟨call, hcall, hcallee, (projectLifecycle_eq_some hproject).1⟩

theorem argumentIndex_lt {functionId group : String} {binding : LifecycleArgumentBinding}
    (h : parseLifecycleArgumentBinding functionId group = some binding) :
    binding.argumentIndex < 2 ^ 32 := by
  unfold parseLifecycleArgumentBinding at h
  dsimp only at h
  split at h
  · cases h
  · split at h
    · cases h
    · cases h
      exact Nat.mod_lt _ (by decide)

end Names

section Sufficient

variable {module : LifecycleModule}

def LifecycleModule.ReachedFact (module : LifecycleModule) : ThreadLifecycleFact → Prop :=
  Reached (FactStep module.calls) {fact | fact ∈ module.collected}

theorem named_of_reachedFact {fact : ThreadLifecycleFact} (h : module.ReachedFact fact) :
    module.Named (handleNames fact) := by
  apply h.induct
  · intro start hstart
    exact .of_mem ⟨start, hstart, rfl⟩
  · intro fact next hnamed hstep
    exact hnamed.step (nameStep_of_factStep hstep)

-- A fact without its names.
def unnamed (fact : ThreadLifecycleFact) : ThreadLifecycleFact :=
  { fact with functionId := "", handleGroupId := "", sourceHandleGroupId := none }

theorem eq_of_handleNames_eq {fact other : ThreadLifecycleFact}
    (hnames : handleNames fact = handleNames other) (hrest : unnamed fact = unnamed other) :
    fact = other := by
  cases fact
  cases other
  simp only [handleNames, HandleNames.mk.injEq] at hnames
  simp only [unnamed, ThreadLifecycleFact.mk.injEq] at hrest
  simp_all

def LifecycleModule.locations (module : LifecycleModule) : List SourceLocation :=
  module.collected.map (·.location) ++ module.calls.map (·.userLocation)

theorem unnamed_of_reachedFact {fact : ThreadLifecycleFact} (h : module.ReachedFact fact) :
    ∃ origin ∈ module.collected, ∃ location ∈ module.locations, ∃ propagated,
      unnamed fact = { unnamed origin with location := location, propagated := propagated } := by
  apply h.induct
  · intro start hstart
    refine ⟨start, hstart, start.location, ?_, start.propagated, rfl⟩
    exact List.mem_append_left _ (List.mem_map_of_mem hstart)
  · rintro fact next ⟨origin, horigin, location, hlocation, propagated, heq⟩
      ⟨call, hcall, -, hproject⟩
    obtain ⟨-, hkind, haction, hpaths, hloop, hescaped, hplace⟩ := projectLifecycle_eq_some hproject
    simp only [unnamed, ThreadLifecycleFact.mk.injEq] at heq
    refine ⟨origin, horigin, next.location, ?_, next.propagated, ?_⟩
    · rcases hplace with hplace | hplace
      · rw [hplace, heq.2.2.2.2.2.1]
        exact hlocation
      · rw [hplace]
        exact List.mem_append_right _ (List.mem_map_of_mem hcall)
    · simp only [unnamed, ThreadLifecycleFact.mk.injEq]
      simp_all

theorem unnamed_finite (module : LifecycleModule) :
    (unnamed '' {fact | module.ReachedFact fact}).Finite := by
  have hcollected : {fact | fact ∈ module.collected}.Finite := List.finite_toSet _
  have hlocations : {location | location ∈ module.locations}.Finite := List.finite_toSet _
  have hall := ((hcollected.prod hlocations).prod (Set.finite_univ (α := Bool))).image
    fun parts : (ThreadLifecycleFact × SourceLocation) × Bool =>
      { unnamed parts.1.1 with location := parts.1.2, propagated := parts.2 }
  apply hall.subset
  rintro _ ⟨fact, hfact, rfl⟩
  obtain ⟨origin, horigin, location, hlocation, propagated, heq⟩ := unnamed_of_reachedFact hfact
  exact ⟨((origin, location), propagated), ⟨⟨horigin, hlocation⟩, trivial⟩, heq.symm⟩

theorem functionId_of_reachedFact {fact : ThreadLifecycleFact} (h : module.ReachedFact fact) :
    fact.functionId ∈ module.collected.map (·.functionId) ++
      module.calls.map (·.callerFunctionId) := by
  apply h.induct
  · intro start hstart
    exact List.mem_append_left _ (List.mem_map_of_mem hstart)
  · rintro fact next - ⟨call, hcall, -, hproject⟩
    obtain ⟨hnames, -⟩ := projectLifecycle_eq_some hproject
    obtain ⟨-, -, -, -, hcaller, -⟩ := namesAtCall_eq_some hnames
    change next.functionId = call.callerFunctionId at hcaller
    rw [hcaller]
    exact List.mem_append_right _ (List.mem_map_of_mem hcall)

theorem root_finite (module : LifecycleModule) :
    ((fun fact => (handleNames fact).root) '' {fact | module.ReachedFact fact}).Finite := by
  have hindices : (insert none (some '' Set.Iio (2 ^ 32)) : Set (Option Nat)).Finite :=
    ((Set.finite_Iio (2 ^ 32)).image some).insert none
  have hindex : ∀ functionId group,
      (parseLifecycleArgumentBinding functionId group).map (·.argumentIndex) ∈
        (insert none (some '' Set.Iio (2 ^ 32)) : Set (Option Nat)) := by
    intro functionId group
    cases hparse : parseLifecycleArgumentBinding functionId group with
    | none => exact Or.inl rfl
    | some binding => exact Or.inr ⟨binding.argumentIndex, argumentIndex_lt hparse, rfl⟩
  have hfunctions : {functionId | functionId ∈ module.collected.map (·.functionId) ++
      module.calls.map (·.callerFunctionId)}.Finite := List.finite_toSet _
  apply (hfunctions.prod (hindices.prod hindices)).subset
  rintro _ ⟨fact, hfact, rfl⟩
  refine ⟨functionId_of_reachedFact hfact, hindex _ _, ?_⟩
  cases hsource : fact.sourceHandleGroupId with
  | none => simp [HandleNames.root, handleNames, hsource]
  | some source => simpa [HandleNames.root, handleNames, hsource] using hindex fact.functionId source

theorem reachedFact_finite (h : module.ReturnsUnrenamed) :
    {fact | module.ReachedFact fact}.Finite := by
  apply reached_finite fun fact => ((handleNames fact).root, unnamed fact)
  · exact List.finite_toSet module.collected
  · intro fact
    have hcalls : {next | FactStep module.calls fact next} ⊆
        {next | next ∈ module.calls.filterMap fun call => projectLifecycle call fact} := by
      rintro next ⟨call, hcall, -, hproject⟩
      exact List.mem_filterMap.mpr ⟨call, hcall, hproject⟩
    exact Set.Finite.subset (List.finite_toSet _) hcalls
  · apply ((root_finite module).prod (unnamed_finite module)).subset
    rintro _ ⟨fact, hfact, rfl⟩
    exact ⟨⟨fact, hfact, rfl⟩, ⟨fact, hfact, rfl⟩⟩
  · intro fact hfact later hlater hroot
    simp only [Prod.mk.injEq] at hroot
    have hnames := h (handleNames fact) (named_of_reachedFact hfact) (handleNames later)
      (hlater.lift handleNames fun _ _ => nameStep_of_factStep) hroot.1
    exact eq_of_handleNames_eq hnames hroot.2

-- The facts of a module that are kept have keys of their own, and are reached.
structure Kept (module : LifecycleModule) (facts : List ThreadLifecycleFact) : Prop where
  reached : ∀ fact ∈ facts, module.ReachedFact fact
  nodup : (facts.map lifecycleFactKey).Nodup

theorem kept_start (module : LifecycleModule) : Kept module module.start where
  reached := by
    intro fact hfact
    rcases mem_foldl_add hfact with hold | hcollected
    · cases hold
    · exact .of_mem hcollected
  nodup := nodup_foldl_add _ List.nodup_nil

theorem kept_lifecycleRound {facts : List ThreadLifecycleFact} (h : Kept module facts) :
    Kept module (lifecycleRound module.calls facts) where
  reached := forall_mem_lifecycleRound (fun _ _ hfact hstep => hfact.step hstep) h.reached
  nodup := nodup_lifecycleRound h.nodup

theorem settles_of_returnsUnrenamed (h : module.ReturnsUnrenamed) : module.Settles := by
  classical
  have hfinite := reachedFact_finite h
  have hround : ∀ facts, Kept module facts → Kept module (lifecycleRound module.calls facts) :=
    fun _ => kept_lifecycleRound
  apply exists_fixed List.length hfinite.toFinset.card hround
  · intro facts hkept
    have hsubset : facts.toFinset ⊆ hfinite.toFinset := by
      intro fact hfact
      rw [Set.Finite.mem_toFinset]
      exact hkept.reached fact (List.mem_toFinset.mp hfact)
    calc facts.length = facts.toFinset.card :=
          (List.toFinset_card_of_nodup hkept.nodup.of_map).symm
      _ ≤ hfinite.toFinset.card := Finset.card_le_card hsubset
  · intro facts _ hchanged
    have hgrown := prefix_lifecycleRound module.calls facts
    by_contra hlength
    exact hchanged (hgrown.eq_of_length_le (by omega)).symm
  · exact kept_start module

end Sufficient

end ConcurrencyAnalyzer.Lifecycle
