import ConcurrencyAnalyzer.FactsBuilder.AccessKeys

namespace ConcurrencyAnalyzer.FactsBuilder

open Library Library.Saturation Library.KeepFirst

section Merge

@[simp] theorem summaryKey_mergeAccessThreads (kept access : ParameterizedAccess) :
    summaryKey (mergeAccessThreads kept access) = summaryKey kept := rfl

@[simp] theorem normalAccess_mergeAccessThreads (kept access : ParameterizedAccess) :
    normalAccess (mergeAccessThreads kept access) = normalAccess kept := rfl

theorem accessThreadCount_mergeAccessThreads_le (kept access : ParameterizedAccess) :
    accessThreadCount kept ≤ accessThreadCount (mergeAccessThreads kept access) :=
  Nat.add_le_add (Finset.card_le_card Finset.subset_union_left)
    (Finset.card_le_card Finset.subset_union_left)

theorem mergeAccessThreads_of_card_eq (kept access : ParameterizedAccess)
    (h : accessThreadCount (mergeAccessThreads kept access) = accessThreadCount kept) :
    mergeAccessThreads kept access = kept := by
  have hlive : kept.fact.liveEntries ⊆ kept.fact.liveEntries ∪ access.fact.liveEntries :=
    Finset.subset_union_left
  have hstarted : kept.fact.startedEntries ⊆ kept.fact.startedEntries ∪ access.fact.startedEntries :=
    Finset.subset_union_left
  have hliveCard := Finset.card_le_card hlive
  have hstartedCard := Finset.card_le_card hstarted
  simp only [accessThreadCount, mergeAccessThreads, mergeThreads] at h ⊢
  rw [← Finset.eq_of_subset_of_card_le hlive (by omega),
    ← Finset.eq_of_subset_of_card_le hstarted (by omega)]

end Merge

section Advances

variable {module : AccessModule}

def summaryWeight (summaries : List ParameterizedAccess) : Nat := weight accessThreadCount summaries

-- A change is something gained.
structure Advances (before after : SummaryState) : Prop where
  weight : summaryWeight before.summaries ≤ summaryWeight after.summaries
  gained : after.changed = true →
    before.changed = true ∨ summaryWeight before.summaries < summaryWeight after.summaries

theorem Advances.refl (state : SummaryState) : Advances state state :=
  ⟨Nat.le_refl _, Or.inl⟩

theorem Advances.trans {first second third : SummaryState} (h : Advances first second)
    (h' : Advances second third) : Advances first third := by
  refine ⟨Nat.le_trans h.weight h'.weight, fun hchanged => ?_⟩
  rcases h'.gained hchanged with hchanged | hlt
  · rcases h.gained hchanged with hchanged | hlt
    · exact Or.inl hchanged
    · exact Or.inr (Nat.lt_of_lt_of_le hlt h'.weight)
  · exact Or.inr (Nat.lt_of_le_of_lt h.weight hlt)

theorem advances_addSummary (state : SummaryState) (access : ParameterizedAccess) :
    Advances state (module.addSummary state access) := by
  unfold AccessModule.addSummary
  split
  · refine ⟨weight_le_keep accessThreadCount_mergeAccessThreads_le mergeAccessThreads_of_card_eq _ _,
      fun hchanged => ?_⟩
    rcases Bool.or_eq_true_iff.mp hchanged with hgains | hchanged
    · exact Or.inr (weight_lt_of_gains accessThreadCount_mergeAccessThreads_le hgains)
    · exact Or.inl hchanged
  · exact .refl state

theorem advances_foldl {β : Type*} {add : SummaryState → β → SummaryState}
    (hadd : ∀ state element, Advances state (add state element)) (elements : List β)
    (state : SummaryState) : Advances state (elements.foldl add state) := by
  induction elements generalizing state with
  | nil => exact .refl state
  | cons element elements ih => exact (hadd state element).trans (ih _)

theorem summaryWeight_lt_of_changed {summaries : List ParameterizedAccess}
    (h : (module.round summaries).changed = true) :
    summaryWeight summaries < summaryWeight (module.round summaries).summaries := by
  have hround : Advances { summaries := summaries } (module.round summaries) :=
    advances_foldl (fun state call => advances_foldl advances_addSummary _ state) _ _
  exact (hround.gained h).resolve_left (by simp)

end Advances

section Summaries

variable {module : AccessModule} {entries : ThreadEntrySet}

-- What a summary may hold: an access of some calls, and threads that run beside some access.
structure Summarized (module : AccessModule) (entries : ThreadEntrySet)
    (access : ParameterizedAccess) : Prop where
  reached : normalAccess access ∈ module.ReachedNormal
  live : access.fact.liveEntries ⊆ entries
  started : access.fact.startedEntries ⊆ entries

structure Summaries (module : AccessModule) (entries : ThreadEntrySet)
    (summaries : List ParameterizedAccess) : Prop where
  summarized : ∀ access ∈ summaries, Summarized module entries access
  nodup : (summaries.map summaryKey).Nodup

theorem summarized_merge {kept access : ParameterizedAccess} (hkept : Summarized module entries kept)
    (haccess : Summarized module entries access) :
    Summarized module entries (mergeAccessThreads kept access) :=
  ⟨hkept.reached, Finset.union_subset hkept.live haccess.live,
    Finset.union_subset hkept.started haccess.started⟩

theorem summarized_project {access projected : ParameterizedAccess}
    (h : Summarized module entries access) {call : DirectCallBinding}
    (hcall : call ∈ module.directCallBindings)
    (hcallee : call.calleeFunctionId = access.fact.functionId)
    (hproject : projectAccess call access = some projected) :
    Summarized module entries projected := by
  have hreached := normalAccess_reached h.reached hcall hcallee hproject
  unfold projectAccess at hproject
  split at hproject
  · cases hproject
  · split at hproject
    · cases hproject
    · cases hproject
      have hlive := (Finset.filter_subset (fun entry => entry ∈ access.fact.startedEntries ∨
        entry ∈ (threadsAtCallFor access call).1) access.fact.liveEntries).trans h.live
      exact ⟨hreached, hlive, (Finset.filter_subset _ _).trans hlive⟩

theorem summaries_addSummary {state : SummaryState} (h : Summaries module entries state.summaries)
    {access : ParameterizedAccess} (haccess : Summarized module entries access) :
    Summaries module entries (module.addSummary state access).summaries := by
  unfold AccessModule.addSummary
  split
  · constructor
    · exact forall_mem_keep (fun _ _ => summarized_merge) h.summarized haccess
    · exact nodup_keep summaryKey_mergeAccessThreads access h.nodup
  · exact h

theorem summaries_foldl {state : SummaryState} (h : Summaries module entries state.summaries)
    {accesses : List ParameterizedAccess}
    (haccesses : ∀ access ∈ accesses, Summarized module entries access) :
    Summaries module entries (accesses.foldl module.addSummary state).summaries := by
  induction accesses generalizing state with
  | nil => exact h
  | cons access accesses ih =>
      obtain ⟨haccess, haccesses⟩ := List.forall_mem_cons.mp haccesses
      exact ih (summaries_addSummary h haccess) haccesses

theorem summaries_visit {state : SummaryState} (h : Summaries module entries state.summaries)
    {call : DirectCallBinding} (hcall : call ∈ module.directCallBindings) :
    Summaries module entries (module.visit state call).summaries := by
  apply summaries_foldl h
  intro projected hmem
  obtain ⟨access, haccess, hproject⟩ := List.mem_filterMap.mp hmem
  obtain ⟨hkept, hcallee⟩ := List.mem_filter.mp haccess
  exact summarized_project (h.summarized access hkept) hcall (of_decide_eq_true hcallee).symm hproject

theorem summaries_round {summaries : List ParameterizedAccess}
    (h : Summaries module entries summaries) :
    Summaries module entries (module.round summaries).summaries := by
  have hcalls : ∀ calls : List DirectCallBinding, (∀ call ∈ calls, call ∈ module.directCallBindings) →
      ∀ state : SummaryState, Summaries module entries state.summaries →
        Summaries module entries (calls.foldl module.visit state).summaries := by
    intro calls
    induction calls with
    | nil => exact fun _ _ hstate => hstate
    | cons call calls ih =>
        intro hcalls state hstate
        obtain ⟨hcall, hcalls⟩ := List.forall_mem_cons.mp hcalls
        exact ih hcalls _ (summaries_visit hstate hcall)
  exact hcalls _ (fun _ hcall => hcall) _ h

-- Every thread that runs beside an access of its own function.
def AccessModule.threads (module : AccessModule) : ThreadEntrySet :=
  module.pending.foldr (fun access entries => access.fact.liveEntries ∪ access.fact.startedEntries ∪
    entries) ∅

theorem subset_threads {access : ParameterizedAccess} (h : access ∈ module.pending) :
    access.fact.liveEntries ∪ access.fact.startedEntries ⊆ module.threads := by
  unfold AccessModule.threads
  generalize module.pending = pending at h
  induction pending with
  | nil => cases h
  | cons first rest ih =>
      rw [List.foldr_cons]
      rcases List.mem_cons.mp h with rfl | hrest
      · exact Finset.subset_union_left
      · exact (ih hrest).trans Finset.subset_union_right

theorem summaries_start (module : AccessModule) : Summaries module module.threads module.start := by
  apply summaries_foldl
  · exact ⟨by simp, List.nodup_nil⟩
  · intro access hpending
    have hthreads := Finset.union_subset_iff.mp (subset_threads hpending)
    exact ⟨.of_mem (List.mem_map_of_mem hpending), hthreads.1, hthreads.2⟩

-- One summary a key, and at most all the threads with each.
theorem exists_summaryWeight_bound (module : AccessModule) (entries : ThreadEntrySet) :
    ∃ bound, ∀ summaries, Summaries module entries summaries → summaryWeight summaries ≤ bound := by
  have hkeys : (summaryKey '' module.ReachedNormal).Finite := (reachedNormal_finite module).image _
  refine ⟨hkeys.toFinset.card * (1 + 2 * entries.card), fun summaries h => ?_⟩
  have hlength : summaries.length ≤ hkeys.toFinset.card := by
    rw [← List.length_map summaryKey, ← List.toFinset_card_of_nodup h.nodup]
    apply Finset.card_le_card
    intro key hkey
    obtain ⟨access, haccess, rfl⟩ := List.mem_map.mp (List.mem_toFinset.mp hkey)
    rw [Set.Finite.mem_toFinset]
    exact ⟨normalAccess access, (h.summarized access haccess).reached, summaryKey_normalAccess access⟩
  have hsum : summaryWeight summaries ≤ summaries.length * (1 + 2 * entries.card) := by
    apply weight_le_of_size_le
    intro access haccess
    have hlive := Finset.card_le_card (h.summarized access haccess).live
    have hstarted := Finset.card_le_card (h.summarized access haccess).started
    unfold accessThreadCount
    omega
  exact hsum.trans (Nat.mul_le_mul_right _ hlength)

-- A round of the loop that adds nothing comes.
theorem exists_unchanged_summaries (module : AccessModule) :
    ∃ rounds, (module.round (module.after rounds)).changed = false := by
  obtain ⟨bound, hbound⟩ := exists_summaryWeight_bound module module.threads
  obtain ⟨rounds, hrounds⟩ := exists_unchanged
    (fun summaries => (module.round summaries).changed = true) summaryWeight bound
    (fun _ => summaries_round) hbound (fun _ _ => summaryWeight_lt_of_changed) (summaries_start module)
  exact ⟨rounds, Bool.eq_false_of_not_eq_true hrounds⟩

end Summaries

-- However calls move the accesses they carry, only finitely many keys come out of it, and a round of
-- the loop that adds nothing comes.
theorem access_summaries_settle (module : AccessModule) :
    (summaryKey '' {access | Reached module.Projects {access | access ∈ module.pending} access}).Finite ∧
      ∃ rounds, (module.round (module.after rounds)).changed = false := by
  constructor
  · apply ((reachedNormal_finite module).image summaryKey).subset
    rintro _ ⟨access, haccess, rfl⟩
    refine ⟨normalAccess access, ?_, summaryKey_normalAccess access⟩
    apply haccess.induct (P := fun access => normalAccess access ∈ module.ReachedNormal)
    · intro access hpending
      exact .of_mem (List.mem_map_of_mem hpending)
    · rintro access projected hreached ⟨call, hcall, hcallee, hproject⟩
      exact normalAccess_reached hreached hcall hcallee hproject
  · exact exists_unchanged_summaries module

end ConcurrencyAnalyzer.FactsBuilder
