import ConcurrencyAnalyzer.MissingJoin.HandleGroups
import Mathlib.Order.Bounds.Basic

namespace ConcurrencyAnalyzer.MissingJoin

open Library

structure ReportedGroup where
  groupId : String
  createCount : Nat
  joinCount : Nat
  detachCount : Nat
  outstandingCount : Nat

-- The summary the report reads, past the loop over the functions of each group.
def finished (facts : List ThreadLifecycleFact) (groupId : String) (summary : LifecycleSummary) :
    LifecycleSummary :=
  if 1 < (functionsByGroup facts groupId).card then { summary with pathAnalysisApplies := false }
  else summary

def reportedGroup (groupId : String) (summary : LifecycleSummary) : ReportedGroup where
  groupId := groupId
  createCount := summary.createCount
  joinCount := summary.joinCount
  detachCount := summary.detachCount
  outstandingCount := outstandingCount summary

def reportedGroups (facts : List ThreadLifecycleFact) : List ReportedGroup :=
  (summariesByGroup facts).entries.filterMap fun (groupId, summary) =>
    if isReported groupId (finished facts groupId summary) then
      some (reportedGroup groupId (finished facts groupId summary))
    else none

-- The counts a diagnostic shows.
def countsTold (diagnostic : Diagnostic) : List (Option PropertyValue) :=
  ["createCount", "joinCount", "detachCount", "outstandingCount"].map diagnostic.propertyAt

def ReportedGroup.counts (group : ReportedGroup) : List (Option PropertyValue) :=
  [group.createCount, group.joinCount, group.detachCount, group.outstandingCount].map fun count =>
    some (.number count)

theorem countsTold_diagnostic (groupId : String) (summary : LifecycleSummary) :
    countsTold (diagnostic summary) = (reportedGroup groupId summary).counts := by
  unfold diagnostic
  dsimp only
  generalize (if (!isUnbalanced summary && summary.hasLoopedCreate) = true then _ else _) = explained
  simp [countsTold, ReportedGroup.counts, reportedGroup, Diagnostic.propertyAt_property_of_ne]

theorem countsTold_run (facts : TUFacts) :
    (run facts).diagnostics.map countsTold =
      (reportedGroups facts.threadLifecycles).map ReportedGroup.counts := by
  rw [run, reportedGroups, List.map_filterMap, List.map_filterMap]
  congr 1
  funext ⟨groupId, summary⟩
  show Option.map countsTold (if isReported groupId (finished _ groupId summary) then
    some (diagnostic (finished _ groupId summary)) else none) = Option.map _ (if _ then _ else none)
  by_cases hreported : isReported groupId (finished facts.threadLifecycles groupId summary) = true
  · rw [if_pos hreported, if_pos hreported, Option.map_some, Option.map_some,
      countsTold_diagnostic groupId]
  · rw [if_neg hreported, if_neg hreported, Option.map_none, Option.map_none]

-- What of a summary the order of the facts has no say in.
def LifecycleSummary.unplaced (summary : LifecycleSummary) : LifecycleSummary :=
  { summary with handleKind := .PThread, firstCreateLocation := {} }

theorem isReported_unplaced (groupId : String) (summary : LifecycleSummary) :
    isReported groupId summary.unplaced = isReported groupId summary := by
  rfl

theorem reportedGroup_unplaced (groupId : String) (summary : LifecycleSummary) :
    reportedGroup groupId summary.unplaced = reportedGroup groupId summary := by
  rfl

theorem finished_unplaced (facts : List ThreadLifecycleFact) (groupId : String)
    (summary : LifecycleSummary) :
    finished facts groupId summary.unplaced = (finished facts groupId summary).unplaced := by
  unfold finished
  split <;> rfl

def addUnplaced (present : Option LifecycleSummary) (fact : ThreadLifecycleFact) :
    Option LifecycleSummary :=
  some (summarize fact present).unplaced

theorem summarize_unplaced (fact : ThreadLifecycleFact) (present : Option LifecycleSummary) :
    (summarize fact (present.map LifecycleSummary.unplaced)).unplaced =
      (summarize fact present).unplaced := by
  have hgetD : (present.map LifecycleSummary.unplaced).getD {} = (present.getD {}).unplaced := by
    cases present <;> rfl
  simp only [summarize, hgetD]
  cases fact.action <;> simp [LifecycleSummary.unplaced]

theorem addUnplaced_comm (present : Option LifecycleSummary) (fact other : ThreadLifecycleFact) :
    addUnplaced (addUnplaced present fact) other = addUnplaced (addUnplaced present other) fact := by
  simp only [addUnplaced, summarize, Option.getD_some]
  cases fact.action <;> cases other.action <;>
    simp [LifecycleSummary.unplaced, Bool.and_right_comm, Bool.or_right_comm]

theorem foldl_unplaced (facts : List ThreadLifecycleFact) (present : Option LifecycleSummary) :
    (facts.foldl (fun present fact => some (summarize fact present)) present).map
        LifecycleSummary.unplaced =
      facts.foldl addUnplaced (present.map LifecycleSummary.unplaced) := by
  induction facts generalizing present with
  | nil => rfl
  | cons fact rest ih =>
      rw [List.foldl_cons, List.foldl_cons, ih]
      congr 1
      rw [addUnplaced, summarize_unplaced]
      rfl

theorem find_summariesByGroup (facts : List ThreadLifecycleFact) (groupId : String) :
    (summariesByGroup facts).find groupId =
      (facts.filter fun fact => groupOf facts fact.handleGroupId = groupId).foldl
        (fun present fact => some (summarize fact present)) none :=
  OrderedMap.find_foldl_alter _ _ facts OrderedMap.empty groupId

theorem mem_reportedGroups (facts : List ThreadLifecycleFact) (group : ReportedGroup) :
    group ∈ reportedGroups facts ↔ ∃ groupId summary,
      ((summariesByGroup facts).find groupId).map LifecycleSummary.unplaced = some summary ∧
        isReported groupId (finished facts groupId summary) = true ∧
          group = reportedGroup groupId (finished facts groupId summary) := by
  rw [reportedGroups, List.mem_filterMap]
  constructor
  · rintro ⟨⟨groupId, summary⟩, hentry, hgroup⟩
    have hfind := (OrderedMap.find_eq_some_iff _ groupId summary).mpr hentry
    refine ⟨groupId, summary.unplaced, by rw [hfind, Option.map_some], ?_⟩
    rw [finished_unplaced, isReported_unplaced, reportedGroup_unplaced]
    by_cases hreported : isReported groupId (finished facts groupId summary) = true
    · simp only [hreported, if_true, Option.some.injEq] at hgroup
      exact ⟨hreported, hgroup.symm⟩
    · simp [hreported] at hgroup
  · rintro ⟨groupId, summary, hfind, hreported, hgroup⟩
    obtain ⟨placed, hplaced, hsame⟩ := Option.map_eq_some_iff.mp hfind
    rw [← hsame, finished_unplaced] at hreported hgroup
    rw [isReported_unplaced] at hreported
    rw [reportedGroup_unplaced] at hgroup
    refine ⟨(groupId, placed), (OrderedMap.find_eq_some_iff _ groupId placed).mp hplaced, ?_⟩
    simp only [hreported, if_true, hgroup]

theorem mem_diagnostics_run (facts : TUFacts) (told : Diagnostic) :
    told ∈ (run facts).diagnostics ↔ ∃ groupId summary,
      (summariesByGroup facts.threadLifecycles).find groupId = some summary ∧
        isReported groupId (finished facts.threadLifecycles groupId summary) = true ∧
          told = diagnostic (finished facts.threadLifecycles groupId summary) := by
  rw [run, List.mem_filterMap]
  constructor
  · rintro ⟨⟨groupId, summary⟩, hentry, htold⟩
    replace htold : (if isReported groupId (finished facts.threadLifecycles groupId summary) then
      some (diagnostic (finished facts.threadLifecycles groupId summary)) else none) = some told := htold
    by_cases hreported : isReported groupId (finished facts.threadLifecycles groupId summary) = true
    · rw [if_pos hreported, Option.some.injEq] at htold
      exact ⟨groupId, summary, (OrderedMap.find_eq_some_iff _ groupId summary).mpr hentry, hreported,
        htold.symm⟩
    · rw [if_neg hreported] at htold
      cases htold
  · rintro ⟨groupId, summary, hfind, hreported, rfl⟩
    refine ⟨(groupId, summary), (OrderedMap.find_eq_some_iff _ groupId summary).mp hfind, ?_⟩
    exact if_pos hreported

section Permuted

variable {facts others : List ThreadLifecycleFact}

theorem groupOf_perm (hperm : others.Perm facts) : groupOf others = groupOf facts := by
  have hsame : ∀ lhs rhs, MovedBetween others lhs rhs ↔ MovedBetween facts lhs rhs := by
    intro lhs rhs
    simp only [MovedBetween, hperm.mem_iff]
  exact ((groupOf_spec others).congr hsame).unique (groupOf_spec facts) preference_injective

theorem functionsByGroup_perm (hperm : others.Perm facts) (groupId : String) :
    functionsByGroup others groupId = functionsByGroup facts groupId := by
  ext function
  simp only [functionsByGroup, groupOf_perm hperm, List.mem_toFinset, List.mem_map,
    List.mem_filter, hperm.mem_iff]

theorem finished_perm (hperm : others.Perm facts) (groupId : String) (summary : LifecycleSummary) :
    finished others groupId summary = finished facts groupId summary := by
  rw [finished, finished, functionsByGroup_perm hperm]

theorem unplaced_summary_perm (hperm : others.Perm facts) (groupId : String) :
    ((summariesByGroup others).find groupId).map LifecycleSummary.unplaced =
      ((summariesByGroup facts).find groupId).map LifecycleSummary.unplaced := by
  have : RightCommutative addUnplaced := ⟨addUnplaced_comm⟩
  rw [find_summariesByGroup, find_summariesByGroup, foldl_unplaced, foldl_unplaced,
    groupOf_perm hperm]
  exact (hperm.filter _).foldl_eq _

theorem reportedGroups_perm (hperm : others.Perm facts) (group : ReportedGroup) :
    group ∈ reportedGroups others ↔ group ∈ reportedGroups facts := by
  simp only [mem_reportedGroups, unplaced_summary_perm hperm, finished_perm hperm]

end Permuted

-- Facts of which some creations are left out: the groups are as they were, and one that loses none is
-- reported as it was.
section LeftOut

variable {facts : List ThreadLifecycleFact} {kept : ThreadLifecycleFact → Bool}
  (hcreate : ∀ fact ∈ facts, kept fact = false → fact.action = .Create)

include hcreate

theorem groupOf_filter : groupOf (facts.filter kept) = groupOf facts := by
  have hsame (lhs rhs : String) :
      MovedBetween (facts.filter kept) lhs rhs ↔ MovedBetween facts lhs rhs := by
    constructor
    · rintro ⟨fact, hfact, hmove⟩
      exact ⟨fact, List.mem_of_mem_filter hfact, hmove⟩
    · rintro ⟨fact, hfact, hmove, hgroups⟩
      refine ⟨fact, List.mem_filter.mpr ⟨hfact, ?_⟩, hmove, hgroups⟩
      by_contra hleft
      have haction := hcreate fact hfact (Bool.eq_false_iff.mpr hleft)
      rw [hmove] at haction
      cases haction
  exact ((groupOf_spec _).congr hsame).unique (groupOf_spec facts) preference_injective

variable {groupId : String}
  (hkept : ∀ fact ∈ facts, groupOf facts fact.handleGroupId = groupId → kept fact = true)

include hkept

omit hcreate in
theorem facts_of_kept_group :
    (facts.filter kept).filter (fun fact => groupOf facts fact.handleGroupId = groupId) =
      facts.filter fun fact => groupOf facts fact.handleGroupId = groupId := by
  rw [List.filter_filter]
  refine List.filter_congr fun fact hfact => ?_
  by_cases hgroup : groupOf facts fact.handleGroupId = groupId
  · simp [hgroup, hkept fact hfact hgroup]
  · simp [hgroup]

theorem find_summariesByGroup_filter :
    (summariesByGroup (facts.filter kept)).find groupId = (summariesByGroup facts).find groupId := by
  rw [find_summariesByGroup, find_summariesByGroup, groupOf_filter hcreate,
    facts_of_kept_group hkept]

theorem finished_filter (summary : LifecycleSummary) :
    finished (facts.filter kept) groupId summary = finished facts groupId summary := by
  have hfunctions : functionsByGroup (facts.filter kept) groupId = functionsByGroup facts groupId := by
    ext function
    simp only [functionsByGroup, groupOf_filter hcreate, List.mem_toFinset, List.mem_map,
      List.mem_filter, Bool.and_eq_true, decide_eq_true_eq]
    constructor
    · rintro ⟨fact, ⟨⟨hfact, _⟩, hmove, hgroup⟩, hfunction⟩
      exact ⟨fact, ⟨hfact, hmove, hgroup⟩, hfunction⟩
    · rintro ⟨fact, ⟨hfact, hmove, hgroup⟩, hfunction⟩
      exact ⟨fact, ⟨⟨hfact, hkept fact hfact hgroup⟩, hmove, hgroup⟩, hfunction⟩
  rw [finished, finished, hfunctions]

omit hkept in
-- Where no reported group loses a creation, what is reported of the facts is reported of those kept.
theorem diagnostics_of_kept {whole others : TUFacts} (hwhole : whole.threadLifecycles = facts)
    (hothers : others.threadLifecycles = facts.filter kept)
    (hkeeps : ∀ groupId summary, (summariesByGroup facts).find groupId = some summary →
      isReported groupId (finished facts groupId summary) = true →
        ∀ fact ∈ facts, groupOf facts fact.handleGroupId = groupId → kept fact = true) :
    (run whole).diagnostics ⊆ (run others).diagnostics := by
  intro told htold
  rw [mem_diagnostics_run, hwhole] at htold
  obtain ⟨groupId, summary, hfind, hreported, rfl⟩ := htold
  have hgroup := hkeeps groupId summary hfind hreported
  rw [mem_diagnostics_run, hothers]
  refine ⟨groupId, summary, ?_, ?_, ?_⟩
  · rw [find_summariesByGroup_filter hcreate hgroup]
    exact hfind
  · rw [finished_filter hcreate hgroup]
    exact hreported
  · rw [finished_filter hcreate hgroup]

end LeftOut

-- The groups the report counts by are what moves connect, and the look-ups that shorten paths find the same
-- ones; each is named after its member preferred; and what is reported of them does not show the order of the
-- facts.
theorem groups_by_moves (facts : TUFacts) :
    (∀ lhs rhs, groupOf facts.threadLifecycles lhs = groupOf facts.threadLifecycles rhs ↔
      Connected facts.threadLifecycles lhs rhs) ∧
    (∀ handle member, Connected facts.threadLifecycles handle member → isArgument member = false →
      IsLeast {member | Connected facts.threadLifecycles handle member ∧ isArgument member = false}
        (groupOf facts.threadLifecycles handle)) ∧
    (∀ handle,
      (∀ member, Connected facts.threadLifecycles handle member → isArgument member = true) →
        IsLeast {member | Connected facts.threadLifecycles handle member}
          (groupOf facts.threadLifecycles handle)) ∧
    (∀ earlier handle, groupAfter facts.threadLifecycles earlier handle =
      groupOf facts.threadLifecycles handle) ∧
    (run facts).diagnostics.map countsTold =
      (reportedGroups facts.threadLifecycles).map ReportedGroup.counts ∧
    ∀ others : TUFacts, others.threadLifecycles.Perm facts.threadLifecycles → ∀ group,
      group ∈ reportedGroups others.threadLifecycles ↔
        group ∈ reportedGroups facts.threadLifecycles := by
  have hgroups := groupOf_spec facts.threadLifecycles
  refine ⟨hgroups.rep_eq_iff, ?_, ?_, groupAfter_eq facts.threadLifecycles, countsTold_run facts, ?_⟩
  · intro handle member hmember hown
    -- whatever is preferred to a handle of the function itself is one too
    have hpreferred := (preference_le_iff _ _).mp (hgroups.le hmember)
    have hrep : isArgument (groupOf facts.threadLifecycles handle) = false := by
      rcases hpreferred with ⟨hrep, _⟩ | ⟨hrep, _⟩
      · exact hrep
      · rw [hrep, hown]
    refine ⟨⟨hgroups.connected handle, hrep⟩, ?_⟩
    rintro other ⟨hother, hotherOwn⟩
    rcases (preference_le_iff _ _).mp (hgroups.le hother) with ⟨_, hargument⟩ | ⟨_, hle⟩
    · rw [hotherOwn] at hargument
      contradiction
    · exact hle
  · intro handle hall
    refine ⟨hgroups.connected handle, ?_⟩
    intro other hother
    rcases (preference_le_iff _ _).mp (hgroups.le hother) with ⟨hrep, _⟩ | ⟨_, hle⟩
    · rw [hall _ (hgroups.connected handle)] at hrep
      contradiction
    · exact hle
  · intro others hperm group
    exact reportedGroups_perm hperm group

end ConcurrencyAnalyzer.MissingJoin
