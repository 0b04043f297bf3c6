import ConcurrencyAnalyzer.MissingJoin.Theorems

namespace ConcurrencyAnalyzer.MissingJoin

open Relation

def members (facts : List ThreadLifecycleFact) (groupId : String) : List ThreadLifecycleFact :=
  facts.filter fun fact => groupOf facts fact.handleGroupId = groupId

def creations (facts : List ThreadLifecycleFact) (groupId : String) : List ThreadLifecycleFact :=
  (members facts groupId).filter (·.action = .Create)

-- What a summary keeps of the facts of its group.
structure Tells (members : List ThreadLifecycleFact) (summary : LifecycleSummary) : Prop where
  created : summary.createCount = members.countP (·.action = .Create)
  unresolved : summary.hasUnresolvedPath =
    members.any fun fact => fact.action = .Create && !fact.resolvedOnAllPaths
  allResolved : summary.allCreatesResolvedOnAllPaths = !summary.hasUnresolvedPath
  looped : summary.hasLoopedCreate = members.any fun fact => fact.action = .Create && fact.insideLoop
  escaped : summary.hasEscapedHandle =
    members.any fun fact => fact.action = .Create && fact.escapedToUntrackedStorage
  applies : summary.pathAnalysisApplies =
    members.all fun fact => fact.action ≠ .Move && !fact.propagated

variable {facts : List ThreadLifecycleFact} {groupId : String}

theorem Tells.summarize {members : List ThreadLifecycleFact} {present : Option LifecycleSummary}
    (h : Tells members (present.getD {})) (fact : ThreadLifecycleFact) :
    Tells (members ++ [fact]) (summarize fact present) := by
  obtain ⟨hcreated, hunresolved, hall, hlooped, hescaped, happlies⟩ := h
  unfold MissingJoin.summarize
  constructor <;> cases haction : fact.action <;>
    simp [haction, hcreated, hunresolved, hall, hlooped, hescaped, happlies]

theorem tells_foldl (members : List ThreadLifecycleFact) :
    Tells members ((members.foldl (fun present fact => some (summarize fact present)) none).getD {}) := by
  induction members using List.reverseRecOn with
  | nil => exact ⟨rfl, rfl, rfl, rfl, rfl, rfl⟩
  | append_singleton members fact ih =>
      rw [List.foldl_append, List.foldl_cons, List.foldl_nil]
      exact ih.summarize fact

theorem exists_summary_iff {summary : LifecycleSummary} :
    (summariesByGroup facts).find groupId = some summary ↔
      members facts groupId ≠ [] ∧ summary =
        ((members facts groupId).foldl (fun present fact => some (summarize fact present)) none).getD {} := by
  rw [find_summariesByGroup]
  change (members facts groupId).foldl _ none = _ ↔ _
  induction members facts groupId using List.reverseRecOn with
  | nil => simp
  | append_singleton members fact _ =>
      rw [List.foldl_append, List.foldl_cons, List.foldl_nil, Option.some_inj, Option.getD_some]
      constructor
      · exact fun h => ⟨by simp, h.symm⟩
      · exact fun h => h.2.symm

-- The group is dealt with in one function, by operations of its own, and moved nowhere.
def Lone (facts : List ThreadLifecycleFact) (functionId groupId : String) : Prop :=
  ∀ fact ∈ members facts groupId, fact.action ≠ .Move ∧ fact.propagated = false ∧ fact.functionId = functionId

theorem finished_of_lone {functionId : String} (hlone : Lone facts functionId groupId)
    (summary : LifecycleSummary) : finished facts groupId summary = summary := by
  unfold finished
  rw [if_neg]
  refine Nat.not_lt.mpr (Finset.card_le_one.mpr ?_)
  have hsame (name : String) (h : name ∈ functionsByGroup facts groupId) : name = functionId := by
    obtain ⟨fact, hmem, rfl⟩ := List.mem_map.mp (List.mem_toFinset.mp h)
    obtain ⟨hfact, hgroup⟩ := List.mem_filter.mp hmem
    simp only [Bool.and_eq_true, decide_eq_true_eq] at hgroup
    exact (hlone fact (List.mem_filter.mpr ⟨hfact, decide_eq_true hgroup.2⟩)).2.2
  intro name hname other hother
  rw [hsame name hname, hsame other hother]

theorem isReported_iff {summary : LifecycleSummary} (hlocal : isArgument groupId = false)
    (happlies : summary.pathAnalysisApplies = true)
    (hall : summary.allCreatesResolvedOnAllPaths = !summary.hasUnresolvedPath) :
    isReported groupId summary = true ↔ summary.createCount ≠ 0 ∧ summary.hasEscapedHandle = false ∧
      (summary.hasUnresolvedPath = true ∨ summary.hasLoopedCreate = true) := by
  unfold isReported hasPathSignal
  rw [hlocal, happlies, hall]
  have hunbalanced : isUnbalanced summary = true → summary.createCount ≠ 0 := by
    unfold isUnbalanced
    simp only [decide_eq_true_eq]
    omega
  by_cases hzero : summary.createCount = 0
  · have hbalanced : isUnbalanced summary = false := by
      by_contra hcontra
      exact hunbalanced (by simpa using hcontra) hzero
    simp [hzero, hbalanced]
  · cases summary.hasEscapedHandle <;> cases summary.hasUnresolvedPath <;>
      cases summary.hasLoopedCreate <;> cases isUnbalanced summary <;> simp [hzero]

-- Of a group dealt with in one function nothing is reported when its handle gets away, and else when
-- each of its creations is resolved, in the loop it is in.
theorem silent_iff {functionId : String} (hlocal : isArgument groupId = false)
    (hlone : Lone facts functionId groupId) :
    (∀ reported ∈ reportedGroups facts, reported.groupId ≠ groupId) ↔
      (∃ fact ∈ creations facts groupId, fact.escapedToUntrackedStorage = true) ∨
        ∀ fact ∈ creations facts groupId, fact.resolvedOnAllPaths = true ∧ fact.insideLoop = false := by
  have htells := tells_foldl (members facts groupId)
  generalize hsummary : ((members facts groupId).foldl
    (fun present fact => some (summarize fact present)) none).getD {} = summary at htells
  have happlies : summary.pathAnalysisApplies = true := by
    rw [htells.applies, List.all_eq_true]
    intro fact hfact
    obtain ⟨hmove, hpropagated, -⟩ := hlone fact hfact
    simp [hmove, hpropagated]
  have hreported : (∃ reported ∈ reportedGroups facts, reported.groupId = groupId) ↔
      members facts groupId ≠ [] ∧ isReported groupId summary = true := by
    constructor
    · rintro ⟨reported, hmem, hid⟩
      obtain ⟨other, told, hfind, hreported, hgroup⟩ := (mem_reportedGroups _ _).mp hmem
      obtain rfl : other = groupId := by rw [← hid, hgroup]; rfl
      obtain ⟨placed, hplaced, rfl⟩ := Option.map_eq_some_iff.mp hfind
      obtain ⟨hne, hplaced⟩ := exists_summary_iff.mp hplaced
      rw [finished_unplaced, isReported_unplaced, finished_of_lone hlone, hplaced, hsummary] at hreported
      exact ⟨hne, hreported⟩
    · rintro ⟨hne, hreported⟩
      have hfind := exists_summary_iff.mpr ⟨hne, hsummary.symm⟩
      refine ⟨_, (mem_reportedGroups _ _).mpr ⟨groupId, summary.unplaced, by rw [hfind]; rfl, ?_, rfl⟩, rfl⟩
      rwa [finished_unplaced, isReported_unplaced, finished_of_lone hlone]
  have hany (P : ThreadLifecycleFact → Bool) :
      ((members facts groupId).any fun fact => fact.action = .Create && P fact) = true ↔
        ∃ fact ∈ creations facts groupId, P fact = true := by
    simp [creations, and_assoc]
  have hcreated : summary.createCount ≠ 0 ↔ creations facts groupId ≠ [] := by
    rw [htells.created, List.countP_eq_length_filter, Ne, List.length_eq_zero_iff]
    rfl
  rw [← not_iff_not]
  calc (¬∀ reported ∈ reportedGroups facts, reported.groupId ≠ groupId)
      ↔ ∃ reported ∈ reportedGroups facts, reported.groupId = groupId := by simp
    _ ↔ members facts groupId ≠ [] ∧ isReported groupId summary = true := hreported
    _ ↔ creations facts groupId ≠ [] ∧ summary.hasEscapedHandle = false ∧
        (summary.hasUnresolvedPath = true ∨ summary.hasLoopedCreate = true) := by
      rw [isReported_iff hlocal happlies htells.allResolved, hcreated]
      refine and_iff_right_of_imp fun h hnil => h.1 ?_
      rw [creations, hnil]
      rfl
    _ ↔ ¬((∃ fact ∈ creations facts groupId, fact.escapedToUntrackedStorage = true) ∨
        ∀ fact ∈ creations facts groupId, fact.resolvedOnAllPaths = true ∧ fact.insideLoop = false) := by
      rw [← Bool.not_eq_true, htells.unresolved, htells.looped, htells.escaped, hany, hany, hany]
      push Not
      constructor
      · rintro ⟨-, hescaped, ⟨fact, hfact, hunresolved⟩ | ⟨fact, hfact, hlooped⟩⟩
        · exact ⟨hescaped, fact, hfact, fun hresolved => by simp [hresolved] at hunresolved⟩
        · exact ⟨hescaped, fact, hfact, fun _ => by simp [hlooped]⟩
      · rintro ⟨hescaped, fact, hfact, hflags⟩
        refine ⟨List.ne_nil_of_mem hfact, hescaped, ?_⟩
        by_cases hresolved : fact.resolvedOnAllPaths = true
        · exact .inr ⟨fact, hfact, by simpa using hflags hresolved⟩
        · exact .inl ⟨fact, hfact, by simpa using hresolved⟩

-- A group no move touches is its one handle.
theorem group_eq_of_lone {functionId handle other : String}
    (hlone : Lone facts functionId (groupOf facts handle)) (hother : groupOf facts other = groupOf facts handle) :
    other = handle := by
  have hgroups := groupOf_spec facts
  have hapart (first second : String) (h : EqvGen (MovedBetween facts) first second) :
      groupOf facts first = groupOf facts handle → first = second := by
    induction h with
    | rel first second hmoved =>
        intro hfirst
        obtain ⟨fact, hfact, haction, rfl, -⟩ := hmoved
        exact absurd haction (hlone fact (List.mem_filter.mpr ⟨hfact, decide_eq_true hfirst⟩)).1
    | refl => exact fun _ => rfl
    | symm first second h ih =>
        intro hsecond
        exact (ih (((hgroups.rep_eq_iff _ _).mpr h).trans hsecond)).symm
    | trans first second third h _ ih hih =>
        intro hfirst
        exact (ih hfirst).trans (hih (((hgroups.rep_eq_iff _ _).mpr h).symm.trans hfirst))
  exact hapart other handle ((hgroups.rep_eq_iff _ _).mp hother) hother

theorem groupOf_of_lone {functionId handle : String}
    (hlone : Lone facts functionId (groupOf facts handle)) : groupOf facts handle = handle :=
  group_eq_of_lone hlone
    (((groupOf_spec facts).rep_eq_iff _ _).mpr ((groupOf_spec facts).connected handle)).symm

end ConcurrencyAnalyzer.MissingJoin
