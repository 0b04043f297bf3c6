import ConcurrencyAnalyzer.MissingJoin.Detector
import ConcurrencyAnalyzer.Library.DisjointSets
import Mathlib.Data.Prod.Lex

namespace ConcurrencyAnalyzer.MissingJoin

open Library Relation

-- Handles of the function itself come before those of its arguments, and then the smaller name.
def preference (groupId : String) : Bool ×ₗ String := toLex (isArgument groupId, groupId)

theorem preference_injective : Function.Injective preference := fun _ _ h =>
  congrArg (fun pair => (ofLex pair).2) h

theorem preference_le_iff (groupId other : String) :
    preference groupId ≤ preference other ↔
      (isArgument groupId = false ∧ isArgument other = true) ∨
        (isArgument groupId = isArgument other ∧ groupId ≤ other) := by
  rw [preference, preference, Prod.Lex.toLex_le_toLex, Bool.lt_iff]

def MovedBetween (facts : List ThreadLifecycleFact) (lhs rhs : String) : Prop :=
  ∃ fact ∈ facts,
    fact.action = .Move ∧ fact.handleGroupId = lhs ∧ fact.sourceHandleGroupId = some rhs

-- Two handles that moves connect, in any number and direction.
def Connected (facts : List ThreadLifecycleFact) : String → String → Prop :=
  EqvGen (MovedBetween facts)

theorem find_eq (aliases : HandleGroupAliases) (fuel : Nat) (groupId : String) :
    find aliases fuel groupId = DisjointSets.find aliases fuel groupId := by
  induction fuel generalizing groupId with
  | zero => rfl
  | succ fuel ih =>
      rw [find, DisjointSets.find]
      by_cases hroot : aliases groupId = groupId
      · rw [if_pos hroot, if_pos hroot]
      · rw [if_neg hroot, if_neg hroot, ih]

-- `unite` as it runs, each `find` shortening the path it follows.
def uniteShortening (fuel : Nat) (aliases : HandleGroupAliases) (lhs rhs : String) :
    HandleGroupAliases :=
  let (lhsRoot, aliases) := DisjointSets.compress aliases fuel lhs
  let (rhsRoot, aliases) := DisjointSets.compress aliases fuel rhs
  hang aliases lhsRoot rhsRoot

def uniteMoveShortening (fuel : Nat) (aliases : HandleGroupAliases) (fact : ThreadLifecycleFact) :
    HandleGroupAliases :=
  match fact.action, fact.sourceHandleGroupId with
  | .Move, some source => uniteShortening fuel aliases fact.handleGroupId source
  | _, _ => aliases

-- What `find` answers once the moves are united and other handles have been looked up.
def groupAfter (facts : List ThreadLifecycleFact) (earlier : List String) (handleGroupId : String) :
    String :=
  let united := facts.foldl (uniteMoveShortening facts.length) id
  let looked := earlier.foldl
    (fun aliases groupId => (DisjointSets.compress aliases facts.length groupId).2) united
  (DisjointSets.compress looked facts.length handleGroupId).1

-- The handles that `related` connects are one group, under the one preferred.
abbrev Groups (related : String → String → Prop) (aliases : HandleGroupAliases) (depth : Nat)
    (rep : String → String) : Prop :=
  DisjointSets.Partition related preference aliases depth rep

variable {related : String → String → Prop} {aliases : HandleGroupAliases} {depth : Nat}
  {rep : String → String}

theorem exists_groups_hang (h : Groups related aliases depth rep) (lhs rhs : String) :
    ∃ rep', Groups (fun first second => related first second ∨ (first = lhs ∧ second = rhs))
      (hang aliases (rep lhs) (rep rhs)) (depth + 1) rep' := by
  by_cases hsame : rep lhs = rep rhs
  · rw [hang, if_pos hsame]
    exact ⟨rep, (h.known hsame).mono (Nat.le_succ depth)⟩
  · have hunder : preference (rep rhs) ≤ preference (rep lhs) →
        ∃ rep', Groups (fun first second => related first second ∨ (first = lhs ∧ second = rhs))
          (Function.update aliases (rep lhs) (rep rhs)) (depth + 1) rep' :=
      fun hle => ⟨_, h.link (Or.inl ⟨rfl, rfl⟩) hsame hle⟩
    have hover : preference (rep lhs) ≤ preference (rep rhs) →
        ∃ rep', Groups (fun first second => related first second ∨ (first = lhs ∧ second = rhs))
          (Function.update aliases (rep rhs) (rep lhs)) (depth + 1) rep' :=
      fun hle => ⟨_, h.link (Or.inr ⟨rfl, rfl⟩) hsame hle⟩
    rw [preference_le_iff] at hunder hover
    rw [hang, if_neg hsame]
    by_cases hkinds : isArgument (rep lhs) = isArgument (rep rhs)
    · rw [if_neg (not_not.mpr hkinds)]
      by_cases hlt : rep lhs < rep rhs
      · rw [if_pos hlt]
        exact hover (Or.inr ⟨hkinds, hlt.le⟩)
      · rw [if_neg hlt]
        exact hunder (Or.inr ⟨hkinds.symm, not_lt.mp hlt⟩)
    · rw [if_pos hkinds]
      by_cases hargument : isArgument (rep lhs) = true
      · rw [if_pos hargument]
        have hother : isArgument (rep rhs) = false := by simpa [hargument] using hkinds
        exact hunder (Or.inl ⟨hother, hargument⟩)
      · rw [if_neg hargument]
        have hown : isArgument (rep lhs) = false := by simpa using hargument
        have hother : isArgument (rep rhs) = true := by simpa [hown] using hkinds
        exact hover (Or.inl ⟨hown, hother⟩)

theorem movedBetween_snoc (taken : List ThreadLifecycleFact) (fact : ThreadLifecycleFact)
    (first second : String) :
    MovedBetween (taken ++ [fact]) first second ↔
      MovedBetween taken first second ∨ (fact.action = .Move ∧ fact.handleGroupId = first ∧
        fact.sourceHandleGroupId = some second) := by
  simp [MovedBetween, or_and_right, exists_or]

-- A fact that is no move with a source connects nothing; one that is connects its two handles.
theorem movedBetween_cases (taken : List ThreadLifecycleFact) (fact : ThreadLifecycleFact) :
    (∃ source, fact.action = .Move ∧ fact.sourceHandleGroupId = some source ∧
      ∀ first second, MovedBetween (taken ++ [fact]) first second ↔
        MovedBetween taken first second ∨ (first = fact.handleGroupId ∧ second = source)) ∨
    ((∀ source, ¬(fact.action = .Move ∧ fact.sourceHandleGroupId = some source)) ∧
      ∀ first second, MovedBetween (taken ++ [fact]) first second ↔
        MovedBetween taken first second) := by
  by_cases hmove : ∃ source, fact.action = .Move ∧ fact.sourceHandleGroupId = some source
  · obtain ⟨source, haction, hsource⟩ := hmove
    refine Or.inl ⟨source, haction, hsource, fun first second => ?_⟩
    rw [movedBetween_snoc]
    simp [haction, hsource, eq_comm]
  · simp only [not_exists] at hmove
    refine Or.inr ⟨hmove, fun first second => ?_⟩
    rw [movedBetween_snoc, or_iff_left]
    rintro ⟨haction, _, hsource⟩
    exact hmove second ⟨haction, hsource⟩

-- Both ways of uniting keep the groups of the moves taken, one fact at a time.
theorem exists_groups_foldl {fuel : Nat}
    {step : HandleGroupAliases → ThreadLifecycleFact → HandleGroupAliases}
    (hother : ∀ aliases fact, (∀ source,
      ¬(fact.action = .Move ∧ fact.sourceHandleGroupId = some source)) → step aliases fact = aliases)
    (hmove : ∀ related aliases depth rep fact source, Groups related aliases depth rep →
      depth ≤ fuel → fact.action = .Move → fact.sourceHandleGroupId = some source →
        ∃ rep', Groups (fun first second => related first second ∨
          (first = fact.handleGroupId ∧ second = source)) (step aliases fact) (depth + 1) rep')
    {facts : List ThreadLifecycleFact} (hfuel : facts.length ≤ fuel) :
    ∃ rep, Groups (MovedBetween facts) (facts.foldl step id) facts.length rep := by
  induction facts using List.reverseRecOn with
  | nil =>
      refine ⟨id, (DisjointSets.partition_id preference).congr fun first second => ?_⟩
      simp [MovedBetween]
  | append_singleton taken fact ih =>
      rw [List.length_append, List.length_singleton] at hfuel ⊢
      obtain ⟨rep, hgroups⟩ := ih (by omega)
      rw [List.foldl_append, List.foldl_cons, List.foldl_nil]
      rcases movedBetween_cases taken fact with ⟨source, haction, hsource, hsame⟩ | ⟨hnone, hsame⟩
      · obtain ⟨rep', hunited⟩ := hmove _ _ _ _ fact source hgroups (by omega) haction hsource
        exact ⟨rep', hunited.congr fun first second => (hsame first second).symm⟩
      · rw [hother _ fact hnone]
        refine ⟨rep, (hgroups.mono (Nat.le_succ _)).congr ?_⟩
        exact fun first second => (hsame first second).symm

theorem exists_groups (facts : List ThreadLifecycleFact) :
    ∃ rep, Groups (MovedBetween facts) (groupAliases facts) facts.length rep := by
  apply @exists_groups_foldl facts.length
  · intro aliases fact hnone
    unfold uniteMove
    split
    · rename_i source haction hsource
      exact absurd ⟨haction, hsource⟩ (hnone source)
    · rfl
  · intro related aliases depth rep fact source hgroups hdepth haction hsource
    have hstep : uniteMove facts.length aliases fact =
        unite facts.length aliases fact.handleGroupId source := by
      unfold uniteMove
      rw [haction, hsource]
    rw [hstep, unite, find_eq, find_eq, hgroups.find_of_le hdepth, hgroups.find_of_le hdepth]
    exact exists_groups_hang hgroups _ _
  · exact le_refl _

theorem Groups.shortened (h : Groups related aliases depth rep) {fuel : Nat} (hfuel : depth ≤ fuel)
    (groupId : String) :
    (DisjointSets.compress aliases fuel groupId).1 = rep groupId ∧
      Groups related (DisjointSets.compress aliases fuel groupId).2 depth rep := by
  obtain ⟨hroot, hkept⟩ := h.toRepresents.compress hfuel groupId
  exact ⟨hroot, { toRepresents := hkept, connected := h.connected, same := h.same, least := h.least }⟩

theorem exists_groups_shortening (facts : List ThreadLifecycleFact) :
    ∃ rep, Groups (MovedBetween facts) (facts.foldl (uniteMoveShortening facts.length) id)
      facts.length rep := by
  apply @exists_groups_foldl facts.length
  · intro aliases fact hnone
    unfold uniteMoveShortening
    split
    · rename_i source haction hsource
      exact absurd ⟨haction, hsource⟩ (hnone source)
    · rfl
  · intro related aliases depth rep fact source hgroups hdepth haction hsource
    obtain ⟨hlhs, hafter⟩ := Groups.shortened hgroups hdepth fact.handleGroupId
    obtain ⟨hrhs, hlast⟩ := Groups.shortened hafter hdepth source
    have hstep : uniteMoveShortening facts.length aliases fact =
        uniteShortening facts.length aliases fact.handleGroupId source := by
      unfold uniteMoveShortening
      rw [haction, hsource]
    rw [hstep]
    unfold uniteShortening
    simp only [hlhs, hrhs]
    exact exists_groups_hang hlast _ _
  · exact le_refl _

theorem groupOf_spec (facts : List ThreadLifecycleFact) :
    Groups (MovedBetween facts) (groupAliases facts) facts.length (groupOf facts) := by
  obtain ⟨rep, hgroups⟩ := exists_groups facts
  have hsame : groupOf facts = rep := by
    funext handle
    rw [groupOf, find_eq, hgroups.found]
  rwa [hsame]

-- The paths that look-ups shorten lead where they led.
theorem groupAfter_eq (facts : List ThreadLifecycleFact) (earlier : List String)
    (handleGroupId : String) : groupAfter facts earlier handleGroupId = groupOf facts handleGroupId := by
  obtain ⟨rep, hunited⟩ := exists_groups_shortening facts
  have hsame : groupOf facts = rep := (groupOf_spec facts).unique hunited preference_injective
  have hlooked : Groups (MovedBetween facts) (earlier.foldl
      (fun aliases groupId => (DisjointSets.compress aliases facts.length groupId).2)
      (facts.foldl (uniteMoveShortening facts.length) id)) facts.length rep := by
    induction earlier using List.reverseRecOn with
    | nil => exact hunited
    | append_singleton earlier groupId ih =>
        rw [List.foldl_append, List.foldl_cons, List.foldl_nil]
        exact (Groups.shortened ih (le_refl _) groupId).2
  rw [hsame]
  exact (Groups.shortened hlooked (le_refl _) handleGroupId).1

end ConcurrencyAnalyzer.MissingJoin
