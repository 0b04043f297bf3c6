import ConcurrencyAnalyzer.Facts

namespace ConcurrencyAnalyzer

-- The fields the queries below read of an access or of a lock order.
class TaskFact (α : Type) where
  inRootTask : α → Bool
  liveEntries : α → ThreadEntrySet

instance : TaskFact AccessFact := ⟨AccessFact.inRootTask, AccessFact.liveEntries⟩

instance : TaskFact LockOrderFact := ⟨LockOrderFact.inRootTask, LockOrderFact.liveEntries⟩

def entryIsSelfConcurrent (facts : TUFacts) (entry : String) : Bool :=
  ((facts.entryConcurrency entry).map (·.isSelfConcurrent)).getD false

def isSelfConcurrent (entries : ThreadEntrySet) (facts : TUFacts) : Bool :=
  decide (∃ entry ∈ entries, entryIsSelfConcurrent facts entry)

def mayRunConcurrently (lhsEntries rhsEntries : ThreadEntrySet) (facts : TUFacts) : Bool :=
  decide (∃ lhsEntry ∈ lhsEntries, ∃ rhsEntry ∈ rhsEntries,
    if lhsEntry ≠ rhsEntry then makeEntryPair lhsEntry rhsEntry ∉ facts.sequencedEntryPairs
    else entryIsSelfConcurrent facts lhsEntry = true)

section Queries

variable {α : Type} [TaskFact α]

def racesWithRootTask (rootSide : α) (otherEntries : ThreadEntrySet) : Bool :=
  TaskFact.inRootTask rootSide &&
    decide (∃ entry ∈ otherEntries, entry ∈ TaskFact.liveEntries rootSide)

def mayHappenInParallel (lhs : α) (lhsEntries : ThreadEntrySet) (rhs : α)
    (rhsEntries : ThreadEntrySet) (facts : TUFacts) : Bool :=
  if racesWithRootTask lhs rhsEntries || racesWithRootTask rhs lhsEntries then true
  else if lhsEntries = ∅ || rhsEntries = ∅ then false
  else mayRunConcurrently lhsEntries rhsEntries facts

end Queries

def sortedThreadEntries (entries : ThreadEntrySet) : List String :=
  sortedNames entries

theorem mayRunConcurrently_comm (lhsEntries rhsEntries : ThreadEntrySet) (facts : TUFacts) :
    mayRunConcurrently lhsEntries rhsEntries facts =
      mayRunConcurrently rhsEntries lhsEntries facts := by
  unfold mayRunConcurrently
  rw [decide_eq_decide]
  have hone (lhs rhs : ThreadEntrySet) :
      (∃ lhsEntry ∈ lhs, ∃ rhsEntry ∈ rhs,
        if lhsEntry ≠ rhsEntry then makeEntryPair lhsEntry rhsEntry ∉ facts.sequencedEntryPairs
        else entryIsSelfConcurrent facts lhsEntry = true) →
      ∃ lhsEntry ∈ rhs, ∃ rhsEntry ∈ lhs,
        if lhsEntry ≠ rhsEntry then makeEntryPair lhsEntry rhsEntry ∉ facts.sequencedEntryPairs
        else entryIsSelfConcurrent facts lhsEntry = true := by
    rintro ⟨first, hfirst, second, hsecond, h⟩
    refine ⟨second, hsecond, first, hfirst, ?_⟩
    by_cases he : first = second
    · simpa [he] using h
    · simpa [he, Ne.symm he, makeEntryPair_comm second first] using h
  exact ⟨hone _ _, hone _ _⟩

theorem mayHappenInParallel_comm {α : Type} [TaskFact α] (lhs : α) (lhsEntries : ThreadEntrySet)
    (rhs : α) (rhsEntries : ThreadEntrySet) (facts : TUFacts) :
    mayHappenInParallel lhs lhsEntries rhs rhsEntries facts =
      mayHappenInParallel rhs rhsEntries lhs lhsEntries facts := by
  unfold mayHappenInParallel
  rw [Bool.or_comm (racesWithRootTask lhs rhsEntries),
    Bool.or_comm (decide (lhsEntries = ∅)), mayRunConcurrently_comm]

section Alike

-- Two sets of facts answer alike what is asked about some entries.
structure AnswerAlike (here : String → Prop) (facts other : TUFacts) : Prop where
  counted : ∀ entry, here entry → entryIsSelfConcurrent other entry = entryIsSelfConcurrent facts entry
  sequenced : ∀ entry, here entry → ∀ beside, here beside →
    (makeEntryPair entry beside ∈ other.sequencedEntryPairs ↔
      makeEntryPair entry beside ∈ facts.sequencedEntryPairs)

variable {here : String → Prop} {facts other : TUFacts} (h : AnswerAlike here facts other)
  {lhsEntries rhsEntries : ThreadEntrySet} (hlhs : ∀ entry ∈ lhsEntries, here entry)
  (hrhs : ∀ entry ∈ rhsEntries, here entry)

include h hlhs

theorem isSelfConcurrent_alike : isSelfConcurrent lhsEntries other = isSelfConcurrent lhsEntries facts := by
  unfold isSelfConcurrent
  rw [decide_eq_decide]
  refine exists_congr fun entry => and_congr_right fun hentry => ?_
  rw [h.counted entry (hlhs entry hentry)]

include hrhs

theorem mayRunConcurrently_alike :
    mayRunConcurrently lhsEntries rhsEntries other = mayRunConcurrently lhsEntries rhsEntries facts := by
  unfold mayRunConcurrently
  rw [decide_eq_decide]
  refine exists_congr fun entry => and_congr_right fun hentry =>
    exists_congr fun beside => and_congr_right fun hbeside => ?_
  rw [h.counted entry (hlhs entry hentry),
    h.sequenced entry (hlhs entry hentry) beside (hrhs beside hbeside)]

omit h hlhs in
theorem racesWithRootTask_alike {α : Type} [TaskFact α] {fact relabelled : α}
    (hroot : TaskFact.inRootTask relabelled = TaskFact.inRootTask fact)
    (hlive : ∀ entry, here entry →
      (entry ∈ TaskFact.liveEntries relabelled ↔ entry ∈ TaskFact.liveEntries fact)) :
    racesWithRootTask relabelled rhsEntries = racesWithRootTask fact rhsEntries := by
  unfold racesWithRootTask
  rw [hroot]
  congr 1
  rw [decide_eq_decide]
  exact exists_congr fun entry => and_congr_right fun hentry => hlive entry (hrhs entry hentry)

theorem mayHappenInParallel_alike {α : Type} [TaskFact α] {lhs rhs lhsRelabelled rhsRelabelled : α}
    (hleft : racesWithRootTask lhsRelabelled rhsEntries = racesWithRootTask lhs rhsEntries)
    (hright : racesWithRootTask rhsRelabelled lhsEntries = racesWithRootTask rhs lhsEntries) :
    mayHappenInParallel lhsRelabelled lhsEntries rhsRelabelled rhsEntries other =
      mayHappenInParallel lhs lhsEntries rhs rhsEntries facts := by
  unfold mayHappenInParallel
  rw [hleft, hright, mayRunConcurrently_alike h hlhs hrhs]

end Alike

end ConcurrencyAnalyzer
