import ConcurrencyAnalyzer.CrossTU.RuleReads
import ConcurrencyAnalyzer.Library.DecimalText
import ConcurrencyAnalyzer.Library.Delimiter
import ConcurrencyAnalyzer.LockOrder.Theorems

namespace ConcurrencyAnalyzer.CrossTU

open FactsBuilder

-- The rule that a text ending in one of its messages belongs to, told from the text's last
-- characters.
def ruleOfReversed : List Char → Option RuleId
  | '\'' :: _ => some .DataRaceGlobal
  | 'd' :: 'a' :: _ => some .DataRaceGlobal
  | 't' :: 'i' :: 'x' :: _ => some .MissingJoin
  | 'r' :: _ => some .DeadlockLockOrder
  | 's' :: 'n' :: _ => some .DeadlockLockOrder
  | 'k' :: _ => some .DeadlockLockOrder
  | 's' :: 'e' :: _ => some .ConditionWaitWithoutPredicate
  | 'd' :: 'l' :: _ => some .ForkAfterThreadCreation
  | 'd' :: 'e' :: 't' :: _ => some .UnreapedChildProcess
  | 't' :: 'i' :: ' ' :: _ => some .ThreadArgumentEscapesFrame
  | 'e' :: _ => some .UnsafeSignalHandler
  | 'g' :: _ => some .WeakPublicationOrdering
  | 'd' :: 'e' :: 'n' :: _ => some .ThreadArgumentFreedEarly
  | 'd' :: 'e' :: 'd' :: _ => some .ThreadLocalOutlivesThread
  | _ => none

def ruleOfText (text : String) : Option RuleId :=
  ruleOfReversed text.toList.reverse

-- A diagnostic says which rule it is of, and so does every text that ends in its message.
structure TellsRule (rule : RuleId) (diagnostic : Diagnostic) : Prop where
  ruleId : diagnostic.ruleId = rule
  message : ∀ text, ruleOfText (text ++ diagnostic.message) = some rule

theorem ruleOfText_append (text message : String) :
    ruleOfText (text ++ message) =
      ruleOfReversed (message.toList.reverse ++ text.toList.reverse) := by
  rw [ruleOfText, String.toList_append, List.reverse_append]

theorem tellsRule_of_tail {rule : RuleId} {diagnostic : Diagnostic} (start tail : String)
    (hrule : diagnostic.ruleId = rule) (hmessage : diagnostic.message = start ++ tail)
    (htail : ∀ rest, ruleOfReversed (tail.toList.reverse ++ rest) = some rule) :
    TellsRule rule diagnostic where
  ruleId := hrule
  message text := by
    rw [hmessage, ← String.append_assoc, ruleOfText_append]
    exact htail _

-- The subject of a race ends in the quote after its symbol, or in the word for what shares it.
theorem tellsRule_race {diagnostic : Diagnostic} (access : AccessFact)
    (hrule : diagnostic.ruleId = .DataRaceGlobal)
    (hmessage : diagnostic.message = DataRace.describeConflictSubject access) :
    TellsRule .DataRaceGlobal diagnostic := by
  unfold DataRace.describeConflictSubject at hmessage
  split at hmessage
  · exact tellsRule_of_tail "" _ hrule (hmessage.trans String.empty_append.symm) fun _ => rfl
  · exact tellsRule_of_tail _ _ hrule hmessage fun _ => rfl

theorem tellsRule_dataRace {facts : TUFacts} {diagnostic : Diagnostic}
    (h : diagnostic ∈ (DataRace.run facts).diagnostics) : TellsRule .DataRaceGlobal diagnostic := by
  obtain ⟨symbol, _, hd⟩ := List.mem_flatMap.mp h
  unfold DataRace.symbolDiagnostics at hd
  dsimp only at hd
  split at hd
  · obtain ⟨conflict, _, rfl⟩ := List.mem_map.mp hd
    exact tellsRule_race conflict.lhs rfl rfl
  · rw [Option.mem_toList, Option.map_eq_some_iff] at hd
    obtain ⟨access, _, rfl⟩ := hd
    exact tellsRule_race access rfl rfl

theorem ruleId_foldl_note {α : Type} (text : α → String) (label : String)
    (place : α → SourceLocation) (edges : List α) (diagnostic : Diagnostic) :
    (edges.foldl (fun told edge => (told.note (text edge)).relatedLocation label (place edge))
        diagnostic).ruleId = diagnostic.ruleId ∧
      (edges.foldl (fun told edge => (told.note (text edge)).relatedLocation label (place edge))
        diagnostic).message = diagnostic.message := by
  induction edges generalizing diagnostic with
  | nil => exact ⟨rfl, rfl⟩
  | cons edge edges ih => exact ih _

theorem tellsRule_cycle (cycle : List LockOrderFact) (facts : TUFacts) :
    TellsRule .DeadlockLockOrder (LockOrder.cycleDiagnostic cycle facts) := by
  have hrule : (LockOrder.cycleDiagnostic cycle facts).ruleId = .DeadlockLockOrder := by
    simp only [LockOrder.cycleDiagnostic, Diagnostic.ruleId_property, ruleId_foldl_note]
    rfl
  have hmessage : (LockOrder.cycleDiagnostic cycle facts).message =
      LockOrder.cycleMessage cycle.length := by
    simp only [LockOrder.cycleDiagnostic, Diagnostic.message_property, ruleId_foldl_note]
    rfl
  unfold LockOrder.cycleMessage at hmessage
  split at hmessage
  · exact tellsRule_of_tail "" _ hrule (hmessage.trans String.empty_append.symm) fun _ => rfl
  · exact tellsRule_of_tail _ _ hrule hmessage fun _ => rfl

theorem tellsRule_lockOrder {facts : TUFacts} {diagnostic : Diagnostic}
    (h : diagnostic ∈ (LockOrder.run facts).diagnostics) :
    TellsRule .DeadlockLockOrder diagnostic := by
  obtain ⟨reported, hreported⟩ := LockOrder.exists_reported facts
  rw [hreported.diagnostics_run, List.mem_append, List.mem_map, List.mem_map] at h
  rcases h with ⟨fact, _, rfl⟩ | ⟨cycle, _, rfl⟩
  · exact tellsRule_of_tail "" "potential deadlock caused by reacquiring a non-recursive lock" rfl
      rfl fun _ => rfl
  · exact tellsRule_cycle cycle facts

theorem tellsRule_missingJoin {facts : TUFacts} {diagnostic : Diagnostic}
    (h : diagnostic ∈ (MissingJoin.run facts).diagnostics) : TellsRule .MissingJoin diagnostic := by
  obtain ⟨⟨groupId, summary⟩, _, hd⟩ := List.mem_filterMap.mp h
  simp only [Option.ite_none_right_eq_some, Option.some.injEq] at hd
  obtain ⟨_, rfl⟩ := hd
  generalize (if 1 < (MissingJoin.functionsByGroup facts.threadLifecycles groupId).card then _
    else summary) = shown
  refine tellsRule_of_tail "" "thread handle is not joined or detached before scope exit" ?_ ?_
    fun _ => rfl
  · simp only [MissingJoin.diagnostic, Diagnostic.ruleId_property]
    split_ifs <;> rfl
  · simp only [MissingJoin.diagnostic, Diagnostic.message_property]
    split_ifs <;> rfl

theorem tellsRule_conditionWait {facts : TUFacts} {diagnostic : Diagnostic}
    (h : diagnostic ∈ (ConditionWait.run facts).diagnostics) :
    TellsRule .ConditionWaitWithoutPredicate diagnostic := by
  obtain ⟨fact, _, rfl⟩ := List.mem_map.mp h
  refine tellsRule_of_tail "" "condition-variable wait rechecks nothing when it wakes" ?_ ?_
    fun _ => rfl
  · simp only [ConditionWait.diagnostic, Diagnostic.ruleId_property]
    split_ifs <;> rfl
  · simp only [ConditionWait.diagnostic, Diagnostic.message_property]
    split_ifs <;> rfl

theorem tellsRule_publication {facts : TUFacts} {diagnostic : Diagnostic}
    (h : diagnostic ∈ (PublicationOrdering.run facts).diagnostics) :
    TellsRule .WeakPublicationOrdering diagnostic := by
  obtain ⟨publication, _, rfl⟩ := List.mem_map.mp h
  refine tellsRule_of_tail ("atomic flag '" ++ publication.flag ++ "' publishes " ++
    PublicationOrdering.joinSymbols publication.data) " without release/acquire ordering" ?_ ?_
    fun _ => rfl
  · simp only [PublicationOrdering.diagnostic, Diagnostic.ruleId_property, Diagnostic.ruleId_note]
    split_ifs <;> rfl
  · simp only [PublicationOrdering.diagnostic, Diagnostic.message_property,
      Diagnostic.message_note]
    split_ifs <;> rfl

section ProcessLifecycle

open ProcessLifecycle

@[simp] theorem message_withEntry (diagnostic : Diagnostic) (entryFunctionId : String) :
    (withEntry diagnostic entryFunctionId).message = diagnostic.message := by
  unfold withEntry
  split <;> rfl

theorem mem_forkDiagnostics {createsThreads reapsChildProcesses : Bool} {fork : ProcessForkFact}
    {diagnostic : Diagnostic}
    (h : diagnostic ∈ forkDiagnostics createsThreads reapsChildProcesses fork) :
    diagnostic = forkDiagnostic fork ∨ diagnostic = unreapedDiagnostic fork := by
  unfold forkDiagnostics at h
  cases fork.execReachable <;> cases createsThreads <;> cases reapsChildProcesses <;> simp_all

theorem tellsRule_processLifecycle {facts : TUFacts} {diagnostic : Diagnostic}
    (h : diagnostic ∈ (run facts).diagnostics) : TellsRule diagnostic.ruleId diagnostic := by
  simp only [run, List.mem_append, List.mem_flatMap, List.mem_map] at h
  rcases h with ((((⟨fork, _, h⟩ | ⟨fact, _, rfl⟩) | ⟨fact, _, rfl⟩) | ⟨fact, _, rfl⟩) | ⟨fact, _, rfl⟩)
  · rcases mem_forkDiagnostics h with rfl | rfl
    · exact tellsRule_of_tail ""
        "fork in a program that creates threads, with no exec in the child" rfl rfl fun _ => rfl
    · exact tellsRule_of_tail "" "child process is never collected" rfl rfl fun _ => rfl
  · rw [ruleId_escapeDiagnostic]
    exact tellsRule_of_tail "" "thread is given a pointer into the frame that created it"
      (ruleId_escapeDiagnostic fact) (message_withEntry _ _) fun _ => rfl
  · rw [ruleId_freeDiagnostic]
    exact tellsRule_of_tail "" "memory handed to a thread is freed before the thread is joined"
      (ruleId_freeDiagnostic fact) (message_withEntry _ _) fun _ => rfl
  · exact tellsRule_of_tail ("thread-local '" ++ fact.threadLocal)
      "' is used after its thread has ended" rfl rfl fun _ => rfl
  · exact tellsRule_of_tail "" "signal handler reaches a call it may not make" rfl rfl fun _ => rfl

end ProcessLifecycle

theorem tellsRule_of_mem {rule : RuleId} {facts : TUFacts} {diagnostic : Diagnostic}
    (h : diagnostic ∈ ruleDiagnostics rule facts) : TellsRule rule diagnostic := by
  cases rule with
  | CompilerDiagnostic => cases h
  | DataRaceGlobal => exact tellsRule_dataRace h
  | DeadlockLockOrder => exact tellsRule_lockOrder h
  | MissingJoin => exact tellsRule_missingJoin h
  | ConditionWaitWithoutPredicate => exact tellsRule_conditionWait h
  | WeakPublicationOrdering => exact tellsRule_publication h
  | _ =>
      obtain ⟨hmem, hrule⟩ := List.mem_filter.mp h
      rw [← of_decide_eq_true hrule]
      exact tellsRule_processLifecycle hmem

theorem ruleId_mem_processRules {facts : TUFacts} {diagnostic : Diagnostic}
    (h : diagnostic ∈ (ProcessLifecycle.run facts).diagnostics) :
    diagnostic.ruleId ∈ processRules := by
  simp only [ProcessLifecycle.run, List.mem_append, List.mem_flatMap, List.mem_map] at h
  rcases h with ((((⟨fork, _, h⟩ | ⟨fact, _, rfl⟩) | ⟨fact, _, rfl⟩) | ⟨fact, _, rfl⟩) | ⟨fact, _, rfl⟩)
  · rcases mem_forkDiagnostics h with rfl | rfl
    · exact (by decide : RuleId.ForkAfterThreadCreation ∈ processRules)
    · exact (by decide : RuleId.UnreapedChildProcess ∈ processRules)
  · rw [ruleId_escapeDiagnostic]
    decide
  · rw [ruleId_freeDiagnostic]
    decide
  · exact (by decide : RuleId.ThreadLocalOutlivesThread ∈ processRules)
  · exact (by decide : RuleId.UnsafeSignalHandler ∈ processRules)

theorem ruleDiagnostics_of_processRules {rule : RuleId} (hrule : rule ∈ processRules)
    (facts : TUFacts) :
    ruleDiagnostics rule facts =
      (ProcessLifecycle.run facts).diagnostics.filter (·.ruleId = rule) := by
  cases rule <;> first | rfl | exact absurd hrule (by decide)

-- The report of a unit is what its rules report, each for itself.
theorem mem_unitDiagnostics (rules : List RuleId) (facts : TUFacts) (diagnostic : Diagnostic) :
    diagnostic ∈ unitDiagnostics rules facts ↔
      diagnostic.ruleId ∈ rules ∧ diagnostic ∈ ruleDiagnostics diagnostic.ruleId facts := by
  have hpart {rule : RuleId}
      (h : diagnostic ∈ if rule ∈ rules then ruleDiagnostics rule facts else []) :
      diagnostic.ruleId ∈ rules ∧ diagnostic ∈ ruleDiagnostics diagnostic.ruleId facts := by
    split at h
    · rw [(tellsRule_of_mem h).ruleId]
      exact ⟨‹_›, h⟩
    · cases h
  simp only [unitDiagnostics, List.mem_append]
  constructor
  · rintro (((((h | h) | h) | h) | h) | h)
    · exact hpart (show diagnostic ∈ if .DataRaceGlobal ∈ rules then _ else [] from h)
    · exact hpart (show diagnostic ∈ if .DeadlockLockOrder ∈ rules then _ else [] from h)
    · exact hpart (show diagnostic ∈ if .MissingJoin ∈ rules then _ else [] from h)
    · exact hpart (show diagnostic ∈ if .ConditionWaitWithoutPredicate ∈ rules then _ else [] from h)
    · exact hpart (show diagnostic ∈ if .WeakPublicationOrdering ∈ rules then _ else [] from h)
    · split at h
      · obtain ⟨hmem, hrule⟩ := List.mem_filter.mp h
        refine ⟨of_decide_eq_true hrule, ?_⟩
        rw [ruleDiagnostics_of_processRules (ruleId_mem_processRules hmem)]
        exact List.mem_filter.mpr ⟨hmem, decide_eq_true rfl⟩
      · cases h
  · rintro ⟨hrule, h⟩
    by_cases hprocess : diagnostic.ruleId ∈ processRules
    · rw [ruleDiagnostics_of_processRules hprocess] at h
      right
      rw [if_pos (List.any_eq_true.mpr ⟨_, hprocess, decide_eq_true hrule⟩)]
      exact List.mem_filter.mpr ⟨(List.mem_filter.mp h).1, decide_eq_true hrule⟩
    · left
      generalize diagnostic.ruleId = rule at hrule h hprocess
      cases rule <;> simp_all [ruleDiagnostics, processRules]

theorem mem_ruleFindings {diagnostics : List Diagnostic} {rule : RuleId} {finding : String} :
    finding ∈ ruleFindings diagnostics rule ↔
      ∃ diagnostic ∈ diagnostics, diagnostic.ruleId = rule ∧ describeFinding diagnostic = finding := by
  simp [ruleFindings, and_assoc]

-- What a rule finds in a unit, told apart from what the other rules find there.
def findingsOn (rule : RuleId) (facts : TUFacts) : Finset String :=
  ((ruleDiagnostics rule facts).map describeFinding).toFinset

theorem findingsOn_congr {rule : RuleId} {facts other : TUFacts}
    (h : visibleTo rule facts = visibleTo rule other) :
    findingsOn rule facts = findingsOn rule other := by
  rw [findingsOn, ruleDiagnostics_congr h, findingsOn]

theorem ruleFindings_unitDiagnostics {rule : RuleId} {rules : List RuleId} (h : rule ∈ rules)
    (facts : TUFacts) : ruleFindings (unitDiagnostics rules facts) rule = findingsOn rule facts := by
  ext finding
  rw [mem_ruleFindings, findingsOn, List.mem_toFinset, List.mem_map]
  constructor
  · rintro ⟨diagnostic, hmem, hrule, hfinding⟩
    rw [mem_unitDiagnostics, hrule] at hmem
    exact ⟨diagnostic, hmem.2, hfinding⟩
  · rintro ⟨diagnostic, hmem, hfinding⟩
    have hrule := (tellsRule_of_mem hmem).ruleId
    refine ⟨diagnostic, (mem_unitDiagnostics rules facts diagnostic).mpr ?_, hrule, hfinding⟩
    rw [hrule]
    exact ⟨h, hmem⟩

theorem mem_finalizeReport (diagnostics : List Diagnostic) (diagnostic : Diagnostic) :
    diagnostic ∈ finalizeReport diagnostics ↔
      ∃ place, ∃ h : place < (diagnostics.insertionSort
        fun lhs rhs => sortKey lhs ≤ sortKey rhs).length,
        { (diagnostics.insertionSort fun lhs rhs => sortKey lhs ≤ sortKey rhs)[place] with
          id := "diag-" ++ toString (place + 1) } = diagnostic := by
  rw [finalizeReport, List.mem_mapIdx]

-- Numbering the diagnostics of a report changes none of its findings.
theorem ruleFindings_finalizeReport (diagnostics : List Diagnostic) (rule : RuleId) :
    ruleFindings (finalizeReport diagnostics) rule = ruleFindings diagnostics rule := by
  ext finding
  simp only [mem_ruleFindings]
  constructor
  · rintro ⟨diagnostic, hmem, hrule, hfinding⟩
    obtain ⟨place, hplace, rfl⟩ := (mem_finalizeReport _ _).mp hmem
    exact ⟨_, (List.mem_insertionSort _).mp (List.getElem_mem hplace), hrule, hfinding⟩
  · rintro ⟨diagnostic, hmem, hrule, hfinding⟩
    obtain ⟨place, hplace, rfl⟩ := List.getElem_of_mem
      ((List.mem_insertionSort fun lhs rhs => sortKey lhs ≤ sortKey rhs).mpr hmem)
    exact ⟨_, (mem_finalizeReport _ _).mpr ⟨place, hplace, rfl⟩, hrule, hfinding⟩

-- A diagnostic as a finalized report holds it.
structure Numbered (diagnostic : Diagnostic) : Prop where
  id : '|' ∉ diagnostic.id.toList
  tells : TellsRule diagnostic.ruleId diagnostic

theorem numbered_of_mem {rules : List RuleId} {facts : TUFacts} {diagnostic : Diagnostic}
    (h : diagnostic ∈ finalizeReport (unitDiagnostics rules facts)) : Numbered diagnostic := by
  obtain ⟨place, hplace, rfl⟩ := (mem_finalizeReport _ _).mp h
  have hmem := (List.mem_insertionSort _).mp (List.getElem_mem hplace)
  have htells := tellsRule_of_mem ((mem_unitDiagnostics _ _ _).mp hmem).2
  refine ⟨?_, htells.ruleId, htells.message⟩
  rw [String.toList_append, List.mem_append, not_or]
  exact ⟨by decide, Library.notMem_natText (by decide) _⟩

theorem diagnosticKey_eq (diagnostic : Diagnostic) :
    diagnosticKey diagnostic = diagnostic.id ++ "|" ++ describeFinding diagnostic := by
  simp only [diagnosticKey, describeFinding, String.append_assoc]

-- A diagnostic dropped as a copy tells a finding, of its own rule, that is already told.
theorem Numbered.eq_of_diagnosticKey {diagnostic other : Diagnostic} (h : Numbered diagnostic)
    (ho : Numbered other) (hkey : diagnosticKey diagnostic = diagnosticKey other) :
    describeFinding diagnostic = describeFinding other ∧ diagnostic.ruleId = other.ruleId := by
  rw [diagnosticKey_eq, diagnosticKey_eq] at hkey
  have hlist := congrArg String.toList hkey
  simp only [String.toList_append, List.append_assoc] at hlist
  have hfinding : describeFinding diagnostic = describeFinding other :=
    String.toList_inj.mp (Library.Delimiter.split_single h.id ho.id hlist).2
  refine ⟨hfinding, ?_⟩
  have hrule := h.tells.message (diagnostic.location.file ++ ":" ++
    toString diagnostic.location.line ++ ":" ++ toString diagnostic.location.column ++ "|")
  have hother := ho.tells.message (other.location.file ++ ":" ++
    toString other.location.line ++ ":" ++ toString other.location.column ++ "|")
  have hsame : some diagnostic.ruleId = some other.ruleId :=
    calc some diagnostic.ruleId = ruleOfText (describeFinding diagnostic) := hrule.symm
      _ = ruleOfText (describeFinding other) := by rw [hfinding]
      _ = some other.ruleId := hother
  exact Option.some_inj.mp hsame

theorem ruleFindings_mergeDiagnostic {report : List Diagnostic} {diagnostic : Diagnostic}
    (hreport : ∀ other ∈ report, Numbered other) (h : Numbered diagnostic) (rule : RuleId) :
    ruleFindings (mergeDiagnostic report diagnostic) rule =
        ruleFindings report rule ∪ ruleFindings [diagnostic] rule ∧
      ∀ other ∈ mergeDiagnostic report diagnostic, Numbered other := by
  unfold mergeDiagnostic
  split
  · rename_i hcopy
    obtain ⟨copy, hmem, hkey⟩ := List.any_eq_true.mp hcopy
    obtain ⟨hfinding, hrule⟩ :=
      (hreport copy hmem).eq_of_diagnosticKey h (of_decide_eq_true hkey)
    refine ⟨?_, hreport⟩
    ext finding
    simp only [Finset.mem_union, mem_ruleFindings, List.mem_singleton, exists_eq_left]
    constructor
    · exact Or.inl
    · rintro (hold | ⟨hown, htold⟩)
      · exact hold
      · exact ⟨copy, hmem, hrule.trans hown, hfinding.trans htold⟩
  · refine ⟨?_, ?_⟩
    · ext finding
      simp only [Finset.mem_union, mem_ruleFindings, List.mem_append, List.mem_singleton]
      constructor
      · rintro ⟨other, hmem | rfl, hother⟩
        · exact Or.inl ⟨other, hmem, hother⟩
        · exact Or.inr ⟨other, rfl, hother⟩
      · rintro (⟨other, hmem, hother⟩ | ⟨other, rfl, hother⟩)
        · exact ⟨other, Or.inl hmem, hother⟩
        · exact ⟨other, Or.inr rfl, hother⟩
    · intro other hmem
      rcases List.mem_append.mp hmem with hmem | hmem
      · exact hreport other hmem
      · rw [List.mem_singleton.mp hmem]
        exact h

theorem ruleFindings_cons (diagnostic : Diagnostic) (rest : List Diagnostic) (rule : RuleId) :
    ruleFindings (diagnostic :: rest) rule =
      ruleFindings [diagnostic] rule ∪ ruleFindings rest rule := by
  ext finding
  simp [mem_ruleFindings, or_and_right, exists_or]

theorem ruleFindings_foldl_merge (diagnostics : List Diagnostic)
    (h : ∀ diagnostic ∈ diagnostics, Numbered diagnostic) (report : List Diagnostic)
    (hreport : ∀ other ∈ report, Numbered other) (rule : RuleId) :
    ruleFindings (diagnostics.foldl mergeDiagnostic report) rule =
        ruleFindings report rule ∪ ruleFindings diagnostics rule ∧
      ∀ other ∈ diagnostics.foldl mergeDiagnostic report, Numbered other := by
  induction diagnostics generalizing report with
  | nil => exact ⟨by simp [ruleFindings], hreport⟩
  | cons diagnostic rest ih =>
      obtain ⟨hfindings, hnumbered⟩ :=
        ruleFindings_mergeDiagnostic hreport (h diagnostic (List.mem_cons_self ..)) rule
      obtain ⟨hrest, hall⟩ := ih (fun other ho => h other (List.mem_cons_of_mem _ ho)) _ hnumbered
      refine ⟨?_, hall⟩
      rw [List.foldl_cons, hrest, hfindings, ruleFindings_cons diagnostic rest, Finset.union_assoc]

-- The merged report holds, of each rule, what that rule finds in each unit.
theorem mem_ruleFindings_merged {rule : RuleId} {rules : List RuleId} (hrule : rule ∈ rules)
    (units : List AnalysedUnit) (finding : String) :
    finding ∈ ruleFindings (units.foldl (mergeUnit rules) []) rule ↔
      ∃ unit ∈ units, finding ∈ findingsOn rule unit.facts := by
  have hfold : ∀ report : List Diagnostic, (∀ other ∈ report, Numbered other) →
      (finding ∈ ruleFindings (units.foldl (mergeUnit rules) report) rule ↔
        finding ∈ ruleFindings report rule ∨ ∃ unit ∈ units, finding ∈ findingsOn rule unit.facts) := by
    induction units with
    | nil => simp
    | cons unit units ih =>
        intro report hreport
        obtain ⟨hfindings, hnumbered⟩ := ruleFindings_foldl_merge
          (finalizeReport (unitDiagnostics rules unit.facts)) (fun _ => numbered_of_mem) report
          hreport rule
        have hunits := ih (mergeUnit rules report unit) hnumbered
        rw [List.foldl_cons, hunits, mergeUnit, hfindings, ruleFindings_finalizeReport,
          ruleFindings_unitDiagnostics hrule]
        simp [or_assoc]
  rw [hfold [] (by simp)]
  simp [ruleFindings]

end ConcurrencyAnalyzer.CrossTU
