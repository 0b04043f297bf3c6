import ConcurrencyAnalyzer.Reporting.Documents
import ConcurrencyAnalyzer.Project.Run

namespace ConcurrencyAnalyzer.Reporting

open Library
open CompilerDiagnostics (DiagnosticSummary countSeverity summarize)
open Project (FailOn gateExitCode kFindingsExitCode)

section Described

variable {α κ : Type} [DecidableEq κ] {key : α → κ}

theorem keep_first_of_mem {kept : List α} {element : α} (hmem : key element ∈ kept.map key) :
    KeepFirst.keep key (fun first _ => first) kept element = kept := by
  induction kept with
  | nil => cases hmem
  | cons first rest ih =>
      unfold KeepFirst.keep
      by_cases hsame : key first = key element
      · rw [if_pos hsame]
      · rw [if_neg hsame, ih ((List.mem_cons.mp hmem).resolve_left (Ne.symm hsame))]

theorem describeRule_eq (described : List RuleDescription) (rule : RuleDescription) :
    describeRule described rule = KeepFirst.keep Prod.fst (fun first _ => first) described rule := by
  unfold describeRule
  by_cases hmem : rule.1 ∈ described.map Prod.fst
  · rw [if_pos hmem, keep_first_of_mem hmem]
  · rw [if_neg hmem, KeepFirst.keep_of_not_mem hmem]

theorem describeNotice_eq (described : List String) (notice : AnalysisNotice) :
    describeNotice described notice = KeepFirst.keep id (fun first _ => first) described notice.id := by
  unfold describeNotice
  by_cases hmem : notice.id ∈ described
  · rw [if_pos hmem, keep_first_of_mem (by simpa using hmem)]
  · rw [if_neg hmem, KeepFirst.keep_of_not_mem (by simpa using hmem)]

theorem foldl_first (elements : List α) (first : α) :
    elements.foldl (fun first _ => first) first = first := by
  induction elements with
  | nil => rfl
  | cons _ _ ih => exact ih

-- What is described is what comes first under its key.
theorem mem_described {elements : List α} {element : α} :
    element ∈ elements.foldl (KeepFirst.keep key (fun first _ => first)) [] ↔
      ∃ before after, KeepFirst.FirstOfKey key elements before after element := by
  rw [KeepFirst.mem_foldl_keep (fun _ _ => rfl) elements [] List.nodup_nil]
  constructor
  · rintro (⟨_, hmem, -⟩ | ⟨before, after, first, hfirst, -, rfl⟩)
    · cases hmem
    · rw [foldl_first]
      exact ⟨before, after, hfirst⟩
  · rintro ⟨before, after, hfirst⟩
    exact .inr ⟨before, after, element, hfirst, by simp, (foldl_first _ _).symm⟩

theorem nodup_described (elements : List α) :
    ((elements.foldl (KeepFirst.keep key (fun first _ => first)) []).map key).Nodup := by
  induction elements using List.reverseRecOn with
  | nil => exact List.nodup_nil
  | append_singleton elements element ih =>
      rw [List.foldl_append, List.foldl_cons, List.foldl_nil]
      exact KeepFirst.nodup_keep (fun _ _ => rfl) element ih

theorem mem_map_described {elements : List α} {value : κ} :
    value ∈ (elements.foldl (KeepFirst.keep key (fun first _ => first)) []).map key ↔
      value ∈ elements.map key := by
  constructor
  · intro h
    obtain ⟨element, hmem, rfl⟩ := List.mem_map.mp h
    obtain ⟨before, after, hfirst⟩ := mem_described.mp hmem
    exact List.mem_map_of_mem (hfirst.mem_iff.mp (List.mem_cons_self ..)).1
  · intro h
    obtain ⟨element, hmem, rfl⟩ := List.mem_map.mp h
    obtain ⟨before, after, first, hfirst, hsame⟩ := @KeepFirst.exists_firstOfKey _ _ _ key _ _ hmem
    rw [← hsame]
    exact List.mem_map_of_mem (mem_described.mpr ⟨before, after, hfirst⟩)

end Described

section Sarif

variable {context : DocumentContext} {md5 : IRCache.Bytes → List UInt8} {report : Report}

-- What the rules of a report are described from, in order.
def mentionedRules (report : Report) : List RuleDescription :=
  (report.diagnostics.map fun diagnostic => (diagnostic.ruleId, firstCweIdentifier diagnostic)) ++
    report.notices.map fun notice => (notice.ruleId, primaryCweIdentifier notice.ruleId)

theorem describedRules_eq (report : Report) : describedRules report =
    (mentionedRules report).foldl (KeepFirst.keep Prod.fst (fun first _ => first)) [] := by
  have hstep : KeepFirst.keep Prod.fst (fun first _ => first) = describeRule := by
    funext described rule
    exact (describeRule_eq described rule).symm
  rw [hstep, mentionedRules, List.foldl_append, List.foldl_map, List.foldl_map]
  rfl

theorem describedNotices_eq (report : Report) : report.notices.foldl describeNotice [] =
    (report.notices.map (·.id)).foldl (KeepFirst.keep id (fun first _ => first)) [] := by
  rw [List.foldl_map]
  congr 1
  funext described notice
  exact describeNotice_eq described notice

theorem label_injective : Function.Injective RuleId.label := by
  intro left right h
  exact eq_of_label_front (h ▸ List.prefix_rfl)

def sarifRun (document : Json) : Json := ((document.field "runs").items.head?).getD .null

def driverOf (document : Json) : Json := ((sarifRun document).field "tool").field "driver"

def resultsOf (document : Json) : List Json := ((sarifRun document).field "results").items

def notificationsOf (document : Json) : List Json :=
  ((sarifRun document).field "invocations").items.flatMap fun invocation =>
    (invocation.field "toolExecutionNotifications").items

def rulesOf (document : Json) : List Json := ((driverOf document).field "rules").items

def noticesOf (document : Json) : List Json := ((driverOf document).field "notifications").items

theorem sarifRun_renderSarif : sarifRun (renderSarif context md5 report) = runJson context md5 report := rfl

theorem resultsOf_renderSarif :
    resultsOf (renderSarif context md5 report) = report.diagnostics.map (resultJson context md5) := by
  unfold resultsOf
  rw [sarifRun_renderSarif, runJson]
  by_cases hnone : report.notices.isEmpty = true
  · rw [if_pos hnone]
    rfl
  · rw [if_neg hnone]
    rfl

theorem driverOf_renderSarif : driverOf (renderSarif context md5 report) = driverJson context report := by
  unfold driverOf
  rw [sarifRun_renderSarif, runJson]
  by_cases hnone : report.notices.isEmpty = true
  · rw [if_pos hnone]
    rfl
  · rw [if_neg hnone]
    rfl

theorem notificationsOf_renderSarif :
    notificationsOf (renderSarif context md5 report) = report.notices.map notificationJson := by
  unfold notificationsOf
  rw [sarifRun_renderSarif, runJson]
  by_cases hnone : report.notices.isEmpty = true
  · rw [if_pos hnone, List.isEmpty_iff.mp hnone]
    rfl
  · rw [if_neg hnone]
    exact List.append_nil _

theorem rulesOf_renderSarif :
    rulesOf (renderSarif context md5 report) = (describedRules report).map ruleJson := by
  unfold rulesOf
  rw [driverOf_renderSarif, driverJson]
  by_cases hnone : report.notices.isEmpty = true
  · rw [if_pos hnone]
    rfl
  · rw [if_neg hnone]
    rfl

theorem noticesOf_renderSarif : noticesOf (renderSarif context md5 report) =
    (report.notices.foldl describeNotice []).map fun id => .object [("id", .text id)] := by
  unfold noticesOf
  rw [driverOf_renderSarif, driverJson]
  by_cases hnone : report.notices.isEmpty = true
  · rw [if_pos hnone, List.isEmpty_iff.mp hnone]
    rfl
  · rw [if_neg hnone]
    rfl

theorem map_id_rules : (rulesOf (renderSarif context md5 report)).map (·.field "id") =
    ((describedRules report).map Prod.fst).map fun ruleId => .text ruleId.label := by
  rw [rulesOf_renderSarif, List.map_map, List.map_map]
  rfl

theorem map_id_notices : (noticesOf (renderSarif context md5 report)).map (·.field "id") =
    (report.notices.foldl describeNotice []).map .text := by
  rw [noticesOf_renderSarif, List.map_map]
  rfl

-- What a SARIF document refers to it describes, once, and it describes nothing else. A rule that is
-- broken has the weakness of the first finding it reports.
theorem renderSarif_closed (context : DocumentContext) (md5 : IRCache.Bytes → List UInt8) (report : Report) :
    ((rulesOf (renderSarif context md5 report)).map (·.field "id")).Nodup ∧
    ((noticesOf (renderSarif context md5 report)).map (·.field "id")).Nodup ∧
    (∀ id, id ∈ (rulesOf (renderSarif context md5 report)).map (·.field "id") ↔
      (∃ result ∈ resultsOf (renderSarif context md5 report), result.field "ruleId" = id) ∨
        ∃ notification ∈ notificationsOf (renderSarif context md5 report),
          (notification.field "associatedRule").field "id" = id) ∧
    (∀ id, id ∈ (noticesOf (renderSarif context md5 report)).map (·.field "id") ↔
      ∃ notification ∈ notificationsOf (renderSarif context md5 report),
        (notification.field "descriptor").field "id" = id) ∧
    ∀ before diagnostic after, report.diagnostics = before ++ diagnostic :: after →
      (∀ other ∈ before, other.ruleId ≠ diagnostic.ruleId) →
        ruleJson (diagnostic.ruleId, firstCweIdentifier diagnostic) ∈
          rulesOf (renderSarif context md5 report) := by
  have hmentioned (ruleId : RuleId) : ruleId ∈ (mentionedRules report).map Prod.fst ↔
      (∃ diagnostic ∈ report.diagnostics, diagnostic.ruleId = ruleId) ∨
        ∃ notice ∈ report.notices, notice.ruleId = ruleId := by
    simp [mentionedRules]
  refine ⟨?_, ?_, fun name => ?_, fun name => ?_, fun before diagnostic after hsplit hfirst => ?_⟩
  · rw [map_id_rules, describedRules_eq]
    refine (nodup_described (mentionedRules report)).map fun left right h => ?_
    exact label_injective (Json.text.inj h)
  · rw [map_id_notices, describedNotices_eq]
    refine List.Nodup.map (fun left right h => Json.text.inj h) ?_
    simpa using @nodup_described _ _ _ id (report.notices.map (·.id))
  · rw [map_id_rules, describedRules_eq, resultsOf_renderSarif, notificationsOf_renderSarif]
    constructor
    · intro h
      obtain ⟨ruleId, hmem, rfl⟩ := List.mem_map.mp h
      rcases (hmentioned ruleId).mp (mem_map_described.mp hmem) with
        ⟨diagnostic, hdiagnostic, rfl⟩ | ⟨notice, hnotice, rfl⟩
      · exact .inl ⟨_, List.mem_map_of_mem hdiagnostic, rfl⟩
      · exact .inr ⟨_, List.mem_map_of_mem hnotice, rfl⟩
    · rintro (⟨result, hresult, rfl⟩ | ⟨notification, hnotification, rfl⟩)
      · obtain ⟨diagnostic, hdiagnostic, rfl⟩ := List.mem_map.mp hresult
        exact List.mem_map.mpr ⟨diagnostic.ruleId,
          mem_map_described.mpr ((hmentioned _).mpr (.inl ⟨diagnostic, hdiagnostic, rfl⟩)), rfl⟩
      · obtain ⟨notice, hnotice, rfl⟩ := List.mem_map.mp hnotification
        exact List.mem_map.mpr ⟨notice.ruleId,
          mem_map_described.mpr ((hmentioned _).mpr (.inr ⟨notice, hnotice, rfl⟩)), rfl⟩
  · rw [map_id_notices, describedNotices_eq, notificationsOf_renderSarif]
    have hnotices (name : String) : name ∈
        (report.notices.map (·.id)).foldl (KeepFirst.keep id (fun first _ => first)) [] ↔
          name ∈ report.notices.map (·.id) := by
      simpa using @mem_map_described _ _ _ id (report.notices.map (·.id)) name
    constructor
    · intro h
      obtain ⟨name, hmem, rfl⟩ := List.mem_map.mp h
      obtain ⟨notice, hnotice, rfl⟩ := List.mem_map.mp ((hnotices name).mp hmem)
      exact ⟨_, List.mem_map_of_mem hnotice, rfl⟩
    · rintro ⟨notification, hnotification, rfl⟩
      obtain ⟨notice, hnotice, rfl⟩ := List.mem_map.mp hnotification
      exact List.mem_map.mpr ⟨notice.id, (hnotices _).mpr (List.mem_map_of_mem hnotice), rfl⟩
  · have hrest : mentionedRules report =
        (before.map fun other => (other.ruleId, firstCweIdentifier other)) ++
          (diagnostic.ruleId, firstCweIdentifier diagnostic) ::
            ((after.map fun other => (other.ruleId, firstCweIdentifier other)) ++
              report.notices.map fun notice => (notice.ruleId, primaryCweIdentifier notice.ruleId)) := by
      rw [mentionedRules, hsplit, List.map_append, List.map_cons, List.append_assoc, List.cons_append]
    rw [rulesOf_renderSarif, describedRules_eq]
    refine List.mem_map_of_mem (mem_described.mpr ⟨_, _, hrest, ?_⟩)
    intro rule hrule
    obtain ⟨other, hother, rfl⟩ := List.mem_map.mp hrule
    exact hfirst other hother

end Sarif

section Agreement

variable {context : DocumentContext} {md5 : IRCache.Bytes → List UInt8}

-- What a location says in a JSON document, a region says where there is a line to say it of.
structure SameRegion (location region : Json) : Prop where
  startLine : region.field "startLine" = location.field "startLine"
  startColumn : region.field "startColumn" = location.field "startColumn"
  endLine : region.field "endLine" = location.field "endLine"
  endColumn : region.field "endColumn" = location.field "endColumn"

def regionOf (location : Json) : Json := (location.field "physicalLocation").field "region"

def SameLocation (location sarif : Json) : Prop :=
  location.field "startLine" = .number 0 ∨ SameRegion location (regionOf sarif)

-- A finding of the JSON document and a result of the SARIF document that say the same.
structure SaysTheSame (finding result : Json) : Prop where
  rule : result.field "ruleId" = finding.field "ruleId"
  message : (result.field "message").field "text" = (finding.field "details").field "message"
  severity : ∃ severity, finding.field "severity" = .text (severityUpper severity) ∧
    result.field "level" = .text (sarifLevel severity)
  confidence : (result.field "properties").field "confidence" = finding.field "confidence"
  notes : (finding.field "details").field "notes" = .array [] ∨
    (result.field "properties").field "notes" = (finding.field "details").field "notes"
  properties : (finding.field "details").field "properties" = .object [] ∨
    (result.field "properties").field "coretraceDiagnosticProperties" =
      (finding.field "details").field "properties"
  location : ∃ sarif, (result.field "locations").items = [sarif] ∧
    SameLocation (finding.field "location") sarif
  related : List.Forall₂ (fun finding result =>
      (result.field "message").field "text" = finding.field "label" ∧
        SameLocation (finding.field "location") result)
    (finding.field "relatedLocations").items (result.field "relatedLocations").items

theorem sameLocation (location : SourceLocation) (more : List (String × Json)) :
    SameLocation (toJsonLocation context location)
      (.object (toSarifLocation context location ++ more)) := by
  by_cases hline : location.line = 0
  · exact .inl (by simp [toJsonLocation, Json.field, hline])
  · right
    have hregion : regionOf (.object (toSarifLocation context location ++ more)) =
        .object (sarifRegion location) := by
      have hsome : (sarifRegion location).isEmpty = false := by
        simp [sarifRegion, hline]
      simp [regionOf, toSarifLocation, Json.field, hsome]
    rw [hregion]
    unfold sarifRegion
    rw [if_neg hline]
    exact ⟨rfl, rfl, rfl, rfl⟩

theorem saysTheSame (diagnostic : Diagnostic) :
    SaysTheSame (diagnosticJson context diagnostic) (resultJson context md5 diagnostic) where
  rule := rfl
  message := rfl
  severity := ⟨diagnostic.severity, rfl, rfl⟩
  confidence := by
    show (Json.object (resultProperties diagnostic)).field "confidence" =
      optionalText (diagnostic.confidence.map confidenceUpper)
    unfold resultProperties
    cases diagnostic.confidence with
    | none =>
        by_cases hproperties : diagnostic.properties.isEmpty = true <;>
          by_cases hnotes : diagnostic.notes.isEmpty = true <;>
            simp [Json.field, optionalText, hproperties, hnotes]
    | some confidence => rfl
  notes := by
    show notesOf diagnostic = .array [] ∨ (Json.object (resultProperties diagnostic)).field "notes" =
      notesOf diagnostic
    by_cases hnotes : diagnostic.notes.isEmpty = true
    · exact .inl (by rw [notesOf, List.isEmpty_iff.mp hnotes]; rfl)
    · right
      unfold resultProperties
      cases diagnostic.confidence <;>
        by_cases hproperties : diagnostic.properties.isEmpty = true <;>
          simp [Json.field, hproperties, hnotes]
  properties := by
    show Json.object (propertiesOf diagnostic) = .object [] ∨
      (Json.object (resultProperties diagnostic)).field "coretraceDiagnosticProperties" =
        .object (propertiesOf diagnostic)
    by_cases hproperties : diagnostic.properties.isEmpty = true
    · exact .inl (by rw [propertiesOf, List.isEmpty_iff.mp hproperties]; rfl)
    · right
      unfold resultProperties
      cases diagnostic.confidence <;> simp [Json.field, hproperties]
  location := by
    have hsame := @sameLocation context diagnostic.location []
    rw [List.append_nil] at hsame
    exact ⟨_, rfl, hsame⟩
  related := by
    show List.Forall₂ _ (diagnostic.relatedLocations.map _) (diagnostic.relatedLocations.map _)
    rw [List.forall₂_map_left_iff, List.forall₂_map_right_iff]
    refine List.forall₂_same.mpr fun related _ => ⟨?_, sameLocation related.location _⟩
    have hmessage : (toSarifLocation context related.location).find? (·.1 = "message") = none := by
      unfold toSarifLocation
      by_cases hfunction : related.location.function = "" <;> simp [hfunction]
    simp [Json.field, List.find?_append, hmessage]

def findingsOf (document : Json) : List Json := (document.field "diagnostics").items

def hasText (key value : String) (entry : Json) : Bool := (entry.field key).text? = some value

def severityCount (summary : DiagnosticSummary) : Severity → Nat
  | .Info => summary.info
  | .Warning => summary.warning
  | .Error => summary.error

theorem severityCount_summarize (diagnostics : List Diagnostic) (severity : Severity) :
    severityCount (summarize diagnostics) severity = diagnostics.countP (·.severity = severity) := by
  induction diagnostics using List.reverseRecOn with
  | nil => cases severity <;> rfl
  | append_singleton diagnostics diagnostic ih =>
      rw [summarize, List.foldl_append, List.foldl_cons, List.foldl_nil, List.countP_append, ← ih,
        List.countP_singleton]
      change severityCount (countSeverity (summarize diagnostics) diagnostic) severity = _
      cases hseverity : diagnostic.severity <;> cases severity <;>
        simp [countSeverity, severityCount, hseverity]

theorem severityUpper_injective : Function.Injective severityUpper := by
  intro left right h
  cases left <;> cases right <;> first | rfl | exact absurd h (by decide)

theorem sarifLevel_injective : Function.Injective sarifLevel := by
  intro left right h
  cases left <;> cases right <;> first | rfl | exact absurd h (by decide)

-- The severities a policy fails on.
def failsOn : FailOn → List Severity
  | .None => []
  | .Error => [.Error]
  | .Warning => [.Error, .Warning]

theorem gateExitCode_iff (policy : FailOn) (summary : DiagnosticSummary) :
    gateExitCode policy summary = kFindingsExitCode ↔
      ∃ severity ∈ failsOn policy, 0 < severityCount summary severity := by
  cases policy with
  | None => simp [gateExitCode, failsOn, kFindingsExitCode]
  | Error =>
      by_cases herror : 0 < summary.error <;>
        simp [gateExitCode, failsOn, kFindingsExitCode, severityCount, herror]
  | Warning =>
      by_cases herror : 0 < summary.error <;> by_cases hwarning : 0 < summary.warning <;>
        simp [gateExitCode, failsOn, kFindingsExitCode, severityCount, herror, hwarning]

-- The two documents of a report say the same finding by finding, its summary counts what either says,
-- and the exit code is that of what is said.
theorem documents_agree (context : DocumentContext) (md5 : IRCache.Bytes → List UInt8) (report : Report)
    (hsummary : report.diagnosticsSummary = summarize report.diagnostics) :
    List.Forall₂ SaysTheSame (findingsOf (renderJsonValue context report))
      (resultsOf (renderSarif context md5 report)) ∧
    (∀ severity,
      (findingsOf (renderJsonValue context report)).countP (hasText "severity" (severityUpper severity)) =
          severityCount report.diagnosticsSummary severity ∧
        (resultsOf (renderSarif context md5 report)).countP (hasText "level" (sarifLevel severity)) =
          severityCount report.diagnosticsSummary severity) ∧
    ∀ policy, gateExitCode policy report.diagnosticsSummary = kFindingsExitCode ↔
      ∃ severity ∈ failsOn policy, ∃ result ∈ resultsOf (renderSarif context md5 report),
        result.field "level" = .text (sarifLevel severity) := by
  have hfindings : findingsOf (renderJsonValue context report) =
      report.diagnostics.map (diagnosticJson context) := rfl
  rw [hfindings, resultsOf_renderSarif, hsummary]
  refine ⟨?_, fun severity => ⟨?_, ?_⟩, fun policy => ?_⟩
  · rw [List.forall₂_map_left_iff, List.forall₂_map_right_iff]
    exact List.forall₂_same.mpr fun diagnostic _ => saysTheSame diagnostic
  · rw [severityCount_summarize, List.countP_map]
    refine List.countP_congr fun diagnostic _ => ?_
    show decide (some (severityUpper diagnostic.severity) = some (severityUpper severity)) = true ↔ _
    simp [severityUpper_injective.eq_iff]
  · rw [severityCount_summarize, List.countP_map]
    refine List.countP_congr fun diagnostic _ => ?_
    show decide (some (sarifLevel diagnostic.severity) = some (sarifLevel severity)) = true ↔ _
    simp [sarifLevel_injective.eq_iff]
  · rw [gateExitCode_iff]
    refine exists_congr fun severity => and_congr_right fun _ => ?_
    rw [severityCount_summarize, List.countP_pos_iff]
    constructor
    · rintro ⟨diagnostic, hdiagnostic, hseverity⟩
      obtain rfl := of_decide_eq_true hseverity
      exact ⟨_, List.mem_map_of_mem hdiagnostic, rfl⟩
    · rintro ⟨result, hresult, hlevel⟩
      obtain ⟨diagnostic, hdiagnostic, rfl⟩ := List.mem_map.mp hresult
      exact ⟨diagnostic, hdiagnostic, decide_eq_true (sarifLevel_injective (Json.text.inj hlevel))⟩

def twoFindings : Report where
  diagnostics := [
    { Diagnostic.ofRule .DataRaceGlobal with location := { file := "a.c", line := 3 } },
    { Diagnostic.ofRule .MissingJoin with location := { file := "a.c", line := 9 } }]
  diagnosticsSummary := { warning := 1, error := 1 }

theorem documents_agree_two :
    gateExitCode .Error twoFindings.diagnosticsSummary = 2 ∧
      ∃ result ∈ resultsOf (renderSarif {} (fun _ => []) twoFindings), result.field "level" = .text "error" := by
  have hexit : gateExitCode .Error twoFindings.diagnosticsSummary = kFindingsExitCode := by decide
  obtain ⟨-, -, hgate⟩ := documents_agree {} (fun _ => []) twoFindings (by decide)
  obtain ⟨severity, hmem, hresult⟩ := (hgate .Error).mp hexit
  rw [List.mem_singleton.mp hmem] at hresult
  exact ⟨hexit, hresult⟩

end Agreement

end ConcurrencyAnalyzer.Reporting
