import ConcurrencyAnalyzer.Reporting.Fingerprints
import ConcurrencyAnalyzer.ReportBuilder.FunctionSummaries
import ConcurrencyAnalyzer.CompilerDiagnostics.Parser

namespace ConcurrencyAnalyzer

def RuleId.title : RuleId → String
  | .CompilerDiagnostic => "Compiler diagnostic"
  | .DataRaceGlobal => "Unsynchronized concurrent access to a shared global"
  | .MissingJoin => "Thread handle is not joined before scope exit"
  | .DeadlockLockOrder => "Potential deadlock caused by inconsistent lock order"
  | .ConditionWaitWithoutPredicate => "Condition-variable wait rechecks nothing on wake-up"
  | .ForkAfterThreadCreation => "Fork in a threaded program without an exec in the child"
  | .UnreapedChildProcess => "Child process is never collected"
  | .ThreadArgumentEscapesFrame => "Thread argument points into the frame that created it"
  | .UnsafeSignalHandler => "Signal handler calls a function it may not call"
  | .WeakPublicationOrdering => "Atomic flag publishes data without release/acquire ordering"
  | .ThreadArgumentFreedEarly => "Thread argument freed before the thread is joined"
  | .ThreadLocalOutlivesThread => "Thread-local object used after its thread ended"

def RuleId.shortDescription : RuleId → String
  | .CompilerDiagnostic =>
      "Represents a compiler-originated diagnostic captured during IR generation."
  | .DataRaceGlobal =>
      "Detects shared global accesses that can run concurrently without a common recognized lock."
  | .MissingJoin =>
      "Detects thread creation sites whose handle is not joined before the enclosing scope completes."
  | .DeadlockLockOrder =>
      "Detects conflicting lock acquisition orders that can lead to circular wait."
  | .ConditionWaitWithoutPredicate =>
      "Detects a condition-variable wait with neither a predicate nor a loop around it, which treats " ++
        "any wake-up as proof that the condition holds."
  | .ForkAfterThreadCreation =>
      "Detects a fork performed by a program that creates threads, where the child keeps running " ++
        "instead of replacing its process image."
  | .UnreapedChildProcess =>
      "Detects a program that forks but never waits on its children, leaving them as zombies in the " ++
        "process table."
  | .ThreadArgumentEscapesFrame =>
      "Detects a thread started with a pointer to a local variable of a function that returns without " ++
        "waiting for it."
  | .UnsafeSignalHandler =>
      "Detects a signal handler that reaches an allocation, a stream or a lock, none of which is " ++
        "async-signal-safe."
  | .WeakPublicationOrdering =>
      "Detects data published through an atomic flag whose store does not release or whose observing " ++
        "load does not acquire, so the reader may see the flag set and the data stale."
  | .ThreadArgumentFreedEarly =>
      "Detects memory handed to a thread that its creator frees while the thread may still use it."
  | .ThreadLocalOutlivesThread =>
      "Detects a thread-local object reached through a pointer its thread published, after that thread " ++
        "has been joined."

namespace Reporting

open CompilerDiagnostics (DiagnosticSummary)
open ReportBuilder (FunctionSummary)

-- A document as it is built, before the library prints it.
inductive Json where
  | null
  | flag (value : Bool)
  | number (value : Int)
  | text (value : String)
  | array (items : List Json)
  | object (fields : List (String × Json))

namespace Json

def field (value : Json) (key : String) : Json :=
  match value with
  | .object fields => ((fields.find? (·.1 = key)).map (·.2)).getD .null
  | _ => .null

def items : Json → List Json
  | .array items => items
  | _ => []

def text? : Json → Option String
  | .text value => some value
  | _ => none

end Json

-- `sourceRelative` is the path of a file from the source root, where there is one.
structure DocumentContext extends RenderContext where
  toolName : String := ""
  mode : String := "IR"
  analysisTimeMs : Int := -1
  sourceRelative : String → Option String := fun _ => none

structure Report extends DiagnosticReport where
  functions : List FunctionSummary := []
  diagnosticsSummary : DiagnosticSummary

def severityUpper : Severity → String
  | .Info => "INFO"
  | .Warning => "WARNING"
  | .Error => "ERROR"

def confidenceUpper : ConfidenceLevel → String
  | .Low => "LOW"
  | .Medium => "MEDIUM"
  | .High => "HIGH"

def sarifLevel : Severity → String
  | .Info => "note"
  | .Warning => "warning"
  | .Error => "error"

def cweOf (taxonomy : TaxonomyRef) : Option String :=
  if taxonomy.scheme = "CWE" then some (taxonomy.scheme ++ "-" ++ taxonomy.id) else none

def firstCweIdentifier (diagnostic : Diagnostic) : Option String :=
  diagnostic.taxonomies.findSome? cweOf

def primaryCweIdentifier (ruleId : RuleId) : Option String := ruleId.primaryTaxonomy.bind cweOf

def toJsonValue : PropertyValue → Json
  | .flag value => .flag value
  | .number value => .number value
  | .text value => .text value
  | .texts values => .array (values.map .text)

def endLineOf (location : SourceLocation) : Nat :=
  if location.endLine = 0 then location.line else location.endLine

def endColumnOf (location : SourceLocation) : Nat :=
  if location.endColumn = 0 then location.column else location.endColumn

def notesOf (diagnostic : Diagnostic) : Json := .array (diagnostic.notes.map .text)

def propertiesOf (diagnostic : Diagnostic) : List (String × Json) :=
  diagnostic.properties.map fun (key, value) => (key, toJsonValue value)

def optionalText (value : Option String) : Json := (value.map Json.text).getD .null

section Render

variable (context : DocumentContext)

def toJsonLocation (location : SourceLocation) : Json :=
  .object [
    ("file", .text (effectiveFile location context.toRenderContext)),
    ("function", .text location.function),
    ("startLine", .number location.line),
    ("startColumn", .number location.column),
    ("endLine", .number (endLineOf location)),
    ("endColumn", .number (endColumnOf location))]

def artifactUri (location : SourceLocation) : String :=
  let file := effectiveFile location context.toRenderContext
  if file = "" then "" else (context.sourceRelative file).getD file

def sarifRegion (location : SourceLocation) : List (String × Json) :=
  if location.line = 0 then []
  else [
    ("startLine", .number location.line),
    ("startColumn", .number location.column),
    ("endLine", .number (endLineOf location)),
    ("endColumn", .number (endColumnOf location))]

def toSarifLocation (location : SourceLocation) : List (String × Json) :=
  let artifact := ("artifactLocation", Json.object [("uri", .text (artifactUri context location))])
  let region := sarifRegion location
  let physical := if region.isEmpty then [artifact] else [artifact, ("region", .object region)]
  ("physicalLocation", .object physical) ::
    if location.function = "" then []
    else [("logicalLocations", .array [
      .object [("name", .text location.function), ("kind", .text "function")]])]

-- Counts nobody took are left out.
def functionJson (function : FunctionSummary) : Json :=
  .object ([
    ("file", .text (if function.file = "" then context.inputFile else function.file)),
    ("name", .text function.name),
    ("threadReachable", .flag function.threadReachable),
    ("threadEntries", .array (function.threadEntries.map .text)),
    ("hasDiagnostics", .flag function.hasDiagnostics)] ++
    match function.sharedAccessCount with
    | none => []
    | some count => [
        ("sharedAccessCount", .number count),
        ("protectedAccessCount", .number (function.protectedAccessCount.getD 0 : Nat)),
        ("writeAccessCount", .number (function.writeAccessCount.getD 0 : Nat))])

def diagnosticJson (diagnostic : Diagnostic) : Json :=
  .object [
    ("id", .text diagnostic.id),
    ("severity", .text (severityUpper diagnostic.severity)),
    ("ruleId", .text diagnostic.ruleId.label),
    ("confidence", optionalText (diagnostic.confidence.map confidenceUpper)),
    ("cwe", optionalText (firstCweIdentifier diagnostic)),
    ("location", toJsonLocation context diagnostic.location),
    ("relatedLocations", .array (diagnostic.relatedLocations.map fun related =>
      .object [("label", .text related.label), ("location", toJsonLocation context related.location)])),
    ("details", .object [
      ("message", .text diagnostic.message),
      ("notes", notesOf diagnostic),
      ("properties", .object (propertiesOf diagnostic))])]

def noticeJson (notice : AnalysisNotice) : Json :=
  .object [("id", .text notice.id), ("ruleId", .text notice.ruleId.label), ("message", .text notice.message)]

def renderJsonValue (report : Report) : Json :=
  .object ([
    ("meta", .object [
      ("tool", .text context.toolName), ("inputFile", .text context.inputFile),
      ("mode", .text context.mode), ("analysisTimeMs", .number context.analysisTimeMs)]),
    ("functions", .array (report.functions.map (functionJson context))),
    ("diagnostics", .array (report.diagnostics.map (diagnosticJson context))),
    ("diagnosticsSummary", .object [
      ("info", .number report.diagnosticsSummary.info),
      ("warning", .number report.diagnosticsSummary.warning),
      ("error", .number report.diagnosticsSummary.error)])] ++
    if report.notices.isEmpty then [] else [("notices", .array (report.notices.map noticeJson))])

-- A rule with what its description says of the weakness it finds.
abbrev RuleDescription := RuleId × Option String

-- A rule is described where it first comes up.
def describeRule (described : List RuleDescription) (rule : RuleDescription) : List RuleDescription :=
  if rule.1 ∈ described.map Prod.fst then described else described ++ [rule]

def describedRules (report : Report) : List RuleDescription :=
  let ofDiagnostics := report.diagnostics.foldl (fun described diagnostic =>
    describeRule described (diagnostic.ruleId, firstCweIdentifier diagnostic)) []
  report.notices.foldl (fun described notice =>
    describeRule described (notice.ruleId, primaryCweIdentifier notice.ruleId)) ofDiagnostics

def ruleJson (rule : RuleDescription) : Json :=
  .object [
    ("id", .text rule.1.label),
    ("name", .text rule.1.label),
    ("shortDescription", .object [("text", .text rule.1.title)]),
    ("fullDescription", .object [("text", .text rule.1.shortDescription)]),
    ("defaultConfiguration", .object [("level", .text (sarifLevel rule.1.defaultSeverity))]),
    ("properties", .object [("tags", .array (.text "concurrency" :: (rule.2.map Json.text).toList))])]

variable (md5 : IRCache.Bytes → List UInt8)

def fingerprintText (diagnostic : Diagnostic) : String :=
  String.ofList ((fingerprintFor md5 diagnostic context.toRenderContext).map fun byte =>
    Char.ofNat byte.toNat)

def resultProperties (diagnostic : Diagnostic) : List (String × Json) :=
  (diagnostic.confidence.map fun confidence =>
      ("confidence", Json.text (confidenceUpper confidence))).toList ++
    (if diagnostic.properties.isEmpty then []
      else [("coretraceDiagnosticProperties", .object (propertiesOf diagnostic))]) ++
    if diagnostic.notes.isEmpty then [] else [("notes", notesOf diagnostic)]

def resultJson (diagnostic : Diagnostic) : Json :=
  .object [
    ("ruleId", .text diagnostic.ruleId.label),
    ("level", .text (sarifLevel diagnostic.severity)),
    ("message", .object [("text", .text diagnostic.message)]),
    ("locations", .array [.object (toSarifLocation context diagnostic.location)]),
    ("relatedLocations", .array (diagnostic.relatedLocations.map fun related =>
      .object (toSarifLocation context related.location ++
        [("message", .object [("text", .text related.label)])]))),
    ("partialFingerprints", .object [
      ("primaryLocationLineHash", .text (fingerprintText context md5 diagnostic))]),
    ("properties", .object (resultProperties diagnostic))]

def notificationJson (notice : AnalysisNotice) : Json :=
  .object [
    ("descriptor", .object [("id", .text notice.id)]),
    ("associatedRule", .object [("id", .text notice.ruleId.label)]),
    ("level", .text "warning"),
    ("message", .object [("text", .text notice.message)])]

def describeNotice (described : List String) (notice : AnalysisNotice) : List String :=
  if notice.id ∈ described then described else described ++ [notice.id]

def driverJson (report : Report) : Json :=
  .object ([("name", .text context.toolName), ("rules", .array ((describedRules report).map ruleJson))] ++
    if report.notices.isEmpty then []
    else [("notifications", .array ((report.notices.foldl describeNotice []).map fun id =>
      .object [("id", .text id)]))])

-- A limit the analysis reached is a notification of an execution that succeeded.
def runJson (report : Report) : Json :=
  .object ((if report.notices.isEmpty then []
    else [("invocations", .array [.object [
      ("executionSuccessful", .flag true),
      ("toolExecutionNotifications", .array (report.notices.map notificationJson))]])]) ++ [
    ("tool", .object [("driver", driverJson context report)]),
    ("results", .array (report.diagnostics.map (resultJson context md5)))])

def renderSarif (report : Report) : Json :=
  .object [
    ("version", .text "2.1.0"),
    ("$schema", .text "https://schemastore.azurewebsites.net/schemas/json/sarif-2.1.0-rtm.5.json"),
    ("runs", .array [runJson context md5 report])]

end Render

end Reporting

end ConcurrencyAnalyzer
