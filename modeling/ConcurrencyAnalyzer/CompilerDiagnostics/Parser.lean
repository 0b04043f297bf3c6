import ConcurrencyAnalyzer.LockIds
import ConcurrencyAnalyzer.Report
import Mathlib.Data.List.DropRight
import Mathlib.Data.Prod.Lex

namespace ConcurrencyAnalyzer.CompilerDiagnostics

-- An error code that is set has a name; `none` stands for the phase that is none.
structure CompileError where
  codeName : Option String := none
  codeMessage : String := "Success"
  phase : Option String := none
  message : String := ""

def formatCompileError (error : CompileError) : String :=
  match error.codeName with
  | none => ""
  | some codeName =>
      (match error.phase with
        | none => ""
        | some phase => phase ++ ": ") ++ codeName ++ ": " ++ error.codeMessage ++
        (if error.message ≠ "" then " (" ++ error.message ++ ")" else "")

structure DiagnosticSummary where
  info : Nat := 0
  warning : Nat := 0
  error : Nat := 0
  deriving DecidableEq, Repr

structure ParsedDiagnosticLine where
  location : SourceLocation
  severity : Severity
  severityLabel : String
  message : String
  deriving DecidableEq, Repr

-- `std::isspace` in the C locale.
def isSpace (ch : Char) : Bool :=
  ch = ' ' || ch = '\t' || ch = '\n' || ch = '\x0b' || ch = '\x0c' || ch = '\r'

def trim (value : List Char) : List Char := (value.dropWhile isSpace).rdropWhile isSpace

-- `unsigned` has 32 bits.
def addDigit (value : Nat) (ch : Char) : Option Nat :=
  if ch.isDigit then some ((value * 10 + (ch.toNat - '0'.toNat)) % 2 ^ 32) else none

def parseUnsigned (text : List Char) : Option Nat :=
  if text.isEmpty then none else text.foldlM addDigit 0

-- The lines of what is left, where `line` is read of the first of them.
def linesFrom (line : List Char) : List Char → List (List Char)
  | [] => if line.isEmpty then [] else [line]
  | ch :: rest => if ch = '\n' then line :: linesFrom [] rest else linesFrom (line ++ [ch]) rest

def splitLines (text : List Char) : List (List Char) :=
  if text.isEmpty then [[]] else linesFrom [] text

def severityTokens : List String := ["fatal error", "error", "warning", "note", "remark"]

def toSeverityToken (value : String) : String := if value ∈ severityTokens then value else ""

def mapSeverity (value : String) : Severity :=
  if value = "warning" then .Warning
  else if value = "remark" || value = "note" then .Info
  else .Error

-- What stands before the first colon and what behind it.
def cutAtColon : List Char → Option (List Char × List Char)
  | [] => none
  | ch :: rest =>
      if ch = ':' then some ([], rest)
      else (cutAtColon rest).map fun cut => (ch :: cut.1, cut.2)

def parseStructuredLine (line : List Char) : Option ParsedDiagnosticLine := do
  let (file, rest) ← cutAtColon line
  let (lineText, rest) ← cutAtColon rest
  let (columnText, rest) ← cutAtColon rest
  let (severityText, message) ← cutAtColon rest
  let lineNumber ← parseUnsigned lineText
  let columnNumber ← parseUnsigned columnText
  let severity := String.ofList (trim severityText)
  let severityToken := toSeverityToken severity
  if severityToken = "" then none
  else
    some {
      location := {
        file := String.ofList file
        line := lineNumber
        column := columnNumber
        endLine := lineNumber
        endColumn := columnNumber }
      severity := mapSeverity severityToken
      severityLabel := severity
      message := String.ofList (trim message) }

-- The report while it grows, with the place of the diagnostic that `currentPrimary` points to.
structure ReportState where
  diagnostics : List Diagnostic := []
  currentPrimary : Option Nat := none

-- A diagnostic is emitted at the end of the report and is the current one from there on.
def ReportState.emit (state : ReportState) (diagnostic : Diagnostic) : ReportState where
  diagnostics := state.diagnostics ++ [diagnostic]
  currentPrimary := some state.diagnostics.length

def ReportState.changePrimary (state : ReportState) (primary : Nat)
    (change : Diagnostic → Diagnostic) : ReportState :=
  { state with diagnostics := state.diagnostics.modify primary change }

def compilerDiagnostic (location : SourceLocation) (severity : Severity)
    (message compilerSeverity rawDiagnostic : String) : Diagnostic :=
  let diagnostic := { Diagnostic.ofRule .CompilerDiagnostic with
    location := location, severity := severity, message := message }
  (diagnostic.property "compilerSeverity" (.text compilerSeverity)).property "rawDiagnostic"
    (.text rawDiagnostic)

def addFallbackDiagnostic (diagnostics : List Diagnostic) (error : CompileError)
    (inputFile rawDiagnostics : String) : List Diagnostic :=
  let diagnostic := compilerDiagnostic { file := inputFile } .Error
    (if error.message = "" then error.codeMessage else error.message) "error" rawDiagnostics
  let formattedError := formatCompileError error
  diagnostics ++ [if formattedError = "" then diagnostic else diagnostic.note formattedError]

def plainDiagnostic (inputFile : String) (line : List Char) : Diagnostic :=
  compilerDiagnostic { file := inputFile } .Error (String.ofList line) "error" (String.ofList line)

def parsedDiagnostic (parsed : ParsedDiagnosticLine) (line : List Char) : Diagnostic :=
  compilerDiagnostic parsed.location parsed.severity parsed.message parsed.severityLabel
    (String.ofList line)

-- One line that is not blank, trimmed.
def addLine (inputFile : String) (state : ReportState) (line : List Char) : ReportState :=
  match parseStructuredLine line with
  | none =>
      match state.currentPrimary with
      | some primary => state.changePrimary primary (·.note (String.ofList line))
      | none => state.emit (plainDiagnostic inputFile line)
  | some parsed =>
      if parsed.severityLabel = "note" then
        match state.currentPrimary with
        | some primary =>
            state.changePrimary primary fun diagnostic =>
              (diagnostic.note parsed.message).relatedLocation "Compiler note" parsed.location
        | none => state.emit (parsedDiagnostic parsed line)
      else state.emit (parsedDiagnostic parsed line)

def addRawLine (inputFile : String) (state : ReportState) (rawLine : List Char) : ReportState :=
  let line := trim rawLine
  if line.isEmpty then state else addLine inputFile state line

def countSeverity (summary : DiagnosticSummary) (diagnostic : Diagnostic) : DiagnosticSummary :=
  match diagnostic.severity with
  | .Info => { summary with info := summary.info + 1 }
  | .Warning => { summary with warning := summary.warning + 1 }
  | .Error => { summary with error := summary.error + 1 }

def summarize (diagnostics : List Diagnostic) : DiagnosticSummary :=
  diagnostics.foldl countSeverity {}

def locationKey (diagnostic : Diagnostic) : String ×ₗ Nat ×ₗ Nat ×ₗ String :=
  toLex (diagnostic.location.file, toLex (diagnostic.location.line,
    toLex (diagnostic.location.column, diagnostic.message)))

def numbered (index : Nat) (diagnostic : Diagnostic) : Diagnostic :=
  { diagnostic with id := "diag-" ++ toString (index + 1) }

-- The report and its summary.
def parseCompilerDiagnostics (rawDiagnostics : List Char) (error : CompileError)
    (inputFile : String) : DiagnosticReport × DiagnosticSummary :=
  let state := (splitLines rawDiagnostics).foldl (addRawLine inputFile) {}
  let diagnostics :=
    if state.diagnostics.isEmpty then
      addFallbackDiagnostic state.diagnostics error inputFile (String.ofList rawDiagnostics)
    else state.diagnostics
  let diagnostics := diagnostics.insertionSort fun lhs rhs => locationKey lhs ≤ locationKey rhs
  let diagnostics := diagnostics.mapIdx numbered
  ({ diagnostics := diagnostics }, summarize diagnostics)

end ConcurrencyAnalyzer.CompilerDiagnostics
