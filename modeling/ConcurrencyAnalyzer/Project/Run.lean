import ConcurrencyAnalyzer.Project.UnitSource
import ConcurrencyAnalyzer.IRCache.Runs
import ConcurrencyAnalyzer.CrossTU.WorkerPoolTheorems
import ConcurrencyAnalyzer.CrossTU.OneFold

namespace ConcurrencyAnalyzer.Project

open IRCache (Bytes Files)
open FactsBuilder CrossTU CompilerDiagnostics

def bytesOf (text : String) : Bytes := text.toByteArray.data.toList

structure CompileCommand where
  file : String
  directory : String := ""
  arguments : List String := []
  deriving DecidableEq

-- No path or flag holds the byte that separates them in the key.
structure CompileCommand.Separable (command : CompileCommand) : Prop where
  file : 0 ∉ bytesOf command.file
  arguments : ∀ argument ∈ command.arguments, 0 ∉ bytesOf argument

abbrev ReplayedCommand := { command : CompileCommand // command.Separable }

def ReplayedCommand.cached (command : ReplayedCommand) : IRCache.CompileCommand where
  file := bytesOf command.1.file
  directory := bytesOf command.1.directory
  arguments := command.1.arguments.map bytesOf
  fileSeparable := command.2.file
  argumentsSeparable := by
    intro argument hargument
    obtain ⟨text, htext, rfl⟩ := List.mem_map.mp hargument
    exact command.2.arguments text htext

abbrev SourceContents := Bytes → Option Bytes

-- What a run takes from its libraries and from the system, where the source files hold what they hold.
-- `dependencyFile` is what the compiler writes beside the bitcode.
structure Toolchain where
  probe : SourceContents → String → InputProbe
  backend : SourceContents → IRFormat → List String → Bool → BackendCompileOutput
  dependencyFile : SourceContents → List String → Option Bytes
  parseBC : Bytes → Except CompileError TranslationUnit
  sha256 : Bytes → List UInt8
  xxh3 : Bytes → UInt64
  pathText : Bytes → String
  depfileText : Bytes → String

-- What stands for a unit whose bitcode does not parse: it is never read.
def unreadModule : TranslationUnit where
  idInjective := apart_nil FunctionInfo.id
  symbolInjective := apart_nil FunctionInfo.symbol

structure RunState where
  cache : Files
  units : List SourceUnit := []
  failedSources : List String := []
  reusedUnits : Nat := 0
  compiledUnits : Nat := 0

def readEntry (cache : Files) : EntryReads := fun key =>
  match (cache.entries key).bitcode with
  | some bitcode => .ok bitcode.code
  | none => .error "No such file or directory"

namespace Toolchain

section Loop

variable (toolchain : Toolchain)

def keyFor (command : ReplayedCommand) : Bytes := IRCache.keyFor toolchain.sha256 command.cached

def readable (cache : Files) (key : Bytes) : Bool :=
  match readEntry cache key with
  | .ok bytes => (toolchain.parseBC bytes).isOk
  | .error _ => false

-- An entry that does not parse is unusable, and no sign that the unit is broken.
def reusable (cache : Files) (command : ReplayedCommand) : Option Bytes :=
  (IRCache.lookupPath toolchain.sha256 cache command.cached).filter (toolchain.readable cache)

def request (useCache : Bool) (command : ReplayedCommand) : CompileRequest where
  inputFile := command.1.file
  extraCompileArgs := command.1.arguments ++
    if useCache then ["-MD", "-MF", toolchain.depfileText (toolchain.keyFor command)] else []

def compileUnit (contents : SourceContents) (useCache : Bool) (command : ReplayedCommand) :
    CompileResult TranslationUnit :=
  compile (toolchain.probe contents) (toolchain.backend contents) (fun _ => toolchain.parseBC)
    (toolchain.request useCache command)

-- The bitcode of a command that compiles.
def bitcodeOf (contents : SourceContents) (useCache : Bool) (command : ReplayedCommand) : Option Bytes :=
  let result := toolchain.compileUnit contents useCache command
  if result.success && result.module.isSome then some result.payload else none

def fragmentOf (contents : SourceContents) (command : ReplayedCommand) : Option Bytes :=
  toolchain.dependencyFile contents (compilerArgs (toolchain.request true command))

def store (cache : Files) (command : ReplayedCommand) (bitcode : Bytes) : Option Files :=
  (toolchain.fragmentOf cache.contents command).bind fun fragment =>
    IRCache.store toolchain.sha256 cache command.cached
      { code := bitcode, inputs := IRCache.inputsOf cache fragment } fragment

def reuse (state : RunState) (command : ReplayedCommand) (key : Bytes) : RunState :=
  { state with
    reusedUnits := state.reusedUnits + 1
    units := state.units ++
      [addFile toolchain.pathText toolchain.xxh3 (readEntry state.cache) command.1.file key] }

def keep (useCache : Bool) (state : RunState) (command : ReplayedCommand) (bitcode : Bytes) : RunState :=
  match if useCache then toolchain.store state.cache command bitcode else none with
  | some cache =>
      { state with
        cache := cache
        compiledUnits := state.compiledUnits + 1
        units := state.units ++
          [addFile toolchain.pathText toolchain.xxh3 (readEntry cache) command.1.file
            (toolchain.keyFor command)] }
  | none =>
      { state with
        compiledUnits := state.compiledUnits + 1
        units := state.units ++ [addUnit command.1.file bitcode] }

def compileCommand (useCache : Bool) (state : RunState) (command : ReplayedCommand) : RunState :=
  match if useCache then toolchain.reusable state.cache command else none with
  | some key => toolchain.reuse state command key
  | none =>
      match toolchain.bitcodeOf state.cache.contents useCache command with
      | none => { state with failedSources := state.failedSources ++ [command.1.file] }
      | some bitcode => toolchain.keep useCache state command bitcode

def compileAll (useCache : Bool) (cache : Files) (commands : List ReplayedCommand) : RunState :=
  commands.foldl (toolchain.compileCommand useCache) { cache := cache }

end Loop

section Analysis

variable (toolchain : Toolchain)

-- What the files of the units hold may change before each load. The module of a unit is the one its
-- first load gives.
def loadErrors (units : List SourceUnit) (reads : Pass → Nat → EntryReads) (pass : Pass) (number : Nat) :
    Option CrossTU.CompileError :=
  units[number]?.bind fun unit =>
    match unit.load toolchain.pathText toolchain.xxh3 toolchain.parseBC (reads pass number) with
    | .ok _ => none
    | .error error => some ⟨error.message⟩

def projectUnits (units : List SourceUnit) (reads : Pass → Nat → EntryReads) : List ProjectUnit :=
  units.mapIdx fun number unit => {
    identifier := unit.identifier
    module := ((unit.load toolchain.pathText toolchain.xxh3 toolchain.parseBC
      (reads .First number)).toOption).getD unreadModule }

-- A run of the coordinator over the units of a project.
abbrev AnalysisRun (rules : List RuleId) (units : List SourceUnit) (reads : Pass → Nat → EntryReads)
    (threads : Nat) :=
  ProjectRun rules (toolchain.projectUnits units reads) (toolchain.loadErrors units reads) threads

end Analysis

end Toolchain

inductive FailOn where
  | None
  | Error
  | Warning
  deriving DecidableEq, Repr

def kFindingsExitCode : Nat := 2

def gateExitCode (policy : FailOn) (summary : DiagnosticSummary) : Nat :=
  match policy with
  | .None => 0
  | .Error => if summary.error > 0 then kFindingsExitCode else 0
  | .Warning => if summary.error > 0 || summary.warning > 0 then kFindingsExitCode else 0

-- What the caller of a project run sees: the report, the lines beside it and the exit code.
structure ProjectOutcome where
  report : Option (List Diagnostic) := none
  errors : List String := []
  exitCode : Nat
  deriving DecidableEq

def skippedLines (state : RunState) (analysis : ScheduledAnalysis) : List String :=
  state.failedSources.map ("skipped (compilation failed): " ++ ·) ++
    (analysis.failedUnits.map fun unit =>
      "skipped (bitcode failed to load): " ++ unit.identifier ++ ": " ++ unit.error.message) ++
    analysis.skippedIncompatibleModules.map ("skipped (target ABI differs from the project): " ++ ·)

-- A partial project yields partial conclusions, and its run does not succeed.
def projectExitCode (failOn : FailOn) (state : RunState) (analysis : ScheduledAnalysis) : Nat :=
  if !state.failedSources.isEmpty || !analysis.failedUnits.isEmpty then 1
  else gateExitCode failOn (summarize analysis.report)

def projectOutcome (databasePath : String) (failOn : FailOn) (state : RunState)
    (analysis : ScheduledAnalysis) : ProjectOutcome :=
  if state.units.isEmpty then
    { errors := ["no unit of '" ++ databasePath ++ "' could be compiled"], exitCode := 1 }
  else
    { report := some analysis.report
      errors := skippedLines state analysis
      exitCode := projectExitCode failOn state analysis }

end ConcurrencyAnalyzer.Project
