import ConcurrencyAnalyzer.CompileCommand.Builder
import ConcurrencyAnalyzer.CompilerDiagnostics.Parser

namespace ConcurrencyAnalyzer.Project

inductive IRFormat where
  | LL
  | BC
  deriving DecidableEq, Repr

structure CompileRequest extends CompileCommand.CompileRequest where
  format : IRFormat := .BC
  instrument : Bool := false

inductive CompilePhase where
  | None
  | ValidateInput
  | BuildCommand
  | BackendCompile
  | IRParse
  deriving DecidableEq, Repr

inductive CompileErrc where
  | Success
  | InvalidRequest
  | InputFileAccessFailed
  | InputFileDoesNotExist
  | InputFileNotRegular
  | InputFileNotReadable
  | TemporaryBitcodeFileCreationFailed
  | BackendCompilationFailed
  | MissingIROutput
  | BitcodeReadFailed
  | IRParseFailed
  | BitcodeParseFailed
  deriving DecidableEq, Repr

def CompilePhase.label : CompilePhase → String
  | .None => "none"
  | .ValidateInput => "validate_input"
  | .BuildCommand => "build_command"
  | .BackendCompile => "backend_compile"
  | .IRParse => "ir_parse"

def CompileErrc.label : CompileErrc → String
  | .Success => "success"
  | .InvalidRequest => "invalid_request"
  | .InputFileAccessFailed => "input_file_access_failed"
  | .InputFileDoesNotExist => "input_file_does_not_exist"
  | .InputFileNotRegular => "input_file_not_regular"
  | .InputFileNotReadable => "input_file_not_readable"
  | .TemporaryBitcodeFileCreationFailed => "temporary_bitcode_file_creation_failed"
  | .BackendCompilationFailed => "backend_compilation_failed"
  | .MissingIROutput => "missing_ir_output"
  | .BitcodeReadFailed => "bitcode_read_failed"
  | .IRParseFailed => "ir_parse_failed"
  | .BitcodeParseFailed => "bitcode_parse_failed"

def CompileErrc.message : CompileErrc → String
  | .Success => "success"
  | .InvalidRequest => "invalid compile request"
  | .InputFileAccessFailed => "failed to access input file"
  | .InputFileDoesNotExist => "input file does not exist"
  | .InputFileNotRegular => "input path is not a regular file"
  | .InputFileNotReadable => "input file is not readable"
  | .TemporaryBitcodeFileCreationFailed => "failed to create temporary bitcode file"
  | .BackendCompilationFailed => "compiler backend failed"
  | .MissingIROutput => "compiler backend did not produce expected LLVM IR output"
  | .BitcodeReadFailed => "failed to read bitcode output"
  | .IRParseFailed => "failed to parse LLVM IR"
  | .BitcodeParseFailed => "failed to parse LLVM bitcode"

structure CompileError where
  code : CompileErrc := .Success
  phase : CompilePhase := .None
  message : String := ""
  deriving DecidableEq, Repr

def CompileError.hasError (error : CompileError) : Bool := error.code ≠ .Success

-- As the texts of a report name it.
def CompileError.named (error : CompileError) : CompilerDiagnostics.CompileError :=
  if error.hasError then {
    codeName := some error.code.label
    codeMessage := error.code.message
    phase := if error.phase = .None then none else some error.phase.label
    message := error.message }
  else { message := error.message }

-- What the file system says of the input: each question may fail with a text of the system's.
structure InputProbe where
  isPresent : Except String Bool
  isRegular : Except String Bool
  isReadable : Bool

structure BackendCompileOutput where
  success : Bool
  diagnostics : String := ""
  payload : List UInt8 := []

-- `payload` is the text or the bitcode that was asked for.
structure CompileResult (M : Type) where
  success : Bool := false
  diagnostics : String := ""
  error : CompileError := {}
  payload : List UInt8 := []
  module : Option M := none

def invalidInput (code : CompileErrc) (message : String) : Option CompileError :=
  some { code := code, phase := .ValidateInput, message := message }

def validateInputFile (probe : InputProbe) (inputFile : String) : Option CompileError :=
  match probe.isPresent with
  | .error message => invalidInput .InputFileAccessFailed ("'" ++ inputFile ++ "': " ++ message)
  | .ok false => invalidInput .InputFileDoesNotExist inputFile
  | .ok true =>
      match probe.isRegular with
      | .error message => invalidInput .InputFileAccessFailed ("'" ++ inputFile ++ "': " ++ message)
      | .ok false => invalidInput .InputFileNotRegular inputFile
      | .ok true => if probe.isReadable then none else invalidInput .InputFileNotReadable inputFile

-- The texts the two formats differ in.
def IRFormat.backendFailed : IRFormat → String
  | .LL => "backend failed in ll mode"
  | .BC => "backend failed in bc mode"

def IRFormat.emptyPayload : IRFormat → String
  | .LL => "compiler backend returned an empty IR payload in ll mode"
  | .BC => "compiler backend returned an empty bitcode payload in bc mode"

def IRFormat.parseFailed : IRFormat → CompileError
  | .LL => ⟨.IRParseFailed, .IRParse, "failed to parse LLVM IR in ll mode"⟩
  | .BC => ⟨.BitcodeParseFailed, .IRParse, "failed to parse LLVM bitcode in bc mode"⟩

def compilerArgs (request : CompileRequest) : List String :=
  match request.format with
  | .LL => (CompileCommand.buildLL request.toCompileRequest).map (·.text)
  | .BC => (CompileCommand.buildBC request.toCompileRequest).map (·.text)

section Compile

variable {M : Type} (probe : String → InputProbe)
  (backend : IRFormat → List String → Bool → BackendCompileOutput)
  (parse : IRFormat → List UInt8 → Except CompileError M)

-- A loader that gives no module and no error either is given one.
def parsePayload (format : IRFormat) (output : BackendCompileOutput) : CompileResult M :=
  let result : CompileResult M := { diagnostics := output.diagnostics, payload := output.payload }
  match parse format output.payload with
  | .ok module => { result with success := true, module := some module }
  | .error error => { result with error := if error.hasError then error else format.parseFailed }

def compile (request : CompileRequest) : CompileResult M :=
  if request.inputFile = "" then
    { error := ⟨.InvalidRequest, .ValidateInput, "input file is required"⟩ }
  else
    match validateInputFile (probe request.inputFile) request.inputFile with
    | some error => { error := error }
    | none =>
        let output := backend request.format (compilerArgs request) request.instrument
        if !output.success then
          { diagnostics := output.diagnostics
            error := ⟨.BackendCompilationFailed, .BackendCompile, request.format.backendFailed⟩ }
        else if output.payload = [] then
          { diagnostics := output.diagnostics
            error := ⟨.MissingIROutput, .BackendCompile, request.format.emptyPayload⟩ }
        else parsePayload parse request.format output

end Compile

section Results

variable {M : Type} {probe : String → InputProbe}
  {backend : IRFormat → List String → Bool → BackendCompileOutput}
  {parse : IRFormat → List UInt8 → Except CompileError M} {request : CompileRequest}

-- What a result can be. `error` says which stage stopped it, and nothing is parsed of what failed.
structure CompileResult.WellFormed (format : IRFormat) (parse : IRFormat → List UInt8 → Except CompileError M)
    (result : CompileResult M) : Prop where
  module : result.module.isSome = result.success
  error : result.error.hasError = !result.success
  parsed : ∀ module ∈ result.module, result.payload ≠ [] ∧ parse format result.payload = .ok module

theorem validateInputFile_hasError {probe : InputProbe} {inputFile : String} {error : CompileError}
    (h : validateInputFile probe inputFile = some error) : error.hasError = true := by
  unfold validateInputFile invalidInput at h
  repeat' split at h
  all_goals cases h
  all_goals rfl

theorem parsePayload_wellFormed {format : IRFormat} {output : BackendCompileOutput}
    (hpayload : output.payload ≠ []) : (parsePayload parse format output).WellFormed format parse := by
  unfold parsePayload
  cases hparse : parse format output.payload with
  | ok module =>
      refine ⟨rfl, rfl, ?_⟩
      rintro _ ⟨⟩
      exact ⟨hpayload, hparse⟩
  | error error =>
      refine ⟨rfl, ?_, by simp⟩
      by_cases herror : error.hasError = true
      · simp only [herror, if_true, Bool.not_false]
      · simp only [herror, Bool.false_eq_true, if_false, Bool.not_false]
        cases format <;> rfl

theorem compile_wellFormed : (compile probe backend parse request).WellFormed request.format parse := by
  unfold compile
  by_cases hinput : request.inputFile = ""
  · rw [if_pos hinput]
    exact ⟨rfl, rfl, by simp⟩
  · rw [if_neg hinput]
    cases hvalid : validateInputFile (probe request.inputFile) request.inputFile with
    | some error => exact ⟨rfl, validateInputFile_hasError hvalid, by simp⟩
    | none =>
        simp only
        split
        · exact ⟨rfl, rfl, by simp⟩
        · split
          · exact ⟨rfl, rfl, by simp⟩
          · exact parsePayload_wellFormed ‹_›

end Results

end ConcurrencyAnalyzer.Project
