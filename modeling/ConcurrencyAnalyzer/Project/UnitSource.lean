import ConcurrencyAnalyzer.Project.Compiler
import ConcurrencyAnalyzer.IRCache.Cache
import ConcurrencyAnalyzer.CrossTU.WorkerPool

namespace ConcurrencyAnalyzer.Project

open IRCache (Bytes)
open FactsBuilder CrossTU

-- What reading the bitcode of an entry gives at some moment: its bytes, or the text of the system's.
abbrev EntryReads := Bytes → Except String Bytes

-- A file is known by the key of its entry. `error` says why it could not be read when it was added.
structure FileBitcode where
  path : Bytes
  size : Nat := 0
  digest : UInt64 := 0
  error : CompileError := {}
  deriving DecidableEq

structure SourceUnit where
  identifier : String
  bitcode : Bytes := []
  file : Option FileBitcode := none
  deriving DecidableEq

def bitcodeReadError (message : String) : CompileError :=
  { code := .BitcodeReadFailed, phase := .IRParse, message := message }

section Source

variable (pathText : Bytes → String) (xxh3 : Bytes → UInt64)

def cannotRead (path : Bytes) (error : String) : CompileError :=
  bitcodeReadError ("cannot read bitcode from '" ++ pathText path ++ "': " ++ error)

def changedSince (path : Bytes) : CompileError :=
  bitcodeReadError ("bitcode in '" ++ pathText path ++ "' changed since the unit was added")

def addUnit (identifier : String) (bitcode : Bytes) : SourceUnit :=
  { identifier := identifier, bitcode := bitcode }

def addFile (reads : EntryReads) (identifier : String) (path : Bytes) : SourceUnit where
  identifier := identifier
  file := some (match reads path with
    | .ok bytes => { path := path, size := bytes.length, digest := xxh3 bytes }
    | .error error => { path := path, error := cannotRead pathText path error })

-- The bytes a unit is parsed from.
def SourceUnit.bytes (unit : SourceUnit) (reads : EntryReads) : Except CompileError Bytes :=
  match unit.file with
  | none => .ok unit.bitcode
  | some file =>
      if file.error.hasError then .error file.error
      else
        match reads file.path with
        | .error error => .error (cannotRead pathText file.path error)
        | .ok bytes =>
            if bytes.length ≠ file.size || xxh3 bytes ≠ file.digest then
              .error (changedSince pathText file.path)
            else .ok bytes

variable (parseBC : Bytes → Except CompileError TranslationUnit)

def SourceUnit.load (unit : SourceUnit) (reads : EntryReads) : Except CompileError TranslationUnit :=
  (unit.bytes pathText xxh3 reads).bind parseBC

-- What the unit was added with is told apart from what its file may hold later.
def SourceUnit.Recorded (unit : SourceUnit) (original : Bytes) : Prop :=
  match unit.file with
  | none => unit.bitcode = original
  | some file => file.error.hasError = false ∧ file.size = original.length ∧ file.digest = xxh3 original

def SourceUnit.NoCollision (unit : SourceUnit) (original : Bytes) (reads : EntryReads) : Prop :=
  ∀ file ∈ unit.file, ∀ bytes, reads file.path = .ok bytes → bytes.length = original.length →
    xxh3 bytes = xxh3 original → bytes = original

-- The file of the unit holds what it held when the unit was added.
def SourceUnit.Kept (unit : SourceUnit) (original : Bytes) (reads : EntryReads) : Prop :=
  ∀ file ∈ unit.file, reads file.path = .ok original

end Source

section Loads

variable {pathText : Bytes → String} {xxh3 : Bytes → UInt64} {unit : SourceUnit} {original : Bytes}
  {reads : EntryReads}

theorem recorded_addUnit (identifier : String) (bitcode : Bytes) :
    (addUnit identifier bitcode).Recorded xxh3 bitcode := rfl

theorem recorded_addFile {path : Bytes} (identifier : String) (h : reads path = .ok original) :
    (addFile pathText xxh3 reads identifier path).Recorded xxh3 original := by
  unfold addFile SourceUnit.Recorded
  simp [h, CompileError.hasError]

-- Whatever became of the file, a unit is read as it was added or not at all.
theorem bytes_of_recorded (hrecorded : unit.Recorded xxh3 original)
    (hdistinct : unit.NoCollision xxh3 original reads) :
    unit.bytes pathText xxh3 reads = .ok original ∨
      ∃ error, unit.bytes pathText xxh3 reads = .error error := by
  unfold SourceUnit.Recorded at hrecorded
  unfold SourceUnit.bytes
  cases hfile : unit.file with
  | none =>
      rw [hfile] at hrecorded
      exact .inl (congrArg Except.ok hrecorded)
  | some file =>
      simp only [hfile] at hrecorded
      obtain ⟨herror, hsize, hdigest⟩ := hrecorded
      simp only [herror, Bool.false_eq_true, if_false]
      cases hread : reads file.path with
      | error error => exact .inr ⟨_, rfl⟩
      | ok bytes =>
          simp only [Bool.or_eq_true, decide_eq_true_eq, ne_eq]
          by_cases hchanged : ¬bytes.length = file.size ∨ ¬xxh3 bytes = file.digest
          · rw [if_pos hchanged]
            exact .inr ⟨_, rfl⟩
          · rw [if_neg hchanged]
            rw [not_or, not_not, not_not, hsize, hdigest] at hchanged
            exact .inl (congrArg Except.ok (hdistinct file hfile bytes hread hchanged.1 hchanged.2))

theorem bytes_of_kept (hrecorded : unit.Recorded xxh3 original) (hkept : unit.Kept original reads) :
    unit.bytes pathText xxh3 reads = .ok original := by
  unfold SourceUnit.Recorded at hrecorded
  unfold SourceUnit.bytes
  cases hfile : unit.file with
  | none =>
      rw [hfile] at hrecorded
      exact congrArg Except.ok hrecorded
  | some file =>
      simp only [hfile] at hrecorded
      obtain ⟨herror, hsize, hdigest⟩ := hrecorded
      simp [herror, hkept file hfile, hsize, hdigest]

end Loads

end ConcurrencyAnalyzer.Project
