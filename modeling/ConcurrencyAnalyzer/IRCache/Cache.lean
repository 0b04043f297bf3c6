import ConcurrencyAnalyzer.Library.Delimiter
import Mathlib.Data.List.Basic
import Mathlib.Logic.Function.Basic

namespace ConcurrencyAnalyzer.IRCache

-- Files, paths and flags are byte strings.
abbrev Bytes := List UInt8

def newline : UInt8 := 10
def tab : UInt8 := 9
def carriageReturn : UInt8 := 13
def space : UInt8 := 32
def hash : UInt8 := 35
def colon : UInt8 := 58
def backslash : UInt8 := 92

-- No path or flag holds the byte that separates them in the key.
structure CompileCommand where
  file : Bytes
  directory : Bytes := []
  arguments : List Bytes := []
  fileSeparable : 0 ∉ file := by decide
  argumentsSeparable : ∀ argument ∈ arguments, 0 ∉ argument := by decide

-- Bitcode, with what the compiler read to make it: each dependency and what it held.
structure Bitcode where
  code : Bytes := []
  inputs : List (Bytes × Bytes)
  deriving DecidableEq

section Dependencies

def isBlank (character : UInt8) : Bool :=
  character = space || character = tab || character = newline || character = carriageReturn

def flush (current : Bytes) : List Bytes :=
  if current = [] then [] else [current]

-- What stands past the colon, where a backslash may join two characters.
def prerequisites (current : Bytes) : Bytes → List Bytes
  | [] => flush current
  | [character] => if isBlank character then flush current else flush (current ++ [character])
  | character :: escaped :: rest =>
      if character = backslash ∧ escaped = newline then flush current ++ prerequisites [] rest
      else if character = backslash ∧ (escaped = space ∨ escaped = backslash ∨ escaped = hash) then
        prerequisites (current ++ [escaped]) rest
      else if isBlank character then flush current ++ prerequisites [] (escaped :: rest)
      else prerequisites (current ++ [character]) (escaped :: rest)

def parseDependencyFile (contents : Bytes) : List Bytes :=
  match contents.dropWhile (· ≠ colon) with
  | [] => []
  | _ :: rest => prerequisites [] rest

-- The lines of a text. What follows the last newline counts as one.
def linesFrom (current : Bytes) : Bytes → List Bytes
  | [] => [current]
  | character :: rest =>
      if character = newline then current :: linesFrom [] rest
      else linesFrom (current ++ [character]) rest

def listedPaths (dependencyList : Bytes) : List Bytes :=
  (linesFrom [] dependencyList).filter (· ≠ [])

def dependencyListOf (dependencies : List Bytes) : Bytes :=
  dependencies.flatMap (· ++ [newline])

end Dependencies

-- The three files of an entry.
structure CacheEntry where
  bitcode : Option Bitcode := none
  dependencies : Option Bytes := none
  stamp : Option Bytes := none

-- The dependency files, and the entries by key.
structure Files where
  contents : Bytes → Option Bytes
  entries : Bytes → CacheEntry := fun _ => {}

def hexDigit (value : Nat) : UInt8 :=
  if value < 10 then 48 + value.toUInt8 else 87 + value.toUInt8

def toHex (digest : List UInt8) : Bytes :=
  digest.flatMap fun byte => [hexDigit (byte.toNat / 16), hexDigit (byte.toNat % 16)]

-- The hash is the library's.
section Operations

variable (sha256 : Bytes → List UInt8)

def keyMaterial (command : CompileCommand) : Bytes :=
  command.file ++ [0] ++ command.arguments.flatMap (· ++ [0])

def keyFor (command : CompileCommand) : Bytes :=
  toHex (sha256 (keyMaterial command))

-- What each file holds, or nothing where one cannot be read.
def readAll (files : Files) (paths : List Bytes) : Option (List Bytes) :=
  paths.mapM files.contents

-- One hash over all contents, one after the other.
def stampOf (contents : List Bytes) : Bytes :=
  toHex (sha256 contents.flatten)

-- The key of the entry whose bitcode is returned.
def lookupPath (files : Files) (command : CompileCommand) : Option Bytes :=
  let key := keyFor sha256 command
  match (files.entries key).dependencies, (files.entries key).stamp with
  | some dependencyList, some storedStamp =>
      (readAll files (listedPaths dependencyList)).bind fun contents =>
        if stampOf sha256 contents = storedStamp ∧ (files.entries key).bitcode.isSome then some key
        else none
  | _, _ => none

-- What a store is about to write.
structure StoredEntry where
  key : Bytes
  bitcode : Bitcode
  dependencyList : Bytes
  stamp : Bytes
  deriving DecidableEq

def prepareStore (files : Files) (command : CompileCommand) (bitcode : Bitcode) (fragment : Bytes) :
    Option StoredEntry :=
  let dependencies := parseDependencyFile fragment
  if dependencies = [] then none
  else
    (readAll files dependencies).map fun contents =>
      { key := keyFor sha256 command
        bitcode := bitcode
        dependencyList := dependencyListOf dependencies
        stamp := stampOf sha256 contents }

-- The files of an entry, in the order a store writes them.
inductive EntryFile where
  | bitcode
  | dependencies
  | stamp
  deriving DecidableEq, Repr

def CacheEntry.write (entry : CacheEntry) (stored : StoredEntry) : EntryFile → CacheEntry
  | .bitcode => { entry with bitcode := some stored.bitcode }
  | .dependencies => { entry with dependencies := some stored.dependencyList }
  | .stamp => { entry with stamp := some stored.stamp }

def writeFile (files : Files) (stored : StoredEntry) (file : EntryFile) : Files :=
  { files with
    entries := Function.update files.entries stored.key
      ((files.entries stored.key).write stored file) }

-- A store that nothing interrupts.
def store (files : Files) (command : CompileCommand) (bitcode : Bitcode) (fragment : Bytes) :
    Option Files :=
  (prepareStore sha256 files command bitcode fragment).map fun stored =>
    [EntryFile.bitcode, .dependencies, .stamp].foldl (fun files file => writeFile files stored file) files

end Operations

section Texts

theorem hexDigit_injective : ∀ value < 16, ∀ other < 16, hexDigit value = hexDigit other →
    value = other := by
  decide

theorem toHex_injective : Function.Injective toHex := by
  intro digest
  induction digest with
  | nil =>
      intro other h
      cases other with
      | nil => rfl
      | cons byte rest => simp [toHex] at h
  | cons byte rest ih =>
      intro other h
      cases other with
      | nil => simp [toHex] at h
      | cons byte' rest' =>
          simp only [toHex, List.flatMap_cons, List.cons_append, List.nil_append,
            List.cons.injEq] at h
          obtain ⟨hhigh, hlow, hrest⟩ := h
          have hlt : byte.toNat < 256 := byte.toNat_lt
          have hlt' : byte'.toNat < 256 := byte'.toNat_lt
          have hhigh := hexDigit_injective _ (by omega) _ (by omega) hhigh
          have hlow := hexDigit_injective _ (by omega) _ (by omega) hlow
          have hbyte : byte = byte' := UInt8.toNat.inj (by omega)
          rw [hbyte, ih hrest]

-- A byte that ends each field, and stands in none, tells the fields apart.
theorem flatMap_terminated_injective {ending : UInt8} {fields others : List Bytes}
    (hfields : ∀ field ∈ fields, ending ∉ field) (hothers : ∀ field ∈ others, ending ∉ field)
    (h : fields.flatMap (· ++ [ending]) = others.flatMap (· ++ [ending])) : fields = others := by
  induction fields generalizing others with
  | nil =>
      cases others with
      | nil => rfl
      | cons field rest => simp at h
  | cons field fields ih =>
      cases others with
      | nil => simp at h
      | cons other others =>
          rw [List.forall_mem_cons] at hfields hothers
          simp only [List.flatMap_cons, List.append_assoc, List.singleton_append] at h
          obtain ⟨hfield, hrest⟩ := Library.Delimiter.split_single hfields.1 hothers.1 h
          rw [hfield, ih hfields.2 hothers.2 hrest]

-- The file and the flags can be read back from what the key is made of.
theorem keyMaterial_injective {command other : CompileCommand}
    (h : keyMaterial command = keyMaterial other) :
    command.file = other.file ∧ command.arguments = other.arguments := by
  unfold keyMaterial at h
  simp only [List.append_assoc, List.singleton_append] at h
  obtain ⟨hfile, harguments⟩ := Library.Delimiter.split_single command.fileSeparable
    other.fileSeparable h
  exact ⟨hfile, flatMap_terminated_injective command.argumentsSeparable other.argumentsSeparable
    harguments⟩

theorem keyFor_injective {sha256 : Bytes → List UInt8} (hsha : Function.Injective sha256)
    {command other : CompileCommand} (h : keyFor sha256 command = keyFor sha256 other) :
    command.file = other.file ∧ command.arguments = other.arguments :=
  keyMaterial_injective (hsha (toHex_injective h))

-- A path of a dependency list is one line of a file.
def IsLine (path : Bytes) : Prop := path ≠ [] ∧ newline ∉ path

theorem isLine_flush {current : Bytes} (h : newline ∉ current) : ∀ path ∈ flush current, IsLine path := by
  unfold flush
  split
  · simp
  · intro path hpath
    obtain rfl := List.mem_singleton.mp hpath
    exact ⟨‹_›, h⟩

theorem isLine_prerequisites (current text : Bytes) (h : newline ∉ current) :
    ∀ path ∈ prerequisites current text, IsLine path := by
  have hpush {current : Bytes} {character : UInt8} (hcurrent : newline ∉ current)
      (hcharacter : character ≠ newline) : newline ∉ current ++ [character] := by
    simp [hcurrent, Ne.symm hcharacter]
  fun_induction prerequisites current text with
  | case1 current => exact isLine_flush h
  | case2 current character hblank => exact isLine_flush h
  | case3 current character hblank =>
      refine isLine_flush (hpush h ?_)
      rintro rfl
      exact hblank (by decide)
  | case4 current character escaped rest hjoined ih =>
      intro path hpath
      rcases List.mem_append.mp hpath with hpath | hpath
      · exact isLine_flush h path hpath
      · exact ih (by simp) path hpath
  | case5 current character escaped rest hjoined hescaped ih =>
      refine ih (hpush h ?_)
      rintro rfl
      exact absurd hescaped.2 (by decide)
  | case6 current character escaped rest hjoined hescaped hblank ih =>
      intro path hpath
      rcases List.mem_append.mp hpath with hpath | hpath
      · exact isLine_flush h path hpath
      · exact ih (by simp) path hpath
  | case7 current character escaped rest hjoined hescaped hblank ih =>
      refine ih (hpush h ?_)
      rintro rfl
      exact hblank (by decide)

theorem isLine_parseDependencyFile (contents : Bytes) :
    ∀ path ∈ parseDependencyFile contents, IsLine path := by
  unfold parseDependencyFile
  split
  · simp
  · exact isLine_prerequisites [] _ (by simp)

theorem linesFrom_append {path : Bytes} (h : newline ∉ path) (current rest : Bytes) :
    linesFrom current (path ++ newline :: rest) = (current ++ path) :: linesFrom [] rest := by
  induction path generalizing current with
  | nil => simp [linesFrom]
  | cons character path ih =>
      rw [List.mem_cons, not_or] at h
      rw [List.cons_append, linesFrom, if_neg (Ne.symm h.1), ih h.2]
      simp

-- A lookup reads the very paths a store wrote down.
theorem listedPaths_dependencyListOf {dependencies : List Bytes}
    (h : ∀ path ∈ dependencies, IsLine path) :
    listedPaths (dependencyListOf dependencies) = dependencies := by
  induction dependencies with
  | nil => decide
  | cons path rest ih =>
      rw [List.forall_mem_cons] at h
      have hlist : dependencyListOf (path :: rest) = path ++ newline :: dependencyListOf rest := by
        simp [dependencyListOf]
      rw [listedPaths, hlist, linesFrom_append h.1.2, List.nil_append, List.filter_cons,
        if_pos (by simpa using h.1.1)]
      exact congrArg (path :: ·) (ih h.2)

end Texts

end ConcurrencyAnalyzer.IRCache
