import ConcurrencyAnalyzer.Project.Run
import ConcurrencyAnalyzer.Library.FirstMaximum
import ConcurrencyAnalyzer.Library.OrderedMap
import ConcurrencyAnalyzer.Library.PosixPath

namespace ConcurrencyAnalyzer.Project

open Library

-- A value of a document as far as the loader looks at it.
inductive Json where
  | object (fields : List (String × Json))
  | array (items : List Json)
  | text (value : String)
  | other

def Json.texts? : List Json → Option (List String)
  | [] => some []
  | .text value :: rest => (Json.texts? rest).map (value :: ·)
  | _ :: _ => none

def getString (fields : List (String × Json)) (key : String) : Option String :=
  match fields.find? (·.1 = key) with
  | some (_, .text value) => some value
  | _ => none

def getArray (fields : List (String × Json)) (key : String) : Option (List Json) :=
  match fields.find? (·.1 = key) with
  | some (_, .array items) => some items
  | _ => none

structure DatabaseCommand where
  file : PosixPath
  directory : PosixPath
  arguments : List String
  deriving DecidableEq

def DatabaseCommand.replayed (command : DatabaseCommand) : CompileCommand where
  file := command.file.text
  directory := command.directory.text
  arguments := command.arguments

def kSemanticOptionPrefixes : List String :=
  ["-I", "-isystem", "-D", "-std=", "--sysroot", "-f", "-m", "-include"]

def isOutputOrDependencyOption (argument : String) : Bool :=
  argument ∈ ["-o", "-c", "-MD", "-MMD", "-MF", "-MT", "-MQ", "-MP"]

def takesSeparateValue (argument : String) : Bool := argument ∈ ["-o", "-MF", "-MT", "-MQ"]

def countSemanticOptions (arguments : List String) : Nat :=
  arguments.countP fun argument => kSemanticOptionPrefixes.any (ConcurrencyAnalyzer.CompileCommand.startsWith · argument)

def absolutePath (file directory : PosixPath) : PosixPath := (directory.join file).lexicallyNormal

def isOptimizationLevel (level : List Char) : Bool :=
  level = [] || level = "fast".toList ||
    (level.length = 1 && level.all fun ch => ch.isDigit || ch = 's' || ch = 'z' || ch = 'g')

def isOptimizationOption (argument : String) : Bool :=
  argument = "-flto" || ConcurrencyAnalyzer.CompileCommand.startsWith "-flto=" argument ||
    (ConcurrencyAnalyzer.CompileCommand.startsWith "-O" argument && isOptimizationLevel (argument.toList.drop 2))

-- What an argument alone says of whether it is replayed.
def isDropped (file directory : PosixPath) (argument : String) : Bool :=
  isOutputOrDependencyOption argument || (ConcurrencyAnalyzer.CompileCommand.startsWith "-o" argument && 2 < argument.length) ||
    isOptimizationOption argument || absolutePath (PosixPath.parse argument) directory = file

-- An option that takes the next argument as its value takes it along.
def replayableFrom (file directory : PosixPath) : List String → List String
  | [] => []
  | [argument] => if isDropped file directory argument then [] else [argument]
  | argument :: value :: rest =>
      if takesSeparateValue argument then replayableFrom file directory rest
      else if isDropped file directory argument then replayableFrom file directory (value :: rest)
      else argument :: replayableFrom file directory (value :: rest)

-- The first argument is the compiler.
def replayableArguments (raw : List String) (file directory : PosixPath) : List String :=
  replayableFrom file directory (raw.drop 1)

section Load

variable (parse : String → Except String Json) (tokenize : String → List String)

def readArguments (fields : List (String × Json)) : Except String (List String) :=
  match getArray fields "arguments" with
  | some items =>
      match Json.texts? items with
      | some texts => .ok texts
      | none => .error "compilation database: 'arguments' must hold strings"
  | none =>
      match getString fields "command" with
      | some command => .ok (tokenize command)
      | none => .error "compilation database: entry has neither 'arguments' nor 'command'"

def readEntryOf (value : Json) : Except String DatabaseCommand :=
  match value with
  | .object fields =>
      match getString fields "file", getString fields "directory" with
      | some file, some directory =>
          (readArguments tokenize fields).map fun raw =>
            let directory := (PosixPath.parse directory).lexicallyNormal
            let file := absolutePath (PosixPath.parse file) directory
            { file := file, directory := directory
              arguments := replayableArguments raw file directory }
      | _, _ => .error "compilation database: entry is missing 'file' or 'directory'"
  | _ => .error "compilation database: entries must be objects"

abbrev BestCommands := OrderedMap (Bool ×ₗ List String) DatabaseCommand

-- The entry that describes the source most completely, the first of those that do.
def better (command : DatabaseCommand) (present : Option DatabaseCommand) : DatabaseCommand :=
  FirstMaximum.better (fun command => countSemanticOptions command.arguments) command present

def keepBest (best : BestCommands) (command : DatabaseCommand) : BestCommands :=
  best.alter command.file.order (better command)

def loadFromFile (path : String) (contents : Option String) : Except String (List DatabaseCommand) :=
  match contents with
  | none => .error ("compilation database: cannot read " ++ path)
  | some contents =>
      match parse contents with
      | .error error => .error ("compilation database: " ++ error)
      | .ok (.array entries) =>
          (entries.mapM (readEntryOf tokenize)).map fun commands =>
            (commands.foldl keepBest OrderedMap.empty).entries.map Prod.snd
      | .ok _ => .error "compilation database: top level must be an array"

end Load

def findCommand (commands : List DatabaseCommand) (file : PosixPath) : Option DatabaseCommand :=
  commands.find? (·.file = file.lexicallyNormal)

section Selection

variable {commands : List DatabaseCommand} {command : DatabaseCommand} {file directory : PosixPath}

-- The first of the entries of its source with most semantic options.
def IsBest (commands : List DatabaseCommand) (command : DatabaseCommand) : Prop :=
  ∃ before after, commands = before ++ command :: after ∧
    (∀ other ∈ before, other.file = command.file →
      countSemanticOptions other.arguments < countSemanticOptions command.arguments) ∧
    ∀ other ∈ after, other.file = command.file →
      countSemanticOptions other.arguments ≤ countSemanticOptions command.arguments

theorem isBest_iff : IsBest commands command ↔
    FirstMaximum.IsFirst (fun command => countSemanticOptions command.arguments)
      (commands.filter fun other => other.file = command.file) command := by
  constructor
  · rintro ⟨before, after, rfl, hbefore, hafter⟩
    refine ⟨before.filter fun other => other.file = command.file,
      after.filter fun other => other.file = command.file, by simp, fun other hmem => ?_, fun other hmem => ?_⟩
    · obtain ⟨hmem, hfile⟩ := List.mem_filter.mp hmem
      exact hbefore other hmem (by simpa using hfile)
    · obtain ⟨hmem, hfile⟩ := List.mem_filter.mp hmem
      exact hafter other hmem (by simpa using hfile)
  · rintro ⟨before, after, hsplit, hbefore, hafter⟩
    obtain ⟨front, back, rfl, hfront, hback⟩ := List.filter_eq_append_iff.mp hsplit
    obtain ⟨skipped, rest, rfl, hskipped, -, hrest⟩ := List.filter_eq_cons_iff.mp hback
    refine ⟨front ++ skipped, rest, by simp, fun other hmem hfile => ?_, fun other hmem hfile => ?_⟩
    · rcases List.mem_append.mp hmem with hmem | hmem
      · exact hbefore other (hfront ▸ List.mem_filter.mpr ⟨hmem, by simpa using hfile⟩)
      · exact absurd hfile (by simpa using hskipped other hmem)
    · exact hafter other (hrest ▸ List.mem_filter.mpr ⟨hmem, by simpa using hfile⟩)

theorem find_keepBest (path : PosixPath) :
    (commands.foldl keepBest OrderedMap.empty).find path.order =
      (commands.filter fun command => command.file = path).foldl
        (FirstMaximum.keepBetter fun command => countSemanticOptions command.arguments) none := by
  have hfold := OrderedMap.find_foldl_alter (fun command : DatabaseCommand => command.file.order) better
    commands OrderedMap.empty path.order
  simp only [PosixPath.order_injective.eq_iff] at hfold
  exact hfold

theorem keys_keepBest : ∀ entry ∈ (commands.foldl keepBest OrderedMap.empty).entries,
    entry.1 = entry.2.file.order := by
  intro entry hmem
  have hfind := (OrderedMap.find_eq_some_iff _ entry.1 entry.2).mpr hmem
  have hfold := OrderedMap.find_foldl_alter (fun command : DatabaseCommand => command.file.order) better
    commands OrderedMap.empty entry.1
  have hfirst := FirstMaximum.foldl_keepBetter.mp (hfold.symm.trans hfind)
  exact (by simpa using (List.mem_filter.mp hfirst.mem).2 : entry.2.file.order = entry.1).symm

theorem mem_keepBest :
    command ∈ (commands.foldl keepBest OrderedMap.empty).entries.map Prod.snd ↔ IsBest commands command := by
  rw [isBest_iff, ← FirstMaximum.foldl_keepBetter, ← find_keepBest, OrderedMap.find_eq_some_iff, List.mem_map]
  constructor
  · rintro ⟨⟨key, found⟩, hmem, rfl⟩
    rwa [← keys_keepBest _ hmem]
  · exact fun hmem => ⟨_, hmem, rfl⟩

-- What is replayed is what no argument alone keeps from it, in order.
theorem replayableFrom_kept (raw : List String) : (replayableFrom file directory raw).Sublist raw ∧
    ∀ argument ∈ replayableFrom file directory raw, isDropped file directory argument = false := by
  fun_induction replayableFrom file directory raw with
  | case1 => simp
  | case2 argument hdropped => simp
  | case3 argument hkept => simpa using hkept
  | case4 argument value rest htakes ih => exact ⟨(ih.1.cons _).cons _, ih.2⟩
  | case5 argument value rest htakes hdropped ih => exact ⟨ih.1.cons _, ih.2⟩
  | case6 argument value rest htakes hkept ih =>
      exact ⟨ih.1.cons_cons _, List.forall_mem_cons.mpr ⟨by simpa using hkept, ih.2⟩⟩

end Selection

section Loaded

variable {parse : String → Except String Json} {tokenize : String → List String}

-- An entry as the loader leaves it.
structure DatabaseCommand.Clean (command : DatabaseCommand) : Prop where
  normal : command.file.lexicallyNormal = command.file
  replayed : ∀ argument ∈ command.arguments,
    isDropped command.file command.directory argument = false

theorem clean_of_readEntry {value : Json} {command : DatabaseCommand}
    (h : readEntryOf tokenize value = .ok command) : command.Clean := by
  unfold readEntryOf at h
  split at h
  · split at h
    · rename_i fields _ _ file directory _ _
      cases hraw : readArguments tokenize fields with
      | error error => simp [hraw, Except.map] at h
      | ok raw =>
          simp only [hraw, Except.map, Except.ok.injEq] at h
          subst h
          exact ⟨PosixPath.lexicallyNormal_idempotent _, (replayableFrom_kept _).2⟩
    · cases h
  · cases h

theorem forall₂_of_mapM {entries : List Json} {commands : List DatabaseCommand}
    (h : entries.mapM (readEntryOf tokenize) = .ok commands) :
    List.Forall₂ (fun entry command => readEntryOf tokenize entry = .ok command) entries commands := by
  induction entries generalizing commands with
  | nil =>
      rw [List.mapM_nil] at h
      cases h
      exact .nil
  | cons entry rest ih =>
      rw [List.mapM_cons] at h
      cases hentry : readEntryOf tokenize entry with
      | error error => rw [hentry] at h; cases h
      | ok command =>
          rw [hentry] at h
          cases hrest : rest.mapM (readEntryOf tokenize) with
          | error error => rw [hrest] at h; cases h
          | ok others =>
              rw [hrest] at h
              cases h
              exact .cons hentry (ih hrest)

theorem exists_best {read : List DatabaseCommand} {entry : DatabaseCommand} (h : entry ∈ read) :
    ∃ command, IsBest read command ∧ command.file = entry.file := by
  have hne : (read.filter fun command => command.file = entry.file) ≠ [] :=
    List.ne_nil_of_mem (List.mem_filter.mpr ⟨h, by simp⟩)
  obtain ⟨best, hbest⟩ := @FirstMaximum.foldl_keepBetter_isSome DatabaseCommand
    (fun command => countSemanticOptions command.arguments) _ hne
  have hfirst := FirstMaximum.foldl_keepBetter.mp hbest
  have hfile : best.file = entry.file := by simpa using (List.mem_filter.mp hfirst.mem).2
  rw [← hfile] at hfirst
  exact ⟨best, isBest_iff.mpr hfirst, hfile⟩

-- A database that loads has one command a source, in order: the first of the entries of the source that
-- say most of how it is read. A source is found under any spelling of its path.
theorem loadFromFile_exact (parse : String → Except String Json) (tokenize : String → List String)
    (path contents : String) (commands : List DatabaseCommand)
    (h : loadFromFile parse tokenize path (some contents) = .ok commands) :
    ∃ entries read, parse contents = .ok (.array entries) ∧
      List.Forall₂ (fun entry command => readEntryOf tokenize entry = .ok command) entries read ∧
      (commands.Pairwise fun command other => command.file.order < other.file.order) ∧
      (∀ command, command ∈ commands ↔ IsBest read command) ∧
      (∀ entry ∈ read, ∃ command ∈ commands, command.file = entry.file) ∧
      (∀ command ∈ commands, command.Clean) ∧
      ∀ spelled command, findCommand commands spelled = some command ↔
        command ∈ commands ∧ command.file = spelled.lexicallyNormal := by
  unfold loadFromFile at h
  simp only at h
  split at h
  · cases h
  · rename_i entries hparse
    cases hread : entries.mapM (readEntryOf tokenize) with
    | error error => rw [hread] at h; cases h
    | ok read =>
        rw [hread] at h
        obtain rfl := Except.ok.inj h
        have hforall := forall₂_of_mapM hread
        have hsorted : ((read.foldl keepBest OrderedMap.empty).entries.map Prod.snd).Pairwise
            fun command other => command.file.order < other.file.order := by
          rw [List.pairwise_map]
          refine (read.foldl keepBest OrderedMap.empty).sorted.imp_of_mem fun hmem hother hless => ?_
          rwa [keys_keepBest _ hmem, keys_keepBest _ hother] at hless
        refine ⟨entries, read, hparse, hforall, hsorted, fun command => mem_keepBest, fun entry hmem => ?_,
          fun command hmem => ?_, fun spelled command => ?_⟩
        · obtain ⟨command, hbest, hfile⟩ := exists_best hmem
          exact ⟨command, mem_keepBest.mpr hbest, hfile⟩
        · have hfirst := (isBest_iff.mp (mem_keepBest.mp hmem)).mem
          obtain ⟨index, hlt, hget⟩ := List.getElem_of_mem (List.mem_of_mem_filter hfirst)
          have hlt' : index < entries.length := hforall.length_eq ▸ hlt
          have hentry := hforall.get hlt' hlt
          rw [List.get_eq_getElem, List.get_eq_getElem, hget] at hentry
          exact clean_of_readEntry hentry
        · unfold findCommand
          constructor
          · intro hfind
            exact ⟨List.mem_of_find?_eq_some hfind, by simpa using List.find?_some hfind⟩
          · rintro ⟨hmem, hfile⟩
            have hnodup : (((read.foldl keepBest OrderedMap.empty).entries.map Prod.snd).map
                (·.file)).Nodup := by
              rw [List.Nodup, List.pairwise_map]
              exact hsorted.imp fun hless hsame => absurd (congrArg PosixPath.order hsame) hless.ne
            rw [← hfile]
            exact KeepFirst.find?_of_mem hnodup hmem
  · cases h

-- The second entry names the same source another way, and says more of it.
def twiceParse : String → Except String Json := fun _ =>
  .ok (.array [
    .object [("file", .text "a.c"), ("directory", .text "/p"), ("arguments", .array [.text "cc", .text "a.c"])],
    .object [("file", .text "/p/./b/../a.c"), ("directory", .text "/p"), ("command", .text "cc")]])

def twiceTokens : String → List String := fun _ => ["cc", "-DX", "-O2", "-o", "a.o", "/p/a.c"]

def twiceCommands : List DatabaseCommand :=
  (loadFromFile twiceParse twiceTokens "db" (some "")).toOption.getD []

theorem loadFromFile_exact_twice :
    twiceCommands = [⟨PosixPath.parse "/p/a.c", PosixPath.parse "/p", ["-DX"]⟩] ∧
      findCommand twiceCommands (PosixPath.parse "/p/q/../a.c") =
        some ⟨PosixPath.parse "/p/a.c", PosixPath.parse "/p", ["-DX"]⟩ := by
  have hload : loadFromFile twiceParse twiceTokens "db" (some "") = .ok twiceCommands := by rfl
  have hone : twiceCommands = [⟨PosixPath.parse "/p/a.c", PosixPath.parse "/p", ["-DX"]⟩] := by decide
  obtain ⟨-, -, -, -, -, -, -, -, hfind⟩ :=
    loadFromFile_exact twiceParse twiceTokens "db" "" twiceCommands hload
  exact ⟨hone, (hfind _ _).mpr ⟨by rw [hone]; simp, by decide⟩⟩

end Loaded

end ConcurrencyAnalyzer.Project
