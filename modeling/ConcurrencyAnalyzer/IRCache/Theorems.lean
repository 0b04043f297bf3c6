import ConcurrencyAnalyzer.IRCache.Cache
import Mathlib.Data.List.Forall2

namespace ConcurrencyAnalyzer.IRCache

variable {sha256 : Bytes → List UInt8}

theorem readAll_eq_some {files : Files} {paths contents : List Bytes} :
    readAll files paths = some contents ↔
      List.Forall₂ (fun path held => files.contents path = some held) paths contents := by
  induction paths generalizing contents with
  | nil =>
      rw [List.forall₂_nil_left_iff]
      simp [readAll, eq_comm]
  | cons path paths ih =>
      constructor
      · intro h
        simp only [readAll, List.mapM_cons, Option.bind_eq_bind, Option.bind_eq_some_iff,
          Option.pure_def, Option.some.injEq] at h
        obtain ⟨held, hheld, rest, hrest, rfl⟩ := h
        exact .cons hheld (ih.mp hrest)
      · rintro (_ | ⟨hheld, hrest⟩)
        have hread := ih.mpr hrest
        unfold readAll at hread ⊢
        simp [List.mapM_cons, hheld, hread]

theorem prepareStore_eq_some {files : Files} {command : CompileCommand} {bitcode : Bitcode}
    {fragment : Bytes} {stored : StoredEntry}
    (h : prepareStore sha256 files command bitcode fragment = some stored) :
    ∃ contents, readAll files (parseDependencyFile fragment) = some contents ∧
      stored =
        { key := keyFor sha256 command
          bitcode := bitcode
          dependencyList := dependencyListOf (parseDependencyFile fragment)
          stamp := stampOf sha256 contents } := by
  simp only [prepareStore] at h
  split at h
  · exact absurd h (by simp)
  · obtain ⟨contents, hcontents, rfl⟩ := Option.map_eq_some_iff.mp h
    exact ⟨contents, hcontents, rfl⟩

theorem entries_store {files after : Files} {command : CompileCommand} {bitcode : Bitcode}
    {fragment : Bytes} (h : store sha256 files command bitcode fragment = some after) :
    ∃ contents, readAll files (parseDependencyFile fragment) = some contents ∧
      after.entries (keyFor sha256 command) =
        { bitcode := some bitcode
          dependencies := some (dependencyListOf (parseDependencyFile fragment))
          stamp := some (stampOf sha256 contents) } := by
  obtain ⟨stored, hstored, rfl⟩ := Option.map_eq_some_iff.mp h
  obtain ⟨contents, hcontents, rfl⟩ := prepareStore_eq_some hstored
  exact ⟨contents, hcontents, by simp [writeFile, CacheEntry.write]⟩

-- A hit has read every listed dependency, and found the stamp in what they hold.
theorem lookupPath_eq_some {files : Files} {command : CompileCommand} {key : Bytes}
    (h : lookupPath sha256 files command = some key) :
    key = keyFor sha256 command ∧ ∃ dependencyList contents,
      (files.entries key).dependencies = some dependencyList ∧
      readAll files (listedPaths dependencyList) = some contents ∧
      (files.entries key).stamp = some (stampOf sha256 contents) ∧
      (files.entries key).bitcode.isSome = true := by
  simp only [lookupPath] at h
  split at h
  · rename_i dependencyList storedStamp hdependencies hstamp
    obtain ⟨contents, hcontents, hkey⟩ := Option.bind_eq_some_iff.mp h
    split at hkey
    · rename_i hvalid
      obtain rfl := Option.some_inj.mp hkey
      exact ⟨rfl, dependencyList, contents, hdependencies, hcontents, by rw [hstamp, hvalid.1], hvalid.2⟩
    · exact absurd hkey (by simp)
  · exact absurd h (by simp)

-- One stamp means one text, however it is split over the files.
theorem flatten_of_stampOf (hsha : Function.Injective sha256) {contents others : List Bytes}
    (h : stampOf sha256 contents = stampOf sha256 others) : contents.flatten = others.flatten :=
  hsha (toHex_injective h)

theorem contents_eq_iff {files after : Files} {paths contents others : List Bytes}
    (hcontents : readAll files paths = some contents) (hothers : readAll after paths = some others) :
    (∀ path ∈ paths, after.contents path = files.contents path) ↔ others = contents := by
  rw [readAll_eq_some] at hcontents hothers
  induction hcontents generalizing others with
  | nil =>
      obtain _ | _ := hothers
      simp
  | cons hheld _ ih =>
      obtain _ | ⟨hother, hrest⟩ := hothers
      rw [List.forall_mem_cons, ih hrest, hheld, hother, Option.some.injEq, List.cons.injEq]

theorem lengths_eq_iff {files after : Files} {paths contents others : List Bytes}
    (hcontents : readAll files paths = some contents) (hothers : readAll after paths = some others) :
    (∀ path ∈ paths, (after.contents path).map List.length = (files.contents path).map List.length) ↔
      others.map List.length = contents.map List.length := by
  rw [readAll_eq_some] at hcontents hothers
  induction hcontents generalizing others with
  | nil =>
      obtain _ | _ := hothers
      simp
  | cons hheld _ ih =>
      obtain _ | ⟨hother, hrest⟩ := hothers
      rw [List.forall_mem_cons, ih hrest, hheld, hother, Option.map_some, Option.map_some,
        Option.some.injEq, List.map_cons, List.map_cons, List.cons.injEq]

def SameCommand (command other : CompileCommand) : Prop :=
  command.file = other.file ∧ command.arguments = other.arguments ∧
    command.directory = other.directory

-- A hit on an entry a store has left means that nothing changed exactly where the two commands run in
-- one directory, and no dependency is longer or shorter than it was.
theorem hit_unchanged_iff (sha256 : Bytes → List UInt8) (hsha : Function.Injective sha256)
    (before stored after : Files) (command other : CompileCommand) (bitcode : Bitcode)
    (fragment : Bytes) (hstore : store sha256 before command bitcode fragment = some stored)
    (hentry : after.entries (keyFor sha256 command) = stored.entries (keyFor sha256 command))
    (hhit : lookupPath sha256 after other = some (keyFor sha256 command)) :
    (SameCommand other command ∧ ∀ path ∈ parseDependencyFile fragment,
        after.contents path = before.contents path) ↔
      other.directory = command.directory ∧ ∀ path ∈ parseDependencyFile fragment,
        (after.contents path).map List.length = (before.contents path).map List.length := by
  obtain ⟨contents, hcontents, hstored⟩ := entries_store hstore
  obtain ⟨hkey, dependencyList, others, hdependencies, hothers, hstamp, _⟩ := lookupPath_eq_some hhit
  obtain ⟨hfile, harguments⟩ := keyFor_injective hsha hkey.symm
  rw [hentry, hstored] at hdependencies hstamp
  obtain rfl := Option.some_inj.mp hdependencies
  rw [listedPaths_dependencyListOf (isLine_parseDependencyFile fragment)] at hothers
  have hflatten := flatten_of_stampOf hsha (Option.some_inj.mp hstamp)
  rw [contents_eq_iff hcontents hothers, lengths_eq_iff hcontents hothers, List.eq_iff_flatten_eq,
    SameCommand]
  constructor
  · rintro ⟨⟨_, _, hdirectory⟩, _, hlengths⟩
    exact ⟨hdirectory, hlengths⟩
  · rintro ⟨hdirectory, hlengths⟩
    exact ⟨⟨hfile, harguments, hdirectory⟩, hflatten.symm, hlengths⟩

-- The dependency list `u: a b`, and the command that compiles `u`.
def fragmentOfTwo : Bytes := [117, 58, 32, 97, 32, 98]

def commandOfU : CompileCommand where
  file := [117]

def twoFiles (first second : Bytes) : Bytes → Option Bytes := fun path =>
  if path = [97] then some first else if path = [98] then some second else none

def bitcodeOfTwo (first second : Bytes) : Bitcode where
  inputs := [([97], first), ([98], second)]

-- What a store of `u` leaves where `a` and `b` hold these texts.
def storedTwo (sha256 : Bytes → List UInt8) (first second : Bytes) : Files where
  contents := twoFiles first second
  entries := Function.update (fun _ => {}) (keyFor sha256 commandOfU)
    { bitcode := some (bitcodeOfTwo first second)
      dependencies := some (dependencyListOf [[97], [98]])
      stamp := some (stampOf sha256 [first, second]) }

theorem readAll_twoFiles (first second : Bytes) (entries : Bytes → CacheEntry) :
    readAll ⟨twoFiles first second, entries⟩ [[97], [98]] = some [first, second] := by
  simp [readAll, twoFiles]

theorem store_twoFiles (sha256 : Bytes → List UInt8) (first second : Bytes) :
    store sha256 ⟨twoFiles first second, fun _ => {}⟩ commandOfU (bitcodeOfTwo first second)
      fragmentOfTwo = some (storedTwo sha256 first second) := by
  have hparse : parseDependencyFile fragmentOfTwo = [[97], [98]] := by decide
  simp [store, prepareStore, hparse, readAll_twoFiles, writeFile, CacheEntry.write, storedTwo]

theorem lookupPath_twoFiles (sha256 : Bytes → List UInt8) {first second first' second' : Bytes}
    (h : first ++ second = first' ++ second') :
    lookupPath sha256 ⟨twoFiles first' second', (storedTwo sha256 first second).entries⟩ commandOfU =
      some (keyFor sha256 commandOfU) := by
  have hlisted : listedPaths (dependencyListOf [[97], [98]]) = [[97], [98]] := by decide
  have hstamp : stampOf sha256 [first', second'] = stampOf sha256 [first, second] := by
    simp [stampOf, h]
  simp [lookupPath, storedTwo, hlisted, readAll_twoFiles, hstamp]

-- The byte `x` moves from the end of one dependency to the start of the next, and the entry still
-- counts as valid, whatever the hash.
theorem moved_text_hits :
    [97] ∈ parseDependencyFile fragmentOfTwo ∧ twoFiles [] [120] [97] ≠ twoFiles [120] [] [97] ∧
      ∀ sha256 : Bytes → List UInt8,
        store sha256 ⟨twoFiles [120] [], fun _ => {}⟩ commandOfU (bitcodeOfTwo [120] [])
            fragmentOfTwo = some (storedTwo sha256 [120] []) ∧
          lookupPath sha256 ⟨twoFiles [] [120], (storedTwo sha256 [120] []).entries⟩ commandOfU =
            some (keyFor sha256 commandOfU) :=
  ⟨by decide, by decide, fun sha256 =>
    ⟨store_twoFiles sha256 [120] [], lookupPath_twoFiles sha256 rfl⟩⟩

theorem untouched_files_hit :
    SameCommand commandOfU commandOfU ∧ ∀ path ∈ parseDependencyFile fragmentOfTwo,
      twoFiles [120] [121] path = twoFiles [120] [121] path := by
  refine (hit_unchanged_iff id Function.injective_id ⟨twoFiles [120] [121], fun _ => {}⟩
    (storedTwo id [120] [121]) (storedTwo id [120] [121]) commandOfU commandOfU
    (bitcodeOfTwo [120] [121]) fragmentOfTwo (store_twoFiles id [120] [121]) rfl
    (lookupPath_twoFiles id rfl)).mpr ⟨rfl, fun path _ => rfl⟩

end ConcurrencyAnalyzer.IRCache
