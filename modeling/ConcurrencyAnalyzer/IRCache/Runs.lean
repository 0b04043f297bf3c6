import ConcurrencyAnalyzer.IRCache.Theorems

namespace ConcurrencyAnalyzer.IRCache

-- What a store read: each dependency and what it held.
abbrev Inputs := List (Bytes × Bytes)

-- A store under way, with the files it has still to write. One that was stopped never goes on.
structure PendingStore where
  stored : StoredEntry
  inputs : Inputs
  remaining : List EntryFile := [.bitcode, .dependencies, .stamp]

-- `origin` remembers what the store that last wrote a file had read.
structure State where
  files : Files
  stores : List PendingStore := []
  origin : Bytes → EntryFile → Option Inputs := fun _ _ => none

inductive Event where
  | edit (path : Bytes) (contents : Option Bytes)
  | begin (command : CompileCommand) (bitcode : Bitcode) (fragment : Bytes)
  | write (number : Nat)

section Steps

variable (sha256 : Bytes → List UInt8)

def inputsOf (files : Files) (fragment : Bytes) : Inputs :=
  (parseDependencyFile fragment).zip ((readAll files (parseDependencyFile fragment)).getD [])

def State.write (state : State) (number : Nat) (pending : PendingStore) (file : EntryFile)
    (rest : List EntryFile) : State where
  files := writeFile state.files pending.stored file
  stores := state.stores.set number { pending with remaining := rest }
  origin := Function.update state.origin pending.stored.key
    (Function.update (state.origin pending.stored.key) file (some pending.inputs))

def State.next (state : State) : Event → State
  | .edit path contents =>
      { state with
        files := { state.files with contents := Function.update state.files.contents path contents } }
  | .begin command bitcode fragment =>
      match prepareStore sha256 state.files command bitcode fragment with
      | none => state
      | some stored =>
          { state with
            stores := state.stores ++
              [{ stored := stored, inputs := inputsOf state.files fragment }] }
  | .write number =>
      match state.stores[number]? with
      | some pending =>
          match pending.remaining with
          | file :: rest => state.write number pending file rest
          | [] => state
      | none => state

-- A store is handed what the compiler made of the dependencies it is about to read.
def Meets (state : State) : Event → Prop
  | .begin _ bitcode fragment => bitcode.inputs = inputsOf state.files fragment
  | _ => True

inductive Reachable : State → Prop
  | initial (contents : Bytes → Option Bytes) : Reachable { files := { contents := contents } }
  | step {state : State} (event : Event) : Reachable state → Meets state event →
      Reachable (state.next sha256 event)

end Steps

-- The bitcode of an entry was made of what the listed dependencies hold now.
def CompiledFromNow (files : Files) (key : Bytes) : Prop :=
  ∃ bitcode dependencyList contents, (files.entries key).bitcode = some bitcode ∧
    (files.entries key).dependencies = some dependencyList ∧
    readAll files (listedPaths dependencyList) = some contents ∧
    bitcode.inputs = (listedPaths dependencyList).zip contents

-- The three files of the entry come from stores that had read the same, and no dependency is longer
-- or shorter than they found it.
structure LookupMeets (state : State) (key : Bytes) : Prop where
  bitcode : state.origin key .bitcode = state.origin key .stamp
  dependencies : state.origin key .dependencies = state.origin key .stamp
  lengths : ∀ inputs ∈ state.origin key .stamp, ∀ input ∈ inputs,
    (state.files.contents input.1).map List.length = some input.2.length

section Invariant

variable (sha256 : Bytes → List UInt8)

-- What a store writes is told by what it read.
structure MadeOf (stored : StoredEntry) (inputs : Inputs) : Prop where
  bitcode : stored.bitcode.inputs = inputs
  lines : ∀ path ∈ inputs.map Prod.fst, IsLine path
  dependencyList : stored.dependencyList = dependencyListOf (inputs.map Prod.fst)
  stamp : stored.stamp = stampOf sha256 (inputs.map Prod.snd)

-- So is what a file holds.
def FileMadeOf (entry : CacheEntry) (origin : EntryFile → Option Inputs) (file : EntryFile) : Prop :=
  match file with
  | .bitcode => ∀ bitcode ∈ entry.bitcode, origin .bitcode = some bitcode.inputs
  | .dependencies => ∀ dependencyList ∈ entry.dependencies, ∃ inputs,
      origin .dependencies = some inputs ∧ (∀ path ∈ inputs.map Prod.fst, IsLine path) ∧
        dependencyList = dependencyListOf (inputs.map Prod.fst)
  | .stamp => ∀ stamp ∈ entry.stamp, ∃ inputs, origin .stamp = some inputs ∧
      stamp = stampOf sha256 (inputs.map Prod.snd)

structure Traced (state : State) : Prop where
  stores : ∀ pending ∈ state.stores, MadeOf sha256 pending.stored pending.inputs
  files : ∀ key file, FileMadeOf sha256 (state.files.entries key) (state.origin key) file

end Invariant

variable {sha256 : Bytes → List UInt8}

theorem madeOf_prepareStore {files : Files} {command : CompileCommand} {bitcode : Bitcode}
    {fragment : Bytes} {stored : StoredEntry}
    (h : prepareStore sha256 files command bitcode fragment = some stored)
    (hmeets : bitcode.inputs = inputsOf files fragment) :
    MadeOf sha256 stored (inputsOf files fragment) := by
  obtain ⟨contents, hcontents, rfl⟩ := prepareStore_eq_some h
  have hlength : (parseDependencyFile fragment).length = contents.length :=
    (readAll_eq_some.mp hcontents).length_eq
  have hinputs : inputsOf files fragment = (parseDependencyFile fragment).zip contents := by
    rw [inputsOf, hcontents, Option.getD_some]
  have hpaths : (inputsOf files fragment).map Prod.fst = parseDependencyFile fragment := by
    rw [hinputs, List.map_fst_zip hlength.le]
  have htexts : (inputsOf files fragment).map Prod.snd = contents := by
    rw [hinputs, List.map_snd_zip hlength.ge]
  refine ⟨hmeets, ?_, ?_, ?_⟩
  · rw [hpaths]
    exact isLine_parseDependencyFile fragment
  · rw [hpaths]
  · rw [htexts]

theorem Traced.write {state : State} (h : Traced sha256 state) {number : Nat} {pending : PendingStore}
    (hpending : pending ∈ state.stores) (file : EntryFile) (rest : List EntryFile) :
    Traced sha256 (state.write number pending file rest) where
  stores := by
    intro next hnext
    rcases List.mem_or_eq_of_mem_set hnext with hnext | rfl
    · exact h.stores next hnext
    · exact h.stores pending hpending
  files := by
    intro key written
    have hmade := h.stores pending hpending
    by_cases hkey : key = pending.stored.key
    · subst hkey
      have hbefore := h.files pending.stored.key written
      simp only [State.write, writeFile, Function.update_self]
      cases file <;> cases written <;>
        simp only [FileMadeOf, CacheEntry.write, Function.update_self, ne_eq, reduceCtorEq,
          not_false_eq_true, Function.update_of_ne, Option.mem_def, Option.some.injEq,
          forall_eq'] at hbefore ⊢
      all_goals first
        | exact hbefore
        | exact hmade.bitcode.symm
        | exact ⟨pending.inputs, rfl, hmade.lines, hmade.dependencyList⟩
        | exact ⟨pending.inputs, rfl, hmade.stamp⟩
    · have hbefore := h.files key written
      simp only [State.write, writeFile, Function.update_of_ne hkey]
      exact hbefore

theorem Traced.next {state : State} (h : Traced sha256 state) (event : Event)
    (hmeets : Meets state event) : Traced sha256 (state.next sha256 event) := by
  cases event with
  | edit path contents => exact ⟨h.stores, h.files⟩
  | begin command bitcode fragment =>
      simp only [State.next]
      split
      · exact h
      · rename_i stored hstored
        refine ⟨fun pending hpending => ?_, h.files⟩
        rcases List.mem_append.mp hpending with hpending | hpending
        · exact h.stores pending hpending
        · obtain rfl := List.mem_singleton.mp hpending
          exact madeOf_prepareStore hstored hmeets
  | write number =>
      simp only [State.next]
      split
      · rename_i pending hpending
        split
        · exact h.write (List.mem_of_getElem? hpending) _ _
        · exact h
      · exact h

theorem traced_reachable {state : State} (h : Reachable sha256 state) : Traced sha256 state := by
  induction h with
  | initial contents =>
      refine ⟨by simp, fun key file => ?_⟩
      cases file <;> simp [FileMadeOf]
  | step event _ hmeets ih => exact ih.next event hmeets

-- What stands at the paths of `inputs` is what it says, if the stamps and the lengths agree.
theorem texts_eq_of_stampOf (hsha : Function.Injective sha256) {files : Files} {inputs : Inputs}
    {contents : List Bytes} (hread : readAll files (inputs.map Prod.fst) = some contents)
    (hstamp : stampOf sha256 contents = stampOf sha256 (inputs.map Prod.snd))
    (hlengths : ∀ input ∈ inputs,
      (files.contents input.1).map List.length = some input.2.length) :
    contents = inputs.map Prod.snd := by
  refine List.eq_iff_flatten_eq.mpr ⟨flatten_of_stampOf hsha hstamp, ?_⟩
  clear hstamp
  induction inputs generalizing contents with
  | nil =>
      rw [readAll_eq_some, List.map_nil, List.forall₂_nil_left_iff] at hread
      simp [hread]
  | cons input inputs ih =>
      rw [List.forall_mem_cons] at hlengths
      rw [readAll_eq_some, List.map_cons] at hread
      obtain _ | ⟨hheld, hrest⟩ := hread
      rw [hheld, Option.map_some, Option.some.injEq] at hlengths
      rw [List.map_cons, List.map_cons, List.map_cons, hlengths.1,
        ih (readAll_eq_some.mpr hrest) hlengths.2]

-- In every state stores and edits lead to, a hit that meets the condition is sound.
theorem hit_compiled_from_now (sha256 : Bytes → List UInt8) (hsha : Function.Injective sha256)
    (state : State) (hreach : Reachable sha256 state) (command : CompileCommand) (key : Bytes)
    (hhit : lookupPath sha256 state.files command = some key) (hmeets : LookupMeets state key) :
    CompiledFromNow state.files key := by
  obtain ⟨-, dependencyList, contents, hdependencies, hread, hstamp, hbitcode⟩ :=
    lookupPath_eq_some hhit
  obtain ⟨bitcode, hbitcode⟩ := Option.isSome_iff_exists.mp hbitcode
  have htraced := (traced_reachable hreach).files key
  have hmade : state.origin key .bitcode = some bitcode.inputs := htraced .bitcode bitcode hbitcode
  obtain ⟨listed, hlisted, hlines, rfl⟩ := htraced .dependencies dependencyList hdependencies
  obtain ⟨stamped, hstamped, hsame⟩ := htraced .stamp _ hstamp
  -- The three files speak of one list of inputs.
  have hlistedStamped : listed = stamped := by
    rw [← Option.some_inj, ← hlisted, ← hstamped, hmeets.dependencies]
  have hmadeStamped : bitcode.inputs = stamped := by
    rw [← Option.some_inj, ← hmade, ← hstamped, hmeets.bitcode]
  subst hlistedStamped
  have hpaths := listedPaths_dependencyListOf hlines
  rw [hpaths] at hread
  have htexts : contents = listed.map Prod.snd :=
    texts_eq_of_stampOf hsha hread hsame (hmeets.lengths listed hstamped)
  refine ⟨bitcode, _, contents, hbitcode, hdependencies, by rw [hpaths, hread], ?_⟩
  rw [hpaths, htexts, hmadeStamped]
  exact List.zip_of_prod rfl rfl

-- The first dependency is edited, a second store of the same command stops after the bitcode, and
-- the edit is taken back.
def revertedEdit : List Event :=
  [.begin commandOfU (bitcodeOfTwo [120] []) fragmentOfTwo, .write 0, .write 0, .write 0,
    .edit [97] (some [121]), .begin commandOfU (bitcodeOfTwo [121] []) fragmentOfTwo, .write 1,
    .edit [97] (some [120])]

def State.run (sha256 : Bytes → List UInt8) (state : State) : List Event → State
  | [] => state
  | event :: rest => (state.next sha256 event).run sha256 rest

def AllMeet (sha256 : Bytes → List UInt8) (state : State) : List Event → Prop
  | [] => True
  | event :: rest => Meets state event ∧ AllMeet sha256 (state.next sha256 event) rest

theorem reachable_run {state : State} (h : Reachable sha256 state) {events : List Event}
    (hmeets : AllMeet sha256 state events) : Reachable sha256 (state.run sha256 events) := by
  induction events generalizing state with
  | nil => exact h
  | cons event rest ih => exact ih (.step event h hmeets.1) hmeets.2

def firstTexts : State where
  files := { contents := twoFiles [120] [] }

-- The old stamp is valid again, and the bitcode is the one of the edited file.
theorem reverted_edit_hits :
    Function.Injective (id : Bytes → Bytes) ∧ Reachable id (firstTexts.run id revertedEdit) ∧
      lookupPath id (firstTexts.run id revertedEdit).files commandOfU = some (keyFor id commandOfU) ∧
      ¬ CompiledFromNow (firstTexts.run id revertedEdit).files (keyFor id commandOfU) := by
  refine ⟨Function.injective_id, reachable_run (.initial _) ?_, by decide +kernel, ?_⟩
  · simp only [AllMeet, revertedEdit, Meets, and_true, true_and]
    decide +kernel
  · rintro ⟨bitcode, dependencyList, contents, hbitcode, hdependencies, hcontents, hinputs⟩
    have hmade : ((firstTexts.run id revertedEdit).files.entries (keyFor id commandOfU)).bitcode =
        some (bitcodeOfTwo [121] []) := by decide +kernel
    have hlisted :
        ((firstTexts.run id revertedEdit).files.entries (keyFor id commandOfU)).dependencies =
          some (dependencyListOf [[97], [98]]) := by decide +kernel
    have hread : readAll (firstTexts.run id revertedEdit).files
        (listedPaths (dependencyListOf [[97], [98]])) = some [[120], []] := by decide +kernel
    obtain rfl := Option.some_inj.mp (hbitcode.symm.trans hmade)
    obtain rfl := Option.some_inj.mp (hdependencies.symm.trans hlisted)
    obtain rfl := Option.some_inj.mp (hcontents.symm.trans hread)
    exact absurd hinputs (by decide)

-- Where the second store is not stopped, and the edit stays, the next lookup is sound.
theorem finished_stores_hit :
    CompiledFromNow
      (firstTexts.run id
        [.begin commandOfU (bitcodeOfTwo [120] []) fragmentOfTwo, .write 0, .write 0, .write 0,
          .edit [97] (some [121]), .begin commandOfU (bitcodeOfTwo [121] []) fragmentOfTwo,
          .write 1, .write 1, .write 1]).files (keyFor id commandOfU) := by
  refine hit_compiled_from_now id Function.injective_id _ (reachable_run (.initial _) ?_) commandOfU
    (keyFor id commandOfU) (by decide +kernel) ⟨by decide +kernel, by decide +kernel, ?_⟩
  · simp only [AllMeet, Meets, and_true, true_and]
    decide +kernel
  · decide +kernel

end ConcurrencyAnalyzer.IRCache
