import ConcurrencyAnalyzer.Project.Run

namespace ConcurrencyAnalyzer.Project

open IRCache (Bytes Files CacheEntry parseDependencyFile)

-- What may become of an entry outside the runs: its files go, or its bitcode no longer parses.
structure Toolchain.Damaged (toolchain : Toolchain) (before after : CacheEntry) : Prop where
  dependencies : after.dependencies = before.dependencies ∨ after.dependencies = none
  stamp : after.stamp = before.stamp ∨ after.stamp = none
  bitcode : ∀ bitcode ∈ after.bitcode,
    bitcode ∈ before.bitcode ∨ (toolchain.parseBC bitcode.code).isOk = false

-- A cache and the files around it, after any runs, edits and damage.
inductive Toolchain.CacheHistory (toolchain : Toolchain) : Files → Prop
  | fresh (contents : SourceContents) : CacheHistory toolchain { contents := contents }
  | edit {cache : Files} (contents : SourceContents) : CacheHistory toolchain cache →
      CacheHistory toolchain { cache with contents := contents }
  | damage {cache : Files} (key : Bytes) (entry : CacheEntry) : CacheHistory toolchain cache →
      toolchain.Damaged (cache.entries key) entry →
      CacheHistory toolchain { cache with entries := Function.update cache.entries key entry }
  | run {cache : Files} (commands : List ReplayedCommand) : CacheHistory toolchain cache →
      CacheHistory toolchain (toolchain.compileAll true cache commands).cache

-- The flags for the dependency list leave the bitcode alone, and the list names all that it is made of.
structure Toolchain.Faithful (toolchain : Toolchain) (commands : List ReplayedCommand) : Prop where
  flags : ∀ command ∈ commands, ∀ contents,
    toolchain.bitcodeOf contents true command = toolchain.bitcodeOf contents false command
  listed : ∀ command ∈ commands, ∀ contents others bitcode fragment,
    toolchain.bitcodeOf contents true command = some bitcode →
    toolchain.fragmentOf contents command = some fragment →
    (∀ path ∈ parseDependencyFile fragment, others path = contents path) →
    toolchain.bitcodeOf others true command = some bitcode

-- No edit moved text from one dependency of an entry to the next.
def Unambiguous (cache : Files) : Prop :=
  ∀ key, ∀ bitcode ∈ (cache.entries key).bitcode, ∀ texts,
    IRCache.readAll cache (bitcode.inputs.map Prod.fst) = some texts →
    texts.flatten = (bitcode.inputs.map Prod.snd).flatten →
    texts.map List.length = (bitcode.inputs.map Prod.snd).map List.length

-- An entry that can be used was stored by some run.
def Toolchain.Honest (toolchain : Toolchain) (key : Bytes) (entry : CacheEntry) : Prop :=
  ∀ bitcode ∈ entry.bitcode, ∀ dependencyList ∈ entry.dependencies, ∀ stamp ∈ entry.stamp,
    (toolchain.parseBC bitcode.code).isOk = true →
      ∃ command contents fragment texts, toolchain.keyFor command = key ∧
        toolchain.bitcodeOf contents true command = some bitcode.code ∧
        toolchain.fragmentOf contents command = some fragment ∧
        IRCache.readAll { contents := contents } (parseDependencyFile fragment) = some texts ∧
        dependencyList = IRCache.dependencyListOf (parseDependencyFile fragment) ∧
        stamp = IRCache.stampOf toolchain.sha256 texts ∧
        bitcode.inputs = (parseDependencyFile fragment).zip texts

-- What the commands would reuse is what compiling them gives.
def Toolchain.Fresh (toolchain : Toolchain) (commands : List ReplayedCommand) (cache : Files) : Prop :=
  ∀ command ∈ commands, ∀ key, toolchain.reusable cache command = some key →
    key = toolchain.keyFor command ∧ ∃ bitcode, readEntry cache key = .ok bitcode ∧
      toolchain.bitcodeOf cache.contents true command = some bitcode

theorem bytesOf_injective : Function.Injective bytesOf := by
  intro text other h
  exact String.toByteArray_inj.mp (ByteArray.ext (Array.toList_inj.mp h))

section Keys

variable {toolchain : Toolchain} {command other : ReplayedCommand}

-- Commands of one key are compiled alike.
theorem request_of_key (hsha : Function.Injective toolchain.sha256)
    (h : toolchain.keyFor command = toolchain.keyFor other) (useCache : Bool) :
    toolchain.request useCache command = toolchain.request useCache other := by
  obtain ⟨hfile, harguments⟩ := IRCache.keyFor_injective hsha h
  have hfile : command.1.file = other.1.file := bytesOf_injective hfile
  have harguments : command.1.arguments = other.1.arguments :=
    bytesOf_injective.list_map harguments
  unfold Toolchain.request
  rw [h, hfile, harguments]

theorem bitcodeOf_of_key (hsha : Function.Injective toolchain.sha256)
    (h : toolchain.keyFor command = toolchain.keyFor other) (contents : SourceContents) (useCache : Bool) :
    toolchain.bitcodeOf contents useCache command = toolchain.bitcodeOf contents useCache other := by
  unfold Toolchain.bitcodeOf Toolchain.compileUnit
  rw [request_of_key hsha h]

theorem fragmentOf_of_key (hsha : Function.Injective toolchain.sha256)
    (h : toolchain.keyFor command = toolchain.keyFor other) (contents : SourceContents) :
    toolchain.fragmentOf contents command = toolchain.fragmentOf contents other := by
  unfold Toolchain.fragmentOf
  rw [request_of_key hsha h]

end Keys

section Stores

variable {toolchain : Toolchain} {cache after : Files} {command : ReplayedCommand} {bitcode : Bytes}

theorem readAll_congr {files others : Files} (h : files.contents = others.contents) (paths : List Bytes) :
    IRCache.readAll files paths = IRCache.readAll others paths := by
  unfold IRCache.readAll
  rw [h]

-- A store leaves an entry of its own, and the others and the sources alone.
structure Toolchain.StoredAs (toolchain : Toolchain) (cache after : Files) (command : ReplayedCommand)
    (bitcode dependencies : Bytes) (texts : List Bytes) : Prop where
  fragment : toolchain.fragmentOf cache.contents command = some dependencies
  read : IRCache.readAll cache (parseDependencyFile dependencies) = some texts
  entry : after.entries (toolchain.keyFor command) =
    { bitcode := some { code := bitcode, inputs := (parseDependencyFile dependencies).zip texts }
      dependencies := some (IRCache.dependencyListOf (parseDependencyFile dependencies))
      stamp := some (IRCache.stampOf toolchain.sha256 texts) }
  others : ∀ key ≠ toolchain.keyFor command, after.entries key = cache.entries key
  contents : after.contents = cache.contents

theorem store_eq_some (h : toolchain.store cache command bitcode = some after) :
    ∃ dependencies texts, toolchain.StoredAs cache after command bitcode dependencies texts := by
  obtain ⟨dependencies, hfragment, hstore⟩ := Option.bind_eq_some_iff.mp h
  obtain ⟨stored, hstored, rfl⟩ := Option.map_eq_some_iff.mp hstore
  obtain ⟨texts, htexts, rfl⟩ := IRCache.prepareStore_eq_some hstored
  refine ⟨dependencies, texts, hfragment, htexts, ?_, fun key hkey => ?_, rfl⟩
  · simp [IRCache.writeFile, IRCache.CacheEntry.write, IRCache.inputsOf, htexts, Toolchain.keyFor]
  · have hkey : key ≠ IRCache.keyFor toolchain.sha256 command.cached := hkey
    simp [IRCache.writeFile, Function.update_of_ne hkey]

theorem Toolchain.StoredAs.readEntry {dependencies : Bytes} {texts : List Bytes}
    (h : toolchain.StoredAs cache after command bitcode dependencies texts) :
    readEntry after (toolchain.keyFor command) = .ok bitcode := by
  unfold Project.readEntry
  rw [h.entry]

-- What a command does to a run.
inductive Toolchain.Handled (toolchain : Toolchain) (useCache : Bool) (state : RunState)
    (command : ReplayedCommand) : RunState → Prop
  | reused (key : Bytes) : useCache = true → toolchain.reusable state.cache command = some key →
      Handled toolchain useCache state command
        { state with
          reusedUnits := state.reusedUnits + 1
          units := state.units ++
            [addFile toolchain.pathText toolchain.xxh3 (Project.readEntry state.cache) command.1.file key] }
  | failed : (useCache = true → toolchain.reusable state.cache command = none) →
      toolchain.bitcodeOf state.cache.contents useCache command = none →
      Handled toolchain useCache state command
        { state with failedSources := state.failedSources ++ [command.1.file] }
  | stored (bitcode : Bytes) (cache : Files) : useCache = true →
      toolchain.reusable state.cache command = none →
      toolchain.bitcodeOf state.cache.contents true command = some bitcode →
      toolchain.store state.cache command bitcode = some cache →
      Handled toolchain useCache state command
        { state with
          cache := cache
          compiledUnits := state.compiledUnits + 1
          units := state.units ++
            [addFile toolchain.pathText toolchain.xxh3 (Project.readEntry cache) command.1.file
              (toolchain.keyFor command)] }
  | held (bitcode : Bytes) : (useCache = true → toolchain.reusable state.cache command = none) →
      toolchain.bitcodeOf state.cache.contents useCache command = some bitcode →
      (useCache = true → toolchain.store state.cache command bitcode = none) →
      Handled toolchain useCache state command
        { state with
          compiledUnits := state.compiledUnits + 1
          units := state.units ++ [addUnit command.1.file bitcode] }

theorem compileCommand_handled (useCache : Bool) (state : RunState) (command : ReplayedCommand) :
    toolchain.Handled useCache state command (toolchain.compileCommand useCache state command) := by
  unfold Toolchain.compileCommand
  cases hreusable : (if useCache then toolchain.reusable state.cache command else none) with
  | some key =>
      cases useCache with
      | false => cases hreusable
      | true => exact .reused key rfl hreusable
  | none =>
      have hnone : useCache = true → toolchain.reusable state.cache command = none := by
        rintro rfl
        exact hreusable
      cases hcompiled : toolchain.bitcodeOf state.cache.contents useCache command with
      | none => exact .failed hnone hcompiled
      | some bitcode =>
          unfold Toolchain.keep
          simp only
          cases hstore : (if useCache then toolchain.store state.cache command bitcode else none) with
          | some cache =>
              cases useCache with
              | false => cases hstore
              | true => exact .stored bitcode cache rfl (hnone rfl) hcompiled hstore
          | none =>
              refine .held bitcode hnone hcompiled ?_
              rintro rfl
              exact hstore

end Stores

section Histories

variable {toolchain : Toolchain} {cache : Files} {commands : List ReplayedCommand}

theorem Toolchain.StoredAs.honest {after : Files} {command : ReplayedCommand}
    {bitcode dependencies : Bytes} {texts : List Bytes}
    (h : toolchain.StoredAs cache after command bitcode dependencies texts)
    (hbitcode : toolchain.bitcodeOf cache.contents true command = some bitcode)
    (hcache : ∀ key, toolchain.Honest key (cache.entries key)) (key : Bytes) :
    toolchain.Honest key (after.entries key) := by
  by_cases hkey : key = toolchain.keyFor command
  · subst hkey
    rw [h.entry]
    rintro _ ⟨⟩ _ ⟨⟩ _ ⟨⟩ -
    refine ⟨command, cache.contents, dependencies, texts, rfl, hbitcode, h.fragment, ?_, rfl, rfl, rfl⟩
    rw [← h.read]
    exact readAll_congr rfl _
  · rw [h.others key hkey]
    exact hcache key

theorem compileAll_honest (hcache : ∀ key, toolchain.Honest key (cache.entries key))
    (commands : List ReplayedCommand) (key : Bytes) :
    toolchain.Honest key ((toolchain.compileAll true cache commands).cache.entries key) := by
  refine List.foldlRecOn (motive := fun state : RunState =>
    ∀ key, toolchain.Honest key (state.cache.entries key)) commands _ hcache ?_ key
  intro state hstate command _
  have h := @compileCommand_handled toolchain true state command
  generalize toolchain.compileCommand true state command = next at h ⊢
  cases h with
  | reused => exact hstate
  | failed => exact hstate
  | stored bitcode cache _ _ hbitcode hstore =>
      obtain ⟨_, _, hstored⟩ := store_eq_some hstore
      exact hstored.honest hbitcode hstate
  | held => exact hstate

theorem honest_of_damaged {key : Bytes} {before after : CacheEntry} (h : toolchain.Honest key before)
    (hdamaged : toolchain.Damaged before after) : toolchain.Honest key after := by
  intro bitcode hbitcode dependencyList hdependencies stamp hstamp hparses
  have hbefore : bitcode ∈ before.bitcode := by
    rcases hdamaged.bitcode bitcode hbitcode with hsame | hbroken
    · exact hsame
    · rw [hparses] at hbroken
      cases hbroken
  have hdependencies : dependencyList ∈ before.dependencies := by
    rcases hdamaged.dependencies with hsame | hgone
    · rwa [hsame] at hdependencies
    · rw [hgone] at hdependencies
      cases hdependencies
  have hstamp : stamp ∈ before.stamp := by
    rcases hdamaged.stamp with hsame | hgone
    · rwa [hsame] at hstamp
    · rw [hgone] at hstamp
      cases hstamp
  exact h bitcode hbefore dependencyList hdependencies stamp hstamp hparses

theorem honest_of_history (h : toolchain.CacheHistory cache) (key : Bytes) :
    toolchain.Honest key (cache.entries key) := by
  induction h generalizing key with
  | fresh contents => rintro _ ⟨⟩
  | edit contents _ ih => exact ih key
  | damage damaged entry _ hdamaged ih =>
      by_cases hkey : key = damaged
      · subst hkey
        simp only [Function.update_self]
        exact honest_of_damaged (ih key) hdamaged
      · simp only [Function.update_of_ne hkey]
        exact ih key
  | run commands _ ih => exact compileAll_honest ih commands key

-- Where no edit moved text between the dependencies of an entry, whatever a run would reuse is what
-- compiling gives.
theorem fresh_of_history (hsha : Function.Injective toolchain.sha256)
    (hfaithful : toolchain.Faithful commands) (h : toolchain.CacheHistory cache)
    (hedits : Unambiguous cache) : toolchain.Fresh commands cache := by
  intro command hcommand key hreusable
  obtain ⟨hlookup, hreadable⟩ := Option.filter_eq_some_iff.mp hreusable
  obtain ⟨hkey, dependencyList, texts, hdependencies, htexts, hstamp, -⟩ :=
    IRCache.lookupPath_eq_some hlookup
  refine ⟨hkey, ?_⟩
  unfold Toolchain.readable at hreadable
  unfold readEntry at hreadable ⊢
  cases hbitcode : (cache.entries key).bitcode with
  | none => simp [hbitcode] at hreadable
  | some bitcode =>
      simp only [hbitcode] at hreadable ⊢
      refine ⟨bitcode.code, rfl, ?_⟩
      obtain ⟨made, contents, fragment, before, hmade, hcompiled, hfragment, hbefore, rfl, hstamped, hinputs⟩ :=
        honest_of_history h key bitcode hbitcode dependencyList hdependencies _ hstamp hreadable
      have hsame : toolchain.keyFor made = toolchain.keyFor command := hmade.trans hkey
      rw [IRCache.listedPaths_dependencyListOf (IRCache.isLine_parseDependencyFile fragment)] at htexts
      have hlength : (parseDependencyFile fragment).length = before.length :=
        (IRCache.readAll_eq_some.mp hbefore).length_eq
      -- The stamp says what the dependencies hold together, and the lengths say where each ends.
      have hflatten := IRCache.flatten_of_stampOf hsha hstamped
      have hlengths := hedits key bitcode hbitcode texts
      rw [hinputs, List.map_fst_zip hlength.le, List.map_snd_zip hlength.ge] at hlengths
      have htextsEq : texts = before := List.eq_iff_flatten_eq.mpr ⟨hflatten, hlengths htexts hflatten⟩
      have hcontents := (IRCache.contents_eq_iff hbefore htexts).mpr htextsEq
      rw [bitcodeOf_of_key hsha hsame] at hcompiled
      rw [fragmentOf_of_key hsha hsame] at hfragment
      exact hfaithful.listed command hcommand contents cache.contents bitcode.code fragment hcompiled
        hfragment hcontents

end Histories

end ConcurrencyAnalyzer.Project
