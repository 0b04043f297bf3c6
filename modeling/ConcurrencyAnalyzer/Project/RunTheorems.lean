import ConcurrencyAnalyzer.Project.CacheHistory

namespace ConcurrencyAnalyzer.Project

open IRCache (Bytes Files parseDependencyFile)
open FactsBuilder CrossTU

section Entries

variable {toolchain : Toolchain} {cache after : Files} {command other : ReplayedCommand} {bitcode : Bytes}

theorem parses_of_bitcodeOf {contents : SourceContents} {useCache : Bool}
    (h : toolchain.bitcodeOf contents useCache command = some bitcode) :
    (toolchain.parseBC bitcode).isOk = true := by
  have hresult := @compile_wellFormed TranslationUnit (toolchain.probe contents)
    (toolchain.backend contents) (fun _ => toolchain.parseBC) (toolchain.request useCache command)
  unfold Toolchain.bitcodeOf Toolchain.compileUnit at h
  generalize compile (toolchain.probe contents) (toolchain.backend contents) (fun _ => toolchain.parseBC)
    (toolchain.request useCache command) = result at hresult h
  simp only [Bool.and_eq_true] at h
  split at h
  · rename_i hsuccess
    obtain rfl := Option.some_inj.mp h
    obtain ⟨module, hmodule⟩ := Option.isSome_iff_exists.mp hsuccess.2
    rw [(hresult.parsed module hmodule).2]
    rfl
  · cases h

-- A lookup reads no entry but that of its command.
theorem reusable_congr (hcontents : after.contents = cache.contents)
    (hentry : after.entries (toolchain.keyFor command) = cache.entries (toolchain.keyFor command)) :
    toolchain.reusable after command = toolchain.reusable cache command := by
  have hlookup : IRCache.lookupPath toolchain.sha256 after command.cached =
      IRCache.lookupPath toolchain.sha256 cache command.cached := by
    unfold IRCache.lookupPath
    simp only [readAll_congr hcontents]
    rw [Toolchain.keyFor] at hentry
    rw [hentry]
  unfold Toolchain.reusable
  rw [hlookup]
  cases hfound : IRCache.lookupPath toolchain.sha256 cache command.cached with
  | none => rfl
  | some key =>
      have hkey : key = toolchain.keyFor command := (IRCache.lookupPath_eq_some hfound).1
      rw [Option.filter_some, Option.filter_some, hkey]
      unfold Toolchain.readable readEntry
      rw [hentry]

theorem reusable_key {key : Bytes} (h : toolchain.reusable cache command = some key) :
    key = toolchain.keyFor command :=
  (IRCache.lookupPath_eq_some (Option.filter_eq_some_iff.mp h).1).1

-- Commands of one key are looked up alike.
theorem reusable_of_key (h : toolchain.keyFor command = toolchain.keyFor other) :
    toolchain.reusable cache command = toolchain.reusable cache other := by
  unfold Toolchain.reusable IRCache.lookupPath
  rw [Toolchain.keyFor, Toolchain.keyFor] at h
  rw [h]

theorem Toolchain.StoredAs.reusable {dependencies : Bytes} {texts : List Bytes}
    (h : toolchain.StoredAs cache after command bitcode dependencies texts)
    (hparses : (toolchain.parseBC bitcode).isOk = true) :
    toolchain.reusable after command = some (toolchain.keyFor command) := by
  have hread : IRCache.readAll after (IRCache.listedPaths (IRCache.dependencyListOf
      (parseDependencyFile dependencies))) = some texts := by
    rw [IRCache.listedPaths_dependencyListOf (IRCache.isLine_parseDependencyFile dependencies), ← h.read]
    exact readAll_congr h.contents _
  have hlookup : IRCache.lookupPath toolchain.sha256 after command.cached =
      some (toolchain.keyFor command) := by
    have hentry := h.entry
    rw [Toolchain.keyFor] at hentry
    unfold IRCache.lookupPath
    simp only [hentry, hread, Option.bind_some, Option.isSome_some, and_self, if_true, Toolchain.keyFor]
  unfold Toolchain.reusable
  rw [hlookup, Option.filter_some, if_pos]
  unfold Toolchain.readable
  rw [h.readEntry]
  exact hparses

theorem Toolchain.StoredAs.fresh (hsha : Function.Injective toolchain.sha256) {dependencies : Bytes}
    {texts : List Bytes} (h : toolchain.StoredAs cache after command bitcode dependencies texts)
    (hbitcode : toolchain.bitcodeOf cache.contents true command = some bitcode)
    {commands : List ReplayedCommand} (hcache : toolchain.Fresh commands cache) :
    toolchain.Fresh commands after := by
  intro other hother key hreusable
  obtain rfl := reusable_key hreusable
  refine ⟨rfl, ?_⟩
  by_cases hkey : toolchain.keyFor other = toolchain.keyFor command
  · refine ⟨bitcode, hkey ▸ h.readEntry, ?_⟩
    rw [h.contents, bitcodeOf_of_key hsha hkey]
    exact hbitcode
  · rw [reusable_congr h.contents (h.others _ hkey)] at hreusable
    obtain ⟨-, found, hfound, hcompiled⟩ := hcache other hother _ hreusable
    refine ⟨found, ?_, h.contents ▸ hcompiled⟩
    unfold Project.readEntry
    rw [h.others _ hkey]
    exact hfound

end Entries

section Agreement

variable {toolchain : Toolchain} {cache after : Files} {command : ReplayedCommand}
  {commands : List ReplayedCommand} {unit plain : SourceUnit}

-- A unit of a run with a cache beside the same unit without one.
structure Toolchain.Matches (toolchain : Toolchain) (cache : Files) (unit plain : SourceUnit) : Prop where
  identifier : unit.identifier = plain.identifier
  inMemory : plain.file = none
  parses : (toolchain.parseBC plain.bitcode).isOk = true
  recorded : unit.Recorded toolchain.xxh3 plain.bitcode
  kept : ∀ file ∈ unit.file, ∃ command, file.path = toolchain.keyFor command ∧
    toolchain.bitcodeOf cache.contents true command = some plain.bitcode ∧
    readEntry cache file.path = .ok plain.bitcode

theorem Toolchain.Matches.store (hsha : Function.Injective toolchain.sha256) {bitcode dependencies : Bytes}
    {texts : List Bytes} (hstored : toolchain.StoredAs cache after command bitcode dependencies texts)
    (hbitcode : toolchain.bitcodeOf cache.contents true command = some bitcode)
    (h : toolchain.Matches cache unit plain) : toolchain.Matches after unit plain := by
  refine { h with kept := fun file hfile => ?_ }
  obtain ⟨owner, hpath, hcompiled, hread⟩ := h.kept file hfile
  refine ⟨owner, hpath, hstored.contents ▸ hcompiled, ?_⟩
  by_cases hkey : file.path = toolchain.keyFor command
  · rw [bitcodeOf_of_key hsha (hpath.symm.trans hkey), hbitcode] at hcompiled
    rw [hkey, hstored.readEntry, Option.some_inj.mp hcompiled]
  · unfold readEntry
    rw [hstored.others _ hkey]
    exact hread

-- A run with a cache after as many commands as one without.
structure Toolchain.Agrees (toolchain : Toolchain) (commands : List ReplayedCommand)
    (state plain : RunState) (handled : Nat) : Prop where
  contents : state.cache.contents = plain.cache.contents
  fresh : toolchain.Fresh commands state.cache
  units : List.Forall₂ (toolchain.Matches state.cache) state.units plain.units
  failed : state.failedSources = plain.failedSources
  counted : state.reusedUnits + state.compiledUnits = plain.compiledUnits
  handled : plain.compiledUnits + plain.failedSources.length = handled

theorem matches_addFile {key : Bytes} {bitcode : Bytes} (hkey : key = toolchain.keyFor command)
    (hread : readEntry cache key = .ok bitcode)
    (hbitcode : toolchain.bitcodeOf cache.contents true command = some bitcode) :
    toolchain.Matches cache
      (addFile toolchain.pathText toolchain.xxh3 (readEntry cache) command.1.file key)
      (addUnit command.1.file bitcode) where
  identifier := rfl
  inMemory := rfl
  parses := parses_of_bitcodeOf hbitcode
  recorded := recorded_addFile _ hread
  kept := by
    intro file hfile
    have hpath : file.path = key := by
      unfold addFile at hfile
      simp only [hread, Option.mem_def, Option.some.injEq] at hfile
      rw [← hfile]
    exact ⟨command, hpath.trans hkey, hbitcode, hpath ▸ hread⟩

theorem matches_addUnit {bitcode : Bytes} (hparses : (toolchain.parseBC bitcode).isOk = true) :
    toolchain.Matches cache (addUnit command.1.file bitcode) (addUnit command.1.file bitcode) :=
  ⟨rfl, rfl, hparses, recorded_addUnit _ _, nofun⟩

-- What the run without a cache does of a command that compiles, and of one that does not.
theorem compileCommand_plain {state : RunState} :
    (∀ bitcode, toolchain.bitcodeOf state.cache.contents false command = some bitcode →
      toolchain.compileCommand false state command =
        { state with
          compiledUnits := state.compiledUnits + 1
          units := state.units ++ [addUnit command.1.file bitcode] }) ∧
    (toolchain.bitcodeOf state.cache.contents false command = none →
      toolchain.compileCommand false state command =
        { state with failedSources := state.failedSources ++ [command.1.file] }) := by
  constructor
  · intro bitcode hbitcode
    simp [Toolchain.compileCommand, hbitcode, Toolchain.keep]
  · intro hnone
    simp [Toolchain.compileCommand, hnone]

theorem Toolchain.Agrees.compiled {state plain : RunState} {handled : Nat} {bitcode : Bytes}
    (h : toolchain.Agrees commands state plain handled)
    (hplain : toolchain.bitcodeOf plain.cache.contents false command = some bitcode) {next : RunState}
    {unit : SourceUnit} (hcontents : next.cache.contents = state.cache.contents)
    (hfresh : toolchain.Fresh commands next.cache)
    (hold : List.Forall₂ (toolchain.Matches next.cache) state.units plain.units)
    (hnew : toolchain.Matches next.cache unit (addUnit command.1.file bitcode))
    (hunits : next.units = state.units ++ [unit]) (hfailed : next.failedSources = state.failedSources)
    (hcounted : next.reusedUnits + next.compiledUnits = state.reusedUnits + state.compiledUnits + 1) :
    toolchain.Agrees commands next (toolchain.compileCommand false plain command) (handled + 1) := by
  rw [compileCommand_plain.1 bitcode hplain]
  refine ⟨hcontents.trans h.contents, hfresh, ?_, hfailed.trans h.failed, ?_, ?_⟩
  · rw [hunits]
    exact List.rel_append hold (.cons hnew .nil)
  · rw [hcounted, h.counted]
  · have hhandled := h.handled
    simp only
    omega

theorem Toolchain.Agrees.step (hsha : Function.Injective toolchain.sha256)
    (hfaithful : toolchain.Faithful commands) (hcommand : command ∈ commands) {state plain : RunState}
    {handled : Nat} (h : toolchain.Agrees commands state plain handled) :
    toolchain.Agrees commands (toolchain.compileCommand true state command)
      (toolchain.compileCommand false plain command) (handled + 1) := by
  have hflags : ∀ {result}, toolchain.bitcodeOf state.cache.contents true command = result →
      toolchain.bitcodeOf plain.cache.contents false command = result := by
    intro result hresult
    rw [← h.contents, ← hfaithful.flags command hcommand]
    exact hresult
  have hhandled := @compileCommand_handled toolchain true state command
  generalize toolchain.compileCommand true state command = next at hhandled ⊢
  cases hhandled with
  | reused key _ hreusable =>
      obtain ⟨hkey, bitcode, hread, hbitcode⟩ := h.fresh command hcommand key hreusable
      exact h.compiled (hflags hbitcode) rfl h.fresh h.units (matches_addFile hkey hread hbitcode) rfl rfl
        (by simp only; omega)
  | failed _ hnone =>
      rw [compileCommand_plain.2 (hflags hnone)]
      refine ⟨h.contents, h.fresh, h.units, by rw [h.failed], h.counted, ?_⟩
      have hhandled := h.handled
      simp only [List.length_append, List.length_singleton]
      omega
  | stored bitcode cache _ _ hbitcode hstore =>
      obtain ⟨_, _, hstored⟩ := store_eq_some hstore
      refine h.compiled (hflags hbitcode) hstored.contents (hstored.fresh hsha hbitcode h.fresh)
        (h.units.imp fun _ _ hmatches => hmatches.store hsha hstored hbitcode) ?_ rfl rfl (by simp only; omega)
      exact matches_addFile rfl hstored.readEntry (hstored.contents ▸ hbitcode)
  | held bitcode _ hbitcode _ =>
      exact h.compiled (hflags hbitcode) rfl h.fresh h.units
        (matches_addUnit (parses_of_bitcodeOf hbitcode)) rfl rfl (by simp only; omega)

-- Command by command, the run with a cache comes to the units of the one without.
theorem compileAll_agrees (hsha : Function.Injective toolchain.sha256)
    (hfaithful : toolchain.Faithful commands) (hcache : toolchain.Fresh commands cache) :
    toolchain.Agrees commands (toolchain.compileAll true cache commands)
      (toolchain.compileAll false cache commands) commands.length := by
  have hrun : ∀ (rest : List ReplayedCommand) {state plain : RunState} {handled : Nat},
      (∀ command ∈ rest, command ∈ commands) → toolchain.Agrees commands state plain handled →
      toolchain.Agrees commands (rest.foldl (toolchain.compileCommand true) state)
        (rest.foldl (toolchain.compileCommand false) plain) (handled + rest.length) := by
    intro rest
    induction rest with
    | nil => exact fun _ h => h
    | cons command rest ih =>
        intro state plain handled hmem h
        rw [List.forall_mem_cons] at hmem
        have hnext := ih hmem.2 (h.step hsha hfaithful hmem.1)
        rwa [Nat.add_right_comm, Nat.add_assoc] at hnext
  have hall := hrun commands (fun _ hmem => hmem)
    (⟨rfl, hcache, .nil, rfl, rfl, rfl⟩ : toolchain.Agrees commands { cache := cache } { cache := cache } 0)
  rwa [Nat.zero_add] at hall

end Agreement

end ConcurrencyAnalyzer.Project
