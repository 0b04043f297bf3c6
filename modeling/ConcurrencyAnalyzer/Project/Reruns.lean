import ConcurrencyAnalyzer.Project.RunTheorems

namespace ConcurrencyAnalyzer.Project

open IRCache (Bytes Files)

-- What the run makes of a command that its cache has nothing more to learn from.
def Toolchain.unitOf (toolchain : Toolchain) (cache : Files) (command : ReplayedCommand) :
    Option SourceUnit :=
  match toolchain.reusable cache command with
  | some key => some (addFile toolchain.pathText toolchain.xxh3 (readEntry cache) command.1.file key)
  | none => (toolchain.bitcodeOf cache.contents true command).map (addUnit command.1.file)

def Toolchain.replay (toolchain : Toolchain) (state : RunState) (command : ReplayedCommand) : RunState :=
  match toolchain.unitOf state.cache command with
  | none => { state with failedSources := state.failedSources ++ [command.1.file] }
  | some unit =>
      { state with
        units := state.units ++ [unit]
        reusedUnits := state.reusedUnits + [unit].countP (·.file.isSome)
        compiledUnits := state.compiledUnits + [unit].countP (·.file.isNone) }

-- The entry of a command can be used, or cannot be written.
def Toolchain.Settled (toolchain : Toolchain) (cache : Files) (command : ReplayedCommand) : Prop :=
  toolchain.reusable cache command = none → ∀ bitcode,
    toolchain.bitcodeOf cache.contents true command = some bitcode →
      toolchain.store cache command bitcode = none

section Settling

variable {toolchain : Toolchain} {cache after : Files} {command other : ReplayedCommand} {state : RunState}

-- Whether an entry can be written is told by the sources alone.
theorem store_eq_none_congr (hsha : Function.Injective toolchain.sha256)
    (hcontents : after.contents = cache.contents)
    (hkey : toolchain.keyFor other = toolchain.keyFor command) {bitcode : Bytes}
    (h : toolchain.store cache command bitcode = none) : toolchain.store after other bitcode = none := by
  unfold Toolchain.store at h ⊢
  rw [hcontents, fragmentOf_of_key hsha hkey]
  cases hfragment : toolchain.fragmentOf cache.contents command with
  | none => rfl
  | some fragment =>
      rw [hfragment, Option.bind_some, IRCache.store, Option.map_eq_none_iff] at h
      rw [Option.bind_some, IRCache.store, Option.map_eq_none_iff]
      unfold IRCache.prepareStore at h ⊢
      simp only [readAll_congr hcontents] at h ⊢
      split at h
      · rw [if_pos ‹_›]
      · rw [if_neg ‹_›]
        rw [Option.map_eq_none_iff] at h ⊢
        exact h

theorem Toolchain.Settled.of_entry (hsha : Function.Injective toolchain.sha256)
    (h : toolchain.Settled cache command) (hcontents : after.contents = cache.contents)
    (hentry : after.entries (toolchain.keyFor command) = cache.entries (toolchain.keyFor command)) :
    toolchain.Settled after command := by
  intro hreusable bitcode hbitcode
  rw [reusable_congr hcontents hentry] at hreusable
  rw [hcontents] at hbitcode
  exact store_eq_none_congr hsha hcontents rfl (h hreusable bitcode hbitcode)

theorem unitOf_of_entry (hcontents : after.contents = cache.contents)
    (hentry : after.entries (toolchain.keyFor command) = cache.entries (toolchain.keyFor command)) :
    toolchain.unitOf after command = toolchain.unitOf cache command := by
  unfold Toolchain.unitOf
  rw [reusable_congr hcontents hentry, hcontents]
  cases hreusable : toolchain.reusable cache command with
  | none => rfl
  | some key =>
      have hread : readEntry after (toolchain.keyFor command) = readEntry cache (toolchain.keyFor command) := by
        unfold readEntry
        rw [hentry]
      simp only [reusable_key hreusable, addFile, hread]

-- A settled command leaves the cache as it is.
theorem compileCommand_settled (h : toolchain.Settled state.cache command) :
    toolchain.compileCommand true state command = toolchain.replay state command := by
  have hhandled := @compileCommand_handled toolchain true state command
  generalize toolchain.compileCommand true state command = next at hhandled ⊢
  unfold Toolchain.replay Toolchain.unitOf
  cases hhandled with
  | reused key _ hreusable =>
      simp only [hreusable]
      rfl
  | failed hreusable hbitcode =>
      simp only [hreusable rfl, hbitcode, Option.map_none]
  | stored bitcode cache _ hreusable hbitcode hstore =>
      rw [h hreusable bitcode hbitcode] at hstore
      cases hstore
  | held bitcode hreusable hbitcode _ =>
      simp only [hreusable rfl, hbitcode, Option.map_some]
      rfl

theorem replay_cache : (toolchain.replay state command).cache = state.cache := by
  unfold Toolchain.replay
  split <;> rfl

-- A command that was handled is settled, and its unit is the one the cache has by now.
theorem handled_settled :
    toolchain.Settled (toolchain.compileCommand true state command).cache command ∧
      (toolchain.compileCommand true state command).units = state.units ++
        (toolchain.unitOf (toolchain.compileCommand true state command).cache command).toList ∧
      (toolchain.compileCommand true state command).failedSources = state.failedSources ++
        if (toolchain.unitOf (toolchain.compileCommand true state command).cache command).isNone then
          [command.1.file] else [] := by
  have hhandled := @compileCommand_handled toolchain true state command
  generalize toolchain.compileCommand true state command = next at hhandled ⊢
  unfold Toolchain.unitOf
  cases hhandled with
  | reused key _ hreusable =>
      refine ⟨fun hnone => ?_, by simp [hreusable], by simp [hreusable]⟩
      simp [hreusable] at hnone
  | failed hreusable hbitcode =>
      refine ⟨fun _ bitcode hsome => ?_, by simp [hreusable, hbitcode], by simp [hreusable, hbitcode]⟩
      simp [hbitcode] at hsome
  | stored bitcode cache _ hreusable hbitcode hstore =>
      obtain ⟨_, _, hstored⟩ := store_eq_some hstore
      have hfound := hstored.reusable (parses_of_bitcodeOf hbitcode)
      refine ⟨fun hnone => ?_, by simp [hfound], by simp [hfound]⟩
      simp [hfound] at hnone
  | held bitcode hreusable hbitcode hstore =>
      refine ⟨fun _ other hsome => ?_, by simp [hreusable, hbitcode], by simp [hreusable, hbitcode]⟩
      rw [hbitcode] at hsome
      rw [← Option.some_inj.mp hsome]
      exact hstore rfl

-- What is settled stays so: no other command writes its entry.
theorem settled_kept (hsha : Function.Injective toolchain.sha256)
    (h : toolchain.Settled state.cache command) :
    toolchain.Settled (toolchain.compileCommand true state other).cache command ∧
      toolchain.unitOf (toolchain.compileCommand true state other).cache command =
        toolchain.unitOf state.cache command := by
  have hhandled := @compileCommand_handled toolchain true state other
  generalize toolchain.compileCommand true state other = next at hhandled ⊢
  cases hhandled with
  | reused => exact ⟨h, rfl⟩
  | failed => exact ⟨h, rfl⟩
  | held => exact ⟨h, rfl⟩
  | stored bitcode cache _ hreusable hbitcode hstore =>
      obtain ⟨_, _, hstored⟩ := store_eq_some hstore
      have hkey : toolchain.keyFor command ≠ toolchain.keyFor other := by
        intro hkey
        rw [← reusable_of_key hkey] at hreusable
        rw [← bitcodeOf_of_key hsha hkey] at hbitcode
        rw [store_eq_none_congr hsha rfl hkey.symm (h hreusable bitcode hbitcode)] at hstore
        cases hstore
      exact ⟨h.of_entry hsha hstored.contents (hstored.others _ hkey),
        unitOf_of_entry hstored.contents (hstored.others _ hkey)⟩

end Settling

section Runs

variable {toolchain : Toolchain} {cache : Files}

-- A run so far: the commands it handled are settled, and its units are those the cache has for them.
structure Toolchain.Replayable (toolchain : Toolchain) (handled : List ReplayedCommand)
    (state : RunState) : Prop where
  settled : ∀ command ∈ handled, toolchain.Settled state.cache command
  units : state.units = handled.filterMap (toolchain.unitOf state.cache)
  failed : state.failedSources =
    (handled.filter fun command => (toolchain.unitOf state.cache command).isNone).map (·.1.file)

theorem Toolchain.Replayable.step (hsha : Function.Injective toolchain.sha256)
    {handled : List ReplayedCommand} {state : RunState} (h : toolchain.Replayable handled state)
    (command : ReplayedCommand) :
    toolchain.Replayable (handled ++ [command]) (toolchain.compileCommand true state command) := by
  obtain ⟨hsettled, hunits, hfailed⟩ := @handled_settled toolchain command state
  have hkept := fun other hmem => @settled_kept toolchain other command state hsha (h.settled other hmem)
  refine ⟨fun other hmem => ?_, ?_, ?_⟩
  · rcases List.mem_append.mp hmem with hold | hnew
    · exact (hkept other hold).1
    · rw [List.mem_singleton.mp hnew]
      exact hsettled
  · rw [hunits, h.units, List.filterMap_append,
      List.filterMap_congr fun other hmem => (hkept other hmem).2]
    cases hunit : toolchain.unitOf (toolchain.compileCommand true state command).cache command with
    | none => simp [hunit]
    | some unit => simp [hunit]
  · rw [hfailed, h.failed, List.filter_append, List.map_append,
      List.filter_congr fun other hmem => congrArg Option.isNone (hkept other hmem).2]
    cases hunit : toolchain.unitOf (toolchain.compileCommand true state command).cache command with
    | none => simp [hunit]
    | some unit => simp [hunit]

theorem compileAll_replayable (hsha : Function.Injective toolchain.sha256) (cache : Files)
    (commands : List ReplayedCommand) :
    toolchain.Replayable commands (toolchain.compileAll true cache commands) := by
  have hrun : ∀ (rest handled : List ReplayedCommand) (state : RunState),
      toolchain.Replayable handled state →
      toolchain.Replayable (handled ++ rest) (rest.foldl (toolchain.compileCommand true) state) := by
    intro rest
    induction rest with
    | nil => exact fun handled state h => by rwa [List.append_nil]
    | cons command rest ih =>
        intro handled state h
        have hnext := ih _ _ (h.step hsha command)
        rwa [List.append_assoc] at hnext
  exact hrun commands [] { cache := cache } ⟨by simp, rfl, rfl⟩

-- A run over commands that are settled.
theorem compileAll_settled {commands : List ReplayedCommand}
    (h : ∀ command ∈ commands, toolchain.Settled cache command) :
    toolchain.compileAll true cache commands =
      { cache := cache
        units := commands.filterMap (toolchain.unitOf cache)
        failedSources :=
          (commands.filter fun command => (toolchain.unitOf cache command).isNone).map (·.1.file)
        reusedUnits := (commands.filterMap (toolchain.unitOf cache)).countP (·.file.isSome)
        compiledUnits := (commands.filterMap (toolchain.unitOf cache)).countP (·.file.isNone) } := by
  have hrun : ∀ (rest : List ReplayedCommand) (state : RunState),
      (∀ command ∈ rest, toolchain.Settled state.cache command) →
      rest.foldl (toolchain.compileCommand true) state =
        { cache := state.cache
          units := state.units ++ rest.filterMap (toolchain.unitOf state.cache)
          failedSources := state.failedSources ++
            (rest.filter fun command => (toolchain.unitOf state.cache command).isNone).map (·.1.file)
          reusedUnits := state.reusedUnits +
            (rest.filterMap (toolchain.unitOf state.cache)).countP (·.file.isSome)
          compiledUnits := state.compiledUnits +
            (rest.filterMap (toolchain.unitOf state.cache)).countP (·.file.isNone) } := by
    intro rest
    induction rest with
    | nil => intro state _; simp
    | cons command rest ih =>
        intro state hsettled
        rw [List.forall_mem_cons] at hsettled
        rw [List.foldl_cons, compileCommand_settled hsettled.1, ih _ (by rw [replay_cache]; exact hsettled.2),
          replay_cache]
        unfold Toolchain.replay
        cases hunit : toolchain.unitOf state.cache command with
        | none => simp [hunit]
        | some unit => simp [hunit, Nat.add_assoc, Nat.add_comm, List.countP_cons]
  have hall := hrun commands { cache := cache } h
  simpa [Toolchain.compileAll] using hall

-- A run right after another, over the same commands, repeats it: it leaves the cache alone, comes to the
-- same units and failures, and compiles just the units the cache could not hold.
theorem rerun_repeats (toolchain : Toolchain) (hsha : Function.Injective toolchain.sha256) (cache : Files)
    (commands : List ReplayedCommand) :
    toolchain.compileAll true (toolchain.compileAll true cache commands).cache commands =
      { toolchain.compileAll true cache commands with
        reusedUnits := (toolchain.compileAll true cache commands).units.countP (·.file.isSome)
        compiledUnits := (toolchain.compileAll true cache commands).units.countP (·.file.isNone) } := by
  obtain ⟨hsettled, hunits, hfailed⟩ := compileAll_replayable hsha cache commands
  rw [compileAll_settled hsettled, ← hunits, ← hfailed]

end Runs

section Echo

-- A compiler whose bitcode is the source.
def echo : Toolchain where
  probe contents file := {
    isPresent := .ok (contents (bytesOf file)).isSome
    isRegular := .ok true
    isReadable := true }
  backend contents _ args _ := {
    success := true
    payload := (args.getLast?.bind fun input => contents (bytesOf input)).getD [] }
  dependencyFile _ args := args.getLast?.map fun input => bytesOf ("u: " ++ input)
  parseBC bytes := if bytes = [] then .error (IRFormat.parseFailed .BC) else .ok unreadModule
  sha256 := id
  xxh3 bytes := bytes.length.toUInt64
  pathText _ := "u.bc"
  depfileText _ := "u.d"

def echoCommand : ReplayedCommand :=
  ⟨{ file := "a.c", arguments := ["-DX"] }, by decide, by decide⟩

def echoSources : SourceContents := fun path => if path = bytesOf "a.c" then some [1, 2] else none

def echoCache : Files := (echo.compileAll true { contents := echoSources } [echoCommand]).cache

theorem rerun_repeats_echo :
    (echo.compileAll true echoCache [echoCommand]).units =
      (echo.compileAll true { contents := echoSources } [echoCommand]).units := by
  unfold echoCache
  rw [rerun_repeats echo (fun _ _ h => h)]

end Echo

end ConcurrencyAnalyzer.Project
