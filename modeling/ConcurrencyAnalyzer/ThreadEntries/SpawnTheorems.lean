import ConcurrencyAnalyzer.ThreadEntries.SpawnDetector
import ConcurrencyAnalyzer.Library.Saturation

namespace ConcurrencyAnalyzer.ThreadEntries

open Library

section Keys

theorem bar_notMem_natText (number : Nat) : '|' ∉ (toString number).toList :=
  notMem_natText (by decide) number

-- A tail starts at a bar and tells whether the spawn is in a loop behind its last one.
theorem toList_spawnKeyTail (location : SourceLocation) (insideLoop : Bool) :
    ∃ middle, (spawnKeyTail location insideLoop).toList =
      '|' :: (middle ++ '|' :: (toString insideLoop.toNat).toList) := by
  refine ⟨(location.file ++ "|" ++ toString location.line ++ "|" ++ toString location.column ++ "|" ++
    location.function).toList, ?_⟩
  simp [spawnKeyTail, String.toList_append]

-- Spawns of one key differ at most in where they are.
theorem parameterizedSpawnKey_eq {spawn other : ParameterizedSpawn}
    (h : parameterizedSpawnKey spawn = parameterizedSpawnKey other) :
    spawn.argumentIndex = other.argumentIndex ∧ spawn.insideLoop = other.insideLoop := by
  have htext := congrArg String.toList h
  obtain ⟨middle, hmiddle⟩ := toList_spawnKeyTail spawn.location spawn.insideLoop
  obtain ⟨middle', hmiddle'⟩ := toList_spawnKeyTail other.location other.insideLoop
  simp only [parameterizedSpawnKey, String.toList_append, hmiddle, hmiddle'] at htext
  obtain ⟨hindex, hrest⟩ := Delimiter.split_single (bar_notMem_natText _) (bar_notMem_natText _) htext
  obtain ⟨-, hloop⟩ := Delimiter.split_last (bar_notMem_natText _) (bar_notMem_natText _) hrest
  refine ⟨natText_injective hindex, ?_⟩
  have hnumbers := natText_injective hloop
  cases hspawn : spawn.insideLoop <;> cases hother : other.insideLoop <;> simp_all

theorem summaryKey_eq {summary other : SpawnSummary} (h : summaryKey summary = summaryKey other) :
    summary.1 = other.1 ∧ summary.2.argumentIndex = other.2.argumentIndex ∧
      summary.2.insideLoop = other.2.insideLoop := by
  obtain ⟨hid, hkey⟩ := Prod.mk.inj h
  exact ⟨hid, parameterizedSpawnKey_eq hkey⟩

end Keys

section Collections

variable {module : Module} {includeExternalEntries : Bool} {collection : ThreadSpawnCollection}
  {fact : SpawnFact} {starts : SpawnFact → Prop}

variable (module includeExternalEntries) in
-- An entry without a body is only recorded where the program may define it elsewhere.
def Allowed (entry : String) : Prop :=
  module.defines entry = true ∨ includeExternalEntries = true

variable (module includeExternalEntries starts) in
-- What holds of a collection while spawns are added to it.
structure Recorded (collection : ThreadSpawnCollection) : Prop where
  nodup : (collection.spawns.map concreteSpawnKey).Nodup
  sound : ∀ spawn ∈ collection.spawns,
    starts spawn ∧ Allowed module includeExternalEntries spawn.entryFunctionId
  counted : ∀ entry, collection.entryConcurrency entry = concurrencyOf collection.spawns entry

variable (module includeExternalEntries) in
theorem addConcreteSpawn_cases (collection : ThreadSpawnCollection) (fact : SpawnFact) :
    (addConcreteSpawn module includeExternalEntries collection fact = collection ∧
      (Allowed module includeExternalEntries fact.entryFunctionId →
        concreteSpawnKey fact ∈ collection.spawns.map concreteSpawnKey)) ∨
    (Allowed module includeExternalEntries fact.entryFunctionId ∧
      concreteSpawnKey fact ∉ collection.spawns.map concreteSpawnKey ∧
      (addConcreteSpawn module includeExternalEntries collection fact).spawns = collection.spawns ++ [fact] ∧
      (addConcreteSpawn module includeExternalEntries collection fact).entryConcurrency =
        Function.update collection.entryConcurrency fact.entryFunctionId (some {
          staticSpawnCount :=
            ((collection.entryConcurrency fact.entryFunctionId).getD {}).staticSpawnCount + 1
          hasSpawnInLoop :=
            ((collection.entryConcurrency fact.entryFunctionId).getD {}).hasSpawnInLoop ||
              fact.insideLoop })) := by
  unfold addConcreteSpawn
  by_cases hallowed : (!module.defines fact.entryFunctionId && !includeExternalEntries) = true
  · rw [if_pos hallowed]
    refine .inl ⟨rfl, fun h => ?_⟩
    unfold Allowed at h
    simp only [Bool.and_eq_true, Bool.not_eq_true'] at hallowed
    simp [hallowed] at h
  · rw [if_neg hallowed]
    have hallows : Allowed module includeExternalEntries fact.entryFunctionId := by
      unfold Allowed
      simp only [Bool.and_eq_true, Bool.not_eq_true', not_and, Bool.not_eq_false] at hallowed
      cases hdefined : module.defines fact.entryFunctionId with
      | true => exact .inl rfl
      | false => exact .inr (hallowed hdefined)
    have hmem : collection.spawns.any (concreteSpawnKey · = concreteSpawnKey fact) = true ↔
        concreteSpawnKey fact ∈ collection.spawns.map concreteSpawnKey := by
      simp [List.mem_map]
    by_cases hknown : collection.spawns.any (concreteSpawnKey · = concreteSpawnKey fact) = true
    · rw [if_pos hknown]
      exact .inl ⟨rfl, fun _ => hmem.mp hknown⟩
    · rw [if_neg hknown]
      exact .inr ⟨hallows, fun h => hknown (hmem.mpr h), rfl, rfl⟩

theorem concurrencyOf_append (spawns : List SpawnFact) (fact : SpawnFact) (entry : String) :
    concurrencyOf (spawns ++ [fact]) entry =
      if fact.entryFunctionId = entry then
        some {
          staticSpawnCount := ((concurrencyOf spawns entry).getD {}).staticSpawnCount + 1
          hasSpawnInLoop := ((concurrencyOf spawns entry).getD {}).hasSpawnInLoop || fact.insideLoop }
      else concurrencyOf spawns entry := by
  unfold concurrencyOf
  simp only [List.filter_append, List.filter_singleton]
  by_cases hentry : fact.entryFunctionId = entry
  · cases hown : spawns.filter (·.entryFunctionId = entry) with
    | nil => simp [hentry]
    | cons first rest => simp [hentry, Bool.or_assoc]
  · simp [hentry]

theorem Recorded.add (h : Recorded module includeExternalEntries starts collection) (hstarts : starts fact) :
    Recorded module includeExternalEntries starts
      (addConcreteSpawn module includeExternalEntries collection fact) := by
  rcases addConcreteSpawn_cases module includeExternalEntries collection fact with ⟨hsame, -⟩ | ⟨hallowed, hnew, hspawns, hconcurrency⟩
  · rwa [hsame]
  · refine ⟨?_, ?_, fun entry => ?_⟩
    · rw [hspawns, List.map_append, List.nodup_append]
      refine ⟨h.nodup, by simp, ?_⟩
      rintro key hkey other hother rfl
      obtain rfl : key = concreteSpawnKey fact := by simpa using hother
      exact hnew hkey
    · intro spawn hmem
      rw [hspawns, List.mem_append, List.mem_singleton] at hmem
      rcases hmem with hold | rfl
      · exact h.sound spawn hold
      · exact ⟨hstarts, hallowed⟩
    · rw [hspawns, hconcurrency, concurrencyOf_append, h.counted]
      by_cases hentry : fact.entryFunctionId = entry
      · subst hentry
        rw [Function.update_self, if_pos rfl]
      · rw [Function.update_of_ne (Ne.symm hentry), if_neg hentry, h.counted]

theorem mem_keys_addConcreteSpawn {key : String} (h : key ∈ collection.spawns.map concreteSpawnKey) :
    key ∈ (addConcreteSpawn module includeExternalEntries collection fact).spawns.map concreteSpawnKey := by
  rcases addConcreteSpawn_cases module includeExternalEntries collection fact with ⟨hsame, -⟩ | ⟨-, -, hspawns, -⟩
  · rwa [hsame]
  · rw [hspawns, List.map_append]
    exact List.mem_append_left _ h

theorem key_mem_addConcreteSpawn (h : Allowed module includeExternalEntries fact.entryFunctionId) :
    concreteSpawnKey fact ∈
      (addConcreteSpawn module includeExternalEntries collection fact).spawns.map concreteSpawnKey := by
  rcases addConcreteSpawn_cases module includeExternalEntries collection fact with ⟨hsame, hknown⟩ | ⟨-, -, hspawns, -⟩
  · rw [hsame]
    exact hknown h
  · rw [hspawns, List.map_append]
    exact List.mem_append_right _ (by simp)

end Collections

section States

variable {module : Module} {includeExternalEntries : Bool} {sites : List DirectCallSite}
  {state : SpawnState}

-- The summary of its caller that a call makes of one of its callee.
def deriveSpawn (binding : DirectFunctionCallBinding) (summary : SpawnSummary) : Option SpawnSummary :=
  if summary.1 = binding.calleeFunctionId then
    match binding.argument summary.2.argumentIndex with
    | some (.argument index) =>
        some (binding.callerFunctionId,
          ⟨index, binding.location, summary.2.insideLoop || binding.insideLoop⟩)
    | _ => none
  else none

theorem deriveSpawn_eq_some {binding : DirectFunctionCallBinding} {summary next : SpawnSummary} :
    deriveSpawn binding summary = some next ↔ summary.1 = binding.calleeFunctionId ∧
      ∃ index, binding.argument summary.2.argumentIndex = some (.argument index) ∧
        next = (binding.callerFunctionId,
          ⟨index, binding.location, summary.2.insideLoop || binding.insideLoop⟩) := by
  unfold deriveSpawn
  by_cases hcallee : summary.1 = binding.calleeFunctionId
  · rw [if_pos hcallee]
    cases hargument : binding.argument summary.2.argumentIndex with
    | none => simp
    | some handed =>
        cases handed with
        | function entry => simp
        | argument index => simp [hcallee, eq_comm]
  · rw [if_neg hcallee]
    simp [hcallee]

theorem deriveSpawn_congruent (bindings : List DirectFunctionCallBinding) :
    KeyedGrowth.Congruent summaryKey deriveSpawn bindings := by
  intro binding _ summary other hkey
  obtain ⟨hid, hindex, hloop⟩ := summaryKey_eq hkey
  unfold deriveSpawn
  rw [hid, hindex, hloop]

theorem handSpawn_summaries (binding : DirectFunctionCallBinding) (state : SpawnState)
    (spawn : ParameterizedSpawn) :
    (handSpawn module includeExternalEntries binding state spawn).summaries =
      (deriveSpawn binding (binding.calleeFunctionId, spawn)).toList.foldl
        (KeyedGrowth.insert summaryKey) state.summaries := by
  unfold handSpawn deriveSpawn
  simp only [if_true]
  cases binding.argument spawn.argumentIndex with
  | none => rfl
  | some handed => cases handed <;> rfl

-- The summaries go their own way: the rule of a call, applied to what is known of its callee.
theorem handSpawns_summaries (state : SpawnState) (binding : DirectFunctionCallBinding) :
    (handSpawns module includeExternalEntries state binding).summaries =
      KeyedGrowth.apply summaryKey deriveSpawn state.summaries binding := by
  have hfold (summaries : List SpawnSummary) (state : SpawnState) :
      ((spawnsOf summaries binding.calleeFunctionId).foldl
        (handSpawn module includeExternalEntries binding) state).summaries =
        (summaries.filterMap (deriveSpawn binding)).foldl (KeyedGrowth.insert summaryKey)
          state.summaries := by
    induction summaries generalizing state with
    | nil => rfl
    | cons summary rest ih =>
        by_cases hcallee : summary.1 = binding.calleeFunctionId
        · have hspawns : spawnsOf (summary :: rest) binding.calleeFunctionId =
              summary.2 :: spawnsOf rest binding.calleeFunctionId := by simp [spawnsOf, hcallee]
          have hsummary : summary = (binding.calleeFunctionId, summary.2) := by rw [← hcallee]
          rw [hspawns, List.foldl_cons, ih, handSpawn_summaries, List.filterMap_cons, ← hsummary]
          cases deriveSpawn binding summary <;> rfl
        · have hspawns : spawnsOf (summary :: rest) binding.calleeFunctionId =
              spawnsOf rest binding.calleeFunctionId := by simp [spawnsOf, hcallee]
          have hnone : deriveSpawn binding summary = none := if_neg hcallee
          rw [hspawns, ih, List.filterMap_cons, hnone]
  exact hfold state.summaries state

theorem spawnRound_summaries (bindings : List DirectFunctionCallBinding) (state : SpawnState) :
    (spawnRound module includeExternalEntries bindings state).summaries =
      KeyedGrowth.round summaryKey deriveSpawn bindings state.summaries := by
  induction bindings generalizing state with
  | nil => rfl
  | cons binding rest ih =>
      rw [spawnRound, List.foldl_cons, ← spawnRound, ih, handSpawns_summaries]
      rfl

theorem mem_possibleSummaries {bindings : List DirectFunctionCallBinding}
    {binding : DirectFunctionCallBinding} (hmem : binding ∈ bindings) {summary next : SpawnSummary}
    (h : deriveSpawn binding summary = some next) : next ∈ possibleSummaries bindings := by
  obtain ⟨-, index, hargument, rfl⟩ := deriveSpawn_eq_some.mp h
  refine List.mem_flatMap.mpr ⟨binding, hmem, List.mem_flatMap.mpr ⟨some (.argument index), ?_, ?_⟩⟩
  · unfold DirectFunctionCallBinding.argument at hargument
    exact List.mem_of_getElem? (Option.join_eq_some_iff.mp hargument)
  · cases summary.2.insideLoop || binding.insideLoop <;> simp

end States

section Loop

variable {module : Module} {includeExternalEntries : Bool} {sites : List DirectCallSite}
  {state : SpawnState}

-- The summary of a function that one of its own calls makes.
def ownSummary (place : Function × Block × Call) : Option SpawnSummary :=
  match threadEntryBindingFromCall place.2.2 with
  | some (.argument index) =>
      some (place.1.id, ⟨index, place.2.2.loweredLocation, place.2.1.insideLoop⟩)
  | _ => none

variable (module) in
def ownSummaries : List SpawnSummary :=
  (reachableCalls module).filterMap ownSummary

theorem mem_ownSummaries {summary : SpawnSummary} :
    summary ∈ ownSummaries module ↔ ∃ function block call index,
      (function, block, call) ∈ reachableCalls module ∧
      threadEntryBindingFromCall call = some (.argument index) ∧
      summary = (function.id, ⟨index, call.loweredLocation, block.insideLoop⟩) := by
  unfold ownSummaries
  rw [List.mem_filterMap]
  constructor
  · rintro ⟨⟨function, block, call⟩, hmem, hsome⟩
    unfold ownSummary at hsome
    cases hbinding : threadEntryBindingFromCall call with
    | none => simp [hbinding] at hsome
    | some binding =>
        cases binding with
        | function entry => simp [hbinding] at hsome
        | argument index =>
            simp only [hbinding, Option.some.injEq] at hsome
            exact ⟨function, block, call, index, hmem, hbinding, hsome.symm⟩
  · rintro ⟨function, block, call, index, hmem, hbinding, rfl⟩
    exact ⟨(function, block, call), hmem, by simp only [ownSummary, hbinding]⟩

-- What a function starts on its parameters is what the rules of the calls derive from that.
theorem startsParameter_iff {functionId : String} {spawn : ParameterizedSpawn} :
    StartsParameter module sites functionId spawn ↔
      KeyedGrowth.Derived deriveSpawn (buildDirectCallBindings module sites) (ownSummaries module)
        (functionId, spawn) := by
  constructor
  · intro h
    induction h with
    | own hmem hbinding => exact .start (mem_ownSummaries.mpr ⟨_, _, _, _, hmem, hbinding, rfl⟩)
    | through hbinding _ hargument ih =>
        exact ih.step hbinding (deriveSpawn_eq_some.mpr ⟨rfl, _, hargument, rfl⟩)
  · intro h
    generalize hsummary : (functionId, spawn) = summary at h
    induction h generalizing functionId spawn with
    | start hmem =>
        subst hsummary
        obtain ⟨function, block, call, index, hcall, hbinding, hsame⟩ := mem_ownSummaries.mp hmem
        obtain ⟨rfl, rfl⟩ := Prod.mk.inj hsame
        exact .own hcall hbinding
    | @step binding before next _ hbinding hderive ih =>
        subst hsummary
        obtain ⟨hcallee, index, hargument, hsame⟩ := deriveSpawn_eq_some.mp hderive
        obtain ⟨rfl, rfl⟩ := Prod.mk.inj hsame
        exact .through hbinding (ih (by rw [← hcallee])) hargument

-- Every spawn of the loop is one that a call in some function starts.
theorem handSpawns_recorded {binding : DirectFunctionCallBinding}
    (hbinding : binding ∈ buildDirectCallBindings module sites)
    (hsummaries : ∀ summary ∈ state.summaries, StartsParameter module sites summary.1 summary.2)
    (h : Recorded module includeExternalEntries (StartsEntry module sites) state.collection) :
    Recorded module includeExternalEntries (StartsEntry module sites)
      (handSpawns module includeExternalEntries state binding).collection := by
  have hspawn : ∀ spawn ∈ spawnsOf state.summaries binding.calleeFunctionId,
      StartsParameter module sites binding.calleeFunctionId spawn := by
    intro spawn hmem
    obtain ⟨⟨functionId, other⟩, hfilter, rfl⟩ := List.mem_map.mp hmem
    obtain ⟨hmem, hcallee⟩ := List.mem_filter.mp hfilter
    obtain rfl : functionId = binding.calleeFunctionId := by simpa using hcallee
    exact hsummaries _ hmem
  unfold handSpawns
  refine List.foldlRecOn (motive := fun state : SpawnState =>
    Recorded module includeExternalEntries (StartsEntry module sites) state.collection) _ _ h ?_
  intro state hstate spawn hmem
  unfold handSpawn
  cases hargument : binding.argument spawn.argumentIndex with
  | none => exact hstate
  | some handed =>
      cases handed with
      | argument index => exact hstate
      | function entry => exact hstate.add (.through hbinding (hspawn spawn hmem) hargument)

theorem mem_keys_handSpawns {binding : DirectFunctionCallBinding} {key : String}
    (h : key ∈ state.collection.spawns.map concreteSpawnKey) :
    key ∈ (handSpawns module includeExternalEntries state binding).collection.spawns.map
      concreteSpawnKey := by
  unfold handSpawns
  refine List.foldlRecOn (motive := fun state : SpawnState =>
    key ∈ state.collection.spawns.map concreteSpawnKey) _ _ h ?_
  intro state hstate spawn _
  unfold handSpawn
  cases binding.argument spawn.argumentIndex with
  | none => exact hstate
  | some handed =>
      cases handed with
      | argument index => exact hstate
      | function entry => exact mem_keys_addConcreteSpawn hstate

theorem mem_keys_spawnRound {bindings : List DirectFunctionCallBinding} {key : String}
    (h : key ∈ state.collection.spawns.map concreteSpawnKey) :
    key ∈ (spawnRound module includeExternalEntries bindings state).collection.spawns.map
      concreteSpawnKey :=
  List.foldlRecOn (motive := fun state : SpawnState =>
    key ∈ state.collection.spawns.map concreteSpawnKey) bindings _ h
    fun _ hstate _ _ => mem_keys_handSpawns hstate

-- A call that its turn finds a callee known for starting a thread on its argument records that thread.
theorem key_mem_handSpawns {binding : DirectFunctionCallBinding} {spawn : ParameterizedSpawn}
    {entry : String} (hsummary : (binding.calleeFunctionId, spawn) ∈ state.summaries)
    (hargument : binding.argument spawn.argumentIndex = some (.function entry))
    (hallowed : Allowed module includeExternalEntries entry) :
    concreteSpawnKey ⟨entry, binding.location, spawn.insideLoop || binding.insideLoop⟩ ∈
      (handSpawns module includeExternalEntries state binding).collection.spawns.map concreteSpawnKey := by
  have hmem : spawn ∈ spawnsOf state.summaries binding.calleeFunctionId :=
    List.mem_map.mpr ⟨_, List.mem_filter.mpr ⟨hsummary, by simp⟩, rfl⟩
  unfold handSpawns
  generalize spawnsOf state.summaries binding.calleeFunctionId = spawns at hmem
  clear hsummary
  induction spawns generalizing state with
  | nil => cases hmem
  | cons first rest ih =>
      rw [List.foldl_cons]
      rcases List.mem_cons.mp hmem with rfl | hrest
      · refine List.foldlRecOn (motive := fun state : SpawnState =>
          _ ∈ state.collection.spawns.map concreteSpawnKey) rest _ ?_ ?_
        · unfold handSpawn
          rw [hargument]
          exact key_mem_addConcreteSpawn hallowed
        · intro state hstate other _
          unfold handSpawn
          cases binding.argument other.argumentIndex with
          | none => exact hstate
          | some handed =>
              cases handed with
              | argument index => exact hstate
              | function entry => exact mem_keys_addConcreteSpawn hstate
      · exact ih hrest

-- A round that leaves the summaries alone meets every call with all of them.
theorem key_mem_spawnRound {bindings : List DirectFunctionCallBinding}
    (hfixed : KeyedGrowth.round summaryKey deriveSpawn bindings state.summaries = state.summaries)
    {binding : DirectFunctionCallBinding} (hbinding : binding ∈ bindings) {spawn : ParameterizedSpawn}
    {entry : String} (hsummary : (binding.calleeFunctionId, spawn) ∈ state.summaries)
    (hargument : binding.argument spawn.argumentIndex = some (.function entry))
    (hallowed : Allowed module includeExternalEntries entry) :
    concreteSpawnKey ⟨entry, binding.location, spawn.insideLoop || binding.insideLoop⟩ ∈
      (spawnRound module includeExternalEntries bindings state).collection.spawns.map concreteSpawnKey := by
  have happly : ∀ other ∈ bindings,
      KeyedGrowth.apply summaryKey deriveSpawn state.summaries other = state.summaries :=
    fun _ hmem => KeyedGrowth.apply_eq_of_round_eq hfixed hmem
  clear hfixed
  generalize hsummaries : state.summaries = summaries at hsummary happly
  induction bindings generalizing state with
  | nil => cases hbinding
  | cons first rest ih =>
      rw [spawnRound, List.foldl_cons, ← spawnRound]
      rcases List.mem_cons.mp hbinding with rfl | hrest
      · exact mem_keys_spawnRound (key_mem_handSpawns (hsummaries ▸ hsummary) hargument hallowed)
      · refine ih hrest ?_ fun other hmem => happly other (List.mem_cons_of_mem _ hmem)
        rw [handSpawns_summaries, hsummaries]
        exact happly first (List.mem_cons_self ..)

-- The own spawns: one step of the scan.
theorem visitSpawn_summaries (state : SpawnState) (place : Function × Block × Call) :
    (visitSpawn module includeExternalEntries state place).summaries =
      (ownSummary place).toList.foldl (KeyedGrowth.insert summaryKey) state.summaries := by
  unfold visitSpawn ownSummary
  cases threadEntryBindingFromCall place.2.2 with
  | none => rfl
  | some binding => cases binding <;> rfl

theorem collectOwnSpawns_summaries :
    (collectOwnSpawns module includeExternalEntries).summaries =
      (ownSummaries module).foldl (KeyedGrowth.insert summaryKey) [] := by
  have hfold (places : List (Function × Block × Call)) (state : SpawnState) :
      (places.foldl (visitSpawn module includeExternalEntries) state).summaries =
        (places.filterMap ownSummary).foldl (KeyedGrowth.insert summaryKey) state.summaries := by
    induction places generalizing state with
    | nil => rfl
    | cons place rest ih =>
        rw [List.foldl_cons, ih, visitSpawn_summaries, List.filterMap_cons]
        cases ownSummary place <;> rfl
  exact hfold (reachableCalls module) {}

theorem collectOwnSpawns_recorded :
    Recorded module includeExternalEntries (StartsEntry module sites)
      (collectOwnSpawns module includeExternalEntries).collection := by
  unfold collectOwnSpawns
  refine List.foldlRecOn (motive := fun state : SpawnState =>
    Recorded module includeExternalEntries (StartsEntry module sites) state.collection) _ _ ?_ ?_
  · exact ⟨by simp, by simp, fun _ => rfl⟩
  · intro state hstate ⟨function, block, call⟩ hmem
    unfold visitSpawn
    cases hbinding : threadEntryBindingFromCall call with
    | none => exact hstate
    | some binding =>
        cases binding with
        | argument index => exact hstate
        | function entry => exact hstate.add (.own hmem hbinding)

theorem key_mem_collectOwnSpawns {function : Function} {block : Block} {call : Call} {entry : String}
    (hmem : (function, block, call) ∈ reachableCalls module)
    (hbinding : threadEntryBindingFromCall call = some (.function entry))
    (hallowed : Allowed module includeExternalEntries entry) :
    concreteSpawnKey ⟨entry, call.loweredLocation, block.insideLoop⟩ ∈
      (collectOwnSpawns module includeExternalEntries).collection.spawns.map concreteSpawnKey := by
  have hkept (places : List (Function × Block × Call)) {state : SpawnState} {key : String}
      (h : key ∈ state.collection.spawns.map concreteSpawnKey) :
      key ∈ (places.foldl (visitSpawn module includeExternalEntries) state).collection.spawns.map
        concreteSpawnKey := by
    refine List.foldlRecOn (motive := fun state : SpawnState =>
      key ∈ state.collection.spawns.map concreteSpawnKey) places _ h ?_
    intro state hstate place _
    unfold visitSpawn
    cases threadEntryBindingFromCall place.2.2 with
    | none => exact hstate
    | some binding =>
        cases binding with
        | argument index => exact hstate
        | function entry => exact mem_keys_addConcreteSpawn hstate
  obtain ⟨before, after, hsplit⟩ := List.append_of_mem hmem
  unfold collectOwnSpawns
  rw [hsplit, List.foldl_append, List.foldl_cons]
  refine hkept after ?_
  unfold visitSpawn
  simp only [hbinding]
  exact key_mem_addConcreteSpawn hallowed

variable (module includeExternalEntries sites) in
-- What holds of the state while the loop runs.
structure SpawnInvariant (state : SpawnState) : Prop where
  grown : KeyedGrowth.Grown summaryKey deriveSpawn (buildDirectCallBindings module sites)
    ((ownSummaries module).foldl (KeyedGrowth.insert summaryKey) []) state.summaries
    (((collectOwnSpawns module includeExternalEntries).summaries ++
      possibleSummaries (buildDirectCallBindings module sites)).map summaryKey).toFinset
  recorded : Recorded module includeExternalEntries (StartsEntry module sites) state.collection
  own : ∀ key ∈ (collectOwnSpawns module includeExternalEntries).collection.spawns.map concreteSpawnKey,
    key ∈ state.collection.spawns.map concreteSpawnKey

theorem possibleSummaries_bound : ∀ binding ∈ buildDirectCallBindings module sites, ∀ summary next,
    deriveSpawn binding summary = some next →
      summaryKey next ∈ (((collectOwnSpawns module includeExternalEntries).summaries ++
        possibleSummaries (buildDirectCallBindings module sites)).map summaryKey).toFinset := by
  intro binding hbinding summary next hderive
  rw [List.mem_toFinset]
  exact List.mem_map_of_mem (List.mem_append_right _ (mem_possibleSummaries hbinding hderive))

theorem SpawnInvariant.starts (h : SpawnInvariant module includeExternalEntries sites state) :
    ∀ summary ∈ state.summaries, StartsParameter module sites summary.1 summary.2 := by
  intro summary hmem
  refine startsParameter_iff.mpr ((h.grown.sound summary hmem).mono fun other hother => ?_)
  exact (KeyedGrowth.mem_foldl_insert _ hother).resolve_left List.not_mem_nil

theorem SpawnInvariant.start :
    SpawnInvariant module includeExternalEntries sites (collectOwnSpawns module includeExternalEntries) where
  grown := by
    rw [collectOwnSpawns_summaries]
    refine ⟨KeyedGrowth.foldl_insert_nodup _ (by simp), fun key hkey => ?_, fun _ => .start, fun _ h => h⟩
    rw [List.mem_toFinset, List.map_append]
    exact List.mem_append_left _ hkey
  recorded := collectOwnSpawns_recorded
  own := fun _ hkey => hkey

theorem SpawnInvariant.round (h : SpawnInvariant module includeExternalEntries sites state) :
    SpawnInvariant module includeExternalEntries sites
      (spawnRound module includeExternalEntries (buildDirectCallBindings module sites) state) where
  grown := by
    rw [spawnRound_summaries]
    exact h.grown.round possibleSummaries_bound
  recorded := by
    -- Each call of the round meets summaries that are all sound.
    refine (List.foldlRecOn (motive := fun state : SpawnState =>
      (∀ summary ∈ state.summaries, StartsParameter module sites summary.1 summary.2) ∧
        Recorded module includeExternalEntries (StartsEntry module sites) state.collection) _ _
      ⟨h.starts, h.recorded⟩ ?_).2
    intro state hstate binding hbinding
    refine ⟨fun summary hmem => ?_, handSpawns_recorded hbinding hstate.1 hstate.2⟩
    rw [handSpawns_summaries] at hmem
    rcases KeyedGrowth.mem_foldl_insert _ hmem with hold | hnew
    · exact hstate.1 summary hold
    · obtain ⟨before, hbefore, hderive⟩ := List.mem_filterMap.mp hnew
      have hstarts := startsParameter_iff.mp (hstate.1 before hbefore)
      exact startsParameter_iff.mpr (hstarts.step hbinding hderive)
  own := fun key hkey => mem_keys_spawnRound (h.own key hkey)

-- The loop ends with a round that leaves the summaries alone.
theorem spawnLoop_ends :
    EndsAfter unchangedSummaries
      (spawnRound module includeExternalEntries (buildDirectCallBindings module sites))
      (collectOwnSpawns module includeExternalEntries) (spawnLoop module includeExternalEntries sites) := by
  have hcard : (((collectOwnSpawns module includeExternalEntries).summaries ++
      possibleSummaries (buildDirectCallBindings module sites)).map summaryKey).toFinset.card ≤
        (collectOwnSpawns module includeExternalEntries).summaries.length +
          (possibleSummaries (buildDirectCallBindings module sites)).length := by
    refine (List.toFinset_card_le _).trans ?_
    rw [List.length_map, List.length_append]
  refine settleLast_ends (fun state => (((collectOwnSpawns module includeExternalEntries).summaries ++
    possibleSummaries (buildDirectCallBindings module sites)).map summaryKey).toFinset.card -
      state.summaries.length) (fun state h => SpawnInvariant.round h) ?_ SpawnInvariant.start ?_
  · intro state h hchanged
    have hlength := h.round.grown.length_le
    unfold unchangedSummaries KeyedGrowth.unchanged at hchanged
    rw [decide_eq_false_iff_not] at hchanged
    rw [spawnRound_summaries] at hchanged hlength ⊢
    rcases KeyedGrowth.round_eq_or_lt summaryKey deriveSpawn (buildDirectCallBindings module sites)
      state.summaries with hsame | hlonger
    · rw [hsame] at hchanged
      exact absurd rfl hchanged
    · omega
  · unfold spawnRounds
    omega

-- What the loop ends with is a round of a state whose summaries a round leaves alone.
theorem spawnLoop_settled : ∃ last, SpawnInvariant module includeExternalEntries sites last ∧
    KeyedGrowth.round summaryKey deriveSpawn (buildDirectCallBindings module sites) last.summaries =
      last.summaries ∧
    spawnLoop module includeExternalEntries sites =
      spawnRound module includeExternalEntries (buildDirectCallBindings module sites) last := by
  obtain ⟨rounds, hresult, hunchanged, -⟩ := @spawnLoop_ends module includeExternalEntries sites
  have hlast : SpawnInvariant module includeExternalEntries sites
      ((spawnRound module includeExternalEntries (buildDirectCallBindings module sites))^[rounds]
        (collectOwnSpawns module includeExternalEntries)) :=
    Saturation.iterate_invariant (fun _ => SpawnInvariant.round) .start rounds
  rw [Function.iterate_succ_apply'] at hresult hunchanged
  refine ⟨_, hlast, ?_, hresult⟩
  unfold unchangedSummaries KeyedGrowth.unchanged at hunchanged
  rw [decide_eq_true_eq, spawnRound_summaries] at hunchanged
  rcases KeyedGrowth.round_eq_or_lt summaryKey deriveSpawn (buildDirectCallBindings module sites)
    ((spawnRound module includeExternalEntries (buildDirectCallBindings module sites))^[rounds]
      (collectOwnSpawns module includeExternalEntries)).summaries with hsame | hlonger
  · exact hsame
  · omega

theorem collectSpawns_recorded : Recorded module includeExternalEntries (StartsEntry module sites)
    (collectSpawns module includeExternalEntries sites) := by
  obtain ⟨last, hlast, -, hresult⟩ := @spawnLoop_settled module includeExternalEntries sites
  rw [collectSpawns, hresult]
  exact hlast.round.recorded

theorem key_mem_collectSpawns {spawn : SpawnFact} (hstarts : StartsEntry module sites spawn)
    (hallowed : Allowed module includeExternalEntries spawn.entryFunctionId) :
    concreteSpawnKey spawn ∈
      (collectSpawns module includeExternalEntries sites).spawns.map concreteSpawnKey := by
  obtain ⟨last, hlast, hfixed, hresult⟩ := @spawnLoop_settled module includeExternalEntries sites
  rw [collectSpawns, hresult]
  cases hstarts with
  | own hmem hbinding => exact hlast.round.own _ (key_mem_collectOwnSpawns hmem hbinding hallowed)
  | through hbinding hparameter hargument =>
      have hown : ∀ summary ∈ ownSummaries module, summaryKey summary ∈ last.summaries.map summaryKey := by
        intro summary hmem
        have hkey : summaryKey summary ∈
            ((ownSummaries module).foldl (KeyedGrowth.insert summaryKey) []).map summaryKey :=
          (KeyedGrowth.mem_keys_foldl_insert _ _).mpr (.inr (List.mem_map_of_mem hmem))
        obtain ⟨other, hother, hsame⟩ := List.mem_map.mp hkey
        rw [← hsame]
        exact List.mem_map_of_mem (hlast.grown.kept other hother)
      obtain ⟨⟨functionId, other⟩, hother, hsame⟩ := List.mem_map.mp (KeyedGrowth.derived_kept
        (deriveSpawn_congruent _) hown hfixed (startsParameter_iff.mp hparameter))
      obtain ⟨hid, hindex, hloop⟩ := summaryKey_eq hsame
      simp only at hid hindex hloop
      rw [← hindex] at hargument
      rw [← hloop]
      exact key_mem_spawnRound hfixed hbinding (hid ▸ hother) hargument hallowed

-- The loop ends, and the spawns collected are the threads that a call starts on a function known by name,
-- where it starts them or where the function is handed on to it, each once. They count the entries.
theorem collectSpawns_exact (module : Module) (includeExternalEntries : Bool)
    (sites : List DirectCallSite) :
    EndsAfter unchangedSummaries
      (spawnRound module includeExternalEntries (buildDirectCallBindings module sites))
      (collectOwnSpawns module includeExternalEntries) (spawnLoop module includeExternalEntries sites) ∧
    Recorded module includeExternalEntries (StartsEntry module sites)
      (collectSpawns module includeExternalEntries sites) ∧
    ∀ spawn, StartsEntry module sites spawn →
      Allowed module includeExternalEntries spawn.entryFunctionId →
        concreteSpawnKey spawn ∈
          (collectSpawns module includeExternalEntries sites).spawns.map concreteSpawnKey :=
  ⟨spawnLoop_ends, collectSpawns_recorded, fun _ => key_mem_collectSpawns⟩

end Loop

end ConcurrencyAnalyzer.ThreadEntries
