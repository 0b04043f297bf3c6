import ConcurrencyAnalyzer.ContainedEntries.Collector
import Mathlib.Tactic.Common

namespace ConcurrencyAnalyzer.ContainedEntries

open Program ThreadCompletion Library

section Calls

variable {function : Function} {placed other : PlacedCall}

theorem mem_calls : placed ∈ function.calls ↔ ∃ block, function.blocks[placed.point.block]? = some block ∧
    block.instructions[placed.point.index]? = some (some placed.call) := by
  unfold Function.calls
  rw [List.mem_flatMap]
  constructor
  · rintro ⟨⟨block, number⟩, hblock, hmem⟩
    obtain ⟨⟨instruction, index⟩, hinstruction, hsome⟩ := List.mem_filterMap.mp hmem
    obtain ⟨call, rfl, rfl⟩ := Option.map_eq_some_iff.mp hsome
    exact ⟨block, List.mem_zipIdx_iff_getElem?.mp hblock, List.mem_zipIdx_iff_getElem?.mp hinstruction⟩
  · rintro ⟨block, hblock, hinstruction⟩
    refine ⟨(block, placed.point.block), List.mem_zipIdx_iff_getElem?.mpr hblock, ?_⟩
    exact List.mem_filterMap.mpr ⟨(some placed.call, placed.point.index),
      List.mem_zipIdx_iff_getElem?.mpr hinstruction, rfl⟩

-- One call stands at a point.
theorem call_unique (h : placed ∈ function.calls) (hother : other ∈ function.calls)
    (hpoint : placed.point = other.point) : placed = other := by
  obtain ⟨block, hblock, hinstruction⟩ := mem_calls.mp h
  obtain ⟨otherBlock, hotherBlock, hotherInstruction⟩ := mem_calls.mp hother
  rw [hpoint, hotherBlock, Option.some_inj] at hblock
  subst hblock
  rw [hpoint, hotherInstruction, Option.some_inj, Option.some_inj] at hinstruction
  obtain ⟨point, call⟩ := placed
  obtain ⟨otherPoint, otherCall⟩ := other
  dsimp only at hpoint hinstruction
  rw [hpoint, hinstruction]

theorem mem_reachableCalls : placed ∈ function.reachableCalls ↔
    placed ∈ function.calls ∧ placed.point.block ∈ function.reachable := by
  simp [Function.reachableCalls]

end Calls

section Relevant

variable {module : Module} {function callee : Function} {placed : PlacedCall} {site : DirectCall}

theorem functionWithId_eq_some {id : String} (h : module.functionWithId id = some function) :
    function ∈ module.functions ∧ function.id = id :=
  ⟨List.mem_of_find?_eq_some h, by simpa using List.find?_some h⟩

theorem functionWithId_of_mem (h : function ∈ module.functions) :
    module.functionWithId function.id = some function :=
  KeepFirst.find?_of_mem module.idsDistinct h

theorem eq_of_id (h : function ∈ module.functions) (hcallee : callee ∈ module.functions)
    (hsame : function.id = callee.id) : function = callee :=
  List.inj_on_of_nodup_map module.idsDistinct h hcallee hsame

-- A call of a function that the module has the body of.
def Calls (module : Module) (function : Function) (placed : PlacedCall) (callee : Function) : Prop :=
  placed ∈ function.reachableCalls ∧ placed.call.directCallee = some callee.id ∧ callee ∈ module.functions

theorem mem_directCalls : site ∈ module.directCalls ↔
    ∃ function ∈ module.functions, ∃ placed callee, Calls module function placed callee ∧
      site = ⟨function.id, callee.id, placed.call.kind⟩ := by
  unfold Module.directCalls
  simp only [List.mem_flatMap, List.mem_filterMap]
  refine exists_congr fun function => and_congr_right fun _ => exists_congr fun placed => ?_
  unfold Module.directCallOf
  constructor
  · rintro ⟨hplaced, hsite⟩
    obtain ⟨callee, hcallee, rfl⟩ := Option.map_eq_some_iff.mp hsite
    obtain ⟨name, hname, hfound⟩ := Option.bind_eq_some_iff.mp hcallee
    obtain ⟨hmem, rfl⟩ := functionWithId_eq_some hfound
    exact ⟨callee, ⟨hplaced, hname, hmem⟩, rfl⟩
  · rintro ⟨callee, ⟨hplaced, hname, hmem⟩, rfl⟩
    refine ⟨hplaced, ?_⟩
    rw [hname, Option.bind_some, functionWithId_of_mem hmem, Option.map_some]

theorem tellCaller_eq_some {callee caller : String} :
    tellCaller site callee = some caller ↔ callee = site.callee ∧ site.caller = caller := by
  unfold tellCaller
  by_cases h : callee = site.callee <;> simp [h]

theorem tellCallee_eq_some {caller callee : String} :
    tellCallee site caller = some callee ↔ caller = site.caller ∧ site.callee = callee := by
  unfold tellCallee
  by_cases h : caller = site.caller <;> simp [h]

-- The loop ends by itself, in the functions it starts with and the callers of those it has.
theorem relevant_grown :
    KeyedGrowth.Grown id tellCaller module.directCalls ((module.functions.filter spawns).map (·.id))
        (relevant module) (module.functions.map (·.id)).toFinset ∧
      KeyedGrowth.round id tellCaller module.directCalls (relevant module) = relevant module := by
  have hstart : KeyedGrowth.Grown id tellCaller module.directCalls ((module.functions.filter spawns).map (·.id))
      ((module.functions.filter spawns).map (·.id)) (module.functions.map (·.id)).toFinset := by
    refine ⟨?_, fun name hname => ?_, fun _ h => .start h, fun _ h => h⟩
    · rw [List.map_id]
      exact (List.filter_sublist.map _).nodup module.idsDistinct
    · rw [List.map_id] at hname
      obtain ⟨function, hfunction, rfl⟩ := List.mem_map.mp hname
      exact List.mem_toFinset.mpr (List.mem_map_of_mem (List.mem_filter.mp hfunction).1)
  have hbound : ∀ site ∈ module.directCalls, ∀ callee caller, tellCaller site callee = some caller →
      id caller ∈ (module.functions.map (·.id)).toFinset := by
    intro site hsite callee caller htold
    obtain ⟨function, hfunction, placed, named, -, rfl⟩ := mem_directCalls.mp hsite
    obtain ⟨-, rfl⟩ := tellCaller_eq_some.mp htold
    exact List.mem_toFinset.mpr (List.mem_map_of_mem hfunction)
  have hfuel : (module.functions.map (·.id)).toFinset.card ≤ module.functions.length := by
    simpa using List.toFinset_card_le (module.functions.map (·.id))
  exact (KeyedGrowth.grow_ends hstart hbound hfuel).2

theorem relevant_of_spawns (hfunction : function ∈ module.functions) (h : spawns function = true) :
    function.id ∈ relevant module :=
  relevant_grown.1.kept _ (List.mem_map_of_mem (List.mem_filter.mpr ⟨hfunction, h⟩))

theorem relevant_of_calls (hfunction : function ∈ module.functions) (hcall : Calls module function placed callee)
    (h : callee.id ∈ relevant module) : function.id ∈ relevant module := by
  have hsite := mem_directCalls.mpr ⟨function, hfunction, placed, callee, hcall, rfl⟩
  have hfixed := KeyedGrowth.apply_eq_of_round_eq relevant_grown.2 hsite
  have hmem : function.id ∈ (KeyedGrowth.apply id tellCaller (relevant module)
      ⟨function.id, callee.id, placed.call.kind⟩).map id := by
    refine (KeyedGrowth.mem_keys_foldl_insert _ _).mpr (.inr ?_)
    rw [List.map_id]
    exact List.mem_filterMap.mpr ⟨callee.id, h, tellCaller_eq_some.mpr ⟨rfl, rfl⟩⟩
  rwa [hfixed, List.map_id] at hmem

end Relevant

section Spawns

variable (module : Module) (completions : ThreadCompletionMap)

-- A call that starts a thread at an entry.
structure Starts (function : Function) (arguments : Bindings) (placed : PlacedCall) (entry : String) : Prop where
  mem : placed ∈ function.reachableCalls
  spawn : isSpawn placed.call.kind = true
  keeps : handsOver function placed.call = false
  entry : spawnEntry placed.call arguments = some entry

-- A direct call that is followed.
structure Follows (function : Function) (placed : PlacedCall) (callee : Function) : Prop where
  calls : Calls module function placed callee
  plain : isSpawn placed.call.kind = false

-- The threads a function starts where its arguments name these functions, itself or through direct calls.
inductive Spawns : Function → Bindings → Occurrence → Prop
  | here {function arguments placed entry} : Starts function arguments placed entry →
      Spawns function arguments ⟨entry, [spawnFrame completions function placed.point]⟩
  | through {function arguments placed callee occurrence} : Follows module function placed callee →
      Spawns callee (boundBy placed.call arguments) occurrence →
      Spawns function arguments (throughCall module function placed.point occurrence)

-- The functions that direct calls lead to, with the functions their arguments then name.
inductive Descends : Function → Bindings → Function → Bindings → Prop
  | refl {function arguments} : Descends function arguments function arguments
  | call {function arguments placed callee last bound} : Follows module function placed callee →
      Descends callee (boundBy placed.call arguments) last bound → Descends function arguments last bound

variable {module completions} {function callee : Function} {arguments bound : Bindings}
  {occurrence : Occurrence} {placed : PlacedCall}

theorem Spawns.relevant (h : Spawns module completions function arguments occurrence)
    (hfunction : function ∈ module.functions) : function.id ∈ relevant module := by
  induction h with
  | here hstarts =>
      refine relevant_of_spawns hfunction (List.any_eq_true.mpr ⟨_, ?_, hstarts.spawn⟩)
      exact (mem_reachableCalls.mp hstarts.mem).1
  | through hfollows _ ih => exact relevant_of_calls hfunction hfollows.calls (ih hfollows.calls.2.2)

-- The outermost frame stands in the function.
theorem Spawns.outermost (h : Spawns module completions function arguments occurrence) :
    ∃ front last, occurrence.frames = front ++ [last] ∧ last.start.function = function.id := by
  cases h with
  | here _ => exact ⟨[], _, rfl, rfl⟩
  | @through _ _ placed _ inner _ _ =>
      exact ⟨inner.frames, callFrame module function placed.point inner.frames.getLast?, rfl, rfl⟩

-- Arguments that name more functions name those of others too.
def Names (arguments more : Bindings) : Prop :=
  ∀ (index : Nat) (id : String), arguments[index]?.join = some id → more[index]?.join = some id

theorem bind_mono {arguments more : Bindings} (hnames : Names arguments more) {value : ThreadEntries.FunctionValue}
    {id : String} (h : bind value arguments = some id) : bind value more = some id := by
  unfold bind at h ⊢
  split at h
  · exact h
  · exact hnames _ _ h
  · cases h

theorem boundBy_mono {arguments more : Bindings} (hnames : Names arguments more) (call : Call) :
    Names (boundBy call arguments) (boundBy call more) := by
  intro index id h
  unfold boundBy at h ⊢
  rw [List.getElem?_map] at h ⊢
  cases hoperand : call.operands[index]? with
  | none => simp [hoperand] at h
  | some value =>
      rw [hoperand, Option.map_some, Option.join_some] at h
      rw [Option.map_some, Option.join_some]
      exact bind_mono hnames h

theorem Spawns.mono (h : Spawns module completions function arguments occurrence) {more : Bindings}
    (hnames : Names arguments more) : Spawns module completions function more occurrence := by
  induction h generalizing more with
  | here hstarts =>
      obtain ⟨value, hvalue, hbound⟩ := Option.bind_eq_some_iff.mp hstarts.entry
      refine .here ⟨hstarts.mem, hstarts.spawn, hstarts.keeps, ?_⟩
      exact Option.bind_eq_some_iff.mpr ⟨value, hvalue, bind_mono hnames hbound⟩
  | through hfollows _ ih => exact .through hfollows (ih (boundBy_mono hnames _))

theorem names_nil : Names [] arguments := by
  intro index id h
  simp at h

-- What a function starts that calls lead to is started through those calls.
theorem Descends.spawns (hdescends : Descends module function arguments callee bound)
    (h : Spawns module completions callee bound occurrence) :
    ∃ outer, Spawns module completions function arguments ⟨occurrence.entry, occurrence.frames ++ outer⟩ := by
  induction hdescends with
  | refl => exact ⟨[], by simpa using h⟩
  | call hfollows _ ih =>
      obtain ⟨outer, hspawns⟩ := ih h
      have hthrough := Spawns.through hfollows hspawns
      unfold throughCall at hthrough
      dsimp only at hthrough
      rw [List.append_assoc] at hthrough
      exact ⟨_, hthrough⟩

end Spawns

section Expansion

variable {module : Module} {completions : ThreadCompletionMap} {function : Function} {arguments : Bindings}
  {state : Expansion} {found : List Occurrence × Expansion} {placed : PlacedCall} {occurrence : Occurrence}

-- What one call of a function starts.
inductive SpawnsAt (module : Module) (completions : ThreadCompletionMap) (function : Function)
    (arguments : Bindings) (placed : PlacedCall) : Occurrence → Prop
  | here {entry} : Starts function arguments placed entry →
      SpawnsAt module completions function arguments placed ⟨entry, [spawnFrame completions function placed.point]⟩
  | through {callee occurrence} : Follows module function placed callee →
      Spawns module completions callee (boundBy placed.call arguments) occurrence →
      SpawnsAt module completions function arguments placed (throughCall module function placed.point occurrence)

theorem spawns_iff : Spawns module completions function arguments occurrence ↔
    ∃ placed ∈ function.reachableCalls, SpawnsAt module completions function arguments placed occurrence := by
  constructor
  · intro h
    cases h with
    | here hstarts => exact ⟨_, hstarts.mem, .here hstarts⟩
    | through hfollows hspawns => exact ⟨_, hfollows.calls.1, .through hfollows hspawns⟩
  · rintro ⟨placed, -, hat⟩
    cases hat with
    | here hstarts => exact .here hstarts
    | through hfollows hspawns => exact .through hfollows hspawns

-- An expansion that was completed: it found what is started, and went where calls lead.
structure Completed (Found : Occurrence → Prop) (Reached : Function → Prop)
    (before after : List Occurrence × Expansion) : Prop where
  complete : before.2.complete = true
  mem : ∀ occurrence, occurrence ∈ after.1 ↔ occurrence ∈ before.1 ∨ Found occurrence
  visited : ∀ id ∈ after.2.visited, id ∈ before.2.visited ∨ ∃ callee, callee.id = id ∧ Reached callee

-- A spawn that is handed over, or that the expansion counts.
theorem addSpawn_cases (hcomplete : (addSpawn completions function arguments found placed).2.complete = true) :
    (handsOver function placed.call = true ∧ addSpawn completions function arguments found placed = found) ∨
      (handsOver function placed.call = false ∧ ∃ entry, spawnEntry placed.call arguments = some entry ∧
        addSpawn completions function arguments found placed =
          (found.1 ++ [⟨entry, [spawnFrame completions function placed.point]⟩],
            { found.2 with occurrenceCount := found.2.occurrenceCount + 1 })) := by
  unfold addSpawn at hcomplete ⊢
  by_cases hover : handsOver function placed.call = true
  · rw [if_pos hover]
    exact .inl ⟨hover, rfl⟩
  · rw [if_neg hover] at hcomplete ⊢
    refine .inr ⟨by simpa using hover, ?_⟩
    cases hentry : spawnEntry placed.call arguments with
    | none =>
        rw [hentry] at hcomplete
        cases hcomplete
    | some entry =>
        rw [hentry] at hcomplete
        dsimp only at hcomplete ⊢
        by_cases hmany : kMaxOccurrences < found.2.occurrenceCount + 1
        · rw [if_pos hmany] at hcomplete
          cases hcomplete
        · rw [if_neg hmany]
          exact ⟨entry, rfl, rfl⟩

theorem addSpawn_completed (hplaced : placed ∈ function.reachableCalls) (hspawn : isSpawn placed.call.kind = true)
    (hcomplete : (addSpawn completions function arguments found placed).2.complete = true) :
    Completed (SpawnsAt module completions function arguments placed) (fun _ => False) found
      (addSpawn completions function arguments found placed) := by
  have hhere {occurrence : Occurrence} (hat : SpawnsAt module completions function arguments placed occurrence) :
      ∃ entry, Starts function arguments placed entry ∧
        occurrence = ⟨entry, [spawnFrame completions function placed.point]⟩ := by
    cases hat with
    | here hstarts => exact ⟨_, hstarts, rfl⟩
    | through hfollows _ =>
        rw [hfollows.plain] at hspawn
        cases hspawn
  rcases addSpawn_cases hcomplete with ⟨hover, hsame⟩ | ⟨hkept, entry, hentry, hadded⟩
  · rw [hsame] at hcomplete ⊢
    refine ⟨hcomplete, fun occurrence => ?_, fun _ h => .inl h⟩
    rw [or_iff_left]
    intro hat
    obtain ⟨_, hstarts, -⟩ := hhere hat
    rw [hstarts.keeps] at hover
    cases hover
  · rw [hadded] at hcomplete ⊢
    refine ⟨hcomplete, fun occurrence => ?_, fun _ h => .inl h⟩
    rw [List.mem_append, List.mem_singleton]
    refine or_congr_right ⟨?_, fun hat => ?_⟩
    · rintro rfl
      exact .here ⟨hplaced, hspawn, hkept, hentry⟩
    · obtain ⟨other, hstarts, rfl⟩ := hhere hat
      have hother := hstarts.entry
      rw [hentry, Option.some_inj] at hother
      rw [hother]

theorem relevantFunction_eq_some {id : String} {callee : Function} :
    relevantFunction module id = some callee ↔
      id ∈ relevant module ∧ callee ∈ module.functions ∧ callee.id = id := by
  unfold relevantFunction
  by_cases h : id ∈ relevant module
  · rw [if_pos h]
    refine ⟨fun hfound => ⟨h, functionWithId_eq_some hfound⟩, ?_⟩
    rintro ⟨-, hmem, rfl⟩
    exact functionWithId_of_mem hmem
  · rw [if_neg h]
    simp [h]

-- One call, where the expansion of what it calls is as it should be.
theorem expandCall_completed {within : Function → Bindings → Expansion → List Occurrence × Expansion}
    (hwithin : ∀ callee ∈ module.functions, ∀ arguments state,
      (within callee arguments state).2.complete = true → Completed (Spawns module completions callee arguments)
        (fun last => ∃ bound, Descends module callee arguments last bound) ([], state)
        (within callee arguments state))
    (hplaced : placed ∈ function.reachableCalls)
    (hcomplete : (expandCall module completions within function arguments found placed).2.complete = true) :
    Completed (SpawnsAt module completions function arguments placed)
      (fun last => ∃ bound, Descends module function arguments last bound) found
      (expandCall module completions within function arguments found placed) := by
  unfold expandCall at hcomplete ⊢
  by_cases hspawn : isSpawn placed.call.kind = true
  · rw [if_pos hspawn] at hcomplete ⊢
    have hadded := @addSpawn_completed module _ _ _ _ _ hplaced hspawn hcomplete
    refine ⟨hadded.complete, hadded.mem, fun id hid => ?_⟩
    exact .inl ((hadded.visited id hid).resolve_right (by simp))
  · rw [if_neg hspawn] at hcomplete ⊢
    have hplain : isSpawn placed.call.kind = false := by simpa using hspawn
    cases hcallee : placed.call.directCallee.bind (relevantFunction module) with
    | none =>
        rw [hcallee] at hcomplete
        refine ⟨hcomplete, fun occurrence => ?_, fun _ h => .inl h⟩
        rw [or_iff_left]
        intro hat
        cases hat with
        | here hstarts => exact hspawn hstarts.spawn
        | through hfollows hspawns =>
            obtain ⟨-, hname, hmem⟩ := hfollows.calls
            rw [hname, Option.bind_some,
              relevantFunction_eq_some.mpr ⟨hspawns.relevant hmem, hmem, rfl⟩] at hcallee
            cases hcallee
    | some callee =>
        rw [hcallee] at hcomplete
        dsimp only at hcomplete ⊢
        obtain ⟨name, hname, hfound⟩ := Option.bind_eq_some_iff.mp hcallee
        obtain ⟨-, hmem, rfl⟩ := relevantFunction_eq_some.mp hfound
        have hfollows : Follows module function placed callee := ⟨⟨hplaced, hname, hmem⟩, hplain⟩
        have hinner := hwithin callee hmem _ _ hcomplete
        refine ⟨hinner.complete, fun occurrence => ?_, fun id hid => ?_⟩
        · rw [List.mem_append]
          refine or_congr_right ⟨fun h => ?_, fun hat => ?_⟩
          · obtain ⟨within, hin, rfl⟩ := List.mem_map.mp h
            exact .through hfollows (((hinner.mem within).mp hin).resolve_left List.not_mem_nil)
          · cases hat with
            | here hstarts =>
                rw [hstarts.spawn] at hplain
                cases hplain
            | @through other within hother hspawns =>
                have hsame : other = callee := by
                  have hnames := hother.calls.2.1
                  rw [hname, Option.some_inj] at hnames
                  exact eq_of_id hother.calls.2.2 hmem hnames.symm
                subst hsame
                exact List.mem_map.mpr ⟨within, (hinner.mem within).mpr (.inr hspawns), rfl⟩
        · rcases hinner.visited id hid with hold | ⟨last, hlast, bound, hdescends⟩
          · exact .inl hold
          · exact .inr ⟨last, hlast, bound, .call hfollows hdescends⟩

theorem expandCalls_completed {within : Function → Bindings → Expansion → List Occurrence × Expansion}
    (hwithin : ∀ callee ∈ module.functions, ∀ arguments state,
      (within callee arguments state).2.complete = true → Completed (Spawns module completions callee arguments)
        (fun last => ∃ bound, Descends module callee arguments last bound) ([], state)
        (within callee arguments state))
    (calls : List PlacedCall) (hcalls : ∀ placed ∈ calls, placed ∈ function.reachableCalls)
    (hcomplete : (calls.foldl (expandCall module completions within function arguments) found).2.complete = true) :
    Completed (fun occurrence => ∃ placed ∈ calls, SpawnsAt module completions function arguments placed occurrence)
      (fun last => ∃ bound, Descends module function arguments last bound) found
      (calls.foldl (expandCall module completions within function arguments) found) := by
  induction calls generalizing found with
  | nil => exact ⟨hcomplete, by simp, fun _ h => .inl h⟩
  | cons first rest ih =>
      rw [List.foldl_cons] at hcomplete ⊢
      have hrest := ih (fun placed h => hcalls placed (List.mem_cons_of_mem _ h)) hcomplete
      have hfirst := expandCall_completed hwithin (hcalls first List.mem_cons_self) hrest.complete
      refine ⟨hfirst.complete, fun occurrence => ?_, fun id hid => ?_⟩
      · rw [hrest.mem, hfirst.mem, List.exists_mem_cons_iff, or_assoc]
      · rcases hrest.visited id hid with hmem | hnew
        · exact hfirst.visited id hmem
        · exact .inr hnew

theorem expand_completed (fuel : Nat) (active : List String) (hfunction : function ∈ module.functions)
    (hcomplete : (expand module completions fuel active function arguments state).2.complete = true) :
    Completed (Spawns module completions function arguments)
      (fun last => ∃ bound, Descends module function arguments last bound) ([], state)
      (expand module completions fuel active function arguments state) := by
  induction fuel generalizing active function arguments state with
  | zero => cases hcomplete
  | succ fuel ih =>
      rw [expand] at hcomplete ⊢
      split at hcomplete
      · cases hcomplete
      · rename_i hopen
        rw [if_neg hopen]
        have hall := expandCalls_completed (fun callee hmem arguments state h => ih (function.id :: active) hmem h)
          function.reachableCalls (fun _ h => h) hcomplete
        refine ⟨hall.complete, fun occurrence => ?_, fun id hid => ?_⟩
        · rw [hall.mem, spawns_iff]
        · rcases hall.visited id hid with hmem | hnew
          · rcases List.mem_append.mp hmem with hold | hlast
            · exact .inl hold
            · exact .inr ⟨function, (List.mem_singleton.mp hlast).symm, arguments, .refl⟩
          · exact .inr hnew

end Expansion

section Roots

variable {module : Module} {completions : ThreadCompletionMap} {function root : Function} {occurrence : Occurrence}

theorem mem_roots : root ∈ roots module ↔
    root ∈ module.functions ∧ root.id ∈ relevant module ∧ root.id ∉ called module := by
  unfold roots
  simp only [List.mem_filterMap, List.mem_filter, decide_eq_true_eq]
  constructor
  · rintro ⟨id, ⟨hrelevant, hcalled⟩, hfound⟩
    obtain ⟨hmem, rfl⟩ := functionWithId_eq_some hfound
    exact ⟨hmem, hrelevant, hcalled⟩
  · rintro ⟨hmem, hrelevant, hcalled⟩
    exact ⟨root.id, ⟨hrelevant, hcalled⟩, functionWithId_of_mem hmem⟩

def Occurs (module : Module) (completions : ThreadCompletionMap) (occurrence : Occurrence) : Prop :=
  ∃ root ∈ roots module, Spawns module completions root [] occurrence

theorem expandRoots_completed (hcomplete : (expandRoots module completions).2.complete = true) :
    Completed (Occurs module completions)
      (fun last => ∃ root ∈ roots module, ∃ bound, Descends module root [] last bound) ([], {})
      (expandRoots module completions) := by
  have hfold (some : List Function) (hroots : ∀ root ∈ some, root ∈ roots module)
      (found : List Occurrence × Expansion)
      (hafter : (some.foldl (expandRoot module completions) found).2.complete = true) :
      Completed (fun occurrence => ∃ root ∈ some, Spawns module completions root [] occurrence)
        (fun last => ∃ root ∈ roots module, ∃ bound, Descends module root [] last bound) found
        (some.foldl (expandRoot module completions) found) := by
    induction some generalizing found with
    | nil => exact ⟨hafter, by simp, fun _ h => .inl h⟩
    | cons first rest ih =>
        rw [List.foldl_cons] at hafter ⊢
        have hrest := ih (fun root h => hroots root (List.mem_cons_of_mem _ h)) _ hafter
        have hroot := hroots first List.mem_cons_self
        have hfirst := expand_completed (module.functions.length + 1) [] (mem_roots.mp hroot).1 hrest.complete
        refine ⟨hfirst.complete, fun occurrence => ?_, fun id hid => ?_⟩
        · have hmem := hfirst.mem occurrence
          rw [or_iff_right List.not_mem_nil] at hmem
          rw [hrest.mem, expandRoot, List.mem_append, hmem, List.exists_mem_cons_iff, or_assoc]
        · rcases hrest.visited id hid with hmem | hnew
          · rcases hfirst.visited id hmem with hold | ⟨last, hlast, hdescends⟩
            · exact .inl hold
            · exact .inr ⟨last, hlast, first, hroot, hdescends⟩
          · exact .inr hnew
  exact hfold (roots module) (fun _ h => h) ([], {}) hcomplete

theorem mem_occurrences (hcomplete : (expandRoots module completions).2.complete = true) :
    occurrence ∈ occurrences module completions ↔ Occurs module completions occurrence := by
  have hmem := (expandRoots_completed hcomplete).mem occurrence
  rwa [or_iff_right List.not_mem_nil] at hmem

theorem mem_workerStarts {name : String} : name ∈ workerStarts module completions ↔
    name ∈ (occurrences module completions).map (·.entry) ∨
      (name ∈ relevant module ∧ (module.functionWithId name).any (·.hasAddressTaken) = true) := by
  have hkeys : name ∈ (workerStarts module completions).map id ↔ _ := KeyedGrowth.mem_keys_foldl_insert _ _
  rw [List.map_id] at hkeys
  rw [hkeys]
  simp [List.mem_filter]

-- The loop over what a worker may run ends by itself, and keeps what it starts with.
theorem worker_of_start {name : String} (h : name ∈ workerStarts module completions) :
    name ∈ workerReachable module completions := by
  have hnodup : (workerStarts module completions).Nodup := by
    have hkeys : ((workerStarts module completions).map id).Nodup := KeyedGrowth.foldl_insert_nodup _ (by simp)
    rwa [List.map_id] at hkeys
  set known := (workerStarts module completions ++ module.directCalls.map (·.callee)).toFinset with hknown
  have hstart : KeyedGrowth.Grown id tellCallee module.directCalls (workerStarts module completions)
      (workerStarts module completions) known := by
    refine ⟨by rwa [List.map_id], fun name hname => ?_, fun _ h => .start h, fun _ h => h⟩
    rw [List.map_id] at hname
    simp [hknown, hname]
  have hbound : ∀ site ∈ module.directCalls, ∀ caller callee, tellCallee site caller = some callee →
      id callee ∈ known := by
    intro site hsite caller callee htold
    obtain ⟨-, rfl⟩ := tellCallee_eq_some.mp htold
    rw [hknown, List.mem_toFinset]
    exact List.mem_append_right _ (List.mem_map_of_mem hsite)
  have hfuel : known.card ≤ (workerStarts module completions).length + module.directCalls.length := by
    refine (List.toFinset_card_le _).trans ?_
    simp
  exact (KeyedGrowth.grow_ends hstart hbound hfuel).2.1.kept _ h

end Roots

section Pairs

variable {module : Module} {completions : ThreadCompletionMap}
  {covers : FlowGraph → JoinSuccess → Point → Bool} {first second : Occurrence} {pair : EntryPair}

theorem firstApart_comm (firsts seconds : List Frame) :
    firstApart seconds firsts = (firstApart firsts seconds).map Prod.swap := by
  induction firsts generalizing seconds with
  | nil => cases seconds <;> rfl
  | cons a firsts ih =>
      cases seconds with
      | nil => rfl
      | cons b seconds =>
          unfold firstApart
          by_cases hsame : a.start = b.start
          · rw [if_pos hsame, if_pos hsame.symm, ih]
          · rw [if_neg hsame, if_neg (Ne.symm hsame), Option.map_some, Prod.swap_prod_mk]

theorem ordered_comm (first second : Occurrence) :
    ordered module covers first second = ordered module covers second first := by
  unfold ordered
  rw [firstApart_comm first.frames.reverse]
  cases firstApart first.frames.reverse second.frames.reverse with
  | none => rfl
  | some found =>
      obtain ⟨a, b⟩ := found
      simp only [Option.map_some, Prod.swap_prod_mk, Bool.or_comm (covered module covers b a),
        decide_eq_decide.mpr (eq_comm (a := b.start.function))]

theorem sequenced_comm (first second : Occurrence) :
    sequenced module completions covers (first, second) = sequenced module completions covers (second, first) := by
  unfold sequenced
  rw [ordered_comm first second, Bool.and_comm (!inWorker module completions first)]

theorem mem_of_mem_pairsOf {all : List Occurrence} (h : (first, second) ∈ pairsOf all) :
    first ∈ all ∧ second ∈ all := by
  induction all with
  | nil => cases h
  | cons head rest ih =>
      rcases List.mem_append.mp h with hhead | hrest
      · obtain ⟨other, hother, hsame⟩ := List.mem_map.mp hhead
        obtain ⟨rfl, rfl⟩ := Prod.mk.inj hsame
        exact ⟨List.mem_cons_self, List.mem_cons_of_mem _ hother⟩
      · exact ⟨List.mem_cons_of_mem _ (ih hrest).1, List.mem_cons_of_mem _ (ih hrest).2⟩

theorem mem_pairsOf {all : List Occurrence} (hfirst : first ∈ all) (hsecond : second ∈ all)
    (hne : first ≠ second) : (first, second) ∈ pairsOf all ∨ (second, first) ∈ pairsOf all := by
  induction all with
  | nil => cases hfirst
  | cons head rest ih =>
      unfold pairsOf
      simp only [List.mem_append, List.mem_map]
      rcases List.mem_cons.mp hfirst with rfl | hin
      · have hrest := (List.mem_cons.mp hsecond).resolve_left (Ne.symm hne)
        exact .inl (.inl ⟨second, hrest, rfl⟩)
      · rcases List.mem_cons.mp hsecond with rfl | hrest
        · exact .inr (.inl ⟨first, hin, rfl⟩)
        · exact (ih hin hrest).imp .inr .inr

theorem sequenced_iff : sequenced module completions covers (first, second) = true ↔
    inWorker module completions first = false ∧ inWorker module completions second = false ∧
      ordered module covers first second = true := by
  simp [sequenced, and_assoc]

-- Of two occurrences with different entries, the pairs have one order.
theorem exists_pair (hcomplete : (expandRoots module completions).2.complete = true)
    (hfirst : Occurs module completions first) (hsecond : Occurs module completions second)
    (hne : first.entry ≠ second.entry) :
    ∃ pair ∈ pairsOf (occurrences module completions), pair.1.entry ≠ pair.2.entry ∧
      entriesOf pair = makeEntryPair first.entry second.entry ∧
      sequenced module completions covers pair = sequenced module completions covers (first, second) := by
  have hapart : first ≠ second := fun hsame => hne (congrArg Occurrence.entry hsame)
  rcases mem_pairsOf ((mem_occurrences hcomplete).mpr hfirst) ((mem_occurrences hcomplete).mpr hsecond) hapart with
    hmem | hmem
  · exact ⟨_, hmem, hne, rfl, rfl⟩
  · exact ⟨_, hmem, Ne.symm hne, makeEntryPair_comm _ _, sequenced_comm _ _⟩

theorem sequenced_of_mem {pair : EntryPair} (h : pair ∈ collectContainedEntryPairs module completions covers) :
    (expandRoots module completions).2.complete = true ∧ missed module completions = false ∧
      ∀ first second, Occurs module completions first → Occurs module completions second →
        first.entry ≠ second.entry → makeEntryPair first.entry second.entry = pair →
          inWorker module completions first = false ∧ inWorker module completions second = false ∧
            ordered module covers first second = true := by
  unfold collectContainedEntryPairs at h
  split at h
  · cases h
  · rename_i hgiven
    simp only [Bool.or_eq_true, Bool.not_eq_true', not_or, Bool.not_eq_false, Bool.not_eq_true] at hgiven
    obtain ⟨hcomplete, hmissed⟩ := hgiven
    refine ⟨hcomplete, hmissed, fun one other hone hother hdiffer hsame => ?_⟩
    obtain ⟨found, hfound, hfoundNe, hentries, hsequenced⟩ := exists_pair hcomplete hone hother hdiffer
    rw [← sequenced_iff, ← hsequenced]
    by_contra hunsequenced
    refine (Finset.mem_sdiff.mp h).2 (List.mem_toFinset.mpr (List.mem_map.mpr ⟨found, ?_, hentries.trans hsame⟩))
    refine List.mem_filter.mpr ⟨List.mem_filter.mpr ⟨hfound, decide_eq_true hfoundNe⟩, ?_⟩
    simpa using hunsequenced

-- A pair is found when the expansion was completed and got wherever a worker may, the program starts both
-- entries, and wherever it starts both, by whatever calls, they are sequenced.
theorem collectContainedEntryPairs_exact (module : Module) (completions : ThreadCompletionMap)
    (covers : FlowGraph → JoinSuccess → Point → Bool) (pair : EntryPair) :
    pair ∈ collectContainedEntryPairs module completions covers ↔
      (expandRoots module completions).2.complete = true ∧ missed module completions = false ∧
        (∃ first second, Occurs module completions first ∧ Occurs module completions second ∧
          first.entry ≠ second.entry ∧ makeEntryPair first.entry second.entry = pair) ∧
        ∀ first second, Occurs module completions first → Occurs module completions second →
          first.entry ≠ second.entry → makeEntryPair first.entry second.entry = pair →
            inWorker module completions first = false ∧ inWorker module completions second = false ∧
              ordered module covers first second = true := by
  constructor
  · intro h
    obtain ⟨hcomplete, hmissed, hall⟩ := sequenced_of_mem h
    refine ⟨hcomplete, hmissed, ?_, hall⟩
    unfold collectContainedEntryPairs at h
    rw [if_neg (by simp [hcomplete, hmissed])] at h
    obtain ⟨⟨first, second⟩, hfound, rfl⟩ := List.mem_map.mp (List.mem_toFinset.mp (Finset.mem_sdiff.mp h).1)
    obtain ⟨hmem, hne⟩ := List.mem_filter.mp (List.mem_filter.mp hfound).1
    obtain ⟨hfirst, hsecond⟩ := mem_of_mem_pairsOf hmem
    exact ⟨first, second, (mem_occurrences hcomplete).mp hfirst, (mem_occurrences hcomplete).mp hsecond,
      of_decide_eq_true hne, rfl⟩
  · rintro ⟨hcomplete, hmissed, ⟨first, second, hfirst, hsecond, hne, rfl⟩, hall⟩
    unfold collectContainedEntryPairs
    rw [if_neg (by simp [hcomplete, hmissed])]
    simp only [Finset.mem_sdiff, List.mem_toFinset, List.mem_map, List.mem_filter, decide_eq_true_eq]
    refine ⟨?_, ?_⟩
    · obtain ⟨found, hfound, hfoundNe, hentries, hsequenced⟩ := exists_pair hcomplete hfirst hsecond hne
      refine ⟨found, ⟨⟨hfound, hfoundNe⟩, ?_⟩, hentries⟩
      rw [hsequenced, sequenced_iff]
      exact hall first second hfirst hsecond hne rfl
    · rintro ⟨⟨one, other⟩, ⟨⟨hmem, hdiffer⟩, hunsequenced⟩, hsame⟩
      obtain ⟨hone, hother⟩ := mem_of_mem_pairsOf hmem
      rw [sequenced_iff.mpr (hall one other ((mem_occurrences hcomplete).mp hone)
        ((mem_occurrences hcomplete).mp hother) hdiffer hsame)] at hunsequenced
      cases hunsequenced

end Pairs

end ConcurrencyAnalyzer.ContainedEntries
