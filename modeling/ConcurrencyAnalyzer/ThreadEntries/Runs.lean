import ConcurrencyAnalyzer.ThreadEntries.SpawnTheorems
import ConcurrencyAnalyzer.ThreadEntries.Contexts
import ConcurrencyAnalyzer.ThreadEntries.SignalHandlers

namespace ConcurrencyAnalyzer.ThreadEntries

open Library Relation

-- What function, if any, a value points to where the arguments point to these.
def Evaluates (arguments : Nat → Option String) : FunctionValue → Option String → Prop
  | .function id, result | .returned id, result => result = some id
  | .argument index, result => result = arguments index
  | .indexed base, result => Evaluates arguments base result
  | .copied stored, result => Evaluates arguments stored result
  | .slot members, result => members = [] ∨ ∃ member ∈ members, result = some member
  | .other, _ => True

-- An activation. `calledBy` is the direct call that entered it, `followed` says that only direct calls
-- lead to it from where its thread, or the run of a destructor, started, and `handling` is the signal
-- handler that only direct calls lead to it from.
structure Frame where
  function : Function
  arguments : Nat → Option String
  block : Nat := 0
  index : Nat := 0
  calledBy : Option Call := none
  followed : Bool := false
  handling : Option String := none

-- `traced` is the function that the operand its entry came from is a copy of, where some call names it.
structure Thread where
  entry : String
  traced : Option String
  frames : List Frame
  destructors : List (String × Bool) := []

def Frame.AtCall (frame : Frame) (call : Call) : Prop :=
  ∃ block, frame.function.blocks[frame.block]? = some block ∧ block.calls[frame.index]? = some call

-- The function a value is a copy of, where it is handed down by direct calls.
def trace : List Frame → FunctionValue → Option String
  | [], value => resolveFunctionValue value
  | frame :: rest, value =>
      match resolveFunctionBinding value with
      | some (.function id) => some id
      | some (.argument index) =>
          frame.calledBy.bind fun call => call.operands[index]?.bind (trace rest)
      | none => none

section Steps

variable (module : Module)

-- What a step of a thread does to the process.
inductive Effect where
  | none
  | starts (thread : Thread)
  | installs (handler : String)

def Effect.started : Effect → List Thread
  | .starts thread => [thread]
  | _ => []

def Effect.installed : Effect → List String
  | .installs handler => [handler]
  | _ => []

structure Process where
  threads : List Thread
  handlers : List String := []

-- One step of a thread. A call may lead anywhere: through a pointer, or to code outside the module that
-- calls back. A handler that is installed may run at any time.
inductive ThreadStep (handlers : List String) : Thread → Effect → Thread → Prop
  | advance {thread frame rest call} : thread.frames = frame :: rest → frame.AtCall call →
      ThreadStep handlers thread .none
        { thread with frames := { frame with index := frame.index + 1 } :: rest }
  | branch {thread frame rest successor} : thread.frames = frame :: rest →
      successor ∈ frame.function.successors frame.block →
      ThreadStep handlers thread .none
        { thread with frames := { frame with block := successor, index := 0 } :: rest }
  | call {thread frame rest call callee arguments} : thread.frames = frame :: rest →
      frame.AtCall call → callee ∈ module.definitions → call.directCallee = some callee.id →
      (∀ (index : Nat) value, call.operands[index]? = some value →
        Evaluates frame.arguments value (arguments index)) →
      ThreadStep handlers thread .none
        { thread with frames :=
            { function := callee, arguments := arguments, calledBy := some call
              followed := frame.followed, handling := frame.handling } :: frame :: rest }
  | callOut {thread frame rest call callee arguments} : thread.frames = frame :: rest →
      frame.AtCall call → callee ∈ module.definitions →
      ThreadStep handlers thread .none
        { thread with frames := { function := callee, arguments := arguments } :: frame :: rest }
  | leave {thread frame rest} : thread.frames = frame :: rest →
      ThreadStep handlers thread .none { thread with frames := rest }
  | start {thread frame rest call value entry arguments} : thread.frames = frame :: rest →
      frame.AtCall call → threadEntryValue call = some value →
      Evaluates frame.arguments value (some entry.id) → entry ∈ module.definitions →
      ThreadStep handlers thread
        (.starts {
          entry := entry.id
          traced := trace (frame :: rest) value
          frames := [{ function := entry, arguments := arguments, followed := true }] })
        thread
  | register {thread frame rest call value destructor} : thread.frames = frame :: rest →
      frame.AtCall call → call.kind = .ThreadExitDestructorRegistration →
      call.operands.head? = some value → Evaluates frame.arguments value (some destructor) →
      ThreadStep handlers thread .none
        { thread with destructors := thread.destructors ++
            [(destructor, frame.followed && resolveFunctionValue value = some destructor)] }
  | destroy {thread known destructor arguments} : thread.frames = [] →
      (destructor.id, known) ∈ thread.destructors → destructor ∈ module.definitions →
      ThreadStep handlers thread .none
        { thread with frames :=
            [{ function := destructor, arguments := arguments, followed := known }] }
  | install {thread frame rest call handler} : thread.frames = frame :: rest →
      frame.AtCall call → installedHandler module call = some handler →
      ThreadStep handlers thread (.installs handler) thread
  | interrupt {thread handler arguments} : handler.id ∈ handlers → handler ∈ module.definitions →
      ThreadStep handlers thread .none
        { thread with frames :=
            { function := handler, arguments := arguments, handling := some handler.id } ::
              thread.frames }

-- The states of a process that starts with one activation.
inductive Reached : Process → Prop
  | initial {function arguments entry} : function ∈ module.definitions →
      Reached { threads := [{
        entry := entry
        traced := none
        frames := [{ function := function, arguments := arguments }] }] }
  | step {front thread back handlers effect after} :
      Reached ⟨front ++ thread :: back, handlers⟩ →
      ThreadStep module handlers thread effect after →
      Reached ⟨front ++ after :: back ++ effect.started, handlers ++ effect.installed⟩

-- Every local a member function is stored in is stored one.
def FunctionValue.Single : FunctionValue → Prop
  | .slot members => members.length ≤ 1
  | .indexed base => base.Single
  | .copied stored => stored.Single
  | _ => True

def SingleSlots : Prop :=
  ∀ function ∈ module.functions, ∀ call ∈ function.calls, ∀ value ∈ call.operands, value.Single

-- No function named by an operand has the separator of the keys in its name.
def PlainNames : Prop :=
  ∀ function ∈ module.functions, ∀ call ∈ function.calls, ∀ value ∈ call.operands, ∀ id,
    resolveFunctionBinding value = some (.function id) → '|' ∉ id.toList

-- The entries of the threads the detector knows of.
def knownEntries (includeExternalEntries : Bool) : List String :=
  (module.functions.map (·.id)).filter fun id =>
    ((collectSpawns module includeExternalEntries (collectDirectCallSites module)).entryConcurrency
      id).isSome

end Steps

section Values

variable {arguments : Nat → Option String} {value : FunctionValue} {result : Option String}

theorem resolveCopiedValue_evaluates (h : Evaluates arguments value result) :
    (∀ id, resolveCopiedValue value = some (.function id) → result = some id) ∧
      ∀ index, resolveCopiedValue value = some (.argument index) → result = arguments index := by
  induction value with
  | function id | returned id =>
      exact ⟨fun _ hsome => (by cases hsome; exact h), fun _ hsome => by cases hsome⟩
  | argument index =>
      exact ⟨fun _ hsome => (by cases hsome), fun _ hsome => by cases hsome; exact h⟩
  | indexed base ih => exact ih h
  | copied stored ih => exact ih h
  | slot members => exact ⟨fun _ hsome => (by cases hsome), fun _ hsome => by cases hsome⟩
  | other => exact ⟨fun _ hsome => (by cases hsome), fun _ hsome => by cases hsome⟩

theorem memberFunctionBehind_evaluates (hsingle : value.Single) (h : Evaluates arguments value result)
    {id : String} (hmember : memberFunctionBehind value = some id) : result = some id := by
  induction value with
  | slot members =>
      obtain ⟨rest, rfl⟩ := List.head?_eq_some_iff.mp hmember
      have hrest : rest = [] := List.eq_nil_of_length_eq_zero (by
        have hlength : (id :: rest).length ≤ 1 := hsingle
        rw [List.length_cons] at hlength
        omega)
      subst hrest
      obtain ⟨member, hmem, hresult⟩ := h.resolve_left (List.cons_ne_nil _ _)
      rwa [List.mem_singleton.mp hmem] at hresult
  | indexed base ih => exact ih hsingle h hmember
  | _ => cases hmember

theorem resolveFunctionBinding_evaluates (hsingle : value.Single) (h : Evaluates arguments value result) :
    (∀ id, resolveFunctionBinding value = some (.function id) → result = some id) ∧
      ∀ index, resolveFunctionBinding value = some (.argument index) → result = arguments index := by
  obtain ⟨hfunction, hargument⟩ := resolveCopiedValue_evaluates h
  unfold resolveFunctionBinding
  cases hcopied : resolveCopiedValue value with
  | some binding =>
      refine ⟨fun id hsome => hfunction id ?_, fun index hsome => hargument index ?_⟩
      · rw [hcopied, ← hsome, Option.some_or]
      · rw [hcopied, ← hsome, Option.some_or]
  | none =>
      rw [Option.none_or]
      refine ⟨fun id hsome => ?_, fun index hsome => ?_⟩
      · obtain ⟨member, hmember, hsame⟩ := Option.map_eq_some_iff.mp hsome
        cases hsame
        exact memberFunctionBehind_evaluates hsingle h hmember
      · obtain ⟨member, -, hsame⟩ := Option.map_eq_some_iff.mp hsome
        cases hsame

end Values

section Stacks

variable {module : Module} {frame caller : Frame} {rest : List Frame} {value : FunctionValue}
  {result : Option String}

-- The call of an activation that entered another.
structure Enters (caller frame : Frame) (call : Call) : Prop where
  reachable : ∃ block ∈ caller.function.reachableBlocks, call ∈ block.calls
  callee : call.directCallee = some frame.function.id
  arguments : ∀ (index : Nat) value, call.operands[index]? = some value →
    Evaluates caller.arguments value (frame.arguments index)

def Linked : List Frame → Prop
  | [] => True
  | [frame] => frame.calledBy = none
  | frame :: caller :: rest =>
      (∀ call, frame.calledBy = some call → Enters caller frame call) ∧ Linked (caller :: rest)

variable (module) in
structure Placed (frame : Frame) : Prop where
  function : frame.function ∈ module.definitions
  block : frame.block ∈ frame.function.reachable

theorem Linked.tail (h : Linked (frame :: rest)) : Linked rest := by
  cases rest with
  | nil => trivial
  | cons caller rest => exact h.2

-- The links of a stack say nothing about how far its top activation got.
theorem Linked.move {moved : Frame} (h : Linked (frame :: rest)) (hfunction : moved.function = frame.function)
    (harguments : moved.arguments = frame.arguments) (hcalledBy : moved.calledBy = frame.calledBy) :
    Linked (moved :: rest) := by
  cases rest with
  | nil => exact hcalledBy.trans h
  | cons caller rest =>
      refine ⟨fun call hcall => ?_, h.2⟩
      obtain ⟨hreachable, hcallee, hvalues⟩ := h.1 call (hcalledBy ▸ hcall)
      exact ⟨hreachable, hfunction ▸ hcallee, harguments ▸ hvalues⟩

-- The operand a call hands over is the one its callee was entered with.
theorem Linked.calledBy (h : Linked (frame :: rest)) {call : Call} (hcall : frame.calledBy = some call) :
    ∃ caller below, rest = caller :: below ∧ Enters caller frame call := by
  cases rest with
  | nil =>
      rw [show frame.calledBy = none from h] at hcall
      cases hcall
  | cons caller below => exact ⟨caller, below, rfl, h.1 call hcall⟩

theorem operands_single (hslots : SingleSlots module) (hplaced : Placed module caller) {call : Call}
    (hreachable : ∃ block ∈ caller.function.reachableBlocks, call ∈ block.calls)
    (hvalue : value ∈ call.operands) : value.Single := by
  obtain ⟨block, hblock, hcall⟩ := hreachable
  exact hslots _ (Module.mem_definitions.mp hplaced.function).1 _
    (Function.mem_calls_of_reachable hblock hcall) _ hvalue

theorem trace_cons_eq_some {id : String} (h : trace (frame :: rest) value = some id) :
    resolveFunctionBinding value = some (.function id) ∨
      ∃ index call handed, resolveFunctionBinding value = some (.argument index) ∧
        frame.calledBy = some call ∧ call.operands[index]? = some handed ∧ trace rest handed = some id := by
  rw [trace] at h
  cases hbinding : resolveFunctionBinding value with
  | none => simp [hbinding] at h
  | some binding =>
      cases binding with
      | function other =>
          simp only [hbinding, Option.some.injEq] at h
          exact .inl (by rw [h])
      | argument index =>
          simp only [hbinding] at h
          obtain ⟨call, hcall, hrest⟩ := Option.bind_eq_some_iff.mp h
          obtain ⟨handed, hhanded, htrace⟩ := Option.bind_eq_some_iff.mp hrest
          exact .inr ⟨index, call, handed, rfl, hcall, hhanded, htrace⟩

-- A value that is traced to a function points to it.
theorem trace_evaluates (hslots : SingleSlots module) (hplaced : ∀ frame ∈ rest, Placed module frame)
    (hlinked : Linked (frame :: rest)) (hsingle : value.Single) {id : String}
    (htrace : trace (frame :: rest) value = some id) (h : Evaluates frame.arguments value result) :
    result = some id := by
  induction rest generalizing frame value result with
  | nil =>
      obtain ⟨hfunction, -⟩ := resolveFunctionBinding_evaluates hsingle h
      rcases trace_cons_eq_some htrace with hbinding | ⟨index, call, handed, -, hcall, -⟩
      · exact hfunction id hbinding
      · rw [show frame.calledBy = none from hlinked] at hcall
        cases hcall
  | cons caller below ih =>
      obtain ⟨hfunction, hargument⟩ := resolveFunctionBinding_evaluates hsingle h
      rcases trace_cons_eq_some htrace with hbinding | ⟨index, call, handed, hbinding, hcall, hhanded, hbelow⟩
      · exact hfunction id hbinding
      · have henters := hlinked.1 call hcall
        rw [hargument index hbinding]
        exact ih (fun other hmem => hplaced other (List.mem_cons_of_mem _ hmem)) hlinked.2
          (operands_single hslots (hplaced caller (List.mem_cons_self ..)) henters.reachable
            (List.mem_of_getElem? hhanded)) hbelow (henters.arguments index handed hhanded)

end Stacks

section Recorded

variable {module : Module} {frame : Frame} {rest : List Frame} {value : FunctionValue} {id : String}

theorem mem_reachableCalls {function : Function} {block : Block} {call : Call} :
    (function, block, call) ∈ reachableCalls module ↔ function ∈ module.definitions ∧
      block ∈ function.reachableBlocks ∧ call ∈ block.calls := by
  simp only [reachableCalls, List.mem_flatMap, List.mem_map, Prod.mk.injEq]
  constructor
  · rintro ⟨other, hother, found, hfound, called, hcalled, rfl, rfl, rfl⟩
    exact ⟨hother, hfound, hcalled⟩
  · rintro ⟨hfunction, hblock, hcall⟩
    exact ⟨function, hfunction, block, hblock, call, hcall, rfl, rfl, rfl⟩

theorem defines_of_placed (h : Placed module frame) : module.defines frame.function.id = true :=
  Module.defines_iff.mpr ⟨frame.function, h.function, rfl⟩

-- A direct call of an activation is a call site, and a binding where it hands on a known function.
theorem site_of_enters {caller : Frame} {call : Call} (hcaller : Placed module caller)
    (hframe : Placed module frame) (h : Enters caller frame call) :
    ∃ site ∈ collectDirectCallSites module, site.call = call.id ∧
      site.callerFunctionId = caller.function.id ∧ site.calleeFunctionId = frame.function.id := by
  obtain ⟨block, hblock, hcall⟩ := h.reachable
  let site : DirectCallSite := {
    call := call.id
    callerFunctionId := caller.function.id
    calleeFunctionId := frame.function.id
    loweredLocation := call.loweredLocation
    userLocation := call.userLocation
    insideLoop := block.insideLoop }
  have hsite : siteOf module caller.function block call = some site := by
    rw [siteOf, h.callee, Option.bind_some, if_pos (defines_of_placed hframe)]
  exact ⟨site, mem_collectDirectCallSites.mpr
    ⟨caller.function, hcaller.function, block, hblock, call, hcall, hsite⟩, rfl, rfl, rfl⟩

theorem binding_of_enters {caller : Frame} {call : Call} (hcaller : Placed module caller)
    (hframe : Placed module frame) (h : Enters caller frame call) {index : Nat} {handed : FunctionBinding}
    (hvalue : call.operands[index]? = some value) (hhanded : resolveFunctionBinding value = some handed) :
    ∃ binding ∈ buildDirectCallBindings module (collectDirectCallSites module),
      binding.callerFunctionId = caller.function.id ∧ binding.calleeFunctionId = frame.function.id ∧
        binding.argument index = some handed := by
  obtain ⟨site, hsite, hid, hcallerId, hcalleeId⟩ := site_of_enters hcaller hframe h
  obtain ⟨block, hblock, hcall⟩ := h.reachable
  have hfound : module.callWithId site.call = some call := by
    rw [hid]
    exact Module.callWithId_of_mem (Module.mem_definitions.mp hcaller.function).1
      (Function.mem_calls_of_reachable hblock hcall)
  have hany : (call.operands.map resolveFunctionBinding).any Option.isSome = true :=
    List.any_eq_true.mpr ⟨some handed, List.mem_map.mpr ⟨value, List.mem_of_getElem? hvalue, hhanded⟩, rfl⟩
  let binding : DirectFunctionCallBinding := {
    callerFunctionId := site.callerFunctionId
    calleeFunctionId := site.calleeFunctionId
    argumentBindings := call.operands.map resolveFunctionBinding
    location := site.loweredLocation
    insideLoop := site.insideLoop }
  have hbinding : bindingOfSite module site = some binding := by
    rw [bindingOfSite, hfound, Option.bind_some]
    exact if_pos hany
  refine ⟨binding, List.mem_filterMap.mpr ⟨site, hsite, hbinding⟩, hcallerId, hcalleeId, ?_⟩
  rw [DirectFunctionCallBinding.argument, List.getElem?_map, hvalue, Option.map_some, hhanded]
  rfl

-- A parameter that a thread is started on, traced to a function, makes that function an entry.
theorem startsEntry_of_parameter {spawn : ParameterizedSpawn} {call : Call}
    (hplaced : ∀ other ∈ frame :: rest, Placed module other) (hlinked : Linked (frame :: rest))
    (hstarts : StartsParameter module (collectDirectCallSites module) frame.function.id spawn)
    (hcall : frame.calledBy = some call) (hvalue : call.operands[spawn.argumentIndex]? = some value)
    (htrace : trace rest value = some id) :
    ∃ fact, StartsEntry module (collectDirectCallSites module) fact ∧ fact.entryFunctionId = id := by
  induction rest generalizing frame value spawn call with
  | nil =>
      rw [show frame.calledBy = none from hlinked] at hcall
      cases hcall
  | cons caller below ih =>
      have henters := hlinked.1 call hcall
      have hframe := hplaced frame (by simp)
      have hcaller := hplaced caller (by simp)
      rcases trace_cons_eq_some htrace with hbinding | ⟨index, outer, handed, hbinding, houter, hhanded, hbelow⟩
      · obtain ⟨binding, hmem, -, hcallee, hargument⟩ := binding_of_enters hcaller hframe henters hvalue hbinding
        exact ⟨_, .through hmem (hcallee ▸ hstarts) hargument, rfl⟩
      · obtain ⟨binding, hmem, hcallerId, hcallee, hargument⟩ :=
          binding_of_enters hcaller hframe henters hvalue hbinding
        have hnext := StartsParameter.through hmem (hcallee ▸ hstarts) hargument
        rw [hcallerId] at hnext
        exact ih (fun other hother => hplaced other (List.mem_cons_of_mem _ hother)) hlinked.2 hnext houter
          hhanded hbelow

-- So does an operand that a thread is started on.
theorem startsEntry_of_trace {call : Call} (hplaced : ∀ other ∈ frame :: rest, Placed module other)
    (hlinked : Linked (frame :: rest)) (hcall : ∃ block ∈ frame.function.reachableBlocks, call ∈ block.calls)
    (hentry : threadEntryValue call = some value) (htrace : trace (frame :: rest) value = some id) :
    ∃ fact, StartsEntry module (collectDirectCallSites module) fact ∧ fact.entryFunctionId = id := by
  obtain ⟨block, hblock, hmem⟩ := hcall
  have hplace := mem_reachableCalls.mpr ⟨(hplaced frame (by simp)).function, hblock, hmem⟩
  have hbinding : threadEntryBindingFromCall call = resolveFunctionBinding value := by
    rw [threadEntryBindingFromCall, hentry, Option.bind_some]
  rcases trace_cons_eq_some htrace with hfunction | ⟨index, outer, handed, hargument, houter, hhanded, hbelow⟩
  · exact ⟨_, .own hplace (hbinding.trans hfunction), rfl⟩
  · exact startsEntry_of_parameter hplaced hlinked (.own hplace (hbinding.trans hargument)) houter hhanded
      hbelow

theorem startsEntry_plain (hnames : PlainNames module) {fact : SpawnFact}
    (h : StartsEntry module (collectDirectCallSites module) fact) : '|' ∉ fact.entryFunctionId.toList := by
  cases h with
  | @own function block call entry hmem hbinding =>
      obtain ⟨hfunction, hblock, hcall⟩ := mem_reachableCalls.mp hmem
      obtain ⟨value, hvalue, hresolved⟩ := Option.bind_eq_some_iff.mp hbinding
      refine hnames function (Module.mem_definitions.mp hfunction).1 call
        (Function.mem_calls_of_reachable hblock hcall) value ?_ entry hresolved
      unfold threadEntryValue at hvalue
      split at hvalue
      · exact List.mem_of_getElem? hvalue
      · exact List.mem_of_getElem? hvalue
      · cases hvalue
  | @through binding spawn entry hbinding _ hargument =>
      obtain ⟨site, hsite, hsome⟩ := List.mem_filterMap.mp hbinding
      obtain ⟨function, hfunction, call, hcall, hfound, -, -⟩ := collectDirectCallSites_call hsite
      rw [bindingOfSite, hfound, Option.bind_some] at hsome
      simp only at hsome
      split at hsome
      · cases hsome
        have hmem := List.mem_of_getElem? (Option.join_eq_some_iff.mp hargument)
        obtain ⟨value, hvalue, hresolved⟩ := List.mem_map.mp hmem
        exact hnames function (Module.mem_definitions.mp hfunction).1 call hcall value hvalue entry hresolved
      · cases hsome

-- The detector knows of an entry that some call starts a thread on.
theorem entryConcurrency_of_startsEntry (hnames : PlainNames module) (includeExternalEntries : Bool)
    {fact : SpawnFact} (h : StartsEntry module (collectDirectCallSites module) fact)
    (hdefined : module.defines fact.entryFunctionId = true) :
    ((collectSpawns module includeExternalEntries (collectDirectCallSites module)).entryConcurrency
      fact.entryFunctionId).isSome = true := by
  have hrecorded := @collectSpawns_recorded module includeExternalEntries (collectDirectCallSites module)
  obtain ⟨known, hknown, hkey⟩ := List.mem_map.mp (@key_mem_collectSpawns module includeExternalEntries
    (collectDirectCallSites module) fact h (.inl hdefined))
  have htext := congrArg String.toList hkey
  obtain ⟨middle, hmiddle⟩ := toList_spawnKeyTail known.location known.insideLoop
  obtain ⟨middle', hmiddle'⟩ := toList_spawnKeyTail fact.location fact.insideLoop
  simp only [concreteSpawnKey, String.toList_append, hmiddle, hmiddle'] at htext
  have hentry := (Delimiter.split_single (startsEntry_plain hnames (hrecorded.sound known hknown).1)
    (startsEntry_plain hnames h) htext).1
  rw [String.toList_inj] at hentry
  rw [hrecorded.counted, concurrencyOf]
  have hmem : known ∈ (collectSpawns module includeExternalEntries
      (collectDirectCallSites module)).spawns.filter (·.entryFunctionId = fact.entryFunctionId) :=
    List.mem_filter.mpr ⟨hknown, by simp [hentry]⟩
  rw [if_neg fun hempty => List.ne_nil_of_mem hmem (List.isEmpty_iff.mp hempty)]
  rfl

end Recorded

end ConcurrencyAnalyzer.ThreadEntries
