import ConcurrencyAnalyzer.ThreadEntries.Runs

namespace ConcurrencyAnalyzer.ThreadEntries

open Library Relation

section Invariants

variable {module : Module} {thread after : Thread} {effect : Effect} {handlers : List String}
  {frame : Frame} {rest : List Frame}

variable (module) in
-- The functions that the call sites and the registrations of destructors lead to from an entry.
def RunsFor (entry functionId : String) : Prop :=
  ReflTransGen (RunsInThread module (collectDirectCallSites module)) entry functionId

variable (module) in
structure FrameSound (entry : String) (frame : Frame) : Prop where
  placed : Placed module frame
  followed : frame.followed = true → RunsFor module entry frame.function.id
  handling : ∀ handler, frame.handling = some handler →
    (∃ location, Installs module handler location) ∧
      ReflTransGen (Calls (collectDirectCallSites module)) handler frame.function.id

variable (module) in
-- What holds of each thread at any moment.
structure ThreadSound (thread : Thread) : Prop where
  frames : ∀ frame ∈ thread.frames, FrameSound module thread.entry frame
  linked : Linked thread.frames
  destructors : ∀ destructor, (destructor, true) ∈ thread.destructors → module.defines destructor = true →
    RunsFor module thread.entry destructor
  traced : thread.traced = some thread.entry → module.defines thread.entry = true ∧
    ∃ fact, StartsEntry module (collectDirectCallSites module) fact ∧ fact.entryFunctionId = thread.entry
  read : SingleSlots module → ∀ id, thread.traced = some id → id = thread.entry

variable (module) in
def HandlersSound (handlers : List String) : Prop :=
  ∀ handler ∈ handlers, ∃ location, Installs module handler location

theorem atCall_reachable (hplaced : Placed module frame) {call : Call} (h : frame.AtCall call) :
    ∃ block ∈ frame.function.reachableBlocks, call ∈ block.calls := by
  obtain ⟨block, hblock, hcall⟩ := h
  exact ⟨block, Function.mem_reachableBlocks.mpr ⟨frame.block, hplaced.block, hblock⟩,
    List.mem_of_getElem? hcall⟩

theorem atCall_mem (hplaced : Placed module frame) {call : Call} (h : frame.AtCall call) :
    frame.function ∈ module.functions ∧ call ∈ frame.function.calls := by
  obtain ⟨block, hblock, hcall⟩ := atCall_reachable hplaced h
  exact ⟨(Module.mem_definitions.mp hplaced.function).1, Function.mem_calls_of_reachable hblock hcall⟩

theorem placed_entry {function : Function} (h : function ∈ module.definitions) (frame : Frame)
    (hfunction : frame.function = function) (hblock : frame.block = 0) : Placed module frame := by
  subst hfunction
  exact ⟨h, hblock ▸ Function.entry_reachable _⟩

-- A direct call of an activation runs its callee in the same thread, and under the same handler.
theorem calls_of_enters {caller : Frame} (hcaller : Placed module caller) (hframe : Placed module frame)
    {call : Call} (h : Enters caller frame call) :
    Calls (collectDirectCallSites module) caller.function.id frame.function.id := by
  obtain ⟨site, hsite, -, hcallerId, hcalleeId⟩ := site_of_enters hcaller hframe h
  exact ⟨site, hsite, hcallerId, hcalleeId⟩

-- Putting another activation on the stack.
theorem ThreadSound.push (h : ThreadSound module thread) {pushed : Frame}
    (hsound : FrameSound module thread.entry pushed) (hlinked : Linked (pushed :: thread.frames)) :
    ThreadSound module { thread with frames := pushed :: thread.frames } :=
  ⟨List.forall_mem_cons.mpr ⟨hsound, h.frames⟩, hlinked, h.destructors, h.traced, h.read⟩

-- Moving the activation on top of the stack.
theorem ThreadSound.move (h : ThreadSound module thread) (hframes : thread.frames = frame :: rest)
    {moved : Frame} (hblock : moved.block ∈ frame.function.reachable)
    (hsame : { moved with block := frame.block, index := frame.index } = frame) :
    ThreadSound module { thread with frames := moved :: rest } := by
  obtain ⟨htop, hrest⟩ := List.forall_mem_cons.mp (hframes ▸ h.frames)
  have hfunction : moved.function = frame.function := by rw [← hsame]
  refine ⟨List.forall_mem_cons.mpr ⟨⟨⟨?_, ?_⟩, ?_, ?_⟩, hrest⟩, ?_, h.destructors, h.traced, h.read⟩
  · rw [hfunction]
    exact htop.placed.function
  · rwa [hfunction]
  · rw [hfunction, show moved.followed = frame.followed by rw [← hsame]]
    exact htop.followed
  · rw [hfunction, show moved.handling = frame.handling by rw [← hsame]]
    exact htop.handling
  · exact (hframes ▸ h.linked : Linked (frame :: rest)).move hfunction (by rw [← hsame]) (by rw [← hsame])

theorem Linked.push_uncalled {pushed : Frame} (h : Linked rest) (hcalledBy : pushed.calledBy = none) :
    Linked (pushed :: rest) := by
  cases rest with
  | nil => exact hcalledBy
  | cons caller below =>
      refine ⟨fun call hcall => ?_, h⟩
      rw [hcalledBy] at hcall
      cases hcall

theorem placed_frames (h : ThreadSound module thread) (hframes : thread.frames = frame :: rest) :
    ∀ other ∈ frame :: rest, Placed module other :=
  fun other hother => (h.frames other (hframes ▸ hother)).placed

theorem ThreadSound.enter (h : ThreadSound module thread) (hframes : thread.frames = frame :: rest)
    {call : Call} (hcall : frame.AtCall call) {callee : Function} (hcallee : callee ∈ module.definitions)
    (hdirect : call.directCallee = some callee.id) {arguments : Nat → Option String}
    (harguments : ∀ (index : Nat) value, call.operands[index]? = some value →
      Evaluates frame.arguments value (arguments index)) :
    ThreadSound module { thread with frames :=
      { function := callee, arguments := arguments, calledBy := some call
        followed := frame.followed, handling := frame.handling } :: frame :: rest } := by
  have htop := h.frames frame (hframes ▸ List.mem_cons_self ..)
  let pushed : Frame := {
    function := callee, arguments := arguments, calledBy := some call
    followed := frame.followed, handling := frame.handling }
  have hplaced : Placed module pushed := placed_entry hcallee pushed rfl rfl
  have henters : Enters frame pushed call := ⟨atCall_reachable htop.placed hcall, hdirect, harguments⟩
  have hcalls := calls_of_enters htop.placed hplaced henters
  rw [← hframes]
  refine @ThreadSound.push module thread h pushed ⟨hplaced, fun hfollowed => ?_, fun handler hhandling => ?_⟩ ?_
  · exact (htop.followed hfollowed).tail (.inl hcalls)
  · obtain ⟨hinstalls, hreached⟩ := htop.handling handler hhandling
    exact ⟨hinstalls, hreached.tail hcalls⟩
  · rw [hframes]
    refine ⟨fun other hother => ?_, hframes ▸ h.linked⟩
    cases hother
    exact henters

theorem mem_operands_of_threadEntryValue {call : Call} {value : FunctionValue}
    (h : threadEntryValue call = some value) : value ∈ call.operands := by
  unfold threadEntryValue at h
  split at h
  · exact List.mem_of_getElem? h
  · exact List.mem_of_getElem? h
  · cases h

-- A thread that is started on what its operand is traced to is one the summaries lead to.
theorem ThreadSound.starts (h : ThreadSound module thread) (hframes : thread.frames = frame :: rest)
    {call : Call} (hcall : frame.AtCall call) {value : FunctionValue}
    (hvalue : threadEntryValue call = some value) {entry : Function}
    (hevaluates : Evaluates frame.arguments value (some entry.id)) (hentry : entry ∈ module.definitions)
    {arguments : Nat → Option String} :
    ThreadSound module {
      entry := entry.id
      traced := trace (frame :: rest) value
      frames := [{ function := entry, arguments := arguments, followed := true }] } := by
  have hplaced := placed_frames h hframes
  have hlinked : Linked (frame :: rest) := hframes ▸ h.linked
  have hreachable := atCall_reachable (hplaced frame (List.mem_cons_self ..)) hcall
  refine ⟨?_, rfl, by simp, fun htraced => ?_, fun hslots id htraced => ?_⟩
  · intro started hstarted
    obtain rfl := List.mem_singleton.mp hstarted
    exact ⟨placed_entry hentry _ rfl rfl, fun _ => .refl, fun handler hhandling => by cases hhandling⟩
  · obtain ⟨fact, hstarts, hid⟩ := startsEntry_of_trace hplaced hlinked hreachable hvalue htraced
    exact ⟨Module.defines_iff.mpr ⟨entry, hentry, rfl⟩, fact, hstarts, hid⟩
  · have hsingle := operands_single hslots (hplaced frame (List.mem_cons_self ..)) hreachable
      (mem_operands_of_threadEntryValue hvalue)
    have hsame := trace_evaluates hslots (fun other hother =>
      hplaced other (List.mem_cons_of_mem _ hother)) hlinked hsingle htraced hevaluates
    exact (Option.some_inj.mp hsame).symm

theorem ThreadSound.registers (h : ThreadSound module thread) (hframes : thread.frames = frame :: rest)
    {call : Call} (hcall : frame.AtCall call) (hkind : call.kind = .ThreadExitDestructorRegistration)
    {value : FunctionValue} (hvalue : call.operands.head? = some value) (destructor : String) :
    ThreadSound module { thread with destructors := thread.destructors ++
      [(destructor, frame.followed && resolveFunctionValue value = some destructor)] } := by
  refine ⟨h.frames, h.linked, fun other hmem hdefined => ?_, h.traced, h.read⟩
  rcases List.mem_append.mp hmem with hold | hnew
  · exact h.destructors other hold hdefined
  · obtain ⟨rfl, hknown⟩ := Prod.mk.inj (List.mem_singleton.mp hnew)
    obtain ⟨hfollowed, hresolved⟩ := Bool.and_eq_true_iff.mp hknown.symm
    have htop := h.frames frame (hframes ▸ List.mem_cons_self ..)
    obtain ⟨hfunction, hmember⟩ := atCall_mem htop.placed hcall
    have hregistered : registeredDestructor module call = some other := by
      unfold registeredDestructor
      rw [if_pos hkind, hvalue, Option.bind_some, of_decide_eq_true hresolved, Option.filter_some,
        if_pos hdefined]
    exact (htop.followed hfollowed).tail
      (.inr ⟨frame.function, hfunction, rfl, call, hmember, hregistered⟩)

-- The step of every thread: whatever it does, what it reaches stays accounted for.
theorem ThreadStep.sound (h : ThreadSound module thread) (hhandlers : HandlersSound module handlers)
    (hstep : ThreadStep module handlers thread effect after) :
    ThreadSound module after ∧ (∀ started ∈ effect.started, ThreadSound module started) ∧
      HandlersSound module effect.installed := by
  cases hstep with
  | advance hframes hcall =>
      refine ⟨h.move hframes ?_ rfl, by simp [Effect.started], by simp [Effect.installed, HandlersSound]⟩
      exact (h.frames _ (hframes ▸ List.mem_cons_self ..)).placed.block
  | branch hframes hsuccessor =>
      refine ⟨h.move hframes ?_ rfl, by simp [Effect.started], by simp [Effect.installed, HandlersSound]⟩
      exact Function.reachable_successor (h.frames _ (hframes ▸ List.mem_cons_self ..)).placed.block
        hsuccessor
  | call hframes hcall hcallee hdirect harguments =>
      exact ⟨h.enter hframes hcall hcallee hdirect harguments, by simp [Effect.started],
        by simp [Effect.installed, HandlersSound]⟩
  | callOut hframes hcall hcallee =>
      refine ⟨?_, by simp [Effect.started], by simp [Effect.installed, HandlersSound]⟩
      rw [← hframes]
      exact h.push ⟨placed_entry hcallee _ rfl rfl, fun hfollowed => (by cases hfollowed),
        fun handler hhandling => by cases hhandling⟩ (h.linked.push_uncalled rfl)
  | leave hframes =>
      refine ⟨⟨fun frame hmem => ?_, ?_, h.destructors, h.traced, h.read⟩, by simp [Effect.started],
        by simp [Effect.installed, HandlersSound]⟩
      · exact h.frames frame (hframes ▸ List.mem_cons_of_mem _ hmem)
      · exact (hframes ▸ h.linked : Linked _).tail
  | start hframes hcall hvalue hevaluates hentry =>
      refine ⟨h, fun started hmem => ?_, by simp [Effect.installed, HandlersSound]⟩
      obtain rfl := List.mem_singleton.mp hmem
      exact h.starts hframes hcall hvalue hevaluates hentry
  | register hframes hcall hkind hvalue hevaluates =>
      exact ⟨h.registers hframes hcall hkind hvalue _, by simp [Effect.started],
        by simp [Effect.installed, HandlersSound]⟩
  | destroy hframes hmem hdestructor =>
      rename_i known destructor arguments
      refine ⟨⟨fun frame hframe => ?_, rfl, h.destructors, h.traced, h.read⟩, by simp [Effect.started],
        by simp [Effect.installed, HandlersSound]⟩
      obtain rfl := List.mem_singleton.mp hframe
      refine ⟨placed_entry hdestructor _ rfl rfl, fun hknown => ?_, fun handler hhandling => by cases hhandling⟩
      obtain rfl : known = true := hknown
      exact h.destructors _ hmem (Module.defines_iff.mpr ⟨destructor, hdestructor, rfl⟩)
  | install hframes hcall hinstalled =>
      rename_i frame rest call handler
      refine ⟨h, by simp [Effect.started], fun other hother => ?_⟩
      obtain rfl := List.mem_singleton.mp hother
      have htop := h.frames frame (hframes ▸ List.mem_cons_self ..)
      exact ⟨_, frame.function, htop.placed.function, call, (atCall_mem htop.placed hcall).2, hinstalled, rfl⟩
  | interrupt hmem hhandler =>
      refine ⟨?_, by simp [Effect.started], by simp [Effect.installed, HandlersSound]⟩
      refine h.push ⟨placed_entry hhandler _ rfl rfl, fun hfollowed => (by cases hfollowed), ?_⟩
        (h.linked.push_uncalled rfl)
      intro other hother
      cases hother
      exact ⟨hhandlers _ hmem, .refl⟩

theorem Reached.sound {process : Process} (h : Reached module process) :
    (∀ thread ∈ process.threads, ThreadSound module thread) ∧ HandlersSound module process.handlers := by
  induction h with
  | initial hfunction =>
      refine ⟨fun thread hmem => ?_, by simp [HandlersSound]⟩
      obtain rfl := List.mem_singleton.mp hmem
      refine ⟨fun frame hframe => ?_, rfl, by simp, fun htraced => (by cases htraced),
        fun _ _ htraced => by cases htraced⟩
      obtain rfl := List.mem_singleton.mp hframe
      exact ⟨placed_entry hfunction _ rfl rfl, fun hfollowed => (by cases hfollowed),
        fun handler hhandling => by cases hhandling⟩
  | @step front thread back handlers effect after _ hstep ih =>
      obtain ⟨hthreads, hhandlers⟩ := ih
      obtain ⟨hafter, hstarted, hinstalled⟩ := hstep.sound (hthreads thread (by simp)) hhandlers
      refine ⟨fun other hmem => ?_, fun handler hmem => ?_⟩
      · simp only [List.mem_append, List.mem_cons] at hmem
        rcases hmem with (hfront | rfl | hback) | hnew
        · exact hthreads other (by simp [hfront])
        · exact hafter
        · exact hthreads other (by simp [hback])
        · exact hstarted other hnew
      · rcases List.mem_append.mp hmem with hold | hnew
        · exact hhandlers handler hold
        · exact hinstalled handler hnew

end Invariants

-- In every state of every run, a thread that runs what its operand is traced to is one the detector
-- knows of, and each function it came to by direct calls or by destructors has that entry among its
-- contexts. Where no local is stored two member functions, a thread runs whatever its operand is traced
-- to.
theorem runs_in_known_threads (module : Module) (includeExternalEntries : Bool)
    (hnames : PlainNames module) (process : Process) (hreached : Reached module process) :
    (∀ thread ∈ process.threads, thread.traced = some thread.entry →
      thread.entry ∈ knownEntries module includeExternalEntries ∧
        ∀ frame ∈ thread.frames, frame.followed = true →
          thread.entry ∈ (collectThreadContexts module (collectDirectCallSites module)
            (knownEntries module includeExternalEntries) frame.function.id).getD ∅) ∧
      (SingleSlots module → ∀ thread ∈ process.threads, ∀ id, thread.traced = some id → id = thread.entry) := by
  refine ⟨fun thread hmem htraced => ?_, fun hslots thread hmem => (hreached.sound.1 thread hmem).read hslots⟩
  have hsound := hreached.sound.1 thread hmem
  obtain ⟨hdefined, fact, hstarts, hentry⟩ := hsound.traced htraced
  have hknown : thread.entry ∈ knownEntries module includeExternalEntries := by
    obtain ⟨function, hfunction, hid⟩ := Module.defines_iff.mp hdefined
    refine List.mem_filter.mpr ⟨?_, ?_⟩
    · rw [← hid]
      exact List.mem_map_of_mem (Module.mem_definitions.mp hfunction).1
    · rw [← hentry] at hdefined ⊢
      exact entryConcurrency_of_startsEntry hnames includeExternalEntries hstarts hdefined
  refine ⟨hknown, fun frame hframe hfollowed => ?_⟩
  exact mem_collectThreadContexts.mpr
    ⟨hknown, (hsound.frames frame hframe).followed hfollowed⟩

-- In no state of any run does a signal handler, by itself or through direct calls, come to an unsafe call
-- that installs none without being reported.
theorem unsafe_handlers_reported (module : Module) (process : Process)
    (hreached : Reached module process) :
    ∀ thread ∈ process.threads, ∀ frame ∈ thread.frames, ∀ handler call,
      frame.handling = some handler → frame.AtCall call → call.isAsyncSignalUnsafe = true →
        installedHandler module call = none →
          handler ∈ (collectSignalHandlers module (collectDirectCallSites module)).map
            (·.handlerFunctionId) := by
  intro thread hthread frame hframe handler call hhandling hcall hdanger hinstalled
  have hsound := (hreached.sound.1 thread hthread).frames frame hframe
  obtain ⟨⟨location, hinstalls⟩, hcalls⟩ := hsound.handling handler hhandling
  exact mem_collectSignalHandlers hinstalls hcalls ⟨frame.function, hsound.placed.function, rfl, call,
    (atCall_mem hsound.placed hcall).2, hinstalled, hdanger, rfl⟩

section Crew

-- A program that starts its worker through a function it hands it to, and whose handler writes a log.
def crewMain : Function where
  id := "main"
  blocks := [{ calls := [
    { id := 0, directCallee := some "launch", operands := [.function "worker"] },
    { id := 1, installedSignalHandler := some "on_signal" }] }]

def crewLaunch : Function where
  id := "launch"
  blocks := [{ calls := [
    { id := 2, kind := .PThreadCreate, operands := [.other, .other, .argument 0, .other] }] }]

def crewWorker : Function where
  id := "worker"
  blocks := [{ calls := [{ id := 3, directCallee := some "log_line" }] }]

def crewHandler : Function where
  id := "on_signal"
  blocks := [{ calls := [{ id := 4, directCallee := some "log_line" }] }]

def crewLog : Function where
  id := "log_line"
  blocks := [{ calls := [{ id := 5, isAsyncSignalUnsafe := true }] }]

def crew : Module where
  functions := [crewMain, crewLaunch, crewWorker, crewHandler, crewLog]

theorem crew_singleSlots : SingleSlots crew := by
  intro function hfunction call hcall value hvalue
  have hvalues : value = .other ∨ value = .argument 0 ∨ value = .function "worker" := by
    revert value call function
    decide
  rcases hvalues with rfl | rfl | rfl <;> trivial

theorem crew_plainNames : PlainNames crew := by
  intro function hfunction call hcall value hvalue id hid
  have hvalues : value = .other ∨ value = .argument 0 ∨ value = .function "worker" := by
    clear hid id
    revert value call function
    decide
  rcases hvalues with rfl | rfl | rfl
  · cases hid
  · cases hid
  · cases hid
    decide

theorem crew_definitions : crewMain ∈ crew.definitions ∧ crewLaunch ∈ crew.definitions ∧
    crewWorker ∈ crew.definitions ∧ crewHandler ∈ crew.definitions ∧ crewLog ∈ crew.definitions := by
  simp [Module.mem_definitions, crew, Function.isDeclaration, crewMain, crewLaunch, crewWorker, crewHandler,
    crewLog]

def crewMainFrame : Frame := { function := crewMain, arguments := fun _ => none }

def crewLaunchFrame : Frame where
  function := crewLaunch
  arguments := fun _ => some "worker"
  calledBy := some { id := 0, directCallee := some "launch", operands := [.function "worker"] }

def crewWorkerFrame : Frame := { function := crewWorker, arguments := fun _ => none, followed := true }

def crewLogFrame : Frame where
  function := crewLog
  arguments := fun _ => none
  calledBy := some { id := 3, directCallee := some "log_line" }
  followed := true

def crewHandlerFrame : Frame where
  function := crewHandler
  arguments := fun _ => none
  handling := some "on_signal"

def crewThread (frames : List Frame) : Thread := { entry := "main", traced := none, frames := frames }

def crewWorkerThread (frames : List Frame) : Thread :=
  { entry := "worker", traced := some "worker", frames := frames }

theorem crew_working : Reached crew
    ⟨[crewThread [crewLaunchFrame, crewMainFrame], crewWorkerThread [crewLogFrame, crewWorkerFrame]], []⟩ := by
  obtain ⟨hmain, hlaunch, hworker, -, hlog⟩ := crew_definitions
  have hinitial : Reached crew ⟨[crewThread [crewMainFrame]], []⟩ := .initial hmain
  have hlaunching : Reached crew ⟨[crewThread [crewLaunchFrame, crewMainFrame]], []⟩ := by
    refine @Reached.step crew [] _ [] [] .none _ hinitial
      (@ThreadStep.call crew [] _ crewMainFrame [] _ crewLaunch (fun _ => some "worker") rfl ⟨_, rfl, rfl⟩
        hlaunch rfl ?_)
    intro index value hvalue
    cases index with
    | zero => cases hvalue; rfl
    | succ index => cases hvalue
  have hstarted : Reached crew
      ⟨[crewThread [crewLaunchFrame, crewMainFrame], crewWorkerThread [crewWorkerFrame]], []⟩ :=
    @Reached.step crew [] _ [] [] (.starts (crewWorkerThread [crewWorkerFrame])) _ hlaunching
      (@ThreadStep.start crew [] _ crewLaunchFrame [crewMainFrame] _ (.argument 0) crewWorker (fun _ => none)
        rfl ⟨_, rfl, rfl⟩ rfl rfl hworker)
  refine @Reached.step crew [crewThread [crewLaunchFrame, crewMainFrame]] _ [] [] .none _ hstarted
    (@ThreadStep.call crew [] _ crewWorkerFrame [] _ crewLog (fun _ => none) rfl ⟨_, rfl, rfl⟩ hlog rfl ?_)
  intro index value hvalue
  cases hvalue

theorem crew_handling : Reached crew
    ⟨[crewThread [{ crewLogFrame with
      calledBy := some { id := 4, directCallee := some "log_line" }
      followed := false
      handling := some "on_signal" }, crewHandlerFrame, { crewMainFrame with index := 1 }]], ["on_signal"]⟩ := by
  obtain ⟨hmain, -, -, hhandler, hlog⟩ := crew_definitions
  have hinitial : Reached crew ⟨[crewThread [crewMainFrame]], []⟩ := .initial hmain
  have hadvanced : Reached crew ⟨[crewThread [{ crewMainFrame with index := 1 }]], []⟩ :=
    @Reached.step crew [] _ [] [] .none _ hinitial (.advance rfl ⟨_, rfl, rfl⟩)
  have hinstalled : Reached crew ⟨[crewThread [{ crewMainFrame with index := 1 }]], ["on_signal"]⟩ :=
    @Reached.step crew [] _ [] [] (.installs "on_signal") _ hadvanced
      (.install rfl ⟨_, rfl, rfl⟩ (by decide))
  have hinterrupted : Reached crew
      ⟨[crewThread [crewHandlerFrame, { crewMainFrame with index := 1 }]], ["on_signal"]⟩ :=
    @Reached.step crew [] _ [] _ .none _ hinstalled
      (@ThreadStep.interrupt crew _ _ crewHandler (fun _ => none) (List.mem_singleton_self _) hhandler)
  refine @Reached.step crew [] _ [] _ .none _ hinterrupted
    (@ThreadStep.call crew _ _ crewHandlerFrame [{ crewMainFrame with index := 1 }] _ crewLog (fun _ => none)
      rfl ⟨_, rfl, rfl⟩ hlog rfl ?_)
  intro index value hvalue
  cases hvalue

theorem runs_in_known_threads_crew :
    "worker" ∈ knownEntries crew false ∧
      "worker" ∈ (collectThreadContexts crew (collectDirectCallSites crew) (knownEntries crew false)
        "log_line").getD ∅ ∧
      ∀ id, (crewWorkerThread [crewLogFrame, crewWorkerFrame]).traced = some id → id = "worker" := by
  obtain ⟨hthreads, hread⟩ := runs_in_known_threads crew false crew_plainNames _ crew_working
  obtain ⟨hknown, hfollowed⟩ :=
    hthreads (crewWorkerThread [crewLogFrame, crewWorkerFrame]) (by simp) rfl
  refine ⟨hknown, hfollowed crewLogFrame (by simp [crewWorkerThread]) rfl, ?_⟩
  exact hread crew_singleSlots (crewWorkerThread [crewLogFrame, crewWorkerFrame]) (by simp)

theorem unsafe_handlers_reported_crew :
    "on_signal" ∈ (collectSignalHandlers crew (collectDirectCallSites crew)).map (·.handlerFunctionId) :=
  unsafe_handlers_reported crew _ crew_handling _ (List.mem_singleton_self _) _
    (List.mem_cons_self ..) "on_signal" { id := 5, isAsyncSignalUnsafe := true } rfl ⟨_, rfl, rfl⟩ rfl rfl

end Crew

end ConcurrencyAnalyzer.ThreadEntries
