import ConcurrencyAnalyzer.AtomicOrdering.Agreement

namespace ConcurrencyAnalyzer.AtomicOrdering

open Program (Place)

theorem Module.functionWithId_of_mem {module : Module} {function : Function}
    (h : function ∈ module.functions) : module.functionWithId function.id = some function :=
  Library.KeepFirst.find?_of_mem module.idsDistinct h

theorem Module.mem_of_functionWithId {module : Module} {id : String} {function : Function}
    (h : module.functionWithId id = some function) : function ∈ module.functions ∧ function.id = id :=
  ⟨List.mem_of_find?_eq_some h, by simpa using List.find?_some h⟩

-- Where an instruction writes to, other than to a local.
def Instruction.target : Instruction → Option Program.Pointer
  | .store target _ => some target
  | .atomicStore target _ _ => some target
  | .readModifyWrite target _ => some target
  | _ => none

def marksOf (activation : Nat) (events : List Event) : List Mark :=
  (events.filter (·.activation = activation)).map (·.mark)

-- An activation has loaded a value that was written.
def Observed (events : List Event) (activation : Nat) (site : Site) : Prop :=
  ∃ event ∈ events, event.activation = activation ∧ event.mark = .ran site ∧
    ∃ read source, event.read = some read ∧ read.source = some source

section Conditions

variable (finder : PublicationFinder) (memory : Memory finder.module) (flag : String)
  (publication : Publication)

-- The part of the flag that its initializer starts with.
def Publication.flagPlace : Place := ⟨.global publication.store.object, 0⟩

-- What a fold makes of the flag's first value.
def initialFolder (load : FlagAccess) : ConstantFolder where
  function := load.function
  live := some load.function.liveBlocks
  substituted := some (load.site, memory.value publication.flagPlace)

-- A reader of the publication.
def Reads (load : FlagAccess) : Prop :=
  load ∈ finder.loads flag ∧ load.function.id ≠ publication.store.function.id

-- What the analysis takes for granted of a publication it finds.
structure Decisive : Prop where
  -- The flag's first value takes another arm than the published one.
  separates : ∀ load, Reads finder flag publication load →
    ∀ arm ∈ load.observedArms publication.published, ∀ found, load.function.blocks[arm.1]? = some found →
      ∃ other, (initialFolder finder memory publication load).takenSuccessor found.terminator =
        some other ∧ other ≠ arm.2
  -- The store is on no cycle, in a natural loop or not.
  acyclic : ¬Relation.TransGen
    (fun block next => next ∈ publication.store.function.successors block)
    publication.store.site.1 publication.store.site.1
  -- The store releases, or a fence before it does.
  releases : publication.releasePoints ≠ []

-- What a step does in a run that keeps to what the analysis sees of the program.
structure Orderly (state : State) (event : Event) : Prop where
  -- No local is loaded before it is stored to.
  stored : ∀ frame rest, state.threads[event.thread]? = some (frame :: rest) →
    ∀ function, finder.module.functionWithId frame.function = some function →
      ∀ slot width, function.instructionAt frame.site = some (.load slot width) →
        function.escapes slot = false → (frame.locals slot).isSome = true
  -- The flag is written only through pointers that are traced to it.
  traced : ∀ write ∈ event.writes, write.1.object = .global publication.store.object →
    ∃ instruction target, event.instruction finder.module = some instruction ∧
      instruction.target = some target ∧ resolveBaseGlobal target = some publication.store.object
  -- Loads of the flag are of the part of it that its initializer starts with.
  whole : ∀ load, Reads finder flag publication load → event.function = load.function.id →
    event.mark = .ran load.site → ∀ read, event.read = some read → read.place = publication.flagPlace
  -- The publishing function is entered once.
  single : ∀ earlier ∈ state.events, earlier.function = publication.store.function.id →
    event.function = publication.store.function.id → earlier.activation = event.activation

end Conditions

section Invariant

variable (finder : PublicationFinder) (memory : Memory finder.module) (flag : String)
  (publication : Publication)

structure FrameSound (events : List Event) (thread : Nat) (frame : Frame) : Prop where
  walks : ∀ function, finder.module.functionWithId frame.function = some function →
    Walk function (marksOf frame.activation events) frame.block frame.index
  agrees : ∀ function, finder.module.functionWithId frame.function = some function →
    Agrees { function := function } frame
  -- Until a reader has loaded a value that was written, it has seen the flag's first one.
  waits : ∀ load, Reads finder flag publication load → frame.function = load.function.id →
    ¬Observed events frame.activation load.site →
      Agrees (initialFolder finder memory publication load) frame
  owned : ∀ event ∈ events, event.activation = frame.activation →
    event.thread = thread ∧ event.function = frame.function

-- What holds of an event and those before it.
structure EventSound (before : List Event) (event : Event) : Prop where
  walks : ∀ function site, finder.module.functionWithId event.function = some function →
    event.mark = .ran site → Walk function (marksOf event.activation before) site.1 site.2
  runs : ∀ site, event.mark = .ran site → (event.instruction finder.module).isSome = true
  owned : ∀ earlier ∈ before, earlier.activation = event.activation →
    earlier.thread = event.thread ∧ earlier.function = event.function
  observed : ∀ load, Reads finder flag publication load → event.function = load.function.id →
    ∀ arm ∈ load.observedArms publication.published, event.mark = .took arm.1 arm.2 →
      Observed before event.activation load.site
  sources : ∀ read source, event.read = some read → read.source = some source →
    ∃ store, before[source]? = some store ∧ (read.place, read.value) ∈ store.writes
  traced : ∀ write ∈ event.writes, write.1.object = .global publication.store.object →
    ∃ instruction target, event.instruction finder.module = some instruction ∧
      instruction.target = some target ∧ resolveBaseGlobal target = some publication.store.object
  whole : ∀ load, Reads finder flag publication load → event.function = load.function.id →
    event.mark = .ran load.site → ∀ read, event.read = some read → read.place = publication.flagPlace
  single : ∀ earlier ∈ before, earlier.function = publication.store.function.id →
    event.function = publication.store.function.id → earlier.activation = event.activation

structure StateSound (state : State) : Prop where
  frames : ∀ (thread : Nat) (frames : List Frame), state.threads[thread]? = some frames → ∀ frame ∈ frames,
    FrameSound finder memory flag publication state.events thread frame
  fresh : ∀ (thread : Nat) (frames : List Frame), state.threads[thread]? = some frames → ∀ frame ∈ frames,
    frame.activation < state.fresh
  freshEvents : ∀ event ∈ state.events, event.activation < state.fresh
  distinct : ∀ (thread : Nat) (frames : List Frame), state.threads[thread]? = some frames →
    (frames.map (·.activation)).Nodup
  apart : ∀ (thread other : Nat) (frames others : List Frame), state.threads[thread]? = some frames →
    state.threads[other]? = some others → ∀ frame ∈ frames, ∀ further ∈ others,
      frame.activation = further.activation → thread = other
  events : ∀ (n : Nat) event, state.events[n]? = some event →
    EventSound finder flag publication (state.events.take n) event

end Invariant

theorem marksOf_append (activation : Nat) (events later : List Event) :
    marksOf activation (events ++ later) = marksOf activation events ++ marksOf activation later := by
  simp [marksOf]

theorem marksOf_cons_self (event : Event) (events : List Event) :
    marksOf event.activation (event :: events) = event.mark :: marksOf event.activation events := by
  simp [marksOf]

theorem marksOf_eq_nil {activation : Nat} {events : List Event}
    (h : ∀ event ∈ events, event.activation ≠ activation) : marksOf activation events = [] := by
  rw [marksOf, List.filter_eq_nil_iff.mpr (by simpa using h), List.map_nil]

theorem marksOf_other {activation : Nat} {events : List Event} {event : Event}
    (h : event.activation ≠ activation) :
    marksOf activation (events ++ [event]) = marksOf activation events := by
  have hnil : marksOf activation [event] = [] := marksOf_eq_nil (by simpa using h)
  rw [marksOf_append, hnil, List.append_nil]

theorem Observed.mono {events later : List Event} {activation : Nat} {site : Site}
    (h : Observed events activation site) : Observed (events ++ later) activation site := by
  obtain ⟨event, hevent, hrest⟩ := h
  exact ⟨event, List.mem_append_left _ hevent, hrest⟩

-- Threads after one of them went on and others were started.
theorem threads_cases {threads started : List (List Frame)} {runner thread : Nat}
    {replaced frames : List Frame}
    (h : (threads.set runner replaced ++ started)[thread]? = some frames) :
    (thread = runner ∧ frames = replaced) ∨ (thread ≠ runner ∧ threads[thread]? = some frames) ∨
      (threads.length ≤ thread ∧ started[thread - threads.length]? = some frames) := by
  by_cases hlt : thread < threads.length
  · rw [List.getElem?_append_left (by simpa using hlt)] at h
    by_cases hsame : thread = runner
    · subst hsame
      rw [List.getElem?_set_self hlt, Option.some.injEq] at h
      exact .inl ⟨rfl, h.symm⟩
    · rw [List.getElem?_set_ne (Ne.symm hsame)] at h
      exact .inr (.inl ⟨hsame, h⟩)
  · rw [List.getElem?_append_right (by simpa using hlt)] at h
    rw [List.length_set] at h
    exact .inr (.inr ⟨not_lt.mp hlt, h⟩)

section Steps

variable {finder : PublicationFinder} {memory : Memory finder.module} {flag : String}
  {publication : Publication} {events : List Event} {event : Event}

theorem FrameSound.other {thread : Nat} {frame : Frame}
    (h : FrameSound finder memory flag publication events thread frame)
    (hother : event.activation ≠ frame.activation) :
    FrameSound finder memory flag publication (events ++ [event]) thread frame where
  walks function hfunction := by
    rw [marksOf_other hother]
    exact h.walks function hfunction
  agrees := h.agrees
  waits load hload hfunction hnot := h.waits load hload hfunction fun hobserved => hnot hobserved.mono
  owned earlier hearlier hactivation := by
    rcases List.mem_append.mp hearlier with hearlier | hearlier
    · exact h.owned earlier hearlier hactivation
    · rw [List.mem_singleton] at hearlier
      exact absurd (hearlier ▸ hactivation) hother

theorem frameSound_fresh {thread activation : Nat} (function : String) (arguments : List Place)
    (hfresh : ∀ event ∈ events, event.activation ≠ activation) :
    FrameSound finder memory flag publication events thread
      { function := function, activation := activation, arguments := arguments } where
  walks found _ := by
    rw [marksOf_eq_nil hfresh]
    exact .entry
  agrees _ _ := agrees_fresh _ _ _ _
  waits _ _ _ _ := agrees_fresh _ _ _ _
  owned event hevent hactivation := absurd hactivation (hfresh event hevent)

-- What a step enters or starts threads on is new.
inductive Entered (activation : Nat) : List Frame → List (List Frame) → Prop
  | none : Entered activation [] []
  | call {function arguments} : Entered activation
      [{ function := function, activation := activation, arguments := arguments }] []
  | thread {function arguments} : Entered activation []
      [[{ function := function, activation := activation, arguments := arguments }]]

-- The frames of a state an activation went on in: what it became, what stayed and what is new.
theorem frame_cases {state : State} {runner : Nat} {frame after other : Frame}
    {rest entered frames : List Frame} {started : List (List Frame)} {thread : Nat}
    (h : StateSound finder memory flag publication state)
    (hthread : state.threads[runner]? = some (frame :: rest))
    (hentered : Entered state.fresh entered started)
    (hframes : (state.threads.set runner (entered ++ after :: rest) ++ started)[thread]? = some frames)
    (hother : other ∈ frames) :
    (thread = runner ∧ other = after) ∨
      (∃ old, state.threads[thread]? = some old ∧ other ∈ old ∧ other.activation ≠ frame.activation) ∨
      (thread = (if started = [] then runner else state.threads.length) ∧ ∃ function arguments,
        other = { function := function, activation := state.fresh, arguments := arguments }) := by
  rcases threads_cases hframes with ⟨rfl, rfl⟩ | ⟨hne, hold⟩ | ⟨hle, hnew⟩
  · rcases List.mem_append.mp hother with hnew | hother
    · cases hentered with
      | none => exact absurd hnew List.not_mem_nil
      | thread => exact absurd hnew List.not_mem_nil
      | call => exact .inr (.inr ⟨rfl, _, _, List.mem_singleton.mp hnew⟩)
    · rcases List.mem_cons.mp hother with rfl | hother
      · exact .inl ⟨rfl, rfl⟩
      · refine .inr (.inl ⟨_, hthread, List.mem_cons_of_mem _ hother, fun hsame => ?_⟩)
        have hdistinct := h.distinct _ _ hthread
        rw [List.map_cons, List.nodup_cons] at hdistinct
        exact hdistinct.1 (hsame ▸ List.mem_map_of_mem hother)
  · exact .inr (.inl ⟨_, hold, hother, fun hsame =>
      hne (h.apart _ _ _ _ hold hthread _ hother _ List.mem_cons_self hsame)⟩)
  · cases hentered with
    | none => cases hnew
    | call => cases hnew
    | @thread function arguments =>
        obtain ⟨hlt, hget⟩ := List.getElem?_eq_some_iff.mp hnew
        rw [List.length_singleton] at hlt
        have hthread : thread = state.threads.length := by omega
        refine .inr (.inr ⟨hthread, function, arguments, ?_⟩)
        rw [← hget, List.getElem_singleton] at hother
        exact List.mem_singleton.mp hother

section Advance

variable {state : State} {runner : Nat} {frame after : Frame} {rest entered : List Frame}
  {started : List (List Frame)}

theorem StateSound.below_fresh (h : StateSound finder memory flag publication state)
    (hthread : state.threads[runner]? = some (frame :: rest))
    (heventActivation : event.activation = frame.activation) {earlier : Event}
    (hearlier : earlier ∈ state.events ++ [event]) : earlier.activation < state.fresh := by
  rcases List.mem_append.mp hearlier with hearlier | hearlier
  · exact h.freshEvents earlier hearlier
  · rw [List.mem_singleton] at hearlier
    rw [hearlier, heventActivation]
    exact h.fresh runner _ hthread frame List.mem_cons_self

theorem StateSound.distinct_advance (h : StateSound finder memory flag publication state)
    (hthread : state.threads[runner]? = some (frame :: rest))
    (hactivation : after.activation = frame.activation)
    (hentered : Entered state.fresh entered started) {thread : Nat} {frames : List Frame}
    (hframes : (state.threads.set runner (entered ++ after :: rest) ++ started)[thread]? = some frames) :
    (frames.map (·.activation)).Nodup := by
  rcases threads_cases hframes with ⟨rfl, rfl⟩ | ⟨_, hold⟩ | ⟨_, hmem⟩
  · have hdistinct := h.distinct _ _ hthread
    rw [List.map_cons, List.nodup_cons] at hdistinct
    have hold : ((after :: rest).map (·.activation)).Nodup := by
      rw [List.map_cons, hactivation]
      exact List.nodup_cons.mpr hdistinct
    cases hentered with
    | none => exact hold
    | thread => exact hold
    | call =>
        refine List.nodup_cons.mpr ⟨fun hmem => ?_, hold⟩
        obtain ⟨other, hother, hsame⟩ := List.mem_map.mp hmem
        rcases List.mem_cons.mp hother with rfl | hother
        · rw [hactivation] at hsame
          exact (h.fresh _ _ hthread frame List.mem_cons_self).ne hsame
        · exact (h.fresh _ _ hthread other (List.mem_cons_of_mem _ hother)).ne hsame
  · exact h.distinct thread frames hold
  · cases hentered with
    | none => cases hmem
    | call => cases hmem
    | thread =>
        have hmem := List.mem_singleton.mp (List.mem_of_getElem? hmem)
        subst hmem
        exact List.nodup_singleton _

theorem StateSound.apart_advance (h : StateSound finder memory flag publication state)
    (hthread : state.threads[runner]? = some (frame :: rest))
    (hactivation : after.activation = frame.activation)
    (hentered : Entered state.fresh entered started) {thread other : Nat} {frames others : List Frame}
    (hframes : (state.threads.set runner (entered ++ after :: rest) ++ started)[thread]? = some frames)
    (hothers : (state.threads.set runner (entered ++ after :: rest) ++ started)[other]? = some others)
    {first second : Frame} (hfirst : first ∈ frames) (hsecond : second ∈ others)
    (hsame : first.activation = second.activation) : thread = other := by
  have hframe := h.fresh runner _ hthread frame List.mem_cons_self
  have hbelow {thread : Nat} {old : List Frame} (hold : state.threads[thread]? = some old)
      {other : Frame} (hmem : other ∈ old) : other.activation ≠ state.fresh :=
    (h.fresh thread old hold other hmem).ne
  rcases frame_cases h hthread hentered hframes hfirst with ⟨rfl, rfl⟩ | ⟨old, hold, hmem, hne⟩ |
      ⟨hhome, function, arguments, rfl⟩ <;>
    rcases frame_cases h hthread hentered hothers hsecond with ⟨rfl, rfl⟩ |
      ⟨older, holder, hmemOlder, hneOlder⟩ | ⟨hhomeOther, functionOther, argumentsOther, rfl⟩
  · rfl
  · exact absurd (hsame.symm.trans hactivation) hneOlder
  · exact absurd (hactivation.symm.trans hsame) hframe.ne
  · exact absurd (hsame.trans hactivation) hne
  · exact h.apart thread other old older hold holder first hmem second hmemOlder hsame
  · exact absurd hsame (hbelow hold hmem)
  · exact absurd (hactivation.symm.trans hsame.symm) hframe.ne
  · exact absurd hsame.symm (hbelow holder hmemOlder)
  · exact hhome.trans hhomeOther.symm

theorem StateSound.events_advance (h : StateSound finder memory flag publication state)
    (hevent : EventSound finder flag publication state.events event) {n : Nat} {found : Event}
    (hfound : (state.events ++ [event])[n]? = some found) :
    EventSound finder flag publication ((state.events ++ [event]).take n) found := by
  by_cases hlt : n < state.events.length
  · rw [List.getElem?_append_left hlt] at hfound
    rw [List.take_append_of_le_length hlt.le]
    exact h.events n found hfound
  · have hn : n = state.events.length := by
      have := (List.getElem?_eq_some_iff.mp hfound).1
      rw [List.length_append, List.length_singleton] at this
      omega
    subst hn
    rw [List.getElem?_concat_length, Option.some.injEq] at hfound
    subst hfound
    rw [List.take_append_of_le_length le_rfl, List.take_length]
    exact hevent

-- An activation goes on and adds an event.
theorem StateSound.advance (h : StateSound finder memory flag publication state)
    (hthread : state.threads[runner]? = some (frame :: rest))
    (hactivation : after.activation = frame.activation)
    (heventActivation : event.activation = frame.activation)
    (hafter : FrameSound finder memory flag publication (state.events ++ [event]) runner after)
    (hevent : EventSound finder flag publication state.events event)
    (hentered : Entered state.fresh entered started) :
    StateSound finder memory flag publication
      { threads := state.threads.set runner (entered ++ after :: rest) ++ started
        fresh := state.fresh + 1
        events := state.events ++ [event] } where
  frames thread frames hframes other hother := by
    rcases frame_cases h hthread hentered hframes hother with ⟨rfl, rfl⟩ | ⟨old, hold, hmem, hne⟩ |
      ⟨_, function, arguments, rfl⟩
    · exact hafter
    · exact (h.frames thread old hold other hmem).other (heventActivation ▸ hne.symm)
    · exact frameSound_fresh function arguments fun _ hearlier =>
        (h.below_fresh hthread heventActivation hearlier).ne
  fresh thread frames hframes other hother := by
    rcases frame_cases h hthread hentered hframes hother with ⟨_, rfl⟩ | ⟨old, hold, hmem, _⟩ |
      ⟨_, function, arguments, rfl⟩
    · rw [hactivation]
      exact Nat.lt_succ_of_lt (h.fresh runner _ hthread frame List.mem_cons_self)
    · exact Nat.lt_succ_of_lt (h.fresh thread old hold other hmem)
    · exact Nat.lt_succ_self _
  freshEvents _ hearlier := Nat.lt_succ_of_lt (h.below_fresh hthread heventActivation hearlier)
  distinct _ _ hframes := h.distinct_advance hthread hactivation hentered hframes
  apart _ _ _ _ hframes hothers _ hfirst _ hsecond hsame :=
    h.apart_advance hthread hactivation hentered hframes hothers hfirst hsecond hsame
  events _ _ hfound := h.events_advance hevent hfound

end Advance

-- Running an instruction leaves an activation one further on, and marks what it computed.
theorem Runs.stands {fresh : Nat} {frame after : Frame} {instruction : Instruction}
    {writes : List (Place × APInt)} {read : Option Read} {entered started : List Frame}
    (h : Runs memory events fresh frame instruction after writes read entered started) :
    after.function = frame.function ∧ after.activation = frame.activation ∧
      after.block = frame.block ∧ after.index = frame.index + 1 := by
  cases h <;> exact ⟨rfl, rfl, rfl, rfl⟩

theorem Runs.entered {fresh : Nat} {frame after : Frame} {instruction : Instruction}
    {writes : List (Place × APInt)} {read : Option Read} {entered started : List Frame}
    (h : Runs memory events fresh frame instruction after writes read entered started) :
    Entered fresh entered (started.map ([·])) := by
  cases h with
  | call _ => exact .call
  | spawn _ => exact .thread
  | _ => exact .none

-- Only an atomic load reads, and it computes what it reads.
theorem Runs.read_eq {fresh : Nat} {frame after : Frame} {instruction : Instruction}
    {writes : List (Place × APInt)} {read : Option Read} {entered started : List Frame}
    (h : Runs memory events fresh frame instruction after writes read entered started) :
    (∀ found, read = some found → Returns memory events found) ∧
      ∀ object order width, instruction = .atomicLoad object order width → ∃ found, read = some found ∧
        after.registers frame.site = some (found.value.zextOrTrunc width) := by
  cases h with
  | atomicLoad _ hreturns =>
      refine ⟨fun found hfound => ?_, fun object order width hsame => ?_⟩
      · rw [Option.some.injEq] at hfound
        exact hfound ▸ hreturns
      · cases hsame
        exact ⟨_, rfl, if_pos rfl⟩
  | _ => exact ⟨fun _ hfound => (by cases hfound), fun _ _ _ hsame => (by cases hsame)⟩

variable {load : FlagAccess}

-- What is recorded for a flag is an atomic instruction that can execute.
theorem operation_of_mem {access : FlagAccess} (h : access ∈ finder.operationsOn flag) :
    access.function ∈ finder.module.functions ∧ finder.keyOf access = some flag ∧
      access.site.1 ∈ access.function.liveBlocks ∧
      (∃ object, access.operation.object = some object ∧
        resolveBaseGlobal object = some access.object) ∧
      ∃ instruction, access.function.instructionAt access.site = some instruction ∧
        operationOf instruction = some access.operation := by
  obtain ⟨hmem, hkey⟩ := List.mem_filter.mp h
  obtain ⟨function, hfunction, hmem⟩ := List.mem_flatMap.mp hmem
  obtain ⟨⟨site, instruction⟩, hsite, hmem⟩ := List.mem_filterMap.mp hmem
  obtain ⟨operation, hoperation, hmem⟩ := Option.bind_eq_some_iff.mp hmem
  obtain ⟨object, hobject, hmem⟩ := Option.bind_eq_some_iff.mp hmem
  obtain ⟨name, hname, rfl⟩ := Option.map_eq_some_iff.mp hmem
  obtain ⟨hinstruction, hlive⟩ := Function.mem_liveSites.mp hsite
  exact ⟨hfunction, by simpa using hkey, hlive, ⟨object, hobject, hname⟩, instruction, hinstruction,
    hoperation⟩

theorem load_of_operation {instruction : Instruction} {operation : AtomicOperation}
    (h : operationOf instruction = some operation) (hkind : operation.kind = .Load) :
    ∃ object width, instruction = .atomicLoad object operation.order width := by
  unfold operationOf at h
  split at h
  · rw [Option.some.injEq] at h
    subst h
    exact ⟨_, _, rfl⟩
  · rw [Option.some.injEq] at h
    subst h
    cases hkind
  · rw [Option.some.injEq] at h
    subst h
    cases hkind
  · rw [Option.some.injEq] at h
    subst h
    cases hkind
  · cases h

theorem instruction_of_load (h : load ∈ finder.loads flag) :
    load.function ∈ finder.module.functions ∧ ∃ object width,
      load.function.instructionAt load.site = some (.atomicLoad object load.operation.order width) := by
  obtain ⟨hmem, hkind⟩ := List.mem_filter.mp h
  obtain ⟨hfunction, _, _, _, instruction, hinstruction, hoperation⟩ := operation_of_mem hmem
  obtain ⟨object, width, rfl⟩ := load_of_operation hoperation (by simpa using hkind)
  exact ⟨hfunction, object, width, hinstruction⟩

theorem function_of_load (h : load ∈ finder.loads flag) {id : String} (hid : id = load.function.id)
    {function : Function} (hfunction : finder.module.functionWithId id = some function) :
    load.function = function := by
  have hfound := Module.functionWithId_of_mem (instruction_of_load h).1
  rw [← hid, hfunction] at hfound
  exact (Option.some.inj hfound).symm

section Run

variable {state : State} {runner : Nat} {frame after : Frame} {rest entered started : List Frame}
  {function : Function} {instruction : Instruction} {writes : List (Place × APInt)} {read : Option Read}

-- A load of the flag that returned nothing that was written computes the flag's first value.
theorem Orderly.initial_read (horderly : Orderly finder flag publication state event)
    (hload : Reads finder flag publication load) (hloads : frame.function = load.function.id)
    (hsite : load.site = frame.site)
    (hinstruction : load.function.instructionAt frame.site = some instruction)
    (hruns : Runs memory state.events state.fresh frame instruction after writes read entered started)
    (hevent : event = ⟨runner, frame.activation, frame.function, .ran frame.site, writes, read⟩)
    (hnot : ¬Observed (state.events ++ [event]) frame.activation load.site) :
    after.registers frame.site =
      some ((memory.value publication.flagPlace).zextOrTrunc instruction.widthOf) := by
  obtain ⟨object, width, hat⟩ := (instruction_of_load hload.1).2
  rw [hsite, hinstruction, Option.some.injEq] at hat
  subst hat
  obtain ⟨hreturns, hread⟩ := hruns.read_eq
  obtain ⟨found, rfl, hregister⟩ := hread _ _ _ rfl
  have hplace := horderly.whole load hload (by rw [hevent, ← hloads]) (by rw [hevent, hsite]) found
    (by rw [hevent])
  have hsource : found.source = none := by
    by_contra hsome
    obtain ⟨source, hsource⟩ := Option.ne_none_iff_exists'.mp hsome
    exact hnot ⟨event, List.mem_append_right _ List.mem_cons_self, by rw [hevent],
      by rw [hevent, hsite], found, source, by rw [hevent], hsource⟩
  have hvalue := hreturns found rfl
  simp only [Returns, hsource] at hvalue
  rw [hregister, Instruction.widthOf, hvalue, hplace]

theorem FrameSound.run (h : FrameSound finder memory flag publication state.events runner frame)
    (hthread : state.threads[runner]? = some (frame :: rest))
    (hfunction : finder.module.functionWithId frame.function = some function)
    (hinstruction : function.instructionAt frame.site = some instruction)
    (hruns : Runs memory state.events state.fresh frame instruction after writes read entered started)
    (hevent : event = ⟨runner, frame.activation, frame.function, .ran frame.site, writes, read⟩)
    (horderly : Orderly finder flag publication state event) :
    FrameSound finder memory flag publication (state.events ++ [event]) runner after := by
  obtain ⟨hafterFunction, hafterActivation, hblock, hindex⟩ := hruns.stands
  have hwalk := h.walks function hfunction
  have hstored : ∀ slot width, instruction = .load slot width → function.escapes slot = false →
      (frame.locals slot).isSome = true := by
    intro slot width hload hescapes
    have hat : state.threads[event.thread]? = some (frame :: rest) := by rwa [hevent]
    exact horderly.stored frame rest hat function hfunction slot width (hload ▸ hinstruction) hescapes
  constructor
  · intro found hfound
    rw [hafterFunction, hfunction, Option.some.injEq] at hfound
    subst hfound
    have hmarks : marksOf frame.activation (state.events ++ [event]) =
        marksOf frame.activation state.events ++ [.ran (frame.block, frame.index)] := by
      rw [marksOf_append, hevent]
      simp [marksOf, Frame.site]
    rw [hafterActivation, hblock, hindex, hmarks]
    exact hwalk.next hinstruction
  · intro found hfound
    rw [hafterFunction, hfunction, Option.some.injEq] at hfound
    subst hfound
    refine (h.agrees function hfunction).runs hinstruction hruns rfl hstored fun constant hconstant => ?_
    cases hconstant
  · intro load hload hloads hnot
    rw [hafterFunction] at hloads
    rw [hafterActivation] at hnot
    have hagrees := h.waits load hload hloads fun hobserved => hnot hobserved.mono
    have hsame := function_of_load hload.1 hloads hfunction
    subst hsame
    refine hagrees.runs hinstruction hruns (decide_eq_true hwalk.live) hstored
      fun constant hconstant => ?_
    unfold ConstantFolder.substitution initialFolder at hconstant
    simp only [Option.bind_some] at hconstant
    split at hconstant
    · rename_i hsite
      rw [Option.some.injEq] at hconstant
      rw [← hconstant]
      exact horderly.initial_read hload hloads hsite hinstruction hruns hevent hnot
    · cases hconstant
  · intro earlier hearlier hactivation
    rw [hafterActivation] at hactivation
    rw [hafterFunction]
    rcases List.mem_append.mp hearlier with hearlier | hearlier
    · exact h.owned earlier hearlier hactivation
    · rw [List.mem_singleton] at hearlier
      rw [hearlier, hevent]
      exact ⟨rfl, rfl⟩

theorem FrameSound.event_run (h : FrameSound finder memory flag publication state.events runner frame)
    (hfunction : finder.module.functionWithId frame.function = some function)
    (hinstruction : function.instructionAt frame.site = some instruction)
    (hruns : Runs memory state.events state.fresh frame instruction after writes read entered started)
    (hevent : event = ⟨runner, frame.activation, frame.function, .ran frame.site, writes, read⟩)
    (horderly : Orderly finder flag publication state event) :
    EventSound finder flag publication state.events event := by
  constructor
  · intro found site hfound hmark
    rw [hevent] at hfound hmark ⊢
    rw [hfunction, Option.some.injEq] at hfound
    subst hfound
    cases hmark
    exact h.walks function hfunction
  · intro site hmark
    rw [hevent] at hmark ⊢
    cases hmark
    simp [Event.instruction, hfunction, hinstruction]
  · intro earlier hearlier hactivation
    rw [hevent] at hactivation ⊢
    exact h.owned earlier hearlier hactivation
  · intro load _ _ arm _ hmark
    rw [hevent] at hmark
    cases hmark
  · intro found source hread hsource
    rw [hevent] at hread
    have hreturns := hruns.read_eq.1 found hread
    simp only [Returns, hsource] at hreturns
    exact hreturns
  · exact horderly.traced
  · exact horderly.whole
  · exact horderly.single

-- The step lemma for an instruction.
theorem StateSound.run (h : StateSound finder memory flag publication state)
    (hthread : state.threads[runner]? = some (frame :: rest))
    (hfunction : finder.module.functionWithId frame.function = some function)
    (hinstruction : function.instructionAt frame.site = some instruction)
    (hruns : Runs memory state.events state.fresh frame instruction after writes read entered started)
    (hevent : event = ⟨runner, frame.activation, frame.function, .ran frame.site, writes, read⟩)
    (horderly : Orderly finder flag publication state event) :
    StateSound finder memory flag publication
      { threads := state.threads.set runner (entered ++ after :: rest) ++ started.map ([·])
        fresh := state.fresh + 1
        events := state.events ++ [event] } := by
  have hframe := h.frames runner _ hthread frame List.mem_cons_self
  have hafter := hframe.run hthread hfunction hinstruction hruns hevent horderly
  have hadded := hframe.event_run hfunction hinstruction hruns hevent horderly
  exact h.advance hthread hruns.stands.2.1 (by rw [hevent]) hafter hadded hruns.entered

end Run

-- The step lemma for an edge: a reader that takes an arm of the published value has loaded a value
-- that was written, since the flag's first value takes another.
theorem StateSound.branch {state : State} {runner : Nat} {frame : Frame} {rest : List Frame}
    {function : Function} {found : Block} {successor : Nat}
    (h : StateSound finder memory flag publication state)
    (hdecisive : Decisive finder memory flag publication)
    (hthread : state.threads[runner]? = some (frame :: rest))
    (hfunction : finder.module.functionWithId frame.function = some function)
    (hfound : function.blocks[frame.block]? = some found)
    (hindex : frame.index = found.instructions.length) (hgoes : found.terminator.Goes frame successor)
    (hevent : event =
      ⟨runner, frame.activation, frame.function, .took frame.block successor, [], none⟩)
    (horderly : Orderly finder flag publication state event) :
    StateSound finder memory flag publication
      { threads := state.threads.set runner ({ frame with block := successor, index := 0 } :: rest)
        fresh := state.fresh + 1
        events := state.events ++ [event] } := by
  have hframe := h.frames runner _ hthread frame List.mem_cons_self
  have hwalk := hframe.walks function hfunction
  suffices hadvance : StateSound finder memory flag publication
      { threads := state.threads.set runner
          ([] ++ ({ frame with block := successor, index := 0 } : Frame) :: rest) ++ []
        fresh := state.fresh + 1
        events := state.events ++ [event] } by simpa using hadvance
  refine h.advance hthread rfl (by rw [hevent]) ?_ ?_ .none
  · constructor
    · intro other hother
      rw [show finder.module.functionWithId frame.function = some other from hother,
        Option.some.injEq] at hfunction
      subst hfunction
      have hmarks : marksOf frame.activation (state.events ++ [event]) =
          marksOf frame.activation state.events ++ [.took frame.block successor] := by
        rw [marksOf_append, hevent]
        simp [marksOf]
      rw [hindex] at hwalk
      show Walk other (marksOf frame.activation (state.events ++ [event])) successor 0
      rw [hmarks]
      exact hwalk.branch hfound (liveSuccessors_of_goes (hframe.agrees other hother) hfound hgoes)
    · exact fun other hother => (hframe.agrees other hother).congr rfl rfl rfl
    · exact fun load hload hloads hnot =>
        (hframe.waits load hload hloads fun hobserved => hnot hobserved.mono).congr rfl rfl rfl
    · intro earlier hearlier hactivation
      rcases List.mem_append.mp hearlier with hearlier | hearlier
      · exact hframe.owned earlier hearlier hactivation
      · rw [List.mem_singleton] at hearlier
        rw [hearlier, hevent]
        exact ⟨rfl, rfl⟩
  · constructor
    · intro other site _ hmark
      rw [hevent] at hmark
      cases hmark
    · intro site hmark
      rw [hevent] at hmark
      cases hmark
    · intro earlier hearlier hactivation
      rw [hevent] at hactivation ⊢
      exact hframe.owned earlier hearlier hactivation
    · intro load hload hloads arm harm hmark
      rw [hevent] at hloads hmark ⊢
      by_contra hnot
      have hagrees := hframe.waits load hload hloads hnot
      have hsame := function_of_load hload.1 hloads hfunction
      rw [Mark.took.injEq] at hmark
      rw [← hsame, hmark.1] at hfound
      obtain ⟨other, hother, hne⟩ := hdecisive.separates load hload arm harm found hfound
      exact hne ((hagrees.goes hgoes hother).symm.trans hmark.2)
    · intro read source hread
      rw [hevent] at hread
      cases hread
    · exact horderly.traced
    · exact horderly.whole
    · exact horderly.single

theorem StateSound.leave {state : State} {runner : Nat} {frame : Frame} {rest : List Frame}
    (h : StateSound finder memory flag publication state)
    (hthread : state.threads[runner]? = some (frame :: rest)) :
    StateSound finder memory flag publication
      { threads := state.threads.set runner rest, fresh := state.fresh, events := state.events } := by
  have hold (thread : Nat) (frames : List Frame) (hframes : (state.threads.set runner rest)[thread]? =
      some frames) : ∃ old, state.threads[thread]? = some old ∧ frames.Sublist old := by
    have hframes' : (state.threads.set runner rest ++ [])[thread]? = some frames := by simpa using hframes
    rcases threads_cases hframes' with ⟨rfl, rfl⟩ | ⟨_, hsame⟩ | ⟨_, hnone⟩
    · exact ⟨_, hthread, List.sublist_cons_self frame frames⟩
    · exact ⟨frames, hsame, .refl _⟩
    · cases hnone
  constructor
  · intro thread frames hframes other hother
    obtain ⟨old, hold, hsub⟩ := hold thread frames hframes
    exact h.frames thread old hold other (hsub.subset hother)
  · intro thread frames hframes other hother
    obtain ⟨old, hold, hsub⟩ := hold thread frames hframes
    exact h.fresh thread old hold other (hsub.subset hother)
  · exact h.freshEvents
  · intro thread frames hframes
    obtain ⟨old, hold, hsub⟩ := hold thread frames hframes
    exact (h.distinct thread old hold).sublist (hsub.map _)
  · intro thread other frames others hframes hothers first hfirst second hsecond hsame
    obtain ⟨old, holdFirst, hsub⟩ := hold thread frames hframes
    obtain ⟨older, holdSecond, hsubOther⟩ := hold other others hothers
    exact h.apart thread other old older holdFirst holdSecond first (hsub.subset hfirst) second
      (hsubOther.subset hsecond) hsame
  · exact h.events

theorem stateSound_initial (main : String) :
    StateSound finder memory flag publication (initialState main) := by
  have hframes (thread : Nat) (frames : List Frame)
      (h : (initialState main).threads[thread]? = some frames) :
      thread = 0 ∧ frames = [{ function := main, activation := 0 }] := by
    obtain ⟨hlt, hget⟩ := List.getElem?_eq_some_iff.mp h
    have hzero : thread = 0 := by simpa [initialState] using hlt
    subst hzero
    exact ⟨rfl, hget.symm⟩
  constructor
  · intro thread frames hthread frame hframe
    obtain ⟨_, rfl⟩ := hframes thread frames hthread
    rw [List.mem_singleton] at hframe
    subst hframe
    exact frameSound_fresh main [] (by simp [initialState])
  · intro thread frames hthread frame hframe
    obtain ⟨_, rfl⟩ := hframes thread frames hthread
    rw [List.mem_singleton] at hframe
    subst hframe
    exact Nat.zero_lt_one
  · simp [initialState]
  · intro thread frames hthread
    obtain ⟨_, rfl⟩ := hframes thread frames hthread
    exact List.nodup_singleton _
  · intro thread other frames others hthread hother _ _ _ _ _
    rw [(hframes thread frames hthread).1, (hframes other others hother).1]
  · simp [initialState]

theorem stateSound_reachable {main : String} {state : State}
    (hdecisive : Decisive finder memory flag publication)
    (h : Reachable memory (Orderly finder flag publication) main state) :
    StateSound finder memory flag publication state := by
  induction h with
  | initial => exact stateSound_initial main
  | step _ hstep hmeets ih =>
      cases hstep with
      | run hthread hfunction hinstruction hruns hevent =>
          exact ih.run hthread hfunction hinstruction hruns hevent (hmeets _ rfl)
      | branch hthread hfunction hfound hindex hgoes hevent =>
          exact ih.branch hdecisive hthread hfunction hfound hindex hgoes hevent (hmeets _ rfl)
      | leave hthread _ _ _ _ => exact ih.leave hthread

end Steps

end ConcurrencyAnalyzer.AtomicOrdering
