import ConcurrencyAnalyzer.ContainedEntries.Runs

namespace ConcurrencyAnalyzer.ContainedEntries

open Program ThreadCompletion Relation

section Workers

variable {module : Module} {completions : ThreadCompletionMap} {function : Function} {occurrence : Occurrence}

theorem Descends.mem {first last : Function} {arguments bound : Bindings}
    (h : Descends module first arguments last bound) (hfirst : first ∈ module.functions) :
    last ∈ module.functions := by
  induction h with
  | refl => exact hfirst
  | call hfollows _ ih => exact ih hfollows.calls.2.2

-- What a function starts that an indirect call may enter occurs where a worker may run it.
theorem occurs_in_worker (hcomplete : (expandRoots module completions).2.complete = true)
    (hmissed : missed module completions = false) (hfunction : function ∈ module.functions)
    (haddress : function.hasAddressTaken = true) (h : Spawns module completions function [] occurrence) :
    ∃ other, Occurs module completions other ∧ other.entry = occurrence.entry ∧
      inWorker module completions other = true := by
  have hrelevant := h.relevant hfunction
  have hworker : function.id ∈ workerReachable module completions := by
    refine worker_of_start (mem_workerStarts.mpr (.inr ⟨hrelevant, ?_⟩))
    rw [functionWithId_of_mem hfunction]
    exact haddress
  have hvisited : function.id ∈ (expandRoots module completions).2.visited := by
    by_contra hnot
    have hany := List.any_eq_false.mp hmissed function.id hrelevant
    simp [hnot, hworker] at hany
  obtain ⟨last, hlast, root, hroot, bound, hdescends⟩ :=
    ((expandRoots_completed hcomplete).visited _ hvisited).resolve_left (by simp)
  obtain rfl : last = function := eq_of_id (hdescends.mem (mem_roots.mp hroot).1) hfunction hlast
  obtain ⟨outer, hspawns⟩ := hdescends.spawns (h.mono names_nil)
  refine ⟨_, ⟨root, hroot, hspawns⟩, rfl, ?_⟩
  obtain ⟨front, frame, hframes, hstart⟩ := h.outermost
  refine List.any_eq_true.mpr ⟨frame, ?_, ?_⟩
  · simp [hframes]
  · rw [hstart]
    exact decide_eq_true hworker

end Workers

section Hypotheses

variable (module : Module) (completions : ThreadCompletionMap)
  (covers : FlowGraph → JoinSuccess → Point → Bool)

-- What the analysis is promised: dominance is by paths, a completion has a place and comes no earlier than
-- what it completes, and an invoke goes on, once it returns, to where nothing else goes.
structure Promised : Prop where
  dominance : ∀ graph success point, covers graph success point = true →
    ¬Uncompleted graph [success] ⟨0, 0⟩ point
  placed : ∀ function ∈ module.functions, ∀ point success,
    completions ⟨function.id, point⟩ = some success → PlacedSuccess function.graph success
  later : ∀ function ∈ module.functions, ∀ placed ∈ function.reachableCalls, ∀ success,
    completions ⟨function.id, placed.point⟩ = some success →
      Uncompleted function.graph [success] ⟨0, 0⟩ placed.point
  invokes : ∀ function ∈ module.functions, ∀ placed ∈ function.calls, ∀ normal,
    function.graph.normalDest placed.point = some normal → OnlyEntered function.graph placed.point normal

-- What the analysis does not look at: no call that starts threads is in a loop, and nothing a completion
-- covers leads back to the creation it completes.
structure Onward : Prop where
  calls : ∀ function ∈ module.functions, ∀ placed callee, Follows module function placed callee →
    callee.id ∈ relevant module → ¬TransGen function.graph.Follows placed.point placed.point
  creations : ∀ function ∈ module.functions, ∀ placed ∈ function.reachableCalls,
    isSpawn placed.call.kind = true → ∀ success, completions ⟨function.id, placed.point⟩ = some success →
      ∀ point, covers function.graph success point = true →
        ¬ReflTransGen function.graph.Follows point placed.point

variable {module completions covers} {function callee : Function} {placed : PlacedCall} {last : Point}

-- A call that starts threads is not come to again.
theorem Onward.once (honward : Onward module completions covers) (hfunction : function ∈ module.functions)
    (hfollows : Follows module function placed callee) {arguments : Bindings} {occurrence : Occurrence}
    (hspawns : Spawns module completions callee arguments occurrence) :
    ¬TransGen function.graph.Follows placed.point placed.point :=
  honward.calls function hfunction placed callee hfollows (hspawns.relevant hfollows.calls.2.2)

theorem callFrame_completion {point : Point} {inner : Option Frame} {success : JoinSuccess}
    (h : (callFrame module function point inner).completion = some success) :
    inner.any (contained module) = true ∧ success = .after (completedCall function point) := by
  unfold callFrame at h
  dsimp only at h
  split at h
  · exact ⟨‹_›, (Option.some_inj.mp h).symm⟩
  · cases h

theorem completedCall_eq (function : Function) (point : Point) :
    (function.graph.normalDest point = none ∧ completedCall function point = point) ∨
      ∃ normal index, function.graph.normalDest point = some normal ∧
        completedCall function point = ⟨normal, index⟩ := by
  unfold completedCall
  cases hnormal : function.graph.normalDest point with
  | none => exact .inl ⟨rfl, rfl⟩
  | some normal => exact .inr ⟨normal, _, rfl, rfl⟩

-- A call that is in no loop is not in the block that its invoke goes on to.
theorem outside_normal (hloop : ¬TransGen function.graph.Follows placed.point placed.point)
    (hplaced : placed ∈ function.reachableCalls) {normal : Nat}
    (hnormal : function.graph.normalDest placed.point = some normal)
    (honly : OnlyEntered function.graph placed.point normal) : placed.point.block ≠ normal := by
  have hclear := ((reached_of_mem hplaced).past_or placed.point).resolve_right hloop
  exact (@Uncompleted.stays_out _ _ _ _ _ 0 hnormal honly (Ne.symm honly.inner) hclear).1

-- A way that does not go past a call does not come to where the call has been completed.
theorem uncompleted_call (hpromised : Promised module completions covers) (hfunction : function ∈ module.functions)
    (hplaced : placed ∈ function.reachableCalls)
    (h : Uncompleted function.graph [.after placed.point] ⟨0, 0⟩ last) :
    Uncompleted function.graph [.after (completedCall function placed.point)] ⟨0, 0⟩ last := by
  rcases completedCall_eq function placed.point with ⟨-, hsame⟩ | ⟨normal, index, hnormal, hsame⟩
  · rwa [hsame]
  · rw [hsame]
    have honly := hpromised.invokes function hfunction placed (mem_reachableCalls.mp hplaced).1 normal hnormal
    exact (h.stays_out hnormal honly (Ne.symm honly.inner)).2

-- What a contained call started has ended when its function returns.
theorem not_returned_call (hpromised : Promised module completions covers) (hfunction : function ∈ module.functions)
    (hplaced : placed ∈ function.reachableCalls)
    (hloop : ¬TransGen function.graph.Follows placed.point placed.point)
    (hcompleted : completedOnEveryPath function.graph placed.point
      [.after (completedCall function placed.point)] none = true)
    (h : Uncompleted function.graph [.after placed.point] placed.point last) :
    ¬Ends function.graph none last := by
  have hcall := (mem_reachableCalls.mp hplaced).1
  have hinside := inside_of_mem hcall
  rcases completedCall_eq function placed.point with ⟨-, hsame⟩ | ⟨normal, index, hnormal, hsame⟩
  · rw [hsame] at hcompleted
    exact (completedOnEveryPath_iff_of_placed (by simpa using placed_after hcall) none hinside).mp hcompleted last h
  · rw [hsame] at hcompleted
    have honly := hpromised.invokes function hfunction placed hcall normal hnormal
    exact completed_of_normalDest hinside hnormal honly (outside_normal hloop hplaced hnormal honly) hcompleted h

end Hypotheses

section Records

variable (module : Module) (completions : ThreadCompletionMap)

-- What is known, at a place of an activation, of a thread that one of its calls started: while the thread
-- runs, the place is come to past no completion of the call.
inductive Recorded (running : Prop) (function : Function) (bound : Bindings) (unwinding : Bool) (here : Point) :
    Point → Occurrence → Prop
  | spawn {placed entry} : Starts function bound placed entry →
      (unwinding = false → ReflTransGen function.graph.Follows placed.point here) →
      (unwinding = false → running → ∀ success, completions ⟨function.id, placed.point⟩ = some success →
        Uncompleted function.graph [success] placed.point here) →
      Recorded running function bound unwinding here placed.point
        ⟨entry, [spawnFrame completions function placed.point]⟩
  | call {placed callee occurrence} : Follows module function placed callee →
      Spawns module completions callee (boundBy placed.call bound) occurrence →
      (unwinding = false → TransGen function.graph.Follows placed.point here) →
      (unwinding = false → running → occurrence.frames.getLast?.any (contained module) = true →
        Uncompleted function.graph [.after placed.point] placed.point here) →
      Recorded running function bound unwinding here placed.point (throughCall module function placed.point occurrence)

variable {module completions} {covers : FlowGraph → JoinSuccess → Point → Bool} {running : Prop}
  {function : Function} {bound : Bindings} {unwinding : Bool} {here next place : Point} {occurrence : Occurrence}

theorem Recorded.spawns (h : Recorded module completions running function bound unwinding here place occurrence) :
    Spawns module completions function bound occurrence := by
  cases h with
  | spawn hstarts _ _ => exact .here hstarts
  | call hfollows hspawns _ _ => exact .through hfollows hspawns

theorem Recorded.weaken (h : Recorded module completions running function bound unwinding here place occurrence)
    {still : Prop} (hstill : still → running) :
    Recorded module completions still function bound unwinding here place occurrence := by
  cases h with
  | spawn hstarts hleads hopen => exact .spawn hstarts hleads fun hgoes h => hopen hgoes (hstill h)
  | call hfollows hspawns hleads hopen => exact .call hfollows hspawns hleads fun hgoes h => hopen hgoes (hstill h)

-- Of an activation that unwinds nothing more has to be known.
theorem Recorded.unwound (h : Recorded module completions running function bound unwinding here place occurrence) :
    Recorded module completions running function bound true here place occurrence := by
  cases h with
  | spawn hstarts _ _ => exact .spawn hstarts (fun h => by cases h) fun h => by cases h
  | call hfollows hspawns _ _ => exact .call hfollows hspawns (fun h => by cases h) fun h => by cases h

-- The activation goes on, past completions only of what has ended.
theorem Recorded.move (honward : Onward module completions covers) (hfunction : function ∈ module.functions)
    (h : Recorded module completions running function bound false here place occurrence) {move : Move}
    (htakes : function.graph.Takes move here next)
    (hwaits : running → ∀ success, completions ⟨function.id, place⟩ = some success →
      ¬Completes function.graph [success] move) :
    Recorded module completions running function bound false next place occurrence := by
  cases h with
  | spawn hstarts hleads hopen =>
      refine .spawn hstarts (fun hgoes => (hleads hgoes).tail ⟨move, htakes⟩)
        fun hgoes hrunning success hsuccess => ?_
      exact (hopen hgoes hrunning success hsuccess).move htakes (hwaits hrunning success hsuccess)
  | @call placed callee occurrence hfollows hspawns hleads hopen =>
      refine .call hfollows hspawns (fun hgoes => (hleads hgoes).tail ⟨move, htakes⟩) fun hgoes hrunning hin => ?_
      refine (hopen hgoes hrunning hin).move htakes fun hcompletes => ?_
      -- it would be past the call a second time
      have hlead := hleads hgoes
      rw [at_of_completes htakes hcompletes] at hlead
      exact honward.once hfunction hfollows hspawns hlead

-- A call that is left by a return is done with what it contained.
theorem Recorded.returned (hpromised : Promised module completions covers) (honward : Onward module completions covers)
    (hfunction : function ∈ module.functions)
    (h : Recorded module completions running function bound false here place occurrence)
    (hends : Ends function.graph none here) (hin : occurrence.frames.getLast?.any (contained module) = true) :
    ¬running := by
  intro hrunning
  have hgraph {frame : Frame} (hid : frame.start.function = function.id) (h : contained module frame = true) :
      ∃ success, frame.completion = some success ∧
        completedOnEveryPath function.graph frame.start.point [success] none = true := by
    unfold contained at h
    rw [hid, functionWithId_of_mem hfunction] at h
    exact Option.any_eq_true _ _ |>.mp h
  cases h with
  | @spawn placed entry hstarts _ hopen =>
      obtain ⟨success, hsuccess, hcompleted⟩ := hgraph rfl (by simpa using hin)
      have hplaced : ∀ other ∈ [success], PlacedSuccess function.graph other := by
        simpa using hpromised.placed function hfunction placed.point success hsuccess
      have hinside := inside_of_mem (mem_reachableCalls.mp hstarts.mem).1
      exact (completedOnEveryPath_iff_of_placed hplaced none hinside).mp hcompleted here
        (hopen rfl hrunning success hsuccess) hends
  | @call placed callee occurrence hfollows hspawns _ hopen =>
      have hlast : contained module (callFrame module function placed.point occurrence.frames.getLast?) = true := by
        simpa [throughCall] using hin
      obtain ⟨success, hsuccess, hcompleted⟩ := hgraph rfl hlast
      obtain ⟨hinner, rfl⟩ := callFrame_completion hsuccess
      exact not_returned_call hpromised hfunction hfollows.calls.1 (honward.once hfunction hfollows hspawns)
        hcompleted (hopen rfl hrunning hinner) hends

end Records

section Origins

variable (module : Module) (completions : ThreadCompletionMap)

def RunsIn (process : List Thread) (number : Nat) : Prop :=
  ∃ thread, process[number]? = some thread ∧ thread.Running

-- A thread that an activation of a stack is known to have started, with how its first function came to it.
def OnStack (running : Prop) (stack : List Activation) (number : Nat) (root : Function)
    (occurrence : Occurrence) : Prop :=
  ∃ upper act lower place inner, stack = upper ++ act :: lower ∧ (place, number) ∈ act.started ∧
    Recorded module completions running act.function act.bound act.unwinding act.point place inner ∧
    baseOf module act lower inner = (root, occurrence)

variable {module completions} {covers : FlowGraph → JoinSuccess → Point → Bool} {running : Prop}
  {Base : Function → Prop} {process : List Thread} {number : Nat} {root : Function} {occurrence : Occurrence}
  {act inner outer : Activation} {rest before after : List Activation}

theorem OnStack.weaken (h : OnStack module completions running before number root occurrence) {still : Prop}
    (hstill : still → running) : OnStack module completions still before number root occurrence := by
  obtain ⟨upper, act, lower, place, found, hstack, hmem, hrecorded, hbase⟩ := h
  exact ⟨upper, act, lower, place, found, hstack, hmem, hrecorded.weaken hstill, hbase⟩

theorem OnStack.push (h : OnStack module completions running before number root occurrence) (act : Activation) :
    OnStack module completions running (act :: before) number root occurrence := by
  obtain ⟨upper, found, lower, place, inner, rfl, hrest⟩ := h
  exact ⟨act :: upper, found, lower, place, inner, rfl, hrest⟩

theorem OnStack.cases (h : OnStack module completions running (act :: rest) number root occurrence) :
    (∃ place inner, (place, number) ∈ act.started ∧
      Recorded module completions running act.function act.bound act.unwinding act.point place inner ∧
      baseOf module act rest inner = (root, occurrence)) ∨
    OnStack module completions running rest number root occurrence := by
  obtain ⟨upper, found, lower, place, inner, hstack, hmem, hrecorded, hbase⟩ := h
  cases upper with
  | nil =>
      obtain ⟨rfl, rfl⟩ := List.cons.inj hstack
      exact .inl ⟨place, inner, hmem, hrecorded, hbase⟩
  | cons top upper =>
      obtain ⟨rfl, rfl⟩ := List.cons.inj hstack
      exact .inr ⟨upper, found, lower, place, inner, rfl, hmem, hrecorded, hbase⟩

-- The top of a stack changes, and keeps what it has started.
theorem OnStack.top (h : OnStack module completions running (act :: rest) number root occurrence)
    {changed : Activation} (hfunction : changed.function = act.function)
    (hdirectly : changed.calledDirectly = act.calledDirectly) (hstarted : act.started ⊆ changed.started)
    (hrecorded : ∀ place inner, (place, number) ∈ act.started →
      Recorded module completions running act.function act.bound act.unwinding act.point place inner →
      Recorded module completions running changed.function changed.bound changed.unwinding changed.point place inner) :
    OnStack module completions running (changed :: rest) number root occurrence := by
  rcases h.cases with ⟨place, inner, hmem, hknown, hbase⟩ | hrest
  · refine ⟨[], changed, rest, place, inner, rfl, hstarted hmem, hrecorded place inner hmem hknown, ?_⟩
    rw [← hbase]
    cases rest with
    | nil => rw [baseOf, baseOf, hfunction]
    | cons _ _ => rw [baseOf, baseOf, hdirectly, hfunction]
  · exact hrest.push changed

theorem baseOf_function (act : Activation) (rest : List Activation) (occurrence : Occurrence) {changed : Activation}
    (hfunction : changed.function = act.function) (hdirectly : changed.calledDirectly = act.calledDirectly) :
    baseOf module changed rest occurrence = baseOf module act rest occurrence := by
  cases rest with
  | nil => rw [baseOf, baseOf, hfunction]
  | cons _ _ => rw [baseOf, baseOf, hdirectly, hfunction]

-- What is not called directly is entered by its address.
theorem Stacked.entered_outside (h : Stacked module Base (inner :: outer :: rest))
    (hcalled : ¬inner.calledDirectly = true) : inner.function.hasAddressTaken = true := by
  cases h with
  | cons _ _ henters _ =>
      obtain ⟨-, hentered⟩ := henters
      rw [if_neg hcalled] at hentered
      exact hentered.2

-- What the top of a stack has started is known of the activation below, once it is left.
theorem OnStack.drop (hstack : Stacked module Base (inner :: outer :: rest))
    (h : OnStack module completions running (inner :: outer :: rest) number root occurrence)
    (changed : Activation) (hfunction : changed.function = outer.function) (hbound : changed.bound = outer.bound)
    (hdirectly : changed.calledDirectly = outer.calledDirectly) (hstarted : changed.started = outer.carry inner)
    (hnew : ∀ place found call,
      Recorded module completions running inner.function inner.bound inner.unwinding inner.point place found →
      Follows module outer.function ⟨outer.point, call⟩ inner.function →
      inner.bound = boundBy call outer.bound →
      Recorded module completions running outer.function outer.bound changed.unwinding changed.point outer.point
        (throughCall module outer.function outer.point found))
    (hold : ∀ place found, (place, number) ∈ outer.started →
      Recorded module completions running outer.function outer.bound outer.unwinding outer.point place found →
      Recorded module completions running outer.function outer.bound changed.unwinding changed.point place found) :
    OnStack module completions running (changed :: rest) number root occurrence ∨ root.hasAddressTaken = true := by
  rcases h.cases with ⟨place, found, hmem, hrecorded, hbase⟩ | hbelow
  · by_cases hcalled : inner.calledDirectly = true
    · obtain ⟨call, hfollows, hsame⟩ := Enters.follows hstack hcalled
      have hknown := hnew place found call hrecorded hfollows hsame
      rw [← hfunction, ← hbound] at hknown
      refine .inl ⟨[], changed, rest, outer.point, _, rfl, ?_, hknown, ?_⟩
      · rw [hstarted, Activation.carry, if_pos hcalled]
        exact List.mem_append_right _ (List.mem_map.mpr ⟨(place, number), hmem, rfl⟩)
      · rw [baseOf_function outer rest _ hfunction hdirectly, ← hbase, hfunction]
        conv_rhs => rw [baseOf, if_pos hcalled]
    · right
      rw [baseOf, if_neg hcalled] at hbase
      obtain ⟨rfl, -⟩ := Prod.mk.inj hbase
      exact hstack.entered_outside hcalled
  · left
    refine hbelow.top hfunction hdirectly ?_ fun place found hmem hrecorded => ?_
    · rw [hstarted, Activation.carry]
      split
      · exact List.subset_append_left _ _
      · exact List.Subset.refl _
    · rw [hfunction, hbound]
      exact hold place found hmem hrecorded

theorem Stacked.mem (h : Stacked module Base (act :: rest)) : act.function ∈ module.functions := by
  cases h
  assumption

theorem Stacked.atCall (h : Stacked module Base (act :: rest)) {call : Call} (hcall : act.AtCall call) :
    (⟨act.point, call⟩ : PlacedCall) ∈ act.function.reachableCalls := by
  cases h with
  | cons _ hreached _ _ => exact mem_reachableCalls.mpr ⟨hcall, reachable_of_reached hreached⟩

theorem Stacked.goes_on (h : Stacked module Base (inner :: outer :: rest)) : outer.unwinding = false := by
  cases h with
  | cons _ _ henters _ => exact henters.1

theorem Stacked.below_goes_on {upper lower : List Activation} {below : Activation}
    (h : Stacked module Base (act :: upper ++ below :: lower)) : below.unwinding = false := by
  induction upper generalizing act with
  | nil => exact h.goes_on
  | cons _ upper ih => exact ih h.under

-- A completion of a thread that runs is waited for.
theorem Waits.not_completes {place : Point} {move : Move} (h : Waits completions process act move)
    (hmem : (place, number) ∈ act.started) (hrunning : RunsIn process number) {success : JoinSuccess}
    (hsuccess : completions ⟨act.function.id, place⟩ = some success) :
    ¬Completes act.function.graph [success] move := by
  obtain ⟨thread, hthread, hruns⟩ := hrunning
  exact fun hcompletes => h place number hmem success hsuccess hcompletes thread hthread hruns

-- What is known of a thread stays known while its starter runs, unless the starter turns out to be a worker.
theorem OnStack.step (hpromised : Promised module completions covers) (honward : Onward module completions covers)
    (hstack : Stacked module Base before) (hstep : StackStep module completions process before after)
    (h : OnStack module completions (RunsIn process number) before number root occurrence) :
    OnStack module completions (RunsIn process number) after number root occurrence ∨ after = [] ∨
      root.hasAddressTaken = true := by
  cases hstep with
  | move hgoes htakes hwaits =>
      refine .inl (h.top rfl rfl (List.Subset.refl _) fun place found hmem hrecorded => ?_)
      dsimp only
      rw [hgoes] at hrecorded ⊢
      exact hrecorded.move honward hstack.mem htakes fun hrunning _ hsuccess =>
        hwaits.not_completes hmem hrunning hsuccess
  | call _ _ _ _ _ => exact .inl (h.push _)
  | callOut _ _ _ _ => exact .inl (h.push _)
  | raise _ _ => exact .inl (h.top rfl rfl (List.Subset.refl _) fun _ _ _ hrecorded => hrecorded.unwound)
  | @back inner outer rest move next hgoes hcalled hends htakes hpast hwaits =>
      have houter := hstack.goes_on
      refine (h.drop hstack { outer with point := next, started := outer.carry inner } rfl rfl rfl rfl
        (fun place found call hrecorded hfollows hsame => ?_)
        fun place found hmem hrecorded => ?_).imp_right .inr
      · dsimp only
        rw [houter]
        refine .call hfollows (hsame ▸ hrecorded.spawns) (fun _ => .single ⟨_, htakes⟩) fun _ hrunning hin => ?_
        rw [hgoes] at hrecorded
        exact absurd hrunning (hrecorded.returned hpromised honward hstack.mem hends hin)
      · dsimp only
        rw [houter] at hrecorded ⊢
        exact hrecorded.move honward hstack.under.mem htakes fun hrunning _ hsuccess =>
          hwaits.not_completes hmem hrunning hsuccess
  | @backOut inner outer rest _ hcalled _ =>
      rcases h.cases with ⟨place, found, -, -, hbase⟩ | hbelow
      · have hindirect : ¬inner.calledDirectly = true := by simp [hcalled]
        rw [baseOf, if_neg hindirect] at hbase
        obtain ⟨rfl, -⟩ := Prod.mk.inj hbase
        exact .inr (.inr (hstack.entered_outside hindirect))
      · exact .inl hbelow
  | @caught inner outer rest block unwind next hunwinds htakes hwaits =>
      have houter := hstack.goes_on
      refine (h.drop hstack { outer with point := next, started := outer.carry inner } rfl rfl rfl rfl
        (fun place found call hrecorded hfollows hsame => ?_)
        fun place found hmem hrecorded => ?_).imp_right .inr
      · dsimp only
        refine .call hfollows (hsame ▸ hrecorded.spawns) (fun _ => .single ⟨_, htakes⟩) fun _ _ _ => ?_
        exact .move .start htakes (by simp [Completes])
      · dsimp only
        rw [houter] at hrecorded ⊢
        exact hrecorded.move honward hstack.under.mem htakes fun hrunning _ hsuccess =>
          hwaits.not_completes hmem hrunning hsuccess
  | @unwind inner outer rest _ _ =>
      refine (h.drop hstack { outer with unwinding := true, started := outer.carry inner } rfl rfl rfl rfl
        (fun place found call hrecorded hfollows hsame => ?_)
        fun place found hmem hrecorded => hrecorded.unwound).imp_right .inr
      exact .call hfollows (hsame ▸ hrecorded.spawns) (fun h => by cases h) fun h => by cases h
  | exit => exact .inr (.inl rfl)

end Origins

section Conflicts

variable {module : Module} {completions : ThreadCompletionMap} {covers : FlowGraph → JoinSuccess → Point → Bool}
  {Base : Function → Prop} {running : Prop} {function : Function} {bound : Bindings} {place here : Point}
  {first second occurrence : Occurrence} {act below : Activation} {rest lower : List Activation} {call : Call}

-- What two occurrences of one activation have in common is left out of their order.
theorem firstApart_baseOf (act : Activation) (lower : List Activation) (first second : Occurrence) :
    firstApart (baseOf module act lower first).2.frames.reverse (baseOf module act lower second).2.frames.reverse =
      firstApart first.frames.reverse second.frames.reverse := by
  induction lower generalizing act first second with
  | nil => rfl
  | cons outer lower ih =>
      unfold baseOf
      by_cases hcalled : act.calledDirectly = true
      · rw [if_pos hcalled, if_pos hcalled, ih]
        simp [throughCall, callFrame, firstApart]
      · rw [if_neg hcalled, if_neg hcalled]

theorem ordered_baseOf (act : Activation) (lower : List Activation) (first second : Occurrence) :
    ordered module covers (baseOf module act lower first).2 (baseOf module act lower second).2 =
      ordered module covers first second := by
  unfold ordered
  rw [firstApart_baseOf]

-- What an activation starts, the one below it starts too, by the call it stands at.
theorem started_below (upper : List Activation) (hstack : Stacked module Base (act :: upper ++ below :: lower))
    (h : Spawns module completions act.function act.bound occurrence) :
    (baseOf module act (upper ++ below :: lower) occurrence).1.hasAddressTaken = true ∨
      ∃ call found, SpawnsAt module completions below.function below.bound ⟨below.point, call⟩ found ∧
        found.entry = occurrence.entry ∧
        baseOf module act (upper ++ below :: lower) occurrence = baseOf module below lower found := by
  induction upper generalizing act occurrence with
  | nil =>
      by_cases hcalled : act.calledDirectly = true
      · obtain ⟨call, hfollows, hsame⟩ := Enters.follows hstack hcalled
        refine .inr ⟨call, _, .through hfollows (hsame ▸ h), rfl, ?_⟩
        rw [List.nil_append, baseOf, if_pos hcalled]
      · rw [List.nil_append, baseOf, if_neg hcalled]
        exact .inl (hstack.entered_outside hcalled)
  | cons outer upper ih =>
      by_cases hcalled : act.calledDirectly = true
      · obtain ⟨call, hfollows, hsame⟩ := Enters.follows hstack hcalled
        rw [List.cons_append, baseOf, if_pos hcalled]
        exact ih hstack.under (.through hfollows (hsame ▸ h))
      · rw [List.cons_append, baseOf, if_neg hcalled]
        exact .inl (hstack.entered_outside hcalled)

theorem baseOf_entry (act : Activation) (lower : List Activation) (occurrence : Occurrence) :
    (baseOf module act lower occurrence).2.entry = occurrence.entry := by
  induction lower generalizing act occurrence with
  | nil => rfl
  | cons outer lower ih =>
      unfold baseOf
      split
      · exact ih outer _
      · rfl

theorem Recorded.leads (h : Recorded module completions running function bound false here place occurrence) :
    Uncompleted function.graph [] ⟨0, 0⟩ place ∧ ReflTransGen function.graph.Follows place here := by
  cases h with
  | spawn hstarts hleads _ => exact ⟨reached_of_mem hstarts.mem, hleads rfl⟩
  | call hfollows _ hleads _ => exact ⟨reached_of_mem hfollows.calls.1, (hleads rfl).to_reflTransGen⟩

-- One place starts one entry.
theorem Recorded.same_entry (honward : Onward module completions covers) (hfunction : function ∈ module.functions)
    (h : Recorded module completions running function bound false here here first)
    (hat : SpawnsAt module completions function bound ⟨here, call⟩ second) : first.entry = second.entry := by
  cases h with
  | @spawn placed entry hstarts _ _ =>
      have hcall := (mem_reachableCalls.mp hstarts.mem).1
      cases hat with
      | here hother =>
          have hsame := congrArg PlacedCall.call (call_unique hcall (mem_reachableCalls.mp hother.mem).1 rfl)
          have hentry := hother.entry
          rw [← hsame, hstarts.entry] at hentry
          exact Option.some_inj.mp hentry
      | through hfollows _ =>
          have hsame := congrArg PlacedCall.call (call_unique hcall (mem_reachableCalls.mp hfollows.calls.1).1 rfl)
          have hspawn := hstarts.spawn
          rw [hsame, hfollows.plain] at hspawn
          cases hspawn
  | @call placed callee occurrence hfollows hspawns hleads _ =>
      exact absurd (hleads rfl) (honward.once hfunction hfollows hspawns)

-- While a recorded thread runs, nothing past what completes it is come to.
theorem Recorded.open (hpromised : Promised module completions covers) (honward : Onward module completions covers)
    (hfunction : function ∈ module.functions)
    (h : Recorded module completions running function bound false here place occurrence) :
    ∃ front last, occurrence.frames = front ++ [last] ∧ last.start = ⟨function.id, place⟩ ∧
      (running → ∀ success, last.completion = some success →
        Uncompleted function.graph [success] ⟨0, 0⟩ here) := by
  cases h with
  | @spawn placed entry hstarts _ hopen =>
      refine ⟨[], _, rfl, rfl, fun hrunning success hsuccess => ?_⟩
      exact (hpromised.later function hfunction placed hstarts.mem success hsuccess).trans
        (hopen rfl hrunning success hsuccess)
  | @call placed callee occurrence hfollows hspawns _ hopen =>
      refine ⟨occurrence.frames, _, rfl, rfl, fun hrunning success hsuccess => ?_⟩
      obtain ⟨hinner, rfl⟩ := callFrame_completion hsuccess
      have hbefore := ((reached_of_mem hfollows.calls.1).past_or placed.point).resolve_right
        (honward.once hfunction hfollows hspawns)
      exact uncompleted_call hpromised hfunction hfollows.calls.1 (hbefore.trans (hopen rfl hrunning hinner))

-- What completes a thread that is started now covers nothing that led here.
theorem SpawnsAt.uncovered (hpromised : Promised module completions covers)
    (honward : Onward module completions covers) (hfunction : function ∈ module.functions)
    (h : SpawnsAt module completions function bound ⟨here, call⟩ occurrence) :
    ∃ front last, occurrence.frames = front ++ [last] ∧ last.start = ⟨function.id, here⟩ ∧
      ∀ place success, Uncompleted function.graph [] ⟨0, 0⟩ place →
        TransGen function.graph.Follows place here → last.completion = some success →
        covers function.graph success place = false := by
  cases h with
  | here hstarts =>
      refine ⟨[], _, rfl, rfl, fun place success _ hleads hsuccess => ?_⟩
      by_contra hcovers
      exact honward.creations function hfunction _ hstarts.mem hstarts.spawn success hsuccess place
        (by simpa using hcovers) hleads.to_reflTransGen
  | @through callee occurrence hfollows hspawns =>
      refine ⟨occurrence.frames, _, rfl, rfl, fun place success hreached hleads hsuccess => ?_⟩
      obtain ⟨-, rfl⟩ := callFrame_completion hsuccess
      have hloop := honward.once hfunction hfollows hspawns
      have hbefore := (hreached.past_or here).resolve_right fun hback => hloop (hback.trans hleads)
      have hclear := uncompleted_call hpromised hfunction hfollows.calls.1 hbefore
      by_contra hcovers
      exact hpromised.dominance _ _ _ (by simpa using hcovers) hclear

-- A thread that runs and one that is started above it are not ordered.
theorem Recorded.unordered (hpromised : Promised module completions covers)
    (honward : Onward module completions covers) (hfunction : function ∈ module.functions)
    (h : Recorded module completions running function bound false here place first) (hrunning : running)
    (hat : SpawnsAt module completions function bound ⟨here, call⟩ second) (hentry : first.entry ≠ second.entry) :
    ordered module covers first second = false := by
  have hapart : place ≠ here := by
    rintro rfl
    exact hentry (h.same_entry honward hfunction hat)
  obtain ⟨hreached, hleads⟩ := h.leads
  have hcomes : TransGen function.graph.Follows place here :=
    (Relation.reflTransGen_iff_eq_or_transGen.mp hleads).resolve_left (Ne.symm hapart)
  obtain ⟨front, last, hframes, hstart, hopen⟩ := h.open hpromised honward hfunction
  obtain ⟨otherFront, other, hotherFrames, hotherStart, huncovered⟩ := hat.uncovered hpromised honward hfunction
  have hfirst : firstApart first.frames.reverse second.frames.reverse = some (last, other) := by
    rw [hframes, hotherFrames]
    simp [firstApart, hstart, hotherStart, hapart]
  have hnot : covered module covers last other = false := by
    unfold covered
    rw [hstart, functionWithId_of_mem hfunction, hotherStart]
    cases hcompletion : last.completion with
    | none => rfl
    | some success =>
        by_contra hcovers
        exact hpromised.dominance _ _ _ (by simpa using hcovers) (hopen hrunning success hcompletion)
  have hnotOther : covered module covers other last = false := by
    unfold covered
    rw [hotherStart, functionWithId_of_mem hfunction, hstart]
    cases hcompletion : other.completion with
    | none => rfl
    | some success => simpa using huncovered place success hreached hcomes hcompletion
  unfold ordered
  rw [hfirst]
  simp [hnot, hnotOther]

theorem OnStack.unordered (hpromised : Promised module completions covers) (honward : Onward module completions covers)
    (hstack : Stacked module Base (act :: rest)) (hgoes : act.unwinding = false) {entry : String}
    (hstarts : Starts act.function act.bound ⟨act.point, call⟩ entry)
    (haddress : (baseOf module act rest
      ⟨entry, [spawnFrame completions act.function act.point]⟩).1.hasAddressTaken = false)
    {number : Nat} {root : Function} (h : OnStack module completions running (act :: rest) number root first)
    (hrunning : running) (hentry : first.entry ≠ entry) :
    ordered module covers first
      (baseOf module act rest ⟨entry, [spawnFrame completions act.function act.point]⟩).2 = false := by
  obtain ⟨upper, below, lower, place, recorded, hsplit, -, hrecorded, hbase⟩ := h
  have hsame : recorded.entry = first.entry := by
    rw [← @baseOf_entry module below lower recorded, hbase]
  cases upper with
  | nil =>
      obtain ⟨rfl, rfl⟩ := List.cons.inj hsplit
      rw [hgoes] at hrecorded
      have hnot := hrecorded.unordered hpromised honward hstack.mem hrunning (.here hstarts) (by rwa [hsame])
      rw [← ordered_baseOf act rest, hbase] at hnot
      exact hnot
  | cons top upper =>
      obtain ⟨rfl, hrest⟩ : act = top ∧ rest = upper ++ below :: lower := List.cons.inj hsplit
      subst hrest
      have hspawns : Spawns module completions act.function act.bound _ := .here hstarts
      obtain ⟨through, found, hat, hfound, hfoundBase⟩ :=
        (started_below upper hstack hspawns).resolve_left (Bool.eq_false_iff.mp haddress)
      rw [hstack.below_goes_on] at hrecorded
      have hbelow : Stacked module Base (below :: lower) := @Stacked.split _ _ _ _ (act :: upper) hstack
      have hnot := hrecorded.unordered hpromised honward hbelow.mem hrunning hat (by rwa [hsame, hfound])
      rw [← ordered_baseOf below lower, hbase, ← hfoundBase] at hnot
      exact hnot

end Conflicts

section Sound

-- What may be at the bottom of a stack.
def BaseAt (initial : List Function) (number : Nat) (function : Function) : Prop :=
  initial[number]? = some function ∨ function.hasAddressTaken = true

-- The functions a process begins with differ, and nothing in the module calls them.
structure Initial (module : Module) (initial : List Function) : Prop where
  mem : ∀ function ∈ initial, function ∈ module.functions
  apart : (initial.map (·.id)).Nodup
  uncalled : ∀ function ∈ initial, ∀ site ∈ module.directCalls, isSpawn site.kind = false →
    site.callee ≠ function.id

def StartedInWorker (module : Module) (completions : ThreadCompletionMap) (entry : String) : Prop :=
  ∃ occurrence, Occurs module completions occurrence ∧ occurrence.entry = entry ∧
    inWorker module completions occurrence = true

-- A thread was started where a worker may be, or by a thread of the beginning, whose stack keeps track of it.
def Origin (module : Module) (completions : ThreadCompletionMap) (initial : List Function) (process : List Thread)
    (number : Nat) (entry : String) : Prop :=
  StartedInWorker module completions entry ∨
    ∃ (starter : Nat) (origin : Thread) (root : Function) (occurrence : Occurrence),
      process[starter]? = some origin ∧ initial[starter]? = some root ∧
      Spawns module completions root [] occurrence ∧ occurrence.entry = entry ∧
      (origin.activations = [] ∨
        OnStack module completions (RunsIn process number) origin.activations number root occurrence)

structure Sound (module : Module) (completions : ThreadCompletionMap) (initial : List Function)
    (process : List Thread) : Prop where
  stacked : ∀ number thread, process[number]? = some thread →
    Stacked module (BaseAt initial number) thread.activations
  origins : ∀ number thread, process[number]? = some thread → thread.traced = true →
    Origin module completions initial process number thread.entry

-- A thread of a process changes, and another may have been added to it.
structure Changes (process later : List Thread) (number : Nat) (thread changed : Thread) : Prop where
  before : process[number]? = some thread
  after : later[number]? = some changed
  others : ∀ other, other ≠ number → other < process.length → later[other]? = process[other]?
  runs : changed.Running → thread.Running

variable {module : Module} {completions : ThreadCompletionMap} {covers : FlowGraph → JoinSuccess → Point → Bool}
  {initial : List Function} {process after : List Thread} {number other : Nat} {thread changed found : Thread}
  {root function : Function} {occurrence second : Occurrence} {act : Activation} {rest : List Activation}
  {call : Call} {entry : String}

theorem changes_set (changed : Thread) (hthread : process[number]? = some thread)
    (hruns : changed.Running → thread.Running) :
    Changes process (process.set number changed) number thread changed where
  before := hthread
  after := List.getElem?_set_self (List.getElem?_eq_some_iff.mp hthread).1
  others _ hne _ := List.getElem?_set_ne (Ne.symm hne)
  runs := hruns

theorem Changes.append (h : Changes process after number thread changed) (hlength : after.length = process.length)
    (new : Thread) : Changes process (after ++ [new]) number thread changed where
  before := h.before
  after := by
    rw [List.getElem?_append_left (hlength ▸ (List.getElem?_eq_some_iff.mp h.before).1)]
    exact h.after
  others other hne hother := by
    rw [List.getElem?_append_left (hlength ▸ hother)]
    exact h.others other hne hother
  runs := h.runs

theorem changes_start (call : Call) (entry : Function) (hthread : process[number]? = some thread)
    (hactivations : thread.activations = act :: rest) :
    Changes process (process.set number (thread.starts act rest process.length) ++ [started act call entry]) number
      thread (thread.starts act rest process.length) :=
  (changes_set _ hthread fun _ => by simp [Thread.Running, hactivations]).append (List.length_set ..) _

theorem Changes.cases (h : Changes process after number thread changed) (hother : other < process.length)
    (hfound : after[other]? = some found) :
    (other = number ∧ found = changed) ∨ (other ≠ number ∧ process[other]? = some found) := by
  by_cases hsame : other = number
  · subst hsame
    exact .inl ⟨rfl, (Option.some_inj.mp (h.after.symm.trans hfound)).symm⟩
  · exact .inr ⟨hsame, (h.others other hsame hother).symm.trans hfound⟩

theorem Changes.cases_new {new : Thread} (h : Changes process (after ++ [new]) number thread changed)
    (hlength : after.length = process.length) (hfound : (after ++ [new])[other]? = some found) :
    (other = number ∧ found = changed) ∨ (other < process.length ∧ process[other]? = some found) ∨
      (other = process.length ∧ found = new) := by
  by_cases hother : other < process.length
  · exact (h.cases hother hfound).imp_right fun hsame => .inl ⟨hother, hsame.2⟩
  · have hlt := (List.getElem?_eq_some_iff.mp hfound).1
    rw [List.length_append, List.length_singleton] at hlt
    obtain rfl : other = process.length := by omega
    rw [← hlength, List.getElem?_concat_length] at hfound
    exact .inr (.inr ⟨rfl, (Option.some_inj.mp hfound).symm⟩)

-- A thread that has ended does not run again.
theorem Changes.runsIn (h : Changes process after number thread changed) (hother : other < process.length)
    (hruns : RunsIn after other) : RunsIn process other := by
  obtain ⟨found, hfound, hrunning⟩ := hruns
  rcases h.cases hother hfound with ⟨rfl, rfl⟩ | ⟨-, hsame⟩
  · exact ⟨thread, h.before, h.runs hrunning⟩
  · exact ⟨found, hsame, hrunning⟩

theorem Changes.origin (h : Changes process after number thread changed) (hother : other < process.length)
    (hkept : ∀ root occurrence, initial[number]? = some root → Spawns module completions root [] occurrence →
      OnStack module completions (RunsIn process other) thread.activations other root occurrence →
      OnStack module completions (RunsIn process other) changed.activations other root occurrence ∨
        changed.activations = [] ∨ StartedInWorker module completions occurrence.entry)
    (horigin : Origin module completions initial process other entry) :
    Origin module completions initial after other entry := by
  rcases horigin with hworker | ⟨starter, origin, root, occurrence, hstarter, hroot, hspawns, rfl, hknown⟩
  · exact .inl hworker
  · by_cases hsame : starter = number
    · subst hsame
      obtain rfl := Option.some_inj.mp (h.before.symm.trans hstarter)
      have hnext : OnStack module completions (RunsIn process other) changed.activations other root occurrence ∨
          changed.activations = [] ∨ StartedInWorker module completions occurrence.entry := by
        rcases hknown with hended | hstack
        · exact .inr (.inl (by_contra fun hrunning => h.runs hrunning hended))
        · exact hkept root occurrence hroot hspawns hstack
      rcases hnext with hstack | hended | hworker
      · exact .inr ⟨starter, changed, root, occurrence, h.after, hroot, hspawns, rfl,
          .inr (hstack.weaken (h.runsIn hother))⟩
      · exact .inr ⟨starter, changed, root, occurrence, h.after, hroot, hspawns, rfl, .inl hended⟩
      · exact .inl hworker
    · have hlt := (List.getElem?_eq_some_iff.mp hstarter).1
      refine .inr ⟨starter, origin, root, occurrence, (h.others starter hsame hlt).trans hstarter, hroot, hspawns,
        rfl, hknown.imp_right fun hstack => hstack.weaken (h.runsIn hother)⟩

theorem Initial.root_mem (hinitial : Initial module initial) (hroot : initial[number]? = some root) :
    root ∈ module.functions :=
  hinitial.mem root (List.mem_of_getElem? hroot)

theorem Initial.ids_ne (hinitial : Initial module initial) (hroot : initial[number]? = some root)
    (hfunction : initial[other]? = some function) (hapart : number ≠ other) : root.id ≠ function.id := by
  intro hsame
  have hlookup {index : Nat} {found : Function} (h : initial[index]? = some found) :
      (initial.map (·.id))[index]? = some found.id := by
    rw [List.getElem?_map, h, Option.map_some]
  have hroots := hlookup hroot
  rw [hsame, ← hlookup hfunction] at hroots
  have hlt : number < (initial.map (·.id)).length := by
    rw [List.length_map]
    exact (List.getElem?_eq_some_iff.mp hroot).1
  exact hapart ((List.getElem?_inj hlt hinitial.apart).mp hroots)

theorem Initial.occurs (hinitial : Initial module initial) (hroot : initial[number]? = some root)
    (h : Spawns module completions root [] occurrence) : Occurs module completions occurrence := by
  have hmem := hinitial.root_mem hroot
  refine ⟨root, mem_roots.mpr ⟨hmem, h.relevant hmem, fun hcalled => ?_⟩, h⟩
  obtain ⟨site, hsite, hcallee⟩ := List.mem_map.mp hcalled
  obtain ⟨hdirect, hplain⟩ := List.mem_filter.mp hsite
  simp only [Bool.and_eq_true, Bool.not_eq_true'] at hplain
  exact hinitial.uncalled root (List.mem_of_getElem? hroot) site hdirect hplain.2 hcallee

-- What different functions of the beginning start is not ordered.
theorem ordered_of_roots (h : Spawns module completions root [] occurrence)
    (hsecond : Spawns module completions function [] second) (hapart : root.id ≠ function.id) :
    ordered module covers occurrence second = false := by
  obtain ⟨front, last, hframes, hlast⟩ := h.outermost
  obtain ⟨otherFront, otherLast, hotherFrames, hotherLast⟩ := hsecond.outermost
  have hstarts : last.start ≠ otherLast.start := by
    intro hsame
    rw [hsame, hotherLast] at hlast
    exact hapart hlast.symm
  unfold ordered
  rw [hframes, hotherFrames]
  simp [firstApart, hstarts, hlast, hotherLast, hapart]

theorem Stacked.starts {Base : Function → Prop} {function : Function} (h : Stacked module Base (act :: rest))
    (hcall : act.AtCall call) (hspawn : isSpawn call.kind = true) (hover : handsOver act.function call = false)
    (htraced : (started act call function).traced = true) :
    Starts act.function act.bound ⟨act.point, call⟩ function.id :=
  ⟨h.atCall hcall, hspawn, hover, of_decide_eq_true (p := _) htraced⟩

theorem StackStep.running {before after : List Activation} (h : StackStep module completions process before after)
    (hrunning : after ≠ []) : before ≠ [] := by
  cases h <;> simp_all

-- What the top of a stack starts is started in a worker, or by the thread of the beginning at its bottom.
theorem base_cases (hcomplete : (expandRoots module completions).2.complete = true)
    (hmissed : missed module completions = false)
    (hstack : Stacked module (BaseAt initial number) (act :: rest))
    (h : Spawns module completions act.function act.bound occurrence) :
    StartedInWorker module completions occurrence.entry ∨
      ((baseOf module act rest occurrence).1.hasAddressTaken = false ∧
        initial[number]? = some (baseOf module act rest occurrence).1 ∧
        Spawns module completions (baseOf module act rest occurrence).1 [] (baseOf module act rest occurrence).2 ∧
        (baseOf module act rest occurrence).2.entry = occurrence.entry) := by
  obtain ⟨hmem, hspawns, hentry, hbase⟩ := base_spawns hstack h
  by_cases haddress : (baseOf module act rest occurrence).1.hasAddressTaken = true
  · obtain ⟨other, hoccurs, hsame, hworker⟩ := occurs_in_worker hcomplete hmissed hmem haddress hspawns
    exact .inl ⟨other, hoccurs, hsame.trans hentry, hworker⟩
  · exact .inr ⟨by simpa using haddress, (hbase.resolve_left haddress).resolve_right haddress, hspawns, hentry⟩

theorem Sound.begun (initial : List Function) (hinitial : Initial module initial) :
    Sound module completions initial (begun initial) := by
  have hlookup {number : Nat} {thread : Thread} (h : (ContainedEntries.begun initial)[number]? = some thread) :
      ∃ function, initial[number]? = some function ∧
        thread = { entry := function.id, traced := false, activations := [{ function := function }] } := by
    unfold ContainedEntries.begun at h
    rw [List.getElem?_map] at h
    obtain ⟨function, hfunction, rfl⟩ := Option.map_eq_some_iff.mp h
    exact ⟨function, hfunction, rfl⟩
  refine ⟨fun number thread hthread => ?_, fun number thread hthread htraced => ?_⟩
  · obtain ⟨function, hfunction, rfl⟩ := hlookup hthread
    exact .cons (hinitial.root_mem hfunction) .start ⟨rfl, rfl, .inl hfunction⟩ .nil
  · obtain ⟨function, hfunction, rfl⟩ := hlookup hthread
    cases htraced

theorem Sound.step (hpromised : Promised module completions covers) (honward : Onward module completions covers)
    (hinitial : Initial module initial) (hcomplete : (expandRoots module completions).2.complete = true)
    (hmissed : missed module completions = false) (hsound : Sound module completions initial process)
    (hstep : Step module completions process after) : Sound module completions initial after := by
  have hworker {root : Function} {occurrence : Occurrence} {number : Nat} (hroot : initial[number]? = some root)
      (hspawns : Spawns module completions root [] occurrence) (haddress : root.hasAddressTaken = true) :
      StartedInWorker module completions occurrence.entry := by
    obtain ⟨other, hother⟩ :=
      occurs_in_worker hcomplete hmissed (hinitial.root_mem hroot) haddress hspawns
    exact ⟨other, hother⟩
  cases hstep with
  | @run number thread activations hthread hstack =>
      have hbefore := hsound.stacked number thread hthread
      have hchanges : Changes process (process.set number { thread with activations := activations }) number thread
          { thread with activations := activations } := changes_set _ hthread hstack.running
      have hlt {other : Nat} {found : Thread}
          (hfound : (process.set number { thread with activations := activations })[other]? = some found) :
          other < process.length := by
        simpa using (List.getElem?_eq_some_iff.mp hfound).1
      have hkept (other : Nat) (root : Function) (occurrence : Occurrence) (hroot : initial[number]? = some root)
          (hspawns : Spawns module completions root [] occurrence)
          (hknown : OnStack module completions (RunsIn process other) thread.activations other root occurrence) :=
        (hknown.step hpromised honward hbefore hstack).imp_right
          (Or.imp_right (hworker hroot hspawns))
      refine ⟨fun other found hfound => ?_, fun other found hfound htraced => ?_⟩
      · rcases hchanges.cases (hlt hfound) hfound with ⟨rfl, rfl⟩ | ⟨-, hsame⟩
        · exact hbefore.step hstack
        · exact hsound.stacked other found hsame
      · refine hchanges.origin (hlt hfound) (hkept other) ?_
        rcases hchanges.cases (hlt hfound) hfound with ⟨rfl, rfl⟩ | ⟨-, hsame⟩
        · exact hsound.origins other thread hthread htraced
        · exact hsound.origins other found hsame htraced
  | @start number thread act rest call entry hthread hactivations hgoes hcall hspawn hover hentry haddress =>
      have hbefore : Stacked module (BaseAt initial number) (act :: rest) :=
        hactivations ▸ hsound.stacked number thread hthread
      have hchanges := changes_start call entry hthread hactivations
      refine ⟨fun other found hfound => ?_, fun other found hfound htraced => ?_⟩
      · rcases hchanges.cases_new (List.length_set ..) hfound with ⟨rfl, rfl⟩ | ⟨-, hsame⟩ | ⟨rfl, rfl⟩
        · exact hbefore.top rfl rfl rfl .refl
        · exact hsound.stacked other found hsame
        · exact .cons hentry .start ⟨rfl, rfl, .inr haddress⟩ .nil
      · have hold {other : Nat} (hother : other < process.length) {found : Thread}
            (hfound : process[other]? = some found) (htraced : found.traced = true) :
            Origin module completions initial
              (process.set number (thread.starts act rest process.length) ++ [started act call entry]) other
              found.entry := by
          refine hchanges.origin hother (fun root occurrence _ _ hknown => .inl ?_)
            (hsound.origins other found hfound htraced)
          rw [hactivations] at hknown
          exact hknown.top rfl rfl (List.subset_append_left _ _) fun _ _ _ h => h
        rcases hchanges.cases_new (List.length_set ..) hfound with ⟨rfl, rfl⟩ | ⟨hother, hsame⟩ | ⟨rfl, rfl⟩
        · exact @hold other (List.getElem?_eq_some_iff.mp hthread).1 thread hthread htraced
        · exact hold hother hsame htraced
        · have hstarts := hbefore.starts hcall hspawn hover htraced
          rcases base_cases hcomplete hmissed hbefore (.here hstarts) with hworker | ⟨-, hroot, hspawns, hsame⟩
          · exact .inl hworker
          · refine .inr ⟨number, _, _, _, hchanges.after, hroot, hspawns, hsame, .inr ?_⟩
            refine ⟨[], _, rest, act.point, ⟨entry.id, [spawnFrame completions act.function act.point]⟩, rfl,
              List.mem_append_right _ (List.mem_singleton.mpr rfl), ?_, ?_⟩
            · exact .spawn hstarts (fun _ => .refl) fun _ _ _ _ => .start
            · exact baseOf_function act rest _ rfl rfl

-- Where a thread starts another, none runs that the analysis says never overlaps with it.
theorem Sound.not_running (hpromised : Promised module completions covers) (honward : Onward module completions covers)
    (hinitial : Initial module initial) (hsound : Sound module completions initial process)
    (hthread : process[number]? = some thread) (hactivations : thread.activations = act :: rest)
    (hgoes : act.unwinding = false) (hstarts : Starts act.function act.bound ⟨act.point, call⟩ entry)
    (hother : process[other]? = some found) (htraced : found.traced = true) (hne : found.entry ≠ entry)
    (hpair : makeEntryPair found.entry entry ∈ collectContainedEntryPairs module completions covers) :
    ¬found.Running := by
  intro hrunning
  obtain ⟨hcomplete, hmissed, hall⟩ := sequenced_of_mem hpair
  have hstack : Stacked module (BaseAt initial number) (act :: rest) :=
    hactivations ▸ hsound.stacked number thread hthread
  -- neither entry is started in a worker
  have hplain {first second : Occurrence} (hfirst : Occurs module completions first)
      (hsecond : Occurs module completions second) (hsame : first.entry = found.entry)
      (hsameSecond : second.entry = entry) :=
    hall first second hfirst hsecond (by rwa [hsame, hsameSecond]) (by rw [hsame, hsameSecond])
  have hbase := base_cases hcomplete hmissed hstack (.here hstarts)
  have hsecond : ∃ second, Occurs module completions second ∧ second.entry = entry := by
    rcases hbase with ⟨second, hsecond, hsame, -⟩ | ⟨-, hroot, hspawns, hsame⟩
    · exact ⟨second, hsecond, hsame⟩
    · exact ⟨_, hinitial.occurs hroot hspawns, hsame⟩
  obtain ⟨second, hsecond, hsameSecond⟩ := hsecond
  rcases hsound.origins other found hother htraced with
    ⟨first, hfirst, hsame, hworker⟩ | ⟨starter, origin, root, first, hstarter, hroot, hspawns, hsame, hknown⟩
  · rw [(hplain hfirst hsecond hsame hsameSecond).1] at hworker
    cases hworker
  have hfirst := hinitial.occurs hroot hspawns
  rcases hbase with ⟨worker, hoccurs, hsameWorker, hworker⟩ | ⟨haddress, hownRoot, hownSpawns, hownSame⟩
  · rw [(hplain hfirst hoccurs hsame hsameWorker).2.1] at hworker
    cases hworker
  have hordered := (hplain hfirst (hinitial.occurs hownRoot hownSpawns) hsame hownSame).2.2
  by_cases hstarterSame : starter = number
  · subst hstarterSame
    obtain rfl := Option.some_inj.mp (hthread.symm.trans hstarter)
    rcases hknown with hended | hstacked
    · rw [hactivations] at hended
      cases hended
    · rw [hactivations] at hstacked
      have hnot := hstacked.unordered hpromised honward hstack hgoes hstarts haddress ⟨found, hother, hrunning⟩
        (by rwa [hsame])
      rw [hnot] at hordered
      cases hordered
  · have hapart := hinitial.ids_ne hroot hownRoot hstarterSame
    rw [ordered_of_roots hspawns hownSpawns hapart] at hordered
    cases hordered

-- No two threads run whose entries the analysis says never overlap.
def Apart (module : Module) (completions : ThreadCompletionMap) (covers : FlowGraph → JoinSuccess → Point → Bool)
    (process : List Thread) : Prop :=
  ∀ (number other : Nat) (first second : Thread), process[number]? = some first → process[other]? = some second →
    first.traced = true → second.traced = true → first.entry ≠ second.entry →
    makeEntryPair first.entry second.entry ∈ collectContainedEntryPairs module completions covers →
    ¬(first.Running ∧ second.Running)

-- A thread that was there before, and what it was.
def Earlier (process : List Thread) (number : Nat) (thread : Thread) : Prop :=
  ∃ before, process[number]? = some before ∧ before.entry = thread.entry ∧ before.traced = thread.traced ∧
    (thread.Running → before.Running)

theorem Changes.earlier (h : Changes process after number thread changed) (hentry : changed.entry = thread.entry)
    (htraced : changed.traced = thread.traced) (hother : other < process.length)
    (hfound : after[other]? = some found) : Earlier process other found := by
  rcases h.cases hother hfound with ⟨rfl, rfl⟩ | ⟨-, hsame⟩
  · exact ⟨thread, h.before, hentry.symm, htraced.symm, h.runs⟩
  · exact ⟨found, hsame, rfl, rfl, id⟩

theorem Apart.of_earlier (h : Apart module completions covers process) {first second : Thread}
    (hfirst : Earlier process number first) (hsecond : Earlier process other second) (htraced : first.traced = true)
    (htracedSecond : second.traced = true) (hne : first.entry ≠ second.entry)
    (hpair : makeEntryPair first.entry second.entry ∈ collectContainedEntryPairs module completions covers) :
    ¬(first.Running ∧ second.Running) := by
  obtain ⟨before, hbefore, hentry, hsame, hruns⟩ := hfirst
  obtain ⟨beforeSecond, hbeforeSecond, hentrySecond, hsameSecond, hrunsSecond⟩ := hsecond
  rw [← hentry, ← hentrySecond] at hne hpair
  rintro ⟨hrunning, hrunningSecond⟩
  exact h number other before beforeSecond hbefore hbeforeSecond (hsame.trans htraced)
    (hsameSecond.trans htracedSecond) hne hpair ⟨hruns hrunning, hrunsSecond hrunningSecond⟩

theorem Apart.step (hpromised : Promised module completions covers) (honward : Onward module completions covers)
    (hinitial : Initial module initial) (hsound : Sound module completions initial process)
    (hstep : Step module completions process after) (h : Apart module completions covers process) :
    Apart module completions covers after := by
  cases hstep with
  | @run number thread activations hthread hstack =>
      have hchanges : Changes process (process.set number { thread with activations := activations }) number thread
          { thread with activations := activations } := changes_set _ hthread hstack.running
      have hearlier {other : Nat} {found : Thread}
          (hfound : (process.set number { thread with activations := activations })[other]? = some found) :
          Earlier process other found := by
        refine hchanges.earlier rfl rfl ?_ hfound
        simpa using (List.getElem?_eq_some_iff.mp hfound).1
      exact fun _ _ _ _ hfirst hsecond => h.of_earlier (hearlier hfirst) (hearlier hsecond)
  | @start number thread act rest call entry hthread hactivations hgoes hcall hspawn hover hentry haddress =>
      have hbefore : Stacked module (BaseAt initial number) (act :: rest) :=
        hactivations ▸ hsound.stacked number thread hthread
      have hchanges := changes_start call entry hthread hactivations
      have hcases {other : Nat} {found : Thread} (hfound : (process.set number
          (thread.starts act rest process.length) ++ [started act call entry])[other]? = some found) :
          Earlier process other found ∨ found = started act call entry := by
        rcases hchanges.cases_new (List.length_set ..) hfound with ⟨rfl, rfl⟩ | ⟨-, hsame⟩ | ⟨-, rfl⟩
        · exact .inl ⟨thread, hthread, rfl, rfl, hchanges.runs⟩
        · exact .inl ⟨found, hsame, rfl, rfl, id⟩
        · exact .inr rfl
      -- the new thread and one that was there
      have hnew {other : Nat} {found : Thread} (hfound : Earlier process other found) (htraced : found.traced = true)
          (htracedNew : (started act call entry).traced = true) (hne : found.entry ≠ entry.id)
          (hpair : makeEntryPair found.entry entry.id ∈ collectContainedEntryPairs module completions covers) :
          ¬found.Running := by
        obtain ⟨before, hearlier, hsame, hsameTraced, hruns⟩ := hfound
        rw [← hsame] at hne hpair
        have hstarts := hbefore.starts hcall hspawn hover htracedNew
        exact fun hrunning => hsound.not_running hpromised honward hinitial hthread hactivations hgoes hstarts
          hearlier (hsameTraced.trans htraced) hne hpair (hruns hrunning)
      intro _ _ first second hfirst hsecond htraced htracedSecond hne hpair
      rcases hcases hfirst with hfirst | rfl <;> rcases hcases hsecond with hsecond | rfl
      · exact h.of_earlier hfirst hsecond htraced htracedSecond hne hpair
      · exact fun hrunning => hnew hfirst htraced htracedSecond hne hpair hrunning.1
      · rw [makeEntryPair_comm] at hpair
        exact fun hrunning => hnew hsecond htracedSecond htraced (Ne.symm hne) hpair hrunning.2
      · exact absurd rfl hne

theorem Reached.sound (hpromised : Promised module completions covers) (honward : Onward module completions covers)
    (hinitial : Initial module initial) (hcomplete : (expandRoots module completions).2.complete = true)
    (hmissed : missed module completions = false) (hreached : Reached module completions initial process) :
    Sound module completions initial process ∧ Apart module completions covers process := by
  induction hreached with
  | refl =>
      refine ⟨.begun initial hinitial, fun number _ thread _ hthread _ htraced => ?_⟩
      obtain ⟨function, -, rfl⟩ := List.mem_map.mp (List.mem_of_getElem? hthread)
      cases htraced
  | tail _ hstep ih =>
      exact ⟨ih.1.step hpromised honward hinitial hcomplete hmissed hstep,
        ih.2.step hpromised honward hinitial ih.1 hstep⟩

-- In every run, two threads whose entries the analysis says never overlap do not run together, unless a call
-- that starts threads is in a loop or what a completion covers leads back to the creation it completes.
theorem contained_threads_never_overlap (module : Module) (completions : ThreadCompletionMap)
    (covers : FlowGraph → JoinSuccess → Point → Bool) (initial : List Function) (process : List Thread)
    (hpromised : Promised module completions covers) (honward : Onward module completions covers)
    (hinitial : Initial module initial) (hreached : Reached module completions initial process)
    {number other : Nat} {first second : Thread}
    (hfirst : process[number]? = some first) (hsecond : process[other]? = some second)
    (htraced : first.traced = true) (htracedSecond : second.traced = true) (hne : first.entry ≠ second.entry)
    (hpair : makeEntryPair first.entry second.entry ∈ collectContainedEntryPairs module completions covers) :
    ¬(first.Running ∧ second.Running) := by
  obtain ⟨hcomplete, hmissed, -⟩ := sequenced_of_mem hpair
  have hall := hreached.sound hpromised honward hinitial hcomplete hmissed
  exact hall.2 number other first second hfirst hsecond htraced htracedSecond hne hpair

end Sound

section Turns

-- `main` starts and joins `read`, then starts and joins `write`.
def turnsMain : Function where
  id := "main"
  blocks := [{
    instructions := [some { kind := .PThreadCreate, operands := [.other, .other, .function "read", .other] },
      some { kind := .PThreadJoin },
      some { kind := .PThreadCreate, operands := [.other, .other, .function "write", .other] },
      some { kind := .PThreadJoin }, none]
    exit := .ret }]

def turnsRead : Function :=
  { id := "read", hasAddressTaken := true, blocks := [{ instructions := [none], exit := .ret }] }

def turnsWrite : Function :=
  { id := "write", hasAddressTaken := true, blocks := [{ instructions := [none], exit := .ret }] }

def turns : Module where
  functions := [turnsMain, turnsRead, turnsWrite]

def turnsCompletions : ThreadCompletionMap := fun site =>
  if site = ⟨"main", ⟨0, 0⟩⟩ then some (.after ⟨0, 1⟩)
  else if site = ⟨"main", ⟨0, 2⟩⟩ then some (.after ⟨0, 3⟩) else none

-- Dominance in functions of one block.
def turnsCovers (graph : FlowGraph) (success : JoinSuccess) (point : Point) : Bool :=
  match success with
  | .after place => graph.exit 0 = .ret && place.block = 0 && point.block = 0 && place.index < point.index
  | .branch _ _ => false

theorem turnsCovers_eq_true {graph : FlowGraph} {success : JoinSuccess} {point : Point}
    (h : turnsCovers graph success point = true) : ∃ place, success = .after place ∧ graph.exit 0 = .ret ∧
      place.block = 0 ∧ point.block = 0 ∧ place.index < point.index := by
  cases success with
  | after place => exact ⟨place, rfl, by simpa [turnsCovers, and_assoc] using h⟩
  | branch _ _ => cases h

theorem turnsCompletions_eq_some {function : Function} (hfunction : function ∈ turns.functions) {point : Point}
    {success : JoinSuccess} (h : turnsCompletions ⟨function.id, point⟩ = some success) :
    function = turnsMain ∧
      ((point = ⟨0, 0⟩ ∧ success = .after ⟨0, 1⟩) ∨
        (point = ⟨0, 2⟩ ∧ success = .after ⟨0, 3⟩)) := by
  have hmain (hid : function.id = "main") : function = turnsMain := eq_of_id hfunction List.mem_cons_self hid
  unfold turnsCompletions at h
  simp only [Site.mk.injEq] at h
  split at h
  · rename_i hsite
    exact ⟨hmain hsite.1, .inl ⟨hsite.2, (Option.some_inj.mp h).symm⟩⟩
  · split at h
    · rename_i hsite
      exact ⟨hmain hsite.1, .inr ⟨hsite.2, (Option.some_inj.mp h).symm⟩⟩
    · cases h

-- In one block a path only goes on.
theorem onward_of_follows {graph : FlowGraph} (hexit : graph.exit 0 = .ret) {point last : Point}
    (hblock : point.block = 0) (h : ReflTransGen graph.Follows point last) :
    last.block = 0 ∧ point.index ≤ last.index := by
  induction h with
  | refl => exact ⟨hblock, le_refl _⟩
  | tail _ hstep ih =>
      obtain ⟨move, htakes⟩ := hstep
      cases htakes with
      | onward _ => exact ⟨ih.1, ih.2.trans (Nat.le_succ _)⟩
      | edge hedge =>
          obtain rfl : _ = 0 := ih.1
          rw [hexit] at hedge
          cases hedge

theorem not_past_in_block {graph : FlowGraph} (hexit : graph.exit 0 = .ret) {place last : Point}
    (hplace : place.block = 0) (h : Uncompleted graph [.after place] ⟨0, 0⟩ last) : last.index ≤ place.index := by
  induction h with
  | start => exact Nat.zero_le _
  | @move before after move hbefore htakes hnot ih =>
      have hblock := (onward_of_follows hexit rfl hbefore.follows).1
      cases htakes with
      | @onward block index _ =>
          obtain rfl : block = 0 := hblock
          have hne : index ≠ place.index := by
            rintro rfl
            exact hnot (by rw [← hplace]; simp [Completes])
          exact Nat.lt_of_le_of_ne ih hne
      | edge hedge =>
          obtain rfl : _ = 0 := hblock
          rw [hexit] at hedge
          cases hedge

theorem turns_exit {function : Function} (hfunction : function ∈ turns.functions) (block : Nat) :
    function.graph.exit block = .ret := by
  rw [graph_exit]
  simp only [turns, List.mem_cons, List.not_mem_nil, or_false] at hfunction
  rcases hfunction with rfl | rfl | rfl <;> cases block <;> rfl

theorem turns_promised : Promised turns turnsCompletions turnsCovers where
  dominance graph success point hcovers huncompleted := by
    obtain ⟨place, rfl, hexit, hplace, -, hpast⟩ := turnsCovers_eq_true hcovers
    exact absurd (not_past_in_block hexit hplace huncompleted) (Nat.not_le.mpr hpast)
  placed function hfunction point success hsuccess := by
    obtain ⟨rfl, hcases⟩ := turnsCompletions_eq_some hfunction hsuccess
    refine ⟨fun block successor hsame => ?_, fun last hsame hlength => ?_⟩ <;>
      rcases hcases with ⟨-, rfl⟩ | ⟨-, rfl⟩ <;> cases hsame <;> exact absurd hlength (by decide)
  later function hfunction placed _ success hsuccess := by
    obtain ⟨rfl, ⟨hpoint, rfl⟩ | ⟨hpoint, rfl⟩⟩ := turnsCompletions_eq_some hfunction hsuccess
    · rw [hpoint]
      exact .start
    · rw [hpoint]
      have hnext : Uncompleted turnsMain.graph [.after ⟨0, 3⟩] ⟨0, 0⟩ ⟨0, 1⟩ :=
        .move .start (.onward (by decide)) (by simp [Completes])
      exact hnext.move (.onward (by decide)) (by simp [Completes])
  invokes function hfunction placed _ normal hnormal := by
    obtain ⟨-, hedge⟩ := FlowGraph.normalDest_eq_some hnormal
    rw [turns_exit hfunction] at hedge
    cases hedge

theorem turns_onward : Onward turns turnsCompletions turnsCovers where
  calls function hfunction placed callee hfollows _ := by
    have hcall := (mem_reachableCalls.mp hfollows.calls.1).1
    have hnone : ∀ function ∈ turns.functions, ∀ placed ∈ function.calls, placed.call.directCallee = none := by
      decide
    have hnamed := hfollows.calls.2.1
    rw [hnone function hfunction placed hcall] at hnamed
    cases hnamed
  creations function hfunction placed _ _ success hsuccess point hcovers hback := by
    obtain ⟨rfl, hcases⟩ := turnsCompletions_eq_some hfunction hsuccess
    obtain ⟨place, rfl, hexit, -, hblock, hpast⟩ := turnsCovers_eq_true hcovers
    have honward := (onward_of_follows hexit hblock hback).2
    rcases hcases with ⟨hpoint, hplace⟩ | ⟨hpoint, hplace⟩ <;> rw [hpoint] at honward <;>
      cases hplace <;> dsimp only at honward hpast <;> omega

theorem turns_initial : Initial turns [turnsMain] where
  mem function hfunction := by
    rw [List.mem_singleton.mp hfunction]
    exact List.mem_cons_self
  apart := by decide
  uncalled := by decide

def turnsThread (index : Nat) (started : List (Point × Nat)) : Thread where
  entry := "main"
  traced := false
  activations := [{ function := turnsMain, point := ⟨0, index⟩, started := started }]

def turnsReader (activations : List Activation) : Thread :=
  { entry := "read", traced := true, activations := activations }

def turnsWriter : Thread :=
  { entry := "write", traced := true, activations := [{ function := turnsWrite }] }

-- `main` has joined `read` and started `write`.
theorem turns_reached : Reached turns turnsCompletions [turnsMain]
    [turnsThread 2 [(⟨0, 0⟩, 1), (⟨0, 2⟩, 2)], turnsReader [], turnsWriter] := by
  have hcalls (placed : PlacedCall) (h : decide (placed ∈ turnsMain.calls) = true) : placed ∈ turnsMain.calls :=
    of_decide_eq_true h
  have hread : Step turns turnsCompletions [turnsThread 0 []]
      [turnsThread 0 [(⟨0, 0⟩, 1)], turnsReader [{ function := turnsRead }]] :=
    @Step.start turns turnsCompletions [turnsThread 0 []] 0 (turnsThread 0 [])
      { function := turnsMain, point := ⟨0, 0⟩ } []
      { kind := .PThreadCreate, operands := [.other, .other, .function "read", .other] } turnsRead
      rfl rfl rfl (hcalls _ rfl) rfl rfl (.tail _ (.head _)) rfl
  have hjoin : Step turns turnsCompletions
      [turnsThread 0 [(⟨0, 0⟩, 1)], turnsReader [{ function := turnsRead }]]
      [turnsThread 1 [(⟨0, 0⟩, 1)], turnsReader [{ function := turnsRead }]] := by
    refine @Step.run turns turnsCompletions _ 0 (turnsThread 0 [(⟨0, 0⟩, 1)]) _ rfl
      (.move rfl (.onward (by decide)) fun place number hmem success hsuccess hcompletes => ?_)
    obtain ⟨rfl, rfl⟩ := Prod.mk.inj (List.mem_singleton.mp hmem)
    cases hsuccess
    simp [Completes] at hcompletes
  have hended : Step turns turnsCompletions
      [turnsThread 1 [(⟨0, 0⟩, 1)], turnsReader [{ function := turnsRead }]]
      [turnsThread 1 [(⟨0, 0⟩, 1)], turnsReader []] :=
    @Step.run turns turnsCompletions _ 1 (turnsReader [{ function := turnsRead }]) [] rfl .exit
  have hjoined : Step turns turnsCompletions [turnsThread 1 [(⟨0, 0⟩, 1)], turnsReader []]
      [turnsThread 2 [(⟨0, 0⟩, 1)], turnsReader []] := by
    refine @Step.run turns turnsCompletions _ 0 (turnsThread 1 [(⟨0, 0⟩, 1)]) _ rfl
      (.move rfl (.onward (by decide)) fun place number hmem _ _ _ thread hthread hrunning => ?_)
    obtain ⟨-, rfl⟩ := Prod.mk.inj (List.mem_singleton.mp hmem)
    cases hthread
    exact hrunning rfl
  have hwrite : Step turns turnsCompletions [turnsThread 2 [(⟨0, 0⟩, 1)], turnsReader []]
      [turnsThread 2 [(⟨0, 0⟩, 1), (⟨0, 2⟩, 2)], turnsReader [], turnsWriter] :=
    @Step.start turns turnsCompletions _ 0 (turnsThread 2 [(⟨0, 0⟩, 1)])
      { function := turnsMain, point := ⟨0, 2⟩, started := [(⟨0, 0⟩, 1)] } []
      { kind := .PThreadCreate, operands := [.other, .other, .function "write", .other] } turnsWrite
      rfl rfl rfl (hcalls _ rfl) rfl rfl (.tail _ (.tail _ (.head _))) rfl
  exact .tail (.tail (.tail (.tail (.single hread) hjoin) hended) hjoined) hwrite

theorem contained_threads_never_overlap_turns : ¬((turnsReader []).Running ∧ turnsWriter.Running) :=
  @contained_threads_never_overlap turns turnsCompletions turnsCovers [turnsMain] _ turns_promised turns_onward
    turns_initial turns_reached 1 2 _ _ rfl rfl rfl rfl (by decide) (by decide)

end Turns

end ConcurrencyAnalyzer.ContainedEntries
