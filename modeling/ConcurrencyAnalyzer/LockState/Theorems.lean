import ConcurrencyAnalyzer.LockState.HeldLocks

namespace ConcurrencyAnalyzer.LockState

open Program LockStatePropagator

section Runs

variable {tracker : LockScopeTracker} {module : Module}

theorem threadCounts_started {state : State} {runner : Nat} {thread : Thread} {action : Action}
    {after : Thread} (hmeets : ThreadMeets tracker module thread action)
    (hstep : ThreadStep module (state.Free runner) state.fresh thread action after) :
    ∀ started ∈ action.started state.fresh, ThreadCounts tracker module started := by
  cases hstep with
  | @start _ _ _ entry _ arguments _ _ =>
      intro started hstarted
      rw [Action.started, List.mem_singleton] at hstarted
      subst hstarted
      exact threadCounts_initial hmeets state.fresh arguments
  | _ => simp [Action.started]

theorem threadCounts_step {state after : State} {runner : Nat} {action : Action}
    (h : ∀ thread ∈ state.threads, ThreadCounts tracker module thread)
    (hmeets : Meets tracker module state runner action) (hstep : Step module state runner action after) :
    ∀ thread ∈ after.threads, ThreadCounts tracker module thread := by
  obtain ⟨hthread, hrun⟩ := hstep
  have hrunner := hmeets _ hthread
  intro thread hmem
  rcases List.mem_append.mp hmem with hset | hstarted
  · rcases List.mem_or_eq_of_mem_set hset with hother | rfl
    · exact h thread hother
    · exact (h _ (List.mem_of_getElem? hthread)).step hrunner hrun
  · exact threadCounts_started hrunner hrun thread hstarted

theorem threadCounts_reachable {main : String} {state : State}
    (hmain : ∀ lock, ¬EnteredUnder tracker module lock main)
    (h : Reachable module (Meets tracker module) main state) :
    ∀ thread ∈ state.threads, ThreadCounts tracker module thread := by
  induction h with
  | initial =>
      intro thread hthread
      rw [initialState, List.mem_singleton] at hthread
      subst hthread
      exact threadCounts_initial hmain 0 []
  | step _ hmeets hstep ih => exact threadCounts_step ih hmeets hstep

end Runs

section Accesses

variable {tracker : LockScopeTracker} {module : Module} {frame : Frame} {name : String}

-- A lock that was tried in vain is not counted where some path arrives without it.
theorem recorded_of_counted (hcounts : FrameCounts tracker module false frame)
    (hmisses : MissesCounted tracker module frame) (hname : name ∈ countedAt tracker module frame) :
    Recorded tracker frame name := by
  rcases hcounts name hname with hrecorded | ⟨operand, hoperand, hnamed⟩ | ⟨hloose, _⟩
  · exact hrecorded
  · cases hfound : module.functionWithId frame.function with
    | none =>
        rw [countedAt_outside hfound] at hname
        exact absurd hname (Finset.notMem_empty name)
    | some function =>
        obtain ⟨held, harrives, hnot⟩ := hmisses operand hoperand name hnamed function hfound
        obtain ⟨_, known, hknown, hsubset⟩ :=
          LockScopeTracker.collectHeldLocks_of_arrives harrives
        rw [countedAt, hfound, Option.bind_some, hknown, Option.getD_some] at hname
        exact absurd (hsubset hname) hnot
  · exact absurd hloose (by simp)

-- A lock held on entry is one that an activation further down took before its call.
theorem recorded_of_entryLocks {order : CalleeOrder (collectDirectCallSites module)}
    {callers : List Frame} (hlinked : Linked tracker module (frame :: callers))
    (hcounts : StackCounts tracker module false callers)
    (hmeets : ∀ caller ∈ callers, caller.gaveUp = false ∧ MissesCounted tracker module caller)
    {function : Function} (hfound : module.functionWithId frame.function = some function)
    (hname : name ∈ entryLocksByFunction tracker module order frame.function) :
    ∃ caller ∈ callers, Recorded tracker caller name := by
  induction callers generalizing frame function with
  | nil => exact absurd (enteredUnder_of_mem_entryLocks tracker module hname) (hlinked name)
  | cons caller rest ih =>
      obtain ⟨⟨operands, hcall, _⟩, hrest⟩ := hlinked
      obtain ⟨hplaced, hcaller, hcallers⟩ := hcounts
      rw [List.forall_mem_cons] at hmeets
      obtain ⟨⟨hgaveUp, hmisses⟩, hmeets⟩ := hmeets
      obtain ⟨runs, hruns, hat⟩ := functionWithId_of_instructionAt hcall
      obtain ⟨hmem, hid⟩ := Module.mem_of_functionWithId hruns
      have hcallee : function.id = frame.function := (Module.mem_of_functionWithId hfound).2
      rw [← hcallee] at hat hfound hname
      have hsite := mem_collectDirectCallSites hmem hfound (hplaced runs hruns).1 hat
      rcases mem_entryLocks_of_call hsite hname with hlocal | hentry
      · have hcounted : name ∈ countedAt tracker module caller := by
          unfold localHeldLocks at hlocal
          rwa [hid] at hlocal
        exact ⟨caller, List.mem_cons_self, recorded_of_counted hcaller hmisses hcounted⟩
      · rw [hgaveUp] at hcallers
        have hentry : name ∈ entryLocksByFunction tracker module order caller.function := by
          rwa [hid] at hentry
        obtain ⟨below, hbelow, hrecorded⟩ := ih hrest hcallers hmeets hruns hentry
        exact ⟨below, List.mem_cons_of_mem caller hbelow, hrecorded⟩

theorem ThreadCounts.holdsNamed {thread : Thread} (h : ThreadCounts tracker module thread)
    (hframe : frame ∈ thread.frames) (hrecorded : Recorded tracker frame name) :
    HoldsNamed tracker thread frame name := by
  obtain ⟨record, hrecord, hnamed⟩ := hrecorded
  exact ⟨record.operand, record.place, hnamed, h.denotes frame hframe record hrecord,
    place_held_of_backed h.backed hframe hrecord⟩

end Accesses

-- In a run whose steps meet the conditions, a thread holds every lock the analysis gives an access
-- where the thread stands.
theorem heldLocks_held (tracker : LockScopeTracker) (module : Module)
    (order : CalleeOrder (collectDirectCallSites module)) (main : String)
    (hmain : ∀ lock, ¬EnteredUnder tracker module lock main) (state : State)
    (hreachable : Reachable module (Meets tracker module) main state) (thread : Thread)
    (hthread : thread ∈ state.threads) (frame : Frame) (callers : List Frame)
    (hframes : thread.frames = frame :: callers) (function : Function)
    (hfunction : module.functionWithId frame.function = some function)
    (hmeets : AccessMeets tracker module thread) :
    ∀ name ∈ heldLocksOfAccess tracker module order function frame.block frame.index,
      HoldsLock tracker thread frame callers name := by
  have hcounts := threadCounts_reachable hmain hreachable thread hthread
  have hstack := hcounts.counts
  have hlinked := hcounts.linked
  have htop : frame ∈ thread.frames := hframes ▸ List.mem_cons_self
  rw [hframes] at hstack hlinked
  obtain ⟨_, hframe, hcallers⟩ := hstack
  obtain ⟨hgaveUp, hmisses⟩ := hmeets frame htop
  rw [hgaveUp] at hcallers
  have hid : function.id = frame.function := (Module.mem_of_functionWithId hfunction).2
  intro name hname
  rcases Finset.mem_union.mp hname with hlocal | hentry
  · refine .inl (hcounts.holdsNamed htop (recorded_of_counted hframe hmisses ?_))
    rwa [countedAt, hfunction, Option.bind_some]
  · rw [hid] at hentry
    have hbelow : ∀ caller ∈ callers, caller ∈ thread.frames := fun caller hcaller =>
      hframes ▸ List.mem_cons_of_mem frame hcaller
    obtain ⟨caller, hcaller, hrecorded⟩ := recorded_of_entryLocks hlinked hcallers
      (fun caller hcaller => hmeets caller (hbelow caller hcaller)) hfunction hentry
    obtain ⟨_, hnamed, _⟩ := enteredUnder_of_mem_entryLocks tracker module hentry
    exact .inr ⟨hnamed, caller, hcaller, hcounts.holdsNamed (hbelow caller hcaller) hrecorded⟩

def accessingWorker : Function where
  id := "worker"
  blocks := [{ instructions := [.access], returns := true }]

-- `main` calls `worker` under `g`.
def guardedCall : Module where
  functions :=
    [{ id := "main"
       blocks :=
        [{ instructions :=
            [.lock .pthread_mutex_lock (.global "g") false, .call "worker" [],
              .lock .pthread_mutex_unlock (.global "g") false]
           returns := true }] },
     accessingWorker]

theorem guardedCall_main_entered (lock : String) : ¬EnteredUnder {} guardedCall lock "main" := by
  have huncalled : incomingCalls (collectDirectCallSites guardedCall) "main" = [] := by decide +kernel
  rintro ⟨hcalled, _, _⟩
  exact hcalled huncalled

def lockedMain : Frame where
  function := "main"
  activation := 0
  arguments := []
  index := 1
  taken := [⟨.global "g", ⟨.global "g", 0⟩⟩]

def calledWorker : Frame where
  function := "worker"
  activation := 2
  arguments := []
  index := 0

def calledUnderG : State where
  threads := [⟨[calledWorker, lockedMain], [⟨⟨.global "g", 0⟩, .exclusive⟩]⟩]
  fresh := 3

-- `main` takes `g`, then enters `worker`.
theorem guardedCall_reaches : Reachable guardedCall (Meets {} guardedCall) "main" calledUnderG := by
  have hfree : ∀ place ∈ [(⟨.global "g", 0⟩ : Place)],
      (initialState "main").Free 0 place LockFunction.pthread_mutex_lock.mode := by
    intro place _ number thread hnumber hthread
    have hlt := (List.getElem?_eq_some_iff.mp hthread).1
    simp only [initialState, List.length_singleton] at hlt
    omega
  have hoperand : List.Forall₂ (Frame.Denotes { function := "main", activation := 0, arguments := [] })
      [.global "g"] [⟨.global "g", 0⟩] := .cons rfl .nil
  have htake : ThreadStep guardedCall ((initialState "main").Free 0) 1
      (initialThread "main" 0 []) .take ⟨[lockedMain], [⟨⟨.global "g", 0⟩, .exclusive⟩]⟩ :=
    .take rfl rfl hoperand hfree
  have hlocked : Step guardedCall (initialState "main") 0 .take
      ⟨[⟨[lockedMain], [⟨⟨.global "g", 0⟩, .exclusive⟩]⟩], 2⟩ := .run rfl htake
  have hcalled : Step guardedCall ⟨[⟨[lockedMain], [⟨⟨.global "g", 0⟩, .exclusive⟩]⟩], 2⟩ 0 .enter
      calledUnderG := .run rfl (.enter rfl .nil)
  have hmeets (state : State) (action : Action) (haction : action = .take ∨ action = .enter) :
      Meets {} guardedCall state 0 action := by
    rcases haction with rfl | rfl <;> exact fun _ _ => trivial
  exact .step (.step .initial (hmeets _ _ (.inl rfl)) hlocked) (hmeets _ _ (.inr rfl)) hcalled

theorem called_worker_holds_g :
    "g" ∈ heldLocksOfAccess {} guardedCall (.ofSites _) accessingWorker 0 0 ∧
      HoldsLock {} ⟨[calledWorker, lockedMain], [⟨⟨.global "g", 0⟩, .exclusive⟩]⟩ calledWorker
        [lockedMain] "g" := by
  have hheld : "g" ∈ heldLocksOfAccess {} guardedCall (.ofSites _) accessingWorker 0 0 := by
    decide +kernel
  refine ⟨hheld, heldLocks_held {} guardedCall (.ofSites _) "main" guardedCall_main_entered _
    guardedCall_reaches _ List.mem_cons_self _ _ rfl accessingWorker rfl ?_ "g" hheld⟩
  intro frame hframe
  have hmissed : frame.gaveUp = false ∧ frame.missed = [] := by
    simp only [List.mem_cons, List.not_mem_nil, or_false] at hframe
    rcases hframe with rfl | rfl <;> exact ⟨rfl, rfl⟩
  refine ⟨hmissed.1, ?_⟩
  rw [MissesCounted, hmissed.2]
  simp

-- `main` also starts a thread on `worker`.
def guardedCallAndStart : Module where
  functions :=
    [{ id := "main"
       blocks :=
        [{ instructions :=
            [.spawn "worker" [], .lock .pthread_mutex_lock (.global "g") false, .call "worker" [],
              .lock .pthread_mutex_unlock (.global "g") false]
           returns := true }] },
     accessingWorker]

-- The call is the only one the analysis knows of, so the access counts as made under `g` by the thread
-- too, which starts without a lock.
theorem started_worker_holds_nothing :
    ∃ state, Reachable guardedCallAndStart (fun _ _ _ => True) "main" state ∧
      ∃ thread ∈ state.threads, ∃ frame callers, thread.frames = frame :: callers ∧
        guardedCallAndStart.instructionAt frame = some .access ∧
        "g" ∈ heldLocksOfAccess {} guardedCallAndStart (.ofSites _) accessingWorker frame.block
          frame.index ∧
        thread.held = [] ∧ ¬HoldsLock {} thread frame callers "g" := by
  have hstart : ThreadStep guardedCallAndStart ((initialState "main").Free 0) 1
      (initialThread "main" 0 []) (.start "worker" [])
      ⟨[{ function := "main", activation := 0, arguments := [], index := 1 }], []⟩ :=
    .start rfl .nil
  have hstarted : Reachable guardedCallAndStart (fun _ _ _ => True) "main"
      ⟨[⟨[{ function := "main", activation := 0, arguments := [], index := 1 }], []⟩,
        initialThread "worker" 1 []], 2⟩ :=
    .step .initial trivial (.run rfl hstart)
  have hheld : "g" ∈ heldLocksOfAccess {} guardedCallAndStart (.ofSites _) accessingWorker 0 0 := by
    decide +kernel
  refine ⟨_, hstarted, initialThread "worker" 1 [], List.mem_cons_of_mem _ List.mem_cons_self, _, _,
    rfl, rfl, hheld, rfl, ?_⟩
  simp [HoldsLock, HoldsNamed, initialThread]

end ConcurrencyAnalyzer.LockState
