import ConcurrencyAnalyzer.DataRace.Conflicts
import ConcurrencyAnalyzer.LockState.HeldLocks
import ConcurrencyAnalyzer.LockState.LockNames

namespace ConcurrencyAnalyzer.LockState

open Program DataRace

section Held

variable {module : Module} {Meets : State → Nat → Action → Prop} {state after : State}

-- What a step adds to the locks of a thread was free.
theorem held_of_step {free : Place → LockMode → Prop} {fresh : Nat} {thread moved : Thread}
    {action : Action} (h : ThreadStep module free fresh thread action moved) {lock : HeldLock}
    (hlock : lock ∈ moved.held) : lock ∈ thread.held ∨ free lock.place lock.mode := by
  cases h with
  | take hinstruction htakes hplaces hfree =>
      rcases List.mem_append.mp hlock with htaken | hheld
      · obtain ⟨place, hplace, rfl⟩ := List.mem_map.mp htaken
        exact Or.inr (hfree place hplace)
      · exact Or.inl hheld
  | outsideTake houtside hfree =>
      rcases List.mem_cons.mp hlock with rfl | hheld
      · exact Or.inr hfree
      · exact Or.inl hheld
  | release hinstruction hrelease hheld hbacked =>
      exact Or.inl (hheld.mem_iff.mpr (List.mem_append_right _ hlock))
  | outsideRelease houtside hheld hbacked =>
      exact Or.inl (hheld.mem_iff.mpr (List.mem_append_right _ hlock))
  | _ => exact Or.inl hlock

theorem held_started {action : Action} {fresh : Nat} {thread : Thread}
    (h : thread ∈ action.started fresh) : thread.held = [] := by
  cases action with
  | start entry arguments =>
      rw [Action.started, List.mem_singleton] at h
      rw [h]
      rfl
  | _ => cases h

-- A lock that two threads hold is one they hold shared.
def Excludes (state : State) : Prop :=
  ∀ (first second : Nat) (lhs rhs : Thread), first ≠ second → state.threads[first]? = some lhs →
    state.threads[second]? = some rhs → ∀ lock ∈ lhs.held, ∀ other ∈ rhs.held,
      lock.place = other.place → lock.mode = .shared ∧ other.mode = .shared

-- Each lock after a step is one the thread had before it, or was free for the thread that ran.
theorem held_after {runner : Nat} {action : Action} (h : Step module state runner action after)
    {number : Nat} {thread : Thread} (hthread : after.threads[number]? = some thread)
    {lock : HeldLock} (hlock : lock ∈ thread.held) :
    (∃ before, state.threads[number]? = some before ∧ lock ∈ before.held) ∨
      number = runner ∧ state.Free runner lock.place lock.mode := by
  cases h with
  | run hrunner hstep =>
      rcases Nat.lt_or_ge number (state.threads.set runner _).length with hlt | hge
      · rw [List.getElem?_append_left hlt, List.getElem?_set] at hthread
        split at hthread
        · rename_i heq
          subst heq
          split at hthread
          · cases hthread
            rcases held_of_step hstep hlock with hbefore | hfree
            · exact Or.inl ⟨_, hrunner, hbefore⟩
            · exact Or.inr ⟨rfl, hfree⟩
          · cases hthread
        · exact Or.inl ⟨thread, hthread, hlock⟩
      · rw [List.getElem?_append_right hge] at hthread
        rw [held_started (List.mem_of_getElem? hthread)] at hlock
        cases hlock

theorem excludes_step {runner : Nat} {action : Action} (h : Excludes state)
    (hstep : Step module state runner action after) : Excludes after := by
  intro first second lhs rhs hne hlhs hrhs lock hlock other hother hplace
  rcases held_after hstep hlhs hlock with ⟨lhs', hlhs', hlock'⟩ | ⟨rfl, hfree⟩
  · rcases held_after hstep hrhs hother with ⟨rhs', hrhs', hother'⟩ | ⟨rfl, hfree⟩
    · exact h first second lhs' rhs' hne hlhs' hrhs' lock hlock' other hother' hplace
    · exact (hfree first lhs' hne hlhs' lock hlock' hplace).symm
  · rcases held_after hstep hrhs hother with ⟨rhs', hrhs', hother'⟩ | ⟨heq, -⟩
    · exact hfree second rhs' (Ne.symm hne) hrhs' other hother' hplace.symm
    · exact absurd heq.symm hne

theorem excludes_reachable {main : String} (h : Reachable module Meets main state) :
    Excludes state := by
  induction h with
  | initial =>
      intro first second lhs rhs hne hlhs hrhs
      have hfirst := (List.getElem?_eq_some_iff.mp hlhs).1
      have hsecond := (List.getElem?_eq_some_iff.mp hrhs).1
      simp only [initialState, List.length_singleton] at hfirst hsecond
      omega
  | step _ _ hstep ih => exact excludes_step ih hstep

end Held

section Accesses

variable (tracker : LockScopeTracker) (module : Module)

-- The thread makes the access, and the lock set of the access describes locks the thread holds. None
-- of its names is left to a parameter.
structure InProgress (thread : Thread) (access : AccessFact) : Prop where
  accessing : ∃ frame callers, thread.frames = frame :: callers ∧
    module.instructionAt frame = some .access
  held : ∃ frames, frames <:+ thread.frames ∧ ∀ lockId ∈ access.heldLocks,
    parameterLockPlace lockId = none ∧ ∃ lock ∈ thread.held,
      int64 lock.place.offset = lock.place.offset ∧
      Describes tracker module thread.frames frames lockId lock.place

-- The name says where in its storage the lock is.
def KnownPlace (lockId : String) : Prop :=
  ∀ symbol, lockId ≠ symbol ++ offsetText none

-- The storage of the name starts at one place for both threads.
def OneStorage (lhs rhs : Thread) (lockId : String) : Prop :=
  ∀ symbol offset, lockId = symbol ++ offsetText (some offset) →
    ∀ base other, Stands tracker module lhs.frames symbol base →
      Stands tracker module rhs.frames symbol other →
      base.object = other.object ∧ int64 base.offset = int64 other.offset

variable {tracker module}

theorem place_eq_of_describes (hobjects : PlainObjects tracker) {lhs rhs : Thread} {lockId : String}
    (hknown : KnownPlace lockId) (hstorage : OneStorage tracker module lhs rhs lockId)
    (hname : parameterLockPlace lockId = none) {frames others : List Frame} {place other : Place}
    (hframes : frames <:+ lhs.frames) (hothers : others <:+ rhs.frames)
    (hplace : int64 place.offset = place.offset) (hother : int64 other.offset = other.offset)
    (hlhs : Describes tracker module lhs.frames frames lockId place)
    (hrhs : Describes tracker module rhs.frames others lockId other) : place = other := by
  have hread : ∀ {stack frames : List Frame} {place : Place},
      Reads tracker module stack frames lockId place →
      ∃ symbol offset, lockId = symbol ++ offsetText (some offset) ∧ PlainName symbol ∧
        int64 offset = offset ∧ ∃ base, Stands tracker module stack symbol base ∧
          LiesAt base offset place := by
    intro stack frames place h
    cases h with
    | @storage frames symbol offset place hplain hrange hplace =>
        cases offset with
        | none => exact absurd rfl (hknown symbol)
        | some offset => exact ⟨symbol, offset, rfl, hplain, hrange offset rfl, hplace offset rfl⟩
    | parameter hindex hrange hplace =>
        rw [parameterLockPlace_parameter hindex hrange] at hname
        cases hname
  obtain ⟨symbol, offset, hid, hplain, hrange, base, hbase, hlies⟩ :=
    hread (reads_of_describes hobjects hlhs hframes)
  obtain ⟨symbol', offset', hid', hplain', hrange', base', hbase', hlies'⟩ :=
    hread (reads_of_describes hobjects hrhs hothers)
  obtain ⟨rfl, rfl⟩ := lockName_injective hplain hplain' hrange hrange' (hid.symm.trans hid')
  obtain ⟨hobject, hstart⟩ := hstorage symbol offset hid base base' hbase hbase'
  have hoffset : place.offset = other.offset := by
    calc place.offset = int64 (base.offset + offset) := hplace.symm.trans hlies.offset
      _ = int64 (int64 base.offset + offset) := (int64_add _ _).symm
      _ = int64 (int64 base'.offset + offset) := by rw [hstart]
      _ = int64 (base'.offset + offset) := int64_add _ _
      _ = other.offset := hlies'.offset.symm.trans hother
  have hsame : place.object = other.object := by
    rw [hlies.object, hobject, hlies'.object]
  cases place
  cases other
  simp only [Place.mk.injEq]
  exact ⟨hsame, hoffset⟩

end Accesses

-- Two accesses in progress that share a name, known and of one storage, share a lock, and neither
-- thread has it to itself.
theorem common_lock_held_shared (tracker : LockScopeTracker) (hobjects : PlainObjects tracker)
    (module : Module) (main : String) (state : State)
    (hreachable : Reachable module (fun _ _ _ => True) main state) (first second : Nat)
    (hne : first ≠ second) (lhsThread rhsThread : Thread)
    (hfirst : state.threads[first]? = some lhsThread)
    (hsecond : state.threads[second]? = some rhsThread) (lhs rhs : AccessFact)
    (hlhs : InProgress tracker module lhsThread lhs) (hrhs : InProgress tracker module rhsThread rhs)
    (hshare : shareRecognizedLock lhs rhs = true)
    (hnames : ∀ lockId ∈ lhs.heldLocks, lockId ∈ rhs.heldLocks →
      KnownPlace lockId ∧ OneStorage tracker module lhsThread rhsThread lockId) :
    ∃ place ∈ lhsThread.held.map (·.place), place ∈ rhsThread.held.map (·.place) ∧
      ∀ lock ∈ lhsThread.held ++ rhsThread.held, lock.place = place → lock.mode = .shared := by
  obtain ⟨lockId, hleft, hright⟩ := shareRecognizedLock_iff.mp hshare
  obtain ⟨hknown, hstorage⟩ := hnames lockId hleft hright
  obtain ⟨frames, hframes, hheld⟩ := hlhs.held
  obtain ⟨others, hothers, hheld'⟩ := hrhs.held
  obtain ⟨hname, lock, hlock, hoffset, hdescribes⟩ := hheld lockId hleft
  obtain ⟨-, other, hother, hoffset', hdescribes'⟩ := hheld' lockId hright
  have hplace : lock.place = other.place := place_eq_of_describes hobjects hknown hstorage hname hframes
    hothers hoffset hoffset' hdescribes hdescribes'
  have hexcludes := excludes_reachable hreachable first second lhsThread rhsThread hne hfirst hsecond
  refine ⟨lock.place, List.mem_map_of_mem hlock, hplace ▸ List.mem_map_of_mem hother, ?_⟩
  intro held hmem hat
  rcases List.mem_append.mp hmem with hleftHeld | hrightHeld
  · exact (hexcludes held hleftHeld other hother (hat.trans hplace)).1
  · exact (hexcludes lock hlock held hrightHeld hat.symm).2

section Programs

-- `main` starts two threads on `worker`, which takes a lock for an access.
def twoWorkers (function : LockFunction) (operand : Pointer) (rest : List Instruction) : Module where
  functions :=
    [{ id := "main"
       blocks := [{ instructions := [.spawn "worker" [], .spawn "worker" []], returns := true }] },
     { id := "worker"
       blocks := [{ instructions := .lock function operand false :: .access :: rest, returns := true }]
       entryExists := Nat.one_pos
       successorsExist := by simp }]
  idsDistinct := by simp

def mainAt (index : Nat) : Thread where
  frames := [{ function := "main", activation := 0, arguments := [], index := index }]

def startedWorker (activation : Nat) : Frame where
  function := "worker"
  activation := activation
  arguments := []

def lockedWorker (activation : Nat) (operand : Pointer) (lock : HeldLock) : Thread where
  frames := [{ startedWorker activation with index := 1, taken := [⟨operand, lock.place⟩] }]
  held := [lock]

variable {function : LockFunction} {operand : Pointer} {rest : List Instruction} {place other : Place}

theorem worker_takes (hrole : function.role = .take) {activation : Nat}
    (hplace : (startedWorker activation).Denotes operand place) {free : Place → LockMode → Prop}
    (hfree : free place function.mode) (fresh : Nat) :
    ThreadStep (twoWorkers function operand rest) free fresh ⟨[startedWorker activation], []⟩ .take
      (lockedWorker activation operand ⟨place, function.mode⟩) := by
  have htakes : (Instruction.lock function operand false).takes = some ([operand], function.mode) := by
    simp [Instruction.takes, hrole]
  exact .take rfl htakes (.cons hplace .nil) (by simpa using hfree)

theorem twoWorkers_reaches (hrole : function.role = .take)
    (hplace : (startedWorker 1).Denotes operand place) (hother : (startedWorker 2).Denotes operand other)
    (hfree : place = other → function.mode = .shared) :
    Reachable (twoWorkers function operand rest) (fun _ _ _ => True) "main"
      ⟨[mainAt 2, lockedWorker 1 operand ⟨place, function.mode⟩,
        lockedWorker 2 operand ⟨other, function.mode⟩], 5⟩ := by
  set module := twoWorkers function operand rest
  have hfirst : Step module (initialState "main") 0 (.start "worker" [])
      ⟨[mainAt 1, initialThread "worker" 1 []], 2⟩ := .run rfl (.start rfl .nil)
  have hsecond : Step module ⟨[mainAt 1, initialThread "worker" 1 []], 2⟩ 0 (.start "worker" [])
      ⟨[mainAt 2, initialThread "worker" 1 [], initialThread "worker" 2 []], 3⟩ :=
    .run rfl (.start rfl .nil)
  -- Nobody holds a lock yet.
  have hplaceFree : State.Free ⟨[mainAt 2, initialThread "worker" 1 [], initialThread "worker" 2 []], 3⟩
      1 place function.mode := by
    intro number thread _ hthread lock hlock
    have hmem := List.mem_of_getElem? hthread
    simp only [List.mem_cons, List.not_mem_nil, or_false] at hmem
    rcases hmem with rfl | rfl | rfl <;> cases hlock
  have hthird : Step module ⟨[mainAt 2, initialThread "worker" 1 [], initialThread "worker" 2 []], 3⟩ 1
      .take ⟨[mainAt 2, lockedWorker 1 operand ⟨place, function.mode⟩, initialThread "worker" 2 []], 4⟩ :=
    .run rfl (worker_takes hrole hplace hplaceFree 3)
  have hotherFree : State.Free
      ⟨[mainAt 2, lockedWorker 1 operand ⟨place, function.mode⟩, initialThread "worker" 2 []], 4⟩
      2 other function.mode := by
    intro number thread _ hthread lock hlock hat
    have hmem := List.mem_of_getElem? hthread
    simp only [List.mem_cons, List.not_mem_nil, or_false] at hmem
    rcases hmem with rfl | rfl | rfl
    · cases hlock
    · rw [lockedWorker, List.mem_singleton] at hlock
      subst hlock
      exact ⟨hfree hat, hfree hat⟩
    · cases hlock
  have hfourth : Step module
      ⟨[mainAt 2, lockedWorker 1 operand ⟨place, function.mode⟩, initialThread "worker" 2 []], 4⟩ 2
      .take ⟨[mainAt 2, lockedWorker 1 operand ⟨place, function.mode⟩,
        lockedWorker 2 operand ⟨other, function.mode⟩], 5⟩ :=
    .run rfl (worker_takes hrole hother hotherFree 4)
  exact .step (.step (.step (.step .initial trivial hfirst) trivial hsecond) trivial hthird) trivial
    hfourth

theorem lockedWorker_inProgress {tracker : LockScopeTracker} {activation : Nat} {lockId : String}
    (hcompiled : ∀ frame, Compiled frame operand)
    (hname : nameIn tracker (startedWorker activation) operand = some lockId)
    (hparameter : parameterLockPlace lockId = none) {mode : LockMode}
    (hplace : (startedWorker activation).Denotes operand place)
    (hoffset : int64 place.offset = place.offset) {access : AccessFact}
    (haccess : access.heldLocks = {lockId}) :
    InProgress tracker (twoWorkers function operand rest)
      (lockedWorker activation operand ⟨place, mode⟩) access := by
  refine ⟨⟨_, _, rfl, rfl⟩, _, List.suffix_rfl, fun name hmem => ?_⟩
  rw [haccess, Finset.mem_singleton] at hmem
  subst hmem
  exact ⟨hparameter, ⟨place, mode⟩, List.mem_singleton_self _, hoffset,
    .named (hcompiled _) hname (denotes_congr hplace rfl rfl)⟩

-- Two accesses that share a name, one of them a write, are in progress at once.
def BothInProgress (tracker : LockScopeTracker) (module : Module) : Prop :=
  ∃ state, Reachable module (fun _ _ _ => True) "main" state ∧
    ∃ (first second : Nat) (lhsThread rhsThread : Thread) (lhs rhs : AccessFact), first ≠ second ∧
      state.threads[first]? = some lhsThread ∧ state.threads[second]? = some rhsThread ∧
      InProgress tracker module lhsThread lhs ∧ InProgress tracker module rhsThread rhs ∧
      isWrite lhs = true ∧ shareRecognizedLock lhs rhs = true

theorem twoWorkers_bothInProgress {tracker : LockScopeTracker} {lockId : String}
    (hrole : function.role = .take) (hcompiled : ∀ frame, Compiled frame operand)
    (hname : ∀ activation, nameIn tracker (startedWorker activation) operand = some lockId)
    (hparameter : parameterLockPlace lockId = none)
    (hplace : (startedWorker 1).Denotes operand place) (hother : (startedWorker 2).Denotes operand other)
    (hoffset : int64 place.offset = place.offset) (hotherOffset : int64 other.offset = other.offset)
    (hfree : place = other → function.mode = .shared) :
    BothInProgress tracker (twoWorkers function operand rest) := by
  refine ⟨_, twoWorkers_reaches hrole hplace hother hfree, 1, 2, _, _,
    { kind := .Write, heldLocks := {lockId} }, { kind := .Write, heldLocks := {lockId} }, by decide, rfl,
    rfl, lockedWorker_inProgress hcompiled (hname 1) hparameter hplace hoffset rfl,
    lockedWorker_inProgress hcompiled (hname 2) hparameter hother hotherOffset rfl, rfl, ?_⟩
  exact shareRecognizedLock_iff.mpr ⟨lockId, Finset.mem_singleton_self _, Finset.mem_singleton_self _⟩

theorem identifier_m : Identifier "m" := by
  constructor
  · intro c hc
    have heq : c = 'm' := by simpa using hc
    subst heq
    decide
  · decide

def readers : Module := twoWorkers .pthread_rwlock_rdlock (.global "m") []

-- The worker picks an element of an array of locks.
def slotLocks : Module := twoWorkers .pthread_mutex_lock (.gep (.global "m") [some 0, none] 0) []

-- The worker takes a lock of its own, which it hands to a thread it starts later.
def ownLocks : Module :=
  twoWorkers .pthread_mutex_lock (.alloca "m") [.spawn "helper" [.alloca "m"]]

def ownLocksTracker : LockScopeTracker where
  sharedObjects := [("helper", { object := RootBinding.global "object:stack:worker:m" {}, kind := .Local })]

-- Two readers, two elements of an array and the locals of two activations each share a name.
theorem shared_name_does_not_exclude :
    BothInProgress {} readers ∧ BothInProgress {} slotLocks ∧ BothInProgress ownLocksTracker ownLocks := by
  have hreader (activation : Nat) :
      (startedWorker activation).Denotes (.global "m") ⟨.global "m", 0⟩ := rfl
  have hslot (activation : Nat) (offset : Int) :
      (startedWorker activation).Denotes (.gep (.global "m") [some 0, none] 0) ⟨.global "m", offset⟩ :=
    rfl
  have hown (activation : Nat) :
      (startedWorker activation).Denotes (.alloca "m") ⟨.stack activation "m", 0⟩ := rfl
  have hownName (activation : Nat) : nameIn ownLocksTracker (startedWorker activation) (.alloca "m") =
      some "object:stack:worker:m" := by
    change nameIn ownLocksTracker (startedWorker 0) (.alloca "m") = _
    decide +kernel
  refine ⟨?_, ?_, ?_⟩
  · exact twoWorkers_bothInProgress rfl (fun _ => identifier_m) (fun _ => rfl) (by decide) (hreader 1)
      (hreader 2) rfl rfl fun _ => rfl
  · exact twoWorkers_bothInProgress rfl (fun _ => identifier_m) (fun _ => rfl) (by decide) (hslot 1 0)
      (hslot 2 40) rfl rfl fun h => by cases h
  · exact twoWorkers_bothInProgress rfl (fun _ => trivial) hownName (by decide) (hown 1) (hown 2) rfl
      rfl fun h => by cases h

theorem stands_of_no_objects {module : Module} {stack : List Frame} {symbol : String} {base : Place}
    (h : Stands {} module stack symbol base) : base = ⟨.global symbol, 0⟩ := by
  cases h with
  | global => rfl
  | localObject _ _ hobject => cases hobject
  | bound _ hbinding => cases hbinding
  | read _ _ _ _ hobject => cases hobject

theorem readers_hold_shared :
    ∃ place ∈ [(⟨⟨.global "m", 0⟩, .shared⟩ : HeldLock)].map (·.place),
      place ∈ [(⟨⟨.global "m", 0⟩, .shared⟩ : HeldLock)].map (·.place) ∧
      ∀ lock ∈ [(⟨⟨.global "m", 0⟩, .shared⟩ : HeldLock)] ++ [⟨⟨.global "m", 0⟩, .shared⟩],
        lock.place = place → lock.mode = .shared := by
  let access : AccessFact := { kind := .Write, heldLocks := {"m"} }
  have hreader (activation : Nat) :
      (startedWorker activation).Denotes (.global "m") ⟨.global "m", 0⟩ := rfl
  have hreaches : Reachable readers (fun _ _ _ => True) "main"
      ⟨[mainAt 2, lockedWorker 1 (.global "m") ⟨⟨.global "m", 0⟩, .shared⟩,
        lockedWorker 2 (.global "m") ⟨⟨.global "m", 0⟩, .shared⟩], 5⟩ :=
    twoWorkers_reaches rfl (hreader 1) (hreader 2) fun _ => rfl
  have hcompiled (frame : Frame) : Compiled frame (.global "m") := identifier_m
  have hprogress (activation : Nat) : InProgress {} readers
      (lockedWorker activation (.global "m") ⟨⟨.global "m", 0⟩, .shared⟩) access :=
    lockedWorker_inProgress hcompiled rfl (by decide) (hreader activation) rfl rfl
  refine common_lock_held_shared {} (by intro entry h; cases h) readers "main" _ hreaches 1 2 (by decide)
    _ _ rfl rfl access access (hprogress 1) (hprogress 2) ?_ ?_
  · exact shareRecognizedLock_iff.mpr ⟨"m", Finset.mem_singleton_self _, Finset.mem_singleton_self _⟩
  · intro lockId hlockId _
    rw [Finset.mem_singleton] at hlockId
    subst hlockId
    constructor
    · intro symbol h
      have hlength := congrArg (fun name => name.toList.length) h
      simp [offsetText] at hlength
    · intro symbol offset _ base other hbase hother
      rw [stands_of_no_objects hbase, stands_of_no_objects hother]
      exact ⟨rfl, rfl⟩

end Programs

end ConcurrencyAnalyzer.LockState
