import ConcurrencyAnalyzer.AtomicOrdering.Folding

namespace ConcurrencyAnalyzer.AtomicOrdering

open Program

-- `initializer` is the integer a definitive initializer starts with.
structure Global where
  name : String
  localLinkage : Bool := false
  initializer : Option APInt := none
  deriving DecidableEq

structure Module where
  identifier : String := ""
  functions : List Function
  globals : List Global
  idsDistinct : (functions.map (·.id)).Nodup := by decide

def Module.functionWithId (module : Module) (id : String) : Option Function :=
  module.functions.find? (·.id = id)

def Module.globalWithName (module : Module) (name : String) : Option Global :=
  module.globals.find? (·.name = name)

namespace Function

variable (function : Function)

def successors (block : Nat) : List Nat := function.cfg.successors block

-- Where control goes on once every switch on a constant is resolved.
def liveSuccessors (block : Nat) : List Nat :=
  match function.blocks[block]? with
  | none => []
  | some found =>
      match found.terminator with
      | .switch condition cases defaultDest =>
          match ({ function := function } : ConstantFolder).takenSuccessor
              (.switch condition cases defaultDest) with
          | some taken => [taken]
          | none => found.terminator.successors
      | terminator => terminator.successors

def liveBlocks : Finset Nat :=
  Library.Search.reached function.liveSuccessors function.blocks.length

-- Where paths through live blocks go on that stop at a block.
def liveSuccessorsPast (stop block : Nat) : List Nat :=
  if block = stop ∨ block ∉ function.liveBlocks then [] else function.successors block

-- Whether every path through live blocks to `later` passes `earlier` first.
def liveDominates (earlier later : Site) : Bool :=
  if earlier.1 = later.1 then earlier.2 ≤ later.2
  else if earlier.1 ∉ function.liveBlocks then false
  else
    !(later.1 ∈ Library.Search.reached (function.liveSuccessorsPast earlier.1) function.blocks.length ∧
      later.1 ∈ function.liveBlocks)

-- Whether a block is in a natural loop: that of a latch whose header dominates it.
def getLoopFor (block : Nat) : Bool :=
  (List.range function.blocks.length).any fun header =>
    (List.range function.blocks.length).any fun latch =>
      header ∈ function.successors latch && latch ∈ function.cfg.reachable &&
        function.cfg.blockDominates header latch && block ∈ function.cfg.reachable &&
        (block = header || block = latch ||
          latch ∈ Library.Search.search (function.cfg.successorsPast header) (fun _ => true)
            (function.blocks.length + 1) ∅ [block])

def liveSites : List (Site × Instruction) :=
  function.sites.filter fun found => found.1.1 ∈ function.liveBlocks

end Function

inductive AtomicOperationKind where
  | Load
  | Store
  | ReadModifyWrite
  | Fence
  deriving DecidableEq, Repr

structure AtomicOperation where
  kind : AtomicOperationKind := .Load
  order : Option MemoryOrder := none
  object : Option Pointer := none
  storedValue : Option Value := none
  deriving DecidableEq

def operationOf : Instruction → Option AtomicOperation
  | .atomicLoad object order _ => some { kind := .Load, order := order, object := some object }
  | .atomicStore object order value =>
      some { kind := .Store, order := order, object := some object, storedValue := some value }
  | .readModifyWrite object order =>
      some { kind := .ReadModifyWrite, order := order, object := some object }
  | .fence order => some { kind := .Fence, order := order }
  | _ => none

-- Takes no note of where in the global the pointer goes.
def resolveBaseGlobal (value : Pointer) : Option String :=
  match LockState.resolveCopiedValue false {} value with
  | some (.global name, _) => some name
  | _ => none

structure FlagAccess where
  site : Site
  function : Function
  operation : AtomicOperation
  object : String

structure Fence where
  site : Site
  order : MemoryOrder
  deriving DecidableEq

structure Publication where
  store : FlagAccess
  published : APInt
  releasePoints : List Site

-- An access the analysis follows: the function it is in and its place there.
abbrev TrackedAccess := String × Site

def Function.operationsIn (function : Function) : List FlagAccess :=
  function.liveSites.filterMap fun found =>
    (operationOf found.2).bind fun operation =>
      operation.object.bind fun object =>
        (resolveBaseGlobal object).map fun name => ⟨found.1, function, operation, name⟩

def Function.fencesFor (function : Function) : List Fence :=
  function.liveSites.filterMap fun found =>
    match found.2 with
    | .fence (some order) => some ⟨found.1, order⟩
    | _ => none

-- The arms taken when the load returned the published constant.
def FlagAccess.observedArms (load : FlagAccess) (published : APInt) : List (Nat × Nat) :=
  let folder : ConstantFolder :=
    { function := load.function
      live := some load.function.liveBlocks
      substituted := some (load.site, published) }
  (List.range load.function.blocks.length).filterMap fun block =>
    if block ∈ load.function.liveBlocks then
      load.function.blocks[block]?.bind fun found =>
        (folder.takenSuccessor found.terminator).bind fun taken =>
          if folder.usesSubstitution found.terminator then some (block, taken) else none
    else none

def Function.observesAfterFence (function : Function) (arm : Nat × Nat) (access : Site) : Bool :=
  function.fencesFor.any fun fence =>
    acquiresAtLeast fence.order && function.cfg.edgeDominates arm.1 arm.2 fence.site.1 &&
      function.liveDominates fence.site access

structure PublicationOrdering where
  beforeRelease : Finset String := ∅
  afterAcquire : Finset String := ∅

def kFoldWidth : Nat := 64

structure PublicationFinder where
  module : Module
  directCallees : List String
  spawns : List SpawnFact
  accesses : List TrackedAccess
  projectAnalysis : Bool := false

namespace PublicationFinder

variable (finder : PublicationFinder)

-- A flag private to the unit does not meet a namesake from another one.
def flagKey (object : Pointer) : Option String :=
  (resolveBaseGlobal object).bind fun name =>
    (finder.module.globalWithName name).bind fun global =>
      if finder.projectAnalysis && !global.localLinkage then none
      else if global.localLinkage then some (finder.module.identifier ++ "#" ++ name)
      else some name

def keyOf (access : FlagAccess) : Option String :=
  access.operation.object.bind finder.flagKey

def operationsOn (flag : String) : List FlagAccess :=
  (finder.module.functions.flatMap (·.operationsIn)).filter fun access =>
    finder.keyOf access = some flag

def stores (flag : String) : List FlagAccess :=
  (finder.operationsOn flag).filter fun access => access.operation.kind ≠ .Load

def loads (flag : String) : List FlagAccess :=
  (finder.operationsOn flag).filter fun access => access.operation.kind = .Load

-- A plain store to a flag means the flag is written behind the protocol.
def plainlyStored (flag : String) : Bool :=
  finder.module.functions.any fun function => function.liveSites.any fun found =>
    match found.2 with
    | .store target _ => finder.flagKey target = some flag
    | _ => false

def accessesIn (function : Function) : List Site :=
  (finder.accesses.filter fun access => access.1 = function.id).map (·.2)

def runsAtMostOnce (function : Function) : Bool :=
  function.id ∉ finder.directCallees &&
    (finder.spawns.filter fun spawn => spawn.entryFunctionId = function.id).length = 1 &&
    (finder.spawns.filter fun spawn => spawn.entryFunctionId = function.id).all fun spawn =>
      !spawn.insideLoop && spawn.location.function = "main"

def initialValue (name : String) : Option APInt :=
  (finder.module.globalWithName name).bind fun global =>
    global.initializer.map (·.zextOrTrunc kFoldWidth)

-- The flag's publication, whatever its ordering.
def findPublication (flag : String) : Option Publication :=
  match finder.stores flag, (finder.operationsOn flag).getLast? with
  | [store], some last =>
      if finder.plainlyStored flag then none
      else
        match store.operation.kind, store.operation.order, store.operation.storedValue with
        | .Store, some order, some storedValue =>
            let live := store.function.liveBlocks
            match ({ function := store.function, live := some live } : ConstantFolder).fold
                (kMaxFoldDepth + 1) storedValue, finder.initialValue last.object with
            | some published, some initial =>
                if published.zextOrTrunc kFoldWidth = initial then none
                else if store.function.getLoopFor store.site.1 || !finder.runsAtMostOnce store.function
                then none
                else
                  some
                    { store := store
                      published := published.zextOrTrunc kFoldWidth
                      releasePoints :=
                        (if releasesAtLeast order then [store.site] else []) ++
                          (store.function.fencesFor.filter fun fence =>
                            releasesAtLeast fence.order &&
                              store.function.liveDominates fence.site store.site).map (·.site) }
            | _, _ => none
        | _, _, _ => none
  | _, _ => none

-- The publishing thread's accesses made before the store, each ordered when it stands before a
-- release point.
def publishedAccesses (publication : Publication) : List (TrackedAccess × Bool) :=
  let function := publication.store.function
  ((finder.accessesIn function).filter fun access =>
    function.liveDominates access publication.store.site).map fun access =>
      ((function.id, access), publication.releasePoints.any fun releasePoint =>
        function.liveDominates access releasePoint)

-- The reader's accesses on such an arm, each ordered when the load acquires or an acquire fence
-- precedes it.
def observingAccesses (publication : Publication) (load : FlagAccess) :
    List (TrackedAccess × Bool) :=
  match load.operation.order with
  | none => []
  | some order =>
      (finder.accessesIn load.function).filterMap fun access =>
        let arms := (load.observedArms publication.published).filter fun arm =>
          load.function.cfg.edgeDominates arm.1 arm.2 access.1
        if arms = [] then none
        else
          some ((load.function.id, access), arms.any fun arm =>
            acquiresAtLeast order || load.function.observesAfterFence arm access)

def beforeRelease (flag : String) (access : TrackedAccess) : Bool :=
  match finder.findPublication flag with
  | none => false
  | some publication => (access, true) ∈ finder.publishedAccesses publication

def afterAcquire (flag : String) (access : TrackedAccess) : Bool :=
  match finder.findPublication flag with
  | none => false
  | some publication =>
      (finder.loads flag).any fun load =>
        load.function.id ≠ publication.store.function.id &&
          decide ((access, true) ∈ finder.observingAccesses publication load)

def flags : List String :=
  (finder.module.functions.flatMap (·.operationsIn)).filterMap finder.keyOf

def run (access : TrackedAccess) : PublicationOrdering where
  beforeRelease := (finder.flags.filter fun flag => finder.beforeRelease flag access).toFinset
  afterAcquire := (finder.flags.filter fun flag => finder.afterAcquire flag access).toFinset

end PublicationFinder

end ConcurrencyAnalyzer.AtomicOrdering
