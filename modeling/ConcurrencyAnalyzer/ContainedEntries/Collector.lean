import ConcurrencyAnalyzer.ThreadCompletion.PathSearch
import ConcurrencyAnalyzer.ThreadEntries.Module
import ConcurrencyAnalyzer.Library.KeyedGrowth

namespace ConcurrencyAnalyzer.ContainedEntries

open Program ThreadCompletion Library
open ThreadEntries (FunctionValue resolveFunctionBinding)

-- A call with what the classifier says of it.
structure Call where
  kind : CallKind := .Unknown
  directCallee : Option String := none
  operands : List FunctionValue := []
  deriving DecidableEq

-- An instruction that is no call is none, and no return is a call. `first` is the first instruction that is
-- no phi, debug or lifetime intrinsic.
structure Block where
  instructions : List (Option Call)
  exit : Exit
  first : Nat := 0
  hasTerminator : 0 < instructions.length := by decide
  returnsPlainly : exit = .ret → instructions.getLast? = some none := by decide

def Block.flow (block : Block) : FlowBlock := ⟨block.instructions.length, block.exit, block.hasTerminator⟩

-- A function with a body, and what the classifier says of a call to it.
structure Function where
  id : String
  kind : CallKind := .Unknown
  hasAddressTaken : Bool := false
  blocks : List Block
  entryExists : 0 < blocks.length := by decide
  successorsExist : ∀ block ∈ blocks, ∀ successor ∈ block.exit.successors,
    successor < blocks.length := by decide

structure PlacedCall where
  point : Point
  call : Call
  deriving DecidableEq

def callsOf (block : Block) (number : Nat) : List PlacedCall :=
  block.instructions.zipIdx.filterMap fun (instruction, index) =>
    instruction.map fun call => ⟨⟨number, index⟩, call⟩

namespace Function

variable (function : Function)

def graph : FlowGraph where
  blocks := function.blocks.map Block.flow
  entryExists := by rw [List.length_map]; exact function.entryExists
  successorsExist := by
    intro flow hflow
    obtain ⟨block, hblock, rfl⟩ := List.mem_map.mp hflow
    rw [List.length_map]
    exact function.successorsExist block hblock

-- In the order of the function.
def calls : List PlacedCall :=
  function.blocks.zipIdx.flatMap fun (block, number) => callsOf block number

def reachable : Finset Nat := Search.reached function.graph.successors function.blocks.length

def reachableCalls : List PlacedCall :=
  function.calls.filter (·.point.block ∈ function.reachable)

end Function

structure Module where
  functions : List Function
  idsDistinct : (functions.map (·.id)).Nodup := by decide

def isSpawn (kind : CallKind) : Bool := kind = .PThreadCreate || kind = .StdThreadCtor

-- The instruction of a frame.
structure Site where
  function : String
  point : Point
  deriving DecidableEq

-- `completion` is where everything started at `start` has certainly ended.
structure Frame where
  start : Site
  completion : Option JoinSuccess
  deriving DecidableEq

-- Innermost spawn first, outermost caller last.
structure Occurrence where
  entry : String
  frames : List Frame
  deriving DecidableEq

abbrev ThreadCompletionMap := Site → Option JoinSuccess

-- What is read of a direct call site.
structure DirectCall where
  caller : String
  callee : String
  kind : CallKind

namespace Module

variable (module : Module)

def functionWithId (id : String) : Option Function := module.functions.find? (·.id = id)

def directCallOf (function : Function) (placed : PlacedCall) : Option DirectCall :=
  (placed.call.directCallee.bind module.functionWithId).map fun callee =>
    ⟨function.id, callee.id, placed.call.kind⟩

def directCalls : List DirectCall :=
  module.functions.flatMap fun function => function.reachableCalls.filterMap (module.directCallOf function)

end Module

section Relevant

variable (module : Module)

def spawns (function : Function) : Bool := function.calls.any (isSpawn ·.call.kind)

def tellCaller (site : DirectCall) (callee : String) : Option String :=
  if callee = site.callee then some site.caller else none

-- The functions that start threads, themselves or through direct calls.
def relevant : List String :=
  KeyedGrowth.grow id tellCaller module.directCalls module.functions.length
    ((module.functions.filter spawns).map (·.id))

def called : List String :=
  (module.directCalls.filter fun site => site.caller ∈ relevant module && !isSpawn site.kind).map (·.callee)

def relevantFunction (id : String) : Option Function :=
  if id ∈ relevant module then module.functionWithId id else none

end Relevant

section Expand

-- The functions the arguments name, where they name one.
abbrev Bindings := List (Option String)

def bind (value : FunctionValue) (arguments : Bindings) : Option String :=
  match resolveFunctionBinding value with
  | some (.function id) => some id
  | some (.argument index) => arguments[index]?.join
  | none => none

def boundBy (call : Call) (arguments : Bindings) : Bindings := call.operands.map (bind · arguments)

def entryOperand (kind : CallKind) : Nat := if kind = .PThreadCreate then 2 else 1

def spawnEntry (call : Call) (arguments : Bindings) : Option String :=
  call.operands[entryOperand call.kind]?.bind (bind · arguments)

-- A constructor that hands its thread to another starts none of its own.
def handsOver (function : Function) (call : Call) : Bool :=
  call.kind = .StdThreadCtor && function.kind = .StdThreadCtor

def kMaxOccurrences : Nat := 4096

structure Expansion where
  complete : Bool := true
  occurrenceCount : Nat := 0
  visited : List String := []

def Expansion.giveUp (state : Expansion) : Expansion := { state with complete := false }

variable (module : Module) (completions : ThreadCompletionMap)

def spawnFrame (function : Function) (point : Point) : Frame :=
  ⟨⟨function.id, point⟩, completions ⟨function.id, point⟩⟩

def addSpawn (function : Function) (arguments : Bindings) (found : List Occurrence × Expansion)
    (placed : PlacedCall) : List Occurrence × Expansion :=
  if handsOver function placed.call then found
  else
    match spawnEntry placed.call arguments with
    | none => (found.1, found.2.giveUp)
    | some entry =>
        let counted := { found.2 with occurrenceCount := found.2.occurrenceCount + 1 }
        if kMaxOccurrences < counted.occurrenceCount then (found.1, counted.giveUp)
        else (found.1 ++ [⟨entry, [spawnFrame completions function placed.point]⟩], counted)

-- Everything a frame started has ended when its function returns.
def contained (frame : Frame) : Bool :=
  (module.functionWithId frame.start.function).any fun function =>
    frame.completion.any fun success =>
      completedOnEveryPath function.graph frame.start.point [success] none

-- Where a call has been completed: past the call, or past the first instruction an invoke goes on to.
def completedCall (function : Function) (point : Point) : Point :=
  match function.graph.normalDest point with
  | some normal => ⟨normal, (function.blocks[normal]?.map (·.first)).getD 0⟩
  | none => point

def callFrame (function : Function) (point : Point) (inner : Option Frame) : Frame where
  start := ⟨function.id, point⟩
  completion := if inner.any (contained module) then some (.after (completedCall function point)) else none

def throughCall (function : Function) (point : Point) (occurrence : Occurrence) : Occurrence :=
  { occurrence with
    frames := occurrence.frames ++ [callFrame module function point occurrence.frames.getLast?] }

-- `within` expands the function called.
def expandCall (within : Function → Bindings → Expansion → List Occurrence × Expansion) (function : Function)
    (arguments : Bindings) (found : List Occurrence × Expansion) (placed : PlacedCall) :
    List Occurrence × Expansion :=
  if isSpawn placed.call.kind then addSpawn completions function arguments found placed
  else
    match placed.call.directCallee.bind (relevantFunction module) with
    | none => found
    | some callee =>
        let inner := within callee (boundBy placed.call arguments) found.2
        (found.1 ++ inner.1.map (throughCall module function placed.point), inner.2)

-- The threads a function starts, each with the calls that lead to it. No deeper than there are functions:
-- the fuel runs out only where a function is active.
def expand : Nat → List String → Function → Bindings → Expansion → List Occurrence × Expansion
  | 0, _, _, _, state => ([], state.giveUp)
  | fuel + 1, active, function, arguments, state =>
      if !state.complete || function.id ∈ active then ([], state.giveUp)
      else
        function.reachableCalls.foldl
          (expandCall module completions (expand fuel (function.id :: active)) function arguments)
          ([], { state with visited := state.visited ++ [function.id] })

def roots : List Function :=
  ((relevant module).filter (· ∉ called module)).filterMap module.functionWithId

def expandRoot (found : List Occurrence × Expansion) (root : Function) : List Occurrence × Expansion :=
  let expanded := expand module completions (module.functions.length + 1) [] root [] found.2
  (found.1 ++ expanded.1, expanded.2)

-- The roots in the order of `relevant`, which the source does not settle.
def expandRoots : List Occurrence × Expansion := (roots module).foldl (expandRoot module completions) ([], {})

end Expand

section Pairs

variable (module : Module) (completions : ThreadCompletionMap)
  (covers : FlowGraph → JoinSuccess → Point → Bool)

def occurrences : List Occurrence := (expandRoots module completions).1

def tellCallee (site : DirectCall) (caller : String) : Option String :=
  if caller = site.caller then some site.callee else none

-- The entries, and what an indirect call may enter.
def workerStarts : List String :=
  ((occurrences module completions).map (·.entry) ++
    (relevant module).filter fun name => (module.functionWithId name).any (·.hasAddressTaken)).foldl
      (KeyedGrowth.insert id) []

-- The functions that may run in a worker, or in any thread.
def workerReachable : List String :=
  KeyedGrowth.grow id tellCallee module.directCalls
    ((workerStarts module completions).length + module.directCalls.length) (workerStarts module completions)

def inWorker (occurrence : Occurrence) : Bool :=
  occurrence.frames.any fun frame => frame.start.function ∈ workerReachable module completions

-- The outermost frames of two occurrences that do not start at one instruction.
def firstApart : List Frame → List Frame → Option (Frame × Frame)
  | first :: firsts, second :: seconds =>
      if first.start = second.start then firstApart firsts seconds else some (first, second)
  | _, _ => none

def covered (first second : Frame) : Bool :=
  (module.functionWithId first.start.function).any fun function =>
    first.completion.any fun success => covers function.graph success second.start.point

def ordered (first second : Occurrence) : Bool :=
  match firstApart first.frames.reverse second.frames.reverse with
  | some (a, b) =>
      a.start.function = b.start.function && (covered module covers a b || covered module covers b a)
  | none => false

-- Each two occurrences once, the earlier first.
def pairsOf : List Occurrence → List (Occurrence × Occurrence)
  | [] => []
  | first :: rest => rest.map (first, ·) ++ pairsOf rest

def sequenced (pair : Occurrence × Occurrence) : Bool :=
  !inWorker module completions pair.1 && !inWorker module completions pair.2 &&
    ordered module covers pair.1 pair.2

def entriesOf (pair : Occurrence × Occurrence) : EntryPair := makeEntryPair pair.1.entry pair.2.entry

-- A function that a worker may run and the expansion did not get to.
def missed : Bool :=
  (relevant module).any fun id =>
    id ∉ (expandRoots module completions).2.visited && id ∈ workerReachable module completions

-- The entries whose threads never overlap, by every occurrence of both.
def collectContainedEntryPairs : Finset EntryPair :=
  if !(expandRoots module completions).2.complete || missed module completions then ∅
  else
    let apart := (pairsOf (occurrences module completions)).filter fun pair => pair.1.entry ≠ pair.2.entry
    ((apart.filter (sequenced module completions covers)).map entriesOf).toFinset \
      ((apart.filter (!sequenced module completions covers ·)).map entriesOf).toFinset

end Pairs

end ConcurrencyAnalyzer.ContainedEntries
