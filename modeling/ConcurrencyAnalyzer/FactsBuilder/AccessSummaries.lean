import ConcurrencyAnalyzer.FactsBuilder.Build
import ConcurrencyAnalyzer.FactsBuilder.LockOrders
import ConcurrencyAnalyzer.Library.Components

namespace ConcurrencyAnalyzer.FactsBuilder

open Library

def rootBindingKey (binding : RootBinding) : String :=
  let index := match binding.index with
    | none => ""
    | some index =>
        (if index.widened then "@*" else "@" ++ toString index.offset ++ "+" ++ toString index.scale) ++
          "*arg" ++ toString (index.parameter.getD 0)
  match binding.kind with
  | .Global => "global:" ++ binding.symbol ++ binding.region.identity ++ index
  | .Argument =>
      "argument:" ++ toString binding.argumentIndex ++ binding.region.identity ++ index

def parameterizedAccessKey (access : ParameterizedAccess) : String :=
  rootBindingKey access.root ++ "|" ++ accessFactKey access.fact

def substituteLinearIndex (outer inner : LinearIndex) : Option LinearIndex :=
  if outer.widened || inner.widened then some { parameter := inner.parameter, widened := true }
  else
    let scale := outer.scale * inner.scale
    let shift := outer.scale * inner.offset
    let offset := outer.offset + shift
    if FitsInt64 scale ∧ FitsInt64 shift ∧ FitsInt64 offset then
      some { parameter := inner.parameter, scale := scale, offset := offset }
    else none

-- An argument of a call, as the walks over the IR resolve it: `linearIndex` by `resolveLinearIndex`,
-- `integerSource` by `integerSourceParameter`, and `root` as a tracked root, as a local object or as an
-- object shared with a thread, whichever comes first. `callerIntegerAtPosition` says that the caller
-- has an integer parameter in the same position.
structure CallOperand where
  isInteger : Bool := false
  linearIndex : Option LinearIndex := none
  integerSource : Option Nat := none
  callerIntegerAtPosition : Bool := false
  root : Option RootBinding := none

structure AccessCallSite where
  callerFunctionId : String
  calleeFunctionId : String
  operands : List CallOperand := []
  userLocation : SourceLocation := {}
  heldLocks : LockSet := ∅
  callerInRootTask : Bool := false
  liveAtCall : ThreadEntrySet := ∅
  startedAtCall : ThreadEntrySet := ∅
  entriesOnConstructedObject : ThreadEntrySet := ∅

-- The bindings are listed by position.
structure DirectCallBinding where
  callerFunctionId : String
  calleeFunctionId : String
  argumentBindings : List (Option RootBinding) := []
  indexArguments : List (Option LinearIndex) := []
  callsiteLocation : SourceLocation := {}
  callsiteHeldLocks : LockSet := ∅
  callerInRootTask : Bool := false
  liveAtCall : ThreadEntrySet := ∅
  startedAtCall : ThreadEntrySet := ∅
  entriesOnConstructedObject : ThreadEntrySet := ∅

def DirectCallBinding.argumentBinding (call : DirectCallBinding) (position : Nat) :
    Option RootBinding :=
  call.argumentBindings[position]?.join

def DirectCallBinding.indexArgument (call : DirectCallBinding) (position : Nat) :
    Option LinearIndex :=
  call.indexArguments[position]?.join

def handsOnParameter (index : Option LinearIndex) : Bool :=
  match index with
  | none => false
  | some index => index.parameter.isSome && index.scale = 1 && index.offset = 0

def widenedIndexArgument (operand : CallOperand) (position : Nat) : Option LinearIndex :=
  match operand.integerSource with
  | some source => some { parameter := some source, widened := true }
  | none =>
      if operand.callerIntegerAtPosition then some { parameter := some position, widened := true }
      else none

-- What a call passes for an integer parameter. Around a cycle, only the caller's own parameter, handed
-- on unchanged, keeps its value.
def indexArgumentAt (closesCycle : Bool) (position : Nat) (operand : CallOperand) :
    Option LinearIndex :=
  if !operand.isInteger then none
  else if closesCycle && !handsOnParameter operand.linearIndex then
    widenedIndexArgument operand position
  else operand.linearIndex

-- Around a cycle, a pointer that is moved points somewhere unknown.
def argumentBindingAt (closesCycle : Bool) (operand : CallOperand) : Option RootBinding :=
  operand.root.map fun root =>
    if root.kind = .Argument && closesCycle &&
        (!root.region.hasKnownOffset || root.region.byteOffset ≠ 0) then
      { root with region := { root.region with hasKnownOffset := false } }
    else root

def buildDirectCallBinding (closesCycle : Bool) (site : AccessCallSite) : Option DirectCallBinding :=
  if site.operands.any fun operand => operand.root.isSome || operand.isInteger then
    some
      { callerFunctionId := site.callerFunctionId
        calleeFunctionId := site.calleeFunctionId
        argumentBindings := site.operands.map (argumentBindingAt closesCycle)
        indexArguments := site.operands.mapIdx (indexArgumentAt closesCycle)
        callsiteLocation := site.userLocation
        callsiteHeldLocks := site.heldLocks
        callerInRootTask := site.callerInRootTask
        liveAtCall := site.liveAtCall
        startedAtCall := site.startedAtCall
        entriesOnConstructedObject := site.entriesOnConstructedObject }
  else none

def threadsAtCallFor (access : ParameterizedAccess) (call : DirectCallBinding) :
    ThreadEntrySet × ThreadEntrySet :=
  if access.root.kind = .Global || access.root.argumentIndex ≠ 0 ||
      call.entriesOnConstructedObject = ∅ then
    (call.liveAtCall, call.startedAtCall)
  else
    (call.liveAtCall \ call.entriesOnConstructedObject,
      call.startedAtCall \ call.entriesOnConstructedObject)

-- The index the caller leaves a place waiting on, and the place, settled where the index is a constant.
def indexAtCall (index : Option LinearIndex) (place : MemoryRegion) (call : DirectCallBinding) :
    Option LinearIndex × MemoryRegion :=
  match index.bind fun waiting => (waiting.parameter.bind call.indexArgument).bind
      (substituteLinearIndex waiting) with
  | none => (none, place)
  | some substituted =>
      if substituted.parameter.isSome then (some substituted, place)
      else if substituted.widened then (none, place)
      else (none, { place with hasKnownOffset := true, byteOffset := substituted.offset })

def rootAtCall (access : ParameterizedAccess) (call : DirectCallBinding) : Option RootBinding :=
  let (index, place) := indexAtCall access.root.index access.fact.region call
  match access.root.kind with
  | .Global => some { access.root with region := place, index := index }
  | .Argument =>
      (call.argumentBinding access.root.argumentIndex).map fun object =>
        { object with
          region := place.rebasedOn object.region object.designated
          index :=
            if object.region.hasKnownOffset then
              index.bind (substituteLinearIndex { scale := 1, offset := object.region.byteOffset })
            else none }

def locksAtCallSite (calleeLocks : LockSet) (call : DirectCallBinding) : LockSet :=
  calleeLocks.biUnion fun lockId =>
    match parameterLockPlace lockId with
    | none => {lockId}
    | some place =>
        (call.argumentBinding place.argumentIndex).elim ∅ fun object => {lockIdAt object place.place}

def shouldRemapAccessToCallsite (access : AccessFact) (callsite : SourceLocation) : Bool :=
  if callsite.file = "" && callsite.line = 0 then false
  else if access.userLocation.file = "" then true
  else access.userLocation.file ≠ callsite.file

-- A callee's access as an access of the caller. One that gets a name of its own at the call leaves the
-- summaries, for good.
def projectAccess (call : DirectCallBinding) (access : ParameterizedAccess) :
    Option ParameterizedAccess :=
  match rootAtCall access call with
  | none => none
  | some root =>
      if root.kind = .Global && root.index.isNone then none
      else
        let atCall := threadsAtCallFor access call
        let threads := threadsThroughCall access.fact.liveEntries access.fact.startedEntries atCall.1
          atCall.2
        some
          { root := root
            fact :=
              { access.fact with
                functionId := call.callerFunctionId
                region := root.region
                heldLocks := locksAtCallSite access.fact.heldLocks call ∪ call.callsiteHeldLocks
                inRootTask := call.callerInRootTask
                liveEntries := threads.1
                startedEntries := threads.2
                userLocation :=
                  if shouldRemapAccessToCallsite access.fact call.callsiteLocation then
                    call.callsiteLocation
                  else access.fact.userLocation } }

-- `entries` are the functions that threads run, `pending` the accesses of the functions themselves that
-- have no name of their own.
structure AccessModule where
  sites : List AccessCallSite
  pending : List ParameterizedAccess
  entries : Finset String := ∅

structure SummaryState where
  summaries : List ParameterizedAccess := []
  changed : Bool := false

def mergeAccessThreads (into access : ParameterizedAccess) : ParameterizedAccess :=
  { into with fact := mergeThreads into.fact access.fact }

-- The summaries are one list here, and a function's are those of its id.
def summaryKey (access : ParameterizedAccess) : String × String :=
  (access.fact.functionId, parameterizedAccessKey access)

def accessThreadCount (access : ParameterizedAccess) : Nat :=
  access.fact.liveEntries.card + access.fact.startedEntries.card

def SummaryState.addParameterizedAccess (state : SummaryState) (access : ParameterizedAccess) :
    SummaryState where
  summaries := KeepFirst.keep summaryKey mergeAccessThreads state.summaries access
  changed :=
    KeepFirst.gains summaryKey mergeAccessThreads accessThreadCount state.summaries access ||
      state.changed

namespace AccessModule

def arcs (module : AccessModule) : List (String × String) :=
  module.sites.map fun site => (site.callerFunctionId, site.calleeFunctionId)

-- The caller and the callee share a component of the calls.
def closesCycle (module : AccessModule) (site : AccessCallSite) : Bool :=
  site.callerFunctionId ∈ Components.reach module.arcs site.calleeFunctionId

def directCallBindings (module : AccessModule) : List DirectCallBinding :=
  module.sites.filterMap fun site => buildDirectCallBinding (module.closesCycle site) site

-- An access to a global stays in a function that something else than its calls runs.
def summarizes (module : AccessModule) (access : ParameterizedAccess) : Bool :=
  access.root.kind ≠ .Global ||
    (access.fact.functionId ∈ module.sites.map (·.calleeFunctionId) &&
      access.fact.functionId ∉ module.entries)

def addSummary (module : AccessModule) (state : SummaryState) (access : ParameterizedAccess) :
    SummaryState :=
  if module.summarizes access then state.addParameterizedAccess access else state

-- The summary of the callee is copied before any of it is projected.
def visit (module : AccessModule) (state : SummaryState) (call : DirectCallBinding) : SummaryState :=
  let calleeSummary := state.summaries.filter (·.fact.functionId = call.calleeFunctionId)
  (calleeSummary.filterMap (projectAccess call)).foldl module.addSummary state

def start (module : AccessModule) : List ParameterizedAccess :=
  (module.pending.foldl module.addSummary {}).summaries

def round (module : AccessModule) (summaries : List ParameterizedAccess) : SummaryState :=
  module.directCallBindings.foldl module.visit { summaries := summaries }

def after (module : AccessModule) (rounds : Nat) : List ParameterizedAccess :=
  (fun summaries => (module.round summaries).summaries)^[rounds] module.start

end AccessModule

end ConcurrencyAnalyzer.FactsBuilder
