import ConcurrencyAnalyzer.LockState.Effects
import ConcurrencyAnalyzer.ThreadCompletion.PathSearch

namespace ConcurrencyAnalyzer.TaskConcurrency

open Program LockState

def kGlobalStoragePrefix : String := "global:"

def kParameterStoragePrefix : String := "arg:"

def kUnknownIndex : String := "[*]"

-- Past as many indexing steps a handle is no longer named.
def kMaxHandleSteps : Nat := 16

def startsWith (text start : String) : Bool := start.toList.isPrefixOf text.toList

-- A handle a join can be matched on: no index the path leaves unknown, and not so deep that recursion
-- built it.
def isNameableHandle (handle : String) : Bool :=
  ¬kUnknownIndex.toList <:+: handle.toList ∧ handle.toList.count '[' ≤ kMaxHandleSteps

-- What hangs off storage starts with an index.
def isPath (text : List Char) : Bool := text.head?.all (· = '[')

-- Nothing also where the source throws on an index past 64 bits.
def parameterPlaceOf (handle function : String) : Option (Nat × String) :=
  let start := kParameterStoragePrefix ++ function ++ ":"
  if !startsWith handle start then none
  else
    let rest := handle.toList.drop start.toList.length
    let index := rest.takeWhile Char.isDigit
    let path := rest.dropWhile Char.isDigit
    if index.isEmpty || !isPath path || 2 ^ 64 ≤ decimalValue index then none
    else some (decimalValue index % 2 ^ 32, String.ofList path)

-- What an operand of a call tells of a function: the function, and whether it is only declared, or the
-- parameter of the caller that holds it.
structure FunctionBinding where
  function : Option (String × Bool) := none
  argumentIndex : Option Nat := none
  deriving DecidableEq, Repr

structure CallArgument where
  pointer : Pointer
  binding : Option FunctionBinding := none
  deriving DecidableEq

-- A call that names its callee, with what it passes. The pointers are those of the caller.
structure DirectCallSite where
  caller : Nat
  callerFunctionId : String
  call : Point
  calleeFunctionId : String
  arguments : List CallArgument
  -- Whether the call creates a thread, as `std::thread` constructors and `pthread_create` do.
  createsThread : Bool := false
  -- Where the result of the call, read as a join's status, is known to tell of success.
  statusSuccess : Option ThreadCompletion.JoinSuccess := none
  -- Whether every return of the caller gives the result of the call.
  returnsResult : Bool := false
  deriving DecidableEq

namespace DirectCallSite

variable (site : DirectCallSite)

def groups : List (Option String) :=
  site.arguments.map fun argument => canonicalStorageGroupId site.callerFunctionId "" argument.pointer

-- A handle the callee names, as the caller names it: a global stays itself, and storage reached
-- through a parameter becomes what the call passes there.
def handleAtCaller (calleeHandle : String) : Option String :=
  if startsWith calleeHandle kGlobalStoragePrefix then some calleeHandle
  else
    (parameterPlaceOf calleeHandle site.calleeFunctionId).bind fun (index, path) =>
      (site.groups[index]?.join).bind fun argument =>
        if isNameableHandle (argument ++ path) then some (argument ++ path) else none

-- A handle the caller names, through what a call passes.
def pathPast (callerHandle : String) (argument : Option String) : Option String :=
  argument.bind fun group =>
    if isNameableHandle group && startsWith callerHandle group &&
        isPath (callerHandle.toList.drop group.toList.length) then
      some (String.ofList (callerHandle.toList.drop group.toList.length))
    else none

-- A handle the caller names, as the callee names it: through the first parameter that the call hands
-- the storage over on.
def handleAtCallee (callerHandle : String) : Option String :=
  if startsWith callerHandle kGlobalStoragePrefix then some callerHandle
  else
    site.groups.zipIdx.findSome? fun (argument, index) =>
      (pathPast callerHandle argument).map fun path =>
        kParameterStoragePrefix ++ site.calleeFunctionId ++ ":" ++ toString index ++ path

end DirectCallSite

def kEntryParameterPrefix : String := "<entry-parameter "

-- The entry of a thread whose spawn takes it from a parameter.
def parameterEntryId (function : String) (index : Nat) : String :=
  kEntryParameterPrefix ++ toString index ++ " of " ++ function ++ ">"

def parameterEntryIndex (entry function : String) : Option Nat :=
  let text := entry.toList
  let start := kEntryParameterPrefix.toList
  let ending := (" of " ++ function ++ ">").toList
  if start.isPrefixOf text && ending.isSuffixOf text then
    let index := ((text.drop start.length).take
      (text.length - start.length - ending.length)).takeWhile Char.isDigit
    if index.isEmpty || 2 ^ 64 ≤ decimalValue index then none
    else some (decimalValue index % 2 ^ 32)
  else none

-- What the caller passes as a thread's entry.
def passedEntry (includeExternalEntries : Bool) (callerFunctionId : String)
    (binding : FunctionBinding) : Option String :=
  match binding.function, binding.argumentIndex with
  | some (id, isDeclaration), _ => if isDeclaration && !includeExternalEntries then none else some id
  | none, some index => some (parameterEntryId callerFunctionId index)
  | none, none => none

-- The entry that the callee names, as the caller names it.
def entryAtCaller (includeExternalEntries : Bool) (entry : String) (site : DirectCallSite) :
    Option String :=
  match parameterEntryIndex entry site.calleeFunctionId with
  | none => some entry
  | some index =>
      (site.arguments[index]?.bind (·.binding)).bind
        (passedEntry includeExternalEntries site.callerFunctionId)

end ConcurrencyAnalyzer.TaskConcurrency
