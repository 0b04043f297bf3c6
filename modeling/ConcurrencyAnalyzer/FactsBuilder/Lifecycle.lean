import ConcurrencyAnalyzer.LockState.Effects

namespace ConcurrencyAnalyzer.Lifecycle

open Program LockState

structure LifecycleArgumentBinding where
  argumentIndex : Nat
  suffix : String
  deriving DecidableEq, Repr

-- Nothing also where the source throws on an index past 64 bits.
def parseLifecycleArgumentBinding (functionId handleGroupId : String) :
    Option LifecycleArgumentBinding :=
  let text := handleGroupId.toList
  let start := ("arg:" ++ functionId ++ ":").toList
  if !start.isPrefixOf text then none
  else
    let rest := text.drop start.length
    let index := rest.takeWhile Char.isDigit
    if index.isEmpty || 2 ^ 64 ≤ decimalValue index then none
    else some ⟨decimalValue index % 2 ^ 32, String.ofList (rest.dropWhile Char.isDigit)⟩

def shouldRemapLifecycleLocation (location callsite : SourceLocation) : Bool :=
  if callsite.file = "" && callsite.line = 0 then false
  else if location.file = "" then true
  else location.file ≠ callsite.file

def handleKindNumber : ThreadHandleKind → Nat
  | .PThread => 0
  | .StdThread => 1

def actionNumber : ThreadLifecycleAction → Nat
  | .Create => 0
  | .Join => 1
  | .Detach => 2
  | .Move => 3

def lifecycleFactKey (fact : ThreadLifecycleFact) : String :=
  toString (handleKindNumber fact.handleKind) ++ "|" ++ toString (actionNumber fact.action) ++ "|" ++
    fact.handleGroupId ++ "|" ++ fact.functionId ++ "|" ++ fact.sourceHandleGroupId.getD "" ++ "|" ++
    fact.location.file ++ "|" ++ toString fact.location.line ++ "|" ++
    toString fact.location.column ++ "|" ++ fact.location.function

-- A direct call, with what it passes. The pointers are those of the caller.
structure LifecycleCall where
  callerFunctionId : String
  calleeFunctionId : String
  arguments : List Pointer
  userLocation : SourceLocation := {}

def LifecycleCall.callerGroup (call : LifecycleCall) (argumentIndex : Nat) : Option String :=
  call.arguments[argumentIndex]?.bind (canonicalStorageGroupId call.callerFunctionId "")

-- The names a fact goes by in one function.
structure HandleNames where
  functionId : String
  handleGroupId : String
  sourceHandleGroupId : Option String := none
  deriving DecidableEq, Repr

def handleNames (fact : ThreadLifecycleFact) : HandleNames :=
  ⟨fact.functionId, fact.handleGroupId, fact.sourceHandleGroupId⟩

-- A source that hangs off no argument passed keeps its name.
def sourceAtCall (call : LifecycleCall) (functionId source : String) : Option String :=
  match parseLifecycleArgumentBinding functionId source with
  | none => some source
  | some binding =>
      if call.arguments.length ≤ binding.argumentIndex then some source
      else (call.callerGroup binding.argumentIndex).map (· ++ binding.suffix)

def namesAtCall (call : LifecycleCall) (names : HandleNames) : Option HandleNames :=
  match parseLifecycleArgumentBinding names.functionId names.handleGroupId with
  | none => none
  | some binding =>
      match call.callerGroup binding.argumentIndex with
      | none => none
      | some group =>
          match names.sourceHandleGroupId with
          | none => some ⟨call.callerFunctionId, group ++ binding.suffix, none⟩
          | some source =>
              (sourceAtCall call names.functionId source).map fun renamed =>
                ⟨call.callerFunctionId, group ++ binding.suffix, some renamed⟩

def projectLifecycle (call : LifecycleCall) (fact : ThreadLifecycleFact) :
    Option ThreadLifecycleFact :=
  (namesAtCall call (handleNames fact)).map fun names =>
    { fact with
      functionId := names.functionId
      handleGroupId := names.handleGroupId
      sourceHandleGroupId := names.sourceHandleGroupId
      propagated := true
      location :=
        if shouldRemapLifecycleLocation fact.location call.userLocation then call.userLocation
        else fact.location }

-- The facts kept so far, in the order they arrived; the keys and the facts by function are read off.
def addLifecycleFact (facts : List ThreadLifecycleFact) (fact : ThreadLifecycleFact) :
    List ThreadLifecycleFact :=
  if lifecycleFactKey fact ∈ facts.map lifecycleFactKey then facts else facts ++ [fact]

-- The facts of the callee are copied before any is projected.
def projectOntoCall (facts : List ThreadLifecycleFact) (call : LifecycleCall) :
    List ThreadLifecycleFact :=
  let calleeFacts := facts.filter (·.functionId = call.calleeFunctionId)
  (calleeFacts.filterMap (projectLifecycle call)).foldl addLifecycleFact facts

def lifecycleRound (calls : List LifecycleCall) (facts : List ThreadLifecycleFact) :
    List ThreadLifecycleFact :=
  calls.foldl projectOntoCall facts

-- Every parameter a pointer goes back to is one of the function's.
def usesParametersBelow (count : Nat) : Pointer → Bool
  | .argument index => index < count
  | .gep base _ _ => usesParametersBelow count base
  | .copied stored => usesParametersBelow count stored
  | .load slot => usesParametersBelow count slot
  | .global _ | .alloca _ | .other => true

def NamedIn (parameterCount : String → Nat) (functionId group : String) : Prop :=
  ∃ pointer, usesParametersBelow (parameterCount functionId) pointer ∧
    canonicalStorageGroupId functionId "" pointer = some group

-- What the loop reads of a module that passes the verifier: the calls of its defined functions and the
-- facts collected in their bodies. Each call passes an argument for every parameter: one through
-- another function type, which may pass fewer, is left out.
structure LifecycleModule where
  parameterCount : String → Nat
  calls : List LifecycleCall
  collected : List ThreadLifecycleFact
  countFits : ∀ functionId, parameterCount functionId ≤ 2 ^ 32
  argumentsPassed : ∀ call ∈ calls, parameterCount call.calleeFunctionId ≤ call.arguments.length
  argumentsOfCaller : ∀ call ∈ calls, ∀ pointer ∈ call.arguments,
    usesParametersBelow (parameterCount call.callerFunctionId) pointer
  handlesNamed : ∀ fact ∈ collected, NamedIn parameterCount fact.functionId fact.handleGroupId
  sourcesNamed : ∀ fact ∈ collected, ∀ source ∈ fact.sourceHandleGroupId,
    NamedIn parameterCount fact.functionId source

def LifecycleModule.start (module : LifecycleModule) : List ThreadLifecycleFact :=
  module.collected.foldl addLifecycleFact []

-- The facts after so many rounds.
def LifecycleModule.after (module : LifecycleModule) (rounds : Nat) : List ThreadLifecycleFact :=
  (lifecycleRound module.calls)^[rounds] module.start

-- Some round adds nothing, and the loop ends there.
def LifecycleModule.Settles (module : LifecycleModule) : Prop :=
  ∃ rounds, lifecycleRound module.calls (module.after rounds) = module.after rounds

end ConcurrencyAnalyzer.Lifecycle
