import ConcurrencyAnalyzer.Facts
import ConcurrencyAnalyzer.Library.Ascent

namespace ConcurrencyAnalyzer.ThreadCompletion

open Library

-- A parameter a function joins on every normal return. A handle may travel by value, or lie some bytes
-- past the address the parameter holds.
structure JoinedParameter where
  index : Nat
  byValue : Bool
  offset : Int
  ended : Bool
  reported : Bool
  deriving DecidableEq, Repr

abbrev JoiningHelpers := String → List JoinedParameter

-- An address that constant steps lead to from an argument.
structure HandlePlace where
  argument : Nat
  steps : List Int
  deriving DecidableEq, Repr

-- Nothing where a step overflows.
def constantOffsetFrom (place : HandlePlace) (extra : Int) : Option (Nat × Int) :=
  (place.steps.foldlM (fun offset step =>
    if FitsInt64 (offset + step) then some (offset + step) else none) extra).map
      (place.argument, ·)

-- An operand of a call: the argument it is, the place it is read from, and the place its address is.
structure HandleOperand where
  value : Option Nat := none
  readFrom : Option HandlePlace := none
  address : Option HandlePlace := none
  deriving DecidableEq, Repr

inductive JoinTarget where
  | pthreadJoin
  | stdThreadJoin
  | function (name : String)
  deriving DecidableEq, Repr

-- A call, with whether it stands on every path from the entry to a normal return, whether the success
-- that its status tells of does, and whether every return gives its result.
structure JoinCall where
  target : JoinTarget
  operands : List HandleOperand
  covers : Bool
  statusCovers : Bool
  returnsResult : Bool
  deriving DecidableEq, Repr

structure JoinSite where
  operand : HandleOperand
  byValue : Bool
  reportsStatus : Bool
  ended : Bool
  offset : Int := 0
  deriving DecidableEq, Repr

structure JoinFunction where
  name : String
  calls : List JoinCall

def kMaxJoinedParameters : Nat := 8

section Sites

variable (call : JoinCall)

-- The success of a helper's join is past the call, or the one that a test of its result tells of.
def helperSite (parameter : JoinedParameter) : Option JoinSite :=
  call.operands[parameter.index]?.map fun operand => {
    operand := operand
    byValue := parameter.byValue
    reportsStatus := parameter.reported
    ended := if parameter.ended then call.covers else parameter.reported && call.statusCovers
    offset := parameter.offset }

def joinSites (helpers : JoiningHelpers) : List JoinSite :=
  match call.target, call.operands with
  | .function name, _ => (helpers name).filterMap (helperSite call)
  | .pthreadJoin, operand :: _ => [⟨operand, true, true, call.statusCovers, 0⟩]
  | .stdThreadJoin, operand :: _ => [⟨operand, false, false, call.covers, 0⟩]
  | _, [] => []

-- The argument a site joins, the offset its handle lies at, and whether it travels by value.
def parameterOf (site : JoinSite) : Option (Nat × Int × Bool) :=
  if site.byValue then
    match site.operand.value with
    | some argument => some (argument, 0, true)
    | none => (site.operand.readFrom.bind (constantOffsetFrom · site.offset)).map
        fun place => (place.1, place.2, false)
  else (site.operand.address.bind (constantOffsetFrom · site.offset)).map
    fun place => (place.1, place.2, false)

def joinedBy (site : JoinSite) : Option JoinedParameter :=
  if call.covers then
    (parameterOf site).map fun place => {
      index := place.1
      byValue := place.2.2
      offset := place.2.1
      ended := site.ended
      reported := site.reportsStatus && call.returnsResult }
  else none

end Sites

def joinsOf (helpers : JoiningHelpers) (function : JoinFunction) : List JoinedParameter :=
  function.calls.flatMap fun call => (joinSites call helpers).filterMap (joinedBy call)

def JoinedParameter.samePlace (parameter other : JoinedParameter) : Bool :=
  parameter.index = other.index && parameter.offset = other.offset

-- Past the bound a join is not summarised.
def record (joined : List JoinedParameter) (new : JoinedParameter) : List JoinedParameter :=
  if joined.any (·.samePlace new) then
    joined.map fun existing =>
      if existing.samePlace new then { existing with
        ended := existing.ended || new.ended
        reported := existing.reported || new.reported }
      else existing
  else if kMaxJoinedParameters ≤ joined.length then joined
  else joined ++ [new]

def recordJoins (functions : List JoinFunction) (helpers : JoiningHelpers) (name : String) :
    List JoinedParameter :=
  match functions.find? (·.name = name) with
  | some function => (joinsOf helpers function).foldl record (helpers name)
  | none => helpers name

-- The functions of a module, each visited in each round with what the visits before it recorded.
def joiningAscent (functions : List JoinFunction) : Ascent String (List JoinedParameter) where
  keys := functions.map (·.name)
  step := recordJoins functions

def collectJoiningHelpers (functions : List JoinFunction) (known : JoiningHelpers) :
    JoiningHelpers :=
  (joiningAscent functions).solve (functions.length * (kMaxJoinedParameters * 3)) known

-- The functions a module defines, and what is known of those it only declares.
structure JoinModule where
  functions : List JoinFunction
  known : JoiningHelpers
  distinct : (functions.map (·.name)).Nodup
  declared : ∀ function ∈ functions, known function.name = []

section Unbounded

variable (module : JoinModule)

-- What each function joins, with no bound on how much is recorded.
inductive Joins : String → JoinedParameter → Prop
  | known {name parameter} : parameter ∈ module.known name → Joins name parameter
  | inPlace {function call site parameter} : function ∈ module.functions → call ∈ function.calls →
      site ∈ joinSites call (fun _ => []) → joinedBy call site = some parameter →
      Joins function.name parameter
  | through {function call callee joined site parameter} : function ∈ module.functions →
      call ∈ function.calls → call.target = .function callee → Joins callee joined →
      helperSite call joined = some site → joinedBy call site = some parameter →
      Joins function.name parameter

-- No function joins more places than are recorded of it.
def WithinBound : Prop :=
  ∀ function ∈ module.functions, ∀ joined : List JoinedParameter,
    joined.Pairwise (fun parameter other => parameter.samePlace other = false) →
    (∀ parameter ∈ joined, Joins module function.name parameter) →
      joined.length ≤ kMaxJoinedParameters

-- No place of a function's parameter is joined both by value and by address.
def OneWay : Prop :=
  ∀ function ∈ module.functions, ∀ parameter other, Joins module function.name parameter →
    Joins module function.name other → parameter.samePlace other = true →
      parameter.byValue = other.byValue

end Unbounded

end ConcurrencyAnalyzer.ThreadCompletion
