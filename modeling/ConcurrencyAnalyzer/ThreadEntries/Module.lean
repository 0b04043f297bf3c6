import ConcurrencyAnalyzer.FactsBuilder.TranslationUnit
import ConcurrencyAnalyzer.Library.Search
import ConcurrencyAnalyzer.Library.KeepFirst

namespace ConcurrencyAnalyzer.ThreadEntries

open Library

-- An operand as the copy walk sees it, casts stripped. `copied` is read back from a local that is stored
-- one value, `returned` is the result of a call all returns of whose callee name one function, and
-- `slot` is a local, with the member functions of the pairs stored in it.
inductive FunctionValue where
  | function (id : String)
  | argument (index : Nat)
  | indexed (base : FunctionValue)
  | copied (stored : FunctionValue)
  | returned (function : String)
  | slot (members : List String)
  | other
  deriving DecidableEq

inductive FunctionBinding where
  | function (id : String)
  | argument (index : Nat)
  deriving DecidableEq

-- The function or the argument a value is a copy of.
def resolveCopiedValue : FunctionValue → Option FunctionBinding
  | .function id | .returned id => some (.function id)
  | .argument index => some (.argument index)
  | .indexed value | .copied value => resolveCopiedValue value
  | .slot _ | .other => none

def memberFunctionBehind : FunctionValue → Option String
  | .slot members => members.head?
  | .indexed base => memberFunctionBehind base
  | _ => none

def resolveFunctionBinding (value : FunctionValue) : Option FunctionBinding :=
  (resolveCopiedValue value).or ((memberFunctionBehind value).map .function)

def resolveFunctionValue (value : FunctionValue) : Option String :=
  match resolveFunctionBinding value with
  | some (.function id) => some id
  | _ => none

-- A call with what the classifier says of it.
structure Call where
  id : InstructionId
  kind : CallKind := .Unknown
  directCallee : Option String := none
  operands : List FunctionValue := []
  loweredLocation : SourceLocation := {}
  userLocation : SourceLocation := {}
  installedSignalHandler : Option String := none
  isAsyncSignalUnsafe : Bool := false
  deriving DecidableEq

structure Block where
  calls : List Call := []
  successors : List Nat := []
  insideLoop : Bool := false
  deriving DecidableEq

-- A function without blocks is a declaration. The first block is the entry.
structure Function where
  id : String
  blocks : List Block := []
  successorsExist : ∀ block ∈ blocks, ∀ successor ∈ block.successors, successor < blocks.length := by
    decide

namespace Function

def isDeclaration (function : Function) : Bool := function.blocks.isEmpty

def successors (function : Function) (block : Nat) : List Nat :=
  match function.blocks[block]? with
  | none => []
  | some found => found.successors

def reachable (function : Function) : Finset Nat :=
  Search.reached function.successors function.blocks.length

-- In the order of the function.
def reachableBlocks (function : Function) : List Block :=
  function.blocks.zipIdx.filterMap fun (block, index) =>
    if index ∈ function.reachable then some block else none

def calls (function : Function) : List Call :=
  function.blocks.flatMap (·.calls)

theorem successor_lt {function : Function} {block successor : Nat}
    (h : successor ∈ function.successors block) : successor < function.blocks.length := by
  unfold successors at h
  cases hblock : function.blocks[block]? with
  | none => simp [hblock] at h
  | some found =>
      rw [hblock] at h
      exact function.successorsExist found (List.mem_of_getElem? hblock) successor h

theorem entry_reachable (function : Function) : 0 ∈ function.reachable :=
  Search.zero_mem_reached _ _

theorem reachable_successor {function : Function} {block successor : Nat}
    (hblock : block ∈ function.reachable) (h : successor ∈ function.successors block) :
    successor ∈ function.reachable :=
  Search.next_mem_reached (fun _ _ => successor_lt) hblock h

theorem mem_reachableBlocks {function : Function} {block : Block} :
    block ∈ function.reachableBlocks ↔
      ∃ index ∈ function.reachable, function.blocks[index]? = some block := by
  unfold reachableBlocks
  rw [List.mem_filterMap]
  constructor
  · rintro ⟨⟨found, index⟩, hmem, hsome⟩
    rw [List.mem_zipIdx_iff_getElem?] at hmem
    by_cases hreachable : index ∈ function.reachable
    · simp only [hreachable, if_true, Option.some.injEq] at hsome
      subst hsome
      exact ⟨index, hreachable, hmem⟩
    · simp [hreachable] at hsome
  · rintro ⟨index, hreachable, hblock⟩
    exact ⟨(block, index), List.mem_zipIdx_iff_getElem?.mpr hblock, by simp [hreachable]⟩

theorem mem_calls_of_reachable {function : Function} {block : Block} {call : Call}
    (hblock : block ∈ function.reachableBlocks) (hcall : call ∈ block.calls) : call ∈ function.calls := by
  obtain ⟨index, _, hfound⟩ := mem_reachableBlocks.mp hblock
  exact List.mem_flatMap.mpr ⟨block, List.mem_of_getElem? hfound, hcall⟩

end Function

structure Module where
  functions : List Function
  idsDistinct : (functions.map (·.id)).Nodup := by decide
  callsDistinct : ((functions.flatMap (·.calls)).map (·.id)).Nodup := by decide

namespace Module

def functionWithId (module : Module) (id : String) : Option Function :=
  module.functions.find? (·.id = id)

-- The module has the body of the function.
def defines (module : Module) (id : String) : Bool :=
  module.functions.any fun function => function.id = id && !function.isDeclaration

def definitions (module : Module) : List Function :=
  module.functions.filter (!·.isDeclaration)

def callWithId (module : Module) (id : InstructionId) : Option Call :=
  (module.functions.flatMap (·.calls)).find? (·.id = id)

theorem functionWithId_of_mem {module : Module} {function : Function}
    (h : function ∈ module.functions) : module.functionWithId function.id = some function :=
  KeepFirst.find?_of_mem module.idsDistinct h

theorem mem_of_functionWithId {module : Module} {id : String} {function : Function}
    (h : module.functionWithId id = some function) : function ∈ module.functions ∧ function.id = id :=
  ⟨List.mem_of_find?_eq_some h, by simpa using List.find?_some h⟩

theorem callWithId_of_mem {module : Module} {function : Function} {call : Call}
    (hfunction : function ∈ module.functions) (hcall : call ∈ function.calls) :
    module.callWithId call.id = some call :=
  KeepFirst.find?_of_mem module.callsDistinct (List.mem_flatMap.mpr ⟨function, hfunction, hcall⟩)

theorem mem_definitions {module : Module} {function : Function} :
    function ∈ module.definitions ↔ function ∈ module.functions ∧ function.isDeclaration = false := by
  simp [definitions]

theorem defines_iff {module : Module} {id : String} :
    module.defines id = true ↔ ∃ function ∈ module.definitions, function.id = id := by
  unfold defines definitions
  rw [List.any_eq_true]
  constructor
  · rintro ⟨function, hmem, h⟩
    simp only [Bool.and_eq_true, decide_eq_true_eq] at h
    exact ⟨function, List.mem_filter.mpr ⟨hmem, h.2⟩, h.1⟩
  · rintro ⟨function, hmem, rfl⟩
    obtain ⟨hmem, hbody⟩ := List.mem_filter.mp hmem
    exact ⟨function, hmem, by simp [hbody]⟩

end Module

-- The direct calls of functions the module has the bodies of, in blocks the entry reaches.
def siteOf (module : Module) (function : Function) (block : Block) (call : Call) : Option DirectCallSite :=
  call.directCallee.bind fun callee =>
    if module.defines callee then
      some {
        call := call.id
        callerFunctionId := function.id
        calleeFunctionId := callee
        loweredLocation := call.loweredLocation
        userLocation := call.userLocation
        insideLoop := block.insideLoop }
    else none

def collectDirectCallSites (module : Module) : List DirectCallSite :=
  module.definitions.flatMap fun function =>
    function.reachableBlocks.flatMap fun block => block.calls.filterMap (siteOf module function block)

theorem mem_collectDirectCallSites {module : Module} {site : DirectCallSite} :
    site ∈ collectDirectCallSites module ↔
      ∃ function ∈ module.definitions, ∃ block ∈ function.reachableBlocks, ∃ call ∈ block.calls,
        siteOf module function block call = some site := by
  simp only [collectDirectCallSites, List.mem_flatMap, List.mem_filterMap]

theorem siteOf_eq_some {module : Module} {function : Function} {block : Block} {call : Call}
    {site : DirectCallSite} (h : siteOf module function block call = some site) :
    call.directCallee = some site.calleeFunctionId ∧ module.defines site.calleeFunctionId = true ∧
      site.callerFunctionId = function.id ∧ site.call = call.id ∧
      site.loweredLocation = call.loweredLocation ∧ site.userLocation = call.userLocation ∧
      site.insideLoop = block.insideLoop := by
  unfold siteOf at h
  obtain ⟨callee, hcallee, hsite⟩ := Option.bind_eq_some_iff.mp h
  by_cases hdefined : module.defines callee = true
  · rw [if_pos hdefined, Option.some.injEq] at hsite
    subst hsite
    exact ⟨hcallee, hdefined, rfl, rfl, rfl, rfl, rfl⟩
  · rw [if_neg hdefined] at hsite
    cases hsite

-- The call of a site is one of its caller.
theorem collectDirectCallSites_call {module : Module} {site : DirectCallSite}
    (h : site ∈ collectDirectCallSites module) :
    ∃ function ∈ module.definitions, ∃ call ∈ function.calls, module.callWithId site.call = some call ∧
      site.callerFunctionId = function.id ∧ call.directCallee = some site.calleeFunctionId ∧
      module.defines site.calleeFunctionId = true := by
  obtain ⟨function, hfunction, block, hblock, call, hcall, hsite⟩ := mem_collectDirectCallSites.mp h
  obtain ⟨hcallee, hdefined, hcaller, hid, -⟩ := siteOf_eq_some hsite
  have hmem := Function.mem_calls_of_reachable hblock hcall
  refine ⟨function, hfunction, call, hmem, ?_, hcaller, hcallee, hdefined⟩
  rw [hid]
  exact Module.callWithId_of_mem (Module.mem_definitions.mp hfunction).1 hmem

end ConcurrencyAnalyzer.ThreadEntries
