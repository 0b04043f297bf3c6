import ConcurrencyAnalyzer.ReportBuilder.FunctionSummaries
import Mathlib.Data.List.Count

namespace ConcurrencyAnalyzer.ReportBuilder

open Library (OrderedMap)

-- What one step of one of the loops writes to, and what it writes there.
inductive Contribution where
  | access (fact : AccessFact)
  | lockOrder (fact : LockOrderFact)
  | reachable (functionId : String) (entries : ThreadEntrySet)
  | diagnostic (location : SourceLocation)

namespace Contribution

def key : Contribution → String
  | access fact => fact.functionId
  | lockOrder fact => fact.functionId
  | reachable functionId _ => functionId
  | diagnostic location => location.function

def write : Contribution → Option FunctionSummary → FunctionSummary
  | access fact => addAccess fact
  | lockOrder fact => addLockOrder fact
  | reachable functionId entries => addReachable functionId entries
  | diagnostic location => markDiagnostic location

def isDiagnostic : Contribution → Bool
  | diagnostic _ => true
  | _ => false

def countedAccess (counted : AccessFact → Bool) : Contribution → Bool
  | access fact => counted fact
  | _ => false

def givenEntries : Contribution → Option (List String)
  | reachable _ entries => some (sortedThreadEntries entries)
  | _ => none

end Contribution

def nonEmpty (text : String) : Option String := if text = "" then none else some text

def Contribution.givenName : Contribution → Option String
  | access fact => nonEmpty fact.userLocation.function
  | lockOrder fact => nonEmpty fact.location.function
  | _ => none

def Contribution.givenFile : Contribution → Option String
  | access fact => nonEmpty fact.userLocation.file
  | lockOrder fact => nonEmpty fact.location.file
  | reachable _ _ => none
  | diagnostic location => nonEmpty location.file

-- Where the diagnostics name a function, the primary place of each before its related ones.
def namedLocations (diagnostics : List Diagnostic) : List SourceLocation :=
  (diagnostics.flatMap fun diagnostic =>
    diagnostic.location :: diagnostic.relatedLocations.map (·.location)).filter (·.function ≠ "")

def contributions (facts : TUFacts) (order : ReachableOrder facts) (diagnostics : List Diagnostic) :
    List Contribution :=
  facts.accesses.map .access ++ facts.lockOrders.map .lockOrder ++
    order.entries.map (fun entry => .reachable entry.1 entry.2) ++
    (namedLocations diagnostics).map .diagnostic

def collect (steps : List Contribution) (functions : Functions) : Functions :=
  steps.foldl (fun functions step => functions.alter step.key step.write) functions

theorem markDiagnosticFunctions_eq (functions : Functions) (diagnostics : List Diagnostic) :
    diagnostics.foldl markDiagnosticFunctions functions =
      collect ((namedLocations diagnostics).map .diagnostic) functions := by
  have hmark : markFunctionAt = fun functions location =>
      if location.function ≠ "" then functions.alter location.function (markDiagnostic location)
      else functions := by
    funext functions location
    by_cases h : location.function = "" <;> simp [markFunctionAt, diagnosticKey, h]
  rw [collect, List.foldl_map, namedLocations, List.foldl_filter, List.foldl_flatMap]
  simp only [decide_eq_true_eq, Contribution.key, Contribution.write, ← hmark]
  rfl

theorem collectedFunctions_eq (facts : TUFacts) (order : ReachableOrder facts)
    (diagnostics : List Diagnostic) :
    collectedFunctions facts order diagnostics =
      collect (contributions facts order diagnostics) OrderedMap.empty := by
  rw [collectedFunctions, markDiagnosticFunctions_eq]
  simp only [contributions, collect, List.foldl_append, List.foldl_map, Contribution.key,
    Contribution.write]

def written (steps : List Contribution) (present : Option FunctionSummary) :
    Option FunctionSummary :=
  steps.foldl (fun present step => some (step.write present)) present

theorem find_collectedFunctions (facts : TUFacts) (order : ReachableOrder facts)
    (diagnostics : List Diagnostic) (functionId : String) :
    (collectedFunctions facts order diagnostics).find functionId =
      written ((contributions facts order diagnostics).filter (·.key = functionId)) none := by
  rw [collectedFunctions_eq, collect, OrderedMap.find_foldl_alter]
  rfl

-- Two summaries that differ in their name and their file alone.
structure SameFacts (summary other : FunctionSummary) : Prop where
  threadEntries : summary.threadEntries = other.threadEntries
  shared : summary.sharedAccessCount = other.sharedAccessCount
  guarded : summary.protectedAccessCount = other.protectedAccessCount
  write : summary.writeAccessCount = other.writeAccessCount
  hasDiagnostics : summary.hasDiagnostics = other.hasDiagnostics

theorem SameFacts.trans {summary other third : FunctionSummary} (h : SameFacts summary other)
    (h' : SameFacts other third) : SameFacts summary third :=
  ⟨h.threadEntries.trans h'.threadEntries, h.shared.trans h'.shared, h.guarded.trans h'.guarded,
    h.write.trans h'.write, h.hasDiagnostics.trans h'.hasDiagnostics⟩

theorem sameFacts_ensureSummary (functionId : String) (present : Option FunctionSummary) :
    SameFacts (ensureSummary functionId present) (present.getD {}) := by
  unfold ensureSummary
  dsimp only
  split
  · exact ⟨rfl, rfl, rfl, rfl, rfl⟩
  · exact ⟨rfl, rfl, rfl, rfl, rfl⟩

theorem sameFacts_nameAfter (location : SourceLocation) (summary : FunctionSummary) :
    SameFacts (nameAfter location summary) summary := by
  unfold nameAfter
  dsimp only
  split_ifs <;> exact ⟨rfl, rfl, rfl, rfl, rfl⟩

theorem sameFacts_ensureDiagnosticSummary (location : SourceLocation)
    (present : Option FunctionSummary) :
    SameFacts (ensureDiagnosticSummary location present) (present.getD {}) := by
  unfold ensureDiagnosticSummary
  dsimp only
  split_ifs <;> exact ⟨rfl, rfl, rfl, rfl, rfl⟩

theorem sameFacts_named (location : SourceLocation) (functionId : String)
    (present : Option FunctionSummary) :
    SameFacts (nameAfter location (ensureSummary functionId present)) (present.getD {}) :=
  (sameFacts_nameAfter location _).trans (sameFacts_ensureSummary functionId present)

namespace Contribution

variable (step : Contribution) (present : Option FunctionSummary)

theorem name_write (h : step.isDiagnostic → step.key ≠ "") :
    (step.write present).name = step.givenName.getD
      (if (present.getD {}).name = "" then step.key else (present.getD {}).name) := by
  cases step with
  | access fact =>
      simp only [write, addAccess, nameAfter, ensureSummary, givenName, nonEmpty, key]
      split_ifs <;> simp_all
  | lockOrder fact =>
      simp only [write, addLockOrder, nameAfter, ensureSummary, givenName, nonEmpty, key]
      split_ifs <;> simp_all
  | reachable functionId entries =>
      simp only [write, addReachable, ensureSummary, givenName, key]
      split_ifs <;> rfl
  | diagnostic location =>
      have hname : location.function ≠ "" := h rfl
      simp only [write, markDiagnostic, ensureDiagnosticSummary, givenName, key, hname, if_false]
      split_ifs <;> simp_all

theorem file_write :
    (step.write present).file =
      if (present.getD {}).file = "" then step.givenFile.getD "" else (present.getD {}).file := by
  cases step with
  | access fact =>
      simp only [write, addAccess, nameAfter, ensureSummary, givenFile, nonEmpty]
      split_ifs <;> simp_all
  | lockOrder fact =>
      simp only [write, addLockOrder, nameAfter, ensureSummary, givenFile, nonEmpty]
      split_ifs <;> simp_all
  | reachable functionId entries =>
      simp only [write, addReachable, ensureSummary, givenFile]
      split_ifs <;> simp_all
  | diagnostic location =>
      simp only [write, markDiagnostic, ensureDiagnosticSummary, givenFile, nonEmpty]
      split_ifs <;> simp_all

theorem hasDiagnostics_write :
    (step.write present).hasDiagnostics =
      ((present.getD {}).hasDiagnostics || step.isDiagnostic) := by
  cases step with
  | access fact =>
      have h := (sameFacts_named fact.userLocation fact.functionId present).hasDiagnostics
      simp [write, addAccess, isDiagnostic, h]
  | lockOrder fact =>
      have h := (sameFacts_named fact.location fact.functionId present).hasDiagnostics
      simp [write, addLockOrder, isDiagnostic, h]
  | reachable functionId entries =>
      have h := (sameFacts_ensureSummary functionId present).hasDiagnostics
      simp [write, addReachable, isDiagnostic, h]
  | diagnostic location =>
      simp [write, markDiagnostic, isDiagnostic]

theorem threadEntries_write :
    (step.write present).threadEntries =
      step.givenEntries.getD (present.getD {}).threadEntries := by
  cases step with
  | access fact =>
      have h := (sameFacts_named fact.userLocation fact.functionId present).threadEntries
      simp [write, addAccess, givenEntries, h]
  | lockOrder fact =>
      have h := (sameFacts_named fact.location fact.functionId present).threadEntries
      simp [write, addLockOrder, givenEntries, h]
  | reachable functionId entries =>
      simp [write, addReachable, givenEntries]
  | diagnostic location =>
      have h := (sameFacts_ensureDiagnosticSummary location present).threadEntries
      simp [write, markDiagnostic, givenEntries, h]

theorem sharedAccessCount_write :
    (step.write present).sharedAccessCount.getD 0 =
      (present.getD {}).sharedAccessCount.getD 0 +
        if step.countedAccess (fun _ => true) then 1 else 0 := by
  cases step with
  | access fact =>
      have h := (sameFacts_named fact.userLocation fact.functionId present).shared
      simp [write, addAccess, countedAccess, countOneMore, h]
  | lockOrder fact =>
      have h := (sameFacts_named fact.location fact.functionId present).shared
      simp [write, addLockOrder, countedAccess, h]
  | reachable functionId entries =>
      have h := (sameFacts_ensureSummary functionId present).shared
      simp [write, addReachable, countedAccess, h]
  | diagnostic location =>
      have h := (sameFacts_ensureDiagnosticSummary location present).shared
      simp [write, markDiagnostic, countedAccess, h]

theorem protectedAccessCount_write :
    (step.write present).protectedAccessCount.getD 0 =
      (present.getD {}).protectedAccessCount.getD 0 +
        if step.countedAccess (fun fact => fact.heldLocks ≠ ∅) then 1 else 0 := by
  cases step with
  | access fact =>
      have h := (sameFacts_named fact.userLocation fact.functionId present).guarded
      by_cases hlocks : fact.heldLocks = ∅ <;>
        simp [write, addAccess, countedAccess, countOneMore, h, hlocks]
  | lockOrder fact =>
      have h := (sameFacts_named fact.location fact.functionId present).guarded
      simp [write, addLockOrder, countedAccess, h]
  | reachable functionId entries =>
      have h := (sameFacts_ensureSummary functionId present).guarded
      simp [write, addReachable, countedAccess, h]
  | diagnostic location =>
      have h := (sameFacts_ensureDiagnosticSummary location present).guarded
      simp [write, markDiagnostic, countedAccess, h]

theorem writeAccessCount_write :
    (step.write present).writeAccessCount.getD 0 =
      (present.getD {}).writeAccessCount.getD 0 +
        if step.countedAccess (fun fact => fact.kind = .Write) then 1 else 0 := by
  cases step with
  | access fact =>
      have h := (sameFacts_named fact.userLocation fact.functionId present).write
      by_cases hkind : fact.kind = .Write <;>
        simp [write, addAccess, countedAccess, countOneMore, h, hkind]
  | lockOrder fact =>
      have h := (sameFacts_named fact.location fact.functionId present).write
      simp [write, addLockOrder, countedAccess, h]
  | reachable functionId entries =>
      have h := (sameFacts_ensureSummary functionId present).write
      simp [write, addReachable, countedAccess, h]
  | diagnostic location =>
      have h := (sameFacts_ensureDiagnosticSummary location present).write
      simp [write, markDiagnostic, countedAccess, h]

end Contribution

-- What a summary says once the steps for its function are done, all but its name.
structure Tells (steps : List Contribution) (summary : FunctionSummary) : Prop where
  file : summary.file = (steps.filterMap (·.givenFile)).head?.getD ""
  threadEntries : summary.threadEntries = (steps.filterMap (·.givenEntries)).getLast?.getD []
  shared : summary.sharedAccessCount.getD 0 = steps.countP (·.countedAccess fun _ => true)
  guarded : summary.protectedAccessCount.getD 0 =
    steps.countP (·.countedAccess fun fact => fact.heldLocks ≠ ∅)
  write : summary.writeAccessCount.getD 0 =
    steps.countP (·.countedAccess fun fact => fact.kind = .Write)
  hasDiagnostics : summary.hasDiagnostics = steps.any (·.isDiagnostic)

theorem written_append_singleton (steps : List Contribution) (step : Contribution) :
    written (steps ++ [step]) none = some (step.write (written steps none)) := by
  simp [written]

theorem Contribution.givenFile_ne {step : Contribution} {file : String}
    (h : step.givenFile = some file) : file ≠ "" := by
  cases step <;> simp only [givenFile, nonEmpty] at h <;> grind

theorem Contribution.givenName_ne {step : Contribution} {name : String}
    (h : step.givenName = some name) : name ≠ "" := by
  cases step <;> simp only [givenName, nonEmpty] at h <;> grind

theorem filterMap_append_singleton {α : Type*} (given : Contribution → Option α)
    (steps : List Contribution) (step : Contribution) :
    (steps ++ [step]).filterMap given = steps.filterMap given ++ (given step).toList := by
  rw [List.filterMap_append]
  cases h : given step <;> simp [h]

theorem tells_written (steps : List Contribution) : Tells steps ((written steps none).getD {}) := by
  induction steps using List.reverseRecOn with
  | nil => exact ⟨rfl, rfl, rfl, rfl, rfl, rfl⟩
  | append_singleton steps step ih =>
      rw [written_append_singleton, Option.getD_some]
      refine ⟨?_, ?_, ?_, ?_, ?_, ?_⟩
      · rw [step.file_write, ih.file, filterMap_append_singleton]
        cases hfiles : steps.filterMap (·.givenFile) with
        | nil => cases step.givenFile <;> rfl
        | cons file rest =>
            obtain ⟨_, _, hfile⟩ := List.mem_filterMap.mp (hfiles ▸ List.mem_cons_self)
            simp [Contribution.givenFile_ne hfile]
      · rw [step.threadEntries_write, ih.threadEntries, filterMap_append_singleton]
        cases step.givenEntries <;> simp
      · rw [step.sharedAccessCount_write, ih.shared, List.countP_append, List.countP_singleton]
      · rw [step.protectedAccessCount_write, ih.guarded, List.countP_append,
          List.countP_singleton]
      · rw [step.writeAccessCount_write, ih.write, List.countP_append, List.countP_singleton]
      · rw [step.hasDiagnostics_write, ih.hasDiagnostics, List.any_append]
        simp

-- The last name given, the key where there is none.
theorem name_written {functionId : String} (steps : List Contribution) (step : Contribution)
    (hkey : ∀ other ∈ steps ++ [step], other.key = functionId)
    (hnamed : ∀ other ∈ steps ++ [step], other.isDiagnostic → other.key ≠ "") :
    (step.write (written steps none)).name =
      ((steps ++ [step]).filterMap (·.givenName)).getLast?.getD functionId := by
  induction steps using List.reverseRecOn generalizing step with
  | nil =>
      rw [step.name_write _ (hnamed step (by simp)), hkey step (by simp),
        filterMap_append_singleton]
      cases step.givenName <;> simp [written]
  | append_singleton steps previous ih =>
      have hprevious := ih previous (fun other h => hkey other (List.mem_append_left _ h))
        (fun other h => hnamed other (List.mem_append_left _ h))
      rw [step.name_write _ (hnamed step (by simp)), hkey step (by simp),
        written_append_singleton, Option.getD_some, hprevious,
        filterMap_append_singleton _ (steps ++ [previous]) step]
      have hnames : ∀ name ∈ (steps ++ [previous]).filterMap (·.givenName), name ≠ "" := by
        intro name hmem
        obtain ⟨_, _, hgiven⟩ := List.mem_filterMap.mp hmem
        exact Contribution.givenName_ne hgiven
      generalize (steps ++ [previous]).filterMap (·.givenName) = names at hnames
      cases step.givenName with
      | some name => simp
      | none =>
          cases hlast : names.getLast? with
          | none => simp [hlast]
          | some name => simp [hlast, hnames name (List.mem_of_getLast? hlast)]

end ConcurrencyAnalyzer.ReportBuilder
