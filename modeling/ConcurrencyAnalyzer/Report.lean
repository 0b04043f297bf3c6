import Mathlib.Data.List.Sort
import Mathlib.Data.List.Dedup
import Mathlib.Data.String.Basic

namespace ConcurrencyAnalyzer

inductive AccessKind where
  | Read
  | Write
  deriving DecidableEq, Repr

inductive AliasProvenance where
  | Direct
  | MustAlias
  | MayAlias
  deriving DecidableEq, Repr

inductive Severity where
  | Info
  | Warning
  | Error
  deriving DecidableEq, Repr

inductive RuleId where
  | CompilerDiagnostic
  | DataRaceGlobal
  | MissingJoin
  | DeadlockLockOrder
  | ConditionWaitWithoutPredicate
  | ForkAfterThreadCreation
  | UnreapedChildProcess
  | ThreadArgumentEscapesFrame
  | UnsafeSignalHandler
  | WeakPublicationOrdering
  | ThreadArgumentFreedEarly
  | ThreadLocalOutlivesThread
  deriving DecidableEq, Repr

inductive ConfidenceLevel where
  | Low
  | Medium
  | High
  deriving DecidableEq, Repr

def AccessKind.label : AccessKind → String
  | .Read => "read"
  | .Write => "write"

def AliasProvenance.label : AliasProvenance → String
  | .Direct => "direct"
  | .MustAlias => "must_alias"
  | .MayAlias => "may_alias"

-- The enumerators in declaration order, which is how the source compares them.
def ConfidenceLevel.rank : ConfidenceLevel → Nat
  | .Low => 0
  | .Medium => 1
  | .High => 2

structure SourceLocation where
  file : String := ""
  line : Nat := 0
  column : Nat := 0
  endLine : Nat := 0
  endColumn : Nat := 0
  function : String := ""
  deriving DecidableEq, Repr

structure TaxonomyRef where
  scheme : String
  id : String
  title : String
  deriving DecidableEq, Repr

structure RelatedLocation where
  label : String
  location : SourceLocation
  deriving DecidableEq, Repr

inductive PropertyValue where
  | flag (value : Bool)
  | number (value : Int)
  | text (value : String)
  | texts (values : List String)
  deriving DecidableEq, Repr

structure Diagnostic where
  id : String := ""
  severity : Severity
  ruleId : RuleId
  confidence : Option ConfidenceLevel := none
  taxonomies : List TaxonomyRef
  location : SourceLocation := {}
  relatedLocations : List RelatedLocation := []
  message : String := ""
  notes : List String := []
  properties : List (String × PropertyValue) := []
  deriving DecidableEq, Repr

structure AnalysisNotice where
  id : String
  ruleId : RuleId
  message : String
  deriving DecidableEq, Repr

structure DiagnosticReport where
  diagnostics : List Diagnostic := []
  notices : List AnalysisNotice := []
  deriving DecidableEq, Repr

def raceTaxonomy : TaxonomyRef where
  scheme := "CWE"
  id := "362"
  title := "Concurrent Execution using Shared Resource with Improper Synchronization ('Race Condition')"

def synchronizationTaxonomy : TaxonomyRef where
  scheme := "CWE"
  id := "662"
  title := "Improper Synchronization"

def RuleId.defaultSeverity : RuleId → Severity
  | .MissingJoin | .UnreapedChildProcess | .WeakPublicationOrdering => .Warning
  | _ => .Error

def RuleId.primaryTaxonomy : RuleId → Option TaxonomyRef
  | .CompilerDiagnostic | .MissingJoin => none
  | .DataRaceGlobal | .WeakPublicationOrdering => some raceTaxonomy
  | .ConditionWaitWithoutPredicate | .ForkAfterThreadCreation => some synchronizationTaxonomy
  | .DeadlockLockOrder => some ⟨"CWE", "833", "Deadlock"⟩
  | .UnreapedChildProcess => some ⟨"CWE", "404", "Improper Resource Shutdown or Release"⟩
  | .ThreadArgumentEscapesFrame => some ⟨"CWE", "562", "Return of Stack Variable Address"⟩
  | .UnsafeSignalHandler =>
      some ⟨"CWE", "479", "Signal Handler Use of a Non-reentrant Function"⟩
  | .ThreadArgumentFreedEarly => some ⟨"CWE", "416", "Use After Free"⟩
  | .ThreadLocalOutlivesThread => some ⟨"CWE", "825", "Expired Pointer Dereference"⟩

-- What the constructor of `DiagnosticBuilder` fills in for a rule.
def Diagnostic.ofRule (ruleId : RuleId) : Diagnostic where
  severity := ruleId.defaultSeverity
  ruleId := ruleId
  taxonomies := ruleId.primaryTaxonomy.toList

def Diagnostic.note (diagnostic : Diagnostic) (text : String) : Diagnostic :=
  { diagnostic with notes := diagnostic.notes ++ [text] }

def Diagnostic.taxonomy (diagnostic : Diagnostic) (scheme id title : String) : Diagnostic :=
  { diagnostic with taxonomies := diagnostic.taxonomies ++ [⟨scheme, id, title⟩] }

def Diagnostic.relatedLocation (diagnostic : Diagnostic) (label : String)
    (location : SourceLocation) : Diagnostic :=
  { diagnostic with relatedLocations := diagnostic.relatedLocations ++ [⟨label, location⟩] }

-- `insert_or_assign` on the map of properties, whose entries are kept here in insertion order.
def Diagnostic.property (diagnostic : Diagnostic) (key : String) (value : PropertyValue) :
    Diagnostic :=
  { diagnostic with
    properties := diagnostic.properties.filter (·.1 ≠ key) ++ [(key, value)] }

@[simp] theorem Diagnostic.ruleId_note (diagnostic : Diagnostic) (text : String) :
    (diagnostic.note text).ruleId = diagnostic.ruleId := rfl

@[simp] theorem Diagnostic.message_note (diagnostic : Diagnostic) (text : String) :
    (diagnostic.note text).message = diagnostic.message := rfl

@[simp] theorem Diagnostic.ruleId_taxonomy (diagnostic : Diagnostic) (scheme id title : String) :
    (diagnostic.taxonomy scheme id title).ruleId = diagnostic.ruleId := rfl

@[simp] theorem Diagnostic.message_taxonomy (diagnostic : Diagnostic) (scheme id title : String) :
    (diagnostic.taxonomy scheme id title).message = diagnostic.message := rfl

@[simp] theorem Diagnostic.ruleId_relatedLocation (diagnostic : Diagnostic) (label : String)
    (location : SourceLocation) :
    (diagnostic.relatedLocation label location).ruleId = diagnostic.ruleId := rfl

@[simp] theorem Diagnostic.message_relatedLocation (diagnostic : Diagnostic) (label : String)
    (location : SourceLocation) :
    (diagnostic.relatedLocation label location).message = diagnostic.message := rfl

@[simp] theorem Diagnostic.ruleId_property (diagnostic : Diagnostic) (key : String)
    (value : PropertyValue) : (diagnostic.property key value).ruleId = diagnostic.ruleId := rfl

@[simp] theorem Diagnostic.message_property (diagnostic : Diagnostic) (key : String)
    (value : PropertyValue) : (diagnostic.property key value).message = diagnostic.message := rfl

def Diagnostic.propertyAt (diagnostic : Diagnostic) (key : String) : Option PropertyValue :=
  (diagnostic.properties.find? (·.1 = key)).map (·.2)

@[simp] theorem Diagnostic.propertyAt_property_self (diagnostic : Diagnostic) (key : String)
    (value : PropertyValue) : (diagnostic.property key value).propertyAt key = some value := by
  have hnone : (diagnostic.properties.filter (·.1 ≠ key)).find? (·.1 = key) = none := by
    simp [List.find?_eq_none]
  simp only [Diagnostic.property, Diagnostic.propertyAt, List.find?_append, hnone]
  simp

theorem Diagnostic.propertyAt_property_of_ne (diagnostic : Diagnostic) {key other : String}
    (value : PropertyValue) (hne : other ≠ key) :
    (diagnostic.property other value).propertyAt key = diagnostic.propertyAt key := by
  have hfind : (diagnostic.properties.filter (·.1 ≠ other)).find? (·.1 = key) =
      diagnostic.properties.find? (·.1 = key) := by
    induction diagnostic.properties with
    | nil => rfl
    | cons entry rest ih =>
        by_cases hk : entry.1 = key
        · simp [hk, Ne.symm hne]
        · by_cases ho : entry.1 = other <;> simp_all
  simp only [Diagnostic.property, Diagnostic.propertyAt, List.find?_append, hfind]
  simp [hne]

-- The texts of a list, separated by a comma and a space.
def joinValues (values : List String) : String :=
  ", ".intercalate values

-- A `std::set` of strings, as the list its iteration gives.
def orderedSet (values : List String) : List String :=
  values.dedup.insertionSort (· ≤ ·)

-- `locationLabel` of the lock-order analysis and `formatLocation` of the race checker.
def locationLabel (location : SourceLocation) : String :=
  (if location.file ≠ "" then location.file else "<unknown-file>") ++
    (if location.line ≠ 0 then ":" ++ toString location.line ++ ":" ++ toString location.column
      else "") ++
    (if location.function ≠ "" then " in " ++ location.function else "")

def sameSourceLocation (lhs rhs : SourceLocation) : Bool :=
  lhs.file = rhs.file && lhs.line = rhs.line && lhs.column = rhs.column &&
    lhs.function = rhs.function

end ConcurrencyAnalyzer
