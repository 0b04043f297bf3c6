import ConcurrencyAnalyzer.IRCache.Cache
import ConcurrencyAnalyzer.Report

namespace ConcurrencyAnalyzer

def RuleId.label : RuleId → String
  | .CompilerDiagnostic => "CompilerDiagnostic"
  | .DataRaceGlobal => "DataRaceGlobal"
  | .MissingJoin => "MissingJoin"
  | .DeadlockLockOrder => "DeadlockLockOrder"
  | .ConditionWaitWithoutPredicate => "ConditionWaitWithoutPredicate"
  | .ForkAfterThreadCreation => "ForkAfterThreadCreation"
  | .UnreapedChildProcess => "UnreapedChildProcess"
  | .ThreadArgumentEscapesFrame => "ThreadArgumentEscapesFrame"
  | .UnsafeSignalHandler => "UnsafeSignalHandler"
  | .WeakPublicationOrdering => "WeakPublicationOrdering"
  | .ThreadArgumentFreedEarly => "ThreadArgumentFreedEarly"
  | .ThreadLocalOutlivesThread => "ThreadLocalOutlivesThread"

namespace Reporting

open IRCache (Bytes toHex toHex_injective)

-- Of the context, a fingerprint reads the file alone.
structure RenderContext where
  inputFile : String := ""

def propertyString (diagnostic : Diagnostic) (key : String) : Option String :=
  match diagnostic.propertyAt key with
  | some (.text value) => some value
  | _ => none

def effectiveFile (location : SourceLocation) (context : RenderContext) : String :=
  if location.file ≠ "" then location.file else context.inputFile

def bytesOf (text : String) : Bytes := text.toByteArray.data.toList

-- The fields one after the other, as the updates feed them to the hash, which is the library's.
def hashedText (diagnostic : Diagnostic) (context : RenderContext) : String :=
  let symbol := (propertyString diagnostic "symbol").getD ""
  diagnostic.ruleId.label ++ effectiveFile diagnostic.location context ++
    toString diagnostic.location.line ++ toString diagnostic.location.column ++ symbol

def fingerprintFor (md5 : Bytes → List UInt8) (diagnostic : Diagnostic) (context : RenderContext) :
    Bytes :=
  toHex (md5 (bytesOf (hashedText diagnostic context)))

-- What tells two findings apart.
def Differ (context : RenderContext) (left right : Diagnostic) : Prop :=
  left.ruleId ≠ right.ruleId ∨
    effectiveFile left.location context ≠ effectiveFile right.location context ∨
    left.location.line ≠ right.location.line ∨ left.location.column ≠ right.location.column ∨
    left.propertyAt "symbol" ≠ right.propertyAt "symbol"

-- What is fed after the file.
def afterFile (diagnostic : Diagnostic) : String :=
  toString diagnostic.location.line ++ toString diagnostic.location.column ++
    (propertyString diagnostic "symbol").getD ""

-- The file of one finding goes on with characters that the other has behind its file.
def RunsOver (context : RenderContext) (left right : Diagnostic) : Prop :=
  ∃ moved, effectiveFile right.location context = effectiveFile left.location context ++ moved ∧
    afterFile left = moved ++ afterFile right

-- Within a file, only what follows it can tell two findings apart.
theorem runsOver_iff_of_same_file {context : RenderContext} {left right : Diagnostic}
    (hfile : effectiveFile left.location context = effectiveFile right.location context) :
    RunsOver context left right ↔ afterFile left = afterFile right := by
  constructor
  · rintro ⟨moved, hmoved, hafter⟩
    have hempty : moved = "" := by
      rw [hfile, ← String.toList_inj, String.toList_append] at hmoved
      exact String.toList_eq_nil_iff.mp (List.append_right_eq_self.mp hmoved.symm)
    rw [hafter, hempty, String.empty_append]
  · intro hafter
    exact ⟨"", by rw [hfile, String.append_empty], by rw [hafter, String.empty_append]⟩

theorem hashedText_eq (diagnostic : Diagnostic) (context : RenderContext) :
    hashedText diagnostic context =
      diagnostic.ruleId.label ++ (effectiveFile diagnostic.location context ++
        afterFile diagnostic) := by
  simp only [hashedText, afterFile, String.append_assoc]

theorem bytesOf_injective : Function.Injective bytesOf := by
  intro left right h
  exact String.toByteArray_inj.mp (ByteArray.ext (Array.toList_inj.mp h))

-- No rule is named by how the name of another begins.
theorem eq_of_label_front {left right : RuleId}
    (h : left.label.toList <+: right.label.toList) : left = right := by
  cases left <;> cases right <;> first | rfl | exact absurd h (by decide)

theorem label_append_inj {left right : RuleId} {rest other : String}
    (h : left.label ++ rest = right.label ++ other) : left = right ∧ rest = other := by
  have hlists : left.label.toList ++ rest.toList = right.label.toList ++ other.toList := by
    rw [← String.toList_append, ← String.toList_append, h]
  have hrule : left = right := by
    rcases List.prefix_or_prefix_of_prefix (List.prefix_append left.label.toList rest.toList)
      (hlists ▸ List.prefix_append right.label.toList other.toList) with hfront | hfront
    · exact eq_of_label_front hfront
    · exact (eq_of_label_front hfront).symm
  subst hrule
  exact ⟨rfl, String.toList_inj.mp (List.append_cancel_left hlists)⟩

theorem append_eq_append_iff (text rest other otherRest : String) :
    text ++ rest = other ++ otherRest ↔
      (∃ moved, other = text ++ moved ∧ rest = moved ++ otherRest) ∨
        ∃ moved, text = other ++ moved ∧ otherRest = moved ++ rest := by
  constructor
  · intro h
    have hlists : text.toList ++ rest.toList = other.toList ++ otherRest.toList := by
      rw [← String.toList_append, ← String.toList_append, h]
    rcases List.append_eq_append_iff.mp hlists with ⟨moved, hother, hrest⟩ | ⟨moved, htext, hrest⟩
    · refine Or.inl ⟨String.ofList moved, ?_, ?_⟩
      · rw [← String.toList_inj, String.toList_append, String.toList_ofList, hother]
      · rw [← String.toList_inj, String.toList_append, String.toList_ofList, hrest]
    · refine Or.inr ⟨String.ofList moved, ?_, ?_⟩
      · rw [← String.toList_inj, String.toList_append, String.toList_ofList, htext]
      · rw [← String.toList_inj, String.toList_append, String.toList_ofList, hrest]
  · rintro (⟨moved, rfl, rfl⟩ | ⟨moved, rfl, rfl⟩)
    · rw [String.append_assoc]
    · rw [String.append_assoc]

theorem hashedText_eq_iff (context : RenderContext) (left right : Diagnostic) :
    hashedText left context = hashedText right context ↔
      left.ruleId = right.ruleId ∧ (RunsOver context left right ∨ RunsOver context right left) := by
  rw [hashedText_eq, hashedText_eq]
  constructor
  · intro h
    obtain ⟨hrule, hrest⟩ := label_append_inj h
    exact ⟨hrule, (append_eq_append_iff _ _ _ _).mp hrest⟩
  · rintro ⟨hrule, hruns⟩
    rw [hrule, (append_eq_append_iff _ _ _ _).mpr hruns]

theorem fingerprintFor_eq_iff {md5 : Bytes → List UInt8} (hmd5 : Function.Injective md5)
    (context : RenderContext) (left right : Diagnostic) :
    fingerprintFor md5 left context = fingerprintFor md5 right context ↔
      hashedText left context = hashedText right context := by
  constructor
  · intro h
    exact bytesOf_injective (hmd5 (toHex_injective h))
  · intro h
    rw [fingerprintFor, fingerprintFor, h]

-- Two findings of one rule share a fingerprint where the file of one takes up what the other has
-- behind its file.
theorem fingerprints_apart_iff {md5 : Bytes → List UInt8} (hmd5 : Function.Injective md5)
    (context : RenderContext) (left right : Diagnostic) :
    (Differ context left right →
      fingerprintFor md5 left context ≠ fingerprintFor md5 right context) ↔
      ¬(Differ context left right ∧ left.ruleId = right.ruleId ∧
        (RunsOver context left right ∨ RunsOver context right left)) := by
  rw [← hashedText_eq_iff, ← fingerprintFor_eq_iff hmd5, not_and]

def raceAt (line column : Nat) (symbol : String) : Diagnostic :=
  let diagnostic := { Diagnostic.ofRule .DataRaceGlobal with
    location := { file := "a.c", line := line, column := column } }
  diagnostic.property "symbol" (.text symbol)

-- The digests of two texts, and for every other text one that no two share.
def twoDigests (text : Bytes) : List UInt8 :=
  if text = bytesOf "DataRaceGlobala.c123x" then
    [123, 165, 80, 233, 5, 165, 10, 99, 228, 111, 150, 235, 185, 137, 8, 184]
  else if text = bytesOf "DataRaceGlobala.c133x" then
    [199, 26, 202, 78, 241, 246, 82, 39, 4, 187, 238, 10, 155, 105, 184, 4]
  else List.replicate 17 0 ++ text

theorem twoDigests_injective : Function.Injective twoDigests := by
  intro left right h
  unfold twoDigests at h
  -- A digest has 16 bytes and every other value more.
  split_ifs at h <;> first | exact List.append_cancel_left h | grind

-- A race one line further down has a fingerprint of its own.
theorem fingerprints_apart_iff_races :
    fingerprintFor twoDigests (raceAt 12 3 "x") {} ≠
      fingerprintFor twoDigests (raceAt 13 3 "x") {} := by
  have hdiffer : Differ {} (raceAt 12 3 "x") (raceAt 13 3 "x") := by
    refine Or.inr (Or.inr (Or.inl ?_))
    decide
  have hfile : effectiveFile (raceAt 12 3 "x").location {} =
      effectiveFile (raceAt 13 3 "x").location {} := rfl
  have hafter : afterFile (raceAt 12 3 "x") ≠ afterFile (raceAt 13 3 "x") := by decide +kernel
  refine (fingerprints_apart_iff twoDigests_injective {} _ _).mpr ?_ hdiffer
  rintro ⟨-, -, hruns | hruns⟩
  · exact hafter ((runsOver_iff_of_same_file hfile).mp hruns)
  · exact hafter ((runsOver_iff_of_same_file hfile.symm).mp hruns).symm

-- Line 1, column 11 and line 11, column 1 are fed as the same characters.
theorem digits_run_together :
    Differ {} (raceAt 1 11 "x") (raceAt 11 1 "x") ∧
      ¬∃ md5 : Bytes → List UInt8,
        fingerprintFor md5 (raceAt 1 11 "x") {} ≠ fingerprintFor md5 (raceAt 11 1 "x") {} := by
  refine ⟨Or.inr (Or.inr (Or.inl (by decide))), ?_⟩
  rintro ⟨md5, hne⟩
  have hfed : hashedText (raceAt 1 11 "x") {} = hashedText (raceAt 11 1 "x") {} := by
    decide +kernel
  exact hne (by rw [fingerprintFor, fingerprintFor, hfed])

end Reporting

end ConcurrencyAnalyzer
