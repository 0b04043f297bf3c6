import ConcurrencyAnalyzer.CrossTU.Coordinator
import ConcurrencyAnalyzer.Library.DecimalText
import ConcurrencyAnalyzer.Library.Delimiter
import Mathlib.Data.Nat.Digits.Lemmas

namespace ConcurrencyAnalyzer.CrossTU

def diagnosticId (place : Nat) : String := "diag-" ++ toString (place + 1)

-- A report whose diagnostics are numbered in their order.
def InOrder (report : List Diagnostic) : Prop :=
  ∀ place diagnostic, report[place]? = some diagnostic → diagnostic.id = diagnosticId place

def mergeReport (report diagnostics : List Diagnostic) : List Diagnostic :=
  diagnostics.foldl mergeDiagnostic report

def mergeReports (reports : List (List Diagnostic)) : List Diagnostic :=
  reports.foldl mergeReport []

-- What a report adds to those merged before it.
def keptOf (before : List (List Diagnostic)) (report : List Diagnostic) : List Diagnostic :=
  (mergeReport (mergeReports before) report).drop (mergeReports before).length

def SameFinding (lhs rhs : Diagnostic) : Prop :=
  lhs.ruleId = rhs.ruleId ∧ lhs.location.file = rhs.location.file ∧
    lhs.location.line = rhs.location.line ∧ lhs.location.column = rhs.location.column ∧
    lhs.message = rhs.message

-- A property of each report beside those before it.
def EachAfter (holds : List (List Diagnostic) → List Diagnostic → Prop) :
    List (List Diagnostic) → List (List Diagnostic) → Prop
  | _, [] => True
  | before, report :: rest => holds before report ∧ EachAfter holds (before ++ [report]) rest

-- A report adds no finding of another unit, and loses none that no other has.
def AddsNews (before : List (List Diagnostic)) (report : List Diagnostic) : Prop :=
  (∀ known ∈ mergeReports before, ∀ kept ∈ keptOf before report, ¬SameFinding known kept) ∧
    ∀ diagnostic ∈ report, diagnostic ∈ keptOf before report ∨
      ∃ known ∈ mergeReports before, SameFinding known diagnostic

structure SaysOnce (reports : List (List Diagnostic)) : Prop where
  news : EachAfter AddsNews [] reports
  ids : ((mergeReports reports).map (·.id)).Nodup

-- A report goes on where those before it stop: up to there it repeats them, place by place in the
-- same words, and past it, it has findings of its own.
def GoesOn (before : List (List Diagnostic)) (report : List Diagnostic) : Prop :=
  ∀ place diagnostic, report[place]? = some diagnostic →
    if ∃ known ∈ before, place < known.length then
      (∀ known ∈ before, ∀ copy, known[place]? = some copy →
        describeFinding copy = describeFinding diagnostic) ∧
      ∃ known ∈ before, ∃ copy ∈ known, SameFinding copy diagnostic
    else ∀ known ∈ before, ∀ copy ∈ known, ¬SameFinding copy diagnostic

theorem SameFinding.refl (diagnostic : Diagnostic) : SameFinding diagnostic diagnostic :=
  ⟨rfl, rfl, rfl, rfl, rfl⟩

theorem SameFinding.trans {first second third : Diagnostic} (h : SameFinding first second)
    (hnext : SameFinding second third) : SameFinding first third :=
  ⟨h.1.trans hnext.1, h.2.1.trans hnext.2.1, h.2.2.1.trans hnext.2.2.1,
    h.2.2.2.1.trans hnext.2.2.2.1, h.2.2.2.2.trans hnext.2.2.2.2⟩

theorem diagnosticId_injective : Function.Injective diagnosticId := by
  intro place other h
  have hlist := congrArg String.toList h
  rw [diagnosticId, diagnosticId, String.toList_append, String.toList_append,
    List.append_cancel_left_eq] at hlist
  exact Nat.succ_injective (Library.natText_injective hlist)

theorem bar_notMem_diagnosticId (place : Nat) : '|' ∉ (diagnosticId place).toList := by
  rw [diagnosticId, String.toList_append, List.mem_append, not_or]
  exact ⟨by decide, Library.notMem_natText (by decide) _⟩

-- Two numbered diagnostics have one key when they have one number and one text.
theorem diagnosticKey_eq_iff {diagnostic other : Diagnostic} {place place' : Nat}
    (h : diagnostic.id = diagnosticId place) (hother : other.id = diagnosticId place') :
    diagnosticKey diagnostic = diagnosticKey other ↔
      place = place' ∧ describeFinding diagnostic = describeFinding other := by
  have hkey (diagnostic : Diagnostic) :
      diagnosticKey diagnostic = diagnostic.id ++ "|" ++ describeFinding diagnostic := by
    simp only [diagnosticKey, describeFinding, String.append_assoc]
  rw [hkey, hkey, h, hother]
  constructor
  · intro hsame
    have hlist := congrArg String.toList hsame
    simp only [String.toList_append, List.append_assoc] at hlist
    obtain ⟨hid, hfinding⟩ := Library.Delimiter.split_single (bar_notMem_diagnosticId place)
      (bar_notMem_diagnosticId place') hlist
    exact ⟨diagnosticId_injective (String.toList_inj.mp hid), String.toList_inj.mp hfinding⟩
  · rintro ⟨rfl, hfinding⟩
    rw [hfinding]

-- What a merge of numbered reports that go on where the earlier ones stop has come to.
structure Merged (before : List (List Diagnostic)) (merged : List Diagnostic) : Prop where
  inOrder : InOrder merged
  texts : ∀ report ∈ before, ∀ (place : Nat) diagnostic, report[place]? = some diagnostic →
    ∃ known, merged[place]? = some known ∧ describeFinding diagnostic = describeFinding known
  taken : ∀ known ∈ merged, ∃ report ∈ before, known ∈ report
  reached : ∀ place < merged.length, ∃ report ∈ before, place < report.length
  told : ∀ report ∈ before, ∀ diagnostic ∈ report, ∃ known ∈ merged, SameFinding known diagnostic

theorem Merged.length_le {before : List (List Diagnostic)} {merged : List Diagnostic}
    (h : Merged before merged) {report : List Diagnostic} (hreport : report ∈ before) :
    report.length ≤ merged.length := by
  by_contra hlong
  obtain ⟨known, hknown, _⟩ := h.texts report hreport merged.length _
    (List.getElem?_eq_getElem (not_le.mp hlong))
  rw [List.getElem?_eq_none le_rfl] at hknown
  exact absurd hknown (by simp)

theorem Merged.reached_iff {before : List (List Diagnostic)} {merged : List Diagnostic}
    (h : Merged before merged) (place : Nat) :
    (∃ report ∈ before, place < report.length) ↔ place < merged.length :=
  ⟨fun ⟨_, hreport, hplace⟩ => hplace.trans_le (h.length_le hreport), h.reached place⟩

theorem mergeDiagnostic_cases (report : List Diagnostic) (diagnostic : Diagnostic) :
    ((∃ known ∈ report, diagnosticKey known = diagnosticKey diagnostic) ∧
        mergeDiagnostic report diagnostic = report) ∨
      ((∀ known ∈ report, diagnosticKey known ≠ diagnosticKey diagnostic) ∧
        mergeDiagnostic report diagnostic = report ++ [diagnostic]) := by
  unfold mergeDiagnostic
  by_cases hcopy : report.any (diagnosticKey · = diagnosticKey diagnostic)
  · rw [if_pos hcopy]
    exact .inl ⟨by simpa using hcopy, rfl⟩
  · rw [if_neg hcopy]
    exact .inr ⟨by simpa using hcopy, rfl⟩

theorem mergeReport_grows (report diagnostics : List Diagnostic) :
    report <+: mergeReport report diagnostics := by
  induction diagnostics generalizing report with
  | nil => exact List.prefix_rfl
  | cons diagnostic rest ih =>
      refine List.IsPrefix.trans ?_ (ih (mergeDiagnostic report diagnostic))
      rcases mergeDiagnostic_cases report diagnostic with ⟨_, hmerged⟩ | ⟨_, hmerged⟩
      · rw [hmerged]
      · rw [hmerged]
        exact List.prefix_append report [diagnostic]

theorem mergeReports_append (before rest : List (List Diagnostic)) :
    mergeReports (before ++ rest) = rest.foldl mergeReport (mergeReports before) := by
  rw [mergeReports, List.foldl_append]
  rfl

theorem mergeReports_grow (before rest : List (List Diagnostic)) :
    mergeReports before <+: mergeReports (before ++ rest) := by
  rw [mergeReports_append]
  generalize mergeReports before = report
  induction rest generalizing report with
  | nil => exact List.prefix_rfl
  | cons next rest ih => exact (mergeReport_grows report next).trans (ih (mergeReport report next))

theorem mergeReports_concat (before : List (List Diagnostic)) (report : List Diagnostic) :
    mergeReports (before ++ [report]) = mergeReports before ++ keptOf before report := by
  rw [mergeReports_append]
  exact (List.prefix_iff_eq_append.mp (mergeReport_grows (mergeReports before) report)).symm

def isCopy (known : List Diagnostic) (place : Nat) (diagnostic : Diagnostic) : Bool :=
  known[place]?.any (describeFinding · = describeFinding diagnostic)

theorem isCopy_iff {known : List Diagnostic} {place : Nat} {diagnostic : Diagnostic} :
    isCopy known place diagnostic = true ↔ ∃ copy, known[place]? = some copy ∧
      describeFinding copy = describeFinding diagnostic := by
  rw [isCopy, Option.any_eq_true]
  simp

-- A diagnostic is a copy of the one that has its number and its text.
theorem copied_iff {known tail : List Diagnostic} (hknown : InOrder known) {place : Nat}
    (htail : ∀ kept ∈ tail, ∃ number < place, kept.id = diagnosticId number)
    {diagnostic : Diagnostic} (hid : diagnostic.id = diagnosticId place) :
    (∃ copy ∈ known ++ tail, diagnosticKey copy = diagnosticKey diagnostic) ↔
      isCopy known place diagnostic = true := by
  rw [isCopy_iff]
  constructor
  · rintro ⟨copy, hcopy, hkey⟩
    rcases List.mem_append.mp hcopy with hmem | hmem
    · obtain ⟨number, hlt, rfl⟩ := List.getElem_of_mem hmem
      have hat := List.getElem?_eq_getElem hlt
      obtain ⟨rfl, htext⟩ := (diagnosticKey_eq_iff (hknown number _ hat) hid).mp hkey
      exact ⟨_, hat, htext⟩
    · obtain ⟨number, hlt, hnumber⟩ := htail copy hmem
      obtain ⟨rfl, _⟩ := (diagnosticKey_eq_iff hnumber hid).mp hkey
      omega
  · rintro ⟨copy, hcopy, htext⟩
    refine ⟨copy, List.mem_append_left _ (List.mem_of_getElem? hcopy), ?_⟩
    exact (diagnosticKey_eq_iff (hknown place copy hcopy) hid).mpr ⟨rfl, htext⟩

-- A numbered report merges into one: what is no copy is kept. Here `place` counts the diagnostics of
-- the report already looked at, and `tail` is what is kept of them.
theorem mergeReport_kept {known : List Diagnostic} (hknown : InOrder known)
    (diagnostics : List Diagnostic) (place : Nat) (hdiagnostics : ∀ (number : Nat) diagnostic,
      diagnostics[number]? = some diagnostic → diagnostic.id = diagnosticId (place + number))
    (tail : List Diagnostic) (htail : ∀ kept ∈ tail, ∃ number < place, kept.id = diagnosticId number) :
    mergeReport (known ++ tail) diagnostics = known ++ tail ++
      (diagnostics.zipIdx place).filterMap fun entry =>
        if isCopy known entry.2 entry.1 then none else some entry.1 := by
  induction diagnostics generalizing place tail with
  | nil => simp [mergeReport]
  | cons diagnostic rest ih =>
      have hid : diagnostic.id = diagnosticId place := hdiagnostics 0 diagnostic rfl
      have hrest : ∀ (number : Nat) next, rest[number]? = some next →
          next.id = diagnosticId (place + 1 + number) := by
        intro number next hnext
        rw [hdiagnostics (number + 1) next hnext]
        congr 1
        omega
      have hlater (kept : List Diagnostic) (hkept : ∀ next ∈ kept, next = diagnostic) :
          ∀ next ∈ tail ++ kept, ∃ number < place + 1, next.id = diagnosticId number := by
        intro next hnext
        rcases List.mem_append.mp hnext with hmem | hmem
        · obtain ⟨number, hlt, hnumber⟩ := htail next hmem
          exact ⟨number, by omega, hnumber⟩
        · rw [hkept next hmem]
          exact ⟨place, by omega, hid⟩
      rw [mergeReport, List.foldl_cons, ← mergeReport, List.zipIdx_cons, List.filterMap_cons]
      rcases mergeDiagnostic_cases (known ++ tail) diagnostic with ⟨hcopy, hmerged⟩ | ⟨hnew, hmerged⟩
      · rw [hmerged, if_pos ((copied_iff hknown htail hid).mp hcopy)]
        have hdropped := ih (place + 1) hrest (tail ++ []) (hlater [] (by simp))
        rwa [List.append_nil] at hdropped
      · have hnot : ¬isCopy known place diagnostic = true := by
          rw [← copied_iff hknown htail hid]
          rintro ⟨copy, hcopy, hkey⟩
          exact hnew copy hcopy hkey
        rw [hmerged, if_neg hnot, List.append_assoc,
          ih (place + 1) hrest (tail ++ [diagnostic]) (hlater [diagnostic] (by simp))]
        simp

theorem keptOf_inOrder {before : List (List Diagnostic)} {report : List Diagnostic}
    (hbefore : InOrder (mergeReports before)) (hreport : InOrder report) :
    keptOf before report = (report.zipIdx 0).filterMap fun entry =>
      if isCopy (mergeReports before) entry.2 entry.1 then none else some entry.1 := by
  have hnumbered : ∀ (number : Nat) diagnostic, report[number]? = some diagnostic →
      diagnostic.id = diagnosticId (0 + number) := by
    intro number diagnostic hdiagnostic
    rw [Nat.zero_add]
    exact hreport number diagnostic hdiagnostic
  have hkept := mergeReport_kept hbefore report 0 hnumbered [] (by simp)
  rw [List.append_nil] at hkept
  rw [keptOf, hkept, List.drop_left]

theorem mem_keptOf {before : List (List Diagnostic)} {report : List Diagnostic}
    (hbefore : InOrder (mergeReports before)) (hreport : InOrder report) {diagnostic : Diagnostic} :
    diagnostic ∈ keptOf before report ↔ ∃ place : Nat, report[place]? = some diagnostic ∧
      isCopy (mergeReports before) place diagnostic = false := by
  rw [keptOf_inOrder hbefore hreport, List.mem_filterMap]
  constructor
  · rintro ⟨⟨next, place⟩, hmem, hnext⟩
    rw [List.mem_zipIdx_iff_getElem?] at hmem
    split at hnext
    · exact absurd hnext (by simp)
    · obtain rfl := Option.some_inj.mp hnext
      exact ⟨place, hmem, Bool.eq_false_iff.mpr ‹_›⟩
  · rintro ⟨place, hplace, hnot⟩
    refine ⟨(diagnostic, place), ?_, if_neg (by simp [hnot])⟩
    rw [List.mem_zipIdx_iff_getElem?]
    exact hplace

section Step

variable {before : List (List Diagnostic)} {report : List Diagnostic}

theorem GoesOn.copied (h : GoesOn before report) (hmerged : Merged before (mergeReports before))
    {place : Nat} {diagnostic : Diagnostic} (hplace : report[place]? = some diagnostic)
    (hlt : place < (mergeReports before).length) :
    isCopy (mergeReports before) place diagnostic = true := by
  have hreached := (hmerged.reached_iff place).mpr hlt
  have hgoes := h place diagnostic hplace
  rw [if_pos hreached] at hgoes
  obtain ⟨known, hknown, hknownLt⟩ := hreached
  have hat := List.getElem?_eq_getElem hknownLt
  obtain ⟨copy, hcopy, htext⟩ := hmerged.texts known hknown place _ hat
  exact isCopy_iff.mpr ⟨copy, hcopy, htext.symm.trans (hgoes.1 known hknown _ hat)⟩

-- All that a report which goes on adds is what it has past the earlier ones.
theorem GoesOn.keptOf_eq (h : GoesOn before report) (hmerged : Merged before (mergeReports before))
    (hreport : InOrder report) :
    keptOf before report = report.drop (mergeReports before).length := by
  rw [keptOf_inOrder hmerged.inOrder hreport]
  generalize hlength : (mergeReports before).length = length at h hmerged ⊢
  conv_lhs => rw [← List.take_append_drop length report, List.zipIdx_append, List.filterMap_append]
  have hcopies : ((report.take length).zipIdx 0).filterMap (fun entry =>
      if isCopy (mergeReports before) entry.2 entry.1 then none else some entry.1) = [] := by
    rw [List.filterMap_eq_nil_iff]
    rintro ⟨diagnostic, place⟩ hmem
    rw [List.mem_zipIdx_iff_getElem?] at hmem
    obtain ⟨hlt, _⟩ := List.getElem?_eq_some_iff.mp hmem
    rw [List.length_take] at hlt
    rw [List.getElem?_take_of_lt (by omega)] at hmem
    exact if_pos (h.copied hmerged hmem (by omega))
  have hnew : ((report.drop length).zipIdx (0 + (report.take length).length)).filterMap (fun entry =>
      if isCopy (mergeReports before) entry.2 entry.1 then none else some entry.1) =
        report.drop length := by
    have hsome : ∀ entry ∈ (report.drop length).zipIdx (0 + (report.take length).length),
        (if isCopy (mergeReports before) entry.2 entry.1 then none else some entry.1) =
          some entry.1 := by
      rintro ⟨diagnostic, place⟩ hmem
      obtain ⟨hle, hlt, _⟩ := List.mem_zipIdx hmem
      rw [List.length_drop] at hlt
      rw [List.length_take] at hle hlt
      have hpast : (mergeReports before)[place]? = none := List.getElem?_eq_none (by omega)
      rw [if_neg]
      simp [isCopy, hpast]
    rw [List.filterMap_congr hsome, congrFun List.filterMap_eq_map', List.zipIdx_map_fst]
  rw [hcopies, hnew, List.nil_append]

theorem getElem?_mergeReports (h : GoesOn before report) (hmerged : Merged before (mergeReports before))
    (hreport : InOrder report) (place : Nat) :
    (mergeReports (before ++ [report]))[place]? =
      if place < (mergeReports before).length then (mergeReports before)[place]? else report[place]? := by
  rw [mergeReports_concat, h.keptOf_eq hmerged hreport]
  by_cases hlt : place < (mergeReports before).length
  · rw [if_pos hlt, List.getElem?_append_left hlt]
  · rw [if_neg hlt, List.getElem?_append_right (not_lt.mp hlt), List.getElem?_drop]
    congr 1
    omega

theorem GoesOn.told (h : GoesOn before report) (hmerged : Merged before (mergeReports before))
    {place : Nat} {diagnostic : Diagnostic} (hplace : report[place]? = some diagnostic)
    (hlt : place < (mergeReports before).length) :
    ∃ known ∈ mergeReports before, SameFinding known diagnostic := by
  have hgoes := h place diagnostic hplace
  rw [if_pos ((hmerged.reached_iff place).mpr hlt)] at hgoes
  obtain ⟨_, earlier, hearlier, copy, hcopy, hsame⟩ := hgoes
  obtain ⟨known, hknown, htold⟩ := hmerged.told earlier hearlier copy hcopy
  exact ⟨known, hknown, htold.trans hsame⟩

theorem GoesOn.merged (h : GoesOn before report) (hmerged : Merged before (mergeReports before))
    (hreport : InOrder report) :
    Merged (before ++ [report]) (mergeReports (before ++ [report])) := by
  have hat := getElem?_mergeReports h hmerged hreport
  have hkept : ∀ known ∈ mergeReports before, known ∈ mergeReports (before ++ [report]) :=
    (mergeReports_grow before [report]).subset
  refine ⟨?_, ?_, ?_, ?_, ?_⟩
  · intro place diagnostic hplace
    rw [hat] at hplace
    split at hplace
    · exact hmerged.inOrder place diagnostic hplace
    · exact hreport place diagnostic hplace
  · intro earlier hearlier place diagnostic hplace
    rw [hat]
    rcases List.mem_append.mp hearlier with hearlier | hearlier
    · have hlt : place < (mergeReports before).length :=
        (List.getElem?_eq_some_iff.mp hplace).1.trans_le (hmerged.length_le hearlier)
      rw [if_pos hlt]
      exact hmerged.texts earlier hearlier place diagnostic hplace
    · obtain rfl := List.mem_singleton.mp hearlier
      split
      · obtain ⟨copy, hcopy, htext⟩ := isCopy_iff.mp (h.copied hmerged hplace ‹_›)
        exact ⟨copy, hcopy, htext.symm⟩
      · exact ⟨diagnostic, hplace, rfl⟩
  · intro known hknown
    rw [mergeReports_concat, h.keptOf_eq hmerged hreport] at hknown
    rcases List.mem_append.mp hknown with hknown | hknown
    · obtain ⟨earlier, hearlier, hmem⟩ := hmerged.taken known hknown
      exact ⟨earlier, List.mem_append_left _ hearlier, hmem⟩
    · exact ⟨report, List.mem_append_right _ (List.mem_singleton_self report),
        List.mem_of_mem_drop hknown⟩
  · intro place hplace
    by_cases hlt : place < (mergeReports before).length
    · obtain ⟨earlier, hearlier, hmem⟩ := hmerged.reached place hlt
      exact ⟨earlier, List.mem_append_left _ hearlier, hmem⟩
    · refine ⟨report, List.mem_append_right _ (List.mem_singleton_self report), ?_⟩
      rw [mergeReports_concat, h.keptOf_eq hmerged hreport, List.length_append,
        List.length_drop] at hplace
      omega
  · intro earlier hearlier diagnostic hdiagnostic
    rcases List.mem_append.mp hearlier with hearlier | hearlier
    · obtain ⟨known, hknown, hsame⟩ := hmerged.told earlier hearlier diagnostic hdiagnostic
      exact ⟨known, hkept known hknown, hsame⟩
    · obtain rfl := List.mem_singleton.mp hearlier
      obtain ⟨place, hplaceLt, rfl⟩ := List.getElem_of_mem hdiagnostic
      have hplace := List.getElem?_eq_getElem hplaceLt
      by_cases hlt : place < (mergeReports before).length
      · obtain ⟨known, hknown, hsame⟩ := h.told hmerged hplace hlt
        exact ⟨known, hkept known hknown, hsame⟩
      · refine ⟨_, List.mem_of_getElem? (i := place) ?_, SameFinding.refl _⟩
        rw [hat, if_neg hlt, hplace]

theorem GoesOn.addsNews (h : GoesOn before report) (hmerged : Merged before (mergeReports before))
    (hreport : InOrder report) : AddsNews before report := by
  refine ⟨fun known hknown kept hkept => ?_, fun diagnostic hdiagnostic => ?_⟩
  · rw [h.keptOf_eq hmerged hreport, List.mem_iff_getElem?] at hkept
    obtain ⟨place, hplace⟩ := hkept
    rw [List.getElem?_drop] at hplace
    have hgoes := h _ kept hplace
    rw [if_neg (by rw [hmerged.reached_iff]; omega)] at hgoes
    obtain ⟨earlier, hearlier, hmem⟩ := hmerged.taken known hknown
    exact hgoes earlier hearlier known hmem
  · obtain ⟨place, hplaceLt, rfl⟩ := List.getElem_of_mem hdiagnostic
    have hplace := List.getElem?_eq_getElem hplaceLt
    by_cases hlt : place < (mergeReports before).length
    · exact .inr (h.told hmerged hplace hlt)
    · refine .inl ?_
      rw [h.keptOf_eq hmerged hreport]
      refine List.mem_of_getElem? (i := place - (mergeReports before).length) ?_
      rw [List.getElem?_drop, ← hplace]
      congr 1
      omega

-- With distinct ids, a report that adds news goes on.
theorem goesOn_of_addsNews (hmerged : Merged before (mergeReports before)) (hreport : InOrder report)
    (hnews : AddsNews before report)
    (hids : ((mergeReports (before ++ [report])).map (·.id)).Nodup) : GoesOn before report := by
  rw [mergeReports_concat, List.map_append, List.nodup_append] at hids
  obtain ⟨_, _, hapart⟩ := hids
  -- A diagnostic at a number already given out is not kept.
  have hdropped {place : Nat} {diagnostic : Diagnostic} (hplace : report[place]? = some diagnostic)
      (hlt : place < (mergeReports before).length) : diagnostic ∉ keptOf before report := by
    intro hkept
    have hat := List.getElem?_eq_getElem hlt
    refine hapart _ (List.mem_map_of_mem (List.mem_of_getElem? hat)) _ (List.mem_map_of_mem hkept) ?_
    rw [hmerged.inOrder place _ hat, hreport place diagnostic hplace]
  intro place diagnostic hplace
  by_cases hlt : place < (mergeReports before).length
  · rw [if_pos ((hmerged.reached_iff place).mpr hlt)]
    have hnot := hdropped hplace hlt
    refine ⟨fun known hknown copy hcopy => ?_, ?_⟩
    · have hcopied : isCopy (mergeReports before) place diagnostic = true := by
        by_contra hfresh
        exact hnot ((mem_keptOf hmerged.inOrder hreport).mpr
          ⟨place, hplace, Bool.eq_false_iff.mpr hfresh⟩)
      obtain ⟨first, hfirst, htext⟩ := isCopy_iff.mp hcopied
      obtain ⟨same, hsame, hcopyText⟩ := hmerged.texts known hknown place copy hcopy
      rw [hfirst, Option.some.injEq] at hsame
      rw [hcopyText, ← hsame, htext]
    · rcases hnews.2 diagnostic (List.mem_of_getElem? hplace) with hkept | ⟨known, hknown, hsame⟩
      · exact absurd hkept hnot
      · obtain ⟨earlier, hearlier, hmem⟩ := hmerged.taken known hknown
        exact ⟨earlier, hearlier, known, hmem, hsame⟩
  · rw [if_neg (by rwa [hmerged.reached_iff])]
    intro known hknown copy hcopy hsame
    have hkept : diagnostic ∈ keptOf before report := by
      refine (mem_keptOf hmerged.inOrder hreport).mpr ⟨place, hplace, ?_⟩
      simp [isCopy, List.getElem?_eq_none (not_lt.mp hlt)]
    obtain ⟨told, htold, hcopied⟩ := hmerged.told known hknown copy hcopy
    exact hnews.1 told htold diagnostic hkept (hcopied.trans hsame)

end Step

theorem inOrder_nodup {report : List Diagnostic} (h : InOrder report) :
    (report.map (·.id)).Nodup := by
  rw [List.nodup_iff_injective_getElem]
  intro place other hsame
  have hid (place : Fin (report.map (·.id)).length) :
      (report.map (·.id))[place] = diagnosticId place := by
    have hlt : place < report.length := by simpa using place.isLt
    simp [h place _ (List.getElem?_eq_getElem hlt)]
  have hnumbers : diagnosticId place = diagnosticId other := by
    rw [← hid, ← hid]
    exact hsame
  exact Fin.ext (diagnosticId_injective hnumbers)

theorem merged_nil : Merged [] (mergeReports []) :=
  ⟨by simp [InOrder, mergeReports], by simp, by simp [mergeReports], by simp [mergeReports], by simp⟩

theorem eachAfter_iff (before rest : List (List Diagnostic)) (hrest : ∀ report ∈ rest, InOrder report)
    (hmerged : Merged before (mergeReports before)) :
    (EachAfter AddsNews before rest ∧ ((mergeReports (before ++ rest)).map (·.id)).Nodup) ↔
      EachAfter GoesOn before rest := by
  induction rest generalizing before with
  | nil =>
      rw [List.append_nil]
      exact ⟨fun _ => trivial, fun _ => ⟨trivial, inOrder_nodup hmerged.inOrder⟩⟩
  | cons report rest ih =>
      have hreport : InOrder report := hrest report List.mem_cons_self
      have hlater : ∀ next ∈ rest, InOrder next := fun next hnext =>
        hrest next (List.mem_cons_of_mem report hnext)
      have hsplit : before ++ report :: rest = before ++ [report] ++ rest := by simp
      rw [hsplit]
      constructor
      · rintro ⟨⟨hnews, hrestNews⟩, hids⟩
        have hsublist : ((mergeReports (before ++ [report])).map (·.id)).Sublist
            ((mergeReports (before ++ [report] ++ rest)).map (·.id)) :=
          (mergeReports_grow (before ++ [report]) rest).sublist.map _
        have hgoes := goesOn_of_addsNews hmerged hreport hnews (hids.sublist hsublist)
        exact ⟨hgoes, (ih _ hlater (hgoes.merged hmerged hreport)).mp ⟨hrestNews, hids⟩⟩
      · rintro ⟨hgoes, hrestGoes⟩
        obtain ⟨hrestNews, hids⟩ := (ih _ hlater (hgoes.merged hmerged hreport)).mpr hrestGoes
        exact ⟨⟨hgoes.addsNews hmerged hreport, hrestNews⟩, hids⟩

def unitReports (rules : List RuleId) (units : List AnalysedUnit) : List (List Diagnostic) :=
  units.map fun unit => finalizeReport (unitDiagnostics rules unit.facts)

theorem inOrder_finalizeReport (diagnostics : List Diagnostic) :
    InOrder (finalizeReport diagnostics) := by
  intro place diagnostic hplace
  rw [finalizeReport, List.getElem?_mapIdx, Option.map_eq_some_iff] at hplace
  obtain ⟨_, _, rfl⟩ := hplace
  rfl

theorem analyze_diagnostics (rules : List RuleId) (units : List ProjectUnit)
    (loads : Pass → Nat → Bool) :
    (analyze rules units loads).diagnostics =
      mergeReports (unitReports rules (secondPass rules units loads)) := by
  rw [mergeReports, unitReports, List.foldl_map]
  rfl

-- The report of a project says each thing once exactly where the reports of its units go on where
-- those before them stop.
theorem project_says_once_iff (rules : List RuleId) (units : List ProjectUnit)
    (loads : Pass → Nat → Bool) :
    (analyze rules units loads).diagnostics =
        mergeReports (unitReports rules (secondPass rules units loads)) ∧
      (SaysOnce (unitReports rules (secondPass rules units loads)) ↔
        EachAfter GoesOn [] (unitReports rules (secondPass rules units loads))) := by
  refine ⟨analyze_diagnostics rules units loads, ?_⟩
  have hreports : ∀ report ∈ unitReports rules (secondPass rules units loads), InOrder report := by
    intro report hreport
    obtain ⟨unit, _, rfl⟩ := List.mem_map.mp hreport
    exact inOrder_finalizeReport _
  rw [← eachAfter_iff [] _ hreports merged_nil]
  exact ⟨fun h => ⟨h.news, h.ids⟩, fun h => ⟨h.1, h.2⟩⟩

-- A unit whose only findings are waits outside a loop, at the given places.
def waitingUnit (places : List (String × Nat)) : ProjectUnit where
  identifier := "unit"
  module :=
    { collectConditionWaits := fun _ => places.map fun place =>
        { functionId := "wait", location := { file := place.1, line := place.2 } } }

def headerUnits : List ProjectUnit :=
  [waitingUnit [("wait.h", 10)], waitingUnit [("main.c", 5), ("wait.h", 10)]]

-- Both units include `wait.h`, and the second one waits in its own source too: it numbers the finding
-- of the header two, and the header is reported twice.
theorem header_reported_twice :
    (analyze [.ConditionWaitWithoutPredicate] headerUnits fun _ _ => true).diagnostics.map
        (fun diagnostic => (diagnostic.id, diagnostic.location.file, diagnostic.location.line)) =
      [("diag-1", "wait.h", 10), ("diag-1", "main.c", 5), ("diag-2", "wait.h", 10)] ∧
    ¬SaysOnce (unitReports [.ConditionWaitWithoutPredicate]
      (secondPass [.ConditionWaitWithoutPredicate] headerUnits fun _ _ => true)) := by
  have hreport : (analyze [.ConditionWaitWithoutPredicate] headerUnits fun _ _ => true).diagnostics.map
        (fun diagnostic => (diagnostic.id, diagnostic.location.file, diagnostic.location.line)) =
      [("diag-1", "wait.h", 10), ("diag-1", "main.c", 5), ("diag-2", "wait.h", 10)] := by
    decide +kernel
  refine ⟨hreport, fun honce => ?_⟩
  have hids := honce.ids
  rw [← analyze_diagnostics] at hids
  have hnumbers := congrArg (List.map Prod.fst) hreport
  rw [List.map_map] at hnumbers
  have hsame : (analyze [.ConditionWaitWithoutPredicate] headerUnits fun _ _ => true).diagnostics.map
      (·.id) = ["diag-1", "diag-1", "diag-2"] := hnumbers
  rw [hsame] at hids
  exact absurd hids (by decide)

end ConcurrencyAnalyzer.CrossTU
