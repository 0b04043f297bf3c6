import ConcurrencyAnalyzer.CompilerDiagnostics.Lines

namespace ConcurrencyAnalyzer.CompilerDiagnostics

-- A line that opens a diagnostic wherever it stands. Others do so at the start alone.
def startsPrimary (line : List Char) : Bool :=
  match parseStructuredLine line with
  | none => false
  | some parsed => parsed.severityLabel ≠ "note"

def primaryDiagnostic (inputFile : String) (line : List Char) : Diagnostic :=
  match parseStructuredLine line with
  | none => plainDiagnostic inputFile line
  | some parsed => parsedDiagnostic parsed line

def noteText (line : List Char) : String :=
  match parseStructuredLine line with
  | none => String.ofList line
  | some parsed => parsed.message

def noteLocation (line : List Char) : Option RelatedLocation :=
  (parseStructuredLine line).map fun parsed => ⟨"Compiler note", parsed.location⟩

-- A line with a diagnostic of its own and the lines after it that are notes of it.
structure Group where
  primary : List Char
  notes : List (List Char)

def Group.lines (group : Group) : List (List Char) := group.primary :: group.notes

def Group.diagnostic (inputFile : String) (group : Group) : Diagnostic :=
  { primaryDiagnostic inputFile group.primary with
    notes := group.notes.map noteText
    relatedLocations := group.notes.filterMap noteLocation }

def Group.addNote (group : Group) (line : List Char) : Group :=
  { group with notes := group.notes ++ [line] }

-- Each line is in one group, in its place.
structure Grouped (lines : List (List Char)) (groups : List Group) : Prop where
  all : groups.flatMap Group.lines = lines
  notes : ∀ group ∈ groups, ∀ line ∈ group.notes, startsPrimary line = false
  primaries : ∀ group ∈ groups.tail, startsPrimary group.primary = true

section Loop

variable {inputFile : String}

def addNote (line : List Char) (diagnostic : Diagnostic) : Diagnostic :=
  { diagnostic with
    notes := diagnostic.notes ++ [noteText line]
    relatedLocations := diagnostic.relatedLocations ++ (noteLocation line).toList }

theorem addLine_eq (state : ReportState) (line : List Char) :
    addLine inputFile state line =
      match state.currentPrimary with
      | none => state.emit (primaryDiagnostic inputFile line)
      | some primary =>
          if startsPrimary line then state.emit (primaryDiagnostic inputFile line)
          else state.changePrimary primary (addNote line) := by
  unfold addLine startsPrimary primaryDiagnostic addNote noteText noteLocation
  cases parseStructuredLine line with
  | none => cases state.currentPrimary <;> simp [Diagnostic.note]
  | some parsed =>
      by_cases hnote : parsed.severityLabel = "note" <;>
        cases state.currentPrimary <;>
          simp [hnote, Diagnostic.note, Diagnostic.relatedLocation]

theorem diagnostic_of_primary (line : List Char) :
    primaryDiagnostic inputFile line = Group.diagnostic inputFile ⟨line, []⟩ := by
  unfold Group.diagnostic primaryDiagnostic
  cases parseStructuredLine line <;> rfl

theorem diagnostic_addNote (group : Group) (line : List Char) :
    addNote line (group.diagnostic inputFile) = (group.addNote line).diagnostic inputFile := by
  simp only [addNote, Group.diagnostic, Group.addNote, List.map_append, List.filterMap_append]
  cases hlocation : noteLocation line <;> simp [hlocation]

theorem modify_last (groups : List Diagnostic) (last : Diagnostic)
    (change : Diagnostic → Diagnostic) :
    (groups ++ [last]).modify groups.length change = groups ++ [change last] := by
  induction groups with
  | nil => rfl
  | cons first groups ih => simp [ih]

-- The current primary is the last diagnostic, also while the report grows.
structure Holds (inputFile : String) (lines : List (List Char)) (state : ReportState) : Prop where
  groups : ∃ groups, Grouped lines groups ∧
    state.diagnostics = groups.map (Group.diagnostic inputFile)
  current : state.currentPrimary =
    if state.diagnostics.isEmpty then none else some (state.diagnostics.length - 1)

theorem Grouped.append_primary {lines : List (List Char)} {groups : List Group}
    (h : Grouped lines groups) {line : List Char}
    (hline : groups ≠ [] → startsPrimary line = true) :
    Grouped (lines ++ [line]) (groups ++ [⟨line, []⟩]) := by
  refine ⟨?_, ?_, ?_⟩
  · rw [List.flatMap_append, h.all]
    rfl
  · intro group hgroup
    rcases List.mem_append.mp hgroup with hgroup | hgroup
    · exact h.notes group hgroup
    · rw [List.mem_singleton.mp hgroup]
      simp
  · intro group hgroup
    cases groups with
    | nil => simp at hgroup
    | cons first groups =>
        rcases List.mem_append.mp hgroup with hgroup | hgroup
        · exact h.primaries group hgroup
        · rw [List.mem_singleton.mp hgroup]
          exact hline (by simp)

theorem Grouped.append_note {lines : List (List Char)} {groups : List Group} {last : Group}
    (h : Grouped lines (groups ++ [last])) {line : List Char}
    (hline : startsPrimary line = false) :
    Grouped (lines ++ [line]) (groups ++ [last.addNote line]) := by
  refine ⟨?_, ?_, ?_⟩
  · rw [← h.all]
    simp [Group.lines, Group.addNote]
  · intro group hgroup note hnote
    rcases List.mem_append.mp hgroup with hgroup | hgroup
    · exact h.notes group (List.mem_append_left _ hgroup) note hnote
    · rw [List.mem_singleton.mp hgroup] at hnote
      rcases List.mem_append.mp hnote with hnote | hnote
      · exact h.notes last (by simp) note hnote
      · rw [List.mem_singleton.mp hnote]
        exact hline
  · intro group hgroup
    cases groups with
    | nil => simp at hgroup
    | cons first groups =>
        rcases List.mem_append.mp hgroup with hgroup | hgroup
        · exact h.primaries group (List.mem_append_left _ hgroup)
        · rw [List.mem_singleton.mp hgroup]
          exact h.primaries last (by simp)

theorem holds_emit {lines : List (List Char)} {state : ReportState} {line : List Char}
    (h : Holds inputFile lines state)
    (hline : state.diagnostics ≠ [] → startsPrimary line = true) :
    Holds inputFile (lines ++ [line]) (state.emit (primaryDiagnostic inputFile line)) := by
  obtain ⟨⟨groups, hgrouped, hdiagnostics⟩, -⟩ := h
  refine ⟨⟨groups ++ [⟨line, []⟩], hgrouped.append_primary ?_, ?_⟩, ?_⟩
  · intro hgroups
    exact hline (by simpa [hdiagnostics] using hgroups)
  · rw [ReportState.emit, hdiagnostics, List.map_append, diagnostic_of_primary]
    rfl
  · simp [ReportState.emit]

-- What one line does: it opens a diagnostic or it becomes a note of the last one.
theorem holds_addLine {lines : List (List Char)} {state : ReportState}
    (h : Holds inputFile lines state) (line : List Char) :
    Holds inputFile (lines ++ [line]) (addLine inputFile state line) := by
  rw [addLine_eq, h.current]
  by_cases hempty : state.diagnostics.isEmpty = true
  · rw [if_pos hempty]
    exact holds_emit h fun hne => absurd (List.isEmpty_iff.mp hempty) hne
  · rw [if_neg hempty]
    dsimp only
    by_cases hstarts : startsPrimary line = true
    · rw [if_pos hstarts]
      exact holds_emit h fun _ => hstarts
    · rw [if_neg hstarts]
      obtain ⟨⟨groups, hgrouped, hdiagnostics⟩, hcurrent⟩ := h
      obtain ⟨front, last, rfl⟩ : ∃ front last, groups = front ++ [last] := by
        cases List.eq_nil_or_concat groups with
        | inl hnil => simp [hdiagnostics, hnil] at hempty
        | inr hconcat => simpa [List.concat_eq_append] using hconcat
      have hmodified : state.diagnostics.modify (state.diagnostics.length - 1) (addNote line) =
          (front ++ [last.addNote line]).map (Group.diagnostic inputFile) := by
        have hlength : state.diagnostics.length - 1 =
            (front.map (Group.diagnostic inputFile)).length := by simp [hdiagnostics]
        rw [hlength, hdiagnostics, List.map_append, List.map_singleton, modify_last,
          diagnostic_addNote, List.map_append, List.map_singleton]
      refine ⟨⟨front ++ [last.addNote line], hgrouped.append_note (eq_false_of_ne_true hstarts),
        hmodified⟩, ?_⟩
      simp [ReportState.changePrimary, hcurrent, hdiagnostics]

theorem holds_lines (lines : List (List Char)) :
    Holds inputFile lines (lines.foldl (addLine inputFile) {}) := by
  induction lines using List.reverseRecOn with
  | nil => exact ⟨⟨[], ⟨rfl, by simp, by simp⟩, rfl⟩, rfl⟩
  | append_singleton lines line ih =>
      rw [List.foldl_append]
      exact holds_addLine ih line

theorem foldl_addRawLine (text : List Char) :
    (splitLines text).foldl (addRawLine inputFile) {} =
      (nonBlankLines text).foldl (addLine inputFile) {} := by
  have hraw : addRawLine inputFile = fun state rawLine =>
      if trim rawLine ≠ [] then addLine inputFile state (trim rawLine) else state := by
    funext state rawLine
    by_cases hblank : trim rawLine = [] <;> simp [addRawLine, hblank]
  rw [← filter_splitLines, List.foldl_filter, List.foldl_map, hraw]
  simp only [decide_eq_true_eq]

end Loop

section Report

variable {rawDiagnostics : List Char} {error : CompileError} {inputFile : String}

def unnumbered (diagnostic : Diagnostic) : Diagnostic := { diagnostic with id := "" }

-- Each line that is not blank is one primary diagnostic or one note of the last one before it, and
-- nothing else is in the report.
structure Conserves (rawDiagnostics : List Char) (inputFile : String)
    (report : DiagnosticReport × DiagnosticSummary) : Prop where
  diagnostics : ∃ groups, Grouped (nonBlankLines rawDiagnostics) groups ∧
    (report.1.diagnostics.map unnumbered).Perm (groups.map (Group.diagnostic inputFile))
  notices : report.1.notices = []
  sorted : report.1.diagnostics.Pairwise fun lhs rhs => locationKey lhs ≤ locationKey rhs
  ids : report.1.diagnostics.map (·.id) =
    (List.range report.1.diagnostics.length).map fun index => "diag-" ++ toString (index + 1)
  info : report.2.info = report.1.diagnostics.countP (·.severity = .Info)
  warning : report.2.warning = report.1.diagnostics.countP (·.severity = .Warning)
  error : report.2.error = report.1.diagnostics.countP (·.severity = .Error)

-- What a line says. Its numbers fit an `unsigned`.
structure ReadsFields : Prop where
  structured : ∀ fields : StructuredText, fields.Readable →
    decimalValue fields.lineText < 2 ^ 32 → decimalValue fields.columnText < 2 ^ 32 →
    parseStructuredLine (trim fields.text) =
      some {
        location := {
          file := String.ofList (fields.file.dropWhile isSpace)
          line := decimalValue fields.lineText
          column := decimalValue fields.columnText
          endLine := decimalValue fields.lineText
          endColumn := decimalValue fields.columnText }
        severity := mapSeverity (String.ofList (trim fields.severityText))
        severityLabel := String.ofList (trim fields.severityText)
        message := String.ofList (trim fields.message) }
  printed : ∀ (file : List Char) (line column : Nat) (severity : String) (message : List Char),
    ':' ∉ file → line < 2 ^ 32 → column < 2 ^ 32 → severity ∈ severityTokens →
    parseStructuredLine (trim (printedLine file line column severity message)) =
      some {
        location := {
          file := String.ofList (file.dropWhile isSpace)
          line := line
          column := column
          endLine := line
          endColumn := column }
        severity := mapSeverity severity
        severityLabel := severity
        message := String.ofList (trim message) }
  other : ∀ line : List Char, (¬∃ fields : StructuredText, fields.Readable ∧ fields.text = line) →
    parseStructuredLine line = none

theorem summarize_eq (diagnostics : List Diagnostic) :
    (summarize diagnostics).info = diagnostics.countP (·.severity = .Info) ∧
      (summarize diagnostics).warning = diagnostics.countP (·.severity = .Warning) ∧
      (summarize diagnostics).error = diagnostics.countP (·.severity = .Error) := by
  unfold summarize
  induction diagnostics using List.reverseRecOn with
  | nil => exact ⟨rfl, rfl, rfl⟩
  | append_singleton diagnostics diagnostic ih =>
      obtain ⟨hinfo, hwarning, herror⟩ := ih
      rw [List.foldl_append, List.foldl_cons, List.foldl_nil, List.countP_append,
        List.countP_append, List.countP_append]
      cases hseverity : diagnostic.severity <;>
        simp [countSeverity, hseverity, hinfo, hwarning, herror]

theorem reads_fields : ReadsFields where
  structured _ hreadable hline hcolumn := parse_trim_text hreadable hline hcolumn
  printed _ _ _ _ message hfile hline hcolumn hseverity :=
    parse_printedLine message hfile hline hcolumn hseverity
  other line hnone := by
    cases hparsed : parseStructuredLine line with
    | none => rfl
    | some parsed => exact absurd (exists_readable hparsed) hnone

theorem unnumbered_numbered (index : Nat) {diagnostic : Diagnostic} (h : diagnostic.id = "") :
    unnumbered (numbered index diagnostic) = diagnostic := by
  cases diagnostic
  simp_all [unnumbered, numbered]

-- Numbering tells nothing but the place.
theorem map_unnumbered_mapIdx {diagnostics : List Diagnostic}
    (h : ∀ diagnostic ∈ diagnostics, diagnostic.id = "") :
    (diagnostics.mapIdx numbered).map unnumbered = diagnostics := by
  apply List.ext_getElem (by simp)
  intro index hleft hright
  have hid := h _ (List.getElem_mem hright)
  rw [List.getElem_map, List.getElem_mapIdx, unnumbered_numbered index hid]

theorem map_id_mapIdx (diagnostics : List Diagnostic) :
    (diagnostics.mapIdx numbered).map (·.id) =
      (List.range diagnostics.length).map fun index => "diag-" ++ toString (index + 1) := by
  apply List.ext_getElem (by simp)
  intro index hleft hright
  simp [numbered]

theorem pairwise_mapIdx {diagnostics : List Diagnostic}
    (h : diagnostics.Pairwise fun lhs rhs => locationKey lhs ≤ locationKey rhs) :
    (diagnostics.mapIdx numbered).Pairwise fun lhs rhs => locationKey lhs ≤ locationKey rhs := by
  have hkeys : (diagnostics.mapIdx numbered).map locationKey = diagnostics.map locationKey := by
    apply List.ext_getElem (by simp)
    intro index hleft hright
    simp [locationKey, numbered]
  exact List.pairwise_map.mp (hkeys ▸ List.pairwise_map.mpr h)

theorem id_primaryDiagnostic (line : List Char) : (primaryDiagnostic inputFile line).id = "" := by
  unfold primaryDiagnostic
  cases parseStructuredLine line <;> rfl

theorem id_diagnostic (group : Group) : (group.diagnostic inputFile).id = "" :=
  id_primaryDiagnostic group.primary

theorem conserves_of_grouped {groups : List Group}
    (hgrouped : Grouped (nonBlankLines rawDiagnostics) groups) :
    let sorted := (groups.map (Group.diagnostic inputFile)).insertionSort
      fun lhs rhs => locationKey lhs ≤ locationKey rhs
    Conserves rawDiagnostics inputFile
      ({ diagnostics := sorted.mapIdx numbered }, summarize (sorted.mapIdx numbered)) := by
  intro sorted
  have hperm : sorted.Perm (groups.map (Group.diagnostic inputFile)) :=
    List.perm_insertionSort _ _
  have hids : ∀ diagnostic ∈ sorted, diagnostic.id = "" := by
    intro diagnostic hmem
    obtain ⟨group, -, rfl⟩ := List.mem_map.mp (hperm.mem_iff.mp hmem)
    exact id_diagnostic group
  obtain ⟨hinfo, hwarning, herror⟩ := summarize_eq (sorted.mapIdx numbered)
  refine ⟨⟨groups, hgrouped, ?_⟩, rfl, ?_, ?_, hinfo, hwarning, herror⟩
  · rw [map_unnumbered_mapIdx hids]
    exact hperm
  · have htotal : sorted.Pairwise fun lhs rhs => locationKey lhs ≤ locationKey rhs := by
      have : Std.Total fun lhs rhs : Diagnostic => locationKey lhs ≤ locationKey rhs :=
        ⟨fun lhs rhs => le_total _ _⟩
      have : IsTrans Diagnostic fun lhs rhs => locationKey lhs ≤ locationKey rhs :=
        ⟨fun _ _ _ => le_trans⟩
      exact List.pairwise_insertionSort _ _
    exact pairwise_mapIdx htotal
  · rw [map_id_mapIdx, List.length_mapIdx]

end Report

-- What the compiler printed is kept line by line, and each line is read for what it is.
theorem compiler_output_conserved (rawDiagnostics : List Char) (error : CompileError)
    (inputFile : String) (h : nonBlankLines rawDiagnostics ≠ []) :
    Conserves rawDiagnostics inputFile
      (parseCompilerDiagnostics rawDiagnostics error inputFile) ∧ ReadsFields := by
  obtain ⟨⟨groups, hgrouped, hdiagnostics⟩, -⟩ :=
    @holds_lines inputFile (nonBlankLines rawDiagnostics)
  have hnonempty : groups ≠ [] := by
    rintro rfl
    exact h hgrouped.all.symm
  have hparsed := @conserves_of_grouped rawDiagnostics inputFile groups hgrouped
  refine ⟨?_, reads_fields⟩
  rw [parseCompilerDiagnostics, foldl_addRawLine, hdiagnostics]
  rw [if_neg (by simpa using hnonempty)]
  exact hparsed

-- An error with a note, and a line before them that says nothing structured.
theorem compiler_output_conserved_note :
    Conserves "In file included\na.c:3:5: error: x: y\n\n a.c:1:1: note: here\n".toList "a.c"
      (parseCompilerDiagnostics
        "In file included\na.c:3:5: error: x: y\n\n a.c:1:1: note: here\n".toList {} "a.c") :=
  (compiler_output_conserved _ {} "a.c" (by decide +kernel)).1

-- A message that begins with a blank of its own loses it.
theorem printed_message_trimmed :
    ¬∀ (file : List Char) (line column : Nat) (severity : String) (message : List Char),
      ':' ∉ file → line < 2 ^ 32 → column < 2 ^ 32 → severity ∈ severityTokens →
      ((parseCompilerDiagnostics (printedLine file line column severity message) {}
        "a.c").1.diagnostics.map (·.message)) = [String.ofList message] := by
  intro h
  have hmessage := h "a.c".toList 1 2 "error" " x".toList (by decide) (by decide) (by decide)
    (by decide)
  revert hmessage
  decide +kernel

end ConcurrencyAnalyzer.CompilerDiagnostics
