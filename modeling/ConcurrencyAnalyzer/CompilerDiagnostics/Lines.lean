import ConcurrencyAnalyzer.CompilerDiagnostics.Parser

namespace ConcurrencyAnalyzer.CompilerDiagnostics

open Library

section Trimming

theorem dropWhile_append_cons {front rest : List Char} {ch : Char} (h : isSpace ch = false) :
    (front ++ ch :: rest).dropWhile isSpace = front.dropWhile isSpace ++ ch :: rest := by
  induction front with
  | nil => simp [h]
  | cons first front ih => by_cases hfirst : isSpace first <;> simp [hfirst, ih]

theorem rdropWhile_append_cons {front rest : List Char} {ch : Char} (h : isSpace ch = false) :
    (front ++ ch :: rest).rdropWhile isSpace = front ++ ch :: rest.rdropWhile isSpace := by
  induction rest using List.reverseRecOn with
  | nil => rw [List.rdropWhile_concat_neg _ _ _ (by simp [h]), List.rdropWhile_nil]
  | append_singleton rest last ih =>
      rw [← List.cons_append, ← List.append_assoc, List.rdropWhile_concat, ih,
        List.rdropWhile_concat]
      by_cases hlast : isSpace last <;> simp [hlast]

-- Spaces at the end of a text do not change what trimming leaves of it.
theorem trim_rdropWhile (text : List Char) : trim (text.rdropWhile isSpace) = trim text := by
  induction text using List.reverseRecOn with
  | nil => rfl
  | append_singleton text last ih =>
      by_cases hlast : isSpace last = true
      · rw [List.rdropWhile_concat_pos _ _ _ hlast, ih, trim, trim, List.dropWhile_append]
        split
        · rename_i hempty
          rw [List.isEmpty_iff] at hempty
          simp [hempty, hlast]
        · rw [List.rdropWhile_concat_pos _ _ _ hlast]
      · rw [List.rdropWhile_concat_neg _ _ _ hlast]

theorem trim_append_colon (front rest : List Char) :
    trim (front ++ ':' :: rest) = front.dropWhile isSpace ++ ':' :: rest.rdropWhile isSpace := by
  have hcolon : isSpace ':' = false := by decide
  rw [trim, dropWhile_append_cons hcolon, rdropWhile_append_cons hcolon]

end Trimming

section Lines

-- The lines that say something, as they are read.
def nonBlankLines (text : List Char) : List (List Char) :=
  ((text.splitOn '\n').map trim).filter (· ≠ [])

theorem filter_linesFrom (line text : List Char) :
    ((linesFrom line text).map trim).filter (· ≠ []) =
      (((text.splitOn '\n').modifyHead (line ++ ·)).map trim).filter (· ≠ []) := by
  induction text generalizing line with
  | nil =>
      cases line with
      | nil => simp [linesFrom, trim]
      | cons ch line => simp [linesFrom]
  | cons ch text ih =>
      rw [List.splitOn_cons_eq_if_modifyHead]
      by_cases hch : ch = '\n'
      · have hrest : ((linesFrom [] text).map trim).filter (· ≠ []) =
            ((text.splitOn '\n').map trim).filter (· ≠ []) := by
          rw [ih]
          congr 2
          exact congrFun List.modifyHead_id _
        simp only [linesFrom, hch, if_true, beq_self_eq_true, List.modifyHead_cons, List.append_nil,
          List.map_cons, List.filter_cons, hrest]
      · simp only [linesFrom, hch, if_false, beq_iff_eq, List.modifyHead_modifyHead, ih]
        congr 3
        funext rest
        simp

theorem filter_splitLines (text : List Char) :
    ((splitLines text).map trim).filter (· ≠ []) = nonBlankLines text := by
  cases text with
  | nil => rfl
  | cons ch text =>
      rw [splitLines, if_neg (by simp), filter_linesFrom, nonBlankLines]
      congr 2
      exact congrFun List.modifyHead_id _

end Lines

section Numbers

theorem le_ofDigitChars (text : List Char) (value : Nat) :
    value ≤ Nat.ofDigitChars 10 text value := by
  rw [Nat.ofDigitChars_eq_ofDigitChars_zero]
  have hpos : 0 < 10 ^ text.length := Nat.pow_pos (by omega)
  exact Nat.le_add_right_of_le (Nat.le_mul_of_pos_left _ hpos)

theorem foldlM_addDigit {text : List Char} (hdigits : ∀ ch ∈ text, ch.isDigit = true) (value : Nat)
    (hfits : Nat.ofDigitChars 10 text value < 2 ^ 32) :
    text.foldlM addDigit value = some (Nat.ofDigitChars 10 text value) := by
  induction text generalizing value with
  | nil => simp
  | cons ch text ih =>
      rw [Nat.ofDigitChars_cons] at hfits ⊢
      have hdigit := hdigits ch (List.mem_cons_self ..)
      have hle := le_ofDigitChars text (10 * value + (ch.toNat - '0'.toNat))
      have hstep : addDigit value ch = some (10 * value + (ch.toNat - '0'.toNat)) := by
        rw [addDigit, if_pos hdigit, Nat.mul_comm, Nat.mod_eq_of_lt (by omega)]
      rw [List.foldlM_cons, hstep]
      exact ih (fun other hother => hdigits other (List.mem_cons_of_mem _ hother)) _ hfits

theorem isDigit_of_foldlM {text : List Char} {value result : Nat}
    (h : text.foldlM addDigit value = some result) : ∀ ch ∈ text, ch.isDigit = true := by
  induction text generalizing value with
  | nil => simp
  | cons first text ih =>
      rw [List.foldlM_cons, addDigit] at h
      split at h
      · rename_i hfirst
        intro ch hch
        rcases List.mem_cons.mp hch with rfl | hch
        · exact hfirst
        · exact ih h ch hch
      · simp at h

theorem parseUnsigned_digits {text : List Char} (hne : text ≠ [])
    (hdigits : ∀ ch ∈ text, ch.isDigit = true) (hfits : decimalValue text < 2 ^ 32) :
    parseUnsigned text = some (decimalValue text) := by
  rw [parseUnsigned, if_neg (by simpa using hne)]
  exact foldlM_addDigit hdigits 0 hfits

theorem digits_of_parseUnsigned {text : List Char} {value : Nat}
    (h : parseUnsigned text = some value) : text ≠ [] ∧ ∀ ch ∈ text, ch.isDigit = true := by
  rw [parseUnsigned] at h
  split at h
  · simp at h
  · rename_i hne
    exact ⟨by simpa using hne, isDigit_of_foldlM h⟩

end Numbers

section Fields

theorem cutAtColon_append {field : List Char} (h : ':' ∉ field) (rest : List Char) :
    cutAtColon (field ++ ':' :: rest) = some (field, rest) := by
  induction field with
  | nil => simp [cutAtColon]
  | cons ch field ih =>
      rw [List.mem_cons, not_or] at h
      rw [List.cons_append, cutAtColon, if_neg (Ne.symm h.1), ih h.2]
      rfl

theorem cutAtColon_eq_some {text field rest : List Char}
    (h : cutAtColon text = some (field, rest)) :
    text = field ++ ':' :: rest ∧ ':' ∉ field := by
  induction text generalizing field with
  | nil => simp [cutAtColon] at h
  | cons ch text ih =>
      rw [cutAtColon] at h
      split at h
      · rename_i hch
        obtain ⟨rfl, rfl⟩ := Prod.mk.inj (Option.some.inj h)
        exact ⟨by rw [hch, List.nil_append], by simp⟩
      · rename_i hch
        obtain ⟨cut, hcut, heq⟩ := Option.map_eq_some_iff.mp h
        obtain ⟨rfl, rfl⟩ := Prod.mk.inj heq
        obtain ⟨htext, hfield⟩ := ih hcut
        exact ⟨by rw [List.cons_append, ← htext], by simp [hfield, Ne.symm hch]⟩

-- A line whose first four colons stand behind a file, two numbers and a severity.
structure StructuredText where
  file : List Char
  lineText : List Char
  columnText : List Char
  severityText : List Char
  message : List Char

def StructuredText.text (fields : StructuredText) : List Char :=
  fields.file ++ ':' :: (fields.lineText ++ ':' :: (fields.columnText ++ ':' ::
    (fields.severityText ++ ':' :: fields.message)))

def IsNumber (text : List Char) : Prop := text ≠ [] ∧ ∀ ch ∈ text, ch.isDigit = true

structure StructuredText.Readable (fields : StructuredText) : Prop where
  file : ':' ∉ fields.file
  lineNumber : IsNumber fields.lineText
  columnNumber : IsNumber fields.columnText
  severityColon : ':' ∉ fields.severityText
  severity : String.ofList (trim fields.severityText) ∈ severityTokens

-- A line as a compiler prints it.
def printedLine (file : List Char) (line column : Nat) (severity : String) (message : List Char) :
    List Char :=
  file ++ ':' :: ((toString line).toList ++ ':' :: ((toString column).toList ++
    ':' :: ' ' :: (severity.toList ++ ':' :: ' ' :: message)))

theorem colon_notMem_of_isNumber {text : List Char} (h : IsNumber text) : ':' ∉ text := by
  intro hmem
  exact absurd (h.2 ':' hmem) (by decide)

theorem toSeverityToken_of_mem {value : String} (h : value ∈ severityTokens) :
    toSeverityToken value = value ∧ value ≠ "" := by
  refine ⟨if_pos h, ?_⟩
  rintro rfl
  exact absurd h (by decide)

theorem parse_text {fields : StructuredText} (h : fields.Readable)
    (hline : decimalValue fields.lineText < 2 ^ 32)
    (hcolumn : decimalValue fields.columnText < 2 ^ 32) :
    parseStructuredLine fields.text =
      some {
        location := {
          file := String.ofList fields.file
          line := decimalValue fields.lineText
          column := decimalValue fields.columnText
          endLine := decimalValue fields.lineText
          endColumn := decimalValue fields.columnText }
        severity := mapSeverity (String.ofList (trim fields.severityText))
        severityLabel := String.ofList (trim fields.severityText)
        message := String.ofList (trim fields.message) } := by
  obtain ⟨htoken, hne⟩ := toSeverityToken_of_mem h.severity
  simp only [parseStructuredLine, StructuredText.text, cutAtColon_append h.file,
    cutAtColon_append (colon_notMem_of_isNumber h.lineNumber),
    cutAtColon_append (colon_notMem_of_isNumber h.columnNumber),
    cutAtColon_append h.severityColon, Option.bind_eq_bind, Option.bind_some,
    parseUnsigned_digits h.lineNumber.1 h.lineNumber.2 hline,
    parseUnsigned_digits h.columnNumber.1 h.columnNumber.2 hcolumn, htoken, if_neg hne]

-- Trimming the line trims the file in front and the message behind.
theorem trim_text (fields : StructuredText) :
    trim fields.text =
      { fields with
        file := fields.file.dropWhile isSpace
        message := fields.message.rdropWhile isSpace : StructuredText }.text := by
  have hcolon : isSpace ':' = false := by decide
  simp only [StructuredText.text, trim_append_colon, rdropWhile_append_cons hcolon]

theorem parse_trim_text {fields : StructuredText} (h : fields.Readable)
    (hline : decimalValue fields.lineText < 2 ^ 32)
    (hcolumn : decimalValue fields.columnText < 2 ^ 32) :
    parseStructuredLine (trim fields.text) =
      some {
        location := {
          file := String.ofList (fields.file.dropWhile isSpace)
          line := decimalValue fields.lineText
          column := decimalValue fields.columnText
          endLine := decimalValue fields.lineText
          endColumn := decimalValue fields.columnText }
        severity := mapSeverity (String.ofList (trim fields.severityText))
        severityLabel := String.ofList (trim fields.severityText)
        message := String.ofList (trim fields.message) } := by
  have hfile : ':' ∉ fields.file.dropWhile isSpace := fun hmem =>
    h.file ((List.dropWhile_sublist _).subset hmem)
  have hreadable : { fields with
      file := fields.file.dropWhile isSpace
      message := fields.message.rdropWhile isSpace : StructuredText }.Readable :=
    ⟨hfile, h.lineNumber, h.columnNumber, h.severityColon, h.severity⟩
  have hparsed := parse_text hreadable hline hcolumn
  rw [trim_text]
  simpa only [trim_rdropWhile] using hparsed

theorem isNumber_toString (value : Nat) :
    IsNumber (toString value).toList ∧ decimalValue (toString value).toList = value := by
  rw [toList_natText]
  exact ⟨⟨Nat.toDigits_ne_nil, fun _ => isDigit_of_mem_toDigits⟩, decimalValue_toDigits value⟩

theorem trim_severity {severity : String} (h : severity ∈ severityTokens) :
    String.ofList (trim (' ' :: severity.toList)) = severity ∧ ':' ∉ ' ' :: severity.toList := by
  simp only [severityTokens, List.mem_cons, List.not_mem_nil, or_false] at h
  rcases h with rfl | rfl | rfl | rfl | rfl <;> decide

theorem parse_printedLine {file : List Char} {line column : Nat} {severity : String}
    (message : List Char) (hfile : ':' ∉ file) (hline : line < 2 ^ 32) (hcolumn : column < 2 ^ 32)
    (hseverity : severity ∈ severityTokens) :
    parseStructuredLine (trim (printedLine file line column severity message)) =
      some {
        location := {
          file := String.ofList (file.dropWhile isSpace)
          line := line
          column := column
          endLine := line
          endColumn := column }
        severity := mapSeverity severity
        severityLabel := severity
        message := String.ofList (trim message) } := by
  obtain ⟨hlineNumber, hlineValue⟩ := isNumber_toString line
  obtain ⟨hcolumnNumber, hcolumnValue⟩ := isNumber_toString column
  obtain ⟨htrim, hcolon⟩ := trim_severity hseverity
  let fields : StructuredText :=
    ⟨file, (toString line).toList, (toString column).toList, ' ' :: severity.toList, ' ' :: message⟩
  have hreadable : fields.Readable :=
    ⟨hfile, hlineNumber, hcolumnNumber, hcolon, by rw [htrim]; exact hseverity⟩
  have hspace : trim (' ' :: message) = trim message := by simp [trim, isSpace]
  have hparsed := parse_trim_text hreadable (by rw [hlineValue]; exact hline)
    (by rw [hcolumnValue]; exact hcolumn)
  have htext : printedLine file line column severity message = fields.text := rfl
  rw [htext]
  simpa only [fields, htrim, hspace, hlineValue, hcolumnValue] using hparsed

-- What is read as structured has such colons.
theorem exists_readable {line : List Char} {parsed : ParsedDiagnosticLine}
    (h : parseStructuredLine line = some parsed) :
    ∃ fields : StructuredText, fields.Readable ∧ fields.text = line := by
  simp only [parseStructuredLine, Option.bind_eq_bind, Option.bind_eq_some_iff, Prod.exists] at h
  obtain ⟨file, rest, hfile, lineText, rest', hline, columnText, rest'', hcolumn, severityText,
    message, hseverity, lineNumber, hlineNumber, columnNumber, hcolumnNumber, h⟩ := h
  obtain ⟨rfl, hfileColon⟩ := cutAtColon_eq_some hfile
  obtain ⟨rfl, -⟩ := cutAtColon_eq_some hline
  obtain ⟨rfl, -⟩ := cutAtColon_eq_some hcolumn
  obtain ⟨rfl, hseverityColon⟩ := cutAtColon_eq_some hseverity
  refine ⟨⟨file, lineText, columnText, severityText, message⟩,
    ⟨hfileColon, digits_of_parseUnsigned hlineNumber, digits_of_parseUnsigned hcolumnNumber,
      hseverityColon, ?_⟩, rfl⟩
  by_contra hseverity
  simp [toSeverityToken, hseverity] at h

end Fields

end ConcurrencyAnalyzer.CompilerDiagnostics
