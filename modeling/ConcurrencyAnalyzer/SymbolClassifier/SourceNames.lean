import ConcurrencyAnalyzer.SymbolClassifier.TaggedNames

namespace ConcurrencyAnalyzer.SymbolClassifier

open Relation

def decimalText (value : Nat) : Bytes :=
  (Nat.toDigits 10 value).map fun digit => UInt8.ofNat digit.toNat

def tagText (tag : Bytes) : Bytes := tagLetter :: (decimalText tag.length ++ tag)

structure SourceName where
  identifier : Bytes
  tags : List Bytes
  deriving Repr

namespace SourceName

def keptText (name : SourceName) : Bytes := decimalText name.identifier.length ++ name.identifier

def tagsText (name : SourceName) : Bytes := name.tags.flatMap tagText

def marks (name : SourceName) : Marks :=
  name.keptText.map (·, false) ++ name.tagsText.map (·, true)

end SourceName

-- Source names with their tags, behind what a mangled name starts with, such as `_ZN`.
structure MangledName where
  front : Bytes
  names : List SourceName
  fits : (front.map (·, false) ++ names.flatMap SourceName.marks).length < 2 ^ 64

def MangledName.marks (name : MangledName) : Marks :=
  name.front.map (·, false) ++ name.names.flatMap SourceName.marks

-- A tag that is a C++ identifier.
def PlainTag (tag : Bytes) : Prop := ∃ byte rest, tag = byte :: rest ∧ isDigit byte = false

section Numbers

theorem toNat_of_mem_toDigits {value : Nat} {digit : Char} (h : digit ∈ Nat.toDigits 10 value) :
    (UInt8.ofNat digit.toNat).toNat = digit.toNat ∧ 48 ≤ digit.toNat ∧ digit.toNat ≤ 57 := by
  have hdigit := Nat.isDigit_of_mem_toDigits (by decide) (by decide) h
  rw [Char.isDigit_iff_toNat] at hdigit
  have hlow : 48 ≤ digit.toNat := hdigit.1
  have hhigh : digit.toNat ≤ 57 := hdigit.2
  refine ⟨?_, hlow, hhigh⟩
  rw [UInt8.toNat_ofNat']
  omega

theorem isDigit_of_mem_decimalText {value : Nat} {byte : UInt8} (h : byte ∈ decimalText value) :
    isDigit byte = true := by
  obtain ⟨digit, hdigit, rfl⟩ := List.mem_map.mp h
  obtain ⟨hvalue, hlow, hhigh⟩ := toNat_of_mem_toDigits hdigit
  simp only [isDigit, Bool.and_eq_true, decide_eq_true_eq, UInt8.le_iff_toNat_le, hvalue]
  exact ⟨hlow, hhigh⟩

theorem decimalText_ne_nil (value : Nat) : decimalText value ≠ [] := by
  simp [decimalText, Nat.toDigits_ne_nil]

theorem decimal_decimalText (value : Nat) : decimal (decimalText value) = value := by
  have hread : ∀ (digits : List Char) (start : Nat),
      (∀ digit ∈ digits, digit ∈ Nat.toDigits 10 value) →
        (digits.map fun digit => UInt8.ofNat digit.toNat).foldl
          (fun value digit => 10 * value + (digit.toNat - 48)) start =
            Nat.ofDigitChars 10 digits start := by
    intro digits
    induction digits with
    | nil => intro start _; rfl
    | cons digit digits ih =>
        intro start hdigits
        have hvalue := (toNat_of_mem_toDigits (hdigits digit (by simp))).1
        rw [List.map_cons, List.foldl_cons, hvalue]
        exact ih _ fun other hother => hdigits other (by simp [hother])
  rw [decimal, decimalText, hread _ _ fun _ h => h]
  exact Nat.ofDigitChars_ten_toDigits

end Numbers

section Tags

-- The number in front of a plain tag is read back, and leads behind the tag.
theorem crosses_tagText (front tag rest : Bytes) (hplain : PlainTag tag)
    (hfits : (front ++ (tagText tag ++ rest)).length < 2 ^ 64) :
    Crosses (front ++ (tagText tag ++ rest)) front.length
      (front.length + (tagText tag).length) := by
  obtain ⟨first, others, htag, hfirst⟩ := hplain
  obtain ⟨digit, digits, hdigits⟩ := List.exists_cons_of_ne_nil (decimalText_ne_nil tag.length)
  have htext : front ++ (tagText tag ++ rest) =
      front ++ tagLetter :: (decimalText tag.length ++ (tag ++ rest)) := by simp [tagText]
  rw [htext] at hfits ⊢
  have hread : digitsFrom (front ++ tagLetter :: (decimalText tag.length ++ (tag ++ rest)))
      (front.length + 1) = decimalText tag.length := by
    rw [digitsFrom, ← List.drop_drop, List.drop_left, List.drop_one, List.tail_cons,
      List.takeWhile_append_of_pos fun _ => isDigit_of_mem_decimalText, htag]
    simp [hfirst]
  have hlength : (tagText tag).length = 1 + (decimalText tag.length).length + tag.length := by
    simp [tagText]
    omega
  simp only [List.length_append, List.length_cons] at hfits
  have hend : tagEnd (front ++ tagLetter :: (decimalText tag.length ++ (tag ++ rest)))
      front.length = front.length + (tagText tag).length := by
    rw [tagEnd, digitsEnd, tagLength, hread, decimal_decimalText, hlength]
    omega
  refine ⟨⟨by simp, ?_⟩, ?_, ?_, by omega, ?_⟩
  · have hdigit := isDigit_of_mem_decimalText (by rw [hdigits]; exact List.mem_cons_self)
    simp [hdigits, hdigit]
  · rw [tagLength, hread, decimal_decimalText]
    omega
  · rw [hend, Nat.mod_eq_of_lt (by omega)]
  · simp only [List.length_append, List.length_cons]
    omega

theorem crossed_tags (front rest : Bytes) (tags : List Bytes) (hplain : ∀ tag ∈ tags, PlainTag tag)
    (hfits : (front ++ (tags.flatMap tagText ++ rest)).length < 2 ^ 64) :
    Crossed (front ++ (tags.flatMap tagText ++ rest)) front.length
      (front.length + (tags.flatMap tagText).length) := by
  induction tags generalizing front with
  | nil => exact ReflTransGen.refl
  | cons tag tags ih =>
      have htext : front ++ ((tag :: tags).flatMap tagText ++ rest) =
          front ++ (tagText tag ++ (tags.flatMap tagText ++ rest)) := by simp
      have hsplit : front ++ (tagText tag ++ (tags.flatMap tagText ++ rest)) =
          (front ++ tagText tag) ++ (tags.flatMap tagText ++ rest) := by simp
      have hlength : front.length + ((tag :: tags).flatMap tagText).length =
          (front ++ tagText tag).length + (tags.flatMap tagText).length := by
        simp [Nat.add_assoc]
      rw [htext] at hfits ⊢
      have hfirst := crosses_tagText front tag _ (hplain tag (by simp)) hfits
      rw [hsplit] at hfits hfirst ⊢
      have hrest := ih (front ++ tagText tag)
        (fun other hother => hplain other (by simp [hother])) hfits
      rw [hlength]
      rw [← List.length_append] at hfirst
      exact ReflTransGen.head hfirst hrest

end Tags

section Runs

variable {front : Marks} {kept tagged : Bytes} {rest : Marks} {index : Nat}

-- What is behind a run is no tag.
def StartsKept (marks : Marks) : Prop := ¬Tagged marks 0

theorem startsKept_names (names : List SourceName) :
    StartsKept (names.flatMap SourceName.marks) := by
  rintro ⟨byte, hbyte⟩
  cases names with
  | nil => simp at hbyte
  | cons name names =>
      obtain ⟨digit, digits, hdigits⟩ :=
        List.exists_cons_of_ne_nil (decimalText_ne_nil name.identifier.length)
      simp [SourceName.marks, SourceName.keptText, hdigits] at hbyte

theorem runEnd_of_append (hrest : StartsKept rest) :
    runEnd (front ++ (tagged.map (·, true) ++ rest)) front.length =
      front.length + tagged.length := by
  have hrun : rest.takeWhile (·.2) = [] := by
    cases rest with
    | nil => rfl
    | cons mark rest =>
        obtain ⟨byte, inTag⟩ := mark
        cases inTag with
        | false => rfl
        | true => exact absurd ⟨byte, rfl⟩ hrest
  rw [runEnd, List.drop_left, List.takeWhile_append_of_pos (by simp), hrun]
  simp

-- A run starts where the tags of a name do.
theorem runStart_of_lt
    (h : RunStart (front ++ (kept.map (·, false) ++ (tagged.map (·, true) ++ rest))) index)
    (hfront : front.length ≤ index)
    (hindex : index < front.length + kept.length + tagged.length) :
    index = front.length + kept.length := by
  have hkept : ∀ place, front.length + kept.length ≤ place →
      place < front.length + kept.length + tagged.length →
      ¬Kept (front ++ (kept.map (·, false) ++ (tagged.map (·, true) ++ rest))) place := by
    rintro place hlow hhigh ⟨byte, hbyte⟩
    rw [List.getElem?_append_right (by omega), List.getElem?_append_right (by simp; omega),
      List.getElem?_append_left (by simp; omega)] at hbyte
    simp at hbyte
  by_cases hbefore : index < front.length + kept.length
  · obtain ⟨byte, hbyte⟩ := h.1
    rw [List.getElem?_append_right (by omega), List.getElem?_append_left (by simp; omega)] at hbyte
    simp at hbyte
  · by_cases hsame : index = front.length + kept.length
    · exact hsame
    · exact absurd (h.2 (index - 1) (by omega)) (hkept _ (by omega) (by omega))

theorem crossed_of_runStart (names : List SourceName) (front : Marks)
    (hplain : ∀ name ∈ names, ∀ tag ∈ name.tags, PlainTag tag)
    (hfits : (front ++ names.flatMap SourceName.marks).length < 2 ^ 64)
    (h : RunStart (front ++ names.flatMap SourceName.marks) index) (hfront : front.length ≤ index) :
    Crossed (textOf (front ++ names.flatMap SourceName.marks)) index
      (runEnd (front ++ names.flatMap SourceName.marks) index) := by
  induction names generalizing front with
  | nil =>
      have hlt := lt_length_of_tagged h.1
      simp at hlt
      omega
  | cons name names ih =>
      have hmarks : front ++ (name :: names).flatMap SourceName.marks =
          (front ++ name.marks) ++ names.flatMap SourceName.marks := by simp
      by_cases hbehind : (front ++ name.marks).length ≤ index
      · rw [hmarks] at hfits h ⊢
        exact ih (front ++ name.marks) (fun other hother => hplain other (by simp [hother]))
          hfits h hbehind
      · have hparts : front ++ (name :: names).flatMap SourceName.marks =
            front ++ (name.keptText.map (·, false) ++
              (name.tagsText.map (·, true) ++ names.flatMap SourceName.marks)) := by
          simp [SourceName.marks]
        simp only [SourceName.marks, List.length_append, List.length_map] at hbehind
        rw [hparts] at hfits h ⊢
        have hindex := runStart_of_lt h hfront (by omega)
        have hlength : index = (front ++ name.keptText.map (·, false)).length := by simp [hindex]
        rw [← List.append_assoc] at hfits ⊢
        rw [hlength, runEnd_of_append (startsKept_names names)]
        have hcrossed := crossed_tags (textOf (front ++ name.keptText.map (·, false)))
          (textOf (names.flatMap SourceName.marks)) name.tags (hplain name (by simp))
          (by simpa [textOf, SourceName.tagsText] using hfits)
        simpa [textOf, SourceName.tagsText, Function.comp_def] using hcrossed

-- Where all tags are identifiers, what can go wrong is a B of the other text.
theorem readsTags_iff_of_plain (name : MangledName)
    (hplain : ∀ source ∈ name.names, ∀ tag ∈ source.tags, PlainTag tag) :
    ReadsTags name.marks ↔ ∀ index, Kept name.marks index → TagAt (textOf name.marks) index →
      name.marks.length < tagEnd (textOf name.marks) index ∧
        tagEnd (textOf name.marks) index < 2 ^ 64 := by
  constructor
  · intro h
    exact h.kept
  · intro hkept
    refine ⟨hkept, fun index hstart => ?_⟩
    apply crossed_of_runStart name.names (name.front.map (·, false)) hplain name.fits hstart
    -- The front holds no tags.
    by_contra hlt
    obtain ⟨byte, hbyte⟩ := hstart.1
    rw [MangledName.marks, List.getElem?_append_left (by omega)] at hbyte
    simp at hbyte

end Runs

end ConcurrencyAnalyzer.SymbolClassifier
