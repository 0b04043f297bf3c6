import ConcurrencyAnalyzer.SymbolClassifier.AbiTags
import Mathlib.Data.List.TakeWhile

namespace ConcurrencyAnalyzer.SymbolClassifier

open Relation

-- A B with a digit behind it, which the scan takes for a tag.
def TagAt (name : Bytes) (index : Nat) : Prop :=
  name[index]? = some tagLetter ∧ name[index + 1]?.any isDigit = true

instance (name : Bytes) (index : Nat) : Decidable (TagAt name index) :=
  inferInstanceAs (Decidable (_ ∧ _))

def digitsEnd (name : Bytes) (index : Nat) : Nat :=
  index + 1 + (digitsFrom name (index + 1)).length

def tagLength (name : Bytes) (index : Nat) : Nat := decimal (digitsFrom name (index + 1))

-- Where the tag at an index ends, by its own account.
def tagEnd (name : Bytes) (index : Nat) : Nat := digitsEnd name index + tagLength name index

-- The places a reader comes to who counts without a bound.
inductive Met (name : Bytes) : Nat → Prop
  | start : Met name 0
  | copied {index : Nat} : Met name index → index < name.length →
      (TagAt name index → name.length < tagEnd name index) → Met name (index + 1)
  | skipped {index : Nat} : Met name index → TagAt name index → tagEnd name index ≤ name.length →
      Met name (tagEnd name index)

-- A number that is met fits `unsigned long`, and the end of its tag fits `std::size_t` or comes out
-- behind the tag's letter.
def NumbersFit (name : Bytes) : Prop :=
  ∀ index, Met name index → TagAt name index → tagLength name index < 2 ^ 64 ∧
    (tagEnd name index < 2 ^ 64 ∨ index + 2 ^ 64 < tagEnd name index)

-- The size of a string is a `std::size_t`.
structure SymbolName where
  bytes : Bytes
  fits : bytes.length < 2 ^ 64

section Moves

variable {name : Bytes} {index : Nat}

theorem index_lt_of_tagAt (h : TagAt name index) : index + 1 < name.length := by
  by_contra hle
  have hnone : name[index + 1]? = none := List.getElem?_eq_none (by omega)
  simp [TagAt, hnone] at h

theorem digitsEnd_le (h : TagAt name index) : digitsEnd name index ≤ name.length := by
  have hindex := index_lt_of_tagAt h
  have hle : (digitsFrom name (index + 1)).length ≤ (name.drop (index + 1)).length :=
    (List.takeWhile_prefix _).length_le
  rw [List.length_drop] at hle
  unfold digitsEnd
  omega

theorem moveAt_of_not_tagAt (h : ¬TagAt name index) : moveAt name index = some .copy := by
  rw [moveAt, if_pos]
  by_cases hletter : name[index]? = some tagLetter
  · have hdigit : name[index + 1]?.any isDigit = false := by
      cases hany : name[index + 1]?.any isDigit with
      | false => rfl
      | true => exact absurd ⟨hletter, hany⟩ h
    simp [hdigit]
  · simp [hletter]

theorem moveAt_of_tagAt (h : TagAt name index) :
    moveAt name index = (stoul (digitsFrom name (index + 1))).map fun length =>
      if name.length < (digitsEnd name index + length) % 2 ^ 64 then .copy
      else .jump ((digitsEnd name index + length) % 2 ^ 64) := by
  rw [moveAt, if_neg (by simp [h.1, h.2])]
  rfl

theorem moveAt_of_throws (h : TagAt name index) (hlength : 2 ^ 64 ≤ tagLength name index) :
    moveAt name index = none := by
  rw [moveAt_of_tagAt h, stoul, if_neg (by unfold tagLength at hlength; omega)]
  rfl

theorem moveAt_of_fits (h : TagAt name index) (hlength : tagLength name index < 2 ^ 64) :
    moveAt name index =
      some (if name.length < tagEnd name index % 2 ^ 64 then .copy
        else .jump (tagEnd name index % 2 ^ 64)) := by
  rw [moveAt_of_tagAt h, stoul, if_pos (by unfold tagLength at hlength; exact hlength)]
  rfl

theorem tagLength_le_tagEnd : tagLength name index ≤ tagEnd name index := by
  unfold tagEnd
  omega

-- Too long a tag is none.
theorem moveAt_of_long (h : TagAt name index) (hlong : name.length < tagEnd name index)
    (hend : tagEnd name index < 2 ^ 64) : moveAt name index = some .copy := by
  have hlength := @tagLength_le_tagEnd name index
  rw [moveAt_of_fits h (by omega), Nat.mod_eq_of_lt hend, if_pos hlong]

theorem moveAt_of_short (h : TagAt name index) (hshort : tagEnd name index ≤ name.length)
    (hend : tagEnd name index < 2 ^ 64) :
    moveAt name index = some (.jump (tagEnd name index)) := by
  have hlength := @tagLength_le_tagEnd name index
  rw [moveAt_of_fits h (by omega), Nat.mod_eq_of_lt hend, if_neg (by omega)]

-- A sum past 64 bits comes out in front of where the digits end.
theorem moveAt_of_wraps (h : TagAt name index) (hfits : name.length < 2 ^ 64)
    (hlength : tagLength name index < 2 ^ 64) (hend : 2 ^ 64 ≤ tagEnd name index) :
    moveAt name index = some (.jump (tagEnd name index - 2 ^ 64)) ∧
      tagEnd name index - 2 ^ 64 < digitsEnd name index := by
  have hdigits := digitsEnd_le h
  have hsum : tagEnd name index = digitsEnd name index + tagLength name index := rfl
  have hmod : tagEnd name index % 2 ^ 64 = tagEnd name index - 2 ^ 64 := by omega
  rw [moveAt_of_fits h hlength, hmod, if_neg (by omega)]
  exact ⟨rfl, by omega⟩

-- The scan jumps at a tag only.
theorem tagAt_of_jump {next : Nat} (h : moveAt name index = some (.jump next)) :
    TagAt name index := by
  by_contra htag
  rw [moveAt_of_not_tagAt htag] at h
  simp at h

theorem tagLength_lt (h : TagAt name index) (hmove : moveAt name index ≠ none) :
    tagLength name index < 2 ^ 64 := by
  by_contra hlength
  exact hmove (moveAt_of_throws h (by omega))

-- A jump from a tag that is too long is one to where the sum comes out past 64 bits.
theorem wraps_of_jump {next : Nat} (hfits : name.length < 2 ^ 64)
    (h : moveAt name index = some (.jump next))
    (hlong : TagAt name index → name.length < tagEnd name index) :
    2 ^ 64 ≤ tagEnd name index ∧ next = tagEnd name index - 2 ^ 64 ∧
      next < digitsEnd name index := by
  have htag := tagAt_of_jump h
  have hlength := tagLength_lt htag (by simp [h])
  have hwraps : 2 ^ 64 ≤ tagEnd name index := by
    by_contra hend
    rw [moveAt_of_long htag (hlong htag) (by omega)] at h
    simp at h
  obtain ⟨hmove, hbefore⟩ := moveAt_of_wraps htag hfits hlength hwraps
  have hnext : next = tagEnd name index - 2 ^ 64 :=
    Move.jump.inj (Option.some.inj (h.symm.trans hmove))
  exact ⟨hwraps, hnext, hnext ▸ hbefore⟩

theorem isDigit_of_lt_digitsEnd {place : Nat} (hindex : index < place)
    (hplace : place < digitsEnd name index) : name[place]?.any isDigit = true := by
  unfold digitsEnd at hplace
  have hlt : place - (index + 1) < (digitsFrom name (index + 1)).length := by omega
  have hdigit := List.mem_takeWhile_imp (List.getElem_mem hlt)
  have hget : (digitsFrom name (index + 1))[place - (index + 1)] ∈ name[place]? := by
    have hfront : digitsFrom name (index + 1) <+: name.drop (index + 1) :=
      List.takeWhile_prefix _
    rw [hfront.getElem hlt, List.getElem_drop]
    have hsame : index + 1 + (place - (index + 1)) = place := by omega
    simp only [hsame]
    exact Option.mem_def.mpr (List.getElem?_eq_getElem _)
  rw [Option.mem_def.mp hget]
  exact hdigit

theorem not_tagAt_of_isDigit {place : Nat} (h : name[place]?.any isDigit = true) :
    ¬TagAt name place := by
  rintro ⟨hletter, -⟩
  rw [hletter] at h
  exact absurd h (by decide)

end Moves

section Forward

variable {name : Bytes}

-- Digits are copied one at a time.
theorem met_of_isDigit {index place : Nat} (h : Met name index) (hle : index ≤ place)
    (hdigits : ∀ other, index ≤ other → other < place → name[other]?.any isDigit = true) :
    Met name place := by
  obtain ⟨count, rfl⟩ := Nat.exists_eq_add_of_le hle
  induction count with
  | zero => exact h
  | succ count ih =>
      have hplace := hdigits (index + count) (by omega) (by omega)
      have hmet := ih (by omega) fun other hother hlt => hdigits other hother (by omega)
      have hinside : index + count < name.length := by
        by_contra hlen
        rw [List.getElem?_eq_none (by omega)] at hplace
        simp at hplace
      exact Met.copied hmet hinside fun htag => absurd htag (not_tagAt_of_isDigit hplace)

-- Where the numbers fit, the scan goes on, and only to places that are met.
theorem forward_of_numbersFit (hfits : name.length < 2 ^ 64) (h : NumbersFit name) {index : Nat}
    (hmet : Met name index) (hindex : index < name.length) :
    ∃ next, Next name index next ∧ index < next ∧ Met name next := by
  by_cases htag : TagAt name index
  · obtain ⟨hlength, hend⟩ := h index hmet htag
    have hsum : tagEnd name index = digitsEnd name index + tagLength name index := rfl
    have hdigitsEnd : index < digitsEnd name index := by unfold digitsEnd; omega
    have hdigits := digitsEnd_le htag
    by_cases hshort : tagEnd name index ≤ name.length
    · exact ⟨tagEnd name index, ⟨hindex, Or.inr (moveAt_of_short htag hshort (by omega))⟩,
        by omega, Met.skipped hmet htag hshort⟩
    · have hcopied : Met name (index + 1) := Met.copied hmet hindex fun _ => by omega
      by_cases hwraps : tagEnd name index < 2 ^ 64
      · exact ⟨index + 1, ⟨hindex, Or.inl ⟨moveAt_of_long htag (by omega) hwraps, rfl⟩⟩,
          by omega, hcopied⟩
      · obtain ⟨hmove, hlt⟩ := moveAt_of_wraps htag hfits hlength (by omega)
        refine ⟨_, ⟨hindex, Or.inr hmove⟩, by omega, met_of_isDigit hcopied (by omega) ?_⟩
        intro other hother hbefore
        have hinside : index < other := by omega
        exact isDigit_of_lt_digitsEnd hinside (by omega)
  · exact ⟨index + 1, ⟨hindex, Or.inl ⟨moveAt_of_not_tagAt htag, rfl⟩⟩, by omega,
      Met.copied hmet hindex fun h => absurd h htag⟩

theorem met_of_visited (hfits : name.length < 2 ^ 64) (h : NumbersFit name) {index : Nat}
    (hvisited : Visited name index) : Met name index := by
  induction hvisited with
  | refl => exact Met.start
  | tail _ hnext ih =>
      obtain ⟨next, hother, -, hmet⟩ := forward_of_numbersFit hfits h ih hnext.1
      rwa [next_unique hnext hother]

theorem scansForward_of_numbersFit (hfits : name.length < 2 ^ 64) (h : NumbersFit name) :
    ScansForward name := by
  constructor
  · obtain ⟨final, -, -, -, hreturned⟩ := exists_returned (fun index => Met name index)
      (fun _ _ => True) (fun index hmet hindex => forward_of_numbersFit hfits h hmet hindex)
      (fun _ _ _ _ _ _ => trivial) Met.start trivial
    exact ⟨name.length, final.stripped, hreturned⟩
  · intro index next hvisited hnext
    obtain ⟨other, hother, hlt, -⟩ :=
      forward_of_numbersFit hfits h (met_of_visited hfits h hvisited) hnext.1
    rw [next_unique hnext hother]
    omega

-- A place that is met is visited, unless digits in front of a visited one were left out.
theorem visited_or_digits_of_met (hfits : name.length < 2 ^ 64) (h : ScansForward name)
    {index : Nat} (hmet : Met name index) :
    Visited name index ∨ ∃ later, index < later ∧ Visited name later ∧
      ∀ place, index ≤ place → place < later → name[place]?.any isDigit = true := by
  induction hmet with
  | start => exact Or.inl ReflTransGen.refl
  | @copied index hmet hindex hlong ih =>
      rcases ih with hvisited | ⟨later, hlater, hvisited, hdigits⟩
      · obtain ⟨next, hnext, hlt⟩ := exists_next_of_scansForward h hvisited hindex
        have hvisitedNext : Visited name next := ReflTransGen.tail hvisited hnext
        rcases hnext.2 with ⟨-, rfl⟩ | hjump
        · exact Or.inl hvisitedNext
        · obtain ⟨-, -, hinDigits⟩ := wraps_of_jump hfits hjump hlong
          by_cases hone : next = index + 1
          · exact Or.inl (hone ▸ hvisitedNext)
          · refine Or.inr ⟨next, by omega, hvisitedNext, fun place hplace hbefore => ?_⟩
            have hinside : index < place := by omega
            exact isDigit_of_lt_digitsEnd hinside (by omega)
      · by_cases hsame : later = index + 1
        · exact Or.inl (hsame ▸ hvisited)
        · exact Or.inr ⟨later, by omega, hvisited, fun place hplace hlt =>
            hdigits place (by omega) hlt⟩
  | @skipped index hmet htag hshort ih =>
      rcases ih with hvisited | ⟨later, hlater, hvisited, hdigits⟩
      · left
        exact ReflTransGen.tail hvisited ⟨by have := index_lt_of_tagAt htag; omega,
          Or.inr (moveAt_of_short htag hshort (by omega))⟩
      · exact absurd htag (not_tagAt_of_isDigit (hdigits index (Nat.le_refl _) hlater))

theorem numbersFit_of_scansForward (hfits : name.length < 2 ^ 64) (h : ScansForward name) :
    NumbersFit name := by
  intro index hmet htag
  rcases visited_or_digits_of_met hfits h hmet with hvisited | ⟨later, hlater, -, hdigits⟩
  · have hindex := index_lt_of_tagAt htag
    obtain ⟨next, hnext, hlt⟩ := exists_next_of_scansForward h hvisited (by omega)
    have hmove : moveAt name index ≠ none := by
      rcases hnext.2 with ⟨hcopy, -⟩ | hjump
      · simp [hcopy]
      · simp [hjump]
    have hlength := tagLength_lt htag hmove
    refine ⟨hlength, ?_⟩
    by_cases hend : tagEnd name index < 2 ^ 64
    · exact Or.inl hend
    · right
      obtain ⟨hwraps, -⟩ := moveAt_of_wraps htag hfits hlength (by omega)
      have hto := next_unique hnext ⟨by omega, Or.inr hwraps⟩
      omega
  · exact absurd htag (not_tagAt_of_isDigit (hdigits index (Nat.le_refl _) hlater))

-- The scan of a name ends, without an exception and without a step back, where its numbers fit.
theorem scansForward_iff (name : SymbolName) :
    ScansForward name.bytes ↔ NumbersFit name.bytes :=
  ⟨numbersFit_of_scansForward name.fits, scansForward_of_numbersFit name.fits⟩

end Forward

end ConcurrencyAnalyzer.SymbolClassifier
