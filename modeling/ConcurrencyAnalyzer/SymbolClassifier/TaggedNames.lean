import ConcurrencyAnalyzer.SymbolClassifier.AbiTagScan

namespace ConcurrencyAnalyzer.SymbolClassifier

open Relation

-- The bytes of a name, each with whether it belongs to a tag.
abbrev Marks := List (UInt8 × Bool)

def textOf (marks : Marks) : Bytes := marks.map (·.1)

def untagged (marks : Marks) : Bytes := (marks.filter (!·.2)).map (·.1)

def Kept (marks : Marks) (index : Nat) : Prop := ∃ byte, marks[index]? = some (byte, false)

def Tagged (marks : Marks) (index : Nat) : Prop := ∃ byte, marks[index]? = some (byte, true)

-- Where the run of tags that an index is in ends.
def runEnd (marks : Marks) (index : Nat) : Nat :=
  index + ((marks.drop index).takeWhile (·.2)).length

def RunStart (marks : Marks) (index : Nat) : Prop :=
  Tagged marks index ∧ ∀ before, before + 1 = index → Kept marks before

-- The number behind the B at an index takes a reader with 64 bits ahead, to a place in the name.
def Crosses (name : Bytes) (index next : Nat) : Prop :=
  TagAt name index ∧ tagLength name index < 2 ^ 64 ∧ next = tagEnd name index % 2 ^ 64 ∧
    index < next ∧ next ≤ name.length

def Crossed (name : Bytes) : Nat → Nat → Prop := ReflTransGen (Crosses name)

-- No B of what is kept has a number behind it that ends in the name, and the numbers of a run of
-- tags lead from its start to its end.
structure ReadsTags (marks : Marks) : Prop where
  kept : ∀ index, Kept marks index → TagAt (textOf marks) index →
    marks.length < tagEnd (textOf marks) index ∧ tagEnd (textOf marks) index < 2 ^ 64
  crossed : ∀ index, RunStart marks index → Crossed (textOf marks) index (runEnd marks index)

-- The scan goes forward and ends with what is kept, and what it copies are the kept bytes.
structure RemovesExactlyTags (marks : Marks) : Prop where
  scansForward : ScansForward (textOf marks)
  returns : ∃ bound, ∀ fuel, bound ≤ fuel →
    stripAbiTags fuel (textOf marks) = .returned (untagged marks)
  copies : ∀ index, (Visited (textOf marks) index ∧ index < marks.length ∧
    moveAt (textOf marks) index = some .copy) ↔ Kept marks index

section Marks

variable {marks : Marks} {index : Nat}

@[simp] theorem length_textOf (marks : Marks) : (textOf marks).length = marks.length :=
  List.length_map ..

theorem lt_length_of_kept (h : Kept marks index) : index < marks.length := by
  obtain ⟨byte, hbyte⟩ := h
  exact (List.getElem?_eq_some_iff.mp hbyte).1

theorem lt_length_of_tagged (h : Tagged marks index) : index < marks.length := by
  obtain ⟨byte, hbyte⟩ := h
  exact (List.getElem?_eq_some_iff.mp hbyte).1

theorem kept_or_tagged (h : index < marks.length) : Kept marks index ∨ Tagged marks index := by
  have hget : marks[index]? = some marks[index] := List.getElem?_eq_getElem h
  cases hmark : marks[index] with
  | mk byte inTag =>
      rw [hmark] at hget
      cases inTag with
      | false => exact Or.inl ⟨byte, hget⟩
      | true => exact Or.inr ⟨byte, hget⟩

theorem not_tagged_of_kept (h : Kept marks index) : ¬Tagged marks index := by
  rintro ⟨other, hother⟩
  obtain ⟨byte, hbyte⟩ := h
  rw [hbyte] at hother
  simp at hother

theorem drop_eq_cons (h : index < marks.length) :
    marks.drop index = marks[index] :: marks.drop (index + 1) :=
  List.drop_eq_getElem_cons h

theorem runEnd_of_tagged (h : Tagged marks index) :
    runEnd marks index = runEnd marks (index + 1) := by
  have hlt := lt_length_of_tagged h
  obtain ⟨byte, hbyte⟩ := h
  obtain ⟨_, hget⟩ := List.getElem?_eq_some_iff.mp hbyte
  unfold runEnd
  rw [drop_eq_cons hlt, hget, List.takeWhile_cons_of_pos rfl, List.length_cons]
  omega

theorem runEnd_of_not_tagged (h : ¬Tagged marks index) : runEnd marks index = index := by
  unfold runEnd
  by_cases hlt : index < marks.length
  · obtain ⟨byte, hbyte⟩ := (kept_or_tagged hlt).resolve_right h
    obtain ⟨_, hget⟩ := List.getElem?_eq_some_iff.mp hbyte
    rw [drop_eq_cons hlt, hget, List.takeWhile_cons_of_neg (by simp)]
    rfl
  · rw [List.drop_of_length_le (by omega)]
    rfl

theorem le_runEnd : index ≤ runEnd marks index := Nat.le_add_right ..

theorem lt_runEnd_of_tagged (h : Tagged marks index) : index < runEnd marks index := by
  rw [runEnd_of_tagged h]
  exact le_runEnd

-- Every place up to the end of a run is in the run.
theorem tagged_and_runEnd_of_lt {other : Nat} (hle : index ≤ other)
    (hlt : other < runEnd marks index) :
    Tagged marks other ∧ runEnd marks other = runEnd marks index := by
  obtain ⟨count, rfl⟩ := Nat.exists_eq_add_of_le hle
  have hstep : ∀ place, place < runEnd marks place → Tagged marks place := by
    intro place hplace
    by_contra hnot
    rw [runEnd_of_not_tagged hnot] at hplace
    omega
  induction count with
  | zero => exact ⟨hstep index hlt, rfl⟩
  | succ count ih =>
      obtain ⟨htagged, hend⟩ := ih (by omega) (by omega)
      have hnext : runEnd marks (index + (count + 1)) = runEnd marks index := by
        rw [← hend, runEnd_of_tagged htagged]
        rfl
      exact ⟨hstep _ (by omega), hnext⟩

theorem not_tagged_runEnd : ¬Tagged marks (runEnd marks index) := by
  by_cases hstart : Tagged marks index
  · have hlt := lt_runEnd_of_tagged hstart
    have hlast := @tagged_and_runEnd_of_lt marks index (runEnd marks index - 1)
      (by omega) (by omega)
    intro htagged
    have hend := runEnd_of_tagged hlast.1
    have hsame : runEnd marks index - 1 + 1 = runEnd marks index := by omega
    rw [hsame, hlast.2] at hend
    have hbehind := lt_runEnd_of_tagged htagged
    omega
  · rwa [runEnd_of_not_tagged hstart]

theorem kept_runEnd (h : runEnd marks index < marks.length) : Kept marks (runEnd marks index) :=
  (kept_or_tagged h).resolve_right not_tagged_runEnd

theorem untagged_take_of_kept {byte : UInt8} (h : marks[index]? = some (byte, false)) :
    untagged (marks.take (index + 1)) = untagged (marks.take index) ++ [byte] := by
  rw [List.take_add_one, h]
  simp [untagged]

theorem untagged_take_of_tagged (h : Tagged marks index) :
    untagged (marks.take (index + 1)) = untagged (marks.take index) := by
  obtain ⟨byte, hbyte⟩ := h
  rw [List.take_add_one, hbyte]
  simp [untagged]

-- A jump inside a run leaves out tags only.
theorem untagged_take_of_run {next : Nat} (hle : index ≤ next)
    (hnext : next ≤ runEnd marks index) :
    untagged (marks.take next) = untagged (marks.take index) := by
  obtain ⟨count, rfl⟩ := Nat.exists_eq_add_of_le hle
  induction count with
  | zero => rfl
  | succ count ih =>
      have htagged := (@tagged_and_runEnd_of_lt marks index (index + count)
        (by omega) (by omega)).1
      rw [← Nat.add_assoc, untagged_take_of_tagged htagged]
      exact ih (by omega) (by omega)

end Marks

end ConcurrencyAnalyzer.SymbolClassifier
