import ConcurrencyAnalyzer.SymbolClassifier.SourceNames

namespace ConcurrencyAnalyzer.SymbolClassifier

open Relation

section Crossing

variable {name : Bytes} {index next : Nat}

theorem crosses_iff : Crosses name index next ↔
    moveAt name index = some (.jump next) ∧ index < next := by
  constructor
  · rintro ⟨htag, hlength, rfl, hlt, hle⟩
    rw [moveAt_of_fits htag hlength, if_neg (by omega)]
    exact ⟨rfl, hlt⟩
  · rintro ⟨hjump, hlt⟩
    have htag := tagAt_of_jump hjump
    have hlength := tagLength_lt htag (by simp [hjump])
    rw [moveAt_of_fits htag hlength] at hjump
    by_cases hlong : name.length < tagEnd name index % 2 ^ 64
    · rw [if_pos hlong] at hjump
      simp at hjump
    · rw [if_neg hlong] at hjump
      have hnext : tagEnd name index % 2 ^ 64 = next := Move.jump.inj (Option.some.inj hjump)
      exact ⟨htag, hlength, hnext.symm, hlt, by omega⟩

theorem next_of_crosses (h : Crosses name index next) : Next name index next := by
  obtain ⟨hjump, -⟩ := crosses_iff.mp h
  have hindex := index_lt_of_tagAt h.1
  exact ⟨by omega, Or.inr hjump⟩

theorem le_of_crossed (h : Crossed name index next) : index ≤ next := by
  induction h with
  | refl => exact Nat.le_refl _
  | tail _ hcrosses ih =>
      have hlt := hcrosses.2.2.2.1
      omega

theorem visited_of_crossed (hvisited : Visited name index) (h : Crossed name index next) :
    Visited name next := by
  have hsteps : Crosses name ≤ Next name := fun _ _ => next_of_crosses
  exact hvisited.trans (ReflTransGen.mono hsteps _ _ h)

-- A B that is copied has a number behind it that runs past the name's end.
theorem long_of_copied (hfits : name.length < 2 ^ 64) (htag : TagAt name index)
    (h : moveAt name index = some .copy) :
    name.length < tagEnd name index ∧ tagEnd name index < 2 ^ 64 := by
  have hlength := tagLength_lt htag (by simp [h])
  have hwraps : tagEnd name index < 2 ^ 64 := by
    by_contra hend
    obtain ⟨hjump, -⟩ := moveAt_of_wraps htag hfits hlength (by omega)
    rw [h] at hjump
    simp at hjump
  refine ⟨?_, hwraps⟩
  by_contra hshort
  have hjump := moveAt_of_short htag (by omega) hwraps
  rw [h] at hjump
  simp at hjump

theorem le_of_reaches (h : ScansForward name) (hvisited : Visited name index)
    (hreaches : ReflTransGen (Next name) index next) : index ≤ next := by
  induction hreaches with
  | refl => exact Nat.le_refl _
  | tail hreaches hnext ih =>
      have hforward := h.forward _ _ (hvisited.trans hreaches) hnext
      omega

end Crossing

section Removal

variable {marks : Marks} {index : Nat}

-- The places of the scan: the end, what is kept, and what the numbers of a run of tags lead to.
def Expected (marks : Marks) (index : Nat) : Prop :=
  index = marks.length ∨ Kept marks index ∨
    (Tagged marks index ∧ Crossed (textOf marks) index (runEnd marks index))

theorem expected_of_start (h : ReadsTags marks) (hindex : index ≤ marks.length)
    (hstart : ∀ before, before + 1 = index → Kept marks before) : Expected marks index := by
  by_cases hend : index = marks.length
  · exact Or.inl hend
  · rcases kept_or_tagged (show index < marks.length by omega) with hkept | htagged
    · exact Or.inr (Or.inl hkept)
    · exact Or.inr (Or.inr ⟨htagged, h.crossed index ⟨htagged, hstart⟩⟩)

theorem moveAt_of_kept (h : ReadsTags marks) (hkept : Kept marks index) :
    moveAt (textOf marks) index = some .copy := by
  by_cases htag : TagAt (textOf marks) index
  · obtain ⟨hlong, hend⟩ := h.kept index hkept htag
    exact moveAt_of_long htag (by rwa [length_textOf]) hend
  · exact moveAt_of_not_tagAt htag

-- Inside a run the scan jumps, to the run's end at most.
theorem crosses_of_tagged (htagged : Tagged marks index)
    (h : Crossed (textOf marks) index (runEnd marks index)) :
    ∃ next, Crosses (textOf marks) index next ∧ next ≤ runEnd marks index ∧
      Expected marks next := by
  have hlt := lt_runEnd_of_tagged htagged
  rcases ReflTransGen.cases_head h with hsame | ⟨next, hcrosses, hrest⟩
  · omega
  · have hle := le_of_crossed hrest
    have hforward := hcrosses.2.2.2.1
    refine ⟨next, hcrosses, hle, ?_⟩
    by_cases hinside : next < runEnd marks index
    · obtain ⟨hnext, hend⟩ := @tagged_and_runEnd_of_lt marks index next (by omega) hinside
      exact Or.inr (Or.inr ⟨hnext, by rwa [hend]⟩)
    · have hnext : next = runEnd marks index := by omega
      have hlength := hcrosses.2.2.2.2
      rw [length_textOf] at hlength
      by_cases hend : next = marks.length
      · exact Or.inl hend
      · rw [hnext] at hlength hend ⊢
        exact Or.inr (Or.inl (kept_runEnd (by omega)))

theorem expected_forward (h : ReadsTags marks) (hexpected : Expected marks index)
    (hindex : index < marks.length) :
    ∃ next, Next (textOf marks) index next ∧ index < next ∧ Expected marks next := by
  rcases hexpected with hend | hkept | ⟨htagged, hcrossed⟩
  · omega
  · refine ⟨index + 1, ⟨by rwa [length_textOf], Or.inl ⟨moveAt_of_kept h hkept, rfl⟩⟩, by omega, ?_⟩
    apply expected_of_start h (by omega)
    intro before hbefore
    obtain rfl : before = index := by omega
    exact hkept
  · obtain ⟨next, hcrosses, -, hnext⟩ := crosses_of_tagged htagged hcrossed
    exact ⟨next, next_of_crosses hcrosses, hcrosses.2.2.2.1, hnext⟩

theorem expected_of_visited (h : ReadsTags marks) (hvisited : Visited (textOf marks) index) :
    Expected marks index := by
  induction hvisited with
  | refl => exact expected_of_start h (Nat.zero_le _) (by omega)
  | tail _ hnext ih =>
      have hindex := hnext.1
      rw [length_textOf] at hindex
      obtain ⟨next, hother, -, hexpected⟩ := expected_forward h ih hindex
      rwa [next_unique hnext hother]

-- What has been copied at a place is what is kept in front of it.
theorem copied_step (h : ReadsTags marks) {state next : ScanState}
    (hexpected : Expected marks state.index) (hindex : state.index < marks.length)
    (hcopied : state.stripped = untagged (marks.take state.index))
    (hstep : stepAt (textOf marks) state = some next) :
    next.stripped = untagged (marks.take next.index) := by
  unfold stepAt at hstep
  rcases hexpected with hend | hkept | ⟨htagged, hcrossed⟩
  · omega
  · rw [moveAt_of_kept h hkept] at hstep
    obtain ⟨byte, hbyte⟩ := hkept
    have hget : (textOf marks)[state.index]? = some byte := by simp [textOf, hbyte]
    rw [hget] at hstep
    obtain rfl : (⟨state.index + 1, state.stripped ++ [byte]⟩ : ScanState) = next := by
      simpa using hstep
    rw [untagged_take_of_kept hbyte, hcopied]
  · obtain ⟨target, hcrosses, hle, -⟩ := crosses_of_tagged htagged hcrossed
    rw [(crosses_iff.mp hcrosses).1] at hstep
    obtain rfl : ({ state with index := target } : ScanState) = next := by simpa using hstep
    rw [untagged_take_of_run (Nat.le_of_lt hcrosses.2.2.2.1) hle, hcopied]

-- Every place is visited, or inside a run that is visited before it.
theorem visited_or_in_run (h : ReadsTags marks) (hindex : index ≤ marks.length) :
    Visited (textOf marks) index ∨
      ∃ before, before < index ∧ index < runEnd marks before ∧ Visited (textOf marks) before := by
  -- The scan comes from a place of a run to the run's end.
  have hrun : ∀ place, Visited (textOf marks) place → Tagged marks place →
      Visited (textOf marks) (runEnd marks place) := by
    intro place hvisited htagged
    rcases expected_of_visited h hvisited with hend | hkept | ⟨-, hcrossed⟩
    · have hlt := lt_length_of_tagged htagged
      omega
    · exact absurd htagged (not_tagged_of_kept hkept)
    · exact visited_of_crossed hvisited hcrossed
  induction index with
  | zero => exact Or.inl ReflTransGen.refl
  | succ index ih =>
      rcases ih (by omega) with hvisited | ⟨before, hbefore, hinside, hvisited⟩
      · rcases kept_or_tagged (show index < marks.length by omega) with hkept | htagged
        · left
          exact ReflTransGen.tail hvisited
            ⟨by rw [length_textOf]; omega, Or.inl ⟨moveAt_of_kept h hkept, rfl⟩⟩
        · have hlt := lt_runEnd_of_tagged htagged
          by_cases hend : index + 1 = runEnd marks index
          · exact Or.inl (hend ▸ hrun index hvisited htagged)
          · exact Or.inr ⟨index, by omega, by omega, hvisited⟩
      · by_cases hend : index + 1 = runEnd marks before
        · obtain ⟨htagged, -⟩ := @tagged_and_runEnd_of_lt marks before before (by omega) (by omega)
          exact Or.inl (hend ▸ hrun before hvisited htagged)
        · exact Or.inr ⟨before, by omega, by omega, hvisited⟩

theorem visited_of_kept (h : ReadsTags marks) (hkept : Kept marks index) :
    Visited (textOf marks) index := by
  have hlt := lt_length_of_kept hkept
  rcases visited_or_in_run h (Nat.le_of_lt hlt) with hvisited | ⟨before, hbefore, hinside, -⟩
  · exact hvisited
  · obtain ⟨htagged, -⟩ := @tagged_and_runEnd_of_lt marks before index (by omega) hinside
    exact absurd htagged (not_tagged_of_kept hkept)

theorem removesExactlyTags_of_readsTags (h : ReadsTags marks) : RemovesExactlyTags marks := by
  have hforward : ∀ index, Expected marks index → index < (textOf marks).length →
      ∃ next, Next (textOf marks) index next ∧ index < next ∧ Expected marks next := by
    intro index hexpected hindex
    rw [length_textOf] at hindex
    exact expected_forward h hexpected hindex
  obtain ⟨final, hfinal, hend, hcopied, hreturned⟩ := exists_returned (Expected marks)
    (fun index stripped => stripped = untagged (marks.take index)) hforward
    (fun _ _ hexpected hindex hcopied hstep =>
      copied_step h hexpected (by rwa [length_textOf] at hindex) hcopied hstep)
    (expected_of_start h (Nat.zero_le _) (by omega)) (by simp [untagged])
  rw [length_textOf] at hend
  rw [List.take_of_length_le hend] at hcopied
  rw [hcopied] at hreturned
  refine ⟨⟨⟨_, _, hreturned⟩, ?_⟩, ⟨_, hreturned⟩, ?_⟩
  · intro index next hvisited hnext
    obtain ⟨other, hother, hlt, -⟩ :=
      hforward index (expected_of_visited h hvisited) hnext.1
    rw [next_unique hnext hother]
    omega
  · intro index
    constructor
    · rintro ⟨hvisited, hindex, hcopy⟩
      rcases expected_of_visited h hvisited with hlast | hkept | ⟨htagged, hcrossed⟩
      · omega
      · exact hkept
      · obtain ⟨next, hcrosses, -⟩ := crosses_of_tagged htagged hcrossed
        rw [(crosses_iff.mp hcrosses).1] at hcopy
        simp at hcopy
    · intro hkept
      exact ⟨visited_of_kept h hkept, lt_length_of_kept hkept, moveAt_of_kept h hkept⟩

-- A scan that copies what is kept only jumps from place to place of a run, until its end.
theorem crossed_of_visited (h : RemovesExactlyTags marks)
    (hvisited : Visited (textOf marks) index) (hindex : index ≤ marks.length) :
    Crossed (textOf marks) index (runEnd marks index) := by
  induction hleft : runEnd marks index - index using Nat.strongRecOn generalizing index with
  | ind left ih =>
      by_cases htagged : Tagged marks index
      · have hlt := lt_runEnd_of_tagged htagged
        have hinside := lt_length_of_tagged htagged
        obtain ⟨next, hnext, hforward⟩ := exists_next_of_scansForward h.scansForward hvisited
          (by rwa [length_textOf])
        have hcrosses : Crosses (textOf marks) index next := by
          rcases hnext.2 with ⟨hcopy, -⟩ | hjump
          · have hkept := (h.copies index).mp ⟨hvisited, hinside, hcopy⟩
            exact absurd htagged (not_tagged_of_kept hkept)
          · exact crosses_iff.mpr ⟨hjump, hforward⟩
        -- The end of the run is kept, so that no jump goes past it.
        have hle : next ≤ runEnd marks index := by
          have hlength := hcrosses.2.2.2.2
          rw [length_textOf] at hlength
          by_cases hend : runEnd marks index < marks.length
          · have hvisitedEnd := ((h.copies _).mpr (kept_runEnd hend)).1
            rcases visited_total hvisited hvisitedEnd with hto | hback
            · rcases ReflTransGen.cases_head hto with hsame | ⟨other, hother, hrest⟩
              · omega
              · rw [next_unique hother hnext] at hrest
                exact le_of_reaches h.scansForward (hvisited.tail hnext) hrest
            · have hle := le_of_reaches h.scansForward hvisitedEnd hback
              omega
          · omega
        have hsame : runEnd marks next = runEnd marks index := by
          by_cases hbefore : next < runEnd marks index
          · exact (@tagged_and_runEnd_of_lt marks index next (by omega) hbefore).2
          · obtain rfl : next = runEnd marks index := by omega
            exact runEnd_of_not_tagged not_tagged_runEnd
        have hrest := ih (runEnd marks next - next) (by omega) (hvisited.tail hnext)
          (by have := hcrosses.2.2.2.2; rwa [length_textOf] at this) rfl
        rw [hsame] at hrest
        exact ReflTransGen.head hcrosses hrest
      · rw [runEnd_of_not_tagged htagged]
        exact ReflTransGen.refl

theorem readsTags_of_removesExactlyTags (hfits : marks.length < 2 ^ 64)
    (h : RemovesExactlyTags marks) : ReadsTags marks := by
  constructor
  · intro index hkept htag
    have hlong := long_of_copied (by rwa [length_textOf]) htag ((h.copies index).mpr hkept).2.2
    rwa [length_textOf] at hlong
  · rintro index ⟨htagged, hstart⟩
    apply crossed_of_visited h _ (Nat.le_of_lt (lt_length_of_tagged htagged))
    cases index with
    | zero => exact ReflTransGen.refl
    | succ before =>
        obtain ⟨hvisited, hindex, hcopy⟩ := (h.copies before).mpr (hstart before rfl)
        exact ReflTransGen.tail hvisited ⟨by rwa [length_textOf], Or.inl ⟨hcopy, rfl⟩⟩

theorem removesExactlyTags_iff (hfits : marks.length < 2 ^ 64) :
    RemovesExactlyTags marks ↔ ReadsTags marks :=
  ⟨readsTags_of_removesExactlyTags hfits, removesExactlyTags_of_readsTags⟩

end Removal

-- The scan of a name goes forward to its end where its numbers fit, and removes the tags and
-- nothing else where the numbers behind a B are the ones of the tags.
theorem strip_abi_tags_iff (symbol : SymbolName) (name : MangledName) :
    (ScansForward symbol.bytes ↔ NumbersFit symbol.bytes) ∧
      (RemovesExactlyTags name.marks ↔ ReadsTags name.marks) :=
  ⟨scansForward_iff symbol, removesExactlyTags_iff name.fits⟩

-- With identifiers for tags, it is the B of another identifier that the scan takes for a tag.
theorem removes_exactly_tags_of_plain (name : MangledName)
    (hplain : ∀ source ∈ name.names, ∀ tag ∈ source.tags, PlainTag tag) :
    RemovesExactlyTags name.marks ↔
      ∀ index, Kept name.marks index → TagAt (textOf name.marks) index →
        name.marks.length < tagEnd (textOf name.marks) index ∧
          tagEnd (textOf name.marks) index < 2 ^ 64 :=
  Iff.trans (removesExactlyTags_iff name.fits) (readsTags_iff_of_plain name hplain)

-- `_Z4aB1c`, the name of `aB1c`
def identifierLikeTag : MangledName where
  front := [95, 90]
  names := [⟨[97, 66, 49, 99], []⟩]
  fits := by decide

-- `_ZB18446744073709551595`, whose sum is the place of the B
def wrappingNumber : Bytes :=
  [95, 90, 66, 49, 56, 52, 52, 54, 55, 52, 52, 48, 55, 51, 55, 48, 57, 53, 53, 49, 53, 57, 53]

-- `_ZB18446744073709551616`
def unreadableNumber : Bytes :=
  [95, 90, 66, 49, 56, 52, 52, 54, 55, 52, 52, 48, 55, 51, 55, 48, 57, 53, 53, 49, 54, 49, 54]

-- A step to where the scan is goes on for ever.
theorem scanFrom_of_loop {name : Bytes} {state : ScanState} (hindex : state.index < name.length)
    (hstep : stepAt name state = some state) (fuel : Nat) :
    scanFrom name fuel state = .running := by
  induction fuel with
  | zero => exact scanFrom_zero hindex
  | succ fuel ih =>
      rw [scanFrom_of_stepAt hindex hstep]
      exact ih

theorem running_wrappingNumber (fuel : Nat) : stripAbiTags fuel wrappingNumber = .running := by
  have hloop : ∀ fuel, scanFrom wrappingNumber fuel ⟨2, [95, 90]⟩ = .running :=
    scanFrom_of_loop (by decide) (by decide +kernel)
  have hfirst : stepAt wrappingNumber {} = some ⟨1, [95]⟩ := by decide
  have hsecond : stepAt wrappingNumber ⟨1, [95]⟩ = some ⟨2, [95, 90]⟩ := by decide
  unfold stripAbiTags
  cases fuel with
  | zero => exact scanFrom_zero (by decide)
  | succ fuel =>
      rw [scanFrom_of_stepAt (by decide) hfirst]
      cases fuel with
      | zero => exact scanFrom_zero (by decide)
      | succ fuel =>
          rw [scanFrom_of_stepAt (by decide) hsecond]
          exact hloop fuel

-- A name is cut at an identifier, a number is no `unsigned long`, and a sum comes back to its B.
theorem identifier_cut_as_tag :
    (untagged identifierLikeTag.marks = [95, 90, 52, 97, 66, 49, 99] ∧
      ∀ fuel, 4 < fuel →
        stripAbiTags fuel (textOf identifierLikeTag.marks) = .returned [95, 90, 52, 97]) ∧
      (∀ fuel, 2 < fuel → stripAbiTags fuel unreadableNumber = .thrown) ∧
      ∀ fuel, stripAbiTags fuel wrappingNumber = .running := by
  refine ⟨⟨by decide +kernel, fun fuel hfuel => ?_⟩, fun fuel hfuel => ?_, running_wrappingNumber⟩
  · have hcut : stripAbiTags 5 (textOf identifierLikeTag.marks) = .returned [95, 90, 52, 97] := by
      decide +kernel
    rw [← hcut]
    exact scanFrom_of_le (by omega) _ (by decide +kernel)
  · have hthrown : stripAbiTags 3 unreadableNumber = .thrown := by decide +kernel
    rw [← hthrown]
    exact scanFrom_of_le (by omega) _ (by decide +kernel)

end ConcurrencyAnalyzer.SymbolClassifier
