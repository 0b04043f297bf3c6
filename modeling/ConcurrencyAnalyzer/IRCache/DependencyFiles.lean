import ConcurrencyAnalyzer.IRCache.Cache

namespace ConcurrencyAnalyzer.IRCache

-- How Make writes a path.
def escape (path : Bytes) : Bytes :=
  path.flatMap fun character =>
    if character = space ∨ character = backslash ∨ character = hash then [backslash, character]
    else [character]

structure Prerequisite where
  path : Bytes
  nonempty : path ≠ [] := by decide
  oneLine : newline ∉ path ∧ carriageReturn ∉ path ∧ tab ∉ path := by decide

-- A piece of what separates two paths.
inductive Gap where
  | blank (character : {character : UInt8 // isBlank character = true})
  | continuation

def Gap.text : Gap → Bytes
  | .blank character => [character]
  | .continuation => [backslash, newline]

def gapsText (gaps : List Gap) : Bytes := gaps.flatMap Gap.text

-- The paths, each with what stands behind it.
abbrev WrittenPaths := List (Prerequisite × List Gap)

def pathsText (written : WrittenPaths) : Bytes :=
  written.flatMap fun entry => escape entry.1.path ++ gapsText entry.2

def dependencyText (target : Bytes) (before : List Gap) (written : WrittenPaths) : Bytes :=
  target ++ [colon] ++ gapsText before ++ pathsText written

-- Nothing needs to follow the last path.
def Separated (written : WrittenPaths) : Prop := ∀ entry ∈ written.dropLast, entry.2 ≠ []

section Scanner

theorem prerequisites_blank {character : UInt8} (h : isBlank character = true)
    (current rest : Bytes) :
    prerequisites current (character :: rest) = flush current ++ prerequisites [] rest := by
  have hbackslash : character ≠ backslash := by
    rintro rfl
    exact absurd h (by decide)
  cases rest with
  | nil => simp [prerequisites, h, flush]
  | cons escaped rest => simp [prerequisites, h, hbackslash]

theorem prerequisites_continuation (current rest : Bytes) :
    prerequisites current (backslash :: newline :: rest) =
      flush current ++ prerequisites [] rest := by
  simp [prerequisites]

theorem prerequisites_escape {character : UInt8}
    (h : character = space ∨ character = backslash ∨ character = hash) (current rest : Bytes) :
    prerequisites current (backslash :: character :: rest) =
      prerequisites (current ++ [character]) rest := by
  have hnewline : character ≠ newline := by
    rintro rfl
    exact absurd h (by decide)
  simp [prerequisites, h, hnewline]

theorem prerequisites_plain {character : UInt8} (hblank : isBlank character = false)
    (hbackslash : character ≠ backslash) (current rest : Bytes) :
    prerequisites current (character :: rest) = prerequisites (current ++ [character]) rest := by
  cases rest with
  | nil => simp [prerequisites, hblank]
  | cons escaped rest => simp [prerequisites, hblank, hbackslash]

-- The scanner reads a path up to its end, whatever follows it.
theorem prerequisites_path {path : Bytes}
    (h : newline ∉ path ∧ carriageReturn ∉ path ∧ tab ∉ path) (current rest : Bytes) :
    prerequisites current (escape path ++ rest) = prerequisites (current ++ path) rest := by
  induction path generalizing current with
  | nil => simp [escape]
  | cons character path ih =>
      simp only [List.mem_cons, not_or] at h
      obtain ⟨⟨hnewline, hnewlines⟩, ⟨hreturn, hreturns⟩, htab, htabs⟩ := h
      have hrest := ih ⟨hnewlines, hreturns, htabs⟩ (current ++ [character])
      rw [List.append_assoc, List.singleton_append] at hrest
      rw [← hrest]
      by_cases hescaped : character = space ∨ character = backslash ∨ character = hash
      · have htext : escape (character :: path) = backslash :: character :: escape path := by
          simp [escape, hescaped]
        rw [htext, List.cons_append, List.cons_append, prerequisites_escape hescaped]
      · have htext : escape (character :: path) = character :: escape path := by
          simp [escape, hescaped]
        rw [not_or, not_or] at hescaped
        have hblank : isBlank character = false := by
          simp [isBlank, hescaped.1, Ne.symm htab, Ne.symm hnewline, Ne.symm hreturn]
        rw [htext, List.cons_append, prerequisites_plain hblank hescaped.2.1]

theorem prerequisites_gap (gap : Gap) (current rest : Bytes) :
    prerequisites current (gap.text ++ rest) = flush current ++ prerequisites [] rest := by
  cases gap with
  | blank character => exact prerequisites_blank character.property current rest
  | continuation => exact prerequisites_continuation current rest

theorem prerequisites_gaps (gaps : List Gap) (rest : Bytes) :
    prerequisites [] (gapsText gaps ++ rest) = prerequisites [] rest := by
  induction gaps with
  | nil => rfl
  | cons gap gaps ih =>
      rw [gapsText, List.flatMap_cons, List.append_assoc, prerequisites_gap]
      exact ih

-- A path ends at the first piece of what separates it from the next.
theorem prerequisites_separated {gaps : List Gap} (h : gaps ≠ []) (current rest : Bytes) :
    prerequisites current (gapsText gaps ++ rest) = flush current ++ prerequisites [] rest := by
  obtain ⟨gap, gaps, rfl⟩ := List.exists_cons_of_ne_nil h
  rw [gapsText, List.flatMap_cons, List.append_assoc, prerequisites_gap]
  congr 1
  exact prerequisites_gaps gaps rest

end Scanner

theorem prerequisites_pathsText {written : WrittenPaths} (h : Separated written) :
    prerequisites [] (pathsText written) = written.map fun entry => entry.1.path := by
  induction written with
  | nil => rfl
  | cons entry written ih =>
      obtain ⟨prerequisite, gaps⟩ := entry
      have hflush : flush prerequisite.path = [prerequisite.path] := if_neg prerequisite.nonempty
      rw [pathsText, List.flatMap_cons, List.append_assoc, prerequisites_path prerequisite.oneLine,
        List.nil_append, List.map_cons]
      cases written with
      | nil =>
          -- the text may end right behind the last path
          rw [List.flatMap_nil, List.append_nil, List.map_nil]
          by_cases hgaps : gaps = []
          · rw [hgaps]
            exact hflush
          · rw [← List.append_nil (gapsText gaps), prerequisites_separated hgaps, hflush]
            rfl
      | cons next written =>
          have hgaps : gaps ≠ [] := h (prerequisite, gaps) (by simp)
          have hlater : Separated (next :: written) := fun entry hentry =>
            h entry (by rw [List.dropLast_cons_cons]; exact List.mem_cons_of_mem _ hentry)
          rw [prerequisites_separated hgaps, hflush, List.singleton_append]
          exact congrArg _ (ih hlater)

theorem text_past_target {target : Bytes} (htarget : colon ∉ target) (before : List Gap)
    (written : WrittenPaths) :
    (dependencyText target before written).dropWhile (· ≠ colon) =
      colon :: (gapsText before ++ pathsText written) := by
  unfold dependencyText
  rw [List.append_assoc, List.append_assoc, List.dropWhile_append_of_pos]
  · simp
  · intro character hcharacter
    simpa using fun hsame : character = colon => htarget (hsame ▸ hcharacter)

theorem dependency_file_parsed {target : Bytes} (htarget : colon ∉ target) (before : List Gap)
    {written : WrittenPaths} (hwritten : Separated written) :
    parseDependencyFile (dependencyText target before written) =
      written.map fun entry => entry.1.path := by
  unfold parseDependencyFile
  rw [text_past_target htarget]
  calc prerequisites [] (gapsText before ++ pathsText written)
      = prerequisites [] (pathsText written) := prerequisites_gaps before _
    _ = written.map fun entry => entry.1.path := prerequisites_pathsText hwritten

-- `t: a\\` with a continuation behind it, and ` #`.
theorem dependency_file_parsed_ends_in_backslash :
    parseDependencyFile (dependencyText [116] [.blank ⟨space, by decide⟩]
      [({ path := [97, backslash] }, [.continuation, .blank ⟨tab, by decide⟩]),
        ({ path := [space, hash] }, [])]) = [[97, backslash], [space, hash]] :=
  dependency_file_parsed (by decide) _ (by simp [Separated])

end ConcurrencyAnalyzer.IRCache
