import ConcurrencyAnalyzer.AtomicOrdering.Analysis

namespace ConcurrencyAnalyzer.AtomicOrdering

-- What an activation of a function leaves behind: an instruction it ran or an edge it took.
inductive Mark where
  | ran (site : Site)
  | took (start finish : Nat)
  deriving DecidableEq

-- A path of a function through its live edges, and where it stands.
inductive Walk (function : Function) : List Mark → Nat → Nat → Prop
  | entry : Walk function [] 0 0
  | next {marks block index instruction} : Walk function marks block index →
      function.instructionAt (block, index) = some instruction →
      Walk function (marks ++ [.ran (block, index)]) block (index + 1)
  | branch {marks block found successor} : Walk function marks block found.instructions.length →
      function.blocks[block]? = some found → successor ∈ function.liveSuccessors block →
      Walk function (marks ++ [.took block successor]) successor 0

namespace Function

variable {function : Function}

theorem successors_eq {block : Nat} {found : Block} (hfound : function.blocks[block]? = some found) :
    function.successors block = found.terminator.successors := by
  simp [successors, Program.Function.successors, cfg, hfound]

theorem successor_lt {block successor : Nat} (h : successor ∈ function.successors block) :
    successor < function.blocks.length := by
  have := Program.Function.successor_lt h
  rwa [cfg, List.length_map] at this

theorem successors_of_live {block successor : Nat} (h : successor ∈ function.liveSuccessors block) :
    successor ∈ function.successors block := by
  unfold liveSuccessors at h
  split at h
  · exact absurd h List.not_mem_nil
  · rename_i found hfound
    rw [successors_eq hfound]
    split at h
    · rename_i condition cases defaultDest hswitch
      split at h
      · rename_i taken htaken
        rw [List.mem_singleton] at h
        subst h
        obtain ⟨_, _, htaken⟩ := Option.bind_eq_some_iff.mp htaken
        obtain ⟨_, _, hselect⟩ := Option.bind_eq_some_iff.mp htaken
        rw [hswitch]
        exact Terminator.select_mem hselect
      · exact h
    · exact h

theorem entry_live (function : Function) : 0 ∈ function.liveBlocks :=
  Library.Search.zero_mem_reached _ _

theorem live_next {block successor : Nat} (hblock : block ∈ function.liveBlocks)
    (h : successor ∈ function.liveSuccessors block) : successor ∈ function.liveBlocks :=
  Library.Search.next_mem_reached (fun _ _ hnext => successor_lt (successors_of_live hnext)) hblock h

variable (function)

-- Some path through live blocks gets to a place without having been past an instruction.
structure Clear (stop : Site) (block index : Nat) : Prop where
  before : block = stop.1 → index ≤ stop.2
  reached : block ∈ Library.Search.reached (function.liveSuccessorsPast stop.1) function.blocks.length

variable {function}

theorem clear_entry (stop : Site) : function.Clear stop 0 0 :=
  ⟨fun _ => Nat.zero_le _, Library.Search.zero_mem_reached _ _⟩

theorem Clear.next {stop : Site} {block index : Nat} (h : function.Clear stop block index)
    (hne : (block, index) ≠ stop) : function.Clear stop block (index + 1) where
  before hblock := by
    have hle := h.before hblock
    by_contra hlt
    exact hne (Prod.ext hblock (by show index = stop.2; omega))
  reached := h.reached

theorem Clear.branch {stop : Site} {block successor : Nat} {found : Block} {instruction : Instruction}
    (h : function.Clear stop block found.instructions.length)
    (hstop : function.instructionAt stop = some instruction)
    (hfound : function.blocks[block]? = some found) (hlive : block ∈ function.liveBlocks)
    (hsuccessor : successor ∈ function.successors block) : function.Clear stop successor 0 where
  before _ := Nat.zero_le _
  reached := by
    have hblock : block ≠ stop.1 := by
      intro hblock
      have hle := h.before hblock
      obtain ⟨holds, hholds, hget⟩ := Option.bind_eq_some_iff.mp hstop
      rw [← hblock, hfound, Option.some.injEq] at hholds
      subst hholds
      have := (List.getElem?_eq_some_iff.mp hget).1
      omega
    refine Library.Search.next_mem_reached ?_ h.reached ?_
    · intro element next hnext
      unfold liveSuccessorsPast at hnext
      split at hnext
      · exact absurd hnext List.not_mem_nil
      · exact successor_lt hnext
    · rwa [liveSuccessorsPast, if_neg (not_or.mpr ⟨hblock, not_not.mpr hlive⟩)]

-- A place that some path gets to without an instruction is not dominated by it.
theorem Clear.eq_of_liveDominates {stop later : Site} (h : function.Clear stop later.1 later.2)
    (hlive : later.1 ∈ function.liveBlocks) (hdominates : function.liveDominates stop later = true) :
    stop = later := by
  unfold liveDominates at hdominates
  split at hdominates
  · rename_i hblock
    have hle := h.before hblock.symm
    rw [decide_eq_true_eq] at hdominates
    exact Prod.ext hblock (by omega)
  · split at hdominates
    · cases hdominates
    · simp [h.reached, hlive] at hdominates

end Function

namespace Walk

variable {function : Function} {marks : List Mark} {block index : Nat}

theorem live (h : Walk function marks block index) : block ∈ function.liveBlocks := by
  induction h with
  | entry => exact function.entry_live
  | next _ _ ih => exact ih
  | branch _ _ hsuccessor ih => exact Function.live_next ih hsuccessor

-- A path to a block an edge dominates has taken the edge.
theorem took_of_edgeDominates (h : Walk function marks block index) {start finish : Nat}
    (hdominates : function.cfg.edgeDominates start finish block = true) :
    .took start finish ∈ marks := by
  have henters : function.cfg.Enters (fun start finish => .took start finish ∈ marks) block := by
    clear hdominates
    induction h with
    | entry => exact .entry
    | next _ _ ih => exact ih.mono fun _ _ => List.mem_append_left _
    | branch _ _ hsuccessor ih =>
        exact .branch (ih.mono fun _ _ => List.mem_append_left _)
          (Function.successors_of_live hsuccessor) (List.mem_append_right _ List.mem_cons_self)
  by_contra hnot
  exact Program.Function.not_enters_of_edgeDominates hdominates hnot henters

-- Where a path stood when it ran an instruction.
theorem at_of_ran {before after : List Mark} {site : Site}
    (h : Walk function (before ++ .ran site :: after) block index) :
    Walk function before site.1 site.2 := by
  generalize hmarks : before ++ .ran site :: after = marks at h
  induction h generalizing after with
  | entry => exact absurd hmarks (by simp)
  | next hwalk _ ih =>
      rcases List.eq_nil_or_concat after with rfl | ⟨rest, last, rfl⟩
      · obtain ⟨rfl, hlast⟩ := List.append_inj' hmarks rfl
        cases hlast
        exact hwalk
      · rw [List.concat_eq_append, ← List.cons_append, ← List.append_assoc] at hmarks
        exact ih (List.append_inj' hmarks rfl).1
  | branch _ _ _ ih =>
      rcases List.eq_nil_or_concat after with rfl | ⟨rest, last, rfl⟩
      · obtain ⟨_, hlast⟩ := List.append_inj' hmarks rfl
        cases hlast
      · rw [List.concat_eq_append, ← List.cons_append, ← List.append_assoc] at hmarks
        exact ih (List.append_inj' hmarks rfl).1

-- A path that does not run an instruction any more stays clear of it.
theorem clear {base later : List Mark} {stop : Site} {instruction : Instruction}
    (h : Walk function (base ++ later) block index)
    (hstop : function.instructionAt stop = some instruction)
    (hbase : ∀ block index, Walk function base block index → function.Clear stop block index)
    (hnot : .ran stop ∉ later) : function.Clear stop block index := by
  generalize hmarks : base ++ later = marks at h
  induction h generalizing later with
  | entry =>
      obtain ⟨rfl, rfl⟩ := List.append_eq_nil_iff.mp hmarks
      exact hbase 0 0 .entry
  | next hwalk hinstruction ih =>
      rcases List.eq_nil_or_concat later with rfl | ⟨rest, last, rfl⟩
      · rw [List.append_nil] at hmarks
        subst hmarks
        exact hbase _ _ (.next hwalk hinstruction)
      · rw [List.concat_eq_append] at hmarks hnot
        rw [← List.append_assoc] at hmarks
        obtain ⟨hrest, hlast⟩ := List.append_inj' hmarks rfl
        cases hlast
        rw [List.mem_append, not_or, List.mem_singleton] at hnot
        exact (ih hnot.1 hrest).next fun heq => hnot.2 (congrArg Mark.ran heq.symm)
  | branch hwalk hfound hsuccessor ih =>
      rcases List.eq_nil_or_concat later with rfl | ⟨rest, last, rfl⟩
      · rw [List.append_nil] at hmarks
        subst hmarks
        exact hbase _ _ (.branch hwalk hfound hsuccessor)
      · rw [List.concat_eq_append] at hmarks hnot
        rw [← List.append_assoc] at hmarks
        obtain ⟨hrest, _⟩ := List.append_inj' hmarks rfl
        rw [List.mem_append, not_or] at hnot
        exact (ih hnot.1 hrest).branch hstop hfound hwalk.live (Function.successors_of_live hsuccessor)

-- The marks tell where a path stands.
theorem position_unique {otherBlock otherIndex : Nat} (h : Walk function marks block index)
    (hother : Walk function marks otherBlock otherIndex) :
    block = otherBlock ∧ index = otherIndex := by
  cases h with
  | entry =>
      generalize hmarks : ([] : List Mark) = marks at hother
      cases hother with
      | entry => exact ⟨rfl, rfl⟩
      | next _ _ => simp at hmarks
      | branch _ _ _ => simp at hmarks
  | @next marks block index _ _ _ =>
      generalize hmarks : marks ++ [.ran (block, index)] = others at hother
      cases hother with
      | entry => simp at hmarks
      | next _ _ =>
          obtain ⟨_, hlast⟩ := List.append_inj' hmarks rfl
          cases hlast
          exact ⟨rfl, rfl⟩
      | branch _ _ _ => cases (List.append_inj' hmarks rfl).2
  | @branch start origin _ _ _ _ _ =>
      generalize hmarks : start ++ [.took origin block] = others at hother
      cases hother with
      | entry => simp at hmarks
      | next _ _ => cases (List.append_inj' hmarks rfl).2
      | branch _ _ _ =>
          obtain ⟨_, hlast⟩ := List.append_inj' hmarks rfl
          cases hlast
          exact ⟨rfl, rfl⟩

theorem clear_of_not_ran {stop : Site} {instruction : Instruction}
    (h : Walk function marks block index) (hstop : function.instructionAt stop = some instruction)
    (hnot : .ran stop ∉ marks) : function.Clear stop block index := by
  have hwalk : Walk function ([] ++ marks) block index := h
  refine hwalk.clear hstop (fun block index hwalk => ?_) hnot
  obtain ⟨rfl, rfl⟩ := hwalk.position_unique .entry
  exact Function.clear_entry stop

-- A path to an instruction has run those that dominate it.
theorem ran_of_liveDominates {earlier later : Site} {instruction : Instruction}
    (h : Walk function marks later.1 later.2)
    (hearlier : function.instructionAt earlier = some instruction)
    (hdominates : function.liveDominates earlier later = true) :
    earlier = later ∨ .ran earlier ∈ marks := by
  by_cases hran : .ran earlier ∈ marks
  · exact .inr hran
  · have hclear := h.clear_of_not_ran hearlier hran
    exact .inl (hclear.eq_of_liveDominates h.live hdominates)

-- Of two instructions, some path gets to the one that dominates without the other.
theorem clear_of_liveDominates {earlier later : Site} {first second : Instruction}
    (h : Walk function marks earlier.1 earlier.2)
    (hearlier : function.instructionAt earlier = some first)
    (hlater : function.instructionAt later = some second)
    (hdominates : function.liveDominates earlier later = true) (hne : earlier ≠ later) :
    function.Clear later earlier.1 earlier.2 := by
  induction hlength : marks.length using Nat.strong_induction_on generalizing marks with
  | _ length ih =>
      by_cases hran : .ran later ∈ marks
      · obtain ⟨before, after, rfl⟩ := List.append_of_mem hran
        rcases h.at_of_ran.ran_of_liveDominates hearlier hdominates with heq | hmem
        · exact absurd heq hne
        · obtain ⟨start, rest, rfl⟩ := List.append_of_mem hmem
          refine ih start.length ?_ h.at_of_ran.at_of_ran rfl
          simp only [← hlength, List.length_append, List.length_cons]
          omega
      · exact h.clear_of_not_ran hlater hran

-- Between an instruction and one further on, a path runs what stands between them by dominance.
theorem ran_between {first middle last : Site} {before after : List Mark}
    {firstInstruction middleInstruction : Instruction}
    (h : Walk function (before ++ .ran first :: after) last.1 last.2)
    (hfirst : function.instructionAt first = some firstInstruction)
    (hmiddle : function.instructionAt middle = some middleInstruction)
    (hbefore : function.liveDominates first middle = true)
    (hafter : function.liveDominates middle last = true) :
    middle = last ∨ .ran middle ∈ .ran first :: after := by
  by_cases hsame : first = middle
  · exact .inr (hsame ▸ List.mem_cons_self)
  · by_cases hran : .ran middle ∈ .ran first :: after
    · exact .inr hran
    · have hstart : function.Clear middle first.1 first.2 :=
        h.at_of_ran.clear_of_liveDominates hfirst hmiddle hbefore hsame
      have hclear := clear h hmiddle (fun block index hwalk => ?_) hran
      · exact .inl (hclear.eq_of_liveDominates h.live hafter)
      · obtain ⟨rfl, rfl⟩ := hwalk.position_unique h.at_of_ran
        exact hstart

-- Where a path goes from an instruction it ran.
theorem after_ran {before after : List Mark} {site : Site}
    (h : Walk function (before ++ .ran site :: after) block index) :
    (block = site.1 ∧ site.2 < index) ∨
      Relation.TransGen (fun block next => next ∈ function.successors block) site.1 block := by
  generalize hmarks : before ++ .ran site :: after = marks at h
  induction h generalizing after with
  | entry => exact absurd hmarks (by simp)
  | next hwalk _ ih =>
      rcases List.eq_nil_or_concat after with rfl | ⟨rest, last, rfl⟩
      · obtain ⟨_, hlast⟩ := List.append_inj' hmarks rfl
        cases hlast
        exact .inl ⟨rfl, Nat.lt_succ_self _⟩
      · rw [List.concat_eq_append, ← List.cons_append, ← List.append_assoc] at hmarks
        refine (ih (List.append_inj' hmarks rfl).1).imp_left ?_
        exact fun ⟨hblock, hlt⟩ => ⟨hblock, Nat.lt_succ_of_lt hlt⟩
  | branch _ _ hsuccessor ih =>
      have hnext := Function.successors_of_live hsuccessor
      rcases List.eq_nil_or_concat after with rfl | ⟨rest, last, rfl⟩
      · obtain ⟨_, hlast⟩ := List.append_inj' hmarks rfl
        cases hlast
      · rw [List.concat_eq_append, ← List.cons_append, ← List.append_assoc] at hmarks
        rcases ih (List.append_inj' hmarks rfl).1 with ⟨rfl, _⟩ | hreach
        · exact .inr (.single hnext)
        · exact .inr (hreach.tail hnext)

-- An instruction on no cycle is not run before one that dominates it.
theorem not_ran_before {earlier later : Site} {before after : List Mark} {instruction : Instruction}
    (h : Walk function (before ++ .ran later :: after) earlier.1 earlier.2)
    (hearlier : function.instructionAt earlier = some instruction)
    (hdominates : function.liveDominates earlier later = true) :
    Relation.TransGen (fun block next => next ∈ function.successors block) later.1 later.1 := by
  rcases h.at_of_ran.ran_of_liveDominates hearlier hdominates with rfl | hmem
  · rcases h.after_ran with ⟨_, hlt⟩ | hreach
    · exact absurd hlt (lt_irrefl _)
    · exact hreach
  · obtain ⟨start, rest, rfl⟩ := List.append_of_mem hmem
    rcases h.at_of_ran.after_ran with ⟨hsame, hlt⟩ | hto <;>
      rcases h.after_ran with ⟨hback, hgt⟩ | hfrom
    · omega
    · exact hsame ▸ hfrom
    · exact hback ▸ hto
    · exact hfrom.trans hto

end Walk

end ConcurrencyAnalyzer.AtomicOrdering
