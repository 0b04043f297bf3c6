import ConcurrencyAnalyzer.ThreadCompletion.PathSearch

namespace ConcurrencyAnalyzer.ThreadCompletion

open Program Library

section Walks

variable {graph : FlowGraph} {completions : Completions graph} {point : Option Point}
  {block : Nat} {next : List Nat}

-- No instruction of a block that is walked before its last `after` ones is a completion.
def ClearUntil (graph : FlowGraph) (completions : Completions graph) (block before after : Nat) :
    Prop :=
  ∀ remaining, after < remaining → remaining ≤ before →
    .after ⟨block, graph.length block - remaining⟩ ∉ completions.places

theorem reaches_later {before after : Nat} (hle : after ≤ before)
    (hclear : ClearUntil graph completions block before after)
    (h : reaches graph completions.places point block before = some next) :
    reaches graph completions.places point block after = some next := by
  induction before with
  | zero =>
      have : after = 0 := by omega
      exact this ▸ h
  | succ before ih =>
      by_cases heq : after = before + 1
      · exact heq ▸ h
      · have hlast := hclear (before + 1) (by omega) le_rfl
        unfold reaches at h
        dsimp only at h
        split at h
        · cases h
        · exact ih (by omega) (fun remaining hlow hhigh => hclear remaining hlow (by omega)) h

theorem ClearUntil.extend {remaining after : Nat}
    (h : ClearUntil graph completions block remaining after)
    (hnot : .after ⟨block, graph.length block - (remaining + 1)⟩ ∉ completions.places) :
    ClearUntil graph completions block (remaining + 1) after := by
  intro other hlow hhigh
  by_cases heq : other = remaining + 1
  · exact heq ▸ hnot
  · exact h other hlow (by omega)

-- A walk that goes on stops at a completion or comes to the end of the block.
theorem reaches_some_cases {remaining : Nat}
    (h : reaches graph completions.places point block remaining = some next) :
    (∃ after, 0 < after ∧ after ≤ remaining ∧ ClearUntil graph completions block remaining after ∧
      .after ⟨block, graph.length block - after⟩ ∈ completions.places ∧
      next = (graph.unwindDest ⟨block, graph.length block - after⟩).toList) ∨
    (ClearUntil graph completions block remaining 0 ∧
      next = (graph.successors block).filter fun successor =>
        .branch block successor ∉ completions.places) := by
  induction remaining with
  | zero =>
      unfold reaches at h
      split at h
      · cases h
      · exact .inr ⟨fun remaining hlow hhigh => absurd hhigh (by omega), by simpa using h.symm⟩
  | succ remaining ih =>
      unfold reaches at h
      dsimp only at h
      split at h
      · cases h
      · split at h
        · rename_i hafter
          refine .inl ⟨remaining + 1, Nat.succ_pos _, le_rfl,
            fun other hlow hhigh => absurd hhigh (by omega), hafter, ?_⟩
          simpa using h.symm
        · rename_i hnot
          rcases ih h with ⟨after, hpos, hle, hclear, hmem, hnext⟩ | ⟨hclear, hnext⟩
          · exact .inl ⟨after, hpos, by omega, hclear.extend hnot, hmem, hnext⟩
          · exact .inr ⟨hclear.extend hnot, hnext⟩

theorem reaches_none {remaining : Nat}
    (h : reaches graph completions.places point block remaining = none) :
    (∃ after, 0 < after ∧ after ≤ remaining ∧ ClearUntil graph completions block remaining after ∧
      point = some ⟨block, graph.length block - after⟩) ∨
    (ClearUntil graph completions block remaining 0 ∧ point = none ∧ graph.exit block = .ret) := by
  induction remaining with
  | zero =>
      unfold reaches at h
      split at h
      · rename_i hret
        exact .inr ⟨fun remaining hlow hhigh => absurd hhigh (by omega), hret⟩
      · cases h
  | succ remaining ih =>
      unfold reaches at h
      dsimp only at h
      split at h
      · rename_i hpoint
        exact .inl ⟨remaining + 1, Nat.succ_pos _, le_rfl,
          fun other hlow hhigh => absurd hhigh (by omega), hpoint⟩
      · split at h
        · cases h
        · rename_i hnot
          rcases ih h with ⟨after, hpos, hle, hclear, hpoint⟩ | ⟨hclear, hret⟩
          · exact .inl ⟨after, hpos, by omega, hclear.extend hnot, hpoint⟩
          · exact .inr ⟨hclear.extend hnot, hret⟩

theorem successor_lt_of_reaches {remaining successor : Nat}
    (h : reaches graph completions.places point block remaining = some next)
    (hmem : successor ∈ next) : successor < graph.blocks.length := by
  rcases reaches_some_cases h with ⟨after, _, _, _, _, rfl⟩ | ⟨_, rfl⟩
  · rw [Option.mem_toList] at hmem
    exact (FlowGraph.mem_edges_lt (FlowGraph.unwindDest_eq_some hmem).2.1).2
  · exact FlowGraph.successor_lt (List.mem_of_mem_filter hmem)

end Walks

section Sound

variable {graph : FlowGraph} {completions : Completions graph} {point : Option Point}
  {start : Point} {block remaining : Nat} {next : List Nat}

-- A path goes on inside a block as far as nothing completes.
theorem Uncompleted.along {after : Nat}
    (h : Uncompleted graph completions.places start ⟨block, graph.length block - remaining⟩)
    (hbound : remaining ≤ graph.length block) (hpos : 0 < after) (hle : after ≤ remaining)
    (hclear : ClearUntil graph completions block remaining after) :
    Uncompleted graph completions.places start ⟨block, graph.length block - after⟩ := by
  induction remaining with
  | zero => omega
  | succ remaining ih =>
      by_cases heq : after = remaining + 1
      · exact heq ▸ h
      · refine ih ?_ (by omega) (by omega) fun other hlow hhigh => hclear other hlow (by omega)
        have hnext : graph.length block - remaining = graph.length block - (remaining + 1) + 1 := by
          omega
        rw [hnext]
        exact h.move (.onward (by omega)) (hclear (remaining + 1) (by omega) le_rfl)

theorem Uncompleted.ends_of_none
    (h : Uncompleted graph completions.places start ⟨block, graph.length block - remaining⟩)
    (hbound : remaining ≤ graph.length block) (hpos : 0 < remaining)
    (hnone : reaches graph completions.places point block remaining = none) :
    ∃ place, Uncompleted graph completions.places start place ∧ Ends graph point place := by
  rcases reaches_none hnone with ⟨after, hafter, hle, hclear, hpoint⟩ | ⟨hclear, hpoint, hret⟩
  · exact ⟨_, h.along hbound hafter hle hclear, .inl hpoint⟩
  · refine ⟨graph.last block, ?_, .inr ⟨hpoint, hret, rfl⟩⟩
    exact h.along hbound Nat.one_pos hpos fun other hlow hhigh => hclear other (by omega) hhigh

theorem Uncompleted.successor_of_some
    (h : Uncompleted graph completions.places start ⟨block, graph.length block - remaining⟩)
    (hbound : remaining ≤ graph.length block) (hpos : 0 < remaining)
    (hsome : reaches graph completions.places point block remaining = some next) {successor : Nat}
    (hsuccessor : successor ∈ next) : Uncompleted graph completions.places start ⟨successor, 0⟩ := by
  rcases reaches_some_cases hsome with ⟨after, hafter, hle, hclear, _, rfl⟩ | ⟨hclear, rfl⟩
  · rw [Option.mem_toList] at hsuccessor
    obtain ⟨hlast, hedge, normal, hexit⟩ := FlowGraph.unwindDest_eq_some hsuccessor
    have hplace := h.along hbound hafter hle hclear
    rw [hlast] at hplace
    refine hplace.move (.edge hedge) ?_
    rintro (⟨_, hfalse⟩ | hbranch)
    · cases hfalse
    · obtain ⟨targets, htargets⟩ := completions.ofBranches _ _ hbranch
      rw [hexit] at htargets
      cases htargets
  · obtain ⟨hmem, hcut⟩ := List.mem_filter.mp hsuccessor
    obtain ⟨⟨_, unwinds⟩, hedge, rfl⟩ := List.mem_map.mp hmem
    have hplace := h.along hbound Nat.one_pos hpos
      fun other hlow hhigh => hclear other (by omega) hhigh
    refine hplace.move (.edge hedge) ?_
    rintro (⟨hafter, _⟩ | hbranch)
    · exact hclear 1 Nat.one_pos hpos hafter
    · exact of_decide_eq_true hcut hbranch

end Sound

section Complete

variable {graph : FlowGraph} {completions : Completions graph} {point : Option Point}
  {start : Point} {roots : List Nat}

-- A place is in the part of a block that was walked, with nothing completed before it.
structure Walked (graph : FlowGraph) (completions : Completions graph) (point : Option Point)
    (roots : List Nat) (place : Point) (remaining : Nat) (next : List Nat) : Prop where
  walk : reaches graph completions.places point place.block remaining = some next
  bound : remaining ≤ graph.length place.block
  past : graph.length place.block - remaining ≤ place.index
  inside : place.index < graph.length place.block
  clear : ClearUntil graph completions place.block remaining (graph.length place.block - place.index)
  found : ∀ successor ∈ next,
    Search.Found (reachesBlock graph completions.places point) roots successor

variable {place : Point} {remaining : Nat} {next : List Nat}

-- From such a place on the walk goes as from where it began.
theorem Walked.here (h : Walked graph completions point roots place remaining next) :
    reaches graph completions.places point place.block (graph.length place.block - place.index) =
      some next := by
  have hbound := h.bound
  have hpast := h.past
  exact reaches_later (by omega) h.clear h.walk

theorem Walked.unfolds (h : Walked graph completions point roots place remaining next) :
    point ≠ some place ∧ ((.after place ∈ completions.places ∧
        next = (graph.unwindDest place).toList) ∨
      (.after place ∉ completions.places ∧
        reaches graph completions.places point place.block
          (graph.length place.block - place.index - 1) = some next)) := by
  have hhere := h.here
  have hinside := h.inside
  obtain ⟨rest, hrest⟩ : ∃ rest, graph.length place.block - place.index = rest + 1 :=
    ⟨graph.length place.block - place.index - 1, by omega⟩
  have hindex : graph.length place.block - (rest + 1) = place.index := by omega
  rw [hrest] at hhere ⊢
  unfold reaches at hhere
  rw [hindex] at hhere
  dsimp only at hhere
  split at hhere
  · cases hhere
  · rename_i hpoint
    refine ⟨hpoint, ?_⟩
    split at hhere
    · rename_i hafter
      exact .inl ⟨hafter, by simpa using hhere.symm⟩
    · rename_i hafter
      exact .inr ⟨hafter, hhere⟩

theorem Walked.not_ends (h : Walked graph completions point roots place remaining next) :
    ¬Ends graph point place := by
  obtain ⟨hpoint, hrest⟩ := h.unfolds
  have hinside := h.inside
  rintro (hhere | ⟨hnone, hret, hlast⟩)
  · exact hpoint hhere
  · have hindex : place.index = graph.length place.block - 1 := congrArg Point.index hlast
    rcases hrest with ⟨hafter, _⟩ | ⟨_, hsome⟩
    · exact completions.notReturns place hafter (by omega) hret
    · have hzero : graph.length place.block - place.index - 1 = 0 := by omega
      rw [hzero] at hsome
      unfold reaches at hsome
      rw [if_pos ⟨hnone, hret⟩] at hsome
      cases hsome

-- Past an edge that completes nothing the search has found the block.
theorem Walked.edge {block successor : Nat} {unwinds : Bool}
    (h : Walked graph completions point roots (graph.last block) remaining next)
    (hedge : (successor, unwinds) ∈ (graph.exit block).edges)
    (hnot : ¬Completes graph completions.places (.edge block successor unwinds)) :
    Search.Found (reachesBlock graph completions.places point) roots successor := by
  simp only [Completes, not_or, not_and] at hnot
  obtain ⟨hnormal, hbranch⟩ := hnot
  obtain ⟨_, hrest⟩ := h.unfolds
  apply h.found
  rcases hrest with ⟨hafter, rfl⟩ | ⟨_, hsome⟩
  · have hunwinds : unwinds = true := by simpa using hnormal hafter
    subst hunwinds
    rw [FlowGraph.unwindDest_of_mem hedge]
    exact List.mem_singleton_self _
  · have hpos := FlowGraph.length_pos_iff.mpr (FlowGraph.mem_edges_lt hedge).1
    have hzero : graph.length (graph.last block).block - (graph.last block).index - 1 = 0 := by
      simp only [FlowGraph.last]
      omega
    rw [hzero] at hsome
    unfold reaches at hsome
    split at hsome
    · cases hsome
    · rw [Option.some.injEq] at hsome
      rw [← hsome]
      exact List.mem_filter.mpr ⟨List.mem_map_of_mem hedge, decide_eq_true hbranch⟩

theorem walked_of_found {block : Nat} (hinside : 0 < graph.length block)
    (hfound : Search.Found (reachesBlock graph completions.places point) roots block)
    (hvisit : reachesBlock graph completions.places point block ≠ none) :
    ∃ next, Walked graph completions point roots ⟨block, 0⟩ (graph.length block) next := by
  obtain ⟨next, hnext⟩ := Option.ne_none_iff_exists'.mp hvisit
  refine ⟨next, hnext, le_rfl, ?_, hinside, ?_, fun successor hmem => hfound.step hnext hmem⟩
  · dsimp only
    omega
  · intro other hlow hhigh
    dsimp only at hlow hhigh
    omega

-- Where nothing the search finds makes it give up, each uncompleted path stays in what was walked.
theorem Uncompleted.walked (hstart : start.index < graph.length start.block)
    (hroots : reaches graph completions.places point start.block
      (graph.length start.block - start.index) = some roots)
    (hvisit : ∀ block, Search.Found (reachesBlock graph completions.places point) roots block →
      reachesBlock graph completions.places point block ≠ none)
    (h : Uncompleted graph completions.places start place) :
    ∃ remaining next, Walked graph completions point roots place remaining next := by
  induction h with
  | start =>
      refine ⟨_, roots, hroots, Nat.sub_le _ _, by omega, hstart, ?_, fun _ hmem => .root hmem⟩
      exact fun other hlow hhigh => absurd hhigh (by omega)
  | @move before after move _ htakes hnot ih =>
      obtain ⟨remaining, next, hwalked⟩ := ih
      cases htakes with
      | @onward block index hlt =>
          refine ⟨remaining, next, hwalked.walk, hwalked.bound, ?_, hlt, ?_, hwalked.found⟩
          · have hpast := hwalked.past
            dsimp only at hpast ⊢
            omega
          · intro other hlow hhigh
            by_cases hhere : other = graph.length block - index
            · subst hhere
              have hindex : graph.length block - (graph.length block - index) = index := by omega
              rw [hindex]
              exact hnot
            · refine hwalked.clear other ?_ hhigh
              dsimp only at hlow ⊢
              omega
      | @edge block successor unwinds hedge =>
          have hfound := hwalked.edge hedge hnot
          have hinside := FlowGraph.length_pos_iff.mpr (FlowGraph.mem_edges_lt hedge).2
          obtain ⟨found, hfoundWalked⟩ := walked_of_found hinside hfound (hvisit _ hfound)
          exact ⟨_, found, hfoundWalked⟩

end Complete

section CompletedOnEveryPath

variable {graph : FlowGraph} {completions : Completions graph} {point : Option Point}

theorem mem_onward_lt (block : Nat) :
    ∀ successor ∈ Search.onward (reachesBlock graph completions.places point) block,
      successor ∈ Finset.range graph.blocks.length := by
  intro successor h
  unfold Search.onward at h
  cases hvisit : reachesBlock graph completions.places point block with
  | none => simp [hvisit] at h
  | some next =>
      rw [hvisit, Option.getD_some] at h
      exact Finset.mem_range.mpr (successor_lt_of_reaches hvisit h)

theorem completedOnEveryPath_iff (start : graph.Place) :
    completedOnEveryPath graph start.toPoint completions.places point = true ↔
      ∀ place, Uncompleted graph completions.places start.toPoint place → ¬Ends graph point place := by
  have hinside := start.inside
  have hindex : graph.length start.block - (graph.length start.block - start.index) = start.index := by
    omega
  have hbegin : Uncompleted graph completions.places start.toPoint
      ⟨start.block, graph.length start.block - (graph.length start.block - start.index)⟩ := by
    rw [hindex]
    exact .start
  unfold completedOnEveryPath
  cases hroots : reaches graph completions.places point start.block
      (graph.length start.block - start.index) with
  | none =>
      simp only [Bool.false_eq_true, false_iff, not_forall, not_not]
      obtain ⟨place, hplace, hends⟩ :=
        hbegin.ends_of_none (Nat.sub_le _ _) (by omega) hroots
      exact ⟨place, hplace, hends⟩
  | some roots =>
      have hrootsBound : ∀ root ∈ roots, root ∈ Finset.range graph.blocks.length :=
        fun root hroot => Finset.mem_range.mpr (successor_lt_of_reaches hroots hroot)
      dsimp only
      rw [Search.probe_roots_iff (Finset.range graph.blocks.length) mem_onward_lt hrootsBound
        (Finset.card_range _).le]
      constructor
      · intro hvisit place hplace
        obtain ⟨_, _, hwalked⟩ := hplace.walked hinside hroots hvisit
        exact hwalked.not_ends
      · intro hno block hfound
        have huncompleted : Uncompleted graph completions.places start.toPoint ⟨block, 0⟩ ∧
            block < graph.blocks.length := by
          induction hfound with
          | root hmem =>
              exact ⟨hbegin.successor_of_some (Nat.sub_le _ _) (by omega) hroots hmem,
                Finset.mem_range.mp (hrootsBound _ hmem)⟩
          | @step block next successor _ hvisit hmem ih =>
              have hpos := FlowGraph.length_pos_iff.mpr ih.2
              have hwhole : graph.length block - graph.length block = 0 := Nat.sub_self _
              exact ⟨Uncompleted.successor_of_some (hwhole.symm ▸ ih.1) le_rfl hpos hvisit hmem,
                successor_lt_of_reaches hvisit hmem⟩
        intro hnone
        have hpos := FlowGraph.length_pos_iff.mpr huncompleted.2
        have hwhole : graph.length block - graph.length block = 0 := Nat.sub_self _
        obtain ⟨place, hplace, hends⟩ :=
          Uncompleted.ends_of_none (hwhole.symm ▸ huncompleted.1) le_rfl hpos hnone
        exact hno place hplace hends

theorem completedOnEveryPath_iff_of_placed {places : List JoinSuccess}
    (hplaced : ∀ success ∈ places, PlacedSuccess graph success) (point : Option Point) {start : Point}
    (hinside : start.index < graph.length start.block) :
    completedOnEveryPath graph start places point = true ↔
      ∀ place, Uncompleted graph places start place → ¬Ends graph point place :=
  @completedOnEveryPath_iff graph
    ⟨places, fun _ _ h => (hplaced _ h).ofBranch _ _ rfl, fun _ h => (hplaced _ h).notReturn _ rfl⟩ point
    ⟨start, hinside⟩

end CompletedOnEveryPath

section PassesThrough

variable {graph : FlowGraph} {start through target place : Point} {block first : Nat}
  {next roots : List Nat}

theorem goesOn_eq_none (h : goesOn graph through target block first = none) :
    target.block = block ∧ first ≤ target.index ∧
      ∀ index, first ≤ index → index < target.index → through ≠ ⟨block, index⟩ := by
  unfold goesOn at h
  dsimp only at h
  split at h
  · rename_i hahead
    obtain ⟨⟨hblock, hfirst⟩, hbefore⟩ := hahead
    refine ⟨hblock, hfirst, ?_⟩
    rintro index hlow hhigh rfl
    rcases hbefore with hnot | hlt
    · exact hnot ⟨rfl, hlow⟩
    · dsimp only at hlt
      omega
  · split at h
    · cases h
    · cases h

-- A round that goes on comes to `through` before the target, or to neither.
theorem goesOn_eq_some (h : goesOn graph through target block first = some next) :
    (target.block = block → first ≤ target.index →
      (through.block = block ∧ first ≤ through.index ∧ through.index ≤ target.index)) ∧
    ((through.block = block ∧ first ≤ through.index ∧ next = (graph.unwindDest through).toList) ∨
      ((through.block = block → through.index < first) ∧ next = graph.successors block)) := by
  unfold goesOn at h
  dsimp only at h
  split at h
  · cases h
  · rename_i hahead
    refine ⟨?_, ?_⟩
    · intro hblock hfirst
      by_contra hnot
      refine hahead ⟨⟨hblock, hfirst⟩, ?_⟩
      by_cases hthrough : through.block = block ∧ first ≤ through.index
      · right
        by_contra hlt
        exact hnot ⟨hthrough.1, hthrough.2, by omega⟩
      · exact .inl hthrough
    · split at h
      · rename_i hthrough
        exact .inl ⟨hthrough.1, hthrough.2, by simpa using h.symm⟩
      · rename_i hthrough
        refine .inr ⟨fun hblock => ?_, by simpa using h.symm⟩
        by_contra hlarge
        exact hthrough ⟨hblock, by omega⟩

theorem Before.along {last : Nat} (h : Before graph through start ⟨block, first⟩) (hle : first ≤ last)
    (hinside : last < graph.length block)
    (hnot : ∀ index, first ≤ index → index < last → through ≠ ⟨block, index⟩) :
    Before graph through start ⟨block, last⟩ := by
  induction last with
  | zero =>
      have : first = 0 := by omega
      exact this ▸ h
  | succ last ih =>
      by_cases heq : first = last + 1
      · exact heq ▸ h
      · have hbefore := ih (by omega) (by omega) fun index hlow hhigh => hnot index hlow (by omega)
        exact hbefore.move (.onward hinside) fun hpast => hnot last (by omega) (by omega) hpast.symm

-- What a round finds is what paths find that come to where the round begins.
theorem Before.target_of_none (hbegin : first < graph.length block →
      Before graph through start ⟨block, first⟩) (hinside : target.index < graph.length target.block)
    (h : goesOn graph through target block first = none) : Before graph through start target := by
  obtain ⟨rfl, hfirst, hnot⟩ := goesOn_eq_none h
  exact (hbegin (by omega)).along hfirst hinside hnot

theorem Before.successor_of_some (hbegin : first < graph.length block →
      Before graph through start ⟨block, first⟩)
    (hend : ∀ successor unwinds, graph.length block ≤ first →
      (successor, unwinds) ∈ (graph.exit block).edges → Before graph through start ⟨successor, 0⟩)
    (hinside : through.index < graph.length through.block)
    (h : goesOn graph through target block first = some next) {successor : Nat}
    (hsuccessor : successor ∈ next) : Before graph through start ⟨successor, 0⟩ := by
  rcases (goesOn_eq_some h).2 with ⟨rfl, hfirst, rfl⟩ | ⟨hbehind, rfl⟩
  · rw [Option.mem_toList] at hsuccessor
    obtain ⟨hlast, hedge, _⟩ := FlowGraph.unwindDest_eq_some hsuccessor
    have hplace := (hbegin (by omega)).along hfirst hinside
      fun index _ hlt heq => by rw [heq] at hlt; exact absurd hlt (lt_irrefl _)
    have hmove : graph.Takes (.edge through.block successor true) through ⟨successor, 0⟩ := by
      have htakes := FlowGraph.Takes.edge hedge
      rwa [← hlast] at htakes
    exact hplace.move hmove fun hpast => by cases hpast.2
  · obtain ⟨⟨_, unwinds⟩, hedge, rfl⟩ := List.mem_map.mp hsuccessor
    have hpos := FlowGraph.length_pos_iff.mpr (FlowGraph.mem_edges_lt hedge).1
    by_cases hshort : graph.length block ≤ first
    · exact hend _ _ hshort hedge
    · have hplace : Before graph through start ⟨block, graph.length block - 1⟩ := by
        refine (hbegin (by omega)).along (by omega) (by omega) ?_
        intro index hlow _ heq
        rw [heq] at hbehind
        exact absurd (hbehind rfl) (by dsimp only; omega)
      refine hplace.move (.edge hedge) fun hpast => ?_
      have hbehind' := hbehind (by rw [← hpast.1]; rfl)
      rw [← hpast.1] at hbehind'
      simp only [FlowGraph.last] at hbehind'
      omega

-- A place is ahead of where a round that goes on began, with `through` not in between.
structure Passed (graph : FlowGraph) (through target : Point) (roots : List Nat) (place : Point)
    (first : Nat) (next : List Nat) : Prop where
  round : goesOn graph through target place.block first = some next
  past : first ≤ place.index
  inside : place.index < graph.length place.block
  clear : ∀ index, first ≤ index → index < place.index → through ≠ ⟨place.block, index⟩
  found : ∀ successor ∈ next, Worklist.Reaches (goesOnWhole graph through target)
    (roots.map (·, ())).reverse successor ()

theorem Passed.ne_target (h : Passed graph through target roots place first next)
    (hne : through ≠ target) : place ≠ target := by
  rintro rfl
  obtain ⟨hblock, hfirst, hle⟩ := (goesOn_eq_some h.round).1 rfl h.past
  rcases Nat.lt_or_eq_of_le hle with hlt | heq
  · exact h.clear through.index hfirst hlt (by rw [← hblock])
  · obtain ⟨_, _⟩ := through
    obtain ⟨_, _⟩ := place
    exact hne (Point.mk.injEq .. ▸ ⟨hblock, heq⟩)

theorem Passed.edge {successor : Nat} {unwinds : Bool}
    (h : Passed graph through target roots (graph.last block) first next)
    (hinside : through.index < graph.length through.block)
    (hedge : (successor, unwinds) ∈ (graph.exit block).edges)
    (hnot : ¬PastThrough graph through (.edge block successor unwinds)) :
    Worklist.Reaches (goesOnWhole graph through target) (roots.map (·, ())).reverse successor () := by
  apply h.found
  rcases (goesOn_eq_some h.round).2 with ⟨hblock, hfirst, rfl⟩ | ⟨_, rfl⟩
  · have hlast : graph.last block = through := by
      obtain ⟨throughBlock, index⟩ := through
      simp only [FlowGraph.last] at hblock hfirst hinside
      subst hblock
      by_contra hne
      refine h.clear index hfirst ?_ rfl
      simp only [FlowGraph.last, Point.mk.injEq, true_and] at hne ⊢
      omega
    have hunwinds : unwinds = true := by
      by_contra hfalse
      exact hnot ⟨hlast, by simpa using hfalse⟩
    subst hunwinds
    rw [← hlast, FlowGraph.unwindDest_of_mem hedge]
    exact List.mem_singleton_self _
  · exact List.mem_map_of_mem hedge

theorem passed_of_reaches (hblock : 0 < graph.length block)
    (hreaches : Worklist.Reaches (goesOnWhole graph through target)
      (roots.map (·, ())).reverse block ())
    (hround : goesOnWhole graph through target block () ≠ none) :
    ∃ next, Passed graph through target roots ⟨block, 0⟩ 0 next := by
  obtain ⟨pairs, hpairs⟩ := Option.ne_none_iff_exists'.mp hround
  obtain ⟨next, hnext, rfl⟩ := Option.map_eq_some_iff.mp hpairs
  refine ⟨next, hnext, le_rfl, hblock, fun index _ hlt => absurd hlt (Nat.not_lt_zero _), ?_⟩
  exact fun successor hmem => hreaches.step hpairs (List.mem_map_of_mem hmem)

-- Where no round finds the target first, each path before `through` stays in what was walked.
theorem Before.passed (hinside : through.index < graph.length through.block)
    (hstart : start.index < graph.length start.block)
    (hroots : goesOn graph through target start.block (start.index + 1) = some roots)
    (hround : ∀ block, Worklist.Reaches (goesOnWhole graph through target)
      (roots.map (·, ())).reverse block () → goesOnWhole graph through target block () ≠ none)
    (h : Before graph through start place) :
    ∃ first next, Passed graph through target roots place first next := by
  have hroot (successor : Nat) (hmem : successor ∈ roots) :
      Worklist.Reaches (goesOnWhole graph through target) (roots.map (·, ())).reverse successor () :=
    .root (List.mem_reverse.mpr (List.mem_map_of_mem hmem))
  have hfound {successor block : Nat} {unwinds : Bool}
      (hedge : (successor, unwinds) ∈ (graph.exit block).edges)
      (hreaches : Worklist.Reaches (goesOnWhole graph through target)
        (roots.map (·, ())).reverse successor ()) :
      ∃ first next, Passed graph through target roots ⟨successor, 0⟩ first next := by
    have hpos := FlowGraph.length_pos_iff.mpr (FlowGraph.mem_edges_lt hedge).2
    obtain ⟨next, hpassed⟩ := passed_of_reaches hpos hreaches (hround _ hreaches)
    exact ⟨0, next, hpassed⟩
  induction h with
  | @start other move htakes =>
      cases htakes with
      | @onward block index hlt =>
          refine ⟨index + 1, roots, hroots, le_rfl, hlt, ?_, hroot⟩
          exact fun other hlow hhigh => absurd hhigh (by dsimp only; omega)
      | @edge block successor unwinds hedge =>
          refine hfound hedge (hroot _ ?_)
          rcases (goesOn_eq_some hroots).2 with ⟨hblock, hfirst, _⟩ | ⟨_, rfl⟩
          · simp only [FlowGraph.last] at hblock hfirst
            subst hblock
            omega
          · exact List.mem_map_of_mem hedge
  | @move before after move _ htakes hnot ih =>
      obtain ⟨first, next, hpassed⟩ := ih
      cases htakes with
      | @onward block index hlt =>
          have hpast := hpassed.past
          refine ⟨first, next, hpassed.round, by dsimp only at hpast ⊢; omega, hlt, ?_,
            hpassed.found⟩
          intro other hlow hhigh
          by_cases hhere : other = index
          · subst hhere
            exact fun heq => hnot heq.symm
          · exact hpassed.clear other hlow (by dsimp only at hhigh ⊢; omega)
      | @edge block successor unwinds hedge =>
          exact hfound hedge (hpassed.edge hinside hedge hnot)

theorem goesOn_bounds (h : goesOn graph through target block first = some next) :
    (∀ successor ∈ next, successor < graph.blocks.length) ∧
      next.length ≤ (graph.successors block).length := by
  rcases (goesOn_eq_some h).2 with ⟨hblock, _, rfl⟩ | ⟨_, rfl⟩
  · cases hunwind : graph.unwindDest through with
    | none => simp
    | some unwind =>
        obtain ⟨_, hedge, _⟩ := FlowGraph.unwindDest_eq_some hunwind
        rw [hblock] at hedge
        refine ⟨?_, List.length_pos_of_mem (List.mem_map_of_mem hedge)⟩
        intro successor hmem
        rw [Option.toList_some, List.mem_singleton] at hmem
        exact hmem ▸ (FlowGraph.mem_edges_lt hedge).2
  · exact ⟨fun successor => FlowGraph.successor_lt, le_rfl⟩

theorem goesOnWhole_bounds (block : Nat) (level : Unit) (pairs : List (Nat × Unit))
    (h : goesOnWhole graph through target block level = some pairs) :
    (∀ pair ∈ pairs, pair.1 ∈ Finset.range graph.blocks.length) ∧
      pairs.length ≤ (graph.successors block).length := by
  obtain ⟨next, hnext, rfl⟩ := Option.map_eq_some_iff.mp h
  obtain ⟨hlt, hlength⟩ := goesOn_bounds hnext
  rw [List.length_map]
  refine ⟨?_, hlength⟩
  intro pair hmem
  obtain ⟨successor, hsuccessor, rfl⟩ := List.mem_map.mp hmem
  exact Finset.mem_range.mpr (hlt successor hsuccessor)

theorem passesThrough_iff (start through target : graph.Place)
    (hne : through.toPoint ≠ target.toPoint) :
    passesThrough graph start.toPoint through.toPoint target.toPoint = true ↔
      ¬Before graph through.toPoint start.toPoint target.toPoint := by
  have hstart := start.inside
  have hbegin : start.index + 1 < graph.length start.block →
      Before graph through.toPoint start.toPoint ⟨start.block, start.index + 1⟩ :=
    fun hlt => .start (.onward hlt)
  unfold passesThrough
  cases hroots : goesOn graph through.toPoint target.toPoint start.block (start.index + 1) with
  | none =>
      simp only [Bool.false_eq_true, false_iff, not_not]
      exact Before.target_of_none hbegin target.inside hroots
  | some roots =>
      have hfirst : ∀ successor ∈ roots, Before graph through.toPoint start.toPoint ⟨successor, 0⟩ := by
        intro successor hmem
        refine Before.successor_of_some hbegin ?_ through.inside hroots hmem
        intro other unwinds hlast hedge
        have htakes := FlowGraph.Takes.edge hedge
        have hhere : graph.last start.block = start.toPoint := by
          obtain ⟨⟨block, index⟩, inside⟩ := start
          simp only [FlowGraph.last, Point.mk.injEq, true_and]
          dsimp only at hlast inside
          omega
        exact .start (hhere ▸ htakes)
      have hbound : ∀ pair ∈ (roots.map (·, ())).reverse,
          pair.1 ∈ Finset.range graph.blocks.length := by
        intro pair hmem
        obtain ⟨successor, hsuccessor, rfl⟩ := List.mem_map.mp (List.mem_reverse.mp hmem)
        exact Finset.mem_range.mpr ((goesOn_bounds hroots).1 successor hsuccessor)
      have hfuel : (roots.map (·, ())).reverse.length +
          ∑ block ∈ Finset.range graph.blocks.length, (1 + (graph.successors block).length) ≤
          roots.length +
            ∑ block ∈ Finset.range graph.blocks.length, (1 + (graph.successors block).length) := by
        rw [List.length_reverse, List.length_map]
      dsimp only
      have hbounds := @goesOnWhole_bounds graph through.toPoint target.toPoint
      have hexact := Worklist.run_isSome_iff hbound
        (fun block level pairs h => (hbounds block level pairs h).1)
        (fun block level pairs h => (hbounds block level pairs h).2) hfuel
      rw [hexact]
      constructor
      · intro hround hbefore
        obtain ⟨_, _, hpassed⟩ := hbefore.passed through.inside hstart hroots hround
        exact hpassed.ne_target hne rfl
      · intro hno block hreaches
        have hplace : Before graph through.toPoint start.toPoint ⟨block, 0⟩ := by
          generalize hunit : () = level at hreaches
          induction hreaches with
          | root hmem =>
              rw [List.mem_reverse] at hmem
              obtain ⟨successor, hsuccessor, heq⟩ := List.mem_map.mp hmem
              rw [Prod.mk.injEq] at heq
              exact heq.1 ▸ hfirst successor hsuccessor
          | @step block _ pairs successor _ _ hpairs hmem ih =>
              obtain ⟨next, hnext, rfl⟩ := Option.map_eq_some_iff.mp hpairs
              obtain ⟨_, hsuccessor, heq⟩ := List.mem_map.mp hmem
              rw [Prod.mk.injEq] at heq
              refine heq.1 ▸ Before.successor_of_some (fun _ => ih rfl) ?_ through.inside hnext hsuccessor
              intro other unwinds hlast hedge
              have hpos := FlowGraph.length_pos_iff.mpr (FlowGraph.mem_edges_lt hedge).1
              omega
        intro hnone
        have hround : goesOn graph through.toPoint target.toPoint block 0 = none :=
          Option.map_eq_none_iff.mp hnone
        exact hno (Before.target_of_none (fun _ => hplace) target.inside hround)

end PassesThrough

section Exact

theorem path_searches_exact (graph : FlowGraph) (completions : Completions graph)
    (point : Option Point) (start through target : graph.Place)
    (hne : through.toPoint ≠ target.toPoint) :
    (completedOnEveryPath graph start.toPoint completions.places point = true ↔
      ∀ place, Uncompleted graph completions.places start.toPoint place → ¬Ends graph point place) ∧
    (passesThrough graph start.toPoint through.toPoint target.toPoint = true ↔
      ¬Before graph through.toPoint start.toPoint target.toPoint) :=
  ⟨completedOnEveryPath_iff start, passesThrough_iff start through target hne⟩

-- A loop around a join by an invoke: along its unwind edge a path returns with nothing completed.
def joinLoop : FlowGraph where
  blocks := [⟨1, .branch [1], by decide⟩, ⟨2, .branch [2, 3], by decide⟩,
    ⟨2, .invoke 1 3, by decide⟩, ⟨1, .ret, by decide⟩]

def joinLoopCompletions : Completions joinLoop where
  places := [.branch 1 3, .after ⟨2, 1⟩]
  ofBranches block successor h := by
    simp only [List.mem_cons, JoinSuccess.branch.injEq, reduceCtorEq, List.not_mem_nil,
      or_false] at h
    exact ⟨[2, 3], h.1 ▸ rfl⟩
  notReturns point h _ := by
    simp only [List.mem_cons, JoinSuccess.after.injEq, reduceCtorEq, List.not_mem_nil,
      or_false, false_or] at h
    exact h ▸ by decide

theorem path_searches_exact_joinLoop :
    ¬(∀ place, Uncompleted joinLoop joinLoopCompletions.places ⟨0, 0⟩ place →
      ¬Ends joinLoop none place) ∧ ¬Before joinLoop ⟨1, 0⟩ ⟨0, 0⟩ ⟨3, 0⟩ := by
  have hexact := path_searches_exact joinLoop joinLoopCompletions none ⟨⟨0, 0⟩, by decide⟩
    ⟨⟨1, 0⟩, by decide⟩ ⟨⟨3, 0⟩, by decide⟩ (by decide)
  have huncompleted : completedOnEveryPath joinLoop ⟨0, 0⟩ joinLoopCompletions.places none = false :=
    by decide
  have hpasses : passesThrough joinLoop ⟨0, 0⟩ ⟨1, 0⟩ ⟨3, 0⟩ = true := by decide
  refine ⟨fun h => ?_, hexact.2.mp hpasses⟩
  exact absurd (hexact.1.mpr h) (by rw [huncompleted]; exact Bool.false_ne_true)

end Exact

end ConcurrencyAnalyzer.ThreadCompletion
