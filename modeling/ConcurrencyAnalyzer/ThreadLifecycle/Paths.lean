import ConcurrencyAnalyzer.Program.FlowGraph
import ConcurrencyAnalyzer.Library.Search
import Mathlib.Data.List.Chain

namespace ConcurrencyAnalyzer.Program.FlowGraph

open Relation Library

section Runs

variable (graph : FlowGraph)

def Follows (point next : Point) : Prop := ∃ move, graph.Takes move point next

def returnBlocks : List Nat :=
  (List.range graph.blocks.length).filter fun block => graph.exit block = .ret

def IsReturn (point : Point) : Prop :=
  point.block < graph.blocks.length ∧ graph.exit point.block = .ret ∧ point = graph.last point.block

-- A run from an instruction, by those it goes on to, that ends in a return of the function.
structure ReturningRun (start : Point) (after : List Point) (final : Point) : Prop where
  follows : (start :: after).IsChain graph.Follows
  ends : (start :: after).getLast? = some final
  returns : graph.IsReturn final

-- The blocks led to around a block.
def Around (excluded : Nat) : Nat → Nat → Prop :=
  ReflTransGen fun block successor => successor ∈ graph.successors block ∧ successor ≠ excluded

def successorsAround (excluded block : Nat) : List Nat :=
  (graph.successors block).filter (· ≠ excluded)

-- Where paths lead around a block, found by a search of them all.
def reachableAround (start finish excluded : Nat) : Bool :=
  decide (start = finish ∨ finish ∈ Search.search (graph.successorsAround excluded) (fun _ => true)
    (graph.blocks.length + 1) ∅ [start])

end Runs

section Passing

variable {graph : FlowGraph} {excluded : Nat} {site start final : Point} {after : List Point}

theorem point_eq {point other : Point} (hblock : point.block = other.block)
    (hindex : point.index = other.index) : point = other := by
  obtain ⟨block, index⟩ := point
  obtain ⟨_, _⟩ := other
  obtain rfl : block = _ := hblock
  obtain rfl : index = _ := hindex
  rfl

theorem mem_returnBlocks {block : Nat} :
    block ∈ graph.returnBlocks ↔ block < graph.blocks.length ∧ graph.exit block = .ret := by
  simp [returnBlocks]

theorem IsReturn.block_mem (h : graph.IsReturn final) : final.block ∈ graph.returnBlocks :=
  mem_returnBlocks.mpr ⟨h.1, h.2.1⟩

theorem ReturningRun.tail {next : Point} {rest : List Point}
    (h : graph.ReturningRun start (next :: rest) final) : graph.ReturningRun next rest final :=
  ⟨h.follows.tail, by simpa using h.ends, h.returns⟩

theorem ReturningRun.step {next : Point} {rest : List Point}
    (h : graph.ReturningRun start (next :: rest) final) : graph.Follows start next :=
  (List.isChain_cons_cons.mp h.follows).1

theorem ReturningRun.cons {next : Point} {rest : List Point} (h : graph.ReturningRun next rest final)
    (hstep : graph.Follows start next) : graph.ReturningRun start (next :: rest) final :=
  ⟨List.isChain_cons_cons.mpr ⟨hstep, h.follows⟩, by simpa using h.ends, h.returns⟩

-- A run that has yet to get to an instruction gets there, or goes around its block.
theorem ReturningRun.passes_or_around (hsite : site.index < graph.length site.block)
    (h : graph.ReturningRun start after final) (hbefore : start.block = site.block → start.index ≤ site.index) :
    site ∈ start :: after ∨
      (start.block ≠ site.block ∧ final.block ≠ site.block ∧
        graph.Around site.block start.block final.block) := by
  induction after generalizing start with
  | nil =>
      obtain rfl : start = final := by simpa using h.ends
      by_cases hblock : start.block = site.block
      · have hlast := congrArg Point.index h.returns.2.2
        have hle := hbefore hblock
        simp only [last, hblock] at hlast
        have hsame : start = site := point_eq hblock (by omega)
        exact .inl (hsame ▸ List.mem_cons_self ..)
      · exact .inr ⟨hblock, hblock, .refl⟩
  | cons next rest ih =>
      obtain ⟨move, htakes⟩ := h.step
      have honward (hnext : next.block = site.block → next.index ≤ site.index)
          (haround : next.block ≠ site.block → start.block ≠ site.block ∧
            (next.block = start.block ∨ next.block ∈ graph.successors start.block)) :
          site ∈ start :: next :: rest ∨
            (start.block ≠ site.block ∧ final.block ≠ site.block ∧
              graph.Around site.block start.block final.block) := by
        rcases ih h.tail hnext with hmem | ⟨hblock, hfinal, hpath⟩
        · exact .inl (List.mem_cons_of_mem _ hmem)
        · obtain ⟨hstart, hsame | hsuccessor⟩ := haround hblock
          · exact .inr ⟨hstart, hfinal, hsame ▸ hpath⟩
          · exact .inr ⟨hstart, hfinal, hpath.head ⟨hsuccessor, hblock⟩⟩
      by_cases hhere : start = site
      · exact .inl (hhere ▸ List.mem_cons_self ..)
      · cases htakes with
        | onward hlt =>
            rename_i block index
            refine honward (fun hblock => ?_) fun hblock => ⟨hblock, .inl rfl⟩
            have hle := hbefore hblock
            have hne : index ≠ site.index := fun hindex => hhere (point_eq hblock hindex)
            show index + 1 ≤ site.index
            dsimp only at hle
            omega
        | edge hedge =>
            rename_i block successor unwinds
            refine honward (fun _ => Nat.zero_le _) fun _ => ⟨fun hblock => ?_, .inr ?_⟩
            · have hle := hbefore hblock
              refine hhere (point_eq hblock ?_)
              have hlast : (graph.last block).index + 1 = graph.length site.block := by
                rw [← hblock]
                have hpos := length_pos_iff.mpr (mem_edges_lt hedge).1
                show graph.length block - 1 + 1 = graph.length block
                omega
              omega
            · exact List.mem_map_of_mem (f := Prod.fst) hedge

theorem mem_successorsAround {block successor : Nat} :
    successor ∈ graph.successorsAround excluded block ↔
      successor ∈ graph.successors block ∧ successor ≠ excluded := by
  simp [successorsAround]

theorem reachableAround_iff {block finish : Nat} :
    graph.reachableAround block finish excluded = true ↔ graph.Around excluded block finish := by
  have hbound (place : Nat) : ∀ successor ∈ graph.successorsAround excluded place,
      successor ∈ Finset.range graph.blocks.length := fun successor h =>
    Finset.mem_range.mpr (successor_lt (mem_successorsAround.mp h).1)
  unfold reachableAround
  rw [decide_eq_true_eq]
  constructor
  · rintro (rfl | hmem)
    · exact .refl
    · refine Search.search_sound (P := graph.Around excluded block) ?_ _ _ _ (by simp) ?_ finish hmem
      · exact fun place hplace successor h => hplace.tail (mem_successorsAround.mp h)
      · exact List.forall_mem_singleton.mpr .refl
  · intro hpath
    rcases reflTransGen_iff_eq_or_transGen.mp hpath with hsame | htrans
    · exact .inl hsame.symm
    · refine .inr (Search.mem_search_of_reaches (Finset.range graph.blocks.length) hbound (by simp) ?_)
      exact TransGen.mono (fun place successor h => ⟨mem_successorsAround.mpr h, rfl⟩) _ _ htrans

end Passing

section Around

variable {graph : FlowGraph} {excluded block : Nat} {start final : Point} {after : List Point}

-- A run from the end of a block is one from anywhere in it.
theorem exists_run_of_last (hstart : start.index < graph.length start.block)
    (h : graph.ReturningRun (graph.last start.block) after final)
    {P : Point → Prop} (hafter : ∀ point ∈ after, P point)
    (honward : ∀ index, start.index < index → P ⟨start.block, index⟩) :
    ∃ passed, graph.ReturningRun start passed final ∧ ∀ point ∈ passed, P point := by
  obtain ⟨left, hleft⟩ : ∃ left, start.index + left + 1 = graph.length start.block :=
    ⟨graph.length start.block - start.index - 1, by omega⟩
  induction left generalizing start with
  | zero =>
      have hlast : graph.last start.block = start := point_eq rfl (by simp only [last]; omega)
      exact ⟨after, hlast ▸ h, hafter⟩
  | succ left ih =>
      obtain ⟨block, index⟩ := start
      dsimp only at hstart hleft honward h
      obtain ⟨passed, hrun, hpassed⟩ := @ih ⟨block, index + 1⟩ (by dsimp only; omega) h
        (fun other hlt => honward other (by dsimp only at hlt; omega)) (by dsimp only; omega)
      refine ⟨⟨block, index + 1⟩ :: passed, hrun.cons ⟨_, .onward (by omega)⟩, ?_⟩
      exact List.forall_mem_cons.mpr ⟨honward _ (Nat.lt_succ_self _), hpassed⟩

-- A path around a block is the path of a run that is never in it.
theorem exists_run_around {finish : Nat} (hpath : graph.Around excluded block finish)
    (hfinish : finish ∈ graph.returnBlocks) (hblock : block ≠ excluded) :
    ∀ index < graph.length block, ∃ after final, graph.ReturningRun ⟨block, index⟩ after final ∧
      ∀ point ∈ after, point.block ≠ excluded := by
  induction hpath using ReflTransGen.head_induction_on with
  | refl =>
      intro index hindex
      obtain ⟨hlt, hreturns⟩ := mem_returnBlocks.mp hfinish
      have hlast : graph.ReturningRun (graph.last finish) [] (graph.last finish) :=
        ⟨by simp, rfl, hlt, hreturns, rfl⟩
      obtain ⟨passed, hrun, hpassed⟩ := @exists_run_of_last _ ⟨finish, index⟩ _ _ hindex hlast
        (fun point => point.block ≠ excluded) (by simp) fun _ _ => hblock
      exact ⟨passed, _, hrun, hpassed⟩
  | @head place successor hstep _ ih =>
      intro index hindex
      obtain ⟨⟨_, unwinds⟩, hedge, rfl⟩ := List.mem_map.mp hstep.1
      obtain ⟨after, final, hrun, hafter⟩ :=
        ih hstep.2 0 (length_pos_iff.mpr (mem_edges_lt hedge).2)
      have hlast := hrun.cons ⟨_, .edge hedge⟩
      obtain ⟨passed, hwhole, hpassed⟩ := @exists_run_of_last _ ⟨place, index⟩ _ _ hindex hlast
        (fun point => point.block ≠ excluded) (List.forall_mem_cons.mpr ⟨hstep.2, hafter⟩)
        fun _ _ => hblock
      exact ⟨passed, final, hwhole, hpassed⟩

-- A path from a block need not come back to it.
theorem around_of_path {finish : Nat}
    (hpath : ReflTransGen (fun block successor => successor ∈ graph.successors block) block finish) :
    finish = block ∨ ∃ successor ∈ graph.successors block, successor ≠ block ∧
      graph.Around block successor finish := by
  have hfrom (place : Nat) (h : ReflTransGen (fun block successor =>
      successor ∈ graph.successors block) place finish) :
      (place ≠ block ∧ graph.Around block place finish) ∨ finish = block ∨
        ∃ successor ∈ graph.successors block, successor ≠ block ∧ graph.Around block successor finish := by
    induction h using ReflTransGen.head_induction_on with
    | refl =>
        by_cases hsame : finish = block
        · exact .inr (.inl hsame)
        · exact .inl ⟨hsame, .refl⟩
    | @head place successor hstep _ ih =>
        rcases ih with ⟨hne, haround⟩ | hfound
        · by_cases hsame : place = block
          · exact .inr (.inr ⟨successor, hsame ▸ hstep, hne, haround⟩)
          · exact .inl ⟨hsame, haround.head ⟨hstep, hne⟩⟩
        · exact .inr hfound
  exact (hfrom block hpath).resolve_left fun h => h.1 rfl

theorem ReturningRun.path (h : graph.ReturningRun start after final) :
    ReflTransGen (fun block successor => successor ∈ graph.successors block) start.block final.block := by
  induction after generalizing start with
  | nil =>
      obtain rfl : start = final := by simpa using h.ends
      exact .refl
  | cons next rest ih =>
      obtain ⟨move, htakes⟩ := h.step
      have hrest := ih h.tail
      cases htakes with
      | onward _ => exact hrest
      | edge hedge => exact hrest.head (List.mem_map_of_mem (f := Prod.fst) hedge)

-- A run that returns may do so without coming back to what is before its start.
theorem exists_run_onward (hstart : start.index < graph.length start.block)
    (h : graph.ReturningRun start after final) :
    ∃ passed other, graph.ReturningRun start passed other ∧
      ∀ point ∈ passed, point.block = start.block → start.index < point.index := by
  rcases around_of_path h.path with hsame | ⟨successor, hsuccessor, hne, haround⟩
  · have hlast : graph.ReturningRun (graph.last start.block) [] (graph.last start.block) := by
      have hreturns := h.returns
      exact ⟨by simp, rfl, by rw [← hsame]; exact ⟨hreturns.1, hreturns.2.1, rfl⟩⟩
    obtain ⟨passed, hrun, hpassed⟩ := exists_run_of_last hstart hlast
      (P := fun point => point.block = start.block → start.index < point.index) (by simp)
      fun _ hlt _ => hlt
    exact ⟨passed, _, hrun, hpassed⟩
  · obtain ⟨⟨_, unwinds⟩, hedge, rfl⟩ := List.mem_map.mp hsuccessor
    obtain ⟨after, final, hrun, hafter⟩ := exists_run_around haround h.returns.block_mem hne 0
      (length_pos_iff.mpr (mem_edges_lt hedge).2)
    obtain ⟨passed, hwhole, hpassed⟩ := exists_run_of_last hstart (hrun.cons ⟨_, .edge hedge⟩)
      (P := fun point => point.block = start.block → start.index < point.index)
      (List.forall_mem_cons.mpr ⟨fun hblock => absurd hblock hne,
        fun point hmem hblock => absurd hblock (hafter point hmem)⟩) fun _ hlt _ => hlt
    exact ⟨passed, final, hwhole, hpassed⟩

end Around

end ConcurrencyAnalyzer.Program.FlowGraph
